import Mathlib.Algebra.Order.Ring.Int
import Mathlib.Data.List.GetD
import Mathlib.Data.Nat.Find

/-!
# Descriptors of compiled code and their lookup

`PcDescCache`, `copy_scopes_pcs`, `linear_search` and `find_pc_desc_internal` of `nmethod.cpp`. A `PcDesc*` is an index
into the descriptors; a read outside them is `none`.
-/

namespace Rolp.Code

structure PcDesc where
  pcOffset : Int
  scopeDecodeOffset : Int
  objDecodeOffset : Int
  flags : Nat
  deriving DecidableEq, Inhabited

/-- `lower_offset_limit` and `upper_offset_limit`, the exclusive limits of real offsets. -/
def lowerOffsetLimit : Int := -1

def upperOffsetLimit : Int := 2 ^ 31 - 1

/-- What the lookup reads of an `nmethod`. `before` is the word in the place of the offset of a descriptor before the
first one. -/
structure NMethod where
  scopesPcs : List PcDesc
  contentSize : Int
  before : Int

namespace NMethod

variable (nm : NMethod)

/-- `copy_scopes_pcs`: the last sentinel is lowered to the end of the code, and fills the rest of the `slots`
descriptors. -/
def copyScopesPcs (pcs : List PcDesc) (slots : Nat) : NMethod :=
  let lastPc := { pcs.getLastD default with pcOffset := nm.contentSize + 1 }
  { nm with scopesPcs := pcs.dropLast ++ List.replicate (slots - (pcs.length - 1)) lastPc }

def pcOffset (pc : Nat) : Option Int := nm.scopesPcs[pc]?.map PcDesc.pcOffset

def prevOffset : Nat → Option Int
  | 0 => some nm.before
  | pc + 1 => nm.pcOffset pc

def matchDesc (pc : Nat) (pcOffset : Int) (approximate : Bool) : Option Bool := do
  if !approximate then
    let offset ← nm.pcOffset pc
    return offset == pcOffset
  else
    let prev ← nm.prevOffset pc
    let offset ← nm.pcOffset pc
    return decide (prev < pcOffset) && decide (pcOffset ≤ offset)

end NMethod

/-! ## The cache -/

/-- `_pc_descs`; `none` is `NULL`. -/
abbrev PcDescCache := List (Option Nat)

namespace PcDescCache

def cacheSize : Nat := 4

/-- `reset_to` with the initial sentinel. -/
def resetTo (initialPcDesc : Nat) : PcDescCache := List.replicate cacheSize (some initialPcDesc)

def findRest (nm : NMethod) (pcOffset : Int) (approximate : Bool) : List (Option Nat) → Option (Option Nat)
  | [] => some none
  | none :: _ => none
  | some res :: rest => do
    let offset ← nm.pcOffset res
    if offset < 0 then return none
    else if ← nm.matchDesc res pcOffset approximate then return some res
    else findRest nm pcOffset approximate rest

def findPcDesc (nm : NMethod) (pcOffset : Int) (approximate : Bool) : PcDescCache → Option (Option Nat)
  | [] => none
  | none :: _ => some none
  | some res :: rest => do
    if ← nm.matchDesc res pcOffset approximate then return some res
    else findRest nm pcOffset approximate rest

def addPcDesc (pcDesc : Option Nat) : PcDescCache → PcDescCache
  | [] => []
  | next :: rest => pcDesc :: addPcDesc next rest

def lastPcDesc (cache : PcDescCache) : Option Nat := cache.head?.join

end PcDescCache

/-! ## The search -/

/-- What `linear_search` returns: `NULL`, a descriptor, or `badAddress` if two of them match. -/
inductive Found where
  | null
  | desc (pc : Nat)
  | badAddress
  deriving DecidableEq

def Found.ofOption : Option Nat → Found
  | none => .null
  | some pc => .desc pc

structure Bracket where
  lower : Nat
  upper : Nat

namespace NMethod

variable (nm : NMethod)

variable (pcOffset : Int) (approximate : Bool)

def linearStep (res : Found) (pc : Nat) : Option Found := do
  if ← nm.matchDesc pc pcOffset approximate then
    return if res = .null then .desc pc else .badAddress
  else return res

def linearSearch : Option Found :=
  (List.range' 1 (nm.scopesPcs.length - 1)).foldlM (nm.linearStep pcOffset approximate) .null

/-- The inner loop: steps of one size, until a step would pass `upper` or the offset. -/
def stepLoop (nm : NMethod) (pcOffset : Int) (step : Nat) : Nat → Bracket → Option Bracket
  | 0, _ => none
  | fuel + 1, b =>
    let mid := b.lower + step
    if mid < b.upper then do
      let offset ← nm.pcOffset mid
      if offset < pcOffset then stepLoop nm pcOffset step fuel { b with lower := mid }
      else return { b with upper := mid }
    else some b

def radixLoop (nm : NMethod) (pcOffset : Int) (log2Radix : Nat) : Nat → Nat → Bracket → Option Bracket
  | 0, _, _ => none
  | fuel + 1, step, b =>
    if step > 1 then do
      let b ← nm.stepLoop pcOffset step (nm.scopesPcs.length + 1) b
      radixLoop nm pcOffset log2Radix fuel (step >>> log2Radix) b
    else some b

/-- The last loop, by steps of 1; it returns `upper`. -/
def sneakUp (nm : NMethod) (pcOffset : Int) : Nat → Nat → Option Nat
  | 0, _ => none
  | fuel + 1, lower => do
    let mid := lower + 1
    let offset ← nm.pcOffset mid
    if offset < pcOffset then sneakUp nm pcOffset fuel mid else return mid

def quasiLinearSearch (log2Radix : Nat) (pcOffset : Int) (last : Nat) : Option Nat := do
  let offset ← nm.pcOffset last
  let whole : Bracket := { lower := 0, upper := nm.scopesPcs.length - 1 }
  let b := if offset < pcOffset then { whole with lower := last } else { whole with upper := last }
  let b ← nm.radixLoop pcOffset log2Radix 4 (1 <<< (log2Radix * 3)) b
  nm.sneakUp pcOffset (nm.scopesPcs.length + 1) b.lower

/-- `find_pc_desc_internal` for the address `pcDelta` bytes after `code_begin`, with the cache after it. `log2Radix` is
4, or 3 in debug builds. -/
def findPcDescInternal (log2Radix : Nat) (cache : PcDescCache) (pcDelta : Int)
    (approximate : Bool) : Option (PcDescCache × Option Nat) := do
  if pcDelta < 0 ∨ pcDelta ≥ upperOffsetLimit then return (cache, none)
  else
    match ← PcDescCache.findPcDesc nm pcDelta approximate cache with
    | some res => return (cache, some res)
    | none =>
      if nm.scopesPcs.length ≤ 1 then return (cache, none)
      else
        let last ← PcDescCache.lastPcDesc cache
        let upper ← nm.quasiLinearSearch log2Radix pcDelta last
        if ← nm.matchDesc upper pcDelta approximate then
          return (PcDescCache.addPcDesc (some upper) cache, some upper)
        else return (cache, none)

def answers (nm : NMethod) (log2Radix : Nat) : PcDescCache → List (Int × Bool) → Option (List (Option Nat))
  | _, [] => some []
  | cache, (pcDelta, approximate) :: queries => do
    let (cache, res) ← nm.findPcDescInternal log2Radix cache pcDelta approximate
    let rest ← nm.answers log2Radix cache queries
    return res :: rest

end NMethod

open NMethod List Option Nat

open PcDescCache

/-! ## The descriptors of a method -/

/-- What `copy_scopes_pcs` is given: offsets that increase strictly between the sentinels, the real ones inside the
content. -/
structure SortedPcs (pcs : List PcDesc) (contentSize : Int) : Prop where
  two_le : 2 ≤ pcs.length
  first : pcs.head?.map PcDesc.pcOffset = some lowerOffsetLimit
  last : pcs.getLast?.map PcDesc.pcOffset = some upperOffsetLimit
  sorted : (pcs.map PcDesc.pcOffset).Pairwise (· < ·)
  inside : ∀ d ∈ pcs.dropLast, d.pcOffset ≤ contentSize

structure Offsets (nm : NMethod) (off : Nat → Int) (last : Nat) : Prop where
  read : ∀ pc < nm.scopesPcs.length, nm.pcOffset pc = some (off pc)
  last_pos : 0 < last
  last_lt : last < nm.scopesPcs.length
  zero : off 0 = -1
  strict : ∀ i j, i < j → j ≤ last → off i < off j
  tail : ∀ i, last ≤ i → i < nm.scopesPcs.length → off i = nm.contentSize + 1

lemma offsets_copyScopesPcs (nm : NMethod) {pcs slots}
    (h : SortedPcs pcs nm.contentSize) (hslots : pcs.length ≤ slots) :
    ∃ off, Offsets (nm.copyScopesPcs pcs slots) off (pcs.length - 1) := by
  have h2 := h.two_le
  set lastPc : PcDesc := { pcs.getLastD default with pcOffset := nm.contentSize + 1 } with hlast
  have hpcs : (nm.copyScopesPcs pcs slots).scopesPcs =
      pcs.dropLast ++ replicate (slots - (pcs.length - 1)) lastPc := rfl
  have hlen : (nm.copyScopesPcs pcs slots).scopesPcs.length = slots := by
    rw [hpcs, length_append, length_dropLast, length_replicate]
    omega
  have hdrop i (hi : i < pcs.length - 1) :
      (nm.copyScopesPcs pcs slots).scopesPcs[i]? = pcs[i]? := by
    rw [hpcs, getElem?_append_left (by simpa using hi), getElem?_dropLast, if_pos hi]
  have htail i (hi : pcs.length - 1 ≤ i) (hs : i < slots) :
      (nm.copyScopesPcs pcs slots).scopesPcs[i]? = some lastPc := by
    rw [hpcs, getElem?_append_right (by simpa using hi), getElem?_replicate, length_dropLast, if_pos (by omega)]
  have hoff i : ((nm.copyScopesPcs pcs slots).scopesPcs.getD i default).pcOffset =
      ((nm.copyScopesPcs pcs slots).scopesPcs[i]?.getD default).pcOffset := by
    rw [getD_eq_getElem?_getD]
  refine ⟨fun i => ((nm.copyScopesPcs pcs slots).scopesPcs.getD i default).pcOffset, ?_, by omega, by omega, ?_, ?_, ?_⟩
  · intro pc hpc
    rw [pcOffset, getElem?_eq_getElem hpc, map_some, getD_eq_getElem _ _ hpc]
  · have hfirst := h.first
    rw [head?_eq_getElem?, getElem?_eq_getElem (by omega), map_some, some.injEq] at hfirst
    rw [hoff, hdrop 0 (by omega), getElem?_eq_getElem (by omega)]
    exact hfirst
  · intro i j hij hj
    have hsorted := h.sorted
    rw [pairwise_iff_getElem] at hsorted
    have hi : i < pcs.length := by omega
    rw [hoff, hoff, hdrop i (by omega), getElem?_eq_getElem hi]
    rcases lt_or_ge j (pcs.length - 1) with hlt | hge
    · have hj' : j < pcs.length := by omega
      rw [hdrop j hlt, getElem?_eq_getElem hj']
      have hij' := hsorted i j (by simpa using hi) (by simpa using hj') hij
      simpa using hij'
    rw [htail j hge (by omega)]
    have hmem : pcs[i] ∈ pcs.dropLast := by
      rw [mem_iff_getElem?]
      exact ⟨i, by rw [getElem?_dropLast, if_pos (by omega), getElem?_eq_getElem hi]⟩
    have hin := h.inside _ hmem
    simp only [getD_some, hlast]
    omega
  · intro i hi hs
    rw [hoff, htail i hi (by omega)]
    rfl

variable {nm : NMethod} {off : Nat → Int} {last : Nat}

variable {i : Nat}

lemma Offsets.mono (h : Offsets nm off last) {j} (hij : i ≤ j) (hj : j < nm.scopesPcs.length) : off i ≤ off j := by
  rcases lt_or_ge i last with hi | hi
  · rcases lt_or_ge j last with hjl | hjl
    · rcases eq_or_lt_of_le hij with rfl | hlt
      · exact le_rfl
      · exact (h.strict i j hlt hjl.le).le
    · rw [h.tail j hjl hj, ← h.tail last (le_rfl) h.last_lt]
      exact (h.strict i last hi (le_rfl)).le
  · rw [h.tail i hi (by omega), h.tail j (by omega) hj]

/-! ## The only descriptor that can match -/

structure FirstAt (off : Nat → Int) (last : Nat) (x : Int) (first : Nat) : Prop where
  pos : 0 < first
  le_last : first ≤ last
  prev_lt : off (first - 1) < x
  le : x ≤ off first

lemma Offsets.exists_first (h : Offsets nm off last) {x} (h0 : 0 ≤ x) (hx : x ≤ nm.contentSize) :
    ∃ first, FirstAt off last x first := by
  have hex : ∃ i, x ≤ off i := ⟨last, by rw [h.tail last (le_rfl) h.last_lt]; omega⟩
  have hle : Nat.find hex ≤ last := Nat.find_min' hex (by rw [h.tail last (le_rfl) h.last_lt]; omega)
  have hpos : 0 < Nat.find hex := by
    apply Nat.pos_of_ne_zero
    intro hzero
    have hspec := Nat.find_spec hex
    rw [hzero, h.zero] at hspec
    omega
  have hprev := Nat.find_min hex (m := Nat.find hex - 1) (by omega)
  exact ⟨Nat.find hex, hpos, hle, by omega, Nat.find_spec hex⟩

variable {x : Int} {first : Nat}

variable {pc : Nat}

lemma Offsets.matchDesc_pos (h : Offsets nm off last) (hpc : pc < nm.scopesPcs.length) (hpos : 0 < pc)
    (approximate) : nm.matchDesc pc x approximate =
      some (if approximate then decide (off (pc - 1) < x) && decide (x ≤ off pc) else off pc == x) := by
  obtain ⟨pc, rfl⟩ : ∃ p, pc = p + 1 := ⟨pc - 1, by omega⟩
  cases approximate with
  | true => simp [matchDesc, prevOffset, h.read pc (by omega), h.read _ hpc]
  | false => simp [matchDesc, h.read _ hpc]

lemma Offsets.matchDesc_zero (h : Offsets nm off last) (h0 : 0 ≤ x) (approximate) :
    nm.matchDesc 0 x approximate = some false := by
  have hread := h.read 0 (by have := h.last_lt; omega)
  rw [h.zero] at hread
  cases approximate with
  | true =>
    have : ¬ x ≤ -1 := by omega
    simp [matchDesc, prevOffset, hread, this]
  | false =>
    have : ¬ -1 = x := by omega
    simp [matchDesc, hread, this]

/-! ## The cache -/

structure CacheOk (nm : NMethod) (cache : PcDescCache) : Prop where
  nonempty : cache ≠ []
  entries : ∀ e ∈ cache, ∃ pc, e = some pc ∧ pc < nm.scopesPcs.length

lemma cacheOk_resetTo (h : Offsets nm off last) : CacheOk nm (resetTo 0) := by
  refine ⟨by simp [resetTo, cacheSize], ?_⟩
  intro e he
  obtain ⟨-, rfl⟩ := mem_replicate.1 he
  exact ⟨0, rfl, by have := h.last_lt; omega⟩

variable {cache : PcDescCache}

lemma mem_addPcDesc {e e'} (h : e ∈ addPcDesc e' cache) : e = e' ∨ e ∈ cache := by
  induction cache generalizing e' with
  | nil => simp [addPcDesc] at h
  | cons next rest ih =>
    simp only [addPcDesc, mem_cons] at h ⊢
    rcases h with rfl | h
    · exact .inl rfl
    · rcases ih h with rfl | h
      · exact .inr (.inl rfl)
      · exact .inr (.inr h)

lemma CacheOk.add (hc : CacheOk nm cache) (hpc : pc < nm.scopesPcs.length) :
    CacheOk nm (addPcDesc (some pc) cache) := by
  constructor
  · cases cache with
    | nil => exact absurd rfl hc.nonempty
    | cons next rest => simp [addPcDesc]
  · intro e he
    rcases mem_addPcDesc he with rfl | he
    · exact ⟨pc, rfl, hpc⟩
    · exact hc.entries e he

lemma CacheOk.exists_last (hc : CacheOk nm cache) : ∃ pc, lastPcDesc cache = some pc ∧ pc < nm.scopesPcs.length := by
  cases cache with
  | nil => exact absurd rfl hc.nonempty
  | cons e rest =>
    obtain ⟨pc, rfl, hpc⟩ := hc.entries e (by simp)
    exact ⟨pc, rfl, hpc⟩

/-! ## The search by shrinking steps -/

/-- The invariant that the source asserts as `assert_LU_OK`. -/
structure Brackets (nm : NMethod) (off : Nat → Int) (x : Int) (b : Bracket) : Prop where
  upper_lt : b.upper < nm.scopesPcs.length
  lower : off b.lower < x
  upper : x ≤ off b.upper
  lower_lt : b.lower < b.upper

lemma Offsets.stepLoop_spec (h : Offsets nm off last) {step} (hstep : 0 < step) (fuel b)
    (hb : Brackets nm off x b) (hfuel : b.upper < b.lower + fuel) :
    ∃ b', nm.stepLoop x step fuel b = some b' ∧ Brackets nm off x b' := by
  induction fuel generalizing b with
  | zero =>
    have := hb.lower_lt
    omega
  | succ fuel ih =>
    simp only [stepLoop]
    split
    next hmid =>
      rw [h.read _ (lt_trans hmid hb.upper_lt), bind_eq_bind, bind_some]
      split
      next hlt => exact ih _ ⟨hb.upper_lt, hlt, hb.upper, hmid⟩ (by dsimp only; omega)
      · exact ⟨_, rfl, lt_trans hmid hb.upper_lt, hb.lower, by dsimp only; omega, by dsimp only; omega⟩
    · exact ⟨b, rfl, hb⟩

variable {log2Radix : Nat}

lemma Offsets.radixLoop_spec (h : Offsets nm off last) (hradix : 0 < log2Radix) (rounds)
    (b) (hb : Brackets nm off x b) :
    ∃ b', nm.radixLoop x log2Radix (rounds + 1) (1 <<< (log2Radix * rounds)) b = some b' ∧ Brackets nm off x b' := by
  induction rounds generalizing b with
  | zero => exact ⟨b, by simp [radixLoop], hb⟩
  | succ rounds ih =>
    have hpow : 1 <<< (log2Radix * (rounds + 1)) > 1 := by
      rw [one_shiftLeft]
      exact Nat.one_lt_two_pow (Nat.mul_pos hradix (succ_pos _)).ne'
    have hshift : (1 <<< (log2Radix * (rounds + 1))) >>> log2Radix = 1 <<< (log2Radix * rounds) := by
      rw [one_shiftLeft, one_shiftLeft, shiftRight_eq_div_pow,
        Nat.pow_div (Nat.le_mul_of_pos_right _ (Nat.succ_pos _)) (by decide), Nat.mul_succ, Nat.add_sub_cancel]
    obtain ⟨b', hb', hbr⟩ := h.stepLoop_spec (Nat.zero_lt_of_lt hpow) (nm.scopesPcs.length + 1) b hb
      (by have := hb.upper_lt; omega)
    rw [radixLoop, if_pos hpow, hb', hshift]
    exact ih b' hbr

/-! ## The searches -/

def answer (off : Nat → Int) (x : Int) (first : Nat) (approximate : Bool) : Option Nat :=
  if approximate = true ∨ off first = x then some first else none

section

variable (hf : FirstAt off last x first) (h : Offsets nm off last)

include hf h

lemma FirstAt.lt_of_off_lt (hi : i < nm.scopesPcs.length) (hlt : off i < x) : i < first := by
  by_contra hge
  have := h.mono (Nat.le_of_not_lt hge) hi
  have := hf.le
  omega

lemma FirstAt.le_of_le_off (hle : x ≤ off i) : first ≤ i := by
  by_contra hge
  have := h.mono (i := i) (j := first - 1) (by omega) (by have := h.last_lt; have := hf.le_last; omega)
  have := hf.prev_lt
  omega

lemma FirstAt.sneakUp_spec (fuel lower)
    (hlt : lower < first) (hfuel : first < lower + fuel + 1) : nm.sneakUp x fuel lower = some first := by
  have hlast := h.last_lt
  have hfl := hf.le_last
  induction fuel generalizing lower with
  | zero => omega
  | succ fuel ih =>
    rw [sneakUp]
    rw [h.read (lower + 1) (by omega), bind_eq_bind, bind_some]
    split
    next hoff =>
      have := hf.lt_of_off_lt h (by omega) hoff
      exact ih (lower + 1) this (by omega)
    · have := hf.le_of_le_off h (i := lower + 1) (by omega)
      exact congrArg some (by omega)

variable (hx : x ≤ nm.contentSize)

include hx

/-- A descriptor after the initial sentinel matches exactly when it is the first at or after the offset and, for an
exact query, at it. -/
lemma FirstAt.matchDesc_iff (hpc : pc < nm.scopesPcs.length) (hpos : 0 < pc) (approximate) :
    nm.matchDesc pc x approximate = some (decide (pc = first ∧ (approximate = true ∨ off first = x))) := by
  rw [h.matchDesc_pos hpc hpos, some.injEq]
  cases approximate with
  | true =>
    simp only [if_true, true_or, and_true]
    rw [← Bool.decide_and, decide_eq_decide]
    constructor
    · rintro ⟨hlt, hle⟩
      have h1 := hf.lt_of_off_lt h (by omega) hlt
      have h2 := hf.le_of_le_off h hle
      omega
    · rintro rfl
      exact ⟨hf.prev_lt, hf.le⟩
  | false =>
    simp only [Bool.false_eq_true, if_false, false_or]
    rw [Bool.eq_iff_iff, beq_iff_eq, decide_eq_true_iff]
    constructor
    · intro heq
      have hle := hf.le_of_le_off h heq.ge
      rcases lt_or_ge pc last with hlt | hge
      · rcases eq_or_lt_of_le hle with rfl | hlt'
        · exact ⟨rfl, heq⟩
        · have := h.strict first pc hlt' hlt.le
          have := hf.le
          omega
      · rw [h.tail pc hge hpc] at heq
        omega
    · rintro ⟨rfl, heq⟩
      exact heq

lemma FirstAt.linear_from (approximate count start) (hpos : 0 < start) (hcount : start + count ≤ nm.scopesPcs.length)
    (res) (hres : res = if first < start then Found.ofOption (answer off x first approximate) else .null) :
    (List.range' start count).foldlM (nm.linearStep x approximate) res =
      some (if first < start + count then Found.ofOption (answer off x first approximate) else .null) := by
  induction count generalizing start res with
  | zero => simp [hres]
  | succ count ih =>
    have hstep : nm.linearStep x approximate res start =
        some (if first < start + 1 then Found.ofOption (answer off x first approximate) else .null) := by
      rw [linearStep, hf.matchDesc_iff h hx (by omega) hpos]
      by_cases hs : start = first
      · subst hs
        rw [hres]
        by_cases hm : approximate = true ∨ off start = x
        · simp [answer, hm, Found.ofOption]
        · simp [answer, hm, Found.ofOption]
      · have hiff : first < start + 1 ↔ first < start := by omega
        simp [hs, hres, hiff]
    rw [range'_succ, foldlM_cons, hstep, bind_eq_bind, bind_some,
      ih (start + 1) (by omega) (by omega) _ rfl, show start + 1 + count = start + (count + 1) by omega]

lemma FirstAt.linearSearch_eq (approximate) :
    nm.linearSearch x approximate = some (Found.ofOption (answer off x first approximate)) := by
  have hlast := h.last_lt
  have hle := hf.le_last
  have hpos := hf.pos
  unfold linearSearch
  rw [hf.linear_from h hx approximate (nm.scopesPcs.length - 1) 1 (by omega) (by omega) .null
    (by rw [if_neg (by omega)]), if_pos (by omega)]

variable (h0 : 0 ≤ x)

include h0

lemma FirstAt.match_entry (hpc : pc < nm.scopesPcs.length) (approximate) :
    ∃ b, nm.matchDesc pc x approximate = some b ∧ (b = true → answer off x first approximate = some pc) := by
  rcases Nat.eq_zero_or_pos pc with rfl | hpos
  · exact ⟨false, h.matchDesc_zero h0 approximate, nofun⟩
  · refine ⟨_, hf.matchDesc_iff h hx hpc hpos approximate, ?_⟩
    intro hb
    obtain ⟨rfl, hm⟩ := of_decide_eq_true hb
    exact if_pos hm

lemma FirstAt.findRest_spec (approximate entries)
    (hentries : ∀ e ∈ entries, ∃ pc, e = some pc ∧ pc < nm.scopesPcs.length) :
    ∃ r, findRest nm x approximate entries = some r ∧ (r = none ∨ r = answer off x first approximate) := by
  induction entries with
  | nil => exact ⟨none, rfl, .inl rfl⟩
  | cons e rest ih =>
    obtain ⟨pc, rfl, hpc⟩ := hentries e (by simp)
    obtain ⟨b, hb, hans⟩ := hf.match_entry h hx h0 hpc approximate
    simp only [findRest, h.read pc hpc, hb, bind_eq_bind, bind_some]
    by_cases hneg : off pc < 0
    · exact ⟨none, by rw [if_pos hneg]; rfl, .inl rfl⟩
    · rw [if_neg hneg]
      cases b with
      | true => exact ⟨some pc, rfl, .inr (hans rfl).symm⟩
      | false => exact ih (fun e he => hentries e (by simp [he]))

lemma FirstAt.findPcDesc_spec (approximate) (hc : CacheOk nm cache) :
    ∃ r, findPcDesc nm x approximate cache = some r ∧ (r = none ∨ r = answer off x first approximate) := by
  cases cache with
  | nil => exact absurd rfl hc.nonempty
  | cons e rest =>
    obtain ⟨pc, rfl, hpc⟩ := hc.entries e (by simp)
    obtain ⟨b, hb, hans⟩ := hf.match_entry h hx h0 hpc approximate
    simp only [findPcDesc, hb]
    cases b with
    | true => exact ⟨some pc, rfl, .inr (hans rfl).symm⟩
    | false => exact hf.findRest_spec h hx h0 approximate rest (fun e he => hc.entries e (by simp [he]))

lemma FirstAt.quasiLinearSearch_eq (hradix : 0 < log2Radix) {split}
    (hsplit : split < nm.scopesPcs.length) : nm.quasiLinearSearch log2Radix x split = some first := by
  have hlast := h.last_lt
  have hfl := hf.le_last
  have hfpos := hf.pos
  have hend : x ≤ off (nm.scopesPcs.length - 1) := by
    rw [h.tail _ (by omega) (by omega)]
    omega
  have hstart : off 0 < x := by
    rw [h.zero]
    omega
  have hb : Brackets nm off x (if off split < x then { lower := split, upper := nm.scopesPcs.length - 1 }
      else { lower := 0, upper := split }) := by
    split
    next hlt =>
      have := hf.lt_of_off_lt h hsplit hlt
      exact ⟨by dsimp only; omega, hlt, hend, by dsimp only; omega⟩
    · have := hf.le_of_le_off h (i := split) (by omega)
      exact ⟨hsplit, hstart, by dsimp only; omega, by dsimp only; omega⟩
  obtain ⟨b', hb', hbr⟩ := h.radixLoop_spec hradix 3 _ hb
  unfold quasiLinearSearch
  rw [h.read split hsplit, bind_eq_bind, bind_some]
  dsimp only
  rw [hb']
  have hlower := hbr.lower_lt
  have hupper := hbr.upper_lt
  exact hf.sneakUp_spec h _ _ (hf.lt_of_off_lt h (by omega) hbr.lower) (by omega)

lemma FirstAt.findPcDescInternal_spec (hsize : nm.contentSize < upperOffsetLimit) (hradix : 0 < log2Radix)
    (hc : CacheOk nm cache) (approximate) :
    ∃ cache', nm.findPcDescInternal log2Radix cache x approximate = some (cache', answer off x first approximate) ∧
      CacheOk nm cache' := by
  have hlast := h.last_lt
  have hfl := hf.le_last
  have hfpos := hf.pos
  obtain ⟨r, hr, hcases⟩ := hf.findPcDesc_spec h hx h0 approximate hc
  unfold findPcDescInternal
  rw [if_neg (by omega), hr]
  cases r with
  | some pc =>
    rcases hcases with hnone | hans
    · cases hnone
    · exact ⟨cache, by rw [← hans]; rfl, hc⟩
  | none =>
    obtain ⟨split, hsplit, hlt⟩ := hc.exists_last
    simp only [if_neg (show ¬ nm.scopesPcs.length ≤ 1 by omega), hsplit, bind_eq_bind, bind_some,
      hf.quasiLinearSearch_eq h hx h0 hradix hlt, hf.matchDesc_iff h hx (lt_of_le_of_lt hfl hlast) hfpos]
    by_cases hm : approximate = true ∨ off first = x
    · have hfirst : first < nm.scopesPcs.length := by omega
      exact ⟨_, by simp [answer, hm], hc.add hfirst⟩
    · exact ⟨cache, by simp [answer, hm], hc⟩

end

/-! ## Queries -/

lemma Offsets.answers_eq (h : Offsets nm off last) (hsize : nm.contentSize < upperOffsetLimit)
    (hradix : 0 < log2Radix) (queries) (hq : ∀ q ∈ queries, 0 ≤ q.1 ∧ q.1 ≤ nm.contentSize) (hc : CacheOk nm cache) :
    ∃ rs, nm.answers log2Radix cache queries = some rs ∧
      queries.mapM (fun q => nm.linearSearch q.1 q.2) = some (rs.map Found.ofOption) := by
  induction queries generalizing cache with
  | nil => exact ⟨[], rfl, rfl⟩
  | cons q queries ih =>
    obtain ⟨x, approximate⟩ := q
    obtain ⟨h0, hx⟩ := hq (x, approximate) (by simp)
    obtain ⟨first, hf⟩ := h.exists_first h0 hx
    obtain ⟨cache', hfind, hc'⟩ := hf.findPcDescInternal_spec h hx h0 hsize hradix hc approximate
    obtain ⟨rs, hrs, hlin⟩ := ih (fun q hq' => hq q (by simp [hq'])) hc'
    refine ⟨answer off x first approximate :: rs, ?_, ?_⟩
    · rw [answers, hfind, bind_eq_bind, bind_some]
      dsimp only
      rw [hrs]
      rfl
    · rw [mapM_cons, hf.linearSearch_eq h hx, hlin]
      rfl

/-- Whatever was asked before, and for every radix, a query for an offset between 0 and the content size gives what the
linear search over all descriptors gives. -/
theorem pc_desc_lookup_is_exact (nm : NMethod) (pcs : List PcDesc) (slots log2Radix : Nat)
    (hpcs : SortedPcs pcs nm.contentSize) (hslots : pcs.length ≤ slots)
    (hsize : nm.contentSize < upperOffsetLimit) (hradix : 0 < log2Radix) (queries : List (Int × Bool))
    (hq : ∀ q ∈ queries, 0 ≤ q.1 ∧ q.1 ≤ nm.contentSize) :
    ∃ rs, (nm.copyScopesPcs pcs slots).answers log2Radix (resetTo 0) queries = some rs ∧
      queries.mapM (fun q => (nm.copyScopesPcs pcs slots).linearSearch q.1 q.2) = some (rs.map Found.ofOption) := by
  obtain ⟨off, hoff⟩ := offsets_copyScopesPcs nm hpcs hslots
  exact hoff.answers_eq hsize hradix queries hq (cacheOk_resetTo hoff)

def twoDescs : List PcDesc := [⟨-1, 0, 0, 0⟩, ⟨4, 1, 0, 0⟩, ⟨9, 2, 0, 0⟩, ⟨upperOffsetLimit, 0, 0, 0⟩]

lemma sortedPcs_twoDescs : SortedPcs twoDescs 12 := ⟨by decide, by decide, by decide, by decide, by decide⟩

theorem pc_desc_lookup_is_exact_sentinel :
    ∃ rs, ((⟨[], 12, 77⟩ : NMethod).copyScopesPcs twoDescs 5).answers 4 (resetTo 0)
        [(11, true), (4, false), (5, true), (5, false)] = some rs ∧
      [Found.desc 3, .desc 1, .desc 2, .null] = rs.map Found.ofOption := by
  obtain ⟨rs, hrs, hlin⟩ := pc_desc_lookup_is_exact ⟨[], 12, 77⟩ twoDescs 5 4 sortedPcs_twoDescs (by decide) (by decide)
    (by decide) [(11, true), (4, false), (5, true), (5, false)] (by decide)
  exact ⟨rs, hrs, some.inj ((by decide +kernel : _ = _).trans hlin)⟩

end Rolp.Code
