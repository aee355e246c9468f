import Mathlib.Data.List.TakeWhile
import Rolp.Alloc.Paths

/-!
# The cache of annotated bytecodes

`get_alloc_gen` appends each bytecode index with an annotation to an array that is filled with `max_jushort` at first.
-/

namespace Rolp.Annotation

open Rolp.Lib Rolp.Alloc List Option Nat

variable (m : Method)

def isAnnotated (bci nDims : Nat) : Option Bool :=
  match m.typeAnnotations, m.allocAnno with
  | some aa, some _ => do
    let nAnno ← getJavaU2 aa 0
    scanAnnotations m bci nDims nAnno.toNat (aa.drop 2)
  | _, _ => some false

def withCache (aac : List (BitVec 16)) : Method := { m with allocAnnoCache := some aac }

structure Session where
  method : Method
  returned : List (Nat × BitVec 32)

namespace Session

def start (n : Nat) : Session := ⟨withCache m (List.replicate n maxJushort), []⟩

variable (dims : Nat → Nat) (s : Session) (bci : Nat)

def call : Option Session := do
  let (allocGen, method) ← getAllocGen s.method bci (dims bci)
  pure ⟨method, (bci, allocGen) :: s.returned⟩

/-- The index that the next call passes to `at_put`. -/
def putIndex : Option Nat :=
  match s.method.allocAnnoCache.map (lookIntoCache bci · 0), isAnnotated s.method bci (dims bci) with
  | some (.free nextCentry), some true => some nextCentry
  | _, _ => none

structure Consistent (s : Session) : Prop where
  nodup : ∀ aac, s.method.allocAnnoCache = some aac → (aac.filter (· ≠ maxJushort)).Nodup
  compiled : ∀ bci, bci ≠ 0xFFFF → (getAllocGen2 s.method.allocAnnoCache bci = 1 ↔ (bci, 1) ∈ s.returned)

structure CallOk (dims : Nat → Nat) (empty : Method) (n : Nat) (s : Session) (bci : Nat) : Prop where
  result : (getAllocGen s.method bci (dims bci)).map Prod.fst = (getAllocGen empty bci (dims bci)).map Prod.fst
  inRange : ∀ i, s.putIndex dims bci = some i → i < n

end Session

/-- The cache of length `n` with some bytecode indices. -/
def filled (n : Nat) (bcis : List Nat) : List (BitVec 16) :=
  bcis.map (BitVec.ofNat 16) ++ List.replicate (n - bcis.length) maxJushort

/-! ## One call -/

lemma annoBcLen_withCache (aac annoBci nDims) :
    annoBcLen (withCache m aac) annoBci nDims = annoBcLen m annoBci nDims := by
  induction nDims with
  | zero => rfl
  | succ nDims ih =>
    rw [annoBcLen, ih]
    rfl

lemma scanAnnotations_withCache (aac bci nDims n data) :
    scanAnnotations (withCache m aac) bci nDims n data = scanAnnotations m bci nDims n data := by
  induction n generalizing data with
  | zero => rfl
  | succ n ih =>
    simp only [scanAnnotations, ih, annoBcLen_withCache]
    rfl

lemma isAnnotated_withCache (aac bci nDims) : isAnnotated (withCache m aac) bci nDims = isAnnotated m bci nDims := by
  simp only [isAnnotated, scanAnnotations_withCache]
  rfl

lemma getAllocGenUncached_eq (bci nDims nextCentry) : getAllocGenUncached m bci nDims nextCentry =
      (isAnnotated m bci nDims).bind fun found =>
        if found then (m.putCache nextCentry bci).map fun m' => (1, m') else some (0, m) := by
  unfold getAllocGenUncached isAnnotated
  cases m.typeAnnotations with
  | none => rfl
  | some aa =>
    cases m.allocAnno with
    | none => rfl
    | some alloc =>
      simp only [bind_eq_bind, bind_assoc, map_eq_bind]
      rfl

lemma toNat_ofNat_of_lt {bci} (h : bci < 0xFFFF) : (BitVec.ofNat 16 bci).toNat = bci := by
  rw [BitVec.toNat_ofNat]
  omega

lemma ofNat_ne_maxJushort {bci} (h : bci < 0xFFFF) : BitVec.ofNat 16 bci ≠ maxJushort := by
  intro heq
  have hnat := congrArg BitVec.toNat heq
  exact absurd hnat (by simp; omega)

lemma lookIntoCache_filled {bcis : List Nat} (hbcis : ∀ e ∈ bcis, e < 0xFFFF) {bci : Nat} (hbci : bci ≠ 0xFFFF)
    (k next) : lookIntoCache bci (bcis.map (BitVec.ofNat 16) ++ List.replicate k maxJushort) next =
      if bci ∈ bcis then .hit else .free (next + bcis.length) := by
  induction bcis generalizing next with
  | nil =>
    cases k with
    | zero => rfl
    | succ k => simp [replicate_succ, lookIntoCache, hbci]
  | cons e bcis ih =>
    have he := hbcis e (by simp)
    rw [map_cons, cons_append, lookIntoCache, toNat_ofNat_of_lt he, if_neg (ofNat_ne_maxJushort he),
      ih (fun e' he' => hbcis e' (by simp [he']))]
    by_cases heq : bci = e
    · simp [heq]
    · simp only [heq, if_false, mem_cons, false_or, length_cons]
      rw [add_assoc, add_comm 1]

lemma set_filled {n bcis} (h : bcis.length < n) (bci) :
    (filled n bcis).set bcis.length (BitVec.ofNat 16 bci) = filled n (bcis ++ [bci]) := by
  obtain ⟨k, rfl⟩ : ∃ k, n = bcis.length + 1 + k := ⟨n - (bcis.length + 1), by omega⟩
  have h1 : bcis.length + 1 + k - bcis.length = k + 1 := by omega
  have h2 : bcis.length + 1 + k - (bcis.length + 1) = k := by omega
  rw [filled, filled, length_append, length_singleton, h1]
  simp [replicate_succ]

lemma length_filled {n bcis} (h : bcis.length ≤ n) : (filled n bcis).length = n := by
  simp only [filled, length_append, length_map, length_replicate]
  omega

section

variable {m : Method} {n : Nat} {bcis : List Nat} {bci : Nat}

section

variable (hbcis : ∀ e ∈ bcis, e < 0xFFFF)

include hbcis

lemma lookIntoCache_withCache (hbci : bci ≠ 0xFFFF) :
    (withCache m (filled n bcis)).allocAnnoCache.map (lookIntoCache bci · 0) =
      some (if bci ∈ bcis then .hit else .free bcis.length) := by
  rw [withCache, map_some, filled, lookIntoCache_filled hbcis hbci, zero_add]

lemma getAllocGen_filled (hn : bcis.length ≤ n) (hbci : bci ≠ 0xFFFF)
    (nDims) : getAllocGen (withCache m (filled n bcis)) bci nDims =
      if bci ∈ bcis then some (1, withCache m (filled n bcis)) else (isAnnotated m bci nDims).bind fun found =>
        if found then if bcis.length < n then some (1, withCache m (filled n (bcis ++ [bci]))) else none
        else some (0, withCache m (filled n bcis)) := by
  have hlook := lookIntoCache_withCache (m := m) (n := n) hbcis hbci
  by_cases hmem : bci ∈ bcis
  · simp only [getAllocGen, hlook, if_pos hmem]
  · simp only [getAllocGen, hlook, if_neg hmem, getAllocGenUncached_eq, isAnnotated_withCache]
    congr 1
    funext found
    by_cases hlt : bcis.length < n
    · simp [Method.putCache, withCache, length_filled hn, hlt, set_filled hlt]
    · simp [Method.putCache, withCache, length_filled hn, hlt]

lemma putIndex_filled (hbci : bci ≠ 0xFFFF) (dims)
    (returned) : Session.putIndex dims ⟨withCache m (filled n bcis), returned⟩ bci =
      if bci ∉ bcis ∧ isAnnotated m bci (dims bci) = some true then some bcis.length else none := by
  have hlook := lookIntoCache_withCache (m := m) (n := n) hbcis hbci
  simp only [Session.putIndex, hlook, isAnnotated_withCache]
  by_cases hmem : bci ∈ bcis
  · simp [hmem]
  · rcases isAnnotated m bci (dims bci) with _ | _ | _ <;> simp [hmem]

lemma getAllocGen2_filled (hbci : bci ≠ 0xFFFF) : getAllocGen2 (some (filled n bcis)) bci = 1 ↔ bci ∈ bcis := by
  rw [getAllocGen2, map_some, filled, lookIntoCache_filled hbcis hbci]
  by_cases hmem : bci ∈ bcis
  · simp [hmem]
  · simp [hmem]

lemma nodup_filter_filled (hnodup : bcis.Nodup) : ((filled n bcis).filter (· ≠ maxJushort)).Nodup := by
  have hkeep : (bcis.map (BitVec.ofNat 16)).filter (· ≠ maxJushort) = bcis.map (BitVec.ofNat 16) := by
    rw [filter_eq_self]
    intro entry hentry
    obtain ⟨e, he, rfl⟩ := mem_map.1 hentry
    simpa using ofNat_ne_maxJushort (hbcis e he)
  have hdrop : (replicate (n - bcis.length) maxJushort).filter (· ≠ maxJushort) = [] := by simp
  rw [filled, filter_append, hkeep, hdrop, append_nil]
  refine hnodup.map_on ?_
  intro e he e' he' heq
  rw [← toNat_ofNat_of_lt (hbcis e he), heq, toNat_ofNat_of_lt (hbcis e' he')]

end

end

/-! ## Sequences of calls -/

namespace Session

structure Holds (m : Method) (n : Nat) (dims : Nat → Nat) (before : List Nat) (s : Session) (bcis : List Nat) :
    Prop where
  method : s.method = withCache m (filled n bcis)
  length_le : bcis.length ≤ n
  nodup : bcis.Nodup
  lt : ∀ e ∈ bcis, e < 0xFFFF
  mem : ∀ e, e ∈ bcis ↔ e ∈ before ∧ isAnnotated m e (dims e) = some true
  returned : ∀ e, (e, 1) ∈ s.returned ↔ e ∈ bcis
  defined : ∀ e ∈ before, (isAnnotated m e (dims e)).isSome

variable {m : Method} {n : Nat} {dims : Nat → Nat} {before bcis : List Nat} {s s' : Session} {bci : Nat}

lemma holds_start (m n dims) : Holds m n dims [] (start m n) [] where
  method := by simp [start, filled]
  length_le := zero_le n
  nodup := nodup_nil
  lt := by simp
  mem := by simp
  returned := by simp [start]
  defined := by simp

section

variable (h : Holds m n dims before s bcis)

include h

lemma Holds.annotated (hmem : bci ∈ bcis) : isAnnotated m bci (dims bci) = some true := ((h.mem bci).1 hmem).2

lemma Holds.unchanged {allocGen}
    (hdef : (isAnnotated m bci (dims bci)).isSome) (hmem : isAnnotated m bci (dims bci) = some true ↔ bci ∈ bcis)
    (hgen : allocGen = 1 ↔ bci ∈ bcis) :
    Holds m n dims (before ++ [bci]) ⟨s.method, (bci, allocGen) :: s.returned⟩ bcis where
  method := h.method
  length_le := h.length_le
  nodup := h.nodup
  lt := h.lt
  mem := by
    intro e
    rw [mem_append, mem_singleton, h.mem]
    constructor
    · rintro ⟨he, ha⟩
      exact ⟨.inl he, ha⟩
    · rintro ⟨he | rfl, ha⟩
      · exact ⟨he, ha⟩
      · exact (h.mem e).1 (hmem.1 ha)
  returned := by
    intro e
    rw [mem_cons, h.returned, Prod.mk.injEq]
    constructor
    · rintro (⟨rfl, hone⟩ | he)
      · exact hgen.1 hone.symm
      · exact he
    · exact .inr
  defined := by
    intro e he
    rcases mem_append.1 he with he | he
    · exact h.defined e he
    · rwa [mem_singleton.1 he]

lemma Holds.appended (hbci : bci < 0xFFFF) (hmem : bci ∉ bcis)
    (ha : isAnnotated m bci (dims bci) = some true) (hn : bcis.length < n) :
    Holds m n dims (before ++ [bci]) ⟨withCache m (filled n (bcis ++ [bci])), (bci, 1) :: s.returned⟩
      (bcis ++ [bci]) where
  method := rfl
  length_le := by simpa using succ_le_of_lt hn
  nodup := by
    rw [nodup_append_comm]
    exact nodup_cons.2 ⟨hmem, h.nodup⟩
  lt := by
    intro e he
    rcases mem_append.1 he with he | he
    · exact h.lt e he
    · rwa [mem_singleton.1 he]
  mem := by
    intro e
    rw [mem_append, mem_append, mem_singleton, h.mem]
    constructor
    · rintro (⟨he, he'⟩ | rfl)
      · exact ⟨.inl he, he'⟩
      · exact ⟨.inr rfl, ha⟩
    · rintro ⟨he | rfl, he'⟩
      · exact .inl ⟨he, he'⟩
      · exact .inr rfl
  returned := by
    intro e
    rw [mem_cons, h.returned, mem_append]
    simp [or_comm]
  defined := by
    intro e he
    rcases mem_append.1 he with he | he
    · exact h.defined e he
    · rw [mem_singleton.1 he, ha]
      rfl

lemma Holds.call_cases (hbci : bci < 0xFFFF) : (isAnnotated m bci (dims bci) = none ∧ s.call dims bci = none) ∨
      (bci ∉ bcis ∧ isAnnotated m bci (dims bci) = some true ∧ n ≤ bcis.length ∧ s.call dims bci = none) ∨
      ∃ s' bcis', s.call dims bci = some s' ∧ Holds m n dims (before ++ [bci]) s' bcis' := by
  have hcall := getAllocGen_filled (m := m) h.lt h.length_le (show bci ≠ 0xFFFF by omega) (dims bci)
  rw [← h.method] at hcall
  by_cases hmem : bci ∈ bcis
  · have ha := h.annotated hmem
    rw [if_pos hmem] at hcall
    refine .inr (.inr ⟨_, bcis, by rw [call, hcall]; rfl, h.unchanged ?_ ?_ ?_⟩)
    · rw [ha]
      rfl
    · simp [ha, hmem]
    · simp [hmem]
  rw [if_neg hmem] at hcall
  cases ha : isAnnotated m bci (dims bci) with
  | none =>
    rw [ha] at hcall
    exact .inl ⟨rfl, by rw [call, hcall]; rfl⟩
  | some found =>
    rw [ha, bind_some] at hcall
    cases found with
    | false =>
      refine .inr (.inr ⟨_, bcis, by rw [call, hcall]; rfl, h.unchanged ?_ ?_ ?_⟩)
      · rw [ha]
        rfl
      · simp [ha, hmem]
      · simp [hmem]
    | true =>
      by_cases hn : bcis.length < n
      · rw [if_pos hn] at hcall
        exact .inr (.inr ⟨_, _, by rw [call, hcall]; rfl, h.appended hbci hmem ha hn⟩)
      · rw [if_neg hn] at hcall
        exact .inr (.inl ⟨hmem, rfl, by omega, by rw [call, hcall]; rfl⟩)

lemma Holds.call (hbci : bci < 0xFFFF) (hcall : s.call dims bci = some s') :
    ∃ bcis', Holds m n dims (before ++ [bci]) s' bcis' := by
  rcases h.call_cases hbci with ⟨-, hnone⟩ | ⟨-, -, -, hnone⟩ | ⟨s'', bcis', hsome, h'⟩
  · rw [hnone] at hcall
    cases hcall
  · rw [hnone] at hcall
    cases hcall
  · rw [hcall] at hsome
    cases hsome
    exact ⟨bcis', h'⟩

end

lemma Holds.run {calls} (h : Holds m n dims before s bcis) (hcalls : ∀ bci ∈ calls, bci < 0xFFFF)
    (hrun : Lib.run (Session.call dims) s calls = some s') : ∃ bcis', Holds m n dims (before ++ calls) s' bcis' := by
  induction calls generalizing before s bcis with
  | nil =>
    cases hrun
    exact ⟨bcis, by simpa using h⟩
  | cons bci calls ih =>
    obtain ⟨s1, hcall, hrun⟩ := run_cons_some hrun
    obtain ⟨bcis1, h1⟩ := h.call (hcalls bci (by simp)) hcall
    obtain ⟨bcis', h'⟩ := ih h1 (fun e he => hcalls e (by simp [he])) hrun
    exact ⟨bcis', by simpa using h'⟩

lemma Holds.consistent (h : Holds m n dims before s bcis) : s.Consistent where
  nodup := by
    intro aac haac
    rw [h.method] at haac
    cases haac
    exact nodup_filter_filled h.lt h.nodup
  compiled := by
    intro bci hbci
    rw [h.returned, h.method]
    exact getAllocGen2_filled h.lt hbci

lemma Holds.callOk (h : Holds m n dims before s bcis) (hne : bci ≠ 0xFFFF)
    (hroom : bci ∉ bcis → isAnnotated m bci (dims bci) = some true → bcis.length < n) :
    s.CallOk dims (start m n).method n bci := by
  constructor
  · have hempty := getAllocGen_filled (m := m) (holds_start m n dims).lt (zero_le n) hne (dims bci)
    rw [← (holds_start m n dims).method] at hempty
    rw [h.method, getAllocGen_filled h.lt h.length_le hne, hempty]
    by_cases hmem : bci ∈ bcis
    · have hpos : 0 < n := lt_of_lt_of_le (length_pos_of_mem hmem) h.length_le
      rw [if_pos hmem, h.annotated hmem]
      simp [hpos]
    rw [if_neg hmem]
    rcases ha : isAnnotated m bci (dims bci) with _ | _ | _
    · rfl
    · rfl
    · have hlt := hroom hmem ha
      have hpos : 0 < n := by omega
      simp [hlt, hpos]
  · intro i hi
    have hput := putIndex_filled (m := m) (n := n) h.lt hne dims s.returned
    rw [← h.method] at hput
    rw [hput] at hi
    split at hi
    next hcond =>
      cases hi
      exact hroom hcond.1 hcond.2
    · cases hi

end Session

/-! ## Room for all annotated bytecodes -/

def annotatedCalls (m : Method) (dims : Nat → Nat) (calls : List Nat) : List Nat :=
  (calls.takeWhile fun bci => (isAnnotated m bci (dims bci)).isSome).filter fun bci =>
    isAnnotated m bci (dims bci) = some true

lemma mem_annotatedCalls_append {m dims before after} (h : ∀ e ∈ before, (isAnnotated m e (dims e)).isSome) {bci} :
    bci ∈ annotatedCalls m dims (before ++ after) ↔
      (bci ∈ before ∧ isAnnotated m bci (dims bci) = some true) ∨ bci ∈ annotatedCalls m dims after := by
  rw [annotatedCalls, takeWhile_append_of_pos h, filter_append, mem_append, annotatedCalls,
    mem_filter, decide_eq_true_iff]

namespace Session

variable {m : Method} {n : Nat} {dims : Nat → Nat} {before after bcis : List Nat} {s : Session} {bci : Nat}

section

variable (h : Holds m n dims before s bcis)

include h

lemma Holds.subset : bcis.toFinset ⊆ (annotatedCalls m dims (before ++ after)).toFinset := by
  intro e he
  rw [List.mem_toFinset] at he ⊢
  exact (mem_annotatedCalls_append h.defined).2 (.inl ((h.mem e).1 he))

lemma Holds.length_lt (hmem : bci ∉ bcis) (ha : isAnnotated m bci (dims bci) = some true) :
    bcis.length < (annotatedCalls m dims (before ++ bci :: after)).toFinset.card := by
  have hnew : bci ∈ annotatedCalls m dims (before ++ bci :: after) := by
    refine (mem_annotatedCalls_append h.defined).2 (.inr ?_)
    simp [annotatedCalls, ha]
  rw [← toFinset_card_of_nodup h.nodup]
  refine Finset.card_lt_card ⟨h.subset, fun hsub => hmem ?_⟩
  exact mem_toFinset.1 (hsub (mem_toFinset.2 hnew))

lemma Holds.card_le : (annotatedCalls m dims before).toFinset.card ≤ n := by
  have hsub : (annotatedCalls m dims before).toFinset ⊆ bcis.toFinset := by
    intro e he
    rw [List.mem_toFinset] at he ⊢
    obtain ⟨hbefore, ha⟩ := mem_filter.1 he
    exact (h.mem e).2 ⟨(takeWhile_sublist _).subset hbefore, by simpa using ha⟩
  calc (annotatedCalls m dims before).toFinset.card ≤ bcis.toFinset.card := Finset.card_le_card hsub
    _ ≤ bcis.length := toFinset_card_le bcis
    _ ≤ n := h.length_le

lemma Holds.call_defined (hbci : bci < 0xFFFF)
    (hdef : (isAnnotated m bci (dims bci)).isSome) (hput : ∀ i, s.putIndex dims bci = some i → i < n) :
    ∃ s', s.call dims bci = some s' := by
  rcases h.call_cases hbci with ⟨hnone, -⟩ | ⟨hmem, ha, hn, -⟩ | ⟨s', -, hcall, -⟩
  · rw [hnone] at hdef
    cases hdef
  · have hindex := putIndex_filled (m := m) (n := n) h.lt (show bci ≠ 0xFFFF by omega) dims s.returned
    rw [← h.method, if_pos ⟨hmem, ha⟩] at hindex
    exact absurd (hput _ hindex) (by omega)
  · exact ⟨s', hcall⟩

end

lemma run_defined_of_inRange {calls} (hcalls : ∀ bci ∈ calls, bci < 0xFFFF)
    (hdef : ∀ bci ∈ calls, (isAnnotated m bci (dims bci)).isSome)
    (hput : AtEach (fun before bci => ∀ s, run (call dims) (start m n) before = some s →
      ∀ i, s.putIndex dims bci = some i → i < n) calls) : ∃ s, run (call dims) (start m n) calls = some s := by
  induction calls using reverseRecOn with
  | nil => exact ⟨_, rfl⟩
  | append_singleton calls bci ih =>
    obtain ⟨s, hrun⟩ := ih (fun e he => hcalls e (by simp [he])) (fun e he => hdef e (by simp [he])) <| by
      intro before e after heq
      exact hput before e (after ++ [bci]) (by simp [heq])
    obtain ⟨bcis, h⟩ := (holds_start m n dims).run (fun e he => hcalls e (by simp [he])) hrun
    obtain ⟨s', hcall⟩ := h.call_defined (hcalls bci (by simp)) (hdef bci (by simp))
      (hput calls bci [] rfl s hrun)
    exact ⟨s', run_snoc hrun hcall⟩

/-- A cache of length `n` is transparent for a sequence of calls, with all writes in range, exactly if they find at most
`n` annotated bytecodes. -/
theorem transparent_iff (m : Method) (n : Nat) (dims : Nat → Nat) (calls : List Nat)
    (hcalls : ∀ bci ∈ calls, bci < 0xFFFF) :
    (∀ before after s, calls = before ++ after → run (call dims) (start m n) before = some s →
      s.Consistent ∧ ∀ bci, after.head? = some bci → s.CallOk dims (start m n).method n bci) ↔
      (annotatedCalls m dims calls).toFinset.card ≤ n := by
  constructor
  · intro h
    let defined := calls.takeWhile fun bci => (isAnnotated m bci (dims bci)).isSome
    obtain ⟨rest, hrest⟩ : ∃ rest, calls = defined ++ rest := by
      obtain ⟨rest, hrest⟩ := takeWhile_prefix fun bci => (isAnnotated m bci (dims bci)).isSome
      exact ⟨rest, hrest.symm⟩
    have hlt : ∀ bci ∈ defined, bci < 0xFFFF := fun bci hbci => hcalls bci (hrest ▸ mem_append_left _ hbci)
    have hdef : ∀ bci ∈ defined, (isAnnotated m bci (dims bci)).isSome := fun bci hbci =>
      mem_takeWhile_imp (p := fun bci => (isAnnotated m bci (dims bci)).isSome) hbci
    obtain ⟨s, hrun⟩ := run_defined_of_inRange hlt hdef <| by
      intro before bci after heq s hrun
      exact ((h before (bci :: after ++ rest) s (by rw [hrest, heq]; simp) hrun).2 bci rfl).inRange
    obtain ⟨bcis, hholds⟩ := (holds_start m n dims).run hlt hrun
    have hsame : annotatedCalls m dims calls = annotatedCalls m dims defined := by
      rw [annotatedCalls, annotatedCalls, takeWhile_eq_self_iff.2 hdef]
    rw [hsame]
    simpa using hholds.card_le
  · rintro hcard before after s rfl hrun
    obtain ⟨bcis, h⟩ := (holds_start m n dims).run (fun e he => hcalls e (mem_append_left _ he)) hrun
    refine ⟨h.consistent, fun bci hhead => ?_⟩
    cases after with
    | nil => cases hhead
    | cons bci' after =>
      cases hhead
      have hne : bci ≠ 0xFFFF := Nat.ne_of_lt (hcalls bci (by simp))
      exact h.callOk hne fun hmem ha => lt_of_lt_of_le (h.length_lt hmem ha) hcard

section Example

/-- One annotation, at bci 110. From there the code is `new`, `pop`, and then `multianewarray` and `pop` in turn. -/
def annotatedNew : Method where
  typeAnnotations := some [0, 1, 0x44, 0, 110, 0, 0, 1, 0, 0]
  allocAnno := some [0, 1, 0x44, 0, 110, 0, 0, 1, 0, 0]
  allocAnnoCache := none
  symbolAt _ := "Ljava/lang/Gen;"
  lengthFor bci := if bci < 110 then 1 else if bci = 110 then 3 else if (bci - 113) % 5 = 0 then 1 else 4

def dimsSinceNew (bci : Nat) : Nat := if bci = 110 then 0 else 2 * ((bci - 114) / 5 + 1)

theorem transparent_iff_twoBytecodes :
    (annotatedCalls annotatedNew dimsSinceNew [110, 115, 114, 110]).toFinset.card ≤ 10 ∧
      ∀ before after s, [110, 115, 114, 110] = before ++ after →
        run (call dimsSinceNew) (start annotatedNew 10) before = some s → s.Consistent ∧ ∀ bci, after.head? = some bci →
          s.CallOk dimsSinceNew (start annotatedNew 10).method 10 bci := by
  have hcard : (annotatedCalls annotatedNew dimsSinceNew [110, 115, 114, 110]).toFinset.card ≤ 10 := by decide
  exact ⟨hcard, (transparent_iff annotatedNew 10 dimsSinceNew [110, 115, 114, 110] (by decide)).2 hcard⟩

/-- The attribute has 10 bytes and so has the cache 10 entries. The eleventh match is written after its end. -/
theorem putIndex_eleventhMatch :
    ∃ s, run (call dimsSinceNew) (start annotatedNew 10) [110, 114, 119, 124, 129, 134, 139, 144, 149, 154] = some s ∧
      s.putIndex dimsSinceNew 159 = some 10 ∧ getAllocGen s.method 159 (dimsSinceNew 159) = none ∧
      (getAllocGen (start annotatedNew 10).method 159 (dimsSinceNew 159)).map Prod.fst = some 1 :=
  ⟨_, rfl, rfl, rfl, rfl⟩

end Example

end Session

end Rolp.Annotation
