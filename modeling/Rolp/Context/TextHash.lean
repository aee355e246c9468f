import Mathlib.Data.List.GetD
import Rolp.Context.StaticAnalysis
import Rolp.Lib.Run

/-!
# Sites that are named in a file

`StaticAnalysis::hash(char*, int)` has to give a name in the input file the key that `StaticAnalysis::hash(Method*,
int)` gives to the method of that name. The last name is kept in a static buffer, which is compared and filled without
its terminator, so it can have more text than the name.
-/

namespace Rolp.Context

open Rolp.Lib List

/-! ## Murmur3 -/

section Murmur

def mixK1 (k1 : BitVec 32) : BitVec 32 := (k1 * 0xcc9e2d51).rotateLeft 15 * 0x1b873593

def murmurBody (h1 : BitVec 32) : List (BitVec 8) → BitVec 32 × List (BitVec 8)
  | a :: b :: c :: d :: rest =>
    let k1 := a.setWidth 32 ||| b.setWidth 32 <<< 8 ||| c.setWidth 32 <<< 16 ||| d.setWidth 32 <<< 24
    murmurBody ((h1 ^^^ mixK1 k1).rotateLeft 13 * 5 + 0xe6546b64) rest
  | tail => (h1, tail)

def murmurTail (h1 : BitVec 32) : List (BitVec 8) → BitVec 32
  | [a, b, c] => h1 ^^^ mixK1 (c.setWidth 32 <<< 16 ^^^ b.setWidth 32 <<< 8 ^^^ a.setWidth 32)
  | [a, b] => h1 ^^^ mixK1 (b.setWidth 32 <<< 8 ^^^ a.setWidth 32)
  | [a] => h1 ^^^ mixK1 (a.setWidth 32)
  | _ => h1

def murmurFinish (h1 : BitVec 32) : BitVec 32 :=
  let h1 := h1 ^^^ (h1 >>> 16)
  let h1 := h1 * 0x85ebca6b
  let h1 := h1 ^^^ (h1 >>> 13)
  let h1 := h1 * 0xc2b2ae35
  h1 ^^^ (h1 >>> 16)

def murmur332 (seed : BitVec 32) (data : List (BitVec 8)) : BitVec 32 :=
  let (h1, tail) := murmurBody seed data
  murmurFinish (murmurTail h1 tail ^^^ BitVec.ofNat 32 data.length)

end Murmur

/-! ## Strings -/

abbrev bufLen : Nat := 8 * 1024 + 1

def nul : Char := Char.ofNat 0

/-- A NUL-terminated string that fits into a buffer of `BUF_LEN` bytes. -/
structure CString where
  chars : List Char
  nul_free : ∀ c ∈ chars, c ≠ nul
  length_lt : chars.length < bufLen

def memory (chars : List Char) (i : Nat) : Char := chars.getD i nul

def strncmp (s t : Nat → Char) : Nat → Nat → Int
  | _, 0 => 0
  | i, n + 1 =>
    if s i ≠ t i then ((s i).toNat : Int) - (t i).toNat
    else if s i = nul then 0
    else strncmp s t (i + 1) n

/-- `strncpy(dst, src, n)` for a text `src`: what is missing up to `n` is filled with NUL. -/
def strncpy (dst src : Nat → Char) (n : Nat) : Nat → Char := fun i => if i < n then src i else dst i

lemma strncmp_eq_zero_iff {s t n} (i) (hs : ∀ j < n, s (i + j) ≠ nul) :
    strncmp s t i n = 0 ↔ ∀ j < n, s (i + j) = t (i + j) := by
  induction n generalizing i with
  | zero => simp [strncmp]
  | succ n ih =>
    have hshift : ∀ j, i + (j + 1) = i + 1 + j := fun j => by omega
    have ih := ih (i + 1) fun j hj => hshift j ▸ hs (j + 1) (by omega)
    have h0 : s i ≠ nul := hs 0 (by omega)
    rw [strncmp]
    by_cases heq : s i = t i
    · rw [if_neg (not_not.2 heq), if_neg h0, ih]
      constructor
      · intro h j hj
        cases j with
        | zero => exact heq
        | succ j => exact hshift j ▸ h j (by omega)
      · intro h j hj
        exact hshift j ▸ h (j + 1) (by omega)
    · have hne : ((s i).toNat : Int) - (t i).toNat ≠ 0 := by
        intro h
        have htoNat : (s i).toNat = (t i).toNat := by omega
        exact heq (Char.ext (UInt32.toNat_inj.1 htoNat))
      rw [if_pos heq]
      exact ⟨fun h => absurd h hne, fun h => absurd (h 0 (by omega)) heq⟩

lemma memory_ne_nul {chars} (h : ∀ c ∈ chars, c ≠ nul) {i} (hi : i < chars.length) : memory chars i ≠ nul := by
  rw [memory, getD_eq_getElem _ _ hi]
  exact h _ (getElem_mem hi)

lemma prefix_iff_memory {m held} (hm : ∀ c ∈ m, c ≠ nul) : m <+: held ↔ ∀ j < m.length, memory m j = memory held j := by
  rw [prefix_iff_getElem?]
  constructor
  · intro h j hj
    rw [memory, memory, getD_eq_getElem _ _ hj, getD_eq_getElem?_getD, h j hj]
    rfl
  intro h j hj
  have hj' := h j hj
  rw [memory, memory, getD_eq_getElem _ _ hj, getD_eq_getElem?_getD] at hj'
  cases hget : held[j]? with
  | none =>
    rw [hget] at hj'
    exact absurd hj' (hm _ (getElem_mem hj))
  | some c =>
    rw [hget] at hj'
    exact congrArg some hj'.symm

lemma memory_overwrite (m held : List Char) (i) :
    strncpy (memory held) (memory m) m.length i = memory (m ++ held.drop m.length) i := by
  unfold strncpy memory
  split
  next hi => rw [getD_append _ _ _ _ hi]
  · rw [getD_append_right _ _ _ _ (by omega), getD_eq_getElem?_getD, getD_eq_getElem?_getD,
      getElem?_drop, Nat.add_sub_of_le (by omega)]

/-! ## The hash -/

/-- The static variables of `hash(char*, int)`. -/
structure TextCache where
  buf : Nat → Char
  key : BitVec 32

def TextCache.start : TextCache := ⟨fun _ => nul, 0⟩

/-- `hash(m, bci)`. The test of the length before it only prints a warning. -/
def TextCache.hash (murmur : List Char → BitVec 32) (cache : TextCache) : CString × BitVec 32 → TextCache × BitVec 32
  | (m, bci) =>
    let mlen := m.chars.length
    let cache :=
      if strncmp (memory m.chars) cache.buf 0 mlen ≠ 0 then
        ⟨strncpy cache.buf (memory m.chars) mlen, murmur m.chars⟩
      else cache
    (cache, cache.key + bci)

/-! ## What the buffer holds -/

structure NameCache where
  held : List Char
  last : Option CString

namespace NameCache

def start : NameCache := ⟨[], none⟩

def call (cache : NameCache) (m : CString) : NameCache :=
  if m.chars <+: cache.held then cache else ⟨m.chars ++ cache.held.drop m.chars.length, some m⟩

def key (murmur : List Char → BitVec 32) (cache : NameCache) : BitVec 32 :=
  match cache.last with
  | none => 0
  | some m => murmur m.chars

end NameCache

structure TextCache.Holds (murmur : List Char → BitVec 32) (cache : TextCache) (names : NameCache) : Prop where
  buf : cache.buf = memory names.held
  key : cache.key = names.key murmur

section Hash

variable {murmur : List Char → BitVec 32} {cache : TextCache} {names : NameCache}

lemma holds_start : TextCache.start.Holds murmur .start := ⟨rfl, rfl⟩

lemma TextCache.Holds.strncmp_iff (h : cache.Holds murmur names) (m : CString) :
    strncmp (memory m.chars) cache.buf 0 m.chars.length = 0 ↔ m.chars <+: names.held := by
  rw [h.buf, prefix_iff_memory m.nul_free, strncmp_eq_zero_iff]
  · simp only [Nat.zero_add]
  · intro j hj
    rw [Nat.zero_add]
    exact memory_ne_nul m.nul_free hj

lemma TextCache.Holds.hash (h : cache.Holds murmur names) (m : CString) (bci : BitVec 32) :
    (cache.hash murmur (m, bci)).1.Holds murmur (names.call m) ∧
      (cache.hash murmur (m, bci)).2 = (names.call m).key murmur + bci := by
  have hiff := h.strncmp_iff m
  unfold TextCache.hash NameCache.call
  by_cases hp : m.chars <+: names.held
  · simp only [hiff.2 hp, hp, ne_eq, not_true, if_false, if_true]
    exact ⟨h, by rw [h.key]⟩
  · simp only [ne_eq, hiff, hp]
    refine ⟨⟨?_, rfl⟩, rfl⟩
    funext i
    rw [h.buf]
    exact memory_overwrite m.chars names.held i

/-! ## Sequences of calls -/

lemma NameCache.key_call_eq_iff (murmur : List Char → BitVec 32) (names : NameCache) (m : CString) :
    (names.call m).key murmur = murmur m.chars ↔ (m.chars <+: names.held → names.key murmur = murmur m.chars) := by
  unfold NameCache.call
  split
  next hp => exact ⟨fun h _ => h, fun h => h hp⟩
  next hp => exact ⟨fun _ h => absurd h hp, fun _ => rfl⟩

def Distinguished (murmur : List Char → BitVec 32) (names : NameCache) : List (CString × BitVec 32) → Prop :=
  AtEach fun before c =>
    c.1.chars <+: ((before.map Prod.fst).foldl NameCache.call names).held →
      ((before.map Prod.fst).foldl NameCache.call names).key murmur = murmur c.1.chars

lemma results_eq_iff_distinguished (h : cache.Holds murmur names) (calls : List (CString × BitVec 32)) :
    (results (TextCache.hash murmur) cache calls).2 = calls.map (fun c => murmur c.1.chars + c.2) ↔
      Distinguished murmur names calls := by
  induction calls generalizing cache names with
  | nil => exact iff_of_true rfl (atEach_nil _)
  | cons c calls ih =>
    obtain ⟨m, bci⟩ := c
    obtain ⟨hholds, hresult⟩ := h.hash m bci
    rw [Distinguished, atEach_cons, map_cons, show (results (TextCache.hash murmur) cache ((m, bci) :: calls)).2 =
        (cache.hash murmur (m, bci)).2 :: (results (TextCache.hash murmur) (cache.hash murmur (m, bci)).1 calls).2
        from rfl, cons.injEq, ih hholds, hresult, add_left_inj, NameCache.key_call_eq_iff]
    exact .rfl

end Hash

/-! ## Keys of sites -/

section Keys

variable {M : Type} {env : Env M} {sa : StaticAnalysis M}

def StaticAnalysis.HashesCached (env : Env M) (sa : StaticAnalysis M) : Prop :=
  ∀ m, sa.methodContext m = 0 ∨ sa.methodContext m = env.murmur (env.nameAndSig m)

lemma StaticAnalysis.HashesCached.cached_eq (h : sa.HashesCached env) (m) :
    sa.cached env m = env.murmur (env.nameAndSig m) := by
  unfold StaticAnalysis.cached
  split
  · rfl
  next hne => exact (h m).resolve_left hne

variable [DecidableEq M]

lemma StaticAnalysis.HashesCached.hash (h : sa.HashesCached env) (m bci) :
    (sa.hash env m bci).1.HashesCached env := by
  intro m'
  rw [StaticAnalysis.hash_fst]
  by_cases hm : m' = m
  · subst hm
    exact .inr ((Function.update_self _ _ _).trans (h.cached_eq m'))
  · simp only [Function.update_of_ne hm]
    exact h m'

/-- A method always has the key of its name. A sequence of names has their keys exactly if the names are distinguished.
-/
theorem hash_text_iff (hsa : sa.HashesCached env) (calls : List (CString × BitVec 32)) :
    (∀ m bci, (sa.hash env m bci).2 = env.murmur (env.nameAndSig m) + bci) ∧
      ((results (TextCache.hash env.murmur) .start calls).2 = calls.map (fun c => env.murmur c.1.chars + c.2) ↔
        Distinguished env.murmur .start calls) := by
  refine ⟨fun m bci => ?_, results_eq_iff_distinguished holds_start calls⟩
  rw [StaticAnalysis.hash_snd, hsa.cached_eq]

end Keys

/-! ## Names of which none is a prefix of another -/

section PrefixFree

variable {names : List CString}

def NameCache.Led (cache : NameCache) : Prop := ∀ m, cache.last = some m → m.chars <+: cache.held

lemma led_call {cache : NameCache} (h : cache.Led) (m) : (cache.call m).Led := by
  unfold NameCache.call
  split
  · exact h
  · rintro m' ⟨⟩
    exact prefix_append _ _

/-- Only names that were called are kept, and nothing is held before the first one. -/
structure NameCache.From (names : List CString) (cache : NameCache) : Prop where
  led : cache.Led
  mem : ∀ m, cache.last = some m → m ∈ names
  empty : cache.last = none → cache.held = []

lemma NameCache.From.call {cache : NameCache} (h : cache.From names) {m : CString} (hm : m ∈ names) :
    (cache.call m).From names := by
  refine ⟨led_call h.led m, ?_, ?_⟩
  · unfold NameCache.call
    split
    · exact h.mem
    · rintro m' ⟨⟩
      exact hm
  · unfold NameCache.call
    split
    · exact h.empty
    · intro hnone
      cases hnone

lemma NameCache.From.foldl {cache : NameCache} (h : cache.From names) {ms : List CString}
    (hms : ∀ m ∈ ms, m ∈ names) : (ms.foldl NameCache.call cache).From names := by
  induction ms generalizing cache with
  | nil => exact h
  | cons m ms ih => exact ih (h.call (hms m (by simp))) fun m' hm' => hms m' (by simp [hm'])

lemma distinguished_of_prefixFree (murmur) {calls : List (CString × BitVec 32)} (hempty : ∀ c ∈ calls, c.1.chars ≠ [])
    (hfree : ∀ c ∈ calls, ∀ c' ∈ calls, c.1.chars <+: c'.1.chars → c.1.chars = c'.1.chars) :
    Distinguished murmur .start calls := by
  intro before c after heq hprefix
  have hc : c ∈ calls := by simp [heq]
  have hfrom : NameCache.From (calls.map Prod.fst) ((before.map Prod.fst).foldl NameCache.call .start) := by
    refine NameCache.From.foldl ⟨?_, ?_, fun _ => rfl⟩ fun m hm => ?_
    · rintro m ⟨⟩
    · rintro m ⟨⟩
    · obtain ⟨c', hc', rfl⟩ := mem_map.1 hm
      exact mem_map_of_mem (by simp [heq, hc'])
  generalize (before.map Prod.fst).foldl NameCache.call .start = cache at hfrom hprefix
  cases hlast : cache.last with
  | none =>
    rw [hfrom.empty hlast, prefix_nil] at hprefix
    exact absurd hprefix (hempty c hc)
  | some m =>
    obtain ⟨c', hc', rfl⟩ := mem_map.1 (hfrom.mem m hlast)
    have hsame : c.1.chars = c'.1.chars := by
      obtain hle | hle := prefix_or_prefix_of_prefix hprefix (hfrom.led _ hlast)
      · exact hfree c hc c' hc' hle
      · exact (hfree c' hc' c hc hle).symm
    rw [NameCache.key, hlast, hsame]

/-- If no text is a proper prefix of another one, the cache never answers for the wrong text. -/
theorem hash_text_of_prefixFree (murmur) {calls : List (CString × BitVec 32)} (hempty : ∀ c ∈ calls, c.1.chars ≠ [])
    (hfree : ∀ c ∈ calls, ∀ c' ∈ calls, c.1.chars <+: c'.1.chars → c.1.chars = c'.1.chars) :
    (results (TextCache.hash murmur) .start calls).2 = calls.map fun c => murmur c.1.chars + c.2 :=
  (results_eq_iff_distinguished holds_start calls).2 (distinguished_of_prefixFree murmur hempty hfree)

end PrefixFree

section Example

def bytes (chars : List Char) : List (BitVec 8) := chars.map fun c => BitVec.ofNat 8 c.toNat

def murmurEnv : Env Empty := ⟨true, true, fun m => m.elim, fun chars => murmur332 37 (bytes chars)⟩

def noSites : StaticAnalysis Empty := ⟨.empty 1 (by decide), .empty 1 (by decide), fun m => m.elim⟩

def fooBar : CString := ⟨"A.fooBar".toList, by simp [nul], by decide⟩

def foo : CString := ⟨"A.foo".toList, by simp [nul], by decide⟩

def bar : CString := ⟨"A.bar".toList, by simp [nul], by decide⟩

theorem hash_text_distinguished : Distinguished murmurEnv.murmur .start [(foo, 1), (fooBar, 2), (fooBar, 3)] ∧
      (results (TextCache.hash murmurEnv.murmur) .start [(foo, 1), (fooBar, 2), (fooBar, 3)]).2 =
        [murmurEnv.murmur foo.chars + 1, murmurEnv.murmur fooBar.chars + 2, murmurEnv.murmur fooBar.chars + 3] := by
  have hsa : noSites.HashesCached murmurEnv := fun m => m.elim
  exact ⟨(hash_text_iff hsa _).2.1 (by decide), by decide⟩

/-- A name that is a prefix of the one before gets its hash. -/
theorem hash_text_prefix : (results (TextCache.hash murmurEnv.murmur) .start [(fooBar, 0), (foo, 0)]).2 =
        [murmurEnv.murmur fooBar.chars, murmurEnv.murmur fooBar.chars] ∧
      murmurEnv.murmur foo.chars ≠ murmurEnv.murmur fooBar.chars := by
  decide

theorem hash_text_of_prefixFree_bar :
    (results (TextCache.hash murmurEnv.murmur) .start [(foo, 1), (bar, 2), (foo, 3)]).2 =
    [murmurEnv.murmur foo.chars + 1, murmurEnv.murmur bar.chars + 2, murmurEnv.murmur foo.chars + 3] :=
  hash_text_of_prefixFree _ (by decide) (by decide)

end Example

end Rolp.Context
