import Rolp.Heap.AllocRegion

/-!
# The search for contiguous free regions

`HeapRegionSeq` holds the regions in address order and remembers where the last search ended. A region is modelled by
whether it is empty, as those above the current length are.
-/

namespace Rolp.Heap

open Rolp.Lib List Nat

structure HeapRegionSeq where
  /-- `is_empty()` of each region below the length -/
  regions : List Bool
  allocatedLength : Nat
  nextSearchIndex : Nat
  deriving DecidableEq

namespace HeapRegionSeq

def length (s : HeapRegionSeq) : Nat := s.regions.length

/-- `initialize` -/
def initial : HeapRegionSeq := ⟨[], 0, 0⟩

/-- The loop of `find_contiguous_from`, over the regions from `curr` on. -/
def scan (num : Nat) : List Bool → Nat → Option Nat → Nat → Option Nat × Nat
  | [], _, first, numSoFar => (first, numSoFar)
  | isEmpty :: rest, curr, first, numSoFar =>
    if numSoFar < num then
      if isEmpty then
        match first with
        | none => scan num rest (curr + 1) (some curr) 1
        | some f => scan num rest (curr + 1) (some f) (numSoFar + 1)
      else scan num rest (curr + 1) none 0
    else (first, numSoFar)

variable (s : HeapRegionSeq)

/-- `find_contiguous_from`, where `none` stands for `G1_NULL_HRS_INDEX`. -/
def findContiguousFrom (start num : Nat) : Option Nat :=
  let (first, numSoFar) := scan num (s.regions.drop start) start none 0
  if numSoFar = num then first else none

def findContiguous (num : Nat) : HeapRegionSeq × Option Nat :=
  let start := s.nextSearchIndex
  let res :=
    match s.findContiguousFrom start num with
    | none => if 0 < start then s.findContiguousFrom 0 num else none
    | some i => some i
  match res with
  | none => (s, none)
  | some i => ({ s with nextSearchIndex := i + num }, some i)

/-- `expand_by` a number of regions. Above the allocated length each needs a new `HeapRegion`; the system gives at most
`grants`. -/
def expandBy (s : HeapRegionSeq) : Nat → Nat → HeapRegionSeq
  | 0, _ => s
  | n + 1, grants =>
    if s.length = s.allocatedLength then
      match grants with
      | 0 => s
      | grants + 1 =>
        expandBy { s with regions := s.regions ++ [true], allocatedLength := s.allocatedLength + 1 } n grants
    else expandBy { s with regions := s.regions ++ [true] } n grants

/-- The loop of `shrink_by`, with the number of removed regions. -/
def shrinkLoop : List Bool → Nat → List Bool × Nat
  | regions, 0 => (regions, 0)
  | regions, n + 1 =>
    match regions.getLast? with
    | some true =>
      let (regions', i) := shrinkLoop regions.dropLast n
      (regions', i + 1)
    | _ => (regions, 0)

def shrinkBy (numRegionsToRemove : Nat) : HeapRegionSeq × Nat :=
  let (regions, i) := shrinkLoop s.regions numRegionsToRemove
  ({ s with nextSearchIndex := 0, regions }, i)

/-- The loop of `free_suffix`, from the last region down. -/
def countEmpty : List Bool → Nat
  | [] => 0
  | isEmpty :: rest => if isEmpty then countEmpty rest + 1 else 0

def freeSuffix : Nat := countEmpty s.regions.reverse

end HeapRegionSeq

/-! ## Histories -/

inductive SeqOp where
  | expandBy (numRegions grants : Nat)
  | shrinkBy (numRegions : Nat)
  | findContiguous (num : Nat)
  /-- Regions are allocated and freed. -/
  | mutate (isEmpty : Nat → Bool)

def HeapRegionSeq.step (maxLength : Nat) (s : HeapRegionSeq) : SeqOp → Option HeapRegionSeq
  | .expandBy n grants => if 0 < n ∧ s.length + n ≤ maxLength then some (s.expandBy n grants) else none
  | .shrinkBy n => if n < s.length then some (s.shrinkBy n).1 else none
  | .findContiguous num => if 1 < num then some (s.findContiguous num).1 else none
  | .mutate isEmpty => some { s with regions := s.regions.mapIdx fun i _ => isEmpty i }

/-! ## Humongous objects -/

/-- `freeList` is the master free list after the secondary one has been appended to it. -/
structure HumongousHeap where
  hrs : HeapRegionSeq
  freeList : List Nat
  deriving DecidableEq

/-- How the search for the regions of a humongous object ends: with regions, with a request to expand the heap, or with
neither. -/
inductive HumongousSearch where
  | found (first : Nat)
  | expand (numRegions : Nat)
  | full
  deriving DecidableEq

def uintSub (a b : Nat) : Nat := (a + (2 ^ 32 - b % 2 ^ 32)) % 2 ^ 32

namespace HumongousHeap

/-- `num_regions` of `humongous_obj_allocate`, of type `uint`. -/
def numRegions (grainWords wordSize : Nat) : Nat :=
  let wordSizeRounded := (wordSize + grainWords - 1) / grainWords * grainWords
  wordSizeRounded / grainWords % 2 ^ 32

def humongousObjAllocateFindFirst (h : HumongousHeap) (numRegions : Nat) : HumongousHeap × Option Nat :=
  if numRegions = 1 then
    match h.freeList with
    | [] => (h, none)
    | i :: rest => ({ h with freeList := rest }, some i)
  else if numRegions ≤ h.freeList.length then
    match h.hrs.findContiguous numRegions with
    | (hrs, none) => ({ h with hrs }, none)
    | (hrs, some first) => ({ hrs, freeList := h.freeList.filter (· ∉ List.range' first numRegions) }, some first)
  else (h, none)

/-- `humongous_obj_allocate` up to the call of `expand`. -/
def humongousObjAllocate (grainWords : Nat) (h : HumongousHeap) (wordSize expansionRegions : Nat) :
    HumongousHeap × HumongousSearch :=
  let numRegions := numRegions grainWords wordSize
  let fs := h.hrs.freeSuffix
  match h.humongousObjAllocateFindFirst numRegions with
  | (h, some first) => (h, .found first)
  | (h, none) => if numRegions ≤ fs + expansionRegions then (h, .expand (uintSub numRegions fs)) else (h, .full)

/-- The empty regions are exactly those on the free list. -/
structure FreeListExact (h : HumongousHeap) : Prop where
  nodup : h.freeList.Nodup
  mem_iff : ∀ i, i ∈ h.freeList ↔ h.hrs.regions[i]? = some true

end HumongousHeap

/-! ## The scan -/

namespace HeapRegionSeq

def EmptyRun (regions : List Bool) (num i : Nat) : Prop :=
  i + num ≤ regions.length ∧ ∀ j, i ≤ j → j < i + num → regions[j]? = some true

/-- What the variables mean after the regions from `start` to `curr`: the current run of empty regions starts at
`first`, and no long enough run starts before it. -/
def Tracks (regions : List Bool) (num start curr : Nat) : Option Nat → Nat → Prop
  | none, numSoFar => numSoFar = 0 ∧ ∀ i, start ≤ i → EmptyRun regions num i → curr ≤ i
  | some f, numSoFar =>
    f + numSoFar = curr ∧ 0 < numSoFar ∧ numSoFar ≤ num ∧
      (∀ j, f ≤ j → j < curr → regions[j]? = some true) ∧ ∀ i, start ≤ i → EmptyRun regions num i → f ≤ i

section Scan

variable {regions : List Bool} {num start curr numSoFar : Nat}

lemma Tracks.start_run (h : Tracks regions num start curr none numSoFar) (hnum : 0 < num)
    (hcurr : regions[curr]? = some true) : Tracks regions num start (curr + 1) (some curr) 1 := by
  refine ⟨rfl, one_pos, hnum, fun j hj hj' => ?_, h.2⟩
  have heq : j = curr := by omega
  rw [heq]
  exact hcurr

lemma Tracks.extend_run {f} (h : Tracks regions num start curr (some f) numSoFar) (hlt : numSoFar < num)
    (hcurr : regions[curr]? = some true) : Tracks regions num start (curr + 1) (some f) (numSoFar + 1) := by
  obtain ⟨hf, hpos, -, hempty, hbefore⟩ := h
  refine ⟨by omega, by omega, hlt, fun j hj hj' => ?_, hbefore⟩
  rcases Nat.lt_succ_iff_lt_or_eq.1 hj' with hj' | rfl
  · exact hempty j hj hj'
  · exact hcurr

variable {first : Option Nat}

lemma Tracks.end_run (h : Tracks regions num start curr first numSoFar) (hlt : numSoFar < num)
    (hcurr : regions[curr]? = some false) : Tracks regions num start (curr + 1) none 0 := by
  refine ⟨rfl, fun i hi hrun => ?_⟩
  -- a long enough run that starts at the current run or later, but not after `curr`, would contain `curr`
  have hreach : curr < i + num := by
    cases first with
    | none =>
      have := h.2 i hi hrun
      omega
    | some f =>
      have := h.2.2.2.2 i hi hrun
      have := h.1
      omega
  by_contra hle
  have hempty := hrun.2 curr (by omega) hreach
  rw [hcurr] at hempty
  cases hempty

/-- The loop finds a run exactly if one starts at `start` or later. -/
def ScanFinds (regions : List Bool) (num start : Nat) (result : Option Nat × Nat) : Prop :=
  (result.2 = num ∧ ∃ f, result.1 = some f ∧ EmptyRun regions num f) ∨
    (result.2 ≠ num ∧ ∀ i, start ≤ i → ¬EmptyRun regions num i)

lemma EmptyRun.of_full {f} (h : Tracks regions num start curr (some f) num) (hlen : curr ≤ regions.length) :
    EmptyRun regions num f := by
  obtain ⟨hf, -, -, hempty, -⟩ := h
  exact ⟨by omega, fun j hj hj' => hempty j hj (by omega)⟩

lemma Tracks.at_end (h : Tracks regions num start regions.length first numSoFar)
    (hnum : 0 < num) : ScanFinds regions num start (first, numSoFar) := by
  cases first with
  | none =>
    obtain ⟨rfl, hbefore⟩ := h
    refine .inr ⟨Nat.ne_of_lt hnum, fun i hi hrun => ?_⟩
    have := hbefore i hi hrun
    have := hrun.1
    omega
  | some f =>
    by_cases heq : numSoFar = num
    · subst heq
      exact .inl ⟨rfl, f, rfl, EmptyRun.of_full h (le_refl _)⟩
    · refine .inr ⟨heq, fun i hi hrun => ?_⟩
      have := h.2.2.2.2 i hi hrun
      have := hrun.1
      have := h.1
      have := h.2.2.1
      omega

lemma Tracks.scan_cons {isEmpty} (rest)
    (h : Tracks regions num start curr first numSoFar) (hnum : 0 < num) (hlt : numSoFar < num)
    (hcurr : regions[curr]? = some isEmpty) : ∃ first' numSoFar', Tracks regions num start (curr + 1) first' numSoFar' ∧
      scan num (isEmpty :: rest) curr first numSoFar = scan num rest (curr + 1) first' numSoFar' := by
  cases isEmpty with
  | false => exact ⟨none, 0, h.end_run hlt hcurr, by simp [scan, hlt]⟩
  | true =>
    cases first with
    | none => exact ⟨some curr, 1, h.start_run hnum hcurr, by simp [scan, hlt]⟩
    | some f => exact ⟨some f, numSoFar + 1, h.extend_run hlt hcurr, by simp [scan, hlt]⟩

lemma scan_finds (hnum : 0 < num) (rest)
    (h : Tracks regions num start curr first numSoFar) (hrest : regions.drop curr = rest)
    (hlen : curr ≤ regions.length) : ScanFinds regions num start (scan num rest curr first numSoFar) := by
  induction rest generalizing curr first numSoFar with
  | nil =>
    have hend : curr = regions.length := le_antisymm hlen (drop_eq_nil_iff.1 hrest)
    subst hend
    exact h.at_end hnum
  | cons isEmpty rest ih =>
    have hcurr : regions[curr]? = some isEmpty := by
      rw [← head?_drop, hrest]
      rfl
    by_cases hlt : numSoFar < num
    · obtain ⟨first', numSoFar', h', heq⟩ := h.scan_cons rest hnum hlt hcurr
      rw [heq]
      refine ih h' ?_ ?_
      · rw [← drop_drop, hrest]
        rfl
      · have hget := (List.getElem?_eq_some_iff.1 hcurr).1
        omega
    · have hstop : scan num (isEmpty :: rest) curr first numSoFar = (first, numSoFar) := by simp [scan, hlt]
      rw [hstop]
      cases first with
      | none =>
        have := h.1
        omega
      | some f =>
        have heq : numSoFar = num := le_antisymm h.2.2.1 (not_lt.1 hlt)
        subst heq
        exact .inl ⟨rfl, f, rfl, EmptyRun.of_full h hlen⟩

end Scan

/-! ## The search -/

variable {s : HeapRegionSeq} {num start : Nat}

lemma findContiguousFrom_spec (hnum : 0 < num) (hstart : start ≤ s.length) :
    (∃ i, s.findContiguousFrom start num = some i ∧ EmptyRun s.regions num i) ∨
      (s.findContiguousFrom start num = none ∧ ∀ i, start ≤ i → ¬EmptyRun s.regions num i) := by
  have htracks : Tracks s.regions num start start none 0 := ⟨rfl, fun i hi _ => hi⟩
  unfold findContiguousFrom
  obtain ⟨heq, f, hf, hrun⟩ | ⟨hne, hnone⟩ := scan_finds hnum _ htracks rfl hstart
  · exact .inl ⟨f, by simp only [heq, hf, if_true], hrun⟩
  · exact .inr ⟨by simp only [hne, if_false], hnone⟩

lemma findContiguous_spec (hnum : 0 < num) (hnext : s.nextSearchIndex ≤ s.length) :
    (∃ i, s.findContiguous num = ({ s with nextSearchIndex := i + num }, some i) ∧ EmptyRun s.regions num i) ∨
      (s.findContiguous num = (s, none) ∧ ∀ i, ¬EmptyRun s.regions num i) := by
  unfold findContiguous
  obtain ⟨i, hi, hrun⟩ | ⟨hnone, hlate⟩ := findContiguousFrom_spec hnum hnext
  · exact .inl ⟨i, by simp [hi], hrun⟩
  · by_cases hpos : 0 < s.nextSearchIndex
    · obtain ⟨i, hi, hrun⟩ | ⟨hnone0, hall⟩ := findContiguousFrom_spec hnum (zero_le s.length)
      · exact .inl ⟨i, by simp [hnone, hpos, hi], hrun⟩
      · exact .inr ⟨by simp [hnone, hnone0], fun i => hall i (zero_le i)⟩
    · refine .inr ⟨by simp [hnone, hpos], fun i => hlate i ?_⟩
      omega

/-! ## The remembered index -/

lemma expandBy_next (s : HeapRegionSeq) (n grants : Nat) :
    (s.expandBy n grants).nextSearchIndex = s.nextSearchIndex ∧ s.length ≤ (s.expandBy n grants).length := by
  induction n generalizing s grants with
  | zero => exact ⟨rfl, le_rfl⟩
  | succ n ih =>
    unfold expandBy
    split
    · cases grants with
      | zero => exact ⟨rfl, le_rfl⟩
      | succ grants =>
        obtain ⟨hnext, hlen⟩ :=
          ih { s with regions := s.regions ++ [true], allocatedLength := s.allocatedLength + 1 } grants
        exact ⟨hnext, le_trans (by simp [length]) hlen⟩
    · obtain ⟨hnext, hlen⟩ := ih { s with regions := s.regions ++ [true] } grants
      exact ⟨hnext, le_trans (by simp [length]) hlen⟩

lemma findContiguous_next (hnum : 0 < num) (hnext : s.nextSearchIndex ≤ s.length) :
    (s.findContiguous num).1.nextSearchIndex ≤ (s.findContiguous num).1.length := by
  obtain ⟨i, heq, hrun⟩ | ⟨heq, -⟩ := findContiguous_spec hnum hnext
  · rw [heq]
    exact hrun.1
  · rw [heq]
    exact hnext

lemma step_next {maxLength : Nat} {s s' : HeapRegionSeq} {op : SeqOp} (h : s.step maxLength op = some s')
    (hnext : s.nextSearchIndex ≤ s.length) : s'.nextSearchIndex ≤ s'.length := by
  cases op with
  | expandBy n grants =>
    obtain ⟨-, ⟨⟩⟩ := Option.ite_none_right_eq_some.1 h
    obtain ⟨heq, hlen⟩ := s.expandBy_next n grants
    exact heq ▸ le_trans hnext hlen
  | shrinkBy n =>
    obtain ⟨-, ⟨⟩⟩ := Option.ite_none_right_eq_some.1 h
    exact zero_le _
  | findContiguous num =>
    obtain ⟨hnum, ⟨⟩⟩ := Option.ite_none_right_eq_some.1 h
    exact findContiguous_next (by omega) hnext
  | mutate isEmpty =>
    cases h
    simpa [length] using hnext

lemma run_next {maxLength : Nat} {ops : List SeqOp} {s : HeapRegionSeq}
    (h : run (HeapRegionSeq.step maxLength) initial ops = some s) : s.nextSearchIndex ≤ s.length :=
  run_invariant (fun s => s.nextSearchIndex ≤ s.length) (fun _ => True)
    (fun _ _ _ hnext _ hstep => step_next hstep hnext) (le_refl 0) (fun _ _ => trivial) h

/-! ## The free suffix -/

lemma countEmpty_spec (l) : countEmpty l ≤ l.length ∧ ∀ j, j < countEmpty l → l[j]? = some true := by
  induction l with
  | nil => exact ⟨le_refl 0, fun j hj => absurd hj (not_lt_zero j)⟩
  | cons isEmpty rest ih =>
    cases isEmpty with
    | false => exact ⟨zero_le _, fun j hj => absurd hj (not_lt_zero j)⟩
    | true =>
      refine ⟨succ_le_succ ih.1, fun j hj => ?_⟩
      cases j with
      | zero => rfl
      | succ j => exact ih.2 j (lt_of_succ_lt_succ hj)

lemma emptyRun_of_le_freeSuffix (h : num ≤ s.freeSuffix) : EmptyRun s.regions num (s.length - num) := by
  obtain ⟨hlen, hempty⟩ := countEmpty_spec s.regions.reverse
  rw [length_reverse] at hlen
  have hle : num ≤ s.regions.length := le_trans h hlen
  refine ⟨by simp only [length]; omega, fun j hj hj' => ?_⟩
  simp only [length] at hj hj'
  have hget := hempty (s.regions.length - 1 - j) (by simp only [freeSuffix] at h; omega)
  rw [getElem?_reverse (by omega)] at hget
  have hidx : s.regions.length - 1 - (s.regions.length - 1 - j) = j := by omega
  rwa [hidx] at hget

end HeapRegionSeq

namespace HumongousHeap

open HeapRegionSeq

variable {h : HumongousHeap}

lemma FreeListExact.length_ge (hexact : h.FreeListExact) {num i}
    (hrun : EmptyRun h.hrs.regions num i) : num ≤ h.freeList.length := by
  have hsub : range' i num ⊆ h.freeList := by
    intro j hj
    obtain ⟨hj, hj'⟩ := mem_range'_1.1 hj
    exact (hexact.mem_iff j).2 (hrun.2 j hj hj')
  simpa using (List.Nodup.subperm nodup_range' hsub).length_le

lemma findFirst_none {h' num} (hexact : h.FreeListExact) (hnext : h.hrs.nextSearchIndex ≤ h.hrs.length) (hnum : 0 < num)
    (hnone : h.humongousObjAllocateFindFirst num = (h', none)) : h.hrs.freeSuffix < num := by
  by_contra hge
  have hrun := emptyRun_of_le_freeSuffix (not_lt.1 hge)
  have hlen := hexact.length_ge hrun
  unfold humongousObjAllocateFindFirst at hnone
  split at hnone
  · cases hfree : h.freeList with
    | nil =>
      rw [hfree] at hlen
      exact absurd hnum (not_lt.2 hlen)
    | cons i rest => simp [hfree] at hnone
  · obtain ⟨i, heq, -⟩ | ⟨-, hall⟩ := findContiguous_spec hnum hnext
    · simp [heq] at hnone
    · exact hall _ hrun

lemma numRegions_lt (grainWords wordSize) : numRegions grainWords wordSize < 2 ^ 32 := mod_lt _ (by decide)

lemma uintSub_of_le {a b} (hle : b ≤ a) (hlt : a < 2 ^ 32) : uintSub a b = a - b := by
  unfold uintSub
  omega

lemma humongousObjAllocate_expand {grainWords h' wordSize expansionRegions k}
    (hexact : h.FreeListExact) (hnext : h.hrs.nextSearchIndex ≤ h.hrs.length)
    (hnum : 0 < numRegions grainWords wordSize)
    (hexpand : humongousObjAllocate grainWords h wordSize expansionRegions = (h', .expand k)) :
    h.hrs.freeSuffix < numRegions grainWords wordSize ∧ k = numRegions grainWords wordSize - h.hrs.freeSuffix := by
  unfold humongousObjAllocate at hexpand
  dsimp only at hexpand
  split at hexpand
  · cases hexpand
  next h'' hnone =>
    have hlt := findFirst_none hexact hnext hnum hnone
    split at hexpand
    · cases hexpand
      exact ⟨hlt, uintSub_of_le (le_of_lt hlt) (numRegions_lt _ _)⟩
    · cases hexpand

end HumongousHeap

/-- After every history the search is sound and complete, the remembered index is valid, and no humongous allocation
asks for a negative number of regions. -/
theorem HeapRegionSeq.findContiguous_after_history (maxLength : Nat) (ops : List SeqOp) (s : HeapRegionSeq)
    (hrun : run (HeapRegionSeq.step maxLength) initial ops = some s) : s.nextSearchIndex ≤ s.length ∧ (∀ num, 2 ≤ num →
        (∃ i, (s.findContiguous num).2 = some i ∧ EmptyRun s.regions num i) ∨
          ((s.findContiguous num).2 = none ∧ ∀ i, ¬EmptyRun s.regions num i)) ∧
      ∀ grainWords freeList wordSize expansionRegions h' k,
        HumongousHeap.FreeListExact ⟨s, freeList⟩ → 0 < HumongousHeap.numRegions grainWords wordSize →
        HumongousHeap.humongousObjAllocate grainWords ⟨s, freeList⟩ wordSize expansionRegions = (h', .expand k) →
          s.freeSuffix < HumongousHeap.numRegions grainWords wordSize ∧
            k = HumongousHeap.numRegions grainWords wordSize - s.freeSuffix := by
  have hnext := run_next hrun
  refine ⟨hnext, fun num hnum => ?_, ?_⟩
  · obtain ⟨i, heq, hempty⟩ | ⟨heq, hnone⟩ := findContiguous_spec (by omega : 0 < num) hnext
    · exact .inl ⟨i, by rw [heq], hempty⟩
    · exact .inr ⟨by rw [heq], hnone⟩
  · intro grainWords freeList wordSize expansionRegions h' k hexact hpos hexpand
    exact HumongousHeap.humongousObjAllocate_expand hexact hnext hpos hexpand

theorem HeapRegionSeq.findContiguous_after_history_example :
    (HeapRegionSeq.mk [true, true, true, false] 4 2).nextSearchIndex ≤ 4 ∧
      ∃ i, ((HeapRegionSeq.mk [true, true, true, false] 4 2).findContiguous 3).2 = some i ∧
        EmptyRun [true, true, true, false] 3 i := by
  have hspec := HeapRegionSeq.findContiguous_after_history 8
    [.expandBy 4 4, .findContiguous 2, .mutate (· < 3)] ⟨[true, true, true, false], 4, 2⟩ (by decide)
  obtain hfound | ⟨hnone, -⟩ := hspec.2.1 3 (by decide)
  · exact ⟨hspec.1, hfound⟩
  · exact absurd hnone (by decide)

end Rolp.Heap
