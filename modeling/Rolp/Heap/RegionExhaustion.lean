import Rolp.Heap.AllocRegion

/-!
# Allocation regions when there is no region left

The four subclasses of `G1AllocRegion` differ in how they take a new region and in what they do with a retired one. A
locked allocation retires the current region before it asks for a new one, so a request that fails has already changed
the heap.
-/

namespace Rolp.Heap

/-- A region with what `allocate_new_region` and `retire_region` of the subclasses set and read. -/
structure KindedRegion extends HeapRegion where
  survivor : Bool
  genAllocRegion : Bool
  epoch : Nat
  activeTlabs : Nat
  deriving DecidableEq

inductive GCAllocPurpose where
  | survived
  | tenured
  deriving DecidableEq

/-- The subclasses of `G1AllocRegion`. -/
inductive AllocRegionKind where
  | mutator
  | survivor
  | old
  | gen
  deriving DecidableEq

structure G1AllocRegion where
  kind : AllocRegionKind
  allocRegion : RegionPtr
  usedBytesBefore : Nat
  count : Nat
  /-- The fields of `GenAllocRegion`. -/
  nregions : Nat
  gen : Nat
  epoch : Nat
  deriving DecidableEq

abbrev regionsUnlimited : Nat := 2 ^ 32 - 1

/-- The heap and its policy, as far as allocation regions use them. A list stands for each set that a retired region is
added to. -/
structure RegionSupply where
  regions : List KindedRegion
  freeList : List Nat
  /-- What is on the list once no more free regions are coming. -/
  secondaryFreeList : List Nat
  stressConcRegionFreeing : Bool
  expandHeapAfterAllocFailure : Bool
  youngListFull : Bool
  maxSurvivorRegions : Nat
  tenuringThreshold : Nat
  summaryBytesUsed : Nat
  bytesCopiedDuringGc : Nat
  incrementalCset : List Nat
  survivorRegions : List Nat
  oldSet : List Nat
  enqueued : List Nat
  deriving DecidableEq

namespace RegionSupply

variable (h : RegionSupply)

def modifyRegion (i : Nat) (f : KindedRegion → KindedRegion) : RegionSupply :=
  { h with regions := h.regions.modify i f }

def usedAt (i : Nat) : Nat := ((h.regions[i]?).map fun r => r.toHeapRegion.used).getD 0

/-! ## New regions -/

def removeHeadOrNull : RegionSupply × Option Nat :=
  match h.freeList with
  | [] => (h, none)
  | i :: rest => ({ h with freeList := rest }, some i)

def newRegionTrySecondaryFreeList : RegionSupply × Option Nat :=
  match h.secondaryFreeList with
  | [] => (h, none)
  | secondary => { h with freeList := h.freeList ++ secondary, secondaryFreeList := [] }.removeHeadOrNull

/-- `expand`, by the number of regions that the system gives. -/
def expand (expansion : Nat) : RegionSupply :=
  { h with
    regions := h.regions ++ List.replicate expansion ⟨⟨0, 0, false⟩, false, false, 0, 0⟩
    freeList := h.freeList ++ List.range' h.regions.length expansion }

variable (doExpand : Bool) (expansion : Nat)

/-- The last part of `new_region`, after both lists were found empty. -/
def newRegionExpanding : RegionSupply × Option Nat :=
  if doExpand && h.expandHeapAfterAllocFailure then
    if 0 < expansion then (h.expand expansion).removeHeadOrNull
    else ({ h with expandHeapAfterAllocFailure := false }, none)
  else (h, none)

def newRegion : RegionSupply × Option Nat :=
  if h.stressConcRegionFreeing && !h.secondaryFreeList.isEmpty then h.newRegionTrySecondaryFreeList
  else
    match h.removeHeadOrNull with
    | (h, some i) => (h, some i)
    | (h, none) =>
      match h.newRegionTrySecondaryFreeList with
      | (h, some i) => (h, some i)
      | (h, none) => h.newRegionExpanding doExpand expansion

def maxRegions : GCAllocPurpose → Nat
  | .survived => h.maxSurvivorRegions
  | .tenured => regionsUnlimited

def noteAllocRegionLimitReached : GCAllocPurpose → RegionSupply
  | .survived => { h with tenuringThreshold := 0 }
  | .tenured => h

def newMutatorAllocRegion (force : Bool) : RegionSupply × Option Nat :=
  if force || !h.youngListFull then h.newRegion false 0 else (h, none)

def newGcAllocRegion (count expansion : Nat) (ap : GCAllocPurpose) : RegionSupply × Option Nat :=
  if count < h.maxRegions ap then
    match h.newRegion true expansion with
    | (h, some i) => (h.modifyRegion i fun r => { r with survivor := r.survivor || ap = .survived }, some i)
    | (h, none) => (h.noteAllocRegionLimitReached ap, none)
  else (h, none)

/-- `new_gen_alloc_region`, whose assertion is not part of a product build. -/
def newGenAllocRegion (count expansion : Nat) : RegionSupply × Option Nat :=
  if count < h.maxRegions .tenured then h.newRegion true expansion else (h, none)

/-! ## Retired regions -/

def retireGcAllocRegion (i allocatedBytes : Nat) (ap : GCAllocPurpose) : RegionSupply :=
  let h := { h with bytesCopiedDuringGc := h.bytesCopiedDuringGc + allocatedBytes }
  match ap with
  | .survived => { h with survivorRegions := i :: h.survivorRegions }
  | .tenured => { h with oldSet := i :: h.oldSet }

/-- `retire_gen_alloc_region` and what `GenAllocRegion::retire_region` does after it. -/
def retireGenAllocRegion (i : Nat) : RegionSupply :=
  let h := { h with summaryBytesUsed := h.summaryBytesUsed + h.usedAt i, oldSet := i :: h.oldSet }
  let h := h.modifyRegion i fun r => { r with genAllocRegion := false }
  if (h.regions[i]?).any fun r => r.gen ≠ 0 ∧ r.activeTlabs = 0 then { h with enqueued := i :: h.enqueued } else h

def retireRegion (i allocatedBytes : Nat) : AllocRegionKind → RegionSupply
  | .mutator =>
    { h with incrementalCset := i :: h.incrementalCset, summaryBytesUsed := h.summaryBytesUsed + allocatedBytes }
  | .survivor => h.retireGcAllocRegion i allocatedBytes .survived
  | .old => h.retireGcAllocRegion i allocatedBytes .tenured
  | .gen => h.retireGenAllocRegion i

end RegionSupply

namespace G1AllocRegion

def retired (a : G1AllocRegion) : G1AllocRegion := { a with usedBytesBefore := 0, allocRegion := .dummy }

variable (l : Layout) (a : G1AllocRegion) (h : RegionSupply)

def retire (fillUp : Bool) : Option (G1AllocRegion × RegionSupply) :=
  match a.allocRegion with
  | .null => none
  | .dummy => some (a, h)
  | .region i =>
    let h :=
      if fillUp then h.modifyRegion i fun r => { r with toHeapRegion := r.toHeapRegion.fillUpRemainingSpace l } else h
    let allocatedBytes := h.usedAt i - a.usedBytesBefore
    some (a.retired, h.retireRegion i allocatedBytes a.kind)

/-- `allocate_new_region` of the four subclasses. `GenAllocRegion` writes into the region without a test for `NULL`,
which is undefined. -/
def allocateNewRegion (expansion : Nat) (force : Bool) : Option (G1AllocRegion × RegionSupply × Option Nat) :=
  match a.kind with
  | .mutator => some (a, h.newMutatorAllocRegion force)
  | .survivor => some (a, h.newGcAllocRegion a.count expansion .survived)
  | .old => some (a, h.newGcAllocRegion a.count expansion .tenured)
  | .gen =>
    match h.newGenAllocRegion a.count expansion with
    | (_, none) => none
    | (h, some i) =>
      let h := h.modifyRegion i fun r =>
        { r with toHeapRegion := { r.toHeapRegion with gen := a.gen }, genAllocRegion := true, epoch := a.epoch }
      some ({ a with nregions := a.nregions + 1 }, h, some i)

def allocateIn (i wordSize : Nat) : RegionSupply × Option (Nat × Nat) :=
  match h.regions[i]? with
  | none => (h, none)
  | some r =>
    let (r', success) := r.toHeapRegion.allocate l wordSize
    (h.modifyRegion i fun r => { r with toHeapRegion := r' }, if success then some (i, r.top) else none)

/-- `new_alloc_region_and_allocate`. The result is the region and the offset of the allocated words. -/
def newAllocRegionAndAllocate (wordSize expansion : Nat)
    (force : Bool) : Option (G1AllocRegion × RegionSupply × Option (Nat × Nat)) :=
  match a.allocateNewRegion h expansion force with
  | none => none
  | some (a, h, none) => some (a, h, none)
  | some (a, h, some i) =>
    let a := { a with usedBytesBefore := h.usedAt i, allocRegion := .region i, count := a.count + 1 }
    some (a, allocateIn l h i wordSize)

/-- `attempt_allocation`. The dummy region has no room, so only an empty request succeeds in it. -/
def attemptAllocation (wordSize : Nat) : Option (RegionSupply × Option (Nat × Nat)) :=
  match a.allocRegion with
  | .null => none
  | .dummy => some (h, if wordSize = 0 then some (0, 0) else none)
  | .region i => if i < h.regions.length then some (allocateIn l h i wordSize) else none

def attemptAllocationLocked (wordSize expansion : Nat) : Option (G1AllocRegion × RegionSupply × Option (Nat × Nat)) :=
  match a.attemptAllocation l h wordSize with
  | none => none
  | some (h, some result) => some (a, h, some result)
  | some (h, none) =>
    match a.retire l h true with
    | none => none
    | some (a, h) => a.newAllocRegionAndAllocate l h wordSize expansion false

/-- What `init` establishes and a locked allocation keeps. -/
structure Initialized (a : G1AllocRegion) : Prop where
  not_null : a.allocRegion ≠ .null
  dummy_unused : a.allocRegion = .dummy → a.usedBytesBefore = 0

end G1AllocRegion

/-! ## What a failed request leaves behind -/

variable {h h' : RegionSupply} {expansion : Nat} {force : Bool}

namespace RegionSupply

lemma removeHeadOrNull_none : h.removeHeadOrNull.2 = none ↔ h.freeList = [] := by
  unfold removeHeadOrNull
  cases h.freeList <;> simp

lemma newRegionTrySecondaryFreeList_none : h.newRegionTrySecondaryFreeList.2 = none ↔ h.secondaryFreeList = [] := by
  unfold newRegionTrySecondaryFreeList
  cases h.secondaryFreeList <;> simp [removeHeadOrNull_none]

variable {doExpand : Bool}

lemma newRegionExpanding_none (hfree : h.freeList = []) : (h.newRegionExpanding doExpand expansion).2 = none ↔
      ¬(doExpand = true ∧ h.expandHeapAfterAllocFailure = true ∧ 0 < expansion) := by
  unfold newRegionExpanding
  cases expansion with
  | zero => cases doExpand <;> cases h.expandHeapAfterAllocFailure <;> simp
  | succ k =>
    cases doExpand <;> cases h.expandHeapAfterAllocFailure <;>
      simp [removeHeadOrNull_none, expand, hfree, List.range'_succ]

lemma newRegion_none : (h.newRegion doExpand expansion).2 = none ↔ h.freeList = [] ∧ h.secondaryFreeList = [] ∧
        ¬(doExpand = true ∧ h.expandHeapAfterAllocFailure = true ∧ 0 < expansion) := by
  unfold newRegion
  cases hs : h.secondaryFreeList with
  | cons j rest =>
    split
    · simp [newRegionTrySecondaryFreeList_none, hs]
    · cases hf : h.freeList <;> simp [removeHeadOrNull, newRegionTrySecondaryFreeList, hf, hs]
  | nil =>
    cases hf : h.freeList with
    | cons i rest => simp [removeHeadOrNull, hf]
    | nil => simp [removeHeadOrNull, newRegionTrySecondaryFreeList, hf, hs, newRegionExpanding_none hf]

lemma newMutatorAllocRegion_none (hnull : (h.newRegion false 0).2 = none) :
    (h.newMutatorAllocRegion force).2 = none := by
  unfold newMutatorAllocRegion
  split
  · exact hnull
  · rfl

lemma newGcAllocRegion_none {count ap}
    (hnull : (h.newRegion true expansion).2 = none) : (h.newGcAllocRegion count expansion ap).2 = none := by
  unfold newGcAllocRegion
  split
  · rcases hr : h.newRegion true expansion with ⟨h', region⟩
    rw [hr] at hnull
    cases hnull
    rfl
  · rfl

lemma newGenAllocRegion_none {count}
    (hnull : (h.newRegion true expansion).2 = none) : (h.newGenAllocRegion count expansion).2 = none := by
  unfold newGenAllocRegion
  split
  · exact hnull
  · rfl

def SameSupply (h h' : RegionSupply) : Prop :=
  h'.freeList = h.freeList ∧ h'.secondaryFreeList = h.secondaryFreeList ∧
    h'.expandHeapAfterAllocFailure = h.expandHeapAfterAllocFailure

lemma SameSupply.newRegion_none (hsame : h.SameSupply h')
    (hnull : (h.newRegion doExpand expansion).2 = none) : (h'.newRegion doExpand expansion).2 = none := by
  obtain ⟨hf, hs, he⟩ := hsame
  rw [RegionSupply.newRegion_none, hf, hs, he]
  exact RegionSupply.newRegion_none.1 hnull

lemma SameSupply.trans {h''} (h1 : h.SameSupply h') (h2 : h'.SameSupply h'') : h.SameSupply h'' :=
  ⟨h2.1.trans h1.1, h2.2.1.trans h1.2.1, h2.2.2.trans h1.2.2⟩

lemma sameSupply_modifyRegion (h : RegionSupply) (i f) : h.SameSupply (h.modifyRegion i f) := ⟨rfl, rfl, rfl⟩

lemma sameSupply_retireRegion (h : RegionSupply) (i allocatedBytes k) :
    h.SameSupply (h.retireRegion i allocatedBytes k) := by
  cases k with
  | mutator => exact ⟨rfl, rfl, rfl⟩
  | survivor => exact ⟨rfl, rfl, rfl⟩
  | old => exact ⟨rfl, rfl, rfl⟩
  | gen =>
    unfold retireRegion retireGenAllocRegion
    dsimp only
    split <;> exact ⟨rfl, rfl, rfl⟩

end RegionSupply

namespace G1AllocRegion

open RegionSupply

lemma sameSupply_allocateIn (l) (h : RegionSupply) (i wordSize) : h.SameSupply (allocateIn l h i wordSize).1 := by
  unfold allocateIn
  split
  · exact ⟨rfl, rfl, rfl⟩
  · exact sameSupply_modifyRegion h i _

variable {l : Layout} {a : G1AllocRegion} {wordSize : Nat} {result : Option (Nat × Nat)}

lemma attemptAllocation_sameSupply (ha : a.attemptAllocation l h wordSize = some (h', result)) : h.SameSupply h' := by
  unfold attemptAllocation at ha
  split at ha
  · cases ha
  · cases ha
    exact ⟨rfl, rfl, rfl⟩
  · split at ha
    next i _ _ =>
      have hsame := sameSupply_allocateIn l h i wordSize
      rw [Option.some.injEq] at ha
      rwa [ha] at hsame
    · cases ha

lemma retire_initialized (h : RegionSupply) (ha : a.Initialized) (fillUp) :
    ∃ h', a.retire l h fillUp = some (a.retired, h') ∧ h.SameSupply h' := by
  unfold retire
  cases hr : a.allocRegion with
  | null => exact absurd hr ha.not_null
  | dummy =>
    refine ⟨h, ?_, rfl, rfl, rfl⟩
    have hu := ha.dummy_unused hr
    cases a
    cases hr
    cases hu
    rfl
  | region i =>
    refine ⟨_, rfl, ?_⟩
    split
    · exact (sameSupply_modifyRegion h i _).trans (sameSupply_retireRegion _ i _ a.kind)
    · exact sameSupply_retireRegion h i _ a.kind

variable {a' : G1AllocRegion}

def doExpand : AllocRegionKind → Bool
  | .mutator => false
  | _ => true

lemma newRegion_mutator (hnull : (h.newRegion false expansion).2 = none) : (h.newRegion false 0).2 = none := by
  rw [newRegion_none] at hnull ⊢
  exact ⟨hnull.1, hnull.2.1, by simp⟩

lemma allocateNewRegion_null (a : G1AllocRegion) (h : RegionSupply) (expansion : Nat) (force : Bool)
    (hnull : (h.newRegion (doExpand a.kind) expansion).2 = none) :
    (a.kind = .gen ∧ a.allocateNewRegion h expansion force = none) ∨
      (a.kind ≠ .gen ∧ ∃ h', a.allocateNewRegion h expansion force = some (a, h', none)) := by
  unfold allocateNewRegion
  cases hk : a.kind <;> rw [hk] at hnull
  case mutator =>
    have hnone : (h.newMutatorAllocRegion force).2 = none := newMutatorAllocRegion_none (newRegion_mutator hnull)
    exact .inr ⟨by simp, (h.newMutatorAllocRegion force).1, by simp [← hnone]⟩
  case survivor =>
    have hnone : (h.newGcAllocRegion a.count expansion .survived).2 = none := newGcAllocRegion_none hnull
    exact .inr ⟨by simp, (h.newGcAllocRegion a.count expansion .survived).1, by simp [← hnone]⟩
  case old =>
    have hnone : (h.newGcAllocRegion a.count expansion .tenured).2 = none := newGcAllocRegion_none hnull
    exact .inr ⟨by simp, (h.newGcAllocRegion a.count expansion .tenured).1, by simp [← hnone]⟩
  case gen =>
    have hnone : (h.newGenAllocRegion a.count expansion).2 = none := newGenAllocRegion_none hnull
    refine .inl ⟨rfl, ?_⟩
    rcases hr : h.newGenAllocRegion a.count expansion with ⟨h', region⟩
    rw [hr] at hnone
    cases hnone
    rfl

/-- A request has failed without harm: it gives `NULL`, the current region is the dummy region, and nothing was counted.
-/
def HandledExhaustion (a : G1AllocRegion) (outcome : Option (G1AllocRegion × RegionSupply × Option (Nat × Nat))) :
    Prop :=
  ∃ a' h', outcome = some (a', h', none) ∧ a'.allocRegion = .dummy ∧ a'.usedBytesBefore = 0 ∧
    a'.count = a.count ∧ a'.nregions = a.nregions

lemma newAllocRegionAndAllocate_null (l : Layout) (a : G1AllocRegion) (h : RegionSupply) (wordSize expansion : Nat)
    (force : Bool) (hnull : (h.newRegion (doExpand a.kind) expansion).2 = none) :
    a.HandledExhaustion (a.retired.newAllocRegionAndAllocate l h wordSize expansion force) ↔ a.kind ≠ .gen := by
  obtain ⟨hgen, hnone⟩ | ⟨hkind, h', hsome⟩ := allocateNewRegion_null a.retired h expansion force hnull
  · have hout : a.retired.newAllocRegionAndAllocate l h wordSize expansion force = none := by
      simp only [newAllocRegionAndAllocate, hnone]
    rw [hout]
    constructor
    · rintro ⟨a', h', hcontra, -⟩
      cases hcontra
    · exact fun hne => absurd hgen hne
  · have hout : a.retired.newAllocRegionAndAllocate l h wordSize expansion force = some (a.retired, h', none) := by
      simp only [newAllocRegionAndAllocate, hsome]
    rw [hout]
    exact ⟨fun _ => hkind, fun _ => ⟨a.retired, h', rfl, rfl, rfl, rfl, rfl⟩⟩

/-- A locked allocation that finds no new region is handled by every kind of allocation region but that of a
generation. -/
theorem attemptAllocationLocked_exhausted (l : Layout) (a : G1AllocRegion) (h h1 : RegionSupply)
    (wordSize expansion : Nat) (ha : a.Initialized) (hroom : a.attemptAllocation l h wordSize = some (h1, none))
    (hnull : (h.newRegion (doExpand a.kind) expansion).2 = none) :
    a.HandledExhaustion (a.attemptAllocationLocked l h wordSize expansion) ↔ a.kind ≠ .gen := by
  obtain ⟨h2, hretire, hsame⟩ := retire_initialized (l := l) h1 ha true
  have hnull2 := ((attemptAllocation_sameSupply hroom).trans hsame).newRegion_none hnull
  have hlocked : a.attemptAllocationLocked l h wordSize expansion =
      a.retired.newAllocRegionAndAllocate l h2 wordSize expansion false := by
    simp only [attemptAllocationLocked, hroom, hretire]
  rw [hlocked]
  exact newAllocRegionAndAllocate_null l a h2 wordSize expansion false hnull2

def lastRegion (k : AllocRegionKind) : G1AllocRegion × RegionSupply :=
  (⟨k, .region 0, 0, 1, 1, 1, 0⟩,
    { regions := [⟨⟨64, 1, false⟩, false, true, 0, 0⟩]
      freeList := []
      secondaryFreeList := []
      stressConcRegionFreeing := false
      expandHeapAfterAllocFailure := true
      youngListFull := false
      maxSurvivorRegions := 4
      tenuringThreshold := 15
      summaryBytesUsed := 0
      bytesCopiedDuringGc := 0
      incrementalCset := []
      survivorRegions := []
      oldSet := []
      enqueued := [] })

theorem attemptAllocationLocked_exhausted_survivor : (lastRegion .survivor).1.HandledExhaustion
        ((lastRegion .survivor).1.attemptAllocationLocked ⟨64, 2⟩ (lastRegion .survivor).2 8 0) ↔
      (lastRegion .survivor).1.kind ≠ .gen :=
  attemptAllocationLocked_exhausted ⟨64, 2⟩ _ _ (lastRegion .survivor).2 8 0 ⟨by decide, by decide⟩ (by decide)
    (by decide)

/-- The allocation region of a generation uses the region it did not get. -/
theorem gen_attemptAllocationLocked_undefined : ((lastRegion .gen).2.newRegion true 0).2 = none ∧
      (lastRegion .gen).1.attemptAllocation ⟨64, 2⟩ (lastRegion .gen).2 8 = some ((lastRegion .gen).2, none) ∧
      (lastRegion .gen).1.attemptAllocationLocked ⟨64, 2⟩ (lastRegion .gen).2 8 0 = none := by
  decide

end G1AllocRegion

end Rolp.Heap
