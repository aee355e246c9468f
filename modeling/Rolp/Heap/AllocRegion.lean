import Rolp.Lib.Run
import Mathlib.Data.List.Range
import Mathlib.Data.Fintype.Sum
import Mathlib.Tactic.DeriveFintype

/-!
# Allocation regions and the used bytes of the heap

`G1AllocRegion` hands out memory of one region at a time, for the mutator or a generation. `_summary_bytes_used` counts
the regions they have retired and the humongous objects.

Sizes are in words. Regions are known by their index; `NULL` and the dummy region have constructors of their own.
-/

namespace Rolp.Heap

open Rolp.Lib

abbrev heapWordSize : Nat := 8

/-- `HeapRegion::GrainWords` and `CollectedHeap::min_fill_size()` -/
structure Layout where
  grainWords : Nat
  minFillSize : Nat

structure HeapRegion where
  /-- The words between bottom and top. -/
  top : Nat
  gen : Nat
  continuesHumongous : Bool
  deriving DecidableEq

namespace HeapRegion

def used (r : HeapRegion) : Nat := r.top * heapWordSize

variable (l : Layout) (r : HeapRegion)

def freeWords : Nat := l.grainWords - r.top

/-- `allocate` and `par_allocate`, with whether the result is not `NULL`. -/
def allocate (wordSize : Nat) : HeapRegion × Bool :=
  if wordSize ≤ r.freeWords l then ({ r with top := r.top + wordSize }, true) else (r, false)

/-- `fill_up_remaining_space` without other threads: its first attempt succeeds. -/
def fillUpRemainingSpace : HeapRegion :=
  if l.minFillSize ≤ r.freeWords l then (r.allocate l (r.freeWords l)).1 else r

end HeapRegion

inductive RegionPtr where
  | null
  | dummy
  | region (i : Nat)
  deriving DecidableEq

structure AllocRegion where
  allocRegion : RegionPtr
  usedBytesBefore : Nat
  deriving DecidableEq

/-- Who has an allocation region: the mutator, or one of the generations from 1 on. -/
inductive Owner (n : Nat) where
  | mutator
  | gen (i : Fin n)
  deriving DecidableEq, Fintype

/-- The heap. `booked` lists each region that was added to `_summary_bytes_used`, with the bytes added for it. -/
structure HeapState (n : Nat) where
  regions : List HeapRegion
  freeList : List Nat
  summaryBytesUsed : Nat
  allocRegions : Owner n → AllocRegion
  booked : List (Nat × Nat)

/-- What the policy and the system decide: whether the young list is full, and by how many regions `expand` grows the
heap. -/
structure Supply where
  youngListFull : Bool
  expansion : Nat

namespace HeapState

variable {n : Nat} (s : HeapState n)

def usedAt (i : Nat) : Nat := ((s.regions[i]?).map HeapRegion.used).getD 0

def usedOf : RegionPtr → Nat
  | .region i => s.usedAt i
  | _ => 0

def used : Nat :=
  s.summaryBytesUsed + s.usedOf (s.allocRegions .mutator).allocRegion +
    ((List.finRange n).map fun i => s.usedOf (s.allocRegions (.gen i)).allocRegion).sum

def recalculateUsed : Nat :=
  (s.regions.map fun r => if r.continuesHumongous then 0 else r.used).sum

def modifyRegion (i : Nat) (f : HeapRegion → HeapRegion) : HeapState n :=
  { s with regions := s.regions.modify i f }

def setAllocRegion (o : Owner n) (a : AllocRegion) : HeapState n :=
  { s with allocRegions := Function.update s.allocRegions o a }

def addSummaryBytesUsed (i bytes : Nat) : HeapState n :=
  { s with summaryBytesUsed := s.summaryBytesUsed + bytes, booked := (i, bytes) :: s.booked }

/-! ## Retiring -/

/-- `retire_mutator_alloc_region` adds the allocated bytes and `retire_gen_alloc_region` all used bytes. -/
def retireRegion (o : Owner n) (i allocatedBytes : Nat) : HeapState n :=
  match o with
  | .mutator => s.addSummaryBytesUsed i allocatedBytes
  | .gen _ => s.addSummaryBytesUsed i (s.usedAt i)

variable (l : Layout)

/-- `G1AllocRegion::retire`, undefined before `init`. -/
def retire (s : HeapState n) (o : Owner n) (fillUp : Bool) : Option (HeapState n) :=
  match (s.allocRegions o).allocRegion with
  | .null => none
  | .dummy => some s
  | .region i =>
    let before := (s.allocRegions o).usedBytesBefore
    let s := if fillUp then s.modifyRegion i (·.fillUpRemainingSpace l) else s
    some ((s.retireRegion o i (s.usedAt i - before)).setAllocRegion o ⟨.dummy, 0⟩)

def genAt : RegionPtr → Nat
  | .region i => ((s.regions[i]?).map HeapRegion.gen).getD 0
  | _ => 0

def release (s : HeapState n) (o : Owner n) : Option (HeapState n) := do
  let s' ← s.retire l o (0 < s.genAt (s.allocRegions o).allocRegion)
  pure (s'.setAllocRegion o { s'.allocRegions o with allocRegion := .null })

/-- `init`, for an allocation region that is new or released. -/
def init (o : Owner n) : Option (HeapState n) :=
  if s.allocRegions o = ⟨.null, 0⟩ then some (s.setAllocRegion o ⟨.dummy, 0⟩) else none

/-! ## New regions -/

def expand (k : Nat) : HeapState n :=
  { s with
    regions := s.regions ++ List.replicate k ⟨0, 0, false⟩
    freeList := s.freeList ++ List.range' s.regions.length k }

def removeHeadOrNull : HeapState n × Option Nat :=
  match s.freeList with
  | [] => (s, none)
  | i :: rest => ({ s with freeList := rest }, some i)

/-- `new_region`, where `expansion` is 0 if the caller does not allow to expand the heap. -/
def newRegion (expansion : Nat) : HeapState n × Option Nat :=
  match s.freeList with
  | [] => (s.expand expansion).removeHeadOrNull
  | _ => s.removeHeadOrNull

/-- `allocate_new_region` of the two kinds of allocation regions. For a generation the result must not be `NULL`. -/
def allocateNewRegion (supply : Supply) (force : Bool) : Owner n → Option (HeapState n × Option Nat)
  | .mutator => if force || !supply.youngListFull then some (s.newRegion 0) else some (s, none)
  | .gen g =>
    match s.newRegion supply.expansion with
    | (_, none) => none
    | (s, some i) => some (s.modifyRegion i ({ · with gen := g + 1 }), some i)

section

variable (s : HeapState n) (o : Owner n) (wordSize : Nat)

def newAllocRegionAndAllocate (supply : Supply) (force : Bool) : Option (HeapState n) := do
  let (s, region) ← s.allocateNewRegion supply force o
  match region with
  | none => pure s
  | some i =>
    let before := s.usedAt i
    pure ((s.modifyRegion i fun r => (r.allocate l wordSize).1).setAllocRegion o ⟨.region i, before⟩)

/-! ## Allocation -/

/-- `attempt_allocation`, with whether it succeeds. The dummy region has no free space. -/
def attemptAllocation : Option (HeapState n × Bool) :=
  match (s.allocRegions o).allocRegion with
  | .null => none
  | .dummy => some (s, wordSize ≤ 0)
  | .region i => do
    let r ← s.regions[i]?
    pure (s.modifyRegion i fun r => (r.allocate l wordSize).1, (r.allocate l wordSize).2)

def attemptAllocationLocked (supply : Supply) : Option (HeapState n) := do
  let (s, success) ← s.attemptAllocation l o wordSize
  if success then pure s
  else
    let s ← s.retire l o true
    s.newAllocRegionAndAllocate l o wordSize supply false

/-- `attempt_allocation_force`, after a locked attempt has failed. -/
def attemptAllocationForce (supply : Supply) : Option (HeapState n) :=
  if s.allocRegions o = ⟨.dummy, 0⟩ then s.newAllocRegionAndAllocate l o wordSize supply true else none

end

/-! ## Humongous objects -/

/-- What `humongous_obj_allocate_initialize_regions` does to the region at an index. -/
def initializeRegion (first numRegions wordSize i : Nat) (r : HeapRegion) : HeapRegion :=
  let last := first + numRegions
  if i = first then { r with top := wordSize }
  else if first < i ∧ i < last then
    { r with
      continuesHumongous := true
      top := if i + 1 = last then wordSize - (i - first) * l.grainWords else l.grainWords }
  else r

def withSeries (s : HeapState n) (first numRegions wordSize : Nat) : HeapState n :=
  { s with
    freeList := s.freeList.filter (· ∉ List.range' first numRegions)
    regions := s.regions.mapIdx (initializeRegion l first numRegions wordSize) }

/-- `humongous_obj_allocate_initialize_regions` for a series of regions that is on the free list. -/
def humongousObjAllocate (s : HeapState n) (first numRegions wordSize : Nat) : Option (HeapState n) :=
  if 0 < numRegions ∧ (numRegions - 1) * l.grainWords < wordSize ∧ wordSize ≤ numRegions * l.grainWords ∧
      ∀ i ∈ List.range' first numRegions, i ∈ s.freeList then
    let s := s.withSeries l first numRegions wordSize
    some (s.addSummaryBytesUsed first (s.usedAt first))
  else none

end HeapState

/-! ## Runs -/

inductive RegionOp (n : Nat) where
  | init (o : Owner n)
  | attemptAllocation (o : Owner n) (wordSize : Nat)
  | attemptAllocationLocked (o : Owner n) (wordSize : Nat) (supply : Supply)
  | attemptAllocationForce (o : Owner n) (wordSize : Nat) (supply : Supply)
  | retire (o : Owner n) (fillUp : Bool)
  | release (o : Owner n)
  | humongous (first numRegions wordSize : Nat)

def HeapState.step {n : Nat} (l : Layout) (s : HeapState n) : RegionOp n → Option (HeapState n)
  | .init o => s.init o
  | .attemptAllocation o wordSize => (s.attemptAllocation l o wordSize).map Prod.fst
  | .attemptAllocationLocked o wordSize supply => s.attemptAllocationLocked l o wordSize supply
  | .attemptAllocationForce o wordSize supply => s.attemptAllocationForce l o wordSize supply
  | .retire o fillUp => s.retire l o fillUp
  | .release o => s.release l o
  | .humongous first numRegions wordSize => s.humongousObjAllocate l first numRegions wordSize

end Rolp.Heap
