import Rolp.Lib.Run

/-!
# Candidates for the collection set

`CollectionSetChooser` is an array of the old regions that are worth to be collected. After a marking cycle one thread
fills it, or several workers do: each claims chunks, puts regions in their slots, and adds its totals at the end. Then
the array is sorted by efficiency. A slot that is `NULL` is `none`; an access outside of the array and a guarantee that
fails are undefined.

The efficiencies are the values of `_gc_efficiency`, of any linear order.
-/

namespace Rolp.CSet

open Rolp.Lib

structure HeapRegion (E : Type) where
  hrsIndex : Nat
  capacity : Nat
  liveBytes : Nat
  gcEfficiency : E
  isMarked : Bool
  isYoung : Bool
  isHumongous : Bool
  /-- It is used by `is_old_gc_alloc_region` or `is_gen_alloc_region`. -/
  isAllocRegion : Bool
  deriving DecidableEq

def HeapRegion.reclaimableBytes {E : Type} (hr : HeapRegion E) : Nat := hr.capacity - hr.liveBytes

variable {E : Type} [LinearOrder E]

def orderRegions : Option (HeapRegion E) → Option (HeapRegion E) → Int
  | none, none => 0
  | none, some _ => 1
  | some _, none => -1
  | some hr1, some hr2 =>
    if hr1.gcEfficiency > hr2.gcEfficiency then -1
    else if hr1.gcEfficiency < hr2.gcEfficiency then 1
    else 0

structure CollectionSetChooser (E : Type) where
  regions : List (Option (HeapRegion E))
  currIndex : Nat
  length : Nat
  firstParUnreservedIdx : Nat
  regionLiveThresholdBytes : Nat
  remainingReclaimableBytes : Nat
  deriving DecidableEq

namespace CollectionSetChooser

def new (regionLiveThresholdBytes : Nat) : CollectionSetChooser E := ⟨[], 0, 0, 0, regionLiveThresholdBytes, 0⟩

variable (c : CollectionSetChooser E)

def peek : Option (HeapRegion E) :=
  if c.currIndex < c.length then c.regions[c.currIndex]?.join else none

def removeAndMoveToNext (hr : HeapRegion E) : CollectionSetChooser E :=
  { c with
    regions := c.regions.set c.currIndex none
    remainingReclaimableBytes := c.remainingReclaimableBytes - hr.reclaimableBytes
    currIndex := c.currIndex + 1 }

/-- The second loop of `verify`, which gives the sum of the reclaimable bytes unless a guarantee fails. -/
def verifyLoop : List (Option (HeapRegion E)) → Option (HeapRegion E) → Nat → Option Nat
  | [], _, sum => some sum
  | none :: _, _, _ => none
  | some curr :: rest, prev, sum =>
    if curr.isYoung ∨ curr.isHumongous ∨ (prev ≠ none ∧ orderRegions prev (some curr) = 1) then none
    else verifyLoop rest (some curr) (sum + curr.reclaimableBytes)

/-- The slots from `_curr_index` up to `_length`. -/
def candidates : List (Option (HeapRegion E)) := (c.regions.take c.length).drop c.currIndex

def verify : Bool :=
  c.length ≤ c.regions.length ∧ c.currIndex ≤ c.length ∧ (∀ hr ∈ c.regions.take c.currIndex, hr.isNone) ∧
    verifyLoop c.candidates none 0 = some c.remainingReclaimableBytes

variable (hr : HeapRegion E)

def shouldAdd : Bool :=
  !hr.isHumongous && hr.liveBytes < c.regionLiveThresholdBytes

/-- The condition of `KnownGarbageClosure` and of `ParKnownGarbageHRClosure` for a region to be added. -/
def isCandidate : Bool :=
  hr.isMarked && (c.shouldAdd hr && !hr.isAllocRegion)

def addRegion : CollectionSetChooser E :=
  { c with
    regions := c.regions ++ [some hr]
    length := c.length + 1
    remainingReclaimableBytes := c.remainingReclaimableBytes + hr.reclaimableBytes }

/-- `at_put_grow` with `NULL`. The index is cast to an `int`, and a negative one is refused. -/
def regionsAtPutGrow (regions : List (Option (HeapRegion E))) (i : Nat) : Option (List (Option (HeapRegion E))) :=
  if 2 ^ 31 ≤ i then none
  else if regions.length ≤ i then some (regions ++ List.replicate (i + 1 - regions.length) none)
  else some (regions.set i none)

/-- The sums and products are of type `uint`. -/
def prepareForParRegionAddition (nRegions chunkSize nThreads : Nat) : Option (CollectionSetChooser E) :=
  let maxWaste := nThreads * chunkSize % 2 ^ 32
  let alignedNRegions := (nRegions + chunkSize - 1) % 2 ^ 32 / chunkSize * chunkSize
  (regionsAtPutGrow c.regions ((alignedNRegions + maxWaste + (2 ^ 32 - 1)) % 2 ^ 32)).map fun regions =>
    { c with firstParUnreservedIdx := 0, regions }

def claimArrayChunk (chunkSize : Nat) : CollectionSetChooser E × Nat :=
  ({ c with firstParUnreservedIdx := c.firstParUnreservedIdx + chunkSize }, c.firstParUnreservedIdx)

def setRegion (index : Nat) (hr : HeapRegion E) : Option (CollectionSetChooser E) :=
  if index < c.regions.length then some { c with regions := c.regions.set index (some hr) } else none

def updateTotals (regionNum reclaimableBytes : Nat) : CollectionSetChooser E :=
  if 0 < regionNum then
    { c with
      length := c.length + regionNum
      remainingReclaimableBytes := c.remainingReclaimableBytes + reclaimableBytes }
  else c

def clear : CollectionSetChooser E :=
  { c with regions := [], currIndex := 0, length := 0, remainingReclaimableBytes := 0 }

def trimmed : List (Option (HeapRegion E)) :=
  if 0 < c.firstParUnreservedIdx then c.regions.take c.firstParUnreservedIdx else c.regions

/-- `sort_regions`, whose `qsort` does not say how it orders regions of the same efficiency. -/
structure SortRegions (c c' : CollectionSetChooser E) : Prop where
  perm : c'.regions.Perm c.trimmed
  ordered : c'.regions.Pairwise fun hr1 hr2 => orderRegions hr1 hr2 ≠ 1
  rest : c' = { c with regions := c'.regions }

end CollectionSetChooser

/-! ## Filling the chooser -/

structure CSetChooserParUpdater where
  chunkSize : Nat
  curChunkIdx : Nat
  curChunkEnd : Nat
  regionsAdded : Nat
  reclaimableBytesAdded : Nat
  deriving DecidableEq

namespace CSetChooserParUpdater

def new (chunkSize : Nat) : CSetChooserParUpdater := ⟨chunkSize, 0, 0, 0, 0⟩

variable (u : CSetChooserParUpdater) (c : CollectionSetChooser E)

/-- The first part of `add_region`, if the current chunk is used up. -/
def claimChunk : CollectionSetChooser E × CSetChooserParUpdater :=
  let (c, i) := c.claimArrayChunk u.chunkSize
  (c, { u with curChunkIdx := i, curChunkEnd := i + u.chunkSize })

/-- The second part of `add_region`. -/
def putRegion (hr : HeapRegion E) : Option (CollectionSetChooser E × CSetChooserParUpdater) :=
  (c.setRegion u.curChunkIdx hr).map fun c =>
    (c, { u with
      curChunkIdx := u.curChunkIdx + 1
      regionsAdded := u.regionsAdded + 1
      reclaimableBytesAdded := u.reclaimableBytesAdded + hr.reclaimableBytes })

/-- `~CSetChooserParUpdater` -/
def destroy : CollectionSetChooser E :=
  if 0 < u.regionsAdded then c.updateTotals u.regionsAdded u.reclaimableBytesAdded else c

end CSetChooserParUpdater

structure Worker (E : Type) where
  updater : CSetChooserParUpdater
  todo : List (HeapRegion E)
  done : Bool
  deriving DecidableEq

def Worker.step (w : Worker E) (c : CollectionSetChooser E) : Option (CollectionSetChooser E × Worker E) :=
  match w.todo with
  | [] => if w.done then some (c, w) else some (w.updater.destroy c, { w with done := true })
  | hr :: todo =>
    if c.isCandidate hr then
      if w.updater.curChunkIdx = w.updater.curChunkEnd then
        let (c, updater) := w.updater.claimChunk c
        some (c, { w with updater })
      else (w.updater.putRegion c hr).map fun (c, updater) => (c, { w with updater, todo })
    else some (c, { w with todo })

structure ParFill (E : Type) (n : Nat) where
  chooser : CollectionSetChooser E
  workers : Fin n → Worker E

namespace ParFill

variable {n : Nat}

def start (c : CollectionSetChooser E) (chunkSize : Nat) (todo : Fin n → List (HeapRegion E)) : ParFill E n :=
  ⟨c, fun i => ⟨.new chunkSize, todo i, false⟩⟩

def step (s : ParFill E n) (i : Fin n) : Option (ParFill E n) :=
  ((s.workers i).step s.chooser).map fun (chooser, w) => ⟨chooser, Function.update s.workers i w⟩

def isDone (s : ParFill E n) : Bool := (List.finRange n).all fun i => (s.workers i).done

end ParFill

/-- How `record_concurrent_mark_cleanup_end` visits the regions: one thread visits all of them, or each worker those of
its chunks, in the order of the schedule. -/
inductive Filling (E : Type) where
  | serial (hrs : List (HeapRegion E))
  | parallel (n : Nat) (todo : Fin n → List (HeapRegion E)) (nRegions chunkSize nThreads : Nat)
      (schedule : List (Fin n))

def Filling.visited : Filling E → List (HeapRegion E)
  | .serial hrs => hrs
  | .parallel n todo .. => (List.finRange n).flatMap todo

def Filling.fill (c : CollectionSetChooser E) : Filling E → Option (CollectionSetChooser E × Bool)
  | .serial hrs => some (hrs.foldl (fun c hr => if c.isCandidate hr then c.addRegion hr else c) c.clear, true)
  | .parallel _ todo nRegions chunkSize nThreads schedule =>
    (c.clear.prepareForParRegionAddition nRegions chunkSize nThreads).bind fun c =>
      (run ParFill.step (.start c chunkSize todo) schedule).map fun s => (s.chooser, s.isDone)

/-!
## Taking old regions from the chooser

`finalize_cset` takes old regions from the chooser in a mixed collection, and `finalize_cset_for_migration` before a
migration. Each turn of the loops takes the next region, so there are at most `remaining_regions()` turns. Times and
percentages are computed in `D`, which stands for `double`, and no law of its arithmetic is used.
-/

def CollectionSetChooser.remainingRegions (c : CollectionSetChooser E) : Nat := c.length - c.currIndex

def CollectionSetChooser.isEmpty (c : CollectionSetChooser E) : Bool := c.remainingRegions = 0

/-! ## Migration -/

/-- The loop of `finalize_cset_for_migration`. -/
def migrationLoop (minMigrationBandwidth : E) :
    Nat → CollectionSetChooser E → List (HeapRegion E) → CollectionSetChooser E × List (HeapRegion E)
  | 0, c, cset => (c, cset)
  | turns + 1, c, cset =>
    match c.peek with
    | none => (c, cset)
    | some hr =>
      if hr.gcEfficiency < minMigrationBandwidth then (c, cset)
      else migrationLoop minMigrationBandwidth turns (c.removeAndMoveToNext hr) (hr :: cset)

def finalizeCsetForMigration (minMigrationBandwidth : E) (c : CollectionSetChooser E) (cset : List (HeapRegion E)) :
    Option (CollectionSetChooser E × List (HeapRegion E)) :=
  if c.verify then
    let (c, cset) := migrationLoop minMigrationBandwidth c.remainingRegions c cset
    if c.verify then some (c, cset) else none
  else none

/-! ## Mixed collections -/

structure MixedFlags where
  g1MixedGCCountTarget : Nat
  g1HeapWastePercent : Nat
  g1OldCSetRegionThresholdPercent : Nat
  deriving DecidableEq

structure MixedPause (E D : Type) where
  nRegions : Nat
  capacity : Nat
  adaptiveYoungListLength : Bool
  targetPauseTimeMs : D
  baseTimeMs : D
  incCsetPredictedElapsedTimeMs : D
  predictRegionElapsedTimeMs : HeapRegion E → D

variable {D : Type} [Zero D] [NatCast D] [Sub D] [Mul D] [Div D] [LT D] [LE D] [DecidableLT D] [DecidableLE D]

variable (flags : MixedFlags)

def calcMinOldCsetLength (c : CollectionSetChooser E) : Nat :=
  let gcNum := max flags.g1MixedGCCountTarget 1
  let result := c.length / gcNum
  if result * gcNum < c.length then result + 1 else result

def calcMaxOldCsetLength (nRegions : Nat) : Nat :=
  let perc := flags.g1OldCSetRegionThresholdPercent
  let result := nRegions * perc / 100
  if 100 * result < nRegions * perc then result + 1 else result

def max2 (a b : D) : D := if b < a then a else b

namespace MixedPause

variable (p : MixedPause E D)

def maxOldCsetLength : Nat := calcMaxOldCsetLength flags p.nRegions

def timeRemainingMs : D :=
  max2 (max2 (p.targetPauseTimeMs - p.baseTimeMs) 0 - p.incCsetPredictedElapsedTimeMs) 0

def reclaimableBytesPerc (reclaimableBytes : Nat) : D :=
  (reclaimableBytes : D) * ((100 : Nat) : D) / (p.capacity : D)

def atOrBelowWaste (c : CollectionSetChooser E) : Bool :=
  p.reclaimableBytesPerc c.remainingReclaimableBytes ≤ (flags.g1HeapWastePercent : D)

def nextGcShouldBeMixed (c : CollectionSetChooser E) : Bool :=
  if c.isEmpty then false else !p.atOrBelowWaste flags c

end MixedPause

/-- The loop of `finalize_cset`, which begins with no old regions in the collection set. -/
def mixedLoop (flags : MixedFlags) (p : MixedPause E D) (minOldCsetLength : Nat) :
    Nat → CollectionSetChooser E → List (HeapRegion E) → D → CollectionSetChooser E × List (HeapRegion E)
  | 0, c, old, _ => (c, old)
  | turns + 1, c, old, timeRemainingMs =>
    match c.peek with
    | none => (c, old)
    | some hr =>
      if p.maxOldCsetLength flags ≤ old.length then (c, old)
      else if p.atOrBelowWaste flags c then (c, old)
      else
        let predictedTimeMs := p.predictRegionElapsedTimeMs hr
        if p.adaptiveYoungListLength = true ∧ timeRemainingMs < predictedTimeMs ∧ minOldCsetLength ≤ old.length then
          (c, old)
        else if p.adaptiveYoungListLength = false ∧ minOldCsetLength ≤ old.length then (c, old)
        else
          mixedLoop flags p minOldCsetLength turns (c.removeAndMoveToNext hr) (hr :: old)
            (max2 (timeRemainingMs - predictedTimeMs) 0)

/-- The chooser after `finalize_cset` in a mixed collection, and the old regions of the collection set. -/
def finalizeCset (p : MixedPause E D) (c : CollectionSetChooser E) :
    Option (CollectionSetChooser E × List (HeapRegion E)) :=
  if c.verify then
    let (c, old) := mixedLoop flags p (calcMinOldCsetLength flags c) c.remainingRegions c [] p.timeRemainingMs
    if c.verify then some (c, old) else none
  else none

def mixedCollection (c : CollectionSetChooser E) (p : MixedPause E D) : Option (CollectionSetChooser E) :=
  (finalizeCset flags p c).map Prod.fst

end Rolp.CSet
