import Rolp.Lib.Run
import Mathlib.Data.Rat.Floor

/-!
# The MMU tracker

`G1MMUTrackerQueue` keeps the recent pauses in a circular buffer. `when_sec` tells how long to wait before a pause, so
that no more than `max_gc_time` of the slice that ends with it is spent in pauses. Times are rational. A guarantee that
fails makes the result undefined.
-/

namespace Rolp.Mmu

open Rolp.Lib

/-- `is_double_leq_0`, for any margin. -/
def isDoubleLeq0Within (margin value : ℚ) : Bool := value < margin

def isDoubleLeq0 (value : ℚ) : Bool := value ≤ 0

lemma isDoubleLeq0_iff_forall_margin (value : ℚ) :
    isDoubleLeq0 value = true ↔ ∀ margin > 0, isDoubleLeq0Within margin value = true := by
  simp only [isDoubleLeq0, isDoubleLeq0Within, decide_eq_true_eq]
  exact ⟨fun h margin hm => h.trans_lt hm, fun h => le_of_forall_gt h⟩

def isDoubleGeq (val1 val2 : ℚ) : Bool := isDoubleLeq0 (val2 - val1)

structure G1MMUTrackerQueueElem where
  startTime : ℚ
  endTime : ℚ
  deriving DecidableEq

def G1MMUTrackerQueueElem.duration (e : G1MMUTrackerQueueElem) : ℚ := e.endTime - e.startTime

abbrev queueLength : Nat := 64

def trimIndex (index : Nat) : Nat := (index + queueLength) % queueLength

/-- `_time_slice` and `_max_gc_time` -/
structure G1MMUTracker where
  timeSlice : ℚ
  maxGcTime : ℚ
  deriving DecidableEq

structure G1MMUTrackerQueue extends G1MMUTracker where
  array : Nat → G1MMUTrackerQueueElem
  headIndex : Nat
  tailIndex : Nat
  noEntries : Nat

def G1MMUTrackerQueueElem.gcTime (limit : ℚ) (e : G1MMUTrackerQueueElem) : ℚ :=
  if limit < e.endTime then
    if limit < e.startTime then e.duration else e.endTime - limit
  else 0

namespace G1MMUTrackerQueue

def new (timeSlice maxGcTime : ℚ) : G1MMUTrackerQueue := ⟨⟨timeSlice, maxGcTime⟩, fun _ => ⟨0, 0⟩, 0, trimIndex 1, 0⟩

/-- The loop of `remove_expired_entries`, which runs as long as there are entries. -/
def removeExpiredLoop (limit : ℚ) : Nat → G1MMUTrackerQueue → G1MMUTrackerQueue
  | 0, q => q
  | noEntries + 1, q =>
    if isDoubleGeq limit (q.array q.tailIndex).endTime then
      removeExpiredLoop limit noEntries { q with tailIndex := trimIndex (q.tailIndex + 1), noEntries }
    else q

variable (q : G1MMUTrackerQueue)

def removeExpiredEntries (currentTime : ℚ) : G1MMUTrackerQueue :=
  removeExpiredLoop (currentTime - q.timeSlice) q.noEntries q

def calculateGcTime (currentTime : ℚ) : ℚ :=
  ((List.range q.noEntries).map fun i => (q.array (trimIndex (q.tailIndex + i))).gcTime (currentTime - q.timeSlice)).sum

def longestPauseLoop (q : G1MMUTrackerQueue) (currentTime : ℚ) : Nat → ℚ → Option ℚ
  | 0, _ => none
  | fuel + 1, targetTime =>
    let gcTime := q.calculateGcTime (currentTime + targetTime)
    let diff := targetTime + gcTime - q.maxGcTime
    if isDoubleLeq0 diff then some targetTime
    else
      let targetTime := targetTime - diff
      if isDoubleLeq0 targetTime then some (-1) else longestPauseLoop q currentTime fuel targetTime

def longestPauseInternal (fuel : Nat) (q : G1MMUTrackerQueue) (currentTime : ℚ) : Option ℚ :=
  longestPauseLoop q currentTime fuel q.maxGcTime

def addPause (fuel : Nat) (q : G1MMUTrackerQueue) (start stop : ℚ) : Option G1MMUTrackerQueue :=
  (q.longestPauseInternal fuel start).map fun _ =>
    let q := q.removeExpiredEntries stop
    let headIndex := trimIndex (q.headIndex + 1)
    let array := Function.update q.array headIndex ⟨start, stop⟩
    if q.noEntries = queueLength then { q with headIndex, array, tailIndex := trimIndex (q.tailIndex + 1) }
    else { q with headIndex, array, noEntries := q.noEntries + 1 }

/-- The loop of `when_internal`. The guarantee ends it after at most `queueLength` pauses. -/
def whenLoop (q : G1MMUTrackerQueue) (adjustedPauseTime currentTime limit : ℚ) : Nat → Nat → ℚ → Option ℚ
  | 0, _, _ => none
  | fuel + 1, index, diff =>
    let elem := q.array index
    let diff' := diff - elem.gcTime limit
    if limit < elem.endTime ∧ isDoubleLeq0 diff' then
      some (elem.endTime + diff' + q.timeSlice - adjustedPauseTime - currentTime)
    else
      let index := trimIndex (index + 1)
      if index = trimIndex (q.headIndex + 1) then none
      else whenLoop q adjustedPauseTime currentTime limit fuel index diff'

variable (currentTime pauseTime : ℚ)

def whenInternal : Option ℚ :=
  let adjustedPauseTime := if q.maxGcTime < pauseTime then q.maxGcTime else pauseTime
  let earliestEnd := currentTime + adjustedPauseTime
  let limit := earliestEnd - q.timeSlice
  let gcTime := q.calculateGcTime earliestEnd
  let diff := gcTime + adjustedPauseTime - q.maxGcTime
  if isDoubleLeq0 diff then some 0
  else whenLoop q adjustedPauseTime currentTime limit queueLength q.tailIndex diff

def whenSec : Option (G1MMUTrackerQueue × ℚ) :=
  let q := q.removeExpiredEntries currentTime
  (q.whenInternal currentTime pauseTime).map fun w => (q, w)

/-! ## Sequences of operations -/

inductive Op where
  | addPause (start stop : ℚ)
  | whenSec (currentTime pauseTime : ℚ)
  deriving DecidableEq

def step (fuel : Nat) (q : G1MMUTrackerQueue) : Op → Option G1MMUTrackerQueue
  | .addPause start stop => q.addPause fuel start stop
  | .whenSec currentTime pauseTime => (q.whenSec currentTime pauseTime).map Prod.fst

end G1MMUTrackerQueue

end Rolp.Mmu
