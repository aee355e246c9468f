import Rolp.Lib.Run
import Mathlib.Data.List.Induction

/-!
# SATB queues

A mutator thread logs the references it overwrites during marking in an `ObjPtrQueue`, from the end of a buffer to its
start. A full buffer is filtered, and handed over for a new one unless few enough entries are left.

References are addresses, and `NULL` is 0. Indices and sizes count bytes. An access outside of the buffer is undefined,
and a loop that does not end is undefined for every fuel.
-/

namespace Rolp.Satb

open Rolp.Lib Nat

abbrev oopSize : Nat := 8

/-! ## Which objects are ill -/

structure Heap where
  heapRegionContaining : Nat → Option Nat
  nextTopAtMarkStart : Nat → Nat
  isMarkedNext : Nat → Bool

namespace Heap

def objAllocatedSinceNextMarking (h : Heap) (obj hr : Nat) : Bool := h.nextTopAtMarkStart hr ≤ obj

def isObjIll (h : Heap) (obj : Nat) : Bool :=
  match h.heapRegionContaining obj with
  | none => obj != 0
  | some hr => !h.objAllocatedSinceNextMarking obj hr && !h.isMarkedNext obj

def mark (h : Heap) (obj : Nat) : Heap := { h with isMarkedNext := Function.update h.isMarkedNext obj true }

end Heap

/-! ## Buffers -/

/-- The conversion to `int` is that of the source. -/
def byteIndexToIndex (i : Nat) : Int := (i : Int).bmod (2 ^ 32) / oopSize

def load (buf : List Nat) (i : Nat) : Option Nat :=
  if 0 ≤ byteIndexToIndex i then buf[(byteIndexToIndex i).toNat]? else none

def store (buf : List Nat) (i : Nat) (obj : Nat) : Option (List Nat) :=
  if 0 ≤ byteIndexToIndex i ∧ (byteIndexToIndex i).toNat < buf.length then
    some (buf.set (byteIndexToIndex i).toNat obj)
  else none

/-! ## Queues -/

/-- `G1SATBBufferSize`, `G1SATBBufferEnqueueingThresholdPercent` and what allocated memory holds, which is not cleared.
-/
structure Config where
  bufferSize : Nat
  enqueueingThresholdPercent : Nat
  fresh : Nat → Nat → Nat

structure ObjPtrQueue where
  buf : Option (List Nat)
  index : Nat
  sz : Nat
  deriving DecidableEq

/-- A queue and its set, which has no limit for the completed buffers, so that a mutator never processes one itself. -/
structure State where
  heap : Heap
  queue : ObjPtrQueue
  completed : List (List Nat)
  /-- The number of buffers that have been allocated. -/
  allocated : Nat

namespace State

variable (c : Config)

def initial (heap : Heap) : State := ⟨heap, ⟨none, 0, 0⟩, [], 0⟩

/-- The loop of `filter`. It has one step of fuel for each entry, and one for the end. -/
def filterLoop (h : Heap) (index : Nat) : Nat → List Nat → Nat → Nat → Option (List Nat × Nat)
  | 0, _, _, _ => none
  | fuel + 1, buf, i, newIndex =>
    if index < i then
      let i := i - oopSize
      (load buf i).bind fun obj =>
        (store buf i 0).bind fun buf =>
          if h.isObjIll obj then
            (store buf (newIndex - oopSize) obj).bind fun buf => filterLoop h index fuel buf i (newIndex - oopSize)
          else filterLoop h index fuel buf i newIndex
    else some (buf, newIndex)

variable (s : State)

def filter : Option State :=
  match s.queue.buf with
  | none => some s
  | some buf =>
    (filterLoop s.heap s.queue.index (s.queue.sz / oopSize + 1) buf s.queue.sz s.queue.sz).map fun (buf, newIndex) =>
      { s with queue := { s.queue with buf := some buf, index := newIndex } }

def shouldEnqueueBuffer : Option (State × Bool) :=
  s.filter.map fun s =>
    let allEntries := s.queue.sz / oopSize
    let retainedEntries := (s.queue.sz - s.queue.index) / oopSize
    let perc := retainedEntries * 100 / allEntries
    (s, decide (c.enqueueingThresholdPercent < perc))

/-- `allocate_buffer` and the end of `handle_zero_index`. -/
def reallocate : State :=
  { s with
    queue := ⟨some ((List.range c.bufferSize).map (c.fresh s.allocated)), c.bufferSize * oopSize,
      c.bufferSize * oopSize⟩
    allocated := s.allocated + 1 }

def handleZeroIndex : Option State :=
  match s.queue.buf with
  | none => some (s.reallocate c)
  | some _ =>
    (s.shouldEnqueueBuffer c).map fun (s, shouldEnqueue) =>
      if shouldEnqueue then ({ s with completed := s.completed ++ s.queue.buf.toList }).reallocate c else s

def handleZeroIndexLoop : Nat → State → Option State
  | 0, _ => none
  | fuel + 1, s => if s.queue.index = 0 then (s.handleZeroIndex c).bind (handleZeroIndexLoop fuel) else some s

def enqueueKnownActive (fuel : Nat) (s : State) (ptr : Nat) : Option State :=
  (handleZeroIndexLoop c fuel s).bind fun s =>
    let index := s.queue.index - oopSize
    s.queue.buf.bind fun buf =>
      (store buf index ptr).map fun buf => { s with queue := { s.queue with buf := some buf, index } }

inductive Event where
  | enqueue (ptr : Nat)
  | mark (obj : Nat)
  deriving DecidableEq

def step (fuel : Nat) (s : State) : Event → Option State
  | .enqueue ptr => s.enqueueKnownActive c fuel ptr
  | .mark obj => some { s with heap := s.heap.mark obj }

def Stuck (s : State) : Prop :=
  100 ≤ c.enqueueingThresholdPercent ∧ s.queue.index = 0 ∧ ∃ buf, s.queue.buf = some buf ∧
    ∀ obj ∈ buf, s.heap.isObjIll obj

end State

open List Option Nat

variable {buf l kept : List Nat} {h : Heap} {obj k : Nat}

/-! ## Slots -/

lemma byteIndexToIndex_slot (hk : k < 2 ^ 28) : byteIndexToIndex (k * oopSize) = k := by
  have hbmod : ((k * oopSize : Nat) : Int).bmod (2 ^ 32) = (k * oopSize : Nat) := by
    refine Int.bmod_eq_of_le_mul_two ?_ ?_ <;> simp only [oopSize] <;> omega
  unfold byteIndexToIndex
  rw [hbmod]
  simp only [oopSize]
  omega

lemma load_slot (hk : k < 2 ^ 28) : load buf (k * oopSize) = buf[k]? := by
  rw [load, byteIndexToIndex_slot hk, if_pos (Int.natCast_nonneg k), Int.toNat_natCast]

lemma store_slot (hk : k < 2 ^ 28) (hlt : k < buf.length) (obj) :
    store buf (k * oopSize) obj = some (buf.set k obj) := by
  rw [store, byteIndexToIndex_slot hk]
  exact if_pos ⟨Int.natCast_nonneg k, hlt⟩

/-! ## The filter -/

def dropped (h : Heap) (b : List Nat) : Nat := b.countP fun obj => !h.isObjIll obj

def compacted (h : Heap) (b : List Nat) : List Nat := List.replicate (dropped h b) 0 ++ b.filter h.isObjIll

lemma length_compacted (h : Heap) (b) : (compacted h b).length = b.length := by
  have hsplit := length_eq_countP_add_countP h.isObjIll (l := b)
  rw [compacted, length_append, ← countP_eq_length_filter, hsplit, add_comm]
  simp [dropped]

lemma dropped_eq_zero_iff (h : Heap) (b) : dropped h b = 0 ↔ ∀ obj ∈ b, h.isObjIll obj = true := by
  rw [dropped]
  simp

namespace State

lemma filterLoop_spec {fuel} (l kept gap) (hlen : l.length + gap + kept.length ≤ 2 ^ 28) (hf : l.length < fuel) :
    filterLoop h 0 fuel (l ++ (List.replicate gap 0 ++ kept)) (l.length * oopSize) ((l.length + gap) * oopSize) =
      some (List.replicate (gap + dropped h l) 0 ++ (l.filter h.isObjIll ++ kept), (gap + dropped h l) * oopSize) := by
  induction l using reverseRecOn generalizing kept gap fuel with
  | nil =>
    obtain ⟨fuel, rfl⟩ := exists_eq_succ_of_ne_zero (ne_of_gt hf)
    simp [filterLoop, dropped]
  | append_singleton l x ih =>
    obtain ⟨fuel, rfl⟩ := exists_eq_succ_of_ne_zero (ne_of_gt (lt_of_le_of_lt (zero_le _) hf))
    simp only [length_append, length_singleton] at hlen hf ⊢
    have hload : load (l ++ [x] ++ (replicate gap 0 ++ kept)) (l.length * oopSize) = some x := by
      rw [load_slot (by omega)]
      simp
    have hstore : store (l ++ [x] ++ (replicate gap 0 ++ kept)) (l.length * oopSize) 0 =
        some (l ++ (replicate (gap + 1) 0 ++ kept)) := by
      rw [store_slot (by omega) (by simp)]
      simp [replicate_succ]
    have hi : (l.length + 1) * oopSize - oopSize = l.length * oopSize := by rw [succ_mul, Nat.add_sub_cancel]
    have hnew : (l.length + 1 + gap) * oopSize = (l.length + (gap + 1)) * oopSize := by rw [add_assoc, add_comm 1]
    rw [filterLoop, hi]
    dsimp only
    rw [hload, bind_some, hstore, bind_some, dropped, countP_append, filter_append, hnew]
    cases hx : h.isObjIll x with
    | false =>
      have ih' := ih kept (gap + 1) (by omega) (lt_of_succ_lt_succ hf)
      simp only [ih', countP_singleton, filter_singleton, hx]
      simp [dropped, add_assoc, add_comm 1]
    | true =>
      have hnew' : (l.length + (gap + 1)) * oopSize - oopSize = (l.length + gap) * oopSize := by
        rw [← add_assoc, succ_mul, Nat.add_sub_cancel]
      have hstore' : store (l ++ (replicate (gap + 1) 0 ++ kept)) ((l.length + gap) * oopSize) x =
          some (l ++ (replicate gap 0 ++ (x :: kept))) := by
        rw [store_slot (by omega) (by simp; omega), replicate_succ']
        simp
      have ih' := ih (x :: kept) gap (by simp only [length_cons]; omega) (lt_of_succ_lt_succ hf)
      rw [hnew', hstore']
      simp only [bind_some, ih', countP_singleton, filter_singleton, hx]
      simp [dropped]

/-! ## One call -/

variable {c : Config} {s s' : State} {b : List Nat} {j fuel ptr : Nat}

structure Holds (c : Config) (s : State) (b : List Nat) (j : Nat) : Prop where
  buf : s.queue.buf = some b
  length : b.length = c.bufferSize
  sz : s.queue.sz = c.bufferSize * oopSize
  index : s.queue.index = j * oopSize
  le : j ≤ c.bufferSize

lemma Holds.index_eq_zero (hb : Holds c s b j) : s.queue.index = 0 ↔ j = 0 := by
  rw [hb.index, mul_eq_zero]
  exact or_iff_left (by decide)

def withBuffer (s : State) (b : List Nat) (j : Nat) : State := { s with queue := ⟨some b, j * oopSize, s.queue.sz⟩ }

lemma Holds.eq_withBuffer (hb : Holds c s b j) : s = s.withBuffer b j := by
  obtain ⟨heap, ⟨buf, index, sz⟩, completed, allocated⟩ := s
  obtain ⟨rfl, -, -, rfl, -⟩ := hb
  rfl

lemma Holds.withBuffer (hb : Holds c s b j) {b' j'} (hlen : b'.length = b.length)
    (hle : j' ≤ b.length) : Holds c (s.withBuffer b' j') b' j' :=
  ⟨rfl, hlen.trans hb.length, hb.sz, rfl, hb.length ▸ hle⟩

lemma Holds.filter (hb : Holds c s b 0) (hsize : c.bufferSize ≤ 2 ^ 28) :
    s.filter = some (s.withBuffer (compacted s.heap b) (dropped s.heap b)) := by
  have hlt : b.length < c.bufferSize + 1 := by
    rw [hb.length]
    exact lt_succ_self _
  have hspec := filterLoop_spec (h := s.heap) b [] 0 (by simpa [hb.length] using hsize) hlt
  have hsz : s.queue.sz / oopSize + 1 = c.bufferSize + 1 := by rw [hb.sz, Nat.mul_div_cancel _ (by decide)]
  have hindex : s.queue.index = 0 := hb.index_eq_zero.2 rfl
  simp only [replicate_zero, append_nil, add_zero, zero_add, hb.length] at hspec
  rw [State.filter, hb.buf]
  dsimp only
  rw [hsz, hindex, hb.sz, hspec, State.withBuffer, hb.sz]
  rfl

lemma Holds.shouldEnqueueBuffer (hb : Holds c s b 0) (hsize : c.bufferSize ≤ 2 ^ 28) :
    s.shouldEnqueueBuffer c = some (s.withBuffer (compacted s.heap b) (dropped s.heap b),
      decide (c.enqueueingThresholdPercent < (c.bufferSize - dropped s.heap b) * 100 / c.bufferSize)) := by
  have hall : s.queue.sz / oopSize = c.bufferSize := by rw [hb.sz, Nat.mul_div_cancel _ (by decide)]
  have hretained : (s.queue.sz - dropped s.heap b * oopSize) / oopSize = c.bufferSize - dropped s.heap b := by
    rw [hb.sz, ← Nat.sub_mul, Nat.mul_div_cancel _ (by decide)]
  rw [State.shouldEnqueueBuffer, hb.filter hsize, map_some]
  simp only [State.withBuffer, hall, hretained]

lemma reallocate_holds (c : Config) (s : State) :
    Holds c (s.reallocate c) ((List.range c.bufferSize).map (c.fresh s.allocated)) c.bufferSize :=
  ⟨rfl, by simp, rfl, rfl, le_rfl⟩

def Unused (c : Config) (b : List Nat) (j : Nat) : Prop := ∃ a, ∀ k < j, b[k]? = some 0 ∨ b[k]? = some (c.fresh a k)

lemma unused_reallocate (c a) : Unused c ((List.range c.bufferSize).map (c.fresh a)) c.bufferSize :=
  ⟨a, fun k hk => .inr (by simp [hk])⟩

lemma Holds.handleZeroIndex (hb : Holds c s b 0) (hpos : 0 < c.bufferSize) (hsize : c.bufferSize ≤ 2 ^ 28)
    (hstuck : ¬s.Stuck c) :
    ∃ s' b' j', s.handleZeroIndex c = some s' ∧ Holds c s' b' j' ∧ 0 < j' ∧ Unused c b' j' ∧ s'.heap = s.heap ∧
      (∀ buf ∈ s.completed, buf ∈ s'.completed) ∧
      ∀ obj ∈ b, s.heap.isObjIll obj = true → obj ∈ b'.drop j' ∨ ∃ buf ∈ s'.completed, obj ∈ buf := by
  have hkept : ∀ obj ∈ b, s.heap.isObjIll obj = true → obj ∈ b.filter s.heap.isObjIll := fun obj hm hill =>
    mem_filter.2 ⟨hm, hill⟩
  simp only [State.handleZeroIndex, hb.buf, hb.shouldEnqueueBuffer hsize, map_some, decide_eq_true_eq]
  by_cases hperc : c.enqueueingThresholdPercent < (c.bufferSize - dropped s.heap b) * 100 / c.bufferSize
  · rw [if_pos hperc]
    refine ⟨_, _, _, rfl, reallocate_holds c _, hpos, unused_reallocate c _, rfl,
      fun buf hbuf => mem_append_left _ hbuf, fun obj hm hill => .inr ⟨compacted s.heap b, ?_, ?_⟩⟩
    · simp [reallocate, State.withBuffer]
    · exact mem_append_right _ (hkept obj hm hill)
  rw [if_neg hperc]
  have hle : dropped s.heap b ≤ b.length := countP_le_length
  refine ⟨_, _, _, rfl, hb.withBuffer (length_compacted _ _) hle, ?_, ⟨0, fun k hk => .inl ?_⟩, rfl,
    fun buf hbuf => hbuf, fun obj hm hill => .inl ?_⟩
  · -- all entries are kept only if the queue is stuck
    refine Nat.pos_of_ne_zero fun hzero => hstuck ⟨?_, hb.index_eq_zero.2 rfl, b, hb.buf, ?_⟩
    · rw [hzero, Nat.sub_zero, Nat.mul_div_cancel_left _ hpos] at hperc
      exact not_lt.1 hperc
    · exact (dropped_eq_zero_iff _ _).1 hzero
  · rw [compacted, getElem?_append_left (by simpa using hk), getElem?_replicate_of_lt hk]
  · rw [compacted, drop_left' (by simp)]
    exact hkept obj hm hill

lemma Holds.handleZeroIndex_of_stuck (hb : Holds c s b 0) (hpos : 0 < c.bufferSize) (hsize : c.bufferSize ≤ 2 ^ 28)
    (hstuck : s.Stuck c) : s.handleZeroIndex c = some s := by
  obtain ⟨hth, -, b', hb', hill⟩ := hstuck
  cases hb.buf.symm.trans hb'
  have hzero : dropped s.heap b = 0 := (dropped_eq_zero_iff _ _).2 hill
  have hsame : compacted s.heap b = b := by rw [compacted, hzero, replicate_zero, nil_append, filter_eq_self.2 hill]
  have hperc : ¬c.enqueueingThresholdPercent < (c.bufferSize - dropped s.heap b) * 100 / c.bufferSize := by
    rw [hzero, Nat.sub_zero, Nat.mul_div_cancel_left _ hpos]
    exact not_lt.2 hth
  simp only [State.handleZeroIndex, hb.buf, hb.shouldEnqueueBuffer hsize, map_some, decide_eq_true_eq]
  rw [if_neg hperc, hsame, hzero, ← hb.eq_withBuffer]

lemma handleZeroIndexLoop_of_stuck (hb : Holds c s b 0) (hpos : 0 < c.bufferSize) (hsize : c.bufferSize ≤ 2 ^ 28)
    (hstuck : s.Stuck c) (fuel) : handleZeroIndexLoop c fuel s = none := by
  induction fuel with
  | zero => rfl
  | succ fuel ih =>
    rw [handleZeroIndexLoop, if_pos hstuck.2.1, hb.handleZeroIndex_of_stuck hpos hsize hstuck, bind_some, ih]

/-! ## Sequences of calls -/

/-- What holds between calls, if the objects `objs` have been enqueued. -/
structure Inv (c : Config) (objs : List Nat) (s : State) : Prop where
  queue : (s.queue.buf = none ∧ s.queue.index = 0 ∧ s.completed = [] ∧ objs = []) ∨ ∃ b j, Holds c s b j ∧
    Unused c b j ∧
    ∀ obj ∈ objs, s.heap.isObjIll obj = true → obj ∈ b.drop j ∨ ∃ buf ∈ s.completed, obj ∈ buf

variable {objs : List Nat}

lemma Inv.handleZeroIndexLoop (hi : Inv c objs s) (hpos : 0 < c.bufferSize) (hsize : c.bufferSize ≤ 2 ^ 28)
    (hstuck : ¬s.Stuck c) (hf : 2 ≤ fuel) :
    ∃ s' b j, handleZeroIndexLoop c fuel s = some s' ∧ Holds c s' b j ∧ 0 < j ∧ Unused c b j ∧ s'.heap = s.heap ∧
      ∀ obj ∈ objs, s.heap.isObjIll obj = true → obj ∈ b.drop j ∨ ∃ buf ∈ s'.completed, obj ∈ buf := by
  obtain ⟨fuel, rfl⟩ : ∃ k, fuel = k + 2 := ⟨fuel - 2, by omega⟩
  rw [State.handleZeroIndexLoop]
  obtain ⟨hbuf, hindex, -, rfl⟩ | ⟨b, j, hb, hu, hobjs⟩ := hi.queue
  · have hh := reallocate_holds c s
    have hne : (s.reallocate c).queue.index ≠ 0 := mt hh.index_eq_zero.1 (ne_of_gt hpos)
    rw [if_pos hindex, State.handleZeroIndex, hbuf, bind_some, State.handleZeroIndexLoop, if_neg hne]
    exact ⟨_, _, _, rfl, hh, hpos, unused_reallocate c _, rfl, by simp⟩
  by_cases hj : j = 0
  · subst hj
    obtain ⟨s', b', j', heq, hb', hj', hu', hheap, hcomp, hkept⟩ := hb.handleZeroIndex hpos hsize hstuck
    have hne : s'.queue.index ≠ 0 := mt hb'.index_eq_zero.1 (ne_of_gt hj')
    rw [if_pos (hb.index_eq_zero.2 rfl), heq, bind_some, State.handleZeroIndexLoop, if_neg hne]
    refine ⟨s', b', j', rfl, hb', hj', hu', hheap, fun obj hm hill => ?_⟩
    obtain hin | ⟨buf, hbuf, hin⟩ := hobjs obj hm hill
    · exact hkept obj hin hill
    · exact .inr ⟨buf, hcomp buf hbuf, hin⟩
  · rw [if_neg (mt hb.index_eq_zero.1 hj)]
    exact ⟨s, b, j, rfl, hb, Nat.pos_of_ne_zero hj, hu, rfl, hobjs⟩

lemma Inv.enqueueKnownActive (hi : Inv c objs s) (hpos : 0 < c.bufferSize) (hsize : c.bufferSize ≤ 2 ^ 28)
    (hstuck : ¬s.Stuck c) (hf : 2 ≤ fuel) (ptr) :
    ∃ s' b j, s.enqueueKnownActive c fuel ptr = some s' ∧ Inv c (objs ++ [ptr]) s' ∧ Holds c s' b j ∧
      b[j]? = some ptr := by
  obtain ⟨s1, b, j, heq, hb, hj, ⟨a, hu⟩, hheap, hobjs⟩ := hi.handleZeroIndexLoop hpos hsize hstuck hf
  obtain ⟨j, rfl⟩ := exists_eq_succ_of_ne_zero (ne_of_gt hj)
  have hjlt : j < b.length := by
    rw [hb.length]
    exact hb.le
  have hindex : s1.queue.index - oopSize = j * oopSize := by rw [hb.index, succ_mul, Nat.add_sub_cancel]
  have hlt : j < 2 ^ 28 := lt_of_lt_of_le hb.le hsize
  have hdrop : (b.set j ptr).drop j = ptr :: b.drop (j + 1) := by
    rw [drop_eq_getElem_cons (by simpa using hjlt), getElem_set_self, drop_set_of_lt (lt_succ_self j)]
  have hb' : Holds c (s1.withBuffer (b.set j ptr) j) (b.set j ptr) j := hb.withBuffer length_set (le_of_lt hjlt)
  refine ⟨s1.withBuffer (b.set j ptr) j, b.set j ptr, j, ?_, ⟨.inr ⟨_, _, hb', ⟨a, fun k hk => ?_⟩,
    fun obj hm hill => ?_⟩⟩,
    hb', getElem?_set_self hjlt⟩
  · rw [State.enqueueKnownActive, heq, bind_some]
    rw [hb.buf, hindex, bind_some, store_slot hlt hjlt]
    rfl
  · rw [getElem?_set_ne (ne_of_gt hk)]
    exact hu k (lt_succ_of_lt hk)
  · rw [hdrop]
    rcases mem_append.1 hm with hm | hm
    · rcases hobjs obj hm (hheap ▸ hill) with hin | hin
      · exact .inl (mem_cons_of_mem _ hin)
      · exact .inr hin
    · exact .inl (by simp [mem_singleton.1 hm])

lemma isObjIll_of_mark {obj'} (hill : (h.mark obj').isObjIll obj = true) : h.isObjIll obj = true := by
  unfold Heap.isObjIll Heap.mark at hill
  unfold Heap.isObjIll
  cases hr : h.heapRegionContaining obj with
  | none => simpa [hr] using hill
  | some r =>
    simp only [hr, Bool.and_eq_true] at hill ⊢
    refine ⟨hill.1, ?_⟩
    by_cases heq : obj = obj'
    · simp [heq] at hill
    · simpa [heq] using hill.2

lemma Inv.mark (hi : Inv c objs s) (obj) : Inv c objs { s with heap := s.heap.mark obj } := by
  obtain hnull | ⟨b, j, hb, hu, hobjs⟩ := hi.queue
  · exact ⟨.inl hnull⟩
  · exact ⟨.inr ⟨b, j, ⟨hb.buf, hb.length, hb.sz, hb.index, hb.le⟩, hu, fun obj' hm hill =>
      hobjs obj' hm (isObjIll_of_mark hill)⟩⟩

def enqueued (events : List Event) : List Nat :=
  events.filterMap fun
    | .enqueue ptr => some ptr
    | .mark _ => none

def NeverStuck (c : Config) (fuel : Nat) (s : State) (events : List Event) : Prop :=
  ∀ before ptr after s', events = before ++ .enqueue ptr :: after → run (step c fuel) s before = some s' → ¬s'.Stuck c

lemma NeverStuck.tail {e events} (h : NeverStuck c fuel s (e :: events))
    (hs : s.step c fuel e = some s') : NeverStuck c fuel s' events := by
  intro before ptr after s'' heq hrun
  refine h (e :: before) ptr after s'' (by rw [heq]; rfl) ?_
  rw [run_cons, hs, bind_some, hrun]

lemma NeverStuck.append {before after} (h : NeverStuck c fuel s (before ++ after)) : NeverStuck c fuel s before := by
  intro before' ptr after' s' heq
  exact h before' ptr (after' ++ after) s' (by rw [heq]; simp)

lemma Inv.run {events} (hi : Inv c objs s) (hpos : 0 < c.bufferSize) (hsize : c.bufferSize ≤ 2 ^ 28)
    (hf : 2 ≤ fuel) (hns : NeverStuck c fuel s events) :
    ∃ s', run (step c fuel) s events = some s' ∧ Inv c (objs ++ enqueued events) s' := by
  induction events generalizing s objs with
  | nil => exact ⟨s, rfl, by simpa [enqueued] using hi⟩
  | cons e events ih =>
    cases e with
    | enqueue ptr =>
      obtain ⟨s1, -, -, hs1, hi1, -⟩ := hi.enqueueKnownActive hpos hsize (hns [] ptr events s rfl rfl) hf ptr
      obtain ⟨s', hs', hi'⟩ := ih hi1 (hns.tail hs1)
      refine ⟨s', ?_, by simpa [enqueued] using hi'⟩
      rw [run_cons, step, hs1, bind_some, hs']
    | mark obj =>
      obtain ⟨s', hs', hi'⟩ := ih (hi.mark obj) (hns.tail rfl)
      exact ⟨s', hs', by simpa [enqueued] using hi'⟩

lemma inv_initial (c) (heap : Heap) : Inv c [] (initial heap) := ⟨.inl ⟨rfl, rfl, rfl, rfl⟩⟩

end State

open State

/-- Every call returns with the pointer stored. Every enqueued object that is still ill is in the entries of the buffer
or in a completed one, and the slots before the entries are `NULL` if allocated memory is. -/
theorem satb_enqueue_keeps_ill_objects (c : Config) (heap : Heap) (fuel : Nat) (events : List Event)
    (hpos : 1 ≤ c.bufferSize) (hsize : c.bufferSize ≤ 2 ^ 28) (hfuel : 2 ≤ fuel)
    (hprogress : NeverStuck c fuel (initial heap) events) :
    (∀ before ptr after, events = before ++ .enqueue ptr :: after → ∃ s s' b j,
      run (step c fuel) (initial heap) before = some s ∧ s.step c fuel (.enqueue ptr) = some s' ∧
        s'.queue.buf = some b ∧ s'.queue.index = j * oopSize ∧ b[j]? = some ptr) ∧
    ∃ s, run (step c fuel) (initial heap) events = some s ∧ (∀ obj ∈ enqueued events, s.heap.isObjIll obj = true →
        (∃ b, s.queue.buf = some b ∧ obj ∈ b.drop (s.queue.index / oopSize)) ∨ ∃ buf ∈ s.completed, obj ∈ buf) ∧
      ((∀ a k, c.fresh a k = 0) → ∀ b, s.queue.buf = some b → ∀ k, k < s.queue.index / oopSize → b[k]? = some 0) := by
  constructor
  · intro before ptr after heq
    have hns : NeverStuck c fuel (initial heap) before := (heq ▸ hprogress).append
    obtain ⟨s, hs, hi⟩ := (inv_initial c heap).run hpos hsize hfuel hns
    obtain ⟨s', b, j, hs', -, hb, hget⟩ :=
      hi.enqueueKnownActive hpos hsize (hprogress before ptr after s heq hs) hfuel ptr
    exact ⟨s, s', b, j, hs, hs', hb.buf, hb.index, hget⟩
  obtain ⟨s, hs, hi⟩ := (inv_initial c heap).run hpos hsize hfuel hprogress
  rw [nil_append] at hi
  refine ⟨s, hs, ?_⟩
  obtain ⟨hbuf, -, -, hnil⟩ | ⟨b, j, hb, ⟨a, hu⟩, hobjs⟩ := hi.queue
  · rw [hnil, hbuf]
    exact ⟨by simp, by simp⟩
  have hj : s.queue.index / oopSize = j := by rw [hb.index, Nat.mul_div_cancel _ (by decide)]
  rw [hj, hb.buf]
  constructor
  · intro obj hm hill
    obtain hin | hin := hobjs obj hm hill
    · exact .inl ⟨b, rfl, hin⟩
    · exact .inr hin
  · rintro hfresh b' ⟨⟩ k hk
    obtain hz | hz := hu k hk
    · exact hz
    · rw [hz, hfresh]

def exampleHeap : Heap := ⟨fun _ => some 0, fun _ => 100, fun _ => false⟩

theorem satb_enqueue_keeps_ill_objects_overflow : let c : Config := ⟨2, 60, fun _ _ => 0⟩
    NeverStuck c 2 (initial exampleHeap) [.enqueue 8, .enqueue 16, .enqueue 24] ∧
      ∃ s, run (step c 2) (initial exampleHeap) [.enqueue 8, .enqueue 16, .enqueue 24] = some s ∧
        ∀ obj ∈ [8, 16, 24], s.heap.isObjIll obj = true →
          (∃ b, s.queue.buf = some b ∧ obj ∈ b.drop (s.queue.index / oopSize)) ∨ ∃ buf ∈ s.completed, obj ∈ buf := by
  intro c
  have hns : NeverStuck c 2 (initial exampleHeap) [.enqueue 8, .enqueue 16, .enqueue 24] :=
    fun _ _ _ _ _ _ hstuck => absurd hstuck.1 (by decide)
  obtain ⟨-, s, hs, hkept, -⟩ := satb_enqueue_keeps_ill_objects c exampleHeap 2 [.enqueue 8, .enqueue 16, .enqueue 24]
    (by decide) (by decide) (by decide) hns
  exact ⟨hns, s, hs, hkept⟩

/-- With a threshold of 100 percent and a buffer of one entry, the second call does not return. With two entries and
memory that is not cleared, a slot before the entries is not `NULL`. -/
theorem satb_enqueue_stuck_and_slot_not_null :
    (∀ fuel, run (step ⟨1, 100, fun _ _ => 0⟩ fuel) (initial exampleHeap) [.enqueue 8, .enqueue 16] = none) ∧
      (run (step ⟨2, 60, fun _ _ => 24⟩ 2) (initial exampleHeap) [.enqueue 8]).map (fun s => s.queue) =
        some ⟨some [24, 8], 8, 16⟩ := by
  refine ⟨fun fuel => ?_, by decide⟩
  match fuel with
  | 0 => rfl
  | 1 => rfl
  | fuel + 2 =>
    have hfirst : (initial exampleHeap).step ⟨1, 100, fun _ _ => 0⟩ (fuel + 2) (.enqueue 8) =
        some ⟨exampleHeap, ⟨some [8], 0, 8⟩, [], 1⟩ := by
      have hloop : handleZeroIndexLoop ⟨1, 100, fun _ _ => 0⟩ (fuel + 2) (initial exampleHeap) =
          some ⟨exampleHeap, ⟨some [0], 8, 8⟩, [], 1⟩ := rfl
      have hstore : store [0] 0 8 = some [8] := by decide
      rw [step, enqueueKnownActive, hloop]
      rfl
    have hb : Holds ⟨1, 100, fun _ _ => 0⟩ ⟨exampleHeap, ⟨some [8], 0, 8⟩, [], 1⟩ [8] 0 :=
      ⟨rfl, rfl, rfl, rfl, by decide⟩
    have hstuck : Stuck ⟨1, 100, fun _ _ => 0⟩ ⟨exampleHeap, ⟨some [8], 0, 8⟩, [], 1⟩ :=
      ⟨by decide, rfl, [8], rfl, by decide⟩
    rw [run_cons, hfirst, bind_some, run_cons, step, enqueueKnownActive,
      handleZeroIndexLoop_of_stuck hb (by decide) (by decide) hstuck]
    rfl

end Rolp.Satb
