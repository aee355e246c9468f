import Rolp.Lib.Run

/-!
# The segmented stack

A list of segments stands for a segment with those that its link leads to, the empty list for `NULL`. Memory that was
never written has no element.
-/

namespace Rolp.Utilities

open Rolp.Lib Function List

def maxUintx : Nat := 2 ^ 64 - 1

def adjustMaxSize (maxSize segSize : Nat) : Nat :=
  let limit := maxUintx - (segSize - 1)
  let maxSize := if maxSize = 0 ∨ limit < maxSize then limit else maxSize
  (maxSize + segSize - 1) / segSize * segSize

/-- The constants of a stack, where `maxSize` is the argument of the constructor. -/
structure StackBase where
  segSize : Nat
  maxSize : Nat
  maxCacheSize : Nat
  segSize_pos : 0 < segSize

structure Stack (E : Type) where
  curSegSize : Nat
  fullSegSize : Nat
  cacheSize : Nat
  curSeg : List (Nat → Option E)
  cache : List (Nat → Option E)

inductive StackOp (E : Type) where
  | push (item : E)
  | pop
  | clear (clearCache : Bool)

def lifoStep {E : Type} (refuses : Nat → Bool) (l : List E) : StackOp E → List E × Option E
  | .push item => (if refuses l.length then l else item :: l, none)
  | .pop => (l.tail, l.head?)
  | .clear _ => ([], none)

namespace Stack

variable {E : Type} (b : StackBase) (s : Stack E)

def reset (resetCache : Bool) : Stack E :=
  let s := { s with curSegSize := b.segSize, fullSegSize := 0, curSeg := [] }
  if resetCache then { s with cacheSize := 0, cache := [] } else s

def new : Stack E := reset b ⟨0, 0, 0, [], []⟩ true

def isEmpty : Bool := s.curSeg.isEmpty

def isFull : Bool := adjustMaxSize b.maxSize b.segSize ≤ s.fullSegSize

def size : Nat := if s.isEmpty then 0 else s.fullSegSize + s.curSegSize

def pushSegment : Stack E :=
  let next := if 0 < s.cacheSize then s.cache.headD fun _ => none else fun _ => none
  let s := if 0 < s.cacheSize then { s with cacheSize := s.cacheSize - 1, cache := s.cache.tail } else s
  { s with
    curSeg := next :: s.curSeg
    curSegSize := 0
    fullSegSize := s.fullSegSize + if s.isEmpty then 0 else b.segSize }

def popSegment : Stack E :=
  let prev := s.curSeg.tail
  let s := if s.cacheSize < b.maxCacheSize then
      { s with cacheSize := s.cacheSize + 1, cache := s.curSeg.take 1 ++ s.cache }
    else s
  { s with
    curSeg := prev
    curSegSize := b.segSize
    fullSegSize := s.fullSegSize - if prev.isEmpty then 0 else b.segSize }

def push (item : E) : Stack E :=
  let s := if s.curSegSize = b.segSize then s.pushSegment b else s
  { s with
    curSeg := s.curSeg.modifyHead fun seg => update seg s.curSegSize (some item)
    curSegSize := s.curSegSize + 1 }

def pop : Stack E × Option E :=
  let s' := { s with curSegSize := s.curSegSize - 1 }
  (if s.curSegSize = 1 then s'.popSegment b else s', s.curSeg.head?.bind fun seg => seg s'.curSegSize)

/-- An operation that an assertion refuses has no effect. -/
def step : StackOp E → Stack E × Option E
  | .push item => (if s.isFull b then s else s.push b item, none)
  | .pop => if s.isEmpty then (s, none) else s.pop b
  | .clear clearCache => (s.reset b clearCache, none)

/-- What `StackIterator::next` returns until the iterator is empty. -/
def visit : List (Nat → Option E) → Nat → List (Option E)
  | [], _ | _, 0 => []
  | seg :: segs, n + 1 => seg n :: if n = 0 then visit segs b.segSize else visit (seg :: segs) n
termination_by segs n => (segs.length, n)

/-! ## The elements -/

variable {b s} {seg : Nat → Option E} {segs : List (Nat → Option E)} {n : Nat}

/-- The elements in the order in which they are popped. -/
def contents (b : StackBase) : List (Nat → Option E) → Nat → List (Option E)
  | [], _ => []
  | seg :: segs, n => (range n).reverse.map seg ++ contents b segs b.segSize

lemma contents_pop (hn : 0 < n) : contents b (seg :: segs) n = seg (n - 1) :: contents b (seg :: segs) (n - 1) := by
  obtain ⟨n, rfl⟩ := Nat.exists_eq_add_one.2 hn
  simp [contents, range_succ]

lemma length_contents : (contents b segs b.segSize).length = b.segSize * segs.length := by
  induction segs with
  | nil => rfl
  | cons seg segs ih => simp [contents, ih, Nat.mul_add, add_comm]

lemma visit_eq (hn : 0 < n) : visit b segs n = contents b segs n := by
  fun_induction visit b segs n with
  | case1 => rfl
  | case2 => omega
  | case3 seg segs n ihLink ih =>
    rw [ihLink b.segSize_pos, contents_pop hn]
    cases n with
    | zero => rfl
    | succ n =>
      rw [if_neg (by omega), ih (by omega)]
      rfl

/-- Also true while the current segment is empty. -/
structure Shape (b : StackBase) (s : Stack E) (l : List E) : Prop where
  contents_eq : contents b s.curSeg s.curSegSize = l.map some
  curSegSize_le : s.curSegSize ≤ b.segSize
  full : s.fullSegSize = b.segSize * (s.curSeg.length - 1)
  cache : s.cacheSize = s.cache.length
  cache_le : s.cacheSize ≤ b.maxCacheSize

structure Holds (b : StackBase) (s : Stack E) (l : List E) : Prop extends Shape b s l where
  curSegSize_pos : 0 < s.curSegSize
  empty : s.curSeg = [] → s.curSegSize = b.segSize

variable {l : List E}

lemma Holds.size_eq (h : Holds b s l) : s.size = l.length ∧ (s.isEmpty = true ↔ l = []) ∧
    s.fullSegSize = b.segSize * ((l.length - 1) / b.segSize) := by
  have hlen := congrArg length h.contents_eq
  have hpos := h.curSegSize_pos
  have hle := h.curSegSize_le
  rw [length_map] at hlen
  rw [size, isEmpty, ← length_eq_zero_iff, ← hlen, h.full]
  cases s.curSeg with
  | nil => simp [contents]
  | cons seg segs =>
    have hdiv : (s.curSegSize + b.segSize * segs.length - 1) / b.segSize = segs.length := by
      rw [Nat.div_eq_iff b.segSize_pos, mul_comm]
      omega
    simp [contents, length_contents, hdiv]
    omega

lemma Shape.pushSegment (h : Shape b s l) (hfull : s.curSegSize = b.segSize) :
    Shape b (s.pushSegment b) l ∧ (s.pushSegment b).curSeg ≠ [] ∧ (s.pushSegment b).curSegSize = 0 := by
  have hcontents := h.contents_eq
  have hsize : s.fullSegSize + (if s.isEmpty then 0 else b.segSize) = b.segSize * s.curSeg.length := by
    rw [h.full, isEmpty]
    cases s.curSeg with
    | nil => rfl
    | cons seg segs => rfl
  rw [hfull] at hcontents
  unfold Stack.pushSegment
  refine ⟨?_, cons_ne_nil _ _, rfl⟩
  split
  · exact ⟨hcontents, Nat.zero_le _, hsize, by simp [h.cache], (Nat.sub_le _ _).trans h.cache_le⟩
  · exact ⟨hcontents, Nat.zero_le _, hsize, h.cache, h.cache_le⟩

lemma Shape.popSegment (h : Shape b s l) (hzero : s.curSegSize = 0) (hne : s.curSeg ≠ []) :
    Holds b (s.popSegment b) l := by
  obtain ⟨seg, segs, hc⟩ := exists_cons_of_ne_nil hne
  have hcontents := h.contents_eq
  have hcache := h.cache
  rw [hc, hzero] at hcontents
  have hfull : s.fullSegSize - (if segs.isEmpty then 0 else b.segSize) = b.segSize * (segs.length - 1) := by
    rw [h.full, hc]
    cases segs with
    | nil => rfl
    | cons seg' segs => simp [Nat.mul_add]
  unfold Stack.popSegment
  rw [hc]
  split
  next hlt => exact ⟨⟨hcontents, le_rfl, hfull, by simp [hcache], hlt⟩, b.segSize_pos, fun _ => rfl⟩
  · exact ⟨⟨hcontents, le_rfl, hfull, hcache, h.cache_le⟩, b.segSize_pos, fun _ => rfl⟩

lemma Shape.write (h : Shape b s l) (hne : s.curSeg ≠ []) (hlt : s.curSegSize < b.segSize) (x : E) :
    Holds b { s with
      curSeg := s.curSeg.modifyHead fun seg => update seg s.curSegSize (some x)
      curSegSize := s.curSegSize + 1 } (x :: l) := by
  obtain ⟨seg, segs, hc⟩ := exists_cons_of_ne_nil hne
  have hcontents := h.contents_eq
  have hfull := h.full
  have hsame : (range s.curSegSize).reverse.map (update seg s.curSegSize (some x)) =
      (range s.curSegSize).reverse.map seg :=
    map_congr_left fun i hi => update_of_ne (by simp at hi; omega) _ _
  rw [hc] at hcontents hfull
  refine ⟨⟨?_, hlt, by simpa [hc] using hfull, h.cache, h.cache_le⟩, Nat.succ_pos _, by simp [hc]⟩
  simp [hc, contents_pop, ← hcontents, contents, hsame]

lemma Holds.push (h : Holds b s l) (x) : Holds b (s.push b x) (x :: l) := by
  rw [Stack.push]
  by_cases hfull : s.curSegSize = b.segSize
  · obtain ⟨hshape, hne, hzero⟩ := h.pushSegment hfull
    rw [if_pos hfull]
    exact hshape.write hne (hzero ▸ b.segSize_pos) x
  · rw [if_neg hfull]
    exact h.write (fun hnil => hfull (h.empty hnil)) (lt_of_le_of_ne h.curSegSize_le hfull) x

lemma Holds.pop (h : Holds b s l) (hne : s.curSeg ≠ []) : (s.pop b).2 = l.head? ∧ Holds b (s.pop b).1 l.tail := by
  obtain ⟨seg, segs, hc⟩ := exists_cons_of_ne_nil hne
  have hpos := h.curSegSize_pos
  have hcontents := h.contents_eq
  rw [hc, contents_pop hpos] at hcontents
  cases l with
  | nil => cases hcontents
  | cons x l =>
    obtain ⟨htop, hrest⟩ := cons.inj hcontents
    have hshape : Shape b { s with curSegSize := s.curSegSize - 1 } l :=
      ⟨hc ▸ hrest, (Nat.sub_le _ _).trans h.curSegSize_le, h.full, h.cache, h.cache_le⟩
    rw [Stack.pop]
    refine ⟨hc ▸ htop, ?_⟩
    split
    next hone => exact hshape.popSegment (by simp [hone]) hne
    · exact ⟨hshape, by dsimp only; omega, fun hnil => absurd hnil hne⟩

lemma holds_clear (s : Stack E) : Holds b (s.reset b true) [] :=
  ⟨⟨rfl, le_rfl, rfl, rfl, Nat.zero_le _⟩, b.segSize_pos, fun _ => rfl⟩

/-- Whether a stack of `n` elements is full. -/
def refuses (b : StackBase) (n : Nat) : Bool :=
  adjustMaxSize b.maxSize b.segSize ≤ b.segSize * ((n - 1) / b.segSize)

lemma Holds.step (h : Holds b s l) (op : StackOp E) :
    (s.step b op).2 = (lifoStep (refuses b) l op).2 ∧ Holds b (s.step b op).1 (lifoStep (refuses b) l op).1 := by
  obtain ⟨-, hempty, hfull⟩ := h.size_eq
  cases op with
  | push x =>
    rw [Stack.step, lifoStep, isFull, hfull, ← refuses]
    refine ⟨rfl, ?_⟩
    split
    · exact h
    · exact h.push x
  | pop =>
    rw [Stack.step]
    split
    next he =>
      obtain rfl := hempty.1 he
      exact ⟨rfl, h⟩
    next he => exact h.pop fun hnil => he (by simp [isEmpty, hnil])
  | clear clearCache =>
    cases clearCache with
    | true => exact ⟨rfl, holds_clear s⟩
    | false => exact ⟨rfl, ⟨rfl, le_rfl, rfl, h.cache, h.cache_le⟩, b.segSize_pos, fun _ => rfl⟩

/-- The results of all operations are those of a list that refuses a push at the adjusted maximum only. -/
theorem stack_refines_lifo (b : StackBase) :
    ∃ refuses : Nat → Bool, (∀ n < adjustMaxSize b.maxSize b.segSize, refuses n = false) ∧
      ∀ ops : List (StackOp E), ∃ s l out, results (step b) (new b) ops = (s, out) ∧
        results (lifoStep refuses) [] ops = (l, out) ∧ s.size = l.length ∧ (s.isEmpty = true ↔ l = []) ∧
        s.cacheSize = s.cache.length ∧ s.cacheSize ≤ b.maxCacheSize ∧
        visit b s.curSeg s.curSegSize = l.map some := by
  refine ⟨refuses b, fun n hn => decide_eq_false ?_, fun ops => ?_⟩
  · have hle := Nat.mul_div_le (n - 1) b.segSize
    omega
  · have hnew : Holds b (new b : Stack E) [] := holds_clear _
    obtain ⟨hout, h⟩ := results_eq_of_simulation (Holds b) (fun _ => True) (fun s l op h _ => h.step op) hnew
      fun op (_ : op ∈ ops) => trivial
    obtain ⟨hsize, hempty, -⟩ := h.size_eq
    refine ⟨_, _, _, rfl, Prod.ext rfl hout.symm, hsize, hempty, h.cache, h.cache_le, ?_⟩
    rw [visit_eq h.curSegSize_pos, h.contents_eq]

end Stack

end Rolp.Utilities
