import Rolp.Mmu.Tracker
import Rolp.Lib.Denominators
import Mathlib.Algebra.Group.Submonoid.BigOperators
import Rolp.Lib.Buffer
import Rolp.Lib.Expiry

/-!
# The pauses of the tracker

How long to wait depends only on the list of the pauses in the circular buffer.
-/

/-! ## The longest pause is found -/

namespace Rolp.Mmu

open Rolp.Lib List Nat

lemma G1MMUTrackerQueueElem.gcTime_mem_multiples {d : ℕ} {limit : ℚ} {e : G1MMUTrackerQueueElem}
    (hlimit : limit ∈ Multiples d) (hstart : e.startTime ∈ Multiples d) (hend : e.endTime ∈ Multiples d) :
    e.gcTime limit ∈ Multiples d := by
  unfold gcTime
  split
  · split
    · exact sub_mem hend hstart
    · exact sub_mem hend hlimit
  · exact zero_mem _

namespace G1MMUTrackerQueue

variable {q : G1MMUTrackerQueue} {d : ℕ} {now : ℚ}

structure InMultiples (d : ℕ) (q : G1MMUTrackerQueue) : Prop where
  timeSlice : q.timeSlice ∈ Multiples d
  maxGcTime : q.maxGcTime ∈ Multiples d
  startTime : ∀ i, i < queueLength → (q.array i).startTime ∈ Multiples d
  endTime : ∀ i, i < queueLength → (q.array i).endTime ∈ Multiples d

lemma exists_inMultiples (q : G1MMUTrackerQueue) (now : ℚ) : ∃ d, 0 < d ∧ now ∈ Multiples d ∧ q.InMultiples d := by
  obtain ⟨d, hd, hall⟩ := exists_common_denominator
    ([now, q.timeSlice, q.maxGcTime] ++ (range queueLength).map (fun i => (q.array i).startTime) ++
      (range queueLength).map fun i => (q.array i).endTime)
  simp only [mem_append, mem_cons, mem_map, mem_range] at hall
  refine ⟨d, hd, hall _ (by simp), hall _ (by simp), hall _ (by simp), fun i hi => ?_, fun i hi => ?_⟩
  · exact hall _ (.inl (.inr ⟨i, hi, rfl⟩))
  · exact hall _ (.inr ⟨i, hi, rfl⟩)

lemma InMultiples.calculateGcTime (h : q.InMultiples d) {t : ℚ} (ht : t ∈ Multiples d) :
    q.calculateGcTime t ∈ Multiples d := by
  refine list_sum_mem fun x hx => ?_
  obtain ⟨i, -, rfl⟩ := mem_map.1 hx
  have hlt : trimIndex (q.tailIndex + i) < queueLength := mod_lt _ (by decide)
  exact G1MMUTrackerQueueElem.gcTime_mem_multiples (sub_mem ht h.timeSlice) (h.startTime _ hlt) (h.endTime _ hlt)

lemma longestPauseLoop_isSome (h : q.InMultiples d) (hd : 0 < d) (hnow : now ∈ Multiples d) {k fuel : Nat} {target : ℚ}
    (ht : target ∈ Multiples d) (hle : target ≤ k * (1 / d : ℚ)) (hf : k < fuel) :
    (longestPauseLoop q now fuel target).isSome = true := by
  induction k generalizing fuel target with
  | zero =>
    obtain ⟨fuel, rfl⟩ := exists_eq_add_one_of_ne_zero (ne_of_gt hf)
    rw [longestPauseLoop]
    split
    · rfl
    next hdiff =>
      have hneg : isDoubleLeq0 (target - (target + q.calculateGcTime (now + target) - q.maxGcTime)) = true := by
        simp only [isDoubleLeq0, decide_eq_true_eq, not_le, cast_zero, zero_mul] at hdiff hle ⊢
        exact sub_nonpos.2 (hle.trans hdiff.le)
      rw [if_pos hneg]
      rfl
  | succ k ih =>
    obtain ⟨fuel, rfl⟩ := exists_eq_add_one_of_ne_zero (ne_of_gt (zero_lt_of_lt hf))
    rw [longestPauseLoop]
    dsimp only
    split
    · rfl
    rename_i hdiff
    have hmem : target + q.calculateGcTime (now + target) - q.maxGcTime ∈ Multiples d :=
      sub_mem (add_mem ht (h.calculateGcTime (add_mem hnow ht))) h.maxGcTime
    have hpos : 0 < target + q.calculateGcTime (now + target) - q.maxGcTime := by
      simpa only [isDoubleLeq0, decide_eq_true_eq, not_le] using hdiff
    have hone := one_div_le_of_mem_multiples hd hmem hpos
    split
    · rfl
    · refine ih (sub_mem ht hmem) ?_ (lt_of_succ_lt_succ hf)
      rw [cast_succ, add_mul, one_mul] at hle
      exact (sub_le_sub hle hone).trans (by rw [add_sub_cancel_right])

lemma longestPauseInternal_isSome (q : G1MMUTrackerQueue) (now : ℚ) :
    ∃ n, ∀ fuel, n ≤ fuel → (q.longestPauseInternal fuel now).isSome = true := by
  obtain ⟨d, hd, hnow, h⟩ := q.exists_inMultiples now
  obtain ⟨k, hk⟩ := exists_nat_ge (q.maxGcTime * d)
  have hd' : (0 : ℚ) < d := cast_pos.2 hd
  have hle : q.maxGcTime ≤ k * (1 / d : ℚ) := by
    rw [mul_one_div, le_div_iff₀ hd']
    exact hk
  exact ⟨k + 1, fun fuel hf => longestPauseLoop_isSome h hd hnow h.maxGcTime hle hf⟩

end G1MMUTrackerQueue

/-! ## Peeling pauses off -/

open G1MMUTrackerQueueElem

abbrev Pause := G1MMUTrackerQueueElem

/-! ## Pauses after a limit -/

namespace G1MMUTrackerQueueElem

variable {e : Pause} {limit limit' a b : ℚ}

lemma gcTime_of_end_le (h : e.endTime ≤ limit) : e.gcTime limit = 0 := if_neg (not_lt.2 h)

lemma gcTime_of_start_le (h : e.startTime ≤ limit) (h' : limit ≤ e.endTime) : e.gcTime limit = e.endTime - limit := by
  rcases h'.lt_or_eq with hlt | heq
  · rw [gcTime, if_pos hlt, if_neg (not_lt.2 h)]
  · rw [gcTime_of_end_le heq.ge, heq, sub_self]

lemma gcTime_of_le_start (h : limit ≤ e.startTime) (he : e.startTime ≤ e.endTime) : e.gcTime limit = e.duration := by
  rcases h.lt_or_eq with hlt | heq
  · rw [gcTime, if_pos (hlt.trans_le he), if_pos hlt]
  · rw [gcTime_of_start_le heq.ge (heq.le.trans he), heq, duration]

lemma gcTime_nonneg (he : e.startTime ≤ e.endTime) (limit : ℚ) : 0 ≤ e.gcTime limit := by
  rcases le_total e.endTime limit with h | h
  · rw [gcTime_of_end_le h]
  · rcases le_total e.startTime limit with h' | h'
    · rw [gcTime_of_start_le h' h]
      exact sub_nonneg.2 h
    · rw [gcTime_of_le_start h' he]
      exact sub_nonneg.2 he

lemma gcTime_le_duration (he : e.startTime ≤ e.endTime) (limit : ℚ) : e.gcTime limit ≤ e.endTime - e.startTime := by
  rcases le_total e.endTime limit with h | h
  · rw [gcTime_of_end_le h]
    exact sub_nonneg.2 he
  · rcases le_total e.startTime limit with h' | h'
    · rw [gcTime_of_start_le h' h]
      exact sub_le_sub_left h' _
    · rw [gcTime_of_le_start h' he, duration]

lemma gcTime_le_end_sub (he : e.startTime ≤ e.endTime) (h : limit ≤ e.endTime) :
    e.gcTime limit ≤ e.endTime - limit := by
  rcases le_total e.startTime limit with h' | h'
  · rw [gcTime_of_start_le h' h]
  · rw [gcTime_of_le_start h' he]
    exact sub_le_sub_left h' _

def overlap (a b : ℚ) (e : Pause) : ℚ := max 0 (min e.endTime b - max e.startTime a)

lemma overlap_eq_gcTime (he : e.startTime ≤ e.endTime) (hb : e.endTime ≤ b) : e.overlap a b = e.gcTime a := by
  rw [overlap, min_eq_left hb]
  rcases le_total e.endTime a with h | h
  · rw [gcTime_of_end_le h, max_eq_left]
    exact sub_nonpos.2 (h.trans (le_max_right _ _))
  · rcases le_total e.startTime a with h' | h'
    · rw [gcTime_of_start_le h' h, max_eq_right h', max_eq_right (sub_nonneg.2 h)]
    · rw [gcTime_of_le_start h' he, max_eq_left h', max_eq_right (sub_nonneg.2 he), duration]

end G1MMUTrackerQueueElem

def gcTimeAfter (limit : ℚ) (l : List Pause) : ℚ := (l.map fun e => e.gcTime limit).sum

@[simp] lemma gcTimeAfter_cons (limit : ℚ) (e l) :
    gcTimeAfter limit (e :: l) = e.gcTime limit + gcTimeAfter limit l := sum_cons

lemma gcTimeAfter_append (limit : ℚ) (l l') :
    gcTimeAfter limit (l ++ l') = gcTimeAfter limit l + gcTimeAfter limit l' := by
  simp [gcTimeAfter]

variable {l : List Pause}

lemma gcTimeAfter_of_end_le {limit} (h : ∀ e ∈ l, e.endTime ≤ limit) : gcTimeAfter limit l = 0 := by
  induction l with
  | nil => rfl
  | cons e l ih =>
    rw [gcTimeAfter_cons, gcTime_of_end_le (h e (by simp)), zero_add]
    exact ih fun e' he' => h e' (by simp [he'])

structure Ordered (l : List Pause) : Prop where
  wf : ∀ e ∈ l, e.startTime ≤ e.endTime
  apart : l.Pairwise fun e e' => e.endTime ≤ e'.startTime

lemma Ordered.tail {e} (h : Ordered (e :: l)) : Ordered l :=
  ⟨fun e' he' => h.wf e' (by simp [he']), (pairwise_cons.1 h.apart).2⟩

lemma Ordered.sublist {l'} (h : Ordered l) (hl : l'.Sublist l) : Ordered l' :=
  ⟨fun e he => h.wf e (hl.subset he), h.apart.sublist hl⟩

lemma Ordered.le_start {e e'} (h : Ordered (e :: l)) (he' : e' ∈ l) :
    e.endTime ≤ e'.startTime := (pairwise_cons.1 h.apart).1 e' he'

lemma gcTimeAfter_congr {limit limit'} (h : Ordered l) (hl : ∀ e ∈ l, limit ≤ e.startTime)
    (hl' : ∀ e ∈ l, limit' ≤ e.startTime) : gcTimeAfter limit l = gcTimeAfter limit' l := by
  refine congrArg sum (map_congr_left fun e he => ?_)
  rw [gcTime_of_le_start (hl e he) (h.wf e he), gcTime_of_le_start (hl' e he) (h.wf e he)]

/-! ## The walk -/

def peel (limit : ℚ) : List Pause → ℚ → Option ℚ
  | [], _ => none
  | e :: l, diff =>
    let diff' := diff - e.gcTime limit
    if limit < e.endTime ∧ isDoubleLeq0 diff' then some (e.endTime + diff') else peel limit l diff'

structure UsesUp (limit diff : ℚ) (l : List Pause) (x : ℚ) : Prop where
  lt : limit < x
  start_lt : ∃ e ∈ l, e.startTime < x
  eq : gcTimeAfter x l = gcTimeAfter limit l - diff
  lt_before : ∀ y, limit ≤ y → y < x → gcTimeAfter limit l - diff < gcTimeAfter y l

variable {diff : ℚ}

lemma usesUp_of_stop {limit e} (h : Ordered (e :: l)) (hpos : 0 < diff)
    (hlim : limit < e.endTime) (hle : diff ≤ e.gcTime limit) :
    UsesUp limit diff (e :: l) (e.endTime + (diff - e.gcTime limit)) := by
  have he := h.wf e (by simp)
  have hdur := gcTime_le_duration he limit
  have hend := gcTime_le_end_sub he hlim.le
  obtain ⟨x, hx⟩ : ∃ x, x = e.endTime + (diff - e.gcTime limit) := ⟨_, rfl⟩
  rw [← hx]
  have hstart : e.startTime < x := by linarith
  have hxend : x ≤ e.endTime := by linarith
  have hrest : ∀ y, y ≤ e.endTime → gcTimeAfter y l = gcTimeAfter limit l := fun y hy =>
    gcTimeAfter_congr h.tail (fun e' he' => hy.trans (h.le_start he')) fun e' he' => hlim.le.trans (h.le_start he')
  refine ⟨by linarith, ⟨e, by simp, hstart⟩, ?_, fun y _ hyx => ?_⟩
  · rw [gcTimeAfter_cons, gcTimeAfter_cons, hrest x hxend, gcTime_of_start_le hstart.le hxend]
    linarith
  have hgt : e.endTime - x < e.gcTime y := by
    rcases le_total e.startTime y with hy | hy
    · rw [gcTime_of_start_le hy (hyx.le.trans hxend)]
      exact sub_lt_sub_left hyx _
    · rw [gcTime_of_le_start hy he]
      exact sub_lt_sub_left hstart _
  rw [gcTimeAfter_cons, gcTimeAfter_cons, hrest y (hyx.le.trans hxend)]
  linarith

lemma UsesUp.cons {limit x e} (h : Ordered (e :: l))
    (hx : UsesUp limit (diff - e.gcTime limit) l x) : UsesUp limit diff (e :: l) x := by
  obtain ⟨e', he', hlt⟩ := hx.start_lt
  have hover : e.gcTime x = 0 := gcTime_of_end_le ((h.le_start he').trans hlt.le)
  refine ⟨hx.lt, ⟨e', by simp [he'], hlt⟩, ?_, fun y hy hyx => ?_⟩
  · rw [gcTimeAfter_cons, gcTimeAfter_cons, hx.eq]
    linarith
  · have hnonneg := gcTime_nonneg (h.wf e (by simp)) y
    have hlt' := hx.lt_before y hy hyx
    rw [gcTimeAfter_cons, gcTimeAfter_cons]
    linarith

lemma peel_spec {limit} (h : Ordered l) (hpos : 0 < diff) (hle : diff ≤ gcTimeAfter limit l) :
    ∃ x, peel limit l diff = some x ∧ UsesUp limit diff l x := by
  induction l generalizing diff with
  | nil => exact absurd (hpos.trans_le hle) (lt_irrefl _)
  | cons e l ih =>
    rw [peel]
    by_cases hstop : limit < e.endTime ∧ isDoubleLeq0 (diff - e.gcTime limit) = true
    · rw [if_pos hstop]
      have hle' : diff ≤ e.gcTime limit := by simpa [isDoubleLeq0] using hstop.2
      exact ⟨_, rfl, usesUp_of_stop h hpos hstop.1 hle'⟩
    rw [if_neg hstop]
    have hpos' : 0 < diff - e.gcTime limit := by
      by_cases hlim : limit < e.endTime
      · have hneg := fun hleq => hstop ⟨hlim, hleq⟩
        simpa [isDoubleLeq0] using hneg
      · rwa [gcTime_of_end_le (not_lt.1 hlim), sub_zero]
    rw [gcTimeAfter_cons] at hle
    obtain ⟨x, hx, huses⟩ := ih h.tail hpos' (by linarith)
    exact ⟨x, hx, huses.cons h⟩

/-! ## The time to wait -/

def gcTimeIn (a b : ℚ) (l : List Pause) : ℚ := (l.map fun e => e.overlap a b).sum

lemma overlap_within (e : Pause) {limit} (hwf : e.startTime ≤ e.endTime) (hlim : limit ≤ e.startTime) :
    e.overlap limit e.endTime = e.endTime - e.startTime :=
  (overlap_eq_gcTime hwf le_rfl).trans (gcTime_of_le_start hlim hwf)

lemma gcTimeIn_snoc (a b : ℚ) (l e) : gcTimeIn a b (l ++ [e]) = gcTimeIn a b l + e.overlap a b := by simp [gcTimeIn]

/-- The waiting times after which the pauses, with the new one, take at most `maxGcTime` of the slice that ends with it.
-/
def Allowed (tracker : G1MMUTracker) (l : List Pause) (now pause w : ℚ) : Prop :=
  gcTimeIn (now + w + pause - tracker.timeSlice) (now + w + pause) (l ++ [⟨now + w, now + w + pause⟩]) ≤
    tracker.maxGcTime

lemma allowed_iff {tracker now pause w} (h : Ordered l)
    (hnow : ∀ e ∈ l, e.endTime ≤ now) (hw : 0 ≤ w) (hpause : 0 ≤ pause) (hslice : pause ≤ tracker.timeSlice) :
    Allowed tracker l now pause w ↔
      gcTimeAfter (now + pause - tracker.timeSlice + w) l + pause ≤ tracker.maxGcTime := by
  have hold : gcTimeIn (now + w + pause - tracker.timeSlice) (now + w + pause) l =
      gcTimeAfter (now + pause - tracker.timeSlice + w) l := by
    have hlimit : now + w + pause - tracker.timeSlice = now + pause - tracker.timeSlice + w := by ring
    rw [hlimit]
    refine congrArg sum (map_congr_left fun e he => ?_)
    exact overlap_eq_gcTime (h.wf e he) ((hnow e he).trans (by linarith))
  have hnew : overlap (now + w + pause - tracker.timeSlice) (now + w + pause)
      ⟨now + w, now + w + pause⟩ = pause := by
    have hwf : now + w ≤ now + w + pause := by linarith
    have hlim : now + w + pause - tracker.timeSlice ≤ now + w := by linarith
    exact (overlap_within ⟨now + w, now + w + pause⟩ hwf hlim).trans (add_sub_cancel_left _ _)
  rw [Allowed, gcTimeIn_snoc, hnew, hold]

/-! ## The circular buffer of pauses -/

open Option

lemma trimIndex_eq (index) : trimIndex index = index % queueLength := add_mod_right _ _

namespace G1MMUTrackerQueue

variable {q : G1MMUTrackerQueue} {l pre rest : List Pause} {limit now : ℚ}

structure Represents (q : G1MMUTrackerQueue) (l : List Pause) : Prop where
  ring : RingAt queueLength q.array q.tailIndex l
  length : q.noEntries = l.length
  le : l.length ≤ queueLength
  head : (q.headIndex + 1) % queueLength = (q.tailIndex + l.length) % queueLength
  tail_lt : q.tailIndex < queueLength

lemma represents_new (timeSlice maxGcTime : ℚ) : (new timeSlice maxGcTime).Represents [] :=
  ⟨ringAt_nil, rfl, zero_le _, rfl, (by decide : trimIndex 1 < queueLength)⟩

lemma Represents.array_tail {e} (h : q.Represents (e :: l)) : q.array q.tailIndex = e := by
  have hhead := h.ring.head
  rwa [mod_eq_of_lt h.tail_lt] at hhead

lemma Represents.pop {e} (h : q.Represents (e :: l)) :
    Represents { q with tailIndex := trimIndex (q.tailIndex + 1), noEntries := l.length } l := by
  have hmod : trimIndex (q.tailIndex + 1) % queueLength = (q.tailIndex + 1) % queueLength := by
    rw [trimIndex_eq, mod_mod]
  refine ⟨h.ring.tail.congr_start hmod, rfl, le_of_succ_le h.le, ?_, ?_⟩
  · have hhead := h.head
    rw [length_cons] at hhead
    rw [hhead, add_mod (trimIndex _), hmod, ← add_mod, add_right_comm, add_assoc]
  · exact mod_lt _ (by decide)

lemma removeExpiredLoop_spec (h : q.Represents l) (limit : ℚ) :
    (removeExpiredLoop limit q.noEntries q).Represents (l.dropWhile fun e => e.endTime ≤ limit) ∧
      (removeExpiredLoop limit q.noEntries q).toG1MMUTracker = q.toG1MMUTracker := by
  induction l generalizing q with
  | nil =>
    rw [h.length]
    exact ⟨h, rfl⟩
  | cons e l ih =>
    rw [h.length, length_cons, removeExpiredLoop, h.array_tail]
    by_cases hexp : e.endTime ≤ limit
    · have hgeq : isDoubleGeq limit e.endTime = true := by simpa [isDoubleGeq, isDoubleLeq0] using hexp
      rw [if_pos hgeq, dropWhile_cons_of_pos (by simpa using hexp)]
      exact ih h.pop
    · have hgeq : ¬isDoubleGeq limit e.endTime = true := by simpa [isDoubleGeq, isDoubleLeq0] using hexp
      rw [if_neg hgeq, dropWhile_cons_of_neg (by simpa using hexp)]
      exact ⟨h, rfl⟩

lemma Represents.calculateGcTime (h : q.Represents l) (now : ℚ) :
    q.calculateGcTime now = gcTimeAfter (now - q.timeSlice) l := by
  refine congrArg sum (ext_getElem? fun i => ?_)
  rw [getElem?_map, getElem?_map, h.length]
  by_cases hi : i < l.length
  · rw [getElem?_range hi, getElem?_eq_getElem hi, map_some, map_some, trimIndex_eq,
      h.ring i _ (getElem?_eq_getElem hi)]
  · rw [getElem?_eq_none (by simpa using hi), getElem?_eq_none (by simpa using hi)]
    rfl

variable {fuel : Nat}

lemma whenLoop_spec (h : q.Represents (pre ++ rest)) (hrest : rest ≠ []) (adj now limit diff : ℚ)
    (hf : rest.length ≤ fuel) : whenLoop q adj now limit fuel ((q.tailIndex + pre.length) % queueLength) diff =
      (peel limit rest diff).map fun x => x + q.timeSlice - adj - now := by
  induction rest generalizing pre diff fuel with
  | nil => exact absurd rfl hrest
  | cons e rest ih =>
    obtain ⟨fuel, rfl⟩ := exists_eq_succ_of_ne_zero (ne_of_gt (lt_of_lt_of_le (succ_pos _) hf))
    rw [whenLoop, peel, h.ring.getElem]
    split
    · rfl
    have hnext : trimIndex ((q.tailIndex + pre.length) % queueLength + 1) =
        (q.tailIndex + (pre ++ [e]).length) % queueLength := by
      rw [trimIndex_eq, mod_add_mod, length_append, length_singleton, add_assoc]
    have hlen := h.le
    rw [hnext, trimIndex_eq, h.head]
    cases rest with
    | nil => simp [peel]
    | cons e' rest =>
      rw [if_neg (mod_add_ne (by simp) (by simp at hlen ⊢; omega))]
      rw [append_cons] at h
      have ih' := ih h (by simp) (diff - e.gcTime limit) (le_of_succ_le_succ hf)
      simpa using ih'

lemma Represents.push (h : q.Represents l) (hlen : l.length < queueLength) (e : Pause) : Represents { q with
      headIndex := trimIndex (q.headIndex + 1)
      array := Function.update q.array (trimIndex (q.headIndex + 1)) e
      noEntries := l.length + 1 } (l ++ [e]) := by
  have hindex : trimIndex (q.headIndex + 1) = (q.tailIndex + l.length) % queueLength := by rw [trimIndex_eq, h.head]
  refine ⟨?_, by simp, by simpa using succ_le_of_lt hlen, ?_, h.tail_lt⟩
  · rw [hindex]
    exact h.ring.push hlen e
  · rw [hindex, mod_add_mod, length_append, length_singleton, add_assoc]

lemma addPause_eq_of_isSome {fuel' start} (hf : (q.longestPauseInternal fuel start).isSome = true)
    (hf' : (q.longestPauseInternal fuel' start).isSome = true) (stop : ℚ) :
    q.addPause fuel start stop = q.addPause fuel' start stop := by
  obtain ⟨t, ht⟩ := isSome_iff_exists.1 hf
  obtain ⟨t', ht'⟩ := isSome_iff_exists.1 hf'
  rw [addPause, ht, addPause, ht', map_some, map_some]

lemma addPause_spec {start} (h : q.Represents l) (hf : (q.longestPauseInternal fuel start).isSome = true) (stop : ℚ) :
    ∃ q', q.addPause fuel start stop = some q' ∧ q'.toG1MMUTracker = q.toG1MMUTracker ∧
      q'.Represents ((l.dropWhile (·.endTime ≤ stop - q.timeSlice) ++ [⟨start, stop⟩] : List Pause).rtake
        queueLength) := by
  obtain ⟨t, ht⟩ := isSome_iff_exists.1 hf
  obtain ⟨hr, htracker⟩ := removeExpiredLoop_spec h (stop - q.timeSlice)
  rw [addPause, ht]
  refine ⟨_, rfl, ?_⟩
  rw [← removeExpiredEntries] at hr htracker
  generalize q.removeExpiredEntries stop = q1 at hr htracker
  generalize l.dropWhile (·.endTime ≤ stop - q.timeSlice) = l1 at hr ⊢
  by_cases hfull : q1.noEntries = queueLength
  · rw [if_pos hfull]
    refine ⟨htracker, ?_⟩
    cases l1 with
    | nil => cases hfull.symm.trans hr.length
    | cons e l1 =>
      have hlen : l1.length + 1 = queueLength := hr.length.symm.trans hfull
      have hpush := hr.pop.push (by omega) ⟨start, stop⟩
      have hlast : (l1 ++ [⟨start, stop⟩] : List Pause).length = queueLength := by simpa using hlen
      rw [cons_append, rtake_cons_of_le_length hlast.ge, rtake_of_length_le hlast.le]
      have hnum : l1.length + 1 = q1.noEntries := hr.length.symm
      rw [hnum] at hpush
      exact hpush
  · rw [if_neg hfull]
    have hlen : l1.length < queueLength := lt_of_le_of_ne hr.le fun heq => hfull (hr.length.trans heq)
    rw [rtake_of_length_le (by simpa using succ_le_of_lt hlen), hr.length]
    exact ⟨htracker, hr.push hlen _⟩

end G1MMUTrackerQueue

end Rolp.Mmu
