import Rolp.Mmu.Lemmas.Queue

/-!
# Exact scheduling of pauses

`when_sec` returns the least time after which the slice that ends with the new pause has room for it.
-/

namespace Rolp.Mmu

open Rolp.Lib List G1MMUTrackerQueue

namespace G1MMUTrackerQueue

variable {q : G1MMUTrackerQueue} {l : List Pause}

/-! ## The time to wait -/

lemma gcTimeAfter_dropWhile {limit y} (hy : limit ≤ y) (l) :
    gcTimeAfter y (l.dropWhile (·.endTime ≤ limit)) = gcTimeAfter y l := by
  have hexp : gcTimeAfter y (l.takeWhile (·.endTime ≤ limit)) = 0 := by
    refine gcTimeAfter_of_end_le fun e he => ?_
    have hle : e.endTime ≤ limit := by simpa using mem_takeWhile_imp he
    exact hle.trans hy
  calc gcTimeAfter y (l.dropWhile (·.endTime ≤ limit))
      = gcTimeAfter y (l.takeWhile (·.endTime ≤ limit) ++ l.dropWhile (·.endTime ≤ limit)) := by
        rw [gcTimeAfter_append, hexp, zero_add]
    _ = gcTimeAfter y l := by rw [takeWhile_append_dropWhile]

lemma Represents.whenInternal (h : q.Represents l) (ho : Ordered l) (now p : ℚ) : ∃ w, q.whenInternal now p = some w ∧
      IsLeast {w | 0 ≤ w ∧
        gcTimeAfter (now + min p q.maxGcTime - q.timeSlice + w) l + min p q.maxGcTime ≤ q.maxGcTime} w := by
  have hadj : (if q.maxGcTime < p then q.maxGcTime else p) = min p q.maxGcTime := by
    split
    next hlt => rw [min_eq_right hlt.le]
    next hle => rw [min_eq_left (not_lt.1 hle)]
  have hmax : min p q.maxGcTime ≤ q.maxGcTime := min_le_right _ _
  rw [G1MMUTrackerQueue.whenInternal, hadj, h.calculateGcTime]
  generalize min p q.maxGcTime = adj at hmax ⊢
  by_cases hdiff : isDoubleLeq0 (gcTimeAfter (now + adj - q.timeSlice) l + adj - q.maxGcTime) = true
  · have hle : gcTimeAfter (now + adj - q.timeSlice) l + adj - q.maxGcTime ≤ 0 := by simpa [isDoubleLeq0] using hdiff
    rw [if_pos hdiff]
    refine ⟨0, rfl, ⟨le_rfl, ?_⟩, fun w hw => hw.1⟩
    rw [add_zero]
    linarith
  have hpos : 0 < gcTimeAfter (now + adj - q.timeSlice) l + adj - q.maxGcTime := by
    simpa only [isDoubleLeq0, decide_eq_true_eq, not_le] using hdiff
  rw [if_neg hdiff]
  obtain ⟨x, hx, huses⟩ := peel_spec ho hpos (by linarith)
  have hne : l ≠ [] := by
    rintro rfl
    cases hx
  have hrep : q.Represents ([] ++ l) := h
  have hwalk := whenLoop_spec hrep hne adj now (now + adj - q.timeSlice)
    (gcTimeAfter (now + adj - q.timeSlice) l + adj - q.maxGcTime) h.le
  rw [length_nil, Nat.add_zero, Nat.mod_eq_of_lt h.tail_lt, hx] at hwalk
  refine ⟨_, hwalk, ⟨?_, ?_⟩, fun w hw => ?_⟩
  · have hlt := huses.lt
    linarith
  · have hxeq : now + adj - q.timeSlice + (x + q.timeSlice - adj - now) = x := by ring
    have heq := huses.eq
    rw [hxeq]
    linarith
  · by_contra hlt
    have hbefore := huses.lt_before (now + adj - q.timeSlice + w) (by linarith [hw.1]) (by linarith)
    linarith [hw.2]

lemma whenSec_spec (h : q.Represents l) (ho : Ordered l) {now p} (hnow : ∀ e ∈ l, e.endTime ≤ now) (hp : 0 ≤ p)
    (hmax : 0 ≤ q.maxGcTime) (hslice : q.maxGcTime ≤ q.timeSlice) :
    ∃ q' w, q.whenSec now p = some (q', w) ∧ q'.toG1MMUTracker = q.toG1MMUTracker ∧
      q'.Represents (l.dropWhile (·.endTime ≤ now - q.timeSlice)) ∧
      IsLeast {w | 0 ≤ w ∧ Allowed q.toG1MMUTracker l now (min p q.maxGcTime) w} w := by
  obtain ⟨hr, htracker⟩ := removeExpiredLoop_spec h (now - q.timeSlice)
  rw [← removeExpiredEntries] at hr htracker
  have hlive : Ordered (l.dropWhile (·.endTime ≤ now - q.timeSlice)) := ho.sublist (dropWhile_sublist _)
  obtain ⟨w, hw, hleast⟩ := hr.whenInternal hlive now p
  refine ⟨q.removeExpiredEntries now, w, ?_, htracker, hr, ?_⟩
  · rw [whenSec, hw, Option.map_some]
  rw [htracker] at hleast
  have hadj : 0 ≤ min p q.maxGcTime := le_min hp hmax
  have hset : {w | 0 ≤ w ∧ Allowed q.toG1MMUTracker l now (min p q.maxGcTime) w} =
      {w | 0 ≤ w ∧ gcTimeAfter (now + min p q.maxGcTime - q.timeSlice + w)
        (l.dropWhile (·.endTime ≤ now - q.timeSlice)) + min p q.maxGcTime ≤ q.maxGcTime} := by
    ext w
    refine and_congr_right fun hw => ?_
    rw [allowed_iff ho hnow hw hadj ((min_le_right _ _).trans hslice), gcTimeAfter_dropWhile (by linarith)]
  rw [hset]
  exact hleast

end G1MMUTrackerQueue

/-! ## Histories -/

structure History where
  log : List Pause
  time : ℚ

namespace History

open G1MMUTrackerQueue

def Legal (h : History) : Op → Prop
  | .addPause start stop => start ≤ stop ∧ h.time ≤ stop ∧ ∀ e ∈ h.log, e.endTime ≤ start
  | .whenSec currentTime pauseTime => h.time ≤ currentTime ∧ 0 ≤ pauseTime

def next (h : History) : Op → History
  | .addPause start stop => ⟨h.log ++ [⟨start, stop⟩], stop⟩
  | .whenSec currentTime _ => ⟨h.log, currentTime⟩

def LegalRun : History → List Op → Prop
  | _, [] => True
  | h, op :: ops => h.Legal op ∧ LegalRun (h.next op) ops

def recent (h : History) (timeSlice : ℚ) : List Pause :=
  (h.log.filter (h.time - timeSlice < ·.endTime)).rtake queueLength

structure Past (h : History) : Prop where
  ordered : Ordered h.log
  le_time : ∀ e ∈ h.log, e.endTime ≤ h.time

lemma Past.next {h : History} {op : Op} (hp : h.Past) (hop : h.Legal op) : (h.next op).Past := by
  cases op with
  | addPause start stop =>
    obtain ⟨hwf, htime, hstart⟩ := hop
    refine ⟨⟨fun e he => ?_, ?_⟩, fun e he => ?_⟩
    · rcases mem_append.1 he with he | he
      · exact hp.ordered.wf e he
      · cases mem_singleton.1 he
        exact hwf
    · refine pairwise_append.2 ⟨hp.ordered.apart, pairwise_singleton _ _, fun e he e' he' => ?_⟩
      cases mem_singleton.1 he'
      exact hstart e he
    · rcases mem_append.1 he with he | he
      · exact (hp.le_time e he).trans htime
      · cases mem_singleton.1 he
        exact le_rfl
  | whenSec currentTime pauseTime => exact ⟨hp.ordered, fun e he => (hp.le_time e he).trans hop.1⟩

lemma Past.dropWhile_recent {h : History} {t : ℚ} (hp : h.Past) (ht : h.time ≤ t) (timeSlice : ℚ) :
    (h.recent timeSlice).dropWhile (·.endTime ≤ t - timeSlice) =
      (h.log.filter (t - timeSlice < ·.endTime)).rtake queueLength := by
  have hexp : (h.log.filter (h.time - timeSlice < ·.endTime)).Pairwise fun e e' =>
      decide (e'.endTime ≤ t - timeSlice) = true → decide (e.endTime ≤ t - timeSlice) = true := by
    refine (hp.ordered.apart.imp_of_mem fun {e e'} _ he' hle => ?_).filter _
    have hwf := hp.ordered.wf e' he'
    simp only [decide_eq_true_eq]
    exact fun hend => (hle.trans hwf).trans hend
  rw [recent, dropWhile_rtake hexp, filter_filter]
  congr 1
  refine filter_congr fun e _ => ?_
  rw [Bool.eq_iff_iff]
  simp only [Bool.and_eq_true, Bool.not_eq_true', decide_eq_false_iff_not, decide_eq_true_eq, not_le]
  exact ⟨fun hlt => hlt.1, fun hlt => ⟨hlt, (sub_le_sub_right ht _).trans_lt hlt⟩⟩

lemma recent_addPause (h : History) {timeSlice} (hpos : 0 < timeSlice) (start stop : ℚ) :
    ((h.log.filter (stop - timeSlice < ·.endTime)).rtake queueLength ++ [⟨start, stop⟩] : List Pause).rtake
      queueLength =
      (h.next (.addPause start stop)).recent timeSlice := by
  have hnew : ([⟨start, stop⟩] : List Pause).filter (stop - timeSlice < ·.endTime) = [⟨start, stop⟩] := by
    simpa using hpos
  rw [rtake_rtake_concat, recent, next, filter_append, hnew]

structure Tracks (tracker : G1MMUTracker) (h : History) (q : G1MMUTrackerQueue) : Prop where
  eq : q.toG1MMUTracker = tracker
  represents : q.Represents (h.recent tracker.timeSlice)

variable {tracker : G1MMUTracker} {h : History} {q : G1MMUTrackerQueue}

lemma Tracks.step (hmax : 0 ≤ tracker.maxGcTime) (hslice : tracker.maxGcTime ≤ tracker.timeSlice)
    (hpos : 0 < tracker.timeSlice) (hp : h.Past) (hq : h.Tracks tracker q) {op : Op} (hop : h.Legal op) :
    ∃ n q', (∀ fuel, n ≤ fuel → q.step fuel op = some q') ∧ (h.next op).Tracks tracker q' := by
  obtain ⟨rfl, hrep⟩ := hq
  cases op with
  | addPause start stop =>
    obtain ⟨n, hn⟩ := q.longestPauseInternal_isSome start
    obtain ⟨q', hq', htracker, hrep'⟩ := addPause_spec hrep (hn n le_rfl) stop
    rw [hp.dropWhile_recent hop.2.1, recent_addPause h hpos] at hrep'
    exact ⟨n, q', fun fuel hf => (addPause_eq_of_isSome (hn fuel hf) (hn n le_rfl) stop).trans hq', htracker, hrep'⟩
  | whenSec currentTime pauseTime =>
    have hsub : (h.recent q.timeSlice).Sublist h.log := (drop_sublist _ _).trans filter_sublist
    have hnow : ∀ e ∈ h.recent q.timeSlice, e.endTime ≤ currentTime := fun e he =>
      (hp.le_time e (hsub.subset he)).trans hop.1
    obtain ⟨q', w, hq', htracker, hrep', -⟩ := whenSec_spec hrep (hp.ordered.sublist hsub) hnow hop.2 hmax hslice
    rw [hp.dropWhile_recent hop.1] at hrep'
    refine ⟨0, q', fun fuel _ => ?_, htracker, hrep'⟩
    rw [G1MMUTrackerQueue.step, hq', Option.map_some]

lemma Tracks.run (hmax : 0 ≤ tracker.maxGcTime) (hslice : tracker.maxGcTime ≤ tracker.timeSlice)
    (hpos : 0 < tracker.timeSlice) (hp : h.Past) (hq : h.Tracks tracker q) {ops : List Op} (hops : h.LegalRun ops) :
    ∃ n q', (∀ fuel, n ≤ fuel → Lib.run (G1MMUTrackerQueue.step fuel) q ops = some q') ∧
      (ops.foldl next h).Tracks tracker q' := by
  induction ops generalizing h q with
  | nil => exact ⟨0, q, fun _ _ => rfl, hq⟩
  | cons op ops ih =>
    obtain ⟨n, q1, hn, hq1⟩ := hq.step hmax hslice hpos hp hops.1
    obtain ⟨m, q', hm, hq'⟩ := ih (hp.next hops.1) hq1 hops.2
    refine ⟨max n m, q', fun fuel hf => ?_, hq'⟩
    rw [run_cons, hn fuel ((le_max_left _ _).trans hf)]
    exact hm fuel ((le_max_right _ _).trans hf)

end History

/-- `when_sec` returns the least time to wait, over any buffer of ordered pauses that are over. Over any history the
buffer holds the most recent pauses that have not expired. -/
theorem mmu_scheduling_exact (timeSlice maxGcTime : ℚ) (hmax : 0 ≤ maxGcTime) (hslice : maxGcTime ≤ timeSlice) :
    (∀ (q : G1MMUTrackerQueue) (l : List Pause) (now p : ℚ), q.toG1MMUTracker = ⟨timeSlice, maxGcTime⟩ →
      q.Represents l → Ordered l → (∀ e ∈ l, e.endTime ≤ now) → 0 ≤ p →
      ∃ q' w, q.whenSec now p = some (q', w) ∧ q'.Represents (l.dropWhile (·.endTime ≤ now - timeSlice)) ∧
        IsLeast {w | 0 ≤ w ∧ Allowed ⟨timeSlice, maxGcTime⟩ l now (min p maxGcTime) w} w) ∧
    (0 < timeSlice → ∀ (t0 : ℚ) (ops : List G1MMUTrackerQueue.Op), History.LegalRun ⟨[], t0⟩ ops →
      ∃ n q, (∀ fuel, n ≤ fuel → run (G1MMUTrackerQueue.step fuel) (.new timeSlice maxGcTime) ops = some q) ∧
        q.Represents ((ops.foldl History.next ⟨[], t0⟩).recent timeSlice)) := by
  constructor
  · intro q l now p hq hrep ho hnow hp
    obtain ⟨q', w, hq', -, hrep', hleast⟩ :=
      whenSec_spec hrep ho hnow hp (by rw [hq]; exact hmax) (by rw [hq]; exact hslice)
    rw [hq] at hrep' hleast
    exact ⟨q', w, hq', hrep', hleast⟩
  · intro hpos t0 ops hops
    have hp : History.Past ⟨[], t0⟩ := ⟨⟨by simp, .nil⟩, by simp⟩
    have hq : History.Tracks ⟨timeSlice, maxGcTime⟩ ⟨[], t0⟩ (.new timeSlice maxGcTime) :=
      ⟨rfl, represents_new timeSlice maxGcTime⟩
    obtain ⟨n, q, hn, hq'⟩ := hq.run hmax hslice hpos hp hops
    exact ⟨n, q, hn, hq'.represents⟩

/-- With 3 of 10 allowed, a pause of 2 right after a pause of 2 has to wait until only 1 of the old one is in the slice.
-/
theorem mmu_scheduling_exact_two_pauses : IsLeast {w | 0 ≤ w ∧ Allowed ⟨10, 3⟩ [⟨0, 2⟩] 4 (min 2 3) w} 5 ∧
      ∃ n q, (∀ fuel, n ≤ fuel → run (G1MMUTrackerQueue.step fuel) (.new 10 3)
          [.addPause 0 2, .whenSec 4 2, .addPause 9 11, .whenSec 13 1] = some q) ∧ q.Represents [⟨9, 11⟩] := by
  have hexact := mmu_scheduling_exact 10 3 (by norm_num) (by norm_num)
  constructor
  · have hrep := (represents_new 10 3).push (by decide) ⟨0, 2⟩
    obtain ⟨q', w, hw, -, hleast⟩ := hexact.1 _ _ 4 2 rfl hrep ⟨by simp, by simp⟩ (by norm_num) (by norm_num)
    have hfive : ((whenSec _ 4 2).map Prod.snd) = some w := congrArg (Option.map Prod.snd) hw
    have heval : some 5 = some w := Eq.trans (by decide +kernel) hfive
    cases heval
    exact hleast
  · obtain ⟨n, q, hn, hq⟩ := hexact.2 (by norm_num) 0 [.addPause 0 2, .whenSec 4 2, .addPause 9 11, .whenSec 13 1]
      (by norm_num [History.LegalRun, History.Legal, History.next])
    refine ⟨n, q, hn, ?_⟩
    have hrecent : History.recent ⟨[⟨0, 2⟩, ⟨9, 11⟩], 13⟩ 10 = [⟨9, 11⟩] := by decide +kernel
    rw [← hrecent]
    exact hq

end Rolp.Mmu
