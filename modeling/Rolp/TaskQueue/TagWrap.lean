import Rolp.TaskQueue.SafeTermination

/-!
# The deque loses and duplicates nothing, unless its tag wraps

Every run in which the tag is kept is, outcome by outcome, a run of the sequence of tasks that the deque stands for. A
tag that wraps while a thief waits lets a task be executed after all workers have terminated.
-/

namespace Rolp.TaskQueue

open Rolp.Lib List

namespace History

variable {E ι : Type} {N : Nat} {os : List (Outcome E)} {c : List E}

lemma popped_le_pushed (h : Sequential N os c) {before} (hbefore : before <+: os) : popped before ≤ pushed before := by
  induction h with
  | nil =>
    rw [prefix_nil.1 hbefore]
    exact le_rfl
  | snoc h he ih =>
    rcases prefix_concat_iff.1 hbefore with rfl | hearlier
    · rw [(h.snoc he).balance]
      exact Multiset.le_add_right _ _
    · exact ih hearlier

def Refines (N : Nat) (s : History E ι) : Prop := ∃ c, Shape N s.deque c ∧ Sequential N s.outcomes c

variable [DecidableEq ι] {s s' : History E ι}

lemma refines_step (hN : IsCapacity N) (h : Refines N s) {ev} (htag : s.deque.TagKept ev)
    (he : s.step N ev = some s') : Refines N s' := by
  obtain ⟨c, hshape, hseq⟩ := h
  obtain ⟨⟨q', out⟩, hnext, rfl⟩ := Option.map_eq_some_iff.1 he
  obtain ⟨c', hshape', heffect⟩ := hshape.next hN htag hnext
  refine ⟨c', hshape', ?_⟩
  cases out with
  | none =>
    obtain rfl : c' = c := heffect
    rwa [Option.toList_none, append_nil]
  | some o => exact hseq.snoc heffect

lemma refines_run (hN : IsCapacity N) (junk) {es}
    (h : run (guarded (fun s ev => s.deque.TagKept ev) (step N)) (new junk) es = some s) : Refines N s := by
  refine run_invariant (Refines N) (fun _ => True) ?_ ⟨[], shape_new hN junk, .nil⟩ (fun _ _ => trivial) h
  intro s ev s' hs _ hstep
  obtain ⟨htag, he⟩ := guarded_some hstep
  exact refines_step hN hs htag he

end History

open History

/-- No task is popped that was not pushed before, a push fails only when the deque is full, and the slots hold what is
left. -/
theorem deque_loses_and_duplicates_nothing {E ι : Type} [DecidableEq ι] {N : Nat} (hN : IsCapacity N) (junk : Nat → E)
    {es : List (Event E ι)} {s : History E ι}
    (h : run (guarded (fun s ev => s.deque.TagKept ev) (step N)) (new junk) es = some s) :
    (∀ before, before <+: s.outcomes → popped before ≤ pushed before) ∧
      AtEach (fun before o => ∀ t, o = .rejected t → N - 2 ≤ (pushed before).card - (popped before).card) s.outcomes ∧
      (s.deque.Quiet → pushed s.outcomes = popped s.outcomes + s.deque.slots N) := by
  obtain ⟨c, hshape, hseq⟩ := refines_run hN junk h
  refine ⟨fun before => popped_le_pushed hseq, hseq.rejected_when_full, fun hquiet => ?_⟩
  have hsteady : Steady N s.deque c := hshape.ownerAt hquiet.owner
  rw [hseq.balance, Deque.slots, hsteady.dirtySize hN hshape, ← hshape.ring.eq_map_range]

def race : List (Event Nat (Fin 1)) :=
  [.push 5, .owner, .owner, .owner, .thief 0, .thief 0, .thief 0, .popLocal] ++ replicate 5 .owner ++
    [.thief 0, .owner, .owner]

theorem deque_loses_and_duplicates_nothing_race : ∃ s : History Nat (Fin 1),
      run (guarded (fun s ev => s.deque.TagKept ev) (step 4)) (new fun _ => 0) race = some s ∧
      s.outcomes = [.pushed 5, .stolen 5, .empty] ∧ pushed s.outcomes = popped s.outcomes + s.deque.slots 4 := by
  have hrun : (run (guarded (fun s ev => s.deque.TagKept ev) (step 4)) (new fun _ => 0) race).map
      (fun s => (s.outcomes, s.deque.owner, s.deque.thieves 0)) =
        some ([.pushed 5, .stolen 5, .empty], .idle, .idle) := by decide +kernel
  obtain ⟨s, h, hs⟩ := Option.map_eq_some_iff.1 hrun
  simp only [Prod.mk.injEq] at hs
  obtain ⟨hout, howner, hthief⟩ := hs
  refine ⟨s, h, hout, ?_⟩
  exact (deque_loses_and_duplicates_nothing isCapacity_four _ h).2.2 ⟨howner, fun i => Subsingleton.elim 0 i ▸ hthief⟩

/-- `push` adds at the end of a sequence, where `pop_local` takes, `pop_global` takes at its start, and the slots of a
deque at rest hold it. -/
theorem deque_refines_sequence {E ι : Type} [DecidableEq ι] {N : Nat} (hN : IsCapacity N) (junk : Nat → E)
    {es : List (Event E ι)} {s : History E ι}
    (h : run (guarded (fun s ev => s.deque.TagKept ev) (step N)) (new junk) es = some s) :
    ∃ c, Sequential N s.outcomes c ∧
      (s.deque.Quiet → s.deque.slots N = c ∧ size N s.deque.bottom s.deque.age.top = c.length) := by
  obtain ⟨c, hshape, hseq⟩ := refines_run hN junk h
  refine ⟨c, hseq, fun hquiet => ?_⟩
  have hsteady : Steady N s.deque c := hshape.ownerAt hquiet.owner
  rw [Deque.slots, hsteady.dirtySize hN hshape, ← hshape.ring.eq_map_range]
  exact ⟨rfl, Steady.size hN hshape hsteady⟩

theorem deque_refines_sequence_race : ∃ s : History Nat (Fin 1),
      run (guarded (fun s ev => s.deque.TagKept ev) (step 4)) (new fun _ => 0) race = some s ∧
      ∃ c, Sequential 4 s.outcomes c := by
  have hrun : (run (guarded (fun s ev => s.deque.TagKept ev) (step 4)) (new fun _ => 0) race).isSome := by
    decide +kernel
  obtain ⟨s, h⟩ := Option.isSome_iff_exists.1 hrun
  exact ⟨s, h, (deque_refines_sequence isCapacity_four _ h).imp fun _ => And.left⟩

open Function List Option

/-! ## A worker on its own -/

section

variable {E : Type} {n N : Nat} {s : System E n} {w : Fin n} {q : Deque E (Fin n)} {hand : List E}

def System.withWorker (s : System E n) (w : Fin n) (q : Deque E (Fin n)) (hand : List E) : System E n :=
  (s.setQueue w q).setHand w hand

lemma withWorker_self (s : System E n) (w : Fin n) : s.withWorker w (s.queues w) (s.hands w) = s := by
  simp only [System.withWorker, System.setQueue, System.setHand, update_eq_self]

lemma withWorker_ownAccess (ev) (hand' : List E) : (s.withWorker w q hand).ownAccess N w ev hand' =
      (q.next N ev).map fun r => s.withWorker w r.1 (Outcome.received r.2 ++ hand') := by
  simp only [System.withWorker, System.ownAccess, System.access, System.setQueue, System.setHand, update_self,
    update_idem, Option.map_map]
  rfl

lemma withWorker_next (hs : s.phases w = .working) : (s.withWorker w q hand).step N (w, .next) =
      (q.next N .owner).map fun r => s.withWorker w r.1 (Outcome.received r.2 ++ hand) := by
  have hphase : (s.withWorker w q hand).phases w = .working := hs
  have hhand : (s.withWorker w q hand).hands w = hand := update_self _ _ _
  simp only [System.step, System.act, System.next, hphase, hhand, withWorker_ownAccess]

lemma withWorker_popLocal (hs : s.phases w = .working) : (s.withWorker w q hand).step N (w, .popLocal) =
      (q.next N .popLocal).map fun r => s.withWorker w r.1 (Outcome.received r.2 ++ hand) := by
  have hphase : ((s.withWorker w q hand).phases w).free = true := congrArg Phase.free hs
  have hhand : (s.withWorker w q hand).hands w = hand := update_self _ _ _
  simp only [System.step, System.act, hphase, hhand, if_true, withWorker_ownAccess]

lemma withWorker_push {t} (hs : s.phases w = .working) : (s.withWorker w q (t :: hand)).step N (w, .push 0) =
      (q.next N (.push t)).map fun r => s.withWorker w r.1 (Outcome.received r.2 ++ hand) := by
  have hphase : ((s.withWorker w q (t :: hand)).phases w).free = true := congrArg Phase.free hs
  have hhand : (s.withWorker w q (t :: hand)).hands w = t :: hand := update_self _ _ _
  simp only [System.step, System.act, hphase, hhand, getElem?_cons_zero, withWorker_ownAccess, eraseIdx_cons_zero]

end

/-! ## Rounds of a pop and a push -/

def popAndPush : List (Fin 2 × Action Nat 2) :=
  flatten [(0, .popLocal) :: replicate 6 (0, .next), (0, .push 0) :: replicate 3 (0, .next)]

def Deque.waiting (q : Deque Nat (Fin 2)) (tag : Nat) : Deque Nat (Fin 2) :=
  { q with bottom := 1, age := ⟨0, tag⟩, owner := .idle }

lemma waiting_eq {q : Deque Nat (Fin 2)} (hbottom : q.bottom = 1) (hage : q.age = ⟨0, 0⟩) (howner : q.owner = .idle) :
    q.waiting 0 = q := by
  rw [Deque.waiting, ← hbottom, ← hage, ← howner]

lemma run_popAndPush {s : System Nat 2} (hs : s.phases 0 = .working) (q : Deque Nat (Fin 2)) (tag : Nat) :
    run (System.step 4) (s.withWorker 0 (q.waiting tag) []) popAndPush =
      some (s.withWorker 0 (q.waiting (tag + 1)) []) := by
  have hdirty : dirtySize 4 1 0 = 1 := by decide
  have hdec : decrementIndex 4 1 = 0 := by decide
  have hsize : size 4 0 0 = 0 := by decide
  have hempty : dirtySize 4 0 0 = 0 := by decide
  have hinc : incrementIndex 4 0 = 1 := by decide
  simp [popAndPush, withWorker_popLocal hs, withWorker_next hs, withWorker_push hs, Deque.next, Deque.begin,
    Deque.ownerNext, Deque.waiting, Outcome.received, hdirty, hdec, hsize, hempty, hinc, maxElems]

lemma run_rounds {s : System Nat 2} (hs : s.phases 0 = .working) (q : Deque Nat (Fin 2)) (tag m : Nat) :
    run (System.step 4) (s.withWorker 0 (q.waiting tag) []) (replicate m popAndPush).flatten =
      some (s.withWorker 0 (q.waiting (tag + m)) []) := by
  induction m generalizing tag with
  | zero => rfl
  | succ m ih =>
    rw [replicate_succ, flatten_cons, run_append, run_popAndPush hs, bind_some, ih (tag + 1),
      Nat.add_assoc, Nat.add_comm 1 m]

/-! ## A run -/

def taskAtFirst : System Nat 2 := .start (fun _ => 9) ![[7], []]

def thiefStalls : List (Fin 2 × Action Nat 2) :=
  [(0, .push 0), (0, .next), (0, .next), (0, .next), (1, .steal), (1, .choose 0 0), (1, .next), (1, .next), (1, .next)]

/-- The first worker executes its task and offers termination. It reads the bottom of its queue, the thief takes the
task, executes it and offers termination too, and only then the first reads the top. The second terminates. -/
def thiefResumes : List (Fin 2 × Action Nat 2) :=
  flatten [(0, .popLocal) :: replicate 6 (0, .next), [(0, .execute 0 []), (0, .steal)], attempts 0,
    [(0, .offerTermination), (0, .next), (0, .next), (1, .next), (1, .execute 0 []), (1, .steal)], attempts 1,
    [(1, .offerTermination), (0, .next), (1, .next)]]

def ownerGoesOn : List (Fin 2 × Action Nat 2) :=
  flatten [(0, .next) :: attempts 0, (0, .popLocal) :: replicate 4 (0, .next), [(0, .execute 0 [])]]

/-- With the tag all the way round, a task is executed after a worker has terminated. -/
theorem task_executed_after_termination : ∃ s s' : System Nat 2, run (System.step 4) taskAtFirst
        (thiefStalls ++ (replicate (2 ^ 32 - 1) popAndPush).flatten ++ thiefResumes) = some s ∧
      s.phases 1 = .terminated ∧ s.executed = [7, 7] ∧
      run (System.step 4) s ownerGoesOn = some s' ∧ s'.executed = [7, 7, 9] := by
  have hfirst : (run (System.step 4) taskAtFirst thiefStalls).map
      (fun s1 => ((s1.queues 0).bottom, (s1.queues 0).age, (s1.queues 0).owner, s1.hands 0, s1.phases 0)) =
        some (1, ⟨0, 0⟩, .idle, [], .working) := by
    decide +kernel
  -- The rest of the run, from the state in which the thief waits but with a later tag.
  have hrest : ((run (System.step 4) taskAtFirst thiefStalls).bind fun s1 =>
      (run (System.step 4) (s1.withWorker 0 ((s1.queues 0).waiting (0 + (2 ^ 32 - 1))) []) thiefResumes).bind fun s =>
        (run (System.step 4) s ownerGoesOn).map fun s' => (s.phases 1, s.executed, s'.executed)) =
      some (.terminated, [7, 7], [7, 7, 9]) := by
    decide +kernel
  obtain ⟨s1, hs1, hstate⟩ := map_eq_some_iff.1 hfirst
  rw [hs1, bind_some] at hrest
  obtain ⟨s, hs, hrest'⟩ := bind_eq_some_iff.1 hrest
  obtain ⟨s', hs', hends⟩ := map_eq_some_iff.1 hrest'
  simp only [Prod.mk.injEq] at hstate hends
  obtain ⟨hbottom, hage, howner, hhand, hphase⟩ := hstate
  obtain ⟨hterminated, hexec, hexec'⟩ := hends
  have hstart : s1.withWorker 0 ((s1.queues 0).waiting 0) [] = s1 := by
    rw [waiting_eq hbottom hage howner, ← hhand, withWorker_self]
  have hrounds := run_rounds hphase (s1.queues 0) 0 (2 ^ 32 - 1)
  rw [hstart] at hrounds
  refine ⟨s, s', ?_, hterminated, hexec, hs', hexec'⟩
  rw [run_append, run_append, hs1, bind_some, hrounds, bind_some, hs]

end Rolp.TaskQueue
