import Rolp.Lib.Pool
import Rolp.TaskQueue.Lemmas.Steps
import Mathlib.Algebra.Order.BigOperators.Group.Finset
import Mathlib.Algebra.Order.Ring.Int
import Mathlib.Data.Fin.VecNotation

/-!
# What the workers do

The actions of a worker, told apart by what they change, and what becomes of the tasks.
-/

namespace Rolp.TaskQueue

open Rolp.Lib Phase Function List Option

variable {E : Type} {n N : Nat}

/-! ## Queues without tasks -/

def OwnerPc.task : OwnerPc E → Option E
  | .pushTop t _ | .pushSlowBottom t | .pushElem t _ | .pushBottom t _ => some t
  | _ => none

section

variable {ι : Type} {q q' : Deque E ι} {out : Option (Outcome E)}

lemma ownerNext_task (htask : q.owner.task = none) (he : q.ownerNext N = some (q', out)) :
    q'.owner.task = none ∧ ∀ t, out ≠ some (.pushed t) := by
  cases hpc : q.owner with
  | idle =>
    simp only [Deque.ownerNext, hpc] at he
    cases he
  | pushTop | pushSlowBottom | pushElem | pushBottom =>
    rw [hpc] at htask
    cases htask
  | popTop | popTopAgain | popSlowAge | popSlowCas =>
    simp only [Deque.ownerNext, hpc] at he
    split at he <;>
    · cases he
      exact ⟨rfl, fun t ht => by cases ht⟩
  | popBottom | popElem | popSlowSet =>
    simp only [Deque.ownerNext, hpc] at he
    cases he
    exact ⟨rfl, fun t ht => by cases ht⟩

variable [DecidableEq ι]

lemma thiefNext_owner (q : Deque E ι) (i : ι) : (q.thiefNext N i).1.owner = q.owner := by
  unfold Deque.thiefNext
  split
  · rfl
  · split <;> rfl
  · rfl
  · split <;> rfl

lemma thiefNext_pushed (q : Deque E ι) (i : ι) (t : E) : (q.thiefNext N i).2 ≠ some (.pushed t) := by
  unfold Deque.thiefNext
  split
  · exact fun h => by cases h
  · split <;> exact fun h => by cases h
  · exact fun h => by cases h
  · split <;> exact fun h => by cases h

lemma next_task {ev} (hev : ∀ t, ev ≠ .push t) (htask : q.owner.task = none)
    (he : q.next N ev = some (q', out)) : q'.owner.task = none ∧ ∀ t, out ≠ some (.pushed t) := by
  cases ev with
  | push t => exact absurd rfl (hev t)
  | popLocal =>
    simp only [Deque.next, Deque.begin] at he
    split at he
    · cases he
      exact ⟨rfl, fun t ht => by cases ht⟩
    · cases he
  | owner => exact ownerNext_task htask he
  | thief i =>
    have heq : q.thiefNext N i = (q', out) := some.inj he
    have howner := thiefNext_owner (N := N) q i
    have hpushed := thiefNext_pushed (N := N) q i
    rw [heq] at howner hpushed
    exact ⟨howner ▸ htask, hpushed⟩

lemma Shape.next_nil (hN : IsCapacity N) (h : Shape N q []) {ev} (htag : q.TagKept ev)
    (hev : ∀ t, ev ≠ .push t) (htask : q.owner.task = none) (he : q.next N ev = some (q', out)) :
    Shape N q' [] ∧ q'.owner.task = none ∧ Outcome.received out = [] := by
  have hfour := hN.four_le
  obtain ⟨htask', hpushed⟩ := next_task hev htask he
  obtain ⟨c', hshape, heffect⟩ := h.next hN htag he
  match out, heffect with
  | none, heffect =>
    obtain rfl : c' = [] := heffect
    exact ⟨hshape, htask', rfl⟩
  | some (.pushed t), _ => exact absurd rfl (hpushed t)
  | some (.rejected t), heffect =>
    have hfull : N - 2 ≤ 0 := heffect.2
    omega
  | some (.popped t), heffect => exact absurd heffect.symm (append_ne_nil_of_right_ne_nil _ (cons_ne_nil _ _))
  | some .empty, heffect =>
    obtain rfl : c' = [] := heffect.2
    exact ⟨hshape, htask', rfl⟩
  | some (.stolen t), heffect => cases heffect
  | some .missed, heffect =>
    obtain rfl : c' = [] := heffect
    exact ⟨hshape, htask', rfl⟩

end

/-! ## Actions -/

variable {s s' : System E n} {w : Fin n} {a : Action E n}

/-- What an action of worker `w` can do. -/
inductive Moves (N : Nat) (s : System E n) (w : Fin n) : System E n → Prop where
  | execute (hand : List E) (t : E) :
      (s.phases w).offers = false → s.hands w ≠ [] →
      Moves N s w { s.setHand w hand with executed := s.executed ++ [t] }
  | access (k : Fin n) (ev : Event E (Fin n)) (q : Deque E (Fin n)) (out : Option (Outcome E)) (hand : List E)
      (ph : Phase n) :
      (s.phases w).offers = false → ph.offers = false → (s.queues k).next N ev = some (q, out) →
      (s.queues k).TagKept ev → (k = w ∨ ev = .thief w) →
      (s.hands w = [] → (∀ t, ev ≠ .push t) ∧ hand = Outcome.received out) →
      Moves N s w (((s.setQueue k q).setHand w hand).setPhase w ph)
  | phase (ph : Phase n) :
      ph.offers = (s.phases w).offers → ph ≠ .terminated → Moves N s w (s.setPhase w ph)
  | offer :
      (s.phases w).offers = false → s.hands w = [] → (s.queues w).owner = .idle →
      (s.queues w).bottom = (s.queues w).age.top →
      Moves N s w { s.setPhase w .check with offeredTermination := s.offeredTermination + 1 }
  | finish :
      (s.phases w).offers = true → s.offeredTermination = n → Moves N s w (s.setPhase w .terminated)
  | withdraw (ph : Phase n) :
      (s.phases w).offers = true → ph.offers = false →
      Moves N s w { s.setPhase w ph with offeredTermination := s.offeredTermination - 1 }

variable {ph : Phase n}

namespace Phase

lemma offers_of_free (h : ph.free = true) : ph.offers = false := by
  cases ph <;> first | rfl | cases h

lemma stealFrom_offers (i) : (stealFrom i : Phase n).offers = false := by
  unfold stealFrom
  split <;> rfl

lemma peekFrom_offers (j) : (peekFrom j : Phase n).offers = true := by
  unfold peekFrom
  split <;> rfl

lemma peekFrom_ne (j) : (peekFrom j : Phase n) ≠ .terminated := by
  unfold peekFrom
  split <;> exact fun h => by cases h

lemma afterPopGlobal_offers (i : Nat) (k : Fin n) (out : Option (Outcome E)) :
    (afterPopGlobal i k out).offers = false := by
  unfold afterPopGlobal
  split
  · rfl
  · exact stealFrom_offers _
  · rfl

lemma stealBestOf2_offers {i k1 k2} (h : stealBestOf2 w i k1 k2 = some ph) : ph.offers = false := by
  unfold stealBestOf2 at h
  split at h
  · split at h
    · cases h
      rfl
    · cases h
  · split at h
    · cases h
      rfl
    · cases h
      exact stealFrom_offers _

lemma ne_terminated (h : ph.offers = false) : ph ≠ .terminated := by
  rintro rfl
  cases h

end Phase

lemma setPhase_self (s : System E n) (w : Fin n) : s.setPhase w (s.phases w) = s := by
  rw [System.setPhase, update_eq_self]

lemma moves_idle_phase (hs : (s.phases w).offers = false) (hph : ph.offers = false) :
    Moves N s w (s.setPhase w ph) := .phase ph (hph.trans hs.symm) (ne_terminated hph)

lemma access_some {k ev hand r} (h : s.access N w k ev hand = some r) : ∃ q, (s.queues k).next N ev = some (q, r.2) ∧
      r.1 = (s.setQueue k q).setHand w (Outcome.received r.2 ++ hand) := by
  obtain ⟨⟨q, out⟩, hnext, rfl⟩ := map_eq_some_iff.1 h
  exact ⟨q, hnext, rfl⟩

lemma moves_ownAccess {ev hand} (he : s.ownAccess N w ev hand = some s')
    (hs : (s.phases w).offers = false) (htag : (s.queues w).TagKept ev)
    (hev : s.hands w = [] → (∀ t, ev ≠ .push t) ∧ hand = []) : Moves N s w s' := by
  obtain ⟨r, haccess, rfl⟩ := map_eq_some_iff.1 he
  obtain ⟨q, hnext, hr⟩ := access_some haccess
  have hmove := Moves.access w ev q r.2 (Outcome.received r.2 ++ hand) (s.phases w) hs hs hnext htag (.inl rfl)
    (fun hnil => ⟨(hev hnil).1, by rw [(hev hnil).2, append_nil]⟩)
  have hphase := setPhase_self r.1 w
  rw [hr] at hphase ⊢
  rw [← hphase]
  exact hmove

lemma moves_next (htag : s.TagsKept (w, .next)) (he : s.next N w = some s') : Moves N s w s' := by
  cases hph : s.phases w with
  | working | stealFailed =>
    simp only [System.next, hph] at he
    exact moves_ownAccess he (congrArg offers hph) trivial fun hnil => ⟨fun t ht => (by cases ht), hnil⟩
  | steal | terminated =>
    simp only [System.next, hph] at he
    cases he
  | sampleBottom1 | sampleTop1 | sampleBottom2 | sampleTop2 =>
    simp only [System.next, hph] at he
    cases he
    exact moves_idle_phase (congrArg offers hph) rfl
  | popGlobal i k =>
    simp only [System.next, hph] at he
    obtain ⟨r, haccess, rfl⟩ := map_eq_some_iff.1 he
    obtain ⟨q, hnext, hr⟩ := access_some haccess
    have hk : k ∈ s.victim (w, .next) := by simp [System.victim, hph]
    rw [hr]
    exact .access k (.thief w) q r.2 _ _ (congrArg offers hph) (afterPopGlobal_offers i k r.2) hnext (htag k hk)
      (.inr rfl)
      (fun hnil => ⟨fun t ht => (by cases ht), by rw [hnil, append_nil]⟩)
  | check =>
    simp only [System.next, hph] at he
    split at he
    next hall =>
      cases he
      exact .finish (congrArg offers hph) hall
    · cases he
      exact .phase _ ((peekFrom_offers _).trans (congrArg offers hph).symm) (peekFrom_ne 0)
  | peekBottom j =>
    simp only [System.next, hph] at he
    cases he
    exact .phase _ (congrArg offers hph).symm (fun h => by cases h)
  | peekTop j bot =>
    simp only [System.next, hph] at he
    split at he
    · cases he
      exact .phase _ (congrArg offers hph).symm (fun h => by cases h)
    · cases he
      exact .phase _ ((peekFrom_offers _).trans (congrArg offers hph).symm) (peekFrom_ne _)
  | withdraw =>
    simp only [System.next, hph] at he
    cases he
    exact .withdraw _ (congrArg offers hph) (stealFrom_offers 0)

lemma moves_act (htag : s.TagsKept (w, a)) (he : s.act N w a = some s') : Moves N s w s' := by
  cases a with
  | execute k children =>
    simp only [System.act] at he
    split at he
    next hfree _ hk =>
      cases he
      refine .execute _ _ (offers_of_free hfree) ?_
      intro hnil
      rw [hnil] at hk
      cases hk
    · cases he
  | push k =>
    simp only [System.act] at he
    split at he
    next hfree hk =>
      refine moves_ownAccess he (offers_of_free hfree) trivial fun hnil => ?_
      rw [hnil] at hk
      cases hk
    · cases he
  | popLocal =>
    simp only [System.act] at he
    split at he
    next hfree => exact moves_ownAccess he (offers_of_free hfree) trivial fun hnil => ⟨fun t ht => (by cases ht), hnil⟩
    · cases he
  | steal =>
    simp only [System.act] at he
    split at he
    next hfree _ =>
      cases he
      exact moves_idle_phase (offers_of_free hfree) (stealFrom_offers 0)
    · cases he
  | choose k1 k2 =>
    simp only [System.act] at he
    split at he
    next hph =>
      obtain ⟨ph, hchoice, rfl⟩ := map_eq_some_iff.1 he
      exact moves_idle_phase (congrArg offers hph) (stealBestOf2_offers hchoice)
    · cases he
  | offerTermination =>
    simp only [System.act] at he
    split at he
    next hph hhand howner =>
      split at he
      next hempty =>
        cases he
        exact .offer (congrArg offers hph) hhand howner hempty
      · cases he
    · cases he
  | next => exact moves_next htag he

/-! ## Termination is safe -/

open Function

variable {v w : Fin n}

structure DryQueue (N : Nat) (q : Deque E (Fin n)) : Prop where
  task : q.owner.task = none
  shape : Shape N q []

structure Dry (N : Nat) (hand : List E) (q : Deque E (Fin n)) : Prop where
  hand : hand = []
  queue : DryQueue N q

structure Inv (N : Nat) (s : System E n) : Prop where
  shape : ∀ v, ∃ c, Shape N (s.queues v) c
  offered : s.offeredTermination = ∑ v, if (s.phases v).offers then 1 else 0
  offering : ∀ v, (s.phases v).offers = true → (s.queues v).owner = .idle ∧ Dry N (s.hands v) (s.queues v)
  done : ∀ v, s.phases v = .terminated → ∀ v', Dry N (s.hands v') (s.queues v')

lemma inv_start (hN : IsCapacity N) (junk) (hands : Fin n → List E) : Inv N (.start junk hands) where
  shape _ := ⟨[], shape_new hN junk⟩
  offered := (Finset.sum_eq_zero fun _ _ => rfl).symm
  offering v hv := by cases hv
  done v hv := by cases hv

variable {ph : Phase n}

lemma offers_update (hph : ph.offers = false)
    (hv : (update s.phases w ph v).offers = true) : v ≠ w ∧ (s.phases v).offers = true := by
  by_cases hvw : v = w
  · subst hvw
    rw [update_self, hph] at hv
    cases hv
  · rw [update_of_ne hvw] at hv
    exact ⟨hvw, hv⟩

lemma terminated_update (hph : ph ≠ .terminated)
    (hv : update s.phases w ph v = .terminated) : s.phases v = .terminated := by
  by_cases hvw : v = w
  · subst hvw
    rw [update_self] at hv
    exact absurd hv hph
  · rwa [update_of_ne hvw] at hv

lemma sum_offers_update (s : System E n) (w : Fin n) (ph : Phase n) :
    (∑ v, if (update s.phases w ph v).offers then 1 else 0 : Int) + (if (s.phases w).offers then 1 else 0) =
      (∑ v, if (s.phases v).offers then 1 else 0) + if ph.offers then 1 else 0 :=
  sum_update_exchange s.phases w ph fun ph' => if ph'.offers then 1 else 0

/-! ## Accesses to the queues -/

section

variable {k : Fin n} {ev : Event E (Fin n)} {q : Deque E (Fin n)} {out : Option (Outcome E)} {hand : List E}

lemma DryQueue.access (hN : IsCapacity N) (h : DryQueue N (s.queues v))
    (he : (s.queues k).next N ev = some (q, out)) (htag : (s.queues k).TagKept ev)
    (hev : v = k → ∀ t, ev ≠ .push t) : DryQueue N (update s.queues k q v) := by
  by_cases hv : v = k
  · subst hv
    obtain ⟨hshape, htask, -⟩ := h.shape.next_nil hN htag (hev rfl) h.task he
    rw [update_self]
    exact ⟨htask, hshape⟩
  · rwa [update_of_ne hv]

lemma dry_access (hN : IsCapacity N) (h : ∀ v, Dry N (s.hands v) (s.queues v))
    (he : (s.queues k).next N ev = some (q, out))
    (htag : (s.queues k).TagKept ev) (hhand : s.hands w = [] → (∀ t, ev ≠ .push t) ∧ hand = Outcome.received out)
    (v) : Dry N (update s.hands w hand v) (update s.queues k q v) := by
  obtain ⟨hev, rfl⟩ := hhand (h w).hand
  refine ⟨?_, (h v).queue.access hN he htag fun _ => hev⟩
  obtain ⟨-, -, hnone⟩ := (h k).queue.shape.next_nil hN htag hev (h k).queue.task he
  by_cases hv : v = w
  · subst hv
    rw [update_self, hnone]
  · rw [update_of_ne hv, (h v).hand]

lemma Inv.access (hN : IsCapacity N) (h : Inv N s) (hs : (s.phases w).offers = false) (hph : ph.offers = false)
    (he : (s.queues k).next N ev = some (q, out)) (htag : (s.queues k).TagKept ev) (hk : k = w ∨ ev = .thief w)
    (hhand : s.hands w = [] → (∀ t, ev ≠ .push t) ∧ hand = Outcome.received out) :
    Inv N (((s.setQueue k q).setHand w hand).setPhase w ph) where
  shape v := by
    change ∃ c, Shape N (update s.queues k q v) c
    by_cases hv : v = k
    · subst hv
      obtain ⟨c, hc⟩ := h.shape v
      obtain ⟨c', hc', -⟩ := hc.next hN htag he
      rw [update_self]
      exact ⟨c', hc'⟩
    · rw [update_of_ne hv]
      exact h.shape v
  offered := by
    have hsum := sum_offers_update s w ph
    rw [hs, hph] at hsum
    exact h.offered.trans (add_right_cancel hsum).symm
  offering v hv := by
    obtain ⟨hvw, hoffers⟩ := offers_update hph hv
    obtain ⟨howner, hdry⟩ := h.offering v hoffers
    have hthief : v = k → ev = .thief w := fun hvk => hk.resolve_left (hvk ▸ hvw)
    refine ⟨?_, ⟨?_, hdry.queue.access hN he htag fun hvk t ht => ?_⟩⟩
    · change (update s.queues k q v).owner = .idle
      by_cases hvk : v = k
      · obtain rfl := hthief hvk
        subst hvk
        have heq : (s.queues v).thiefNext N w = (q, out) := some.inj he
        have hsame := thiefNext_owner (N := N) (s.queues v) w
        rw [heq, howner] at hsame
        rw [update_self]
        exact hsame
      · rw [update_of_ne hvk]
        exact howner
    · exact (update_of_ne hvw _ _).trans hdry.hand
    · cases (hthief hvk).symm.trans ht
  done v hv := dry_access hN (h.done v (terminated_update (Phase.ne_terminated hph) hv)) he htag hhand

end

/-! ## The other actions -/

lemma Inv.phase (h : Inv N s) (hph : ph.offers = (s.phases w).offers) (hne : ph ≠ .terminated) :
    Inv N (s.setPhase w ph) where
  shape := h.shape
  offered := by
    have hsum := sum_offers_update s w ph
    rw [hph] at hsum
    exact h.offered.trans (add_right_cancel hsum).symm
  offering v hv := by
    have hsame : (update s.phases w ph v).offers = (s.phases v).offers := by
      by_cases hvw : v = w
      · subst hvw
        rw [update_self, hph]
      · rw [update_of_ne hvw]
    exact h.offering v (hsame.symm.trans hv)
  done v hv := h.done v (terminated_update hne hv)

lemma Inv.execute (h : Inv N s) (hs : (s.phases w).offers = false) (hhand : s.hands w ≠ []) (hand : List E) (t) :
    Inv N { s.setHand w hand with executed := s.executed ++ [t] } where
  shape := h.shape
  offered := h.offered
  offering v hv := by
    obtain ⟨howner, hdry⟩ := h.offering v hv
    have hvw : v ≠ w := by
      rintro rfl
      exact absurd hdry.hand hhand
    exact ⟨howner, (update_of_ne hvw _ _).trans hdry.hand, hdry.queue⟩
  done v hv := absurd (h.done v hv w).hand hhand

lemma dirtySize_self (hN : IsCapacity N) (bot) : dirtySize N bot bot = 0 := by
  rw [dirtySize, Nat.add_sub_cancel_left, hN.mask]
  exact Nat.mod_eq_zero_of_dvd hN.dvd

lemma Inv.offer (hN : IsCapacity N) (h : Inv N s) (hs : (s.phases w).offers = false) (hhand : s.hands w = [])
    (howner : (s.queues w).owner = .idle) (hempty : (s.queues w).bottom = (s.queues w).age.top) :
    Inv N { s.setPhase w .check with offeredTermination := s.offeredTermination + 1 } where
  shape := h.shape
  offered := by
    have hsum := sum_offers_update s w .check
    rw [hs] at hsum
    rw [h.offered]
    exact hsum.symm.trans (add_zero _)
  offering v hv := by
    by_cases hvw : v = w
    · subst hvw
      obtain ⟨c, hshape⟩ := h.shape v
      have hsteady : Steady N (s.queues v) c := hshape.ownerAt howner
      have hlen := hsteady.dirtySize hN hshape
      rw [hempty, dirtySize_self hN] at hlen
      obtain rfl := length_eq_zero_iff.1 hlen.symm
      exact ⟨howner, hhand, congrArg OwnerPc.task howner, hshape⟩
    · exact h.offering v ((congrArg Phase.offers (update_of_ne hvw _ _)).symm.trans hv)
  done v hv := h.done v (terminated_update (fun h => by cases h) hv)

lemma sum_offers_eq (h : (∑ v, if (s.phases v).offers then 1 else 0 : Int) = n) (v) : (s.phases v).offers = true := by
  by_contra hv
  have hlt : (∑ v, if (s.phases v).offers then 1 else 0 : Int) < ∑ _v : Fin n, 1 := by
    refine Finset.sum_lt_sum (fun v' _ => ?_) ⟨v, Finset.mem_univ v, ?_⟩
    · split <;> decide
    · rw [if_neg hv]
      decide
  rw [h] at hlt
  simp at hlt

lemma Inv.finish (h : Inv N s) (hs : (s.phases w).offers = true) (hall : s.offeredTermination = n) :
    Inv N (s.setPhase w .terminated) where
  shape := h.shape
  offered := by
    have hsum := sum_offers_update s w .terminated
    rw [hs] at hsum
    exact h.offered.trans (add_right_cancel hsum).symm
  offering v _ := h.offering v (sum_offers_eq (h.offered.symm.trans hall) v)
  done _ _ v := (h.offering v (sum_offers_eq (h.offered.symm.trans hall) v)).2

lemma Inv.withdraw (h : Inv N s) (hs : (s.phases w).offers = true) (hph : ph.offers = false) :
    Inv N { s.setPhase w ph with offeredTermination := s.offeredTermination - 1 } where
  shape := h.shape
  offered := by
    have hsum := sum_offers_update s w ph
    rw [hs, hph] at hsum
    rw [h.offered]
    exact sub_eq_of_eq_add ((add_zero _).symm.trans hsum.symm)
  offering v hv := h.offering v (offers_update hph hv).2
  done v hv := h.done v (terminated_update (Phase.ne_terminated hph) hv)

/-! ## Runs -/

lemma Inv.moves (hN : IsCapacity N) (h : Inv N s) (hm : Moves N s w s') : Inv N s' := by
  cases hm with
  | execute hand t hs hhand => exact h.execute hs hhand hand t
  | access k ev q out hand ph hs hph he htag hk hhand => exact h.access hN hs hph he htag hk hhand
  | phase ph hph hne => exact h.phase hph hne
  | offer hs hhand howner hempty => exact h.offer hN hs hhand howner hempty
  | finish hs hall => exact h.finish hs hall
  | withdraw ph hs hph => exact h.withdraw hs hph

lemma dry_moves (hN : IsCapacity N) (h : ∀ v, Dry N (s.hands v) (s.queues v)) (hm : Moves N s w s') :
    (∀ v, Dry N (s'.hands v) (s'.queues v)) ∧ s'.executed = s.executed := by
  cases hm with
  | execute hand t hs hhand => exact absurd (h w).hand hhand
  | access k ev q out hand ph hs hph he htag hk hhand => exact ⟨dry_access hN h he htag hhand, rfl⟩
  | phase | offer | finish | withdraw => exact ⟨fun v => ⟨(h v).hand, (h v).queue⟩, rfl⟩

lemma moves_of_step {e} (h : guarded System.TagsKept (System.step N) s e = some s') : Moves N s e.1 s' := by
  obtain ⟨htag, he⟩ := guarded_some h
  exact moves_act htag he

variable {es : List (Fin n × Action E n)}

lemma inv_run (hN : IsCapacity N) (h : Inv N s)
    (hrun : run (guarded System.TagsKept (System.step N)) s es = some s') : Inv N s' :=
  run_invariant (Inv N) (fun _ => True) (fun _ _ _ hs _ hstep => hs.moves hN (moves_of_step hstep)) h
    (fun _ _ => trivial) hrun

lemma dry_run (hN : IsCapacity N) (h : ∀ v, Dry N (s.hands v) (s.queues v))
    (hrun : run (guarded System.TagsKept (System.step N)) s es = some s') : s'.executed = s.executed := by
  refine (run_invariant (fun s' => (∀ v, Dry N (s'.hands v) (s'.queues v)) ∧ s'.executed = s.executed)
    (fun _ => True) ?_ ⟨h, rfl⟩
    (fun _ _ => trivial) hrun).2
  intro s1 e s2 hs1 _ hstep
  obtain ⟨hdry, hexec⟩ := dry_moves hN hs1.1 (moves_of_step hstep)
  exact ⟨hdry, hexec.trans hs1.2⟩

lemma Inv.offered_bounds (h : Inv N s) : 0 ≤ s.offeredTermination ∧ s.offeredTermination ≤ n := by
  rw [h.offered]
  constructor
  · refine Finset.sum_nonneg fun v _ => ?_
    split <;> decide
  · have hle : (∑ v, if (s.phases v).offers then 1 else 0 : Int) ≤ ∑ _v : Fin n, 1 := by
      refine Finset.sum_le_sum fun v _ => ?_
      split <;> decide
    simpa using hle

lemma DryQueue.size_eq (hN : IsCapacity N) {q : Deque E (Fin n)} (h : DryQueue N q) :
    size N q.bottom q.age.top = 0 := by
  by_contra hsize
  obtain ⟨t, ht⟩ := h.shape.head_of_size hN hsize
  cases ht

/-- Once a worker has terminated, no task is left anywhere, and none is executed any more. -/
theorem parallel_termination_is_safe (hN : IsCapacity N) (junk : Nat → E) (hands : Fin n → List E)
    {es : List (Fin n × Action E n)}
    (h : run (guarded System.TagsKept (System.step N)) (.start junk hands) es = some s) :
    0 ≤ s.offeredTermination ∧ s.offeredTermination ≤ n ∧ ∀ w, s.phases w = .terminated →
        (∀ v, s.hands v = [] ∧ (s.queues v).owner.task = none ∧ size N (s.queues v).bottom (s.queues v).age.top = 0) ∧
        ∀ es' s', run (guarded System.TagsKept (System.step N)) s es' = some s' → s'.executed = s.executed := by
  have hinv : Inv N s := inv_run hN (inv_start hN junk hands) h
  refine ⟨hinv.offered_bounds.1, hinv.offered_bounds.2, fun w hw => ?_⟩
  have hdry := hinv.done w hw
  refine ⟨fun v => ⟨(hdry v).hand, (hdry v).queue.task, (hdry v).queue.size_eq hN⟩, fun es' s' hrun => ?_⟩
  exact dry_run hN hdry hrun

scoped instance neZero_two : NeZero 2 := ⟨by decide⟩

def attempts (w : Fin 2) : List (Fin 2 × Action Nat 2) :=
  (replicate 4 [(w, .choose 0 0), (w, .next), (w, .next)]).flatten

/-- The first worker offers termination and sees the task that the second one has stolen and pushed. Before it takes its
offer back, the second executes the task and terminates. -/
def lateWithdrawal : List (Fin 2 × Action Nat 2) :=
  flatten [[(0, .push 0), (0, .next), (0, .next), (0, .next), (1, .steal), (1, .choose 0 0)], replicate 4 (1, .next),
    (0, .steal) :: attempts 0, [(0, .offerTermination), (0, .next)],
    [(1, .push 0), (1, .next), (1, .next), (1, .next)], replicate 4 (0, .next),
    (1, .popLocal) :: replicate 6 (1, .next), [(1, .execute 0 []), (1, .steal)], attempts 1,
    [(1, .offerTermination), (1, .next)]]

theorem parallel_termination_is_safe_late_withdrawal : ∃ s s' : System Nat 2,
      run (guarded System.TagsKept (System.step 4)) (.start (fun _ => 0) ![[5], []]) lateWithdrawal = some s ∧
      s.phases 0 = .withdraw ∧ s.phases 1 = .terminated ∧
      run (guarded System.TagsKept (System.step 4)) s ((0, .next) :: attempts 0) = some s' ∧
      s'.phases 0 = .stealFailed ∧ s'.executed = s.executed := by
  have hobs : ((run (guarded System.TagsKept (System.step 4)) (.start (fun _ => 0) ![[5], []]) lateWithdrawal).bind
      fun s => (run (guarded System.TagsKept (System.step 4)) s ((0, .next) :: attempts 0)).map
        fun s' => (s.phases 0, s.phases 1, s'.phases 0)) = some (.withdraw, .terminated, .stealFailed) := by
    decide +kernel
  obtain ⟨s, hs, hobs'⟩ := bind_eq_some_iff.1 hobs
  obtain ⟨s', hs', hphases⟩ := map_eq_some_iff.1 hobs'
  simp only [Prod.mk.injEq] at hphases
  obtain ⟨h0, h1, h0'⟩ := hphases
  obtain ⟨-, -, hdone⟩ := parallel_termination_is_safe isCapacity_four _ _ hs
  exact ⟨s, s', hs, h0, h1, hs', h0', (hdone 1 h1).2 _ _ hs'⟩

/-! ## Every task is executed exactly once -/

section

variable {k : Fin n} {ev : Event E (Fin n)} {q q' : Deque E (Fin n)} {out : Option (Outcome E)} {m total : Multiset E}

def Event.task : Event E (Fin n) → Option E
  | .push t => some t
  | _ => none

/-- The tasks in the queue and the one of a `push` that has not returned. -/
def Holds (N : Nat) (q : Deque E (Fin n)) (m : Multiset E) : Prop := ∃ c, Shape N q c ∧ m = c + q.owner.task.toList

lemma Holds.next (hN : IsCapacity N) (h : Holds N q m) (htag : q.TagKept ev) (he : q.next N ev = some (q', out)) :
    ∃ m', Holds N q' m' ∧ m + ev.task.toList = m' + Outcome.received out := by
  obtain ⟨c, hc, rfl⟩ := h
  obtain ⟨c', hc', heffect⟩ := hc.next hN htag he
  refine ⟨_, ⟨c', hc', rfl⟩, ?_⟩
  cases ev with
  | thief i =>
    have heq : q.thiefNext N i = (q', out) := some.inj he
    simp only [Deque.thiefNext] at heq
    (repeat' split at heq) <;> cases heq <;> cases heffect <;> simp [Deque.setThief, Event.task, Outcome.received]
    rw [← Multiset.cons_coe, ← Multiset.singleton_add, add_comm]
  | _ =>
    simp only [Deque.next, Deque.begin, Deque.ownerNext] at he
    (repeat' split at he) <;> cases he <;>
      simp_all [Effect, Outcome.Effect, OwnerPc.task, Event.task, Outcome.received, ← Multiset.coe_add]

def Balanced (N : Nat) (s : System E n) (total : Multiset E) : Prop :=
  ∃ m : Fin n → Multiset E, (∀ v, Holds N (s.queues v) (m v)) ∧
    s.executed + ∑ v, (s.hands v : Multiset E) + ∑ v, m v = total

lemma Balanced.access (hN : IsCapacity N) (h : Balanced N s total) {hand : List E} {r}
    (he : s.access N w k ev hand = some r) (htag : (s.queues k).TagKept ev)
    (hhand : (s.hands w : Multiset E) = ev.task.toList + hand) : Balanced N r.1 total := by
  obtain ⟨m, hm, rfl⟩ := h
  obtain ⟨q, hnext, hr⟩ := access_some he
  obtain ⟨m', hm', hqueue⟩ := (hm k).next hN htag hnext
  have hhands := sum_update_exchange s.hands w (Outcome.received r.2 ++ hand) (fun l => (l : Multiset E))
  have hqueues := sum_update_exchange m k m' id
  rw [hr]
  refine ⟨update m k m', fun v => ?_, ?_⟩
  · simp only [System.setHand, System.setQueue, update_apply]
    split
    · exact hm'
    · exact hm v
  · -- Counted for one task the sums are linear arithmetic.
    classical
    simp only [System.setHand, System.setQueue, id, ← Multiset.coe_add, Multiset.ext, Multiset.count_add] at *
    grind

lemma coe_eraseIdx {l : List E} {i t} (h : l[i]? = some t) : (l : Multiset E) = ↑[t] + ↑(l.eraseIdx i) := by
  obtain ⟨hi, rfl⟩ := List.getElem?_eq_some_iff.1 h
  exact Multiset.coe_eq_coe.2 (getElem_cons_eraseIdx_perm hi).symm

lemma Balanced.execute (h : Balanced N s total) {i t} (ht : (s.hands w)[i]? = some t) (children : List E) :
    Balanced N { s.setHand w (children ++ (s.hands w).eraseIdx i) with executed := s.executed ++ [t] }
      (total + children) := by
  obtain ⟨m, hm, rfl⟩ := h
  refine ⟨m, hm, ?_⟩
  have hhands := sum_update_exchange s.hands w (children ++ (s.hands w).eraseIdx i) (fun l => (l : Multiset E))
  have hhand := coe_eraseIdx ht
  classical
  simp only [System.setHand, ← Multiset.coe_add, Multiset.ext, Multiset.count_add] at *
  grind

def Action.children : Action E n → List E
  | .execute _ children => children
  | _ => []

lemma Balanced.act (hN : IsCapacity N) (h : Balanced N s total) (htag : s.TagsKept (w, a))
    (he : s.act N w a = some s') : Balanced N s' (total + a.children) := by
  have hsame (h' : Balanced N s' total) : Balanced N s' (total + ([] : List E)) := (add_zero total).symm ▸ h'
  have hown {ev : Event E (Fin n)} {hand : List E} (he : s.ownAccess N w ev hand = some s')
      (htag : (s.queues w).TagKept ev)
      (hhand : (s.hands w : Multiset E) = ev.task.toList + hand) : Balanced N s' (total + ([] : List E)) := by
    obtain ⟨r, hr, rfl⟩ := map_eq_some_iff.1 he
    exact hsame (h.access hN hr htag hhand)
  cases a with
  | execute i children =>
    simp only [System.act] at he
    split at he
    next ht =>
      cases he
      exact h.execute ht children
    · cases he
  | push i =>
    simp only [System.act] at he
    split at he
    next ht => exact hown he trivial (coe_eraseIdx ht)
    · cases he
  | popLocal =>
    simp only [System.act] at he
    split at he
    · exact hown he trivial (zero_add _).symm
    · cases he
  | next =>
    simp only [System.act, System.next] at he
    cases hph : s.phases w with
    | working | stealFailed =>
      simp only [hph] at he
      exact hown he trivial (zero_add _).symm
    | popGlobal i k =>
      obtain ⟨r, hr, rfl⟩ := map_eq_some_iff.1 (hph ▸ he)
      exact hsame (h.access hN hr (htag k (by simp [System.victim, hph])) (zero_add _).symm)
    | _ =>
      simp only [hph] at he
      repeat' split at he
      all_goals cases he
      all_goals exact hsame h
  | steal | choose | offerTermination =>
    simp only [System.act, stealBestOf2] at he
    repeat' split at he
    all_goals cases he
    all_goals exact hsame h

lemma balanced_run (hN : IsCapacity N) (h : Balanced N s total) {es}
    (hrun : run (guarded System.TagsKept (System.step N)) s es = some s') :
    Balanced N s' (total + es.flatMap (·.2.children)) := by
  induction es generalizing s total with
  | nil =>
    cases hrun
    exact (add_zero total).symm ▸ h
  | cons e es ih =>
    obtain ⟨s1, h1, h2⟩ := run_cons_some hrun
    obtain ⟨htag, he⟩ := guarded_some h1
    have hrest := ih (h.act hN htag he) h2
    rwa [add_assoc, Multiset.coe_add] at hrest

end

def created (hands : Fin n → List E) (es : List (Fin n × Action E n)) : Multiset E :=
  ∑ v, (hands v : Multiset E) + es.flatMap (·.2.children)

/-- No task is executed more often than it was created, and once all workers have terminated each was executed exactly
as often. -/
theorem every_task_is_executed_once (hN : IsCapacity N) (junk : Nat → E) (hands : Fin n → List E)
    {es : List (Fin n × Action E n)}
    (h : run (guarded System.TagsKept (System.step N)) (.start junk hands) es = some s) :
    s.executed ≤ created hands es ∧ ((∀ w, s.phases w = .terminated) → s.executed = created hands es) := by
  have hstart : Balanced N (.start junk hands) (∑ v, (hands v : Multiset E)) :=
    ⟨0, fun _ => ⟨[], shape_new hN junk, rfl⟩, by simp [System.start]⟩
  obtain ⟨m, hm, hall⟩ := balanced_run hN hstart h
  rw [created, ← hall]
  refine ⟨add_assoc (s.executed : Multiset E) _ _ ▸ Multiset.le_add_right _ _, fun hdone => ?_⟩
  have hdry (v) : s.hands v = [] ∧ m v = 0 := by
    obtain ⟨howner, hhand, -, hshape⟩ := (inv_run hN (inv_start hN junk hands) h).offering v (congrArg offers (hdone v))
    obtain ⟨c, hc, hmv⟩ := hm v
    have hlen : c.length = 0 := (Steady.dirtySize hN hc (hc.ownerAt howner)).symm.trans
      (Steady.dirtySize hN hshape (hshape.ownerAt howner))
    rw [hmv, howner, length_eq_zero_iff.1 hlen]
    exact ⟨hhand, rfl⟩
  simp [hdry]

def createdWork : List (Fin 2 × Action Nat 2) :=
  flatten [(0, .execute 0 [5]) :: lateWithdrawal, (0, .next) :: attempts 0, [(0, .offerTermination), (0, .next)]]

theorem every_task_is_executed_once_created_work : ∃ s : System Nat 2,
    run (guarded System.TagsKept (System.step 4)) (.start (fun _ => 0) ![[4], []]) createdWork = some s ∧
      s.executed = [4, 5] ∧ s.executed = created ![[4], []] createdWork := by
  have hobs : (run (guarded System.TagsKept (System.step 4)) (.start (fun _ => 0) ![[4], []]) createdWork).map
      (fun s => (s.executed, s.phases 0, s.phases 1)) = some ([4, 5], .terminated, .terminated) := by decide +kernel
  obtain ⟨s, hs, hphases⟩ := map_eq_some_iff.1 hobs
  simp only [Prod.mk.injEq] at hphases
  obtain ⟨hexecuted, h0, h1⟩ := hphases
  exact ⟨s, hs, hexecuted, (every_task_is_executed_once isCapacity_four _ _ hs).2 (Fin.forall_fin_two.2 ⟨h0, h1⟩)⟩

end Rolp.TaskQueue
