import Rolp.Lib.Pool
import Rolp.Lib.Run
import Mathlib.Algebra.Order.BigOperators.Group.Finset

/-!
# Publication of the cards of a generation region

A region with `gen() > 0` hands out TLABs while it is the allocation region of its generation.
-/

namespace Rolp.Heap

open Rolp.Lib Function Option

/-- A TLAB from `gen_attempt_allocation` to the end of `make_parsable(true)`. -/
inductive TlabState where
  | unused
  /-- `register_tlab` has not run yet. -/
  | carved
  | registered
  /-- `del_active_tlab` has decremented the counter. -/
  | decremented
  /-- Its test has read 0 TLABs and not yet the flag. -/
  | readZero
  | closed
  deriving DecidableEq

def TlabState.Open (t : TlabState) : Prop := t = .carved ∨ t = .registered

instance (t : TlabState) : Decidable t.Open := by
  unfold TlabState.Open
  infer_instance

def TlabState.weight (t : TlabState) : Int := if t = .registered then 1 else 0

inductive RetireState where
  | active
  /-- `fill_up_remaining_space` has left no room for a TLAB. -/
  | filled
  | cleared
  | tested
  deriving DecidableEq

structure GenRegion (T : Type) where
  tlab : T → TlabState
  retire : RetireState
  activeTlabs : Int
  isGenAllocRegion : Bool
  /-- The number of calls of `g1_enqueue_mr`. -/
  enqueued : Nat

inductive Step (T : Type) where
  | carve (t : T)
  | register (t : T)
  | decrement (t : T)
  | readActive (t : T)
  | readFlag (t : T)
  | fillUp
  | clearFlag
  | testActive

namespace GenRegion

variable {T : Type}

def start : GenRegion T := ⟨fun _ => .unused, .active, 0, true, 0⟩

def enqueues (r : GenRegion T) : Step T → Prop
  | .readFlag t => r.tlab t = .readZero ∧ r.isGenAllocRegion = false
  | .testActive => r.retire = .cleared ∧ r.activeTlabs = 0
  | _ => False

instance (r : GenRegion T) (e : Step T) : Decidable (r.enqueues e) := by
  cases e <;> unfold enqueues <;> infer_instance

variable [DecidableEq T] (r : GenRegion T)

def setTlab (t : T) (st : TlabState) : GenRegion T := { r with tlab := update r.tlab t st }

def enqueueMr : GenRegion T := { r with enqueued := r.enqueued + 1 }

def step : Step T → Option (GenRegion T)
  | .carve t => if r.tlab t = .unused ∧ r.retire = .active then some (r.setTlab t .carved) else none
  | .register t =>
    if r.tlab t = .carved then some { r.setTlab t .registered with activeTlabs := r.activeTlabs + 1 } else none
  | .decrement t =>
    if r.tlab t = .registered then some { r.setTlab t .decremented with activeTlabs := r.activeTlabs - 1 } else none
  | .readActive t =>
    if r.tlab t = .decremented then some (r.setTlab t (if r.activeTlabs = 0 then .readZero else .closed)) else none
  | .readFlag t =>
    if r.tlab t = .readZero then
      some (if r.isGenAllocRegion then r.setTlab t .closed else (r.setTlab t .closed).enqueueMr)
    else none
  | .fillUp => if r.retire = .active then some { r with retire := .filled } else none
  | .clearFlag => if r.retire = .filled then some { r with retire := .cleared, isGenAllocRegion := false } else none
  | .testActive =>
    if r.retire = .cleared then
      some (if r.activeTlabs = 0 then { r with retire := .tested }.enqueueMr else { r with retire := .tested })
    else none

inductive Takes (r : GenRegion T) : Step T → GenRegion T → Prop where
  | carve {t : T} (ht : r.tlab t = .unused) (hactive : r.retire = .active) :
      Takes r (.carve t) (r.setTlab t .carved)
  | register {t : T} (ht : r.tlab t = .carved) :
      Takes r (.register t) { r.setTlab t .registered with activeTlabs := r.activeTlabs + 1 }
  | decrement {t : T} (ht : r.tlab t = .registered) :
      Takes r (.decrement t) { r.setTlab t .decremented with activeTlabs := r.activeTlabs - 1 }
  | readZero {t : T} (ht : r.tlab t = .decremented) (h0 : r.activeTlabs = 0) :
      Takes r (.readActive t) (r.setTlab t .readZero)
  | readOthers {t : T} (ht : r.tlab t = .decremented) (h0 : r.activeTlabs ≠ 0) :
      Takes r (.readActive t) (r.setTlab t .closed)
  | readSet {t : T} (ht : r.tlab t = .readZero) (hset : r.isGenAllocRegion = true) :
      Takes r (.readFlag t) (r.setTlab t .closed)
  | readCleared {t : T} (ht : r.tlab t = .readZero) (hclear : r.isGenAllocRegion = false) :
      Takes r (.readFlag t) (r.setTlab t .closed).enqueueMr
  | fillUp (hr : r.retire = .active) : Takes r .fillUp { r with retire := .filled }
  | clearFlag (hr : r.retire = .filled) : Takes r .clearFlag { r with retire := .cleared, isGenAllocRegion := false }
  | testZero (hr : r.retire = .cleared) (h0 : r.activeTlabs = 0) :
      Takes r .testActive { r with retire := .tested }.enqueueMr
  | testOthers (hr : r.retire = .cleared) (h0 : r.activeTlabs ≠ 0) : Takes r .testActive { r with retire := .tested }

variable {e : Step T}

lemma takes_of_step {r r' : GenRegion T} (h : r.step e = some r') : r.Takes e r' := by
  cases e with
  | carve t =>
    obtain ⟨⟨ht, hactive⟩, hr⟩ := ite_none_right_eq_some.1 h
    cases hr
    exact .carve ht hactive
  | register t =>
    obtain ⟨ht, hr⟩ := ite_none_right_eq_some.1 h
    cases hr
    exact .register ht
  | decrement t =>
    obtain ⟨ht, hr⟩ := ite_none_right_eq_some.1 h
    cases hr
    exact .decrement ht
  | readActive t =>
    obtain ⟨ht, hr⟩ := ite_none_right_eq_some.1 h
    cases hr
    split
    next h0 => exact .readZero ht h0
    next h0 => exact .readOthers ht h0
  | readFlag t =>
    obtain ⟨ht, hr⟩ := ite_none_right_eq_some.1 h
    cases hr
    split
    next hset => exact .readSet ht hset
    next hclear => exact .readCleared ht (Bool.eq_false_iff.2 hclear)
  | fillUp =>
    obtain ⟨hr, hr'⟩ := ite_none_right_eq_some.1 h
    cases hr'
    exact .fillUp hr
  | clearFlag =>
    obtain ⟨hr, hr'⟩ := ite_none_right_eq_some.1 h
    cases hr'
    exact .clearFlag hr
  | testActive =>
    obtain ⟨hr, hr'⟩ := ite_none_right_eq_some.1 h
    cases hr'
    split
    next h0 => exact .testZero hr h0
    next h0 => exact .testOthers hr h0

/-! ## The counter and the flag -/

variable [Fintype T] {r r' : GenRegion T}

structure Counted (r : GenRegion T) : Prop where
  active : r.activeTlabs = ∑ t, (r.tlab t).weight
  flag : r.isGenAllocRegion = true ↔ r.retire = .active ∨ r.retire = .filled

namespace Counted

section

variable (h : r.Counted)

include h

omit [DecidableEq T] in
lemma ne_registered (h0 : r.activeTlabs = 0) (t) : r.tlab t ≠ .registered := by
  intro ht
  have hnonneg : ∀ t ∈ Finset.univ, 0 ≤ (r.tlab t).weight := by
    intro t _
    unfold TlabState.weight
    split
    · exact Int.one_nonneg
    · exact Int.le_refl 0
  have hzero := (Finset.sum_eq_zero_iff_of_nonneg hnonneg).1 (h.active.symm.trans h0) t (Finset.mem_univ t)
  rw [ht] at hzero
  cases hzero

omit [DecidableEq T] in
lemma exists_registered (h0 : r.activeTlabs ≠ 0) : ∃ t, r.tlab t = .registered := by
  by_contra hnone
  apply h0
  rw [h.active]
  exact Finset.sum_eq_zero fun t _ => if_neg fun ht => hnone ⟨t, ht⟩

omit [DecidableEq T] in
lemma flag_false (hr : r.retire = .cleared ∨ r.retire = .tested) : r.isGenAllocRegion = false := by
  rw [← Bool.not_eq_true, h.flag]
  rcases hr with hr | hr
  · simp [hr]
  · simp [hr]

lemma setTlab (t st) {d} (hd : st.weight = (r.tlab t).weight + d) :
    Counted { r.setTlab t st with activeTlabs := r.activeTlabs + d } := by
  refine ⟨?_, h.flag⟩
  show r.activeTlabs + d = ∑ t', (update r.tlab t st t').weight
  rw [sum_update_add r.tlab t st TlabState.weight hd, h.active]

lemma setTlab_of_weight (t st) (hd : st.weight = (r.tlab t).weight) : (r.setTlab t st).Counted := by
  have h' := h.setTlab t st (hd.trans (add_zero _).symm)
  rw [add_zero] at h'
  exact h'

lemma step (hstep : r.step e = some r') : r'.Counted := by
  cases takes_of_step hstep with
  | carve ht hactive => exact h.setTlab_of_weight _ .carved (by rw [ht]; rfl)
  | register ht => exact h.setTlab _ .registered (by rw [ht]; rfl)
  | decrement ht => exact h.setTlab _ .decremented (by rw [ht]; rfl)
  | readZero ht h0 => exact h.setTlab_of_weight _ .readZero (by rw [ht]; rfl)
  | readOthers ht h0 => exact h.setTlab_of_weight _ .closed (by rw [ht]; rfl)
  | readSet ht hset => exact h.setTlab_of_weight _ .closed (by rw [ht]; rfl)
  | readCleared ht hclear =>
    have h' := h.setTlab_of_weight _ .closed (by rw [ht]; rfl)
    exact ⟨h'.active, h'.flag⟩
  | fillUp hr => exact ⟨h.active, by simp [h.flag, hr]⟩
  | clearFlag hr => exact ⟨h.active, by simp⟩
  | testZero hr h0 => exact ⟨h.active, by simp [enqueueMr, h.flag_false (.inl hr)]⟩
  | testOthers hr h0 => exact ⟨h.active, by simp [h.flag_false (.inl hr)]⟩

end

end Counted

omit [DecidableEq T] in
lemma start_counted : (start : GenRegion T).Counted := ⟨by simp [start, TlabState.weight], by simp [start]⟩

/-! ## Not too early -/

def Settled (tlab : T → TlabState) : Prop :=
  (∀ t, tlab t ≠ .carved) ∧ ((∃ t, tlab t = .readZero) → ∀ t, ¬ (tlab t).Open)

instance (tlab : T → TlabState) : Decidable (Settled tlab) := by
  unfold Settled
  infer_instance

def ClearsSettled (r : GenRegion T) : Step T → Prop
  | .clearFlag => Settled r.tlab
  | _ => True

instance (r : GenRegion T) (e : Step T) : Decidable (r.ClearsSettled e) := by
  cases e <;> unfold ClearsSettled <;> infer_instance

omit [Fintype T] in
lemma Settled.update {tlab} (h : Settled tlab) (t : T) {st} (hst : ¬ st.Open)
    (hzero : st ≠ .readZero) : Settled (update tlab t st) := by
  refine ⟨?_, ?_⟩
  · intro t'
    rcases eq_or_ne t' t with rfl | ht
    · rw [update_self]
      exact fun hc => hst (.inl hc)
    · rw [update_of_ne ht]
      exact h.1 t'
  · rintro ⟨t0, ht0⟩ t'
    rcases eq_or_ne t0 t with rfl | hne
    · rw [update_self] at ht0
      exact absurd ht0 hzero
    rw [update_of_ne hne] at ht0
    rcases eq_or_ne t' t with rfl | ht
    · rw [update_self]
      exact hst
    · rw [update_of_ne ht]
      exact h.2 ⟨t0, ht0⟩ t'

omit [Fintype T] in
lemma Settled.update_readZero {tlab} (h : Settled tlab) (t : T)
    (hreg : ∀ t, tlab t ≠ .registered) : Settled (Function.update tlab t .readZero) := by
  have hopen : ∀ t', ¬ (Function.update tlab t .readZero t').Open := by
    intro t'
    rcases eq_or_ne t' t with rfl | ht
    · rw [update_self]
      decide
    · rw [update_of_ne ht]
      rintro (hc | hr)
      · exact h.1 t' hc
      · exact hreg t' hr
  exact ⟨fun t' hc => hopen t' (.inl hc), fun _ => hopen⟩

structure Orderly (r : GenRegion T) : Prop where
  counted : r.Counted
  settled : r.isGenAllocRegion = false → Settled r.tlab

lemma Orderly.step (h : r.Orderly) (hstep : guarded ClearsSettled GenRegion.step r e = some r') : r'.Orderly := by
  obtain ⟨hok, hstep⟩ := guarded_some hstep
  refine ⟨h.counted.step hstep, ?_⟩
  intro hflag
  cases takes_of_step hstep with
  | carve ht hactive => exact absurd (h.counted.flag.2 (.inl hactive)) (Bool.not_eq_true _ ▸ hflag)
  | register ht => exact absurd ht ((h.settled hflag).1 _)
  | decrement ht => exact (h.settled hflag).update _ (by decide) (by decide)
  | readZero ht h0 => exact (h.settled hflag).update_readZero _ (h.counted.ne_registered h0)
  | readOthers ht h0 => exact (h.settled hflag).update _ (by decide) (by decide)
  | readSet ht hset => exact (h.settled hflag).update _ (by decide) (by decide)
  | readCleared ht hclear => exact (h.settled hclear).update _ (by decide) (by decide)
  | fillUp hr => exact h.settled hflag
  | clearFlag hr => exact hok
  | testZero hr h0 => exact h.settled hflag
  | testOthers hr h0 => exact h.settled hflag

omit [DecidableEq T] in
lemma Orderly.enqueues (h : r.Orderly) (he : r.enqueues e) : r.isGenAllocRegion = false ∧ ∀ t, ¬ (r.tlab t).Open := by
  cases e with
  | readFlag t => exact ⟨he.2, (h.settled he.2).2 ⟨t, he.1⟩⟩
  | testActive =>
    have hflag := h.counted.flag_false (.inl he.1)
    refine ⟨hflag, fun t => ?_⟩
    rintro (hc | hr)
    · exact (h.settled hflag).1 t hc
    · exact h.counted.ne_registered he.2 t hr
  | _ => exact he.elim

/-! ## Not missed -/

structure Attended (r : GenRegion T) : Prop where
  counted : r.Counted
  pending : r.retire = .tested → 0 < r.enqueued ∨ ∃ t, r.tlab t ≠ .unused ∧ r.tlab t ≠ .closed

omit [Fintype T] in
lemma tlab_setTlab (r : GenRegion T) (t : T) (st : TlabState) : (r.setTlab t st).tlab t = st := by simp [setTlab]

omit [Fintype T] in
lemma tlab_setTlab_of_ne (r : GenRegion T) {t t'} (h : t' ≠ t) (st : TlabState) :
    (r.setTlab t st).tlab t' = r.tlab t' := by
  simp [setTlab, h]

omit [Fintype T] in
lemma exists_setTlab (r : GenRegion T) (t : T) {st} (hst : st ≠ .unused ∧ st ≠ .closed) :
    ∃ t', (r.setTlab t st).tlab t' ≠ .unused ∧ (r.setTlab t st).tlab t' ≠ .closed := by
  refine ⟨t, ?_⟩
  rw [tlab_setTlab]
  exact hst

lemma Attended.step (h : r.Attended) (hstep : r.step e = some r') : r'.Attended := by
  refine ⟨h.counted.step hstep, ?_⟩
  intro htested
  cases takes_of_step hstep with
  | carve ht hactive => exact .inr (exists_setTlab r _ (by decide))
  | register ht => exact .inr (exists_setTlab r _ (by decide))
  | decrement ht => exact .inr (exists_setTlab r _ (by decide))
  | readZero ht h0 => exact .inr (exists_setTlab r _ (by decide))
  | @readOthers t ht h0 =>
    -- The counter is not 0, so another TLAB is registered.
    obtain ⟨t0, ht0⟩ := h.counted.exists_registered h0
    have hne : t0 ≠ t := by
      rintro rfl
      rw [ht] at ht0
      cases ht0
    refine .inr ⟨t0, ?_⟩
    rw [tlab_setTlab_of_ne r hne, ht0]
    decide
  | readSet ht hset => exact absurd hset (Bool.not_eq_true _ ▸ h.counted.flag_false (.inr htested))
  | readCleared ht hclear => exact .inl (Nat.succ_pos _)
  | fillUp hr => cases htested
  | clearFlag hr => cases htested
  | testZero hr h0 => exact .inl (Nat.succ_pos _)
  | testOthers hr h0 =>
    obtain ⟨t0, ht0⟩ := h.counted.exists_registered h0
    refine .inr ⟨t0, ?_⟩
    show r.tlab t0 ≠ .unused ∧ r.tlab t0 ≠ .closed
    rw [ht0]
    decide

/-! ## Runs -/

/-- If the flag is only cleared when the region is settled, the cards are enqueued after it is no longer an allocation
region and no TLAB is open. In every run the cards are enqueued by the time the region is retired and all its TLABs are
closed. -/
theorem cards_published (es : List (Step T)) :
    (run (guarded ClearsSettled GenRegion.step) start es = some r → ∀ e, r.enqueues e →
      r.isGenAllocRegion = false ∧ ∀ t, ¬ (r.tlab t).Open) ∧
    (run GenRegion.step start es = some r → r.retire = .tested → (∀ t, r.tlab t = .unused ∨ r.tlab t = .closed) →
      0 < r.enqueued) := by
  constructor
  · intro hrun e he
    have horderly : r.Orderly := run_invariant Orderly (fun _ => True) (fun _ _ _ h _ hstep => h.step hstep)
      ⟨start_counted, fun hflag => by cases hflag⟩ (fun _ _ => trivial) hrun
    exact horderly.enqueues he
  intro hrun htested hclosed
  have hattended : r.Attended := run_invariant Attended (fun _ => True) (fun _ _ _ h _ hstep => h.step hstep)
    ⟨start_counted, fun htested => by cases htested⟩ (fun _ _ => trivial) hrun
  rcases hattended.pending htested with hpos | ⟨t, hunused, hne⟩
  · exact hpos
  · rcases hclosed t with ht | ht
    · exact absurd ht hunused
    · exact absurd ht hne

/-- A TLAB is carved but not yet registered when the region is retired: its cards are enqueued while it is open. -/
theorem cards_published_early : ∃ r : GenRegion Unit,
    run GenRegion.step start [.carve (), .fillUp, .clearFlag] = some r ∧ r.enqueues .testActive ∧ (r.tlab ()).Open :=
  ⟨_, rfl, by decide, by decide⟩

theorem cards_published_oneTlab : ∃ r : GenRegion Unit,
    run (guarded ClearsSettled GenRegion.step) start [.carve (), .register (), .fillUp, .clearFlag, .testActive,
      .decrement (), .readActive ()] = some r ∧ r.enqueues (.readFlag ()) ∧ r.isGenAllocRegion = false :=
  ⟨_, rfl, by decide, ((cards_published [.carve (), .register (), .fillUp, .clearFlag, .testActive, .decrement (),
    .readActive ()]).1 rfl (.readFlag ()) (by decide)).1⟩

end GenRegion

end Rolp.Heap
