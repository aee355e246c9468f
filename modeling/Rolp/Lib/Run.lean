import Mathlib.Algebra.BigOperators.Group.List.Basic
import Mathlib.Data.List.FinRange
import Mathlib.Algebra.Ring.Nat

/-!
# Runs of a partial step function

`run step s es` makes the steps of the events `es` from `s`. It is `none` as soon as one step is undefined. The rules
carry facts about one step over to runs.
-/

namespace Rolp.Lib

open List Option

variable {S E : Type} {step : S → E → Option S}

def run (step : S → E → Option S) (s : S) (es : List E) : Option S := es.foldlM step s

@[simp] lemma run_nil (s) : run step s [] = some s := rfl

@[simp] lemma run_cons (s e es) : run step s (e :: es) = (step s e).bind fun s' => run step s' es := rfl

lemma run_append (s es es') : run step s (es ++ es') = (run step s es).bind fun s' => run step s' es' := foldlM_append

variable {s s' : S} {es : List E} {e : E}

lemma run_trans {s1 es'} (h : run step s es = some s1) (h' : run step s1 es' = some s') :
    run step s (es ++ es') = some s' := by
  rw [run_append, h, bind_some, h']

lemma run_snoc {s1} (h : run step s es = some s1) (he : step s1 e = some s') : run step s (es ++ [e]) = some s' := by
  rw [run_append, h, bind_some, run_cons, he, bind_some, run_nil]

lemma run_cons_some (h : run step s (e :: es) = some s') : ∃ s1, step s e = some s1 ∧ run step s1 es = some s' := by
  simpa [bind_eq_some_iff] using h

variable (Inv : S → Prop) (Ok : E → Prop)

lemma run_invariant (hstep : ∀ s e s', Inv s → Ok e → step s e = some s' → Inv s') (hs : Inv s)
    (hes : ∀ e ∈ es, Ok e) (h : run step s es = some s') : Inv s' := by
  induction es generalizing s with
  | nil =>
    cases h
    exact hs
  | cons e es ih =>
    obtain ⟨s1, h1, h2⟩ := run_cons_some h
    exact ih (hstep s e s1 hs (hes e (by simp)) h1) (fun e' he' => hes e' (by simp [he'])) h2

lemma run_defined (hstep : ∀ s e, Inv s → Ok e → ∃ s', step s e = some s' ∧ Inv s') (hs : Inv s)
    (hes : ∀ e ∈ es, Ok e) : ∃ s', run step s es = some s' ∧ Inv s' := by
  induction es generalizing s with
  | nil => exact ⟨s, rfl, hs⟩
  | cons e es ih =>
    obtain ⟨s1, h1, hi1⟩ := hstep s e hs (hes e (by simp))
    obtain ⟨s', h', hi'⟩ := ih hi1 (fun e' he' => hes e' (by simp [he']))
    exact ⟨s', by simpa [h1] using h', hi'⟩

def guarded (Ok : S → E → Prop) [∀ s e, Decidable (Ok s e)] (step : S → E → Option S) (s : S) (e : E) : Option S :=
  if Ok s e then step s e else none

variable {Ok : S → E → Prop}

lemma guarded_some [∀ s e, Decidable (Ok s e)] (h : guarded Ok step s e = some s') : Ok s e ∧ step s e = some s' := by
  unfold guarded at h
  split at h
  next hok => exact ⟨hok, h⟩
  · cases h

lemma guarded_of_ok [∀ s e, Decidable (Ok s e)] (h : Ok s e)
    (he : step s e = some s') : guarded Ok step s e = some s' := (if_pos h).trans he

lemma run_of_guarded [∀ s e, Decidable (Ok s e)]
    (h : run (guarded Ok step) s es = some s') : run step s es = some s' := by
  induction es generalizing s with
  | nil => exact h
  | cons e es ih =>
    obtain ⟨s1, h1, h2⟩ := run_cons_some h
    rw [run_cons, (guarded_some h1).2]
    exact ih h2

lemma run_establishes (Inv P : S → Prop) (Cause : E → Prop)
    (hinv : ∀ s e s', Inv s → step s e = some s' → Inv s') (hkeep : ∀ s e s', P s → step s e = some s' → P s')
    (hcause : ∀ s e s', Inv s → Cause e → step s e = some s' → P s') (hs : Inv s)
    (hes : ∃ e ∈ es, Cause e) (h : run step s es = some s') : P s' := by
  induction es generalizing s with
  | nil =>
    obtain ⟨e, he, -⟩ := hes
    cases he
  | cons e es ih =>
    obtain ⟨s1, h1, h2⟩ := run_cons_some h
    obtain ⟨e', he', hc⟩ := hes
    rcases mem_cons.1 he' with rfl | he'
    · exact run_invariant P (fun _ => True) (fun s e s' hp _ => hkeep s e s' hp) (hcause s e' s1 hs hc h1)
        (fun _ _ => trivial) h2
    · exact ih (hinv s e s1 hs h1) ⟨e', he', hc⟩ h2

lemma run_ledger {M : Type} [AddMonoid M] (Inv : S → Prop) (Ok : E → Prop) (total : S → M) (weight : E → M)
    (hstep : ∀ s e, Inv s → Ok e → ∃ s', step s e = some s' ∧ Inv s' ∧ total s' = total s + weight e)
    (hs : Inv s) (hes : ∀ e ∈ es, Ok e) :
    ∃ s', run step s es = some s' ∧ Inv s' ∧ total s' = total s + (es.map weight).sum := by
  induction es generalizing s with
  | nil => exact ⟨s, rfl, hs, by simp⟩
  | cons e es ih =>
    obtain ⟨s1, h1, hi1, ht1⟩ := hstep s e hs (hes e (by simp))
    obtain ⟨s', h', hi', ht'⟩ := ih hi1 (fun e' he' => hes e' (by simp [he']))
    refine ⟨s', by simpa [h1] using h', hi', ?_⟩
    rw [ht', ht1, map_cons, sum_cons, add_assoc]

/-! ## Results of a sequence of operations -/

def results {O : Type} (step : S → E → S × O) (s : S) : List E → S × List O
  | [] => (s, [])
  | e :: es =>
    let (s', o) := step s e
    let (s'', os) := results step s' es
    (s'', o :: os)

lemma results_eq_of_simulation {A O : Type} {step : S → E → S × O} {spec : A → E → A × O} (R : S → A → Prop)
    (Ok : E → Prop) (h : ∀ s a e, R s a → Ok e → (step s e).2 = (spec a e).2 ∧ R (step s e).1 (spec a e).1) {a : A}
    (hs : R s a) (hes : ∀ e ∈ es, Ok e) :
    (results step s es).2 = (results spec a es).2 ∧ R (results step s es).1 (results spec a es).1 := by
  induction es generalizing s a with
  | nil => exact ⟨rfl, hs⟩
  | cons e es ih =>
    obtain ⟨ho, hr⟩ := h s a e hs (hes e (by simp))
    obtain ⟨hos, hrs⟩ := ih hr fun e' he' => hes e' (by simp [he'])
    exact ⟨congrArg₂ cons ho hos, hrs⟩

/-- `P` holds of every operation in a sequence, together with the operations before it. -/
def AtEach (P : List E → E → Prop) (es : List E) : Prop := ∀ before e after, es = before ++ e :: after → P before e

lemma atEach_nil (P : List E → E → Prop) : AtEach P [] := by
  intro before e after h
  cases before <;> cases h

lemma atEach_cons {P : List E → E → Prop} :
    AtEach P (e :: es) ↔ P [] e ∧ AtEach (fun before => P (e :: before)) es := by
  constructor
  · intro h
    refine ⟨h [] e es rfl, fun before e' after heq => h (e :: before) e' after ?_⟩
    rw [heq]
    rfl
  rintro ⟨hnil, hcons⟩ before e' after heq
  cases before with
  | nil =>
    cases heq
    exact hnil
  | cons e'' before =>
    cases heq
    exact hcons before e' after rfl

lemma atEach_snoc {P : List E → E → Prop} (h : AtEach P es) (he : P es e) : AtEach P (es ++ [e]) := by
  intro before e' after heq
  rcases eq_nil_or_concat after with rfl | ⟨after', e'', rfl⟩
  · obtain ⟨rfl, hcons⟩ := append_inj' heq rfl
    cases hcons
    exact he
  · rw [concat_eq_append, ← cons_append, ← append_assoc] at heq
    exact h before e' after' (append_inj' heq rfl).1

/-! ## Loops over an index -/

lemma run_drop_finRange {n step} (Inv : Nat → S → Prop) (Fails : Prop)
    (hstep : ∀ (k : Fin n) s, Inv k s → (∃ s', step s k = some s' ∧ Inv (k + 1) s') ∨ (step s k = none ∧ Fails))
    (m k : Nat) (hk : k + m = n) (hs : Inv k s) : (∃ s', run step s ((List.finRange n).drop k) = some s' ∧ Inv n s') ∨
      (run step s ((List.finRange n).drop k) = none ∧ Fails) := by
  induction m generalizing k s with
  | zero =>
    have hlen : (finRange n).length ≤ k := by simp [← hk]
    rw [drop_eq_nil_of_le hlen]
    exact .inl ⟨s, rfl, hk ▸ hs⟩
  | succ m ih =>
    have hlt : k < n := by omega
    have hdrop : (finRange n).drop k = ⟨k, hlt⟩ :: (finRange n).drop (k + 1) := by
      rw [drop_eq_getElem_cons (by simpa using hlt)]
      simp
    rw [hdrop, run_cons]
    obtain ⟨s1, h1, hi⟩ | ⟨hnone, hf⟩ := hstep ⟨k, hlt⟩ s hs
    · rw [h1]
      exact ih (k + 1) (by omega) hi
    · rw [hnone]
      exact .inr ⟨rfl, hf⟩

/-- An invariant at the start of each iteration over the indices below `n` holds after the last one, unless the loop is
left early. -/
lemma run_finRange {n step} (Inv : Nat → S → Prop) (Fails : Prop)
    (hstep : ∀ (k : Fin n) s, Inv k s → (∃ s', step s k = some s' ∧ Inv (k + 1) s') ∨ (step s k = none ∧ Fails))
    (hs : Inv 0 s) :
    (∃ s', run step s (List.finRange n) = some s' ∧ Inv n s') ∨ (run step s (List.finRange n) = none ∧ Fails) :=
  run_drop_finRange Inv Fails hstep n 0 (by omega) hs

end Rolp.Lib
