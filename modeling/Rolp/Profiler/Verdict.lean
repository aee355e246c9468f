import Rolp.Profiler.Tables
import Mathlib.Data.Finset.Max

/-!
# What the analysis of a curve finds

Over the rationals the loops find the ages at which the curve declines by a tenth of the allocations.
-/

namespace Rolp.Profiler

open Rolp.Lib Nat

/-! ## Verdicts -/

section Verdict

variable {n : Nat} (P : Fin n → Prop) (f : Fin n → ℚ)

def Gapless : Prop := ∀ i j k, i < j → j < k → P i → P k → P j

def FirstSteepest (i : Fin n) : Prop := P i ∧ ∀ j, P j → f j ≤ f i ∧ (j < i → f j < f i)

structure Verdict (r : Int) : Prop where
  conflict : r = -1 ↔ ¬ Gapless P
  none : (∀ i, ¬ P i) → r = 0
  age : Gapless P → ∀ i, FirstSteepest P f i → r = i.val

variable {P f}

lemma FirstSteepest.unique {i j} (hi : FirstSteepest P f i) (hj : FirstSteepest P f j) : i = j := by
  rcases lt_trichotomy i j with hlt | heq | hgt
  · exact absurd ((hj.2 i hi.1).2 hlt) (not_lt.2 (hi.2 j hj.1).1)
  · exact heq
  · exact absurd ((hi.2 j hj.1).2 hgt) (not_lt.2 (hj.2 i hi.1).1)

lemma exists_firstSteepest {i} (hi : P i) : ∃ j, FirstSteepest P f j := by
  classical
  obtain ⟨m, hm, hmax⟩ := (Finset.univ.filter P).exists_max_image f ⟨i, by simpa using hi⟩
  obtain ⟨first, hfirst, hmin⟩ := ((Finset.univ.filter P).filter fun j => f j = f m).exists_min_image id
    ⟨m, by simpa using hm⟩
  simp only [Finset.mem_filter, Finset.mem_univ, true_and] at hfirst hmin hmax
  refine ⟨first, hfirst.1, fun j hj => ?_⟩
  rw [hfirst.2]
  refine ⟨hmax j hj, fun hlt => lt_of_le_of_ne (hmax j hj) fun heq => ?_⟩
  exact absurd (hmin j ⟨hj, heq⟩) (not_le.2 hlt)

end Verdict

/-! ## The loops over the rationals -/

def ratArith : Arith ℚ where
  zero := 0
  quot := fun x y => (x.toNat : ℚ) / y.toNat
  sub := fun x y => x - y
  aboveNegTenth := fun x => decide (-(1 / 10) < x)
  nonzero := fun x => decide (x ≠ 0)
  lt := fun x y => decide (x < y)

section Scan

variable {d : Fin ng2cGenArraySize → ℚ}

structure Scanned (d : Fin ng2cGenArraySize → ℚ) (k : Nat) (s : Nat × Fin ng2cGenArraySize) : Prop where
  gapless : Gapless fun i => i.val < k ∧ d i ≠ 0
  found : (s = (ng2cGenArraySize, 0) ∧ ∀ i, i.val < k → d i = 0) ∨
    (∃ last : Fin ng2cGenArraySize, s.1 = last.val ∧ last.val < k ∧ d last ≠ 0 ∧ ∀ i, i.val < k → d i ≠ 0 → i ≤ last) ∧
    FirstSteepest (fun i => i.val < k ∧ d i ≠ 0) (fun i => -d i) s.2

lemma scanned_zero : Scanned d 0 (ng2cGenArraySize, 0) where
  gapless := by
    intro i j k _ _ hi
    exact absurd hi.1 (not_lt_zero _)
  found := .inl ⟨rfl, fun i hi => absurd hi (not_lt_zero _)⟩

variable {k : Fin ng2cGenArraySize}

lemma below_succ_iff (hk : d k = 0) (i) : (i.val < k.val + 1 ∧ d i ≠ 0) ↔ (i.val < k.val ∧ d i ≠ 0) := by
  constructor
  · rintro ⟨hlt, hi⟩
    refine ⟨lt_of_le_of_ne (Nat.lt_succ_iff.1 hlt) fun heq => hi ?_, hi⟩
    rw [Fin.ext heq, hk]
  · rintro ⟨hlt, hi⟩
    exact ⟨lt_succ_of_lt hlt, hi⟩

lemma Scanned.skip {s} (h : Scanned d k s) (hk : d k = 0) : Scanned d (k + 1) s := by
  have hiff := below_succ_iff hk
  refine ⟨by simpa only [hiff] using h.gapless, ?_⟩
  rcases h.found with ⟨hs, hnone⟩ | ⟨⟨last, hs, hlt, hne, hmax⟩, hsteep⟩
  · refine .inl ⟨hs, fun i hi => ?_⟩
    by_contra hne
    exact hne (hnone i ((hiff i).1 ⟨hi, hne⟩).1)
  · refine .inr ⟨⟨last, hs, lt_succ_of_lt hlt, hne, fun i hi hi0 => ?_⟩, by simpa only [hiff] using hsteep⟩
    exact hmax i ((hiff i).1 ⟨hi, hi0⟩).1 hi0

lemma Scanned.take_first (hnone : ∀ i : Fin ng2cGenArraySize, i.val < k.val → d i = 0) (hk : d k < 0) :
    Scanned d (k + 1) (k.val, if d k < d 0 then k else 0) := by
  have honly : ∀ i : Fin ng2cGenArraySize, i.val < k.val + 1 → d i ≠ 0 → i = k := by
    intro i hi hne
    rcases Nat.lt_succ_iff_lt_or_eq.1 hi with hlt | heq
    · exact absurd (hnone i hlt) hne
    · exact Fin.ext heq
  have hmin : (if d k < d 0 then k else 0) = k := by
    by_cases h0 : k = 0
    · subst h0
      simp
    · rw [if_pos]
      rw [hnone 0 (Fin.pos_iff_ne_zero.2 h0)]
      exact hk
  refine ⟨?_, .inr ⟨⟨k, rfl, lt_succ_self _, hk.ne, fun i hi hne => (honly i hi hne).le⟩, ?_⟩⟩
  · intro i j l hij hjl hi hl
    have hik := honly i hi.1 hi.2
    have hlk := honly l hl.1 hl.2
    rw [hik] at hij
    rw [hlk] at hjl
    exact absurd (hij.trans hjl) (lt_irrefl _)
  · rw [hmin]
    refine ⟨⟨lt_succ_self _, hk.ne⟩, fun j hj => ?_⟩
    rw [honly j hj.1 hj.2]
    exact ⟨le_rfl, fun h => absurd h (lt_irrefl _)⟩

lemma Scanned.take_next {last min} (hgap : Gapless fun i : Fin ng2cGenArraySize => i.val < k.val ∧ d i ≠ 0)
    (hlast : d last ≠ 0) (hmax : ∀ i : Fin ng2cGenArraySize, i.val < k.val → d i ≠ 0 → i ≤ last)
    (hsteep : FirstSteepest (fun i : Fin ng2cGenArraySize => i.val < k.val ∧ d i ≠ 0) (fun i => -d i) min)
    (hk : d k < 0) (hnext : k.val = last.val + 1) : Scanned d (k + 1) (k.val, if d k < d min then k else min) := by
  have hcases : ∀ i : Fin ng2cGenArraySize, i.val < k.val + 1 → i.val < k.val ∨ i = k := by
    intro i hi
    exact (Nat.lt_succ_iff_lt_or_eq.1 hi).imp_right Fin.ext
  refine ⟨?_, .inr ⟨⟨k, rfl, lt_succ_self _, hk.ne, fun i hi _ => Nat.lt_succ_iff.1 hi⟩, ?_⟩⟩
  · intro i j l hij hjl hi hl
    have hjk : j.val < k.val := lt_of_lt_of_le hjl (Nat.lt_succ_iff.1 hl.1)
    have hik : i.val < k.val := lt_trans hij hjk
    refine ⟨lt_succ_of_lt hjk, ?_⟩
    rcases hcases l hl.1 with hlk | rfl
    · exact (hgap i j l hij hjl ⟨hik, hi.2⟩ ⟨hlk, hl.2⟩).2
    have hjlast : j ≤ last := Fin.le_def.2 (by omega)
    rcases lt_or_eq_of_le hjlast with hlt | rfl
    · have hlk : last.val < l.val := by omega
      exact (hgap i j last hij hlt ⟨hik, hi.2⟩ ⟨hlk, hlast⟩).2
    · exact hlast
  · obtain ⟨⟨hminlt, hminne⟩, hall⟩ := hsteep
    by_cases hlt : d k < d min
    · rw [if_pos hlt]
      refine ⟨⟨lt_succ_self _, hk.ne⟩, fun j hj => ?_⟩
      rcases hcases j hj.1 with hjk | rfl
      · have hle := (hall j ⟨hjk, hj.2⟩).1
        exact ⟨by linarith, fun _ => by linarith⟩
      · exact ⟨le_rfl, fun h => absurd h (lt_irrefl _)⟩
    · rw [if_neg hlt]
      refine ⟨⟨lt_succ_of_lt hminlt, hminne⟩, fun j hj => ?_⟩
      rcases hcases j hj.1 with hjk | rfl
      · exact hall j ⟨hjk, hj.2⟩
      · exact ⟨by linarith, fun h => absurd h (not_lt.2 hminlt.le)⟩

lemma Scanned.step (hneg : ∀ i, d i ≤ 0) (k : Fin ng2cGenArraySize) (s : Nat × Fin ng2cGenArraySize)
    (h : Scanned d k s) : (∃ s', analyzeAge ratArith d s k = some s' ∧ Scanned d (k + 1) s') ∨
      (analyzeAge ratArith d s k = none ∧ ¬ Gapless fun i => d i ≠ 0) := by
  obtain ⟨segm, min⟩ := s
  by_cases hk : d k = 0
  · exact .inl ⟨_, by simp [analyzeAge, ratArith, hk], h.skip hk⟩
  have hlt : d k < 0 := lt_of_le_of_ne (hneg k) hk
  rcases h.found with ⟨hs, hnone⟩ | ⟨⟨last, hs, hlastlt, hlast, hmax⟩, hsteep⟩
  · cases hs
    exact .inl ⟨_, by simp [analyzeAge, ratArith, hk], Scanned.take_first hnone hlt⟩
  obtain rfl : segm = last.val := hs
  by_cases hnext : k.val = last.val + 1
  · exact .inl ⟨_, by simp [analyzeAge, ratArith, hk, hnext], Scanned.take_next h.gapless hlast hmax hsteep hlt hnext⟩
  · refine .inr ⟨by simp [analyzeAge, ratArith, hk, hnext, last.isLt.ne], fun hgap => ?_⟩
    -- The age after the last one of the segment is the gap.
    have hafter : last.val + 1 < k.val := by omega
    have hgapAt := hgap last ⟨last.val + 1, by omega⟩ k (Fin.lt_def.2 (lt_succ_self _)) hafter hlast hk
    exact absurd (hmax ⟨last.val + 1, by omega⟩ hafter hgapAt) (not_le.2 (lt_succ_self _))

lemma Scanned.verdict {s} (h : Scanned d ng2cGenArraySize s) :
    Verdict (fun i => d i ≠ 0) (fun i => -d i) s.2.val := by
  have hall : (fun i : Fin ng2cGenArraySize => i.val < ng2cGenArraySize ∧ d i ≠ 0) = fun i => d i ≠ 0 := by
    funext i
    simp
  have hgap := h.gapless
  have hfound := h.found
  rw [hall] at hgap hfound
  refine ⟨⟨fun hr => ?_, fun hn => absurd hgap hn⟩, fun hnone => ?_, fun _ i hi => ?_⟩
  · omega
  · rcases hfound with ⟨hs, -⟩ | ⟨⟨last, -, -, hlast, -⟩, -⟩
    · rw [hs]
      rfl
    · exact absurd hlast (hnone last)
  · rcases hfound with ⟨-, hzero⟩ | ⟨-, hsteep⟩
    · exact absurd (hzero i i.isLt) hi.1
    · rw [hsteep.unique hi]

end Scan

variable (curve : Curve)

lemma verdict_of_derivative (hneg : ∀ i, derivative ratArith (normalized ratArith curve) i ≤ 0) :
    Verdict (fun i => derivative ratArith (normalized ratArith curve) i ≠ 0)
      (fun i => -derivative ratArith (normalized ratArith curve) i) (normalizeDeriveAnalyze ratArith curve) := by
  unfold normalizeDeriveAnalyze
  obtain ⟨s, hs, hscan⟩ | ⟨hnone, hgap⟩ := run_finRange (Scanned _) _ (Scanned.step hneg) scanned_zero
  · rw [hs]
    exact hscan.verdict
  · rw [hnone]
    refine ⟨iff_of_true rfl hgap, fun hno => ?_, fun h => absurd h hgap⟩
    exact absurd (fun i j k _ _ hi => absurd hi (hno i)) hgap

/-! ## Declines of a curve -/

variable (i : Fin ng2cGenArraySize)

def entry : ℚ := (curve i).toNat

/-- The objects that die between the age `i` and the next one. -/
def drop : ℚ :=
  if h : i.val + 1 < ng2cGenArraySize then entry curve i - entry curve ⟨i.val + 1, h⟩ else 0

def Declines : Prop :=
  i.val + 1 < ng2cGenArraySize ∧ 1 / 10 ≤ drop curve i / entry curve 0

def withoutOldest : Curve := Function.update curve 15 0

variable {i : Fin ng2cGenArraySize}

lemma entry_withoutOldest (h : i ≠ 15) (curve) : entry (withoutOldest curve) i = entry curve i := by
  rw [entry, withoutOldest, Function.update_of_ne h, entry]

lemma entry_withoutOldest_last : entry (withoutOldest curve) 15 = 0 := by rfl

lemma normalized_eq (i) : normalized ratArith curve i = entry (withoutOldest curve) i / entry curve 0 := by
  unfold normalized
  by_cases hi : i = 15
  · subst hi
    rw [entry_withoutOldest_last, zero_div]
    rfl
  · have hlt : i.val < ng2cGenArraySize - 1 := lt_of_le_of_ne (Nat.lt_succ_iff.1 i.isLt) fun h => hi (Fin.ext h)
    rw [entry_withoutOldest hi]
    by_cases h0 : curve i = 0
    · rw [entry, h0]
      simp [ratArith]
    · rw [if_pos ⟨hlt, h0⟩]
      rfl

lemma derivative_eq (i) [Decidable (Declines (withoutOldest curve) i)] :
    derivative ratArith (normalized ratArith curve) i =
      if Declines (withoutOldest curve) i then -(drop (withoutOldest curve) i / entry curve 0) else 0 := by
  have h0 : entry (withoutOldest curve) 0 = entry curve 0 := entry_withoutOldest (by decide) curve
  unfold derivative
  by_cases hi : i.val + 1 < ng2cGenArraySize
  · have hd : normalized ratArith curve ⟨i.val + 1, hi⟩ - normalized ratArith curve i =
        -(drop (withoutOldest curve) i / entry curve 0) := by
      rw [normalized_eq, normalized_eq, drop, dif_pos hi, ← sub_div, ← neg_div, neg_sub]
    have habove : ratArith.aboveNegTenth (-(drop (withoutOldest curve) i / entry curve 0)) =
        decide (drop (withoutOldest curve) i / entry curve 0 < 1 / 10) := by
      simp only [ratArith, neg_lt_neg_iff]
    rw [dif_pos hi]
    simp only [show ratArith.sub = fun x y => x - y from rfl, hd, habove, decide_eq_true_eq]
    by_cases hdec : Declines (withoutOldest curve) i
    · rw [if_pos hdec, if_neg (not_lt.2 (h0 ▸ hdec.2))]
    · rw [if_neg hdec, if_pos]
      · rfl
      · exact not_le.1 fun hle => hdec ⟨hi, hle⟩
  · rw [dif_neg hi, if_neg fun hdec => hi hdec.1]
    rfl

variable {curve : Curve}

lemma Declines.drop_pos (hpos : 0 < entry curve 0) (h : Declines curve i) : 0 < drop curve i := by
  have hdiv : 0 < drop curve i / entry curve 0 := lt_of_lt_of_le (by norm_num) h.2
  rw [← div_mul_cancel₀ (drop curve i) hpos.ne']
  exact mul_pos hdiv hpos

lemma verdict_withoutOldest (hpos : 0 < entry curve 0) :
    Verdict (Declines (withoutOldest curve)) (drop (withoutOldest curve)) (normalizeDeriveAnalyze ratArith curve) := by
  classical
  have h0 : entry (withoutOldest curve) 0 = entry curve 0 := entry_withoutOldest (by decide) curve
  have hdrop : ∀ i, Declines (withoutOldest curve) i → 0 < drop (withoutOldest curve) i / entry curve 0 :=
    fun i hi => div_pos (hi.drop_pos (h0.symm ▸ hpos)) hpos
  have hne : (fun i => derivative ratArith (normalized ratArith curve) i ≠ 0) = Declines (withoutOldest curve) := by
    funext i
    rw [derivative_eq]
    by_cases hi : Declines (withoutOldest curve) i
    · simp [(hdrop i hi).ne']
    · simp [hi]
  have hneg (i) : derivative ratArith (normalized ratArith curve) i ≤ 0 := by
    rw [derivative_eq]
    split
    next hi => exact neg_nonpos.2 (hdrop i hi).le
    · exact le_refl 0
  have hverdict := verdict_of_derivative curve hneg
  rw [hne] at hverdict
  refine ⟨hverdict.conflict, hverdict.none, fun hgap i hi => hverdict.age hgap i ⟨hi.1, fun j hj => ?_⟩⟩
  beta_reduce
  rw [derivative_eq, derivative_eq, if_pos hi.1, if_pos hj, neg_neg, neg_neg, div_le_div_iff_of_pos_right hpos,
    div_lt_div_iff_of_pos_right hpos]
  exact hi.2 j hj

/-! ## The oldest age -/

section Oldest

variable {P Q : Fin 16 → Prop} {f g : Fin 16 → ℚ}

structure AgreeBelow (P Q : Fin 16 → Prop) (f g : Fin 16 → ℚ) : Prop where
  below : ∀ i : Fin 16, i.val < 14 → (Q i ↔ P i) ∧ g i = f i
  last : ¬ Q 15

namespace AgreeBelow

section

variable (h : AgreeBelow P Q f g)

include h

lemma age_cases {i} (hi : Q i) : i.val < 14 ∨ i = 14 := by
  rcases lt_or_ge i.val 14 with hlt | hge
  · exact .inl hlt
  · refine .inr (Fin.ext (by_contra fun hne => h.last ?_))
    have h15 : i = 15 := Fin.ext (by omega)
    exact h15 ▸ hi

lemma gapless_iff :
    Gapless Q ↔ (Gapless fun i => i.val < 14 ∧ P i) ∧ (Q 14 → P 13 ∨ ∀ i : Fin 16, i.val < 14 → ¬ P i) := by
  constructor
  · intro hgap
    refine ⟨fun i j k hij hjk hi hk => ?_, fun h14 => ?_⟩
    · have hj : j.val < 14 := lt_trans (Fin.lt_def.1 hjk) hk.1
      exact ⟨hj, (h.below j hj).1.1 (hgap i j k hij hjk ((h.below i hi.1).1.2 hi.2) ((h.below k hk.1).1.2 hk.2))⟩
    by_contra hno
    push Not at hno
    obtain ⟨h13, i, hi, hPi⟩ := hno
    have hne : i.val ≠ 13 := fun heq => h13 (by rwa [show i = 13 from Fin.ext heq] at hPi)
    have hlt : i < 13 := Fin.lt_def.2 (by omega)
    exact h13 ((h.below 13 (by decide)).1.1 (hgap i 13 14 hlt (by decide) ((h.below i hi).1.2 hPi) h14))
  · rintro ⟨hgap, h14⟩ i j k hij hjk hi hk
    have hjkv := Fin.lt_def.1 hjk
    rcases h.age_cases hk with hk14 | rfl
    · have hj := hgap i j k hij hjk ⟨by omega, (h.below i (by omega)).1.1 hi⟩ ⟨hk14, (h.below k hk14).1.1 hk⟩
      exact (h.below j hj.1).1.2 hj.2
    have hPi : P i := (h.below i (by omega)).1.1 hi
    rcases h14 hk with h13 | hnone
    · rcases Nat.lt_succ_iff_lt_or_eq.1 hjkv with hj13 | hj13
      · have hj := hgap i j 13 hij (Fin.lt_def.2 hj13) ⟨by omega, hPi⟩ ⟨by decide, h13⟩
        exact (h.below j hj.1).1.2 hj.2
      · rw [show j = 13 from Fin.ext hj13]
        exact (h.below 13 (by decide)).1.2 h13
    · exact absurd hPi (hnone i (by omega))

lemma firstSteepest_below {i} (hi : i.val < 14) :
    FirstSteepest Q g i ↔ FirstSteepest (fun j => j.val < 14 ∧ P j) f i ∧ (Q 14 → g 14 ≤ f i) := by
  have hgi := (h.below i hi).2
  constructor
  · rintro ⟨hQ, hall⟩
    refine ⟨⟨⟨hi, (h.below i hi).1.1 hQ⟩, fun j hj => ?_⟩, fun h14 => hgi ▸ (hall 14 h14).1⟩
    have hj' := hall j ((h.below j hj.1).1.2 hj.2)
    rwa [hgi, (h.below j hj.1).2] at hj'
  rintro ⟨⟨hP, hall⟩, h14⟩
  refine ⟨(h.below i hi).1.2 hP.2, fun j hj => ?_⟩
  rw [hgi]
  rcases h.age_cases hj with hj14 | rfl
  · rw [(h.below j hj14).2]
    exact hall j ⟨hj14, (h.below j hj14).1.1 hj⟩
  · refine ⟨h14 hj, fun hlt => ?_⟩
    omega

lemma firstSteepest_last : FirstSteepest Q g 14 ↔ Q 14 ∧ ∀ j : Fin 16, j.val < 14 → P j → f j < g 14 := by
  constructor
  · rintro ⟨hQ, hall⟩
    refine ⟨hQ, fun j hj hP => ?_⟩
    have hlt := (hall j ((h.below j hj).1.2 hP)).2 (Fin.lt_def.2 hj)
    rwa [(h.below j hj).2] at hlt
  · rintro ⟨hQ, hall⟩
    refine ⟨hQ, fun j hj => ?_⟩
    rcases h.age_cases hj with hj14 | rfl
    · have hlt := hall j hj14 ((h.below j hj14).1.1 hj)
      rw [(h.below j hj14).2]
      exact ⟨hlt.le, fun _ => hlt⟩
    · exact ⟨le_rfl, fun hlt => absurd hlt (lt_irrefl _)⟩

end

end AgreeBelow

/-- The verdict on `P` and `f` changes when the drop at the age 14 is taken for `x`: the age 14 is only now `seen` and
not next to the others, or only now the steepest. -/
structure Misjudged (P : Fin 16 → Prop) (f : Fin 16 → ℚ) (seen : Prop) (x : ℚ) : Prop where
  seen : seen
  gapless : Gapless fun i => i.val < 14 ∧ P i
  changed : (¬ P 13 ∧ ¬ P 14) ∨
    (P 13 ∧ (∀ i : Fin 16, i.val < 14 → P i → f i < x) ∧ ∃ i : Fin 16, i.val < 14 ∧ P i ∧ f 14 ≤ f i)

variable {P' : Fin 16 → Prop} {f' : Fin 16 → ℚ} {t : ℚ} {r : Int}

lemma Misjudged.not_verdict (h : AgreeBelow P P f f) (h' : AgreeBelow P P' f f') (hr : Verdict P' f' r)
    (hm : Misjudged P f (P' 14) (f' 14)) : ¬ Verdict P f r := by
  intro hv
  rcases hm.changed with ⟨h13, h14⟩ | ⟨h13, hsteep, i, hi, hPi, hle⟩
  · have hgap : Gapless P := h.gapless_iff.2 ⟨hm.gapless, fun hp => absurd hp h14⟩
    have hgap' : Gapless P' := by_contra fun hno => hv.conflict.1 (hr.conflict.2 hno) hgap
    have hnone : ∀ i : Fin 16, i.val < 14 → ¬ P i := ((h'.gapless_iff.1 hgap').2 hm.seen).resolve_left h13
    have h0 : r = 0 := hv.none fun i hi => (h.age_cases hi).elim (fun hlt => hnone i hlt hi) fun heq => h14 (heq ▸ hi)
    have hr14 := hr.age hgap' 14 (h'.firstSteepest_last.2 ⟨hm.seen, fun j hj hP => absurd hP (hnone j hj)⟩)
    rw [h0] at hr14
    exact absurd hr14 (by decide)
  · have hgap : Gapless P := h.gapless_iff.2 ⟨hm.gapless, fun _ => .inl h13⟩
    have hgap' : Gapless P' := h'.gapless_iff.2 ⟨hm.gapless, fun _ => .inl h13⟩
    have hr14 := hr.age hgap' 14 (h'.firstSteepest_last.2 ⟨hm.seen, hsteep⟩)
    obtain ⟨j, hj⟩ := exists_firstSteepest h13
    have hj14 : j = 14 := Fin.ext (Int.natCast_inj.1 ((hv.age hgap j hj).symm.trans hr14))
    exact absurd ((h.firstSteepest_last.1 (hj14 ▸ hj)).2 i hi hPi) (not_lt.2 hle)

lemma verdict_of_not_misjudged (h : AgreeBelow P P f f) (h' : AgreeBelow P P' f f') (hP : P 14 ↔ t ≤ f 14)
    (hP' : P' 14 ↔ t ≤ f' 14) (ht : ∀ i, P i → t ≤ f i) (hle : f 14 ≤ f' 14) (hr : Verdict P' f' r)
    (hm : ¬ Misjudged P f (P' 14) (f' 14)) : Verdict P f r := by
  have hmono : P 14 → P' 14 := fun h14 => hP'.2 ((hP.1 h14).trans hle)
  have hgap : Gapless P' ↔ Gapless P := by
    rw [h.gapless_iff, h'.gapless_iff]
    refine and_congr_right fun hbelow => ⟨fun hx h14 => hx (hmono h14), fun hx h14 => ?_⟩
    by_contra hno
    exact hm ⟨h14, hbelow, .inl ⟨fun h13 => hno (.inl h13), fun h14' => hno (hx h14')⟩⟩
  refine ⟨hr.conflict.trans (not_congr hgap), fun hnone => hr.none fun i hi => ?_, fun hg i hi => ?_⟩
  · rcases h'.age_cases hi with hlt | rfl
    · exact hnone i ((h'.below i hlt).1.1 hi)
    · exact hm ⟨hi, fun i j k _ _ hi => absurd hi.2 (hnone i), .inl ⟨hnone 13, hnone 14⟩⟩
  refine hr.age (hgap.2 hg) i ?_
  rcases h.age_cases hi.1 with hlt | rfl
  · obtain ⟨hbelow, h14⟩ := (h.firstSteepest_below hlt).1 hi
    refine (h'.firstSteepest_below hlt).2 ⟨hbelow, fun h14' => ?_⟩
    by_contra hnot
    -- The age 14 is steeper than all others for `f'`, and not for `f`.
    have h13 : P 13 := ((h'.gapless_iff.1 (hgap.2 hg)).2 h14').resolve_right fun hnone => hnone i hlt hi.1
    have hsteep : ∀ j : Fin 16, j.val < 14 → P j → f j < f' 14 := fun j hj hPj =>
      lt_of_le_of_lt (hbelow.2 j ⟨hj, hPj⟩).1 (not_le.1 hnot)
    have hle14 : f 14 ≤ f i := by
      by_cases hp : P 14
      · exact h14 hp
      · exact (not_le.1 fun hc => hp (hP.2 hc)).le.trans (ht i hi.1)
    exact hm ⟨h14', (h.gapless_iff.1 hg).1, .inr ⟨h13, hsteep, i, hlt, hi.1, hle14⟩⟩
  · obtain ⟨h14, hall⟩ := h.firstSteepest_last.1 hi
    exact h'.firstSteepest_last.2 ⟨hmono h14, fun j hj hPj => (hall j hj hPj).trans_le hle⟩

end Oldest

lemma drop_withoutOldest (hi : i.val < 14) (curve) : drop (withoutOldest curve) i = drop curve i := by
  have h : i.val + 1 < ng2cGenArraySize := lt_trans (succ_lt_succ hi) (by decide)
  have hne : i ≠ 15 := fun heq => absurd (heq ▸ hi) (by decide)
  have hne' : (⟨i.val + 1, h⟩ : Fin ng2cGenArraySize) ≠ 15 := fun heq => by
    have hval : i.val + 1 = 15 := congrArg Fin.val heq
    omega
  rw [drop, drop, dif_pos h, dif_pos h, entry_withoutOldest hne, entry_withoutOldest hne']

lemma drop_fourteen (curve) : drop curve 14 = entry curve 14 - entry curve 15 := dif_pos (by decide)

lemma drop_withoutOldest_fourteen (curve) : drop (withoutOldest curve) 14 = entry curve 14 := by
  rw [drop_fourteen, entry_withoutOldest (by decide), entry_withoutOldest_last, sub_zero]

lemma agreeBelow_withoutOldest (curve) :
    AgreeBelow (Declines curve) (Declines (withoutOldest curve)) (drop curve) (drop (withoutOldest curve)) where
  below := by
    intro i hi
    refine ⟨?_, drop_withoutOldest hi curve⟩
    rw [Declines, Declines, drop_withoutOldest hi, entry_withoutOldest (by decide)]
  last := fun h => absurd h.1 (by decide)

lemma agreeBelow_refl (curve) : AgreeBelow (Declines curve) (Declines curve) (drop curve) (drop curve) :=
  ⟨fun _ _ => ⟨.rfl, rfl⟩, fun h => absurd h.1 (by decide)⟩

lemma declines_iff (hpos : 0 < entry curve 0)
    (hi : i.val + 1 < ng2cGenArraySize) : Declines curve i ↔ entry curve 0 / 10 ≤ drop curve i := by
  rw [Declines, le_div_iff₀ hpos, one_div_mul_eq_div]
  exact and_iff_right hi

/-- The analysis of a curve finds its declines exactly when taking the oldest age for empty does not matter. -/
theorem verdict_iff_not_misjudged (curve : Curve) (h : curve 0 ≠ 0) :
    Verdict (Declines curve) (drop curve) (normalizeDeriveAnalyze ratArith curve) ↔
      ¬ Misjudged (Declines curve) (drop curve) (1 / 10 ≤ entry curve 14 / entry curve 0) (entry curve 14) := by
  have hpos : 0 < entry curve 0 := by
    refine cast_pos.2 (pos_of_ne_zero fun h0 => h ?_)
    exact BitVec.eq_of_toNat_eq h0
  have h0 : entry (withoutOldest curve) 0 = entry curve 0 := entry_withoutOldest (by decide) curve
  have hseen : Declines (withoutOldest curve) 14 = (1 / 10 ≤ entry curve 14 / entry curve 0) := by
    rw [Declines, drop_withoutOldest_fourteen]
    exact propext (and_iff_right (by decide))
  rw [← hseen, ← drop_withoutOldest_fourteen curve]
  constructor
  · intro hv hm
    exact hm.not_verdict (agreeBelow_refl curve) (agreeBelow_withoutOldest curve) (verdict_withoutOldest hpos) hv
  · refine verdict_of_not_misjudged (agreeBelow_refl curve) (agreeBelow_withoutOldest curve)
      (declines_iff hpos (by decide)) (h0 ▸ declines_iff (h0.symm ▸ hpos) (by decide))
      (fun i hi => (declines_iff hpos hi.1).1 hi) ?_ (verdict_withoutOldest hpos)
    rw [drop_withoutOldest_fourteen]
    exact sub_le_self _ (cast_nonneg _)

theorem verdict_dieAtTwo :
    Verdict (Declines fun i => if i.val ≤ 2 then 10 else 0) (drop fun i => if i.val ≤ 2 then 10 else 0) 2 := by
  have hresult : normalizeDeriveAnalyze ratArith (fun i => if i.val ≤ 2 then 10 else 0) = 2 := by decide +kernel
  rw [← hresult]
  refine (verdict_iff_not_misjudged _ (by decide)).2 fun hm => ?_
  have hseen := hm.seen
  rw [show entry (fun i => if i.val ≤ 2 then 10 else 0) 14 = 0 from cast_eq_zero.2 rfl] at hseen
  norm_num at hseen

/-- All objects survive: the curve never declines, and the analysis finds the age 14. -/
theorem normalizeDeriveAnalyze_allSurvive :
    ¬ Verdict (Declines fun _ => 10) (drop fun _ => 10) (normalizeDeriveAnalyze ratArith fun _ => 10) := by
  have hresult : normalizeDeriveAnalyze ratArith (fun _ => 10) = 14 := by decide +kernel
  intro hv
  have hnone : ∀ i, ¬ Declines (fun _ => 10) i := by
    intro i hi
    have hdrop : drop (fun _ => 10) i = 0 := by
      rw [drop, dif_pos hi.1]
      exact sub_self _
    have hle := hi.2
    rw [hdrop] at hle
    norm_num at hle
  exact absurd (hresult.symm.trans (hv.none hnone)) (by decide)

end Rolp.Profiler
