import Mathlib.Tactic.Ring
import Mathlib.Tactic.Linarith
import Mathlib.Data.Int.ModEq
import Mathlib.Tactic.Positivity

/-!
# Signed division by a constant as a multiplication and a shift

`T` is the magnitude of the smallest dividend (`2 ^ (w - 1)` for `w`-bit words), `d` the divisor and `P` a power of two.
Multiplying by `multiplier P d` and dividing by `P` rounds as truncated division by `d`, as soon as `lastFull T d *
excess P d < P`.
-/

namespace Rolp.Lib.MagicDivision

open Nat

/-- The largest number below `T` that leaves the remainder `d - 1`. -/
def lastFull (T d : Nat) : Nat := T - 1 - T % d

/-- What is missing from `P` to the next multiple of `d`. -/
def excess (P d : Nat) : Nat := d - P % d

def multiplier (P d : Nat) : Nat := P / d + 1

variable {T d P n : Nat}

lemma excess_pos (hd : 0 < d) : 0 < excess P d := by
  have := mod_lt P hd
  unfold excess
  omega

lemma excess_le : excess P d ≤ d := sub_le _ _

lemma excess_lt (h : ¬ d ∣ P) (hd : 0 < d) : excess P d < d := by
  unfold excess
  omega

lemma multiplier_mul (hd : 0 < d) : multiplier P d * d = P + excess P d := by
  have h1 := div_add_mod P d
  have h2 := mod_lt P hd
  have h3 : d * (P / d) = P / d * d := mul_comm _ _
  unfold multiplier excess
  rw [add_mul]
  omega

lemma lastFull_succ (hd : 0 < d) (hT : d ≤ T) : lastFull T d + 1 = d * (T / d) := by
  have h1 := div_add_mod T d
  have h2 : d * 1 ≤ d * (T / d) := mul_le_mul_left d (div_pos hT hd)
  unfold lastFull
  omega

lemma lastFull_lt (hT : 0 < T) : lastFull T d < T := by
  unfold lastFull
  omega

lemma le_lastFull_succ (hd : 0 < d) (hT : d ≤ T) : d ≤ lastFull T d + 1 := by
  have h := mul_le_mul_left d (div_pos hT hd)
  rw [lastFull_succ hd hT]
  omega

/-- The rounding could first go wrong at `lastFull T d`: below it the excess is too small, and above it the next
multiple of `d` is further away. -/
lemma mul_excess_lt (hd : 0 < d) (hT : d ≤ T) (hP : lastFull T d * excess P d < P)
    (hn : n ≤ lastFull T d ∨ n ≤ T ∧ n % d + 2 ≤ d) : n * excess P d < (d - n % d) * P := by
  have hr := mod_lt n hd
  by_cases hle : n ≤ lastFull T d
  · calc n * excess P d ≤ lastFull T d * excess P d := mul_le_mul_right _ hle
      _ < P := hP
      _ = 1 * P := (one_mul P).symm
      _ ≤ (d - n % d) * P := mul_le_mul_right _ (by omega)
  obtain ⟨hnT, hr2⟩ := hn.resolve_left hle
  have hq : n / d = T / d := by
    have h1 := lastFull_succ hd hT
    apply le_antisymm (Nat.div_le_div_right hnT)
    rw [le_div_iff_mul_le hd, mul_comm]
    omega
  have hnr : n = lastFull T d + 1 + n % d := by
    have h1 := div_add_mod n d
    rw [hq, ← lastFull_succ hd hT] at h1
    exact h1.symm
  have hfull := le_lastFull_succ hd hT
  have hmul : n ≤ (d - n % d) * lastFull T d := by
    obtain ⟨j, hj⟩ : ∃ j, d - n % d = j + 2 := ⟨d - n % d - 2, by omega⟩
    rw [hj]
    have : (j + 2) * lastFull T d = j * lastFull T d + 2 * lastFull T d := add_mul _ _ _
    omega
  have hpos : 0 < d - n % d := by omega
  calc n * excess P d ≤ (d - n % d) * lastFull T d * excess P d := mul_le_mul_right _ hmul
    _ = (d - n % d) * (lastFull T d * excess P d) := mul_assoc _ _ _
    _ < (d - n % d) * P := mul_lt_mul_of_pos_left hP hpos

lemma mul_excess_lt_of_lt (hd : 0 < d) (hT : d ≤ T) (hP : lastFull T d * excess P d < P)
    (hn : n < T) : n * excess P d < (d - n % d) * P := by
  apply mul_excess_lt hd hT hP
  by_cases hle : n ≤ lastFull T d
  · exact .inl hle
  right
  refine ⟨hn.le, ?_⟩
  have h1 := lastFull_succ hd hT
  have h2 := div_add_mod T d
  have h3 := mod_lt T hd
  have hq : n / d = T / d := by
    apply le_antisymm (Nat.div_le_div_right hn.le)
    rw [le_div_iff_mul_le hd, mul_comm]
    omega
  have h4 := div_add_mod n d
  rw [hq] at h4
  omega

/-- When `d` divides `T + 1`, the excess of a multiple `T * E` of `T` is at most `E`, because `T * E` leaves `-E` modulo
`d`. -/
lemma excess_mul_le (hr : T % d + 1 = d) {E} (hE : 0 < E) : excess (T * E) d ≤ E := by
  by_cases hdE : d ≤ E
  · exact le_trans excess_le hdE
  have hT := div_add_mod T d
  have hsum : T * E + E = d * ((T / d + 1) * E) := by
    calc T * E + E = (T + 1) * E := by ring
      _ = (d * (T / d) + d) * E := by rw [show T + 1 = d * (T / d) + d by omega]
      _ = d * ((T / d + 1) * E) := by ring
  have hmod : (T * E) % d = d - E := by
    have h1 : T * E + E = d * ((T / d + 1) * E) := hsum
    have hk : 0 < (T / d + 1) * E := mul_pos (succ_pos _) hE
    obtain ⟨k, hk'⟩ : ∃ k, (T / d + 1) * E = k + 1 := ⟨(T / d + 1) * E - 1, by omega⟩
    rw [hk', mul_add] at h1
    have h2 : T * E = d * k + (d - E) := by omega
    rw [h2, mul_add_mod, mod_eq_of_lt (by omega)]
  unfold excess
  omega

lemma mul_excess_le (hd : 0 < d) (hT : d ≤ T) (hP : lastFull T d * excess P d < P) (hdvd : T ∣ P)
    (hn : n ≤ T) : n * excess P d ≤ (d - n % d) * P := by
  have hr := mod_lt n hd
  rcases lt_or_ge n T with hlt | hge
  · exact (mul_excess_lt_of_lt hd hT hP hlt).le
  obtain rfl : n = T := le_antisymm hn hge
  by_cases hlast : n % d + 2 ≤ d
  · exact (mul_excess_lt hd hT hP (.inr ⟨hn, hlast⟩)).le
  have hr1 : n % d + 1 = d := by omega
  obtain ⟨E, rfl⟩ := hdvd
  have hE : 0 < E := by
    apply pos_of_ne_zero
    rintro rfl
    simp at hP
  have h1 := excess_mul_le hr1 hE
  rw [show d - n % d = 1 by omega, one_mul]
  exact mul_le_mul_left n h1

lemma mul_multiplier_mul (hd : 0 < d) (n) : n * multiplier P d * d = n * P + n * excess P d := by
  rw [mul_assoc, multiplier_mul hd, mul_add]

lemma div_mul_le (n P d : Nat) : n / d * P * d ≤ n * P := by
  calc n / d * P * d = d * (n / d) * P := by ring
    _ ≤ n * P := mul_le_mul_right P (mul_div_le n d)

lemma next_multiple (hd : 0 < d) (n P) : n * P + (d - n % d) * P = (n / d + 1) * P * d := by
  have hdm := div_add_mod n d
  have hr := mod_lt n hd
  calc n * P + (d - n % d) * P = (n + (d - n % d)) * P := (add_mul _ _ _).symm
    _ = (d * (n / d) + d) * P := by rw [show n + (d - n % d) = d * (n / d) + d by omega]
    _ = (n / d + 1) * P * d := by ring

lemma mul_multiplier_div (hd : 0 < d) (hT : d ≤ T) (hP : lastFull T d * excess P d < P)
    (hn : n < T) : n * multiplier P d / P = n / d := by
  have hprod := mul_multiplier_mul (P := P) hd n
  have hlt := mul_excess_lt_of_lt hd hT hP hn
  have hle := div_mul_le n P d
  apply Nat.div_eq_of_lt_le
  · apply le_of_mul_le_mul_right _ hd
    omega
  · apply Nat.lt_of_mul_lt_mul_right
    calc n * multiplier P d * d = n * P + n * excess P d := hprod
      _ < n * P + (d - n % d) * P := Nat.add_lt_add_left hlt _
      _ = (n / d + 1) * P * d := next_multiple hd n P

lemma mul_multiplier_ceil (hd : 0 < d) (hT : d ≤ T) (hP : lastFull T d * excess P d < P)
    (hdvd : T ∣ P) (hn0 : 0 < n) (hn : n ≤ T) :
    n / d * P < n * multiplier P d ∧ n * multiplier P d ≤ (n / d + 1) * P := by
  have hprod := mul_multiplier_mul (P := P) hd n
  have hle := mul_excess_le hd hT hP hdvd hn
  have hpos : 0 < n * excess P d := mul_pos hn0 (excess_pos hd)
  have hlow := div_mul_le n P d
  constructor
  · apply Nat.lt_of_mul_lt_mul_right (a := d)
    omega
  · apply le_of_mul_le_mul_right _ hd
    calc n * multiplier P d * d = n * P + n * excess P d := hprod
      _ ≤ n * P + (d - n % d) * P := Nat.add_le_add_left hle _
      _ = (n / d + 1) * P * d := next_multiple hd n P

lemma floor_mul_multiplier (hd : 0 < d) (hT : d ≤ T) (hP : lastFull T d * excess P d < P)
    (hdvd : T ∣ P) {x} (hlo : -(T : Int) ≤ x) (hhi : x < T) :
    x * (multiplier P d : Int) / (P : Int) = x.tdiv d - if x < 0 then 1 else 0 := by
  have hPpos : (0 : Int) < P := by omega
  by_cases hneg : x < 0
  · obtain ⟨n, rfl⟩ : ∃ n : Nat, x = -n := ⟨x.natAbs, by omega⟩
    obtain ⟨h1, h2⟩ := mul_multiplier_ceil hd hT hP hdvd (n := n) (by omega) (by omega)
    rw [if_pos hneg, Int.neg_tdiv, Int.tdiv_eq_ediv_of_nonneg (Int.natCast_nonneg n)]
    have h1' : ((n / d : Nat) : Int) * P < n * (multiplier P d) := by exact_mod_cast h1
    have h2' : n * (multiplier P d) ≤ ((n / d : Nat) + 1) * P := by exact_mod_cast h2
    apply Int.le_antisymm
    · apply Int.le_of_lt_add_one
      rw [Int.ediv_lt_iff_lt_mul hPpos]
      linarith
    · rw [Int.le_ediv_iff_mul_le hPpos]
      linarith
  · obtain ⟨n, rfl⟩ : ∃ n : Nat, x = n := ⟨x.toNat, by omega⟩
    rw [if_neg hneg, Int.tdiv_eq_ediv_of_nonneg (Int.natCast_nonneg n), sub_zero]
    have h := mul_multiplier_div hd hT hP (n := n) (by omega)
    exact_mod_cast h

end Rolp.Lib.MagicDivision

/-! ## Remainders modulo `2 ^ k - 1` by adding the upper bits to the lower ones -/

namespace Rolp.Lib

/-- The upper bits plus the lower `k` bits. -/
def fold (k : Nat) (x : Int) : Int := x / 2 ^ k + x % 2 ^ k

variable {k : Nat} {x b : Int}

lemma fold_modEq (k x) : fold k x ≡ x [ZMOD 2 ^ k - 1] := by
  have hdm := Int.mul_ediv_add_emod x (2 ^ k)
  have h : x = fold k x + (2 ^ k - 1) * (x / 2 ^ k) := by
    unfold fold
    linarith
  calc fold k x ≡ fold k x + (2 ^ k - 1) * (x / 2 ^ k) [ZMOD 2 ^ k - 1] := by
        apply Int.ModEq.symm
        simp [Int.ModEq]
    _ = x := h.symm

lemma emod_two_pow_bounds (k : Nat) (x : Int) : 0 ≤ x % 2 ^ k ∧ x % 2 ^ k ≤ 2 ^ k - 1 := by
  have hpos : (0 : Int) < 2 ^ k := by positivity
  have h1 := Int.emod_nonneg x hpos.ne'
  have h2 := Int.emod_lt_of_pos x hpos
  exact ⟨h1, by linarith⟩

lemma fold_nonneg (hx : 0 ≤ x) : 0 ≤ fold k x := by
  have h1 : 0 ≤ x / 2 ^ k := Int.ediv_nonneg hx (by positivity)
  have h2 := (emod_two_pow_bounds k x).1
  unfold fold
  linarith

lemma fold_le (h : x ≤ b) : fold k x ≤ b / 2 ^ k + (2 ^ k - 1) := by
  have h1 : x / 2 ^ k ≤ b / 2 ^ k := Int.ediv_le_ediv (by positivity) h
  have h2 := (emod_two_pow_bounds k x).2
  unfold fold
  linarith

lemma le_fold (h : b ≤ x) : b / 2 ^ k ≤ fold k x := by
  have h1 : b / 2 ^ k ≤ x / 2 ^ k := Int.ediv_le_ediv (by positivity) h
  have h2 := (emod_two_pow_bounds k x).1
  unfold fold
  linarith

lemma fold_le_mask (h : x ≤ 2 ^ k - 1) : fold k x ≤ 2 ^ k - 1 := by
  have h1 := fold_le (k := k) h
  have h2 : (2 ^ k - 1 : Int) / 2 ^ k = 0 := by
    have hpos : 0 < 2 ^ k := by positivity
    exact Int.ediv_eq_zero_of_lt (by linarith) (by linarith)
  linarith

/-- The bounds after `n` folds, from the bounds before. -/
def upper (k n : Nat) (b : Int) : Int := (fun b => b / 2 ^ k + (2 ^ k - 1))^[n] b

def lower (k n : Nat) (b : Int) : Int := (fun b => b / 2 ^ k)^[n] b

lemma iterate_fold_modEq (k n x) : (fold k)^[n] x ≡ x [ZMOD 2 ^ k - 1] := by
  induction n generalizing x with
  | zero => exact Int.ModEq.refl x
  | succ n ih => exact (ih (fold k x)).trans (fold_modEq k x)

lemma iterate_fold_nonneg (n) (hx : 0 ≤ x) : 0 ≤ (fold k)^[n] x := by
  induction n generalizing x with
  | zero => exact hx
  | succ n ih => exact ih (fold_nonneg hx)

lemma iterate_fold_le (n) (h : x ≤ b) : (fold k)^[n] x ≤ upper k n b := by
  induction n generalizing x b with
  | zero => exact h
  | succ n ih => exact ih (fold_le h)

lemma le_iterate_fold (n) (h : b ≤ x) : lower k n b ≤ (fold k)^[n] x := by
  induction n generalizing x b with
  | zero => exact h
  | succ n ih => exact ih (le_fold h)

lemma iterate_fold_le_mask (n) (h : x ≤ 2 ^ k - 1) : (fold k)^[n] x ≤ 2 ^ k - 1 := by
  induction n generalizing x with
  | zero => exact h
  | succ n ih => exact ih (fold_le_mask h)

lemma tmod_eq_of_modEq_nonneg {d y} (hx : 0 ≤ x) (hmod : y ≡ x [ZMOD d]) (h0 : 0 ≤ y) (hd : y < d) : x.tmod d = y := by
  rw [Int.tmod_eq_emod_of_nonneg hx, ← hmod.eq, Int.emod_eq_of_lt h0 hd]

lemma tmod_eq_of_modEq_nonpos {d y} (hx : x ≤ 0) (hmod : y ≡ x [ZMOD d]) (h0 : y ≤ 0) (hd : -d < y) : x.tmod d = y := by
  have h := tmod_eq_of_modEq_nonneg (by linarith) hmod.neg (by linarith) (by linarith)
  rw [Int.neg_tmod] at h
  linarith

/-- After enough folds one conditional subtraction gives the remainder: from the modulus on for a dividend that is not
negative, and else from 1 on. -/
lemma tmod_eq_of_fold {n lo hi} (hlo : lo ≤ x) (hhi : x ≤ hi)
    (hupper : upper k n hi < 2 * (2 ^ k - 1)) (hlower : -(2 ^ k - 1) < lower k n lo) : x.tmod (2 ^ k - 1) =
      if (fold k)^[n] x ≥ (if x ≥ 0 then 2 ^ k - 1 else 1) then (fold k)^[n] x - (2 ^ k - 1) else (fold k)^[n] x := by
  have hmod := iterate_fold_modEq k n x
  have hmod' : (fold k)^[n] x - (2 ^ k - 1) ≡ x [ZMOD 2 ^ k - 1] := by
    have h := hmod.sub (Int.ModEq.refl (2 ^ k - 1 : Int)) |>.trans (show x - (2 ^ k - 1) ≡ x [ZMOD 2 ^ k - 1] by
      simp [Int.ModEq])
    exact h
  by_cases hx : x ≥ 0
  · have h0 := iterate_fold_nonneg (k := k) n hx
    have h1 := iterate_fold_le (k := k) n hhi
    rw [if_pos hx]
    split
    · exact tmod_eq_of_modEq_nonneg hx hmod' (by linarith) (by linarith)
    · exact tmod_eq_of_modEq_nonneg hx hmod h0 (by omega)
  · have hmask : x ≤ 2 ^ k - 1 := by
      have : (0 : Int) < 2 ^ k := by positivity
      omega
    have h0 := iterate_fold_le_mask n hmask
    have h1 := le_iterate_fold (k := k) n hlo
    rw [if_neg hx]
    split
    · exact tmod_eq_of_modEq_nonpos (by omega) hmod' (by linarith) (by linarith)
    · exact tmod_eq_of_modEq_nonpos (by omega) hmod (by omega) (by linarith)

end Rolp.Lib
