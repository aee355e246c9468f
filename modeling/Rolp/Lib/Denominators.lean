import Mathlib.Algebra.Group.Subgroup.ZPowers.Basic
import Mathlib.Algebra.Order.Archimedean.Basic

/-!
# Common denominators

Finitely many rational numbers are multiples of one fraction. Sums and differences of them stay among its multiples, and
a positive multiple is not below the fraction.
-/

namespace Rolp.Lib

open AddSubgroup

def Multiples (d : ℕ) : AddSubgroup ℚ := zmultiples (1 / d : ℚ)

lemma mem_multiples_den (x : ℚ) : x ∈ Multiples x.den := by
  refine mem_zmultiples_iff.2 ⟨x.num, ?_⟩
  rw [zsmul_eq_mul, mul_one_div, Rat.num_div_den]

lemma multiples_le_mul (d : ℕ) {e} (he : 0 < e) : Multiples d ≤ Multiples (d * e) := by
  refine zmultiples_le_of_mem (mem_zmultiples_iff.2 ⟨e, ?_⟩)
  have hne : (e : ℚ) ≠ 0 := Nat.cast_ne_zero.2 (Nat.ne_of_gt he)
  rw [zsmul_eq_mul, mul_one_div, Nat.cast_mul, Int.cast_natCast, mul_comm (d : ℚ), div_mul_eq_div_div, div_self hne]

lemma exists_common_denominator (l : List ℚ) : ∃ d : ℕ, 0 < d ∧ ∀ x ∈ l, x ∈ Multiples d := by
  induction l with
  | nil => exact ⟨1, Nat.one_pos, by simp⟩
  | cons x l ih =>
    obtain ⟨d, hd, hl⟩ := ih
    refine ⟨x.den * d, Nat.mul_pos x.den_pos hd, fun y hy => ?_⟩
    rcases List.mem_cons.1 hy with rfl | hy
    · exact multiples_le_mul _ hd (mem_multiples_den y)
    · rw [mul_comm]
      exact multiples_le_mul _ x.den_pos (hl y hy)

lemma one_div_le_of_mem_multiples {d} (hd : 0 < d) {x} (hx : x ∈ Multiples d) (hpos : 0 < x) : (1 / d : ℚ) ≤ x := by
  obtain ⟨z, rfl⟩ := mem_zmultiples_iff.1 hx
  have hd' : (0 : ℚ) < 1 / d := by positivity
  have hz : (0 : ℚ) < z := pos_of_mul_pos_left hpos hd'.le
  have hz' : (1 : ℚ) ≤ z := by exact_mod_cast hz
  exact le_mul_of_one_le_left hd'.le hz'

end Rolp.Lib
