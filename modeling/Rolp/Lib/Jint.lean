import Mathlib.Algebra.Order.Ring.Int

/-!
# Conversions of machine integers

The conversion to a 32-bit `int`, and rounding up to a multiple of an alignment.
-/

namespace Rolp.Lib

abbrev maxJint : Nat := 2 ^ 31 - 1

def toJint (n : Int) : Int := n.bmod (2 ^ 32)

lemma toJint_def (n) : toJint n = (n + 2 ^ 31) % 2 ^ 32 - 2 ^ 31 := by
  rw [toJint, Int.bmod_def]
  split <;> omega

lemma toJint_eq {x} (h0 : -2 ^ 31 ≤ x) (h1 : x < 2 ^ 31) : toJint x = x := by
  rw [toJint_def]
  omega

lemma toJint_of_le {n : Nat} (h : n ≤ maxJint) : toJint n = n := by
  unfold maxJint at h
  exact toJint_eq (by omega) (by omega)

lemma toJint_toJint_add (x y) : toJint (toJint x + y) = toJint (x + y) := Int.bmod_add_bmod

lemma toJint_toJint_sub (x y) : toJint (toJint x - y) = toJint (x - y) := Int.bmod_sub_bmod

def alignSizeUp {α : Type} [Add α] [Sub α] [Mul α] [Div α] [OfNat α 1] (size alignment : α) : α :=
  (size + (alignment - 1)) / alignment * alignment

end Rolp.Lib
