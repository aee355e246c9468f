import Mathlib.Data.BitVec
import Mathlib.Algebra.BigOperators.Group.List.Basic

/-!
# Bit fields of a word

A field is a run of consecutive bits of a word. It is read by shifting and masking, and written by clearing its place
and or-ing in the masked value. Fields may overlap. The last part says exactly when a word still holds, in every field,
what was written to it last.
-/

namespace Rolp.Lib

open Nat

variable {w : Nat}

def lowMask (w n : Nat) : BitVec w := (1#w <<< n) - 1#w

lemma getLsbD_lowMask (n i) : (lowMask w n).getLsbD i = (decide (i < w) && decide (i < n)) := by
  by_cases hi : i < w
  · rw [← BitVec.testBit_toNat]
    by_cases hn : n < w
    · have h1 : (1#w).toNat = 1 := by simp; omega
      have hlt : 2 ^ n < 2 ^ w := Nat.pow_lt_pow_right (by omega) hn
      have hpos : 0 < 2 ^ n := Nat.two_pow_pos n
      have hval : (lowMask w n).toNat = 2 ^ n - 1 := by
        have hle : (1#w) ≤ (1#w <<< n) := by
          rw [BitVec.le_def, BitVec.toNat_shiftLeft, h1, one_shiftLeft, mod_eq_of_lt hlt]; omega
        rw [lowMask, BitVec.toNat_sub_of_le hle, BitVec.toNat_shiftLeft, h1, one_shiftLeft, mod_eq_of_lt hlt]
      rw [hval]
      simp [hi]
    · have hz : (1#w <<< n) = 0#w := BitVec.shiftLeft_eq_zero (by omega)
      have hval : lowMask w n = BitVec.allOnes w := by rw [lowMask, hz, BitVec.zero_sub, BitVec.neg_one_eq_allOnes]
      rw [hval, BitVec.testBit_toNat]
      simp [hi]; omega
  · rw [BitVec.getLsbD_of_ge _ _ (by omega)]; simp [hi]

/-- A run of `width` bits starting at bit `shift`. -/
structure BitField where
  shift : Nat
  width : Nat
  deriving DecidableEq

namespace BitField

def Covers (f : BitField) (i : Nat) : Prop := f.shift ≤ i ∧ i < f.shift + f.width

instance (f : BitField) (i : Nat) : Decidable (f.Covers i) := inferInstanceAs (Decidable (_ ∧ _))

variable (f : BitField)

def read (x : BitVec w) : BitVec w := (x >>> f.shift) &&& lowMask w f.width

def write (x v : BitVec w) : BitVec w :=
  (x &&& ~~~(lowMask w f.width <<< f.shift)) ||| ((v &&& lowMask w f.width) <<< f.shift)

lemma getLsbD_read (x : BitVec w) (i : Nat) :
    (f.read x).getLsbD i = (decide (i < f.width) && x.getLsbD (f.shift + i)) := by
  simp only [read, BitVec.getLsbD_and, getLsbD_lowMask]
  by_cases hi : i < w
  · simp [hi, Bool.and_comm]
  · simp [BitVec.getLsbD_of_ge x (f.shift + i) (by omega)]

lemma getLsbD_write (x v : BitVec w) {i} (hi : i < w) :
    (f.write x v).getLsbD i = if f.Covers i then v.getLsbD (i - f.shift) else x.getLsbD i := by
  simp only [write, BitVec.getLsbD_or, BitVec.getLsbD_and, BitVec.getLsbD_not, BitVec.getLsbD_shiftLeft,
    getLsbD_lowMask, hi, Covers]
  by_cases hs : i < f.shift
  · simp [hs, show ¬ f.shift ≤ i by omega]
  · by_cases hb : i < f.shift + f.width
    · simp [hs, hb, show i - f.shift < w by omega, show i - f.shift < f.width by omega]
    · simp [hb, show ¬ i - f.shift < f.width by omega]

lemma read_eq_and_lowMask (x) : f.read x &&& lowMask w f.width = f.read x := by
  simp only [read, BitVec.and_assoc, BitVec.and_self]

lemma read_write_of_disjoint {f g : BitField} (hfit : f.shift + f.width ≤ w)
    (hfg : ∀ i, f.Covers i → ¬ g.Covers i) (x v : BitVec w) : f.read (g.write x v) = f.read x := by
  apply BitVec.eq_of_getLsbD_eq
  intro i _
  rw [getLsbD_read, getLsbD_read]
  by_cases hi : i < f.width
  · have hg : ¬ g.Covers (f.shift + i) := hfg _ ⟨by omega, by omega⟩
    rw [getLsbD_write _ _ _ (by omega), if_neg hg]
  · simp [hi]

end BitField

/-! ## Families of fields that may overlap -/

section Family

variable {ι : Type} (F : ι → BitField)

/-- Every bit of `x` that belongs to some field is the bit that one of the fields covering it has in `s`. -/
def Explained (x : BitVec w) (s : ι → BitVec w) : Prop :=
  ∀ i < w, (∃ k, (F k).Covers i) → ∃ k, (F k).Covers i ∧ x.getLsbD i = (s k).getLsbD (i - (F k).shift)

/-- The values `s` of the fields give the same bit wherever two fields cover it. -/
def AgreeOnOverlaps (s : ι → BitVec w) : Prop :=
  ∀ k l, ∀ i < w, (F k).Covers i → (F l).Covers i →
    (s k).getLsbD (i - (F k).shift) = (s l).getLsbD (i - (F l).shift)

variable {F}

lemma explained_read (x : BitVec w) : Explained F x (fun k => (F k).read x) := by
  rintro i - ⟨k, hk⟩
  have hk' := hk
  obtain ⟨h1, h2⟩ := hk'
  refine ⟨k, hk, ?_⟩
  rw [BitField.getLsbD_read, add_sub_of_le h1]
  simp [show i - (F k).shift < (F k).width by omega]

lemma Explained.write [DecidableEq ι] {x s} (h : Explained F x s) (k : ι)
    (v : BitVec w) : Explained F ((F k).write x v) (Function.update s k (v &&& lowMask w (F k).width)) := by
  intro i hi hc
  rw [BitField.getLsbD_write _ _ _ hi]
  by_cases hk : (F k).Covers i
  · refine ⟨k, hk, ?_⟩
    have := hk.1
    have := hk.2
    simp [hk, getLsbD_lowMask, show i - (F k).shift < w by omega, show i - (F k).shift < (F k).width by omega]
  · -- The bit is outside the written field, so the field that explained it is another one.
    obtain ⟨l, hl, hx⟩ := h i hi hc
    have hne : l ≠ k := by rintro rfl; exact hk hl
    exact ⟨l, hl, by simp [hk, hx, hne]⟩

lemma Explained.read_eq_iff {x s} (h : Explained F x s)
    (hfit : ∀ k, (F k).shift + (F k).width ≤ w) (hs : ∀ k, s k &&& lowMask w (F k).width = s k) :
    (∀ k, (F k).read x = s k) ↔ AgreeOnOverlaps F s := by
  constructor
  · intro hr k l i hi hk hl
    have bit : ∀ m, (F m).Covers i → (s m).getLsbD (i - (F m).shift) = x.getLsbD i := by
      intro m hm
      obtain ⟨h1, h2⟩ := hm
      rw [← hr m, BitField.getLsbD_read, add_sub_of_le h1]
      simp [show i - (F m).shift < (F m).width by omega]
    rw [bit k hk, bit l hl]
  · intro ha k
    apply BitVec.eq_of_getLsbD_eq
    intro i hi
    rw [BitField.getLsbD_read, ← hs k, BitVec.getLsbD_and, getLsbD_lowMask]
    by_cases hw : i < (F k).width
    · have hc : (F k).Covers ((F k).shift + i) := ⟨by omega, by omega⟩
      have hlt : (F k).shift + i < w := by have := hfit k; omega
      obtain ⟨l, hl, hx⟩ := h _ hlt ⟨k, hc⟩
      rw [hx, ha l k _ hlt hl hc]
      simp [hw, hi]
    · simp [hw]

end Family

/-!
## Bits in an array of words

The bits of a word are at the indices that have the word's index as their quotient by `w`.
-/

open List Nat

variable (words : Nat → BitVec w)

def bitAt (k : Nat) : Bool := (words (k / w)).getLsbD (k % w)

lemma bitAt_mul_add (i) {j} (hj : j < w) : bitAt words (w * i + j) = (words i).getLsbD j := by
  have hw : 0 < w := zero_lt_of_lt hj
  rw [bitAt, mul_add_div hw, div_eq_of_lt hj, add_zero, mul_add_mod, mod_eq_of_lt hj]

lemma bitAt_update (i v k) :
    bitAt (Function.update words i v) k = if k / w = i then v.getLsbD (k % w) else bitAt words k := by
  unfold bitAt
  by_cases h : k / w = i
  · rw [if_pos h, h, Function.update_self]
  · rw [if_neg h, Function.update_of_ne h]

variable {n : Nat}

lemma forall_bits_iff (P : Nat → Prop) : (∀ i < n, ∀ j < w, P (w * i + j)) ↔ ∀ k < w * n, P k := by
  constructor
  · intro h k hk
    have hw : 0 < w := Nat.pos_of_mul_pos_right (zero_lt_of_lt hk)
    have hk' := h (k / w) (Nat.div_lt_of_lt_mul hk) (k % w) (mod_lt _ hw)
    rwa [div_add_mod] at hk'
  · intro h i hi j hj
    refine h _ ?_
    calc w * i + j < w * i + w := Nat.add_lt_add_left hj _
      _ = w * (i + 1) := rfl
      _ ≤ w * n := mul_le_mul_left _ hi

lemma forall_words_eq_iff {words words' : Nat → BitVec w} :
    (∀ i < n, words i = words' i) ↔ ∀ k < w * n, bitAt words k = bitAt words' k := by
  rw [← forall_bits_iff]
  refine forall₂_congr fun i _ => BitVec.eq_of_getLsbD_eq_iff.trans (forall₂_congr fun j hj => ?_)
  rw [bitAt_mul_add _ _ hj, bitAt_mul_add _ _ hj]

/-! ## Counting bits -/

def bitCount (n : Nat) (f : Nat → Bool) : Nat := (List.range n).countP f

lemma bitCount_add (m n f) : bitCount (m + n) f = bitCount m f + bitCount n fun k => f (m + k) := by
  rw [bitCount, range_add, countP_append, countP_map]
  rfl

lemma bitCount_congr {f g} (h : ∀ k < n, f k = g k) : bitCount n f = bitCount n g :=
  countP_congr fun k hk => by rw [h k (mem_range.1 hk)]

lemma bitCount_eq_zero {f} (h : ∀ k < n, f k = false) : bitCount n f = 0 :=
  countP_eq_zero.2 fun k hk => by simp [h k (mem_range.1 hk)]

lemma sum_bitCount_words (n) :
    ((List.range n).map fun i => bitCount w (words i).getLsbD).sum = bitCount (w * n) (bitAt words) := by
  induction n with
  | zero => rfl
  | succ n ih =>
    rw [range_succ, map_append, List.sum_append, map_singleton, mul_succ, bitCount_add]
    congr 1
    exact bitCount_congr fun j hj => (bitAt_mul_add words n hj).symm

end Rolp.Lib
