import Mathlib.Data.BitVec
import Mathlib.Tactic.Ring
import Mathlib.Tactic.Linarith

/-!
# Signed machine words as integers

Every word is `BitVec.ofInt w a` for an integer `a`. Sums and products keep that form without a condition; shifts and
widenings do when `a` fits.
-/

namespace Rolp.Lib

open Nat BitVec

/-- `a` is the value of a signed `w`-bit word. -/
def Fits (w : Nat) (a : Int) : Prop := -2 ^ (w - 1) ≤ a ∧ a < 2 ^ (w - 1)

variable {w : Nat}

lemma fits_toInt (x : BitVec w) : Fits w x.toInt := ⟨le_toInt x, toInt_lt⟩

variable {a : Int} {v : Nat}

lemma Fits.mono (h : Fits w a) (hv : w ≤ v) : Fits v a := by
  have hpow : 2 ^ (w - 1) ≤ 2 ^ (v - 1) := by exact_mod_cast Nat.pow_le_pow_right (by decide) (by omega)
  exact ⟨by linarith [h.1], by linarith [h.2]⟩

lemma toInt_ofInt_of_fits (hw : 0 < w) (h : Fits w a) : (BitVec.ofInt w a).toInt = a := toInt_ofInt_eq_self hw h.1 h.2

lemma sshiftRight_ofInt (hw : 0 < w) (h : Fits w a) (k) :
    (BitVec.ofInt w a).sshiftRight k = BitVec.ofInt w (a / 2 ^ k) := by
  rw [sshiftRight, toInt_ofInt_of_fits hw h, Int.shiftRight_eq_div_pow]
  norm_num

lemma sshiftRight_eq_ofInt (x : BitVec w) (k : Nat) : x.sshiftRight k = BitVec.ofInt w (x.toInt / 2 ^ k) := by
  rw [sshiftRight, Int.shiftRight_eq_div_pow]
  norm_num

lemma sshiftRight_sign (x : BitVec w) : x.sshiftRight (w - 1) = BitVec.ofInt w (if x.toInt < 0 then -1 else 0) := by
  obtain ⟨hlo, hhi⟩ := fits_toInt x
  have hpos : (0 : Int) < 2 ^ (w - 1) := by positivity
  rw [sshiftRight_eq_ofInt]
  congr 1
  split
  · apply Int.le_antisymm
    · exact Int.le_of_lt_add_one (by rw [Int.ediv_lt_iff_lt_mul hpos]; linarith)
    · rw [Int.le_ediv_iff_mul_le hpos]; linarith
  · exact Int.ediv_eq_zero_of_lt (by omega) hhi

lemma signExtend_ofInt (hw : 0 < w) (hv : w ≤ v) (h : Fits w a) :
    (BitVec.ofInt w a).signExtend v = BitVec.ofInt v a := by
  apply eq_of_toInt_eq
  rw [toInt_signExtend_of_le hv, toInt_ofInt_of_fits hw h, toInt_ofInt_of_fits (by omega) (h.mono hv)]

lemma setWidth_ofInt (hv : v ≤ w) : (BitVec.ofInt w a).setWidth v = BitVec.ofInt v a := by
  apply eq_of_toInt_eq
  rw [← signExtend_eq_setWidth_of_le _ hv, toInt_signExtend_eq_toInt_bmod_of_le _ hv, toInt_ofInt, toInt_ofInt]
  exact Int.bmod_bmod_of_dvd (pow_dvd_pow 2 hv)

lemma ofInt_neg_one : BitVec.ofInt w (-1) = BitVec.allOnes w := by
  rw [ofInt_neg]
  exact neg_one_eq_allOnes

lemma ushiftRight_neg_one {l} (hl : l ≤ w) : BitVec.ofInt w (-1) >>> (w - l) = BitVec.ofInt w (2 ^ l - 1) := by
  have hpos : 0 < 2 ^ (w - l) := by positivity
  have hposl : 0 < 2 ^ l := by positivity
  have hle : 2 ^ l ≤ 2 ^ w := Nat.pow_le_pow_right (by decide) hl
  have hlow : 2 ^ w = 2 ^ l * 2 ^ (w - l) := by rw [← pow_add]; congr 1; omega
  have hcast : (2 ^ l - 1 : Int) = ((2 ^ l - 1 : Nat) : Int) := by push_cast [hposl]; rfl
  apply eq_of_toNat_eq
  rw [toNat_ushiftRight, ofInt_neg_one, toNat_allOnes, hcast, ofInt_natCast,
    toNat_ofNat, mod_eq_of_lt (by omega), shiftRight_eq_div_pow]
  apply Nat.div_eq_of_lt_le
  · rw [Nat.sub_mul]; omega
  · rw [Nat.sub_add_cancel hposl]; omega

lemma twoPow_eq_ofInt (j) : BitVec.twoPow w j = BitVec.ofInt w (2 ^ j) := by
  have h : (2 ^ j : Int) = ((2 ^ j : Nat) : Int) := by push_cast; rfl
  rw [h, ofInt_natCast]
  apply eq_of_toNat_eq
  rw [toNat_twoPow, toNat_ofNat]

lemma shiftLeft_ofInt (a j) : BitVec.ofInt w a <<< j = BitVec.ofInt w (a * 2 ^ j) := by
  rw [shiftLeft_eq_mul_twoPow, twoPow_eq_ofInt, ofInt_mul]

lemma toInt_and_of_neg_eq_two_pow {j} (hw : 0 < w) {c} (hc : (-c).toNat = 2 ^ j)
    (a : BitVec w) : (a &&& c).toInt = a.toInt / 2 ^ j * 2 ^ j := by
  have hj : j < w := by
    have h := (-c).isLt
    rw [hc] at h
    exact (Nat.pow_lt_pow_iff_right (by decide)).1 h
  have hneg : -c = twoPow w j := by
    apply eq_of_toNat_eq
    rw [hc, toNat_twoPow_of_lt hj]
  have hc' : c = allOnes w <<< j := by
    rw [shiftLeft_eq_mul_twoPow, ← neg_one_eq_allOnes, ← hneg]
    simp
  have hand : a &&& c = (a.sshiftRight j) <<< j := by
    rw [hc']
    ext i hi
    by_cases hij : i < j
    · simp [hij]
    · have h2 : j + (i - j) = i := by omega
      simp [hij, getElem_sshiftRight, h2, hi]
  have hfit := fits_toInt a
  have hpos : (0 : Int) < 2 ^ j := by positivity
  have hle := Int.ediv_mul_le a.toInt hpos.ne'
  have hge : -2 ^ (w - 1) ≤ a.toInt / 2 ^ j * 2 ^ j := by
    have hsplit : (2 : Int) ^ (w - 1) = 2 ^ (w - 1 - j) * 2 ^ j := by
      rw [← pow_add]
      congr 1
      omega
    rw [hsplit, ← neg_mul]
    apply Int.mul_le_mul_of_nonneg_right _ hpos.le
    rw [Int.le_ediv_iff_mul_le hpos, neg_mul, ← hsplit]
    exact hfit.1
  rw [hand, sshiftRight_eq_ofInt, shiftLeft_ofInt]
  exact toInt_ofInt_of_fits hw ⟨hge, lt_of_le_of_lt hle hfit.2⟩

lemma toNat_of_toInt_nonneg {x : BitVec w} (h : 0 ≤ x.toInt) : (x.toNat : Int) = x.toInt := by
  rw [toInt_eq_toNat_cond] at h ⊢
  split at h
  · rw [if_pos (by assumption)]
  · omega

lemma ushiftRight_ofInt (h0 : 0 ≤ a) (ha : a < 2 ^ w) (k) : BitVec.ofInt w a >>> k = BitVec.ofInt w (a / 2 ^ k) := by
  obtain ⟨n, rfl⟩ := Int.eq_ofNat_of_zero_le h0
  have hn : n < 2 ^ w := by exact_mod_cast ha
  have hdiv : n / 2 ^ k = ((n / 2 ^ k : Nat) : Int) := by push_cast; rfl
  rw [hdiv, ofInt_natCast, ofInt_natCast]
  apply eq_of_toNat_eq
  rw [toNat_ushiftRight, toNat_ofNat, toNat_ofNat, mod_eq_of_lt hn,
    shiftRight_eq_div_pow, mod_eq_of_lt (lt_of_le_of_lt (div_le_self _ _) hn)]

lemma and_mask_ofInt {k} (hk : k ≤ w) {mask} (hmask : mask.toNat = 2 ^ k - 1) (a) :
    BitVec.ofInt w a &&& mask = BitVec.ofInt w (a % 2 ^ k) := by
  have hposw : (0 : Int) < 2 ^ w := by positivity
  obtain ⟨n, hn⟩ := Int.eq_ofNat_of_zero_le (Int.emod_nonneg a hposw.ne')
  have hmod : a % 2 ^ k = ((n % 2 ^ k : Nat) : Int) := by
    have hdvd : (2 : Int) ^ k ∣ 2 ^ w := pow_dvd_pow 2 hk
    rw [← Int.emod_emod_of_dvd a hdvd, hn]
    rfl
  have hlt : n % 2 ^ k < 2 ^ w := lt_of_lt_of_le (mod_lt _ (by positivity)) (Nat.pow_le_pow_right (by decide) hk)
  apply eq_of_toNat_eq
  rw [toNat_and, hmask, and_two_pow_sub_one_eq_mod, toNat_ofInt, hmod, ofInt_natCast, toNat_ofNat, mod_eq_of_lt hlt]
  have hcast : a % ((2 ^ w : Nat) : Int) = n := by rw [← hn]; push_cast; rfl
  rw [hcast, Int.toNat_natCast]

lemma mul_ediv_halves (x y : Int) {B t} (hB : 0 < B) (ht : t = x / B * (y % B) + x % B * (y % B) / B) :
    x * y / (B * B) = x / B * (y / B) + t / B + (x % B * (y / B) + t % B) / B := by
  have hx := Int.mul_ediv_add_emod x B
  have hy := Int.mul_ediv_add_emod y B
  have htd := Int.mul_ediv_add_emod t B
  have hprod : x * y = x % B * (y % B) + B * (B * (x / B * (y / B)) + x / B * (y % B) + x % B * (y / B)) := by
    calc x * y = (B * (x / B) + x % B) * (B * (y / B) + y % B) := by rw [hx, hy]
      _ = _ := by ring
  have hone : x * y / B = x % B * (y / B) + t % B + B * (x / B * (y / B) + t / B) := by
    rw [hprod, Int.add_mul_ediv_left _ _ hB.ne']
    linarith
  rw [← Int.ediv_ediv_of_nonneg hB.le, hone, Int.add_mul_ediv_left _ _ hB.ne']
  ring

lemma tdiv_eq_ediv_add {x D : Int} (hD : 0 < D) : x.tdiv D = (x + if x < 0 then D - 1 else 0) / D := by
  split
  · obtain ⟨n, rfl⟩ : ∃ n, x = -n := ⟨-x, (neg_neg x).symm⟩
    rw [Int.neg_tdiv, Int.tdiv_eq_ediv_of_nonneg (by omega)]
    have hdm := Int.mul_ediv_add_emod n D
    have hlo := Int.emod_nonneg n hD.ne'
    have hhi := Int.emod_lt_of_pos n hD
    have hzero : (D - 1 - n % D) / D = 0 := Int.ediv_eq_zero_of_lt (by omega) (by omega)
    rw [show -n + (D - 1) = D - 1 - n % D + D * (-(n / D)) by linarith, Int.add_mul_ediv_left _ _ hD.ne',
      hzero, zero_add]
  · rw [add_zero, Int.tdiv_eq_ediv_of_nonneg (by omega)]

end Rolp.Lib
