import Rolp.Opto.Node
import Rolp.Lib.MagicDivision

/-!
# Shifts, upper halves and magic constants
-/

namespace Rolp.Opto

open Lib Nat BitVec Node

variable {w : Nat}

/-! ## Words that are powers of two -/

lemma isPowerOf2_iff (x) : isPowerOf2 x = true ↔ ∃ k, x.toNat = 2 ^ k := by
  have hiff := ne_zero_and_sub_one_eq_zero_iff_isPowerOfTwo (n := x.toNat)
  rw [isPowerOfTwo] at hiff
  rw [← hiff, isPowerOf2, Bool.and_eq_true, bne_iff_ne, beq_iff_eq, ne_eq, ← toNat_inj, ← toNat_inj]
  apply and_congr_right
  intro hne
  have hpos : 0 < x.toNat := pos_of_ne_zero hne
  have hle : 1 ≤ x := by exact hpos
  rw [toNat_and, toNat_sub_of_le hle]
  exact .rfl

lemma signExtend_toNat_of_nonneg {x : BitVec w} (hw : w ≤ 64) (h : 0 ≤ x.toInt) :
    (x.signExtend 64).toNat = x.toNat := by
  have h1 := toInt_signExtend_of_le (x := x) hw
  have h2 := toNat_of_toInt_nonneg h
  have h3 := toNat_of_toInt_nonneg (by rw [h1]; exact h)
  rw [h1, ← h2] at h3
  exact_mod_cast h3

lemma isPowerOf2_signExtend {x : BitVec w} (hw : w ≤ 64) (h : 0 ≤ x.toInt) :
    isPowerOf2 (x.signExtend 64) = true ↔ ∃ k, x.toNat = 2 ^ k := by
  rw [isPowerOf2_iff, signExtend_toNat_of_nonneg hw h]

lemma log2_pred {k : Nat} (hk : 0 < k) : (2 ^ k - 1).log2 + 1 = k := by
  have hge : 2 ^ 1 ≤ 2 ^ k := Nat.pow_le_pow_right (by decide) hk
  have hlog : (2 ^ k - 1).log2 = k - 1 := by
    rw [log2_eq_iff (by omega)]
    have h1 : 2 ^ (k - 1 + 1) = 2 ^ k := by congr 1; omega
    omega
  omega

/-! ## The shifted dividend -/

lemma Ty.bits_pos (t : Ty) : 0 < t.bits := by cases t <;> decide

lemma Ty.bits_le (t : Ty) : t.bits ≤ 64 := by cases t <;> decide

variable {phase : Phase} {env : Env} {t : Ty} {positive : Int → Bool} {dividend : Node t}
  {d : BitVec t.bits} {l : Nat}

/-- Without rounding the shift gives the quotient: the dividend is not negative, or a mask has cleared the bits that the
shift drops. -/
lemma needsRounding_spec (h : phase.Sound env) (hpositive : ∀ lo, positive lo = true → 0 ≤ lo) (dividend : Node t)
    (hd : d.toNat = 2 ^ l) (hd0 : 0 < d.toInt) : needsRounding phase positive dividend d = (dividend, true) ∨
      ∃ n, needsRounding phase positive dividend d = (n, false) ∧
        (n.eval env).toInt / 2 ^ l = (dividend.eval env).toInt.tdiv (2 ^ l) := by
  unfold needsRounding
  split
  next hany =>
    obtain ⟨r, hr, hlo⟩ := (Option.any_eq_true _ _).1 hany
    have hx := le_trans (hpositive _ hlo) (h.lo_le hr)
    exact .inr ⟨dividend, rfl, (Int.tdiv_eq_ediv_of_nonneg hx).symm⟩
  split
  next a mask _ =>
    split
    next r hr =>
      dsimp only
      split
      · rename_i hcond
        simp only [Bool.and_eq_true, decide_eq_true_eq] at hcond
        obtain ⟨⟨⟨hcon, hneg⟩, hpow⟩, hge⟩ := hcond
        set c := BitVec.ofInt t.bits r.lo with hc
        have hmask : mask.eval env = c := h.eval_of_isCon hr hcon
        obtain ⟨j, hj⟩ := (isPowerOf2_signExtend t.bits_le (by omega)).1 hpow
        have hand := toInt_and_of_neg_eq_two_pow t.bits_pos hj (a.eval env)
        have hlj : l ≤ j := by
          have h1 := toNat_of_toInt_nonneg (x := -c) (by omega)
          have h2 := toNat_of_toInt_nonneg hd0.le
          rw [← Nat.pow_le_pow_iff_right (by decide : 1 < 2)]
          omega
        obtain ⟨i, rfl⟩ := Nat.exists_eq_add_of_le hlj
        have hpos : (0 : Int) < 2 ^ l := by positivity
        have hx : (eval env (.and a mask)).toInt = (a.eval env).toInt / 2 ^ (l + i) * 2 ^ i * 2 ^ l := by
          rw [eval, hmask, hand]
          ring
        have hexact : (eval env (.and a mask)).toInt.tdiv (2 ^ l) =
            (a.eval env).toInt / 2 ^ (l + i) * 2 ^ i := by
          rw [hx, Int.mul_tdiv_cancel _ hpos.ne']
        right
        refine ⟨_, rfl, ?_⟩
        rw [hexact]
        split
        · rename_i heq
          have hi : i = 0 := by
            rw [heq, hd] at hj
            have := Nat.pow_right_injective (le_refl 2) hj
            omega
          subst hi
          simp
        · rw [hx, Int.mul_ediv_cancel _ hpos.ne']
      · exact .inl rfl
    · exact .inl rfl
  · exact .inl rfl

lemma shift_lt (hd : d.toNat = 2 ^ l) (hd0 : 0 < d.toInt) : l < t.bits - 1 := by
  have h1 := (fits_toInt d).2
  rw [← toNat_of_toInt_nonneg hd0.le, hd] at h1
  exact (Nat.pow_lt_pow_iff_right (by decide : 1 < 2)).1 (by exact_mod_cast h1)

lemma fits_rounded (x : BitVec t.bits) (hl : l < t.bits - 1) :
    Fits t.bits (x.toInt + if x.toInt < 0 then 2 ^ l - 1 else 0) := by
  obtain ⟨hlo, hhi⟩ := fits_toInt x
  have hle : (2 : Int) ^ l ≤ 2 ^ (t.bits - 1) := by exact_mod_cast Nat.pow_le_pow_right (by decide) hl.le
  have hpos : (0 : Int) < 2 ^ l := by positivity
  split
  · constructor <;> omega
  · constructor <;> omega

lemma shiftDivide_eval (h : phase.Sound env) (hpositive : ∀ lo, positive lo = true → 0 ≤ lo)
    (hd : d.toNat = 2 ^ l) (hd0 : 0 < d.toInt) (hl0 : 0 < l) (dPos : Bool) :
    (shiftDivide phase positive dividend d dPos).eval env =
      BitVec.ofInt t.bits (if dPos then (dividend.eval env).toInt.tdiv (2 ^ l)
        else -(dividend.eval env).toInt.tdiv (2 ^ l)) := by
  have hl := shift_lt hd hd0
  have hpos : (0 : Int) < 2 ^ l := by positivity
  have hlog : (d - 1).toNat.log2 + 1 = l := by
    have hle : 1 ≤ d := by
      rw [le_def, hd]
      cases t <;> exact Nat.one_le_two_pow
    have hone : (1 : BitVec t.bits).toNat = 1 := by cases t <;> rfl
    rw [toNat_sub_of_le hle, hd, hone, log2_pred hl0]
  have hmod : l % t.bits = l := mod_eq_of_lt (by omega)
  have hmodN : (t.bits - 1) % t.bits = t.bits - 1 := mod_eq_of_lt (by omega)
  have hmodl : (t.bits - l) % t.bits = t.bits - l := mod_eq_of_lt (by omega)
  suffices hq : ∀ n : Node t, (n.eval env).toInt / 2 ^ l = (dividend.eval env).toInt.tdiv (2 ^ l) →
      (if dPos then rShift n l else .sub (.con 0) (phase.transform (.rShift n l))).eval env =
        BitVec.ofInt t.bits (if dPos then (dividend.eval env).toInt.tdiv (2 ^ l)
          else -(dividend.eval env).toInt.tdiv (2 ^ l)) by
    unfold shiftDivide
    rcases needsRounding_spec h hpositive dividend hd hd0 with hr | ⟨n, hr, hn⟩
    · rw [hr]
      dsimp only
      rw [hlog, if_pos rfl]
      apply hq
      rw [h.transform, eval, h.transform, eval, h.transform, eval, hmodN, hmodl, sshiftRight_sign]
      have hround : BitVec.ofInt t.bits (if (dividend.eval env).toInt < 0 then -1 else 0) >>> (t.bits - l) =
          BitVec.ofInt t.bits (if (dividend.eval env).toInt < 0 then 2 ^ l - 1 else 0) := by
        split
        · exact ushiftRight_neg_one (by omega)
        · simp
      have hsum := toInt_ofInt_of_fits t.bits_pos (fits_rounded (dividend.eval env) hl)
      rw [ofInt_add, ofInt_toInt] at hsum
      rw [hround, hsum, tdiv_eq_ediv_add hpos]
    · rw [hr]
      dsimp only
      rw [hlog]
      exact hq n hn
  intro n hn
  have hshift : (rShift n l).eval env = BitVec.ofInt t.bits ((dividend.eval env).toInt.tdiv (2 ^ l)) := by
    rw [eval, hmod, sshiftRight_eq_ofInt, hn]
  cases dPos with
  | true => exact hshift
  | false =>
    simp only [Bool.false_eq_true, if_false]
    rw [eval, eval, h.transform, hshift, ofInt_neg]
    simp

/-! ## The upper half of the 64 bit product -/

lemma ediv_emod_half (x : BitVec 64) :
    -2 ^ 31 ≤ x.toInt / 2 ^ 32 ∧ x.toInt / 2 ^ 32 < 2 ^ 31 ∧ 0 ≤ x.toInt % 2 ^ 32 ∧ x.toInt % 2 ^ 32 < 2 ^ 32 := by
  obtain ⟨hlo, hhi⟩ := fits_toInt x
  omega

lemma fits_half_mul {a b c} (ha : -2 ^ 31 ≤ a) (ha' : a < 2 ^ 31) (hb : 0 ≤ b) (hb' : b < 2 ^ 32)
    (hc : 0 ≤ c) (hc' : c < 2 ^ 32) : Fits 64 (a * b + c) := by
  constructor
  · show -2 ^ 63 ≤ a * b + c
    nlinarith
  · show a * b + c < 2 ^ 63
    nlinarith

lemma and_low_half (x) : x &&& 0xFFFFFFFF#64 = BitVec.ofInt 64 (x.toInt % 2 ^ 32) := by
  have hmask : (0xFFFFFFFF#64).toNat = 2 ^ 32 - 1 := by decide
  have hm := and_mask_ofInt (by decide) hmask x.toInt
  rw [ofInt_toInt] at hm
  exact hm

/-- The value of the synthesised product. Each sum stays below 64 bits, so the shifts see the
exact numbers. -/
lemma mulhs_eq (u v t : BitVec 64)
    (ht : t = u.sshiftRight 32 * (v &&& 0xFFFFFFFF#64) + ((u &&& 0xFFFFFFFF#64) * (v &&& 0xFFFFFFFF#64)) >>> 32) :
    u.sshiftRight 32 * v.sshiftRight 32 + t.sshiftRight 32 +
        ((u &&& 0xFFFFFFFF#64) * v.sshiftRight 32 + (t &&& 0xFFFFFFFF#64)).sshiftRight 32 =
      BitVec.ofInt 64 (u.toInt * v.toInt / 2 ^ 64) := by
  obtain ⟨hu1, hu1', hu0, hu0'⟩ := ediv_emod_half u
  obtain ⟨hv1, hv1', hv0, hv0'⟩ := ediv_emod_half v
  have hlow0 : 0 ≤ u.toInt % 2 ^ 32 * (v.toInt % 2 ^ 32) := mul_nonneg hu0 hv0
  have hlow : u.toInt % 2 ^ 32 * (v.toInt % 2 ^ 32) < 2 ^ 32 * 2 ^ 32 := by nlinarith
  have hcarry : u.toInt % 2 ^ 32 * (v.toInt % 2 ^ 32) / 2 ^ 32 < 2 ^ 32 := by
    rw [Int.ediv_lt_iff_lt_mul (by norm_num)]
    exact hlow
  have hcarry0 := Int.ediv_nonneg hlow0 (by norm_num : (0 : Int) ≤ 2 ^ 32)
  have hlow' : u.toInt % 2 ^ 32 * (v.toInt % 2 ^ 32) < 2 ^ 64 := by exact hlow
  have htfit : Fits 64 (u.toInt / 2 ^ 32 * (v.toInt % 2 ^ 32) + u.toInt % 2 ^ 32 * (v.toInt % 2 ^ 32) / 2 ^ 32) :=
    fits_half_mul hu1 hu1' hv0 hv0' hcarry0 hcarry
  have htval : t.toInt = u.toInt / 2 ^ 32 * (v.toInt % 2 ^ 32) + u.toInt % 2 ^ 32 * (v.toInt % 2 ^ 32) / 2 ^ 32 := by
    rw [ht, sshiftRight_eq_ofInt, and_low_half, and_low_half, ← ofInt_mul, ← ofInt_mul,
      ushiftRight_ofInt hlow0 hlow', ← ofInt_add, toInt_ofInt_of_fits (by decide) htfit]
  have ht0 := Int.emod_nonneg t.toInt (by norm_num : (2 ^ 32 : Int) ≠ 0)
  have ht1 := Int.emod_lt_of_pos t.toInt (by norm_num : (0 : Int) < 2 ^ 32)
  have hfit1 : Fits 64 (u.toInt % 2 ^ 32 * (v.toInt / 2 ^ 32) + t.toInt % 2 ^ 32) := by
    rw [mul_comm]
    exact fits_half_mul hv1 hv1' hu0 hu0' ht0 ht1
  have hw1 : ((u &&& 0xFFFFFFFF#64) * v.sshiftRight 32 + (t &&& 0xFFFFFFFF#64)).toInt =
      u.toInt % 2 ^ 32 * (v.toInt / 2 ^ 32) + t.toInt % 2 ^ 32 := by
    rw [and_low_half, and_low_half, sshiftRight_eq_ofInt, ← ofInt_mul, ← ofInt_add,
      toInt_ofInt_of_fits (by decide) hfit1]
  rw [sshiftRight_eq_ofInt (_ + _), hw1, sshiftRight_eq_ofInt, sshiftRight_eq_ofInt, sshiftRight_eq_ofInt,
    ← ofInt_mul, ← ofInt_add, ← ofInt_add,
    ← mul_ediv_halves u.toInt v.toInt (by norm_num) htval]
  norm_num

lemma longByLongMulhi_eval (h : phase.Sound env) (dividend magic) : (longByLongMulhi phase dividend magic).eval env =
      BitVec.ofInt 64 ((dividend.eval env).toInt * magic.toInt / 2 ^ 64) := by
  unfold longByLongMulhi
  split
  · rw [eval, eval]
  · simp only [eval, h.transform]
    exact mulhs_eq _ _ _ rfl

/-! ## The loop of the magic constants -/

open Lib.MagicDivision Nat BitVec

lemma two_mul_pow_pred (hw : 0 < w) : 2 * 2 ^ (w - 1) = 2 ^ w := by
  rw [← pow_succ']
  congr 1
  omega

structure DivMod (P : Nat) (c q r : BitVec w) : Prop where
  quot : q.toNat = P / c.toNat
  rem : r.toNat = P % c.toNat

lemma toNat_two_mul (hw : 1 < w) {x : BitVec w} (h : x.toNat < 2 ^ (w - 1)) : (2 * x).toNat = 2 * x.toNat := by
  have h2 := two_mul_pow_pred (w := w) (by omega)
  have h4 : 2 ^ 1 < 2 ^ w := Nat.pow_lt_pow_right (by decide) hw
  have hlit : (2 : BitVec w).toNat = 2 := mod_eq_of_lt h4
  rw [toNat_mul, hlit, mod_eq_of_lt (by omega)]

lemma DivMod.double (hw : 1 < w) {P : Nat} {c q r : BitVec w} (h : DivMod P c q r)
    (hc0 : 0 < c.toNat) (hc : c.toNat ≤ 2 ^ (w - 1)) (hq : P / c.toNat < 2 ^ (w - 1)) :
    let qr := if c ≤ 2 * r then (2 * q + 1, 2 * r - c) else (2 * q, 2 * r)
    DivMod (2 * P) c qr.1 qr.2 := by
  have h2 := two_mul_pow_pred (w := w) (by omega)
  have hr : P % c.toNat < c.toNat := mod_lt _ hc0
  have hq2 : (2 * q).toNat = 2 * (P / c.toNat) := by rw [toNat_two_mul hw (by rw [h.quot]; exact hq), h.quot]
  have hr2 : (2 * r).toNat = 2 * (P % c.toNat) := by rw [toNat_two_mul hw (by rw [h.rem]; omega), h.rem]
  have hone : (1 : BitVec w).toNat = 1 := by
    have : 1 < 2 ^ w := Nat.one_lt_two_pow (by omega)
    exact mod_eq_of_lt this
  have hP := div_add_mod P c.toNat
  by_cases hle : c ≤ 2 * r
  · have hle' : c.toNat ≤ 2 * (P % c.toNat) := by rw [← hr2]; exact hle
    have hval : 2 * P = 2 * (P % c.toNat) - c.toNat + c.toNat * (2 * (P / c.toNat) + 1) := by
      have : c.toNat * (2 * (P / c.toNat) + 1) = 2 * (c.toNat * (P / c.toNat)) + c.toNat := by ring
      omega
    have hlt : 2 * (P % c.toNat) - c.toNat < c.toNat := by omega
    have hfit : 2 * (P / c.toNat) + 1 < 2 ^ w := by omega
    rw [if_pos hle]
    refine ⟨?_, ?_⟩
    · show (2 * q + 1).toNat = _
      rw [toNat_add, hq2, hone, mod_eq_of_lt hfit, hval, add_mul_div_left _ _ hc0, div_eq_of_lt hlt, zero_add]
    · show (2 * r - c).toNat = _
      rw [toNat_sub_of_le hle, hr2, hval, add_mul_mod_self_left, mod_eq_of_lt hlt]
  · have hlt' : 2 * (P % c.toNat) < c.toNat := by rw [← hr2]; exact Nat.lt_of_not_le hle
    have hval : 2 * P = 2 * (P % c.toNat) + c.toNat * (2 * (P / c.toNat)) := by
      have : c.toNat * (2 * (P / c.toNat)) = 2 * (c.toNat * (P / c.toNat)) := by ring
      omega
    rw [if_neg hle]
    refine ⟨?_, ?_⟩
    · show (2 * q).toNat = _
      rw [hq2, hval, add_mul_div_left _ _ hc0, div_eq_of_lt hlt', zero_add]
    · show (2 * r).toNat = _
      rw [hr2, hval, add_mul_mod_self_left, mod_eq_of_lt hlt']

lemma divMod_init (hw : 0 < w) {c} : let two31 := twoPow w (w - 1)
    DivMod (2 ^ (w - 1)) c (two31 / c) (two31 - two31 / c * c) := by
  have htwo : (twoPow w (w - 1)).toNat = 2 ^ (w - 1) := by
    rw [toNat_twoPow, mod_eq_of_lt (Nat.pow_lt_pow_right (by decide) (by omega))]
  have hdm := div_add_mod (2 ^ (w - 1)) c.toNat
  have hmul : (twoPow w (w - 1) / c * c).toNat = 2 ^ (w - 1) / c.toNat * c.toNat := by
    have := mul_comm c.toNat (2 ^ (w - 1) / c.toNat)
    rw [toNat_mul, toNat_udiv, htwo, mod_eq_of_lt (by omega)]
  refine ⟨by rw [toNat_udiv, htwo], ?_⟩
  have hle : twoPow w (w - 1) / c * c ≤ twoPow w (w - 1) := by
    rw [le_def, hmul, htwo]
    exact div_mul_le_self _ _
  rw [toNat_sub_of_le hle]
  have := mul_comm c.toNat (2 ^ (w - 1) / c.toNat)
  omega

namespace MagicState

structure At (ad anc : BitVec w) (s : MagicState w) : Prop where
  one : DivMod (2 ^ s.p) anc s.q1 s.r1
  two : DivMod (2 ^ s.p) ad s.q2 s.r2

structure Small (ad anc : BitVec w) (s : MagicState w) : Prop where
  one : 2 ^ s.p / anc.toNat < 2 ^ (w - 1)
  two : 2 ^ s.p / ad.toNat < anc.toNat

lemma at_init (hw : 0 < w) (ad anc : BitVec w) : (init ad anc).At ad anc := ⟨divMod_init hw, divMod_init hw⟩

lemma round_p (ad anc : BitVec w) (s : MagicState w) : (s.round ad anc).p = s.p + 1 := by simp only [round]

variable {ad anc : BitVec w} {s : MagicState w}

lemma At.round (hw : 1 < w) (h : s.At ad anc) (hs : s.Small ad anc) (had0 : 0 < ad.toNat)
    (had : ad.toNat ≤ 2 ^ (w - 1)) (hanc0 : 0 < anc.toNat) (hanc : anc.toNat ≤ 2 ^ (w - 1)) :
    (s.round ad anc).At ad anc := by
  have h1 := h.one.double hw hanc0 hanc hs.one
  have h2 := h.two.double hw had0 had (lt_of_lt_of_le hs.two hanc)
  rw [← pow_succ'] at h1 h2
  exact ⟨h1, h2⟩

lemma div_lt_or_eq_iff {P c e} (hc : 0 < c) : P / c < e ∨ P / c = e ∧ P % c = 0 ↔ P ≤ c * e := by
  have hdm := div_add_mod P c
  constructor
  · rintro (hlt | ⟨heq, hrem⟩)
    · have hmul : c * (P / c + 1) ≤ c * e := mul_le_mul_left c hlt
      have hr := mod_lt P hc
      rw [Nat.mul_add] at hmul
      omega
    · rw [heq] at hdm
      omega
  · intro hle
    rcases lt_or_ge (P / c) e with hlt | hge
    · exact .inl hlt
    right
    have hmul : c * e ≤ c * (P / c) := mul_le_mul_left c hge
    have heq : c * e = c * (P / c) := by omega
    exact ⟨(Nat.eq_of_mul_eq_mul_left hc heq).symm, by omega⟩

lemma again_iff (h : s.At ad anc) (had0 : 0 < ad.toNat) (hanc0 : 0 < anc.toNat) :
    s.again ad = true ↔ 2 ^ s.p ≤ anc.toNat * excess (2 ^ s.p) ad.toNat := by
  have hr2 : s.r2.toNat ≤ ad.toNat := by
    rw [h.two.rem]
    exact (mod_lt _ had0).le
  have hdelta : (ad - s.r2).toNat = excess (2 ^ s.p) ad.toNat := by rw [toNat_sub_of_le hr2, h.two.rem, excess]
  rw [← div_lt_or_eq_iff hanc0, ← h.one.quot, ← h.one.rem, ← hdelta]
  simp only [again, Bool.or_eq_true, Bool.and_eq_true, beq_iff_eq, decide_eq_true_eq, lt_def,
    toNat_eq, ofNat_eq_ofNat, toNat_ofNat, zero_mod]

structure Final (ad anc : BitVec w) (s : MagicState w) : Prop where
  quot : s.q2.toNat = 2 ^ s.p / ad.toNat
  le_p : w ≤ s.p
  p_lt : s.p ≤ 2 * (w - 1)
  fits : s.q2.toNat + 1 < 2 ^ w
  enough : anc.toNat * excess (2 ^ s.p) ad.toNat < 2 ^ s.p

variable (hw : 1 < w) (had0 : 0 < ad.toNat) (had : ad.toNat < 2 ^ (w - 1)) (hanc0 : 0 < anc.toNat)
  (hanc : anc.toNat < 2 ^ (w - 1)) (hodd : ∀ k, ¬ ad.toNat ∣ 2 ^ k)

include had0 hanc0 hodd in
lemma small_of_again (h : s.At ad anc) (had : ad.toNat < 2 ^ (w - 1)) (hgo : s.again ad = true) : s.Small ad anc := by
  rw [again_iff h had0 hanc0] at hgo
  have hexc : excess (2 ^ s.p) ad.toNat < ad.toNat := excess_lt (hodd _) had0
  constructor
  · calc 2 ^ s.p / anc.toNat ≤ excess (2 ^ s.p) ad.toNat := Nat.div_le_of_le_mul hgo
      _ < 2 ^ (w - 1) := lt_trans hexc had
  · rw [div_lt_iff_lt_mul had0]
    calc 2 ^ s.p ≤ anc.toNat * excess (2 ^ s.p) ad.toNat := hgo
      _ < anc.toNat * ad.toNat := mul_lt_mul_of_pos_left hexc hanc0

include had0 had hanc0 hanc in
lemma p_lt_of_again (h : s.At ad anc) (hgo : s.again ad = true) : s.p < 2 * (w - 1) := by
  rw [again_iff h had0 hanc0] at hgo
  apply (Nat.pow_lt_pow_iff_right (by decide : 1 < 2)).1
  calc 2 ^ s.p ≤ anc.toNat * excess (2 ^ s.p) ad.toNat := hgo
    _ ≤ anc.toNat * ad.toNat := mul_le_mul_left _ excess_le
    _ < 2 ^ (w - 1) * 2 ^ (w - 1) := mul_lt_mul'' hanc had
    _ = 2 ^ (2 * (w - 1)) := by rw [← pow_add]; congr 1; omega

include hw had0 had hanc0 hanc hodd in
/-- A round that goes on is below `2 ^ (2 * (w - 1))`, so the rounds from `p` up to there suffice. -/
lemma loop_final (rounds : Nat) (s : MagicState w) (h : s.At ad anc) (hs : s.Small ad anc)
    (hp : w ≤ s.p + 1) (hp2 : s.p < 2 * (w - 1)) (hr : 2 * (w - 1) ≤ s.p + rounds) :
    ∃ s', loop ad anc rounds s = some s' ∧ s'.Final ad anc := by
  induction rounds generalizing s with
  | zero => omega
  | succ rounds ih =>
    have hat := h.round hw hs had0 had.le hanc0 hanc.le
    have hpr := round_p ad anc s
    simp only [loop]
    by_cases hgo : (s.round ad anc).again ad = true
    · rw [if_pos hgo]
      have hplt := p_lt_of_again had0 had hanc0 hanc hat hgo
      exact ih _ hat (small_of_again had0 hanc0 hodd hat had hgo) (by omega) hplt (by omega)
    rw [if_neg hgo]
    have henough := hgo
    rw [again_iff hat had0 hanc0, not_le] at henough
    have h2 := two_mul_pow_pred (w := w) (by omega)
    have hquot : 2 ^ (s.p + 1) / ad.toNat ≤ 2 * (2 ^ s.p / ad.toNat) + 1 := by
      rw [pow_succ', ← Nat.lt_succ_iff, div_lt_iff_lt_mul had0]
      have hdm := div_add_mod (2 ^ s.p) ad.toNat
      have hlt := mod_lt (2 ^ s.p) had0
      have : (2 * (2 ^ s.p / ad.toNat) + 1).succ * ad.toNat =
          2 * (ad.toNat * (2 ^ s.p / ad.toNat)) + 2 * ad.toNat := by
        rw [succ_eq_add_one]; ring
      omega
    refine ⟨_, rfl, ⟨hat.two.quot, by omega, by omega, ?_, henough⟩⟩
    rw [hat.two.quot, hpr]
    have := hs.two
    omega

end MagicState

/-- The multiplier and the shift that `magicDivideConstants` returns for a positive divisor that
is no power of two. -/
structure Magic (w d : Nat) (m : BitVec w) (shift : Nat) : Prop where
  multiplier : m.toNat = multiplier (2 ^ (w + shift)) d
  enough : lastFull (2 ^ (w - 1)) d * excess (2 ^ (w + shift)) d < 2 ^ (w + shift)
  shift_lt : shift < w

variable {d : BitVec w}

lemma lastFull_toNat (hw : 0 < w) (hd1 : 0 < d.toNat) (hdlt : d.toNat < 2 ^ (w - 1)) :
    (twoPow w (w - 1) - 1 - twoPow w (w - 1) % d).toNat = lastFull (2 ^ (w - 1)) d.toNat := by
  have hpow : 2 ^ (w - 1) < 2 ^ w := Nat.pow_lt_pow_right (by decide) (by omega)
  have hone : (1 : BitVec w).toNat = 1 := mod_eq_of_lt (Nat.one_lt_two_pow (by omega))
  have htwo : (twoPow w (w - 1)).toNat = 2 ^ (w - 1) := by rw [toNat_twoPow, mod_eq_of_lt hpow]
  have hle1 : 1 ≤ twoPow w (w - 1) := by
    rw [le_def, hone, htwo]
    exact Nat.one_le_two_pow
  have hmod := mod_lt (2 ^ (w - 1)) hd1
  have hle2 : twoPow w (w - 1) % d ≤ twoPow w (w - 1) - 1 := by
    rw [le_def, toNat_umod, toNat_sub_of_le hle1, htwo]
    omega
  rw [toNat_sub_of_le hle2, toNat_sub_of_le hle1, toNat_umod, htwo, hone, lastFull]

lemma ushiftRight_top (hdlt : d.toNat < 2 ^ (w - 1)) : d >>> (w - 1) = 0#w := by
  apply eq_of_toNat_eq
  rw [toNat_ushiftRight, shiftRight_eq_div_pow, div_eq_of_lt hdlt]
  simp

lemma toInt_of_toNat_lt (hw : 0 < w) (hdlt : d.toNat < 2 ^ (w - 1)) : d.toInt = d.toNat := by
  have := two_mul_pow_pred hw
  exact toInt_eq_toNat_of_lt (by omega)

lemma magicDivideConstants_eq (hw : 1 < w) (hd : 2 < d.toNat)
    (hdlt : d.toNat < 2 ^ (w - 1)) (hodd : ∀ k, ¬ d.toNat ∣ 2 ^ k) :
    ∃ m shift, magicDivideConstants w d = some (some (m, shift)) ∧ Magic w d.toNat m shift := by
  have hint := toInt_of_toNat_lt (by omega) hdlt
  have hne : ¬ (d = 0 ∨ d = 1) := by
    have hone : (1 : BitVec w).toNat = 1 := mod_eq_of_lt (Nat.one_lt_two_pow (by omega))
    rintro (rfl | rfl)
    · simp at hd
    · omega
  have hanc := lastFull_toNat (by omega) (by omega) hdlt
  set anc := twoPow w (w - 1) - 1 - twoPow w (w - 1) % d with hancdef
  have hsucc := lastFull_succ (by omega) hdlt.le
  have hq : 0 < 2 ^ (w - 1) / d.toNat := div_pos hdlt.le (by omega)
  have hq3 : 3 * (2 ^ (w - 1) / d.toNat) ≤ d.toNat * (2 ^ (w - 1) / d.toNat) := mul_le_mul_right _ hd
  have hanclt : anc.toNat < 2 ^ (w - 1) := by
    rw [hanc]
    exact lastFull_lt Nat.one_le_two_pow
  have hsmall : (MagicState.init d anc).Small d anc := by
    constructor
    · show 2 ^ (w - 1) / anc.toNat < 2 ^ (w - 1)
      exact div_lt_self (by positivity) (by omega)
    · show 2 ^ (w - 1) / d.toNat < anc.toNat
      omega
  obtain ⟨s, hs, hf⟩ := MagicState.loop_final hw (by omega) hdlt (by omega) hanclt hodd w _
    (MagicState.at_init (by omega) d anc) hsmall (by simp only [MagicState.init]; omega)
    (by simp only [MagicState.init]; omega) (by simp only [MagicState.init]; omega)
  have hp : w + (s.p - w) = s.p := by have := hf.le_p; omega
  refine ⟨s.q2 + 1, s.p - w, ?_, ?_, ?_, ?_⟩
  · simp only [magicDivideConstants]
    rw [if_neg hne, if_pos (by omega), ushiftRight_top hdlt, BitVec.add_zero, hs]
    rw [Option.map_some, if_neg (by omega)]
  · have hone : (1 : BitVec w).toNat = 1 := mod_eq_of_lt (Nat.one_lt_two_pow (by omega))
    rw [toNat_add, hone, Nat.mod_eq_of_lt hf.fits, hf.quot, hp, multiplier]
  · rw [hp, ← hanc]
    exact hf.enough
  · have := hf.p_lt
    omega

end Rolp.Opto
