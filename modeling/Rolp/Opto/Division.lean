import Mathlib.Data.Nat.Prime.Basic
import Rolp.Opto.Lemmas.Magic

/-!
# Division by constants is compiled correctly
-/

namespace Rolp.Opto

open Lib Lib.MagicDivision Nat BitVec Node

variable {phase : Phase} {env : Env}

/-! ## The divisor without its sign -/

section
variable {w : Nat} {divisor d : BitVec w} {dPos : Bool}

/-- `d` is the magnitude of the divisor and `dPos` its sign. -/
structure Magnitude (divisor d : BitVec w) (dPos : Bool) : Prop where
  pos : 0 < d.toInt
  sign : divisor.toInt = if dPos then d.toInt else -d.toInt

lemma magnitude (h0 : divisor ≠ 0) (hmin : divisor ≠ intMin w) :
    Magnitude divisor (if decide (divisor.toInt ≥ 0) then divisor else -divisor) (decide (divisor.toInt ≥ 0)) := by
  have hne : divisor.toInt ≠ 0 := by
    intro h
    apply h0
    apply eq_of_toInt_eq
    rw [h]
    simp
  have hneg := toInt_neg_of_ne_intMin hmin
  by_cases hs : divisor.toInt ≥ 0
  · simp only [hs, decide_true, if_true]
    exact ⟨by omega, rfl⟩
  · simp only [hs, decide_false, Bool.false_eq_true, if_false]
    exact ⟨by omega, by simp [hneg]⟩

lemma Magnitude.toNat_eq (h : Magnitude divisor d dPos) : (d.toNat : Int) = d.toInt := toNat_of_toInt_nonneg h.pos.le

lemma Magnitude.toNat_lt (h : Magnitude divisor d dPos) : d.toNat < 2 ^ (w - 1) := by
  have h1 := (fits_toInt d).2
  rw [← h.toNat_eq] at h1
  exact_mod_cast h1

lemma Magnitude.eq_one_iff (hw : 1 < w) (h : Magnitude divisor d dPos) : divisor = 1 ↔ dPos = true ∧ d = 1 := by
  have hone : (1 : BitVec w).toInt = 1 := by
    have h1 : (1 : BitVec w).toNat = 1 := mod_eq_of_lt (Nat.one_lt_two_pow (by omega))
    have h2 : 2 ^ 1 < 2 ^ w := Nat.pow_lt_pow_right (by decide) hw
    rw [toInt_eq_toNat_of_lt (by omega), h1]
    rfl
  have hpos := h.pos
  have hsign := h.sign
  rw [← toInt_inj, ← toInt_inj]
  cases dPos with
  | true => simp [hsign]
  | false =>
    simp only [Bool.false_eq_true, if_false] at hsign
    simp only [Bool.false_eq_true, false_and, iff_false]
    omega

lemma Magnitude.javaDiv_eq (h : Magnitude divisor d dPos) (x) :
    javaDiv x divisor = BitVec.ofInt w (if dPos then x.toInt.tdiv d.toNat else -x.toInt.tdiv d.toNat) := by
  rw [javaDiv, h.sign, h.toNat_eq]
  cases dPos with
  | true => rfl
  | false => simp [Int.tdiv_neg]

end

/-! ## Multiplication by the magic constant -/

section
variable {w : Nat} {m : BitVec w} {shift D : Nat}

lemma mulhi_add_back (x) : x * m.toInt / 2 ^ w + (if m.toInt < 0 then x else 0) = x * m.toNat / 2 ^ w := by
  have hpos : (0 : Int) < 2 ^ w := by positivity
  split
  next hneg =>
    have hm : m.toInt = m.toNat - 2 ^ w := by
      rw [toInt_eq_toNat_cond] at hneg ⊢
      split at hneg
      · omega
      next hge =>
        rw [if_neg hge]
        rfl
    rw [hm, show x * (m.toNat - 2 ^ w) = x * m.toNat + 2 ^ w * (-x) by ring, Int.add_mul_ediv_left _ _ hpos.ne']
    ring
  · rw [add_zero, toNat_of_toInt_nonneg (by omega)]

lemma fits_scaled {x} (hx : Fits w x) : Fits w (x * m.toNat / 2 ^ w) := by
  have hpos : (0 : Int) < 2 ^ w := by positivity
  have hlt : m.toNat ≤ 2 ^ w := by exact_mod_cast m.isLt.le
  constructor
  · rw [Int.le_ediv_iff_mul_le hpos]
    nlinarith [hx.1, hx.2]
  · rw [Int.ediv_lt_iff_lt_mul hpos]
    nlinarith [hx.1, hx.2]

lemma ediv_two_pow_add (a : Int) (i j : Nat) : a / 2 ^ i / 2 ^ j = a / 2 ^ (i + j) := by
  rw [pow_add, Int.ediv_ediv_of_nonneg (by positivity)]

lemma Magic.floor (hm : Magic w D m shift) (hw : 0 < w) (hD : 0 < D) (hDlt : D < 2 ^ (w - 1)) {x}
    (hx : Fits w x) : x * m.toNat / 2 ^ (w + shift) = x.tdiv D - if x < 0 then 1 else 0 := by
  have hdvd : 2 ^ (w - 1) ∣ 2 ^ (w + shift) := pow_dvd_pow 2 (by omega)
  have h := floor_mul_multiplier hD hDlt.le hm.enough hdvd (by push_cast; exact hx.1)
    (by push_cast; exact hx.2)
  rw [hm.multiplier]
  exact h

end

variable {t : Ty}

lemma adjustQuotient_eval (h : phase.Sound env) {dividend mulHi q}
    (hq : mulHi.eval env = BitVec.ofInt t.bits (q - if (dividend.eval env).toInt < 0 then 1 else 0)) (dPos) :
    (adjustQuotient phase dividend mulHi dPos).eval env = BitVec.ofInt t.bits (if dPos then q else -q) := by
  have hmod : (t.bits - 1) % t.bits = t.bits - 1 := mod_eq_of_lt (by have := t.bits_pos; omega)
  have hsign : (phase.transform (.rShift dividend (t.bits - 1))).eval env =
      BitVec.ofInt t.bits (if (dividend.eval env).toInt < 0 then -1 else 0) := by
    rw [h.transform, eval, hmod, sshiftRight_sign]
  unfold adjustQuotient
  cases dPos with
  | true =>
    simp only [if_true]
    rw [eval, hq, hsign, sub_eq_add_neg, ← ofInt_neg, ← ofInt_add]
    congr 1
    split <;> ring
  | false =>
    simp only [Bool.false_eq_true, if_false]
    rw [eval, hq, hsign, sub_eq_add_neg, ← ofInt_neg, ← ofInt_add]
    congr 1
    split <;> ring

lemma shift_eval (h : phase.Sound env) {mulHi a shift} (hs : shift < t.bits)
    (ha : Fits t.bits a) (hn : mulHi.eval env = BitVec.ofInt t.bits a) :
    (if shift ≠ 0 then phase.transform (.rShift mulHi shift) else mulHi).eval env =
      BitVec.ofInt t.bits (a / 2 ^ shift) := by
  split
  · rw [h.transform, eval, hn, mod_eq_of_lt hs, sshiftRight_ofInt t.bits_pos ha]
  · obtain rfl : shift = 0 := by omega
    rw [hn, pow_zero, Int.ediv_one]

/-! ## The transformations -/

def Divides (env : Env) {t : Ty} (dividend : Node t) (divisor : BitVec t.bits) (q : Node t) : Prop :=
  q.eval env = javaDiv (dividend.eval env) divisor

lemma divides_negate (env : Env) (dividend : Node t) {divisor d}
    (hd : Magnitude divisor d false) (h1 : d = 1) : Divides env dividend divisor (.sub (.con 0) dividend) := by
  have hone : d.toNat = 1 := by rw [h1]; cases t <;> rfl
  rw [Divides, hd.javaDiv_eq, hone, eval, eval]
  simp [ofInt_neg]

lemma divides_of_one (env : Env) (dividend : Node t) {divisor d dPos} (hd : Magnitude divisor d dPos) (h1 : d = 1) {q}
    (hq : (if dPos then none else some (.sub (.con 0) dividend)) = some q) : Divides env dividend divisor q := by
  cases dPos with
  | true => simp at hq
  | false =>
    simp only [Bool.false_eq_true, if_false, Option.some.injEq] at hq
    exact hq ▸ divides_negate env dividend hd h1

lemma divides_shift (h : phase.Sound env) (dividend : Node t) {divisor d dPos}
    (hd : Magnitude divisor d dPos) (hne : d ≠ 1) {positive}
    (hpositive : ∀ lo, positive lo = true → 0 ≤ lo) (hpow : ∃ k, d.toNat = 2 ^ k) :
    Divides env dividend divisor (shiftDivide phase positive dividend d dPos) := by
  obtain ⟨l, hl⟩ := hpow
  have hl0 : 0 < l := by
    apply pos_of_ne_zero
    rintro rfl
    apply hne
    apply eq_of_toNat_eq
    rw [hl]
    cases t <;> rfl
  rw [Divides, shiftDivide_eval h hpositive hl hd.pos hl0, hd.javaDiv_eq, hl]
  rfl

lemma not_dvd_two_pow {n} (h : ¬ ∃ k, n = 2 ^ k) (k) : ¬ n ∣ 2 ^ k := by
  intro hdvd
  obtain ⟨j, -, hj⟩ := (dvd_prime_pow prime_two).1 hdvd
  exact h ⟨j, hj⟩

lemma Magnitude.magic {w divisor d dPos} (hw : 1 < w) (hd : Magnitude divisor d dPos)
    (hpow : ¬ ∃ k, d.toNat = 2 ^ k) :
    ∃ m shift, magicDivideConstants w d = some (some (m, shift)) ∧ Magic w d.toNat m shift := by
  have h1 : d.toNat ≠ 1 := fun h => hpow ⟨0, h⟩
  have h2 : d.toNat ≠ 2 := fun h => hpow ⟨1, h⟩
  have h3 := hd.pos
  have h4 := hd.toNat_eq
  exact magicDivideConstants_eq hw (by omega) hd.toNat_lt (not_dvd_two_pow hpow)

section

variable (h : phase.Sound env)

include h

lemma divides_adjust {dividend mulHi divisor d m}
    {dPos shift} (hd : Magnitude divisor d dPos) (hm : Magic t.bits d.toNat m shift)
    (hmul : mulHi.eval env = BitVec.ofInt t.bits ((dividend.eval env).toInt * m.toNat / 2 ^ (t.bits + shift))) :
    Divides env dividend divisor (adjustQuotient phase dividend mulHi dPos) := by
  have hD : 0 < d.toNat := by have h1 := hd.pos; have h2 := hd.toNat_eq; omega
  rw [hm.floor t.bits_pos hD hd.toNat_lt (fits_toInt _)] at hmul
  rw [Divides, adjustQuotient_eval h hmul, hd.javaDiv_eq]

lemma intMulHi_eval (dividend : Node .int) (m : BitVec 32) {shift}
    (hshift : shift < 32) : (intMulHi phase dividend m shift).eval env =
      BitVec.ofInt 32 ((dividend.eval env).toInt * m.toNat / 2 ^ (32 + shift)) := by
  set x : BitVec 32 := dividend.eval env with hx
  have hfx := fits_toInt x
  have hfm := fits_toInt m
  have hprod : Fits 64 (x.toInt * m.toInt) := by
    have h1 : -2 ^ 31 ≤ x.toInt := hfx.1
    have h2 : x.toInt < 2 ^ 31 := hfx.2
    have h3 : -2 ^ 31 ≤ m.toInt := hfm.1
    have h4 : m.toInt < 2 ^ 31 := hfm.2
    constructor
    · show -2 ^ 63 ≤ _
      nlinarith
    · show _ < 2 ^ 63
      nlinarith
  have hmul : (phase.transform (.mul (phase.transform (.convI2L dividend)) (.con (m.signExtend 64)))).eval env =
      BitVec.ofInt 64 (x.toInt * m.toInt) := by
    have hxl : (dividend.eval env).signExtend 64 = BitVec.ofInt 64 x.toInt := by
      rw [← signExtend_ofInt (by decide) (by decide) hfx, ofInt_toInt]
    have hml : m.signExtend 64 = BitVec.ofInt 64 m.toInt := by
      rw [← signExtend_ofInt (by decide) (by decide) hfm, ofInt_toInt]
    rw [h.transform, eval, h.transform, eval, eval, hxl, hml, ofInt_mul]
  have hback := mulhi_add_back (m := m) (x := x.toInt)
  unfold intMulHi
  split
  next hneg =>
    rw [if_pos hneg] at hback
    have hadd : (phase.transform (.add dividend (phase.transform (.convL2I (phase.transform (.rShift
        (phase.transform (.mul (phase.transform (.convI2L dividend)) (.con (m.signExtend 64)))) 32)))))).eval env =
        BitVec.ofInt 32 (x.toInt * m.toNat / 2 ^ 32) := by
      rw [h.transform, eval, h.transform, eval, h.transform, eval, hmul,
        sshiftRight_ofInt (by decide) hprod, setWidth_ofInt (by decide), ← hback, add_comm, ofInt_add,
        ofInt_toInt]
      rfl
    rw [shift_eval (t := .int) h hshift (fits_scaled hfx) hadd, ediv_two_pow_add]
  · have hmod : (32 + shift) % Ty.long.bits = 32 + shift := mod_eq_of_lt (show 32 + shift < 64 by omega)
    rw [h.transform, eval, h.transform, eval, hmul, hmod,
      sshiftRight_ofInt (by decide) hprod, setWidth_ofInt (by decide),
      toNat_of_toInt_nonneg (x := m) (by omega)]

lemma longMulHi_eval (dividend : Node .long) (m : BitVec 64) {shift}
    (hshift : shift < 64) : (longMulHi phase dividend m shift).eval env =
      BitVec.ofInt 64 ((dividend.eval env).toInt * m.toNat / 2 ^ (64 + shift)) := by
  set x : BitVec 64 := dividend.eval env with hx
  have hback := mulhi_add_back (m := m)
  have hmul : (phase.transform (longByLongMulhi phase dividend m)).eval env =
      BitVec.ofInt 64 (x.toInt * m.toInt / 2 ^ 64) := by
    rw [h.transform, longByLongMulhi_eval h]
  have hadd : (if m.toInt < 0 then phase.transform (.add dividend (phase.transform (longByLongMulhi phase dividend m)))
      else phase.transform (longByLongMulhi phase dividend m)).eval env =
      BitVec.ofInt 64 (x.toInt * m.toNat / 2 ^ 64) := by
    rw [← hback]
    split
    · rw [h.transform, eval, hmul, add_comm, ofInt_add, ofInt_toInt]
    · rw [hmul, add_zero]
  unfold longMulHi
  rw [shift_eval (t := .long) h hshift (fits_scaled (fits_toInt x)) hadd, ediv_two_pow_add]

lemma transformIntDivide_spec (dividend : Node .int) {divisor} (h0 : divisor ≠ 0) (hmin : divisor ≠ intMin 32) :
    ∃ r, transformIntDivide phase dividend divisor = some r ∧ (r = none ↔ divisor = 1) ∧
      ∀ q, r = some q → Divides env dividend divisor q := by
  have hd := magnitude h0 hmin
  unfold transformIntDivide
  dsimp only
  generalize decide (divisor.toInt ≥ 0) = dPos at hd ⊢
  generalize (if dPos then divisor else -divisor) = d at hd ⊢
  rw [hd.eq_one_iff (by decide)]
  by_cases h1 : d = 1
  · rw [if_pos h1]
    refine ⟨_, rfl, ?_, ?_⟩
    · cases dPos <;> simp [h1]
    · exact fun q => divides_of_one env dividend hd h1
  rw [if_neg h1]
  by_cases hpow : isPowerOf2 (d.signExtend 64) = true
  · rw [if_pos hpow]
    refine ⟨_, rfl, ⟨nofun, fun hone => absurd hone.2 h1⟩, ?_⟩
    rintro _ ⟨rfl⟩
    exact divides_shift h dividend hd h1 (fun lo hlo => of_decide_eq_true hlo)
      ((isPowerOf2_signExtend (by decide) hd.pos.le).1 hpow)
  · rw [if_neg hpow]
    rw [isPowerOf2_signExtend (by decide) hd.pos.le] at hpow
    obtain ⟨m, shift, hconst, hm⟩ := hd.magic (by decide) hpow
    rw [magicIntDivideConstants, hconst]
    refine ⟨_, rfl, ⟨nofun, fun hone => absurd hone.2 h1⟩, ?_⟩
    rintro _ ⟨rfl⟩
    exact divides_adjust h hd hm (intMulHi_eval h dividend m hm.shift_lt)

lemma transformLongDivide_spec (dividend : Node .long) {divisor} (h0 : divisor ≠ 0) (hmin : divisor ≠ intMin 64) :
    ∃ r, transformLongDivide phase dividend divisor = some r ∧ (r = none → divisor = 1 ∨
        phase.useAsmForLdivByCon (if decide (divisor.toInt ≥ 0) then divisor else -divisor) = true) ∧
      ∀ q, r = some q → Divides env dividend divisor q := by
  have hd := magnitude h0 hmin
  unfold transformLongDivide
  dsimp only
  generalize decide (divisor.toInt ≥ 0) = dPos at hd ⊢
  generalize (if dPos then divisor else -divisor) = d at hd ⊢
  rw [hd.eq_one_iff (by decide)]
  by_cases h1 : d = 1
  · rw [if_pos h1]
    refine ⟨_, rfl, ?_, ?_⟩
    · cases dPos <;> simp [h1]
    · exact fun q => divides_of_one env dividend hd h1
  rw [if_neg h1]
  by_cases hpow : isPowerOf2 d = true
  · rw [if_pos hpow]
    refine ⟨_, rfl, nofun, ?_⟩
    rintro _ ⟨rfl⟩
    exact divides_shift h dividend hd h1 (fun lo hlo => (of_decide_eq_true hlo).le) ((isPowerOf2_iff d).1 hpow)
  rw [if_neg hpow]
  rw [isPowerOf2_iff] at hpow
  by_cases hasm : phase.useAsmForLdivByCon d = true
  · rw [if_pos hasm]
    exact ⟨none, rfl, fun _ => .inr hasm, nofun⟩
  · rw [if_neg hasm]
    obtain ⟨m, shift, hconst, hm⟩ := hd.magic (by decide) hpow
    rw [magicLongDivideConstants, hconst]
    refine ⟨_, rfl, nofun, ?_⟩
    rintro _ ⟨rfl⟩
    exact divides_adjust h hd hm (longMulHi_eval h dividend m hm.shift_lt)

end

/-- For every divisor but zero and the smallest number the transformation ends, and its graph has the value of the Java
quotient, for int and for long. The int form builds no graph only for the divisor 1, the long form only for 1 and where
the platform divides itself. -/
theorem division_by_constant_is_exact (phase : Phase) (env : Env) (h : phase.Sound env) :
    (∀ (dividend : Node .int) (divisor : BitVec 32), divisor ≠ 0 → divisor ≠ intMin 32 →
      ∃ r, transformIntDivide phase dividend divisor = some r ∧ (r = none ↔ divisor = 1) ∧
        ∀ q, r = some q → q.eval env = javaDiv (dividend.eval env) divisor) ∧
    (∀ (dividend : Node .long) (divisor : BitVec 64), divisor ≠ 0 → divisor ≠ intMin 64 →
      ∃ r, transformLongDivide phase dividend divisor = some r ∧ (r = none → divisor = 1 ∨
          phase.useAsmForLdivByCon (if decide (divisor.toInt ≥ 0) then divisor else -divisor) = true) ∧
        ∀ q, r = some q → q.eval env = javaDiv (dividend.eval env) divisor) :=
  ⟨fun dividend _ h0 hmin => transformIntDivide_spec h dividend h0 hmin,
    fun dividend _ h0 hmin => transformLongDivide_spec h dividend h0 hmin⟩

def plainPhase : Phase where
  transform n := n
  type _ := none
  hasMatchRuleMulHiL := false
  useAsmForLdivByCon _ := false
  conditionalMoveLimit := 3

lemma plainPhase_sound (env) : plainPhase.Sound env := ⟨fun _ => rfl, nofun, nofun⟩

theorem division_by_constant_is_exact_minus_seven :
    ∃ q, transformLongDivide plainPhase (.con (-7)) (-3) = some (some q) ∧ q.eval (fun _ _ => 0) = 2 := by
  obtain ⟨r, hr, hnone, hq⟩ := (division_by_constant_is_exact plainPhase (fun _ _ => 0)
    (plainPhase_sound _)).2 (.con (-7)) (-3) (by decide) (by decide)
  cases r with
  | none =>
    rcases hnone rfl with h1 | hasm
    · exact absurd h1 (by decide)
    · exact absurd hasm (by decide)
  | some q =>
    refine ⟨q, hr, ?_⟩
    rw [hq q rfl]
    decide

end Rolp.Opto
