import Rolp.Opto.Division

/-!
# Modulo by constants is compiled correctly
-/

namespace Rolp.Opto

open Lib BitVec Node

variable {phase : Phase} {env : Env} {t : Ty}

lemma Ty.toInt_zero (t : Ty) : (0 : BitVec t.bits).toInt = 0 := by cases t <;> rfl

lemma Ty.toInt_one (t : Ty) : (1 : BitVec t.bits).toInt = 1 := by cases t <;> rfl

lemma Ty.toNat_one (t : Ty) : (1 : BitVec t.bits).toNat = 1 := by cases t <;> rfl

/-! ## The unrolled reduction -/

section
variable {in2 : Node t} {k : Nat}

variable {a : Int}

lemma fits_fold (hk : k ≤ t.bits - 1) (ha : Fits t.bits a) : Fits t.bits (fold k a) := by
  have hdm := Int.mul_ediv_add_emod a (2 ^ k)
  have hpow : 1 ≤ 2 ^ k := by exact_mod_cast Nat.one_le_two_pow
  have hle : 2 ^ k ≤ 2 ^ (t.bits - 1) := by exact_mod_cast Nat.pow_le_pow_right (by decide) hk
  have hsub : a - fold k a = (2 ^ k - 1) * (a / 2 ^ k) := by
    unfold fold
    linarith
  by_cases hneg : a < 0
  · have hq : a / 2 ^ k < 0 := Int.ediv_neg_of_neg_of_pos hneg (by positivity)
    have hmask := fold_le_mask (k := k) (x := a) (by linarith)
    constructor
    · nlinarith [ha.1]
    · linarith
  · have hq : 0 ≤ a / 2 ^ k := Int.ediv_nonneg (by omega) (by positivity)
    have h0 := fold_nonneg (k := k) (x := a) (by omega)
    constructor
    · linarith
    · nlinarith [ha.2]

lemma reduceRound_eval (h : phase.Sound env) (hk : k < t.bits - 1) (hmask : (in2.eval env).toNat = 2 ^ k - 1)
    {x} (ha : Fits t.bits a) (hx : x.eval env = BitVec.ofInt t.bits a) :
    (reduceRound phase in2 k x).eval env = BitVec.ofInt t.bits (fold k a) := by
  have hmod : k % t.bits = k := Nat.mod_eq_of_lt (by omega)
  unfold reduceRound
  rw [h.transform, eval, h.transform, eval, h.transform, eval, hx, hmod,
    sshiftRight_ofInt t.bits_pos ha, and_mask_ofInt (by omega) hmask, ← ofInt_add, fold]

lemma reduceRounds_eval (h : phase.Sound env) (hk : k < t.bits - 1) (hmask : (in2.eval env).toNat = 2 ^ k - 1)
    (tripCount) {x} (ha : Fits t.bits a) (hx : x.eval env = BitVec.ofInt t.bits a) :
    (reduceRounds phase in2 k tripCount x).eval env = BitVec.ofInt t.bits ((fold k)^[tripCount] a) ∧
      Fits t.bits ((fold k)^[tripCount] a) := by
  induction tripCount generalizing x a with
  | zero => exact ⟨hx, ha⟩
  | succ tripCount ih => exact ih (fits_fold hk.le ha) (reduceRound_eval h hk hmask ha hx)

lemma reduceMod_eval (h : phase.Sound env) {in1} (hk : k < t.bits - 1)
    (hmask : (in2.eval env).toNat = 2 ^ k - 1) {tripCount}
    (hupper : upper k tripCount (2 ^ (t.bits - 1) - 1) < 2 * (2 ^ k - 1))
    (hlower : -(2 ^ k - 1) < lower k tripCount (-2 ^ (t.bits - 1))) :
    (reduceMod phase in1 in2 k tripCount).eval env = javaRem (in1.eval env) (in2.eval env) := by
  obtain ⟨hlo, hhi⟩ := fits_toInt (in1.eval env)
  obtain ⟨heval, hfits⟩ := reduceRounds_eval h hk hmask tripCount (fits_toInt _) (ofInt_toInt).symm
  have hone : 2 ^ k - 1 = ((2 ^ k - 1 : Nat) : Int) := by
    push_cast [Nat.one_le_two_pow]
    rfl
  have hmaskInt : (in2.eval env).toInt = 2 ^ k - 1 := by
    have hlt : 2 ^ k < 2 ^ (t.bits - 1) := Nat.pow_lt_pow_right (by decide) hk
    have h2 := two_mul_pow_pred t.bits_pos
    rw [toInt_eq_toNat_of_lt (by omega), hmask, hone]
  have hin2 : in2.eval env = BitVec.ofInt t.bits (2 ^ k - 1) := by rw [← hmaskInt, ofInt_toInt]
  have hcmov : ((phase.transform (.cMoveGe in1 (.con 0) (.con 1) in2)).eval env).toInt =
      if (in1.eval env).toInt ≥ 0 then 2 ^ k - 1 else 1 := by
    rw [h.transform, eval, eval, t.toInt_zero]
    split
    · exact hmaskInt
    · exact t.toInt_one
  have hsub (a : Int) : BitVec.ofInt t.bits a - in2.eval env = BitVec.ofInt t.bits (a - (2 ^ k - 1)) := by
    rw [hin2, sub_eq_add_neg, ← ofInt_neg, ← ofInt_add]
    rfl
  unfold reduceMod
  rw [eval, hcmov, h.transform, eval, heval, toInt_ofInt_of_fits t.bits_pos hfits, javaRem, hmaskInt,
    tmod_eq_of_fold hlo (by linarith : (in1.eval env).toInt ≤ 2 ^ (t.bits - 1) - 1) hupper hlower,
    hsub, apply_ite (BitVec.ofInt t.bits)]

end

def UnrollOk (t : Ty) (unrollFactor : List Nat) : Prop :=
  ∀ k < t.bits - 1, unrollFactor.getD k 1 ≤ 5 →
    upper k (unrollFactor.getD k 1) (2 ^ (t.bits - 1) - 1) < 2 * (2 ^ k - 1) ∧
      -(2 ^ k - 1) < lower k (unrollFactor.getD k 1) (-2 ^ (t.bits - 1))

lemma unrollFactorInt_enough : UnrollOk .int unrollFactorInt := by
  unfold UnrollOk
  decide +kernel

lemma unrollFactorLong_enough : UnrollOk .long unrollFactorLong := by
  unfold UnrollOk
  decide +kernel

/-! ## Mask and multiply-back -/

section
variable {w : Nat} {x con posCon : BitVec w} {conPos : Bool}

section

variable (h : Magnitude con posCon conPos)

include h

lemma Magnitude.javaRem_eq (x) : javaRem x con = BitVec.ofInt w (x.toInt.tmod posCon.toNat) := by
  rw [javaRem, h.sign, h.toNat_eq]
  cases conPos with
  | true => rfl
  | false => simp [Int.tmod_neg]

lemma Magnitude.javaRem_eq_sub (x) : javaRem x con = x - BitVec.ofInt w (x.toInt.tdiv posCon.toNat * posCon.toNat) := by
  rw [h.javaRem_eq, Int.tmod_def, Int.sub_eq_add_neg, ofInt_add, ofInt_neg, ofInt_toInt, sub_eq_add_neg, Int.mul_comm]

lemma Magnitude.javaRem_one (h1 : posCon.toNat = 1) (x) : javaRem x con = 0 := by
  rw [h.javaRem_eq, h1]
  simp

lemma Magnitude.javaRem_mask {k} (hk : posCon.toNat = 2 ^ k)
    {x} (hx : 0 ≤ x.toInt) : javaRem x con = x &&& (posCon - 1) := by
  have hkw : k < w := by
    have h1 := posCon.isLt
    rw [hk] at h1
    exact (Nat.pow_lt_pow_iff_right (by decide)).1 h1
  have hone : (1 : BitVec w).toNat = 1 := Nat.mod_eq_of_lt (Nat.one_lt_two_pow (by omega))
  have hmask : (posCon - 1).toNat = 2 ^ k - 1 := by
    have hle : 1 ≤ posCon := by
      rw [le_def, hone, hk]
      exact Nat.one_le_two_pow
    rw [toNat_sub_of_le hle, hk, hone]
  have hand := and_mask_ofInt hkw.le hmask x.toInt
  rw [ofInt_toInt] at hand
  rw [hand, h.javaRem_eq, Int.tmod_eq_emod_of_nonneg hx, hk]
  rfl

end

end

def DivideOk (env : Env) (transformDivide : Node t → BitVec t.bits → Option (Option (Node t)))
    (noGraph : BitVec t.bits → Prop) : Prop :=
  ∀ (dividend : Node t) (divisor : BitVec t.bits), divisor ≠ 0 → divisor ≠ intMin t.bits →
    ∃ r, transformDivide dividend divisor = some r ∧ (r = none → divisor = 1 ∨ noGraph divisor) ∧
      ∀ q, r = some q → Divides env dividend divisor q

/-- `r` is the remainder if it is a graph at all. -/
def Remainder (env : Env) (in1 : Node t) (con : BitVec t.bits) (r : IdealResult t) : Prop :=
  ∀ n, r = .graph n → n.eval env = javaRem (in1.eval env) con

variable {transformDivide : Node t → BitVec t.bits → Option (Option (Node t))} {noGraph : BitVec t.bits → Prop}

lemma multiplyBack_spec (h : phase.Sound env) (hdiv : DivideOk env transformDivide noGraph) (in1 : Node t)
    {con posCon conPos} (hcon : Magnitude con posCon conPos) (hne : posCon ≠ 1) :
    ∃ r, multiplyBack phase transformDivide in1 posCon = some r ∧ Remainder env in1 con r ∧
      ((∃ n, r = .graph n) ∨ noGraph posCon) := by
  have hpos := hcon.pos
  have h0 : posCon ≠ 0 := by
    rintro rfl
    rw [t.toInt_zero] at hpos
    omega
  have hmin : posCon ≠ intMin t.bits := by
    intro hmin
    have hlt := hcon.toNat_lt
    rw [hmin, toNat_intMin_of_pos t.bits_pos] at hlt
    omega
  have hself : Magnitude posCon posCon true := ⟨hpos, rfl⟩
  obtain ⟨r, hr, hnone, hq⟩ := hdiv in1 posCon h0 hmin
  unfold multiplyBack
  rw [hr]
  refine ⟨_, rfl, ?_⟩
  cases r with
  | none =>
    refine ⟨nofun, .inr ?_⟩
    rcases hnone rfl with h1 | hno
    · exact absurd h1 hne
    · exact hno
  | some q =>
    refine ⟨?_, .inl ⟨_, rfl⟩⟩
    rintro _ ⟨rfl⟩
    have hquot : (phase.transform q).eval env =
        BitVec.ofInt t.bits ((in1.eval env).toInt.tdiv posCon.toNat) := by
      rw [h.transform, hq q rfl, hself.javaDiv_eq, if_pos rfl]
    rw [hcon.javaRem_eq_sub, eval]
    congr 1
    split
    next hpow =>
      obtain ⟨k, hk⟩ := (isPowerOf2_signExtend t.bits_le hpos.le).1 hpow
      have hkt := shift_lt hk hpos
      rw [h.transform, eval, hquot, hk, Nat.log2_two_pow, Nat.mod_eq_of_lt (by omega), shiftLeft_ofInt]
      rfl
    · rw [h.transform, eval, eval, hquot, ofInt_mul, ofInt_natCast, ofNat_toNat, setWidth_eq]

lemma mersenne_spec {con : BitVec t.bits} (h0 : 0 ≤ con.toInt) (hmax : con.toInt < 2 ^ (t.bits - 1) - 1)
    (hpow : isPowerOf2 ((con + 1).signExtend 64) = true) :
    con.toNat = 2 ^ (con + 1).toNat.log2 - 1 ∧ (con + 1).toNat.log2 < t.bits - 1 := by
  have hnat := toNat_of_toInt_nonneg h0
  have hlt : con.toNat + 1 < 2 ^ (t.bits - 1) := by
    have : ((con.toNat + 1 : Nat) : Int) < ((2 ^ (t.bits - 1) : Nat) : Int) := by
      push_cast
      linarith
    exact_mod_cast this
  have h2 := two_mul_pow_pred t.bits_pos
  have hsucc : (con + 1).toNat = con.toNat + 1 := by rw [toNat_add, t.toNat_one, Nat.mod_eq_of_lt (by omega)]
  have hint : 0 ≤ (con + 1).toInt := by
    rw [toInt_eq_toNat_of_lt (by omega)]
    exact Int.natCast_nonneg _
  obtain ⟨k, hk⟩ := (isPowerOf2_signExtend t.bits_le hint).1 hpow
  rw [hk, Nat.log2_two_pow]
  refine ⟨by omega, (Nat.pow_lt_pow_iff_right (by decide : 1 < 2)).1 (by omega)⟩

section

variable (h : phase.Sound env)

include h

lemma modByConstant_spec {unrollFactor} (hunroll : UnrollOk t unrollFactor)
    (hdiv : DivideOk env transformDivide noGraph) (in1 in2 : Node t) (h0 : in2.eval env ≠ 0)
    (hmin : in2.eval env ≠ intMin t.bits) :
    ∃ r, modByConstant phase unrollFactor transformDivide in1 in2 (in2.eval env) = some r ∧
      Remainder env in1 (in2.eval env) r ∧ ((∃ n, r = .graph n) ∨
        noGraph (if (in2.eval env).toInt ≥ 0 then in2.eval env else -in2.eval env)) := by
  have hd := magnitude h0 hmin
  simp only [decide_eq_true_eq] at hd
  unfold modByConstant
  dsimp only
  split
  next hcond =>
    obtain ⟨hpos, hmax, hpow, htrip, -⟩ := hcond
    obtain ⟨hmask, hk⟩ := mersenne_spec hpos hmax hpow
    obtain ⟨hupper, hlower⟩ := hunroll _ hk htrip
    refine ⟨_, rfl, ?_, .inl ⟨_, rfl⟩⟩
    rintro _ ⟨rfl⟩
    exact reduceMod_eval h hk hmask hupper hlower
  rw [if_neg (not_or.2 ⟨h0, hmin⟩)]
  generalize (if (in2.eval env).toInt ≥ 0 then in2.eval env else -in2.eval env) = posCon at hd ⊢
  split
  next h1 =>
    refine ⟨_, rfl, ?_, .inl ⟨_, rfl⟩⟩
    rintro _ ⟨rfl⟩
    rw [hd.javaRem_one (by rw [h1, t.toNat_one]), eval]
  rename_i h1
  split
  next hcond =>
    rw [Bool.and_eq_true] at hcond
    obtain ⟨hpow, hany⟩ := hcond
    obtain ⟨k, hk⟩ := (isPowerOf2_signExtend t.bits_le hd.pos.le).1 hpow
    obtain ⟨r, hr, hlo⟩ := (Option.any_eq_true _ _).1 hany
    have hx : 0 ≤ (in1.eval env).toInt := le_trans (of_decide_eq_true hlo) (h.lo_le hr)
    refine ⟨_, rfl, ?_, .inl ⟨_, rfl⟩⟩
    rintro _ ⟨rfl⟩
    rw [hd.javaRem_mask hk hx, eval, eval]
  · exact multiplyBack_spec h hdiv in1 hd h1

/-- `Ideal` for a modulus that is neither zero nor the smallest number. A constant modulus without a control input gives
a graph, unless the division gives none. -/
lemma modIdeal_spec {unrollFactor} (hunroll : UnrollOk t unrollFactor)
    (hdiv : DivideOk env transformDivide noGraph) (in0 in1 in2)
    (h0 : in2.eval env ≠ 0) (hmin : in2.eval env ≠ intMin t.bits) :
    ∃ r, modIdeal phase unrollFactor transformDivide in0 in1 in2 = some r ∧ Remainder env in1 (in2.eval env) r ∧
      (in0 = none → (phase.type in2).any TypeRange.isCon = true → (∃ n, r = .graph n) ∨
        noGraph (if (in2.eval env).toInt ≥ 0 then in2.eval env else -in2.eval env)) := by
  unfold modIdeal
  split
  next hdead =>
    refine ⟨_, rfl, nofun, ?_⟩
    rintro rfl
    simp at hdead
  split
  next htop =>
    refine ⟨_, rfl, nofun, ?_⟩
    rintro rfl
    simp at htop
  split
  next htype =>
    refine ⟨_, rfl, nofun, ?_⟩
    simp [htype]
  rename_i ti htype
  split
  next hyank =>
    refine ⟨_, rfl, nofun, ?_⟩
    rintro rfl
    simp at hyank
  split
  next hcon =>
    refine ⟨_, rfl, nofun, ?_⟩
    intro _ hany
    simp [htype] at hany hcon
    simp [hany] at hcon
  next hcon =>
    have hval := h.eval_of_isCon htype (by simpa using hcon)
    rw [← hval]
    obtain ⟨r, hr, hrem, hgraph⟩ := modByConstant_spec h hunroll hdiv in1 in2 h0 hmin
    exact ⟨r, hr, hrem, fun _ _ => hgraph⟩

lemma divideOk_int : DivideOk env (transformIntDivide phase) (fun _ => False) := by
  intro dividend divisor h0 hmin
  obtain ⟨r, hr, hnone, hq⟩ := transformIntDivide_spec h dividend h0 hmin
  exact ⟨r, hr, fun hn => .inl (hnone.1 hn), hq⟩

lemma divideOk_long : DivideOk env (transformLongDivide phase)
    (fun d => phase.useAsmForLdivByCon (if decide (d.toInt ≥ 0) then d else -d) = true) := by
  intro dividend divisor h0 hmin
  exact transformLongDivide_spec h dividend h0 hmin

end

/-- For every modulus but zero and the smallest number, whatever the control input and the types, `Ideal` ends and its
graph has the value of the Java remainder. A constant modulus without a control input gives a graph, for long unless the
platform divides itself. -/
theorem modulo_by_constant_is_exact (phase : Phase) (env : Env) (h : phase.Sound env) :
    (∀ (in0 : Option ControlInput) (in1 in2 : Node .int), in2.eval env ≠ 0 → in2.eval env ≠ intMin 32 →
      ∃ r, modIIdeal phase in0 in1 in2 = some r ∧
        (∀ n, r = .graph n → n.eval env = javaRem (in1.eval env) (in2.eval env)) ∧
        (in0 = none → (phase.type in2).any TypeRange.isCon = true → ∃ n, r = .graph n)) ∧
    (∀ (in0 : Option ControlInput) (in1 in2 : Node .long), in2.eval env ≠ 0 → in2.eval env ≠ intMin 64 →
      ∃ r, modLIdeal phase in0 in1 in2 = some r ∧
        (∀ n, r = .graph n → n.eval env = javaRem (in1.eval env) (in2.eval env)) ∧
        (in0 = none → (phase.type in2).any TypeRange.isCon = true → phase.useAsmForLdivByCon = (fun _ => false) →
          ∃ n, r = .graph n)) := by
  constructor
  · intro in0 in1 in2 h0 hmin
    obtain ⟨r, hr, hrem, hgraph⟩ := modIdeal_spec h unrollFactorInt_enough (divideOk_int h) in0 in1 in2 h0 hmin
    exact ⟨r, hr, hrem, fun hin0 hcon => (hgraph hin0 hcon).resolve_right id⟩
  · intro in0 in1 in2 h0 hmin
    obtain ⟨r, hr, hrem, hgraph⟩ := modIdeal_spec h unrollFactorLong_enough (divideOk_long h) in0 in1 in2 h0 hmin
    refine ⟨r, hr, hrem, fun hin0 hcon hasm => (hgraph hin0 hcon).resolve_right ?_⟩
    simp [hasm]

def constantPhase : Phase :=
  { plainPhase with
    type := fun n =>
      match n with
      | .con c => some ⟨c.toInt, c.toInt⟩
      | _ => none }

lemma constantPhase_type {t : Ty} {n : Node t} {r : TypeRange} (h : constantPhase.type n = some r) :
    ∃ c, n = .con c ∧ r = ⟨c.toInt, c.toInt⟩ := by
  cases n with
  | con c => exact ⟨c, rfl, (Option.some.inj h).symm⟩
  | _ => exact nomatch h

lemma constantPhase_sound (env) : constantPhase.Sound env where
  transform _ := rfl
  lo_le := by
    intro t n r h
    obtain ⟨c, rfl, rfl⟩ := constantPhase_type h
    exact le_rfl
  le_hi := by
    intro t n r h
    obtain ⟨c, rfl, rfl⟩ := constantPhase_type h
    exact le_rfl

theorem modulo_by_constant_is_exact_min :
    ∃ n, modIIdeal constantPhase none (.con (intMin 32)) (.con 255) = some (.graph n) ∧
      n.eval (fun _ _ => 0) = -128 := by
  obtain ⟨r, hr, hrem, hgraph⟩ := (modulo_by_constant_is_exact constantPhase (fun _ _ => 0)
    (constantPhase_sound _)).1 none (.con (intMin 32)) (.con 255) (by decide) (by decide)
  obtain ⟨n, rfl⟩ := hgraph rfl (by decide)
  refine ⟨n, hr, ?_⟩
  rw [hrem n rfl]
  decide

end Rolp.Opto
