import Rolp.Lib.SignedWord

/-!
# Ideal nodes of the optimising compiler

The arithmetic nodes that the transformations of `divnode.cpp` build, with their values. `I` and `L` forms of one
operation are one constructor, indexed by the type.
-/

namespace Rolp.Opto

/-- `T_INT` and `T_LONG`. -/
inductive Ty where
  | int
  | long
  deriving DecidableEq

@[reducible] def Ty.bits : Ty → Nat
  | .int => 32
  | .long => 64

inductive Node : Ty → Type where
  /-- a node whose own inputs no transformation here looks at -/
  | input {t : Ty} (i : Nat) : Node t
  | con {t : Ty} (c : BitVec t.bits) : Node t
  | add {t : Ty} (a b : Node t) : Node t
  | sub {t : Ty} (a b : Node t) : Node t
  | mul {t : Ty} (a b : Node t) : Node t
  | and {t : Ty} (a b : Node t) : Node t
  /-- `RShift`, `URShift` and `LShift` by an `intcon` -/
  | rShift {t : Ty} (a : Node t) (count : Nat) : Node t
  | urShift {t : Ty} (a : Node t) (count : Nat) : Node t
  | lShift {t : Ty} (a : Node t) (count : Nat) : Node t
  | convI2L (a : Node .int) : Node .long
  | convL2I (a : Node .long) : Node .int
  | mulHiL (a b : Node .long) : Node .long
  /-- `CMove(Bool(Cmp(a, b), ge), ifFalse, ifTrue)` -/
  | cMoveGe {t : Ty} (a b ifFalse ifTrue : Node t) : Node t

/-- The values of the opaque nodes. -/
abbrev Env := (t : Ty) → Nat → BitVec t.bits

def Node.eval (env : Env) : {t : Ty} → Node t → BitVec t.bits
  | t, input i => env t i
  | _, con c => c
  | _, add a b => eval env a + eval env b
  | _, sub a b => eval env a - eval env b
  | _, mul a b => eval env a * eval env b
  | _, and a b => eval env a &&& eval env b
  | t, rShift a count => (eval env a).sshiftRight (count % t.bits)
  | t, urShift a count => eval env a >>> (count % t.bits)
  | t, lShift a count => eval env a <<< (count % t.bits)
  | _, convI2L a => (eval env a).signExtend 64
  | _, convL2I a => (eval env a).setWidth 32
  | _, mulHiL a b => BitVec.ofInt 64 ((eval env a).toInt * (eval env b).toInt / 2 ^ 64)
  | _, cMoveGe a b ifFalse ifTrue =>
    if (eval env a).toInt ≥ (eval env b).toInt then eval env ifTrue else eval env ifFalse

/-- `TypeInt` and `TypeLong`: the values of a node lie between `lo` and `hi`. -/
structure TypeRange where
  lo : Int
  hi : Int
  deriving DecidableEq

def TypeRange.isCon (r : TypeRange) : Bool := r.lo == r.hi

/-- What the transformations ask of `PhaseGVN`, of the platform's `Matcher` and of the flags. -/
structure Phase where
  transform : {t : Ty} → Node t → Node t
  /-- `none` is a type that is not an integer range, such as `TOP` -/
  type : {t : Ty} → Node t → Option TypeRange
  hasMatchRuleMulHiL : Bool
  useAsmForLdivByCon : BitVec 64 → Bool
  conditionalMoveLimit : Nat

/-- The phase rewrites nodes to equal ones and its types hold of the values. -/
structure Phase.Sound (phase : Phase) (env : Env) : Prop where
  transform : ∀ {t : Ty} (n : Node t), (phase.transform n).eval env = n.eval env
  lo_le : ∀ {t : Ty} {n : Node t} {r : TypeRange}, phase.type n = some r → r.lo ≤ (n.eval env).toInt
  le_hi : ∀ {t : Ty} {n : Node t} {r : TypeRange}, phase.type n = some r → (n.eval env).toInt ≤ r.hi

lemma Phase.Sound.eval_of_isCon {phase : Phase} {env : Env} (h : phase.Sound env) {t : Ty}
    {n : Node t} {r : TypeRange} (hr : phase.type n = some r) (hcon : r.isCon = true) :
    n.eval env = BitVec.ofInt t.bits r.lo := by
  have h1 := h.lo_le hr
  have h2 := h.le_hi hr
  have h3 : r.lo = r.hi := by simpa [TypeRange.isCon] using hcon
  rw [show r.lo = (n.eval env).toInt by omega, BitVec.ofInt_toInt]

/-- `is_power_of_2` on an `intptr_t`, and `is_power_of_2_long`. -/
def isPowerOf2 (x : BitVec 64) : Bool := x != 0 && x &&& (x - 1) == 0

def javaDiv {w : Nat} (x y : BitVec w) : BitVec w := BitVec.ofInt w (x.toInt.tdiv y.toInt)

def javaRem {w : Nat} (x y : BitVec w) : BitVec w := BitVec.ofInt w (x.toInt.tmod y.toInt)

/-!
## Division by constants

`magic_int_divide_constants`, `transform_int_divide`, `magic_long_divide_constants`, `long_by_long_mulhi` and
`transform_long_divide` of `divnode.cpp`. The outer `Option` is `none` when the loop has not ended within the rounds it
is given.
-/

/-! ## Magic constants -/

/-- The variables of the loop; `p` counts the power of two, the others are unsigned words. -/
structure MagicState (w : Nat) where
  p : Nat
  q1 : BitVec w
  r1 : BitVec w
  q2 : BitVec w
  r2 : BitVec w
  deriving DecidableEq

namespace MagicState

variable {w : Nat}

def init (ad anc : BitVec w) : MagicState w :=
  let two31 := BitVec.twoPow w (w - 1)
  let q1 := two31 / anc
  let q2 := two31 / ad
  { p := w - 1, q1 := q1, r1 := two31 - q1 * anc, q2 := q2, r2 := two31 - q2 * ad }

/-- The body of the `do` loop. -/
def round (ad anc : BitVec w) (s : MagicState w) : MagicState w :=
  let q1 := 2 * s.q1
  let r1 := 2 * s.r1
  let (q1, r1) := if anc ≤ r1 then (q1 + 1, r1 - anc) else (q1, r1)
  let q2 := 2 * s.q2
  let r2 := 2 * s.r2
  let (q2, r2) := if ad ≤ r2 then (q2 + 1, r2 - ad) else (q2, r2)
  { p := s.p + 1, q1 := q1, r1 := r1, q2 := q2, r2 := r2 }

/-- The condition of the `while`. -/
def again (ad : BitVec w) (s : MagicState w) : Bool :=
  let delta := ad - s.r2
  s.q1 < delta || s.q1 == delta && s.r1 == 0

def loop (ad anc : BitVec w) : Nat → MagicState w → Option (MagicState w)
  | 0, _ => none
  | rounds + 1, s =>
    let s := round ad anc s
    if s.again ad then loop ad anc rounds s else some s

end MagicState

/-- `magic_int_divide_constants` and `magic_long_divide_constants`: the multiplier `M` and the shift `s`, or `none` for
false. -/
def magicDivideConstants {w : Nat} (rounds : Nat) (d : BitVec w) : Option (Option (BitVec w × Nat)) :=
  let ad := if 0 < d.toInt then d else -d
  if d = 0 ∨ d = 1 then some none
  else
    let t := BitVec.twoPow w (w - 1) + d >>> (w - 1)
    let anc := t - 1 - t % ad
    (MagicState.loop ad anc rounds (MagicState.init ad anc)).map fun s =>
      let m := s.q2 + 1
      some (if d.toInt < 0 then -m else m, s.p - w)

/-- The loop is given one round for each power of two from `2 ^ w` to `2 ^ (2 * w)`. -/
def magicIntDivideConstants (d : BitVec 32) : Option (Option (BitVec 32 × Nat)) :=
  magicDivideConstants 32 d

def magicLongDivideConstants (d : BitVec 64) : Option (Option (BitVec 64 × Nat)) :=
  magicDivideConstants 64 d

/-! ## Powers of two -/

variable (phase : Phase)

variable {t : Ty} (positive : Int → Bool) (dividend : Node t) (d : BitVec t.bits)

/-- The dividend to shift and whether it needs rounding. `positive` is the test on the lower bound of its type. -/
def needsRounding : Node t × Bool :=
  if (phase.type dividend).any (fun dt => positive dt.lo) then (dividend, false)
  else
    match dividend with
    | .and a mask =>
      match phase.type mask with
      | some r =>
        let andcon := BitVec.ofInt t.bits r.lo
        if r.isCon && decide (andcon.toInt < 0) && isPowerOf2 ((-andcon).signExtend 64) &&
            decide ((-andcon).toInt ≥ d.toInt) then
          (if -andcon = d then a else dividend, false)
        else (dividend, true)
      | none => (dividend, true)
    | _ => (dividend, true)

def shiftDivide (dPos : Bool) : Node t :=
  let (dividend, rounding) := needsRounding phase positive dividend d
  let l := (d - 1).toNat.log2 + 1
  let dividend :=
    if rounding then
      let sign := phase.transform (.rShift dividend (t.bits - 1))
      let round := phase.transform (.urShift sign (t.bits - l))
      phase.transform (.add dividend round)
    else dividend
  let q := .rShift dividend l
  if dPos then q else .sub (.con 0) (phase.transform q)

/-! ## Multiplication by the magic constant -/

def intMulHi (dividend : Node .int) (magic : BitVec 32) (shift : Nat) : Node .int :=
  let dividendLong := phase.transform (.convI2L dividend)
  let mulHi := phase.transform (.mul dividendLong (.con (magic.signExtend 64)))
  if magic.toInt < 0 then
    let mulHi := phase.transform (.rShift mulHi 32)
    let mulHi := phase.transform (.convL2I mulHi)
    -- the constant was read as `magic - 2 ^ 32`, so one dividend is added back
    let mulHi := phase.transform (.add dividend mulHi)
    if shift ≠ 0 then phase.transform (.rShift mulHi shift) else mulHi
  else
    let mulHi := phase.transform (.rShift mulHi (32 + shift))
    phase.transform (.convL2I mulHi)

variable (dividend : Node .long) (magic : BitVec 64)

def longByLongMulhi : Node .long :=
  if phase.hasMatchRuleMulHiL then .mulHiL dividend (.con magic)
  else
    let u0 := phase.transform (.and dividend (.con 0xFFFFFFFF))
    let u1 := phase.transform (.rShift dividend 32)
    let v0 := .con (magic &&& 0xFFFFFFFF)
    let v1 := .con (magic.sshiftRight 32)
    let w0 := phase.transform (.mul u0 v0)
    let u1v0 := phase.transform (.mul u1 v0)
    let temp := phase.transform (.urShift w0 32)
    let t := phase.transform (.add u1v0 temp)
    let w1 := phase.transform (.and t (.con 0xFFFFFFFF))
    let w2 := phase.transform (.rShift t 32)
    let u0v1 := phase.transform (.mul u0 v1)
    let w1 := phase.transform (.add u0v1 w1)
    let u1v1 := phase.transform (.mul u1 v1)
    let temp1 := phase.transform (.add u1v1 w2)
    let temp2 := phase.transform (.rShift w1 32)
    .add temp1 temp2

def longMulHi (shift : Nat) : Node .long :=
  let mulHi := phase.transform (longByLongMulhi phase dividend magic)
  let mulHi := if magic.toInt < 0 then phase.transform (.add dividend mulHi) else mulHi
  if shift ≠ 0 then phase.transform (.rShift mulHi shift) else mulHi

/-- Subtracting the sign of the dividend adds 1 to a negative quotient; for a negative divisor the
operands are swapped. -/
def adjustQuotient {t : Ty} (dividend mulHi : Node t) (dPos : Bool) : Node t :=
  let sign := phase.transform (.rShift dividend (t.bits - 1))
  if dPos then .sub mulHi sign else .sub sign mulHi

/-! ## The transformations -/

def transformIntDivide (dividend : Node .int) (divisor : BitVec 32) : Option (Option (Node .int)) :=
  let dPos := decide (divisor.toInt ≥ 0)
  let d := if dPos then divisor else -divisor
  if d = 1 then some (if dPos then none else some (.sub (.con 0) dividend))
  else if isPowerOf2 (d.signExtend 64) then
    some (some (shiftDivide phase (fun lo => decide (lo ≥ 0)) dividend d dPos))
  else
    (magicIntDivideConstants d).map fun constants => constants.map fun (magic, shift) =>
      adjustQuotient phase dividend (intMulHi phase dividend magic shift) dPos

def transformLongDivide (dividend : Node .long) (divisor : BitVec 64) : Option (Option (Node .long)) :=
  let dPos := decide (divisor.toInt ≥ 0)
  let d := if dPos then divisor else -divisor
  if d = 1 then some (if dPos then none else some (.sub (.con 0) dividend))
  else if isPowerOf2 d then
    -- the int form tests for a non-negative lower bound, this one for a positive one
    some (some (shiftDivide phase (fun lo => decide (lo > 0)) dividend d dPos))
  else if phase.useAsmForLdivByCon d then some none
  else
    (magicLongDivideConstants d).map fun constants => constants.map fun (magic, shift) =>
      adjustQuotient phase dividend (longMulHi phase dividend magic shift) dPos

/-!
## Modulo by constants

`ModINode::Ideal` and `ModLNode::Ideal` of `divnode.cpp`.
-/

/-- What `Ideal` returns: `NULL`, the node itself, or a new graph. -/
inductive IdealResult (t : Ty) where
  | null
  | this
  | graph (n : Node t)

structure ControlInput where
  /-- `remove_dead_region` made a change -/
  removesDeadRegion : Bool
  isTop : Bool

def reduceRound {t : Ty} (divisor : Node t) (k : Nat) (x : Node t) : Node t :=
  let xl := phase.transform (.and x divisor)
  let xh := phase.transform (.rShift x k)
  phase.transform (.add xh xl)

def reduceRounds (phase : Phase) {t : Ty} (divisor : Node t) (k : Nat) : Nat → Node t → Node t
  | 0, x => x
  | tripCount + 1, x => reduceRounds phase divisor k tripCount (reduceRound phase divisor k x)

def reduceMod {t : Ty} (in1 in2 : Node t) (k tripCount : Nat) : Node t :=
  let x := reduceRounds phase in2 k tripCount in1
  let cmov1 := phase.transform (.cMoveGe in1 (.con 0) (.con 1) in2)
  let sub := phase.transform (.sub x in2)
  .cMoveGe x cmov1 x sub

/-- The dividend minus the quotient times the divisor. The `none` of `transformDivide` is a loop that has not ended. -/
def multiplyBack {t : Ty} (transformDivide : Node t → BitVec t.bits → Option (Option (Node t)))
    (in1 : Node t) (posCon : BitVec t.bits) : Option (IdealResult t) :=
  (transformDivide in1 posCon).map fun result =>
    match result with
    | none => .null
    | some result =>
      let divide := phase.transform result
      let mult :=
        if isPowerOf2 (posCon.signExtend 64) then phase.transform (.lShift divide posCon.toNat.log2)
        else phase.transform (.mul divide (.con posCon))
      .graph (.sub in1 mult)

variable {t : Ty} (unrollFactor : List Nat) (transformDivide : Node t → BitVec t.bits → Option (Option (Node t)))

def modByConstant (in1 in2 : Node t) (con : BitVec t.bits) : Option (IdealResult t) :=
  let k := (con + 1).toNat.log2
  let tripCount := unrollFactor.getD k 1
  if 0 ≤ con.toInt ∧ con.toInt < 2 ^ (t.bits - 1) - 1 ∧ isPowerOf2 ((con + 1).signExtend 64) = true ∧
      tripCount ≤ 5 ∧ phase.conditionalMoveLimit ≠ 0 then
    some (.graph (reduceMod phase in1 in2 k tripCount))
  else if con = 0 ∨ con = BitVec.intMin t.bits then some .null
  else
    let posCon := if con.toInt ≥ 0 then con else -con
    if posCon = 1 then some (.graph (.con 0))
    else if isPowerOf2 (posCon.signExtend 64) && (phase.type in1).any (fun dt => decide (dt.lo ≥ 0)) then
      some (.graph (.and in1 (.con (posCon - 1))))
    else multiplyBack phase transformDivide in1 posCon

/-- `Ideal` with its checks of the control input and of the modulus. -/
def modIdeal (in0 : Option ControlInput) (in1 in2 : Node t) : Option (IdealResult t) :=
  if in0.any ControlInput.removesDeadRegion then some .this
  else if in0.any ControlInput.isTop then some .null
  else
    match phase.type in2 with
    | none => some .null
    | some ti =>
      if in0.isSome && (decide (ti.hi < 0) || decide (ti.lo > 0)) then some .this
      else if !ti.isCon then some .null
      else modByConstant phase unrollFactor transformDivide in1 in2 (BitVec.ofInt t.bits ti.lo)

/-- How often to unroll for `2 ^ k - 1`; past the end of the table once. -/
def unrollFactorInt : List Nat := [999, 999, 29, 14, 9, 7, 5, 4, 4, 3, 3, 2, 2, 2, 2, 2, 1]

def unrollFactorLong : List Nat :=
  [999, 999, 61, 30, 20, 15, 12, 10, 8, 7, 6, 6, 5, 5, 4, 4, 4, 3, 3, 3, 3, 3, 2, 2, 2, 2, 2, 2, 2, 2, 2, 2, 1]

def modIIdeal (in0 : Option ControlInput) (in1 in2 : Node .int) : Option (IdealResult .int) :=
  modIdeal phase unrollFactorInt (transformIntDivide phase) in0 in1 in2

def modLIdeal (in0 : Option ControlInput) (in1 in2 : Node .long) : Option (IdealResult .long) :=
  modIdeal phase unrollFactorLong (transformLongDivide phase) in0 in1 in2

end Rolp.Opto
