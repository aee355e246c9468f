import Rolp.Lib.BitField

/-!
# The mark word

The header word of an object, as `oops/markOop.hpp` lays it out on a 64-bit VM built with `NG2C_PROF`, with shifts and
masks computed as the enumerations of `markOopDesc` compute them. A `markOop` is the word itself.
-/

namespace Rolp.Mark

abbrev MarkOop := BitVec 64

def nthBit (n : Nat) : BitVec 64 := if n ≥ 64 then 0 else 1#64 <<< n

def rightNBits (n : Nat) : BitVec 64 := nthBit n - 1

/-! ## Sizes, shifts and masks of the fields -/

def ageBits : Nat := 4
def lockBits : Nat := 2
def biasedLockBits : Nat := 1
def cmsBits : Nat := 1
def ng2cProfBits : Nat := 32
def maxHashBits : Nat := 64 - ageBits - lockBits - biasedLockBits
def hashBits : Nat := if maxHashBits > 31 then 31 else maxHashBits

def lockShift : Nat := 0
def ageShift : Nat := lockBits + biasedLockBits
def cmsShift : Nat := ageShift + ageBits
def hashShift : Nat := cmsShift + cmsBits
def ng2cProfShift : Nat := 32

def biasedLockMask : BitVec 64 := rightNBits (lockBits + biasedLockBits)
def biasedLockMaskInPlace : BitVec 64 := biasedLockMask <<< lockShift
def ageMask : BitVec 64 := rightNBits ageBits
def ageMaskInPlace : BitVec 64 := ageMask <<< ageShift
def hashMask : BitVec 64 := rightNBits hashBits
def hashMaskInPlace : BitVec 64 := hashMask <<< hashShift
def ng2cProfMask : BitVec 64 := rightNBits ng2cProfBits
def ng2cProfMaskInPlace : BitVec 64 := ng2cProfMask <<< ng2cProfShift

def unlockedValue : BitVec 64 := 1
def monitorValue : BitVec 64 := 2
def noHash : BitVec 64 := 0
def maxAge : BitVec 32 := ageMask.setWidth 32

/-! ## Accessors -/

variable (m : MarkOop)

def lockAndBias : BitVec 64 := m &&& biasedLockMaskInPlace

def isNeutral : Bool := lockAndBias m == unlockedValue

def age : BitVec 32 := ((m >>> ageShift) &&& ageMask).setWidth 32

def setAge (v : BitVec 32) : MarkOop :=
  (m &&& ~~~ageMaskInPlace) ||| ((v.setWidth 64 &&& ageMask) <<< ageShift)

def incrAge : MarkOop := if age m = maxAge then m else setAge m (age m + 1)

def hash : BitVec 64 := (m >>> hashShift) &&& hashMask

def hasNoHash : Bool := hash m == noHash

def copySetHash (h : BitVec 64) : MarkOop :=
  (m &&& ~~~hashMaskInPlace) ||| ((h &&& hashMask) <<< hashShift)

def ng2cProf : BitVec 32 := ((m >>> ng2cProfShift) &&& ng2cProfMask).setWidth 32

def setNg2cProf (v : BitVec 32) : MarkOop :=
  if v = 0 then m
  else (m &&& ~~~ng2cProfMaskInPlace) ||| ((v.setWidth 64 &&& ng2cProfMask) <<< ng2cProfShift)

def prototype : MarkOop := (noHash <<< hashShift) ||| unlockedValue

/-! ## Displaced marks -/

def hasDisplacedMarkHelper : Bool := m &&& unlockedValue == 0

/-- `displaced_mark_helper`: the word stored where the mark points to. The memory is a function of the address. -/
def displacedMarkHelper (mem : BitVec 64 → MarkOop) (m : MarkOop) : MarkOop := mem (m &&& ~~~monitorValue)

def encodeLock (lock : BitVec 64) : MarkOop := lock

def encodeMonitor (monitor : BitVec 64) : MarkOop := monitor ||| monitorValue

end Rolp.Mark

/-! ## The fields of the mark word as bit fields -/

namespace Rolp.Mark

open Rolp.Lib BitVec

inductive MarkField where
  | age
  | hash
  | ng2cProf
  deriving DecidableEq

def MarkField.place : MarkField → BitField
  | .age => ⟨ageShift, ageBits⟩
  | .hash => ⟨hashShift, hashBits⟩
  | .ng2cProf => ⟨ng2cProfShift, ng2cProfBits⟩

variable {n : Nat}

lemma rightNBits_eq_lowMask (h : n < 64) : rightNBits n = lowMask 64 n := by
  simp [rightNBits, nthBit, lowMask, show ¬ 64 ≤ n by omega]

lemma ageMask_eq : ageMask = lowMask 64 ageBits := rightNBits_eq_lowMask (by decide)

lemma ng2cProfMask_eq : ng2cProfMask = lowMask 64 ng2cProfBits := rightNBits_eq_lowMask (by decide)

lemma MarkField.place_fits (k : MarkField) : k.place.shift + k.place.width ≤ 64 := by
  cases k <;> decide

/-! ## Reads -/

variable (m : MarkOop)

lemma age_eq_read : age m = (MarkField.age.place.read m).setWidth 32 := by rw [age]; rfl

lemma hash_eq_read : hash m = MarkField.hash.place.read m := by rw [hash]; rfl

lemma ng2cProf_eq_read : ng2cProf m = (MarkField.ng2cProf.place.read m).setWidth 32 := by
  rw [ng2cProf]; rfl

lemma setWidth_setWidth_of_lowMask {x} (hn : n ≤ 32) (hx : x &&& lowMask 64 n = x) :
    (x.setWidth 32).setWidth 64 = x := by
  apply eq_of_getLsbD_eq
  intro i hi
  rw [← hx]
  simp only [getLsbD_setWidth, getLsbD_and, getLsbD_lowMask, hi]
  by_cases h : i < n
  · simp [show i < 32 by omega]
  · simp [h]

lemma setWidth_and_lowMask {x : BitVec 32} (hn : 32 ≤ n) : x.setWidth 64 &&& lowMask 64 n = x.setWidth 64 := by
  apply eq_of_getLsbD_eq
  intro i hi
  simp only [getLsbD_and, getLsbD_lowMask, hi]
  by_cases h : i < 32
  · simp [show i < n by omega]
  · simp [getLsbD_of_ge x i (by omega)]

/-! ## Writes -/

lemma setAge_eq_write (v) : setAge m v = MarkField.age.place.write m (v.setWidth 64) := by
  simp only [setAge]; rfl

lemma copySetHash_eq_write (h : BitVec 64) : copySetHash m h = MarkField.hash.place.write m h := by
  simp only [copySetHash]; rfl

lemma setNg2cProf_eq_write {v} (hv : v ≠ 0) : setNg2cProf m v = MarkField.ng2cProf.place.write m (v.setWidth 64) := by
  simp only [setNg2cProf, hv]; rfl

lemma ng2cProf_setAge (v : BitVec 32) : ng2cProf (setAge m v) = ng2cProf m := by
  have hdis : ∀ i, MarkField.ng2cProf.place.Covers i → ¬ MarkField.age.place.Covers i := by
    rintro i ⟨h1, -⟩ ⟨-, h2⟩
    have h1' : 32 ≤ i := h1
    have h2' : i < 7 := h2
    omega
  rw [ng2cProf_eq_read, ng2cProf_eq_read, setAge_eq_write,
    BitField.read_write_of_disjoint MarkField.ng2cProf.place_fits hdis]

@[simp] lemma ng2cProf_incrAge : ng2cProf (incrAge m) = ng2cProf m := by
  unfold incrAge
  split
  · rfl
  · exact ng2cProf_setAge m _

lemma age_copySetHash (h : BitVec 64) : age (copySetHash m h) = age m := by
  have hdis : ∀ i, MarkField.age.place.Covers i → ¬ MarkField.hash.place.Covers i := by
    rintro i ⟨-, h1⟩ ⟨h2, -⟩
    have h1' : i < 7 := h1
    have h2' : 8 ≤ i := h2
    omega
  rw [age_eq_read, age_eq_read, copySetHash_eq_write, BitField.read_write_of_disjoint MarkField.age.place_fits hdis]

lemma age_toNat_lt : (age m).toNat < 16 := by
  rw [age, toNat_setWidth, toNat_and, show ageMask.toNat = 2 ^ 4 - 1 from rfl, Nat.and_two_pow_sub_one_eq_mod]
  omega

/-! ## The tag and the hash -/

lemma getLsbD_ng2cProf {i} (hi : i < 32) : (ng2cProf m).getLsbD i = m.getLsbD (32 + i) := by
  have hw : i < MarkField.ng2cProf.place.width := hi
  rw [ng2cProf_eq_read, getLsbD_setWidth, BitField.getLsbD_read]
  simp only [hi, hw]
  rfl

variable (h : BitVec 64)

lemma getLsbD_ng2cProf_copySetHash {i} (hi : i < 32) :
    (ng2cProf (copySetHash m h)).getLsbD i = if i < 7 then h.getLsbD (24 + i) else (ng2cProf m).getLsbD i := by
  rw [getLsbD_ng2cProf _ hi, getLsbD_ng2cProf _ hi, copySetHash_eq_write, BitField.getLsbD_write _ _ _ (by omega)]
  have hc : MarkField.hash.place.Covers (32 + i) ↔ i < 7 := by
    show 8 ≤ 32 + i ∧ 32 + i < 39 ↔ i < 7
    omega
  rw [show 32 + i - MarkField.hash.place.shift = 24 + i from by
    show 32 + i - 8 = 24 + i
    omega]
  by_cases h7 : i < 7
  · rw [if_pos (hc.2 h7), if_pos h7]
  · rw [if_neg (mt hc.1 h7), if_neg h7]

lemma ng2cProf_copySetHash_eq_iff :
    ng2cProf (copySetHash m h) = ng2cProf m ↔ ∀ i < 7, h.getLsbD (24 + i) = (ng2cProf m).getLsbD i := by
  constructor
  · intro heq i hi
    have hb := getLsbD_ng2cProf_copySetHash m h (i := i) (by omega)
    rwa [heq, if_pos hi, eq_comm] at hb
  · intro hbits
    apply eq_of_getLsbD_eq
    intro i hi
    rw [getLsbD_ng2cProf_copySetHash m h hi]
    by_cases h7 : i < 7
    · rw [if_pos h7, hbits i h7]
    · rw [if_neg h7]

lemma ng2cProf_copySetHash_ushiftRight : ng2cProf (copySetHash m h) >>> 16 = ng2cProf m >>> 16 := by
  apply eq_of_getLsbD_eq
  intro i _
  rw [getLsbD_ushiftRight, getLsbD_ushiftRight]
  by_cases hi : 16 + i < 32
  · rw [getLsbD_ng2cProf_copySetHash m h hi, if_neg (by omega)]
  · rw [getLsbD_of_ge _ _ (by omega), getLsbD_of_ge _ _ (by omega)]

/-! ## Bits outside of all fields -/

lemma getLsbD_lockAndBias (i) : (lockAndBias m).getLsbD i = (decide (i < 3) && m.getLsbD i) := by
  rw [lockAndBias, biasedLockMaskInPlace, biasedLockMask, rightNBits_eq_lowMask (by decide)]
  simp only [lockShift, shiftLeft_zero, getLsbD_and, getLsbD_lowMask, lockBits, biasedLockBits]
  by_cases h : i < 3
  · simp [h, show i < 64 by omega]
  · simp [h]

lemma lockAndBias_write (k : MarkField) (m v : MarkOop) : lockAndBias (k.place.write m v) = lockAndBias m := by
  apply eq_of_getLsbD_eq
  intro i hi
  rw [getLsbD_lockAndBias, getLsbD_lockAndBias]
  by_cases h : i < 3
  · have hc : ¬ k.place.Covers i := by
      rintro ⟨h1, -⟩
      cases k <;> simp only [MarkField.place, ageShift, hashShift, cmsShift, lockBits,
        biasedLockBits, ng2cProfShift] at h1 <;> omega
    rw [BitField.getLsbD_write _ _ _ hi]
    simp [hc]
  · simp [h]

lemma hasDisplacedMarkHelper_eq : hasDisplacedMarkHelper m = !m.getLsbD 0 := by
  have hbit : m &&& unlockedValue = 0 ↔ m.getLsbD 0 = false := by
    rw [unlockedValue, show 1 = 1#64 from rfl, and_one_eq_setWidth_ofBool_getLsbD]
    cases m.getLsbD 0 <;> decide
  rw [Bool.eq_iff_iff, hasDisplacedMarkHelper, beq_iff_eq, hbit]
  simp

lemma hasDisplacedMarkHelper_of_lockAndBias {m m'} (h : lockAndBias m = lockAndBias m') :
    hasDisplacedMarkHelper m = hasDisplacedMarkHelper m' := by
  have h0 := congrArg (·.getLsbD 0) h
  simp only [getLsbD_lockAndBias] at h0
  rw [hasDisplacedMarkHelper_eq, hasDisplacedMarkHelper_eq]
  simpa using h0

lemma hasDisplacedMarkHelper_of_isNeutral {m} (h : isNeutral m = true) : hasDisplacedMarkHelper m = false := by
  have heq : lockAndBias m = lockAndBias 1 := by
    rw [eq_of_beq h]
    rfl
  rw [hasDisplacedMarkHelper_of_lockAndBias heq]
  rfl

end Rolp.Mark
