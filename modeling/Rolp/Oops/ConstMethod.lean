import Rolp.Lib.Jint
import Rolp.Lib.Tiling
import Mathlib.Algebra.Order.Ring.Int

/-!
# The variable part of a constant method

`ConstMethod` of `constMethod.hpp` with words of eight bytes. An address is the distance in bytes from the start of the
object; its `u2` cells are a function of their address.
-/

namespace Rolp.Oops

open Lib (Span optional toJint alignSizeUp)

def bytesPerWord : Int := 8

/-- `sizeof(ConstMethod)` -/
def headerBytes : Int := 48

/-- `header_size`, in words -/
def headerSize : Int := headerBytes / bytesPerWord

structure InlineTableSizes where
  localvariableTableLength : Int
  compressedLinenumberSize : Int
  exceptionTableLength : Int
  checkedExceptionsLength : Int
  methodParametersLength : Int
  genericSignatureIndex : Int
  methodAnnotationsLength : Int
  parameterAnnotationsLength : Int
  typeAnnotationsLength : Int
  defaultAnnotationsLength : Int

/-! ## Sizes of elements -/

def sizeofCheckedException : Int := 2
def sizeofLocalVariable : Int := 12
def sizeofException : Int := 8
def sizeofMethodParameter : Int := 4

def addTable (extraBytes length elementSize : Int) : Int :=
  if 0 < length then toJint (toJint (extraBytes + 2) + length * elementSize) else extraBytes

def addPointer (extraBytes length : Int) : Int :=
  if 0 < length then toJint (extraBytes + bytesPerWord) else extraBytes

/-- `ConstMethod::size`, in words -/
def InlineTableSizes.size (s : InlineTableSizes) (minObjAlignment codeSize : Int) : Int :=
  let extraBytes := codeSize
  let extraBytes :=
    if 0 < s.compressedLinenumberSize then toJint (extraBytes + s.compressedLinenumberSize) else extraBytes
  let extraBytes := addTable extraBytes s.checkedExceptionsLength sizeofCheckedException
  let extraBytes := addTable extraBytes s.localvariableTableLength sizeofLocalVariable
  let extraBytes := addTable extraBytes s.exceptionTableLength sizeofException
  let extraBytes := if s.genericSignatureIndex ≠ 0 then toJint (extraBytes + 2) else extraBytes
  let extraBytes := addTable extraBytes s.methodParametersLength sizeofMethodParameter
  let extraBytes := toJint (alignSizeUp extraBytes bytesPerWord)
  let extraBytes := addPointer extraBytes s.methodAnnotationsLength
  let extraBytes := addPointer extraBytes s.parameterAnnotationsLength
  let extraBytes := addPointer extraBytes s.typeAnnotationsLength
  let extraBytes := addPointer extraBytes s.defaultAnnotationsLength
  let extraWords := toJint (alignSizeUp extraBytes bytesPerWord / bytesPerWord)
  toJint (alignSizeUp (toJint (headerSize + extraWords)) minObjAlignment)

/-! ## Flags -/

inductive MethodType where
  | normal
  | overpass

def hasLinenumberTableMask : BitVec 16 := 0x0001
def hasCheckedExceptionsMask : BitVec 16 := 0x0002
def hasLocalvariableTableMask : BitVec 16 := 0x0004
def hasExceptionTableMask : BitVec 16 := 0x0008
def hasGenericSignatureMask : BitVec 16 := 0x0010
def hasMethodParametersMask : BitVec 16 := 0x0020
def isOverpassMask : BitVec 16 := 0x0040
def hasMethodAnnotationsMask : BitVec 16 := 0x0080
def hasParameterAnnotationsMask : BitVec 16 := 0x0100
def hasTypeAnnotationsMask : BitVec 16 := 0x0200
def hasDefaultAnnotationsMask : BitVec 16 := 0x0400

/-- `if (condition) _flags |= mask` -/
def setFlag (condition : Bool) (mask flags : BitVec 16) : BitVec 16 := if condition then flags ||| mask else flags

/-- The first part of `set_inlined_tables_length`. -/
def InlineTableSizes.flags (s : InlineTableSizes) : BitVec 16 :=
  let flags := 0
  let flags := setFlag (0 < s.compressedLinenumberSize) hasLinenumberTableMask flags
  let flags := setFlag (s.genericSignatureIndex ≠ 0) hasGenericSignatureMask flags
  let flags := setFlag (0 < s.methodParametersLength) hasMethodParametersMask flags
  let flags := setFlag (0 < s.checkedExceptionsLength) hasCheckedExceptionsMask flags
  let flags := setFlag (0 < s.exceptionTableLength) hasExceptionTableMask flags
  let flags := setFlag (0 < s.localvariableTableLength) hasLocalvariableTableMask flags
  let flags := setFlag (0 < s.methodAnnotationsLength) hasMethodAnnotationsMask flags
  let flags := setFlag (0 < s.parameterAnnotationsLength) hasParameterAnnotationsMask flags
  let flags := setFlag (0 < s.typeAnnotationsLength) hasTypeAnnotationsMask flags
  setFlag (0 < s.defaultAnnotationsLength) hasDefaultAnnotationsMask flags

structure ConstMethod where
  constMethodSize : Int
  flags : BitVec 16
  codeSize : BitVec 16
  u2At : Int → BitVec 16

namespace ConstMethod

variable (cm : ConstMethod)

def has (mask : BitVec 16) : Bool := cm.flags &&& mask ≠ 0

def hasGenericSignature : Bool := cm.has hasGenericSignatureMask
def hasLinenumberTable : Bool := cm.has hasLinenumberTableMask
def hasCheckedExceptions : Bool := cm.has hasCheckedExceptionsMask
def hasLocalvariableTable : Bool := cm.has hasLocalvariableTableMask
def hasExceptionHandler : Bool := cm.has hasExceptionTableMask
def hasMethodParameters : Bool := cm.has hasMethodParametersMask
def hasMethodAnnotations : Bool := cm.has hasMethodAnnotationsMask
def hasParameterAnnotations : Bool := cm.has hasParameterAnnotationsMask
def hasTypeAnnotations : Bool := cm.has hasTypeAnnotationsMask
def hasDefaultAnnotations : Bool := cm.has hasDefaultAnnotationsMask

def setMethodType : MethodType → ConstMethod
  | .normal => { cm with flags := cm.flags &&& ~~~isOverpassMask }
  | .overpass => { cm with flags := cm.flags ||| isOverpassMask }

/-! ## Addresses -/

def codeBase : Int := headerBytes

def codeEnd : Int := codeBase + cm.codeSize.toNat

def compressedLinenumberTable : Int := cm.codeEnd

def constMethodEnd : Int := cm.constMethodSize * bytesPerWord

/-- The last `u2` before the annotations. -/
def lastU2Element : Int :=
  let offset := 0
  let offset := if cm.hasMethodAnnotations then offset + 1 else offset
  let offset := if cm.hasParameterAnnotations then offset + 1 else offset
  let offset := if cm.hasTypeAnnotations then offset + 1 else offset
  let offset := if cm.hasDefaultAnnotations then offset + 1 else offset
  cm.constMethodEnd - bytesPerWord * offset - 2

def tableStart (lengthAddr elementSize : Int) : Int :=
  lengthAddr - (cm.u2At lengthAddr).toNat * elementSize / 2 * 2

def genericSignatureIndexAddr : Int := cm.lastU2Element

def methodParametersLengthAddr : Int :=
  if cm.hasGenericSignature then cm.lastU2Element - 2 else cm.lastU2Element

def methodParametersStart : Int :=
  cm.tableStart cm.methodParametersLengthAddr sizeofMethodParameter

def checkedExceptionsLengthAddr : Int :=
  if cm.hasMethodParameters then cm.methodParametersStart - 2
  else if cm.hasGenericSignature then cm.lastU2Element - 2 else cm.lastU2Element

def checkedExceptionsStart : Int :=
  cm.tableStart cm.checkedExceptionsLengthAddr sizeofCheckedException

def exceptionTableLengthAddr : Int :=
  if cm.hasCheckedExceptions then cm.checkedExceptionsStart - 2
  else if cm.hasMethodParameters then cm.methodParametersStart - 2
  else if cm.hasGenericSignature then cm.lastU2Element - 2 else cm.lastU2Element

def exceptionTableStart : Int := cm.tableStart cm.exceptionTableLengthAddr sizeofException

def localvariableTableLengthAddr : Int :=
  if cm.hasExceptionHandler then cm.exceptionTableStart - 2
  else if cm.hasCheckedExceptions then cm.checkedExceptionsStart - 2
  else if cm.hasMethodParameters then cm.methodParametersStart - 2
  else if cm.hasGenericSignature then cm.lastU2Element - 2 else cm.lastU2Element

def localvariableTableStart : Int :=
  cm.tableStart cm.localvariableTableLengthAddr sizeofLocalVariable

def methodAnnotationsAddr : Int := cm.constMethodEnd - bytesPerWord

def parameterAnnotationsAddr : Int :=
  let offset := 1
  let offset := if cm.hasMethodAnnotations then offset + 1 else offset
  cm.constMethodEnd - bytesPerWord * offset

def typeAnnotationsAddr : Int :=
  let offset := 1
  let offset := if cm.hasMethodAnnotations then offset + 1 else offset
  let offset := if cm.hasParameterAnnotations then offset + 1 else offset
  cm.constMethodEnd - bytesPerWord * offset

def defaultAnnotationsAddr : Int :=
  let offset := 1
  let offset := if cm.hasMethodAnnotations then offset + 1 else offset
  let offset := if cm.hasParameterAnnotations then offset + 1 else offset
  let offset := if cm.hasTypeAnnotations then offset + 1 else offset
  cm.constMethodEnd - bytesPerWord * offset

/-! ## Lengths -/

/-- The `u2` at an address, if there is one. -/
def lengthAt (present : Bool) (addr : Int) : Nat := if present then (cm.u2At addr).toNat else 0

def genericSignatureIndex : Nat := cm.lengthAt cm.hasGenericSignature cm.genericSignatureIndexAddr

def methodParametersLength : Nat := cm.lengthAt cm.hasMethodParameters cm.methodParametersLengthAddr

def checkedExceptionsLength : Nat :=
  cm.lengthAt cm.hasCheckedExceptions cm.checkedExceptionsLengthAddr

def exceptionTableLength : Nat := cm.lengthAt cm.hasExceptionHandler cm.exceptionTableLengthAddr

def localvariableTableLength : Nat :=
  cm.lengthAt cm.hasLocalvariableTable cm.localvariableTableLengthAddr

/-- `if (condition) *addr = value` -/
def setU2 (condition : Bool) (addr value : Int) : ConstMethod :=
  if condition then { cm with u2At := Function.update cm.u2At addr (BitVec.ofInt 16 value) } else cm

/-- `set_inlined_tables_length`: the lengths are stored from the last to the first. -/
def setInlinedTablesLength (s : InlineTableSizes) : ConstMethod :=
  let cm := { cm with flags := s.flags }
  let cm := cm.setU2 (s.genericSignatureIndex ≠ 0) cm.genericSignatureIndexAddr s.genericSignatureIndex
  let cm := cm.setU2 (0 < s.methodParametersLength) cm.methodParametersLengthAddr s.methodParametersLength
  let cm := cm.setU2 (0 < s.checkedExceptionsLength) cm.checkedExceptionsLengthAddr s.checkedExceptionsLength
  let cm := cm.setU2 (0 < s.exceptionTableLength) cm.exceptionTableLengthAddr s.exceptionTableLength
  cm.setU2 (0 < s.localvariableTableLength) cm.localvariableTableLengthAddr s.localvariableTableLength

/-- `ConstMethod::allocate` and the constructor, in memory that holds `contents`. -/
def allocate (minObjAlignment codeSize : Int) (s : InlineTableSizes) (methodType : MethodType)
    (contents : Int → BitVec 16) : ConstMethod :=
  let cm : ConstMethod :=
    { constMethodSize := s.size minObjAlignment codeSize
      flags := 0
      codeSize := BitVec.ofInt 16 codeSize
      u2At := contents }
  (cm.setInlinedTablesLength s).setMethodType methodType

/-- What the variable part holds, from the first byte to the last. The size of the line number table is not stored. -/
def sections (cm : ConstMethod) (compressedLinenumberSize : Int) : List Span :=
  [⟨codeBase, cm.codeEnd⟩] ++
  optional cm.hasLinenumberTable cm.compressedLinenumberTable
    (cm.compressedLinenumberTable + compressedLinenumberSize) ++
  optional cm.hasLocalvariableTable cm.localvariableTableStart (cm.localvariableTableLengthAddr + 2) ++
  optional cm.hasExceptionHandler cm.exceptionTableStart (cm.exceptionTableLengthAddr + 2) ++
  optional cm.hasCheckedExceptions cm.checkedExceptionsStart (cm.checkedExceptionsLengthAddr + 2) ++
  optional cm.hasMethodParameters cm.methodParametersStart (cm.methodParametersLengthAddr + 2) ++
  optional cm.hasGenericSignature cm.genericSignatureIndexAddr (cm.genericSignatureIndexAddr + 2) ++
  optional cm.hasDefaultAnnotations cm.defaultAnnotationsAddr (cm.defaultAnnotationsAddr + bytesPerWord) ++
  optional cm.hasTypeAnnotations cm.typeAnnotationsAddr (cm.typeAnnotationsAddr + bytesPerWord) ++
  optional cm.hasParameterAnnotations cm.parameterAnnotationsAddr (cm.parameterAnnotationsAddr + bytesPerWord) ++
  optional cm.hasMethodAnnotations cm.methodAnnotationsAddr (cm.methodAnnotationsAddr + bytesPerWord)

lemma code_mem_sections (cm n) : ⟨codeBase, cm.codeEnd⟩ ∈ sections cm n := by simp [sections]

end ConstMethod

open InlineTableSizes

/-! ## Flags -/

section
variable {m mask flags : BitVec 16} {c : Bool}

lemma or_and_of_disjoint (h : mask &&& m = 0) : (flags ||| mask) &&& m = flags &&& m := by
  rw [BitVec.and_comm, BitVec.and_or_distrib_left, BitVec.and_comm m mask, h, BitVec.and_comm m flags]
  exact BitVec.or_zero

lemma setFlag_and_of_disjoint (h : mask &&& m = 0) : setFlag c mask flags &&& m = flags &&& m := by
  cases c with
  | false => rfl
  | true => exact or_and_of_disjoint h

lemma setFlag_and_self (hm : m ≠ 0) : decide (setFlag c m flags &&& m ≠ 0) = (c || decide (flags &&& m ≠ 0)) := by
  cases c with
  | false => rfl
  | true =>
    have hand : (flags ||| m) &&& m = m := by
      ext i hi
      simp only [BitVec.getElem_and, BitVec.getElem_or]
      cases flags[i] <;> cases m[i] <;> rfl
    simpa [setFlag, hand] using hm

end

structure Flagged (cm : ConstMethod) (s : InlineTableSizes) : Prop where
  linenumber : cm.hasLinenumberTable = decide (0 < s.compressedLinenumberSize)
  generic : cm.hasGenericSignature = decide (s.genericSignatureIndex ≠ 0)
  parameters : cm.hasMethodParameters = decide (0 < s.methodParametersLength)
  checked : cm.hasCheckedExceptions = decide (0 < s.checkedExceptionsLength)
  exceptions : cm.hasExceptionHandler = decide (0 < s.exceptionTableLength)
  locals : cm.hasLocalvariableTable = decide (0 < s.localvariableTableLength)
  methodAnnotations : cm.hasMethodAnnotations = decide (0 < s.methodAnnotationsLength)
  parameterAnnotations : cm.hasParameterAnnotations = decide (0 < s.parameterAnnotationsLength)
  typeAnnotations : cm.hasTypeAnnotations = decide (0 < s.typeAnnotationsLength)
  defaultAnnotations : cm.hasDefaultAnnotations = decide (0 < s.defaultAnnotationsLength)

lemma flagged_of_flags {cm s} (h : cm.flags = s.flags) : Flagged cm s := by
  constructor
  all_goals
    simp only [ConstMethod.hasLinenumberTable, ConstMethod.hasGenericSignature, ConstMethod.hasMethodParameters,
      ConstMethod.hasCheckedExceptions, ConstMethod.hasExceptionHandler, ConstMethod.hasLocalvariableTable,
      ConstMethod.hasMethodAnnotations, ConstMethod.hasParameterAnnotations, ConstMethod.hasTypeAnnotations,
      ConstMethod.hasDefaultAnnotations, ConstMethod.has, h, flags]
    simp (disch := decide) only [setFlag_and_of_disjoint, setFlag_and_self]
    exact Bool.or_false _

lemma Flagged.setMethodType {cm s} (h : Flagged cm s) (t) : Flagged (cm.setMethodType t) s := by
  have hhas : ∀ {mask : BitVec 16} {b : Bool}, isOverpassMask &&& mask = 0 ∧ ~~~isOverpassMask &&& mask = mask →
      cm.has mask = b → (cm.setMethodType t).has mask = b := by
    rintro mask b ⟨hand, hnot⟩ rfl
    cases t with
    | normal => simp only [ConstMethod.has, ConstMethod.setMethodType, BitVec.and_assoc, hnot]
    | overpass => simp only [ConstMethod.has, ConstMethod.setMethodType, or_and_of_disjoint hand]
  exact ⟨hhas (by decide) h.linenumber, hhas (by decide) h.generic, hhas (by decide) h.parameters,
    hhas (by decide) h.checked, hhas (by decide) h.exceptions, hhas (by decide) h.locals,
    hhas (by decide) h.methodAnnotations, hhas (by decide) h.parameterAnnotations, hhas (by decide) h.typeAnnotations,
    hhas (by decide) h.defaultAnnotations⟩

/-! ## Positions -/

def pointerBytes (length : Int) : Int := if 0 < length then 8 else 0

def tableBytes (length elementSize : Int) : Int := if 0 < length then length * elementSize + 2 else 0

namespace InlineTableSizes

variable (s : InlineTableSizes) (E : Int)

def genericBytes : Int := if s.genericSignatureIndex ≠ 0 then 2 else 0

def parameterAnnotationsEnd : Int := E - pointerBytes s.methodAnnotationsLength

def typeAnnotationsEnd : Int := s.parameterAnnotationsEnd E - pointerBytes s.parameterAnnotationsLength

def defaultAnnotationsEnd : Int := s.typeAnnotationsEnd E - pointerBytes s.typeAnnotationsLength

def genericEnd : Int := s.defaultAnnotationsEnd E - pointerBytes s.defaultAnnotationsLength

def parametersEnd : Int := s.genericEnd E - s.genericBytes

def checkedEnd : Int := s.parametersEnd E - tableBytes s.methodParametersLength sizeofMethodParameter

def exceptionsEnd : Int := s.checkedEnd E - tableBytes s.checkedExceptionsLength sizeofCheckedException

def localsEnd : Int := s.exceptionsEnd E - tableBytes s.exceptionTableLength sizeofException

def localsStart : Int := s.localsEnd E - tableBytes s.localvariableTableLength sizeofLocalVariable

end InlineTableSizes

def StoredBefore (cm : ConstMethod) (present : Prop) (stop value : Int) : Prop :=
  present → ((cm.u2At (stop - 2)).toNat : Int) = value

variable {stop elementSize : Int}

section
variable {cm : ConstMethod} {s : InlineTableSizes} {E : Int}

lemma mul_even (value) (he : elementSize % 2 = 0) : value * elementSize % 2 = 0 := by
  rw [Int.mul_emod, he, Int.mul_zero, Int.zero_emod]

lemma tableStart_eq {value} (h : ((cm.u2At (stop - 2)).toNat : Int) = value)
    (he : elementSize % 2 = 0) (hpos : 0 < value) :
    cm.tableStart (stop - 2) elementSize = stop - tableBytes value elementSize := by
  unfold ConstMethod.tableStart tableBytes
  have heven := mul_even value he
  rw [h]
  omega

lemma below_table {present start other value} (hp : present = decide (0 < value))
    (hstart : 0 < value → start = stop - tableBytes value elementSize) (hother : other = stop - 2) :
    (if present then start - 2 else other) = stop - tableBytes value elementSize - 2 := by
  by_cases hpos : 0 < value
  · simp only [hp, hpos, decide_true, if_true, hstart hpos]
  · simp [hp, hpos, hother, tableBytes]

structure Stored (cm : ConstMethod) (s : InlineTableSizes) (E : Int) : Prop where
  parameters : StoredBefore cm (0 < s.methodParametersLength) (s.parametersEnd E)
    s.methodParametersLength
  checked : StoredBefore cm (0 < s.checkedExceptionsLength) (s.checkedEnd E) s.checkedExceptionsLength
  exceptions : StoredBefore cm (0 < s.exceptionTableLength) (s.exceptionsEnd E) s.exceptionTableLength

variable (hf : Flagged cm s) (hE : cm.constMethodEnd = E)

include hf hE

lemma Flagged.lastU2Element : cm.lastU2Element = s.genericEnd E - 2 := by
  unfold ConstMethod.lastU2Element genericEnd defaultAnnotationsEnd
    typeAnnotationsEnd parameterAnnotationsEnd pointerBytes bytesPerWord
  simp only [hf.methodAnnotations, hf.parameterAnnotations, hf.typeAnnotations, hf.defaultAnnotations,
    decide_eq_true_eq]
  split <;> split <;> split <;> split <;> omega

lemma Flagged.belowGeneric :
    (if cm.hasGenericSignature then cm.lastU2Element - 2 else cm.lastU2Element) = s.parametersEnd E - 2 := by
  rw [hf.lastU2Element hE, hf.generic]
  unfold parametersEnd genericBytes
  by_cases h : s.genericSignatureIndex = 0
  · simp [h]
  · simp [h]

section

variable (hst1 : StoredBefore cm (0 < s.methodParametersLength) (s.parametersEnd E) s.methodParametersLength)

include hst1

lemma Flagged.methodParametersStart (hpos : 0 < s.methodParametersLength) :
    cm.methodParametersStart = s.checkedEnd E := by
  unfold ConstMethod.methodParametersStart ConstMethod.methodParametersLengthAddr
  rw [hf.belowGeneric hE]
  exact tableStart_eq (hst1 hpos) rfl hpos

lemma Flagged.checkedExceptionsLengthAddr : cm.checkedExceptionsLengthAddr = s.checkedEnd E - 2 :=
  below_table hf.parameters (hf.methodParametersStart hE hst1) (hf.belowGeneric hE)

variable (hst2 : StoredBefore cm (0 < s.checkedExceptionsLength) (s.checkedEnd E) s.checkedExceptionsLength)

include hst2

lemma Flagged.checkedExceptionsStart (hpos : 0 < s.checkedExceptionsLength) :
    cm.checkedExceptionsStart = s.exceptionsEnd E := by
  unfold ConstMethod.checkedExceptionsStart
  rw [hf.checkedExceptionsLengthAddr hE hst1]
  exact tableStart_eq (hst2 hpos) rfl hpos

lemma Flagged.exceptionTableLengthAddr : cm.exceptionTableLengthAddr = s.exceptionsEnd E - 2 :=
  below_table hf.checked (hf.checkedExceptionsStart hE hst1 hst2) (hf.checkedExceptionsLengthAddr hE hst1)

end

lemma Flagged.exceptionTableStart (hst : Stored cm s E) (hpos : 0 < s.exceptionTableLength) :
    cm.exceptionTableStart = s.localsEnd E := by
  unfold ConstMethod.exceptionTableStart
  rw [hf.exceptionTableLengthAddr hE hst.parameters hst.checked]
  exact tableStart_eq (hst.exceptions hpos) rfl hpos

lemma Flagged.localvariableTableLengthAddr (hst : Stored cm s E) :
    cm.localvariableTableLengthAddr = s.localsEnd E - 2 :=
  below_table hf.exceptions (hf.exceptionTableStart hE hst) (hf.exceptionTableLengthAddr hE hst.parameters hst.checked)

lemma Flagged.localvariableTableStart (hst : Stored cm s E)
    (hlocals : StoredBefore cm (0 < s.localvariableTableLength) (s.localsEnd E) s.localvariableTableLength)
    (hpos : 0 < s.localvariableTableLength) : cm.localvariableTableStart = s.localsStart E := by
  unfold ConstMethod.localvariableTableStart
  rw [hf.localvariableTableLengthAddr hE hst]
  exact tableStart_eq (hlocals hpos) rfl hpos

end

/-! ## Storing the lengths -/

lemma toNat_ofInt_u2 {value} (h0 : 0 ≤ value) (h : value < 2 ^ 16) : ((BitVec.ofInt 16 value).toNat : Int) = value := by
  rw [BitVec.toNat_ofInt, Int.toNat_of_nonneg (Int.emod_nonneg _ (by decide))]
  exact Int.emod_eq_of_lt h0 h

structure U2Lengths (s : InlineTableSizes) : Prop where
  generic : 0 ≤ s.genericSignatureIndex ∧ s.genericSignatureIndex < 2 ^ 16
  parameters : 0 ≤ s.methodParametersLength ∧ s.methodParametersLength < 2 ^ 16
  checked : 0 ≤ s.checkedExceptionsLength ∧ s.checkedExceptionsLength < 2 ^ 16
  exceptions : 0 ≤ s.exceptionTableLength ∧ s.exceptionTableLength < 2 ^ 16

section
variable {cm : ConstMethod} {s : InlineTableSizes} {c : Bool} {addr value : Int}

lemma Flagged.setU2 (hf : Flagged cm s) (c addr value) : Flagged (cm.setU2 c addr value) s := by
  cases c with
  | false => exact hf
  | true =>
    obtain ⟨h1, h2, h3, h4, h5, h6, h7, h8, h9, h10⟩ := hf
    exact ⟨h1, h2, h3, h4, h5, h6, h7, h8, h9, h10⟩

variable {present : Prop}

lemma storedBefore_setU2 [Decidable present] (h0 : 0 ≤ value) (h : value < 2 ^ 16) :
    StoredBefore (cm.setU2 (decide present) (stop - 2) value) present stop value := by
  intro hp
  simp only [ConstMethod.setU2, hp, decide_true, if_true, Function.update_self]
  exact toNat_ofInt_u2 h0 h

lemma StoredBefore.setU2 {value'} (h : StoredBefore cm present stop value')
    (hne : present → c = true → addr ≠ stop - 2) : StoredBefore (cm.setU2 c addr value) present stop value' := by
  intro hp
  cases c with
  | false => exact h hp
  | true =>
    simp only [ConstMethod.setU2, if_true]
    rw [Function.update_of_ne (hne hp rfl).symm]
    exact h hp

lemma tableBytes_pos {length} (he : 0 ≤ elementSize) (h : 0 < length) : 2 ≤ tableBytes length elementSize := by
  have := Int.mul_nonneg (Int.le_of_lt h) he
  rw [tableBytes]
  omega

lemma tableBytes_nonneg (length) (he : 0 ≤ elementSize) : 0 ≤ tableBytes length elementSize := by
  by_cases h : 0 < length
  · have := tableBytes_pos he h
    omega
  · exact Int.le_of_eq (if_neg h).symm

variable (s)

/-- How far apart the lengths are. -/
lemma ends_apart (E) : (s.genericSignatureIndex ≠ 0 → s.parametersEnd E + 2 ≤ s.genericEnd E) ∧
      (0 < s.methodParametersLength → s.checkedEnd E + 2 ≤ s.parametersEnd E) ∧
      (0 < s.checkedExceptionsLength → s.exceptionsEnd E + 2 ≤ s.checkedEnd E) ∧
      (0 < s.exceptionTableLength → s.localsEnd E + 2 ≤ s.exceptionsEnd E) := by
  have htable : ∀ {stop length elementSize : Int}, 0 ≤ elementSize → 0 < length →
      stop - tableBytes length elementSize + 2 ≤ stop := by
    intro stop length elementSize he hp
    have := tableBytes_pos he hp
    omega
  refine ⟨fun hp => ?_, htable (by decide), htable (by decide), htable (by decide)⟩
  rw [parametersEnd, genericBytes]
  omega

lemma genericBytes_nonneg : 0 ≤ s.genericBytes := by
  unfold genericBytes
  split <;> decide

lemma ends_le (E) :
    s.localsStart E ≤ s.localsEnd E ∧ s.localsEnd E ≤ s.exceptionsEnd E ∧ s.exceptionsEnd E ≤ s.checkedEnd E ∧
      s.checkedEnd E ≤ s.parametersEnd E ∧ s.parametersEnd E ≤ s.genericEnd E := by
  have h1 := tableBytes_nonneg s.localvariableTableLength (show 0 ≤ sizeofLocalVariable by decide)
  have h2 := tableBytes_nonneg s.exceptionTableLength (show 0 ≤ sizeofException by decide)
  have h3 := tableBytes_nonneg s.checkedExceptionsLength (show 0 ≤ sizeofCheckedException by decide)
  have h4 := tableBytes_nonneg s.methodParametersLength (show 0 ≤ sizeofMethodParameter by decide)
  have h5 := genericBytes_nonneg s
  unfold localsStart localsEnd exceptionsEnd checkedEnd parametersEnd
  omega

variable {s}

lemma setInlinedTablesLength_stages (cm : ConstMethod) (s : InlineTableSizes) :
    ∃ cm0 cm1 cm2 cm3 cm4 : ConstMethod, cm0 = { cm with flags := s.flags } ∧
      cm1 = cm0.setU2 (s.genericSignatureIndex ≠ 0) cm0.genericSignatureIndexAddr s.genericSignatureIndex ∧
      cm2 = cm1.setU2 (0 < s.methodParametersLength) cm1.methodParametersLengthAddr s.methodParametersLength ∧
      cm3 = cm2.setU2 (0 < s.checkedExceptionsLength) cm2.checkedExceptionsLengthAddr s.checkedExceptionsLength ∧
      cm4 = cm3.setU2 (0 < s.exceptionTableLength) cm3.exceptionTableLengthAddr s.exceptionTableLength ∧
      cm.setInlinedTablesLength s =
        cm4.setU2 (0 < s.localvariableTableLength) cm4.localvariableTableLengthAddr s.localvariableTableLength :=
  ⟨_, _, _, _, _, rfl, rfl, rfl, rfl, rfl, rfl⟩

lemma StoredBefore.keep {stop' value'} {c : Prop} [Decidable c]
    (h : StoredBefore cm present stop value') (hlt : present → stop' + 2 ≤ stop) :
    StoredBefore (cm.setU2 (decide c) (stop' - 2) value) present stop value' :=
  h.setU2 fun hp _ => by
    have := hlt hp
    omega

lemma setU2_stage {cm' E} (hf : Flagged cm s) (hE : cm.constMethodEnd = E) (h : cm' = cm.setU2 c addr value) :
    Flagged cm' s ∧ cm'.constMethodEnd = E ∧ cm'.constMethodSize = cm.constMethodSize ∧ cm'.codeSize = cm.codeSize := by
  subst h
  refine ⟨hf.setU2 c addr value, ?_⟩
  cases c <;> exact ⟨hE, rfl, rfl⟩

lemma setInlinedTablesLength_spec (cm : ConstMethod) {s} (hu : U2Lengths s) {E}
    (hE : cm.constMethodEnd = E) : Flagged (cm.setInlinedTablesLength s) s ∧
      (cm.setInlinedTablesLength s).constMethodSize = cm.constMethodSize ∧
      (cm.setInlinedTablesLength s).codeSize = cm.codeSize ∧ Stored (cm.setInlinedTablesLength s) s E ∧
      StoredBefore (cm.setInlinedTablesLength s) (s.genericSignatureIndex ≠ 0) (s.genericEnd E)
        s.genericSignatureIndex ∧
      (0 < s.localvariableTableLength → (cm.setInlinedTablesLength s).u2At (s.localsEnd E - 2) =
        BitVec.ofInt 16 s.localvariableTableLength) := by
  obtain ⟨cm0, cm1, cm2, cm3, cm4, rfl, h1, h2, h3, h4, h5⟩ := setInlinedTablesLength_stages cm s
  have hf0 : Flagged { cm with flags := s.flags } s := flagged_of_flags rfl
  have hE0 : ({ cm with flags := s.flags } : ConstMethod).constMethodEnd = E := hE
  obtain ⟨-, hle1, hle2, hle3, hle4⟩ := ends_le s E
  obtain ⟨hgeneric, hparameters, hchecked, hexceptions⟩ := ends_apart s E
  -- the lengths are written one after the other
  rw [show ConstMethod.genericSignatureIndexAddr _ = _ from hf0.lastU2Element hE0] at h1
  obtain ⟨hf1, hE1, hz1, hc1⟩ := setU2_stage hf0 hE0 h1
  have hg1 : StoredBefore cm1 (s.genericSignatureIndex ≠ 0) (s.genericEnd E) s.genericSignatureIndex := by
    rw [h1]
    exact storedBefore_setU2 hu.generic.1 hu.generic.2
  rw [show cm1.methodParametersLengthAddr = _ from hf1.belowGeneric hE1] at h2
  obtain ⟨hf2, hE2, hz2, hc2⟩ := setU2_stage hf1 hE1 h2
  have hp2 : StoredBefore cm2 (0 < s.methodParametersLength) (s.parametersEnd E) s.methodParametersLength := by
    rw [h2]
    exact storedBefore_setU2 hu.parameters.1 hu.parameters.2
  rw [hf2.checkedExceptionsLengthAddr hE2 hp2] at h3
  obtain ⟨hf3, hE3, hz3, hc3⟩ := setU2_stage hf2 hE2 h3
  have hp3 : StoredBefore cm3 (0 < s.methodParametersLength) (s.parametersEnd E) s.methodParametersLength := by
    rw [h3]
    exact hp2.keep hparameters
  have hc3' : StoredBefore cm3 (0 < s.checkedExceptionsLength) (s.checkedEnd E) s.checkedExceptionsLength := by
    rw [h3]
    exact storedBefore_setU2 hu.checked.1 hu.checked.2
  rw [hf3.exceptionTableLengthAddr hE3 hp3 hc3'] at h4
  obtain ⟨hf4, hE4, hz4, hc4⟩ := setU2_stage hf3 hE3 h4
  have hst4 : Stored cm4 s E := by
    rw [h4]
    refine ⟨hp3.keep fun hp => ?_, hc3'.keep hchecked, storedBefore_setU2 hu.exceptions.1 hu.exceptions.2⟩
    omega
  rw [hf4.localvariableTableLengthAddr hE4 hst4] at h5
  obtain ⟨hf5, -, hz5, hc5⟩ := setU2_stage hf4 hE4 h5
  refine ⟨hf5, by rw [hz5, hz4, hz3, hz2, hz1], by rw [hc5, hc4, hc3, hc2, hc1], ?_, ?_, fun hpos => ?_⟩
  · rw [h5]
    refine ⟨hst4.parameters.keep fun hp => ?_, hst4.checked.keep fun hp => ?_, hst4.exceptions.keep hexceptions⟩
    · omega
    · omega
  · rw [h5, h4, h3, h2]
    refine (((hg1.keep hgeneric).keep fun hp => ?_).keep fun hp => ?_).keep fun hp => ?_
    all_goals
      omega
  · rw [h5]
    simp only [ConstMethod.setU2, hpos, decide_true, if_true, Function.update_self]

end

end Rolp.Oops
