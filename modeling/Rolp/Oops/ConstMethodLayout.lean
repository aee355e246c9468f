import Rolp.Oops.ConstMethod

/-!
# The layout of a constant method

The one size formula leaves room for everything that the address functions place.
-/

namespace Rolp.Oops

open InlineTableSizes List ConstMethod Int

open Lib (Span Stacked optional stacked_optional toJint toJint_def toJint_eq alignSizeUp)

/-! ## The size -/

namespace InlineTableSizes

variable (s : InlineTableSizes) (codeSize : Int)

def linenumberBytes : Int := if 0 < s.compressedLinenumberSize then s.compressedLinenumberSize else 0

def contentBytes : Int :=
  codeSize + s.linenumberBytes + tableBytes s.checkedExceptionsLength sizeofCheckedException +
    tableBytes s.localvariableTableLength sizeofLocalVariable + tableBytes s.exceptionTableLength sizeofException +
    s.genericBytes + tableBytes s.methodParametersLength sizeofMethodParameter

def extraBytes : Int :=
  alignSizeUp (s.contentBytes codeSize) bytesPerWord + pointerBytes s.methodAnnotationsLength +
    pointerBytes s.parameterAnnotationsLength + pointerBytes s.typeAnnotationsLength +
    pointerBytes s.defaultAnnotationsLength

end InlineTableSizes

def SameInt (a b : Int) : Prop := a % 2 ^ 32 = b % 2 ^ 32

lemma sameInt_toJint (x) : SameInt (toJint x) x := by
  rw [SameInt, toJint_def]
  omega

variable {a b : Int}

lemma SameInt.add (h : SameInt a b) (c) : SameInt (a + c) (b + c) := by
  unfold SameInt at h ⊢
  omega

lemma SameInt.toJint (h : SameInt a b) : SameInt (toJint a) b := (sameInt_toJint a).trans h

lemma SameInt.addTable (h : SameInt a b) (length elementSize) :
    SameInt (addTable a length elementSize) (b + tableBytes length elementSize) := by
  unfold Oops.addTable tableBytes
  split
  · have h' := ((h.add 2).toJint.add (length * elementSize)).toJint
    rw [add_comm (length * elementSize) 2, ← add_assoc]
    exact h'
  · rw [add_zero]
    exact h

variable {p : Prop}

lemma SameInt.addIf (h : SameInt a b) [Decidable p] (c) :
    SameInt (if p then Lib.toJint (a + c) else a) (b + if p then c else 0) := by
  split
  · exact (h.add c).toJint
  · rw [add_zero]
    exact h

lemma SameInt.addPointer (h : SameInt a b) (length) : SameInt (addPointer a length) (b + pointerBytes length) := by
  unfold Oops.addPointer pointerBytes
  split
  · exact (h.add 8).toJint
  · rw [add_zero]
    exact h

lemma SameInt.align (h : SameInt a b) : SameInt (alignSizeUp a bytesPerWord) (alignSizeUp b bytesPerWord) := by
  unfold SameInt alignSizeUp bytesPerWord at *
  omega

def IsInt (x : Int) : Prop := -2 ^ 31 ≤ x ∧ x < 2 ^ 31

lemma isInt_toJint (x) : IsInt (toJint x) := by
  rw [IsInt, toJint_def]
  omega

lemma IsInt.addPointer {x} (h : IsInt x) (length) : IsInt (addPointer x length) := by
  unfold Oops.addPointer
  split
  · exact isInt_toJint _
  · exact h

lemma size_eq (s : InlineTableSizes) (minObjAlignment codeSize : Int) :
    ∃ extra, IsInt extra ∧ SameInt extra (s.extraBytes codeSize) ∧ s.size minObjAlignment codeSize =
        toJint (alignSizeUp (toJint (headerSize + toJint (alignSizeUp extra bytesPerWord / bytesPerWord)))
          minObjAlignment) := by
  refine ⟨_, ?_, ?_, rfl⟩
  · exact ((((isInt_toJint _).addPointer _).addPointer _).addPointer _).addPointer _
  · refine (((SameInt.addPointer ?_ _).addPointer _).addPointer _).addPointer _
    refine (SameInt.align ?_).toJint
    refine SameInt.addTable ?_ _ _
    refine SameInt.addIf ?_ _
    refine ((SameInt.addTable ?_ _ _).addTable _ _).addTable _ _
    exact SameInt.addIf rfl _

/-! ## Where everything is -/

variable {present : Bool} {stop value : Int}

section
variable {s : InlineTableSizes} {minObjAlignment codeSize : Int}

lemma pointerBytes_spec (length) : 0 ≤ pointerBytes length ∧ pointerBytes length ≤ 8 ∧ pointerBytes length % 8 = 0 := by
  unfold pointerBytes
  split <;> decide

/-- The annotations take `w` words. -/
lemma genericEnd_spec (s : InlineTableSizes) (E : Int) : ∃ w, 0 ≤ w ∧ w ≤ 4 ∧ s.genericEnd E = E - 8 * w ∧
      ∀ codeSize, s.extraBytes codeSize = alignSizeUp (s.contentBytes codeSize) bytesPerWord + 8 * w := by
  have h1 := pointerBytes_spec s.methodAnnotationsLength
  have h2 := pointerBytes_spec s.parameterAnnotationsLength
  have h3 := pointerBytes_spec s.typeAnnotationsLength
  have h4 := pointerBytes_spec s.defaultAnnotationsLength
  refine ⟨(E - s.genericEnd E) / 8, ?_, ?_, ?_, fun codeSize => ?_⟩
  all_goals
    unfold genericEnd defaultAnnotationsEnd typeAnnotationsEnd parameterAnnotationsEnd
    try unfold extraBytes
    omega

lemma extraBytes_mod_eight (s : InlineTableSizes) (codeSize : Int) : s.extraBytes codeSize % 8 = 0 := by
  obtain ⟨w, -, -, -, hextra⟩ := genericEnd_spec s 0
  rw [hextra, alignSizeUp, bytesPerWord]
  omega

lemma words_eq {extra} (hint : IsInt extra) (h8 : extra % 8 = 0) (hm : 0 < minObjAlignment)
    (hm' : minObjAlignment ≤ 32) : ∃ pad, 0 ≤ pad ∧ pad < minObjAlignment ∧
      toJint (alignSizeUp (toJint (headerSize + toJint (alignSizeUp extra bytesPerWord / bytesPerWord)))
        minObjAlignment) =
        6 + extra / 8 + pad := by
  obtain ⟨h0, h1⟩ := hint
  have hwords : toJint (alignSizeUp extra bytesPerWord / bytesPerWord) = extra / 8 := by
    unfold alignSizeUp bytesPerWord
    rw [toJint_eq (by omega) (by omega)]
    omega
  have hheader : toJint (headerSize + extra / 8) = 6 + extra / 8 := by
    unfold headerSize headerBytes bytesPerWord
    rw [toJint_eq (by omega) (by omega)]
    omega
  have hdiv := emod_add_mul_ediv (6 + extra / 8 + (minObjAlignment - 1)) minObjAlignment
  have hlo := emod_nonneg (6 + extra / 8 + (minObjAlignment - 1)) (ne_of_gt hm)
  have hhi := emod_lt_of_pos (6 + extra / 8 + (minObjAlignment - 1)) hm
  rw [hwords, hheader, alignSizeUp]
  rw [mul_comm] at hdiv
  generalize (6 + extra / 8 + (minObjAlignment - 1)) / minObjAlignment * minObjAlignment = up at *
  generalize (6 + extra / 8 + (minObjAlignment - 1)) % minObjAlignment = r at *
  refine ⟨up - (6 + extra / 8), by omega, by omega, ?_⟩
  rw [toJint_eq (by omega) (by omega)]
  omega

lemma codeEnd_le {E} (hE : headerBytes + s.extraBytes codeSize ≤ E) :
    headerBytes + codeSize + s.linenumberBytes ≤ s.localsStart E := by
  unfold extraBytes contentBytes alignSizeUp bytesPerWord at hE
  unfold localsStart localsEnd exceptionsEnd
    checkedEnd parametersEnd genericEnd
    defaultAnnotationsEnd typeAnnotationsEnd parameterAnnotationsEnd
  omega

variable {cm : ConstMethod} {E : Int}

section
variable (hf : Flagged cm s) (hE : cm.constMethodEnd = E)

include hf hE

lemma Flagged.defaultAnnotationsAddr (hp : 0 < s.defaultAnnotationsLength) :
    cm.defaultAnnotationsAddr = s.genericEnd E := by
  unfold ConstMethod.defaultAnnotationsAddr genericEnd defaultAnnotationsEnd
    typeAnnotationsEnd parameterAnnotationsEnd pointerBytes bytesPerWord
  simp only [hf.methodAnnotations, hf.parameterAnnotations, hf.typeAnnotations, decide_eq_true_eq]
  split <;> split <;> split <;> omega

lemma Flagged.typeAnnotationsAddr (hp : 0 < s.typeAnnotationsLength) :
    cm.typeAnnotationsAddr = s.defaultAnnotationsEnd E := by
  unfold ConstMethod.typeAnnotationsAddr defaultAnnotationsEnd typeAnnotationsEnd parameterAnnotationsEnd pointerBytes
    bytesPerWord
  simp only [hf.methodAnnotations, hf.parameterAnnotations, decide_eq_true_eq]
  split <;> split <;> omega

lemma Flagged.parameterAnnotationsAddr (hp : 0 < s.parameterAnnotationsLength) :
    cm.parameterAnnotationsAddr = s.typeAnnotationsEnd E := by
  unfold ConstMethod.parameterAnnotationsAddr typeAnnotationsEnd parameterAnnotationsEnd pointerBytes bytesPerWord
  simp only [hf.methodAnnotations, decide_eq_true_eq]
  split <;> omega

end

lemma Flagged.methodAnnotationsAddr (hE : cm.constMethodEnd = E) (hp : 0 < s.methodAnnotationsLength) :
    cm.methodAnnotationsAddr = s.parameterAnnotationsEnd E := by
  rw [← hE, parameterAnnotationsEnd, pointerBytes, if_pos hp]
  rfl

structure Placed (cm : ConstMethod) (codeSize : Int) (s : InlineTableSizes) (E : Int) : Prop where
  flagged : Flagged cm s
  end_eq : cm.constMethodEnd = E
  codeSize : (cm.codeSize.toNat : Int) = codeSize
  stored : Stored cm s E
  generic : StoredBefore cm (s.genericSignatureIndex ≠ 0) (s.genericEnd E) s.genericSignatureIndex
  locals : StoredBefore cm (0 < s.localvariableTableLength) (s.localsEnd E) s.localvariableTableLength

lemma stacked_present [Decidable p] {lo hi start}
    (hpresent : present = decide p) (hle : lo ≤ hi) (h : p → start = lo ∧ stop = hi) :
    Stacked lo (optional present start stop) hi := by
  refine stacked_optional hle fun hp => ?_
  obtain ⟨rfl, rfl⟩ := h (of_decide_eq_true (hpresent ▸ hp))
  exact ⟨le_rfl, hle, le_rfl⟩

section

variable (hp : Placed cm codeSize s E)

include hp

lemma Placed.stacked_code (hcode : 0 ≤ codeSize)
    (hE : headerBytes + s.extraBytes codeSize ≤ E) : Stacked headerBytes ([⟨codeBase, cm.codeEnd⟩] ++
      optional cm.hasLinenumberTable cm.compressedLinenumberTable
        (cm.compressedLinenumberTable + s.compressedLinenumberSize)) (s.localsStart E) := by
  have hcodeEnd : cm.codeEnd = headerBytes + codeSize := congrArg (headerBytes + ·) hp.codeSize
  have hroom := codeEnd_le hE
  have hline : 0 ≤ s.linenumberBytes := by
    unfold linenumberBytes
    split <;> omega
  refine ⟨le_rfl, ?_, stacked_optional ?_ fun hpresent => ?_⟩
  · change headerBytes ≤ cm.codeEnd
    omega
  · change cm.codeEnd ≤ _
    omega
  · have hpos : 0 < s.compressedLinenumberSize := of_decide_eq_true (hp.flagged.linenumber ▸ hpresent)
    rw [linenumberBytes] at hroom
    refine ⟨le_rfl, by omega, ?_⟩
    change cm.codeEnd + _ ≤ _
    omega

lemma Placed.stacked_tables : Stacked (s.localsStart E)
      (optional cm.hasLocalvariableTable cm.localvariableTableStart (cm.localvariableTableLengthAddr + 2) ++
      optional cm.hasExceptionHandler cm.exceptionTableStart (cm.exceptionTableLengthAddr + 2) ++
      optional cm.hasCheckedExceptions cm.checkedExceptionsStart (cm.checkedExceptionsLengthAddr + 2) ++
      optional cm.hasMethodParameters cm.methodParametersStart (cm.methodParametersLengthAddr + 2) ++
      optional cm.hasGenericSignature cm.genericSignatureIndexAddr (cm.genericSignatureIndexAddr + 2))
      (s.genericEnd E) := by
  obtain ⟨hf, hend, -, hst, -, hlocals⟩ := hp
  obtain ⟨h1, h2, h3, h4, h5⟩ := ends_le s E
  refine ((((stacked_present hf.locals h1 fun hpos => ?_).append
    (stacked_present hf.exceptions h2 fun hpos => ?_)).append
    (stacked_present hf.checked h3 fun hpos => ?_)).append (stacked_present hf.parameters h4 fun hpos => ?_)).append
    (stacked_present hf.generic h5 fun hne => ?_)
  · rw [hf.localvariableTableLengthAddr hend hst]
    exact ⟨hf.localvariableTableStart hend hst hlocals hpos, by omega⟩
  · rw [hf.exceptionTableLengthAddr hend hst.parameters hst.checked]
    exact ⟨hf.exceptionTableStart hend hst hpos, by omega⟩
  · rw [hf.checkedExceptionsLengthAddr hend hst.parameters]
    exact ⟨hf.checkedExceptionsStart hend hst.parameters hst.checked hpos, by omega⟩
  · have haddr : cm.methodParametersLengthAddr = s.parametersEnd E - 2 := hf.belowGeneric hend
    exact ⟨hf.methodParametersStart hend hst.parameters hpos, by omega⟩
  · have haddr : cm.genericSignatureIndexAddr = s.genericEnd E - 2 := hf.lastU2Element hend
    rw [haddr, parametersEnd, genericBytes, if_pos hne]
    exact ⟨rfl, by omega⟩

lemma Placed.stacked_annotations : Stacked (s.genericEnd E)
      (optional cm.hasDefaultAnnotations cm.defaultAnnotationsAddr (cm.defaultAnnotationsAddr + bytesPerWord) ++
      optional cm.hasTypeAnnotations cm.typeAnnotationsAddr (cm.typeAnnotationsAddr + bytesPerWord) ++
      optional cm.hasParameterAnnotations cm.parameterAnnotationsAddr (cm.parameterAnnotationsAddr + bytesPerWord) ++
      optional cm.hasMethodAnnotations cm.methodAnnotationsAddr (cm.methodAnnotationsAddr + bytesPerWord)) E := by
  obtain ⟨hf, hend, -⟩ := hp
  have hle : ∀ a length : Int, a - pointerBytes length ≤ a := by
    intro a length
    have := pointerBytes_spec length
    omega
  have hpointer : ∀ {a length : Int}, 0 < length → a - pointerBytes length + bytesPerWord = a := by
    intro a length hpos
    rw [pointerBytes, if_pos hpos]
    exact sub_add_cancel a 8
  refine (((stacked_present hf.defaultAnnotations (hle _ _) fun hpos => ?_).append
    (stacked_present hf.typeAnnotations (hle _ _) fun hpos => ?_)).append
    (stacked_present hf.parameterAnnotations (hle _ _) fun hpos => ?_)).append
    (stacked_present hf.methodAnnotations (hle _ _) fun hpos => ?_)
  · rw [hf.defaultAnnotationsAddr hend hpos]
    exact ⟨rfl, hpointer hpos⟩
  · rw [hf.typeAnnotationsAddr hend hpos]
    exact ⟨rfl, hpointer hpos⟩
  · rw [hf.parameterAnnotationsAddr hend hpos]
    exact ⟨rfl, hpointer hpos⟩
  · rw [Flagged.methodAnnotationsAddr hend hpos]
    exact ⟨rfl, hpointer hpos⟩

lemma Placed.stacked (hcode : 0 ≤ codeSize) (hE : headerBytes + s.extraBytes codeSize ≤ E) :
    Stacked headerBytes (cm.sections s.compressedLinenumberSize) E := by
  have hall := ((hp.stacked_code hcode hE).append hp.stacked_tables).append hp.stacked_annotations
  unfold ConstMethod.sections
  simp only [append_assoc] at hall ⊢
  exact hall

end

lemma Placed.lengthAt_eq [Decidable p] {addr} (hpresent : present = decide p) (haddr : addr = stop - 2)
    (hst : StoredBefore cm p stop value) (hzero : ¬ p → value = 0) : (cm.lengthAt present addr : Int) = value := by
  rw [lengthAt, hpresent, haddr]
  by_cases hp : p
  · simpa [hp] using hst hp
  · simp [hp, hzero hp]

lemma Placed.tableLength_eq {addr} (hpresent : present = decide (0 < value)) (haddr : addr = stop - 2)
    (hst : StoredBefore cm (0 < value) stop value) (h0 : 0 ≤ value) : (cm.lengthAt present addr : Int) = value :=
  lengthAt_eq hpresent haddr hst fun hpos => le_antisymm (not_lt.1 hpos) h0

end

structure InlinedTable where
  present : Bool
  start : Int
  elementSize : Int
  length : Nat
  lengthAddr : Int

def ConstMethod.inlinedTables (cm : ConstMethod) : List InlinedTable :=
  [⟨cm.hasLocalvariableTable, cm.localvariableTableStart, sizeofLocalVariable, cm.localvariableTableLength,
      cm.localvariableTableLengthAddr⟩,
    ⟨cm.hasExceptionHandler, cm.exceptionTableStart, sizeofException, cm.exceptionTableLength,
      cm.exceptionTableLengthAddr⟩,
    ⟨cm.hasCheckedExceptions, cm.checkedExceptionsStart, sizeofCheckedException, cm.checkedExceptionsLength,
      cm.checkedExceptionsLengthAddr⟩,
    ⟨cm.hasMethodParameters, cm.methodParametersStart, sizeofMethodParameter, cm.methodParametersLength,
      cm.methodParametersLengthAddr⟩]

structure LaidOut (cm : ConstMethod) (codeSize : Int) (s : InlineTableSizes) : Prop where
  codeSize : (cm.codeSize.toNat : Int) = codeSize
  flagged : Flagged cm s
  genericSignatureIndex : (cm.genericSignatureIndex : Int) = s.genericSignatureIndex
  methodParametersLength : (cm.methodParametersLength : Int) = s.methodParametersLength
  checkedExceptionsLength : (cm.checkedExceptionsLength : Int) = s.checkedExceptionsLength
  exceptionTableLength : (cm.exceptionTableLength : Int) = s.exceptionTableLength
  localvariableTableLength : (cm.localvariableTableLength : Int) = s.localvariableTableLength
  apart : (cm.sections s.compressedLinenumberSize).Pairwise fun r r' => r.stop ≤ r'.start
  inside : ∀ r ∈ cm.sections s.compressedLinenumberSize,
    headerBytes ≤ r.start ∧ r.start ≤ r.stop ∧ r.stop ≤ cm.constMethodEnd
  tables : ∀ t ∈ cm.inlinedTables, t.present = true →
    t.start % 2 = 0 ∧ t.start + t.length * t.elementSize = t.lengthAddr

section
variable {s : InlineTableSizes} {minObjAlignment codeSize : Int} {cm : ConstMethod} {E : Int}

variable {elementSize : Int}

lemma table_spec {length : Nat} {start addr : Int}
    (hp : present = decide (0 < value)) (hpresent : present = true) (hlength : (length) = value)
    (hstart : 0 < value → start = stop - tableBytes value elementSize) (haddr : addr = stop - 2)
    (hstop : stop % 2 = 0) (he : elementSize % 2 = 0) : start % 2 = 0 ∧ start + length * elementSize = addr := by
  have hpos : 0 < value := of_decide_eq_true (hp ▸ hpresent)
  have heven := mul_even value he
  rw [hlength, hstart hpos, tableBytes]
  omega

lemma tableBytes_even (value) (he : elementSize % 2 = 0) : tableBytes value elementSize % 2 = 0 := by
  have heven := mul_even value he
  unfold tableBytes
  split <;> omega

lemma ends_even (s : InlineTableSizes) (hE : E % 8 = 0) :
    s.localsEnd E % 2 = 0 ∧ s.exceptionsEnd E % 2 = 0 ∧ s.checkedEnd E % 2 = 0 ∧ s.parametersEnd E % 2 = 0 := by
  obtain ⟨w, -, -, hw, -⟩ := genericEnd_spec s E
  have h5 : s.genericBytes % 2 = 0 := by
    unfold genericBytes
    split <;> rfl
  have h6 := tableBytes_even s.methodParametersLength (show sizeofMethodParameter % 2 = 0 from rfl)
  have h7 := tableBytes_even s.checkedExceptionsLength (show sizeofCheckedException % 2 = 0 from rfl)
  have h8 := tableBytes_even s.exceptionTableLength (show sizeofException % 2 = 0 from rfl)
  unfold localsEnd exceptionsEnd checkedEnd parametersEnd
  omega

lemma Placed.laidOut (hp : Placed cm codeSize s E) (hu : U2Lengths s) (hlocals : 0 ≤ s.localvariableTableLength)
    (hcode : 0 ≤ codeSize) (hE : headerBytes + s.extraBytes codeSize ≤ E) : LaidOut cm codeSize s := by
  have hstack := hp.stacked hcode hE
  obtain ⟨hf, hend, hsize, hst, hgeneric, hvars⟩ := hp
  have hparamsAddr : cm.methodParametersLengthAddr = s.parametersEnd E - 2 := hf.belowGeneric hend
  have hcheckedAddr := hf.checkedExceptionsLengthAddr hend hst.parameters
  have hexcAddr := hf.exceptionTableLengthAddr hend hst.parameters hst.checked
  have hvarsAddr := hf.localvariableTableLengthAddr hend hst
  have hparams := Placed.tableLength_eq hf.parameters hparamsAddr hst.parameters hu.parameters.1
  have hchecked := Placed.tableLength_eq hf.checked hcheckedAddr hst.checked hu.checked.1
  have hexc := Placed.tableLength_eq hf.exceptions hexcAddr hst.exceptions hu.exceptions.1
  have hlvt := Placed.tableLength_eq hf.locals hvarsAddr hvars hlocals
  have heven : E % 8 = 0 := by
    rw [← hend]
    exact mul_emod_left _ _
  obtain ⟨he1, he2, he3, he4⟩ := ends_even s heven
  refine ⟨hsize, hf, ?_, hparams, hchecked, hexc, hlvt, hstack.pairwise, ?_, ?_⟩
  · exact Placed.lengthAt_eq hf.generic (hf.lastU2Element hend) hgeneric not_not.1
  · rw [hend]
    exact fun r hr => hstack.mem_bounds hr
  intro t ht hpresent
  simp only [inlinedTables, mem_cons, not_mem_nil, or_false] at ht
  rcases ht with rfl | rfl | rfl | rfl
  · exact table_spec hf.locals hpresent hlvt (hf.localvariableTableStart hend hst hvars) hvarsAddr he1 rfl
  · exact table_spec hf.exceptions hpresent hexc (hf.exceptionTableStart hend hst) hexcAddr he2 rfl
  · exact table_spec hf.checked hpresent hchecked (hf.checkedExceptionsStart hend hst.parameters hst.checked)
      hcheckedAddr he3 rfl
  · exact table_spec hf.parameters hpresent hparams (hf.methodParametersStart hend hst.parameters) hparamsAddr he4 rfl

lemma allocate_spec (hu : U2Lengths s) {t contents} (hcm : cm = allocate minObjAlignment codeSize s t contents) :
    ∃ E, E = s.size minObjAlignment codeSize * 8 ∧ cm.constMethodEnd = E ∧ Flagged cm s ∧
      cm.codeSize = BitVec.ofInt 16 codeSize ∧ Stored cm s E ∧
      StoredBefore cm (s.genericSignatureIndex ≠ 0) (s.genericEnd E) s.genericSignatureIndex ∧
      (0 < s.localvariableTableLength → cm.u2At (s.localsEnd E - 2) = BitVec.ofInt 16 s.localvariableTableLength) := by
  subst hcm
  obtain ⟨hf, hsize, hcode, hst, hgeneric, hlocals⟩ := setInlinedTablesLength_spec
    { constMethodSize := s.size minObjAlignment codeSize, flags := 0, codeSize := BitVec.ofInt 16 codeSize,
      u2At := contents } hu rfl
  refine ⟨_, rfl, ?_, hf.setMethodType t, ?_, ?_, ?_, ?_⟩
  all_goals cases t
  · exact congrArg (· * bytesPerWord) hsize
  · exact congrArg (· * bytesPerWord) hsize
  · exact hcode
  · exact hcode
  · exact ⟨hst.parameters, hst.checked, hst.exceptions⟩
  · exact ⟨hst.parameters, hst.checked, hst.exceptions⟩
  · exact hgeneric
  · exact hgeneric
  · exact hlocals
  · exact hlocals

lemma size_of_fits (hm : 0 < minObjAlignment) (hm' : minObjAlignment ≤ 32) (h0 : 0 ≤ s.extraBytes codeSize)
    (hfits : s.extraBytes codeSize < 2 ^ 31) :
    headerBytes + s.extraBytes codeSize ≤ s.size minObjAlignment codeSize * 8 := by
  obtain ⟨extra, hint, hsame, hsize⟩ := size_eq s minObjAlignment codeSize
  have h8 := extraBytes_mod_eight s codeSize
  obtain rfl : extra = s.extraBytes codeSize := by
    unfold IsInt at hint
    unfold SameInt at hsame
    omega
  obtain ⟨pad, hpad, -, hwords⟩ := words_eq hint h8 hm hm'
  rw [headerBytes]
  omega

lemma size_of_overflow (hm : 0 < minObjAlignment) (hm' : minObjAlignment ≤ 32) (h0 : 2 ^ 31 ≤ s.extraBytes codeSize)
    (h1 : s.extraBytes codeSize < 2 ^ 32 - 2 ^ 10) : s.size minObjAlignment codeSize < 0 := by
  obtain ⟨extra, hint, hsame, hsize⟩ := size_eq s minObjAlignment codeSize
  have h8 := extraBytes_mod_eight s codeSize
  obtain ⟨pad, -, hpad, hwords⟩ := words_eq hint (by unfold SameInt at hsame; omega) hm hm'
  unfold IsInt at hint
  unfold SameInt at hsame
  omega

lemma tableBytes_bounds (h : value < 2 ^ 16) (he : 0 ≤ elementSize) :
    0 ≤ tableBytes value elementSize ∧ tableBytes value elementSize ≤ 2 ^ 16 * elementSize + 2 := by
  refine ⟨tableBytes_nonneg value he, ?_⟩
  unfold tableBytes
  split
  · have := mul_le_mul_of_nonneg_right (le_of_lt h) he
    omega
  · omega

lemma extraBytes_bounds (hu : U2Lengths s) (hlocals : s.localvariableTableLength < 2 ^ 16) (hcode0 : 0 ≤ codeSize)
    (hcode : codeSize < 2 ^ 16) (hline : s.compressedLinenumberSize < 2 ^ 31) :
    0 ≤ s.extraBytes codeSize ∧ s.extraBytes codeSize < 2 ^ 32 - 2 ^ 10 := by
  have h1 := tableBytes_bounds hu.parameters.2 (show 0 ≤ sizeofMethodParameter by decide)
  have h2 := tableBytes_bounds hu.checked.2 (show 0 ≤ sizeofCheckedException by decide)
  have h3 := tableBytes_bounds hu.exceptions.2 (show 0 ≤ sizeofException by decide)
  have h4 := tableBytes_bounds hlocals (show 0 ≤ sizeofLocalVariable by decide)
  obtain ⟨w, hw0, hw, -, hextra⟩ := genericEnd_spec s 0
  have hg : 0 ≤ s.genericBytes ∧ s.genericBytes ≤ 2 := by
    unfold genericBytes
    split <;> decide
  have hl : 0 ≤ s.linenumberBytes ∧ s.linenumberBytes < 2 ^ 31 := by
    unfold linenumberBytes
    split <;> omega
  rw [hextra, contentBytes, alignSizeUp, bytesPerWord]
  unfold sizeofMethodParameter sizeofCheckedException sizeofException sizeofLocalVariable at *
  omega

end

/-- The accessors return what was passed in and all parts are apart and inside, exactly if the code size is a `u2` and
the bytes of the variable part are an `int`. -/
theorem const_method_layout_iff {minObjAlignment codeSize : Int} {s : InlineTableSizes} (hm : 0 < minObjAlignment)
    (hm' : minObjAlignment ≤ 32) (hcode : 0 ≤ codeSize) (hu : U2Lengths s)
    (hlocals : 0 ≤ s.localvariableTableLength ∧ s.localvariableTableLength < 2 ^ 16)
    (hline : s.compressedLinenumberSize < 2 ^ 31) (t : MethodType) (contents : Int → BitVec 16) :
    LaidOut (allocate minObjAlignment codeSize s t contents) codeSize s ↔
      codeSize < 2 ^ 16 ∧ s.extraBytes codeSize < 2 ^ 31 := by
  obtain ⟨E, hE, hend, hf, hsize, hst, hgeneric, hvars⟩ :=
    allocate_spec hu (rfl : allocate minObjAlignment codeSize s t contents = _)
  constructor
  · intro h
    have hcode' : codeSize < 2 ^ 16 := by
      rw [← h.codeSize]
      exact ofNat_lt.2 (BitVec.isLt _)
    obtain ⟨-, hlt⟩ := extraBytes_bounds hu hlocals.2 hcode hcode' hline
    refine ⟨hcode', not_le.1 fun hover => ?_⟩
    have hneg := size_of_overflow hm hm' hover hlt
    -- the bytecodes begin after the end of the method
    obtain ⟨hlo, hle, hhi⟩ := h.inside _ (code_mem_sections _ _)
    rw [headerBytes] at hlo
    omega
  · rintro ⟨hcode', hfits⟩
    obtain ⟨h0, -⟩ := extraBytes_bounds hu hlocals.2 hcode hcode' hline
    have hplaced : Placed (allocate minObjAlignment codeSize s t contents) codeSize s E := by
      refine ⟨hf, hend, ?_, hst, hgeneric, fun hpos => ?_⟩
      · rw [hsize]
        exact toNat_ofInt_u2 hcode hcode'
      · rw [hvars hpos]
        exact toNat_ofInt_u2 hlocals.1 hlocals.2
    refine hplaced.laidOut hu hlocals.1 hcode ?_
    rw [hE]
    exact size_of_fits hm hm' h0 hfits

def fullSizes : InlineTableSizes where
  localvariableTableLength := 2
  compressedLinenumberSize := 7
  exceptionTableLength := 1
  checkedExceptionsLength := 3
  methodParametersLength := 2
  genericSignatureIndex := 9
  methodAnnotationsLength := 5
  parameterAnnotationsLength := 5
  typeAnnotationsLength := 5
  defaultAnnotationsLength := 5

theorem const_method_layout_iff_full : LaidOut (allocate 2 11 fullSizes .overpass fun _ => 0) 11 fullSizes :=
  (const_method_layout_iff (by decide) (by decide) (by decide) ⟨by decide, by decide, by decide, by decide⟩ (by decide)
    (by decide) .overpass fun _ => 0).2 (by decide)

def lineSizes (compressedLinenumberSize : Int) : InlineTableSizes where
  localvariableTableLength := 0
  compressedLinenumberSize := compressedLinenumberSize
  exceptionTableLength := 0
  checkedExceptionsLength := 0
  methodParametersLength := 0
  genericSignatureIndex := 0
  methodAnnotationsLength := 0
  parameterAnnotationsLength := 0
  typeAnnotationsLength := 0
  defaultAnnotationsLength := 0

/-- With code of 65535 bytes and line numbers of 2147450880 bytes the size overflows and the bytecodes are behind the
end; a code size of 65536 is stored as 0. -/
theorem const_method_layout_overflow :
    ¬LaidOut (allocate 1 65535 (lineSizes 2147450880) .normal fun _ => 0) 65535 (lineSizes 2147450880) ∧
      ¬LaidOut (allocate 1 65536 (lineSizes 0) .normal fun _ => 0) 65536 (lineSizes 0) :=
  ⟨fun h => absurd h.inside (by decide), fun h => absurd h.codeSize (by decide)⟩

end Rolp.Oops
