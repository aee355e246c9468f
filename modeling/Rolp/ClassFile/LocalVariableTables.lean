import Mathlib.Data.List.Nodup
import Rolp.ClassFile.LocalVariables
import Rolp.Oops.ConstMethodLayout

/-!
# Local variable tables inside their method

What is read back is what the attributes held, as long as the counters of the parser and the stored length are large
enough.
-/

namespace Rolp.ClassFile

open Rolp.Lib Oops List Nat ConstMethod TableArray

/-- Every entry passes the checks, no two entries of a kind are equal, and a type is given to a variable
of the tables. -/
structure ValidTables (ctx : ParserContext) (attributes : List CodeAttribute) : Prop where
  lvt : ∀ es ∈ lvtTables attributes, ValidEntries ctx false es
  lvtt : ∀ es ∈ lvttTables ctx attributes, ValidEntries ctx true es
  distinct : ((lvtTables attributes).flatten.map (·.key)).Nodup
  types : ctx.needVerify = true →
    (∀ e ∈ (lvttTables ctx attributes).flatten, e.key ∈ (lvtTables attributes).flatten.map (·.key)) ∧
      ((lvttTables ctx attributes).flatten.map (·.key)).Nodup

def withLocals (sizes : InlineTableSizes) (n : Nat) : InlineTableSizes := { sizes with localvariableTableLength := n }

section
variable {cm cm' cm0 : ConstMethod} {s : InlineTableSizes} {E : Int}

lemma flagged_congr (hf : Flagged cm s) (hflags : cm'.flags = cm.flags) : Flagged cm' s := by
  have hhas (mask) : cm'.has mask = cm.has mask := by
    rw [has, has, hflags]
  obtain ⟨h1, h2, h3, h4, h5, h6, h7, h8, h9, h10⟩ := hf
  exact ⟨(hhas _).trans h1, (hhas _).trans h2, (hhas _).trans h3, (hhas _).trans h4, (hhas _).trans h5,
    (hhas _).trans h6, (hhas _).trans h7, (hhas _).trans h8, (hhas _).trans h9, (hhas _).trans h10⟩

lemma storedBefore_congr {present : Prop} {stop value} (h : StoredBefore cm present stop value)
    (hsame : cm'.u2At (stop - 2) = cm.u2At (stop - 2)) : StoredBefore cm' present stop value := by
  intro hp
  rw [hsame]
  exact h hp

lemma stored_congr (h : Stored cm s E) (hsame : ∀ a, s.localsEnd E - 2 ≤ a → cm'.u2At a = cm.u2At a) :
    Stored cm' s E := by
  obtain ⟨-, h2, h3, h4, -⟩ := ends_le s E
  refine ⟨storedBefore_congr h.parameters (hsame _ ?_), storedBefore_congr h.checked (hsame _ ?_),
    storedBefore_congr h.exceptions (hsame _ ?_)⟩
  all_goals omega

lemma localvariableTableLength_lt (cm : ConstMethod) : cm.localvariableTableLength < 2 ^ 16 := by
  unfold localvariableTableLength lengthAt
  split
  · exact BitVec.isLt _
  · decide

lemma length_localvariableTable (cm) : (localvariableTable cm).length = cm.localvariableTableLength := by
  rw [localvariableTable, length_map, length_range]

lemma localvariableTable_eq_nil (hf : Flagged cm s) (h : ¬ 0 < s.localvariableTableLength) :
    localvariableTable cm = [] := by
  have hlen : cm.localvariableTableLength = 0 := by simp [localvariableTableLength, lengthAt, hf.locals, h]
  rw [localvariableTable, hlen]
  rfl

lemma Filled.localvariableTable_eq {xs ys st}
    (h : Filled cm0 (s.localsStart E) xs ys st) (hlen : s.localvariableTableLength = xs.length) (hpos : 0 < xs.length)
    (hf : Flagged cm0 s) (hend : cm0.constMethodEnd = E) (hst : Stored cm0 s E)
    (hlocals : StoredBefore cm0 (0 < s.localvariableTableLength) (s.localsEnd E) s.localvariableTableLength) :
    (localvariableTable st.cm).map (·.toClassfile) = xs := by
  have hpos' : 0 < s.localvariableTableLength := by omega
  have hstop : s.localsStart E + xs.length * 12 = s.localsEnd E - 2 := by
    rw [InlineTableSizes.localsStart, tableBytes, sizeofLocalVariable]
    omega
  have hf' := flagged_congr hf h.flags
  have hend' : st.cm.constMethodEnd = E := (congrArg (· * bytesPerWord) h.constMethodSize).trans hend
  have hsame : ∀ a, s.localsEnd E - 2 ≤ a → st.cm.u2At a = cm0.u2At a := fun a ha => h.frame a (.inr (by omega))
  have hst' := stored_congr hst hsame
  have hlocals' := storedBefore_congr hlocals (hsame _ (Int.le_refl _))
  have hstart := hf'.localvariableTableStart hend' hst' hlocals' hpos'
  have hlength : (st.cm.localvariableTableLength : Int) = xs.length := by
    have := Placed.lengthAt_eq hf'.locals (hf'.localvariableTableLengthAddr hend' hst') hlocals'
      fun hn => absurd hpos' hn
    rw [← hlen]
    exact this
  have hlength' : st.cm.localvariableTableLength = xs.length := Int.ofNat_inj.1 hlength
  refine ext_getElem? fun i => ?_
  rw [localvariableTable, hstart, hlength', map_map]
  cases hx : xs[i]? with
  | none =>
    have hi := getElem?_eq_none_iff.1 hx
    exact getElem?_eq_none_iff.2 (by simpa using hi)
  | some x =>
    have hi := lt_of_getElem? hx
    rw [getElem?_map, getElem?_range hi]
    exact congrArg some (h.elements i x hx).1

end

section
variable {ctx : ParserContext} {minObjAlignment : Int} {sizes : InlineTableSizes} {attributes : List CodeAttribute}
  {contents : Int → BitVec 16}

lemma parseLocalVariables_eq (hcode : ctx.codeLength < 2 ^ 16) {c} (hc : collect ctx attributes = .ok c)
    (hholds : c.Holds (lvtTables attributes) (lvttTables ctx attributes))
    (hlt : (lvtTables attributes).flatten.length < 2 ^ 31) {cm} (hcm : cm = allocate minObjAlignment ctx.codeLength
      (withLocals sizes (lvtTables attributes).flatten.length) .normal contents) :
    parseLocalVariables ctx minObjAlignment sizes contents attributes =
      if 0 < (lvtTables attributes).flatten.length then
        copyLocalvariableTable ctx cm (lvtTables attributes) (lvttTables ctx attributes) else .ok cm := by
  have htotal : c.totalLvtLength = ((lvtTables attributes).flatten.length : Int) := by
    rw [hholds.total]
    exact toJint_eq (by omega) (by omega)
  have hcode' : toJint ctx.codeLength = ctx.codeLength := toJint_eq (by omega) (by omega)
  unfold parseLocalVariables
  rw [hc, ok_bind]
  rw [htotal, hcode', hholds.lvt.tables, hholds.lvtt.tables, hcm]
  simp only [Int.natCast_pos]
  rfl

lemma filled_nil (cm0 start lvt) : Filled cm0 start [] [] ⟨cm0, lvt, fun _ => []⟩ where
  flags := rfl
  constMethodSize := rfl
  frame _ _ := rfl
  elements _ _ hx := nomatch hx
  rows _ _ := ⟨nofun, fun ⟨_, _, hx, _⟩ => nomatch hx⟩

lemma copyLocalvariableTable_ok {cm0 : ConstMethod} {lvt lvtt : List (List ClassfileLvtElement)}
    (h0 : 0 ≤ cm0.localvariableTableStart)
    (hend : cm0.localvariableTableStart + lvt.flatten.length * 12 ≤ cm0.constMethodEnd)
    (hnd : (lvt.flatten.map (·.key)).Nodup) (htypes : ctx.needVerify = true →
      (∀ e ∈ lvtt.flatten, e.key ∈ lvt.flatten.map (·.key)) ∧ (lvtt.flatten.map (·.key)).Nodup) :
    ∃ st, copyLocalvariableTable ctx cm0 lvt lvtt = .ok st.cm ∧
      Filled cm0 cm0.localvariableTableStart lvt.flatten lvtt.flatten st := by
  have hstart := filled_nil cm0 cm0.localvariableTableStart cm0.localvariableTableStart
  obtain ⟨st1, hcopy, h1⟩ : ∃ st1, lvt.flatten.foldlM (copyElement ctx) _ = .ok st1 ∧
      Filled cm0 cm0.localvariableTableStart ([] ++ lvt.flatten) [] st1 :=
    hstart.copyElements (by simp) h0 (by simpa using hend) hnd
  obtain ⟨st2, hmerge, h2⟩ : ∃ st2, lvtt.flatten.foldlM (mergeElement ctx) st1 = .ok st2 ∧
      Filled cm0 cm0.localvariableTableStart lvt.flatten ([] ++ lvtt.flatten) st2 :=
    h1.mergeElements htypes
  refine ⟨st2, ?_, h2⟩
  unfold copyLocalvariableTable
  rw [foldlM_flatten, hcopy, ok_bind, foldlM_flatten, hmerge]
  rfl

lemma copyLocalvariableTable_outside {cm0 lvt} (lvtt) (hpos : 0 < lvt.flatten.length)
    (h : ¬ (0 ≤ cm0.localvariableTableStart ∧ cm0.localvariableTableStart + sizeofLocalVariable ≤ cm0.constMethodEnd)) :
    copyLocalvariableTable ctx cm0 lvt lvtt = .error .outside := by
  unfold copyLocalvariableTable
  rw [foldlM_flatten]
  cases hl : lvt.flatten with
  | nil => rw [hl] at hpos; cases hpos
  | cons z zs =>
    rw [foldlM_cons]
    have hstep : copyElement ctx ⟨cm0, cm0.localvariableTableStart, fun _ => []⟩ z = .error .outside := by
      unfold copyElement copyLvtElement
      rw [if_neg h]
      rfl
    rw [hstep]
    rfl

lemma u2Lengths_withLocals (hu : U2Lengths sizes) (n) : U2Lengths (withLocals sizes n) :=
  ⟨hu.generic, hu.parameters, hu.checked, hu.exceptions⟩

lemma linenumberBytes_nonneg (s : InlineTableSizes) : 0 ≤ s.linenumberBytes := by
  unfold InlineTableSizes.linenumberBytes
  split <;> omega

lemma allocate_locals (hm : 0 < minObjAlignment) (hm' : minObjAlignment ≤ 32) (hu : U2Lengths sizes)
    (hline : sizes.compressedLinenumberSize < 2 ^ 31) {codeSize} (hcode0 : 0 ≤ codeSize)
    (hcode : codeSize < 2 ^ 16) {n} (hpos : 0 < n) (hlt : n < 2 ^ 16)
    (hfits : (withLocals sizes n).extraBytes codeSize < 2 ^ 31) {cm}
    (hcm : cm = allocate minObjAlignment codeSize (withLocals sizes n) .normal contents) :
    ∃ E, Flagged cm (withLocals sizes n) ∧ cm.constMethodEnd = E ∧ Stored cm (withLocals sizes n) E ∧
      StoredBefore cm (0 < (withLocals sizes n).localvariableTableLength) ((withLocals sizes n).localsEnd E)
        (withLocals sizes n).localvariableTableLength ∧
      cm.localvariableTableStart = (withLocals sizes n).localsStart E ∧ 0 ≤ (withLocals sizes n).localsStart E ∧
      (withLocals sizes n).localsStart E + n * 12 ≤ E := by
  have hu' := u2Lengths_withLocals hu n
  have hlocals : (withLocals sizes n).localvariableTableLength = n := rfl
  have hpos' : 0 < (withLocals sizes n).localvariableTableLength := by omega
  obtain ⟨E, hE, hend, hf, -, hst, -, hcell⟩ := allocate_spec hu' hcm
  have hstored : StoredBefore cm (0 < (withLocals sizes n).localvariableTableLength)
      ((withLocals sizes n).localsEnd E) (withLocals sizes n).localvariableTableLength := by
    intro _
    rw [hcell hpos']
    exact toNat_ofInt_u2 (by omega) (by omega)
  obtain ⟨h0, -⟩ := extraBytes_bounds hu' (by omega) hcode0 hcode hline
  have hroom := size_of_fits hm hm' h0 hfits
  rw [← hE] at hroom
  have hcodeEnd := codeEnd_le hroom
  have hline0 := linenumberBytes_nonneg (withLocals sizes n)
  obtain ⟨-, h2, h3, h4, h5⟩ := ends_le (withLocals sizes n) E
  obtain ⟨w, h6, -, h7, -⟩ := genericEnd_spec (withLocals sizes n) E
  refine ⟨E, hf, hend, hst, hstored, hf.localvariableTableStart hend hst hstored hpos', ?_, ?_⟩
  · rw [headerBytes] at hcodeEnd
    omega
  · rw [InlineTableSizes.localsStart, tableBytes, sizeofLocalVariable]
    omega

lemma parseLocalVariables_ok (hm : 0 < minObjAlignment) (hm' : minObjAlignment ≤ 32) (hu : U2Lengths sizes)
    (hline : sizes.compressedLinenumberSize < 2 ^ 31) (hcode : ctx.codeLength < 2 ^ 16)
    (hvalid : ValidTables ctx attributes) {c : Collected} (hc : collect ctx attributes = .ok c)
    (hholds : c.Holds (lvtTables attributes) (lvttTables ctx attributes))
    (hlt : (lvtTables attributes).flatten.length < 2 ^ 16) (hfits : (lvtTables attributes).flatten = [] ∨
      (withLocals sizes (lvtTables attributes).flatten.length).extraBytes ctx.codeLength < 2 ^ 31) :
    ∃ cm, parseLocalVariables ctx minObjAlignment sizes contents attributes = .ok cm ∧
      (localvariableTable cm).map (·.toClassfile) = (lvtTables attributes).flatten := by
  rw [parseLocalVariables_eq hcode hc hholds (by omega) rfl]
  by_cases hpos : 0 < (lvtTables attributes).flatten.length
  · rw [if_pos hpos]
    obtain ⟨E, hf, hend, hst, hstored, hstart, h0, hroom⟩ := allocate_locals hm hm' hu hline
      (Int.natCast_nonneg ctx.codeLength) (by omega) hpos hlt (hfits.resolve_left (length_pos_iff.1 hpos)) rfl
    obtain ⟨st, hcopy, hfilled⟩ := copyLocalvariableTable_ok (by rw [hstart]; exact h0)
      (by rw [hstart, hend]; exact hroom) hvalid.distinct hvalid.types
    rw [hstart] at hfilled
    exact ⟨st.cm, hcopy, hfilled.localvariableTable_eq rfl hpos hf hend hst hstored⟩
  · rw [if_neg hpos]
    have hnil : (lvtTables attributes).flatten = [] := length_eq_zero_iff.1 (by omega)
    obtain ⟨E, -, -, hf, -⟩ := allocate_spec (u2Lengths_withLocals hu (lvtTables attributes).flatten.length)
      rfl
    refine ⟨_, rfl, ?_⟩
    rw [localvariableTable_eq_nil hf fun h => hpos (Int.ofNat_lt.1 h), hnil]
    rfl

/-- What the attributes hold is read back inside the method, exactly if there are at most 2^15 tables of each kind and
less than 2^16 entries, and the size is an `int`. -/
theorem local_variable_tables_read_back_iff (ctx : ParserContext) {minObjAlignment : Int} (hm : 0 < minObjAlignment)
    (hm' : minObjAlignment ≤ 32) {sizes : InlineTableSizes} (hu : U2Lengths sizes)
    (hline : sizes.compressedLinenumberSize < 2 ^ 31) (hcode : ctx.codeLength < 2 ^ 16) (contents : Int → BitVec 16)
    {attributes : List CodeAttribute} (hvalid : ValidTables ctx attributes) :
    (∃ cm, parseLocalVariables ctx minObjAlignment sizes contents attributes = .ok cm ∧
      (localvariableTable cm).map (·.toClassfile) = (lvtTables attributes).flatten) ↔
    (lvtTables attributes).length ≤ 2 ^ 15 ∧ (lvttTables ctx attributes).length ≤ 2 ^ 15 ∧
      (lvtTables attributes).flatten.length < 2 ^ 16 ∧ ((lvtTables attributes).flatten = [] ∨
        (withLocals sizes (lvtTables attributes).flatten.length).extraBytes ctx.codeLength < 2 ^ 31) := by
  have hempty : Collected.Holds ⟨0, .empty, .empty⟩ [] [] := ⟨rfl, holds_empty, holds_empty⟩
  have hcollect := hempty.foldlM hvalid.lvt hvalid.lvtt (zero_le _) (zero_le _)
  simp only [nil_append, length_nil, zero_add] at hcollect
  constructor
  · rintro ⟨cm, hparse, htable⟩
    rcases hcollect with ⟨c, hc, hholds, hle, hle'⟩ | ⟨herror, -⟩
    · have hlt : (lvtTables attributes).flatten.length < 2 ^ 16 := by
        rw [← htable, length_map, length_localvariableTable]
        exact localvariableTableLength_lt cm
      refine ⟨hle, hle', hlt, or_iff_not_imp_left.2 fun hne => Int.not_le.1 fun hover => ?_⟩
      have hpos := length_pos_iff.2 hne
      have hu' := u2Lengths_withLocals hu (lvtTables attributes).flatten.length
      obtain ⟨-, hbound⟩ := extraBytes_bounds hu' (Int.ofNat_lt.2 hlt) (Int.natCast_nonneg ctx.codeLength)
        (Int.ofNat_lt.2 hcode) hline
      have hneg := size_of_overflow hm hm' hover hbound
      obtain ⟨E, hE, hend, -⟩ :=
        allocate_spec hu' rfl
      rw [parseLocalVariables_eq hcode hc hholds (by omega) rfl, if_pos hpos,
        copyLocalvariableTable_outside _ hpos] at hparse
      · cases hparse
      · rintro ⟨h0, h1⟩
        rw [hend, sizeofLocalVariable] at h1
        omega
    · unfold parseLocalVariables collect at hparse
      rw [herror] at hparse
      cases hparse
  · rintro ⟨hle, hle', hlt, hfits⟩
    rcases hcollect with ⟨c, hc, hholds, -⟩ | ⟨-, hgt⟩
    · exact parseLocalVariables_ok hm hm' hu hline hcode hvalid hc hholds hlt hfits
    · omega

end

/-! ## Methods with many local variables -/

def legalContext (codeLength : Nat) : ParserContext where
  needVerify := true
  majorVersion := 52
  codeLength := codeLength
  maxLocals := 4
  validSymbolAt _ := true
  legalFieldName _ := true
  legalFieldSignature _ _ := true
  isTwoSlots _ := false

lemma verifyElement_legalContext {codeLength isLVTT e}
    (hlt : e.startBci.toNat < codeLength) (hle : e.startBci.toNat + e.length.toNat ≤ codeLength)
    (hslot : e.slot.toNat < 4) : verifyElement (legalContext codeLength) isLVTT e = .ok () := by
  unfold verifyElement
  simp [legalContext, not_le.2 hlt, not_lt.2 hle, not_le.2 hslot]
  rfl

def sampleTables : List CodeAttribute :=
  [.localVariableTable ⟨[⟨0, 10, 1, 2, 0⟩, ⟨3, 5, 4, 2, 1⟩], by decide⟩, .other,
    .localVariableTypeTable ⟨[⟨3, 5, 4, 6, 1⟩], by decide⟩, .localVariableTable ⟨[⟨8, 2, 5, 2, 1⟩], by decide⟩]

lemma validTables_sampleTables : ValidTables (legalContext 10) sampleTables := by
  have hall : ∀ es ∈ lvtTables sampleTables ++ lvttTables (legalContext 10) sampleTables, ∀ e ∈ es,
      e.startBci.toNat < 10 ∧ e.startBci.toNat + e.length.toNat ≤ 10 ∧ e.slot.toNat < 4 := by decide
  refine ⟨fun es hes _ e he => ?_, fun es hes _ e he => ?_, by decide, fun _ => by decide⟩
  · obtain ⟨h1, h2, h3⟩ := hall es (List.mem_append_left _ hes) e he
    exact verifyElement_legalContext h1 h2 h3
  · obtain ⟨h1, h2, h3⟩ := hall es (List.mem_append_right _ hes) e he
    exact verifyElement_legalContext h1 h2 h3

theorem local_variable_tables_read_back_iff_sample :
    ∃ cm, parseLocalVariables (legalContext 10) 1 fullSizes (fun _ => 0) sampleTables = .ok cm ∧
      (localvariableTable cm).map (·.toClassfile) = (lvtTables sampleTables).flatten :=
  (local_variable_tables_read_back_iff (legalContext 10) (by decide) (by decide)
    ⟨by decide, by decide, by decide, by decide⟩ (by decide) (by decide) (fun _ => 0) validTables_sampleTables).2
      (by decide)

def positionsTable (n : Nat) (h : n < 2 ^ 16) : LvtAttribute where
  entries := (List.range n).map fun i => ⟨BitVec.ofNat 16 i, 0, 1, 2, 0⟩
  length_lt := by simpa using h

def longTables (n : Nat) (h : n < 2 ^ 16) : List CodeAttribute :=
  [.localVariableTable (positionsTable n h), .localVariableTable ⟨[⟨0, 1, 1, 2, 0⟩], by decide⟩]

lemma toNat_ofNat_u2 {i n} (hi : i < n) (h : n < 2 ^ 16) : (BitVec.ofNat 16 i).toNat = i := by
  rw [BitVec.toNat_ofNat, mod_eq_of_lt (by omega)]

section
variable {n : Nat} {h : n < 2 ^ 16}

lemma flatten_longTables :
    (lvtTables (longTables n h)).flatten = (positionsTable n h).entries ++ [⟨0, 1, 1, 2, 0⟩] := by
  simp [longTables, lvtTables]

lemma length_longTables : (lvtTables (longTables n h)).flatten.length = n + 1 := by
  simp [flatten_longTables, positionsTable]

lemma validTables_longTables (hpos : 0 < n) : ValidTables (legalContext n) (longTables n h) := by
  refine ⟨?_, nofun, ?_, fun _ => ⟨nofun, nodup_nil⟩⟩
  · intro es hes hv e he
    rcases mem_pair.1 hes with rfl | rfl
    · obtain ⟨i, hi, rfl⟩ := mem_map.1 he
      have hlt := mem_range.1 hi
      refine verifyElement_legalContext ?_ ?_ (show (0 : BitVec 16).toNat < 4 by decide)
      · rw [toNat_ofNat_u2 hlt h]
        exact hlt
      · rw [toNat_ofNat_u2 hlt h]
        exact le_of_lt hlt
    · obtain rfl := mem_singleton.1 he
      exact verifyElement_legalContext hpos hpos (by decide)
  · rw [flatten_longTables, map_append, nodup_append]
    refine ⟨?_, by simp, ?_⟩
    · rw [positionsTable, map_map]
      refine List.Nodup.map_on (fun i hi j hj heq => ?_) nodup_range
      have hstart : BitVec.ofNat 16 i = BitVec.ofNat 16 j := congrArg LvtKey.startBci heq
      rw [← toNat_ofNat_u2 (mem_range.1 hi) h, hstart, toNat_ofNat_u2 (mem_range.1 hj) h]
    intro k hk k' hk' heq
    obtain ⟨e, he, rfl⟩ := mem_map.1 hk
    obtain ⟨i, -, rfl⟩ := mem_map.1 he
    obtain rfl := mem_singleton.1 hk'
    have hlength : (0 : BitVec 16) = 1 := congrArg LvtKey.length heq
    exact absurd hlength (by decide)

lemma parseLocalVariables_longTables (hn : n + 1 = 65536) :
    parseLocalVariables (legalContext n) 1 (lineSizes 0) (fun _ => 0) (longTables n h) = .error .outside := by
  have hempty : Collected.Holds ⟨0, .empty, .empty⟩ [] [] := ⟨rfl, holds_empty, holds_empty⟩
  have hvalid : ValidTables (legalContext n) (longTables n h) := validTables_longTables (by omega)
  have hcode : (legalContext n).codeLength = 65535 := by
    change n = 65535
    omega
  rcases hempty.foldlM hvalid.lvt hvalid.lvtt (zero_le _) (zero_le _) with ⟨c, hc, hholds, -⟩ | ⟨-, hgt⟩
  · rw [parseLocalVariables_eq (by omega) hc hholds (by rw [length_longTables]; omega) rfl,
      length_longTables, hn, hcode]
    exact copyLocalvariableTable_outside _ (by rw [length_longTables]; omega) (by decide)
  · simp [longTables, lvtTables, lvttTables] at hgt

end

def emptyTables (n : Nat) : List CodeAttribute := List.replicate n (.localVariableTable ⟨[], by decide⟩)

lemma lvtTables_emptyTables (n) : lvtTables (emptyTables n) = List.replicate n [] := by
  induction n with
  | zero => rfl
  | succ n ih => exact congrArg ([] :: ·) ih

variable (ctx : ParserContext)

lemma lvttTables_emptyTables (n) : lvttTables ctx (emptyTables n) = [] := by
  induction n with
  | zero => rfl
  | succ n ih => exact ih

lemma validTables_emptyTables (n) : ValidTables ctx (emptyTables n) := by
  refine ⟨?_, ?_, ?_, fun _ => ?_⟩
  · intro es hes hv e he
    rw [lvtTables_emptyTables] at hes
    rw [eq_of_mem_replicate hes] at he
    cases he
  · simp [lvttTables_emptyTables]
  · simp [lvtTables_emptyTables]
  · simp [lvttTables_emptyTables]

lemma parseLocalVariables_emptyTables (minObjAlignment sizes) (contents) {n} (hn : 2 ^ 15 < n) :
    parseLocalVariables ctx minObjAlignment sizes contents (emptyTables n) = .error .nullArray := by
  have hempty : Collected.Holds ⟨0, .empty, .empty⟩ [] [] := ⟨rfl, holds_empty, holds_empty⟩
  have hvalid := validTables_emptyTables ctx n
  rcases hempty.foldlM hvalid.lvt hvalid.lvtt (zero_le _) (zero_le _) with ⟨c, -, -, hle, -⟩ | ⟨herror, -⟩
  · rw [lvtTables_emptyTables, length_replicate, length_nil] at hle
    omega
  · unfold parseLocalVariables collect
    rw [herror]
    rfl

/-- 65536 entries in two tables, and 32769 tables without entries. -/
theorem local_variable_tables_not_read_back : (ValidTables (legalContext 65535) (longTables 65535 (by decide)) ∧
      parseLocalVariables (legalContext 65535) 1 (lineSizes 0) (fun _ => 0) (longTables 65535 (by decide)) =
        .error .outside) ∧ (ValidTables (legalContext 1) (emptyTables 32769) ∧
      parseLocalVariables (legalContext 1) 1 (lineSizes 0) (fun _ => 0) (emptyTables 32769) = .error .nullArray) :=
  ⟨⟨validTables_longTables (by decide), parseLocalVariables_longTables rfl⟩,
    ⟨validTables_emptyTables _ 32769, parseLocalVariables_emptyTables _ 1 (lineSizes 0) _ (by decide)⟩⟩

end Rolp.ClassFile
