import Rolp.Oops.ConstMethod

/-!
# Local variable tables of a method

How `parse_method` collects the attributes and `copy_localvariable_table` writes their entries. A pointer into the
`ConstMethod` is an address in it.
-/

namespace Rolp.ClassFile

open Nat

open Lib (toJint toJint_toJint_add)
open Oops (ConstMethod InlineTableSizes sizeofLocalVariable)

structure ClassfileLvtElement where
  startBci : BitVec 16
  length : BitVec 16
  nameCpIndex : BitVec 16
  descriptorCpIndex : BitVec 16
  slot : BitVec 16
deriving DecidableEq

structure LocalVariableTableElement where
  startBci : BitVec 16
  length : BitVec 16
  nameCpIndex : BitVec 16
  descriptorCpIndex : BitVec 16
  signatureCpIndex : BitVec 16
  slot : BitVec 16
deriving DecidableEq

structure LvtKey where
  startBci : BitVec 16
  length : BitVec 16
  nameCpIndex : BitVec 16
  slot : BitVec 16
deriving DecidableEq

def ClassfileLvtElement.key (e : ClassfileLvtElement) : LvtKey := ⟨e.startBci, e.length, e.nameCpIndex, e.slot⟩

def LocalVariableTableElement.key (e : LocalVariableTableElement) : LvtKey :=
  ⟨e.startBci, e.length, e.nameCpIndex, e.slot⟩

def LocalVariableTableElement.toClassfile (e : LocalVariableTableElement) : ClassfileLvtElement :=
  ⟨e.startBci, e.length, e.nameCpIndex, e.descriptorCpIndex, e.slot⟩

def ClassfileLvtElement.toElement (e : ClassfileLvtElement) : LocalVariableTableElement :=
  ⟨e.startBci, e.length, e.nameCpIndex, e.descriptorCpIndex, 0, e.slot⟩

/-- The messages of `classfile_parse_error`, with the number that they show. -/
inductive ParseError where
  | invalidStartPc (startPc : BitVec 16)
  | invalidLength (length : BitVec 16)
  | nameIndex (index : BitVec 16)
  | signatureIndex (index : BitVec 16)
  | illegalFieldName (index : BitVec 16)
  | illegalFieldSignature (index : BitVec 16)
  | invalidIndex (slot : BitVec 16)
  | duplicatedLvt (nameCpIndex : BitVec 16)
  | lvttNoMatch (nameCpIndex : BitVec 16)
  | duplicatedLvtt (nameCpIndex : BitVec 16)
deriving DecidableEq

/-- How the parser stops: with an error, by a write through a null pointer, or by an element outside of the
`ConstMethod`. -/
inductive Fault where
  | parseError (e : ParseError)
  | nullArray
  | outside
deriving DecidableEq

structure ParserContext where
  needVerify : Bool
  majorVersion : Nat
  codeLength : Nat
  maxLocals : Nat
  validSymbolAt : BitVec 16 → Bool
  legalFieldName : BitVec 16 → Bool
  legalFieldSignature : BitVec 16 → BitVec 16 → Bool
  /-- the symbol is the signature of a double or of a long -/
  isTwoSlots : BitVec 16 → Bool

def java15Version : Nat := 49

structure LvtAttribute where
  entries : List ClassfileLvtElement
  length_lt : entries.length < 2 ^ 16

inductive CodeAttribute where
  | localVariableTable (a : LvtAttribute)
  | localVariableTypeTable (a : LvtAttribute)
  | other

/-! ## Collecting the attributes -/

variable (ctx : ParserContext)

/-- The checks of `parse_localvariable_table` on one entry. -/
def verifyElement (isLVTT : Bool) (e : ClassfileLvtElement) : Except ParseError Unit := do
  if ctx.codeLength ≤ e.startBci.toNat then throw (.invalidStartPc e.startBci)
  if ctx.codeLength < e.startBci.toNat + e.length.toNat then throw (.invalidLength e.length)
  if !ctx.validSymbolAt e.nameCpIndex then throw (.nameIndex e.nameCpIndex)
  if !ctx.validSymbolAt e.descriptorCpIndex then throw (.signatureIndex e.descriptorCpIndex)
  if !ctx.legalFieldName e.nameCpIndex then throw (.illegalFieldName e.nameCpIndex)
  if !isLVTT && !ctx.legalFieldSignature e.nameCpIndex e.descriptorCpIndex then
    throw (.illegalFieldSignature e.descriptorCpIndex)
  let extraSlot := if !isLVTT && ctx.isTwoSlots e.descriptorCpIndex then 1 else 0
  if ctx.maxLocals ≤ e.slot.toNat + extraSlot then throw (.invalidIndex e.slot)

def verifyElements (ctx : ParserContext) (isLVTT : Bool) : List ClassfileLvtElement → Except ParseError Unit
  | [] => pure ()
  | e :: es => do
    verifyElement ctx isLVTT e
    verifyElements ctx isLVTT es

def parseLocalvariableTable (isLVTT : Bool) (a : LvtAttribute) : Except Fault (List ClassfileLvtElement) :=
  if ctx.needVerify then
    match verifyElements ctx isLVTT a.entries with
    | .ok _ => .ok a.entries
    | .error e => .error (.parseError e)
  else .ok a.entries

/-- The arrays with starts and lengths of the tables: `cnt` and `max` are `u2`. -/
structure TableArray where
  cnt : Nat
  max : Nat
  capacity : Nat
  tables : List (List ClassfileLvtElement)

def initialMaxLvtNumber : Nat := 256

def TableArray.empty : TableArray := ⟨0, initialMaxLvtNumber, initialMaxLvtNumber, []⟩

/-- `max_lvt_cnt <<= 1` and the reallocation, which gives a null pointer for the size 0. -/
def TableArray.grow (t : TableArray) : TableArray :=
  if t.cnt = t.max then { t with max := t.max * 2 % 2 ^ 16, capacity := t.max * 2 % 2 ^ 16 } else t

def TableArray.push (isLVTT : Bool) (t : TableArray) (a : LvtAttribute) : Except Fault TableArray :=
  let t := t.grow
  if t.cnt < t.capacity then do
    let entries ← parseLocalvariableTable ctx isLVTT a
    return { t with cnt := (t.cnt + 1) % 2 ^ 16, tables := t.tables ++ [entries] }
  else .error .nullArray

structure Collected where
  totalLvtLength : Int
  lvt : TableArray
  lvtt : TableArray

def collectAttribute (c : Collected) : CodeAttribute → Except Fault Collected
  | .localVariableTable a => do
    let lvt ← c.lvt.push ctx false a
    return { c with lvt := lvt, totalLvtLength := toJint (c.totalLvtLength + a.entries.length) }
  | .localVariableTypeTable a =>
    if java15Version ≤ ctx.majorVersion then do
      let lvtt ← c.lvtt.push ctx true a
      return { c with lvtt := lvtt }
    else return c
  | .other => return c

def collect (attributes : List CodeAttribute) : Except Fault Collected :=
  attributes.foldlM (collectAttribute ctx) ⟨0, .empty, .empty⟩

/-! ## Copying the entries -/

variable (cm : ConstMethod)

def elementAt (a : Int) : LocalVariableTableElement :=
  ⟨cm.u2At a, cm.u2At (a + 2), cm.u2At (a + 4), cm.u2At (a + 6), cm.u2At (a + 8), cm.u2At (a + 10)⟩

def setU2At (a : Int) (value : BitVec 16) : ConstMethod :=
  { cm with u2At := Function.update cm.u2At a value }

/-- `copy_lvt_element`; the element has to be inside of the `ConstMethod`. -/
def copyLvtElement (src : ClassfileLvtElement) (lvt : Int) : Except Fault ConstMethod :=
  if 0 ≤ lvt ∧ lvt + sizeofLocalVariable ≤ cm.constMethodEnd then
    let cm := setU2At cm lvt src.startBci
    let cm := setU2At cm (lvt + 2) src.length
    let cm := setU2At cm (lvt + 4) src.nameCpIndex
    let cm := setU2At cm (lvt + 6) src.descriptorCpIndex
    let cm := setU2At cm (lvt + 8) 0
    .ok (setU2At cm (lvt + 10) src.slot)
  else .error .outside

def hashRowSize : Nat := 256

def hash (key : LvtKey) : Nat :=
  let rawHash := key.startBci.toNat
  let rawHash := (key.length.toNat + rawHash * 37) % 2 ^ 32
  let rawHash := (key.nameCpIndex.toNat + rawHash * 37) % 2 ^ 32
  let rawHash := (key.slot.toNat + rawHash * 37) % 2 ^ 32
  rawHash % hashRowSize

def lvtLookup (key : LvtKey) (table : Nat → List Int) : Option Int :=
  (table (hash key)).find? fun a => key = (elementAt cm a).key

/-- `LVT_put_after_lookup`: the answer is whether the element is new. -/
def lvtPutAfterLookup (lvt : Int) (table : Nat → List Int) : Bool × (Nat → List Int) :=
  let key := (elementAt cm lvt).key
  match lvtLookup cm key table with
  | some _ => (false, table)
  | none => (true, Function.update table (hash key) (lvt :: table (hash key)))

structure CopyState where
  cm : ConstMethod
  lvt : Int
  table : Nat → List Int

def copyElement (st : CopyState) (src : ClassfileLvtElement) : Except Fault CopyState := do
  let cm ← copyLvtElement st.cm src st.lvt
  let (isNew, table) := lvtPutAfterLookup cm st.lvt st.table
  if !isNew && ctx.needVerify && decide (java15Version ≤ ctx.majorVersion) then
    throw (.parseError (.duplicatedLvt (elementAt cm st.lvt).nameCpIndex))
  return ⟨cm, st.lvt + sizeofLocalVariable, table⟩

def mergeElement (st : CopyState) (src : ClassfileLvtElement) : Except Fault CopyState :=
  match lvtLookup st.cm src.toElement.key st.table with
  | none => if ctx.needVerify then .error (.parseError (.lvttNoMatch src.nameCpIndex)) else .ok st
  | some entry =>
    if (elementAt st.cm entry).signatureCpIndex ≠ 0 ∧ ctx.needVerify then
      .error (.parseError (.duplicatedLvtt src.nameCpIndex))
    else .ok { st with cm := setU2At st.cm (entry + 8) src.descriptorCpIndex }

def copyLocalvariableTable (cm : ConstMethod) (lvt lvtt : List (List ClassfileLvtElement)) :
    Except Fault ConstMethod := do
  let st ← lvt.foldlM (fun st entries => entries.foldlM (copyElement ctx) st)
    ⟨cm, cm.localvariableTableStart, fun _ => []⟩
  let st ← lvtt.foldlM (fun st entries => entries.foldlM (mergeElement ctx) st) st
  return st.cm

/-- The part of `parse_method` about local variables; `sizes` has the other lengths of the method. -/
def parseLocalVariables (minObjAlignment : Int) (sizes : InlineTableSizes)
    (contents : Int → BitVec 16) (attributes : List CodeAttribute) : Except Fault ConstMethod := do
  let c ← collect ctx attributes
  let sizes := { sizes with localvariableTableLength := c.totalLvtLength }
  let cm := ConstMethod.allocate minObjAlignment (toJint ctx.codeLength) sizes .normal contents
  if 0 < c.totalLvtLength then copyLocalvariableTable ctx cm c.lvt.tables c.lvtt.tables else return cm

/-- The table as `localvariable_table_length` and `localvariable_table_start` show it. -/
def localvariableTable (cm : ConstMethod) : List LocalVariableTableElement :=
  (List.range cm.localvariableTableLength).map fun i : Nat =>
    elementAt cm (cm.localvariableTableStart + i * sizeofLocalVariable)

open Function List Nat

open Lib (toJint toJint_toJint_add)
open Oops (ConstMethod InlineTableSizes sizeofLocalVariable)

/-! ## Elements -/

section
variable {cm : ConstMethod} {src : ClassfileLvtElement} {a b : Int}

def withElement (cm : ConstMethod) (src : ClassfileLvtElement) (a : Int) : ConstMethod :=
  setU2At (setU2At (setU2At (setU2At (setU2At (setU2At cm a src.startBci) (a + 2) src.length) (a + 4) src.nameCpIndex)
    (a + 6) src.descriptorCpIndex) (a + 8) 0) (a + 10) src.slot

lemma copyLvtElement_eq (h0 : 0 ≤ a) (hle : a + sizeofLocalVariable ≤ cm.constMethodEnd) :
    copyLvtElement cm src a = .ok (withElement cm src a) := if_pos ⟨h0, hle⟩

lemma setU2At_of_ne {value} (h : b ≠ a) : (setU2At cm a value).u2At b = cm.u2At b :=
  update_of_ne h _ _

lemma setU2At_self (cm a value) : (setU2At cm a value).u2At a = value := update_self _ _ _

lemma withElement_of_outside (h : b < a ∨ a + 12 ≤ b) : (withElement cm src a).u2At b = cm.u2At b := by
  unfold withElement
  rw [setU2At_of_ne (by omega), setU2At_of_ne (by omega), setU2At_of_ne (by omega), setU2At_of_ne (by omega),
    setU2At_of_ne (by omega), setU2At_of_ne (by omega)]

lemma elementAt_withElement (cm src a) : elementAt (withElement cm src a) a = src.toElement := by
  unfold elementAt withElement ClassfileLvtElement.toElement
  congr 1
  · rw [setU2At_of_ne (by omega), setU2At_of_ne (by omega), setU2At_of_ne (by omega), setU2At_of_ne (by omega),
      setU2At_of_ne (by omega), setU2At_self]
  · rw [setU2At_of_ne (by omega), setU2At_of_ne (by omega), setU2At_of_ne (by omega), setU2At_of_ne (by omega),
      setU2At_self]
  · rw [setU2At_of_ne (by omega), setU2At_of_ne (by omega), setU2At_of_ne (by omega), setU2At_self]
  · rw [setU2At_of_ne (by omega), setU2At_of_ne (by omega), setU2At_self]
  · rw [setU2At_of_ne (by omega), setU2At_self]
  · rw [setU2At_self]

lemma elementAt_congr {cm'} (h : ∀ x, a ≤ x → x < a + 12 → cm'.u2At x = cm.u2At x) :
    elementAt cm' a = elementAt cm a := by
  unfold elementAt
  rw [h a (by omega) (by omega), h (a + 2) (by omega) (by omega), h (a + 4) (by omega) (by omega),
    h (a + 6) (by omega) (by omega), h (a + 8) (by omega) (by omega), h (a + 10) (by omega) (by omega)]

lemma key_toElement (e : ClassfileLvtElement) : e.toElement.key = e.key := rfl

lemma key_toClassfile (e : LocalVariableTableElement) : e.toClassfile.key = e.key := rfl

lemma elementAt_setSignature (value) (h : b + 12 ≤ a ∨ a + 12 ≤ b) :
    elementAt (setU2At cm (a + 8) value) b = elementAt cm b :=
  elementAt_congr fun x hlo hhi => setU2At_of_ne (by omega)

lemma toClassfile_setSignature (cm a value) :
    (elementAt (setU2At cm (a + 8) value) a).toClassfile = (elementAt cm a).toClassfile := by
  unfold elementAt LocalVariableTableElement.toClassfile
  dsimp only
  rw [setU2At_of_ne (by omega), setU2At_of_ne (by omega), setU2At_of_ne (by omega), setU2At_of_ne (by omega),
    setU2At_of_ne (by omega)]

end

/-! ## The hash table -/

def Rows (start : Int) (xs : List ClassfileLvtElement) (table : Nat → List Int) : Prop :=
  ∀ k a, a ∈ table k ↔ ∃ (i : Nat) (x : ClassfileLvtElement), xs[i]? = some x ∧ a = start + i * 12 ∧ hash x.key = k

structure Filled (cm0 : ConstMethod) (start : Int) (xs ys : List ClassfileLvtElement) (st : CopyState) : Prop where
  flags : st.cm.flags = cm0.flags
  constMethodSize : st.cm.constMethodSize = cm0.constMethodSize
  frame : ∀ a, a < start ∨ start + xs.length * 12 ≤ a → st.cm.u2At a = cm0.u2At a
  elements : ∀ (i : Nat) x, xs[i]? = some x → (elementAt st.cm (start + i * 12)).toClassfile = x ∧
    ((elementAt st.cm (start + i * 12)).signatureCpIndex ≠ 0 → x.key ∈ ys.map (·.key))
  rows : Rows start xs st.table

section
variable {cm cm0 : ConstMethod} {start : Int} {xs ys : List ClassfileLvtElement} {table : Nat → List Int}
  {st : CopyState} {ctx : ParserContext}

variable {key : LvtKey}

section

variable (hrows : Rows start xs table)

include hrows

section

variable (helements : ∀ (i : Nat) x, xs[i]? = some x → (elementAt cm (start + i * 12)).key = x.key)

include helements

lemma lvtLookup_some {a}
    (h : lvtLookup cm key table = some a) : ∃ (i : Nat) (x : ClassfileLvtElement),
      xs[i]? = some x ∧ a = start + i * 12 ∧ x.key = key := by
  have hmem := mem_of_find?_eq_some h
  have hkey := find?_some h
  obtain ⟨i, x, hx, rfl, -⟩ := (hrows _ a).1 hmem
  rw [decide_eq_true_eq, helements i x hx] at hkey
  exact ⟨i, x, hx, rfl, hkey.symm⟩

lemma lvtLookup_eq_none (h : key ∉ xs.map (·.key)) : lvtLookup cm key table = none := by
  cases hl : lvtLookup cm key table with
  | none => rfl
  | some a =>
    obtain ⟨i, x, hx, -, rfl⟩ := lvtLookup_some hrows helements hl
    exact absurd (mem_map.2 ⟨x, mem_of_getElem? hx, rfl⟩) h

lemma lvtLookup_isSome (h : key ∈ xs.map (·.key)) : ∃ a, lvtLookup cm key table = some a := by
  obtain ⟨x, hx, rfl⟩ := mem_map.1 h
  obtain ⟨i, hi⟩ := getElem?_of_mem hx
  refine Option.isSome_iff_exists.1 (find?_isSome.2 ⟨start + i * 12, (hrows _ _).2 ⟨i, x, hi, rfl, rfl⟩, ?_⟩)
  rw [decide_eq_true_eq, helements i x hi]

end

end

lemma Filled.key_eq (h : Filled cm0 start xs ys st) (i : Nat) (x : ClassfileLvtElement) (hx : xs[i]? = some x) :
    (elementAt st.cm (start + i * 12)).key = x.key := by
  rw [← key_toClassfile, (h.elements i x hx).1]

/-! ## The loops -/

variable {x : ClassfileLvtElement}

lemma getElem?_concat_iff {y i} : (xs ++ [x])[i]? = some y ↔ xs[i]? = some y ∨ i = xs.length ∧ x = y := by
  rcases lt_trichotomy i xs.length with hlt | rfl | hgt
  · rw [getElem?_append_left hlt]
    simp [Nat.ne_of_lt hlt]
  · simp
  · have hnone : (xs ++ [x])[i]? = none := getElem?_eq_none_iff.2 (by simpa using succ_le_of_lt hgt)
    rw [hnone, getElem?_eq_none_iff.2 (le_of_lt hgt)]
    simp [ne_of_gt hgt]

lemma lt_of_getElem? {i} (h : xs[i]? = some x) : i < xs.length := (List.getElem?_eq_some_iff.1 h).1

lemma Rows.concat (h : Rows start xs table) {lvt} (hlvt : lvt = start + xs.length * 12) :
    Rows start (xs ++ [x]) (Function.update table (hash x.key) (lvt :: table (hash x.key))) := by
  intro k a
  simp only [getElem?_concat_iff]
  constructor
  · intro hmem
    by_cases hk : k = hash x.key
    · subst hk
      rw [update_self] at hmem
      rcases mem_cons.1 hmem with rfl | hmem
      · exact ⟨xs.length, x, .inr ⟨rfl, rfl⟩, hlvt, rfl⟩
      · obtain ⟨i, y, hy, ha, hh⟩ := (h _ a).1 hmem
        exact ⟨i, y, .inl hy, ha, hh⟩
    · rw [update_of_ne hk] at hmem
      obtain ⟨i, y, hy, ha, hh⟩ := (h _ a).1 hmem
      exact ⟨i, y, .inl hy, ha, hh⟩
  · rintro ⟨i, y, hy | ⟨rfl, rfl⟩, rfl, rfl⟩
    · have hmem := (h _ _).2 ⟨i, y, hy, rfl, rfl⟩
      by_cases hk : hash y.key = hash x.key
      · rw [hk, update_self]
        exact mem_cons_of_mem _ (hk ▸ hmem)
      · rw [update_of_ne hk]
        exact hmem
    · rw [update_self, hlvt]
      exact mem_cons_self

section

variable (h : Filled cm0 start xs [] st)

include h

lemma Filled.concat {lvt} (hlvt : lvt = start + xs.length * 12)
    (x) : Filled cm0 start (xs ++ [x]) [] ⟨withElement st.cm x lvt, lvt + sizeofLocalVariable,
      Function.update st.table (hash x.key) (lvt :: st.table (hash x.key))⟩ where
  flags := h.flags
  constMethodSize := h.constMethodSize
  frame a ha := by
    rw [length_append, length_singleton] at ha
    rw [withElement_of_outside (by omega)]
    exact h.frame a (by omega)
  elements i y hy := by
    rcases getElem?_concat_iff.1 hy with hy | ⟨rfl, rfl⟩
    · have hi := lt_of_getElem? hy
      rw [elementAt_congr fun b hlo hhi => withElement_of_outside (by omega)]
      exact h.elements i y hy
    · rw [← hlvt, elementAt_withElement]
      exact ⟨rfl, fun hne => absurd rfl hne⟩
  rows := h.rows.concat hlvt

lemma Filled.copyElement (hlvt : st.lvt = start + xs.length * 12) (h0 : 0 ≤ start)
    (hend : start + (xs.length + 1) * 12 ≤ cm0.constMethodEnd) (hnew : x.key ∉ xs.map (·.key)) :
    ∃ st', copyElement ctx st x = .ok st' ∧ Filled cm0 start (xs ++ [x]) [] st' ∧
      st'.lvt = start + (xs ++ [x]).length * 12 := by
  have hsize : st.cm.constMethodEnd = cm0.constMethodEnd := congrArg (· * Oops.bytesPerWord) h.constMethodSize
  have hcopy : copyLvtElement st.cm x st.lvt = .ok (withElement st.cm x st.lvt) := by
    refine copyLvtElement_eq (by omega) ?_
    rw [hlvt, sizeofLocalVariable]
    omega
  have hkeys : ∀ (i : Nat) y, xs[i]? = some y →
      (elementAt (withElement st.cm x st.lvt) (start + i * 12)).key = y.key := by
    intro i y hy
    have hi := lt_of_getElem? hy
    rw [elementAt_congr fun b hlo hhi => withElement_of_outside (by omega)]
    exact h.key_eq i y hy
  have hput : lvtPutAfterLookup (withElement st.cm x st.lvt) st.lvt st.table =
      (true, update st.table (hash x.key) (st.lvt :: st.table (hash x.key))) := by
    unfold lvtPutAfterLookup
    dsimp only
    rw [elementAt_withElement, key_toElement, lvtLookup_eq_none h.rows hkeys hnew]
  refine ⟨_, ?_, h.concat hlvt x, ?_⟩
  · simp only [ClassFile.copyElement, hcopy, bind, Except.bind, hput]
    rfl
  · change st.lvt + 12 = _
    rw [length_append, length_singleton]
    omega

lemma Filled.copyElements (hlvt : st.lvt = start + xs.length * 12) (h0 : 0 ≤ start)
    {zs} (hend : start + (xs.length + zs.length) * 12 ≤ cm0.constMethodEnd) (hnd : ((xs ++ zs).map (·.key)).Nodup) :
    ∃ st', zs.foldlM (ClassFile.copyElement ctx) st = .ok st' ∧ Filled cm0 start (xs ++ zs) [] st' := by
  induction zs generalizing xs st with
  | nil => exact ⟨st, rfl, by rwa [append_nil]⟩
  | cons z zs ih =>
    rw [length_cons] at hend
    have hnew : z.key ∉ xs.map (·.key) := by
      rw [map_append] at hnd
      intro hmem
      exact (nodup_append.1 hnd).2.2 _ hmem _ mem_cons_self rfl
    obtain ⟨st1, hstep, h1, hlvt1⟩ := h.copyElement hlvt h0 (by omega) hnew
    rw [append_cons] at hnd ⊢
    obtain ⟨st', hrest, h'⟩ := ih h1 hlvt1 (by rw [length_append, length_singleton]; omega) hnd
    refine ⟨st', ?_, h'⟩
    rw [foldlM_cons, hstep]
    exact hrest

end

lemma Filled.mergeElement (h : Filled cm0 start xs ys st) {y}
    (hok : ctx.needVerify = true → y.key ∈ xs.map (·.key) ∧ y.key ∉ ys.map (·.key)) :
    ∃ st', mergeElement ctx st y = .ok st' ∧ Filled cm0 start xs (ys ++ [y]) st' := by
  have hmono : ∀ {k : LvtKey}, k ∈ ys.map (·.key) → k ∈ (ys ++ [y]).map (·.key) := by
    intro k hk
    rw [map_append]
    exact mem_append_left _ hk
  unfold ClassFile.mergeElement
  rw [key_toElement]
  cases hl : lvtLookup st.cm y.key st.table with
  | none =>
    have hverify : ¬ ctx.needVerify = true := by
      intro hv
      obtain ⟨a, ha⟩ := lvtLookup_isSome h.rows h.key_eq (hok hv).1
      exact absurd (ha.symm.trans hl) (Option.some_ne_none a)
    refine ⟨st, if_neg hverify, h.flags, h.constMethodSize, h.frame, fun i x hx => ?_, h.rows⟩
    obtain ⟨hcf, hsig⟩ := h.elements i x hx
    exact ⟨hcf, fun hne => hmono (hsig hne)⟩
  | some a =>
    obtain ⟨i, x, hx, rfl, hkey⟩ := lvtLookup_some h.rows h.key_eq hl
    have hfree : ¬ ((elementAt st.cm (start + i * 12)).signatureCpIndex ≠ 0 ∧ ctx.needVerify = true) := by
      rintro ⟨hne, hv⟩
      exact (hok hv).2 (hkey ▸ (h.elements i x hx).2 hne)
    have hi := lt_of_getElem? hx
    refine ⟨_, if_neg hfree, h.flags, h.constMethodSize, fun b hb => ?_, fun j z hz => ?_, h.rows⟩
    · rw [setU2At_of_ne (by omega)]
      exact h.frame b hb
    obtain ⟨hcf, hsig⟩ := h.elements j z hz
    by_cases hij : j = i
    · subst hij
      obtain rfl : x = z := Option.some.inj (hx.symm.trans hz)
      rw [toClassfile_setSignature]
      refine ⟨hcf, fun _ => ?_⟩
      rw [hkey, map_append]
      exact mem_append_right _ (mem_singleton.2 rfl)
    · rw [elementAt_setSignature _ (by omega)]
      exact ⟨hcf, fun hne => hmono (hsig hne)⟩

lemma Filled.mergeElements (h : Filled cm0 start xs ys st) {zs}
    (hok : ctx.needVerify = true → (∀ z ∈ zs, z.key ∈ xs.map (·.key)) ∧ ((ys ++ zs).map (·.key)).Nodup) :
    ∃ st', zs.foldlM (ClassFile.mergeElement ctx) st = .ok st' ∧ Filled cm0 start xs (ys ++ zs) st' := by
  induction zs generalizing ys st with
  | nil => exact ⟨st, rfl, by rwa [append_nil]⟩
  | cons z zs ih =>
    have hz : ctx.needVerify = true → z.key ∈ xs.map (·.key) ∧ z.key ∉ ys.map (·.key) := by
      intro hv
      obtain ⟨hall, hnd⟩ := hok hv
      refine ⟨hall z mem_cons_self, fun hmem => ?_⟩
      rw [map_append] at hnd
      exact (nodup_append.1 hnd).2.2 _ hmem _ mem_cons_self rfl
    obtain ⟨st1, hstep, h1⟩ := h.mergeElement hz
    rw [append_cons] at hok ⊢
    obtain ⟨st', hrest, h'⟩ := ih h1 fun hv => ⟨fun w hw => (hok hv).1 w (mem_cons_of_mem _ hw), (hok hv).2⟩
    refine ⟨st', ?_, h'⟩
    rw [foldlM_cons, hstep]
    exact hrest

end

lemma ok_bind {E A B : Type} (x : A) (f : A → Except E B) : (Except.ok x >>= f) = f x := rfl

lemma foldlM_flatten {S E A : Type} (f : S → A → Except E S) (s : S) (tables : List (List A)) :
    tables.foldlM (fun s entries => entries.foldlM f s) s = tables.flatten.foldlM f s := by
  induction tables generalizing s with
  | nil => rfl
  | cons entries tables ih =>
    rw [flatten_cons, foldlM_append]
    exact bind_congr fun s' => ih s'

/-! ## The attributes -/

/-- The arrays hold the tables, and have not grown beyond a `u2`. -/
structure TableArray.Holds (t : TableArray) (parsed : List (List ClassfileLvtElement)) : Prop where
  tables : t.tables = parsed
  cnt : t.cnt = parsed.length
  max : ∃ k ≤ 7, t.max = 2 ^ (8 + k)
  capacity : t.capacity = t.max
  le : parsed.length ≤ t.max

section
variable {ctx : ParserContext} {isLVTT : Bool} {t t' : TableArray} {tables : List (List ClassfileLvtElement)}
  {a : LvtAttribute}

lemma TableArray.holds_empty : TableArray.empty.Holds [] := ⟨rfl, rfl, ⟨0, by decide, rfl⟩, rfl, by decide⟩

lemma TableArray.Holds.grow (h : t.Holds tables) (hlt : tables.length < 2 ^ 15) :
    t.grow.Holds tables ∧ t.grow.cnt < t.grow.capacity := by
  obtain ⟨k, hk, hmax⟩ := h.max
  unfold TableArray.grow
  split
  next heq =>
    have hk' : k < 7 := by
      rw [h.cnt] at heq
      rcases lt_or_ge k 7 with hk' | hk'
      · exact hk'
      · obtain rfl : k = 7 := le_antisymm hk hk'
        omega
    have hdouble : t.max * 2 % 2 ^ 16 = 2 ^ (8 + (k + 1)) := by
      rw [hmax, ← pow_succ]
      exact mod_eq_of_lt (Nat.pow_lt_pow_right (by decide) (by omega))
    have hpow : 2 ^ (8 + (k + 1)) = t.max * 2 := by rw [hmax]; rfl
    have hpos : 0 < t.max := by rw [hmax]; exact Nat.two_pow_pos _
    rw [hdouble]
    refine ⟨⟨h.tables, h.cnt, ⟨k + 1, by omega, rfl⟩, rfl, ?_⟩, ?_⟩
    · change tables.length ≤ 2 ^ (8 + (k + 1))
      have := h.le
      omega
    · change t.cnt < 2 ^ (8 + (k + 1))
      omega
  · have := h.le
    have := h.cnt
    have := h.capacity
    exact ⟨h, by omega⟩

lemma TableArray.Holds.push_full (h : t.Holds tables) (hlen : tables.length = 2 ^ 15) (ctx)
    (isLVTT a) : t.push ctx isLVTT a = .error .nullArray := by
  obtain ⟨k, hk, hmax⟩ := h.max
  have hle := h.le
  obtain rfl : k = 7 := by
    rcases lt_or_ge k 7 with hk' | hk'
    · have := Nat.pow_lt_pow_right (show 1 < 2 by decide) (show 8 + k < 15 by omega)
      omega
    · omega
  have hgrow : t.grow.capacity = 0 := by
    unfold TableArray.grow
    rw [if_pos (by rw [h.cnt, hlen, hmax])]
    calc t.max * 2 % 2 ^ 16 = 2 ^ (8 + 7) * 2 % 2 ^ 16 := by rw [hmax]
      _ = 0 := by decide
  unfold TableArray.push
  dsimp only
  rw [hgrow]
  exact if_neg (not_lt_zero _)

def ValidEntries (ctx : ParserContext) (isLVTT : Bool) (es : List ClassfileLvtElement) : Prop :=
  ctx.needVerify = true → ∀ e ∈ es, verifyElement ctx isLVTT e = .ok ()

lemma verifyElements_eq {es} (h : ∀ e ∈ es, verifyElement ctx isLVTT e = .ok ()) :
    verifyElements ctx isLVTT es = .ok () := by
  induction es with
  | nil => rfl
  | cons e es ih =>
    rw [verifyElements, h e mem_cons_self]
    exact ih fun e' he' => h e' (mem_cons_of_mem _ he')

lemma parseLocalvariableTable_eq (h : ValidEntries ctx isLVTT a.entries) :
    parseLocalvariableTable ctx isLVTT a = .ok a.entries := by
  unfold parseLocalvariableTable
  split
  next hv => rw [verifyElements_eq (h hv)]
  · rfl

lemma TableArray.Holds.push (h : t.Holds tables) (hlt : tables.length < 2 ^ 15)
    (hvalid : ValidEntries ctx isLVTT a.entries) :
    ∃ t', t.push ctx isLVTT a = .ok t' ∧ t'.Holds (tables ++ [a.entries]) := by
  obtain ⟨hg, hroom⟩ := h.grow hlt
  refine ⟨{ t.grow with cnt := (t.grow.cnt + 1) % 2 ^ 16, tables := t.grow.tables ++ [a.entries] }, ?_, ?_⟩
  · unfold TableArray.push
    rw [if_pos hroom, parseLocalvariableTable_eq hvalid]
    rfl
  have hcnt := hg.cnt
  have hcap := hg.capacity
  refine ⟨congrArg (· ++ [a.entries]) hg.tables, ?_, hg.max, hg.capacity, ?_⟩
  · change (t.grow.cnt + 1) % 2 ^ 16 = (tables ++ [a.entries]).length
    rw [length_append, length_singleton]
    omega
  · change (tables ++ [a.entries]).length ≤ t.grow.max
    rw [length_append, length_singleton]
    omega

end

def lvtTables : List CodeAttribute → List (List ClassfileLvtElement)
  | [] => []
  | .localVariableTable a :: rest => a.entries :: lvtTables rest
  | _ :: rest => lvtTables rest

def lvttTables (ctx : ParserContext) : List CodeAttribute → List (List ClassfileLvtElement)
  | [] => []
  | .localVariableTypeTable a :: rest =>
    if java15Version ≤ ctx.majorVersion then a.entries :: lvttTables ctx rest else lvttTables ctx rest
  | _ :: rest => lvttTables ctx rest

structure Collected.Holds (c : Collected) (lvt lvtt : List (List ClassfileLvtElement)) : Prop where
  total : c.totalLvtLength = toJint lvt.flatten.length
  lvt : c.lvt.Holds lvt
  lvtt : c.lvtt.Holds lvtt

section
variable {ctx : ParserContext} {c : Collected} {lvt lvtt : List (List ClassfileLvtElement)}

lemma Collected.Holds.foldlM (h : c.Holds lvt lvtt) {attributes}
    (hlvt : ∀ es ∈ lvtTables attributes, ValidEntries ctx false es)
    (hlvtt : ∀ es ∈ lvttTables ctx attributes, ValidEntries ctx true es) (hle : lvt.length ≤ 2 ^ 15)
    (hle' : lvtt.length ≤ 2 ^ 15) : (∃ c', attributes.foldlM (collectAttribute ctx) c = .ok c' ∧
      c'.Holds (lvt ++ lvtTables attributes) (lvtt ++ lvttTables ctx attributes) ∧
      lvt.length + (lvtTables attributes).length ≤ 2 ^ 15 ∧ lvtt.length + (lvttTables ctx attributes).length ≤ 2 ^ 15) ∨
    attributes.foldlM (collectAttribute ctx) c = .error .nullArray ∧
      (2 ^ 15 < lvt.length + (lvtTables attributes).length ∨
        2 ^ 15 < lvtt.length + (lvttTables ctx attributes).length) := by
  induction attributes generalizing c lvt lvtt with
  | nil =>
    left
    refine ⟨c, rfl, ?_, hle, hle'⟩
    simpa [lvtTables, lvttTables] using h
  | cons head rest ih =>
    rw [foldlM_cons]
    cases head with
    | other => exact ih h hlvt hlvtt hle hle'
    | localVariableTable a =>
      rw [collectAttribute]
      rcases lt_or_ge lvt.length (2 ^ 15) with hlt | hge
      · obtain ⟨t', hpush, ht'⟩ := h.lvt.push hlt (hlvt a.entries mem_cons_self)
        have hholds : Collected.Holds
            { c with lvt := t', totalLvtLength := toJint (c.totalLvtLength + a.entries.length) }
            (lvt ++ [a.entries]) lvtt := by
          refine ⟨?_, ht', h.lvtt⟩
          rw [h.total, toJint_toJint_add, flatten_append, flatten_singleton, length_append, Int.natCast_add]
        have := ih hholds (fun es hes => hlvt es (mem_cons_of_mem _ hes)) hlvtt (by simpa using succ_le_of_lt hlt) hle'
        rw [hpush, ok_bind]
        simpa [lvtTables, lvttTables, add_assoc, add_comm 1] using this
      · right
        refine ⟨?_, .inl ?_⟩
        · rw [h.lvt.push_full (le_antisymm hle hge) ctx false a]
          rfl
        · rw [lvtTables, length_cons]
          omega
    | localVariableTypeTable a =>
      by_cases hversion : java15Version ≤ ctx.majorVersion
      · have htables : lvttTables ctx (.localVariableTypeTable a :: rest) = a.entries :: lvttTables ctx rest :=
          if_pos hversion
        rw [htables] at hlvtt ⊢
        rw [collectAttribute, if_pos hversion]
        rcases lt_or_ge lvtt.length (2 ^ 15) with hlt | hge
        · obtain ⟨t', hpush, ht'⟩ := h.lvtt.push hlt (hlvtt a.entries mem_cons_self)
          have := ih (c := { c with lvtt := t' }) ⟨h.total, h.lvt, ht'⟩ hlvt
            (fun es hes => hlvtt es (mem_cons_of_mem _ hes)) hle
            (by simpa using succ_le_of_lt hlt)
          rw [hpush, ok_bind]
          simpa [lvtTables, add_assoc, add_comm 1] using this
        right
        refine ⟨?_, .inr ?_⟩
        · rw [h.lvtt.push_full (le_antisymm hle' hge) ctx true a]
          rfl
        · rw [length_cons]
          omega
      · have htables : lvttTables ctx (.localVariableTypeTable a :: rest) = lvttTables ctx rest := if_neg hversion
        rw [htables] at hlvtt ⊢
        rw [collectAttribute, if_neg hversion]
        exact ih h hlvt hlvtt hle hle'

end

end Rolp.ClassFile
