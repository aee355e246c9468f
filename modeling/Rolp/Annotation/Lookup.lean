import Rolp.Lib.Buffer
import Rolp.Annotation.Cache

/-!
# Type annotations of a method

`ClassFileParser::assemble_annotations` puts the three attributes of a method into one array.
-/

namespace Rolp.Annotation

open Rolp.Lib List Option

abbrev AnnotationArray := List (BitVec 8)

/-- Copy an attribute unless it is `NULL`. -/
def putAnnotations (offset : Nat) (attr : Option (List (BitVec 8))) (annotations : AnnotationArray) :
    Option AnnotationArray :=
  match attr with
  | none => some annotations
  | some bytes => copyInto offset bytes annotations

def attributeLength (attr : Option (List (BitVec 8))) : Nat := (attr.getD []).length

variable (visible alloc invisible : Option (List (BitVec 8)))

/-- The result may be `NULL`. A write outside the new array, which the metaspace fills with zeros, is undefined. -/
def assembleAnnotations : Option (Option AnnotationArray) :=
  if visible.isSome || invisible.isSome || alloc.isSome then do
    let annotations := replicate (attributeLength visible + attributeLength alloc + attributeLength invisible) 0
    let annotations ← putAnnotations 0 alloc annotations
    let annotations ← putAnnotations 0 visible annotations
    let annotations ← putAnnotations (attributeLength visible) invisible annotations
    pure (some annotations)
  else some none

def allAnnotations : Option AnnotationArray :=
  if visible.isSome || invisible.isSome || alloc.isSome then
    some (alloc.getD [] ++ visible.getD [] ++ invisible.getD [])
  else none

/-! ## The array -/

lemma putAnnotations_eq {offset attr annotations}
    (h : offset + attributeLength attr ≤ annotations.length) : putAnnotations offset attr annotations =
      some (annotations.take offset ++ attr.getD [] ++ annotations.drop (offset + attributeLength attr)) := by
  cases attr with
  | none => simp [putAnnotations, attributeLength]
  | some bytes => exact copyInto_eq h

lemma assembleAnnotations_eq {visible alloc invisible}
    (h : (visible.isSome || invisible.isSome || alloc.isSome) = true) : assembleAnnotations visible alloc invisible =
      some (some (visible.getD [] ++ invisible.getD [] ++
        (alloc.getD [] ++ replicate (visible.getD [] ++ invisible.getD []).length 0).drop
          (visible.getD [] ++ invisible.getD []).length)) := by
  have hlen : (visible.getD [] ++ invisible.getD []).length = attributeLength visible + attributeLength invisible :=
    length_append
  have h1 : putAnnotations 0 alloc
      (replicate (attributeLength visible + attributeLength alloc + attributeLength invisible) 0) =
        some (alloc.getD [] ++ replicate (attributeLength visible + attributeLength invisible) 0) := by
    rw [putAnnotations_eq (by rw [length_replicate]; omega), drop_replicate]
    congr 3
    omega
  have h2 : putAnnotations 0 visible
      (alloc.getD [] ++ replicate (attributeLength visible + attributeLength invisible) 0) =
        some (visible.getD [] ++
          (alloc.getD [] ++ replicate (attributeLength visible + attributeLength invisible) 0).drop
            (attributeLength visible)) := by
    rw [putAnnotations_eq (by rw [length_append, length_replicate]; omega)]
    simp only [take_zero, nil_append, zero_add]
  rw [assembleAnnotations, if_pos h, hlen]
  simp only [h1, h2, bind_eq_bind, bind_some]
  rw [putAnnotations_eq]
  · simp only [attributeLength]
    rw [← drop_drop, drop_left, drop_drop, take_left]
    rfl
  · simp only [length_append, length_drop, length_replicate, attributeLength]
    omega

/-! ## What is lost -/

lemma drop_append_replicate (alloc : List (BitVec 8)) (k : Nat) :
    (alloc ++ replicate k 0).drop k = alloc.drop k ++ replicate (alloc.take k).length 0 := by
  rw [drop_append, drop_replicate, length_take]
  congr 2
  omega

lemma eq_zero_of_append_replicate {w : List (BitVec 8)} {m : Nat} (hm : 0 < m)
    (h : w ++ replicate m 0 = replicate m 0 ++ w) : ∀ b ∈ w, b = 0 := by
  have hget : ∀ (j : Nat) b, w[j]? = some b → b = 0 := by
    intro j
    induction j using Nat.strongRecOn with
    | _ j ih =>
      intro b hb
      have hj := (List.getElem?_eq_some_iff.1 hb).1
      rw [← getElem?_append_left hj, h] at hb
      by_cases hjm : j < m
      · rw [getElem?_append_left (by simpa using hjm), getElem?_replicate_of_lt hjm] at hb
        exact (some.inj hb).symm
      · rw [getElem?_append_right (by simpa using hjm), length_replicate] at hb
        exact ih (j - m) (by omega) b hb
  intro b hb
  obtain ⟨j, hj⟩ := mem_iff_getElem?.1 hb
  exact hget j b hj

lemma overwritten_eq_iff {p q w : List (BitVec 8)} (hlen : p.length = w.length ∨ q = []) :
    w ++ (q ++ replicate p.length 0) = p ++ q ++ w ↔ p ++ q = [] ∨ ((∀ b ∈ w, b = 0) ∧ ∀ b ∈ p, b = 0) := by
  constructor
  · intro h
    -- Both sides have the same bytes, so the bytes that were overwritten are as many zeros.
    have hall : (w ++ (q ++ replicate p.length 0)).Perm (w ++ (q ++ p)) := by
      rw [h]
      exact perm_append_comm.trans (perm_append_comm.append_left w)
    have hperm : (replicate p.length 0).Perm p := (perm_append_left_iff q).1 ((perm_append_left_iff w).1 hall)
    have hp : p = replicate p.length 0 := perm_replicate.1 hperm.symm
    have hzero : ∀ b ∈ p, b = 0 := fun b hb => eq_of_mem_replicate (hp ▸ hb)
    rcases hlen with hlen | rfl
    · rw [append_assoc] at h
      have hw : w = p := (append_inj h hlen.symm).1
      exact .inr ⟨hw ▸ hzero, hzero⟩
    rw [append_nil] at h
    by_cases hempty : p = []
    · exact .inl (by simp [hempty])
    · have hpos : 0 < p.length := length_pos_iff.2 hempty
      exact .inr ⟨eq_zero_of_append_replicate hpos (h.trans (congrArg (· ++ w) hp)), hzero⟩
  · rintro (hempty | ⟨hw, hp⟩)
    · obtain ⟨rfl, rfl⟩ := append_eq_nil_iff.1 hempty
      simp
    have hw := eq_replicate_of_mem hw
    have hp := eq_replicate_of_mem hp
    rcases hlen with hlen | rfl
    · rw [hw, ← hlen, ← hp, append_assoc]
    · rw [hw, hp]
      simp [add_comm]

lemma overwrite_eq_iff (alloc w : List (BitVec 8)) : w ++ (alloc ++ replicate w.length 0).drop w.length = alloc ++ w ↔
      alloc = [] ∨ ((∀ b ∈ w, b = 0) ∧ ∀ b ∈ alloc.take w.length, b = 0) := by
  have hlen : (alloc.take w.length).length = w.length ∨ alloc.drop w.length = [] := by
    rw [length_take, drop_eq_nil_iff]
    omega
  have hiff := overwritten_eq_iff hlen
  rwa [take_append_drop, ← drop_append_replicate] at hiff

/-- The array has every byte at its place exactly if there are no allocation annotations, or all bytes written over or
moved are 0. -/
theorem assembleAnnotations_eq_all_iff (visible alloc invisible : Option (List (BitVec 8))) :
    assembleAnnotations visible alloc invisible = some (allAnnotations visible alloc invisible) ↔ alloc.getD [] = [] ∨
        ((∀ b ∈ visible.getD [] ++ invisible.getD [], b = 0) ∧
          ∀ b ∈ (alloc.getD []).take (visible.getD [] ++ invisible.getD []).length, b = 0) := by
  by_cases h : (visible.isSome || invisible.isSome || alloc.isSome) = true
  · rw [assembleAnnotations_eq h, allAnnotations, if_pos h, some_inj, some_inj, append_assoc (alloc.getD [])]
    exact overwrite_eq_iff _ _
  · have halloc : alloc = none := by
      cases alloc with
      | none => rfl
      | some bytes => simp at h
    rw [assembleAnnotations, if_neg h, allAnnotations, if_neg h]
    simp [halloc]

/-- One byte in each attribute: the allocation annotation is gone. -/
theorem assembleAnnotations_loses_alloc : assembleAnnotations (some [2]) (some [1]) (some [3]) = some (some [2, 3, 0]) ∧
      allAnnotations (some [2]) (some [1]) (some [3]) = some [1, 2, 3] := by
  decide

open Rolp.Alloc Nat

/-! ## The class file format -/

def u2 (x : BitVec 16) : List (BitVec 8) := [x.extractLsb' 8 8, x.extractLsb' 0 8]

inductive OffsetKind where
  | instanceof
  | new
  | constructorReference
  | methodReference
  deriving DecidableEq

structure LocalVar where
  startPc : BitVec 16
  length : BitVec 16
  index : BitVec 16

/-- The `target_type` and the `target_info` of a type annotation. -/
inductive Target where
  | typeParameter (ofMethod : Bool) (index : BitVec 8)
  | supertype (index : BitVec 16)
  | typeParameterBound (ofMethod : Bool) (parameter bound : BitVec 8)
  /-- A field, a return type or a receiver. -/
  | empty (kind : Fin 3)
  | formalParameter (index : BitVec 8)
  | throws (index : BitVec 16)
  | localVar (resource : Bool) (table : List LocalVar) (length_lt : table.length < 2 ^ 16)
  | exceptionParameter (index : BitVec 16)
  | offset (kind : OffsetKind) (bci : BitVec 16)
  /-- A cast, or the call of or reference to a generic constructor or method. -/
  | typeArgument (kind : Fin 5) (bci : BitVec 16) (index : BitVec 8)

def Target.type : Target → BitVec 8
  | typeParameter ofMethod _ => if ofMethod then 0x01 else 0x00
  | supertype _ => 0x10
  | typeParameterBound ofMethod _ _ => if ofMethod then 0x12 else 0x11
  | empty kind => 0x13 + BitVec.ofNat 8 kind
  | formalParameter _ => 0x16
  | throws _ => 0x17
  | localVar resource _ _ => if resource then 0x41 else 0x40
  | exceptionParameter _ => 0x42
  | offset .instanceof _ => 0x43
  | offset .new _ => 0x44
  | offset .constructorReference _ => 0x45
  | offset .methodReference _ => 0x46
  | typeArgument kind _ _ => 0x47 + BitVec.ofNat 8 kind

def Target.info : Target → List (BitVec 8)
  | typeParameter _ index => [index]
  | supertype index => u2 index
  | typeParameterBound _ parameter bound => [parameter, bound]
  | empty _ => []
  | formalParameter index => [index]
  | throws index => u2 index
  | localVar _ table _ =>
    u2 (BitVec.ofNat 16 table.length) ++ table.flatMap fun v => u2 v.startPc ++ u2 v.length ++ u2 v.index
  | exceptionParameter index => u2 index
  | offset _ bci => u2 bci
  | typeArgument _ bci index => u2 bci ++ [index]

structure AnnotationRecord where
  target : Target
  path : List (BitVec 8 × BitVec 8)
  path_lt : path.length < 2 ^ 8
  typeIndex : BitVec 16

namespace AnnotationRecord

variable (r : AnnotationRecord)

def pathBytes : List (BitVec 8) := r.path.flatMap fun step => [step.1, step.2]

def bytes : List (BitVec 8) :=
  r.target.type :: r.target.info ++ BitVec.ofNat 8 r.path.length :: r.pathBytes ++ u2 r.typeIndex ++ [0, 0]

def isGen (symbolAt : BitVec 16 → String) (bci : Nat) (r : AnnotationRecord) : Bool :=
  match r.target with
  | .offset .new annoBci => annoBci.toNat = bci ∧ symbolAt r.typeIndex = "Ljava/lang/Gen;"
  | _ => false

def InStep : Prop := 8 + (r.bytes.getD 3 0).toNat * 2 = r.bytes.length

instance (r : AnnotationRecord) : Decidable r.InStep := inferInstanceAs (Decidable (_ = _))

end AnnotationRecord

/-- A `RuntimeVisibleTypeAnnotations` attribute. -/
structure Attribute where
  annotations : List AnnotationRecord
  length_lt : annotations.length < 2 ^ 16

def Attribute.bytes (a : Attribute) : List (BitVec 8) :=
  u2 (BitVec.ofNat 16 a.annotations.length) ++ a.annotations.flatMap AnnotationRecord.bytes

/-- What `parse_method` sets for the type annotations. The allocation annotations are those of the `Code`
attribute. -/
def parseMethod (visible alloc invisible : Option (List (BitVec 8))) (symbolAt : BitVec 16 → String)
    (lengthFor : Nat → Nat) : Option Method := do
  let annotations ←
    if attributeLength visible + attributeLength invisible + attributeLength alloc > 0 then
      assembleAnnotations visible alloc invisible
    else some none
  pure {
    typeAnnotations := annotations
    allocAnno := annotations
    allocAnnoCache :=
      if attributeLength alloc > 0 then some (replicate (attributeLength alloc) maxJushort) else none
    symbolAt := symbolAt
    lengthFor := lengthFor }

/-! ## Bytes -/

lemma extract_append (x : BitVec 16) : x.extractLsb' 8 8 ++ x.extractLsb' 0 8 = x := by
  ext i hi
  simp only [BitVec.getElem_append, BitVec.getElem_extractLsb']
  split
  · simp [BitVec.getLsbD_eq_getElem hi]
  · simp only [show 8 + (i - 8) = i by omega]
    simp [BitVec.getLsbD_eq_getElem hi]

lemma getJavaU2_append_u2 (xs : List (BitVec 8)) (x : BitVec 16) (rest : List (BitVec 8)) :
    getJavaU2 (xs ++ u2 x ++ rest) xs.length = some x := by
  simp [getJavaU2, u2, extract_append]

variable {data : List (BitVec 8)}

lemma getJavaU2_of_lt {i} (h : i + 1 < data.length) : ∃ x, getJavaU2 data i = some x := by
  simp [getJavaU2, getElem?_eq_getElem h, getElem?_eq_getElem (lt_of_succ_lt h)]

namespace AnnotationRecord

variable {r : AnnotationRecord} {symbolAt : BitVec 16 → String} {bci : Nat}

lemma length_pathBytes (r : AnnotationRecord) : r.pathBytes.length = r.path.length * 2 := by
  simp [pathBytes]

lemma length_bytes (r : AnnotationRecord) : r.bytes.length = 6 + r.target.info.length + r.path.length * 2 := by
  simp only [bytes, u2, length_append, length_cons, length_nil, length_pathBytes]
  omega

lemma fourth_of_length_info (h : r.target.info.length = 2) : (r.bytes.getD 3 0).toNat = r.path.length := by
  obtain ⟨high, low, hinfo⟩ := length_eq_two.1 h
  have hfourth : r.bytes.getD 3 0 = BitVec.ofNat 8 r.path.length := by simp [bytes, hinfo]
  rw [hfourth, BitVec.toNat_ofNat, mod_eq_of_lt r.path_lt]

lemma inStep_of_length_info (h : r.target.info.length = 2) : r.InStep := by
  rw [InStep, fourth_of_length_info h, length_bytes, h]

lemma type_eq_iff (t : Target) : t.type = 68 ↔ ∃ annoBci, t = .offset .new annoBci := by
  constructor
  · intro h
    cases t with
    | typeParameter ofMethod index => cases ofMethod <;> cases h
    | supertype index => cases h
    | typeParameterBound ofMethod parameter bound => cases ofMethod <;> cases h
    | empty kind =>
      have hne : ∀ kind : Fin 3, (0x13 + BitVec.ofNat 8 kind : BitVec 8) ≠ 68 := by decide
      exact absurd h (hne kind)
    | formalParameter index => cases h
    | throws index => cases h
    | localVar resource table length_lt => cases resource <;> cases h
    | exceptionParameter index => cases h
    | offset kind annoBci =>
      cases kind with
      | new => exact ⟨annoBci, rfl⟩
      | instanceof => cases h
      | constructorReference => cases h
      | methodReference => cases h
    | typeArgument kind annoBci index =>
      have hne : ∀ kind : Fin 5, (0x47 + BitVec.ofNat 8 kind : BitVec 8) ≠ 68 := by decide
      exact absurd h (hne kind)
  · rintro ⟨annoBci, rfl⟩
    rfl

lemma inStep_of_type (h : r.target.type = 68) : r.InStep := by
  obtain ⟨annoBci, htarget⟩ := (type_eq_iff r.target).1 h
  apply inStep_of_length_info
  rw [htarget]
  rfl

lemma type_of_isGen (h : r.isGen symbolAt bci = true) : r.target.type = 68 := by
  unfold isGen at h
  split at h
  next annoBci htarget =>
    rw [htarget]
    rfl
  · cases h

end AnnotationRecord

/-! ## The loop -/

section

variable {m : Method} {bci n : Nat}

lemma scan_of_type_ne (h : data[0]? ≠ some 68) : scanAnnotations m bci 0 (n + 1) data = some true →
      scanAnnotations m bci 0 n (data.drop (8 + (data.getD 3 0).toNat * 2)) = some true := by
  intro hscan
  simp only [scanAnnotations, bind_eq_bind, bind_eq_some_iff] at hscan
  obtain ⟨annoTarget, htarget, annoBci, -, dsize, hdsize, annoTypeIndex, -, hscan⟩ := hscan
  have hne : annoTarget ≠ 68 := by
    rintro rfl
    exact h htarget
  rw [if_neg fun hmatch => hne hmatch.1] at hscan
  rw [getD_eq_getElem?_getD, hdsize]
  exact hscan

lemma isGen_iff {r : AnnotationRecord} {rest : List (BitVec 8)} {annoBci annoTypeIndex : BitVec 16}
    (hbci : getJavaU2 (r.bytes ++ rest) 1 = some annoBci)
    (htype : getJavaU2 (r.bytes ++ rest) (4 + (r.bytes.getD 3 0).toNat * 2) = some annoTypeIndex) :
    r.isGen m.symbolAt bci = true ↔
      r.target.type = 68 ∧ annoBci.toNat = bci ∧ m.symbolAt annoTypeIndex = "Ljava/lang/Gen;" := by
  by_cases h : r.target.type = 68
  · obtain ⟨b, htarget⟩ := (AnnotationRecord.type_eq_iff r.target).1 h
    have hinfo : r.target.info = u2 b := by rw [htarget]; rfl
    have hb : annoBci = b := by
      have hbytes : r.bytes ++ rest = [r.target.type] ++ u2 b ++
          (BitVec.ofNat 8 r.path.length :: r.pathBytes ++ u2 r.typeIndex ++ [0, 0] ++ rest) := by
        simp [AnnotationRecord.bytes, hinfo]
      rw [hbytes] at hbci
      exact some.inj (hbci.symm.trans (getJavaU2_append_u2 [r.target.type] b _))
    have ht : annoTypeIndex = r.typeIndex := by
      let front := r.target.type :: u2 b ++ BitVec.ofNat 8 r.path.length :: r.pathBytes
      have hfront : front.length = 4 + (r.bytes.getD 3 0).toNat * 2 := by
        rw [AnnotationRecord.fourth_of_length_info (by rw [hinfo]; rfl)]
        simp only [front, u2, length_append, length_cons, length_nil, r.length_pathBytes]
        omega
      have hbytes : r.bytes ++ rest = front ++ u2 r.typeIndex ++ ([0, 0] ++ rest) := by
        simp [AnnotationRecord.bytes, hinfo, front]
      rw [hbytes, ← hfront] at htype
      exact some.inj (htype.symm.trans (getJavaU2_append_u2 front r.typeIndex _))
    simp [AnnotationRecord.isGen, htarget, hb, ht, Target.type]
  · constructor
    · intro hgen
      exact absurd (AnnotationRecord.type_of_isGen hgen) h
    · rintro ⟨htype, -⟩
      exact absurd htype h

lemma scan_record {r : AnnotationRecord} (h : r.InStep) (rest : List (BitVec 8)) :
    scanAnnotations m bci 0 (n + 1) (r.bytes ++ rest) =
      if r.isGen m.symbolAt bci then some true else scanAnnotations m bci 0 n rest := by
  have hlen := r.length_bytes
  have hlt : 3 < r.bytes.length := by omega
  have hread : 4 + (r.bytes.getD 3 0).toNat * 2 + 1 < (r.bytes ++ rest).length := by
    rw [length_append, ← h]
    omega
  have h0 : (r.bytes ++ rest)[0]? = some r.target.type := rfl
  have h3 : (r.bytes ++ rest)[3]? = some (r.bytes.getD 3 0) := by
    rw [getElem?_append_left hlt, getD_eq_getElem?_getD, getElem?_eq_getElem hlt]
    rfl
  have hread1 : 1 + 1 < (r.bytes ++ rest).length := by omega
  obtain ⟨annoBci, h1⟩ := getJavaU2_of_lt hread1
  obtain ⟨annoTypeIndex, h4⟩ := getJavaU2_of_lt hread
  have hdrop : (r.bytes ++ rest).drop (8 + (r.bytes.getD 3 0).toNat * 2) = rest := by
    rw [h]
    exact drop_left
  have hmatch : r.isGen m.symbolAt bci = true ↔ _ := isGen_iff h1 h4
  simp only [scanAnnotations, h0, h1, h3, h4, bind_eq_bind, bind_some, hdrop, hmatch, annoBcLen, add_zero]

lemma scan_records {rs : List AnnotationRecord} (h : ∀ r ∈ rs.takeWhile (fun r => !r.isGen m.symbolAt bci), r.InStep) :
    scanAnnotations m bci 0 rs.length (rs.flatMap AnnotationRecord.bytes) =
      some (rs.any fun r => r.isGen m.symbolAt bci) := by
  induction rs with
  | nil => rfl
  | cons r rs ih =>
    rw [flatMap_cons, length_cons, any_cons]
    by_cases hgen : r.isGen m.symbolAt bci = true
    · rw [scan_record (AnnotationRecord.inStep_of_type (AnnotationRecord.type_of_isGen hgen)), hgen]
      rfl
    · rw [Bool.not_eq_true] at hgen
      rw [takeWhile_cons_of_pos (by simp [hgen])] at h
      rw [scan_record (h r (by simp)), hgen, ih fun r' hr' => h r' (by simp [hr'])]
      rfl

lemma exists_matches (m : Method) (n : Nat) (data : List (BitVec 8)) :
    ∃ bcis : List Nat, bcis.length ≤ n ∧ ∀ bci, scanAnnotations m bci 0 n data = some true → bci ∈ bcis := by
  induction n generalizing data with
  | zero => exact ⟨[], le_refl 0, fun bci h => by cases h⟩
  | succ n ih =>
    obtain ⟨bcis, hlen, hbcis⟩ := ih (data.drop (8 + (data.getD 3 0).toNat * 2))
    cases hbci : getJavaU2 data 1 with
    | none =>
      refine ⟨[], zero_le _, fun bci h => ?_⟩
      simp [scanAnnotations, hbci] at h
    | some annoBci =>
      refine ⟨annoBci.toNat :: bcis, succ_le_succ hlen, fun bci h => ?_⟩
      simp only [scanAnnotations, hbci, bind_eq_bind, bind_some, bind_eq_some_iff] at h
      obtain ⟨annoTarget, -, dsize, hdsize, annoTypeIndex, -, h⟩ := h
      split at h
      next hmatch => exact mem_cons.2 (.inl hmatch.2.1.symm)
      · refine mem_cons_of_mem _ (hbcis bci ?_)
        rw [getD_eq_getElem?_getD, hdsize]
        exact h

end

/-! ## Methods with one attribute -/

section

variable {a : Attribute} {symbolAt : BitVec 16 → String} {lengthFor : Nat → Nat} {m : Method} {bci : Nat}

lemma length_add_two_le (a : Attribute) : a.annotations.length + 2 ≤ a.bytes.length := by
  have hsum : ∀ rs : List AnnotationRecord, rs.length ≤ (rs.flatMap AnnotationRecord.bytes).length := by
    intro rs
    induction rs with
    | nil => exact le_refl 0
    | cons r rs ih =>
      have hlen := r.length_bytes
      rw [flatMap_cons, length_append, length_cons]
      omega
  have hrecords := hsum a.annotations
  rw [Attribute.bytes, length_append]
  simp only [u2, length_cons]
  omega

lemma parseMethod_attribute (a : Attribute) (symbolAt : BitVec 16 → String) (lengthFor : Nat → Nat) :
    parseMethod none (some a.bytes) none symbolAt lengthFor =
      some ⟨some a.bytes, some a.bytes, some (replicate a.bytes.length maxJushort), symbolAt, lengthFor⟩ := by
  have hpos : attributeLength (some a.bytes) > 0 := by
    have hlen := length_add_two_le a
    rw [attributeLength, getD_some]
    omega
  have hassemble : assembleAnnotations none (some a.bytes) none = some (some a.bytes) := by
    rw [assembleAnnotations_eq rfl]
    simp
  rw [parseMethod, hassemble]
  rfl

section

variable (h : parseMethod none (some a.bytes) none symbolAt lengthFor = some m)

include h

lemma parseMethod_eq :
    m = ⟨some a.bytes, some a.bytes, some (replicate a.bytes.length maxJushort), symbolAt, lengthFor⟩ :=
  some.inj (h.symm.trans (parseMethod_attribute a symbolAt lengthFor))

lemma start_parseMethod : Session.start m a.bytes.length = ⟨m, []⟩ := by
  rw [parseMethod_eq h]
  rfl

lemma isAnnotated_parseMethod (bci : Nat) : isAnnotated m bci 0 =
      scanAnnotations m bci 0 a.annotations.length (a.annotations.flatMap AnnotationRecord.bytes) := by
  have hcount : getJavaU2 a.bytes 0 = some (BitVec.ofNat 16 a.annotations.length) := getJavaU2_append_u2 [] _ _
  have hdrop : a.bytes.drop 2 = a.annotations.flatMap AnnotationRecord.bytes := rfl
  have hnat : (BitVec.ofNat 16 a.annotations.length).toNat = a.annotations.length := by
    rw [BitVec.toNat_ofNat, mod_eq_of_lt a.length_lt]
  have htype : m.typeAnnotations = some a.bytes := by rw [parseMethod_eq h]
  have halloc : m.allocAnno = some a.bytes := by rw [parseMethod_eq h]
  simp only [isAnnotated, htype, halloc, hcount, hdrop, hnat, bind_eq_bind, bind_some]

lemma getAllocGen_parseMethod (hbci : bci ≠ 0xFFFF) :
    (getAllocGen m bci 0).map Prod.fst = (isAnnotated m bci 0).map fun found => if found then 1 else 0 := by
  have hlen := length_add_two_le a
  have hpos : 0 < a.bytes.length := by omega
  have hstart := Session.holds_start m a.bytes.length fun _ => 0
  have hmethod := hstart.method
  rw [start_parseMethod h] at hmethod
  have hcall := getAllocGen_filled (m := m) hstart.lt (zero_le a.bytes.length) hbci 0
  rw [← hmethod] at hcall
  rw [hcall]
  rcases isAnnotated m bci 0 with _ | _ | _ <;> simp [hpos]

lemma length_lt_of_holds {before bcis s} (hs : Session.Holds m a.bytes.length (fun _ => 0) before s bcis) :
    bcis.length < a.bytes.length := by
  have hlen := length_add_two_le a
  obtain ⟨possible, hpossible, hmem⟩ :=
    exists_matches m a.annotations.length (a.annotations.flatMap AnnotationRecord.bytes)
  have hsub : bcis ⊆ possible := by
    intro e he
    have ha := hs.annotated he
    rw [isAnnotated_parseMethod h] at ha
    exact hmem e ha
  have hle := (hs.nodup.subperm hsub).length_le
  omega

lemma getAllocGen_of_inStep {calls : List Nat} (hcalls : ∀ e ∈ calls, e < 0xFFFF) {s : Session}
    (hrun : run (Session.call fun _ => 0) ⟨m, []⟩ calls = some s) (hbci : bci ≠ 0xFFFF)
    (hstep : ∀ r ∈ a.annotations.takeWhile (fun r => !r.isGen symbolAt bci), r.InStep) :
    (getAllocGen s.method bci 0).map Prod.fst =
      some (if a.annotations.any fun r => r.isGen symbolAt bci then 1 else 0) := by
  rw [← start_parseMethod h] at hrun
  obtain ⟨bcis, hs⟩ := (Session.holds_start m a.bytes.length fun _ => 0).run hcalls hrun
  have hresult := (hs.callOk hbci fun _ _ => length_lt_of_holds h hs).result
  have hsymbol : m.symbolAt = symbolAt := by rw [parseMethod_eq h]
  rw [start_parseMethod h, getAllocGen_parseMethod h hbci, isAnnotated_parseMethod h,
    scan_records (by rwa [hsymbol]), hsymbol] at hresult
  exact hresult

end

end

/-! ## Annotations that are not in step -/

def genAt (bci typeIndex : BitVec 16) : AnnotationRecord := ⟨.offset .new bci, [], by decide, typeIndex⟩

lemma low_of_getJavaU2 {i x} (h : getJavaU2 data i = some x) : data[i + 1]? = some (x.setWidth 8) := by
  simp only [getJavaU2, bind_eq_bind, bind_eq_some_iff] at h
  obtain ⟨high, -, low, hlow, heq⟩ := h
  cases heq
  rw [hlow, BitVec.setWidth_append_eq_right]

lemma low_of_scan {m bci} (h : scanAnnotations m bci 0 1 data = some true) : data[2]? = some (BitVec.ofNat 8 bci) := by
  simp only [scanAnnotations, bind_eq_bind, bind_eq_some_iff] at h
  obtain ⟨annoTarget, -, annoBci, hbci, dsize, -, annoTypeIndex, -, h⟩ := h
  split at h
  next hmatch =>
    rw [low_of_getJavaU2 hbci, ← hmatch.2.1]
    simp [annoBcLen]
  · cases h

def followedByGen (r : AnnotationRecord) (bci typeIndex : BitVec 16) : Attribute :=
  ⟨[r, genAt bci typeIndex], by simp⟩

section

variable {r : AnnotationRecord} {symbolAt : BitVec 16 → String} {lengthFor : Nat → Nat} {typeIndex : BitVec 16}

lemma low_of_found {m bci} (h : ¬ r.InStep) (hbci : bci.toNat ≠ 0xFFFF)
    (hm : parseMethod none (some (followedByGen r bci typeIndex).bytes) none symbolAt lengthFor = some m)
    (hfound : (getAllocGen m bci.toNat 0).map Prod.fst = some 1) :
    (r.bytes ++ (genAt bci typeIndex).bytes)[8 + (r.bytes.getD 3 0).toNat * 2 + 2]? =
      some (BitVec.ofNat 8 bci.toNat) := by
  have hlen := r.length_bytes
  have hannotated : isAnnotated m bci.toNat 0 = some true := by
    rw [getAllocGen_parseMethod hm hbci] at hfound
    rcases ha : isAnnotated m bci.toNat 0 with _ | _ | _
    · simp [ha] at hfound
    · simp [ha] at hfound
    · rfl
  have hscan : scanAnnotations m bci.toNat 0 2 (r.bytes ++ (genAt bci typeIndex).bytes) = some true := by
    rw [isAnnotated_parseMethod hm] at hannotated
    simpa [followedByGen] using hannotated
  have htype : (r.bytes ++ (genAt bci typeIndex).bytes)[0]? ≠ some 68 := by
    intro h68
    exact h (AnnotationRecord.inStep_of_type (some.inj h68))
  have hfourth : (r.bytes ++ (genAt bci typeIndex).bytes).getD 3 0 = r.bytes.getD 3 0 := by
    rw [getD_eq_getElem?_getD, getElem?_append_left (by omega), ← getD_eq_getElem?_getD]
  have hlow := low_of_scan (scan_of_type_ne htype hscan)
  rwa [hfourth, getElem?_drop] at hlow

lemma exists_missed (h : ¬ r.InStep) (symbolAt : BitVec 16 → String) (lengthFor : Nat → Nat) (typeIndex : BitVec 16) :
    ∃ (bci : BitVec 16) (m : Method),
      parseMethod none (some (followedByGen r bci typeIndex).bytes) none symbolAt lengthFor = some m ∧
      (getAllocGen m bci.toNat 0).map Prod.fst ≠ some 1 := by
  -- The annotations for bci 0 and for bci 1 differ in one byte, which the loop does not read as the low byte.
  by_contra hall
  push Not at hall
  have h0 := low_of_found h (by decide) (parseMethod_attribute _ symbolAt lengthFor)
    (hall 0 _ (parseMethod_attribute (followedByGen r 0 typeIndex) symbolAt lengthFor))
  have h1 := low_of_found h (by decide) (parseMethod_attribute _ symbolAt lengthFor)
    (hall 1 _ (parseMethod_attribute (followedByGen r 1 typeIndex) symbolAt lengthFor))
  have hset : r.bytes ++ (genAt 1 typeIndex).bytes =
      (r.bytes ++ (genAt 0 typeIndex).bytes).set (r.bytes.length + 2) 1 := by
    rw [set_append_right _ _ (le_add_right _ _), Nat.add_sub_cancel_left]
    rfl
  have hne : r.bytes.length + 2 ≠ 8 + (r.bytes.getD 3 0).toNat * 2 + 2 := by
    intro heq
    exact h (add_right_cancel heq).symm
  rw [hset, getElem?_set_ne hne, h0] at h1
  exact absurd (some.inj h1) (by decide)

end

/-- What a call with `n_dims` 0 returns is right if the annotations before the one it looks for are in step. None that
is not in step can be allowed in general. -/
theorem getAllocGen_right (symbolAt : BitVec 16 → String) (lengthFor : Nat → Nat) :
    (∀ (a : Attribute) (m : Method) (calls : List Nat) (s : Session) (bci : Nat),
      parseMethod none (some a.bytes) none symbolAt lengthFor = some m → (∀ e ∈ calls, e < 0xFFFF) →
      run (Session.call fun _ => 0) ⟨m, []⟩ calls = some s → bci ≠ 0xFFFF →
      (∀ r ∈ a.annotations.takeWhile (fun r => !r.isGen symbolAt bci), r.InStep) →
      (getAllocGen s.method bci 0).map Prod.fst =
        some (if a.annotations.any fun r => r.isGen symbolAt bci then 1 else 0)) ∧
    ∀ r : AnnotationRecord, ¬ r.InStep → ∀ typeIndex, symbolAt typeIndex = "Ljava/lang/Gen;" →
      ∃ (a : Attribute) (m : Method) (bci : Nat), a.annotations.head? = some r ∧
        (a.annotations.any fun r => r.isGen symbolAt bci) = true ∧
        parseMethod none (some a.bytes) none symbolAt lengthFor = some m ∧
        (getAllocGen m bci 0).map Prod.fst ≠ some 1 := by
  constructor
  · intro a m calls s bci hm hcalls hrun hbci hstep
    exact getAllocGen_of_inStep hm hcalls hrun hbci hstep
  · intro r hr typeIndex htype
    obtain ⟨bci, m, hm, hmissed⟩ := exists_missed hr symbolAt lengthFor typeIndex
    refine ⟨followedByGen r bci typeIndex, m, bci.toNat, rfl, ?_, hm, hmissed⟩
    simp [followedByGen, genAt, AnnotationRecord.isGen, htype]

section Example

def genPool (i : BitVec 16) : String := if i = 0x0105 then "Ljava/lang/Gen;" else "LA;"

/-- A local variable without a range, an exception parameter and a `new` bytecode. -/
def inStepAnnotations : Attribute :=
  ⟨[⟨.localVar false [] (by decide), [], by decide, 0x0100⟩, ⟨.exceptionParameter 0, [(0, 0)], by decide, 0x0100⟩,
    genAt 0 0x0105], by decide⟩

/-- A type argument of a cast and a `new` bytecode. -/
def castBeforeNew : Attribute := ⟨[⟨.typeArgument 0 4 0, [], by decide, 0x0100⟩, genAt 0 0x0105], by decide⟩

theorem getAllocGen_right_inStep :
    ∃ m s, parseMethod none (some inStepAnnotations.bytes) none genPool (fun _ => 1) = some m ∧
      run (Session.call fun _ => 0) ⟨m, []⟩ [7, 0] = some s ∧ (getAllocGen s.method 0 0).map Prod.fst = some 1 := by
  obtain ⟨s, hrun⟩ : ∃ s, run (Session.call fun _ => 0)
      ⟨⟨some inStepAnnotations.bytes, some inStepAnnotations.bytes,
        some (replicate inStepAnnotations.bytes.length maxJushort), genPool, fun _ => 1⟩, []⟩ [7, 0] = some s :=
    ⟨_, rfl⟩
  refine ⟨_, s, parseMethod_attribute inStepAnnotations genPool fun _ => 1, hrun, ?_⟩
  exact (getAllocGen_right genPool fun _ => 1).1 inStepAnnotations _ [7, 0] s 0
    (parseMethod_attribute inStepAnnotations genPool fun _ => 1) (by decide) hrun (by decide) (by decide)

theorem getAllocGen_misses_new : (castBeforeNew.annotations.any fun r => r.isGen genPool 0) = true ∧
      ∃ m, parseMethod none (some castBeforeNew.bytes) none genPool (fun _ => 1) = some m ∧
        (getAllocGen m 0 0).map Prod.fst = some 0 :=
  ⟨rfl, _, rfl, rfl⟩

end Example

end Rolp.Annotation
