import Rolp.ClassFile.Lemmas.FieldPlacement

/-!
# Soundness of the field layout

The offsets never overlap, are aligned and padded, and the oop maps list exactly the references.
-/

namespace Rolp.ClassFile

open Rolp.Lib FieldDecl OopMapBlock Placed List Nat StoredField
open Heap (alignSizeUp_mod alignSizeUp_le le_alignSizeUp alignSizeUp_of_mod)

/-! ## Statement -/

def FieldDecl.isReference (f : FieldDecl) : Bool := f.type = .object ∨ f.type = .array

def FieldDecl.MustSeparate (f g : FieldDecl) : Prop :=
  f.contendedGroup ≠ g.contendedGroup ∨ f.contendedGroup = some 0

namespace StoredField

variable (c : LayoutFlags)

def offset (f : StoredField) : Int := f.info.offset

def size (f : StoredField) : Int := c.typeSize f.decl.type

def Apart (gap : Int) (f g : StoredField) : Prop :=
  f.offset + f.size c + gap ≤ g.offset ∨ g.offset + g.size c + gap ≤ f.offset

end StoredField

def Klass.fieldsEnd (c : LayoutFlags) (k : Klass) : Nat := c.baseOffset + k.nonstaticFieldSize * c.heapOopSize

/-- A bound for the bytes that the declared fields add: the paddings of contended fields and of a contended class, and
what is lost to alignment. -/
def ClassDecl.extent (c : LayoutFlags) (d : ClassDecl) : Nat :=
  32 * d.fields.length + 24 + d.fields.countP isPadded * (15 + c.contendedPaddingWidth) +
    (if d.fields.any isPadded then c.contendedPaddingWidth else 0) +
    if d.isContended then 2 * c.contendedPaddingWidth else 0

variable {p : Placed}

section Own

variable (c : LayoutFlags) (super : Option Klass) (d : ClassDecl)

def ownPlaced : List Placed := instanceFields (layoutFields c super d).placed

lemma plain_mem (hp : p ∈ instanceFields (plainLayout c super d).2) :
    p.offset % c.size p.field.allocationType = 0 ∧ nextNonstaticFieldOffset c super d ≤ p.offset ∧
      p.stop c ≤ paddedOffset c super d := by
  have hslot : (p.field.allocationType, p.offset) ∈
      (nonstaticCursor c super d).takeAll c.size (plainTypes d.fields) := by
    have hm := mem_map_of_mem (f := fun p : Placed => (p.field.allocationType, p.offset)) hp
    rwa [plainLayout, layoutPlain_slots] at hm
  have hroom := nonstaticCursor_roomy c super d
  rw [← funext (count_plainTypes d)] at hroom
  exact hroom.mem hslot

lemma plain_pairwise :
    (instanceFields (plainLayout c super d).2).Pairwise fun p q => p.stop c ≤ q.offset ∨ q.stop c ≤ p.offset := by
  have hroom := nonstaticCursor_roomy c super d
  rw [← funext (count_plainTypes d)] at hroom
  have hpair := hroom.pairwise
  have hslots := layoutPlain_slots c ⟨nextStaticOffset c d, nonstaticCursor c super d, ⟨[], 0⟩⟩ d.fields
  rw [← hslots, pairwise_map] at hpair
  exact hpair

lemma plain_not_contended (hp : p ∈ instanceFields (plainLayout c super d).2) : p.field.contendedGroup = none := by
  obtain ⟨hmem, hs⟩ := mem_filter.1 hp
  have hm := mem_map_of_mem (f := field) hmem
  rw [plainLayout, layoutPlain_fields] at hm
  have hpad := (mem_filter.1 hm).2
  simp only [isPadded, isContended] at hpad hs
  simpa [hs] using hpad

lemma padded_laidOut : (paddedLayout c super d).2 = [] ∧ (paddedLayout c super d).1.next = paddedOffset c super d ∨
      LaidOut c c.contendedPaddingWidth (paddedOffset c super d + c.contendedPaddingWidth)
        (paddedLayout c super d).2 (paddedLayout c super d).1.next := by
  unfold paddedLayout
  split
  · exact .inr (layoutGroups_placing _ (Padded.pad ⟨paddedOffset c super d, _⟩ c.contendedPaddingWidth) _).laidOut
  · exact .inl ⟨rfl, rfl⟩

lemma paddedOffset_le_next : paddedOffset c super d ≤ (paddedLayout c super d).1.next := by
  rcases padded_laidOut c super d with ⟨-, h⟩ | h
  · exact le_of_eq h.symm
  · have := h.le
    omega

lemma mem_contendedGroups {g} : g ∈ contendedGroups d ↔ ∃ f ∈ d.fields, f.inGroup g = true := by
  simp only [contendedGroups, mem_filter, mem_range, any_eq_true]
  constructor
  · rintro ⟨-, f, hf, h⟩
    exact ⟨f, hf, h⟩
  · rintro ⟨f, hf, h⟩
    refine ⟨d.group_lt f hf g ?_, f, hf, h⟩
    simp only [inGroup, Bool.and_eq_true, beq_iff_eq] at h
    exact h.2

lemma contendedGroups_nonempty : GroupsNonempty d.fields (contendedGroups d) := fun _ hg => (mem_contendedGroups d).1 hg

lemma inGroup_unique {f : FieldDecl} {g g' : Nat} (h : f.inGroup g = true) (h' : f.inGroup g' = true) : g = g' := by
  simp only [inGroup, Bool.and_eq_true, beq_iff_eq] at h h'
  exact Option.some.inj (h.2.symm.trans h'.2)

lemma isPadded_iff {f : FieldDecl} : f.isPadded = true ↔ ∃ g, f.inGroup g = true := by
  simp only [isPadded, isContended, inGroup, Bool.and_eq_true, beq_iff_eq, Option.isSome_iff_exists]
  constructor
  · rintro ⟨⟨g, hg⟩, hs⟩
    exact ⟨g, hs, hg⟩
  · rintro ⟨g, hs, hg⟩
    exact ⟨⟨g, hg⟩, hs⟩

lemma groups_perm {groups : List Nat} (hnodup : groups.Nodup) (fs : List FieldDecl)
    (hall : ∀ f ∈ fs, f.isPadded = true → ∃ g ∈ groups, f.inGroup g = true) :
    List.Perm (groups.flatMap fun g => fs.filter (inGroup g)) (fs.filter isPadded) := by
  induction fs with
  | nil => simp
  | cons f fs ih =>
    have ih := ih fun x hx => hall x (mem_cons_of_mem _ hx)
    cases hf : f.isPadded with
    | false =>
      have hout (g) : f.inGroup g = false := by
        by_contra hg
        have := isPadded_iff.mpr ⟨g, Bool.not_eq_false _ ▸ hg⟩
        simp [hf] at this
      simpa [filter_cons, hout, hf] using ih
    | true =>
      obtain ⟨g, hg, hin⟩ := hall f mem_cons_self hf
      obtain ⟨before, after, rfl⟩ := append_of_mem hg
      have hout : ∀ g' ∈ before ++ after, f.inGroup g' = false := by
        intro g' hg'
        by_contra h
        have heq := inGroup_unique hin (Bool.not_eq_false _ ▸ h)
        subst heq
        exact (nodup_cons.1 (perm_middle.nodup_iff.1 hnodup)).1 hg'
      have hskip : ∀ gs : List Nat, (∀ g' ∈ gs, f.inGroup g' = false) →
          (gs.flatMap fun g => (f :: fs).filter (inGroup g)) =
            gs.flatMap fun g => fs.filter (inGroup g) := by
        intro gs hgs
        refine flatMap_congr fun g' hg' => ?_
        rw [filter_cons_of_neg (by simp [hgs g' hg'])]
      rw [filter_cons_of_pos hf]
      rw [flatMap_append, flatMap_cons] at ih ⊢
      rw [hskip before fun g' h => hout g' (mem_append_left _ h),
        hskip after fun g' h => hout g' (mem_append_right _ h), filter_cons_of_pos hin]
      exact perm_middle.trans (ih.cons f)

lemma padded_fields : List.Perm ((paddedLayout c super d).2.map field) (d.fields.filter isPadded) := by
  unfold paddedLayout
  split
  · rw [(layoutGroups_placing _ _ _).fields]
    refine groups_perm (nodup_range.filter _) d.fields fun f hf hpad => ?_
    obtain ⟨g, hg⟩ := isPadded_iff.1 hpad
    exact ⟨g, (mem_contendedGroups d).2 ⟨f, hf, hg⟩, hg⟩
  next h =>
    have hnone : ∀ f ∈ d.fields, ¬f.isPadded = true := by simpa using h
    rw [filter_eq_nil_iff.2 hnone]
    exact List.Perm.nil

lemma padded_mem (hp : p ∈ (paddedLayout c super d).2) : p.field.isPadded = true :=
  (mem_filter.1 ((padded_fields c super d).mem_iff.1 (mem_map_of_mem hp))).2

lemma ownPlaced_eq : ownPlaced c super d = instanceFields (plainLayout c super d).2 ++ (paddedLayout c super d).2 := by
  change instanceFields (_ ++ _) = _
  rw [instanceFields, filter_append]
  congr 1
  refine filter_eq_self.2 fun p hp => ?_
  have := padded_mem c super d hp
  simp only [isPadded, Bool.and_eq_true] at this
  exact this.2

lemma nonstaticFieldsStart_le : nonstaticFieldsStart c super ≤ nextNonstaticFieldOffset c super d := le_add_right _ _

lemma next_le_paddedOffset : nextNonstaticFieldOffset c super d ≤ paddedOffset c super d :=
  areaBound_mono c super d (zero_le 10)

lemma nonstaticCount_le (a) : nonstaticCount d a ≤ d.fields.length := le_trans (sub_le _ _) countP_le_length

lemma ownPlaced_mem (hp : p ∈ ownPlaced c super d) :
    p.offset % c.size p.field.allocationType = 0 ∧ nonstaticFieldsStart c super ≤ p.offset ∧
      p.stop c ≤ notalignedFieldsEnd c super d := by
  have hstart := nonstaticFieldsStart_le c super d
  have hnext := paddedOffset_le_next c super d
  rw [ownPlaced_eq] at hp
  unfold notalignedFieldsEnd
  rcases mem_append.1 hp with hp | hp
  · have h := plain_mem c super d hp
    exact ⟨h.1, by omega, by omega⟩
  · rcases padded_laidOut c super d with ⟨hnil, -⟩ | h
    · rw [hnil] at hp
      exact absurd hp not_mem_nil
    have hlo := h.lower p hp
    have hup := h.upper p hp
    have hroom := next_le_paddedOffset c super d
    exact ⟨h.aligned p hp, by omega, by omega⟩

def PaddedApart (p q : Placed) : Prop :=
  (p.stop c ≤ q.offset ∨ q.stop c ≤ p.offset) ∧
    (p.field.MustSeparate q.field →
      p.stop c + c.contendedPaddingWidth ≤ q.offset ∨ q.stop c + c.contendedPaddingWidth ≤ p.offset)

lemma ownPlaced_pairwise : (ownPlaced c super d).Pairwise (PaddedApart c) := by
  rw [ownPlaced_eq]
  refine pairwise_append.2 ⟨?_, ?_, ?_⟩
  · refine (plain_pairwise c super d).imp_of_mem fun hp hq h => ⟨h, ?_⟩
    rintro (hne | hzero)
    · exact absurd ((plain_not_contended c super d hp).trans (plain_not_contended c super d hq).symm) hne
    · rw [plain_not_contended c super d hp] at hzero
      exact absurd hzero (by simp)
  · rcases padded_laidOut c super d with ⟨hnil, -⟩ | h
    · rw [hnil]
      exact List.Pairwise.nil
    refine h.spaced.imp fun {p q} hpq => ⟨.inl (by omega), fun hsep => .inl ?_⟩
    have hgap : neededGap c p q = c.contendedPaddingWidth := by
      unfold neededGap
      rw [if_neg]
      rintro ⟨heq, hne⟩
      rcases hsep with hsep | hsep
      · exact hsep heq
      · exact hne hsep
    omega
  · intro p hp q hq
    rcases padded_laidOut c super d with ⟨hnil, -⟩ | h
    · rw [hnil] at hq
      exact absurd hq not_mem_nil
    · have hstop := (plain_mem c super d hp).2.2
      have hlo := h.lower q hq
      exact ⟨.inl (by omega), fun _ => .inl (by omega)⟩

/-! ## Oop maps -/

lemma own_oops : (layoutFields c super d).oopMaps.offsets c = oopOffsets (layoutFields c super d).placed := by
  have hplain := layoutPlain_oops c ⟨nextStaticOffset c d, nonstaticCursor c super d, ⟨[], 0⟩⟩ d.fields
  have hpadded : (paddedLayout c super d).1.oopMaps.offsets c =
      (plainLayout c super d).1.oopMaps.offsets c ++ oopOffsets (paddedLayout c super d).2 := by
    unfold paddedLayout
    split
    · exact (layoutGroups_placing _ _ _).oops
    · simp [oopOffsets, instanceFields]
  change (paddedLayout c super d).1.oopMaps.offsets c = oopOffsets (_ ++ _)
  rw [hpadded, oopOffsets_append, plainLayout, hplain]
  simp [OopMaps.offsets]

lemma baseOffset_le_start : c.baseOffset ≤ nonstaticFieldsStart c super := le_add_right _ _

lemma own_first : (layoutFields c super d).oopMaps.FirstSet := by
  have hbase := c.baseOffset_pos
  have hstart := baseOffset_le_start c super
  have hnext := nonstaticFieldsStart_le c super d
  have hplain : (plainLayout c super d).1.oopMaps.FirstSet := by
    refine layoutPlain_first c (.inl ⟨rfl, rfl⟩) fun p hp => ?_
    have := (plain_mem c super d hp).2.1
    omega
  have hroom := next_le_paddedOffset c super d
  change (paddedLayout c super d).1.oopMaps.FirstSet
  unfold paddedLayout
  split
  · refine (layoutGroups_placing _ _ _).first hplain ?_
    change 0 < paddedOffset c super d + _
    omega
  · exact hplain

end Own

lemma OopMapBlock.offsets_add (c o n m) : offsets c ⟨o, n + m⟩ =
      offsets c ⟨o, n⟩ ++ offsets c ⟨o + n * c.heapOopSize, m⟩ := by
  simp only [offsets, range_add, map_append, map_map]
  congr 1
  refine map_congr_left fun i _ => ?_
  simp only [Function.comp_apply, add_mul]
  omega

def inheritedMaps (super : Option Klass) : List OopMapBlock := (super.map Klass.oopMaps).getD []

lemma fillOopMaps_spec {c super m} (hfirst : m.FirstSet)
    (hcount : superOopMapCount super = (inheritedMaps super).length) :
    (fillOopMaps super (computeOopMapCount c super m) m.blocks).length = computeOopMapCount c super m ∧
      (fillOopMaps super (computeOopMapCount c super m) m.blocks).flatMap (offsets c) =
        (inheritedMaps super).flatMap (offsets c) ++ m.offsets c := by
  have hcopied : ((super.map Klass.oopMaps).getD []).take (superOopMapCount super) = inheritedMaps super := by
    rw [hcount]
    exact take_length
  rcases hfirst with ⟨hnil, -⟩ | ⟨b, rest, hcons, hfirst, -⟩
  · have htotal : computeOopMapCount c super m = superOopMapCount super := by simp [computeOopMapCount, hnil]
    rw [htotal]
    simp only [fillOopMaps, hnil, hcopied, OopMaps.offsets, flatMap_nil, append_nil, and_true]
    exact hcount.symm
  unfold fillOopMaps
  dsimp only
  rw [hcopied]
  simp only [OopMaps.offsets, hcons]
  by_cases hzero : superOopMapCount super = 0
  · -- nothing was inherited
    have hempty : inheritedMaps super = [] := length_eq_zero_iff.1 (hcount.symm.trans hzero)
    have htotal : computeOopMapCount c super m = rest.length + 1 := by simp [computeOopMapCount, hcons, hzero]
    simp [htotal, hzero, hempty]
  obtain ⟨front, last, hmaps⟩ : ∃ front last, inheritedMaps super = front ++ [last] := by
    rcases eq_nil_or_concat (inheritedMaps super) with h | ⟨front, last, h⟩
    · rw [h] at hcount
      exact absurd hcount hzero
    · exact ⟨front, last, by simpa using h⟩
  have hnext : super.bind (Klass.nextOopOffset c) = some (last.offset + last.count * c.heapOopSize) := by
    cases super with
    | none => simp [inheritedMaps] at hmaps
    | some k =>
      have hk : k.oopMaps = front ++ [last] := hmaps
      have hlen : k.nonstaticOopMapCount = (front ++ [last]).length := by
        rw [← hk]
        exact hcount
      simp [Klass.nextOopOffset, hk, hlen]
  by_cases hmerge : last.offset + last.count * c.heapOopSize = b.offset
  · have htotal : computeOopMapCount c super m = superOopMapCount super + rest.length := by
      simp [computeOopMapCount, hcons, hzero, hnext, hfirst, hmerge]
    rw [htotal, if_pos (by simp), hmaps]
    simp only [getLast?_concat, dropLast_concat]
    rw [hmaps] at hcount
    simp only [length_append, length_cons, length_nil] at hcount ⊢
    refine ⟨by omega, ?_⟩
    simp only [flatMap_append, flatMap_cons]
    rw [offsets_add, hmerge]
    simp [append_assoc]
  · have htotal : computeOopMapCount c super m = superOopMapCount super + (rest.length + 1) := by
      have hne : ¬last.offset + last.count * c.heapOopSize = m.first := by
        rw [hfirst]
        exact hmerge
      simp [computeOopMapCount, hcons, hnext, hne]
    rw [htotal, if_neg (by simp)]
    refine ⟨?_, by simp⟩
    rw [length_append, hcount]
    rfl

/-! ## The end of the fields -/

section End

variable (c : LayoutFlags) (super : Option Klass) (d : ClassDecl)

lemma start_le_end : nonstaticFieldsStart c super ≤ notalignedFieldsEnd c super d := by
  have hstart := nonstaticFieldsStart_le c super d
  have hroom := next_le_paddedOffset c super d
  have hnext := paddedOffset_le_next c super d
  unfold notalignedFieldsEnd
  omega

lemma layoutKlass_fieldsEnd :
    (layoutKlass c super d).fieldsEnd c = alignSizeUp (notalignedFieldsEnd c super d) c.heapOopSize := by
  have hle := le_trans (start_le_end c super d) (le_alignSizeUp (notalignedFieldsEnd c super d) c.heapOopSize_pos)
  have hmod := alignSizeUp_mod (notalignedFieldsEnd c super d) c.heapOopSize
  have hstart := nonstaticFieldsStart_mod c super
  change c.baseOffset + (superFieldSize super + (alignSizeUp _ _ - nonstaticFieldsStart c super) / c.heapOopSize) *
    c.heapOopSize = _
  generalize alignSizeUp (notalignedFieldsEnd c super d) c.heapOopSize = stop at hle hmod ⊢
  have hdvd : (stop - nonstaticFieldsStart c super) / c.heapOopSize * c.heapOopSize =
      stop - nonstaticFieldsStart c super :=
    Nat.div_mul_cancel (dvd_sub (dvd_of_mod_eq_zero hmod) (dvd_of_mod_eq_zero hstart))
  rw [add_mul, hdvd, ← add_assoc]
  exact Nat.add_sub_cancel' hle

lemma end_le_fieldsEnd : notalignedFieldsEnd c super d ≤ (layoutKlass c super d).fieldsEnd c := by
  rw [layoutKlass_fieldsEnd]
  exact le_alignSizeUp _ c.heapOopSize_pos

lemma notalignedFieldsEnd_le : notalignedFieldsEnd c super d + 8 ≤ nonstaticFieldsStart c super + d.extent c := by
  have hplain := paddedOffset_le c super d (nonstaticCount_le d)
  have hnext : (paddedLayout c super d).1.next ≤ paddedOffset c super d +
      d.fields.countP isPadded * (15 + c.contendedPaddingWidth) +
      if d.fields.any isPadded then c.contendedPaddingWidth else 0 := by
    have hlength : (paddedLayout c super d).2.length = d.fields.countP isPadded := by
      rw [← length_map, (padded_fields c super d).length_eq, countP_eq_length_filter]
    rw [← hlength]
    unfold paddedLayout
    dsimp only
    split
    next hany =>
      have hgroups := (layoutGroups_placing (c := c) _ (Padded.pad ⟨paddedOffset c super d,
        (plainLayout c super d).1.oopMaps⟩ c.contendedPaddingWidth) _).next_le (contendedGroups_nonempty d)
      change _ ≤ paddedOffset c super d + c.contendedPaddingWidth + _ at hgroups
      omega
    · dsimp only
      omega
  unfold nextNonstaticFieldOffset at hplain
  unfold notalignedFieldsEnd ClassDecl.extent
  split at hplain
  next h =>
    rw [if_pos h, if_pos h]
    omega
  next h =>
    rw [if_neg h, if_neg h]
    omega

/-- No cursor of `layout_fields` overflows. -/
theorem notalignedFieldsEnd_lt (hstart : nonstaticFieldsStart c super ≤ 2 ^ 29) :
    notalignedFieldsEnd c super d < 2 ^ 31 := by
  have hend := notalignedFieldsEnd_le c super d
  have hwidth := c.padding_le
  have hfields := d.length_lt
  have hpadded : d.fields.countP isPadded * (15 + c.contendedPaddingWidth) ≤ d.fields.length * 8207 :=
    Nat.mul_le_mul countP_le_length (by omega)
  unfold ClassDecl.extent at hend
  split at hend <;> split at hend <;> omega

end End

/-! ## Whole classes -/

structure Klass.Sound (c : LayoutFlags) (k : Klass) : Prop where
  aligned : ∀ f ∈ k.fields, f.offset % f.size c = 0
  after_header : ∀ f ∈ k.fields, c.baseOffset ≤ f.offset
  below : ∀ f ∈ k.fields, f.offset + f.size c ≤ k.fieldsEnd c
  disjoint : k.fields.Pairwise (StoredField.Apart c 0)
  oop_maps : List.Perm ((k.oopMaps.flatMap (offsets c)).map Int.ofNat)
    ((k.fields.filter fun f => f.decl.isReference).map offset)
  map_count : k.nonstaticOopMapCount = k.oopMaps.length

section Step

variable {c : LayoutFlags} {super : Option Klass} {d : ClassDecl}

lemma isReference_eq (f : FieldDecl) : f.isReference = (f.allocationType == .oop) := by
  obtain ⟨t, s, g⟩ := f
  cases t <;> rfl

def Placed.stored (p : Placed) : StoredField := ⟨p.field, .setOffset p.offset⟩

lemma ownFields_eq : ownFields c super d = (ownPlaced c super d).map stored := rfl

lemma Placed.stored_offset (h : p.offset < 2 ^ 29) : p.stored.offset = p.offset := FieldInfo.offset_setOffset h

lemma Placed.stored_size (p : Placed) : p.stored.size c = c.size p.field.allocationType := by
  change ((c.typeSize p.field.type) : Int) = _
  rw [← c.size_basicTypeToAtype]
  rfl

section

variable (hsuper : ∀ k, super = some k → k.Sound c)

include hsuper

lemma inherited_sound {f} (hf : f ∈ inheritedFields super) :
    f.offset % f.size c = 0 ∧ c.baseOffset ≤ f.offset ∧ f.offset + f.size c ≤ nonstaticFieldsStart c super := by
  cases super with
  | none => exact absurd hf not_mem_nil
  | some k =>
    have h := hsuper k rfl
    exact ⟨h.aligned f hf, h.after_header f hf, h.below f hf⟩

lemma inherited_disjoint : (inheritedFields super).Pairwise (StoredField.Apart c 0) := by
  cases super with
  | none => exact List.Pairwise.nil
  | some k => exact (hsuper k rfl).disjoint

lemma inherited_oops : List.Perm (((inheritedMaps super).flatMap (offsets c)).map Int.ofNat)
      (((inheritedFields super).filter fun f => f.decl.isReference).map offset) := by
  cases super with
  | none => exact List.Perm.nil
  | some k => exact (hsuper k rfl).oop_maps

lemma inherited_count : superOopMapCount super = (inheritedMaps super).length := by
  cases super with
  | none => rfl
  | some k => exact (hsuper k rfl).map_count

end

section

variable (hsmall : ∀ p ∈ ownPlaced c super d, p.offset < 2 ^ 29)

include hsmall

lemma own_sound {f} (hf : f ∈ ownFields c super d) : f.offset % f.size c = 0 ∧ nonstaticFieldsStart c super ≤ f.offset ∧
      f.offset + f.size c ≤ notalignedFieldsEnd c super d := by
  rw [ownFields_eq] at hf
  obtain ⟨p, hp, rfl⟩ := mem_map.1 hf
  obtain ⟨hmod, hlo, hhi⟩ := ownPlaced_mem c super d hp
  rw [stored_offset (hsmall p hp), stored_size]
  rw [stop] at hhi
  exact ⟨by exact_mod_cast hmod, by omega, by omega⟩

lemma own_apart : (ownFields c super d).Pairwise fun f g => StoredField.Apart c 0 f g ∧
      (f.decl.MustSeparate g.decl → StoredField.Apart c c.contendedPaddingWidth f g) := by
  rw [ownFields_eq, pairwise_map]
  refine (ownPlaced_pairwise c super d).imp_of_mem fun {p q} hp hq h => ?_
  unfold StoredField.Apart
  rw [stored_offset (hsmall p hp), stored_offset (hsmall q hq), stored_size, stored_size]
  simp only [PaddedApart, stop] at h
  refine ⟨by omega, fun hsep => ?_⟩
  have := h.2 hsep
  omega

lemma own_oop_offsets : (oopOffsets (layoutFields c super d).placed).map Int.ofNat =
      ((ownFields c super d).filter fun f => f.decl.isReference).map StoredField.offset := by
  rw [ownFields_eq, filter_map, oopOffsets, map_map, map_map]
  change (filter _ (ownPlaced c super d)).map _ = _
  have hfilter : (ownPlaced c super d).filter (fun p => p.field.allocationType == .oop) =
      (ownPlaced c super d).filter ((fun f : StoredField => f.decl.isReference) ∘ stored) :=
    filter_congr fun p _ => (isReference_eq p.field).symm
  rw [hfilter]
  refine map_congr_left fun p hp => ?_
  rw [Function.comp_apply, Function.comp_apply, stored_offset (hsmall p (mem_filter.1 hp).1)]
  rfl

end

lemma layoutKlass_oopMaps (hsuper : ∀ k, super = some k → k.Sound c) :
    (layoutKlass c super d).oopMaps.length = (layoutFields c super d).totalOopMapCount ∧
      (layoutKlass c super d).oopMaps.flatMap (offsets c) =
        (inheritedMaps super).flatMap (offsets c) ++ oopOffsets (layoutFields c super d).placed := by
  rw [← own_oops]
  exact fillOopMaps_spec (own_first c super d) (inherited_count hsuper)

lemma Klass.Sound.layoutKlass (hsuper : ∀ k, super = some k → k.Sound c)
    (hsmall : ∀ p ∈ ownPlaced c super d, p.offset < 2 ^ 29) : (layoutKlass c super d).Sound c := by
  have hend := end_le_fieldsEnd c super d
  have hstart := start_le_end c super d
  have hbase := baseOffset_le_start c super
  refine ⟨?_, ?_, ?_, ?_, ?_, ?_⟩
  · intro f hf
    rcases mem_append.1 hf with hf | hf
    · exact (inherited_sound hsuper hf).1
    · exact (own_sound hsmall hf).1
  · intro f hf
    rcases mem_append.1 hf with hf | hf
    · exact (inherited_sound hsuper hf).2.1
    · have := (own_sound hsmall hf).2.1
      omega
  · intro f hf
    rcases mem_append.1 hf with hf | hf
    · have := (inherited_sound hsuper hf).2.2
      omega
    · have := (own_sound hsmall hf).2.2
      omega
  · refine pairwise_append.2 ⟨inherited_disjoint hsuper, (own_apart hsmall).imp And.left, ?_⟩
    intro f hf g hg
    have hf' := (inherited_sound hsuper hf).2.2
    have hg' := (own_sound hsmall hg).2.1
    exact .inl (by omega)
  · rw [(layoutKlass_oopMaps hsuper).2, map_append, own_oop_offsets hsmall]
    change List.Perm _ ((inheritedFields super ++ ownFields c super d).filter _ |>.map _)
    rw [filter_append, map_append]
    exact (inherited_oops hsuper).append_right _
  · exact (layoutKlass_oopMaps hsuper).1.symm

end Step

/-! ## Chains of classes -/

def defaultFlags : LayoutFlags :=
  ⟨Heap.defaultLayout, true, 1, true, 128, 112, by decide, by decide⟩

def mixedClass : ClassDecl where
  fields :=
    [⟨.long, false, none⟩, ⟨.object, false, none⟩, ⟨.byte, false, none⟩, ⟨.int, true, some 0⟩, ⟨.array, false, some 3⟩,
      ⟨.char, false, some 0⟩, ⟨.boolean, false, none⟩, ⟨.double, false, some 0⟩]
  isContended := true
  isHardCoded := false
  cpSize := 4
  length_lt := by decide
  group_lt := by decide

theorem notalignedFieldsEnd_lt_mixed : notalignedFieldsEnd defaultFlags none mixedClass < 2 ^ 31 :=
  notalignedFieldsEnd_lt _ _ _ (by decide)

/-! ## Offsets that cannot be stored -/

end Rolp.ClassFile
