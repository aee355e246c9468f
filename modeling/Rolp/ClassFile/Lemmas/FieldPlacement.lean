import Rolp.ClassFile.FieldLayout

/-!
# Room for the fields that are not padded
-/

namespace Rolp.ClassFile

open Rolp.Lib Nat
open Heap (alignSizeUp_mod alignSizeUp_le le_alignSizeUp)

namespace LayoutFlags

variable (c : LayoutFlags)

lemma heapOopSize_cases : (c.heapOopSize = 4 ∧ c.baseOffset % 4 = 0) ∨ (c.heapOopSize = 8 ∧ c.baseOffset % 8 = 0) := by
  cases h : c.useCompressedOops with
  | true =>
    refine .inl ⟨by simp [heapOopSize, h], ?_⟩
    unfold baseOffset
    split
    · rfl
    · rfl
  | false => exact .inr ⟨by simp [heapOopSize, h], by simp [baseOffset, h]⟩

lemma heapOopSize_pos : 0 < c.heapOopSize := by
  rcases c.heapOopSize_cases with h | h
  · omega
  · omega

lemma baseOffset_pos : 12 ≤ c.baseOffset := by
  unfold baseOffset
  split
  · exact le_rfl
  · decide

lemma size_pos (a) : 0 < c.size a := by
  cases a with
  | oop => exact c.heapOopSize_pos
  | byte => simp [size]
  | short => simp [size]
  | word => simp [size]
  | double => simp [size]

lemma size_le (a) : c.size a ≤ 8 := by
  cases a with
  | oop =>
    change c.heapOopSize ≤ 8
    rcases c.heapOopSize_cases with h | h
    · omega
    · omega
  | byte => simp [size]
  | short => simp [size]
  | word => simp [size]
  | double => simp [size]

lemma size_basicTypeToAtype (t) : c.size (basicTypeToAtype t) = c.typeSize t := by
  cases t <;> rfl

end LayoutFlags

/-! ## The gap before the doubles -/

lemma squeeze_le (size count length) : squeeze size count length ≤ count := by
  induction count generalizing length with
  | zero => exact le_rfl
  | succ count ih =>
    rw [squeeze]
    split
    · exact succ_le_succ (ih _)
    · exact zero_le _

lemma squeeze_mul_le (size count length) : squeeze size count length * size ≤ length := by
  induction count generalizing length with
  | zero => simp [squeeze]
  | succ count ih =>
    rw [squeeze]
    split
    · have := ih (length - size)
      rw [add_mul]
      omega
    · simp

section Start

variable (c : LayoutFlags) (super : Option Klass) (d : ClassDecl)

structure FillsGap (s : Space) (offset stop : Nat) : Prop where
  fits : offset + s.count .word * 4 + s.count .short * 2 + s.count .byte ≤ stop
  word : 0 < s.count .word → s.offset .word = offset
  short : 0 < s.count .short → s.offset .short = offset + s.count .word * 4
  byte : 0 < s.count .byte → s.offset .byte = offset + s.count .word * 4 + s.count .short * 2
  oop : 0 < s.count .oop → s.offset .oop = offset ∧ s.count .byte = 0 ∧ s.count .short = 0 ∧ s.count .word = 0 ∧
    offset + s.count .oop * c.heapOopSize ≤ stop ∧ c.heapOopSize = 4
  oop_first : oopsFirst c super d → s.count .oop = 0
  double : s.count .double = 0
  le : ∀ a, s.count a ≤ nonstaticCount d a

lemma fillGap_fills (offset) : FillsGap c super d (fillGap c super d offset 4) offset (offset + 4) := by
  have hw : (if 0 < nonstaticCount d .word then 1 else 0) ≤ nonstaticCount d .word ∧
      (if 0 < nonstaticCount d .word then 1 else 0) ≤ 1 := by
    split
    · omega
    · omega
  unfold fillGap
  generalize (if 0 < nonstaticCount d .word then 1 else 0) = words at hw ⊢
  have hs := squeeze_mul_le 2 (nonstaticCount d .short) (4 - words * 4)
  have hsle := squeeze_le 2 (nonstaticCount d .short) (4 - words * 4)
  dsimp only
  generalize squeeze 2 (nonstaticCount d .short) (4 - words * 4) = shorts at hs hsle ⊢
  have hb := squeeze_mul_le 1 (nonstaticCount d .byte) (4 - words * 4 - shorts * 2)
  have hble := squeeze_le 1 (nonstaticCount d .byte) (4 - words * 4 - shorts * 2)
  generalize squeeze 1 (nonstaticCount d .byte) (4 - words * 4 - shorts * 2) = bytes at hb hble ⊢
  refine ⟨?_, fun _ => rfl, fun _ => rfl, fun _ => rfl, ?_, ?_, rfl, ?_⟩
  · dsimp only
    omega
  · dsimp only
    intro hoop
    split at hoop
    next hcond =>
      rw [if_pos hcond]
      rcases c.heapOopSize_cases with h | h
      · omega
      · omega
    · exact absurd hoop (lt_irrefl 0)
  · intro hfirst
    simp [hfirst]
  · intro a
    cases a with
    | oop =>
      split
      next hcond => exact hcond.2.1
      · exact zero_le _
    | byte => exact hble
    | short => exact hsle
    | word => exact hw.1
    | double => exact zero_le _

lemma noSpace_fills {offset stop} (h : offset ≤ stop) : FillsGap c super d noSpace offset stop where
  fits := by simpa [noSpace] using h
  word h := absurd h (lt_irrefl 0)
  short h := absurd h (lt_irrefl 0)
  byte h := absurd h (lt_irrefl 0)
  oop h := absurd h (lt_irrefl 0)
  oop_first _ := rfl
  double := rfl
  le _ := zero_le _

/-! ## Alignment of the starting offsets -/

lemma baseOffset_mod : c.baseOffset % c.heapOopSize = 0 := by
  rcases c.heapOopSize_cases with h | h
  · rw [h.1]
    exact h.2
  · rw [h.1]
    exact h.2

lemma nonstaticFieldsStart_mod : nonstaticFieldsStart c super % c.heapOopSize = 0 := by
  rw [nonstaticFieldsStart, add_mul_mod_self_right]
  exact baseOffset_mod c

lemma nextNonstaticFieldOffset_mod : nextNonstaticFieldOffset c super d % c.heapOopSize = 0 := by
  have hstart := nonstaticFieldsStart_mod c super
  have hpad := c.padding_mod
  unfold nextNonstaticFieldOffset
  rcases c.heapOopSize_cases with h | h
  · rw [h.1] at hstart ⊢
    split
    · omega
    · omega
  · rw [h.1] at hstart ⊢
    split
    · omega
    · omega

lemma doubleOffset_mod : doubleOffset c super d % c.heapOopSize = 0 := by
  unfold doubleOffset
  split
  · rw [add_mul_mod_self_right]
    exact nextNonstaticFieldOffset_mod c super d
  · exact nextNonstaticFieldOffset_mod c super d

lemma doubleOffset_mod_four : doubleOffset c super d % 4 = 0 := by
  have := doubleOffset_mod c super d
  rcases c.heapOopSize_cases with h | h
  · rw [h.1] at this
    exact this
  · rw [h.1] at this
    omega

lemma alignedDoubleOffset_cases : alignedDoubleOffset c super d = doubleOffset c super d ∨
      alignedDoubleOffset c super d = doubleOffset c super d + 4 := by
  unfold alignedDoubleOffset
  split
  · have := doubleOffset_mod_four c super d
    have := alignSizeUp_mod (doubleOffset c super d) 8
    have := alignSizeUp_le (doubleOffset c super d) 8
    have := le_alignSizeUp (doubleOffset c super d) (show 0 < 8 by decide)
    omega
  · exact .inl rfl

lemma space_fills : FillsGap c super d (space c super d) (doubleOffset c super d) (alignedDoubleOffset c super d) := by
  unfold space
  rcases alignedDoubleOffset_cases c super d with h | h
  · rw [if_neg fun hc => hc.2.2 h.symm]
    exact noSpace_fills c super d (le_of_eq h.symm)
  · split
    · rw [h, Nat.add_sub_cancel_left]
      exact fillGap_fills c super d _
    · exact noSpace_fills c super d (by omega)

lemma restCount_double : restCount c super d .double = nonstaticCount d .double := by
  rw [restCount, (space_fills c super d).double, Nat.sub_zero]

/-! ## The areas of the types -/

def areaPosition (oopsFirst : Bool) : AllocationType × Bool → Nat
  | (.oop, false) => if oopsFirst then 0 else 9
  | (.word, true) => 1
  | (.short, true) => 2
  | (.byte, true) => 3
  | (.oop, true) => 4
  | (.double, false) => 5
  | (.word, false) => 6
  | (.short, false) => 7
  | (.byte, false) => 8
  | (.double, true) => 10

def areaBound : Nat → Nat
  | 0 => nextNonstaticFieldOffset c super d
  | 1 => doubleOffset c super d
  | 2 => doubleOffset c super d + (space c super d).count .word * 4
  | 3 => doubleOffset c super d + (space c super d).count .word * 4 + (space c super d).count .short * 2
  | 4 => doubleOffset c super d + (space c super d).count .word * 4 + (space c super d).count .short * 2 +
      (space c super d).count .byte
  | 5 => alignedDoubleOffset c super d
  | 6 => wordOffset c super d
  | 7 => shortOffset c super d
  | 8 => byteOffset c super d
  | 9 => bytesEnd c super d
  | _ + 10 => paddedOffset c super d

lemma areaPosition_injective (b) : Function.Injective (areaPosition b) := by
  rintro ⟨k, g⟩ ⟨k', g'⟩ h
  cases b <;> cases k <;> cases g <;> cases k' <;> cases g' <;> simp [areaPosition] at h ⊢

lemma bytesEnd_le_oopOffset (h : oopsFirst c super d = false) : bytesEnd c super d ≤ oopOffset c super d := by
  unfold oopOffset
  simp only [h, Bool.false_eq_true, if_false]
  split
  · exact le_alignSizeUp _ c.heapOopSize_pos
  · exact le_rfl

lemma bytesEnd_le_paddedOffset : bytesEnd c super d ≤ paddedOffset c super d := by
  unfold paddedOffset
  split
  · exact le_rfl
  next h =>
    have := bytesEnd_le_oopOffset c super d (Bool.eq_false_iff.mpr h)
    omega

lemma areaBound_le_succ (n) : areaBound c super d n ≤ areaBound c super d (n + 1) := by
  match n with
  | 0 =>
    change nextNonstaticFieldOffset c super d ≤ doubleOffset c super d
    unfold doubleOffset
    split
    · exact le_add_right _ _
    · exact le_rfl
  | 1 | 2 | 3 | 5 | 6 | 7 | 8 => exact le_add_right _ _
  | 4 => exact (space_fills c super d).fits
  | 9 => exact bytesEnd_le_paddedOffset c super d
  | _ + 10 => exact le_rfl

lemma areaBound_mono : Monotone (areaBound c super d) := monotone_nat_of_le_succ (areaBound_le_succ c super d)

lemma gapArea_fits {a} (hpos : 0 < (space c super d).count a) : (space c super d).offset a % c.size a = 0 ∧
      areaBound c super d (areaPosition (oopsFirst c super d) (a, true)) ≤ (space c super d).offset a ∧
      (space c super d).offset a + (space c super d).count a * c.size a ≤
        areaBound c super d (areaPosition (oopsFirst c super d) (a, true) + 1) := by
  have hgap := space_fills c super d
  have hmod := doubleOffset_mod_four c super d
  cases a with
  | oop =>
    obtain ⟨hoff, hb, hs, hw, hstop, hh⟩ := hgap.oop hpos
    simp only [areaPosition, areaBound, LayoutFlags.size, hh] at hstop ⊢
    omega
  | byte =>
    simp only [areaPosition, areaBound, LayoutFlags.size, hgap.byte hpos]
    omega
  | short =>
    simp only [areaPosition, areaBound, LayoutFlags.size, hgap.short hpos]
    omega
  | word =>
    simp only [areaPosition, areaBound, LayoutFlags.size, hgap.word hpos]
    omega
  | double => exact absurd hgap.double hpos.ne'

lemma mainArea_fits {a} (hpos : 0 < restCount c super d a) : (nonstaticCursor c super d).next a % c.size a = 0 ∧
      areaBound c super d (areaPosition (oopsFirst c super d) (a, false)) ≤ (nonstaticCursor c super d).next a ∧
      (nonstaticCursor c super d).next a + restCount c super d a * c.size a ≤
        areaBound c super d (areaPosition (oopsFirst c super d) (a, false) + 1) := by
  have hgap := space_fills c super d
  have hmod := doubleOffset_mod_four c super d
  have hdouble := alignedDoubleOffset_cases c super d
  cases a with
  | oop =>
    cases hfirst : oopsFirst c super d with
    | true =>
      have hstart : oopOffset c super d = nextNonstaticFieldOffset c super d := if_pos hfirst
      have hend : doubleOffset c super d = _ := if_pos hfirst
      refine ⟨(congrArg (· % _) hstart).trans (nextNonstaticFieldOffset_mod c super d), hstart.ge, ?_⟩
      change oopOffset c super d + _ * c.heapOopSize ≤ doubleOffset c super d
      rw [hstart, hend, restCount, hgap.oop_first hfirst, Nat.sub_zero]
    | false =>
      refine ⟨?_, bytesEnd_le_oopOffset c super d hfirst, ?_⟩
      · change oopOffset c super d % _ = 0
        simp only [oopOffset, hfirst, if_pos hpos]
        exact alignSizeUp_mod _ _
      · change _ ≤ paddedOffset c super d
        simp only [paddedOffset, hfirst]
        exact le_rfl
  | byte => exact ⟨mod_one _, le_rfl, by rw [LayoutFlags.size, mul_one]; exact le_rfl⟩
  | short =>
    refine ⟨?_, le_rfl, le_rfl⟩
    change shortOffset c super d % 2 = 0
    unfold shortOffset wordOffset
    omega
  | word =>
    refine ⟨?_, le_rfl, le_rfl⟩
    change wordOffset c super d % 4 = 0
    unfold wordOffset
    omega
  | double =>
    rw [restCount_double] at hpos ⊢
    refine ⟨?_, le_rfl, le_rfl⟩
    change alignedDoubleOffset c super d % 8 = 0
    rw [alignedDoubleOffset, if_pos hpos]
    exact alignSizeUp_mod _ _

lemma nonstaticCursor_roomy :
    (nonstaticCursor c super d).Roomy c.size (nonstaticCount d) (nextNonstaticFieldOffset c super d)
      (paddedOffset c super d) := by
  refine SlotCursor.Roomy.of_areas (areaPosition_injective (oopsFirst c super d)) (areaBound_mono c super d)
    (fun a => areaBound_mono c super d (zero_le _)) ?_ ?_
  · rintro ⟨k, g⟩
    have hle : areaPosition (oopsFirst c super d) (k, g) + 1 ≤ 11 := by
      cases oopsFirst c super d <;> cases k <;> cases g <;> simp [areaPosition]
    exact areaBound_mono c super d hle
  · rintro k (_ | _) hpos
    · exact mainArea_fits c super d hpos
    · exact gapArea_fits c super d hpos

lemma paddedOffset_le (hn : ∀ a, nonstaticCount d a ≤ d.fields.length) :
    paddedOffset c super d ≤ nextNonstaticFieldOffset c super d + 32 * d.fields.length + 16 := by
  have hdouble := alignedDoubleOffset_cases c super d
  have hrest : ∀ a, restCount c super d a ≤ d.fields.length := fun a => le_trans (sub_le _ _) (hn a)
  have hh : c.heapOopSize ≤ 8 := c.size_le .oop
  have hoops : nonstaticCount d .oop * c.heapOopSize ≤ d.fields.length * 8 := Nat.mul_le_mul (hn .oop) hh
  have hrestOops : restCount c super d .oop * c.heapOopSize ≤ d.fields.length * 8 := Nat.mul_le_mul (hrest .oop) hh
  have hend : bytesEnd c super d ≤ alignedDoubleOffset c super d + d.fields.length * 15 := by
    have := hn .double
    have := hrest .word
    have := hrest .short
    have := hrest .byte
    unfold bytesEnd byteOffset shortOffset wordOffset
    omega
  unfold paddedOffset
  split
  next hfirst =>
    rw [doubleOffset, if_pos hfirst] at hdouble
    omega
  rename_i hfirst
  rw [doubleOffset, if_neg hfirst] at hdouble
  have halign : oopOffset c super d ≤ bytesEnd c super d + 7 := by
    rw [oopOffset, if_neg hfirst]
    split
    · have := alignSizeUp_le (bytesEnd c super d) c.heapOopSize
      omega
    · exact le_add_right _ _
  omega

end Start

open Rolp.Lib FieldInfo FieldDecl List Nat
open Heap (alignSizeUp_mod alignSizeUp_le le_alignSizeUp)

/-! ## Oop maps -/

namespace OopMaps

def offsets (c : LayoutFlags) (m : OopMaps) : List Nat := m.blocks.flatMap (OopMapBlock.offsets c)

/-- `first` is the offset of the first block, and 0 while there is none. -/
def FirstSet (m : OopMaps) : Prop :=
  (m.blocks = [] ∧ m.first = 0) ∨ ∃ b bs, m.blocks = b :: bs ∧ m.first = b.offset ∧ m.first ≠ 0

lemma offsets_extend (c : LayoutFlags) (b : OopMapBlock) :
    OopMapBlock.offsets c ⟨b.offset, b.count + 1⟩ = b.offsets c ++ [b.offset + b.count * c.heapOopSize] := by
  simp [OopMapBlock.offsets, range_succ]

lemma create_offsets (c : LayoutFlags) (m : OopMaps) (o : Nat) : (m.create o).offsets c = m.offsets c ++ [o] := by
  simp [create, offsets, OopMapBlock.offsets]

lemma update_offsets (c : LayoutFlags) (m : OopMaps) (o : Nat) : (m.update c o).offsets c = m.offsets c ++ [o] := by
  unfold update
  split
  next b hlast =>
    split
    · have ho : o = b.offset + b.count * c.heapOopSize := by omega
      have hblocks := dropLast_append_getLast? b hlast
      simp only [offsets, flatMap_append, flatMap_cons, flatMap_nil, append_nil, offsets_extend]
      rw [← append_assoc, ← ho]
      congr 1
      nth_rewrite 2 [← hblocks]
      simp
    · exact create_offsets c m o
  · exact create_offsets c m o

lemma FirstSet.create {m : OopMaps} (h : m.FirstSet) {o : Nat} (ho : o ≠ 0) : (m.create o).FirstSet := by
  rcases h with ⟨hnil, hzero⟩ | ⟨b, bs, hcons, hfirst, hne⟩
  · refine .inr ⟨⟨o, 1⟩, [], by simp [OopMaps.create, hnil], by simp [OopMaps.create, hzero], ?_⟩
    simpa [OopMaps.create, hzero] using ho
  · refine .inr ⟨b, bs ++ [⟨o, 1⟩], by simp [OopMaps.create, hcons], ?_, ?_⟩
    · simpa [OopMaps.create, hne] using hfirst
    · simp [OopMaps.create, hne]

lemma FirstSet.update {c : LayoutFlags} {m : OopMaps} (h : m.FirstSet) {o : Nat} (ho : o ≠ 0) :
    (m.update c o).FirstSet := by
  unfold OopMaps.update
  split
  next b hlast =>
    split
    · rcases h with ⟨hnil, -⟩ | ⟨b', bs, hcons, hfirst, hne⟩
      · simp [hnil] at hlast
      rw [hcons] at hlast ⊢
      cases bs with
      | nil =>
        obtain rfl : b' = b := by simpa using hlast
        exact .inr ⟨_, [], rfl, hfirst, hne⟩
      | cons b'' bs => exact .inr ⟨b', _, rfl, hfirst, hne⟩
    · exact h.create ho
  · exact h.create ho

end OopMaps

/-! ## Fields that are not padded -/

def instanceFields (ps : List Placed) : List Placed := ps.filter fun p => !p.field.isStatic

def oopOffsets (ps : List Placed) : List Nat :=
  ((instanceFields ps).filter fun p => p.field.allocationType == .oop).map Placed.offset

def plainTypes (fs : List FieldDecl) : List AllocationType :=
  (fs.filter fun f => !f.isStatic && !f.isContended).map allocationType

lemma count_plainTypes (d a) : (plainTypes d.fields).count a = nonstaticCount d a := by
  unfold nonstaticCount facCount facContendedCount plainTypes
  generalize d.fields = fs
  induction fs with
  | nil => rfl
  | cons f fs ih =>
    have hle : fs.countP (fun f => f.isContended && (f.isStatic == false && f.allocationType == a)) ≤
        fs.countP (fun f => f.isStatic == false && f.allocationType == a) :=
      countP_mono_left fun f _ h => by simp_all
    rw [countP_cons, countP_cons, filter_cons]
    cases hs : f.isStatic with
    | true => simpa using ih
    | false =>
      cases hc : f.isContended with
      | true =>
        by_cases ha : f.allocationType = a
        · simpa [ha] using ih
        · simpa [ha] using ih
      | false =>
        by_cases ha : f.allocationType = a
        · simp only [Bool.not_false, Bool.and_self, if_true, map_cons, ha, count_cons_self]
          simp only [beq_self_eq_true, Bool.and_self, if_true, Bool.false_and, Bool.false_eq_true, if_false]
          omega
        · have hne : (f.allocationType == a) = false := by simpa using ha
          simp only [Bool.not_false, Bool.and_self, if_true, map_cons, count_cons, hne, ih]
          simp

variable {fs : List FieldDecl}

section Plain

variable (c : LayoutFlags)

lemma layoutPlain_fields (s fs) : (layoutPlain c s fs).2.map Placed.field = fs.filter fun f => !f.isPadded := by
  induction fs generalizing s with
  | nil => rfl
  | cons f fs ih =>
    rw [layoutPlain]
    split
    next h => rw [ih, filter_cons_of_neg (by simp [h])]
    next h => rw [filter_cons_of_pos (by simp [h]), map_cons, ih]

lemma layoutPlain_slots (s fs) :
    (instanceFields (layoutPlain c s fs).2).map (fun p => (p.field.allocationType, p.offset)) =
      s.nonstatic.takeAll c.size (plainTypes fs) := by
  induction fs generalizing s with
  | nil => rfl
  | cons f fs ih =>
    rw [layoutPlain]
    cases hs : f.isStatic with
    | true =>
      have hplain : plainTypes (f :: fs) = plainTypes fs := by simp [plainTypes, hs]
      have hpad : f.isPadded = false := by simp [isPadded, hs]
      simp only [hpad, Bool.false_eq_true, if_false, hplain, instanceFields, filter_cons, hs]
      exact (ih _).trans (by simp [place, hs])
    | false =>
      cases hc : f.isContended with
      | true =>
        have hplain : plainTypes (f :: fs) = plainTypes fs := by simp [plainTypes, hc]
        have hpad : f.isPadded = true := by simp [isPadded, hs, hc]
        rw [if_pos hpad, hplain, ih]
      | false =>
        have hplain : plainTypes (f :: fs) = f.allocationType :: plainTypes fs := by simp [plainTypes, hs, hc]
        have hpad : f.isPadded = false := by simp [isPadded, hc]
        simp only [hpad, Bool.false_eq_true, if_false, hplain, instanceFields, filter_cons, hs,
          Bool.not_false, if_true, map_cons]
        congr 1
        · simp [place, hs]
        · exact (ih _).trans (by simp [place, hs])

lemma layoutPlain_oops (s : Cursors) (fs : List FieldDecl) :
    (layoutPlain c s fs).1.oopMaps.offsets c = s.oopMaps.offsets c ++ oopOffsets (layoutPlain c s fs).2 := by
  induction fs generalizing s with
  | nil => simp [layoutPlain, oopOffsets, instanceFields]
  | cons f fs ih =>
    rw [layoutPlain]
    split
    · exact ih s
    · refine (ih _).trans ?_
      cases hs : f.isStatic with
      | true => simp [place, hs, oopOffsets, instanceFields]
      | false =>
        by_cases ha : f.allocationType = .oop
        · simp [place, hs, ha, oopOffsets, instanceFields, OopMaps.update_offsets]
        · simp [place, hs, ha, oopOffsets, instanceFields]

lemma layoutPlain_first {s : Cursors} (h : s.oopMaps.FirstSet)
    (hne : ∀ p ∈ instanceFields (layoutPlain c s fs).2, p.offset ≠ 0) : (layoutPlain c s fs).1.oopMaps.FirstSet := by
  induction fs generalizing s with
  | nil => exact h
  | cons f fs ih =>
    rw [layoutPlain] at hne ⊢
    split
    next hpad =>
      rw [if_pos hpad] at hne
      exact ih h hne
    rename_i hpad
    rw [if_neg hpad] at hne
    refine ih ?_ fun p hp => hne p ?_
    · cases hs : f.isStatic with
      | true => simpa [place, hs] using h
      | false =>
        have ho := hne ⟨f, (place c s f).1⟩ (by simp [instanceFields, hs])
        by_cases ha : f.allocationType = .oop
        · simp only [place, hs, ha] at ho ⊢
          exact h.update ho
        · simpa [place, hs, ha] using h
    · simp only [instanceFields, mem_filter, mem_cons] at hp ⊢
      exact ⟨.inr hp.1, hp.2⟩

end Plain

/-! ## Contended fields -/

section Padded

variable (c : LayoutFlags)

def Placed.stop (p : Placed) : Nat := p.offset + c.size p.field.allocationType

def neededGap (p q : Placed) : Nat :=
  if p.field.contendedGroup = q.field.contendedGroup ∧ p.field.contendedGroup ≠ some 0 then 0
  else c.contendedPaddingWidth

def FieldDecl.inGroup (group : Nat) (f : FieldDecl) : Bool := !f.isStatic && f.contendedGroup == some group

structure LaidOut (pad lo : Nat) (ps : List Placed) (hi : Nat) : Prop where
  le : lo ≤ hi
  aligned : ∀ p ∈ ps, p.offset % c.size p.field.allocationType = 0
  lower : ∀ p ∈ ps, lo ≤ p.offset
  upper : ∀ p ∈ ps, p.stop c + pad ≤ hi
  spaced : ps.Pairwise fun p q => p.stop c + neededGap c p q ≤ q.offset

lemma LaidOut.nil (pad lo) : LaidOut c pad lo [] lo where
  le := le_rfl
  aligned _ hp := absurd hp not_mem_nil
  lower _ hp := absurd hp not_mem_nil
  upper _ hp := absurd hp not_mem_nil
  spaced := List.Pairwise.nil

variable {c}

def groupPad (c : LayoutFlags) (group : Nat) : Nat := if group = 0 then c.contendedPaddingWidth else 0

lemma placePadded_next (group s f) : (placePadded c group s f).2.next =
      (placePadded c group s f).1 + c.size f.allocationType + groupPad c group := by
  unfold placePadded groupPad
  by_cases h : group = 0
  · simp [Padded.pad, h]
  · simp [h]

lemma placePadded_offset (group s f) : s.next ≤ (placePadded c group s f).1 ∧ (placePadded c group s f).1 ≤ s.next + 7 ∧
      (placePadded c group s f).1 % c.size f.allocationType = 0 := by
  have := alignSizeUp_le s.next (c.size f.allocationType)
  have := c.size_le f.allocationType
  refine ⟨le_alignSizeUp _ (c.size_pos _), ?_, alignSizeUp_mod _ _⟩
  change alignSizeUp _ _ ≤ _
  omega

lemma placePadded_oopMaps (group s f) : (placePadded c group s f).2.oopMaps =
      if f.allocationType = .oop then s.oopMaps.create (placePadded c group s f).1 else s.oopMaps := by
  unfold placePadded
  by_cases h : group = 0
  · simp [Padded.pad, h]
  · simp [h]

variable {group : Nat}

lemma layoutGroup_cons_out {f} (h : f.inGroup group = false) (s)
    (fs) : layoutGroup c group s (f :: fs) = layoutGroup c group s fs := by
  rw [layoutGroup, if_pos]
  cases hs : f.isStatic with
  | true => exact .inl rfl
  | false => exact .inr (by simpa [inGroup, hs] using h)

lemma layoutGroup_cons_in {f} (h : f.inGroup group = true) (s fs) : layoutGroup c group s (f :: fs) =
      ((layoutGroup c group (placePadded c group s f).2 fs).1,
        ⟨f, (placePadded c group s f).1⟩ :: (layoutGroup c group (placePadded c group s f).2 fs).2) := by
  simp only [inGroup, Bool.and_eq_true, Bool.not_eq_true', beq_iff_eq] at h
  rw [layoutGroup, if_neg (by simp [h.1, h.2])]

/-- The fields `ps` of a group are placed one after another. -/
inductive Placing (c : LayoutFlags) (group : Nat) : Padded → List Placed → Padded → Prop
  | nil (s : Padded) : Placing c group s [] s
  | cons {s s' : Padded} {f : FieldDecl} {ps : List Placed} (hf : f.inGroup group = true)
      (h : Placing c group (placePadded c group s f).2 ps s') :
      Placing c group s (⟨f, (placePadded c group s f).1⟩ :: ps) s'

lemma layoutGroup_placing (group s fs) : Placing c group s (layoutGroup c group s fs).2 (layoutGroup c group s fs).1 ∧
      (layoutGroup c group s fs).2.map Placed.field = fs.filter (inGroup group) := by
  induction fs generalizing s with
  | nil => exact ⟨.nil s, rfl⟩
  | cons f fs ih =>
    cases h : f.inGroup group with
    | true =>
      rw [layoutGroup_cons_in h, filter_cons_of_pos h, map_cons, (ih _).2]
      exact ⟨.cons h (ih _).1, rfl⟩
    | false =>
      rw [layoutGroup_cons_out h, filter_cons_of_neg (by simp [h])]
      exact ih s

def padGroup (c : LayoutFlags) (group : Nat) (s : Padded) : Padded :=
  if group ≠ 0 then s.pad c.contendedPaddingWidth else s

lemma padGroup_next (group s) : (padGroup c group s).next + groupPad c group = s.next + c.contendedPaddingWidth := by
  unfold padGroup groupPad
  by_cases h : group = 0
  · simp [h]
  · simp [h, Padded.pad]

lemma padGroup_oopMaps (group s) : (padGroup c group s).oopMaps = s.oopMaps := by
  unfold padGroup
  split
  · rfl
  · rfl

inductive PlacingGroups (c : LayoutFlags) (fs : List FieldDecl) : Padded → List Nat → List Placed → Padded → Prop
  | nil (s : Padded) : PlacingGroups c fs s [] [] s
  | cons {s s1 s' : Padded} {group : Nat} {groups : List Nat} {ps qs : List Placed} (h : Placing c group s ps s1)
      (hfields : ps.map Placed.field = fs.filter (inGroup group))
      (hrest : PlacingGroups c fs (padGroup c group s1) groups qs s') :
      PlacingGroups c fs s (group :: groups) (ps ++ qs) s'

lemma layoutGroups_placing (fs s groups) :
    PlacingGroups c fs s groups (layoutGroups c fs s groups).2 (layoutGroups c fs s groups).1 := by
  induction groups generalizing s with
  | nil => exact .nil s
  | cons group groups ih =>
    obtain ⟨hplacing, hfields⟩ := layoutGroup_placing group s fs
    exact .cons hplacing hfields (ih _)

variable {s s' : Padded} {ps : List Placed} {groups : List Nat}

lemma Placing.mem (h : Placing c group s ps s') : ∀ p ∈ ps, p.field.inGroup group = true := by
  induction h with
  | nil => exact fun p hp => absurd hp not_mem_nil
  | cons hf _ ih => exact forall_mem_cons.2 ⟨hf, ih⟩

lemma PlacingGroups.fields (h : PlacingGroups c fs s groups ps s') :
    ps.map Placed.field = groups.flatMap fun g => fs.filter (inGroup g) := by
  induction h with
  | nil => rfl
  | cons _ hfields _ ih => rw [map_append, hfields, ih, flatMap_cons]

lemma neededGap_of_inGroup {p q} (hp : p.field.inGroup group = true)
    (hq : q.field.inGroup group = true) : neededGap c p q = groupPad c group := by
  simp only [inGroup, Bool.and_eq_true, beq_iff_eq] at hp hq
  simp only [neededGap, groupPad, hp.2, hq.2]
  by_cases h : group = 0
  · simp [h]
  · simp [h]

lemma Placing.laidOut (h : Placing c group s ps s') : LaidOut c (groupPad c group) s.next ps s'.next := by
  induction h with
  | nil => exact LaidOut.nil c _ _
  | @cons s s' f ps hf h hrest =>
    obtain ⟨hlo, -, hmod⟩ := placePadded_offset group s f
    have hnext := placePadded_next (c := c) group s f
    have hle := hrest.le
    refine ⟨by omega, forall_mem_cons.2 ⟨hmod, hrest.aligned⟩, forall_mem_cons.2 ⟨hlo, fun p hp => ?_⟩,
      forall_mem_cons.2 ⟨?_, hrest.upper⟩, pairwise_cons.2 ⟨fun q hq => ?_, hrest.spaced⟩⟩
    · have := hrest.lower p hp
      omega
    · dsimp only [Placed.stop]
      omega
    · rw [neededGap_of_inGroup hf (h.mem q hq)]
      have := hrest.lower q hq
      dsimp only [Placed.stop]
      omega

lemma groupPad_le (c group) : groupPad c group ≤ c.contendedPaddingWidth := by
  unfold groupPad
  split
  · exact le_rfl
  · exact zero_le _

lemma PlacingGroups.laidOut (h : PlacingGroups c fs s groups ps s') :
    LaidOut c c.contendedPaddingWidth s.next ps s'.next := by
  induction h with
  | nil => exact LaidOut.nil c _ _
  | @cons s s1 s' group groups ps qs h _ _ hrest =>
    have hgroup := h.laidOut
    have hpad := padGroup_next (c := c) group s1
    have hle := hgroup.le
    have hle' := hrest.le
    have hgp := groupPad_le c group
    refine ⟨by omega, forall_mem_append.2 ⟨hgroup.aligned, hrest.aligned⟩,
      forall_mem_append.2 ⟨hgroup.lower, fun p hp => ?_⟩,
      forall_mem_append.2 ⟨fun p hp => ?_, hrest.upper⟩,
      pairwise_append.2 ⟨hgroup.spaced, hrest.spaced, fun p hp q hq => ?_⟩⟩
    · have := hrest.lower p hp
      omega
    · have := hgroup.upper p hp
      omega
    have := hgroup.upper p hp
    have := hrest.lower q hq
    have : neededGap c p q ≤ c.contendedPaddingWidth := by
      unfold neededGap
      split
      · exact zero_le _
      · exact le_rfl
    omega

/-! ### Oop maps of contended fields -/

lemma oopOffsets_append (ps qs) : oopOffsets (ps ++ qs) = oopOffsets ps ++ oopOffsets qs := by
  simp [oopOffsets, instanceFields]

lemma Placing.oops (h : Placing c group s ps s') : s'.oopMaps.offsets c = s.oopMaps.offsets c ++ oopOffsets ps := by
  induction h with
  | nil => simp [oopOffsets, instanceFields]
  | @cons s s' f ps hf _ ih =>
    have hs : f.isStatic = false := by
      simp only [inGroup, Bool.and_eq_true, Bool.not_eq_true'] at hf
      exact hf.1
    rw [ih, placePadded_oopMaps]
    by_cases ha : f.allocationType = .oop
    · simp [ha, hs, oopOffsets, instanceFields, OopMaps.create_offsets]
    · simp [ha, oopOffsets, instanceFields]

lemma PlacingGroups.oops (h : PlacingGroups c fs s groups ps s') :
    s'.oopMaps.offsets c = s.oopMaps.offsets c ++ oopOffsets ps := by
  induction h with
  | nil => simp [oopOffsets, instanceFields]
  | cons h _ _ ih => rw [ih, padGroup_oopMaps, h.oops, oopOffsets_append, append_assoc]

lemma Placing.first (h : Placing c group s ps s') (hfirst : s.oopMaps.FirstSet) (hpos : 0 < s.next) :
    s'.oopMaps.FirstSet := by
  induction h with
  | nil => exact hfirst
  | @cons s s' f ps _ _ ih =>
    have ho := (placePadded_offset (c := c) group s f).1
    have hnext := placePadded_next (c := c) group s f
    refine ih ?_ (by omega)
    rw [placePadded_oopMaps]
    split
    · exact hfirst.create (by omega)
    · exact hfirst

lemma PlacingGroups.first (h : PlacingGroups c fs s groups ps s') (hfirst : s.oopMaps.FirstSet)
    (hpos : 0 < s.next) : s'.oopMaps.FirstSet := by
  induction h with
  | nil => exact hfirst
  | @cons s s1 s' group groups ps qs h _ _ ih =>
    have hle := h.laidOut.le
    have hpad := padGroup_next (c := c) group s1
    have hgp := groupPad_le c group
    refine ih ?_ (by omega)
    rw [padGroup_oopMaps]
    exact h.first hfirst hpos

/-! ### How far the cursor moves -/

def GroupsNonempty (fs : List FieldDecl) (groups : List Nat) : Prop :=
  ∀ g ∈ groups, ∃ f ∈ fs, f.inGroup g = true

lemma GroupsNonempty.head (hne : GroupsNonempty fs (group :: groups))
    (hfields : ps.map Placed.field = fs.filter (inGroup group)) : ps ≠ [] := by
  obtain ⟨f, hf, hg⟩ := hne group mem_cons_self
  rintro rfl
  have hm : f ∈ fs.filter (inGroup group) := mem_filter.2 ⟨hf, hg⟩
  rw [← hfields] at hm
  exact absurd hm not_mem_nil

lemma Placing.next_le (h : Placing c group s ps s') : s'.next ≤ s.next + ps.length * (15 + groupPad c group) := by
  induction h with
  | nil => simp
  | @cons s s' f ps _ _ ih =>
    have hoff := placePadded_offset (c := c) group s f
    have hnext := placePadded_next (c := c) group s f
    have hsize := c.size_le f.allocationType
    simp only [length_cons, add_mul] at ih ⊢
    omega

lemma PlacingGroups.next_le (h : PlacingGroups c fs s groups ps s') (hne : GroupsNonempty fs groups) :
    s'.next ≤ s.next + ps.length * (15 + c.contendedPaddingWidth) := by
  induction h with
  | nil => simp
  | @cons s s1 s' group groups ps qs h hfields _ ih =>
    have hgroup := h.next_le
    have hpad := padGroup_next (c := c) group s1
    have hrest := ih fun g hg => hne g (mem_cons_of_mem _ hg)
    have hpos := length_pos_of_ne_nil (hne.head hfields)
    simp only [length_append, add_mul, mul_add] at hgroup hrest ⊢
    -- one padding for the group is paid by its first field
    have hwidth : ps.length * groupPad c group + c.contendedPaddingWidth ≤
        ps.length * c.contendedPaddingWidth + groupPad c group := by
      unfold groupPad
      split
      · exact le_refl _
      · have := Nat.le_mul_of_pos_left c.contendedPaddingWidth hpos
        omega
    omega

end Padded

/-! ## Packed offsets -/

lemma FieldInfo.setOffset_word (n) (h : n < 2 ^ 30) :
    ((setOffset n).high : Int) * 2 ^ 16 + (setOffset n).low = 4 * n + 1 := by
  have hmod : n * 4 % 2 ^ 32 = n * 4 := mod_eq_of_lt (by omega)
  have htag : n * 4 % 2 ^ 16 ||| 1 = n * 4 % 2 ^ 16 + 1 := by
    have hfour : n * 4 % 2 ^ 16 = 2 ^ 2 * (n % 2 ^ 14) := by omega
    rw [hfour]
    exact (two_pow_add_eq_or_of_lt (by decide) _).symm
  simp only [setOffset, hmod]
  omega

lemma FieldInfo.offset_setOffset {n} (h : n < 2 ^ 29) : (setOffset n).offset = n := by
  rw [offset, setOffset_word n (by omega), toJint, Int.bmod_eq_of_le (by omega) (by omega)]
  omega

end Rolp.ClassFile
