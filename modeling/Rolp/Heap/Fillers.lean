import Rolp.Lib.Jint
import Rolp.Lib.Tiling
import Mathlib.Tactic.IntervalCases

/-!
# Filler objects

`CollectedHeap` makes unused memory look like objects: an `int[]` if there is room for its header, and else an object
without fields.
-/

namespace Rolp.Heap

open Rolp.Lib List Nat

def alignSizeDown (size alignment : Nat) : Nat := size / alignment * alignment

/-- How objects are laid out on a 64-bit platform. `verify_object_alignment` accepts the powers of two from 8 to 256
bytes. -/
structure ObjectLayout where
  logMinObjAlignment : Nat
  useCompressedClassPointers : Bool
  log_le : logMinObjAlignment ≤ 5

def defaultLayout : ObjectLayout := ⟨0, true, by decide⟩

namespace ObjectLayout

variable (c : ObjectLayout)

def minObjAlignment : Nat := 2 ^ c.logMinObjAlignment

def alignObjectSize (size : Nat) : Nat := alignSizeUp size c.minObjAlignment

def headerSize : Nat := 16 / 8

def lengthOffsetInBytes : Nat := if c.useCompressedClassPointers then 12 else 16

/-- `arrayOopDesc::header_size(T_INT)` -/
def intArrayHeaderSize : Nat := alignSizeUp (c.lengthOffsetInBytes + 4) 8 / 8

/-- `max_array_length(T_INT)` -/
def maxIntArrayLength : Nat :=
  let maxElementWords := alignSizeDown ((2 ^ 64 - 1) / 8 - c.intArrayHeaderSize) c.minObjAlignment
  let maxElements := 8 * maxElementWords / 4
  if maxJint < maxElements then alignSizeDown (maxJint - c.intArrayHeaderSize) c.minObjAlignment else maxElements

def minFillSize : Nat := c.alignObjectSize headerSize

/-- `filler_array_hdr_size`, where `align_object_offset` aligns to `HeapWordsPerLong`. -/
def fillerArrayHdrSize : Nat := alignSizeUp c.intArrayHeaderSize 1

def fillerArrayMinSize : Nat := c.alignObjectSize c.fillerArrayHdrSize

def fillerArrayMaxSize : Nat := c.alignObjectSize (c.fillerArrayHdrSize + c.maxIntArrayLength / (8 / 4))

end ObjectLayout

/-! ## Fillers -/

inductive Filler where
  | array (length : Int)
  | object
  deriving DecidableEq

/-- `oopDesc::size()` of a filler, with the conversions of `size_given_klass`. -/
def Filler.size (c : ObjectLayout) : Filler → Int
  | .object => c.alignObjectSize ObjectLayout.headerSize
  | .array length =>
    let arrayLength := (length % 2 ^ 64).toNat
    let sizeInBytes := (arrayLength * 4 + c.intArrayHeaderSize * 8) % 2 ^ 64
    toJint ((alignSizeUp sizeInBytes (c.minObjAlignment * 8) / 8 : Nat) : Int)

section Fill

variable (c : ObjectLayout)

def fillWithArray (start words : Nat) : Nat × Filler :=
  let payloadSize := words - c.fillerArrayHdrSize
  let len := payloadSize * 8 / 4
  (start, .array (toJint len))

def fillWithObjectImpl (start words : Nat) : List (Nat × Filler) :=
  if c.fillerArrayMinSize ≤ words then [fillWithArray c start words]
  else if 0 < words then [(start, .object)] else []

end Fill

/-! ## The sizes of every layout -/

namespace ObjectLayout

structure SizeFacts (c : ObjectLayout) : Prop where
  alignment_pos : 0 < c.minObjAlignment
  minFill_pos : 0 < c.minFillSize
  minFill_aligned : c.minFillSize % c.minObjAlignment = 0
  arrayMin_aligned : c.fillerArrayMinSize % c.minObjAlignment = 0
  arrayMax_aligned : c.fillerArrayMaxSize % c.minObjAlignment = 0
  hdr_eq : c.fillerArrayHdrSize = c.intArrayHeaderSize
  hdr_le : c.fillerArrayHdrSize ≤ c.fillerArrayMinSize
  minFill_le : c.minFillSize ≤ c.fillerArrayMinSize
  /-- No aligned size lies strictly between the smallest filler and the smallest array. -/
  arrayMin_le : c.fillerArrayMinSize ≤ c.minFillSize + c.minObjAlignment
  room : c.fillerArrayMinSize + c.minFillSize ≤ c.fillerArrayMaxSize
  arrayMax_lt : c.fillerArrayMaxSize < 2 ^ 31
  below_max : 2 * (c.fillerArrayMaxSize - c.minObjAlignment - c.fillerArrayHdrSize) ≤ maxJint

lemma sizeFacts (c : ObjectLayout) : c.SizeFacts := by
  obtain ⟨k, compressed, hk⟩ := c
  cases compressed <;> interval_cases k <;> constructor <;> decide +revert

lemma maxLength_fits_iff (c : ObjectLayout) : 2 * (c.fillerArrayMaxSize - c.fillerArrayHdrSize) ≤ maxJint ↔
      ¬(c.minObjAlignment = 4 ∧ c.useCompressedClassPointers = false) := by
  obtain ⟨k, compressed, hk⟩ := c
  cases compressed <;> interval_cases k <;> decide +revert

end ObjectLayout

def fillWithObjects (c : ObjectLayout) (start words : Nat) : List (Nat × Filler) :=
  if c.fillerArrayMaxSize < words then
    let cur :=
      if c.minFillSize ≤ words - c.fillerArrayMaxSize then c.fillerArrayMaxSize
      else c.fillerArrayMaxSize - c.minFillSize
    fillWithArray c start cur :: fillWithObjects c (start + cur) (words - cur)
  else fillWithObjectImpl c start words
termination_by words
decreasing_by
  have := c.sizeFacts.room
  have := c.sizeFacts.minFill_pos
  have := c.sizeFacts.minFill_le
  split <;> omega

/-! ## One filler -/

lemma alignSizeUp_of_mod {size alignment} (hpos : 0 < alignment) (h : size % alignment = 0) :
    alignSizeUp size alignment = size := by
  obtain ⟨k, rfl⟩ := dvd_of_mod_eq_zero h
  unfold alignSizeUp
  rw [mul_add_div hpos, div_eq_of_lt (by omega), add_zero, mul_comm]

lemma alignSizeUp_mod (size alignment) : alignSizeUp size alignment % alignment = 0 := mul_mod_left _ _

lemma alignSizeUp_mono {size size'} (h : size ≤ size') (alignment) :
    alignSizeUp size alignment ≤ alignSizeUp size' alignment :=
  mul_le_mul_right _ (Nat.div_le_div_right (Nat.add_le_add_right h _))

lemma le_alignSizeUp (size) {alignment} (hpos : 0 < alignment) : size ≤ alignSizeUp size alignment := by
  have h : (size + (alignment - 1)) / alignment * alignment = _ - _ := div_mul_self_eq_mod_sub_self
  have := mod_lt (size + (alignment - 1)) hpos
  unfold alignSizeUp
  omega

lemma alignSizeUp_le (size alignment) : alignSizeUp size alignment ≤ size + (alignment - 1) := div_mul_le_self _ _

variable {c : ObjectLayout} {start words : Nat}

lemma fillWithArray_eq (hfits : 2 * (words - c.fillerArrayHdrSize) ≤ maxJint) :
    fillWithArray c start words = (start, .array (2 * (words - c.fillerArrayHdrSize) : Nat)) := by
  have hlen : (words - c.fillerArrayHdrSize) * 8 / 4 = 2 * (words - c.fillerArrayHdrSize) := by omega
  simp only [fillWithArray, hlen, toJint_of_le hfits]

lemma array_size (haligned : words % c.minObjAlignment = 0) (hhdr : c.fillerArrayHdrSize ≤ words)
    (hlt : words < 2 ^ 31) : (Filler.array (2 * (words - c.fillerArrayHdrSize) : Nat)).size c = words := by
  have hbytes : (((2 * (words - c.fillerArrayHdrSize) : Nat) : Int) % 2 ^ 64).toNat * 4 + c.intArrayHeaderSize * 8 =
      words * 8 := by
    rw [← c.sizeFacts.hdr_eq]
    omega
  have halign : words * 8 % (c.minObjAlignment * 8) = 0 := by rw [mul_mod_mul_right, haligned]
  have hpos : 0 < c.minObjAlignment * 8 := mul_pos c.sizeFacts.alignment_pos (by decide)
  have hsmall : words * 8 % 2 ^ 64 = words * 8 := mod_eq_of_lt (by omega)
  simp only [Filler.size, hbytes, hsmall, alignSizeUp_of_mod hpos halign]
  rw [Nat.mul_div_cancel words (by decide), toJint_of_le (by unfold maxJint; omega)]

structure Fillable (c : ObjectLayout) (words : Nat) : Prop where
  aligned : words % c.minObjAlignment = 0
  min_le : c.minFillSize ≤ words
  le_max : words ≤ c.fillerArrayMaxSize
  fits : 2 * (words - c.fillerArrayHdrSize) ≤ maxJint

def SoundFiller (c : ObjectLayout) (words : Nat) (f : Filler) : Prop :=
  f.size c = words ∧
    ∀ length, f = .array length → 0 ≤ length ∧ c.fillerArrayMinSize ≤ words ∧ words ≤ c.fillerArrayMaxSize

lemma Fillable.array (h : Fillable c words) (start : Nat) (hmin : c.fillerArrayMinSize ≤ words) :
    ∃ f, fillWithArray c start words = (start, f) ∧ SoundFiller c words f := by
  have hhdr := le_trans c.sizeFacts.hdr_le hmin
  have hlt := lt_of_le_of_lt h.le_max c.sizeFacts.arrayMax_lt
  refine ⟨_, fillWithArray_eq h.fits, array_size h.aligned hhdr hlt, fun length hlength => ?_⟩
  cases hlength
  exact ⟨Int.natCast_nonneg _, hmin, h.le_max⟩

lemma aligned_eq_minFill (haligned : words % c.minObjAlignment = 0) (hmin : c.minFillSize ≤ words)
    (hlt : words < c.fillerArrayMinSize) : words = c.minFillSize := by
  have hfacts := c.sizeFacts
  obtain ⟨i, hi⟩ := dvd_of_mod_eq_zero haligned
  obtain ⟨j, hj⟩ := dvd_of_mod_eq_zero hfacts.minFill_aligned
  have hle : c.fillerArrayMinSize ≤ c.minObjAlignment * (j + 1) := by
    rw [mul_add, ← hj, mul_one]
    exact hfacts.arrayMin_le
  have hij : i < j + 1 := by
    refine Nat.lt_of_mul_lt_mul_left (a := c.minObjAlignment) ?_
    rw [← hi]
    exact lt_of_lt_of_le hlt hle
  have hji : j ≤ i := by
    refine le_of_mul_le_mul_left ?_ hfacts.alignment_pos
    rw [← hi, ← hj]
    exact hmin
  rw [hi, hj, Nat.le_antisymm (Nat.lt_succ_iff.1 hij) hji]

lemma Fillable.object_impl (h : Fillable c words) (start : Nat) :
    ∃ f, fillWithObjectImpl c start words = [(start, f)] ∧ SoundFiller c words f := by
  unfold fillWithObjectImpl
  by_cases hmin : c.fillerArrayMinSize ≤ words
  · obtain ⟨f, hf, hsound⟩ := h.array start hmin
    exact ⟨f, by rw [if_pos hmin, hf], hsound⟩
  · have hpos := lt_of_lt_of_le c.sizeFacts.minFill_pos h.min_le
    refine ⟨.object, by rw [if_neg hmin, if_pos hpos], ?_, by simp⟩
    exact congrArg Nat.cast (aligned_eq_minFill h.aligned h.min_le (Nat.lt_of_not_le hmin)).symm

/-! ## A range of any size -/

/-- The fillers cover the range, the arrays among them have a valid size and length, and the last one is large
enough. -/
structure FillsRange (c : ObjectLayout) (start words : Nat) (fillers : List (Nat × Filler)) : Prop where
  tiles : Tiles start (fillers.map fun p => (p.1, (p.2.size c).toNat)) (start + words)
  arrays : ∀ p ∈ fillers, ∀ length, p.2 = .array length →
    0 ≤ length ∧ c.fillerArrayMinSize ≤ p.2.size c ∧ p.2.size c ≤ c.fillerArrayMaxSize
  last : ∃ p, fillers.getLast? = some p ∧ c.minFillSize ≤ p.2.size c

lemma SoundFiller.arrays {f} (h : SoundFiller c words f) (length) (hf : f = .array length) :
    0 ≤ length ∧ (c.fillerArrayMinSize : Int) ≤ f.size c ∧ f.size c ≤ c.fillerArrayMaxSize := by
  obtain ⟨hsize, harray⟩ := h
  obtain ⟨hnonneg, hmin, hmax⟩ := harray length hf
  rw [hsize]
  exact ⟨hnonneg, Int.ofNat_le.2 hmin, Int.ofNat_le.2 hmax⟩

lemma FillsRange.single (h : Fillable c words) : FillsRange c start words (fillWithObjectImpl c start words) := by
  obtain ⟨f, hf, hsound⟩ := h.object_impl start
  rw [hf]
  have hpos := lt_of_lt_of_le c.sizeFacts.minFill_pos h.min_le
  refine ⟨?_, ?_, ⟨(start, f), rfl, ?_⟩⟩
  · simp [hsound.1, hpos]
  · intro p hp
    cases mem_singleton.1 hp
    exact hsound.arrays
  · rw [hsound.1]
    exact Int.ofNat_le.2 h.min_le

lemma FillsRange.cons {cur rest} (h : Fillable c cur)
    (hmin : c.fillerArrayMinSize ≤ cur) (hcur : cur ≤ words) (hrest : FillsRange c (start + cur) (words - cur) rest) :
    FillsRange c start words (fillWithArray c start cur :: rest) := by
  obtain ⟨f, hf, hsound⟩ := h.array start hmin
  rw [hf]
  have hpos := lt_of_lt_of_le c.sizeFacts.minFill_pos h.min_le
  obtain ⟨p, hp, hlast⟩ := hrest.last
  refine ⟨?_, ?_, p, ?_, hlast⟩
  · have htiles := hrest.tiles
    rw [add_assoc, Nat.add_sub_cancel' hcur] at htiles
    simpa [hsound.1, hpos] using htiles
  · intro q hq
    rcases mem_cons.1 hq with rfl | hq
    · exact hsound.arrays
    · exact hrest.arrays q hq
  · rw [getLast?_cons, hp]
    rfl

lemma cur_facts {cur} (haligned : words % c.minObjAlignment = 0) (hgt : c.fillerArrayMaxSize < words)
    (hcur : cur = if c.minFillSize ≤ words - c.fillerArrayMaxSize then c.fillerArrayMaxSize
      else c.fillerArrayMaxSize - c.minFillSize) :
    cur % c.minObjAlignment = 0 ∧ c.fillerArrayMinSize ≤ cur ∧ cur ≤ c.fillerArrayMaxSize ∧
      (words - cur) % c.minObjAlignment = 0 ∧ c.minFillSize ≤ words - cur := by
  have hfacts := c.sizeFacts
  have hroom := hfacts.room
  have hcur_aligned : cur % c.minObjAlignment = 0 := by
    rw [hcur]
    split
    · exact hfacts.arrayMax_aligned
    · exact sub_mod_eq_zero_of_mod_eq (hfacts.arrayMax_aligned.trans hfacts.minFill_aligned.symm)
  have hrest : (words - cur) % c.minObjAlignment = 0 := sub_mod_eq_zero_of_mod_eq (haligned.trans hcur_aligned.symm)
  refine ⟨hcur_aligned, ?_, ?_, hrest, ?_⟩ <;> rw [hcur] <;> split <;> omega

lemma fillWithObjects_covers (hlayout : ¬(c.minObjAlignment = 4 ∧ c.useCompressedClassPointers = false))
    (haligned : words % c.minObjAlignment = 0) (hmin : c.minFillSize ≤ words) :
    FillsRange c start words (fillWithObjects c start words) := by
  have hfits := c.maxLength_fits_iff.2 hlayout
  induction words using Nat.strong_induction_on generalizing start with
  | _ words ih =>
    unfold fillWithObjects
    by_cases hgt : c.fillerArrayMaxSize < words
    · rw [if_pos hgt]
      obtain ⟨hcur, hcur_min, hcur_max, hrest, hrest_min⟩ := cur_facts haligned hgt rfl
      have hminFill := c.sizeFacts.minFill_le
      have hpos := c.sizeFacts.minFill_pos
      refine .cons ⟨hcur, by omega, hcur_max, by omega⟩ hcur_min (by omega) (ih _ (by omega) hrest hrest_min)
    · rw [if_neg hgt]
      exact .single ⟨haligned, hmin, by omega, by omega⟩

lemma fillable_of_lt_max (haligned : words % c.minObjAlignment = 0) (hmin : c.minFillSize ≤ words)
    (hlt : words < c.fillerArrayMaxSize) : Fillable c words := by
  have hfacts := c.sizeFacts
  have hle : words + c.minObjAlignment ≤ c.fillerArrayMaxSize := by
    obtain ⟨i, hi⟩ := dvd_of_mod_eq_zero haligned
    obtain ⟨j, hj⟩ := dvd_of_mod_eq_zero hfacts.arrayMax_aligned
    have hij : i < j := by
      refine Nat.lt_of_mul_lt_mul_left (a := c.minObjAlignment) ?_
      rw [← hi, ← hj]
      exact hlt
    rw [hi, hj]
    exact mul_le_mul_left _ hij
  have := hfacts.below_max
  exact ⟨haligned, hmin, by omega, by omega⟩

def alignedTo32 : ObjectLayout := ⟨2, false, by decide⟩

lemma eq_alignedTo32 (hfour : c.minObjAlignment = 4) (hclass : c.useCompressedClassPointers = false) :
    c = alignedTo32 := by
  obtain ⟨k, compressed, hk⟩ := c
  cases hclass
  have hk2 : k = 2 := Nat.pow_right_injective (le_refl 2) hfour
  subst hk2
  rfl

lemma fillWithArray_negative (start) :
    (fillWithArray alignedTo32 start alignedTo32.fillerArrayMaxSize).2 = .array (-(2 ^ 31 - 2)) :=
  congrArg Filler.array (by decide)

lemma fillWithObjects_negative (start words : Nat) (haligned : words % alignedTo32.minObjAlignment = 0)
    (hge : alignedTo32.fillerArrayMaxSize ≤ words) :
    fillWithArray alignedTo32 start alignedTo32.fillerArrayMaxSize ∈ fillWithObjects alignedTo32 start words := by
  unfold fillWithObjects
  by_cases hgt : alignedTo32.fillerArrayMaxSize < words
  · have hmax : alignedTo32.fillerArrayMaxSize % 4 = 0 := alignedTo32.sizeFacts.arrayMax_aligned
    have hwords : words % 4 = 0 := haligned
    have hmin : alignedTo32.minFillSize = 4 := by decide
    have hfull : alignedTo32.minFillSize ≤ words - alignedTo32.fillerArrayMaxSize := by omega
    rw [if_pos hgt, if_pos hfull]
    exact mem_cons_self
  · have heq : words = alignedTo32.fillerArrayMaxSize := by omega
    have harray : alignedTo32.fillerArrayMinSize ≤ words := by
      have := alignedTo32.sizeFacts.room
      omega
    rw [fillWithObjectImpl, heq]
    exact mem_singleton_self _

/-- `fill_with_objects` fills every range, except one at least as large as the largest filler array with an object
alignment of 32 bytes and uncompressed class pointers: the length of that array is not an `int`. -/
theorem fillWithObjects_covers_iff (c : ObjectLayout) (start words : Nat)
    (haligned : words % c.minObjAlignment = 0) (hmin : c.minFillSize ≤ words) :
    FillsRange c start words (fillWithObjects c start words) ↔
      ¬(c.minObjAlignment = 4 ∧ c.useCompressedClassPointers = false) ∨ words < c.fillerArrayMaxSize := by
  constructor
  · intro hfills
    by_contra hcontra
    obtain ⟨⟨hfour, hclass⟩, hge⟩ := not_or.1 hcontra |>.imp not_not.1 not_lt.1
    obtain rfl := eq_alignedTo32 hfour hclass
    have hnonneg :=
      (hfills.arrays _ (fillWithObjects_negative start words haligned hge) _ (fillWithArray_negative start)).1
    exact absurd hnonneg (by decide)
  · rintro (hlayout | hlt)
    · exact fillWithObjects_covers hlayout haligned hmin
    · unfold fillWithObjects
      rw [if_neg (by omega)]
      exact .single (fillable_of_lt_max haligned hmin hlt)

theorem fillWithObjects_covers_iff_example :
    (ObjectLayout.mk 0 true (by decide)).fillerArrayMaxSize < 2 ^ 31 ∧
      FillsRange ⟨0, true, by decide⟩ 100 (2 ^ 31) (fillWithObjects ⟨0, true, by decide⟩ 100 (2 ^ 31)) :=
  ⟨by decide,
    (fillWithObjects_covers_iff ⟨0, true, by decide⟩ 100 (2 ^ 31) (by decide) (by decide)).2 (.inl (by decide))⟩

/-- Filling 8 GiB and 32 bytes with an object alignment of 32 bytes writes an array of negative length. -/
theorem fillWithObjects_alignedTo32 :
    ¬FillsRange alignedTo32 0 (2 ^ 30 + 4) (fillWithObjects alignedTo32 0 (2 ^ 30 + 4)) := by
  intro hfills
  have hmem := fillWithObjects_negative 0 (2 ^ 30 + 4) (by decide) (by decide)
  have hnonneg := (hfills.arrays _ hmem _ (fillWithArray_negative 0)).1
  exact absurd hnonneg (by decide)

end Rolp.Heap
