import Rolp.Mark.Word

/-!
# Independence of the fields of the mark word

A mark word goes through any sequence of field writes.
-/

namespace Rolp.Mark

open Rolp.Lib BitVec MarkField

/-! ## Sequences of field writes -/

/-- One call of a field writer. A tag is never 0: `set_ng2c_prof(0)` writes nothing. -/
inductive FieldWrite where
  | setAge (v : BitVec 32)
  | incrAge
  | copySetHash (h : BitVec 64)
  | setNg2cProf (v : BitVec 32) (hv : v ≠ 0)

variable (m : MarkOop)

def FieldWrite.apply : FieldWrite → MarkOop
  | .setAge v => Mark.setAge m v
  | .incrAge => Mark.incrAge m
  | .copySetHash h => Mark.copySetHash m h
  | .setNg2cProf v _ => Mark.setNg2cProf m v

def applyWrites (ws : List FieldWrite) : MarkOop := ws.foldl FieldWrite.apply m

structure Fields where
  age : BitVec 32
  hash : BitVec 64
  ng2cProf : BitVec 32
  deriving DecidableEq

def fieldsOf : Fields := ⟨age m, hash m, ng2cProf m⟩

def Fields.write (f : Fields) : FieldWrite → Fields
  | .setAge v => { f with age := v &&& maxAge }
  | .incrAge => { f with age := if f.age = maxAge then f.age else f.age + 1 }
  | .copySetHash h => { f with hash := h &&& hashMask }
  | .setNg2cProf v _ => { f with ng2cProf := v }

def lastWritten (ws : List FieldWrite) : Fields := ws.foldl Fields.write (fieldsOf m)

def FieldsKept (ws : List FieldWrite) : Prop :=
  fieldsOf (applyWrites m ws) = lastWritten m ws ∧ lockAndBias (applyWrites m ws) = lockAndBias m

instance (m : MarkOop) (ws : List FieldWrite) : Decidable (FieldsKept m ws) :=
  inferInstanceAs (Decidable (_ ∧ _))

/-! ## One write -/

def Fields.word (f : Fields) : MarkField → BitVec 64
  | .age => f.age.setWidth 64
  | .hash => f.hash
  | .ng2cProf => f.ng2cProf.setWidth 64

def Fields.Fit (f : Fields) : Prop := ∀ k, f.word k &&& lowMask 64 k.place.width = f.word k

lemma fieldsOf_word (m) : (fieldsOf m).word = fun k => k.place.read m := by
  funext k
  have hr := k.place.read_eq_and_lowMask m
  cases k with
  | age => rw [fieldsOf]; exact setWidth_setWidth_of_lowMask (by decide) hr
  | hash => exact hash_eq_read m
  | ng2cProf => rw [fieldsOf]; exact setWidth_setWidth_of_lowMask (by decide) hr

lemma fieldsOf_fit (m) : (fieldsOf m).Fit := by
  intro k
  rw [fieldsOf_word]
  exact k.place.read_eq_and_lowMask m

lemma Fields.word_injective : Function.Injective Fields.word := by
  intro f g h
  have widen : ∀ {x y : BitVec 32}, x.setWidth 64 = y.setWidth 64 → x = y := by
    intro x y hxy
    have := congrArg (setWidth 32) hxy
    simpa using this
  obtain ⟨a, x, p⟩ := f
  obtain ⟨a', x', p'⟩ := g
  have ha := widen (congrFun h .age)
  have hx : x = x' := congrFun h .hash
  have hp := widen (congrFun h .ng2cProf)
  simp_all

lemma age_succ_and {a} (hfit : a.setWidth 64 &&& lowMask 64 ageBits = a.setWidth 64)
    (hne : a ≠ maxAge) : (a + 1).setWidth 64 &&& lowMask 64 ageBits = (a + 1).setWidth 64 := by
  have hlt : a.toNat < 16 := by
    have h := congrArg BitVec.toNat hfit
    rw [toNat_and, ← ageMask_eq, show ageMask.toNat = 2 ^ 4 - 1 from rfl, Nat.and_two_pow_sub_one_eq_mod] at h
    simp only [toNat_setWidth] at h
    omega
  have hne' : a.toNat ≠ 15 := fun h => hne (eq_of_toNat_eq h)
  apply eq_of_toNat_eq
  rw [toNat_and, ← ageMask_eq, show ageMask.toNat = 2 ^ 4 - 1 from rfl, Nat.and_two_pow_sub_one_eq_mod]
  rw [toNat_setWidth, toNat_add, show BitVec.toNat 1 = 1 from rfl]
  omega

variable {m : MarkOop} {f : Fields}

lemma FieldWrite.apply_eq_write (w) (hfit : f.Fit) (hage : w = .incrAge → age m = f.age) :
    (w.apply m = m ∧ f.write w = f) ∨ ∃ k v, w.apply m = k.place.write m v ∧
        (f.write w).word = Function.update f.word k (v &&& lowMask 64 k.place.width) := by
  cases w with
  | setAge v =>
    refine .inr ⟨.age, v.setWidth 64, setAge_eq_write m v, ?_⟩
    funext k
    cases k <;> rfl
  | incrAge =>
    have ha := hage rfl
    by_cases hmax : f.age = maxAge
    · refine .inl ⟨?_, ?_⟩
      · simp [FieldWrite.apply, Mark.incrAge, ha, hmax]
      · rw [Fields.write, if_pos hmax]
    refine .inr ⟨.age, (f.age + 1).setWidth 64, ?_, ?_⟩
    · rw [FieldWrite.apply, Mark.incrAge, ha, if_neg hmax]
      exact setAge_eq_write m _
    · funext k
      cases k with
      | age =>
        simp only [Fields.write, hmax]
        exact (age_succ_and (hfit .age) hmax).symm
      | hash => rfl
      | ng2cProf => rfl
  | copySetHash h =>
    refine .inr ⟨.hash, h, copySetHash_eq_write m h, ?_⟩
    funext k
    cases k <;> rfl
  | setNg2cProf v hv =>
    refine .inr ⟨.ng2cProf, v.setWidth 64, setNg2cProf_eq_write m hv, ?_⟩
    funext k
    cases k <;> first | rfl | exact (setWidth_and_lowMask (by decide)).symm

/-! ## Any sequence of writes -/

/-- What a word and a record have in common over the writes: every bit of a field comes from one of the fields over it,
the values fit, and the lock and bias bits are those of `m0`. -/
structure Tracks (m0 m : MarkOop) (f : Fields) : Prop where
  explained : Explained place m f.word
  fit : f.Fit
  lockAndBias : lockAndBias m = lockAndBias m0

lemma tracks_refl (m) : Tracks m m (fieldsOf m) where
  explained := by
    rw [fieldsOf_word]
    exact explained_read m
  fit := fieldsOf_fit m
  lockAndBias := rfl

variable {m0 : MarkOop}

lemma Tracks.age_eq (h : Tracks m0 m f) : age m = f.age := by
  have hread : MarkField.age.place.read m = f.word .age := by
    apply eq_of_getLsbD_eq
    intro i hi
    rw [BitField.getLsbD_read, ← h.fit .age, getLsbD_and, getLsbD_lowMask]
    by_cases hw : i < MarkField.age.place.width
    · have hi4 : i < 4 := hw
      obtain ⟨k, hk, hx⟩ := h.explained (MarkField.age.place.shift + i)
        (show 3 + i < 64 by omega) ⟨.age, Nat.le_add_right _ _, Nat.add_lt_add_left hw _⟩
      have hage : k = .age := by
        have hk1 : k.place.shift ≤ 3 + i := hk.1
        cases k with
        | age => rfl
        | hash => exact absurd (show 8 ≤ 3 + i from hk1) (by omega)
        | ng2cProf => exact absurd (show 32 ≤ 3 + i from hk1) (by omega)
      subst hage
      rw [hx]
      simp [hw, hi]
    · simp [hw]
  rw [age_eq_read, hread]
  simp [Fields.word]

lemma Tracks.write (h : Tracks m0 m f) (w) : Tracks m0 (w.apply m) (f.write w) := by
  obtain ⟨hm, hf⟩ | ⟨k, v, hm, hf⟩ := w.apply_eq_write h.fit (fun _ => h.age_eq)
  · rwa [hm, hf]
  refine ⟨?_, ?_, ?_⟩
  · rw [hm, hf]
    exact h.explained.write k v
  · intro l
    rw [hf]
    by_cases hl : l = k
    · subst hl
      simp [BitVec.and_assoc]
    · simpa [hl] using h.fit l
  · rw [hm, lockAndBias_write]
    exact h.lockAndBias

lemma tracks_foldl (ws : List FieldWrite) (h : Tracks m0 m f) :
    Tracks m0 (ws.foldl FieldWrite.apply m) (ws.foldl Fields.write f) := by
  induction ws generalizing m f with
  | nil => exact h
  | cons w ws ih => exact ih (h.write w)

lemma Tracks.fieldsOf_eq_iff (h : Tracks m0 m f) : fieldsOf m = f ↔ AgreeOnOverlaps place f.word := by
  rw [← h.explained.read_eq_iff place_fits h.fit, ← Fields.word_injective.eq_iff, fieldsOf_word]
  exact funext_iff

def Fields.SharedBitsAgree (f : Fields) : Prop := f.hash >>> 24 = (f.ng2cProf &&& 0x7f).setWidth 64

instance (f : Fields) : Decidable f.SharedBitsAgree := inferInstanceAs (Decidable (_ = _))

lemma getLsbD_sevenBits (x : BitVec 32) (i : Nat) :
    ((x &&& 0x7f).setWidth 64).getLsbD i = (decide (i < 7) && x.getLsbD i) := by
  rw [show 0x7f = lowMask 32 7 from rfl]
  simp only [getLsbD_setWidth, getLsbD_and, getLsbD_lowMask]
  by_cases h : i < 7
  · simp [h, show i < 64 by omega, show i < 32 by omega]
  · simp [h]

lemma Fields.Fit.getLsbD_hash (h : f.Fit) (i) (hi : 31 ≤ i) : f.hash.getLsbD i = false := by
  have hh : f.hash &&& lowMask 64 31 = f.hash := h .hash
  rw [← hh, getLsbD_and, getLsbD_lowMask]
  simp [show ¬ i < 31 by omega]

lemma agreeOnOverlaps_iff (hfit : f.Fit) : AgreeOnOverlaps place f.word ↔ f.SharedBitsAgree := by
  have cover : ∀ (k : MarkField) i, k.place.Covers i ↔
      match k with
      | .age => 3 ≤ i ∧ i < 7
      | .hash => 8 ≤ i ∧ i < 39
      | .ng2cProf => 32 ≤ i ∧ i < 64 := by
    intro k i
    cases k <;> exact .rfl
  have tagBit : ∀ i, i < 64 → (f.word .ng2cProf).getLsbD i = f.ng2cProf.getLsbD i := by
    intro i hi
    simp [Fields.word, hi]
  constructor
  · intro h
    apply eq_of_getLsbD_eq
    intro i hi
    rw [getLsbD_sevenBits]
    by_cases h7 : i < 7
    · have := h .hash .ng2cProf (32 + i) (by omega) ((cover _ _).2 ⟨by omega, by omega⟩)
        ((cover _ _).2 ⟨by omega, by omega⟩)
      rw [show 32 + i - MarkField.ng2cProf.place.shift = i from Nat.add_sub_cancel_left 32 i, tagBit i hi,
        show 32 + i - MarkField.hash.place.shift = 24 + i from by
          show 32 + i - 8 = 24 + i
          omega] at this
      simpa [h7, Fields.word] using this
    · simpa [h7] using hfit.getLsbD_hash (24 + i) (by omega)
  · intro h
    -- Only the hash and the tag have bits in common.
    have shared : ∀ i, 32 ≤ i → i < 39 → f.hash.getLsbD (i - 8) = (f.word .ng2cProf).getLsbD (i - 32) := by
      intro i h1 h2
      have hb := congrArg (·.getLsbD (i - 32)) h
      simp only [getLsbD_sevenBits, getLsbD_ushiftRight] at hb
      rw [tagBit _ (by omega), show i - 8 = 24 + (i - 32) by omega, hb]
      simp [show i - 32 < 7 by omega]
    intro k l i hi hk hl
    rw [cover] at hk hl
    cases k <;> cases l <;> first | rfl | (simp only at hk hl; omega) | skip
    · exact shared i hl.1 hk.2
    · exact (shared i hk.1 hl.2).symm

/-- The fields are independent in a sequence of writes exactly when the hash and the tag written last agree on the seven
bits they share. -/
theorem fieldsKept_iff (m : MarkOop) (ws : List FieldWrite) : FieldsKept m ws ↔ (lastWritten m ws).SharedBitsAgree := by
  have h : Tracks m (applyWrites m ws) (lastWritten m ws) := tracks_foldl ws (tracks_refl m)
  rw [FieldsKept, h.fieldsOf_eq_iff, agreeOnOverlaps_iff h.fit]
  exact and_iff_left h.lockAndBias

/-- Tagging the prototype, an unlocked header, with site 1 and context 1 makes up a hash. -/
theorem prototype_setNg2cProf_not_kept :
    isNeutral prototype = true ∧ ¬ FieldsKept prototype [.setNg2cProf 0x00010001 (by decide)] ∧
      hasNoHash prototype = true ∧ hasNoHash (setNg2cProf prototype 0x00010001) = false := by
  decide

end Rolp.Mark
