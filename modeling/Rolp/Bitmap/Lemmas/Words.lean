import Rolp.Bitmap.Map

/-!
# What the loops over words compute

The questions look at whole words, and the operations on two maps go word by word.
-/

namespace Rolp.Bitmap

open Rolp.Lib Function List Nat

variable {n : Nat}

namespace BitMap

variable {m other : BitMap}

lemma contains_iff :
    m.contains other = true ↔ ∀ k < 64 * m.sizeInWords, bitAt other.map k = true → bitAt m.map k = true := by
  have hor : ∀ index, (m.map index ||| other.map index = m.map index) ↔
      ∀ j < 64, bitAt other.map (64 * index + j) = true → bitAt m.map (64 * index + j) = true := by
    intro index
    refine BitVec.eq_of_getLsbD_eq_iff.trans (forall₂_congr fun j hj => ?_)
    rw [BitVec.getLsbD_or, bitAt_mul_add _ _ hj, bitAt_mul_add _ _ hj]
    cases (m.map index).getLsbD j <;> simp
  rw [contains, all_eq_true, ← forall_bits_iff]
  simp only [mem_range, beq_iff_eq, hor]

lemma isSame_iff : m.isSame other = true ↔ ∀ k < 64 * m.sizeInWords, bitAt m.map k = bitAt other.map k := by
  rw [isSame, all_eq_true, ← forall_words_eq_iff]
  simp only [mem_range, beq_iff_eq]

lemma allWords_iff {whole part value} (hwhole : ∀ x, whole x = true ↔ ∀ j < 64, x.getLsbD j = value)
    (hpart : ∀ n x, n < 64 → (part n x = true ↔ ∀ j < n, x.getLsbD j = value)) (rest word) :
    m.allWords whole part rest word = true ↔ ∀ k < rest, bitAt m.map (64 * word + k) = value := by
  induction rest using Nat.strong_induction_on generalizing word with
  | h rest ih =>
    have hbit : ∀ j < 64, bitAt m.map (64 * word + j) = (m.map word).getLsbD j := fun j hj => bitAt_mul_add _ _ hj
    rw [allWords]
    split
    next hge =>
      have hge' : 64 ≤ rest := hge
      have hsplit : (∀ k < rest, bitAt m.map (64 * word + k) = value) ↔
          (∀ j < 64, (m.map word).getLsbD j = value) ∧ ∀ k < rest - 64, bitAt m.map (64 * (word + 1) + k) = value := by
        constructor
        · intro h
          refine ⟨fun j hj => (hbit j hj).symm.trans (h j (by omega)), fun k hk => ?_⟩
          rw [mul_succ, add_assoc]
          exact h (64 + k) (by omega)
        · rintro ⟨hfirst, hrest⟩ k hk
          by_cases hk' : k < 64
          · exact (hbit k hk').trans (hfirst k hk')
          · have hk'' := hrest (k - 64) (by omega)
            rwa [mul_succ, add_assoc, add_sub_of_le (by omega)] at hk''
      rw [hsplit, ← hwhole, ← ih (rest - 64) (by omega)]
      split
      next hw => simp [hw]
      next hw => simp [hw]
    next hlt =>
      have hlt' : rest < 64 := not_le.1 hlt
      rw [Bool.or_eq_true, beq_iff_eq, hpart rest _ hlt']
      constructor
      · rintro (rfl | h) k hk
        · exact absurd hk (not_lt_zero k)
        · exact (hbit k (hk.trans hlt')).trans (h k hk)
      · intro h
        exact .inr fun j hj => (hbit j (hj.trans hlt')).symm.trans (h j hj)

lemma getLsbD_rightNBits (n) {j} (hj : j < 64) : (rightNBits n).getLsbD j = decide (j < n) := by
  rw [rightNBits, getLsbD_lowMask, decide_eq_true hj, Bool.true_and]

lemma forall_getLsbD_masked {x y : Word} {b : Bool} (hn : n < 64)
    (hy : ∀ j < 64, y.getLsbD j = if j < n then x.getLsbD j else b) :
    (∀ j < 64, y.getLsbD j = b) ↔ ∀ j < n, x.getLsbD j = b := by
  constructor
  · intro h j hj
    have hj' := h j (hj.trans hn)
    rwa [hy j (hj.trans hn), if_pos hj] at hj'
  · intro h j hj
    rw [hy j hj]
    split
    next hjn => exact h j hjn
    · rfl

lemma isFull_iff : m.isFull = true ↔ ∀ k < m.size, bitAt m.map k = true := by
  have hwhole : ∀ x : Word, (x == BitVec.allOnes 64) = true ↔ ∀ j < 64, x.getLsbD j = true := by
    intro x
    rw [beq_iff_eq, BitVec.eq_of_getLsbD_eq_iff]
    refine forall₂_congr fun j hj => ?_
    rw [BitVec.getLsbD_allOnes, decide_eq_true hj]
  have hpart : ∀ n x, n < 64 →
      ((x ||| ~~~rightNBits n == BitVec.allOnes 64) = true ↔ ∀ j < n, x.getLsbD j = true) := by
    intro n x hn
    rw [hwhole]
    refine forall_getLsbD_masked hn fun j hj => ?_
    rw [BitVec.getLsbD_or, BitVec.getLsbD_not, getLsbD_rightNBits n hj]
    by_cases hjn : j < n <;> simp [hj, hjn]
  rw [isFull, allWords_iff hwhole hpart]
  simp only [mul_zero, zero_add]

lemma isEmpty_iff : m.isEmpty = true ↔ ∀ k < m.size, bitAt m.map k = false := by
  have hwhole : ∀ x : Word, (x == 0#64) = true ↔ ∀ j < 64, x.getLsbD j = false := by
    intro x
    rw [beq_iff_eq, BitVec.eq_of_getLsbD_eq_iff]
    refine forall₂_congr fun j hj => ?_
    rw [BitVec.getLsbD_zero]
  have hpart : ∀ n x, n < 64 → ((x &&& rightNBits n == 0#64) = true ↔ ∀ j < n, x.getLsbD j = false) := by
    intro n x hn
    rw [hwhole]
    refine forall_getLsbD_masked hn fun j hj => ?_
    rw [BitVec.getLsbD_and, getLsbD_rightNBits n hj]
    by_cases hjn : j < n <;> simp [hjn]
  rw [isEmpty, allWords_iff hwhole hpart]
  simp only [mul_zero, zero_add]

/-! ## Counting -/

lemma and_one_eq_zero_iff (w : Word) : w &&& 1#64 = 0#64 ↔ w.getLsbD 0 = false := by
  have hone : (1#64 : Word) = BitVec.twoPow 64 0 := rfl
  have hne : BitVec.twoPow 64 0 ≠ 0#64 := by decide
  rw [hone, BitVec.and_twoPow]
  cases w.getLsbD 0 <;> simp [hne]

lemma skipZeros_spec {fuel w j} (hbit : w.getLsbD j = true) (hj : j < fuel) :
    ∃ p ≤ j, skipZeros fuel w = some (w >>> p) ∧ w.getLsbD p = true ∧ ∀ q < p, w.getLsbD q = false := by
  induction fuel generalizing w j with
  | zero => exact absurd hj (not_lt_zero j)
  | succ fuel ih =>
    rw [skipZeros]
    cases h0 : w.getLsbD 0 with
    | true =>
      rw [if_neg (by rw [and_one_eq_zero_iff, h0]; decide)]
      exact ⟨0, zero_le j, by rw [BitVec.ushiftRight_zero], h0, fun q hq => absurd hq (not_lt_zero q)⟩
    | false =>
      rw [if_pos ((and_one_eq_zero_iff w).2 h0)]
      cases j with
      | zero => exact absurd (h0.symm.trans hbit) (by decide)
      | succ j =>
        have hbit' : (w >>> 1).getLsbD j = true := by rwa [BitVec.getLsbD_ushiftRight, add_comm]
        obtain ⟨p, hp, hskip, hset, hclear⟩ := ih hbit' (lt_of_succ_lt_succ hj)
        refine ⟨p + 1, succ_le_succ hp, ?_, ?_, fun q hq => ?_⟩
        · rw [hskip, add_comm, BitVec.shiftRight_add]
        · rwa [BitVec.getLsbD_ushiftRight, add_comm] at hset
        · cases q with
          | zero => exact h0
          | succ q =>
            have hq' := hclear q (lt_of_succ_lt_succ hq)
            rwa [BitVec.getLsbD_ushiftRight, add_comm] at hq'

lemma numSetBitsLoop_spec {fuel w} (hn : n < fuel) (hle : n ≤ 64) (hw : ∀ k, n ≤ k → w.getLsbD k = false) (bits) :
    numSetBitsLoop fuel w bits = some (bits + bitCount n w.getLsbD) := by
  induction fuel generalizing n w bits with
  | zero => exact absurd hn (not_lt_zero n)
  | succ fuel ih =>
    rw [numSetBitsLoop]
    by_cases h0 : w = 0#64
    · rw [if_pos h0, bitCount_eq_zero fun k _ => by rw [h0, BitVec.getLsbD_zero], add_zero]
    rw [if_neg h0]
    obtain ⟨j, hj⟩ : ∃ j, w.getLsbD j = true := by
      by_contra hnone
      simp only [not_exists, Bool.not_eq_true] at hnone
      exact h0 (BitVec.eq_of_getLsbD_eq_iff.2 fun j _ => by rw [hnone j, BitVec.getLsbD_zero])
    have hjn : j < n := not_le.1 fun hge => by simp [hw j hge] at hj
    obtain ⟨p, hp, hskip, hset, hclear⟩ := skipZeros_spec hj (show j < 65 by omega)
    have hshift : ∀ k, (w >>> p >>> 1).getLsbD k = w.getLsbD (p + (1 + k)) := fun k => by
      rw [BitVec.getLsbD_ushiftRight, BitVec.getLsbD_ushiftRight]
    have hcount : bitCount n w.getLsbD = 1 + bitCount (n - (p + 1)) (w >>> p >>> 1).getLsbD := by
      have hsum : n = p + (1 + (n - (p + 1))) := by omega
      conv_lhs => rw [hsum]
      rw [bitCount_add, bitCount_eq_zero hclear, zero_add, bitCount_add]
      congr 1
      · simp [bitCount, hset]
      · exact bitCount_congr fun k _ => (hshift k).symm
    have hrest := ih (n := n - (p + 1)) (by omega) (by omega)
      (fun k hk => by rw [hshift]; exact hw _ (by omega)) (bits + 1)
    rw [hskip, Option.bind_eq_bind, Option.bind_some, hrest, hcount, add_assoc]

lemma numSetBitsFromTable_byte (w) : numSetBitsFromTable (w &&& 255#64) = some (bitCount 8 w.getLsbD) := by
  have hbyte (k) : (w &&& 255#64).getLsbD k = (w.getLsbD k && decide (k < 8)) := by
    have hmask : (255#64 : Word) = lowMask 64 8 := by decide
    rw [BitVec.getLsbD_and, hmask, getLsbD_lowMask]
    by_cases hk : k < 64
    · rw [decide_eq_true hk, Bool.true_and]
    · rw [BitVec.getLsbD_of_ge w k (not_lt.1 hk), Bool.false_and, Bool.false_and]
  have hloop := numSetBitsLoop_spec (show 8 < bitsPerWord + 1 by decide) (by decide)
    (fun k hk => by rw [hbyte, decide_eq_false (not_lt.2 hk), Bool.and_false]) 0
  rw [numSetBitsFromTable, numSetBits, hloop, zero_add]
  congr 1
  exact bitCount_congr fun k hk => by rw [hbyte, decide_eq_true hk, Bool.and_true]

lemma countBytes_spec (j w sum) : countBytes j w sum = some (sum + bitCount (8 * j) w.getLsbD) := by
  induction j generalizing w sum with
  | zero => rfl
  | succ j ih =>
    have hcount : bitCount (8 * (j + 1)) w.getLsbD = bitCount 8 w.getLsbD + bitCount (8 * j) (w >>> 8).getLsbD := by
      rw [mul_succ, add_comm, bitCount_add]
      congr 1
      exact bitCount_congr fun k _ => by rw [BitVec.getLsbD_ushiftRight]
    rw [countBytes, numSetBitsFromTable_byte, Option.bind_eq_bind, Option.bind_some, ih, hcount, add_assoc]

lemma countOneBits_eq (m : BitMap) : m.countOneBits = some (bitCount (64 * m.sizeInWords) (bitAt m.map)) := by
  have hfold : ∀ (l : List Nat) sum, l.foldlM (fun sum i => countBytes 8 (m.map i) sum) sum =
      some (sum + (l.map fun i => bitCount 64 (m.map i).getLsbD).sum) := by
    intro l
    induction l with
    | nil => exact fun sum => rfl
    | cons i l ih =>
      intro sum
      rw [foldlM_cons, countBytes_spec, Option.bind_eq_bind, Option.bind_some, ih, map_cons, sum_cons, add_assoc]
  rw [countOneBits, hfold, sum_bitCount_words, zero_add]

end BitMap

/-! ## Two maps -/

variable {ι : Type} [DecidableEq ι]

def combined (f : Word → Word → Word) (m other : BitMap) (n : Nat) : BitMap :=
  { m with map := fun w => if w < n then f (m.map w) (other.map w) else m.map w }

variable {f : Word → Word → Word}

lemma combined_map_of_lt {m other w} (h : w < n) : (combined f m other n).map w = f (m.map w) (other.map w) := if_pos h

lemma combined_map_of_ge {m other w} (h : n ≤ w) : (combined f m other n).map w = m.map w := if_neg (not_lt.2 h)

lemma combined_succ (f m other n) : { combined f m other n with
      map := update (combined f m other n).map n (f (m.map n) (other.map n)) } = combined f m other (n + 1) := by
  have hmap : update (combined f m other n).map n (f (m.map n) (other.map n)) =
      (combined f m other (n + 1)).map := by
    funext w
    rcases lt_trichotomy w n with hw | rfl | hw
    · rw [update_of_ne hw.ne, combined_map_of_lt hw, combined_map_of_lt (lt_succ_of_lt hw)]
    · rw [update_self, combined_map_of_lt (lt_succ_self w)]
    · rw [update_of_ne hw.ne', combined_map_of_ge hw.le, combined_map_of_ge (succ_le_of_lt hw)]
  rw [hmap]
  rfl

lemma combine_foldl (f : Word → Word → Word) (i j : ι) (maps : ι → BitMap) (n : Nat) :
    (List.range n).foldl (combineWord f i j) (maps, false) = (Function.update maps i (combined f (maps i) (maps j) n),
        decide (∃ w < n, f ((maps i).map w) ((maps j).map w) ≠ (maps i).map w)) := by
  induction n with
  | zero => simp [combined]
  | succ n ih =>
    rw [range_succ, foldl_append, ih, foldl_cons, foldl_nil, combineWord]
    have hj : (update maps i (combined f (maps i) (maps j) n) j).map n = (maps j).map n := by
      by_cases hij : j = i
      · rw [hij, update_self, combined_map_of_ge le_rfl]
      · rw [update_of_ne hij]
    dsimp only
    rw [hj, update_self, update_idem, combined_map_of_ge le_rfl, combined_succ]
    refine Prod.ext rfl ?_
    rw [Bool.eq_iff_iff, Bool.or_eq_true, decide_eq_true_eq, decide_eq_true_eq, bne_iff_ne]
    simp only [Nat.lt_succ_iff_lt_or_eq]
    constructor
    · rintro (⟨w, hw, hne⟩ | hne)
      · exact ⟨w, .inl hw, hne⟩
      · exact ⟨n, .inr rfl, hne⟩
    · rintro ⟨w, hw | rfl, hne⟩
      · exact .inl ⟨w, hw, hne⟩
      · exact .inr hne

lemma combine_spec {g : Bool → Bool → Bool}
    (hf : ∀ x y j, j < 64 → (f x y).getLsbD j = g (x.getLsbD j) (y.getLsbD j)) (i j : ι) (maps : ι → BitMap) :
    ∃ m changed, combine f i j maps = (Function.update maps i m, changed) ∧ m.size = (maps i).size ∧
      (∀ k < 64 * (maps i).sizeInWords, bitAt m.map k = g (bitAt (maps i).map k) (bitAt (maps j).map k)) ∧
      (changed = true ↔ ∃ k < 64 * (maps i).sizeInWords, bitAt m.map k ≠ bitAt (maps i).map k) := by
  refine ⟨_, _, combine_foldl f i j maps _, rfl, fun k hk => ?_, ?_⟩
  · rw [bitAt, combined_map_of_lt (Nat.div_lt_of_lt_mul hk), hf _ _ _ (mod_lt _ (by decide))]
    rfl
  · have hword : ∀ w < (maps i).sizeInWords, f ((maps i).map w) ((maps j).map w) = (maps i).map w ↔
        (combined f (maps i) (maps j) (maps i).sizeInWords).map w = (maps i).map w := by
      intro w hw
      rw [combined_map_of_lt hw]
    rw [decide_eq_true_eq, ← not_iff_not]
    push Not
    exact (forall₂_congr hword).trans forall_words_eq_iff

/-! ## What the writing operations do to the bits -/

open BitVec

lemma idx_of_lt {n} (h : n < 2 ^ 64) : idx n = n := mod_eq_of_lt h

/-! ## Masks -/

lemma getLsbD_bitMask (bit) {j} (hj : j < 64) : (bitMask bit).getLsbD j = decide (j = bit % 64) := by
  rw [bitMask, bitInWord]
  by_cases h : j = bit % 64
  · simp [← h, hj]
  · by_cases hlt' : j < bit % 64
    · simp [h, hlt']
    · have hne : j - bit % 64 ≠ 0 := by omega
      simp [h, hne]

lemma getLsbD_bitMask_sub_one (bit) {j} (hj : j < 64) : (bitMask bit - 1#64).getLsbD j = decide (j < bit % 64) := by
  have h := getLsbD_lowMask (w := 64) (bit % 64) j
  rw [decide_eq_true hj] at h
  exact h

lemma getLsbD_invertedBitMaskForRange {beg stop k} (hlt : beg < stop) (hword : stop ≤ 64 * (beg / 64 + 1))
    (hk : k / 64 = beg / 64) : (invertedBitMaskForRange beg stop).getLsbD (k % 64) = !decide (beg ≤ k ∧ k < stop) := by
  have hj : k % 64 < 64 := mod_lt _ (by decide)
  rw [invertedBitMaskForRange, bitInWord]
  split
  · rw [getLsbD_or, getLsbD_not, getLsbD_bitMask_sub_one _ hj, getLsbD_bitMask_sub_one _ hj, Bool.eq_iff_iff]
    simp only [bitsPerWord] at *
    simp [hj]
    omega
  · rw [getLsbD_bitMask_sub_one _ hj, Bool.eq_iff_iff]
    simp only [bitsPerWord] at *
    simp
    omega

namespace BitMap

variable {m m' m1 : BitMap} {value : Bool} {p q r : Nat → Prop} {beg stop : Nat}

lemma atIndex_eq (m : BitMap) (i : Nat) : m.atIndex i = bitAt m.map i := by
  have hmask : bitMask i = twoPow 64 (i % 64) := rfl
  rw [atIndex, hmask, and_twoPow, bitAt, wordIndex]
  split
  next h =>
    have hne : twoPow 64 (i % 64) ≠ 0#64 := by
      intro h0
      have hbit := congrArg (fun x => x.getLsbD (i % 64)) h0
      simp [mod_lt] at hbit
    simpa [h] using hne
  next h => simpa using h

def Fits (m : BitMap) : Prop := m.size + 63 < 2 ^ 64

lemma Fits.sizeInWords (h : m.Fits) : m.sizeInWords = (m.size + 63) / 64 := by exact congrArg (· / 64) (idx_of_lt h)

lemma Fits.size_le (h : m.Fits) : m.size ≤ 64 * m.sizeInWords := by
  rw [h.sizeInWords]
  omega

lemma sizeInWords_congr (h : m'.size = m.size) : m'.sizeInWords = m.sizeInWords := by rw [sizeInWords, sizeInWords, h]

structure Puts (value : Bool) (p : Nat → Prop) (m m' : BitMap) : Prop where
  size : m'.size = m.size
  inside : ∀ k, p k → bitAt m'.map k = value
  outside : ∀ k, ¬p k → bitAt m'.map k = bitAt m.map k

lemma Puts.refl (hp : ∀ k, ¬p k) : Puts value p m m := ⟨rfl, fun k hk => absurd hk (hp k), fun _ _ => rfl⟩

lemma Puts.trans (h : Puts value p m m1) (h' : Puts value q m1 m') (hr : ∀ k, r k ↔ p k ∨ q k) : Puts value r m m' := by
  refine ⟨h'.size.trans h.size, fun k hk => ?_, fun k hk => ?_⟩
  · by_cases hq : q k
    · exact h'.inside k hq
    · rw [h'.outside k hq]
      exact h.inside k (((hr k).1 hk).resolve_right hq)
  · rw [h'.outside k fun hq => hk ((hr k).2 (.inr hq)), h.outside k fun hp => hk ((hr k).2 (.inl hp))]

lemma Puts.congr (h : Puts value p m m') (hq : ∀ k, q k ↔ p k) : Puts value q m m' :=
  ⟨h.size, fun k hk => h.inside k ((hq k).1 hk), fun k hk => h.outside k fun hp => hk ((hq k).2 hp)⟩

variable {word : Nat}

lemma putWord_spec {v} (hword : word < m.sizeInWords) (hin : ∀ k, k / 64 = word → p k → v.getLsbD (k % 64) = value)
    (hout : ∀ k, k / 64 = word → ¬p k → v.getLsbD (k % 64) = bitAt m.map k) (hp : ∀ k, p k → k / 64 = word) :
    ∃ m', m.putWord word v = some m' ∧ Puts value p m m' := by
  refine ⟨_, if_pos hword, rfl, fun k hk => ?_, fun k hk => ?_⟩
  · rw [bitAt_update, if_pos (hp k hk)]
    exact hin k (hp k hk) hk
  · rw [bitAt_update]
    split
    next heq => exact hout k heq hk
    · rfl

lemma eq_of_div_of_mod {k l} (h : k / 64 = l / 64) (h' : k % 64 = l % 64) : k = l := by omega

variable {bit : Nat}

lemma setBit_spec (hbit : bit / 64 < m.sizeInWords) : ∃ m', m.setBit bit = some m' ∧ Puts true (· = bit) m m' := by
  refine putWord_spec hbit (fun k hk heq => ?_) (fun k hk hne => ?_) fun k hk => by rw [hk]; rfl
  · rw [getLsbD_or, getLsbD_bitMask _ (mod_lt _ (by decide)), heq]
    simp
  · have hne' : ¬k % 64 = bit % 64 := fun h => hne (eq_of_div_of_mod hk h)
    rw [getLsbD_or, getLsbD_bitMask _ (mod_lt _ (by decide)), ← hk]
    simp [hne', bitAt]

lemma clearBit_spec (hbit : bit / 64 < m.sizeInWords) : ∃ m', m.clearBit bit = some m' ∧ Puts false (· = bit) m m' := by
  refine putWord_spec hbit (fun k hk heq => ?_) (fun k hk hne => ?_) fun k hk => by rw [hk]; rfl
  · rw [getLsbD_and, getLsbD_not, getLsbD_bitMask _ (mod_lt _ (by decide)), heq]
    simp
  · have hne' : ¬k % 64 = bit % 64 := fun h => hne (eq_of_div_of_mod hk h)
    rw [getLsbD_and, getLsbD_not, getLsbD_bitMask _ (mod_lt _ (by decide)), ← hk]
    simp [hne', bitAt, mod_lt]

lemma atPut_spec (value) (hbit : bit / 64 < m.sizeInWords) :
    ∃ m', m.atPut bit value = some m' ∧ Puts value (· = bit) m m' := by
  cases value with
  | true => exact setBit_spec hbit
  | false => exact clearBit_spec hbit

lemma putRangeWithinWord_spec (value) (hle : beg ≤ stop) (hword : stop ≤ 64 * (beg / 64 + 1))
    (hsize : stop ≤ 64 * m.sizeInWords) :
    ∃ m', putRangeWithinWord value m beg stop = some m' ∧ Puts value (fun k => beg ≤ k ∧ k < stop) m m' := by
  rw [putRangeWithinWord]
  split
  · have hlt : beg < stop := by omega
    refine putWord_spec (by rw [wordIndex]; simp only [bitsPerWord]; omega)
      (fun k hk hin => ?_) (fun k hk hout => ?_) ?_
    · have hmask := getLsbD_invertedBitMaskForRange hlt hword hk
      rw [decide_eq_true hin] at hmask
      cases value with
      | true =>
        rw [if_pos rfl, getLsbD_or, getLsbD_not, hmask]
        simp [mod_lt]
      | false => simp [hmask]
    · have hmask := getLsbD_invertedBitMaskForRange hlt hword hk
      rw [decide_eq_false hout] at hmask
      cases value with
      | true => simp [hmask, bitAt, hk]
      | false => simp [hmask, bitAt, hk]
    · intro k hk
      simp only [wordIndex, bitsPerWord]
      omega
  · exact ⟨m, rfl, Puts.refl fun k hk => by omega⟩

lemma putWords_spec (value) {n} (h : word + n ≤ m.sizeInWords) :
    ∃ m', putWords value n word m = some m' ∧ Puts value (fun k => word ≤ k / 64 ∧ k / 64 < word + n) m m' := by
  induction n generalizing word m with
  | zero => exact ⟨m, rfl, Puts.refl fun k hk => by omega⟩
  | succ n ih =>
    have hone : ∃ m1, m.putWord word (if value then allOnes 64 else 0#64) = some m1 ∧
        Puts value (fun k => k / 64 = word) m m1 := by
      refine putWord_spec (by omega) (fun k hk _ => ?_) (fun k hk hne => absurd hk hne) fun k hk => hk
      cases value with
      | true =>
        rw [if_pos rfl, getLsbD_allOnes]
        simp [mod_lt]
      | false => simp
    obtain ⟨m1, h1, hp1⟩ := hone
    have hle : word + 1 + n ≤ m1.sizeInWords := by
      rw [sizeInWords_congr hp1.size]
      omega
    obtain ⟨m', h', hp'⟩ := ih hle
    refine ⟨m', ?_, hp1.trans hp' fun k => by omega⟩
    rw [putWords, h1]
    exact h'

/-! ## Ranges -/

lemma Fits.bitIndex (h : m.Fits) (hw : word ≤ m.sizeInWords) : bitIndex word = 64 * word := by
  rw [mul_comm]
  refine idx_of_lt ?_
  rw [h.sizeInWords] at hw
  have hfits : m.size + 63 < 2 ^ 64 := h
  simp only [bitsPerWord]
  omega

lemma Fits.wordIndexRoundUp (h : m.Fits) (hbit : bit ≤ m.size) : m.wordIndexRoundUp bit = (bit + 63) / 64 := by
  have hidx : idx (bit + (bitsPerWord - 1)) = bit + 63 := idx_of_lt (lt_of_le_of_lt (Nat.add_le_add_right hbit _) h)
  rw [BitMap.wordIndexRoundUp, hidx, if_pos (by omega), wordIndex]

lemma putParts_spec (value) {b e} (hle : b ≤ e) (hbeg : beg ≤ 64 * b) (hb : b ≤ (beg + 63) / 64)
    (he : 64 * e ≤ stop) (hstop : stop ≤ 64 * (e + 1)) (hsize : stop ≤ 64 * m.sizeInWords) :
    ∃ m', ((putRangeWithinWord value m beg (64 * b)).bind fun m1 =>
        (putWords value (e - b) b m1).bind fun m2 => putRangeWithinWord value m2 (64 * e) stop) = some m' ∧
      Puts value (fun k => beg ≤ k ∧ k < stop) m m' := by
  obtain ⟨m1, h1, hp1⟩ := putRangeWithinWord_spec (m := m) value hbeg (by omega) (by omega)
  have hw1 := sizeInWords_congr hp1.size
  have hwords : b + (e - b) ≤ m1.sizeInWords := by omega
  obtain ⟨m2, h2, hp2⟩ := putWords_spec value hwords
  have hw2 := (sizeInWords_congr hp2.size).trans hw1
  obtain ⟨m', h', hp'⟩ := putRangeWithinWord_spec value he (by omega) (by rw [hw2]; exact hsize)
  refine ⟨m', by rw [h1, Option.bind_some, h2, Option.bind_some, h'], ?_⟩
  have hfirst : Puts value (fun k => beg ≤ k ∧ k < 64 * e) m m2 := hp1.trans hp2 fun k => by omega
  exact hfirst.trans hp' fun k => by omega

lemma putRange_spec (h : m.Fits) (value) (hle : beg ≤ stop) (hstop : stop ≤ m.size) :
    ∃ m', putRange value m beg stop = some m' ∧ Puts value (fun k => beg ≤ k ∧ k < stop) m m' := by
  have hend : stop ≤ 64 * m.sizeInWords := hstop.trans h.size_le
  rw [putRange, h.wordIndexRoundUp (hle.trans hstop), h.bitIndex (by omega), wordIndex,
    h.bitIndex (by simp only [bitsPerWord]; omega)]
  dsimp only
  split
  next hlt =>
    exact putParts_spec value (by simp only [bitsPerWord] at hlt ⊢; omega) (by omega) le_rfl
      (by simp only [bitsPerWord]; omega) (by simp only [bitsPerWord]; omega) hend
  rename_i hge
  simp only [bitsPerWord] at hge
  have hle1 : beg ≤ min (64 * ((beg + 63) / 64)) stop := by omega
  have hle2 : min (64 * ((beg + 63) / 64)) stop ≤ stop := min_le_right _ _
  obtain ⟨m1, h1, hp1⟩ := putRangeWithinWord_spec (m := m) value hle1 (by omega) (by omega)
  obtain ⟨m', h', hp'⟩ := putRangeWithinWord_spec value hle2 (by omega)
    (by rw [sizeInWords_congr hp1.size]; exact hend)
  refine ⟨m', ?_, hp1.trans hp' fun k => by omega⟩
  rw [h1]
  exact h'

lemma putLargeRangeOfWords_eq {b e} (value) (hle : b ≤ e) (he : e < 2 ^ 58) :
    putLargeRangeOfWords value m b e = putWords value (e - b) b m := by
  have hwords : idx (e + 2 ^ 64 - b) = e - b := by
    have heq : e + 2 ^ 64 - b = e - b + 2 ^ 64 := by omega
    rw [heq, idx, add_mod_right]
    exact mod_eq_of_lt (by omega)
  rw [putLargeRangeOfWords, hwords, idx_of_lt (by omega), Nat.mul_div_cancel _ (by decide)]

lemma putLargeRange_spec (h : m.Fits) (value) (hle : beg ≤ stop) (hstop : stop ≤ m.size)
    (hfull : m.wordIndexRoundUp beg ≤ wordIndex stop) :
    ∃ m', putLargeRange value m beg stop = some m' ∧ Puts value (fun k => beg ≤ k ∧ k < stop) m m' := by
  have hfits : m.size + 63 < 2 ^ 64 := h
  have hend : stop ≤ 64 * m.sizeInWords := hstop.trans h.size_le
  rw [h.wordIndexRoundUp (hle.trans hstop), wordIndex] at hfull
  simp only [bitsPerWord] at hfull
  have hparts := putParts_spec value hfull (by omega) le_rfl (by omega) (by omega) hend
  rw [putLargeRange, h.wordIndexRoundUp (hle.trans hstop), h.bitIndex (by omega), wordIndex,
    h.bitIndex (by simp only [bitsPerWord]; omega)]
  have hlarge : ∀ m1, putLargeRangeOfWords value m1 ((beg + 63) / 64) (stop / 64) =
      putWords value (stop / 64 - (beg + 63) / 64) ((beg + 63) / 64) m1 := fun m1 =>
    putLargeRangeOfWords_eq value hfull (by omega)
  simp only [hlarge]
  exact hparts

lemma putRangeWithHint_spec (h : m.Fits) (value) (hle : beg ≤ stop) (hstop : stop ≤ m.size)
    {hint} (hfull : hint = .largeRange → m.wordIndexRoundUp beg ≤ wordIndex stop) :
    ∃ m', putRangeWithHint value m beg stop hint = some m' ∧ Puts value (fun k => beg ≤ k ∧ k < stop) m m' := by
  rw [putRangeWithHint]
  split
  · have hbit : beg / 64 < m.sizeInWords := by
      have hsize := h.size_le
      omega
    obtain ⟨m', h', hp⟩ := atPut_spec value hbit
    exact ⟨m', h', hp.congr fun k => by omega⟩
  · split
    next hlarge => exact putLargeRange_spec h value hle hstop (hfull hlarge)
    · exact putRange_spec h value hle hstop

/-! ## Growing -/

lemma resize_spec (fresh) {size} (h : m.Fits) (hle : m.size ≤ size) (hsize : size + 63 < 2 ^ 64) :
    ∃ m', m.resize fresh size = some m' ∧ m'.size = size ∧ (∀ k < 64 * m.sizeInWords, bitAt m'.map k = bitAt m.map k) ∧
      ∀ k, 64 * m.sizeInWords ≤ k → k < 64 * m'.sizeInWords → bitAt m'.map k = false := by
  obtain ⟨new, hnew⟩ : ∃ new : BitMap, new = ⟨fresh, size⟩ := ⟨_, rfl⟩
  have hfits : new.Fits := by
    rw [hnew]
    exact hsize
  have hwords : m.sizeInWords ≤ new.sizeInWords := by
    rw [h.sizeInWords, hfits.sizeInWords, hnew]
    exact Nat.div_le_div_right (Nat.add_le_add_right hle _)
  rw [resize, ← hnew]
  have hcopied : ∀ k < 64 * m.sizeInWords,
      bitAt (fun i => if i < min m.sizeInWords new.sizeInWords then m.map i else fresh i) k = bitAt m.map k := by
    intro k hk
    rw [bitAt, if_pos (by omega), bitAt]
  split
  · obtain ⟨m', h', hp⟩ := putWords_spec (m := { new with
      map := fun i => if i < min m.sizeInWords new.sizeInWords then m.map i else fresh i }) false
      (add_sub_of_le hwords).le
    have hm' : m'.sizeInWords = new.sizeInWords := sizeInWords_congr hp.size
    refine ⟨m', h', hp.size.trans (by rw [hnew]), fun k hk => ?_, fun k hk hk' => hp.inside k (by omega)⟩
    rw [hp.outside k (by omega)]
    exact hcopied k hk
  · refine ⟨_, rfl, by rw [hnew], hcopied, fun k hk hk' => ?_⟩
    have hlt : k < 64 * new.sizeInWords := hk'
    omega

end BitMap

end Rolp.Bitmap
