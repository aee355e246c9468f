import Rolp.Bitmap.Lemmas.Words

/-!
# The searches find the next bit

A word that is shifted to an offset shows its bits from the offset on.
-/

namespace Rolp.Bitmap

open Rolp.Lib Nat BitVec

lemma and_one_bne_zero (w : Word) : (w &&& 1#64 != 0#64) = w.getLsbD 0 := by
  rw [Bool.eq_iff_iff, bne_iff_ne, Ne, BitMap.and_one_eq_zero_iff, Bool.not_eq_false]

lemma getLsbD_ushiftRight_one (w : Word) (j : Nat) : (w >>> 1).getLsbD j = w.getLsbD (j + 1) := by
  rw [getLsbD_ushiftRight, add_comm]

lemma scanWord_spec {value fuel j res} (hbit : res.getLsbD j = value) (hj : j < fuel) (offset : Nat) :
    ∃ p ≤ j, scanWord value fuel res offset = some (offset + p) ∧ res.getLsbD p = value ∧
      ∀ q < p, res.getLsbD q ≠ value := by
  induction fuel generalizing res j offset with
  | zero => exact absurd hj (not_lt_zero j)
  | succ fuel ih =>
    rw [scanWord, and_one_bne_zero]
    by_cases h0 : res.getLsbD 0 = value
    · rw [if_pos h0]
      exact ⟨0, zero_le j, rfl, h0, fun q hq => absurd hq (not_lt_zero q)⟩
    rw [if_neg h0]
    cases j with
    | zero => exact absurd hbit h0
    | succ j =>
      obtain ⟨p, hp, hscan, hset, hclear⟩ := ih (by rwa [getLsbD_ushiftRight_one]) (lt_of_succ_lt_succ hj)
        (offset + 1)
      refine ⟨p + 1, succ_le_succ hp, ?_, by rwa [getLsbD_ushiftRight_one] at hset, fun q hq => ?_⟩
      · rw [hscan, add_assoc, add_comm 1]
      · cases q with
        | zero => exact h0
        | succ q =>
          have hq' := hclear q (lt_of_succ_lt_succ hq)
          rwa [getLsbD_ushiftRight_one] at hq'

lemma eq_withoutBit_iff (value x) : x = withoutBit value ↔ ∀ j < 64, x.getLsbD j ≠ value := by
  refine eq_of_getLsbD_eq_iff.trans (forall₂_congr fun j hj => ?_)
  cases value with
  | true => simp [withoutBit]
  | false =>
    rw [withoutBit, if_neg Bool.false_ne_true, getLsbD_allOnes, decide_eq_true hj]
    simp

/-- The least index from `l` on with the value, or `r`. -/
structure IsNext (value : Bool) (bits : Nat → Bool) (l r x : Nat) : Prop where
  le : l ≤ x
  le_right : x ≤ r
  eq : x < r → bits x = value
  ne_before : ∀ k, l ≤ k → k < x → bits k ≠ value

structure Shows (value : Bool) (bits : Nat → Bool) (offset : Nat) (res : Word) : Prop where
  inside : ∀ j < 64 - offset % 64, res.getLsbD j = bits (offset + j)
  outside : ∀ j, 64 - offset % 64 ≤ j → j < 64 → res.getLsbD j ≠ value

namespace BitMap

variable {m : BitMap} {value : Bool} {res : Word} {found : Nat → Nat} {l r offset index : Nat}

lemma shows_one (m : BitMap) (offset : Nat) :
    Shows true (bitAt m.map) offset (m.map (wordIndex offset) >>> bitInWord offset) := by
  refine ⟨fun j hj => ?_, fun j hj _ => ?_⟩
  · have hdiv : (offset + j) / 64 = offset / 64 := by omega
    have hmod : (offset + j) % 64 = offset % 64 + j := by omega
    rw [getLsbD_ushiftRight, bitAt, hdiv, hmod]
    rfl
  · have hge : 64 ≤ bitInWord offset + j := by
      rw [bitInWord]
      simp only [bitsPerWord]
      omega
    rw [getLsbD_ushiftRight, getLsbD_of_ge _ _ hge]
    decide

lemma getLsbD_leftNBits {n j} (hn : n < 64) (hj : j < 64) : (leftNBits n).getLsbD j = decide (64 - n ≤ j) := by
  rw [leftNBits, if_neg (not_le.2 hn), getLsbD_shiftLeft]
  by_cases hle : 64 - n ≤ j
  · rw [getLsbD_rightNBits n (by omega)]
    have hlt : j - (64 - n) < n := by omega
    simp [hj, hle, hlt]
  · have hlt : j < bitsPerWord - n := by
      simp only [bitsPerWord]
      omega
    simp [hle]

lemma shows_zero (m : BitMap) (offset : Nat) :
    Shows false (bitAt m.map) offset
      (m.map (wordIndex offset) >>> bitInWord offset ||| leftNBits (bitInWord offset)) := by
  have hlt : bitInWord offset < 64 := mod_lt _ (by decide)
  have hone := shows_one m offset
  refine ⟨fun j hj => ?_, fun j hj hj' => ?_⟩
  · have hnot : ¬64 - bitInWord offset ≤ j := not_le.2 hj
    rw [getLsbD_or, getLsbD_leftNBits hlt (by omega), decide_eq_false hnot, Bool.or_false]
    exact hone.inside j hj
  · have hle : 64 - bitInWord offset ≤ j := hj
    rw [getLsbD_or, getLsbD_leftNBits hlt hj', decide_eq_true hle, Bool.or_true]
    decide

lemma shows_word (m : BitMap) (index : Nat) : Shows value (bitAt m.map) (64 * index) (m.map index) := by
  have hmod : 64 * index % 64 = 0 := mul_mod_right _ _
  refine ⟨fun j hj => ?_, fun j hj hj' => ?_⟩
  · rw [hmod] at hj
    exact (bitAt_mul_add _ _ hj).symm
  · rw [hmod] at hj
    exact absurd hj' (not_lt.2 hj)

def Clamps (found : Nat → Nat) (index r : Nat) : Prop := ∀ x < 64 * (index + 1), found x = min x r

lemma scanWord_isNext (h : Shows value (bitAt m.map) offset res) (hres : res ≠ withoutBit value)
    (hbefore : ∀ k, l ≤ k → k < offset → bitAt m.map k ≠ value) (hle : l ≤ offset) (hr : offset ≤ r)
    (hfound : Clamps found (offset / 64) r) :
    ∃ x, (scanWord value (bitsPerWord + 1) res offset).map found = some x ∧ IsNext value (bitAt m.map) l r x := by
  rw [Ne, eq_withoutBit_iff] at hres
  push Not at hres
  obtain ⟨j, hj, hbit⟩ := hres
  have hj' : j < 64 - offset % 64 := not_le.1 fun hge => h.outside j hge hj hbit
  obtain ⟨p, hp, hscan, hset, hclear⟩ := scanWord_spec hbit (show j < 65 by omega) offset
  have hlt : offset + p < 64 * (offset / 64 + 1) := by omega
  rw [hscan, Option.map_some, hfound _ hlt]
  refine ⟨_, rfl, by omega, min_le_right _ _, fun hx => ?_, fun k hk hkx => ?_⟩
  · have heq : min (offset + p) r = offset + p := by omega
    rw [heq, ← h.inside p (by omega)]
    exact hset
  · by_cases hk' : k < offset
    · exact hbefore k hk hk'
    · have hq := hclear (k - offset) (by omega)
      rwa [h.inside (k - offset) (by omega), add_sub_of_le (by omega)] at hq

lemma ne_of_withoutBit (h : Shows value (bitAt m.map) offset res) (hres : res = withoutBit value)
    (hbefore : ∀ k, l ≤ k → k < offset → bitAt m.map k ≠ value) {k} (hk : l ≤ k)
    (hk' : k < 64 * (offset / 64 + 1)) : bitAt m.map k ≠ value := by
  by_cases hlt : k < offset
  · exact hbefore k hk hlt
  · have hne := (eq_withoutBit_iff value res).1 hres (k - offset) (by omega)
    rwa [h.inside (k - offset) (by omega), add_sub_of_le (by omega)] at hne

lemma scanWords_isNext {n} (rIndex : Nat) (hindex : index + n = max index rIndex) (hr : r ≤ 64 * rIndex)
    (hlast : 64 * rIndex < r + 64) (hlt : r < 2 ^ 64) (hle : l ≤ 64 * index) (hlr : l ≤ r)
    (hbefore : ∀ k, l ≤ k → k < 64 * index → bitAt m.map k ≠ value) (hfound : ∀ i < rIndex, Clamps found i r) :
    ∃ x, scanWords value m found r n index = some x ∧ IsNext value (bitAt m.map) l r x := by
  induction n generalizing index with
  | zero =>
    refine ⟨r, rfl, hlr, le_rfl, fun h => absurd h (lt_irrefl r), fun k hk hkr => hbefore k hk ?_⟩
    omega
  | succ n ih =>
    have hlt' : index < rIndex := by omega
    have hbit : bitIndex index = 64 * index := by
      rw [mul_comm]
      exact idx_of_lt (by simp only [bitsPerWord]; omega)
    have hshows : Shows value (bitAt m.map) (64 * index) (m.map index) := shows_word m index
    rw [scanWords, hbit]
    split
    next hres =>
      have hclamps : Clamps found (64 * index / 64) r := by
        rw [Nat.mul_div_cancel_left _ (by decide)]
        exact hfound index hlt'
      exact scanWord_isNext hshows hres hbefore hle (by omega) hclamps
    next hres =>
      have hrest : ∀ k, l ≤ k → k < 64 * (index + 1) → bitAt m.map k ≠ value := fun k hk hk' =>
        ne_of_withoutBit hshows (not_not.1 hres) hbefore hk (by rwa [Nat.mul_div_cancel_left _ (by decide)])
      exact ih (by omega) (by omega) hrest

lemma getNextOffset_isNext {rIndex} (h : Shows value (bitAt m.map) l res) (hlr : l < r) (hlt : r < 2 ^ 64)
    (hr : r ≤ 64 * rIndex) (hlast : 64 * rIndex < r + 64) (hfound : ∀ i < rIndex, Clamps found i r) :
    ∃ x, getNextOffset value m found res l r rIndex = some x ∧ IsNext value (bitAt m.map) l r x := by
  have hnone : ∀ k, l ≤ k → k < l → bitAt m.map k ≠ value := fun k hk hk' => absurd hk' (not_lt.2 hk)
  rw [getNextOffset]
  split
  next hres => exact scanWord_isNext h hres hnone le_rfl hlr.le (hfound _ (by omega))
  next hres =>
    refine scanWords_isNext rIndex ?_ hr hlast hlt ?_ hlr.le (fun k hk hk' => ?_) hfound
    · omega
    · simp only [wordIndex, bitsPerWord]
      omega
    · exact ne_of_withoutBit h (not_not.1 hres) hnone hk hk'

lemma isNext_self (bits l) : IsNext value bits l l l :=
  ⟨le_rfl, le_rfl, fun h => absurd h (lt_irrefl l), fun _ hk hk' => absurd hk' (not_lt.2 hk)⟩

lemma ite_isNext {bits} {o : Option Nat} (h : l ≠ r → ∃ x, o = some x ∧ IsNext value bits l r x) :
    ∃ x, (if l = r then some l else o) = some x ∧ IsNext value bits l r x := by
  split
  next heq =>
    subst heq
    exact ⟨l, rfl, isNext_self _ l⟩
  next hne => exact h hne

lemma getNextOneOffsetInline_isNext (hlr : l ≤ r) (hlt : r < 2 ^ 64) :
    ∃ x, m.getNextOneOffsetInline l r = some x ∧ IsNext true (bitAt m.map) l r x := by
  refine ite_isNext fun hne => getNextOffset_isNext (shows_one m l) (by omega) hlt ?_ ?_ fun _ _ _ _ => rfl
  all_goals
    simp only [wordIndex, bitsPerWord]
    omega

lemma getNextZeroOffsetInline_isNext (hlr : l ≤ r) (hlt : r < 2 ^ 64) :
    ∃ x, m.getNextZeroOffsetInline l r = some x ∧ IsNext false (bitAt m.map) l r x := by
  refine ite_isNext fun hne => getNextOffset_isNext (shows_zero m l) (by omega) hlt ?_ ?_ fun _ _ _ _ => rfl
  all_goals
    simp only [wordIndex, bitsPerWord]
    omega

lemma getNextOneOffsetInlineAlignedRight_isNext (hlr : l ≤ r) (hlt : r < 2 ^ 64) (hr : r % 64 = 0) :
    ∃ x, m.getNextOneOffsetInlineAlignedRight l r = some x ∧ IsNext true (bitAt m.map) l r x := by
  refine ite_isNext fun hne => getNextOffset_isNext (shows_one m l) (by omega) hlt ?_ ?_ fun i hi x hx => ?_
  · simp only [wordIndex, bitsPerWord]
    omega
  · simp only [wordIndex, bitsPerWord]
    omega
  · simp only [wordIndex, bitsPerWord] at hi
    rw [id, min_eq_left (by omega)]

end BitMap

/-! ## Iteration goes bit by bit -/

variable {σ : Type} {doBit : Closure σ} {s : Walk σ}

def walkBits (doBit : Closure σ) : List Nat → Walk σ → Walk σ × Bool
  | [], s => (s, true)
  | k :: ks, s =>
    if bitAt s.map.map k then
      if (s.visit doBit k).2 then walkBits doBit ks (s.visit doBit k).1 else ((s.visit doBit k).1, false)
    else walkBits doBit ks s

lemma walkBits_append (ks ks' s) : walkBits doBit (ks ++ ks') s =
      if (walkBits doBit ks s).2 then walkBits doBit ks' (walkBits doBit ks s).1 else (walkBits doBit ks s) := by
  induction ks generalizing s with
  | nil => rfl
  | cons k ks ih =>
    rw [List.cons_append, walkBits, walkBits]
    split
    · split
      · exact ih _
      · rfl
    · exact ih s

lemma walkBits_of_clear {ks} (h : ∀ k ∈ ks, bitAt s.map.map k = false) : walkBits doBit ks s = (s, true) := by
  induction ks with
  | nil => rfl
  | cons k ks ih =>
    rw [walkBits, if_neg (by rw [h k (by simp)]; decide)]
    exact ih fun k' hk' => h k' (by simp [hk'])

/-! ## Words -/

def Current (m : BitMap) (index offset : Nat) (rest : Word) : Prop :=
  ∀ j, rest.getLsbD j = (decide (offset + j < 64 * (index + 1)) && bitAt m.map (offset + j))

lemma current_read (m : BitMap) (offset : Nat) :
    Current m (offset / 64) offset (m.map (offset / 64) >>> bitInWord offset) := by
  intro j
  have hshows := BitMap.shows_one m offset
  by_cases hj : offset + j < 64 * (offset / 64 + 1)
  · rw [decide_eq_true hj]
    exact hshows.inside j (by omega)
  · rw [decide_eq_false hj, Bool.false_and, getLsbD_ushiftRight, getLsbD_of_ge]
    rw [bitInWord]
    simp only [bitsPerWord]
    omega

variable {m : BitMap} {index offset : Nat} {rest : Word}

lemma Current.shift (h : Current m index offset rest) : Current m index (offset + 1) (rest >>> 1) := by
  intro j
  rw [getLsbD_ushiftRight_one, h (j + 1), add_assoc, add_comm 1 j]

lemma Current.lt_of_ne_zero (h : Current m index offset rest) (hne : rest ≠ 0#64) : offset < 64 * (index + 1) := by
  by_contra hge
  refine hne (eq_of_getLsbD_eq_iff.2 fun j _ => ?_)
  rw [h j, decide_eq_false (by omega), Bool.false_and, getLsbD_zero]

lemma Current.clear_of_zero (h : Current m index offset 0#64) {k}
    (hk : offset ≤ k) (hk' : k < 64 * (index + 1)) : bitAt m.map k = false := by
  have hj := h (k - offset)
  rw [add_sub_of_le hk, decide_eq_true hk', getLsbD_zero] at hj
  exact hj.symm

def wordRest (offset index right : Nat) : List Nat := List.range' offset (min right (64 * (index + 1)) - offset)

variable {right : Nat}

lemma wordRest_cons (h : offset < right) (h' : offset < 64 * (index + 1)) :
    wordRest offset index right = offset :: wordRest (offset + 1) index right := by
  have hlen : min right (64 * (index + 1)) - offset = min right (64 * (index + 1)) - (offset + 1) + 1 := by omega
  rw [wordRest, hlen]
  rfl

lemma iterateWord_eq {fuel} (hrest : Current s.map index offset rest)
    (hge : 64 * index ≤ offset) (hle : offset ≤ 64 * (index + 1)) (hfuel : 64 * (index + 1) < offset + fuel) :
    iterateWord doBit right index fuel offset rest s = some (walkBits doBit (wordRest offset index right) s) := by
  induction fuel generalizing offset rest s with
  | zero => exact absurd hfuel (not_lt.2 hle)
  | succ fuel ih =>
    rw [iterateWord]
    by_cases hgo : offset < right ∧ rest ≠ 0#64
    · have hlt := hrest.lt_of_ne_zero hgo.2
      have hbit : rest.getLsbD 0 = bitAt s.map.map offset := by
        rw [hrest 0, add_zero, decide_eq_true hlt, Bool.true_and]
      have hlow : rest &&& 1#64 ≠ 0#64 ↔ bitAt s.map.map offset = true := by
        rw [Ne, BitMap.and_one_eq_zero_iff, hbit, Bool.not_eq_false]
      rw [if_pos hgo, wordRest_cons hgo.1 hlt, walkBits]
      simp only [hlow]
      split
      · -- The word is read again from the map that the closure has left.
        have hindex : offset / 64 = index := by omega
        have hread := current_read (s.visit doBit offset).1.map offset
        rw [hindex] at hread
        split
        · exact ih hread.shift (by omega) (by omega) (by omega)
        · rfl
      · exact ih hrest.shift (by omega) (by omega) (by omega)
    · rw [if_neg hgo]
      refine congrArg some (walkBits_of_clear fun k hk => ?_).symm
      rw [wordRest, List.mem_range'_1] at hk
      have hzero : rest = 0#64 := by
        by_contra hne
        exact hgo ⟨by omega, hne⟩
      rw [hzero] at hrest
      exact hrest.clear_of_zero hk.1 (by omega)

lemma iterateWords_eq {n} (hge : 64 * index ≤ offset) (hlt : offset < 64 * (index + 1))
    (hright : right ≤ 64 * (index + n)) (hfits : 64 * (index + n) < 2 ^ 64) :
    iterateWords doBit right n index offset s = some (walkBits doBit (List.range' offset (right - offset)) s) := by
  induction n generalizing index offset s with
  | zero =>
    have hnone : right - offset = 0 := by omega
    rw [hnone]
    rfl
  | succ n ih =>
    rw [iterateWords]
    by_cases hgo : offset < right
    · have hindex : offset / 64 = index := by omega
      have hread := current_read s.map offset
      rw [hindex] at hread
      have hbit : bitIndex (index + 1) = 64 * (index + 1) := by
        rw [mul_comm]
        exact idx_of_lt (by simp only [bitsPerWord]; omega)
      have hsplit : List.range' offset (right - offset) =
          wordRest offset index right ++ List.range' (64 * (index + 1)) (right - 64 * (index + 1)) := by
        rw [wordRest]
        by_cases hr : right ≤ 64 * (index + 1)
        · rw [min_eq_left hr, Nat.sub_eq_zero_of_le hr, List.range'_zero, List.append_nil]
        · have hlen : right - offset = 64 * (index + 1) - offset + (right - 64 * (index + 1)) := by omega
          have hstart : offset + (64 * (index + 1) - offset) = 64 * (index + 1) := by omega
          rw [min_eq_right (by omega), hlen, ← List.range'_append_1, hstart]
      have hword : iterateWord doBit right index (bitsPerWord + 1) offset (s.map.map index >>> bitInWord offset) s =
          some (walkBits doBit (wordRest offset index right) s) :=
        iterateWord_eq hread hge hlt.le (show 64 * (index + 1) < offset + (64 + 1) by omega)
      rw [if_pos hgo]
      dsimp only
      rw [hword, hsplit, walkBits_append, hbit, Option.bind_eq_bind, Option.bind_some]
      split
      · exact ih le_rfl (by omega) (by omega) (by omega)
      next hstop =>
        rw [Bool.not_eq_true] at hstop
        rw [← hstop]
    · have hnone : right - offset = 0 := by omega
      rw [if_neg hgo, hnone]
      rfl

lemma iterate_eq (h : m.Fits) (doBit : Closure σ) (state : σ) {left} (hle : left ≤ right)
    (hright : right ≤ m.size) : iterate doBit state m left right =
      some (walkBits doBit (List.range' left (right - left)) ⟨state, m, []⟩) := by
  have hwords := h.sizeInWords
  have hfits : m.size + 63 < 2 ^ 64 := h
  rw [iterate]
  simp only [wordIndex, bitsPerWord]
  exact iterateWords_eq (by omega) (by omega) (by omega) (by omega)

end Rolp.Bitmap

/-! ## Searches and iteration are exact -/

namespace Rolp.Bitmap

open Rolp.Lib List

variable {σ : Type}

/-- The closure only clears bits at or below the current index, or sets bits above it in later words. -/
structure OnlyAhead (doBit : Closure σ) : Prop where
  clears : ∀ offset state m k, k ≤ offset → bitAt (doBit offset state m).1.2.map k = true → bitAt m.map k = true
  keeps : ∀ offset state m k, offset < k → k / 64 = offset / 64 → bitAt (doBit offset state m).1.2.map k = bitAt m.map k
  sets : ∀ offset state m k, offset < k → k / 64 ≠ offset / 64 → bitAt m.map k = true →
    bitAt (doBit offset state m).1.2.map k = true

lemma OnlyAhead.ahead {doBit : Closure σ} (h : OnlyAhead doBit) {offset k : Nat} {state : σ} {m : BitMap}
    (hk : offset < k) (hbit : bitAt m.map k = true) : bitAt (doBit offset state m).1.2.map k = true := by
  by_cases hword : k / 64 = offset / 64
  · rw [h.keeps offset state m k hk hword, hbit]
  · exact h.sets offset state m k hk hword hbit

def SetBefore (m : BitMap) (visits : List Visit) (k : Nat) : Prop :=
  bitAt m.map k = true ∨ ∃ v ∈ visits, v.offset < k ∧ bitAt v.before.map k = false ∧ bitAt v.after.map k = true

structure Walked (doBit : Closure σ) (ks : List Nat) (m : BitMap) (go : Bool) (visits : List Visit) : Prop where
  sublist : (visits.map Visit.offset).Sublist ks
  isSet : ∀ v ∈ visits, bitAt v.before.map v.offset = true
  exact : OnlyAhead doBit → ∀ k ∈ ks, (go = true ∨ ∃ v ∈ visits, k ≤ v.offset) →
    (k ∈ visits.map Visit.offset ↔ SetBefore m visits k)

variable {doBit : Closure σ} {k : Nat} {ks : List Nat} {m : BitMap} {go : Bool} {visits : List Visit}

lemma Walked.lt_offset (h : Walked doBit ks m go visits) (hk : ∀ k' ∈ ks, k < k') {v} (hv : v ∈ visits) :
    k < v.offset := hk _ (h.sublist.subset (mem_map_of_mem hv))

lemma Walked.skip (h : Walked doBit ks m go visits) (hk : ∀ k' ∈ ks, k < k') (hbit : bitAt m.map k = false) :
    Walked doBit (k :: ks) m go visits := by
  refine ⟨h.sublist.cons k, h.isSet, fun honly k' hk' hseen => ?_⟩
  rcases mem_cons.1 hk' with rfl | hk'
  · refine iff_of_false (fun hmem => ?_) ?_
    · exact lt_irrefl k' (hk k' (h.sublist.subset hmem))
    rintro (hset | ⟨v, hv, hlt, -⟩)
    · rw [hbit] at hset
      cases hset
    · exact lt_asymm hlt (h.lt_offset hk hv)
  · exact h.exact honly k' hk' hseen

lemma Walked.visit {state : σ} (h : Walked doBit ks (doBit k state m).1.2 go visits) (hk : ∀ k' ∈ ks, k < k')
    (hbit : bitAt m.map k = true) : Walked doBit (k :: ks) m go (⟨k, m, (doBit k state m).1.2⟩ :: visits) := by
  refine ⟨h.sublist.cons_cons k, ?_, fun honly k' hk' hseen => ?_⟩
  · intro v hv
    rcases mem_cons.1 hv with rfl | hv
    · exact hbit
    · exact h.isSet v hv
  rcases mem_cons.1 hk' with rfl | hk'
  · exact iff_of_true (by simp) (.inl hbit)
  have hlt := hk k' hk'
  have hseen' : go = true ∨ ∃ v ∈ visits, k' ≤ v.offset := by
    rcases hseen with hgo | ⟨v, hv, hle⟩
    · exact .inl hgo
    · rcases mem_cons.1 hv with rfl | hv
      · exact absurd hlt (not_lt.2 hle)
      · exact .inr ⟨v, hv, hle⟩
  have hrest := h.exact honly k' hk' hseen'
  have hfirst : bitAt (doBit k state m).1.2.map k' = true ↔
      bitAt m.map k' = true ∨ bitAt m.map k' = false ∧ bitAt (doBit k state m).1.2.map k' = true := by
    constructor
    · intro hset
      cases hold : bitAt m.map k' with
      | true => exact .inl rfl
      | false => exact .inr ⟨rfl, hset⟩
    · rintro (hold | ⟨-, hset⟩)
      · exact honly.ahead hlt hold
      · exact hset
  have hne : k' ≠ k := hlt.ne'
  rw [map_cons, mem_cons, or_iff_right hne, hrest, SetBefore, SetBefore, hfirst]
  simp only [mem_cons, exists_eq_or_imp, hlt, true_and, or_assoc]

lemma walkBits_walked (doBit : Closure σ) (hks : ks.Pairwise (· < ·)) (s : Walk σ) :
    ∃ visits, (walkBits doBit ks s).1.visits = s.visits ++ visits ∧
      Walked doBit ks s.map (walkBits doBit ks s).2 visits := by
  induction ks generalizing s with
  | nil => exact ⟨[], (append_nil _).symm, nil_sublist _, by simp, fun _ k hk => by cases hk⟩
  | cons k ks ih =>
    obtain ⟨hk, hks'⟩ := pairwise_cons.1 hks
    rw [walkBits]
    cases hbit : bitAt s.map.map k with
    | false =>
      obtain ⟨visits, hv, hw⟩ := ih hks' s
      exact ⟨visits, hv, hw.skip hk hbit⟩
    | true =>
      rw [if_pos rfl]
      by_cases hgo : (s.visit doBit k).2 = true
      · obtain ⟨visits, hv, hw⟩ := ih hks' (s.visit doBit k).1
        rw [if_pos hgo]
        refine ⟨⟨k, s.map, (doBit k s.state s.map).1.2⟩ :: visits, ?_, Walked.visit hw hk hbit⟩
        rw [hv, Walk.visit, append_assoc, singleton_append]
      · rw [if_neg hgo]
        have hstop : Walked doBit ks (doBit k s.state s.map).1.2 false [] :=
          ⟨nil_sublist _, by simp, fun _ _ _ hseen => by simp at hseen⟩
        exact ⟨[⟨k, s.map, (doBit k s.state s.map).1.2⟩], rfl, hstop.visit hk hbit⟩

/-- The searches are exact for every map and range, with any bits after the size. The iteration visits indices of the
range in increasing order and when their bits are set, and leaves none out up to where it stops. -/
theorem bitmap_searches_exact (m : BitMap) (hsize : m.size < 2 ^ 64) (l r : Nat) (hlr : l ≤ r) (hr : r ≤ m.size) :
    (∃ x, m.getNextOneOffsetInline l r = some x ∧ IsNext true m.atIndex l r x) ∧
    (∃ x, m.getNextZeroOffsetInline l r = some x ∧ IsNext false m.atIndex l r x) ∧
    (r % 64 = 0 → ∃ x, m.getNextOneOffsetInlineAlignedRight l r = some x ∧ IsNext true m.atIndex l r x) ∧
    (m.Fits → ∀ (σ : Type) (doBit : Closure σ) (state : σ), ∃ s go, iterate doBit state m l r = some (s, go) ∧
      (s, go) = walkBits doBit (List.range' l (r - l)) ⟨state, m, []⟩ ∧ (s.visits.map Visit.offset).Pairwise (· < ·) ∧
      (∀ v ∈ s.visits, l ≤ v.offset ∧ v.offset < r ∧ v.before.atIndex v.offset = true) ∧
      (OnlyAhead doBit → ∀ k, l ≤ k → k < r → (go = true ∨ ∃ v ∈ s.visits, k ≤ v.offset) →
        (k ∈ s.visits.map Visit.offset ↔ SetBefore m s.visits k))) := by
  have hbits : m.atIndex = bitAt m.map := funext m.atIndex_eq
  rw [hbits]
  refine ⟨BitMap.getNextOneOffsetInline_isNext hlr (hr.trans_lt hsize),
    BitMap.getNextZeroOffsetInline_isNext hlr (hr.trans_lt hsize),
    BitMap.getNextOneOffsetInlineAlignedRight_isNext hlr (hr.trans_lt hsize), fun hfits σ doBit state => ?_⟩
  have hmem : ∀ k, k ∈ range' l (r - l) ↔ l ≤ k ∧ k < r := fun k => by
    rw [mem_range'_1, Nat.add_sub_of_le hlr]
  obtain ⟨visits, hv, hw⟩ := walkBits_walked doBit pairwise_lt_range' ⟨state, m, []⟩
  refine ⟨_, _, iterate_eq hfits doBit state hlr hr, rfl, ?_, fun v hv' => ?_, fun honly k hk hk' hseen => ?_⟩
  · rw [hv]
    exact List.Pairwise.sublist hw.sublist pairwise_lt_range'
  · rw [hv] at hv'
    obtain ⟨hl, hr'⟩ := (hmem v.offset).1 (hw.sublist.subset (mem_map_of_mem hv'))
    refine ⟨hl, hr', ?_⟩
    rw [BitMap.atIndex_eq]
    exact hw.isSet v hv'
  · rw [hv] at hseen ⊢
    exact hw.exact honly k ((hmem k).2 ⟨hk, hk'⟩) hseen

def setAhead : Closure Unit := fun offset state m =>
  ((state, if offset = 1 then { m with map := Function.update m.map 1 (m.map 1 ||| 64#64) } else m), true)

lemma onlyAhead_setAhead : OnlyAhead setAhead := by
  have hbit : ∀ offset m k, bitAt (setAhead offset () m).1.2.map k =
      if offset = 1 ∧ k / 64 = 1 then (m.map 1 ||| 64#64).getLsbD (k % 64) else bitAt m.map k := by
    intro offset m k
    rw [setAhead]
    by_cases hoffset : offset = 1
    · simp only [hoffset, if_true, true_and, bitAt_update]
    · simp only [hoffset, if_false, false_and]
  refine ⟨fun offset _ m k hk hset => ?_, fun offset _ m k hk hword => ?_, fun offset _ m k _ _ hset => ?_⟩
  · rwa [hbit, if_neg (by omega)] at hset
  · rw [hbit, if_neg (by omega)]
  · rw [hbit]
    split
    next h =>
      rw [bitAt, h.2] at hset
      rw [BitVec.getLsbD_or, hset, Bool.true_or]
    · exact hset

/-- Bits 1 and 3 are set. -/
def oneAndThree : BitMap := ⟨fun i => if i = 0 then 10#64 else 0#64, 128⟩

/-- The iteration also visits 70, which the closure sets at 1. -/
theorem bitmap_searches_exact_set_ahead : IsNext true oneAndThree.atIndex 2 128 3 ∧
      ∃ s, iterate setAhead () oneAndThree 0 128 = some (s, true) ∧
        s.visits.map Visit.offset = [1, 3, 70] ∧ SetBefore oneAndThree s.visits 70 := by
  constructor
  · obtain ⟨⟨x, hx, hnext⟩, -⟩ := bitmap_searches_exact oneAndThree (by decide) 2 128 (by decide) (by decide)
    have hthree : some 3 = some x := Eq.trans (by decide +kernel) hx
    cases hthree
    exact hnext
  obtain ⟨-, -, -, hall⟩ := bitmap_searches_exact oneAndThree (by decide) 0 128 (by decide) (by decide)
  obtain ⟨s, go, hs, -, -, -, hexact⟩ := hall (by decide : 128 + 63 < 2 ^ 64) Unit setAhead ()
  have heval : (iterate setAhead () oneAndThree 0 128).map (fun w => (w.1.visits.map Visit.offset, w.2)) =
      some ([1, 3, 70], true) := by decide +kernel
  rw [hs] at heval
  injection heval with heval
  injection heval with hvisits hgo
  cases hgo
  refine ⟨s, hs, hvisits, (hexact onlyAhead_setAhead 70 (by decide) (by decide) (.inl rfl)).1 ?_⟩
  rw [hvisits]
  decide

end Rolp.Bitmap
