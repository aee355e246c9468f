import Rolp.Heap.BlockStart

/-!
# Which splits keep the table exact

The cards of a block hold the distance to its start, and then the largest powers of 16 that stay in the block.
-/

namespace Rolp.Heap.BlockSplitting

open BlockOffsets Function Nat BlockSplitting

variable {array array' : Nat → Nat} {start stop : Nat}

lemma firstCard_eq (p) : firstCard p = (p + 63) / 64 := by
  have hindex : indexFor p = p / 64 := rfl
  have haddr : addressForIndex (indexFor p) = p / 64 * 64 := rfl
  rw [firstCard]
  split
  · omega
  · omega

def endCard (stop : Nat) : Nat := (stop - 1) / 64 + 1

def Points (array : Nat → Nat) (start stop : Nat) : Prop :=
  ∀ d, firstCard start + d < endCard stop →
    array (firstCard start + d) = if d = 0 then 64 * firstCard start - start else nWords + log 16 d

lemma Points.first (h : Points array start stop) (hd : firstCard start < endCard stop) :
    array (firstCard start) = 64 * firstCard start - start := h 0 hd

variable {d : Nat}

lemma Points.rest (h : Points array start stop) (hpos : d ≠ 0) (hd : firstCard start + d < endCard stop) :
    array (firstCard start + d) = nWords + log 16 d := by rw [h d hd, if_neg hpos]

lemma doBlockInternal_eq {α : Type} (start stop : Nat) (otherwise : α) (action : Nat → Nat → Nat → α) :
    doBlockInternal start stop otherwise action =
      if firstCard start < endCard stop then action (64 * firstCard start) (firstCard start) (endCard stop - 1)
      else otherwise := by
  have hcard := firstCard_eq start
  have hend : endCard stop = (stop - 1) / 64 + 1 := rfl
  change (if start ≤ (stop - 1) / 64 * 64 then
      if start ≠ start / 64 * 64 then action (start / 64 * 64 + 64) (start / 64 + 1) ((stop - 1) / 64)
      else action (start / 64 * 64) (start / 64) ((stop - 1) / 64)
    else otherwise) = _
  split
  · have hcards : firstCard start < endCard stop := by omega
    rw [if_pos hcards, hend, Nat.add_sub_cancel]
    split
    · have hfirst : firstCard start = start / 64 + 1 := by omega
      have hboundary : 64 * (start / 64 + 1) = start / 64 * 64 + 64 := by omega
      rw [hfirst, hboundary]
    · have hfirst : firstCard start = start / 64 := by omega
      rw [hfirst, mul_comm]
  · have hcards : ¬firstCard start < endCard stop := by omega
    rw [if_neg hcards]

lemma points_allocBlock (array : Nat → Nat) (hlt : start < stop) (hstop : stop ≤ 2 ^ 61) :
    Points (allocBlock array start stop) start stop := by
  have hcard := firstCard_eq start
  intro d hd
  have hend : endCard stop - 1 < 2 ^ 55 := by
    rw [endCard]
    omega
  rw [allocBlock, singleBlock, doBlockInternal_eq, if_pos (by omega)]
  have hoffset : (64 * firstCard start - start) % 256 = 64 * firstCard start - start := by omega
  simp only [setOffset, hoffset]
  by_cases hzero : d = 0
  · subst hzero
    rw [if_pos rfl]
    simp only [add_zero]
    split
    · rw [setRemainderToPointToStartIncl_eq _ hend, if_neg (by omega), update_self]
    · rw [update_self]
  · rw [if_neg hzero, if_pos (by omega), setRemainderToPointToStartIncl_eq _ hend,
      if_pos (by omega), Nat.add_sub_cancel_left]

/-! ## Queries -/

section

variable (h : Points array start stop)

include h

lemma Points.carefulLoop {turns} (hd : firstCard start + d < endCard stop) (hturns : d < turns) :
    carefulLoop array turns (64 * (firstCard start + d)) (firstCard start + d) = some start := by
  have hcard := firstCard_eq start
  induction d using Nat.strong_induction_on generalizing turns with
  | h d ih =>
    obtain ⟨turns, rfl⟩ := exists_eq_add_one_of_ne_zero (ne_of_gt (zero_lt_of_lt hturns))
    rw [BlockSplitting.carefulLoop]
    by_cases hzero : d = 0
    · subst hzero
      rw [add_zero, h.first hd, nWords, if_pos (by omega)]
      congr 1
      omega
    rw [h.rest hzero hd, if_neg (by omega), entryToCardsBack, Nat.add_sub_cancel_left, powerToCardsBack_eq]
    have hle := pow_log_le_self 16 hzero
    have hpos : 0 < 16 ^ log 16 d := Nat.pow_pos (by decide)
    rw [if_pos (by omega)]
    have hback := ih (d - 16 ^ log 16 d) (by omega) (by omega) (show _ < turns by omega)
    have hindex : firstCard start + d - 16 ^ log 16 d = firstCard start + (d - 16 ^ log 16 d) := by omega
    have hq : 64 * (firstCard start + d) - 16 ^ log 16 d * nWords =
        64 * (firstCard start + (d - 16 ^ log 16 d)) := by
      rw [nWords]
      omega
    rw [hindex, hq, hback]

lemma Points.blockStartCareful {addr} (haddr : addr % 64 = 0) (hle : start ≤ addr)
    (hlt : addr < stop) : blockStartCareful array addr = some start := by
  have hcard := firstCard_eq start
  have hindex : addr / 64 = firstCard start + (addr / 64 - firstCard start) := by omega
  have hend : firstCard start + (addr / 64 - firstCard start) < endCard stop := by
    rw [endCard]
    omega
  have hturns : addr / 64 - firstCard start < addr / 64 + 1 := by omega
  have hq : addr = 64 * (firstCard start + (addr / 64 - firstCard start)) := by omega
  have hloop := h.carefulLoop hend hturns
  rw [← hindex] at hloop hq
  rw [← hq] at hloop
  exact hloop

/-! ## The checks -/

lemma Points.checkCards {n} (hd : firstCard start + d + n = endCard stop) (hpos : 2 ≤ d) :
    checkCards array (firstCard start + 1) n (firstCard start + d) (nWords + log 16 (d - 1)) = true := by
  have hcard := firstCard_eq start
  induction n generalizing d with
  | zero => rfl
  | succ n ih =>
    have hentry : array (firstCard start + d) = nWords + log 16 d := h.rest (by omega) (by omega)
    have hback : entryToCardsBack (nWords + log 16 d) = 16 ^ log 16 d := by
      rw [entryToCardsBack, Nat.add_sub_cancel_left, powerToCardsBack_eq]
    have hle := pow_log_le_self 16 (show d ≠ 0 by omega)
    have hmono : log 16 (d - 1) ≤ log 16 d := log_mono_right (sub_le d 1)
    have hlog : d ≤ 17 ∨ 0 < log 16 d := by
      by_cases hsmall : d ≤ 17
      · exact .inl hsmall
      · exact .inr (log_pos (by decide) (by omega))
    have hone : powerToCardsBack 1 = 16 := rfl
    have hlanding : firstCard start + d - 16 ^ log 16 d = firstCard start + (d - 16 ^ log 16 d) := by omega
    have hrest := ih (d := d + 1) (by omega) (by omega)
    rw [checkCards, hentry, hback, hlanding]
    simp only [Bool.and_eq_true, Bool.or_eq_true, decide_eq_true_eq]
    refine ⟨⟨⟨⟨by omega, by omega⟩, by omega⟩, ?_⟩, hrest⟩
    split
    · have hlog' : log 16 (d - 16 ^ log 16 d) ≤ log 16 d := log_mono_right (sub_le d _)
      rw [decide_eq_true_eq, h.rest (by omega) (by omega)]
      omega
    · have hfirst : d - 16 ^ log 16 d = 0 := by omega
      rw [hfirst, add_zero, h.first (by omega), Bool.and_eq_true, beq_iff_eq, decide_eq_true_eq, nWords]
      omega

lemma Points.checkBlock : checkBlock array start stop = true := by
  rw [BlockSplitting.checkBlock, doBlockInternal_eq]
  split
  next hcard =>
    rw [h.first hcard, beq_self_eq_true, checkAllCards]
    split
    · rfl
    have hone : array (firstCard start + 1) = nWords := h.rest (by decide) (by omega)
    have hcards := h.checkCards (n := endCard stop - 1 - (firstCard start + 1)) (by omega) le_rfl
    rw [hone]
    exact hcards
  · rfl

end

/-! ## Splitting -/

section Split

variable {suff numPref numSuff : Nat}

structure Stage (base array : Nat → Nat) (suff numPref numSuff fixed : Nat) : Prop where
  new : ∀ d, d ≠ 0 → d < fixed → d < numSuff → array (suff + d) = nWords + log 16 d
  old : ∀ d, fixed ≤ d → d < numSuff → array (suff + d) = nWords + log 16 (d + numPref)
  frame : ∀ c, c ≤ suff ∨ suff + numSuff ≤ c → array c = base c

variable {base : Nat → Nat} {fixed i n : Nat}

lemma log_eq (hle : 16 ^ i ≤ d) (hlt : d < 16 ^ (i + 1)) : log 16 d = i := log_eq_of_pow_le_of_lt_pow hle hlt

section

variable (h : Stage base array suff numPref numSuff fixed)

include h

lemma Stage.entry (hpow : 16 ^ i ≤ fixed) (hd : d ≠ 0) (hlt : d < numSuff) (hlow : d + numPref < 16 ^ (i + 1)) :
    array (suff + d) = nWords + log 16 d := by
  by_cases hnew : d < fixed
  · exact h.new d hd hnew hlt
  · rw [h.old d (by omega) hlt, log_eq (by omega) hlow, log_eq (i := i) (by omega) (by omega)]

lemma Stage.last (hpow : 16 ^ i ≤ fixed) (hlast : numSuff + numPref ≤ 16 ^ (i + 1)) :
    Stage base array suff numPref numSuff numSuff :=
  ⟨fun _ hd _ hlt => h.entry hpow hd hlt (by omega), fun _ hle hlt => absurd hlt (not_lt.2 hle), h.frame⟩

lemma Stage.all (hle : numSuff ≤ fixed) : Stage base array suff numPref numSuff numSuff :=
  ⟨fun d hd hlt => h.new d hd (by omega), fun d hle' hlt => absurd hlt (not_lt.2 hle'), h.frame⟩

lemma Stage.power (hpow : 16 ^ i ≤ fixed) (hfixed : fixed ≤ 16 ^ (i + 1)) (hpref : 16 ^ i + numPref ≤ 16 ^ (i + 1))
    {left right} (hleft : left = suff + 16 ^ (i + 1) - numPref)
    (hright : right = min (suff + 16 ^ (i + 1)) (suff + numSuff) - 1) (hpos : 0 < numSuff) :
    Stage base (setOffsetArray array left right (nWords + i)) suff numPref numSuff (16 ^ (i + 1)) := by
  have hpow' : 0 < 16 ^ i := Nat.pow_pos (by decide)
  have hset : ∀ d, setOffsetArray array left right (nWords + i) (suff + d) =
      if 16 ^ (i + 1) ≤ d + numPref ∧ d < 16 ^ (i + 1) ∧ d < numSuff then nWords + i else array (suff + d) := by
    intro d
    exact if_congr (by omega) rfl rfl
  refine ⟨fun d hd hlt hsuff => ?_, fun d hle hsuff => ?_, fun c hc => ?_⟩
  · rw [hset]
    split
    · rw [log_eq (by omega) hlt]
    · exact h.entry hpow hd hsuff (by omega)
  · rw [hset, if_neg (by omega)]
    exact h.old d (by omega) hsuff
  · rw [setOffsetArray, if_neg (by omega)]
    exact h.frame c hc

end

lemma fixRest_stage (h : Stage base array suff numPref numSuff (16 ^ i)) (hi : i + 1 + n = nPowers)
    (hpref : numPref < 16 ^ i) (hpos : 0 < numPref) (hsuff : 0 < numSuff) (hmax : numSuff + numPref ≤ 16 ^ nPowers) :
    Stage base (fixRest suff (suff + numSuff) numPref n (i + 1) array) suff numPref numSuff numSuff := by
  induction n generalizing i array with
  | zero =>
    rw [← hi] at hmax
    exact h.last le_rfl hmax
  | succ n ih =>
    have hentry : nWords + (i + 1) - 1 = nWords + i := rfl
    rw [fixRest, powerToCardsBack_eq]
    dsimp only
    split
    · split
      · exact h.last le_rfl (by omega)
      · exact (h.power le_rfl (by omega) (by omega) (by omega) (by omega) hsuff).all (by omega)
    · exact ih (h.power le_rfl (by omega) (by omega) (by omega) (by omega) hsuff) (by omega) (by omega)

def NearPower (n : Nat) : Prop := ∃ i, 1 ≤ i ∧ i + 1 < nPowers ∧ 16 ^ (i + 1) < n + 16 ^ i ∧ n < 16 ^ (i + 1)

lemma rightIndex_eq (right last : Nat) : (if decide (right ≥ last) = true then last else right) = min right last := by
  split
  next hlast => exact (min_eq_right (of_decide_eq_true hlast)).symm
  next hlast => exact (min_eq_left (le_of_not_ge fun hge => hlast (decide_eq_true hge))).symm

lemma fixFirst_stage (h : Stage base array suff numPref numSuff numPref) (hi : i + 1 + n = nPowers)
    (hpow : 16 ^ i ≤ numPref) (hlt : numPref < numSuff) (hmax : numSuff + numPref ≤ 16 ^ nPowers)
    (hnear : ¬NearPower numPref) :
    ∃ array' more j, fixFirst suff (suff + numSuff) numPref n (i + 1) array = (array', more, j) ∧
      Stage base (if more then fixRest suff (suff + numSuff) numPref (nPowers - j) j array' else array')
        suff numPref numSuff numSuff := by
  induction n generalizing i with
  | zero =>
    refine ⟨array, true, i + 1, rfl, ?_⟩
    rw [hi]
    exact h.last hpow (by rwa [hi])
  | succ n ih =>
    have hpos : 0 < 16 ^ i := Nat.pow_pos (by decide)
    have hentry : nWords + (i + 1) - 1 = nWords + i := rfl
    rw [fixFirst, powerToCardsBack_eq]
    split
    next hgt =>
      have hfits : 16 ^ i + numPref ≤ 16 ^ (i + 1) := by
        by_contra hover
        rcases Nat.eq_zero_or_pos i with rfl | hi'
        · omega
        · exact hnear ⟨i, hi', by omega, by omega, hgt⟩
      have hright : (if decide (suff + 16 ^ (i + 1) - 1 ≥ suff + numSuff - 1) = true then suff + numSuff - 1
          else suff + 16 ^ (i + 1) - 1) = min (suff + 16 ^ (i + 1)) (suff + numSuff) - 1 := by
        rw [rightIndex_eq]
        omega
      rw [hright]
      split
      · have hstage := h.power hpow hgt.le hfits (show suff + 16 ^ (i + 1) - 1 - numPref + 1 = _ by omega)
          rfl (by omega)
        refine ⟨_, _, _, rfl, ?_⟩
        by_cases hlast : suff + 16 ^ (i + 1) - 1 ≥ suff + numSuff - 1
        · rw [decide_eq_true hlast]
          exact hstage.all (by omega)
        · have hrest : nPowers - (i + 1 + 1) = n := by omega
          rw [decide_eq_false hlast]
          exact fixRest_stage hstage (by omega) hgt (by omega) (by omega) hmax
      · refine ⟨_, _, _, rfl, ?_⟩
        exact h.last hpow (by omega)
    · rw [if_neg (by simp; omega)]
      exact ih (by omega) (by omega)

/-! ## Prefixes of almost a power of 16 cards -/

lemma fixRest_below {c} (hi : i + 1 + n = nPowers) (hc : c + numPref < suff + 16 ^ (i + 1)) :
    fixRest suff (suff + numSuff) numPref n (i + 1) array c = array c := by
  induction n generalizing i array with
  | zero => rfl
  | succ n ih =>
    have hsucc : 16 ^ (i + 1 + 1) = 16 * 16 ^ (i + 1) := pow_succ'
    rw [fixRest, powerToCardsBack_eq]
    dsimp only
    split
    · split
      · rfl
      · rw [setOffsetArray, if_neg (by omega)]
    · rw [ih (by omega) (by omega), setOffsetArray, if_neg (by omega)]

lemma fixFirst_near {j} (hj : j + 1 + n = nPowers) (hji : j ≤ i) (hi : i + 1 < nPowers) (hpow : 16 ^ i ≤ numPref)
    (hnext : numPref < 16 ^ (i + 1)) (hlt : numPref < numSuff) (hwithin : 16 ^ (i + 1) < numPref + 16 ^ i) :
    ∃ right more, suff + (16 ^ (i + 1) - numPref) ≤ right ∧ fixFirst suff (suff + numSuff) numPref n (j + 1) array =
        (setOffsetArray array (suff + (16 ^ (i + 1) - numPref)) right (nWords + i), more, i + 2) := by
  induction n generalizing j with
  | zero => omega
  | succ n ih =>
    rw [fixFirst, powerToCardsBack_eq]
    rcases lt_or_eq_of_le hji with hlower | rfl
    · have hle : 16 ^ (j + 1) ≤ 16 ^ i := Nat.pow_le_pow_right (by decide) hlower
      rw [if_neg (by omega), if_neg (by simp; omega)]
      exact ih (by omega) hlower
    have hleft : suff + 16 ^ (j + 1) - 1 - numPref + 1 = suff + (16 ^ (j + 1) - numPref) := by omega
    have hfits : suff + (16 ^ (j + 1) - numPref) ≤
        if decide (suff + 16 ^ (j + 1) - 1 ≥ suff + numSuff - 1) = true then suff + numSuff - 1
        else suff + 16 ^ (j + 1) - 1 := by
      rw [rightIndex_eq]
      omega
    rw [if_pos hnext, hleft, if_pos hfits]
    exact ⟨_, _, hfits, rfl⟩

end Split

lemma firstCard_eq_endCard (h : 0 < stop) : firstCard stop = endCard stop := by
  rw [firstCard_eq, endCard]
  omega

structure Cards (blk blkSize leftBlkSize suff numPref numSuff : Nat) : Prop where
  left_pos : 0 < leftBlkSize
  left_lt : leftBlkSize < blkSize
  end_le : blk + blkSize ≤ 2 ^ 61
  suff_eq : suff = firstCard (blk + leftBlkSize)
  pref_add : firstCard blk + numPref = suff
  suff_add : suff + numSuff = endCard (blk + blkSize)

variable {blk blkSize leftBlkSize suff numPref numSuff : Nat}

lemma cards (hleft : 0 < leftBlkSize) (hlt : leftBlkSize < blkSize) (hend : blk + blkSize ≤ 2 ^ 61) :
    Cards blk blkSize leftBlkSize (firstCard (blk + leftBlkSize)) (firstCard (blk + leftBlkSize) - firstCard blk)
      (endCard (blk + blkSize) - firstCard (blk + leftBlkSize)) := by
  refine ⟨hleft, hlt, hend, rfl, add_sub_of_le ?_, add_sub_of_le ?_⟩
  · rw [firstCard_eq, firstCard_eq]
    omega
  · rw [firstCard_eq, endCard]
    omega

section

variable (hc : Cards blk blkSize leftBlkSize suff numPref numSuff)

include hc

lemma Cards.end_lt : suff + numSuff ≤ 2 ^ 55 := by
  have hend := hc.end_le
  rw [hc.suff_add, endCard]
  omega

lemma Cards.numPref_eq : suff - firstCard blk = numPref := by rw [← hc.pref_add, Nat.add_sub_cancel_left]

lemma Cards.end_eq : indexFor (blk + blkSize - 1) + 1 = suff + numSuff := hc.suff_add.symm

lemma Cards.left_end : endCard (blk + leftBlkSize) = suff := by
  rw [← firstCard_eq_endCard (Nat.add_pos_right blk hc.left_pos), hc.suff_eq]

lemma splitBlock_stage (h : Points array blk (blk + blkSize))
    (hpos : 0 < numSuff) (hnear : numPref < numSuff → ¬NearPower numPref) :
    Stage (setOffset array suff (addressForIndex suff) (blk + leftBlkSize))
      (splitBlock array blk blkSize leftBlkSize) suff
      numPref numSuff numSuff := by
  have hsmall := hc.end_lt
  rw [splitBlock, ← hc.suff_eq, hc.end_eq, hc.numPref_eq, Nat.add_sub_cancel_left, if_pos hpos]
  generalize hbase : setOffset array suff (addressForIndex suff) (blk + leftBlkSize) = base
  have hold : ∀ d, d ≠ 0 → d < numSuff → base (suff + d) = nWords + log 16 (d + numPref) := by
    intro d hd hd'
    have hentry := h.rest (d := d + numPref) (by omega) (by rw [← hc.suff_add, ← hc.pref_add]; omega)
    rw [add_comm d, ← add_assoc, hc.pref_add, add_comm numPref] at hentry
    rw [← hbase, setOffset, update_of_ne (by omega), hentry]
  split
  · split
    · refine ⟨fun d hd _ hd' => ?_, fun d hle hd' => absurd hd' (not_lt.2 hle), fun c hc => ?_⟩
      · rw [setRemainderToPointToStartIncl_eq _ (by omega), if_pos (by omega), Nat.add_sub_cancel_left]
      · rw [setRemainderToPointToStartIncl_eq _ (by omega), if_neg (by omega)]
    have hstage : Stage base (setRemainderToPointToStartIncl base (suff + 1) (suff + numPref - 1)) suff numPref numSuff
        numPref := by
      refine ⟨fun d hd hd' _ => ?_, fun d hle hd' => ?_, fun c hc => ?_⟩
      · rw [setRemainderToPointToStartIncl_eq _ (by omega), if_pos (by omega), Nat.add_sub_cancel_left]
      · rw [setRemainderToPointToStartIncl_eq _ (by omega), if_neg (by omega)]
        exact hold d (by omega) hd'
      · rw [setRemainderToPointToStartIncl_eq _ (by omega), if_neg (by omega)]
    have hmax : 16 ^ nPowers = 2 ^ 56 := by decide
    obtain ⟨array', more, j, heq, hdone⟩ := fixFirst_stage (i := 0) (n := nPowers - 1) hstage (by decide)
      (by omega) (by omega) (by omega) (hnear (by omega))
    dsimp only
    rw [heq]
    exact hdone
  · have hzero' : numPref = 0 := by omega
    refine ⟨fun d hd _ hd' => ?_, fun d hle hd' => absurd hd' (not_lt.2 hle), fun c hc => rfl⟩
    rw [hold d hd hd', hzero', add_zero]

lemma points_splitBlock (h : Points array blk (blk + blkSize)) (hnear : numPref < numSuff → ¬NearPower numPref) :
    Points (splitBlock array blk blkSize leftBlkSize) blk (blk + leftBlkSize) ∧
      Points (splitBlock array blk blkSize leftBlkSize) (blk + leftBlkSize) (blk + blkSize) := by
  have hcard := firstCard_eq (blk + leftBlkSize)
  have hlast := hc.left_end
  have hsuff := hc.suff_add
  rcases Nat.eq_zero_or_pos numSuff with hzero | hpos
  · have hsame : splitBlock array blk blkSize leftBlkSize = array := by
      rw [splitBlock, ← hc.suff_eq, hc.end_eq, if_neg (by omega)]
    rw [hsame]
    refine ⟨fun d hd => h d (by omega), fun d hd => ?_⟩
    rw [← hc.suff_eq] at hd
    omega
  have hstage := splitBlock_stage hc h hpos hnear
  constructor
  · intro d hd
    rw [hstage.frame _ (.inl (by omega)), setOffset, update_of_ne (by omega)]
    exact h d (by omega)
  intro d hd
  rw [← hc.suff_eq] at hd ⊢
  by_cases hd0 : d = 0
  · have hoffset : (suff * nWords - (blk + leftBlkSize)) % 256 = 64 * suff - (blk + leftBlkSize) := by
      rw [hc.suff_eq, nWords]
      omega
    rw [hd0, add_zero, hstage.frame _ (.inl le_rfl), if_pos rfl, setOffset, update_self, addressForIndex, hoffset]
  · rw [if_neg hd0]
    exact hstage.new d hd0 (by omega) (by omega)

variable {i : Nat} (hlt : numPref < numSuff) (hi : i + 1 < nPowers) (hwithin : 16 ^ (i + 1) < numPref + 16 ^ i)
  (hnext : numPref < 16 ^ (i + 1))

include hlt hi hwithin hnext

lemma splitBlock_near (array) :
    splitBlock array blk blkSize leftBlkSize (suff + (16 ^ (i + 1) - numPref)) = nWords + i ∧
      ∀ c, c < suff → splitBlock array blk blkSize leftBlkSize c = array c := by
  have hsmall := hc.end_lt
  have hend : suff + numPref - 1 < 2 ^ 55 := by omega
  rw [splitBlock, ← hc.suff_eq, hc.end_eq, hc.numPref_eq, if_pos (by omega), if_pos (by omega), if_neg (by omega)]
  generalize hbase : setRemainderToPointToStartIncl (setOffset array suff (addressForIndex suff) (blk + leftBlkSize))
    (suff + 1) (suff + numPref - 1) = base
  have hfirst : ∃ right more, suff + (16 ^ (i + 1) - numPref) ≤ right ∧
      fixFirst suff (suff + numSuff) numPref (nPowers - 1) 1 base =
        (setOffsetArray base (suff + (16 ^ (i + 1) - numPref)) right (nWords + i), more, i + 2) :=
    fixFirst_near (by decide) (zero_le i) hi (by omega) hnext hlt hwithin
  obtain ⟨right, more, hright, hfix⟩ := hfirst
  rw [hfix]
  dsimp only
  have hrest : ∀ array' c, c + numPref < suff + 16 ^ (i + 1 + 1) →
      (if more = true then fixRest suff (suff + numSuff) numPref (nPowers - (i + 2)) (i + 2) array' else array') c =
        array' c := by
    intro array' c hc
    split
    · exact fixRest_below (by omega) hc
    · rfl
  refine ⟨?_, fun c hlow => ?_⟩
  · rw [hrest _ _ (by omega), setOffsetArray, if_pos ⟨le_rfl, hright⟩]
  · rw [hrest _ _ (by omega), setOffsetArray, if_neg (by omega), ← hbase, setRemainderToPointToStartIncl_eq _ hend,
      if_neg (by omega), setOffset, update_of_ne (by omega)]

lemma blockStartCareful_near (h : Points array blk (blk + blkSize)) :
    blockStartCareful (splitBlock array blk blkSize leftBlkSize) (64 * (suff + (16 ^ (i + 1) - numPref))) =
      some blk := by
  obtain ⟨hentry, hkept⟩ := splitBlock_near hc hlt hi hwithin hnext array
  have hpref := hc.pref_add
  have hsuff := hc.suff_add
  have hlast := hc.left_end
  have hpoints : Points (splitBlock array blk blkSize leftBlkSize) blk (blk + leftBlkSize) := by
    intro d hd
    rw [hlast] at hd
    rw [hkept _ hd]
    exact h d (by omega)
  have hindex : indexFor (64 * (suff + (16 ^ (i + 1) - numPref))) = suff + (16 ^ (i + 1) - numPref) :=
    Nat.mul_div_cancel_left _ (by decide)
  have hback : suff + (16 ^ (i + 1) - numPref) - 16 ^ i = firstCard blk + 15 * 16 ^ i := by omega
  have hq : 64 * (suff + (16 ^ (i + 1) - numPref)) - 16 ^ i * nWords = 64 * (firstCard blk + 15 * 16 ^ i) := by
    rw [nWords]
    omega
  rw [blockStartCareful, hindex, carefulLoop, hentry, if_neg (by omega), entryToCardsBack,
    Nat.add_sub_cancel_left, powerToCardsBack_eq, if_pos (by omega), hback, hq]
  exact hpoints.carefulLoop (by omega) (by omega)

end

def Exact (array : Nat → Nat) (start stop : Nat) : Prop :=
  (∀ addr, addr % 64 = 0 → start ≤ addr → addr < stop → blockStartCareful array addr = some start) ∧
    checkBlock array start stop = true

lemma Points.exact (h : Points array start stop) : Exact array start stop :=
  ⟨fun _ haddr hle hlt => h.blockStartCareful haddr hle hlt, h.checkBlock⟩

/-- Both parts are exact after the split if and only if the prefix does not have almost a power of 16 cards and fewer
than the suffix. -/
theorem split_block_keeps_offset_table (array : Nat → Nat) (blk blkSize leftBlkSize : Nat) (hleft : 0 < leftBlkSize)
    (hlt : leftBlkSize < blkSize) (hend : blk + blkSize ≤ 2 ^ 61) :
    (Exact (splitBlock (allocBlock array blk (blk + blkSize)) blk blkSize leftBlkSize) blk (blk + leftBlkSize) ∧
      Exact (splitBlock (allocBlock array blk (blk + blkSize)) blk blkSize leftBlkSize) (blk + leftBlkSize)
        (blk + blkSize)) ↔
    (firstCard (blk + leftBlkSize) - firstCard blk < endCard (blk + blkSize) - firstCard (blk + leftBlkSize) →
      ¬NearPower (firstCard (blk + leftBlkSize) - firstCard blk)) := by
  have hc := cards hleft hlt hend
  have hpoints : Points (allocBlock array blk (blk + blkSize)) blk (blk + blkSize) :=
    points_allocBlock array (by omega) hend
  constructor
  · rintro ⟨-, hsuff, -⟩ hless ⟨i, -, hi, hwithin, hnext⟩
    have hstart := blockStartCareful_near hc hless hi hwithin hnext hpoints
    have hcard := firstCard_eq (blk + leftBlkSize)
    have hlast : endCard (blk + blkSize) = (blk + blkSize - 1) / 64 + 1 := rfl
    rw [hsuff _ (mul_mod_right 64 _) (by omega) (by omega), Option.some.injEq] at hstart
    omega
  · intro hnear
    obtain ⟨hpref, hsuff⟩ := points_splitBlock hc hpoints hnear
    exact ⟨hpref.exact, hsuff.exact⟩

theorem split_block_keeps_offset_table_100_cards :
    blockStartCareful (splitBlock (allocBlock (fun _ => 0) 0 38400) 0 38400 6400) 12800 = some 6400 ∧
      checkBlock (splitBlock (allocBlock (fun _ => 0) 0 38400) 0 38400 6400) 6400 38400 = true := by
  have hnear : ¬NearPower (firstCard (0 + 6400) - firstCard 0) := by
    rintro ⟨i, hi, -, hover, -⟩
    have hcards : firstCard (0 + 6400) - firstCard 0 = 100 := by decide
    have hpow : 16 ^ 1 ≤ 16 ^ i := Nat.pow_le_pow_right (by decide) hi
    omega
  obtain ⟨-, hsuff, hcheck⟩ :=
    (split_block_keeps_offset_table (fun _ => 0) 0 38400 6400 (by decide) (by decide) (by decide)).2 fun _ => hnear
  have hstart := hsuff 12800 (by decide) (by decide) (by decide)
  exact ⟨hstart, hcheck⟩

/-- A block of 600 cards is split after 250: the sixth card of the second part leads 16 cards back to the start of the
first part. -/
theorem split_block_250_cards_leads_to_prefix :
    blockStartCareful (splitBlock (allocBlock (fun _ => 0) 0 38400) 0 38400 16000) 16384 = some 0 ∧
      checkBlock (splitBlock (allocBlock (fun _ => 0) 0 38400) 0 38400 16000) 16000 38400 = false := by
  decide +kernel

end Rolp.Heap.BlockSplitting
