import Rolp.Heap.BlockOffsets
import Rolp.Lib.HashTable
import Rolp.Lib.Tiling
import Mathlib.Data.Nat.Log

/-!
# What the entries of a block offset table mean

An entry leads to the start of a block, or back to an earlier card.
-/

namespace Rolp.Heap.BlockOffsets

open Rolp.Lib Region Function Nat

/-! ## Cards -/

namespace Region

variable {r : Region} {p addr : Nat}

def bottomIndex (r : Region) : Nat := r.indexFor (8 * r.bottom)

lemma indexFor_word (r : Region) (p : Nat) : r.indexFor (8 * p) = (p - r.reservedStart) / 64 := by
  rw [indexFor, ← Nat.mul_sub]
  exact Nat.mul_div_mul_left (p - r.reservedStart) 64 (by decide)

lemma addressForIndex_le (hp : r.reservedStart ≤ p) :
    r.addressForIndex (r.indexFor (8 * p)) ≤ p ∧ p < r.addressForIndex (r.indexFor (8 * p)) + nWords := by
  rw [indexFor_word, addressForIndex, nWords]
  omega

lemma isCardBoundary_iff (hp : r.reservedStart ≤ p) :
    r.isCardBoundary p = true ↔ r.addressForIndex (r.indexFor (8 * p)) = p := by
  rw [isCardBoundary, decide_eq_true_eq, indexFor_word, addressForIndex, nWords]
  omega

lemma addressForIndex_succ (r : Region) (index : Nat) :
    r.addressForIndex (index + 1) = r.addressForIndex index + nWords := by
  rw [addressForIndex, addressForIndex, add_mul]
  omega

lemma addressForIndex_add (r : Region) (index n : Nat) :
    r.addressForIndex (index + n) = r.addressForIndex index + nWords * n := by
  rw [addressForIndex, addressForIndex, add_mul, mul_comm n]
  omega

lemma addressForIndex_bottomIndex (r : Region) : r.addressForIndex r.bottomIndex = r.bottom := by
  have hle := r.reserved_le
  have haligned := r.aligned
  rw [bottomIndex, indexFor_word, addressForIndex]
  rw [nWords] at *
  omega

lemma indexFor_addressForIndex (r : Region) (index : Nat) : r.indexFor (8 * r.addressForIndex index) = index := by
  rw [indexFor_word, addressForIndex, nWords]
  omega

lemma indexFor_mono {p p'} (h : p ≤ p') : r.indexFor (8 * p) ≤ r.indexFor (8 * p') := by
  rw [indexFor_word, indexFor_word]
  omega

lemma indexFor_eq (r : Region) (addr : Nat) : r.indexFor addr = r.indexFor (8 * (addr / 8)) := by
  rw [indexFor_word, indexFor]
  omega

lemma indexFor_lt (hp : p < r.endAddr) : r.indexFor (8 * p) < 2 ^ 55 := by
  have hend := r.end_le
  rw [indexFor_word]
  omega

end Region

/-! ## Back skips -/

lemma powerToCardsBack_pos (i) : 0 < powerToCardsBack i := Nat.two_pow_pos _

lemma powerToCardsBack_eq (i) : powerToCardsBack i = 16 ^ i := pow_mul 2 4 i

lemma powerToCardsBack_le_succ (i) : powerToCardsBack i ≤ powerToCardsBack (i + 1) :=
  Nat.pow_le_pow_right (by decide) (by omega)

/-- The entry goes back by a power of 16, to `lo` or a card after it. -/
def BackSkip (lo index entry : Nat) : Prop := ∃ k < nPowers, entry = nWords + k ∧ lo + powerToCardsBack k ≤ index

variable {index entry : Nat}

lemma BackSkip.mono {lo lo'} (h : BackSkip lo index entry) (hlo : lo' ≤ lo) : BackSkip lo' index entry := by
  obtain ⟨k, hk, hentry, hle⟩ := h
  exact ⟨k, hk, hentry, by omega⟩

lemma remainderLoop_eq {startCard endCard} (hend : endCard < startCard - 1 + powerToCardsBack nPowers)
    {powers i region} (array) (hi : i + powers = nPowers)
    (hregion : region = startCard - 1 + powerToCardsBack i) (index) :
    remainderLoop startCard endCard powers i region array index =
      if region ≤ index ∧ index ≤ endCard then nWords + log 16 (index - (startCard - 1)) else array index := by
  induction powers generalizing i region array with
  | zero =>
    subst hi
    rw [remainderLoop, if_neg (by omega)]
  | succ powers ih =>
    have hpos := powerToCardsBack_pos (i + 1)
    have hlog : region ≤ index → index ≤ startCard - 1 + (powerToCardsBack (i + 1) - 1) →
        nWords + i = nWords + log 16 (index - (startCard - 1)) := by
      intro hle hreach
      rw [powerToCardsBack_eq] at hregion hpos hreach
      have heq : log 16 (index - (startCard - 1)) = i := log_eq_of_pow_le_of_lt_pow (by omega) (by omega)
      rw [heq]
    rw [remainderLoop]
    split
    · rw [setOffsetArray]
      split
      next hreach hin => exact hlog hin.1 (hin.2.trans hreach)
      · rfl
    · have hmono := powerToCardsBack_le_succ i
      rw [ih _ (by omega) (by omega), setOffsetArray]
      by_cases hin : region ≤ index ∧ index ≤ startCard - 1 + (powerToCardsBack (i + 1) - 1)
      · rw [if_neg (by omega), if_pos hin, if_pos (by omega)]
        exact hlog hin.1 hin.2
      · rw [if_neg hin]
        exact if_congr (by omega) rfl rfl

lemma setRemainderToPointToStartIncl_eq (array) {endIndex} (hend : endIndex < 2 ^ 55) (i) :
    setRemainderToPointToStartIncl array (index + 1) endIndex i =
      if index < i ∧ i ≤ endIndex then nWords + log 16 (i - index) else array i := by
  have hone : powerToCardsBack 0 = 1 := rfl
  have hmax : powerToCardsBack nPowers = 2 ^ 56 := rfl
  rw [setRemainderToPointToStartIncl]
  split
  · rw [if_neg (by omega)]
  · rw [remainderLoop_eq (by omega) array (by omega) (by omega)]
    rfl

lemma backSkip_log {lo} (h : lo < index) (hlt : index < 2 ^ 56) : BackSkip lo index (nWords + log 16 (index - lo)) := by
  refine ⟨log 16 (index - lo), log_lt_of_lt_pow (by omega) ?_, rfl, ?_⟩
  · have hmax : 16 ^ nPowers = 2 ^ 56 := by decide
    omega
  · have hle := pow_log_le_self 16 (show index - lo ≠ 0 by omega)
    rw [powerToCardsBack_eq]
    omega

lemma setRemainderToPointToStart_spec (r : Region) (array : Nat → Nat) {endIndex}
    (hle : index + 1 ≤ endIndex) (hend : endIndex < 2 ^ 55) (i : Nat) :
    (index + 1 ≤ i ∧ i ≤ endIndex ∧ BackSkip index i (setRemainderToPointToStart r array
        (r.addressForIndex (index + 1)) (r.addressForIndex endIndex + nWords) i)) ∨
      ((i < index + 1 ∨ endIndex < i) ∧ setRemainderToPointToStart r array
        (r.addressForIndex (index + 1)) (r.addressForIndex endIndex + nWords) i = array i) := by
  have hlt : ¬r.addressForIndex (index + 1) ≥ r.addressForIndex endIndex + nWords := by
    rw [addressForIndex, addressForIndex, nWords]
    omega
  have hlast : r.indexFor (8 * (r.addressForIndex endIndex + nWords - 1)) = endIndex := by
    rw [indexFor_word, addressForIndex, nWords]
    omega
  rw [setRemainderToPointToStart, if_neg hlt, indexFor_addressForIndex, hlast,
    setRemainderToPointToStartIncl_eq array hend]
  split
  next hin => exact .inl ⟨hin.1, hin.2, backSkip_log hin.1 (by omega)⟩
  · exact .inr ⟨by omega, rfl⟩

lemma allocBlockWork2_spec {r} (array : Nat → Nat) {blkStart blkEnd}
    (hstart : r.addressForIndex index ≤ blkStart + nWords) (hlt : r.addressForIndex index < blkEnd)
    (hend : blkEnd ≤ r.endAddr) : ∃ array' endIndex,
      allocBlockWork2 r array (r.addressForIndex index) index blkStart blkEnd =
        (array', r.addressForIndex (endIndex + 1), endIndex + 1) ∧
      index ≤ endIndex ∧ blkEnd ≤ r.addressForIndex (endIndex + 1) ∧
      r.addressForIndex (endIndex + 1) < blkEnd + nWords ∧ ∀ i, ((i < index ∨ endIndex < i) ∧ array' i = array i) ∨
        (i = index ∧ array' i = r.addressForIndex index - blkStart) ∨ BackSkip index i (array' i) := by
  have hreserved : r.reservedStart ≤ r.addressForIndex index := le_add_right _ _
  obtain ⟨hcard, hcard'⟩ := addressForIndex_le (r := r) (p := blkEnd - 1) (by omega)
  have hmono : index ≤ r.indexFor (8 * (blkEnd - 1)) := by
    have := indexFor_mono (r := r) (le_sub_one_of_lt hlt)
    rwa [indexFor_addressForIndex] at this
  have hsmall : r.indexFor (8 * (blkEnd - 1)) < 2 ^ 55 := indexFor_lt (by omega)
  have hdelta : (r.addressForIndex index - blkStart) % 256 = r.addressForIndex index - blkStart := by
    rw [nWords] at hstart
    omega
  rw [allocBlockWork2, hdelta]
  generalize r.indexFor (8 * (blkEnd - 1)) = endIndex at hcard hcard' hmono hsmall
  refine ⟨_, endIndex, by rw [r.addressForIndex_succ endIndex], hmono, ?_, ?_, fun i => ?_⟩
  · rw [addressForIndex_succ]
    omega
  · rw [addressForIndex_succ]
    omega
  have hfirst : (i < index ∨ index < i) ∧
        update array index (r.addressForIndex index - blkStart) i = array i ∨
      i = index ∧ update array index (r.addressForIndex index - blkStart) i =
        r.addressForIndex index - blkStart := by
    by_cases hi : i = index
    · subst hi
      exact .inr ⟨rfl, update_self ..⟩
    · exact .inl ⟨by omega, update_of_ne hi ..⟩
  generalize update array index (r.addressForIndex index - blkStart) = array1 at hfirst
  split
  next hmore =>
    rcases setRemainderToPointToStart_spec r array1 hmore hsmall i with ⟨-, -, hback⟩ | ⟨hout, hsame⟩
    · exact .inr (.inr hback)
    rw [hsame]
    rcases hfirst with ⟨hne, heq⟩ | hself
    · exact .inl ⟨by omega, heq⟩
    · exact .inr (.inl hself)
  · rcases hfirst with ⟨hne, heq⟩ | hself
    · exact .inl ⟨by omega, heq⟩
    · exact .inr (.inl hself)

/-! ## Entries -/

variable {m : Nat}

section Entries

variable {r : Region} {objs : List (Nat × Nat)} {array array' : Nat → Nat}

def Boundary (r : Region) (objs : List (Nat × Nat)) (q : Nat) : Prop := q = r.bottom ∨ ∃ o ∈ objs, o.1 = q

def EntryOk (r : Region) (objs : List (Nat × Nat)) (index entry : Nat) : Prop :=
  (∃ q, entry < nWords ∧ q + entry = r.addressForIndex index ∧ Boundary r objs q) ∨
    BackSkip r.bottomIndex index entry

lemma EntryOk.lt (h : EntryOk r objs index entry) : entry < nWords + nPowers := by
  rcases h with ⟨q, hlt, -⟩ | ⟨k, hk, rfl, -⟩
  · exact Nat.lt_add_right nPowers hlt
  · exact Nat.add_lt_add_left hk nWords

lemma EntryOk.mono {objs'} (hobjs : ∀ q, Boundary r objs q → Boundary r objs' q)
    (h : EntryOk r objs index entry) : EntryOk r objs' index entry := by
  rcases h with ⟨q, hlt, hq, hboundary⟩ | hback
  · exact .inl ⟨q, hlt, hq, hobjs q hboundary⟩
  · exact .inr hback

def EntriesOk (r : Region) (objs : List (Nat × Nat)) (array : Nat → Nat) (index : Nat) : Prop :=
  ∀ i, r.bottomIndex ≤ i → i < index → EntryOk r objs i (array i)

def Written (array array' : Nat → Nat) : Prop := ∀ i, array' i = array i ∨ array' i < nWords + nPowers

lemma Written.trans {array''} (h : Written array array') (h' : Written array' array'') : Written array array'' := by
  intro i
  rcases h' i with heq | hlt
  · rw [heq]
    exact h i
  · exact .inr hlt

lemma allocBlockWork2_entriesOk {blkStart blkEnd} (hentries : EntriesOk r objs array m)
    (hboundary : Boundary r objs blkStart) (hindex : r.bottomIndex < index) (hle : blkStart ≤ r.addressForIndex index)
    (hstart : r.addressForIndex index ≤ blkStart + nWords) (hlt : r.addressForIndex index < blkEnd)
    (hend : blkEnd ≤ r.endAddr) : ∃ array' endIndex,
      allocBlockWork2 r array (r.addressForIndex index) index blkStart blkEnd =
        (array', r.addressForIndex (endIndex + 1), endIndex + 1) ∧
      index ≤ endIndex ∧ blkEnd ≤ r.addressForIndex (endIndex + 1) ∧
      r.addressForIndex (endIndex + 1) < blkEnd + nWords ∧ Written array array' ∧
      EntriesOk r objs array' m ∧ (m = index → EntriesOk r objs array' (endIndex + 1)) := by
  obtain ⟨array', endIndex, hwork, hmono, hge, hnear, hcases⟩ := allocBlockWork2_spec array hstart hlt hend
  have hnew : ∀ i, (i = index ∧ array' i = r.addressForIndex index - blkStart) ∨ BackSkip index i (array' i) →
      EntryOk r objs i (array' i) := by
    rintro i (⟨rfl, hentry⟩ | hback)
    · rw [hentry]
      by_cases hfull : r.addressForIndex i - blkStart < nWords
      · exact .inl ⟨blkStart, hfull, by omega, hboundary⟩
      · -- The first block of a region starts a whole card before the first threshold.
        exact .inr ⟨0, by decide, by omega, hindex⟩
    · exact .inr (hback.mono (le_of_lt hindex))
  refine ⟨array', endIndex, hwork, hmono, hge, hnear, fun i => ?_, fun i hi hm => ?_, fun hm i hi hlt => ?_⟩
  · rcases hcases i with ⟨-, hsame⟩ | hwritten
    · exact .inl hsame
    · exact .inr (hnew i hwritten).lt
  · rcases hcases i with ⟨-, hsame⟩ | hwritten
    · rw [hsame]
      exact hentries i hi hm
    · exact hnew i hwritten
  · rcases hcases i with ⟨hout, hsame⟩ | hwritten
    · rw [hsame]
      exact hentries i hi (by omega)
    · exact hnew i hwritten

lemma backSkipLoop_spec (hentries : EntriesOk r objs array m) {turns}
    (hbottom : r.bottomIndex ≤ index) (hm : index < m) (hturns : index < turns) :
    ∃ q, backSkipLoop r array turns (r.addressForIndex index) index = some q ∧ q ≤ r.addressForIndex index ∧
      Boundary r objs q := by
  induction turns generalizing index with
  | zero => cases hturns
  | succ turns ih =>
    rw [backSkipLoop]
    rcases hentries index hbottom hm with ⟨q, hlt, hq, hboundary⟩ | ⟨k, hk, hentry, hle⟩
    · rw [if_neg (not_le.2 hlt), ← hq, Nat.add_sub_cancel]
      exact ⟨q, rfl, le_add_right _ _, hboundary⟩
    have hpos := powerToCardsBack_pos k
    have hcards : entryToCardsBack (array index) = powerToCardsBack k := by
      rw [entryToCardsBack, hentry, Nat.add_sub_cancel_left]
    obtain ⟨index', rfl⟩ : ∃ index', index = index' + powerToCardsBack k := ⟨index - powerToCardsBack k, by omega⟩
    have hbottom' : r.bottom ≤ r.addressForIndex index' := by
      rw [← r.addressForIndex_bottomIndex]
      exact Nat.add_le_add_left (Nat.mul_le_mul_right _ (by omega)) _
    rw [if_pos (by rw [hentry]; exact le_add_right _ _), hcards, addressForIndex_add,
      if_pos (Nat.add_le_add_right hbottom' _), Nat.add_sub_cancel, Nat.add_sub_cancel]
    have hturns' : index' < turns := by omega
    obtain ⟨q, hloop, hq, hboundary⟩ := ih (by omega) (by omega) hturns'
    exact ⟨q, hloop, le_add_right_of_le hq, hboundary⟩

end Entries

/-! ## Queries -/

section Queries

variable {r : Region} {sp : Space} {o : Nat × Nat} {addr : Nat}

section

variable (htiles : Tiles r.bottom sp.objs sp.top)

include htiles

lemma objectAt_of_mem (ho : o ∈ sp.objs) : sp.objectAt o.1 = some o :=
  (find?_key_eq_some_iff htiles.nodup_starts).2 ⟨ho, rfl⟩

lemma klassIsNull_of_mem (ho : o ∈ sp.objs) : sp.klassIsNull o.1 = false := by
  rw [Space.klassIsNull, objectAt_of_mem htiles ho, Option.isNone_some]

lemma size_of_mem (ho : o ∈ sp.objs) : sp.size o.1 = o.2 := by
  rw [Space.size, objectAt_of_mem htiles ho, Option.map_some, Option.getD_some]

lemma stepOver_spec {more} (hmore : ∀ n, more n = true → n < sp.top) (ho : o ∈ sp.objs) (turns)
    (hturns : sp.top < turns + (o.1 + o.2)) :
    ∃ o' ∈ sp.objs, stepOver sp more turns o.1 (o.1 + o.2) = some (.object o'.1 (o'.1 + o'.2)) ∧
      more (o'.1 + o'.2) = false ∧ (o' = o ∨ more o'.1 = true ∧ o.1 + o.2 ≤ o'.1) := by
  induction turns generalizing o with
  | zero =>
    have hwithin := htiles.within o ho
    omega
  | succ turns ih =>
    rw [stepOver]
    by_cases hn : more (o.1 + o.2) = true
    · obtain ⟨next, hnext, hstart⟩ := htiles.exists_next ho (hmore _ hn)
      have hpos := htiles.pos next hnext
      obtain ⟨o', ho', hloop, hend, hlast⟩ := ih hnext (by omega)
      rw [if_pos hn, ← hstart, klassIsNull_of_mem htiles hnext, size_of_mem htiles hnext]
      refine ⟨o', ho', by simpa using hloop, hend, .inr ?_⟩
      rcases hlast with rfl | ⟨hmore', hle⟩
      · exact ⟨by rw [hstart]; exact hn, le_rfl⟩
      · exact ⟨hmore', by omega⟩
    · rw [if_neg hn]
      exact ⟨o, ho, rfl, Bool.eq_false_of_not_eq_true hn, .inl rfl⟩

end

def Contains (o : Nat × Nat) (addr : Nat) : Prop := 8 * o.1 ≤ addr ∧ addr < 8 * (o.1 + o.2)

lemma forwardToBlockContainingAddrConst_spec (htiles : Tiles r.bottom sp.objs sp.top) (haddr : addr < 8 * sp.top)
    (ho : o ∈ sp.objs) (hle : 8 * o.1 ≤ addr) :
    ∃ o' ∈ sp.objs, forwardToBlockContainingAddrConst sp o.1 (o.1 + o.2) addr = some o'.1 ∧ Contains o' addr := by
  have hmore : ∀ n, decide (8 * n ≤ addr) = true → n < sp.top := fun n hn => by
    have := of_decide_eq_true hn
    omega
  obtain ⟨o', ho', hwalk, hend, hlast⟩ := stepOver_spec htiles hmore ho (sp.top + 1) (by omega)
  refine ⟨o', ho', ?_, ?_, Nat.lt_of_not_le (of_decide_eq_false hend)⟩
  · rw [forwardToBlockContainingAddrConst, if_neg (not_le.2 haddr), hwalk]
  · rcases hlast with rfl | ⟨hle', -⟩
    · exact hle
    · exact of_decide_eq_true hle'

lemma refineLoop_spec (htiles : Tiles r.bottom sp.objs sp.top) (htop : sp.top ≤ r.endAddr)
    (haddr : addr < 8 * sp.top) {array turns} (hentries : EntriesOk r sp.objs array m)
    (ho : o ∈ sp.objs) (hle : 8 * o.1 ≤ addr) (hindex : r.bottomIndex < index)
    (hn : o.1 + o.2 ≤ r.addressForIndex index) (hnear : r.addressForIndex index < o.1 + o.2 + nWords)
    (hpos : 0 < turns) (hturns : sp.top < turns + r.addressForIndex index) : ∃ array', ∃ o' ∈ sp.objs,
      refineLoop r sp addr turns array o.1 (o.1 + o.2) (r.addressForIndex index) index =
        some (array', .object o'.1 (o'.1 + o'.2)) ∧
      8 * o'.1 ≤ addr ∧ EntriesOk r sp.objs array' m ∧ Written array array' := by
  induction turns generalizing array o index with
  | zero => cases hpos
  | succ turns ih =>
    rw [refineLoop]
    by_cases hbefore : 8 * r.addressForIndex index < addr
    · have hmore : ∀ n, decide (n ≤ r.addressForIndex index) = true → n < sp.top := fun n hn => by
        have := of_decide_eq_true hn
        omega
      obtain ⟨o', ho', hwalk, hcross, hlast⟩ := stepOver_spec htiles hmore ho (sp.top + 1) (by omega)
      have hcross := Nat.lt_of_not_le (of_decide_eq_false hcross)
      obtain ⟨hstart, hafter⟩ : o'.1 ≤ r.addressForIndex index ∧ o.1 + o.2 ≤ o'.1 := by
        rcases hlast with rfl | ⟨hstart, hafter⟩
        · omega
        · exact ⟨of_decide_eq_true hstart, hafter⟩
      have hwithin := htiles.within o' ho'
      obtain ⟨array1, endIndex, hwork, hmono, hge, hnear', hwritten, hentries1, -⟩ :=
        allocBlockWork2_entriesOk hentries (.inr ⟨o', ho', rfl⟩) hindex hstart (by omega) hcross (by omega)
      obtain ⟨array', o'', ho'', hloop, hle'', hentries', hwritten'⟩ :=
        ih hentries1 ho' (by omega) (by omega) hge hnear' (by omega) (by omega)
      refine ⟨array', o'', ho'', ?_, hle'', hentries', hwritten.trans hwritten'⟩
      rw [if_pos hbefore, hwalk]
      dsimp only
      rw [hwork]
      exact hloop
    · rw [if_neg hbefore]
      exact ⟨array, o, ho, rfl, hle, hentries, fun i => .inl rfl⟩

lemma forwardToBlockContainingAddrSlow_boundary {n} (hn : r.bottom < n) :
    ∃ index, (if r.isCardBoundary n then r.indexFor (8 * n) else r.indexFor (8 * n) + 1) = index ∧
      (r.addressForIndex (r.indexFor (8 * n)) + if r.indexFor (8 * n) = index then 0 else nWords) =
        r.addressForIndex index ∧
      r.bottomIndex < index ∧ n ≤ r.addressForIndex index ∧ r.addressForIndex index < n + nWords := by
  have hreserved := r.reserved_le
  have hbottom := r.addressForIndex_bottomIndex
  have hmono := indexFor_mono (r := r) (le_of_lt hn)
  obtain ⟨hle, hlt⟩ := addressForIndex_le (r := r) (p := n) (by omega)
  by_cases hcard : r.isCardBoundary n = true
  · have hexact := (isCardBoundary_iff (by omega)).1 hcard
    have hne : r.bottomIndex ≠ r.indexFor (8 * n) := by
      intro heq
      rw [← heq] at hexact
      omega
    refine ⟨r.indexFor (8 * n), by rw [if_pos hcard], by rw [if_pos rfl, add_zero], ?_, by omega, ?_⟩
    · exact lt_of_le_of_ne hmono hne
    · rw [hexact]
      exact Nat.lt_add_of_pos_right (by decide)
  · have hexact := mt (isCardBoundary_iff (by omega)).2 hcard
    refine ⟨r.indexFor (8 * n) + 1, by rw [if_neg hcard], ?_, lt_succ_of_le hmono, ?_, ?_⟩
    · rw [if_neg (Nat.ne_of_lt (lt_succ_self _)), addressForIndex_succ]
    · rw [addressForIndex_succ]
      omega
    · rw [addressForIndex_succ]
      omega

section

variable (htiles : Tiles r.bottom sp.objs sp.top)

include htiles

lemma forwardToBlockContainingAddrSlow_spec (htop : sp.top ≤ r.endAddr)
    (haddr : addr < 8 * sp.top) {array} (hentries : EntriesOk r sp.objs array m)
    (ho : o ∈ sp.objs) (hle : 8 * o.1 ≤ addr) : ∃ array', ∃ o' ∈ sp.objs,
      forwardToBlockContainingAddrSlow r sp array o.1 (o.1 + o.2) addr = some (array', o'.1) ∧
      Contains o' addr ∧ EntriesOk r sp.objs array' m ∧ Written array array' := by
  have hwithin := htiles.within o ho
  have hpos := htiles.pos o ho
  obtain ⟨index, hnext, hboundary, hindex, hn, hnear⟩ :=
    forwardToBlockContainingAddrSlow_boundary (r := r) (n := o.1 + o.2) (by omega)
  obtain ⟨array', o1, ho1, hrefine, hle1, hentries', hwritten⟩ :=
    refineLoop_spec htiles htop haddr hentries ho hle hindex hn hnear (succ_pos sp.top) (by omega)
  obtain ⟨o', ho', hforward, hcontains⟩ := forwardToBlockContainingAddrConst_spec htiles haddr ho1 hle1
  refine ⟨array', o', ho', ?_, hcontains, hentries', hwritten⟩
  rw [forwardToBlockContainingAddrSlow, hnext, hboundary, if_neg (not_le.2 haddr), hrefine]
  dsimp only
  rw [hforward, Option.map_some]

lemma forwardToBlockContainingAddr_spec (htop : sp.top ≤ r.endAddr)
    (haddr : addr < 8 * sp.top) {array} (hentries : EntriesOk r sp.objs array m)
    (ho : o ∈ sp.objs) (hle : 8 * o.1 ≤ addr) :
    ∃ array', ∃ o' ∈ sp.objs, forwardToBlockContainingAddr r sp array o.1 addr = some (array', o'.1) ∧
      Contains o' addr ∧ EntriesOk r sp.objs array' m ∧ Written array array' := by
  have hsize : sp.blockSize r o.1 = o.2 := by rw [Space.blockSize, if_pos (by omega), size_of_mem htiles ho]
  rw [forwardToBlockContainingAddr, klassIsNull_of_mem htiles ho, hsize]
  by_cases hn : 8 * (o.1 + o.2) ≤ addr
  · obtain ⟨array', o', ho', hslow, hrest⟩ := forwardToBlockContainingAddrSlow_spec htiles htop haddr hentries ho hle
    exact ⟨array', o', ho', by simpa [hn] using hslow, hrest⟩
  · exact ⟨array, o, ho, by simp [hn], ⟨hle, Nat.lt_of_not_le hn⟩, hentries, fun i => .inl rfl⟩

lemma Boundary.exists_mem (hlt : r.bottom < sp.top) {q} (h : Boundary r sp.objs q) : ∃ o ∈ sp.objs, o.1 = q := by
  rcases h with rfl | h
  · exact htiles.exists_first hlt
  · exact h

lemma blockAtOrPreceding_spec (hbottom : 8 * r.bottom ≤ addr)
    (haddr : addr < 8 * sp.top) {array} (hm : r.bottomIndex < m) (hentries : EntriesOk r sp.objs array m) :
    ∃ o ∈ sp.objs, blockAtOrPreceding r array addr (m - 1) = some o.1 ∧ 8 * o.1 ≤ addr := by
  have hreserved := r.reserved_le
  have hword : r.bottom ≤ addr / 8 := by omega
  have hindex : r.bottomIndex ≤ r.indexFor addr := by
    rw [r.indexFor_eq addr]
    exact indexFor_mono hword
  have hcard : r.addressForIndex (r.indexFor addr) ≤ addr / 8 := by
    rw [r.indexFor_eq addr]
    exact (addressForIndex_le (by omega)).1
  have hmin : r.addressForIndex (min (r.indexFor addr) (m - 1)) ≤ r.addressForIndex (r.indexFor addr) :=
    Nat.add_le_add_left (mul_le_mul_right _ (min_le_left _ _)) _
  obtain ⟨q, hloop, hq, hboundary⟩ :=
    backSkipLoop_spec hentries (by omega) (by omega) (lt_succ_self (min (r.indexFor addr) (m - 1)))
  obtain ⟨o, ho, rfl⟩ := hboundary.exists_mem htiles (by omega)
  exact ⟨o, ho, hloop, by omega⟩

end

end Queries

open BotState

variable {r : Region}

/-! ## The table of a space -/

structure OffsetTable.Describes (r : Region) (t : OffsetTable) (sp : Space) : Prop where
  tiles : Tiles r.bottom sp.objs sp.top
  top_le : sp.top ≤ r.endAddr
  threshold_eq : t.nextOffsetThreshold = r.addressForIndex t.nextOffsetIndex
  top_le_threshold : sp.top ≤ r.addressForIndex t.nextOffsetIndex
  threshold_le : r.addressForIndex t.nextOffsetIndex ≤ sp.top + nWords
  index_lt : r.bottomIndex < t.nextOffsetIndex
  entries : EntriesOk r sp.objs t.offsetArray t.nextOffsetIndex

namespace OffsetTable.Describes

variable {t : OffsetTable} {sp : Space}

lemma allocBlock (h : t.Describes r sp) {size} (hsize : 0 < size) (hfits : sp.top + size ≤ r.endAddr) :
    (t.allocBlock r sp.top (sp.top + size)).Describes r ⟨sp.top + size, sp.objs ++ [(sp.top, size)]⟩ ∧
      Written t.offsetArray (t.allocBlock r sp.top (sp.top + size)).offsetArray := by
  have htiles := h.tiles.snoc hsize
  have hnear := h.threshold_le
  have hentries : EntriesOk r (sp.objs ++ [(sp.top, size)]) t.offsetArray t.nextOffsetIndex := fun i hi hlt =>
    (h.entries i hi hlt).mono fun q hq => hq.imp_right fun ⟨o, ho, heq⟩ => ⟨o, List.mem_append_left _ ho, heq⟩
  rw [OffsetTable.allocBlock, h.threshold_eq]
  split
  next hcross =>
    obtain ⟨array', endIndex, hwork, hmono, hge, hnear', hwritten, -, hentries'⟩ :=
      allocBlockWork2_entriesOk hentries (.inr ⟨(sp.top, size), by simp, rfl⟩) h.index_lt h.top_le_threshold hnear
        hcross hfits
    rw [hwork]
    exact ⟨⟨htiles, hfits, rfl, hge, le_of_lt hnear', lt_succ_of_lt (lt_of_lt_of_le h.index_lt hmono),
      hentries' rfl⟩, hwritten⟩
  next hcross =>
    exact ⟨⟨htiles, hfits, h.threshold_eq, Nat.le_of_not_lt hcross, by dsimp only; omega, h.index_lt, hentries⟩,
      fun i => .inl rfl⟩

lemma blockStart (h : t.Describes r sp) {addr} (hbottom : 8 * r.bottom ≤ addr) (haddr : addr < 8 * sp.top) :
    ∃ t', ∃ o ∈ sp.objs, t.blockStart r sp addr = some (t', some o.1) ∧ Contains o addr ∧ t'.Describes r sp ∧
      Written t.offsetArray t'.offsetArray := by
  obtain ⟨o, ho, hback, hle⟩ := blockAtOrPreceding_spec h.tiles hbottom haddr h.index_lt h.entries
  obtain ⟨array', o', ho', hforward, hcontains, hentries', hwritten⟩ :=
    forwardToBlockContainingAddr_spec h.tiles h.top_le haddr h.entries ho hle
  have htop := h.top_le
  refine ⟨{ t with offsetArray := array' }, o', ho', ?_, hcontains, ⟨h.tiles, htop, h.threshold_eq,
    h.top_le_threshold, h.threshold_le, h.index_lt, hentries'⟩, hwritten⟩
  rw [OffsetTable.blockStart, if_pos ⟨hbottom, by omega⟩, OffsetTable.blockStartUnsafe, hback]
  dsimp only
  rw [hforward, Option.map_some, Option.map_some]

end OffsetTable.Describes

/-! ## Blocks that become several objects -/

lemma tiles_consecutive (start) {sizes} (hpos : ∀ size ∈ sizes, 0 < size) :
    Tiles start (consecutive start sizes) (start + sizes.sum) := by
  induction sizes generalizing start with
  | nil => rfl
  | cons size sizes ih =>
    obtain ⟨hsize, hpos⟩ := List.forall_mem_cons.1 hpos
    rw [List.sum_cons, ← add_assoc]
    exact ⟨rfl, hsize, ih (start + size) hpos⟩

lemma OffsetTable.Describes.subdivide {t : OffsetTable} {sp : Space} (h : t.Describes r sp) (k)
    (sizes) : t.Describes r (sp.subdivide k sizes) := by
  rw [Space.subdivide]
  split
  · exact h
  rename_i start size hk
  split
  next hsizes =>
    obtain ⟨rfl, hpos⟩ := hsizes
    have hnew := tiles_consecutive start hpos
    refine ⟨h.tiles.replace hk hnew, h.top_le, h.threshold_eq, h.top_le_threshold, h.threshold_le, h.index_lt,
      fun i hi hlt => (h.entries i hi hlt).mono fun q hq => ?_⟩
    exact hq.imp_right (h.tiles.exists_start_replace hk hnew)
  · exact h

/-! ## Histories -/

lemma BotState.new_offsetArray_bottomIndex (r array) : (new r array).table.offsetArray r.bottomIndex = 0 :=
  update_self ..

lemma BotState.new_describes (r : Region) (array : Nat → Nat) :
    (new r array).table.Describes r (new r array).space := by
  have hbottom := r.addressForIndex_bottomIndex
  have hnext : r.addressForIndex (new r array).table.nextOffsetIndex = r.bottom + nWords := by
    rw [← hbottom]
    exact r.addressForIndex_succ r.bottomIndex
  refine ⟨rfl, r.bottom_le, rfl, ?_, le_of_eq hnext, lt_succ_self _, fun i hi hlt => ?_⟩
  · rw [hnext]
    exact le_add_right _ _
  · obtain rfl : i = r.bottomIndex := le_antisymm (le_of_lt_succ hlt) hi
    rw [new_offsetArray_bottomIndex]
    exact .inl ⟨r.bottom, by decide, hbottom.symm, .inl rfl⟩

lemma BotState.new_written (r array) : Written array (new r array).table.offsetArray := by
  intro i
  by_cases hi : i = r.bottomIndex
  · subst hi
    rw [new_offsetArray_bottomIndex]
    exact .inr (by decide)
  · exact .inl (update_of_ne hi ..)

lemma BotState.step_describes {array : Nat → Nat} {s : BotState}
    (h : s.table.Describes r s.space ∧ Written array s.table.offsetArray) (op) :
    ∃ s', s.step r op = some s' ∧ s'.table.Describes r s'.space ∧ Written array s'.table.offsetArray := by
  obtain ⟨hdescribes, hwritten⟩ := h
  cases op with
  | allocate size =>
    rw [step]
    split
    next hfits =>
      obtain ⟨hdescribes', hwritten'⟩ := hdescribes.allocBlock hfits.1 hfits.2
      exact ⟨_, rfl, hdescribes', hwritten.trans hwritten'⟩
    · exact ⟨s, rfl, hdescribes, hwritten⟩
  | subdivide k sizes => exact ⟨_, rfl, hdescribes.subdivide k sizes, hwritten⟩
  | blockStart addr =>
    rw [step]
    split
    next hin =>
      obtain ⟨t', o, -, hstart, -, hdescribes', hwritten'⟩ := hdescribes.blockStart hin.1 hin.2
      rw [hstart]
      exact ⟨_, rfl, hdescribes', hwritten.trans hwritten'⟩
    · exact ⟨s, rfl, hdescribes, hwritten⟩

/-- After blocks were allocated, subdivided and asked for in any order, no query went below the bottom, the entries are
below `nWords + nPowers`, and a query returns the start of the object that contains its address. -/
theorem block_start_finds_object (r : Region) (array : Nat → Nat) (ops : List BotOp) :
    ∃ s, run (step r) (.new r array) ops = some s ∧ (∀ i, r.indexFor (8 * r.bottom) ≤ i → i < s.table.nextOffsetIndex →
        s.table.offsetArray i < nWords + nPowers) ∧
      (∀ i, s.table.offsetArray i = array i ∨ s.table.offsetArray i < nWords + nPowers) ∧
      ∀ addr, 8 * r.bottom ≤ addr → addr < 8 * s.space.top →
        ∃ t, ∃ o ∈ s.space.objs, s.table.blockStart r s.space addr = some (t, some o.1) ∧
          8 * o.1 ≤ addr ∧ addr < 8 * (o.1 + o.2) := by
  obtain ⟨s, hrun, hdescribes, hwritten⟩ :=
    run_defined (fun s : BotState => s.table.Describes r s.space ∧ Written array s.table.offsetArray) (fun _ => True)
      (fun _ op h _ => step_describes h op) ⟨new_describes r array, new_written r array⟩
      fun op _ => trivial
  refine ⟨s, hrun, fun i hi hlt => (hdescribes.entries i hi hlt).lt, hwritten, fun addr hbottom haddr => ?_⟩
  obtain ⟨t, o, ho, hstart, hcontains, -, -⟩ := hdescribes.blockStart hbottom haddr
  exact ⟨t, o, ho, hstart, hcontains⟩

def smallRegion : Region where
  reservedStart := 0
  bottom := 128
  endAddr := 1152
  reserved_le := by decide
  bottom_le := by decide
  aligned := by decide
  end_le := by decide

def subdivision : List BotOp := [.allocate 400, .allocate 100, .subdivide 0 [100, 130, 170], .blockStart (8 * 420)]

theorem block_start_finds_object_subdivided :
    ∃ s, run (step smallRegion) (.new smallRegion fun _ => 0) subdivision = some s ∧
      s.table.offsetArray 4 = 28 ∧ ∃ t, s.table.blockStart smallRegion s.space (8 * 300) = some (t, some 228) := by
  obtain ⟨s, hrun, -, -, hquery⟩ := block_start_finds_object smallRegion (fun _ => 0) subdivision
  have hs : (run (step smallRegion) (.new smallRegion fun _ => 0) subdivision).map
      (fun s => (s.space.top, s.space.objs, s.table.offsetArray 4)) =
      some (628, [(128, 100), (228, 130), (358, 170), (528, 100)], 28) := by decide +kernel
  rw [hrun, Option.map_some, Option.some.injEq, Prod.mk.injEq, Prod.mk.injEq] at hs
  obtain ⟨htop, hobjs, hentry⟩ := hs
  obtain ⟨t, o, ho, hstart, hle, hlt⟩ := hquery (8 * 300) (by decide) (by rw [htop]; decide)
  have ho' : o = (228, 130) := by
    simp only [hobjs, List.mem_cons, List.not_mem_nil, or_false] at ho
    rcases ho with rfl | rfl | rfl | rfl
    · exact absurd hlt (by decide)
    · rfl
    · exact absurd hle (by decide)
    · exact absurd hle (by decide)
  subst ho'
  exact ⟨s, hrun, hentry, t, hstart⟩

end Rolp.Heap.BlockOffsets
