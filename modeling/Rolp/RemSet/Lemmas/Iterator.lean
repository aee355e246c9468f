import Rolp.Lib.Cursor
import Rolp.RemSet.Lemmas.OtherRegions

/-!
# What remains of an iteration

For each state of an iterator there is a list of the card indices that it has not given yet.
-/

namespace Rolp.RemSet

open Rolp.Lib List Nat

def Steps {S : Type} (Rem : S → List Nat → Prop) (l : List Nat) (s : S) (out : Option Nat) : Prop :=
  out = l.head? ∧ (l ≠ [] → Rem s l.tail)

variable {b n : Nat} {l : List Nat}

lemma range'_eq_cons {i} (h : i < n) : List.range' i (n - i) = i :: List.range' (i + 1) (n - (i + 1)) := by
  have hlen : n - i = n - (i + 1) + 1 := by omega
  rw [hlen, range'_succ]

/-! ## The sparse table -/

namespace RSHashTableIter

variable {c : RemSetConfig} {t : RSHashTable} {live free : List Nat} {slot ci : Nat}

def slotsOut (c : RemSetConfig) (t : RSHashTable) (slots : List Nat) : List Nat :=
  slots.flatMap fun slot => (t.entries slot).validCards.map (computeCardInd c t slot)

def slotsFrom (t : RSHashTable) (live : List Nat) (b : Nat) : List Nat :=
  (List.range' b (t.capacity - b)).flatMap (t.chain live)

lemma slotsOut_cons (slot slots) : slotsOut c t (slot :: slots) =
    (t.entries slot).validCards.map (computeCardInd c t slot) ++ slotsOut c t slots := flatMap_cons

lemma slotsOut_append (l1 l2) : slotsOut c t (l1 ++ l2) = slotsOut c t l1 ++ slotsOut c t l2 := flatMap_append

lemma slotsFrom_eq (hb : b < t.capacity) : slotsFrom t live b = t.chain live b ++ slotsFrom t live (b + 1) := by
  rw [slotsFrom, range'_eq_cons hb, flatMap_cons, slotsFrom]

variable {k : Nat}

lemma firstCard_eq (h : (t.entries slot).CardsOk k) : firstCard t slot = (t.entries slot).validCards.head? := by
  rw [firstCard, h.cards_eq]
  cases hds : (t.entries slot).validCards with
  | nil =>
    cases k <;> simp [pad, replicate_succ]
  | cons d ds => simp [pad]

structure At (t : RSHashTable) (live : List Nat) (slot : Nat) (rest : List Nat) : Prop where
  mem : slot ∈ live
  linked : Linked t.next (t.next slot) rest
  sub : ∀ j ∈ rest, j ∈ live
  length_le : rest.length ≤ t.capacity

lemma search_spec (h : t.Wf k live [] free) {a} (hl : Linked t.next a l)
    (hsub : ∀ j ∈ l, j ∈ live) (hlen : l.length ≤ t.capacity) : (findFirstCardInList t a = none ∧ slotsOut c t l = []) ∨
      ∃ slot ci cs rest, findFirstCardInList t a = some (slot, ci) ∧ At t live slot rest ∧
        (t.entries slot).validCards = ci :: cs ∧
        slotsOut c t l = (ci :: cs).map (computeCardInd c t slot) ++ slotsOut c t rest := by
  rw [findFirstCardInList, search_eq hl hlen]
  induction l generalizing a with
  | nil => exact .inl ⟨rfl, rfl⟩
  | cons j l ih =>
    obtain ⟨-, hrest⟩ := hl
    have hj := hsub j mem_cons_self
    have hsub' : ∀ i ∈ l, i ∈ live := fun i hi => hsub i (mem_cons_of_mem _ hi)
    have hlen' : l.length ≤ t.capacity := le_of_succ_le hlen
    have hfirst := firstCard_eq (h.cards j hj)
    cases hcards : (t.entries j).validCards with
    | nil =>
      simp only [find?_cons, hfirst, slotsOut_cons, hcards]
      exact ih hrest hsub' hlen'
    | cons ci cs =>
      rw [hcards] at hfirst
      refine .inr ⟨j, ci, cs, l, ?_, ⟨hj, hrest, hsub', hlen'⟩, hcards, ?_⟩
      · simp [hfirst]
      · rw [slotsOut_cons, hcards]

lemma nextBucket_spec (h : t.Wf k live [] free) (hn : b + n = t.capacity) :
    (nextBucket t n b = none ∧ slotsOut c t (slotsFrom t live b) = []) ∨
      ∃ b' slot ci cs rest, nextBucket t n b = some (b', slot, ci) ∧ b' < t.capacity ∧ At t live slot rest ∧
        (t.entries slot).validCards = ci :: cs ∧
        slotsOut c t (slotsFrom t live b) = (ci :: cs).map (computeCardInd c t slot) ++
          (slotsOut c t rest ++ slotsOut c t (slotsFrom t live (b' + 1))) := by
  induction n generalizing b with
  | zero =>
    refine .inl ⟨rfl, ?_⟩
    have hrange : t.capacity - b = 0 := by omega
    rw [slotsFrom, hrange]
    rfl
  | succ n ih =>
    have hb : b < t.capacity := by omega
    have hsub : ∀ j ∈ t.chain live b, j ∈ live := fun j hj => (RSHashTable.mem_chain.1 hj).1
    rw [slotsFrom_eq hb, slotsOut_append, nextBucket]
    rcases search_spec h (h.buckets b) hsub (h.length_chain_le b) with
      ⟨hnone, hempty⟩ | ⟨slot, ci, cs, rest, hsome, hat, hcards, hout⟩
    · rw [hnone, hempty]
      exact ih (by omega)
    · rw [hsome]
      refine .inr ⟨b, slot, ci, cs, rest, rfl, hb, hat, hcards, ?_⟩
      rw [hout, append_assoc]

inductive Remaining (c : RemSetConfig) (t : RSHashTable) (live : List Nat) : RSHashTableIter → List Nat → Prop
  | start : Remaining c t live (new c.cardsNum) (slotsOut c t (slotsFrom t live 0))
  | here {slot b j : Nat} {rest : List Nat} (hat : At t live slot rest) (hb : b < t.capacity)
      (hj : j < (t.entries slot).validCards.length) : Remaining c t live ⟨b, some slot, j⟩
        (((t.entries slot).validCards.drop (j + 1)).map (computeCardInd c t slot) ++
          (slotsOut c t rest ++ slotsOut c t (slotsFrom t live (b + 1))))

lemma Remaining.first {cs rest} (hat : At t live slot rest) (hb : b < t.capacity)
    (hcards : (t.entries slot).validCards = ci :: cs) : Remaining c t live ⟨b, some slot, 0⟩
      (cs.map (computeCardInd c t slot) ++ (slotsOut c t rest ++ slotsOut c t (slotsFrom t live (b + 1)))) := by
  have hhere : Remaining c t live ⟨b, some slot, 0⟩ _ := .here hat hb (by rw [hcards]; exact succ_pos _)
  rw [hcards] at hhere
  exact hhere

lemma nextEntry_bucket (h : t.Wf k live [] free) {it : RSHashTableIter} (hb : it.tblInd + 1 = b)
    (hcap : b ≤ t.capacity) (hcard : it.cardInd = 0)
    (hnone : (it.blInd.bind fun slot => findFirstCardInList t (t.next slot)) = none) :
    Steps (Remaining c t live) (slotsOut c t (slotsFrom t live b)) (nextEntry c t it).1 (nextEntry c t it).2 := by
  have hb' : (it.tblInd + 1).toNat = b := by omega
  rw [nextEntry, hnone]
  simp only [hb']
  rcases nextBucket_spec h (n := t.capacity - b) (b := b) (by omega) with
    ⟨hnext, hempty⟩ | ⟨b', slot, ci, cs, rest, hnext, hcap', hat, hcards, hout⟩
  · rw [hnext, hempty]
    exact ⟨rfl, fun hne => absurd rfl hne⟩
  · rw [hnext, hout]
    refine ⟨rfl, fun _ => ?_⟩
    rw [hcard]
    exact .first hat hcap' hcards

lemma nextEntry_here (h : t.Wf k live [] free) {rest : List Nat} (hb : b < t.capacity) (hat : At t live slot rest) :
    Steps (Remaining c t live) (slotsOut c t rest ++ slotsOut c t (slotsFrom t live (b + 1)))
      (nextEntry c t ⟨b, some slot, 0⟩).1 (nextEntry c t ⟨b, some slot, 0⟩).2 := by
  rcases search_spec h hat.linked hat.sub hat.length_le with
    ⟨hnone, hempty⟩ | ⟨slot', ci, cs, rest', hsome, hat', hcards, hout⟩
  · rw [hempty]
    exact nextEntry_bucket h rfl hb rfl hnone
  · have hfind : ((some slot).bind fun slot => findFirstCardInList t (t.next slot)) = some (slot', ci) := hsome
    rw [nextEntry, hfind, hout, append_assoc]
    exact ⟨rfl, fun _ => .first hat' hb hcards⟩

lemma toInt16_of_lt (h : n < 2 ^ 15) : toInt16 n = n := by refine Int.bmod_eq_of_le_mul_two ?_ ?_ <;> omega

lemma hasNext_of_ge {it} (h : ¬toInt16 (it.cardInd + 1) < c.cardsNum) :
    hasNext c t it = some (nextEntry c t { it with cardInd := 0 }) := if_neg h

lemma hasNext_of_lt {b cardInd out} (hlt : toInt16 (cardInd + 1) < c.cardsNum)
    (hcard : card t (some slot) (toInt16 (cardInd + 1)) = some out) : hasNext c t ⟨b, some slot, cardInd⟩ =
      match out with
      | some ci => some (⟨b, some slot, toInt16 (cardInd + 1)⟩, some (computeCardInd c t slot ci))
      | none => some (nextEntry c t ⟨b, some slot, 0⟩) := by
  rw [hasNext]
  cases out <;> simp only [if_pos hlt, hcard]

lemma hasNext_spec (h : t.Wf c.cardsNum live [] free) (hshort : c.cardsNum < 2 ^ 15) {it : RSHashTableIter}
    (hrem : Remaining c t live it l) :
    ∃ it' out, hasNext c t it = some (it', out) ∧ Steps (Remaining c t live) l it' out := by
  cases hrem with
  | start =>
    have hpos := c.cardsNum_ge
    have hfirst : (c.cardsNum - 1) = ((c.cardsNum - 1 : Nat) : Int) := by omega
    have hnext : toInt16 ((new c.cardsNum).cardInd + 1) = c.cardsNum := by
      change toInt16 (toInt16 (c.cardsNum - 1) + 1) = c.cardsNum
      rw [hfirst, toInt16_of_lt (by omega), ← hfirst, Int.sub_add_cancel, toInt16_of_lt hshort]
    have hbucket : Steps (Remaining c t live) (slotsOut c t (slotsFrom t live 0)) (nextEntry c t ⟨-1, none, 0⟩).1
        (nextEntry c t ⟨-1, none, 0⟩).2 := nextEntry_bucket h rfl (zero_le _) rfl rfl
    exact ⟨_, _, hasNext_of_ge (by rw [hnext]; exact Int.lt_irrefl _), hbucket⟩
  | @here slot b j rest hat hb hj =>
    have hok := h.cards slot hat.mem
    have hle := hok.length_le
    have hnext : toInt16 (j + 1) = ((j + 1 : Nat) : Int) := by
      rw [← toInt16_of_lt (n := j + 1) (by omega)]
      rfl
    by_cases hk : j + 1 < c.cardsNum
    · have hcard : card t (some slot) (toInt16 (j + 1)) = some (t.entries slot).validCards[j + 1]? := by
        rw [hnext, card, if_pos (by omega), Int.toNat_natCast, hok.cards_eq]
        rw [pad_getElem? hk hle]
      have hlt : toInt16 (j + 1) < c.cardsNum := by omega
      by_cases hmore : j + 1 < (t.entries slot).validCards.length
      · rw [getElem?_eq_getElem hmore] at hcard
        refine ⟨_, _, hasNext_of_lt hlt hcard, ?_⟩
        rw [drop_eq_getElem_cons hmore, hnext]
        exact ⟨rfl, fun _ => .here hat hb hmore⟩
      · rw [getElem?_eq_none (not_lt.1 hmore)] at hcard
        refine ⟨_, _, hasNext_of_lt hlt hcard, ?_⟩
        rw [drop_eq_nil_of_le (not_lt.1 hmore)]
        exact nextEntry_here h hb hat
    · refine ⟨_, _, hasNext_of_ge (by rw [hnext]; omega), ?_⟩
      rw [drop_eq_nil_of_le (by omega)]
      exact nextEntry_here h hb hat

end RSHashTableIter

/-! ## Bitmaps -/

def onesFrom (n : Nat) (bm : Nat → Bool) (i : Nat) : List Nat := (List.range' i (n - i)).filter bm

lemma getNextOneOffset_spec (n bm i) : (onesFrom n bm i = [] ∧ getNextOneOffset n bm i = n) ∨
      (getNextOneOffset n bm i < n ∧ i ≤ getNextOneOffset n bm i ∧
        onesFrom n bm i = getNextOneOffset n bm i :: onesFrom n bm (getNextOneOffset n bm i + 1)) := by
  by_cases hi : i < n
  · rw [onesFrom, getNextOneOffset, range'_eq_cons hi]
    cases hbm : bm i with
    | true =>
      refine .inr ?_
      simp only [find?_cons, hbm, filter_cons_of_pos hbm]
      exact ⟨hi, le_refl i, rfl⟩
    | false =>
      have hneg : ¬bm i = true := by simp [hbm]
      rw [find?_cons_of_neg hneg, filter_cons_of_neg hneg]
      rcases getNextOneOffset_spec n bm (i + 1) with ⟨hnil, hnext⟩ | ⟨hlt, hle, hcons⟩
      · exact .inl ⟨hnil, hnext⟩
      · exact .inr ⟨hlt, le_of_succ_le hle, hcons⟩
  · have hlen : n - i = 0 := by omega
    refine .inl ?_
    rw [onesFrom, getNextOneOffset, hlen]
    exact ⟨rfl, rfl⟩
termination_by n - i

namespace HeapRegionRemSetIterator

variable {c : RemSetConfig} {t : OtherRegionsTable} {it it' : HeapRegionRemSetIterator}

/-! ## The coarse map -/

def regionsOut (c : RemSetConfig) (rs : List Nat) : List Nat :=
  rs.flatMap fun r => (List.range c.cardsPerRegion).map (c.cardIndex r)

inductive CoarseRemaining (c : RemSetConfig) (t : OtherRegionsTable) : HeapRegionRemSetIterator → List Nat → Prop
  | here {it : HeapRegionRemSetIterator} {b : Nat} (hcard : it.coarseCurRegionCurCard < c.cardsPerRegion)
      (hb : it.coarseCurRegionIndex + 1 = b)
      (hcount : t.nCoarseEntries = 0 → it.coarseCurRegionCurCard + 1 = c.cardsPerRegion) :
      CoarseRemaining c t it
        ((List.range' (it.coarseCurRegionCurCard + 1) (c.cardsPerRegion - (it.coarseCurRegionCurCard + 1))).map
          (it.curRegionCardOffset + ·) ++ regionsOut c (onesFrom c.maxRegions t.coarseMap b))

lemma onesFrom_of_countOneBits {bm} (h : countOneBits n bm = 0) (i) : onesFrom n bm i = [] := by
  refine filter_eq_nil_iff.2 fun j hj hbm => ?_
  have hlt : j < n := by
    have := mem_range'_1.1 hj
    omega
  exact ne_of_gt (countOneBits_pos.2 ⟨j, hlt, hbm⟩) h

lemma cardIndex_zero_add (c : RemSetConfig) (r card : Nat) : c.cardIndex r 0 + card = c.cardIndex r card := by
  simp [RemSetConfig.cardIndex]

lemma map_cardIndex (c : RemSetConfig) (r : Nat) : (List.range c.cardsPerRegion).map (c.cardIndex r) =
      c.cardIndex r 0 :: (List.range' (0 + 1) (c.cardsPerRegion - (0 + 1))).map (c.cardIndex r 0 + ·) := by
  have hcons := range'_eq_cons c.cardsPerRegion_pos
  rw [Nat.sub_zero] at hcons
  rw [range_eq_range', hcons, map_cons]
  simp only [cardIndex_zero_add]

lemma coarseHasNext_spec (hcount : t.nCoarseEntries = countOneBits c.maxRegions t.coarseMap)
    (hrem : CoarseRemaining c t it l) :
    Steps (CoarseRemaining c t) l (coarseHasNext c t it).1 (coarseHasNext c t it).2 := by
  cases hrem with
  | @here b hcard hb hlast =>
    have hb' : (it.coarseCurRegionIndex + 1).toNat = b := by omega
    rw [coarseHasNext]
    by_cases hzero : t.nCoarseEntries = 0
    · rw [if_pos hzero, onesFrom_of_countOneBits (hcount.symm.trans hzero), hlast hzero, Nat.sub_self]
      exact ⟨rfl, fun hne => absurd rfl hne⟩
    rw [if_neg hzero]
    by_cases hend : it.coarseCurRegionCurCard + 1 = c.cardsPerRegion
    · simp only [if_pos hend, hb']
      rw [hend, Nat.sub_self, range'_zero]
      rcases getNextOneOffset_spec c.maxRegions t.coarseMap b with ⟨hnil, hnext⟩ | ⟨hlt, -, hcons⟩
      · rw [hnil, hnext, if_neg (lt_irrefl _)]
        exact ⟨rfl, fun hne => absurd rfl hne⟩
      · rw [if_pos hlt, hcons, regionsOut, flatMap_cons, map_cardIndex]
        exact ⟨rfl, fun _ => .here c.cardsPerRegion_pos rfl fun h => absurd h hzero⟩
    · have hlt : it.coarseCurRegionCurCard + 1 < c.cardsPerRegion := by omega
      simp only [if_neg hend]
      rw [range'_eq_cons hlt]
      exact ⟨rfl, fun _ => .here hlt hb fun h => absurd h hzero⟩

/-! ## The fine tables -/

section

variable (c : RemSetConfig) (t : OtherRegionsTable)

/-- The card indices of a fine table from card `i` on. -/
def tableOut (prt i : Nat) : List Nat :=
  (onesFrom c.cardsPerRegion (t.prts prt).bm i).map (c.cardIndex (t.prts prt).hr)

def tablesOut (prts : List Nat) : List Nat :=
  prts.flatMap fun prt => tableOut c t prt 0

def tablesFrom (b : Nat) : List Nat :=
  (List.range' b (c.maxFineEntries - b)).flatMap t.fineGrainRegions

end

lemma nextNonNull_spec (hn : b + n = c.maxFineEntries) : (nextNonNull t n b = none ∧ tablesFrom c t b = []) ∨
      ∃ b' prt rest, nextNonNull t n b = some b' ∧ b' < c.maxFineEntries ∧ t.fineGrainRegions b' = prt :: rest ∧
        tablesFrom c t b = prt :: rest ++ tablesFrom c t (b' + 1) := by
  induction n generalizing b with
  | zero =>
    have hrange : c.maxFineEntries - b = 0 := by omega
    refine .inl ⟨rfl, ?_⟩
    rw [tablesFrom, hrange]
    rfl
  | succ n ih =>
    have hb : b < c.maxFineEntries := by omega
    rw [tablesFrom, range'_eq_cons hb, flatMap_cons, nextNonNull]
    cases hbucket : t.fineGrainRegions b with
    | nil => exact ih (by omega)
    | cons prt rest => exact .inr ⟨b, prt, rest, rfl, hb, hbucket, rfl⟩

inductive Loading (c : RemSetConfig) (t : OtherRegionsTable) : HeapRegionRemSetIterator → List Nat → Prop
  | start {it : HeapRegionRemSetIterator} {b : Nat} (hcur : it.fineCurPrt = []) (hcard : it.curRegionCurCard = 0)
      (hb : it.fineArrayIndex + 1 = b) (hle : b ≤ c.maxFineEntries) : Loading c t it (tablesFrom c t b)
  | next {it : HeapRegionRemSetIterator} {b prt : Nat} {rest : List Nat} (hcur : it.fineCurPrt = prt :: rest)
      (hcard : it.curRegionCurCard = c.cardsPerRegion) (hb : it.fineArrayIndex = b) (hlt : b < c.maxFineEntries) :
      Loading c t it (rest ++ tablesFrom c t (b + 1))

inductive FineRemaining (c : RemSetConfig) (t : OtherRegionsTable) : HeapRegionRemSetIterator → List Nat → Prop
  | start {it : HeapRegionRemSetIterator} (hcur : it.fineCurPrt = []) (hcard : it.curRegionCurCard = 0)
      (hb : it.fineArrayIndex = -1) (hlen : (tablesFrom c t 0).length ≤ c.maxFineEntries) :
      FineRemaining c t it (tablesOut c t (tablesFrom c t 0))
  | here {it : HeapRegionRemSetIterator} {b prt : Nat} {rest : List Nat} (hcur : it.fineCurPrt = prt :: rest)
      (hcard : it.curRegionCurCard < c.cardsPerRegion) (hb : it.fineArrayIndex = b) (hlt : b < c.maxFineEntries)
      (hoffset : it.curRegionCardOffset = c.cardIndex (t.prts prt).hr 0)
      (hlen : (rest ++ tablesFrom c t (b + 1)).length ≤ c.maxFineEntries) :
      FineRemaining c t it
        (tableOut c t prt (it.curRegionCurCard + 1) ++ tablesOut c t (rest ++ tablesFrom c t (b + 1)))

lemma fineLimit_eq (hint : c.maxFineEntries < 2 ^ 31) : fineLimit c = c.maxFineEntries := by
  rw [fineLimit, toJint_eq (by omega) (by omega), Int.toNat_natCast]

lemma fineFindNextNonNullPrt_spec (hcur : it.fineCurPrt = []) (hb : it.fineArrayIndex + 1 = b)
    (hle : b ≤ c.maxFineEntries) :
    ((fineFindNextNonNullPrt c.maxFineEntries t it).fineCurPrt = [] ∧ tablesFrom c t b = []) ∨
      ∃ (b' prt : Nat) (rest : List Nat), (fineFindNextNonNullPrt c.maxFineEntries t it).fineCurPrt = prt :: rest ∧
        (fineFindNextNonNullPrt c.maxFineEntries t it).fineArrayIndex = b' ∧ b' < c.maxFineEntries ∧
        tablesFrom c t b = prt :: rest ++ tablesFrom c t (b' + 1) := by
  have hb' : (it.fineArrayIndex + 1).toNat = b := by omega
  have hn : b + (c.maxFineEntries - b) = c.maxFineEntries := by omega
  rw [fineFindNextNonNullPrt, hb']
  rcases nextNonNull_spec hn with ⟨hnone, hnil⟩ | ⟨b', prt, rest, hsome, hlt, hbucket, htables⟩
  · rw [hnone]
    exact .inl ⟨hcur, hnil⟩
  · rw [hsome]
    exact .inr ⟨b', prt, rest, hbucket, rfl, hlt, htables⟩

variable {tables : List Nat}

lemma fineAdvance_spec (hint : c.maxFineEntries < 2 ^ 31) (h : Loading c t it tables) :
    ((fineAdvance c t it).fineCurPrt = [] ∧ tables = []) ∨
      ∃ (b prt : Nat) (rest : List Nat), (fineAdvance c t it).fineCurPrt = prt :: rest ∧
        (fineAdvance c t it).fineArrayIndex = b ∧ b < c.maxFineEntries ∧
        tables = prt :: rest ++ tablesFrom c t (b + 1) := by
  cases h with
  | start hcur hcard hb hle =>
    have hne : it.curRegionCurCard ≠ c.cardsPerRegion := by
      rw [hcard]
      exact Nat.ne_of_lt c.cardsPerRegion_pos
    simp only [fineAdvance, fineLimit_eq hint, if_neg hne, if_pos hcur]
    exact fineFindNextNonNullPrt_spec hcur hb hle
  | @next b prt rest hcur hcard hb hlt =>
    cases rest with
    | nil =>
      simp only [fineAdvance, fineLimit_eq hint, if_pos hcard, hcur]
      exact fineFindNextNonNullPrt_spec rfl (by rw [hb]; rfl) hlt
    | cons prt' rest =>
      simp only [fineAdvance, if_pos hcard, hcur]
      exact .inr ⟨b, prt', rest, rfl, hb, hlt, rfl⟩

lemma Loading.turn (h : Loading c t it tables) :
    it.fineHasCard c = false ∧ ¬(it.curRegionCurCard = c.cardsPerRegion ∧ it.fineCurPrt = []) := by
  cases h with
  | start hcur hcard hb hle =>
    refine ⟨by simp [fineHasCard, hcur], fun hend => ?_⟩
    rw [hcard] at hend
    exact Nat.ne_of_lt c.cardsPerRegion_pos hend.1
  | next hcur hcard hb hlt => exact ⟨by simp [fineHasCard, hcard], fun hend => by simp [hcur] at hend⟩

lemma fineLoop_of_card {fuel prt rest} (hcur : it.fineCurPrt = prt :: rest)
    (hcard : it.curRegionCurCard < c.cardsPerRegion) :
    fineLoop c t (fuel + 1) it = some (it, some (it.curRegionCardOffset + it.curRegionCurCard)) := by
  simp [fineLoop, fineHasCard, hcur, hcard]

lemma fineLoop_spec (hint : c.maxFineEntries < 2 ^ 31) {fuel} (h : Loading c t it tables)
    (hlen : tables.length ≤ c.maxFineEntries) (hfuel : tables.length + 1 ≤ fuel) :
    ∃ it' out, fineLoop c t fuel it = some (it', out) ∧ Steps (FineRemaining c t) (tablesOut c t tables) it' out := by
  induction tables generalizing it fuel with
  | nil =>
    obtain ⟨fuel, rfl⟩ := exists_eq_succ_of_ne_zero (ne_of_gt hfuel)
    obtain ⟨hcard, hend⟩ := h.turn
    rcases fineAdvance_spec hint h with ⟨hcur, -⟩ | ⟨b, prt, rest, -, -, -, htables⟩
    · refine ⟨fineAdvance c t it, none, ?_, rfl, fun hne => absurd rfl hne⟩
      simp [fineLoop, hcard, if_neg hend, hcur]
    · cases htables
  | cons prt tables ih =>
    obtain ⟨fuel, rfl⟩ := exists_eq_succ_of_ne_zero (ne_of_gt (lt_of_lt_of_le (succ_pos _) hfuel))
    obtain ⟨hcard, hend⟩ := h.turn
    rcases fineAdvance_spec hint h with ⟨-, hnil⟩ | ⟨b, prt', rest, hcur, hb, hlt, htables⟩
    · cases hnil
    cases htables
    have hturn : fineLoop c t (fuel + 1) it = fineLoop c t fuel { fineAdvance c t it with
        curRegionCardOffset := c.cardIndex (t.prts prt).hr 0
        curRegionCurCard := getNextOneOffset c.cardsPerRegion (t.prts prt).bm 0 } := by
      rw [fineLoop]
      simp only [hcard, Bool.false_eq_true, if_false, if_neg hend, hcur]
    have hlen' : (rest ++ tablesFrom c t (b + 1)).length ≤ c.maxFineEntries := le_of_succ_le hlen
    rw [hturn, tablesOut, flatMap_cons, tableOut]
    rcases getNextOneOffset_spec c.cardsPerRegion (t.prts prt).bm 0 with ⟨hnil, hnext⟩ | ⟨hfound, -, hcons⟩
    · rw [hnil]
      refine ih ?_ hlen' (le_of_succ_le_succ hfuel)
      exact .next hcur hnext hb hlt
    · obtain ⟨fuel, rfl⟩ := exists_eq_succ_of_ne_zero
        (ne_of_gt (lt_of_lt_of_le (succ_pos _) (le_of_succ_le_succ hfuel)))
      rw [hcons]
      exact ⟨_, _, fineLoop_of_card hcur hfound, rfl, fun _ => .here hcur hfound hb hlt rfl hlen'⟩

lemma fineHasNext_spec (hint : c.maxFineEntries < 2 ^ 31) (hrem : FineRemaining c t it l) :
    ∃ it' out, fineHasNext c t it = some (it', out) ∧ Steps (FineRemaining c t) l it' out := by
  cases hrem with
  | start hcur hcard hb hlen =>
    simp only [fineHasNext, hcur]
    exact fineLoop_spec hint (.start hcur hcard (by rw [hb]; rfl) (zero_le _)) hlen (by omega)
  | @here b prt rest hcur hcard hb hlt hoffset hlen =>
    simp only [fineHasNext, hcur, if_pos hcard]
    rcases getNextOneOffset_spec c.cardsPerRegion (t.prts prt).bm (it.curRegionCurCard + 1) with
      ⟨hnil, hnext⟩ | ⟨hfound, -, hcons⟩
    · rw [tableOut, hnil]
      exact fineLoop_spec hint (.next rfl hnext hb hlt) hlen (by omega)
    · rw [tableOut, hcons, map_cons, ← cardIndex_zero_add, ← hoffset]
      exact ⟨_, _, fineLoop_of_card rfl hfound, rfl, fun _ => .here rfl hfound hb hlt hoffset hlen⟩

/-! ## The whole iteration -/

structure SameRest (it it' : HeapRegionRemSetIterator) : Prop where
  is : it'.is = it.is
  coarseIndex : it'.coarseCurRegionIndex = it.coarseCurRegionIndex
  coarseCard : it'.coarseCurRegionCurCard = it.coarseCurRegionCurCard
  nYielded : it'.nYielded = it.nYielded

lemma SameRest.trans {it''} (h : SameRest it it') (h' : SameRest it' it'') : SameRest it it'' :=
  ⟨h'.is.trans h.is, h'.coarseIndex.trans h.coarseIndex, h'.coarseCard.trans h.coarseCard, h'.nYielded.trans h.nYielded⟩

variable (c t it)

lemma sameRest_fineFindNextNonNullPrt (limit) : SameRest it (fineFindNextNonNullPrt limit t it) := by
  unfold fineFindNextNonNullPrt
  split <;> exact ⟨rfl, rfl, rfl, rfl⟩

lemma sameRest_fineAdvance : SameRest it (fineAdvance c t it) := by
  unfold fineAdvance
  generalize fineLimit c = limit
  dsimp only
  split
  · split
    · have h := sameRest_fineFindNextNonNullPrt t { it with curRegionCurCard := 0, fineCurPrt := it.fineCurPrt.tail }
        limit
      exact ⟨h.is, h.coarseIndex, h.coarseCard, h.nYielded⟩
    · exact ⟨rfl, rfl, rfl, rfl⟩
  · split
    · exact sameRest_fineFindNextNonNullPrt t it limit
    · exact ⟨rfl, rfl, rfl, rfl⟩

lemma coarseHasNext_is : (coarseHasNext c t it).1.is = it.is := by
  unfold coarseHasNext
  dsimp only
  split_ifs <;> rfl

variable {c t it}

lemma sameRest_fineLoop {fuel out} (h : fineLoop c t fuel it = some (it', out)) : SameRest it it' := by
  induction fuel generalizing it with
  | zero => cases h
  | succ fuel ih =>
    rw [fineLoop] at h
    split at h
    · cases h
      exact ⟨rfl, rfl, rfl, rfl⟩
    split at h
    · cases h
    · refine (sameRest_fineAdvance c t it).trans ?_
      dsimp only at h
      split at h
      · cases h
        exact ⟨rfl, rfl, rfl, rfl⟩
      · have hrest := ih h
        exact ⟨hrest.is, hrest.coarseIndex, hrest.coarseCard, hrest.nYielded⟩

lemma sameRest_fineHasNext {out} (h : fineHasNext c t it = some (it', out)) : SameRest it it' := by
  refine SameRest.trans ?_ (sameRest_fineLoop h)
  split
  · exact ⟨rfl, rfl, rfl, rfl⟩
  · split <;> exact ⟨rfl, rfl, rfl, rfl⟩

def coarseOut (c : RemSetConfig) (t : OtherRegionsTable) : List Nat :=
  regionsOut c (onesFrom c.maxRegions t.coarseMap 0)

structure CoarseFresh (c : RemSetConfig) (it : HeapRegionRemSetIterator) : Prop where
  index : it.coarseCurRegionIndex = -1
  card : it.coarseCurRegionCurCard = c.cardsPerRegion - 1

lemma CoarseFresh.remaining (h : CoarseFresh c it) : CoarseRemaining c t it (coarseOut c t) := by
  have hpos := c.cardsPerRegion_pos
  have hlast : it.coarseCurRegionCurCard + 1 = c.cardsPerRegion := by
    rw [h.card]
    omega
  have hrem : CoarseRemaining c t it _ := .here (by omega) (by rw [h.index]; rfl) fun _ => hlast
  rw [hlast, Nat.sub_self, range'_zero] at hrem
  exact hrem

structure FineFresh (it : HeapRegionRemSetIterator) : Prop where
  cur : it.fineCurPrt = []
  card : it.curRegionCurCard = 0
  index : it.fineArrayIndex = -1

inductive Remaining (c : RemSetConfig) (t : OtherRegionsTable) (live : List Nat) :
    HeapRegionRemSetIterator → List Nat → Prop
  | sparse {it : HeapRegionRemSetIterator} {l : List Nat} (his : it.is = .sparse)
      (hrem : RSHashTableIter.Remaining c t.sparseTable.cur live it.sparseIter l) (hfine : FineFresh it)
      (hcoarse : CoarseFresh c it) :
      Remaining c t live it (l ++ (tablesOut c t (tablesFrom c t 0) ++ coarseOut c t))
  | fine {it : HeapRegionRemSetIterator} {l : List Nat} (his : it.is = .fine) (hrem : FineRemaining c t it l)
      (hcoarse : CoarseFresh c it) : Remaining c t live it (l ++ coarseOut c t)
  | coarse {it : HeapRegionRemSetIterator} {l : List Nat} (his : it.is = .coarse) (hrem : CoarseRemaining c t it l) :
      Remaining c t live it l

section Steps

variable {live free : List Nat}

lemma CoarseRemaining.congr (h : CoarseRemaining c t it l) (hindex : it'.coarseCurRegionIndex = it.coarseCurRegionIndex)
    (hcard : it'.coarseCurRegionCurCard = it.coarseCurRegionCurCard)
    (hoffset : it'.curRegionCardOffset = it.curRegionCardOffset) : CoarseRemaining c t it' l := by
  cases h with
  | here hlt hb hcount =>
    rw [← hcard, ← hoffset]
    exact .here (hcard ▸ hlt) (hindex ▸ hb) (hcard ▸ hcount)

lemma FineRemaining.congr (h : FineRemaining c t it l) (hcur : it'.fineCurPrt = it.fineCurPrt)
    (hcard : it'.curRegionCurCard = it.curRegionCurCard) (hindex : it'.fineArrayIndex = it.fineArrayIndex)
    (hoffset : it'.curRegionCardOffset = it.curRegionCardOffset) : FineRemaining c t it' l := by
  cases h with
  | start h1 h2 h3 hlen => exact .start (hcur.trans h1) (hcard.trans h2) (hindex.trans h3) hlen
  | here h1 h2 h3 hlt h4 hlen =>
    rw [← hcard]
    exact .here (hcur.trans h1) (hcard ▸ h2) (hindex.trans h3) hlt (hoffset.trans h4) hlen

variable (hcount : t.nCoarseEntries = countOneBits c.maxRegions t.coarseMap)

include hcount

lemma hasNextCoarse_spec (his : it.is = .coarse) (hrem : CoarseRemaining c t it l) :
    Steps (Remaining c t live) l (hasNextCoarse c t it).1 (hasNextCoarse c t it).2 := by
  obtain ⟨hout, hrest⟩ := coarseHasNext_spec hcount hrem
  have his' := (coarseHasNext_is c t it).trans his
  rw [hasNextCoarse]
  generalize coarseHasNext c t it = res at hout hrest his'
  obtain ⟨it', out⟩ := res
  cases out with
  | none => exact ⟨hout, fun hne => .coarse his' (hrest hne)⟩
  | some i => exact ⟨hout, fun hne => .coarse his' ((hrest hne).congr rfl rfl rfl)⟩

variable (hint : c.maxFineEntries < 2 ^ 31)

include hint

lemma hasNextFine_spec (his : it.is = .fine) (hrem : FineRemaining c t it l) (hcoarse : CoarseFresh c it) :
    ∃ it' out, hasNextFine c t it = some (it', out) ∧ Steps (Remaining c t live) (l ++ coarseOut c t) it' out := by
  obtain ⟨it', out, hnext, hsteps⟩ := fineHasNext_spec hint hrem
  have hrest := sameRest_fineHasNext hnext
  have hfresh : CoarseFresh c it' := ⟨hrest.coarseIndex.trans hcoarse.index, hrest.coarseCard.trans hcoarse.card⟩
  rw [hasNextFine, hnext]
  cases out with
  | none =>
    have hl : l = [] := head?_eq_none_iff.1 hsteps.1.symm
    subst hl
    refine ⟨_, _, rfl, hasNextCoarse_spec hcount rfl ?_⟩
    exact hfresh.remaining.congr rfl rfl rfl
  | some i =>
    obtain ⟨hout, htail⟩ := hsteps
    cases l with
    | nil => cases hout
    | cons j l =>
      refine ⟨_, _, rfl, hout, fun _ => .fine (hrest.is.trans his) ?_ ⟨hfresh.index, hfresh.card⟩⟩
      exact (htail (cons_ne_nil j l)).congr rfl rfl rfl rfl

variable (h : t.sparseTable.cur.Wf c.cardsNum live [] free) (hshort : c.cardsNum < 2 ^ 15)
  (hlen : (tablesFrom c t 0).length ≤ c.maxFineEntries)

include h hshort hlen

lemma hasNextSparse_spec (his : it.is = .sparse)
    (hrem : RSHashTableIter.Remaining c t.sparseTable.cur live it.sparseIter l) (hfine : FineFresh it)
    (hcoarse : CoarseFresh c it) : ∃ it' out, hasNextSparse c t it = some (it', out) ∧
      Steps (Remaining c t live) (l ++ (tablesOut c t (tablesFrom c t 0) ++ coarseOut c t)) it' out := by
  obtain ⟨sparseIter, out, hnext, hout, htail⟩ := RSHashTableIter.hasNext_spec h hshort hrem
  rw [hasNextSparse, hnext]
  cases out with
  | none =>
    have hl : l = [] := head?_eq_none_iff.1 hout.symm
    subst hl
    refine hasNextFine_spec hcount hint rfl ?_ ⟨hcoarse.index, hcoarse.card⟩
    exact .start hfine.cur hfine.card hfine.index hlen
  | some i =>
    cases l with
    | nil => cases hout
    | cons j l =>
      refine ⟨_, _, rfl, hout, fun _ => .sparse his (htail (cons_ne_nil j l)) ?_ ?_⟩
      · exact ⟨hfine.cur, hfine.card, hfine.index⟩
      · exact ⟨hcoarse.index, hcoarse.card⟩

lemma hasNext_spec (hrem : Remaining c t live it l) :
    ∃ it' out, hasNext c t it = some (it', out) ∧ Steps (Remaining c t live) l it' out := by
  rw [hasNext]
  cases hrem with
  | sparse his hrem hfine hcoarse =>
    rw [his]
    exact hasNextSparse_spec hcount hint h hshort hlen his hrem hfine hcoarse
  | fine his hrem hcoarse =>
    rw [his]
    exact hasNextFine_spec hcount hint his hrem hcoarse
  | coarse his hrem =>
    rw [his]
    exact ⟨_, _, rfl, hasNextCoarse_spec hcount his hrem⟩

end Steps

end HeapRegionRemSetIterator

end Rolp.RemSet
