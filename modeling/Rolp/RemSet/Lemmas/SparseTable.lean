import Rolp.Lib.HashTable
import Rolp.RemSet.SparseTable

/-!
# What the slots of a sparse table mean

The slots below `_free_region` are the live entries, linked in their buckets, and the free ones.
-/

namespace Rolp.RemSet

open Rolp.Lib Function List Nat SparsePRTEntry RSHashTable

/-! ## The cards of an entry -/

def pad (k : Nat) (ds : List Nat) : List (Option Nat) := ds.map some ++ List.replicate (k - ds.length) none

lemma pad_cons (k d ds) : pad (k + 1) (d :: ds) = some d :: pad k ds := by simp [pad]

variable {n : Nat} {ds : List Nat}

lemma pad_getElem? {k} (hn : n < k) (hle : ds.length ≤ k) : (pad k ds)[n]? = some ds[n]? := by
  by_cases hlt : n < ds.length
  · rw [pad, getElem?_append_left (by simpa using hlt), getElem?_map, getElem?_eq_getElem hlt]
    rfl
  · rw [pad, getElem?_append_right (by simpa using hlt), getElem?_replicate, length_map,
      if_pos (by omega), getElem?_eq_none (not_lt.1 hlt)]

variable {e : SparsePRTEntry}

namespace SparsePRTEntry

def validCards (e : SparsePRTEntry) : List Nat := e.cards.filterMap id

lemma mem_validCards {c} : c ∈ e.validCards ↔ some c ∈ e.cards := by simp [validCards]

lemma containsCard_iff {c} : e.containsCard c = true ↔ c ∈ e.validCards := by
  rw [mem_validCards, containsCard, decide_eq_true_eq]

lemma countP_ne_none (cs : List (Option Nat)) : cs.countP (· ≠ none) = (cs.filterMap id).length := by
  induction cs with
  | nil => rfl
  | cons c cs ih => cases c <;> simp_all

lemma numValidCards_eq (e : SparsePRTEntry) : e.numValidCards = e.validCards.length := countP_ne_none e.cards

structure CardsOk (k : Nat) (e : SparsePRTEntry) : Prop where
  nodup : e.validCards.Nodup
  length_le : e.validCards.length ≤ k
  cards_eq : e.cards = pad k e.validCards

lemma filterMap_pad (k ds) : (pad k ds).filterMap id = ds := by simp [pad]

lemma CardsOk.of_pad {k} (h : e.cards = pad k ds) (hn : ds.Nodup)
    (hle : ds.length ≤ k) : e.CardsOk k ∧ e.validCards = ds := by
  have hds : e.validCards = ds := by rw [validCards, h, filterMap_pad]
  exact ⟨⟨hds ▸ hn, hds ▸ hle, hds ▸ h⟩, hds⟩

lemma addCardLoop_found {k c} (hle : ds.length ≤ k) (hc : c ∈ ds) : addCardLoop c (pad k ds) = (pad k ds, .found) := by
  induction ds generalizing k with
  | nil => cases hc
  | cons d ds ih =>
    cases k with
    | zero => cases hle
    | succ k =>
      rw [pad_cons, addCardLoop]
      by_cases hd : d = c
      · simp [hd]
      · have hc' : c ∈ ds := (mem_cons.1 hc).resolve_left fun h => hd h.symm
        simp [ih (le_of_succ_le_succ hle) hc']

lemma addCardLoop_added {k c} (hlt : ds.length < k) (hc : c ∉ ds) :
    addCardLoop c (pad k ds) = (pad k (ds ++ [c]), .added) := by
  induction ds generalizing k with
  | nil =>
    cases k with
    | zero => cases hlt
    | succ k => simp [pad, replicate_succ, addCardLoop]
  | cons d ds ih =>
    cases k with
    | zero => cases hlt
    | succ k =>
      obtain ⟨hd, hc'⟩ := not_or.1 (mt mem_cons.2 hc)
      rw [cons_append, pad_cons, pad_cons, addCardLoop]
      simp [Ne.symm hd, ih (lt_of_succ_lt_succ hlt) hc']

lemma addCardLoop_overflow {k c} (hlen : ds.length = k) (hc : c ∉ ds) :
    addCardLoop c (pad k ds) = (pad k ds, .overflow) := by
  induction ds generalizing k with
  | nil =>
    cases hlen
    rfl
  | cons d ds ih =>
    cases hlen
    obtain ⟨hd, hc'⟩ := not_or.1 (mt mem_cons.2 hc)
    rw [length_cons, pad_cons, addCardLoop]
    simp [Ne.symm hd, ih rfl hc']

/-- The cards after `add_card`, with its result. -/
def cardsAfter (k : Nat) (ds : List Nat) (c : Nat) : List Nat × AddCardResult :=
  if c ∈ ds then (ds, .found) else if ds.length < k then (ds ++ [c], .added) else (ds, .overflow)

lemma CardsOk.addCard {k} (h : e.CardsOk k) (c) :
    e.addCard c = ({ e with cards := pad k (cardsAfter k e.validCards c).1 }, (cardsAfter k e.validCards c).2) := by
  unfold SparsePRTEntry.addCard cardsAfter
  rw [h.cards_eq]
  by_cases hc : c ∈ e.validCards
  · simp [addCardLoop_found h.length_le hc, hc]
  · by_cases hlt : e.validCards.length < k
    · simp [addCardLoop_added hlt hc, hc, hlt]
    · have hlen : e.validCards.length = k := le_antisymm h.length_le (not_lt.1 hlt)
      simp [addCardLoop_overflow hlen hc, hc, hlt]

lemma mem_cardsAfter {k c d} (hd : d ∈ (cardsAfter k ds c).1) : d ∈ ds ∨ d = c := by
  unfold cardsAfter at hd
  split_ifs at hd
  · exact .inl hd
  · simpa using hd
  · exact .inl hd

lemma subset_cardsAfter {k c} : ds ⊆ (cardsAfter k ds c).1 := by
  unfold cardsAfter
  split_ifs
  · exact List.Subset.refl ds
  · exact subset_append_left ds [c]
  · exact List.Subset.refl ds

lemma mem_cardsAfter_self {k c} (h : (cardsAfter k ds c).2 ≠ .overflow) : c ∈ (cardsAfter k ds c).1 := by
  unfold cardsAfter at h ⊢
  split_ifs at h ⊢ with hc hlt
  · exact hc
  · simp
  · exact absurd rfl h

lemma cardsAfter_nodup {k c} (hn : ds.Nodup) (hle : ds.length ≤ k) :
    (cardsAfter k ds c).1.Nodup ∧ (cardsAfter k ds c).1.length ≤ k := by
  unfold cardsAfter
  split
  · exact ⟨hn, hle⟩
  next hc =>
    split
    · refine ⟨hn.concat hc |> (by simpa using ·), ?_⟩
      simp only [length_append, length_singleton]
      omega
    · exact ⟨hn, hle⟩

end SparsePRTEntry

/-! ## The slots -/

namespace RSHashTable

variable {k : Nat} {t t' : RSHashTable} {live spare free : List Nat} {i r c : Nat}

def chain (t : RSHashTable) (live : List Nat) (b : Nat) : List Nat :=
  live.filter fun i => (t.entries i).rInd.map t.ind = some b

structure Wf (k : Nat) (t : RSHashTable) (live spare free : List Nat) : Prop where
  buckets : ∀ b, Linked t.next (t.buckets b) (t.chain live b)
  freeList : Linked t.next t.freeList free
  slots : (live ++ (spare ++ free)).Perm (List.range t.freeRegion)
  regions : ∀ i ∈ live, (t.entries i).rInd ≠ none
  distinct : (live.map fun i => (t.entries i).rInd).Nodup
  cards : ∀ i ∈ live, (t.entries i).CardsOk k
  fresh : ∀ i, t.freeRegion ≤ i → (t.entries i).rInd = none
  occupiedEntries : t.occupiedEntries = live.length
  occupiedCards : t.occupiedCards = (live.map fun i => (t.entries i).validCards.length).sum
  half : t.freeRegion ≤ t.capacity / 2 + 1
  capacity_ge : 16 ≤ t.capacity
  capacity_even : t.capacity % 2 = 0

lemma next_setEntry (t : RSHashTable) (i : Nat) (e : SparsePRTEntry) :
    (t.setEntry i e).next = update t.next i e.nextIndex := by
  funext j
  by_cases h : j = i
  · subst h
    simp [next, setEntry]
  · simp [next, setEntry, h]

lemma mem_chain {b} : i ∈ t.chain live b ↔ i ∈ live ∧ (t.entries i).rInd.map t.ind = some b := by simp [chain]

lemma chain_append (t : RSHashTable) (l1 l2 : List Nat) (b : Nat) :
    t.chain (l1 ++ l2) b = t.chain l1 b ++ t.chain l2 b := filter_append ..

lemma chain_cons_self (hr : (t.entries i).rInd = some r) (l) :
    t.chain (i :: l) (t.ind r) = i :: t.chain l (t.ind r) := by
  refine filter_cons_of_pos (decide_eq_true ?_)
  rw [hr, Option.map_some]

lemma chain_cons_of_ne (hr : (t.entries i).rInd = some r) {b} (hb : b ≠ t.ind r) (l) :
    t.chain (i :: l) b = t.chain l b := by
  refine filter_cons_of_neg (mt of_decide_eq_true ?_)
  rw [hr]
  exact fun heq => hb (Option.some.inj heq).symm

lemma chain_congr (hr : ∀ i ∈ live, (t'.entries i).rInd = (t.entries i).rInd) (hcap : t'.capacity = t.capacity)
    (b) : t'.chain live b = t.chain live b := by
  refine filter_congr fun i hi => ?_
  have hind : t'.ind = t.ind := by
    funext r
    simp [ind, hcap]
  rw [hr i hi, hind]

variable {j : Nat}

namespace Wf

section

variable (h : Wf k t live spare free)

include h

lemma nodup : (live ++ (spare ++ free)).Nodup := h.slots.nodup_iff.2 nodup_range

lemma nodup_live : live.Nodup := (nodup_append.1 h.nodup).1

lemma length_add : live.length + (spare.length + free.length) = t.freeRegion := by simpa using h.slots.length_eq

lemma not_spare (hi : i ∈ live) : i ∉ spare ++ free := fun hf => (nodup_append.1 h.nodup).2.2 i hi i hf rfl

lemma length_chain_le (b) : (t.chain live b).length ≤ t.capacity := by
  have hle : (t.chain live b).length ≤ live.length := length_filter_le _ _
  have := h.length_add
  have := h.half
  have := h.capacity_ge
  omega

lemma slot_unique (hi : i ∈ live) (hj : j ∈ live) (heq : (t.entries i).rInd = (t.entries j).rInd) : i = j :=
  inj_on_of_nodup_map h.distinct hi hj heq

end

end Wf

/-! ## Looking up a region -/

lemma Wf.entryForRegionInd (h : Wf k t live spare free) (r) :
    t.entryForRegionInd r = live.find? fun i => (t.entries i).rInd = some r := by
  rw [RSHashTable.entryForRegionInd, search_eq (h.buckets _) (h.length_chain_le _)]
  exact find?_bucket (fun i => (t.entries i).rInd) (Option.map t.ind) live (some r)

lemma Wf.entry_some_iff (h : Wf k t live spare free) :
    t.entryForRegionInd r = some i ↔ i ∈ live ∧ (t.entries i).rInd = some r := by
  rw [h.entryForRegionInd]
  exact find?_key_eq_some_iff h.distinct

lemma Wf.entry_none_iff (h : Wf k t live spare free) :
    t.entryForRegionInd r = none ↔ ∀ i ∈ live, (t.entries i).rInd ≠ some r := by
  rw [h.entryForRegionInd]
  exact find?_key_eq_none_iff

/-! ## The map of a table -/

def view (t : RSHashTable) (r : Nat) : Option (List Nat) :=
  (t.entryForRegionInd r).map fun i => (t.entries i).validCards

lemma containsCard_iff : t.containsCard r c = true ↔ ∃ ds, t.view r = some ds ∧ c ∈ ds := by
  rw [containsCard, view]
  cases t.entryForRegionInd r with
  | none => simp
  | some i => simp [SparsePRTEntry.containsCard_iff]

lemma Wf.view_eq_some (h : Wf k t live spare free) :
    t.view r = some ds ↔ ∃ i ∈ live, (t.entries i).rInd = some r ∧ (t.entries i).validCards = ds := by
  rw [view, Option.map_eq_some_iff]
  constructor
  · rintro ⟨i, hi, hds⟩
    exact ⟨i, (h.entry_some_iff.1 hi).1, (h.entry_some_iff.1 hi).2, hds⟩
  · rintro ⟨i, hi, hr, hds⟩
    exact ⟨i, h.entry_some_iff.2 ⟨hi, hr⟩, hds⟩

lemma Wf.view_eq_none (h : Wf k t live spare free) : t.view r = none ↔ ∀ i ∈ live, (t.entries i).rInd ≠ some r := by
  rw [view, Option.map_eq_none_iff, h.entry_none_iff]

lemma Wf.view_eq (h : Wf k t live spare free) {m}
    (hm : ∀ r ds, m r = some ds ↔ ∃ i ∈ live, (t.entries i).rInd = some r ∧ (t.entries i).validCards = ds) :
    t.view = m := by
  funext r
  apply Option.ext
  intro ds
  exact h.view_eq_some.trans (hm r ds).symm

lemma Wf.view_eq_update {live' spare' free' v} (h : Wf k t live spare free) (h' : Wf k t' live' spare' free')
    (hself : t'.view r = v) (hother : ∀ r' ≠ r, ∀ j ds,
      (j ∈ live' ∧ (t'.entries j).rInd = some r' ∧ (t'.entries j).validCards = ds) ↔
        j ∈ live ∧ (t.entries j).rInd = some r' ∧ (t.entries j).validCards = ds) : t'.view = update t.view r v := by
  refine eq_update_iff.2 ⟨hself, fun r' hrr => Option.ext fun ds => ?_⟩
  rw [h'.view_eq_some, h.view_eq_some]
  exact exists_congr fun j => hother r' hrr j ds

def cardPairs (t : RSHashTable) (live : List Nat) : List (Nat × Nat) :=
  live.flatMap fun i => (t.entries i).validCards.map (Prod.mk ((t.entries i).rInd.getD 0))

lemma length_cardPairs (t : RSHashTable) (live : List Nat) :
    (t.cardPairs live).length = (live.map fun i => (t.entries i).validCards.length).sum := by
  simp [cardPairs]

lemma Wf.mem_cardPairs (h : Wf k t live spare free) :
    (r, c) ∈ t.cardPairs live ↔ ∃ ds, t.view r = some ds ∧ c ∈ ds := by
  simp only [cardPairs, mem_flatMap, mem_map, Prod.mk.injEq, h.view_eq_some]
  constructor
  · rintro ⟨i, hi, c, hc, hr, rfl⟩
    obtain ⟨r', hr'⟩ := Option.ne_none_iff_exists'.1 (h.regions i hi)
    rw [hr'] at hr
    exact ⟨_, ⟨i, hi, hr ▸ hr', rfl⟩, hc⟩
  · rintro ⟨ds, ⟨i, hi, hr, rfl⟩, hc⟩
    exact ⟨i, hi, c, hc, by rw [hr, Option.getD_some], rfl⟩

lemma Wf.nodup_cardPairs (h : Wf k t live spare free) : (t.cardPairs live).Nodup := by
  refine nodup_flatMap_pairs (pairwise_map.2 ?_) fun i hi => (h.cards i hi).nodup
  refine h.nodup_live.imp_of_mem fun {i j} hi hj hne heq => ?_
  obtain ⟨r, hr⟩ := Option.ne_none_iff_exists'.1 (h.regions i hi)
  obtain ⟨r', hr'⟩ := Option.ne_none_iff_exists'.1 (h.regions j hj)
  rw [hr, hr', Option.getD_some, Option.getD_some] at heq
  exact hne (h.slot_unique hi hj (by rw [hr, hr', heq]))

/-! ## A new entry -/

lemma Wf.allocEntry (h : Wf k t live [] free) (hroom : live.length ≤ t.capacity / 2) :
    ∃ t' i free', t.allocEntry = (t', some i) ∧ Wf k t' live [i] free' ∧ t'.capacity = t.capacity ∧
      t'.entries = t.entries ∧ t'.occupiedCards = t.occupiedCards := by
  have hlen := h.length_add
  have hcap := h.capacity_ge
  cases free with
  | cons j free' =>
    obtain ⟨hhead, hrest⟩ := h.freeList
    refine ⟨{ t with freeList := t.next j }, j, free', ?_, ?_, rfl, rfl, rfl⟩
    · simp [allocEntry, hhead]
    · exact ⟨h.buckets, hrest, h.slots, h.regions, h.distinct, h.cards, h.fresh, h.occupiedEntries, h.occupiedCards,
        h.half, h.capacity_ge, h.capacity_even⟩
  | nil =>
    have hnull : t.freeList = none := h.freeList
    have hslots := h.slots
    simp only [length_nil, add_zero, append_nil] at hlen hslots
    have hlt : t.freeRegion + 1 < t.capacity := by omega
    refine ⟨{ t with freeRegion := t.freeRegion + 1 }, t.freeRegion, [], ?_, ?_, rfl, rfl, rfl⟩
    · simp [allocEntry, hnull, hlt]
    · refine ⟨h.buckets, h.freeList, ?_, h.regions, h.distinct, h.cards, ?_, h.occupiedEntries, h.occupiedCards, ?_,
        h.capacity_ge, h.capacity_even⟩
      · rw [range_succ]
        exact hslots.append_right _
      · exact fun i hi => h.fresh i (le_of_succ_le hi)
      · change t.freeRegion + 1 ≤ t.capacity / 2 + 1
        omega

lemma insertEntry_entries_of_ne (hj : j ≠ i) : (insertEntry k t r i).entries j = t.entries j := by
  simp [insertEntry, setEntry, hj]

lemma insertEntry_rInd_self : ((insertEntry k t r i).entries i).rInd = some r := by
  simp [insertEntry, setEntry, SparsePRTEntry.init]

lemma insertEntry_cards_self :
    ((insertEntry k t r i).entries i).CardsOk k ∧ ((insertEntry k t r i).entries i).validCards = [] := by
  refine SparsePRTEntry.CardsOk.of_pad ?_ nodup_nil (zero_le k)
  simp [insertEntry, setEntry, SparsePRTEntry.init, pad]

lemma insertEntry_next : (insertEntry k t r i).next = update t.next i (t.buckets (t.ind r)) := next_setEntry t i _

lemma Wf.insertEntry_entries (h : Wf k t live [i] free) :
    ∀ j ∈ live, (insertEntry k t r i).entries j = t.entries j := by
  intro j hj
  refine insertEntry_entries_of_ne ?_
  rintro rfl
  exact h.not_spare hj (by simp)

lemma Wf.insertEntry (h : Wf k t live [i] free) (hr : ∀ j ∈ live, (t.entries j).rInd ≠ some r) :
    Wf k (insertEntry k t r i) (i :: live) [] free := by
  have hnotlive : i ∉ live := fun hi => h.not_spare hi (by simp)
  have hnotfree : i ∉ free := (nodup_cons.1 (nodup_append.1 h.nodup).2.1).1
  have hlt : i < t.freeRegion := mem_range.1 (h.slots.mem_iff.1 (by simp))
  have hold := h.insertEntry_entries (r := r)
  refine ⟨fun b => ?_, ?_, perm_middle.symm.trans h.slots, ?_, ?_, ?_, ?_, congrArg (· + 1) h.occupiedEntries, ?_,
    h.half, h.capacity_ge, h.capacity_even⟩
  · -- All chains are linked as before, and that of the region is behind the new entry.
    have hnotchain : i ∉ t.chain live b := fun hi => hnotlive (mem_chain.1 hi).1
    have hlinked := (h.buckets b).update hnotchain (t.buckets (t.ind r))
    have hchain : (RSHashTable.insertEntry k t r i).chain live b = t.chain live b :=
      chain_congr (fun j hj => congrArg rInd (hold j hj)) rfl b
    rw [← insertEntry_next, ← hchain] at hlinked
    by_cases hb : b = t.ind r
    · subst hb
      have hfirst := chain_cons_self (insertEntry_rInd_self (k := k) (t := t) (r := r) (i := i)) live
      refine hfirst ▸ ⟨update_self _ _ _, ?_⟩
      rw [insertEntry_next, update_self, ← insertEntry_next]
      exact hlinked
    · have hbucket : (RSHashTable.insertEntry k t r i).buckets b = t.buckets b := update_of_ne hb _ _
      rw [hbucket, chain_cons_of_ne insertEntry_rInd_self hb]
      exact hlinked
  · rw [insertEntry_next]
    exact h.freeList.update hnotfree _
  · intro j hj
    rcases mem_cons.1 hj with rfl | hj
    · rw [insertEntry_rInd_self]
      exact Option.some_ne_none r
    · rw [hold j hj]
      exact h.regions j hj
  · have hmap := map_congr_left fun j hj => congrArg rInd (hold j hj)
    rw [map_cons, hmap, insertEntry_rInd_self, nodup_cons]
    refine ⟨fun hmem => ?_, h.distinct⟩
    obtain ⟨j, hj, heq⟩ := mem_map.1 hmem
    exact hr j hj heq
  · intro j hj
    rcases mem_cons.1 hj with rfl | hj
    · exact insertEntry_cards_self.1
    · rw [hold j hj]
      exact h.cards j hj
  · intro j hj
    have hji : j ≠ i := ne_of_gt (lt_of_lt_of_le hlt hj)
    rw [insertEntry_entries_of_ne hji]
    exact h.fresh j hj
  · have hmap := map_congr_left fun j hj => congrArg (fun e => (validCards e).length) (hold j hj)
    rw [map_cons, sum_cons, hmap, insertEntry_cards_self.2, length_nil, zero_add]
    exact h.occupiedCards

lemma Wf.view_insertEntry (h : Wf k t live [i] free) (hr : ∀ j ∈ live, (t.entries j).rInd ≠ some r) :
    (RSHashTable.insertEntry k t r i).view = update t.view r (some []) := by
  have h' := h.insertEntry hr
  refine h.view_eq_update h' (h'.view_eq_some.2 ⟨i, by simp, insertEntry_rInd_self, insertEntry_cards_self.2⟩) ?_
  intro r' hrr j ds
  by_cases hj : j = i
  · subst hj
    have hlive : j ∉ live := fun hj => h.not_spare hj (by simp)
    simp [insertEntry_rInd_self, Ne.symm hrr, hlive]
  · simp [insertEntry_entries_of_ne hj, hj]

lemma Wf.entryForRegionIndCreate (h : Wf k t live [] free) (hroom : live.length ≤ t.capacity / 2) (r) :
    ∃ t' i live' free', t.entryForRegionIndCreate k r = some (t', i) ∧ Wf k t' live' [] free' ∧
      live'.length ≤ live.length + 1 ∧ t'.capacity = t.capacity ∧ i ∈ live' ∧ (t'.entries i).rInd = some r ∧
      (t'.entries i).validCards = (t.view r).getD [] ∧ t'.occupiedCards = t.occupiedCards ∧
      t'.view = update t.view r (some ((t.view r).getD [])) := by
  rw [RSHashTable.entryForRegionIndCreate]
  cases hentry : t.entryForRegionInd r with
  | some i =>
    obtain ⟨hi, hr⟩ := h.entry_some_iff.1 hentry
    have hview : t.view r = some (t.entries i).validCards := by rw [view, hentry, Option.map_some]
    refine ⟨t, i, live, free, rfl, h, le_succ _, rfl, hi, hr, ?_, rfl, ?_⟩
    · rw [hview, Option.getD_some]
    · rw [hview, Option.getD_some, ← hview, update_eq_self]
  | none =>
    obtain ⟨t', i, free', halloc, h', hcap, hentries, hocc⟩ := h.allocEntry hroom
    have hnone := h.entry_none_iff.1 hentry
    have hnone' : ∀ j ∈ live, (t'.entries j).rInd ≠ some r := hentries ▸ hnone
    have hview : t.view r = none := h.view_eq_none.2 hnone
    have hsame : t'.view = t.view := by
      refine h'.view_eq fun r' ds => ?_
      rw [hentries, h.view_eq_some]
    refine ⟨t'.insertEntry k r i, i, i :: live, free', by rw [halloc], h'.insertEntry hnone', le_rfl, hcap,
      by simp, insertEntry_rInd_self, ?_, hocc, ?_⟩
    · rw [insertEntry_cards_self.2, hview, Option.getD_none]
    · rw [hview, Option.getD_none, h'.view_insertEntry hnone', hsame]

/-! ## New cards in an entry -/

def setCards (k : Nat) (t : RSHashTable) (i : Nat) (ds : List Nat) (occupiedCards : Nat) : RSHashTable :=
  { t.setEntry i { t.entries i with cards := pad k ds } with occupiedCards }

variable (t)

lemma setCards_rInd (i ds n j) : ((t.setCards k i ds n).entries j).rInd = (t.entries j).rInd := by
  by_cases hj : j = i
  · subst hj
    simp [setCards, setEntry]
  · simp [setCards, setEntry, hj]

lemma setCards_validCards_self (i ds n) : ((t.setCards k i ds n).entries i).validCards = ds := by
  have hcards : ((t.setCards k i ds n).entries i).cards = pad k ds := by simp [setCards, setEntry]
  rw [validCards, hcards, filterMap_pad]

lemma setCards_entries_of_ne {i} (hj : j ≠ i) (ds n) : (t.setCards k i ds n).entries j = t.entries j := by
  simp [setCards, setEntry, hj]

lemma setCards_next (i : Nat) (ds : List Nat) (n : Nat) : (t.setCards k i ds n).next = t.next := by
  have hnext : (t.setCards k i ds n).next = update t.next i (t.next i) := next_setEntry t i _
  rw [hnext, update_eq_self]

variable {t}

lemma Wf.setCards (h : Wf k t live [] free) (hi : i ∈ live) (hn : ds.Nodup) (hle : ds.length ≤ k)
    (hocc : n + (t.entries i).validCards.length = t.occupiedCards + ds.length) :
    Wf k (t.setCards k i ds n) live [] free := by
  refine ⟨fun b => ?_, ?_, h.slots, ?_, ?_, ?_, ?_, h.occupiedEntries, ?_, h.half, h.capacity_ge, h.capacity_even⟩
  · rw [setCards_next, chain_congr fun j _ => setCards_rInd t i ds n j]
    · exact h.buckets b
    · rfl
  · rw [setCards_next]
    exact h.freeList
  · simp only [setCards_rInd]
    exact h.regions
  · simp only [setCards_rInd]
    exact h.distinct
  · intro j hj
    by_cases hji : j = i
    · subst hji
      refine (SparsePRTEntry.CardsOk.of_pad ?_ hn hle).1
      simp [setCards, setEntry]
    · rw [setCards_entries_of_ne t hji]
      exact h.cards j hj
  · simp only [setCards_rInd]
    exact h.fresh
  · have hrest : ((live.erase i).map fun j => ((t.setCards k i ds n).entries j).validCards.length) =
        (live.erase i).map fun j => (t.entries j).validCards.length := by
      refine map_congr_left fun j hj => ?_
      have hji : j ≠ i := by
        rintro rfl
        exact h.nodup_live.not_mem_erase hj
      rw [setCards_entries_of_ne t hji]
    have hsum := h.occupiedCards
    rw [← sum_map_erase _ hi] at hsum
    rw [← sum_map_erase _ hi, hrest, setCards_validCards_self]
    change n = _
    omega

lemma Wf.view_setCards (h : Wf k t live [] free)
    (h' : Wf k (t.setCards k i ds n) live [] free) (hi : i ∈ live) (hr : (t.entries i).rInd = some r) :
    (t.setCards k i ds n).view = update t.view r (some ds) := by
  refine h.view_eq_update h' (h'.view_eq_some.2 ⟨i, hi, ?_, setCards_validCards_self t i ds n⟩) fun r' hrr j ds' => ?_
  · rw [setCards_rInd, hr]
  · rw [setCards_rInd]
    by_cases hj : j = i
    · subst hj
      simp [hr, Ne.symm hrr]
    · rw [setCards_entries_of_ne t hj]

lemma Wf.addCard (h : Wf k t live [] free) (hroom : live.length ≤ t.capacity / 2) (r c) :
    ∃ t' live' free', t.addCard k r c = some (t', decide ((cardsAfter k ((t.view r).getD []) c).2 ≠ .overflow)) ∧
      Wf k t' live' [] free' ∧ t'.view = update t.view r (some (cardsAfter k ((t.view r).getD []) c).1) := by
  obtain ⟨t', i, live', free', hcreate, h', -, -, hi, hr, hcards, hocc, hview⟩ := h.entryForRegionIndCreate hroom r
  have hok := h'.cards i hi
  have hnew := cardsAfter_nodup (c := c) hok.nodup hok.length_le
  have hadd := hok.addCard c
  rw [hcards] at hnew hadd
  generalize (t.view r).getD [] = ds at *
  have hwf := h'.setCards (n := if (cardsAfter k ds c).2 = .added then t'.occupiedCards + 1
    else t'.occupiedCards) hi hnew.1 hnew.2 (by
      unfold cardsAfter
      split_ifs <;> simp_all; omega)
  refine ⟨_, live', free', ?_, hwf, ?_⟩
  · rw [RSHashTable.addCard, hcreate]
    simp only [hadd, RSHashTable.setCards]
  · rw [h'.view_setCards hwf hi hr, hview, update_idem]

/-! ## Deleting an entry -/

structure SameData (t t' : RSHashTable) : Prop where
  capacity : t'.capacity = t.capacity
  freeRegion : t'.freeRegion = t.freeRegion
  rInd : ∀ j, (t'.entries j).rInd = (t.entries j).rInd
  cards : ∀ j, (t'.entries j).cards = (t.entries j).cards

lemma sameData_setNext (t j x) : SameData t (t.setEntry j { t.entries j with nextIndex := x }) := by
  refine ⟨rfl, rfl, fun m => ?_, fun m => ?_⟩ <;> by_cases hm : m = j <;> simp [setEntry, hm]

lemma SameData.validCards (h : SameData t t') (j) : (t'.entries j).validCards = (t.entries j).validCards := by
  rw [SparsePRTEntry.validCards, SparsePRTEntry.validCards, h.cards j]

lemma SameData.cardsOk (h : SameData t t') (hj : (t.entries j).CardsOk k) : (t'.entries j).CardsOk k := by
  refine ⟨?_, ?_, ?_⟩
  · exact h.validCards j ▸ hj.nodup
  · exact h.validCards j ▸ hj.length_le
  · rw [h.cards j, h.validCards j]
    exact hj.cards_eq

lemma SameData.view_eq {live' spare' free'} (hdata : SameData t t') (h : Wf k t live spare free)
    (h' : Wf k t' live' spare' free') (hlive : ∀ j, j ∈ live' ↔ j ∈ live) : t'.view = t.view := by
  refine h'.view_eq fun r ds => ?_
  simp only [hdata.rInd, hdata.validCards, hlive]
  exact h.view_eq_some

section Splice

variable {b : Nat} {a : Option Nat} {l c1 c2 : List Nat}

lemma spliceOut_next (t : RSHashTable) (b j i : Nat) :
    (t.spliceOut b (some j) i).next = update t.next j (t.next i) := next_setEntry t j _

lemma spliceOut_linked (hl : Linked t.next (t.buckets b) (c1 ++ i :: c2)) (hn : (c1 ++ i :: c2).Nodup) :
    Linked (t.spliceOut b c1.getLast? i).next ((t.spliceOut b c1.getLast? i).buckets b) (c1 ++ c2) := by
  rcases eq_nil_or_concat' c1 with rfl | ⟨l, j, rfl⟩
  · change Linked t.next (update t.buckets b (t.next i) b) c2
    rw [update_self]
    exact hl.2
  · rw [append_assoc] at hl hn
    rw [getLast?_concat, spliceOut_next, append_assoc]
    exact hl.unlink hn

lemma spliceOut_linked_other (hl : Linked t.next a l) (hd : ∀ j ∈ c1, j ∉ l) :
    Linked (t.spliceOut b c1.getLast? i).next a l := by
  rcases eq_nil_or_concat' c1 with rfl | ⟨l', j, rfl⟩
  · exact hl
  · rw [getLast?_concat, spliceOut_next]
    exact hl.update (hd j (by simp)) _

lemma spliceOut_buckets_of_ne {b'} (hb : b' ≠ b) (prev) : (t.spliceOut b prev i).buckets b' = t.buckets b' := by
  cases prev with
  | none => exact update_of_ne hb _ _
  | some j => rfl

lemma spliceOut_freeList (t : RSHashTable) (b : Nat) (prev : Option Nat) (i : Nat) :
    (t.spliceOut b prev i).freeList = t.freeList := by
  cases prev <;> rfl

lemma sameData_spliceOut (t b prev i) : SameData t (t.spliceOut b prev i) := by
  cases prev with
  | none => exact ⟨rfl, rfl, fun _ => rfl, fun _ => rfl⟩
  | some j => exact sameData_setNext t j _

end Splice

def withoutEntry (t : RSHashTable) (r : Nat) (prev : Option Nat) (i : Nat) : RSHashTable :=
  { t.spliceOut (t.ind r) prev i with
    occupiedCards := t.occupiedCards - (t.entries i).numValidCards
    occupiedEntries := t.occupiedEntries - 1 }

lemma sameData_withoutEntry (t r prev i) : SameData t (t.withoutEntry r prev i) :=
  have h := sameData_spliceOut t (t.ind r) prev i
  ⟨h.capacity, h.freeRegion, h.rInd, h.cards⟩

lemma Wf.withoutEntry {l1 l2} (h : Wf k t (l1 ++ i :: l2) [] free) (hr : (t.entries i).rInd = some r) :
    Wf k (t.withoutEntry r (t.chain l1 (t.ind r)).getLast? i) (l1 ++ l2) [i] free := by
  have hdata := sameData_withoutEntry t r (t.chain l1 (t.ind r)).getLast? i
  have hsub : (l1 ++ l2).Sublist (l1 ++ i :: l2) := (sublist_cons_self i l2).append_left l1
  have hfree : ∀ j ∈ t.chain l1 (t.ind r), j ∉ free := fun j hj => h.not_spare (mem_append_left _ (mem_chain.1 hj).1)
  refine ⟨fun b => ?_, ?_, ?_, ?_, ?_, ?_, ?_, ?_, ?_, ?_, hdata.capacity ▸ h.capacity_ge,
    hdata.capacity ▸ h.capacity_even⟩
  · rw [chain_congr (fun j _ => hdata.rInd j) hdata.capacity]
    by_cases hb : b = t.ind r
    · subst hb
      have hlinked := h.buckets (t.ind r)
      have hn : (t.chain (l1 ++ i :: l2) (t.ind r)).Nodup := h.nodup_live.filter _
      rw [chain_append, chain_cons_self hr] at hlinked hn
      rw [chain_append]
      exact spliceOut_linked hlinked hn
    -- The splicing writes to an entry of the region's own bucket, which is in no other chain.
    have hlinked := h.buckets b
    rw [chain_append, chain_cons_of_ne hr hb, ← chain_append] at hlinked
    have hbucket : (t.withoutEntry r (t.chain l1 (t.ind r)).getLast? i).buckets b = t.buckets b :=
      spliceOut_buckets_of_ne hb _
    rw [hbucket]
    refine spliceOut_linked_other hlinked fun j hj hj' => hb ?_
    exact Option.some.inj ((mem_chain.1 hj').2.symm.trans (mem_chain.1 hj).2)
  · have hlist : (t.withoutEntry r (t.chain l1 (t.ind r)).getLast? i).freeList = t.freeList := spliceOut_freeList ..
    rw [hlist]
    exact spliceOut_linked_other h.freeList hfree
  · rw [hdata.freeRegion]
    refine List.Perm.trans ?_ h.slots
    have hperm : (l1 ++ l2 ++ i :: free).Perm (l1 ++ i :: l2 ++ free) :=
      perm_middle.trans (perm_middle.symm.append_right free)
    exact hperm
  · simp only [hdata.rInd]
    exact fun j hj => h.regions j (hsub.subset hj)
  · simp only [hdata.rInd]
    exact h.distinct.sublist (hsub.map _)
  · exact fun j hj => hdata.cardsOk (h.cards j (hsub.subset hj))
  · simp only [hdata.rInd, hdata.freeRegion]
    exact h.fresh
  · change t.occupiedEntries - 1 = _
    rw [h.occupiedEntries]
    simp
  · simp only [hdata.validCards]
    change t.occupiedCards - (t.entries i).numValidCards = _
    rw [h.occupiedCards, numValidCards_eq]
    simp only [map_append, map_cons, List.sum_append, sum_cons]
    omega
  · rw [hdata.freeRegion, hdata.capacity]
    exact h.half

lemma Wf.view_withoutEntry {l1 l2 prev} (h : Wf k t (l1 ++ i :: l2) [] free)
    (h' : Wf k (t.withoutEntry r prev i) (l1 ++ l2) [i] free) (hr : (t.entries i).rInd = some r) :
    (t.withoutEntry r prev i).view = update t.view r none := by
  have hdata := sameData_withoutEntry t r prev i
  have hi : i ∉ l1 ++ l2 := fun hi => h'.not_spare hi (by simp)
  refine h.view_eq_update h' (h'.view_eq_none.2 fun j hj hrj => ?_) fun r' hrr j ds => ?_
  · rw [hdata.rInd] at hrj
    have hj' : j ∈ l1 ++ i :: l2 := ((sublist_cons_self i l2).append_left l1).subset hj
    exact hi (h.slot_unique hj' (by simp) (hrj.trans hr.symm) ▸ hj)
  · rw [hdata.rInd, hdata.validCards]
    by_cases hj : j = i
    · subst hj
      simp [hr, Ne.symm hrr]
    · simp [hj]

lemma freeEntry_next (t : RSHashTable) (i : Nat) : (t.freeEntry i).next = update t.next i t.freeList :=
  next_setEntry t i _

lemma sameData_freeEntry (t i) : SameData t (t.freeEntry i) :=
  have h := sameData_setNext t i t.freeList
  ⟨h.capacity, h.freeRegion, h.rInd, h.cards⟩

lemma Wf.freeEntry (h : Wf k t live [i] free) : Wf k (t.freeEntry i) live [] (i :: free) := by
  have hdata := sameData_freeEntry t i
  have hfree : i ∉ free := (nodup_cons.1 (nodup_append.1 h.nodup).2.1).1
  refine ⟨fun b => ?_, ?_, h.slots, ?_, ?_, fun j hj => hdata.cardsOk (h.cards j hj), ?_, h.occupiedEntries, ?_, h.half,
    h.capacity_ge, h.capacity_even⟩
  · have hnot : i ∉ t.chain live b := fun hmem => h.not_spare (mem_chain.1 hmem).1 (by simp)
    rw [chain_congr (fun j _ => hdata.rInd j) hdata.capacity, freeEntry_next]
    exact (h.buckets b).update hnot _
  · rw [freeEntry_next]
    refine ⟨rfl, ?_⟩
    rw [update_self]
    exact h.freeList.update hfree _
  · simp only [hdata.rInd]
    exact h.regions
  · simp only [hdata.rInd]
    exact h.distinct
  · simp only [hdata.rInd]
    exact h.fresh
  · simp only [hdata.validCards]
    exact h.occupiedCards

lemma Wf.deleteEntry (h : Wf k t live [] free) (r : Nat) :
    ∃ live' free', Wf k (t.deleteEntry r).1 live' [] free' ∧ (t.deleteEntry r).2 = (t.view r).isSome ∧
      (t.deleteEntry r).1.view = update t.view r none := by
  rw [RSHashTable.deleteEntry]
  cases hentry : t.entryForRegionInd r with
  | none =>
    have hnone := h.entry_none_iff.1 hentry
    have hview : t.view r = none := h.view_eq_none.2 hnone
    have hsearch := searchWithPrev_none (p := t.isFor r) (h.buckets (t.ind r))
      (fun j hj => decide_eq_false (hnone j (mem_chain.1 hj).1)) t.capacity none
    rw [hsearch]
    refine ⟨live, free, h, ?_, ?_⟩
    · rw [hview, Option.isSome_none]
    · rw [← hview, update_eq_self]
  | some i =>
    obtain ⟨hi, hr⟩ := h.entry_some_iff.1 hentry
    obtain ⟨l1, l2, rfl⟩ := append_of_mem hi
    have hview : (t.view r).isSome = true := by rw [view, hentry, Option.map_some, Option.isSome_some]
    have hlinked := h.buckets (t.ind r)
    have hlen := h.length_chain_le (t.ind r)
    rw [chain_append, chain_cons_self hr] at hlinked hlen
    rw [length_append, length_cons] at hlen
    have hfirst : ∀ j ∈ t.chain l1 (t.ind r), t.isFor r j = false := by
      intro j hj
      have hj1 : j ∈ l1 := (mem_chain.1 hj).1
      refine decide_eq_false fun hrj => ?_
      have hji : j = i := h.slot_unique (mem_append_left _ hj1) hi (hrj.trans hr.symm)
      exact (nodup_append.1 h.nodup_live).2.2 j hj1 i (by simp) hji
    have hsearch := searchWithPrev_some hlinked hfirst (decide_eq_true hr)
      (show (t.chain l1 (t.ind r)).length < t.capacity by omega) none
    rw [hsearch, Option.or_none]
    have h' := h.withoutEntry hr
    refine ⟨l1 ++ l2, i :: free, h'.freeEntry, hview.symm, ?_⟩
    rw [← h.view_withoutEntry h' hr]
    have hdata := sameData_freeEntry (t.withoutEntry r (t.chain l1 (t.ind r)).getLast? i) i
    exact hdata.view_eq h' h'.freeEntry fun _ => .rfl

/-! ## Expanding the table -/

lemma wf_new (k) {capacity} (hge : 16 ≤ capacity) (heven : capacity % 2 = 0) : Wf k (new k capacity) [] [] [] :=
  ⟨fun _ => rfl, rfl, List.Perm.refl _, fun _ hi => absurd hi not_mem_nil, nodup_nil,
    fun _ hi => absurd hi not_mem_nil, fun _ _ => rfl, rfl, rfl, zero_le _, hge, heven⟩

lemma view_new (k) {capacity} (hge : 16 ≤ capacity) (heven : capacity % 2 = 0) :
    (new k capacity).view = fun _ => none := by
  funext r
  exact (wf_new k hge heven).view_eq_none.2 fun _ hi => absurd hi not_mem_nil

lemma Wf.addEntry (h : Wf k t live [] free) (hroom : live.length ≤ t.capacity / 2)
    (he : e.CardsOk k) (hr : t.view r = none) :
    ∃ t' live' free', t.addEntry k e r = some t' ∧ Wf k t' live' [] free' ∧ live'.length ≤ live.length + 1 ∧
      t'.capacity = t.capacity ∧ t'.view = update t.view r (some e.validCards) := by
  obtain ⟨t', i, live', free', hcreate, h', hlen, hcap, hi, hri, hcards, -, hview⟩ := h.entryForRegionIndCreate hroom r
  rw [hr] at hcards hview
  have hwf := h'.setCards hi he.nodup he.length_le (by rw [hcards]; rfl)
  refine ⟨_, live', free', ?_, hwf, hlen, hcap, ?_⟩
  · have hnum : (e.copyCards (t'.entries i)).numValidCards = e.validCards.length := numValidCards_eq _
    rw [RSHashTable.addEntry, hcreate, RSHashTable.setCards, ← he.cards_eq]
    simp only [hnum]
    rfl
  · rw [h'.view_setCards hwf hi hri, hview, update_idem]

lemma Wf.rInd_eq_some (h : Wf k t live [] []) (hr : (t.entries i).rInd = some r) : i ∈ live := by
  have hslots := h.slots
  rw [append_nil, append_nil] at hslots
  refine hslots.mem_iff.2 (mem_range.2 ?_)
  by_contra hlt
  rw [h.fresh i (not_lt.1 hlt)] at hr
  cases hr

lemma Wf.foldlM_transfer (h : Wf k t live [] []) (hn : n ≤ t.capacity) :
    ∃ t' live' free', (List.range n).foldlM (transfer k t) (new k (t.capacity * 2)) = some t' ∧
      Wf k t' live' [] free' ∧ live'.length ≤ n ∧ t'.capacity = t.capacity * 2 ∧
      ∀ r ds, t'.view r = some ds ↔ ∃ i < n, (t.entries i).rInd = some r ∧ (t.entries i).validCards = ds := by
  have hge := h.capacity_ge
  induction n with
  | zero =>
    have hge' : 16 ≤ t.capacity * 2 := by omega
    have heven : t.capacity * 2 % 2 = 0 := by omega
    refine ⟨_, [], [], rfl, wf_new k hge' heven, le_refl _, rfl, fun r ds => ?_⟩
    rw [view_new k hge' heven]
    constructor
    · intro hnone
      cases hnone
    · rintro ⟨i, hi, -⟩
      exact absurd hi (not_lt_zero i)
  | succ n ih =>
    obtain ⟨t', live', free', hfold, h', hlen, hcap, hview⟩ := ih (le_of_succ_le hn)
    rw [range_succ, foldlM_append, hfold]
    simp only [foldlM_cons, Option.bind_eq_bind, Option.bind_some, transfer]
    cases hr : (t.entries n).rInd with
    | none =>
      refine ⟨t', live', free', rfl, h', le_succ_of_le hlen, hcap, fun r ds => ?_⟩
      rw [hview, exists_lt_succ_right, hr]
      simp
    | some r =>
      have hi := h.rInd_eq_some hr
      -- No earlier slot had the region, so the entry is new to the table.
      have hnone : t'.view r = none := by
        refine Option.eq_none_iff_forall_ne_some.2 fun ds hds => ?_
        obtain ⟨j, hj, hrj, -⟩ := (hview r ds).1 hds
        exact Nat.ne_of_lt hj (h.slot_unique (h.rInd_eq_some hrj) hi (hrj.trans hr.symm))
      obtain ⟨t'', live'', free'', hadd, h'', hlen', hcap', hview'⟩ :=
        h'.addEntry (by rw [hcap]; omega) (h.cards n hi) hnone
      refine ⟨t'', live'', free'', ?_, h'', by omega, hcap'.trans hcap, fun r' ds => ?_⟩
      · simp only [hadd]
        rfl
      rw [hview', exists_lt_succ_right, hr]
      by_cases hrr : r' = r
      · subst hrr
        have hno : ¬∃ i < n, (t.entries i).rInd = some r' ∧ (t.entries i).validCards = ds := by
          rw [← hview, hnone]
          exact Option.some_ne_none ds ∘ Eq.symm
        simp [hno]
      · rw [update_of_ne hrr, hview]
        simp [Ne.symm hrr]

lemma Wf.expand (h : Wf k t live [] free) (hfull : t.capacity < t.occupiedEntries * 2) :
    ∃ t' live' free', t.expand k = some t' ∧ Wf k t' live' [] free' ∧ live'.length ≤ t'.capacity / 2 ∧
      t'.view = t.view := by
  have hlen := h.length_add
  have hhalf := h.half
  rw [h.occupiedEntries] at hfull
  have hfree : free = [] := by
    rw [← length_eq_zero_iff]
    omega
  subst hfree
  obtain ⟨t', live', free', hfold, h', hlen', hcap, hview⟩ := h.foldlM_transfer (le_refl t.capacity)
  refine ⟨t', live', free', hfold, h', by omega, ?_⟩
  funext r
  apply Option.ext
  intro ds
  rw [hview, h.view_eq_some]
  constructor
  · rintro ⟨i, -, hr, hds⟩
    exact ⟨i, h.rInd_eq_some hr, hr, hds⟩
  · rintro ⟨i, hi, hr, hds⟩
    have hlt : i < t.freeRegion := mem_range.1 (h.slots.mem_iff.1 (mem_append_left _ hi))
    have := h.capacity_ge
    exact ⟨i, by omega, hr, hds⟩

end RSHashTable

end Rolp.RemSet
