import Rolp.RemSet.Lemmas.Iterator

/-!
# Remembered sets do not forget references

A history of calls goes along with the locations that were added and not cleared or scrubbed away since.
-/

namespace Rolp.RemSet

open Rolp.Lib RemSetConfig RSHashTableIter Nat

def RemSetOp.location? : RemSetOp → Option Nat
  | .addReference loc _ => some loc
  | .scrub .. => none
  | .clear => none

def RemSetOp.remember (c : RemSetConfig) (locs : List Nat) : RemSetOp → List Nat
  | .addReference loc _ => loc :: locs
  | .scrub regionBm cardBm => locs.filter fun loc => regionBm (c.heapRegionContainingRaw loc) && cardBm (c.indexFor loc)
  | .clear => []

def locations (ops : List RemSetOp) : List Nat := ops.filterMap RemSetOp.location?

def CardsDistinct (locs : List Nat) : Prop :=
  (∀ loc ∈ locs, fromCard loc ≠ -1) ∧
    ∀ loc ∈ locs, ∀ loc' ∈ locs, fromCard loc = fromCard loc' → loc / 512 = loc' / 512

instance (locs : List Nat) : Decidable (CardsDistinct locs) := inferInstanceAs (Decidable (_ ∧ _))

structure RemSetHistory where
  table : OtherRegionsTable
  remembered : List Nat

namespace RemSetHistory

variable {c : RemSetConfig} {h : RemSetHistory} {locs : List Nat}

def new (c : RemSetConfig) : RemSetHistory := ⟨.new c, []⟩

def step (c : RemSetConfig) (h : RemSetHistory) (op : RemSetOp) : Option RemSetHistory :=
  (h.table.step c op).map fun table => ⟨table, op.remember c h.remembered⟩

structure Inv (c : RemSetConfig) (locs : List Nat) (h : RemSetHistory) (fine : List Nat) : Prop where
  wf : h.table.Wf c fine []
  remembered : ∀ loc ∈ h.remembered, c.InHeap loc ∧
    h.table.Represents fine (c.heapRegionContainingRaw loc) (c.cardOf loc)
  cached : ∀ tid < c.numParRemSets, h.table.fromCardCache tid = -1 ∨
    ∃ loc ∈ locs, h.table.fromCardCache tid = fromCard loc ∧
      h.table.Represents fine (c.heapRegionContainingRaw loc) (c.cardOf loc)

variable {fine : List Nat}

section

variable (hi : Inv c locs h fine)

include hi

lemma Inv.hit (hdistinct : CardsDistinct locs) {loc tid}
    (hloc : loc ∈ locs) (htid : tid < c.numParRemSets) (hhit : fromCard loc = h.table.fromCardCache tid) :
    h.table.Represents fine (c.heapRegionContainingRaw loc) (c.cardOf loc) := by
  rcases hi.cached tid htid with hempty | ⟨loc', hloc', hcache, hrep⟩
  · exact absurd (hhit.trans hempty) (hdistinct.1 loc hloc)
  · have hcard := hdistinct.2 loc hloc loc' hloc' (hhit.trans hcache)
    obtain ⟨hregion, hof⟩ := region_eq_of_card_eq hcard
    rw [hregion, hof]
    exact hrep

lemma Inv.addReference (hdistinct : CardsDistinct locs) {loc tid}
    (hheap : c.InHeap loc) (hloc : loc ∈ locs) (htid : tid < c.numParRemSets) :
    ∃ table fine', h.table.addReference c loc tid = some table ∧ Inv c locs ⟨table, loc :: h.remembered⟩ fine' := by
  by_cases hhit : fromCard loc = h.table.fromCardCache tid
  · refine ⟨h.table, fine, by simp [OtherRegionsTable.addReference, hhit], hi.wf, ?_, hi.cached⟩
    exact List.forall_mem_cons.2 ⟨⟨hheap, hi.hit hdistinct hloc htid hhit⟩, hi.remembered⟩
  obtain ⟨table, fine', hadd, hwf, hcache, hrep, hgrows⟩ := hi.wf.addReference hheap hhit
  refine ⟨table, fine', hadd, hwf, ?_, fun tid' htid' => ?_⟩
  · refine List.forall_mem_cons.2 ⟨⟨hheap, hrep⟩, fun loc' hloc' => ?_⟩
    exact ⟨(hi.remembered loc' hloc').1, hgrows _ _ (hi.remembered loc' hloc').2⟩
  rw [hcache]
  by_cases heq : tid' = tid
  · subst heq
    rw [Function.update_self]
    exact .inr ⟨loc, hloc, rfl, hrep⟩
  · rw [Function.update_of_ne heq]
    rcases hi.cached tid' htid' with hempty | ⟨loc', hloc', hcard, hrep'⟩
    · exact .inl hempty
    · exact .inr ⟨loc', hloc', hcard, hgrows _ _ hrep'⟩

lemma Inv.scrub (regionBm cardBm) :
    ∃ h' fine', h.step c (.scrub regionBm cardBm) = some h' ∧ Inv c locs h' fine' := by
  obtain ⟨fine', hwf, hkeeps⟩ := hi.wf.scrub regionBm cardBm
  refine ⟨_, fine', rfl, hwf, fun loc hloc => ?_, fun tid htid => .inl (if_pos htid)⟩
  obtain ⟨hmem, hbms⟩ := List.mem_filter.1 hloc
  obtain ⟨hregion, hcard⟩ := Bool.and_eq_true_iff.1 hbms
  obtain ⟨hheap, hrep⟩ := hi.remembered loc hmem
  rw [hheap.indexFor_eq] at hcard
  exact ⟨hheap, hkeeps _ _ hheap.cardOf_lt hregion hcard hrep⟩

lemma Inv.clear : ∃ h' fine', h.step c .clear = some h' ∧ Inv c locs h' fine' :=
  ⟨_, [], rfl, hi.wf.clear, fun _ hloc => absurd hloc List.not_mem_nil, fun _ htid => .inl (if_pos htid)⟩

lemma Inv.step (hdistinct : CardsDistinct locs) {op}
    (hok : op.Ok c) (hlocs : ∀ loc, op.location? = some loc → loc ∈ locs) :
    ∃ h' fine', h.step c op = some h' ∧ Inv c locs h' fine' := by
  cases op with
  | addReference loc tid =>
    obtain ⟨table, fine', hadd, hi'⟩ := hi.addReference hdistinct hok.1 (hlocs loc rfl) hok.2
    exact ⟨_, fine', congrArg (Option.map _) hadd, hi'⟩
  | scrub regionBm cardBm => exact hi.scrub regionBm cardBm
  | clear => exact hi.clear

end

lemma inv_new (c locs) : Inv c locs (new c) [] :=
  ⟨OtherRegionsTable.wf_new c, fun _ hloc => absurd hloc List.not_mem_nil, fun _ _ => .inl rfl⟩

lemma run_inv {ops} (hok : ∀ op ∈ ops, op.Ok c) (hdistinct : CardsDistinct locs)
    (hlocs : ∀ loc ∈ locations ops, loc ∈ locs) : ∃ h fine, run (step c) (new c) ops = some h ∧ Inv c locs h fine := by
  have hdefined : ∃ h, run (step c) (new c) ops = some h ∧ ∃ fine, Inv c locs h fine := by
    refine run_defined (fun h => ∃ fine, Inv c locs h fine)
      (fun op => op.Ok c ∧ ∀ loc, op.location? = some loc → loc ∈ locs) ?_ ⟨[], inv_new c locs⟩ ?_
    · rintro h op ⟨fine, hi⟩ ⟨hop, hloc⟩
      obtain ⟨h', fine', hstep, hi'⟩ := hi.step hdistinct hop hloc
      exact ⟨h', hstep, fine', hi'⟩
    · exact fun op hop => ⟨hok op hop, fun loc hloc => hlocs loc (List.mem_filterMap.2 ⟨op, hop, hloc⟩)⟩
  obtain ⟨h, hrun, fine, hi⟩ := hdefined
  exact ⟨h, fine, hrun, hi⟩

/-- If the cards of the locations stay apart in the cache, no reference is forgotten, and what a thread finds in the
cache is in the table. -/
theorem remembers_references (c : RemSetConfig) (ops : List RemSetOp) (hok : ∀ op ∈ ops, op.Ok c)
    (hdistinct : CardsDistinct (locations ops)) : ∃ h, run (step c) (new c) ops = some h ∧
      (∀ loc ∈ h.remembered, h.table.containsReference c loc = true) ∧
      ∀ loc tid, c.InHeap loc → tid < c.numParRemSets → CardsDistinct (loc :: locations ops) →
        fromCard loc = h.table.fromCardCache tid → h.table.containsReference c loc = true := by
  obtain ⟨h, fine, hrun, hi⟩ := run_inv hok hdistinct fun _ hloc => hloc
  refine ⟨h, hrun, fun loc hloc => ?_, fun loc tid hheap htid hdistinct' hhit => ?_⟩
  · obtain ⟨hheap, hrep⟩ := hi.remembered loc hloc
    exact (hi.wf.containsReference_iff hheap).2 hrep
  · obtain ⟨h', fine', hrun', hi'⟩ := run_inv hok hdistinct' fun _ hloc => List.mem_cons_of_mem loc hloc
    cases hrun.symm.trans hrun'
    exact (hi'.wf.containsReference_iff hheap).2 (hi'.hit hdistinct' List.mem_cons_self htid hhit)

def endsAt2TB : RemSetConfig where
  logCardsPerRegion := 11
  maxRegions := 1
  bias := 2 ^ 21 - 1
  cardsNum := 4
  logMaxFine := 2
  numParRemSets := 1
  logCardsPerRegion_le := le_add_right 11 5
  maxRegions_lt := by decide
  cardsNum_ge := by decide

/-- The last card of the heap is taken for one that is in the empty cache. -/
theorem forgets_reference : (∀ op ∈ [RemSetOp.addReference (2 ^ 41 - 512) 0], op.Ok endsAt2TB) ∧
      (run (step endsAt2TB) (new endsAt2TB) [.addReference (2 ^ 41 - 512) 0]).map
        (fun h => (h.remembered, h.table.containsReference endsAt2TB (2 ^ 41 - 512))) =
      some ([2 ^ 41 - 512], false) := by
  decide

theorem remembers_references_example : ∃ h, run (step endsAt2TB) (new endsAt2TB)
        [.addReference (2 ^ 41 - 1024) 0, .addReference (2 ^ 41 - 4096) 0, .scrub (fun _ => true) (fun _ => true)] =
        some h ∧ (∀ loc ∈ h.remembered, h.table.containsReference endsAt2TB loc = true) ∧
      ∀ loc tid, endsAt2TB.InHeap loc → tid < 1 → CardsDistinct [loc, 2 ^ 41 - 1024, 2 ^ 41 - 4096] →
        fromCard loc = h.table.fromCardCache tid → h.table.containsReference endsAt2TB loc = true :=
  remembers_references endsAt2TB _ (by decide) (by decide)

end RemSetHistory

/-!
## An iteration over a remembered set is exact

The cards are listed in the order of the three tables.
-/

open OtherRegionsTable List Nat

/-! ## Card indices -/

namespace RemSetConfig

variable {c : RemSetConfig}

lemma cardIndex_inj {r r' card card'} (hcard : card < c.cardsPerRegion) (hcard' : card' < c.cardsPerRegion)
    (h : c.cardIndex r card = c.cardIndex r' card') : r = r' ∧ card = card' := by
  have hdiv : ∀ r card, card < c.cardsPerRegion → c.cardIndex r card / c.cardsPerRegion = r := fun r card hlt => by
    rw [cardIndex, mul_comm, mul_add_div c.cardsPerRegion_pos, div_eq_of_lt hlt, add_zero]
  have hr : r = r' := by rw [← hdiv r card hcard, h, hdiv r' card' hcard']
  subst hr
  exact ⟨rfl, add_left_cancel h⟩

lemma exists_location {r card} (hr : r < c.maxRegions) (hcard : card < c.cardsPerRegion) :
    ∃ loc, c.InHeap loc ∧ c.indexFor loc = c.cardIndex r card := by
  have hbottom := c.bottom_div 0
  have hindex : (c.bias + r) * c.cardsPerRegion + card < (c.bias + c.maxRegions) * c.cardsPerRegion :=
    calc (c.bias + r) * c.cardsPerRegion + card
        < (c.bias + r) * c.cardsPerRegion + c.cardsPerRegion := Nat.add_lt_add_left hcard _
      _ = (c.bias + r + 1) * c.cardsPerRegion := (succ_mul _ _).symm
      _ ≤ (c.bias + c.maxRegions) * c.cardsPerRegion := mul_le_mul_right _ (by omega)
  refine ⟨((c.bias + r) * c.cardsPerRegion + card) * 512, ⟨?_, ?_⟩, ?_⟩
  · rw [bottom, grainBytes, ← mul_assoc]
    exact mul_le_mul_right _ (le_add_right_of_le (mul_le_mul_right _ (by omega)))
  · rw [bottom, grainBytes, ← mul_assoc]
    exact Nat.mul_lt_mul_of_pos_right hindex (by decide)
  · rw [indexFor, cardIndex, hbottom, Nat.mul_div_cancel _ (by decide), add_mul, add_mul]
    omega

end RemSetConfig

/-! ## The cards of the tables -/

lemma mem_onesFrom {n i bm} : i ∈ onesFrom n bm 0 ↔ i < n ∧ bm i = true := by simp [onesFrom]

lemma nodup_onesFrom (n bm) : (onesFrom n bm 0).Nodup := List.Nodup.filter _ nodup_range'

lemma length_onesFrom (n bm) : (onesFrom n bm 0).length = countOneBits n bm := by
  rw [onesFrom, Nat.sub_zero, ← range_eq_range', countOneBits, countP_eq_length_filter]

lemma RSHashTable.Wf.slotsFrom_perm {k t live free} (h : t.Wf k live [] free) : (slotsFrom t live 0).Perm live := by
  have hn : ((range t.capacity).map some).Nodup := nodup_range.map (Option.some_injective _)
  have hperm := flatMap_bucket_perm (l := live) (fun i => (t.entries i).rInd.map t.ind) hn fun i hi => ?_
  · rw [flatMap_map, range_eq_range'] at hperm
    exact hperm
  · obtain ⟨r, hr⟩ := Option.ne_none_iff_exists'.1 (h.regions i hi)
    have hle : t.ind r ≤ t.capacity - 1 := and_le_right
    have hcapacity := h.capacity_ge
    rw [hr]
    exact mem_map.2 ⟨t.ind r, mem_range.2 (by omega), rfl⟩

namespace OtherRegionsTable

variable {c : RemSetConfig} {t : OtherRegionsTable} {fine live free : List Nat} {r card : Nat}

variable (c)

variable (t)

def finePairs (prts : List Nat) : List (Nat × Nat) :=
  prts.flatMap fun prt => (onesFrom c.cardsPerRegion (t.prts prt).bm 0).map (Prod.mk (t.prts prt).hr)

def coarsePairs : List (Nat × Nat) :=
  (onesFrom c.maxRegions t.coarseMap 0).flatMap fun r => (List.range c.cardsPerRegion).map (Prod.mk r)

def contents (slots prts : List Nat) : List (Nat × Nat) :=
  t.sparseTable.next.cardPairs slots ++ (t.finePairs c prts ++ t.coarsePairs c)

variable {t}

variable {c}

lemma mem_finePairs {prts} : (r, card) ∈ t.finePairs c prts ↔
    card < c.cardsPerRegion ∧ ∃ prt ∈ prts, (t.prts prt).hr = r ∧ (t.prts prt).bm card = true := by
  simp only [finePairs, mem_flatMap, mem_map, mem_onesFrom, Prod.mk.injEq]
  constructor
  · rintro ⟨prt, hprt, card, ⟨hlt, hbm⟩, hr, rfl⟩
    exact ⟨hlt, prt, hprt, hr, hbm⟩
  · rintro ⟨hlt, prt, hprt, hr, hbm⟩
    exact ⟨prt, hprt, card, ⟨hlt, hbm⟩, hr, rfl⟩

lemma mem_coarsePairs :
    (r, card) ∈ t.coarsePairs c ↔ card < c.cardsPerRegion ∧ r < c.maxRegions ∧ t.coarseMap r = true := by
  simp only [coarsePairs, mem_flatMap, mem_map, mem_onesFrom, mem_range, Prod.mk.injEq]
  constructor
  · rintro ⟨r, hr, card, hlt, rfl, rfl⟩
    exact ⟨hlt, hr⟩
  · rintro ⟨hlt, hr⟩
    exact ⟨r, hr, card, hlt, rfl, rfl⟩

lemma FineWf.nodup_finePairs {spare} (h : FineWf c t fine spare) : (t.finePairs c fine).Nodup :=
  nodup_flatMap_pairs h.distinct fun _ _ => nodup_onesFrom _ _

lemma nodup_coarsePairs (c : RemSetConfig) (t : OtherRegionsTable) : (t.coarsePairs c).Nodup := by
  have hkeys : ((onesFrom c.maxRegions t.coarseMap 0).map id).Nodup := by
    rw [map_id]
    exact nodup_onesFrom _ _
  exact nodup_flatMap_pairs hkeys fun _ _ => nodup_range

section Contents

variable (h : Wf c t fine []) (hsparse : t.sparseTable.next.Wf c.cardsNum live [] free)

include h hsparse

lemma Wf.mem_contents : (r, card) ∈ t.contents c live fine ↔ card < c.cardsPerRegion ∧ t.Represents fine r card := by
  rw [contents, mem_append, mem_append, mem_finePairs, mem_coarsePairs, hsparse.mem_cardPairs]
  constructor
  · rintro (⟨ds, hview, hds⟩ | ⟨hlt, hfine⟩ | ⟨hlt, -, hcoarse⟩)
    · exact ⟨(h.sparse_cards r ds hview).2 card hds, .inr (.inr ⟨ds, hview, hds⟩)⟩
    · exact ⟨hlt, .inr (.inl hfine)⟩
    · exact ⟨hlt, .inl hcoarse⟩
  · rintro ⟨hlt, hcoarse | hfine | hview⟩
    · exact .inr (.inr ⟨hlt, h.coarse_lt r hcoarse, hcoarse⟩)
    · exact .inr (.inl ⟨hlt, hfine⟩)
    · exact .inl hview

omit hsparse in
lemma Wf.region_lt (hrep : t.Represents fine r card) : r < c.maxRegions := by
  rcases hrep with hcoarse | ⟨prt, hprt, rfl, -⟩ | ⟨ds, hview, -⟩
  · exact h.coarse_lt r hcoarse
  · exact h.fineWf.regions prt hprt
  · exact (h.sparse_cards r ds hview).1

lemma Wf.nodup_contents : (t.contents c live fine).Nodup := by
  refine hsparse.nodup_cardPairs.append (h.fineWf.nodup_finePairs.append (nodup_coarsePairs c t) ?_) ?_
  · rintro ⟨r, card⟩ hfine hcoarse
    obtain ⟨-, prt, hprt, rfl, -⟩ := mem_finePairs.1 hfine
    exact Bool.false_ne_true ((h.fine_coarse prt hprt).symm.trans (mem_coarsePairs.1 hcoarse).2.2)
  rintro ⟨r, card⟩ hcards hrest
  obtain ⟨ds, hview, -⟩ := hsparse.mem_cardPairs.1 hcards
  have hnone : t.sparseTable.view r = none := by
    rcases mem_append.1 hrest with hfine | hcoarse
    · obtain ⟨-, prt, hprt, rfl, -⟩ := mem_finePairs.1 hfine
      exact h.sparse_fine prt hprt
    · exact h.sparse_coarse r (mem_coarsePairs.1 hcoarse).2.2
  cases hnone.symm.trans hview

lemma Wf.occupied_eq : t.occupied c = some (t.contents c live fine).length := by
  have hall : t.allFinePrts.Perm fine := h.fineWf.all
  have hfine : t.occFine = some (t.finePairs c fine).length := by
    rw [occFine, if_pos (hall.length_eq.trans h.fineWf.count.symm), (hall.map _).sum_eq, finePairs, length_flatMap]
    refine congrArg (fun l => some (sum l)) (map_congr_left fun prt hprt => ?_)
    rw [length_map, length_onesFrom]
    exact h.fineWf.exact prt hprt
  have hcoarse : t.occCoarse c = (t.coarsePairs c).length := by
    rw [occCoarse, h.coarse_count, coarsePairs, ← length_onesFrom]
    simp [length_flatMap]
  have hcards : t.occSparse = (t.sparseTable.next.cardPairs live).length :=
    hsparse.occupiedCards.trans (RSHashTable.length_cardPairs _ _).symm
  rw [occupied, hfine, contents, length_append, length_append, Option.map_some]
  congr 1
  omega

end Contents

lemma run_wf {ops} (hok : ∀ op ∈ ops, op.Ok c) : ∃ t fine, run (step c) (new c) ops = some t ∧ Wf c t fine [] := by
  have hdefined : ∃ t, run (step c) (new c) ops = some t ∧ ∃ fine, Wf c t fine [] := by
    refine run_defined (fun t => ∃ fine, Wf c t fine []) (fun op => op.Ok c) ?_ ⟨[], wf_new c⟩ hok
    rintro t op ⟨fine, h⟩ hop
    obtain ⟨t', fine', hstep, h'⟩ := h.step hop
    exact ⟨t', hstep, fine', h'⟩
  obtain ⟨t, hrun, fine, h⟩ := hdefined
  exact ⟨t, fine, hrun, h⟩

end OtherRegionsTable

/-! ## What an iterator gives -/

namespace HeapRegionRemSetIterator

variable {c : RemSetConfig} {t : OtherRegionsTable} {it it' : HeapRegionRemSetIterator} {fine live free : List Nat}

lemma tablesFrom_perm {spare} (h : t.FineWf c fine spare) : (tablesFrom c t 0).Perm fine := by
  have hperm := flatMap_bucket_perm (l := fine) (fun prt => c.fineInd (t.prts prt).hr)
    (nodup_range) fun prt _ => mem_range.2 (c.fineInd_lt _)
  rw [range_eq_range'] at hperm
  rw [tablesFrom, funext h.buckets]
  exact hperm

def cards (c : RemSetConfig) (t : OtherRegionsTable) (live : List Nat) : List Nat :=
  slotsOut c t.sparseTable.cur (slotsFrom t.sparseTable.cur live 0) ++
    (tablesOut c t (tablesFrom c t 0) ++ coarseOut c t)

lemma cards_eq (hcur : t.sparseTable.cur = t.sparseTable.next) (live) : cards c t live =
      (t.contents c (slotsFrom t.sparseTable.next live 0) (tablesFrom c t 0)).map fun p => c.cardIndex p.1 p.2 := by
  rw [cards, hcur, contents, map_append, map_append]
  congr 1
  · simp only [RSHashTable.cardPairs, map_flatMap, map_map]
    rfl
  · congr 1
    · simp [tablesOut, tableOut, finePairs, map_flatMap, Function.comp_def]
    · simp [coarseOut, regionsOut, coarsePairs, map_flatMap, Function.comp_def]

lemma cards_perm (h : t.Wf c fine []) (hsparse : t.sparseTable.next.Wf c.cardsNum live [] free)
    (hcur : t.sparseTable.cur = t.sparseTable.next) :
    (cards c t live).Perm ((t.contents c live fine).map fun p => c.cardIndex p.1 p.2) := by
  rw [cards_eq hcur]
  refine List.Perm.map _ ((hsparse.slotsFrom_perm.flatMap_right _).append (List.Perm.append_right _ ?_))
  exact (tablesFrom_perm h.fineWf).flatMap_right _

lemma collect_hasNext (h : t.Wf c fine []) (hsparse : t.sparseTable.next.Wf c.cardsNum live [] free)
    (hcur : t.sparseTable.cur = t.sparseTable.next) (hshort : c.cardsNum < 2 ^ 15) (hint : c.maxFineEntries < 2 ^ 31)
    {fuel} (hfuel : (cards c t live).length < fuel) :
    ∃ it, collect (hasNext c t) fuel (new c) = some (it, cards c t live) := by
  have hlen : (tablesFrom c t 0).length ≤ c.maxFineEntries := by
    rw [(tablesFrom_perm h.fineWf).length_eq]
    exact h.fineWf.count_le
  refine collect_of_remaining (Remaining c t live) (fun it l hrem => ?_) ?_ hfuel
  · obtain ⟨it', out, hnext, hout, hrest⟩ :=
      hasNext_spec h.coarse_count hint (by rw [hcur]; exact hsparse) hshort hlen hrem
    exact ⟨it', by rw [hnext, hout], hrest⟩
  · exact .sparse rfl .start ⟨rfl, rfl, rfl⟩ ⟨rfl, rfl⟩

/-! ## What an iterator counts -/

lemma coarseHasNext_nYielded (c t it) : (coarseHasNext c t it).1.nYielded = it.nYielded := by
  unfold coarseHasNext
  dsimp only
  split_ifs <;> rfl

def Counts (it it' : HeapRegionRemSetIterator) (out : Option Nat) : Prop :=
  it'.nYielded = it.nYielded + out.toList.length

lemma counts_hasNextCoarse (c t it) : Counts it (hasNextCoarse c t it).1 (hasNextCoarse c t it).2 := by
  have hcount := coarseHasNext_nYielded c t it
  rw [hasNextCoarse]
  generalize coarseHasNext c t it = res at hcount
  obtain ⟨it', out⟩ := res
  cases out with
  | none => exact hcount
  | some i =>
    simp only [Counts, nYielded, Option.toList_some, length_singleton] at hcount ⊢
    omega

lemma counts_hasNextFine {out} (h : hasNextFine c t it = some (it', out)) : Counts it it' out := by
  rw [hasNextFine] at h
  split at h
  · cases h
  next it1 i hnext =>
    cases h
    have hcount := (sameRest_fineHasNext hnext).nYielded
    simp only [Counts, nYielded, Option.toList_some, length_singleton] at hcount ⊢
    omega
  next it1 hnext =>
    have hcount := (sameRest_fineHasNext hnext).nYielded
    have hcoarse := counts_hasNextCoarse c t { it1 with is := .coarse }
    rw [Option.some.injEq] at h
    rw [h] at hcoarse
    exact hcoarse.trans (congrArg (· + _) hcount)

lemma counts_hasNext {out} (h : hasNext c t it = some (it', out)) : Counts it it' out := by
  rw [hasNext] at h
  split at h
  · rw [hasNextSparse] at h
    split at h
    · cases h
    · cases h
      simp only [Counts, nYielded, Option.toList_some, length_singleton]
      omega
    · have hfine := counts_hasNextFine h
      exact hfine
  · exact counts_hasNextFine h
  · have hcoarse := counts_hasNextCoarse c t it
    rw [Option.some.injEq] at h
    rw [h] at hcoarse
    exact hcoarse

lemma nYielded_eq {fuel l} (h : collect (hasNext c t) fuel (new c) = some (it, l)) : it.nYielded = l.length := by
  have hcount :=
    collect_count nYielded (fun _ _ _ hnext => counts_hasNext hnext) (fun _ _ hnext => counts_hasNext hnext) h
  rw [hcount]
  exact zero_add _

/-! ## Exactness -/

lemma nodup_cards (h : t.Wf c fine []) (hsparse : t.sparseTable.next.Wf c.cardsNum live [] free)
    (hcur : t.sparseTable.cur = t.sparseTable.next) : (cards c t live).Nodup := by
  refine (cards_perm h hsparse hcur).nodup_iff.2 ((h.nodup_contents hsparse).map_on ?_)
  rintro ⟨r, card⟩ hp ⟨r', card'⟩ hp' heq
  obtain ⟨rfl, rfl⟩ := RemSetConfig.cardIndex_inj ((h.mem_contents hsparse).1 hp).1
    ((h.mem_contents hsparse).1 hp').1 heq
  rfl

lemma mem_cards (h : t.Wf c fine []) (hsparse : t.sparseTable.next.Wf c.cardsNum live [] free)
    (hcur : t.sparseTable.cur = t.sparseTable.next) {i} : i ∈ cards c t live ↔
      ∃ r card, card < c.cardsPerRegion ∧ t.Represents fine r card ∧ c.cardIndex r card = i := by
  rw [(cards_perm h hsparse hcur).mem_iff, mem_map]
  constructor
  · rintro ⟨⟨r, card⟩, hp, hi⟩
    obtain ⟨hcard, hrep⟩ := (h.mem_contents hsparse).1 hp
    exact ⟨r, card, hcard, hrep, hi⟩
  · rintro ⟨r, card, hcard, hrep, hi⟩
    exact ⟨(r, card), (h.mem_contents hsparse).2 ⟨hcard, hrep⟩, hi⟩

lemma indexFor_mem_cards (h : t.Wf c fine []) (hsparse : t.sparseTable.next.Wf c.cardsNum live [] free)
    (hcur : t.sparseTable.cur = t.sparseTable.next) {loc} (hloc : c.InHeap loc) :
    c.indexFor loc ∈ cards c t live ↔ t.containsReference c loc = true := by
  rw [h.containsReference_iff hloc, mem_cards h hsparse hcur, hloc.indexFor_eq]
  constructor
  · rintro ⟨r, card, hcard, hrep, hi⟩
    obtain ⟨rfl, rfl⟩ := RemSetConfig.cardIndex_inj hcard hloc.cardOf_lt hi
    exact hrep
  · exact fun hrep => ⟨_, _, hloc.cardOf_lt, hrep, rfl⟩

/-- If the cards of an entry fit `short` and the fine tables fit `int`, then after every sequence of calls an iterator
comes to an end, and gives each card that the set contains once, `occupied()` in all. -/
theorem iteration_exact (c : RemSetConfig) (ops : List RemSetOp) (hok : ∀ op ∈ ops, op.Ok c)
    (hshort : c.cardsNum < 2 ^ 15) (hint : c.maxFineEntries < 2 ^ 31) :
    ∃ t cards, (run (step c) (.new c) ops).map cleanup = some t ∧ (∀ fuel, cards.length < fuel →
        ∃ it, collect (hasNext c t) fuel (new c) = some (it, cards) ∧ it.nYielded = cards.length) ∧
      cards.Nodup ∧ (∀ i ∈ cards, ∃ loc, c.InHeap loc ∧ c.indexFor loc = i) ∧
      (∀ loc, c.InHeap loc → (c.indexFor loc ∈ cards ↔ t.containsReference c loc = true)) ∧
      t.occupied c = some cards.length := by
  obtain ⟨t, fine, hrun, hwf⟩ := run_wf hok
  have h := hwf.cleanup
  have hcur : t.cleanup.sparseTable.cur = t.cleanup.sparseTable.next := rfl
  obtain ⟨live, free, hsparse⟩ := h.sparse
  refine ⟨t.cleanup, cards c t.cleanup live, congrArg (Option.map _) hrun, fun fuel hfuel => ?_,
    nodup_cards h hsparse hcur, fun i hi => ?_, fun loc hloc => indexFor_mem_cards h hsparse hcur hloc, ?_⟩
  · obtain ⟨it, hcollect⟩ := collect_hasNext h hsparse hcur hshort hint hfuel
    exact ⟨it, hcollect, nYielded_eq hcollect⟩
  · obtain ⟨r, card, hcard, hrep, hi⟩ := (mem_cards h hsparse hcur).1 hi
    obtain ⟨loc, hloc, hindex⟩ := RemSetConfig.exists_location (h.region_lt hrep) hcard
    exact ⟨loc, hloc, hindex.trans hi⟩
  · rw [h.occupied_eq hsparse, (cards_perm h hsparse hcur).length_eq, length_map]

def twoRegions (cardsNum : Nat) (h : 4 ≤ cardsNum) : RemSetConfig where
  logCardsPerRegion := 11
  maxRegions := 2
  bias := 1
  cardsNum := cardsNum
  logMaxFine := 2
  numParRemSets := 1
  logCardsPerRegion_le := by decide
  maxRegions_lt := by decide
  cardsNum_ge := h

/-- With 2^15 cards in an entry, an iterator over an empty set reads a card of no entry. -/
theorem iteration_outside_entries :
    let cfg := twoRegions (2 ^ 15) (by decide)
    (run (step cfg) (.new cfg) []).map (fun t => hasNext cfg t.cleanup (new cfg)) =
      some none := by
  rfl

theorem iteration_exact_example : let cfg := twoRegions 4 (by decide)
    ∃ t cards, (run (step cfg) (.new cfg)
        [.addReference (2 ^ 20 + 512) 0, .addReference (2 ^ 21) 0, .scrub (fun r => r = 1) (fun _ => true)]).map
          cleanup = some t ∧ (∀ fuel, cards.length < fuel → ∃ it, collect (hasNext cfg t) fuel (new cfg) =
          some (it, cards) ∧ it.nYielded = cards.length) ∧ cards.Nodup ∧
      (∀ i ∈ cards, ∃ loc, cfg.InHeap loc ∧ cfg.indexFor loc = i) ∧
      (∀ loc, cfg.InHeap loc → (cfg.indexFor loc ∈ cards ↔ t.containsReference cfg loc = true)) ∧
      t.occupied cfg = some cards.length :=
  iteration_exact (twoRegions 4 (by decide)) _ (by decide) (by decide) (by decide)

end HeapRegionRemSetIterator

end Rolp.RemSet
