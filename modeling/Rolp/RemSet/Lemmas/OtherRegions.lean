import Rolp.RemSet.OtherRegions
import Rolp.RemSet.SparseRefinement

/-!
# What the tables of a remembered set mean

A region has its cards in one of the three representations.
-/

namespace Rolp.RemSet

open Rolp.Lib Function List Nat PerRegionTable OtherRegionsTable SparsePRTEntry RemSetConfig

/-! ## Cards of a location -/

variable {n : Nat}

namespace RemSetConfig

variable {c : RemSetConfig} {loc loc' : Nat}

variable (c)

def cardOf (loc : Nat) : Nat := loc / 512 - c.bottom (c.heapRegionContainingRaw loc) / 512

lemma cardsPerRegion_pos : 0 < c.cardsPerRegion := Nat.two_pow_pos _

lemma cardsPerRegion_le : c.cardsPerRegion ≤ 2 ^ 16 := Nat.pow_le_pow_right (by decide) c.logCardsPerRegion_le

lemma maxFineEntries_pos : 0 < c.maxFineEntries := Nat.two_pow_pos _

lemma grainBytes_pos : 0 < c.grainBytes := Nat.mul_pos c.cardsPerRegion_pos (by decide)

lemma fineInd_lt (r) : c.fineInd r < c.maxFineEntries := by
  have hle : c.fineInd r ≤ c.maxFineEntries - 1 := and_le_right
  have hpos := c.maxFineEntries_pos
  omega

lemma bottom_div (r) : c.bottom r / 512 = (c.bias + r) * c.cardsPerRegion := by
  rw [bottom, grainBytes, ← mul_assoc, Nat.mul_div_cancel _ (by decide)]

lemma div_grainBytes (loc) : loc / c.grainBytes = loc / 512 / c.cardsPerRegion := by
  rw [grainBytes, mul_comm, Nat.div_div_eq_div_mul]

variable {c}

section

variable (h : c.InHeap loc)

include h

lemma InHeap.bias_add : c.bias + c.heapRegionContainingRaw loc = loc / c.grainBytes := by
  have hle : c.bias ≤ loc / c.grainBytes := (le_div_iff_mul_le c.grainBytes_pos).2 h.1
  rw [heapRegionContainingRaw]
  omega

lemma InHeap.region_lt : c.heapRegionContainingRaw loc < c.maxRegions := by
  have hlt : loc / c.grainBytes < c.bias + c.maxRegions := (div_lt_iff_lt_mul c.grainBytes_pos).2 h.2
  have hadd := h.bias_add
  omega

lemma InHeap.cardOf_eq_mod : c.cardOf loc = loc / 512 % c.cardsPerRegion := by
  rw [cardOf, bottom_div, h.bias_add, div_grainBytes, mod_eq_sub_div_mul]

lemma InHeap.cardOf_lt : c.cardOf loc < c.cardsPerRegion := by
  rw [h.cardOf_eq_mod]
  exact mod_lt _ c.cardsPerRegion_pos

lemma InHeap.mem_region : c.bottom (c.heapRegionContainingRaw loc) ≤ loc ∧
      loc < c.bottom (c.heapRegionContainingRaw loc) + c.grainBytes ∧
      (loc - c.bottom (c.heapRegionContainingRaw loc)) / 512 = c.cardOf loc := by
  have hbottom : c.bottom (c.heapRegionContainingRaw loc) = c.grainBytes * (loc / c.grainBytes) := by
    rw [bottom, h.bias_add, mul_comm]
  have hdiv := div_add_mod loc c.grainBytes
  have hmod := mod_lt loc c.grainBytes_pos
  refine ⟨by omega, by omega, ?_⟩
  have hsub : loc - c.bottom (c.heapRegionContainingRaw loc) = loc % c.grainBytes := by omega
  rw [hsub, h.cardOf_eq_mod, grainBytes, mul_comm, mod_mul_right_div_self]

lemma InHeap.cardIndex_eq :
    (toJint (fromCard loc - (c.bottom (c.heapRegionContainingRaw loc) / 512 : Nat))).toNat = c.cardOf loc := by
  have hle : c.bottom (c.heapRegionContainingRaw loc) / 512 ≤ loc / 512 := Nat.div_le_div_right h.mem_region.1
  have hlt := h.cardOf_lt
  have hcards := c.cardsPerRegion_le
  have hsub : ((loc / 512 : Nat) : Int) - (c.bottom (c.heapRegionContainingRaw loc) / 512 : Nat) = c.cardOf loc := by
    unfold cardOf
    omega
  rw [fromCard, toJint_toJint_sub, hsub, toJint_eq (by omega) (by omega), Int.toNat_natCast]

lemma InHeap.indexFor_eq : c.indexFor loc = c.cardIndex (c.heapRegionContainingRaw loc) (c.cardOf loc) := by
  have hle : c.bottom (c.heapRegionContainingRaw loc) / 512 ≤ loc / 512 := Nat.div_le_div_right h.mem_region.1
  rw [indexFor, cardIndex, cardOf]
  rw [bottom_div, add_mul] at hle ⊢
  rw [bottom_div, add_mul]
  omega

end

lemma region_eq_of_card_eq (h : loc / 512 = loc' / 512) :
    c.heapRegionContainingRaw loc = c.heapRegionContainingRaw loc' ∧ c.cardOf loc = c.cardOf loc' := by
  have hregion : c.heapRegionContainingRaw loc = c.heapRegionContainingRaw loc' := by
    rw [heapRegionContainingRaw, heapRegionContainingRaw, div_grainBytes, div_grainBytes, h]
  exact ⟨hregion, by rw [cardOf, cardOf, h, hregion]⟩

end RemSetConfig

/-! ## Bitmaps -/

variable {l : List Nat} {i : Nat} {bm : Nat → Bool}

lemma countP_update (hn : l.Nodup) (hi : i ∈ l) (hbm : bm i = false) :
    l.countP (update bm i true) = l.countP bm + 1 := by
  induction l with
  | nil => cases hi
  | cons j l ih =>
    obtain ⟨hj, hn⟩ := nodup_cons.1 hn
    rw [countP_cons, countP_cons]
    by_cases hij : j = i
    · subst hij
      have hrest : l.countP (update bm j true) = l.countP bm := by
        refine countP_congr fun m hm => ?_
        have hne : m ≠ j := by
          rintro rfl
          exact hj hm
        rw [update_of_ne hne]
      simp [hrest, hbm]
    · have hi : i ∈ l := (mem_cons.1 hi).resolve_left fun h => hij h.symm
      rw [ih hn hi, update_of_ne hij]
      omega

lemma countOneBits_update (hi : i < n) (hbm : bm i = false) :
    countOneBits n (update bm i true) = countOneBits n bm + 1 :=
  countP_update nodup_range (mem_range.2 hi) hbm

lemma countOneBits_pos : 0 < countOneBits n bm ↔ ∃ i < n, bm i = true := by simp [countOneBits]

namespace PerRegionTable

variable {c : RemSetConfig} {p : PerRegionTable} {card : Nat}

def Exact (c : RemSetConfig) (p : PerRegionTable) : Prop := p.occupied = countOneBits c.cardsPerRegion p.bm

lemma exact_init (c r) : (init r).Exact c := by simp [Exact, init, countOneBits]

lemma addCard_hr (p : PerRegionTable) (card : Nat) : (p.addCard card).hr = p.hr := by
  unfold addCard
  split <;> rfl

lemma addCard_bm : (p.addCard card).bm i = true ↔ p.bm i = true ∨ i = card := by
  unfold addCard
  by_cases hi : i = card
  · split <;> simp_all
  · split <;> simp [hi]

lemma Exact.addCard (h : p.Exact c) (hcard : card < c.cardsPerRegion) : (p.addCard card).Exact c := by
  unfold PerRegionTable.addCard
  split
  · exact h
  next hbm =>
    rw [Exact, countOneBits_update hcard (Bool.eq_false_of_not_eq_true hbm)]
    exact congrArg (· + 1) h

lemma addCards_hr (p : PerRegionTable) (cards : List (Option Nat)) : (p.addCards cards).hr = p.hr := by
  unfold addCards
  induction cards generalizing p with
  | nil => rfl
  | cons card cards ih =>
    rw [foldl_cons, ih]
    cases card with
    | none => rfl
    | some card => exact addCard_hr p card

lemma addCards_bm {cards} : (p.addCards cards).bm i = true ↔ p.bm i = true ∨ some i ∈ cards := by
  unfold addCards
  induction cards generalizing p with
  | nil => simp
  | cons card cards ih =>
    rw [foldl_cons, ih]
    cases card with
    | none => simp
    | some card => simp [addCard_bm, or_assoc]

lemma Exact.addCards (h : p.Exact c) {cards}
    (hcards : ∀ card, some card ∈ cards → card < c.cardsPerRegion) : (p.addCards cards).Exact c := by
  induction cards generalizing p with
  | nil => exact h
  | cons card cards ih =>
    refine ih ?_ fun d hd => hcards d (mem_cons_of_mem _ hd)
    cases card with
    | none => exact h
    | some card => exact h.addCard (hcards card mem_cons_self)

lemma addReference_eq {loc} (hloc : c.InHeap loc) (hr : p.hr = c.heapRegionContainingRaw loc) :
    p.addReference c loc = p.addCard (c.cardOf loc) := by
  obtain ⟨hle, hlt, hcard⟩ := hloc.mem_region
  rw [addReference, hr, if_pos ⟨hle, hlt⟩, Nat.div_div_eq_div_mul, hcard]

end PerRegionTable

/-! ## The three representations -/

namespace OtherRegionsTable

variable {c : RemSetConfig} {t t' : OtherRegionsTable} {fine fine' spare : List Nat} {prt r card : Nat}

structure FineWf (c : RemSetConfig) (t : OtherRegionsTable) (fine spare : List Nat) : Prop where
  buckets : ∀ b, t.fineGrainRegions b = fine.filter fun prt => c.fineInd (t.prts prt).hr = b
  all : t.allFinePrts.Perm (spare ++ fine)
  known : ∀ prt ∈ spare ++ fine, prt < t.nextPrt
  nodup : (spare ++ fine).Nodup
  count : t.nFineEntries = fine.length
  count_le : fine.length ≤ c.maxFineEntries
  start : t.fineEvictionStart < c.maxFineEntries
  distinct : (fine.map fun prt => (t.prts prt).hr).Nodup
  regions : ∀ prt ∈ fine, (t.prts prt).hr < c.maxRegions
  exact : ∀ prt ∈ fine, (t.prts prt).Exact c

structure Wf (c : RemSetConfig) (t : OtherRegionsTable) (fine spare : List Nat) : Prop where
  fineWf : FineWf c t fine spare
  sparse : t.sparseTable.Wf c.cardsNum
  sparse_cards : ∀ r ds, t.sparseTable.view r = some ds → r < c.maxRegions ∧ ∀ d ∈ ds, d < c.cardsPerRegion
  coarse_count : t.nCoarseEntries = countOneBits c.maxRegions t.coarseMap
  coarse_lt : ∀ r, t.coarseMap r = true → r < c.maxRegions
  fine_coarse : ∀ prt ∈ fine, t.coarseMap (t.prts prt).hr = false
  sparse_coarse : ∀ r, t.coarseMap r = true → t.sparseTable.view r = none
  sparse_fine : ∀ prt ∈ fine, t.sparseTable.view (t.prts prt).hr = none

def Represents (t : OtherRegionsTable) (fine : List Nat) (r card : Nat) : Prop :=
  t.coarseMap r = true ∨ (∃ prt ∈ fine, (t.prts prt).hr = r ∧ (t.prts prt).bm card = true) ∨
    ∃ ds, t.sparseTable.view r = some ds ∧ card ∈ ds

lemma FineWf.find_eq (h : FineWf c t fine spare) (r) :
    t.findRegionTable c r = fine.find? fun prt => (t.prts prt).hr = r := by
  rw [findRegionTable, h.buckets]
  exact find?_bucket (fun prt => (t.prts prt).hr) c.fineInd fine r

lemma FineWf.find_some_iff (h : FineWf c t fine spare) :
    t.findRegionTable c r = some prt ↔ prt ∈ fine ∧ (t.prts prt).hr = r := by
  rw [h.find_eq]
  exact find?_key_eq_some_iff h.distinct

lemma FineWf.find_none_iff (h : FineWf c t fine spare) :
    t.findRegionTable c r = none ↔ ∀ prt ∈ fine, (t.prts prt).hr ≠ r := by
  rw [h.find_eq]
  exact find?_key_eq_none_iff

lemma Wf.containsReference_iff (h : Wf c t fine spare) {loc} (hloc : c.InHeap loc) :
    t.containsReference c loc = true ↔ t.Represents fine (c.heapRegionContainingRaw loc) (c.cardOf loc) := by
  rw [containsReference]
  cases hcoarse : t.coarseMap (c.heapRegionContainingRaw loc) with
  | true => simp [Represents, hcoarse]
  | false =>
    cases hfind : t.findRegionTable c (c.heapRegionContainingRaw loc) with
    | some prt =>
      obtain ⟨hprt, hr⟩ := h.fineWf.find_some_iff.1 hfind
      have hnone := h.sparse_fine prt hprt
      rw [hr] at hnone
      have hbm : (t.prts prt).containsReference c loc = (t.prts prt).bm (c.cardOf loc) := by
        rw [PerRegionTable.containsReference, hr, hloc.mem_region.2.2]
      simp only [hbm]
      constructor
      · intro hcard
        exact .inr (.inl ⟨prt, hprt, hr, hcard⟩)
      · rintro (htrue | ⟨prt', hprt', hr', hcard⟩ | ⟨ds, hds, -⟩)
        · rw [hcoarse] at htrue
          cases htrue
        · rw [← Option.some.inj ((h.fineWf.find_some_iff.2 ⟨hprt', hr'⟩).symm.trans hfind)]
          exact hcard
        · rw [hnone] at hds
          cases hds
    | none =>
      have hnone := h.fineWf.find_none_iff.1 hfind
      simp only [Bool.false_eq_true, if_false]
      rw [SparsePRT.containsCard_iff]
      constructor
      · intro hcard
        exact .inr (.inr hcard)
      · rintro (htrue | ⟨prt', hprt', hr', -⟩ | hcard)
        · rw [hcoarse] at htrue
          cases htrue
        · exact absurd hr' (hnone prt' hprt')
        · exact hcard

def Grows (t : OtherRegionsTable) (fine : List Nat) (t' : OtherRegionsTable) (fine' : List Nat) : Prop :=
  ∀ r card, t.Represents fine r card → t'.Represents fine' r card

lemma Grows.trans {t'' fine''} (h : Grows t fine t' fine')
    (h' : Grows t' fine' t'' fine'') : Grows t fine t'' fine'' := fun r card hrep => h' r card (h r card hrep)

/-! ## New cards in a fine table -/

lemma setPrt_self (t : OtherRegionsTable) (prt : Nat) (p : PerRegionTable) : (t.setPrt prt p).prts prt = p :=
  update_self ..

lemma forall_setPrt {P : Nat → PerRegionTable → Prop} {p} (hp : P prt p)
    (h : ∀ j ≠ prt, P j (t.prts j)) (j) : P j ((t.setPrt prt p).prts j) :=
  (forall_update_iff t.prts P).2 ⟨hp, h⟩ j

/-- Other contents of the fine tables, for the same regions. -/
lemma Wf.setPrts (h : Wf c t fine spare) {prts}
    (hhr : ∀ j ∈ fine, (prts j).hr = (t.prts j).hr) (hexact : ∀ j ∈ fine, (prts j).Exact c) :
    Wf c { t with prts } fine spare := by
  refine { h with
    fineWf := { h.fineWf with buckets := fun b => ?_, distinct := ?_, regions := fun j hj => ?_, exact := hexact }
    fine_coarse := fun j hj => ?_, sparse_fine := fun j hj => ?_ }
  · refine (h.fineWf.buckets b).trans (filter_congr fun j hj => ?_)
    rw [hhr j hj]
  · rw [map_congr_left hhr]
    exact h.fineWf.distinct
  · rw [hhr j hj]
    exact h.fineWf.regions j hj
  · rw [hhr j hj]
    exact h.fine_coarse j hj
  · rw [hhr j hj]
    exact h.sparse_fine j hj

lemma Wf.setPrt (h : Wf c t fine spare) {p} (hp : p.hr = (t.prts prt).hr) (hexact : p.Exact c) :
    Wf c (t.setPrt prt p) fine spare :=
  h.setPrts (fun j _ => forall_setPrt (P := fun j p => p.hr = (t.prts j).hr) hp (fun _ _ => rfl) j)
    (forall_setPrt (P := fun j p => j ∈ fine → p.Exact c) (fun _ => hexact) fun j _ => h.fineWf.exact j)

lemma grows_setPrts {prts} (hhr : ∀ j ∈ fine, (prts j).hr = (t.prts j).hr)
    (hbm : ∀ j ∈ fine, ∀ i, (t.prts j).bm i = true → (prts j).bm i = true) : Grows t fine { t with prts } fine := by
  rintro r card (hcoarse | ⟨j, hj, hr, hcard⟩ | hsparse)
  · exact .inl hcoarse
  · exact .inr (.inl ⟨j, hj, (hhr j hj).trans hr, hbm j hj card hcard⟩)
  · exact .inr (.inr hsparse)

lemma prts_setPrt_of_notMem (hprt : prt ∉ fine) (p) : ∀ j ∈ fine, (t.setPrt prt p).prts j = t.prts j :=
  forall_setPrt (P := fun j p => j ∈ fine → p = t.prts j) (fun hj => absurd hj hprt) fun _ _ _ => rfl

lemma grows_setPrt_of_notMem (hprt : prt ∉ fine) (p) : Grows t fine (t.setPrt prt p) fine :=
  have hold := prts_setPrt_of_notMem hprt p
  grows_setPrts (fun j hj => congrArg hr (hold j hj)) fun j hj i => (congrArg (bm · i) (hold j hj)).trans

lemma Wf.addReferenceTo (h : Wf c t fine []) (hprt : prt ∈ fine) {loc} (hloc : c.InHeap loc)
    (hr : (t.prts prt).hr = c.heapRegionContainingRaw loc) :
    Wf c (t.setPrt prt ((t.prts prt).addReference c loc)) fine [] ∧
      (t.setPrt prt ((t.prts prt).addReference c loc)).Represents fine (c.heapRegionContainingRaw loc) (c.cardOf loc) ∧
      Grows t fine (t.setPrt prt ((t.prts prt).addReference c loc)) fine := by
  rw [addReference_eq hloc hr]
  have hhr := addCard_hr (t.prts prt) (c.cardOf loc)
  refine ⟨h.setPrt hhr ((h.fineWf.exact prt hprt).addCard hloc.cardOf_lt), .inr (.inl ⟨prt, hprt, ?_, ?_⟩),
    grows_setPrts (fun j _ => forall_setPrt (P := fun j p => p.hr = (t.prts j).hr) hhr (fun _ _ => rfl) j) fun j _ =>
      forall_setPrt (P := fun j p => ∀ i, (t.prts j).bm i = true → p.bm i = true)
        (fun i hi => addCard_bm.2 (.inl hi)) (fun _ _ _ hi => hi) j⟩
  · rw [setPrt_self, hhr, hr]
  · rw [setPrt_self]
    exact addCard_bm.2 (.inr rfl)

/-! ## New cards in the sparse table -/

lemma Wf.setSparse (h : Wf c t fine spare) {s x} (hs : s.Wf c.cardsNum)
    (hview : s.view = update t.sparseTable.view r x) (hcoarse : t.coarseMap r = false)
    (hfine : ∀ prt ∈ fine, (t.prts prt).hr ≠ r)
    (hcards : ∀ ds, x = some ds → r < c.maxRegions ∧ ∀ d ∈ ds, d < c.cardsPerRegion) :
    Wf c { t with sparseTable := s } fine spare := by
  refine { h with
    fineWf := { h.fineWf with }, sparse := hs, sparse_cards := fun r' ds hds => ?_
    sparse_coarse := fun r' hr' => ?_, sparse_fine := fun prt hprt => ?_ }
  · rw [hview] at hds
    by_cases hrr : r' = r
    · subst hrr
      rw [update_self] at hds
      exact hcards ds hds
    · rw [update_of_ne hrr] at hds
      exact h.sparse_cards r' ds hds
  · have hrr : r' ≠ r := by
      rintro rfl
      rw [hcoarse] at hr'
      cases hr'
    rw [hview, update_of_ne hrr]
    exact h.sparse_coarse r' hr'
  · rw [hview, update_of_ne (hfine prt hprt)]
    exact h.sparse_fine prt hprt

/-! ## Evicting a fine table -/

variable {b : Nat}

section

variable (h : FineWf c t fine spare)

include h

lemma FineWf.mem_bucket : prt ∈ t.fineGrainRegions b ↔ prt ∈ fine ∧ c.fineInd (t.prts prt).hr = b := by
  rw [h.buckets, mem_filter, decide_eq_true_eq]

lemma FineWf.nodup_fine : fine.Nodup := (nodup_append.1 h.nodup).2.1

lemma FineWf.buckets_erase (hprt : prt ∈ t.fineGrainRegions b) (b') :
    update t.fineGrainRegions b ((t.fineGrainRegions b).erase prt) b' =
      (fine.erase prt).filter fun j => c.fineInd (t.prts j).hr = b' := by
  have hcomm : ∀ p : Nat → Bool, (fine.erase prt).filter p = (fine.filter p).erase prt := by
    intro p
    rw [h.nodup_fine.erase_eq_filter, (h.nodup_fine.filter p).erase_eq_filter, filter_comm]
  rw [hcomm, ← h.buckets]
  by_cases hb : b' = b
  · subst hb
    rw [update_self]
  · rw [update_of_ne hb, erase_of_not_mem]
    intro hprt'
    exact hb ((h.mem_bucket.1 hprt').2.symm.trans (h.mem_bucket.1 hprt).2)

lemma FineWf.sampleBucket (hne : fine ≠ []) (hi : i < c.maxFineEntries) :
    ∃ ii, t.sampleBucket c i = some ii ∧ t.fineGrainRegions ii ≠ [] := by
  obtain ⟨prt, hprt⟩ := exists_mem_of_ne_nil fine hne
  have hb := c.fineInd_lt (t.prts prt).hr
  generalize hbucket : c.fineInd (t.prts prt).hr = b at hb
  have hmem : prt ∈ t.fineGrainRegions b := h.mem_bucket.2 ⟨hprt, hbucket⟩
  have hvisit : ∃ d < c.maxFineEntries, (i + d) % c.maxFineEntries = b := by
    by_cases hib : i ≤ b
    · refine ⟨b - i, by omega, ?_⟩
      rw [Nat.add_sub_cancel' hib, mod_eq_of_lt hb]
    · refine ⟨b + c.maxFineEntries - i, by omega, ?_⟩
      have hsum : i + (b + c.maxFineEntries - i) = b + c.maxFineEntries := by omega
      rw [hsum, add_mod_right, mod_eq_of_lt hb]
  obtain ⟨d, hd, hdb⟩ := hvisit
  have hsome : (t.sampleBucket c i).isSome = true := by
    rw [OtherRegionsTable.sampleBucket, find?_isSome]
    refine ⟨b, mem_map.2 ⟨d, mem_range.2 hd, hdb⟩, decide_eq_true ?_⟩
    exact ne_nil_of_mem hmem
  obtain ⟨ii, hii⟩ := Option.isSome_iff_exists.1 hsome
  exact ⟨ii, hii, of_decide_eq_true (by simpa using find?_some hii)⟩

end

def GoodMax (t : OtherRegionsTable) (max : Option (Nat × Nat)) : Prop :=
  ∀ ii prt, max = some (ii, prt) → prt ∈ t.fineGrainRegions ii

variable {max : Option (Nat × Nat)}

lemma GoodMax.considerTable (h : t.GoodMax max) {ii cur} (hcur : cur ∈ t.fineGrainRegions ii) :
    t.GoodMax (t.considerTable ii max cur) ∧ (t.considerTable ii max cur).isSome = true := by
  have hnew : t.GoodMax (some (ii, cur)) := by
    rintro ii' prt heq
    cases heq
    exact hcur
  cases max with
  | none => exact ⟨hnew, rfl⟩
  | some best =>
    unfold considerTable
    dsimp only
    split
    · exact ⟨hnew, rfl⟩
    · exact ⟨h, rfl⟩

lemma GoodMax.foldl (h : t.GoodMax max) {ii}
    (hl : ∀ prt ∈ l, prt ∈ t.fineGrainRegions ii) (hsome : max.isSome = true ∨ l ≠ []) :
    t.GoodMax (l.foldl (t.considerTable ii) max) ∧ (l.foldl (t.considerTable ii) max).isSome = true := by
  induction l generalizing max with
  | nil => exact ⟨h, hsome.resolve_right fun hne => hne rfl⟩
  | cons cur l ih =>
    obtain ⟨hgood, hmax⟩ := h.considerTable (hl cur mem_cons_self)
    exact ih hgood (fun prt hprt => hl prt (mem_cons_of_mem _ hprt)) (.inl hmax)

lemma FineWf.sampleLoop (h : FineWf c t fine spare) (hfull : fine.length = c.maxFineEntries)
    (hi : i < c.maxFineEntries) (hgood : t.GoodMax max) (hsome : max.isSome = true ∨ 0 < n) :
    ∃ ii prt, t.sampleLoop c n i max = some (ii, prt) ∧ prt ∈ t.fineGrainRegions ii := by
  induction n generalizing i max with
  | zero =>
    obtain ⟨⟨ii, prt⟩, rfl⟩ := Option.isSome_iff_exists.1 (hsome.resolve_right (lt_irrefl 0))
    exact ⟨ii, prt, rfl, hgood ii prt rfl⟩
  | succ n ih =>
    have hne : fine ≠ [] := by
      have hpos := c.maxFineEntries_pos
      rintro rfl
      exact ne_of_gt hpos hfull.symm
    obtain ⟨ii, hii, hbucket⟩ := h.sampleBucket hne hi
    obtain ⟨hgood', hsome'⟩ := hgood.foldl (fun _ hprt => hprt) (.inr hbucket)
    have hstride : c.fineEvictionStride ≤ c.maxFineEntries := div_le_self ..
    have hcount := h.count
    rw [sampleLoop, sampleStep, hii]
    refine ih ?_ hgood' (.inl hsome')
    split <;> omega

lemma FineWf.nodup_erase (h : FineWf c t fine []) (prt) : ([prt] ++ fine.erase prt).Nodup :=
  nodup_cons.2 ⟨h.nodup_fine.not_mem_erase, h.nodup_fine.erase prt⟩

lemma FineWf.hr_ne (h : FineWf c t fine spare) (hprt : prt ∈ fine) {j} (hj : j ∈ fine.erase prt) :
    (t.prts j).hr ≠ (t.prts prt).hr := by
  intro heq
  have hjp := inj_on_of_nodup_map h.distinct (mem_of_mem_erase hj) hprt heq
  exact h.nodup_fine.not_mem_erase (hjp ▸ hj)

lemma Wf.deleteRegionTable (h : Wf c t fine []) (hfull : fine.length = c.maxFineEntries) :
    ∃ t' prt, t.deleteRegionTable c = some (t', prt) ∧ prt ∈ fine ∧ t'.prts = t.prts ∧
      t'.sparseTable = t.sparseTable ∧ t'.fromCardCache = t.fromCardCache ∧
      t'.coarseMap = update t.coarseMap (t.prts prt).hr true ∧ Wf c t' (fine.erase prt) [prt] := by
  have hnone : t.GoodMax none := fun ii prt heq => by cases heq
  have hsamples : 0 < c.fineEvictionSampleSize := lt_of_lt_of_le (by decide) (le_max_left 4 _)
  obtain ⟨ii, prt, hloop, hbucket⟩ := h.fineWf.sampleLoop hfull h.fineWf.start hnone (.inr hsamples)
  have hprt := (h.fineWf.mem_bucket.1 hbucket).1
  have hcoarse := h.fine_coarse prt hprt
  have hlen := length_erase_of_mem hprt
  rw [OtherRegionsTable.deleteRegionTable, hloop]
  refine ⟨_, prt, rfl, hprt, rfl, rfl, rfl, rfl, ?_⟩
  refine { h with
    fineWf := { h.fineWf with
      buckets := h.fineWf.buckets_erase hbucket, all := ?_, known := ?_, nodup := h.fineWf.nodup_erase prt
      count := ?_, count_le := ?_, start := ?_
      distinct := h.fineWf.distinct.sublist (erase_sublist.map _)
      regions := fun j hj => h.fineWf.regions j (mem_of_mem_erase hj)
      exact := fun j hj => h.fineWf.exact j (mem_of_mem_erase hj) }
    coarse_count := ?_, coarse_lt := ?_, fine_coarse := ?_, sparse_coarse := ?_
    sparse_fine := fun j hj => h.sparse_fine j (mem_of_mem_erase hj) }
  · exact h.fineWf.all.trans (perm_cons_erase hprt)
  · intro j hj
    rcases mem_cons.1 hj with rfl | hj
    · exact h.fineWf.known j hprt
    · exact h.fineWf.known j (mem_of_mem_erase hj)
  · rw [h.fineWf.count, hlen]
  · omega
  · have hstart := h.fineWf.start
    have hcount := h.fineWf.count
    change (if t.nFineEntries ≤ t.fineEvictionStart + 1 then _ else _) < _
    split <;> omega
  · rw [countOneBits_update (h.fineWf.regions prt hprt) hcoarse, hcoarse]
    exact congrArg (· + 1) h.coarse_count
  · exact (forall_update_iff t.coarseMap fun r coarse => coarse = true → r < c.maxRegions).2
      ⟨fun _ => h.fineWf.regions prt hprt, fun r _ => h.coarse_lt r⟩
  · intro j hj
    change update t.coarseMap (t.prts prt).hr true (t.prts j).hr = false
    rw [update_of_ne (h.fineWf.hr_ne hprt hj)]
    exact h.fine_coarse j (mem_of_mem_erase hj)
  · exact (forall_update_iff t.coarseMap fun r coarse => coarse = true → t.sparseTable.view r = none).2
      ⟨fun _ => h.sparse_fine prt hprt, fun r _ => h.sparse_coarse r⟩

lemma grows_erase (hprts : t'.prts = t.prts) (hsparse : t'.sparseTable = t.sparseTable)
    (hmap : t'.coarseMap = update t.coarseMap (t.prts prt).hr true) : Grows t fine t' (fine.erase prt) := by
  rintro r card (hcoarse | ⟨j, hj, hr, hbm⟩ | hcards)
  · refine .inl ?_
    rw [hmap, update_apply, hcoarse, ite_self]
  · by_cases hjp : j = prt
    · subst hjp
      refine .inl ?_
      rw [hmap, hr, update_self]
    · refine .inr (.inl ⟨j, (mem_erase_of_ne hjp).2 hj, ?_⟩)
      rw [hprts]
      exact ⟨hr, hbm⟩
  · refine .inr (.inr ?_)
    rw [hsparse]
    exact hcards

lemma FineWf.spare_notMem (h : FineWf c t fine [prt]) : prt ∉ fine := (nodup_cons.1 h.nodup).1

lemma Wf.setSpare (h : Wf c t fine [prt]) (p) : Wf c (t.setPrt prt p) fine [prt] := by
  have hold := prts_setPrt_of_notMem (t := t) h.fineWf.spare_notMem p
  refine h.setPrts (fun j hj => congrArg hr (hold j hj)) fun j hj => ?_
  exact (congrArg (PerRegionTable.Exact c) (hold j hj)).mpr (h.fineWf.exact j hj)

lemma Wf.allocTable (h : Wf c t fine []) :
    Wf c { t with nextPrt := t.nextPrt + 1, allFinePrts := t.nextPrt :: t.allFinePrts } fine [t.nextPrt] := by
  have hnew : t.nextPrt ∉ fine := fun hmem => lt_irrefl _ (h.fineWf.known _ hmem)
  refine { h with
    fineWf := { h.fineWf with
      all := h.fineWf.all.cons _, known := fun j hj => ?_, nodup := nodup_cons.2 ⟨hnew, h.fineWf.nodup⟩ } }
  rcases mem_cons.1 hj with rfl | hj
  · exact lt_succ_self _
  · exact lt_succ_of_lt (h.fineWf.known j hj)

lemma Wf.newTable (h : Wf c t fine []) (hcoarse : t.coarseMap r = false) (hfine : ∀ j ∈ fine, (t.prts j).hr ≠ r) :
    ∃ t' prt fine', t.newTable c r = some (t', prt) ∧ Wf c t' fine' [prt] ∧ fine'.length < c.maxFineEntries ∧
      t'.prts prt = .init r ∧ t'.sparseTable = t.sparseTable ∧ t'.fromCardCache = t.fromCardCache ∧
      t'.coarseMap r = false ∧ (∀ j ∈ fine', (t'.prts j).hr ≠ r) ∧ Grows t fine t' fine' := by
  rw [OtherRegionsTable.newTable]
  by_cases hfull : t.nFineEntries = c.maxFineEntries
  · rw [h.fineWf.count] at hfull
    obtain ⟨t', prt, hdel, hprt, hprts, hsparse, hcache, hmap, h'⟩ := h.deleteRegionTable hfull
    have hnot : prt ∉ fine.erase prt := h'.fineWf.spare_notMem
    have hpos := length_pos_of_mem hprt
    have hlen := length_erase_of_mem hprt
    rw [h.fineWf.count, if_pos hfull, hdel]
    refine ⟨_, prt, fine.erase prt, rfl, h'.setSpare (.init r), by omega, setPrt_self .., hsparse, hcache, ?_, ?_,
      (grows_erase hprts hsparse hmap).trans (grows_setPrt_of_notMem hnot _)⟩
    · change t'.coarseMap r = false
      rw [hmap, update_of_ne (hfine prt hprt).symm, hcoarse]
    · intro j hj
      rw [prts_setPrt_of_notMem hnot _ j hj, hprts]
      exact hfine j (mem_of_mem_erase hj)
  · rw [if_neg hfull]
    have hnot : t.nextPrt ∉ fine := h.allocTable.fineWf.spare_notMem
    have hlt := lt_of_le_of_ne h.fineWf.count_le (h.fineWf.count ▸ hfull)
    refine ⟨_, t.nextPrt, fine, rfl, h.allocTable.setSpare (.init r), hlt, setPrt_self .., rfl, rfl, hcoarse, ?_,
      grows_setPrt_of_notMem hnot _⟩
    intro j hj
    exact (congrArg hr (prts_setPrt_of_notMem hnot _ j hj)).trans_ne (hfine j hj)

/-! ## Adding a reference -/

lemma Wf.pushTable (h : Wf c t fine [prt]) (hlt : fine.length < c.maxFineEntries) (hr : (t.prts prt).hr = r)
    (hexact : (t.prts prt).Exact c) (hregion : r < c.maxRegions) (hcoarse : t.coarseMap r = false)
    (hfine : ∀ j ∈ fine, (t.prts j).hr ≠ r) (hsparse : t.sparseTable.view r = none) :
    Wf c (t.pushTable c prt r) (prt :: fine) [] := by
  refine { h with
    fineWf := { h.fineWf with
      buckets := fun b => ?_, count := congrArg (· + 1) h.fineWf.count, count_le := hlt
      distinct := nodup_cons.2 ⟨fun hmem => ?_, h.fineWf.distinct⟩
      regions := forall_mem_cons.2 ⟨hr ▸ hregion, h.fineWf.regions⟩
      exact := forall_mem_cons.2 ⟨hexact, h.fineWf.exact⟩ }
    fine_coarse := forall_mem_cons.2 ⟨hr ▸ hcoarse, h.fine_coarse⟩
    sparse_fine := forall_mem_cons.2 ⟨hr ▸ hsparse, h.sparse_fine⟩ }
  · change update t.fineGrainRegions (c.fineInd r) (prt :: t.fineGrainRegions (c.fineInd r)) b =
      (prt :: fine).filter fun j => c.fineInd (t.prts j).hr = b
    by_cases hb : b = c.fineInd r
    · subst hb
      simp [hr, h.fineWf.buckets]
    · have hne : c.fineInd (t.prts prt).hr ≠ b := fun heq => hb (heq.symm.trans (congrArg c.fineInd hr))
      simp [hb, hne, h.fineWf.buckets]
  · obtain ⟨j, hj, heq⟩ := mem_map.1 hmem
    exact hfine j hj (heq.trans hr)

lemma Wf.transferFromSparse (h : Wf c t fine [prt]) (hlt : fine.length < c.maxFineEntries)
    (hinit : t.prts prt = .init r) (hcoarse : t.coarseMap r = false) (hfine : ∀ j ∈ fine, (t.prts j).hr ≠ r)
    {ds} (hview : t.sparseTable.view r = some ds) :
    ∃ t', t.transferFromSparse c prt r = some t' ∧ Wf c t' (prt :: fine) [] ∧ (t'.prts prt).hr = r ∧
      t'.fromCardCache = t.fromCardCache ∧ Grows t fine t' (prt :: fine) := by
  have hmap := hview
  rw [SparsePRT.view_eq_getEntry, Option.map_eq_some_iff] at hmap
  obtain ⟨e, hentry, rfl⟩ := hmap
  obtain ⟨hregion, hcards⟩ := h.sparse_cards r _ hview
  obtain ⟨hdel, hdelview⟩ := h.sparse.deleteEntry r
  have hexact : ((PerRegionTable.init r).addCards e.cards).Exact c :=
    (exact_init c r).addCards fun d hd => hcards d (mem_validCards.2 hd)
  have hbm : ∀ d, d ∈ e.validCards → ((PerRegionTable.init r).addCards e.cards).bm d = true := fun d hd =>
    addCards_bm.2 (.inr (mem_validCards.1 hd))
  have hhr : ((PerRegionTable.init r).addCards e.cards).hr = r := addCards_hr _ _
  have h1 := h.setSparse hdel hdelview hcoarse hfine fun ds hds => by cases hds
  have h2 := h1.setSpare ((PerRegionTable.init r).addCards e.cards)
  have hself : (t.setPrt prt ((PerRegionTable.init r).addCards e.cards)).prts prt = _ := setPrt_self t prt _
  have hold := prts_setPrt_of_notMem (t := t) h.fineWf.spare_notMem ((PerRegionTable.init r).addCards e.cards)
  have h3 := h2.pushTable hlt (by rw [setPrt_self, hhr]) (by rw [setPrt_self]; exact hexact) hregion hcoarse
    (fun j hj => (congrArg hr (hold j hj)).trans_ne (hfine j hj))
    (by change ((t.sparseTable.deleteEntry r).1.view r) = none; rw [hdelview, update_self])
  refine ⟨_, ?_, h3, ?_, rfl, ?_⟩
  · have hentry' : (t.pushTable c prt r).sparseTable.getEntry r = some e := hentry
    have hprt : (t.pushTable c prt r).prts prt = .init r := hinit
    simp only [OtherRegionsTable.transferFromSparse, hentry', hprt]
    rfl
  · exact (congrArg hr hself).trans hhr
  refine (grows_setPrt_of_notMem h.fineWf.spare_notMem ((PerRegionTable.init r).addCards e.cards)).trans ?_
  rintro r' card (hc | ⟨j, hj, hcard⟩ | ⟨ds, hds, hcard⟩)
  · exact .inl hc
  · exact .inr (.inl ⟨j, mem_cons_of_mem _ hj, hcard⟩)
  by_cases hrr : r' = r
  · -- The cards that the sparse table had are those that were transferred.
    subst hrr
    cases hds.symm.trans hview
    exact .inr (.inl ⟨prt, mem_cons_self, (congrArg hr hself).trans hhr,
      (congrArg (bm · card) hself).trans (hbm card hcard)⟩)
  · refine .inr (.inr ⟨ds, ?_, hcard⟩)
    change ((t.sparseTable.deleteEntry r).1.view r') = some ds
    rw [hdelview, update_of_ne hrr]
    exact hds

lemma Wf.setCache (h : Wf c t fine spare) (cache) :
    Wf c { t with fromCardCache := cache } fine spare := { h with fineWf := { h.fineWf with } }

lemma Wf.addToSparse (h : Wf c t fine []) (hregion : r < c.maxRegions) (hcard : card < c.cardsPerRegion)
    (hcoarse : t.coarseMap r = false) (hfine : ∀ j ∈ fine, (t.prts j).hr ≠ r) :
    ∃ s ok ds, t.sparseTable.addCard c.cardsNum r card = some (s, ok) ∧
      Wf c { t with sparseTable := s } fine [] ∧ Grows t fine { t with sparseTable := s } fine ∧
      s.view r = some ds ∧ (ok = true → card ∈ ds) := by
  obtain ⟨s, hadd, hs, hview⟩ := h.sparse.addCard r card
  have hds : ∀ d ∈ (t.sparseTable.view r).getD [], d < c.cardsPerRegion := by
    intro d hd
    cases hold : t.sparseTable.view r with
    | none =>
      rw [hold] at hd
      cases hd
    | some ds =>
      rw [hold] at hd
      exact (h.sparse_cards r ds hold).2 d hd
  refine ⟨s, _, _, hadd, h.setSparse hs hview hcoarse hfine ?_, ?_, by rw [hview, update_self], ?_⟩
  · intro ds heq
    cases heq
    refine ⟨hregion, fun d hd => ?_⟩
    rcases mem_cardsAfter hd with hd | rfl
    · exact hds d hd
    · exact hcard
  · rintro r' card' (hc | hprt | ⟨ds, hold, hmem⟩)
    · exact .inl hc
    · exact .inr (.inl hprt)
    refine .inr (.inr ?_)
    rw [hview]
    by_cases hrr : r' = r
    · subst hrr
      rw [update_self, hold]
      exact ⟨_, rfl, subset_cardsAfter hmem⟩
    · rw [update_of_ne hrr]
      exact ⟨ds, hold, hmem⟩
  · exact fun hok => mem_cardsAfter_self (of_decide_eq_true hok)

lemma Wf.addReference (h : Wf c t fine []) {loc tid} (hloc : c.InHeap loc)
    (hmiss : fromCard loc ≠ t.fromCardCache tid) : ∃ t' fine', t.addReference c loc tid = some t' ∧ Wf c t' fine' [] ∧
      t'.fromCardCache = update t.fromCardCache tid (fromCard loc) ∧
      t'.Represents fine' (c.heapRegionContainingRaw loc) (c.cardOf loc) ∧ Grows t fine t' fine' := by
  have h1 := h.setCache (update t.fromCardCache tid (fromCard loc))
  have hregion := hloc.region_lt
  simp only [OtherRegionsTable.addReference, if_neg hmiss, hloc.cardIndex_eq]
  generalize update t.fromCardCache tid (fromCard loc) = cache at h1 ⊢
  generalize hr : c.heapRegionContainingRaw loc = r at hregion ⊢
  cases hcoarse : t.coarseMap r with
  | true => exact ⟨_, fine, rfl, h1, rfl, .inl hcoarse, fun _ _ hrep => hrep⟩
  | false =>
    cases hfind : findRegionTable c { t with fromCardCache := cache } r with
    | some prt =>
      obtain ⟨hprt, hprtr⟩ := h1.fineWf.find_some_iff.1 hfind
      obtain ⟨h', hrep, hgrows⟩ := h1.addReferenceTo hprt hloc (hprtr.trans hr.symm)
      rw [hr] at hrep
      exact ⟨_, fine, rfl, h', rfl, hrep, hgrows⟩
    | none =>
      have hfine := h1.fineWf.find_none_iff.1 hfind
      obtain ⟨s, ok, ds, hadd, h2, hgrows2, hview, hok⟩ := h1.addToSparse hregion hloc.cardOf_lt hcoarse hfine
      have hadd' : t.sparseTable.addCard c.cardsNum r (c.cardOf loc) = some (s, ok) := hadd
      rw [hadd']
      cases ok with
      | true => exact ⟨_, fine, rfl, h2, rfl, .inr (.inr ⟨ds, hview, hok rfl⟩), hgrows2⟩
      | false =>
        obtain ⟨t3, prt, fine3, hnew, h3, hlt, hinit, hsparse, hcache3, hcoarse3, hfine3, hgrows3⟩ :=
          h2.newTable hcoarse hfine
        have hview3 : t3.sparseTable.view r = some ds := by
          rw [hsparse]
          exact hview
        obtain ⟨t4, htrans, h4, hr4, hcache4, hgrows4⟩ := h3.transferFromSparse hlt hinit hcoarse3 hfine3 hview3
        obtain ⟨h5, hrep, hgrows5⟩ := h4.addReferenceTo mem_cons_self hloc (hr4.trans hr.symm)
        rw [hr] at hrep
        simp only [hnew, htrans]
        exact ⟨_, prt :: fine3, rfl, h5, hcache4.trans hcache3, hrep,
          ((hgrows2.trans hgrows3).trans hgrows4).trans hgrows5⟩

/-! ## Scrubbing and clearing -/

def Keeps (c : RemSetConfig) (regionBm cardBm : Nat → Bool) (t : OtherRegionsTable) (fine : List Nat)
    (t' : OtherRegionsTable) (fine' : List Nat) : Prop :=
  ∀ r card, card < c.cardsPerRegion → regionBm r = true → cardBm (c.cardIndex r card) = true →
    t.Represents fine r card → t'.Represents fine' r card

section Scrub

variable {regionBm cardBm : Nat → Bool}

lemma Keeps.trans {t'' fine''} (h : Keeps c regionBm cardBm t fine t' fine')
    (h' : Keeps c regionBm cardBm t' fine' t'' fine'') : Keeps c regionBm cardBm t fine t'' fine'' :=
  fun r card hlt hr hc hrep => h' r card hlt hr hc (h r card hlt hr hc hrep)

lemma Wf.dropTable (h : Wf c t fine []) (hprt : prt ∈ t.fineGrainRegions b) :
    Wf c (t.dropTable b prt) (fine.erase prt) [] := by
  have hmem := (h.fineWf.mem_bucket.1 hprt).1
  have hlen := length_erase_of_mem hmem
  refine { h with
    fineWf := { h.fineWf with
      buckets := h.fineWf.buckets_erase hprt, all := h.fineWf.all.erase prt
      known := fun j hj => h.fineWf.known j (mem_of_mem_erase hj), nodup := h.fineWf.nodup_fine.erase prt
      count := ?_, count_le := le_trans length_erase_le h.fineWf.count_le
      distinct := h.fineWf.distinct.sublist (erase_sublist.map _)
      regions := fun j hj => h.fineWf.regions j (mem_of_mem_erase hj)
      exact := fun j hj => h.fineWf.exact j (mem_of_mem_erase hj) }
    fine_coarse := fun j hj => h.fine_coarse j (mem_of_mem_erase hj)
    sparse_fine := fun j hj => h.sparse_fine j (mem_of_mem_erase hj) }
  change t.nFineEntries - 1 = _
  rw [h.fineWf.count, hlen]

lemma keeps_dropTable (hno : ∀ card, card < c.cardsPerRegion → regionBm (t.prts prt).hr = true →
      cardBm (c.cardIndex (t.prts prt).hr card) = true → (t.prts prt).bm card = false) :
    Keeps c regionBm cardBm t fine (t.dropTable b prt) (fine.erase prt) := by
  rintro r card hlt hr hc (hcoarse | ⟨j, hj, rfl, hcard⟩ | hsparse)
  · exact .inl hcoarse
  · have hjp : j ≠ prt := by
      rintro rfl
      rw [hno card hlt hr hc] at hcard
      cases hcard
    exact .inr (.inl ⟨j, (mem_erase_of_ne hjp).2 hj, rfl, hcard⟩)
  · exact .inr (.inr hsparse)

lemma scrub_hr (p : PerRegionTable) : (p.scrub c cardBm).hr = p.hr := rfl

lemma exact_scrub (p : PerRegionTable) : (p.scrub c cardBm).Exact c := rfl

lemma keeps_scrubPrt : Keeps c regionBm cardBm t fine (t.setPrt prt ((t.prts prt).scrub c cardBm)) fine := by
  rintro r card hlt hr hc (hcoarse | ⟨j, hj, rfl, hcard⟩ | hsparse)
  · exact .inl hcoarse
  · refine .inr (.inl ⟨j, hj, ?_⟩)
    by_cases hjp : j = prt
    · subst hjp
      simp [setPrt_self, PerRegionTable.scrub, hcard, hc]
    · simp [setPrt, hjp, hcard]
  · exact .inr (.inr hsparse)

variable (regionBm cardBm) in
lemma Wf.scrubTable (h : Wf c t fine []) (hprt : prt ∈ t.fineGrainRegions b) :
    ∃ fine', Wf c (t.scrubTable c regionBm cardBm b prt) fine' [] ∧
      Keeps c regionBm cardBm t fine (t.scrubTable c regionBm cardBm b prt) fine' ∧
      ∀ j ∈ t.fineGrainRegions b, j ≠ prt → j ∈ (t.scrubTable c regionBm cardBm b prt).fineGrainRegions b := by
  have hdrop : ∀ j ∈ t.fineGrainRegions b, j ≠ prt → j ∈ (t.dropTable b prt).fineGrainRegions b := by
    intro j hj hjp
    change j ∈ update t.fineGrainRegions b ((t.fineGrainRegions b).erase prt) b
    rw [update_self]
    exact (mem_erase_of_ne hjp).2 hj
  unfold OtherRegionsTable.scrubTable
  cases hregion : regionBm (t.prts prt).hr with
  | false =>
    refine ⟨fine.erase prt, h.dropTable hprt, keeps_dropTable fun card _ hr => ?_, hdrop⟩
    rw [hregion] at hr
    cases hr
  | true =>
    have h1 : Wf c (t.setPrt prt ((t.prts prt).scrub c cardBm)) fine [] := h.setPrt (scrub_hr _) (exact_scrub _)
    simp only [setPrt_self]
    by_cases hzero : ((t.prts prt).scrub c cardBm).occupied = 0
    · rw [if_pos hzero]
      refine ⟨fine.erase prt, h1.dropTable hprt, keeps_scrubPrt.trans (keeps_dropTable fun card hlt _ _ => ?_), hdrop⟩
      rw [setPrt_self]
      by_contra hbm
      have hpos : 0 < ((t.prts prt).scrub c cardBm).occupied := by
        exact countOneBits_pos.2 ⟨card, hlt, Bool.eq_true_of_not_eq_false hbm⟩
      exact ne_of_gt hpos hzero
    · rw [if_neg hzero]
      exact ⟨fine, h1, keeps_scrubPrt, fun j hj _ => hj⟩

variable (regionBm cardBm) in
lemma Wf.foldl_scrubTable (hn : l.Nodup) (h : Wf c t fine []) (hl : ∀ j ∈ l, j ∈ t.fineGrainRegions b) :
    ∃ fine', Wf c (l.foldl (OtherRegionsTable.scrubTable c regionBm cardBm b) t) fine' [] ∧
      Keeps c regionBm cardBm t fine (l.foldl (OtherRegionsTable.scrubTable c regionBm cardBm b) t) fine' := by
  induction l generalizing t fine with
  | nil => exact ⟨fine, h, fun _ _ _ _ _ hrep => hrep⟩
  | cons prt l ih =>
    obtain ⟨hprt, hn⟩ := nodup_cons.1 hn
    obtain ⟨fine1, h1, hkeeps1, hrest⟩ := h.scrubTable regionBm cardBm (hl prt mem_cons_self)
    have hl1 : ∀ j ∈ l, j ∈ (t.scrubTable c regionBm cardBm b prt).fineGrainRegions b := by
      intro j hj
      refine hrest j (hl j (mem_cons_of_mem _ hj)) ?_
      rintro rfl
      exact hprt hj
    obtain ⟨fine', h', hkeeps'⟩ := ih hn h1 hl1
    exact ⟨fine', h', hkeeps1.trans hkeeps'⟩

variable (regionBm cardBm) in
lemma Wf.foldl_scrubBucket (bs : List Nat) (h : Wf c t fine []) :
    ∃ fine', Wf c (bs.foldl (scrubBucket c regionBm cardBm) t) fine' [] ∧
      Keeps c regionBm cardBm t fine (bs.foldl (scrubBucket c regionBm cardBm) t) fine' := by
  induction bs generalizing t fine with
  | nil => exact ⟨fine, h, fun _ _ _ _ _ hrep => hrep⟩
  | cons b bs ih =>
    have hn : (t.fineGrainRegions b).Nodup := by
      rw [h.fineWf.buckets]
      exact h.fineWf.nodup_fine.filter _
    obtain ⟨fine1, h1, hkeeps1⟩ := Wf.foldl_scrubTable regionBm cardBm hn h fun j hj => hj
    obtain ⟨fine', h', hkeeps'⟩ := ih h1
    exact ⟨fine', h', hkeeps1.trans hkeeps'⟩

variable (regionBm) in
lemma Wf.scrubCoarse (h : Wf c t fine []) : let coarseMap := fun r => t.coarseMap r && regionBm r
    Wf c { t with coarseMap, nCoarseEntries := countOneBits c.maxRegions coarseMap } fine [] := by
  refine { h with
    fineWf := { h.fineWf with }, coarse_count := rfl, coarse_lt := fun r hr => ?_, fine_coarse := fun j hj => ?_
    sparse_coarse := fun r hr => ?_ }
  · exact h.coarse_lt r (Bool.and_eq_true_iff.1 hr).1
  · exact Bool.and_eq_false_iff.2 (.inl (h.fine_coarse j hj))
  · exact h.sparse_coarse r (Bool.and_eq_true_iff.1 hr).1

variable (regionBm cardBm) in
lemma Wf.scrub (h : Wf c t fine []) : ∃ fine', Wf c (t.scrub c regionBm cardBm) fine' [] ∧
      Keeps c regionBm cardBm t fine (t.scrub c regionBm cardBm) fine' := by
  obtain ⟨fine', h', hkeeps⟩ := Wf.foldl_scrubBucket regionBm cardBm (range c.maxFineEntries)
    (h.scrubCoarse regionBm)
  refine ⟨fine', h'.setCache _, fun r card hlt hr hc hrep => hkeeps r card hlt hr hc ?_⟩
  rcases hrep with hcoarse | hprt | hsparse
  · exact .inl (Bool.and_eq_true_iff.2 ⟨hcoarse, hr⟩)
  · exact .inr (.inl hprt)
  · exact .inr (.inr hsparse)

end Scrub

structure Empty (c : RemSetConfig) (t : OtherRegionsTable) : Prop where
  coarse : t.coarseMap = fun _ => false
  nCoarse : t.nCoarseEntries = 0
  buckets : t.fineGrainRegions = fun _ => []
  nFine : t.nFineEntries = 0
  all : t.allFinePrts = []
  start : t.fineEvictionStart < c.maxFineEntries
  sparse : t.sparseTable = .new c.cardsNum

lemma Empty.wf (h : Empty c t) : Wf c t [] [] := by
  have hview : t.sparseTable.view = fun _ => none := by rw [h.sparse, SparsePRT.view_new]
  refine ⟨⟨?_, ?_, ?_, nodup_nil, h.nFine, zero_le _, h.start, nodup_nil, ?_, ?_⟩,
    h.sparse ▸ SparsePRT.wf_new c.cardsNum, ?_, ?_, ?_, ?_, ?_, ?_⟩
  · simp [h.buckets]
  · simp [h.all]
  · simp
  · simp
  · simp
  · simp [hview]
  · simp [h.nCoarse, h.coarse, countOneBits]
  · simp [h.coarse]
  · simp
  · simp [hview]
  · simp

lemma wf_new (c) : Wf c (new c) [] [] := Empty.wf ⟨rfl, rfl, rfl, rfl, rfl, c.maxFineEntries_pos, rfl⟩

lemma Wf.clear (h : Wf c t fine []) : Wf c (t.clear c) [] [] := by
  refine Empty.wf ⟨rfl, rfl, ?_, rfl, rfl, h.fineWf.start, SparsePRT.clear_eq ..⟩
  change (if t.allFinePrts ≠ [] then fun _ => [] else t.fineGrainRegions) = fun _ => []
  by_cases hall : t.allFinePrts = []
  · have hfine : fine = [] := perm_nil.1 (hall ▸ h.fineWf.all.symm)
    rw [if_neg (not_not.2 hall)]
    funext b
    rw [h.fineWf.buckets, hfine, filter_nil]
  · rw [if_pos hall]

lemma Wf.cleanup (h : Wf c t fine []) : Wf c t.cleanup fine [] := { h with fineWf := { h.fineWf with } }

lemma Wf.step (h : Wf c t fine []) {op} (hok : op.Ok c) : ∃ t' fine', t.step c op = some t' ∧ Wf c t' fine' [] := by
  cases op with
  | addReference loc tid =>
    by_cases hhit : fromCard loc = t.fromCardCache tid
    · exact ⟨t, fine, by simp [OtherRegionsTable.step, OtherRegionsTable.addReference, hhit], h⟩
    · obtain ⟨t', fine', hadd, h', -⟩ := h.addReference hok.1 hhit
      exact ⟨t', fine', hadd, h'⟩
  | scrub regionBm cardBm =>
    obtain ⟨fine', h', -⟩ := h.scrub regionBm cardBm
    exact ⟨_, fine', rfl, h'⟩
  | clear => exact ⟨_, [], rfl, h.clear⟩

end OtherRegionsTable

end Rolp.RemSet
