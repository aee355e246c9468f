import Rolp.Heap.AllocRegion
import Rolp.Lib.Pool
import Mathlib.Algebra.BigOperators.Fin
import Mathlib.Tactic.Abel

/-!
# The used bytes are those of all regions

The regions of a heap are a pool: a region is free, held by an allocation region, booked in `_summary_bytes_used`, or it
continues a humongous object.
-/

namespace Rolp.Heap

open Rolp.Lib RegionPtr List

namespace HeapState

variable {n : Nat} {l : Layout} {s s' : HeapState n}

/-! ## The pool of a heap -/

def continuesAt (s : HeapState n) (i : Nat) : Bool := ((s.regions[i]?).map HeapRegion.continuesHumongous).getD false

end HeapState

def Owner.equivOption {n : Nat} : Owner n ≃ Option (Fin n) where
  toFun
    | .mutator => none
    | .gen i => some i
  invFun
    | none => .mutator
    | some i => .gen i
  left_inv := by
    intro o
    cases o <;> rfl
  right_inv := by
    intro o
    cases o <;> rfl

def RegionPtr.held : RegionPtr → Multiset Nat
  | .region i => {i}
  | _ => 0

namespace HeapState

variable {n : Nat} {l : Layout} {s s' : HeapState n}

def pool (s : HeapState n) : Pool (Owner n) Nat where
  free := s.freeList
  held := fun o => (s.allocRegions o).allocRegion.held
  booked := s.booked.map Prod.fst
  hidden := (Multiset.range s.regions.length).filter fun i => s.continuesAt i = true

structure Accounted (s : HeapState n) : Prop where
  all : s.pool.all = Multiset.range s.regions.length
  free_empty : ∀ i ∈ s.freeList, s.usedAt i = 0
  booked_used : ∀ b ∈ s.booked, b.2 = s.usedAt b.1
  summary : s.summaryBytesUsed = (s.booked.map Prod.snd).sum
  before : ∀ o, (s.allocRegions o).usedBytesBefore = 0

lemma Accounted.nodup (h : s.Accounted) : s.pool.all.Nodup := by
  rw [h.all]
  exact Multiset.nodup_range _

/-! ## The sums -/

lemma sum_owner (f : Owner n → Nat) : ∑ o, f o = f .mutator + ((List.finRange n).map fun i => f (.gen i)).sum := by
  rw [← Owner.equivOption.symm.sum_comp, Fintype.sum_option, ← sum_ofFn, ofFn_eq_map]
  rfl

lemma used_eq (s : HeapState n) : s.used = s.summaryBytesUsed + ∑ o, s.usedOf (s.allocRegions o).allocRegion := by
  rw [used, sum_owner, add_assoc]

def weight (s : HeapState n) (i : Nat) : Nat := if s.continuesAt i then 0 else s.usedAt i

lemma recalculateUsed_eq (s : HeapState n) :
    s.recalculateUsed = ((Multiset.range s.regions.length).map s.weight).sum := by
  have hlist : s.regions.map (fun r => if r.continuesHumongous then 0 else r.used) =
      (range s.regions.length).map s.weight := by
    apply ext_getElem
    · simp
    · intro i h1 h2
      have hi : i < s.regions.length := by simpa using h1
      simp [weight, continuesAt, usedAt, hi]
  rw [recalculateUsed, hlist]
  rfl

variable {i : Nat}

lemma mem_hidden : i ∈ s.pool.hidden ↔ i < s.regions.length ∧ s.continuesAt i = true :=
  Multiset.mem_filter.trans (and_congr_left' Multiset.mem_range)

lemma weight_of_not_hidden (hi : i ∉ s.pool.hidden) : s.weight i = s.usedAt i := by
  unfold weight
  split
  next hc =>
    cases hr : s.regions[i]? with
    | none => simp [usedAt, hr]
    | some r =>
      have hlt : i < s.regions.length := (List.getElem?_eq_some_iff.1 hr).1
      exact absurd (mem_hidden.2 ⟨hlt, hc⟩) hi
  · rfl

lemma weight_of_hidden (hi : i ∈ s.pool.hidden) : s.weight i = 0 := if_pos (mem_hidden.1 hi).2

namespace Accounted

section

variable (h : s.Accounted)

include h

lemma sum_booked : (s.pool.booked.map s.weight).sum = s.summaryBytesUsed := by
  have hweight : ∀ b ∈ s.booked, s.weight b.1 = b.2 := by
    intro b hb
    have hmem : b.1 ∈ s.pool.booked := Multiset.mem_coe.2 (mem_map_of_mem hb)
    rw [weight_of_not_hidden (Pool.not_mem_hidden_of_booked h.nodup hmem), h.booked_used b hb]
  rw [h.summary]
  show ((s.booked.map Prod.fst).map s.weight).sum = _
  rw [map_map]
  exact congrArg sum (map_congr_left hweight)

lemma sum_held (o) : ((s.pool.held o).map s.weight).sum = s.usedOf (s.allocRegions o).allocRegion := by
  cases hptr : (s.allocRegions o).allocRegion with
  | null => simp [pool, hptr, held, usedOf]
  | dummy => simp [pool, hptr, held, usedOf]
  | region i =>
    have hmem : i ∈ s.pool.held o := by simp [pool, hptr, held]
    have hnot := (Pool.not_mem_of_held h.nodup hmem).2.2
    simp [pool, hptr, held, usedOf, weight_of_not_hidden hnot]

lemma weight_free (hi : i ∈ s.pool.free) : s.weight i = 0 := by
  rw [weight_of_not_hidden (Pool.not_mem_hidden_of_free h.nodup hi)]
  exact h.free_empty i hi

lemma used_eq_recalculateUsed : s.used = s.recalculateUsed := by
  have hsum := Pool.sum_map_all s.weight (fun _ => h.weight_free) (fun _ => weight_of_hidden)
  rw [used_eq, recalculateUsed_eq, ← h.all, hsum, h.sum_booked, Finset.sum_congr rfl fun o _ => h.sum_held o]

/-! ## Regions change only where they are held -/

lemma lt_of_mem (hi : i ∈ s.pool.all) : i < s.regions.length := by
  rw [h.all] at hi
  exact Multiset.mem_range.1 hi

end

end Accounted

lemma usedAt_modifyRegion_of_ne {j} (f) (hij : j ≠ i) : (s.modifyRegion i f).usedAt j = s.usedAt j := by
  simp [usedAt, modifyRegion, Ne.symm hij]

variable {f : HeapRegion → HeapRegion}

lemma continuesAt_modifyRegion (i j) (hf : ∀ r, (f r).continuesHumongous = r.continuesHumongous) :
    (s.modifyRegion i f).continuesAt j = s.continuesAt j := by
  unfold continuesAt modifyRegion
  rw [getElem?_modify]
  cases s.regions[j]? with
  | none => rfl
  | some r =>
    by_cases hij : i = j
    · simp [hij, hf]
    · simp [hij]

lemma pool_modifyRegion (i)
    (hf : ∀ r, (f r).continuesHumongous = r.continuesHumongous) : (s.modifyRegion i f).pool = s.pool := by
  have hlen : (s.modifyRegion i f).regions.length = s.regions.length := by simp [modifyRegion]
  have hcont : (s.modifyRegion i f).continuesAt = s.continuesAt := funext fun j => continuesAt_modifyRegion i j hf
  unfold pool
  rw [hlen, hcont]
  rfl

variable {o : Owner n}

lemma Accounted.modifyRegion (h : s.Accounted) (hheld : i ∈ s.pool.held o)
    (hf : ∀ r, (f r).continuesHumongous = r.continuesHumongous) : (s.modifyRegion i f).Accounted := by
  obtain ⟨hfree, hbooked, -⟩ := Pool.not_mem_of_held h.nodup hheld
  refine ⟨?_, ?_, ?_, h.summary, h.before⟩
  · rw [pool_modifyRegion i hf, h.all]
    simp [HeapState.modifyRegion]
  · intro j hj
    rw [usedAt_modifyRegion_of_ne]
    · exact h.free_empty j hj
    · rintro rfl
      exact hfree hj
  · intro b hb
    rw [usedAt_modifyRegion_of_ne]
    · exact h.booked_used b hb
    · rintro rfl
      exact hbooked (Multiset.mem_coe.2 (mem_map_of_mem hb))

/-! ## Moves -/

lemma pool_setAllocRegion_of_ne {o'} (a) (h : o' ≠ o) : (s.setAllocRegion o a).pool.held o' = s.pool.held o' := by
  simp [pool, setAllocRegion, h]

lemma before_setAllocRegion (h : ∀ o, (s.allocRegions o).usedBytesBefore = 0) (o) {a}
    (ha : a.usedBytesBefore = 0) (o') : ((s.setAllocRegion o a).allocRegions o').usedBytesBefore = 0 := by
  by_cases ho : o' = o
  · subst ho
    simp [setAllocRegion, ha]
  · simp [setAllocRegion, ho, h o']

lemma Accounted.setAllocRegion (h : s.Accounted) {a}
    (hheld : a.allocRegion.held = s.pool.held o) (ha : a.usedBytesBefore = 0) : (s.setAllocRegion o a).Accounted := by
  refine ⟨?_, h.free_empty, h.booked_used, h.summary, before_setAllocRegion h.before o ha⟩
  rw [← show s.pool.all = Multiset.range (s.setAllocRegion o a).regions.length from h.all]
  refine Pool.all_of_move o (fun o' ho' => pool_setAllocRegion_of_ne a ho') ?_
  have hself : (s.setAllocRegion o a).pool.held o = s.pool.held o := by simp [pool, HeapState.setAllocRegion, hheld]
  rw [hself]
  rfl

lemma pool_setAllocRegion (o a) : (s.setAllocRegion o a).pool.held o = a.allocRegion.held := by
  simp [pool, setAllocRegion]

lemma Accounted.take (h : s.Accounted) {rest} (hfree : s.freeList = i :: rest)
    (hheld : s.pool.held o = 0) : ({ s with freeList := rest }.setAllocRegion o ⟨.region i, 0⟩).Accounted := by
  refine ⟨?_, ?_, h.booked_used, h.summary, before_setAllocRegion h.before o rfl⟩
  · refine Eq.trans ?_ h.all
    refine Pool.all_of_move o (fun o' ho' => pool_setAllocRegion_of_ne _ ho') ?_
    have hcons : s.pool.free = {i} + rest := by
      show (s.freeList : Multiset Nat) = _
      rw [hfree]
      rfl
    rw [pool_setAllocRegion, hheld, hcons]
    show rest + s.pool.booked + s.pool.hidden + {i} = _
    abel
  · intro j hj
    exact h.free_empty j (hfree ▸ mem_cons_of_mem i hj)

lemma Accounted.book (h : s.Accounted) (hptr : (s.allocRegions o).allocRegion = .region i) :
    ((s.addSummaryBytesUsed i (s.usedAt i)).setAllocRegion o ⟨.dummy, 0⟩).Accounted := by
  refine ⟨?_, h.free_empty, ?_, ?_, before_setAllocRegion h.before o rfl⟩
  · refine Eq.trans ?_ h.all
    refine Pool.all_of_move o (fun o' ho' => pool_setAllocRegion_of_ne _ ho') ?_
    have hheld : s.pool.held o = {i} := by simp [pool, hptr, held]
    rw [pool_setAllocRegion, hheld]
    show s.pool.free + ({i} + s.pool.booked) + s.pool.hidden + 0 = _
    abel
  · intro b hb
    rcases mem_cons.1 hb with rfl | hb
    · rfl
    · exact h.booked_used b hb
  · show s.summaryBytesUsed + s.usedAt i = s.usedAt i + (s.booked.map Prod.snd).sum
    rw [h.summary, add_comm]

/-! ## Retiring -/

lemma Accounted.retireRegion (h : s.Accounted) (hptr : (s.allocRegions o).allocRegion = .region i) :
    ((s.retireRegion o i (s.usedAt i - (s.allocRegions o).usedBytesBefore)).setAllocRegion o
      ⟨.dummy, 0⟩).Accounted := by
  rw [h.before o]
  cases o with
  | mutator => exact h.book hptr
  | gen g => exact h.book hptr

lemma continuesHumongous_allocate (r : HeapRegion) (wordSize : Nat) :
    (r.allocate l wordSize).1.continuesHumongous = r.continuesHumongous := by
  unfold HeapRegion.allocate
  split
  · rfl
  · rfl

lemma continuesHumongous_fillUp (r : HeapRegion) :
    (r.fillUpRemainingSpace l).continuesHumongous = r.continuesHumongous := by
  unfold HeapRegion.fillUpRemainingSpace
  split
  · exact continuesHumongous_allocate r _
  · rfl

lemma held_of_region (hptr : (s.allocRegions o).allocRegion = .region i) : i ∈ s.pool.held o := by
  simp [pool, hptr, held]

lemma Accounted.retire (h : s.Accounted) {fillUp} (hret : s.retire l o fillUp = some s') :
    s'.Accounted ∧ s'.pool.held o = 0 := by
  unfold HeapState.retire at hret
  split at hret
  · cases hret
  next hptr =>
    cases hret
    exact ⟨h, by simp [pool, hptr, held]⟩
  next i hptr =>
    cases hret
    refine ⟨?_, pool_setAllocRegion o _⟩
    cases fillUp with
    | true => exact (h.modifyRegion (held_of_region hptr) continuesHumongous_fillUp).retireRegion hptr
    | false => exact h.retireRegion hptr

lemma Accounted.release (h : s.Accounted) (hrel : s.release l o = some s') : s'.Accounted := by
  obtain ⟨s1, hret, hrel⟩ := Option.bind_eq_some_iff.1 hrel
  cases hrel
  obtain ⟨h1, hheld⟩ := h.retire hret
  exact h1.setAllocRegion hheld.symm (h1.before o)

lemma Accounted.init (h : s.Accounted) (hinit : s.init o = some s') : s'.Accounted := by
  unfold HeapState.init at hinit
  split at hinit
  next hnull =>
    cases hinit
    exact h.setAllocRegion (by simp [pool, hnull, held]) rfl
  · cases hinit

/-! ## New regions -/

lemma Accounted.lt_of_free (h : s.Accounted) (hi : i ∈ s.freeList) : i < s.regions.length :=
  h.lt_of_mem (Pool.mem_all.2 (.inl hi))

lemma getD_map_expand {α : Type} (s : HeapState n) (k i : Nat) {f : HeapRegion → α} {d : α}
    (hf : f ⟨0, 0, false⟩ = d) : (((s.expand k).regions[i]?).map f).getD d = ((s.regions[i]?).map f).getD d := by
  unfold expand
  rw [getElem?_append]
  split
  · rfl
  next hi =>
    rw [getElem?_eq_none (Nat.le_of_not_lt hi)]
    by_cases hk : i - s.regions.length < k
    · simp [hk, hf]
    · simp [hk]

lemma usedAt_expand (s : HeapState n) (k i : Nat) : (s.expand k).usedAt i = s.usedAt i := getD_map_expand s k i rfl

lemma continuesAt_expand (s : HeapState n) (k i : Nat) : (s.expand k).continuesAt i = s.continuesAt i :=
  getD_map_expand s k i rfl

lemma range_expand (s : HeapState n) (k : Nat) : Multiset.range (s.expand k).regions.length =
    Multiset.range s.regions.length + (List.range' s.regions.length k : Multiset Nat) := by
  have happend : range (s.regions.length + k) =
      range s.regions.length ++ range' s.regions.length k := by
    rw [range_eq_range', range_eq_range', ← range'_append_1, Nat.zero_add]
  rw [Multiset.range, Multiset.range, Multiset.coe_add, ← happend]
  simp [expand]

lemma lt_of_continuesAt (hc : s.continuesAt i = true) : i < s.regions.length := by
  by_contra hi
  simp [continuesAt, getElem?_eq_none (Nat.le_of_not_lt hi)] at hc

lemma nodup_hidden (s : HeapState n) : s.pool.hidden.Nodup := Multiset.Nodup.filter _ (Multiset.nodup_range _)

lemma hidden_expand (s : HeapState n) (k : Nat) : (s.expand k).pool.hidden = s.pool.hidden := by
  refine (Multiset.Nodup.ext (nodup_hidden _) (nodup_hidden _)).2 fun i => ?_
  rw [mem_hidden, mem_hidden, continuesAt_expand]
  constructor
  · exact fun ⟨_, hc⟩ => ⟨lt_of_continuesAt hc, hc⟩
  · exact fun ⟨_, hc⟩ => ⟨lt_of_continuesAt ((continuesAt_expand s k i).trans hc), hc⟩

lemma Accounted.expand (h : s.Accounted) (k : Nat) : (s.expand k).Accounted := by
  refine ⟨?_, ?_, ?_, h.summary, h.before⟩
  · have hfree : (s.expand k).pool.free = s.pool.free + (range' s.regions.length k) :=
      (Multiset.coe_add _ _).symm
    have hheld : (s.expand k).pool.held = s.pool.held := rfl
    have hbooked : (s.expand k).pool.booked = s.pool.booked := rfl
    rw [range_expand, ← h.all, Pool.all, Pool.all, hidden_expand, hfree, hheld, hbooked]
    abel
  · intro i hi
    rw [usedAt_expand]
    rcases mem_append.1 hi with hi | hi
    · exact h.free_empty i hi
    · have hle := (mem_range'_1.1 hi).1
      simp [usedAt, getElem?_eq_none hle]
  · intro b hb
    rw [usedAt_expand]
    exact h.booked_used b hb

def Removed (s s' : HeapState n) (i : Nat) : Prop :=
  ∃ (s0 : HeapState n) (rest : List Nat), s0.Accounted ∧ s0.allocRegions = s.allocRegions ∧
    s0.freeList = i :: rest ∧ s' = { s0 with freeList := rest }

lemma Accounted.removeHeadOrNull (h : s.Accounted) {region} (hrem : s.removeHeadOrNull = (s', region)) :
    (region = none ∧ s' = s) ∨ ∃ i, region = some i ∧ Removed s s' i := by
  unfold HeapState.removeHeadOrNull at hrem
  split at hrem
  · cases hrem
    exact .inl ⟨rfl, rfl⟩
  next i rest hfree =>
    cases hrem
    exact .inr ⟨i, rfl, s, rest, h, rfl, hfree, rfl⟩

lemma Accounted.newRegion (h : s.Accounted) {k region} (hnew : s.newRegion k = (s', region)) :
    (region = none ∧ s'.Accounted) ∨ ∃ i, region = some i ∧ Removed s s' i := by
  unfold HeapState.newRegion at hnew
  split at hnew
  · rcases (h.expand k).removeHeadOrNull hnew with ⟨hnone, rfl⟩ | hsome
    · exact .inl ⟨hnone, h.expand k⟩
    · exact .inr hsome
  · rcases h.removeHeadOrNull hnew with ⟨hnone, rfl⟩ | hsome
    · exact .inl ⟨hnone, h⟩
    · exact .inr hsome

lemma Removed.accounted (hrem : Removed s s' i) (hheld : s.pool.held o = 0)
    (hf : ∀ r, (f r).continuesHumongous = r.continuesHumongous) :
    ((s'.modifyRegion i f).setAllocRegion o ⟨.region i, 0⟩).Accounted := by
  obtain ⟨s0, rest, h0, halloc, hfree, rfl⟩ := hrem
  have hheld0 : s0.pool.held o = 0 := by
    show (s0.allocRegions o).allocRegion.held = 0
    rw [halloc]
    exact hheld
  exact (h0.take hfree hheld0).modifyRegion (o := o) (held_of_region (by simp [HeapState.setAllocRegion])) hf

lemma Removed.usedAt (hrem : Removed s s' i) : s'.usedAt i = 0 := by
  obtain ⟨s0, rest, h0, -, hfree, rfl⟩ := hrem
  exact h0.free_empty i (hfree ▸ mem_cons_self)

lemma usedAt_modifyRegion_gen (s : HeapState n) (i g : Nat) :
    (s.modifyRegion i ({ · with gen := g })).usedAt i = s.usedAt i := by
  unfold usedAt modifyRegion
  cases hr : s.regions[i]? with
  | none => simp [hr]
  | some r => simp [hr, HeapRegion.used]

lemma modifyRegion_modifyRegion (s : HeapState n) (i : Nat) (f g : HeapRegion → HeapRegion) :
    (s.modifyRegion i f).modifyRegion i g = s.modifyRegion i (g ∘ f) := by
  simp only [modifyRegion, modify_modify_eq]

variable {supply : Supply}

lemma Accounted.newAllocRegionAndAllocate (h : s.Accounted) (hheld : s.pool.held o = 0) {wordSize force}
    (hnew : s.newAllocRegionAndAllocate l o wordSize supply force = some s') : s'.Accounted := by
  obtain ⟨⟨s1, region⟩, halloc, hnew⟩ := Option.bind_eq_some_iff.1 hnew
  cases o with
  | mutator =>
    simp only [allocateNewRegion] at halloc
    split at halloc
    · cases hres : s.newRegion 0 with
      | mk s2 region2 =>
        rw [hres] at halloc
        cases halloc
        rcases h.newRegion hres with ⟨rfl, h1⟩ | ⟨i, rfl, hrem⟩
        · cases hnew
          exact h1
        · cases hnew
          rw [hrem.usedAt]
          exact hrem.accounted hheld fun r => continuesHumongous_allocate r wordSize
    · cases halloc
      cases hnew
      exact h
  | gen g =>
    simp only [allocateNewRegion] at halloc
    split at halloc
    · cases halloc
    rename_i s2 i hres
    cases halloc
    cases hnew
    rcases h.newRegion hres with ⟨hnone, -⟩ | ⟨j, hj, hrem⟩
    · cases hnone
    · cases hj
      rw [usedAt_modifyRegion_gen, hrem.usedAt, modifyRegion_modifyRegion]
      exact hrem.accounted hheld fun r => continuesHumongous_allocate _ wordSize

/-! ## Allocation -/

lemma Accounted.attemptAllocation (h : s.Accounted) {wordSize success}
    (hatt : s.attemptAllocation l o wordSize = some (s', success)) : s'.Accounted := by
  unfold HeapState.attemptAllocation at hatt
  split at hatt
  · cases hatt
  · cases hatt
    exact h
  next i hptr =>
    obtain ⟨r, -, hatt⟩ := Option.bind_eq_some_iff.1 hatt
    cases hatt
    exact h.modifyRegion (held_of_region hptr) fun r => continuesHumongous_allocate r wordSize

lemma Accounted.attemptAllocationLocked (h : s.Accounted) {wordSize}
    (hatt : s.attemptAllocationLocked l o wordSize supply = some s') : s'.Accounted := by
  obtain ⟨⟨s1, success⟩, hfirst, hatt⟩ := Option.bind_eq_some_iff.1 hatt
  have h1 := h.attemptAllocation hfirst
  cases success with
  | true =>
    cases hatt
    exact h1
  | false =>
    obtain ⟨s2, hret, hnew⟩ := Option.bind_eq_some_iff.1 hatt
    obtain ⟨h2, hheld⟩ := h1.retire hret
    exact h2.newAllocRegionAndAllocate hheld hnew

lemma Accounted.attemptAllocationForce (h : s.Accounted) {wordSize}
    (hatt : s.attemptAllocationForce l o wordSize supply = some s') : s'.Accounted := by
  unfold HeapState.attemptAllocationForce at hatt
  split at hatt
  next hdummy => exact h.newAllocRegionAndAllocate (by simp [pool, hdummy, held]) hatt
  · cases hatt

/-! ## Humongous objects -/

section Humongous

variable {first numRegions wordSize : Nat}

lemma usedAt_withSeries (hi : i ∉ List.range' first numRegions) (hpos : 0 < numRegions) :
    (s.withSeries l first numRegions wordSize).usedAt i = s.usedAt i := by
  have hrange : ¬ (first ≤ i ∧ i < first + numRegions) := fun h => hi (mem_range'_1.2 h)
  have hself : initializeRegion l first numRegions wordSize i = id := by
    funext r
    rw [initializeRegion, if_neg (by omega), if_neg (by omega), id]
  simp [usedAt, withSeries, hself]

lemma continuesAt_withSeries (i) : (s.withSeries l first numRegions wordSize).continuesAt i = true ↔
    s.continuesAt i = true ∨ (i < s.regions.length ∧ first < i ∧ i < first + numRegions) := by
  unfold continuesAt withSeries
  rw [getElem?_mapIdx]
  cases hr : s.regions[i]? with
  | none =>
    have hlen := getElem?_eq_none_iff.1 hr
    simp
    omega
  | some r =>
    have hlt : i < s.regions.length := (List.getElem?_eq_some_iff.1 hr).1
    simp only [Option.map_some, initializeRegion]
    split
    · simp
      omega
    · split
      next hin => simp [hlt, hin]
      next hout => simp [hout]

lemma Accounted.free_withSeries (h : s.Accounted) (hseries : ∀ i ∈ List.range' first numRegions, i ∈ s.freeList) :
    s.pool.free =
      (s.withSeries l first numRegions wordSize).pool.free + (List.range' first numRegions : Multiset Nat) := by
  have hnodup : s.pool.free.Nodup := Pool.nodup_free h.nodup
  have hin : s.pool.free.filter (fun i => ¬ i ∉ range' first numRegions) = (range' first numRegions) := by
    refine (Multiset.Nodup.ext (hnodup.filter _) (Multiset.coe_nodup.2 nodup_range')).2 fun i => ?_
    rw [Multiset.mem_filter, not_not]
    exact ⟨And.right, fun hi => ⟨hseries i hi, hi⟩⟩
  have hout : s.pool.free.filter (· ∉ range' first numRegions) =
      (s.withSeries l first numRegions wordSize).pool.free := Multiset.filter_coe _ _
  rw [← hin, ← hout, Multiset.filter_add_not]

lemma Accounted.hidden_withSeries (h : s.Accounted) (hpos : 0 < numRegions)
    (hseries : ∀ i ∈ List.range' first numRegions, i ∈ s.freeList) :
    (s.withSeries l first numRegions wordSize).pool.hidden =
      s.pool.hidden + (List.range' (first + 1) (numRegions - 1) : Multiset Nat) := by
  have htail : ∀ {i}, first < i → i < first + numRegions → i ∈ s.freeList := by
    intro i h1 h2
    exact hseries i (mem_range'_1.2 ⟨by omega, h2⟩)
  have hnodup : (s.pool.hidden + (range' (first + 1) (numRegions - 1) : Multiset Nat)).Nodup := by
    refine Multiset.nodup_add.2 ⟨nodup_hidden s, Multiset.coe_nodup.2 nodup_range', ?_⟩
    rw [Multiset.disjoint_left]
    intro i hhid hi
    have hi' := mem_range'_1.1 (Multiset.mem_coe.1 hi)
    exact Pool.not_mem_hidden_of_free h.nodup (htail (by omega) (by omega)) hhid
  refine (Multiset.Nodup.ext (nodup_hidden _) hnodup).2 fun i => ?_
  have hlen : (s.withSeries l first numRegions wordSize).regions.length = s.regions.length := by simp [withSeries]
  rw [mem_hidden, Multiset.mem_add, mem_hidden, continuesAt_withSeries, hlen, Multiset.mem_coe, mem_range'_1]
  constructor
  · rintro ⟨hlt, hc | ⟨-, h1, h2⟩⟩
    · exact .inl ⟨hlt, hc⟩
    · exact .inr ⟨by omega, by omega⟩
  · rintro (⟨hlt, hc⟩ | ⟨h1, h2⟩)
    · exact ⟨hlt, .inl hc⟩
    · have hlt := h.lt_of_free (htail (i := i) (by omega) (by omega))
      exact ⟨hlt, .inr ⟨hlt, by omega, by omega⟩⟩

lemma Accounted.withSeries (h : s.Accounted) (hpos : 0 < numRegions)
    (hseries : ∀ i ∈ List.range' first numRegions, i ∈ s.freeList) :
    ((s.withSeries l first numRegions wordSize).addSummaryBytesUsed first
      ((s.withSeries l first numRegions wordSize).usedAt first)).Accounted := by
  refine ⟨?_, ?_, ?_, ?_, h.before⟩
  · have hlen : (s.withSeries l first numRegions wordSize).regions.length = s.regions.length := by
      simp [HeapState.withSeries]
    have hcons : (range' first numRegions) =
        {first} + (range' (first + 1) (numRegions - 1) : Multiset Nat) := by
      obtain ⟨k, rfl⟩ := Nat.exists_eq_succ_of_ne_zero (Nat.pos_iff_ne_zero.1 hpos)
      rfl
    refine Eq.trans ?_ (h.all.trans (congrArg _ hlen.symm))
    refine Pool.all_of_move .mutator (fun _ _ => rfl) ?_
    show (s.withSeries l first numRegions wordSize).pool.free + ({first} + s.pool.booked) +
      (s.withSeries l first numRegions wordSize).pool.hidden + s.pool.held .mutator = _
    rw [h.hidden_withSeries hpos hseries, h.free_withSeries hseries, hcons]
    abel
  · intro i hi
    obtain ⟨hi, hnot⟩ := mem_filter.1 hi
    exact (usedAt_withSeries (of_decide_eq_true hnot) hpos).trans (h.free_empty i hi)
  · intro b hb
    rcases mem_cons.1 hb with rfl | hb
    · rfl
    · have hnot : b.1 ∉ range' first numRegions := fun hin =>
        Pool.not_mem_booked_of_free h.nodup (hseries b.1 hin) (Multiset.mem_coe.2 (mem_map_of_mem hb))
      exact (h.booked_used b hb).trans (usedAt_withSeries hnot hpos).symm
  · show s.summaryBytesUsed + _ = _ + (s.booked.map Prod.snd).sum
    rw [h.summary, add_comm]

lemma Accounted.humongousObjAllocate (h : s.Accounted)
    (hhum : s.humongousObjAllocate l first numRegions wordSize = some s') : s'.Accounted := by
  unfold HeapState.humongousObjAllocate at hhum
  split at hhum
  next hcond =>
    cases hhum
    exact h.withSeries hcond.1 hcond.2.2.2
  · cases hhum

end Humongous

/-! ## Runs -/

structure Initial (s : HeapState n) : Prop where
  freeList : s.freeList.Perm (List.range s.regions.length)
  regions : ∀ r ∈ s.regions, r.top = 0 ∧ r.continuesHumongous = false
  summary : s.summaryBytesUsed = 0
  booked : s.booked = []
  allocRegions : ∀ o, s.allocRegions o = ⟨.null, 0⟩ ∨ s.allocRegions o = ⟨.dummy, 0⟩

/-- The region is in use, no allocation region has it, and it does not continue another one. -/
structure Retired (s : HeapState n) (i : Nat) : Prop where
  lt : i < s.regions.length
  not_free : i ∉ s.freeList
  not_active : ∀ o, (s.allocRegions o).allocRegion ≠ .region i
  not_continues : s.continuesAt i = false

lemma Initial.usedAt (h : s.Initial) (i) : s.usedAt i = 0 := by
  unfold HeapState.usedAt
  cases hr : s.regions[i]? with
  | none => rfl
  | some r => simp [HeapRegion.used, (h.regions r (mem_of_getElem? hr)).1]

lemma Initial.continuesAt (h : s.Initial) (i) : s.continuesAt i = false := by
  unfold HeapState.continuesAt
  cases hr : s.regions[i]? with
  | none => rfl
  | some r => exact (h.regions r (mem_of_getElem? hr)).2

lemma Initial.accounted (h : s.Initial) : s.Accounted where
  all := by
    have hheld : ∑ o, s.pool.held o = 0 := by
      refine Finset.sum_eq_zero fun o _ => ?_
      rcases h.allocRegions o with ho | ho
      · simp [pool, ho, held]
      · simp [pool, ho, held]
    have hhidden : s.pool.hidden = 0 := by
      refine Multiset.eq_zero_of_forall_notMem fun i hi => ?_
      have hc := (mem_hidden.1 hi).2
      rw [h.continuesAt i] at hc
      cases hc
    have hbooked : s.pool.booked = 0 := by simp [pool, h.booked]
    rw [Pool.all_eq, hheld, hhidden, hbooked, add_zero, add_zero, add_zero]
    exact Multiset.coe_eq_coe.2 h.freeList
  free_empty := fun i _ => h.usedAt i
  booked_used := by
    intro b hb
    rw [h.booked] at hb
    cases hb
  summary := by rw [h.summary, h.booked, map_nil, sum_nil]
  before := by
    intro o
    rcases h.allocRegions o with ho | ho
    · rw [ho]
    · rw [ho]

lemma Accounted.step (h : s.Accounted) {op} (hstep : s.step l op = some s') : s'.Accounted := by
  cases op with
  | init o => exact h.init hstep
  | attemptAllocation o wordSize =>
    obtain ⟨⟨s1, success⟩, hatt, rfl⟩ := Option.map_eq_some_iff.1 hstep
    exact h.attemptAllocation hatt
  | attemptAllocationLocked o wordSize supply => exact h.attemptAllocationLocked hstep
  | attemptAllocationForce o wordSize supply => exact h.attemptAllocationForce hstep
  | retire o fillUp => exact (h.retire hstep).1
  | release o => exact h.release hstep
  | humongous first numRegions wordSize => exact h.humongousObjAllocate hstep

lemma accounted_of_run {s0} (hinit : s0.Initial) {ops} (hrun : run (HeapState.step l) s0 ops = some s) : s.Accounted :=
  run_invariant Accounted (fun _ => True) (fun _ _ _ h _ hstep => h.step hstep) hinit.accounted (fun _ _ => trivial)
    hrun

lemma Accounted.booked_iff (h : s.Accounted) (i) : i ∈ s.booked.map Prod.fst ↔ s.Retired i := by
  constructor
  · intro hi
    have hbooked : i ∈ s.pool.booked := Multiset.mem_coe.2 hi
    have hlt := h.lt_of_mem (Pool.mem_all.2 (.inr (.inr (.inl hbooked))))
    refine ⟨hlt, fun hfree => Pool.not_mem_booked_of_free h.nodup hfree hbooked, ?_, ?_⟩
    · intro o hptr
      exact (Pool.not_mem_of_held h.nodup (held_of_region hptr)).2.1 hbooked
    · rw [← Bool.not_eq_true]
      exact fun hc => Pool.not_mem_hidden_of_booked h.nodup hbooked (mem_hidden.2 ⟨hlt, hc⟩)
  intro hret
  have hall : i ∈ s.pool.all := by
    rw [h.all]
    exact Multiset.mem_range.2 hret.lt
  rcases Pool.mem_all.1 hall with hfree | ⟨o, hheld⟩ | hbooked | hhidden
  · exact absurd hfree hret.not_free
  · cases hptr : (s.allocRegions o).allocRegion with
    | null => simp [pool, hptr, held] at hheld
    | dummy => simp [pool, hptr, held] at hheld
    | region j =>
      have hij : i = j := by simpa [pool, hptr, held] using hheld
      exact absurd (hij ▸ hptr) (hret.not_active o)
  · exact Multiset.mem_coe.1 hbooked
  · have hc := (mem_hidden.1 hhidden).2
    rw [hret.not_continues] at hc
    cases hc

/-- In every run `used` is the sum over all regions that do not continue another one. A region is booked once if it is
retired and not otherwise, with its used bytes. -/
theorem used_eq_sum_of_regions (l : Layout) {s0 : HeapState n} (hinit : s0.Initial) (ops : List (RegionOp n))
    (hrun : run (HeapState.step l) s0 ops = some s) : s.used = s.recalculateUsed ∧
      (∀ i, s.Retired i → (s.booked.map Prod.fst).count i = 1) ∧
      (∀ i, ¬ s.Retired i → (s.booked.map Prod.fst).count i = 0) ∧
      (∀ b ∈ s.booked, b.2 = s.usedAt b.1) ∧ s.summaryBytesUsed = (s.booked.map Prod.snd).sum := by
  have h := accounted_of_run hinit hrun
  have hnodup : (s.booked.map Prod.fst).Nodup := Multiset.coe_nodup.1 (Pool.nodup_booked h.nodup)
  refine ⟨h.used_eq_recalculateUsed, ?_, ?_, h.booked_used, h.summary⟩
  · intro i hret
    exact count_eq_one_of_mem hnodup ((h.booked_iff i).2 hret)
  · intro i hret
    exact count_eq_zero_of_not_mem fun hi => hret ((h.booked_iff i).1 hi)

def fourRegions : HeapState 1 :=
  ⟨List.replicate 4 ⟨0, 0, false⟩, [0, 3, 1, 2], 0, fun _ => ⟨.null, 0⟩, []⟩

lemma fourRegions_initial : fourRegions.Initial := ⟨by decide, by decide, rfl, rfl, fun _ => .inl rfl⟩

def retirements : List (RegionOp 1) :=
  [.init .mutator, .init (.gen (.last 0)), .attemptAllocationLocked .mutator 5 ⟨false, 0⟩,
    .attemptAllocationLocked (.gen (.last 0)) 7 ⟨false, 0⟩, .humongous 1 2 20, .retire .mutator true,
    .release (.gen (.last 0))]

theorem used_eq_sum_of_regions_fourRegions : ∃ s, run (HeapState.step ⟨16, 2⟩) fourRegions retirements = some s ∧
      s.used = s.recalculateUsed ∧ s.used = 416 := by
  have hused : (run (HeapState.step ⟨16, 2⟩) fourRegions retirements).map HeapState.used = some 416 := by decide
  obtain ⟨s, hrun, hs⟩ := Option.map_eq_some_iff.1 hused
  exact ⟨s, hrun, (used_eq_sum_of_regions ⟨16, 2⟩ fourRegions_initial _ hrun).1, hs⟩

/-- No two allocation regions have the same region, and none has a free one or one that continues a humongous object. -/
theorem regions_have_one_owner (l : Layout) {s0 : HeapState n} (hinit : s0.Initial) (ops : List (RegionOp n))
    (hrun : run (HeapState.step l) s0 ops = some s) :
    s.freeList.Nodup ∧ (∀ i ∈ s.freeList, i < s.regions.length ∧ s.usedAt i = 0 ∧ s.continuesAt i = false) ∧
      ∀ o i, (s.allocRegions o).allocRegion = .region i → i < s.regions.length ∧ i ∉ s.freeList ∧
        s.continuesAt i = false ∧ ∀ o', (s.allocRegions o').allocRegion = .region i → o' = o := by
  have h := accounted_of_run hinit hrun
  have hvisible {i} (hlt : i < s.regions.length) (hi : i ∉ s.pool.hidden) : s.continuesAt i = false :=
    eq_false_of_ne_true fun hc => hi (mem_hidden.2 ⟨hlt, hc⟩)
  refine ⟨Multiset.coe_nodup.1 (Pool.nodup_free h.nodup), fun i hi => ?_, fun o i ho => ?_⟩
  · have hlt := h.lt_of_mem (Pool.mem_all.2 (.inl hi))
    exact ⟨hlt, h.free_empty i hi, hvisible hlt (Pool.not_mem_hidden_of_free h.nodup hi)⟩
  · have hheld := held_of_region ho
    obtain ⟨hfree, -, hhidden⟩ := Pool.not_mem_of_held h.nodup hheld
    have hlt := h.lt_of_mem (Pool.mem_all.2 (.inr (.inl ⟨o, hheld⟩)))
    exact ⟨hlt, hfree, hvisible hlt hhidden, fun o' ho' => Pool.held_unique h.nodup hheld (held_of_region ho')⟩

theorem regions_have_one_owner_fourRegions : ((run (HeapState.step ⟨16, 2⟩) fourRegions
    [.init .mutator, .attemptAllocationLocked .mutator 5 ⟨false, 0⟩, .humongous 1 2 20]).get rfl).freeList.Nodup :=
  (regions_have_one_owner _ fourRegions_initial _ (Option.some_get _).symm).1

end HeapState

end Rolp.Heap
