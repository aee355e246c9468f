import Rolp.CSet.Chooser
import Rolp.Lib.Pool
import Mathlib.Algebra.BigOperators.Fin
import Mathlib.Algebra.Module.NatInt
import Mathlib.Algebra.Order.BigOperators.Group.Finset

/-!
# What a chooser holds

The slots before `_curr_index` are `NULL`; then come the remaining regions, by descending efficiency.
-/

namespace Rolp.CSet

open List Nat Worker CollectionSetChooser

section

variable {E : Type}

def reclaimable (rs : List (HeapRegion E)) : Nat := (rs.map HeapRegion.reclaimableBytes).sum

@[simp] lemma reclaimable_nil : reclaimable ([] : List (HeapRegion E)) = 0 := rfl

@[simp] lemma reclaimable_cons (hr : HeapRegion E) (rs) :
    reclaimable (hr :: rs) = hr.reclaimableBytes + reclaimable rs := sum_cons

lemma reclaimable_perm {rs rs' : List (HeapRegion E)} (h : rs.Perm rs') : reclaimable rs = reclaimable rs' :=
  (h.map _).sum_eq

end

variable {E : Type} [LinearOrder E]

lemma orderRegions_some_eq_one_iff {hr1 hr2 : HeapRegion E} :
    orderRegions (some hr1) (some hr2) = 1 ↔ hr1.gcEfficiency < hr2.gcEfficiency := by
  rw [orderRegions]
  by_cases hgt : hr1.gcEfficiency > hr2.gcEfficiency
  · simp [hgt, hgt.le]
  · by_cases hlt : hr1.gcEfficiency < hr2.gcEfficiency <;> simp [hgt]

def Descending (rs : List (HeapRegion E)) : Prop := rs.Pairwise fun hr1 hr2 => hr2.gcEfficiency ≤ hr1.gcEfficiency

namespace CollectionSetChooser

variable {c : CollectionSetChooser E} {rs : List (HeapRegion E)} {hr : HeapRegion E}

structure Holds (c : CollectionSetChooser E) (rs : List (HeapRegion E)) : Prop where
  slots : ∃ rest, c.regions = replicate c.currIndex none ++ (rs.map some ++ rest)
  length : c.length = c.currIndex + rs.length
  bytes : c.remainingReclaimableBytes = reclaimable rs
  ordered : Descending rs
  old : ∀ hr ∈ rs, hr.isYoung = false ∧ hr.isHumongous = false

lemma Holds.peek (h : Holds c rs) : c.peek = rs.head? := by
  obtain ⟨rest, hslots⟩ := h.slots
  rw [CollectionSetChooser.peek, h.length]
  cases rs with
  | nil => simp
  | cons hr rs => simp [hslots]

lemma Holds.removeAndMoveToNext (h : Holds c (hr :: rs)) : Holds (c.removeAndMoveToNext hr) rs := by
  obtain ⟨rest, hslots⟩ := h.slots
  refine ⟨⟨rest, ?_⟩, ?_, ?_, h.ordered.of_cons, fun hr' hmem => h.old hr' (mem_cons_of_mem hr hmem)⟩
  · simp [CollectionSetChooser.removeAndMoveToNext, hslots, replicate_succ']
  · have hlength := h.length
    rw [length_cons] at hlength
    rw [CollectionSetChooser.removeAndMoveToNext]
    dsimp only
    omega
  · rw [CollectionSetChooser.removeAndMoveToNext]
    rw [h.bytes, reclaimable_cons, Nat.add_sub_cancel_left]

/-! ## Verification -/

def MayFollow (prev : Option (HeapRegion E)) (curr : HeapRegion E) : Prop :=
  ∀ hr ∈ prev, curr.gcEfficiency ≤ hr.gcEfficiency

variable {prev : Option (HeapRegion E)}

lemma mayFollow_iff {curr : HeapRegion E} :
    MayFollow prev curr ↔ ¬(prev ≠ none ∧ orderRegions prev (some curr) = 1) := by
  cases prev <;> simp [MayFollow, orderRegions_some_eq_one_iff]

lemma verifyLoop_map {sum} (hprev : ∀ hr ∈ rs, MayFollow prev hr)
    (hordered : Descending rs) (hold : ∀ hr ∈ rs, hr.isYoung = false ∧ hr.isHumongous = false) :
    verifyLoop (rs.map some) prev sum = some (sum + reclaimable rs) := by
  induction rs generalizing prev sum with
  | nil => rfl
  | cons hr rs ih =>
    obtain ⟨hhead, htail⟩ := pairwise_cons.1 hordered
    obtain ⟨hyoung, hhumongous⟩ := hold hr mem_cons_self
    have hok := mayFollow_iff.1 (hprev hr mem_cons_self)
    rw [map_cons, verifyLoop, if_neg (by simpa [hyoung, hhumongous] using hok), ih, reclaimable_cons, add_assoc]
    · intro hr' hmem prev hprev'
      cases hprev'
      exact hhead hr' hmem
    · exact htail
    · exact fun hr' hmem => hold hr' (mem_cons_of_mem hr hmem)

variable {l : List (Option (HeapRegion E))}

lemma of_verifyLoop {sum total} (h : verifyLoop l prev sum = some total) :
    ∃ rs, l = rs.map some ∧ total = sum + reclaimable rs ∧ (∀ hr ∈ rs, MayFollow prev hr) ∧ Descending rs ∧
      ∀ hr ∈ rs, hr.isYoung = false ∧ hr.isHumongous = false := by
  induction l generalizing prev sum with
  | nil =>
    cases h
    exact ⟨[], rfl, rfl, by simp, .nil, by simp⟩
  | cons slot l ih =>
    cases slot with
    | none => cases h
    | some curr =>
      rw [verifyLoop] at h
      split at h
      · cases h
      rename_i hok
      obtain ⟨hyoung, hhumongous, hprev⟩ : curr.isYoung = false ∧ curr.isHumongous = false ∧
          MayFollow prev curr := by
        rw [mayFollow_iff]
        simpa using hok
      obtain ⟨rs, rfl, rfl, hfollow, hordered, hold⟩ := ih h
      have hle : ∀ hr ∈ rs, hr.gcEfficiency ≤ curr.gcEfficiency := fun hr hmem => hfollow hr hmem curr rfl
      refine ⟨curr :: rs, rfl, by rw [reclaimable_cons, add_assoc], ?_, ?_, ?_⟩
      · refine forall_mem_cons.2 ⟨hprev, fun hr hmem hr' hprev' => ?_⟩
        exact (hle hr hmem).trans (hprev hr' hprev')
      · exact pairwise_cons.2 ⟨hle, hordered⟩
      · exact forall_mem_cons.2 ⟨⟨hyoung, hhumongous⟩, hold⟩

lemma Holds.candidates (h : Holds c rs) : c.candidates = rs.map some := by
  obtain ⟨rest, hslots⟩ := h.slots
  rw [CollectionSetChooser.candidates, hslots, h.length]
  simp [take_append]

lemma verify_iff_holds : c.verify = true ↔ ∃ rs, Holds c rs := by
  constructor
  · intro h
    obtain ⟨hlength, hcurr, hnull, hloop⟩ := of_decide_eq_true h
    obtain ⟨rs, hcandidates, htotal, -, hordered, hold⟩ := of_verifyLoop hloop
    have hnulls : c.regions.take c.currIndex = replicate c.currIndex none := by
      refine eq_replicate_iff.2 ⟨by rw [length_take]; omega, fun slot hslot => ?_⟩
      exact Option.isNone_iff_eq_none.1 (hnull slot hslot)
    have hcount : c.length - c.currIndex = rs.length := by
      rw [← length_map some, ← hcandidates, candidates, length_drop, length_take]
      omega
    refine ⟨rs, ⟨c.regions.drop c.length, ?_⟩, by omega, by rw [htotal, zero_add], hordered, hold⟩
    calc c.regions
        = c.regions.take c.length ++ c.regions.drop c.length := (take_append_drop _ _).symm
      _ = (c.regions.take c.length).take c.currIndex ++ c.candidates ++ c.regions.drop c.length := by
          rw [candidates, take_append_drop c.currIndex]
      _ = replicate c.currIndex none ++ (rs.map some ++ c.regions.drop c.length) := by
          rw [take_take, min_eq_left hcurr, hnulls, hcandidates, append_assoc]
  · rintro ⟨rs, h⟩
    obtain ⟨rest, hslots⟩ := h.slots
    have hlength := h.length
    refine decide_eq_true ⟨?_, by omega, ?_, ?_⟩
    · simp [hslots, hlength]
    · simp [hslots]
    · rw [h.candidates, verifyLoop_map (by simp [MayFollow]) h.ordered h.old, h.bytes, zero_add]

/-! ## Sorting -/

lemma eq_append_of_ordered (h : l.Pairwise fun hr1 hr2 => orderRegions hr1 hr2 ≠ 1) :
    ∃ k, l = (l.filterMap id).map some ++ replicate k none := by
  induction l with
  | nil => exact ⟨0, rfl⟩
  | cons slot l ih =>
    obtain ⟨hhead, htail⟩ := pairwise_cons.1 h
    cases slot with
    | none =>
      have hnone : ∀ slot ∈ l, slot = none := by
        intro slot hmem
        cases slot with
        | none => rfl
        | some hr => exact absurd rfl (hhead _ hmem)
      refine ⟨l.length + 1, ?_⟩
      rw [eq_replicate_of_mem hnone]
      simp [replicate_succ]
    | some hr =>
      obtain ⟨k, hk⟩ := ih htail
      exact ⟨k, by simpa using hk⟩

lemma descending_of_ordered (h : l.Pairwise fun hr1 hr2 => orderRegions hr1 hr2 ≠ 1) : Descending (l.filterMap id) := by
  rw [Descending, pairwise_filterMap]
  refine h.imp fun {slot slot'} hne hr1 hr1' hr2 hr2' => ?_
  cases hr1'
  cases hr2'
  exact not_lt.1 (mt orderRegions_some_eq_one_iff.2 hne)

structure Filled (c : CollectionSetChooser E) (rs : List (HeapRegion E)) : Prop where
  currIndex : c.currIndex = 0
  slots : (c.trimmed.filterMap id).Perm rs
  length : c.length = rs.length
  bytes : c.remainingReclaimableBytes = reclaimable rs

lemma Filled.holds_of_sortRegions {c' : CollectionSetChooser E} (h : Filled c rs) (hsort : SortRegions c c')
    (hold : ∀ hr ∈ rs, hr.isYoung = false ∧ hr.isHumongous = false) : ∃ rs', Holds c' rs' ∧ rs'.Perm rs := by
  have hperm : (c'.regions.filterMap id).Perm rs := (hsort.perm.filterMap id).trans h.slots
  obtain ⟨k, hk⟩ := eq_append_of_ordered hsort.ordered
  have hcurr : c'.currIndex = 0 := by rw [hsort.rest, h.currIndex]
  refine ⟨_, ⟨⟨replicate k none, ?_⟩, ?_, ?_, descending_of_ordered hsort.ordered, ?_⟩, hperm⟩
  · rw [hcurr]
    exact hk
  · rw [hcurr, hperm.length_eq, zero_add, ← h.length, hsort.rest]
  · rw [reclaimable_perm hperm, ← h.bytes, hsort.rest]
  · exact fun hr hmem => hold hr (hperm.mem_iff.1 hmem)

end CollectionSetChooser

/-! ## Filling the chooser -/

open Rolp.Lib CollectionSetChooser Function

variable {E : Type}

def placed (slots : List (Option (HeapRegion E))) : List (HeapRegion E) := slots.filterMap id

lemma placed_set {slots k} (h : slots[k]? = some none) (hr : HeapRegion E) :
    (placed (slots.set k (some hr))).Perm (hr :: placed slots) := by
  obtain ⟨hlt, hk⟩ := List.getElem?_eq_some_iff.1 h
  have hslots : slots = slots.take k ++ none :: slots.drop (k + 1) := by rw [← hk, getElem_cons_drop, take_append_drop]
  rw [placed, placed, set_eq_take_append_cons_drop, if_pos hlt]
  nth_rewrite 3 [hslots]
  simp

lemma placed_take {slots : List (Option (HeapRegion E))} {m : Nat}
    (h : ∀ k, m ≤ k → k < slots.length → slots[k]? = some none) : placed (slots.take m) = placed slots := by
  have hdrop : placed (slots.drop m) = [] := by
    refine filterMap_eq_nil_iff.2 fun slot hslot => ?_
    obtain ⟨k, hk⟩ := mem_iff_getElem?.1 hslot
    rw [getElem?_drop] at hk
    have hlt := (List.getElem?_eq_some_iff.1 hk).1
    exact Option.some.inj (hk.symm.trans (h (m + k) (le_add_right m k) hlt))
  have happend := congrArg placed (take_append_drop m slots)
  rw [placed, filterMap_append] at happend
  rw [← happend]
  exact ((congrArg (placed (slots.take m) ++ ·) hdrop).trans (append_nil _)).symm

lemma placed_replicate (k) : placed (replicate k (none : Option (HeapRegion E))) = [] := by simp [placed]

namespace CollectionSetChooser

variable {c c' : CollectionSetChooser E}

lemma isCandidate_congr (h : c'.regionLiveThresholdBytes = c.regionLiveThresholdBytes) :
    c'.isCandidate = c.isCandidate := by
  funext hr
  rw [isCandidate, isCandidate, shouldAdd, shouldAdd, h]

lemma not_isHumongous_of_isCandidate {hr} (h : c.isCandidate hr = true) : hr.isHumongous = false := by
  simp only [isCandidate, shouldAdd, Bool.and_eq_true, Bool.not_eq_true'] at h
  exact h.2.1.1

lemma foldl_addRegion {rs} (hslots : c.regions = rs.map some) (hlength : c.length = rs.length)
    (hbytes : c.remainingReclaimableBytes = reclaimable rs) (hrs : List (HeapRegion E)) :
    ∃ c', hrs.foldl (fun c hr => if c.isCandidate hr then c.addRegion hr else c) c = c' ∧
      c'.currIndex = c.currIndex ∧ c'.firstParUnreservedIdx = c.firstParUnreservedIdx ∧
      c'.regions = (rs ++ hrs.filter c.isCandidate).map some ∧ c'.length = (rs ++ hrs.filter c.isCandidate).length ∧
      c'.remainingReclaimableBytes = reclaimable (rs ++ hrs.filter c.isCandidate) := by
  induction hrs generalizing c rs with
  | nil => exact ⟨c, rfl, rfl, rfl, by simpa using hslots, by simpa using hlength, by simpa using hbytes⟩
  | cons hr hrs ih =>
    rw [foldl_cons]
    by_cases hcand : c.isCandidate hr = true
    · rw [if_pos hcand, filter_cons_of_pos hcand, append_cons]
      refine ih ?_ ?_ ?_
      · simp [addRegion, hslots]
      · simp [addRegion, hlength]
      · simp [addRegion, hbytes, reclaimable]
    · rw [if_neg hcand, filter_cons_of_neg hcand]
      exact ih hslots hlength hbytes

end CollectionSetChooser

/-! ## Workers -/

namespace Worker

variable (w : Worker E)

def Owns (k : Nat) : Prop := w.updater.curChunkIdx ≤ k ∧ k < w.updater.curChunkEnd

def reserved : Nat := w.updater.curChunkEnd - w.updater.curChunkIdx

def pendingRegions : Nat := if w.done then 0 else w.updater.regionsAdded

def pendingBytes : Nat := if w.done then 0 else w.updater.reclaimableBytesAdded

structure Ok (slots : List (Option (HeapRegion E))) (unreserved chunk : Nat) (w : Worker E) : Prop where
  chunkSize : w.updater.chunkSize = chunk
  idx_le : w.updater.curChunkIdx ≤ w.updater.curChunkEnd
  reserved_le : w.reserved ≤ chunk
  end_le : w.updater.curChunkEnd ≤ unreserved
  free : ∀ k, w.Owns k → slots[k]? = some none
  todo : w.done = true → w.todo = []
  bytes : w.updater.regionsAdded = 0 → w.updater.reclaimableBytesAdded = 0

lemma step_of_nil {w : Worker E} {c : CollectionSetChooser E} (h : w.todo = []) :
    w.step c = if w.done then some (c, w) else some (w.updater.destroy c, { w with done := true }) := by
  rw [step, h]

lemma step_of_cons {w : Worker E} {c : CollectionSetChooser E} {hr : HeapRegion E} {todo : List (HeapRegion E)}
    (h : w.todo = hr :: todo) : w.step c = if c.isCandidate hr then
        if w.updater.curChunkIdx = w.updater.curChunkEnd then
          some ((w.updater.claimChunk c).1, { w with updater := (w.updater.claimChunk c).2 })
        else (w.updater.putRegion c hr).map fun (c, updater) => (c, { w with updater, todo })
      else some (c, { w with todo }) := by
  rw [step, h]

end Worker

namespace ParFill

variable {n : Nat} {s : ParFill E n} {c : CollectionSetChooser E} {chunk : Nat} {all : Multiset (HeapRegion E)}
  {i : Fin n} {w : Worker E} {hr : HeapRegion E} {todo : List (HeapRegion E)}

def Apart (ws : Fin n → Worker E) : Prop := ∀ i j, i ≠ j → ∀ k, (ws i).Owns k → ¬(ws j).Owns k

lemma Apart.update {ws} (h : Apart ws) (hw : ∀ j ≠ i, ∀ k, w.Owns k → ¬(ws j).Owns k) :
    Apart (Function.update ws i w) := by
  intro j j' hne k
  by_cases hj : j = i
  · subst hj
    rw [update_self, update_of_ne hne.symm]
    exact hw j' hne.symm k
  · rw [update_of_ne hj]
    by_cases hj' : j' = i
    · subst hj'
      rw [update_self]
      exact fun howns howns' => hw j hj k howns' howns
    · rw [update_of_ne hj']
      exact h j j' hne k

structure Inv (c : CollectionSetChooser E) (chunk : Nat) (all : Multiset (HeapRegion E)) (s : ParFill E n) : Prop where
  threshold : s.chooser.regionLiveThresholdBytes = c.regionLiveThresholdBytes
  currIndex : s.chooser.currIndex = 0
  room : all.card + n * chunk ≤ s.chooser.regions.length
  candidates : (placed s.chooser.regions : Multiset (HeapRegion E)) +
    ∑ i, ((s.workers i).todo.filter c.isCandidate : Multiset (HeapRegion E)) = all
  reserved : s.chooser.firstParUnreservedIdx = (placed s.chooser.regions).length + ∑ i, (s.workers i).reserved
  length : s.chooser.length + ∑ i, (s.workers i).pendingRegions = (placed s.chooser.regions).length
  bytes : s.chooser.remainingReclaimableBytes + ∑ i, (s.workers i).pendingBytes = reclaimable (placed s.chooser.regions)
  workers : ∀ i, (s.workers i).Ok s.chooser.regions s.chooser.firstParUnreservedIdx chunk
  apart : Apart s.workers
  above : ∀ k, s.chooser.firstParUnreservedIdx ≤ k → k < s.chooser.regions.length → s.chooser.regions[k]? = some none

section

variable (h : Inv c chunk all s)

include h

lemma Inv.update {chooser} (hthreshold : chooser.regionLiveThresholdBytes = s.chooser.regionLiveThresholdBytes)
    (hcurr : chooser.currIndex = s.chooser.currIndex) (hsize : chooser.regions.length = s.chooser.regions.length)
    (hcandidates : (placed chooser.regions : Multiset (HeapRegion E)) + (w.todo.filter c.isCandidate) =
      placed s.chooser.regions + ((s.workers i).todo.filter c.isCandidate))
    (hreserved : chooser.firstParUnreservedIdx + (placed s.chooser.regions).length + (s.workers i).reserved =
      s.chooser.firstParUnreservedIdx + (placed chooser.regions).length + w.reserved)
    (hlength : chooser.length + w.pendingRegions + (placed s.chooser.regions).length =
      s.chooser.length + (s.workers i).pendingRegions + (placed chooser.regions).length)
    (hbytes : chooser.remainingReclaimableBytes + w.pendingBytes + reclaimable (placed s.chooser.regions) =
      s.chooser.remainingReclaimableBytes + (s.workers i).pendingBytes + reclaimable (placed chooser.regions))
    (hworker : w.Ok chooser.regions chooser.firstParUnreservedIdx chunk)
    (hothers : ∀ j ≠ i, (s.workers j).Ok chooser.regions chooser.firstParUnreservedIdx chunk)
    (hapart : ∀ j ≠ i, ∀ k, w.Owns k → ¬(s.workers j).Owns k)
    (habove : ∀ k, chooser.firstParUnreservedIdx ≤ k → k < chooser.regions.length → chooser.regions[k]? = some none) :
    Inv c chunk all ⟨chooser, Function.update s.workers i w⟩ where
  threshold := hthreshold.trans h.threshold
  currIndex := hcurr.trans h.currIndex
  room := by
    rw [hsize]
    exact h.room
  candidates := by
    have hsum := sum_update_exchange s.workers i w
      fun w => ((w.todo.filter c.isCandidate : List (HeapRegion E)) : Multiset (HeapRegion E))
    refine add_right_cancel (b := ((s.workers i).todo.filter c.isCandidate : Multiset (HeapRegion E))) ?_
    rw [add_assoc, hsum, ← h.candidates, add_right_comm, ← hcandidates]
    rw [add_assoc, add_comm (∑ j, _) _]
  reserved := by
    have hsum := sum_update_exchange s.workers i w Worker.reserved
    have hold := h.reserved
    dsimp only
    omega
  length := by
    have hsum := sum_update_exchange s.workers i w pendingRegions
    have hold := h.length
    dsimp only
    omega
  bytes := by
    have hsum := sum_update_exchange s.workers i w pendingBytes
    have hold := h.bytes
    dsimp only
    omega
  workers := by
    intro j
    by_cases hj : j = i
    · subst hj
      dsimp only
      rw [update_self]
      exact hworker
    · dsimp only
      rw [update_of_ne hj]
      exact hothers j hj
  apart := h.apart.update hapart
  above := habove

lemma Inv.room_for_chunk (hreserved : (s.workers i).reserved = 0) :
    s.chooser.firstParUnreservedIdx + chunk ≤ s.chooser.regions.length := by
  have hsum : ∑ j, (s.workers j).reserved + chunk ≤ n * chunk := by
    have hle : ∑ j ∈ Finset.univ.erase i, (s.workers j).reserved ≤ (Finset.univ.erase i).card • chunk :=
      Finset.sum_le_card_nsmul _ _ _ fun j _ => (h.workers j).reserved_le
    rw [Finset.card_erase_of_mem (Finset.mem_univ i), Finset.card_univ, Fintype.card_fin, smul_eq_mul] at hle
    have hmul : (n - 1) * chunk + chunk = n * chunk := by rw [← succ_mul, succ_eq_add_one, Nat.sub_add_cancel i.pos]
    rw [← Finset.add_sum_erase _ _ (Finset.mem_univ i)]
    omega
  have hplaced : (placed s.chooser.regions).length ≤ all.card := by
    rw [← h.candidates, Multiset.card_add]
    exact le_add_right _ _
  have hroom := h.room
  have hidx := h.reserved
  omega

lemma Inv.skip (htodo : (s.workers i).todo = hr :: todo) (hcand : ¬c.isCandidate hr = true) :
    Inv c chunk all ⟨s.chooser, Function.update s.workers i { s.workers i with todo }⟩ := by
  have hw := h.workers i
  refine h.update rfl rfl rfl ?_ rfl rfl rfl ?_ (fun j _ => h.workers j) ?_ h.above
  · rw [htodo, filter_cons_of_neg hcand]
  · refine { hw with todo := fun hdone => ?_ }
    cases htodo.symm.trans (hw.todo hdone)
  · exact fun j hj k howns => h.apart i j hj.symm k howns

lemma Inv.claim (hidx : (s.workers i).updater.curChunkIdx = (s.workers i).updater.curChunkEnd) :
    Inv c chunk all ⟨((s.workers i).updater.claimChunk s.chooser).1, Function.update s.workers i
      { s.workers i with updater := ((s.workers i).updater.claimChunk s.chooser).2 }⟩ := by
  have hw := h.workers i
  have hzero : (s.workers i).reserved = 0 := by rw [Worker.reserved, hidx, Nat.sub_self]
  have hroom := h.room_for_chunk hzero
  simp only [CSetChooserParUpdater.claimChunk, claimArrayChunk, hw.chunkSize]
  refine h.update rfl rfl rfl rfl ?_ rfl rfl ?_ (fun j _ => ?_) (fun j _ k howns howns' => ?_) fun k hk => ?_
  · rw [hzero, Worker.reserved]
    dsimp only
    omega
  · refine ⟨rfl, le_add_right _ _, ?_, le_rfl, fun k howns => ?_, hw.todo, hw.bytes⟩
    · rw [Worker.reserved]
      dsimp only
      omega
    · have hlt : k < s.chooser.firstParUnreservedIdx + chunk := howns.2
      exact h.above k howns.1 (by omega)
  · exact { h.workers j with end_le := le_add_right_of_le (h.workers j).end_le }
  · have hge : s.chooser.firstParUnreservedIdx ≤ k := howns.1
    have hlt := lt_of_lt_of_le howns'.2 (h.workers j).end_le
    omega
  · exact h.above k (le_of_add_right_le hk)

lemma Inv.put (htodo : (s.workers i).todo = hr :: todo) (hcand : c.isCandidate hr = true)
    (hidx : (s.workers i).updater.curChunkIdx ≠ (s.workers i).updater.curChunkEnd) :
    ∃ chooser updater, (s.workers i).updater.putRegion s.chooser hr = some (chooser, updater) ∧
      Inv c chunk all ⟨chooser, Function.update s.workers i { s.workers i with updater, todo }⟩ := by
  have hw := h.workers i
  have hlt : (s.workers i).updater.curChunkIdx < (s.workers i).updater.curChunkEnd := lt_of_le_of_ne hw.idx_le hidx
  have hfree := hw.free _ ⟨le_rfl, hlt⟩
  have hsize := (List.getElem?_eq_some_iff.1 hfree).1
  have hplaced := placed_set hfree hr
  have hdone : (s.workers i).done = false := by
    refine Bool.eq_false_of_not_eq_true fun hdone => ?_
    cases htodo.symm.trans (hw.todo hdone)
  rw [CSetChooserParUpdater.putRegion, setRegion, if_pos hsize]
  refine ⟨_, _, rfl, ?_⟩
  refine h.update rfl rfl length_set ?_ ?_ ?_ ?_ ?_ (fun j hj => ?_) (fun j hj k howns => ?_) fun k hk hk' => ?_
  · rw [htodo, filter_cons_of_pos hcand]
    exact Multiset.coe_eq_coe.2 ((hplaced.append_right _).trans perm_middle.symm)
  · rw [hplaced.length_eq, length_cons, Worker.reserved, Worker.reserved]
    dsimp only
    omega
  · rw [hplaced.length_eq, length_cons]
    simp only [pendingRegions, hdone, Bool.false_eq_true, if_false]
    omega
  · rw [reclaimable_perm hplaced, reclaimable_cons]
    simp only [pendingBytes, hdone, Bool.false_eq_true, if_false]
    omega
  · have hreserved := hw.reserved_le
    rw [Worker.reserved] at hreserved
    refine ⟨hw.chunkSize, hlt, ?_, hw.end_le, fun k howns => ?_, fun hdone' => ?_, fun hzero => ?_⟩
    · rw [Worker.reserved]
      dsimp only
      omega
    · have hne : (s.workers i).updater.curChunkIdx ≠ k := Nat.ne_of_lt howns.1
      rw [List.getElem?_set_ne hne]
      exact hw.free k ⟨le_of_succ_le howns.1, howns.2⟩
    · cases hdone.symm.trans hdone'
    · cases hzero
  · -- The slot is in the chunk of this worker, so it is in no other one.
    refine { h.workers j with free := fun k howns => ?_ }
    have hne : (s.workers i).updater.curChunkIdx ≠ k := by
      rintro rfl
      exact h.apart i j hj.symm _ ⟨le_refl _, hlt⟩ howns
    rw [List.getElem?_set_ne hne]
    exact (h.workers j).free k howns
  · exact h.apart i j hj.symm k ⟨le_of_succ_le howns.1, howns.2⟩
  · have hne : (s.workers i).updater.curChunkIdx ≠ k :=
      Nat.ne_of_lt (Nat.lt_of_lt_of_le hlt (Nat.le_trans hw.end_le hk))
    rw [List.length_set] at hk'
    rw [List.getElem?_set_ne hne]
    exact h.above k hk hk'

lemma Inv.destroy (htodo : (s.workers i).todo = []) (hdone : (s.workers i).done = false) :
    Inv c chunk all ⟨(s.workers i).updater.destroy s.chooser,
      Function.update s.workers i { s.workers i with done := true }⟩ := by
  have hw := h.workers i
  have hworker : Worker.Ok s.chooser.regions s.chooser.firstParUnreservedIdx chunk { s.workers i with done := true } :=
    { hw with todo := fun _ => htodo }
  have hapart : ∀ j ≠ i, ∀ k, (s.workers i).Owns k → ¬(s.workers j).Owns k := fun j hj => h.apart i j hj.symm
  unfold CSetChooserParUpdater.destroy updateTotals
  by_cases hadded : 0 < (s.workers i).updater.regionsAdded
  · rw [if_pos hadded, if_pos hadded]
    refine h.update rfl rfl rfl rfl rfl ?_ ?_ hworker (fun j _ => h.workers j) hapart h.above
    · simp [pendingRegions, hdone]
    · simp [pendingBytes, hdone]
  · have hzero : (s.workers i).updater.regionsAdded = 0 := by omega
    rw [if_neg hadded]
    refine h.update rfl rfl rfl rfl rfl ?_ ?_ hworker (fun j _ => h.workers j) hapart h.above
    · simp [pendingRegions, hzero]
    · simp [pendingBytes, hw.bytes hzero]

lemma Inv.step (i) : ∃ s', s.step i = some s' ∧ Inv c chunk all s' := by
  rw [ParFill.step]
  cases htodo : (s.workers i).todo with
  | nil =>
    rw [step_of_nil htodo]
    cases hdone : (s.workers i).done with
    | true => exact ⟨s, by simp, h⟩
    | false => exact ⟨_, rfl, h.destroy htodo hdone⟩
  | cons hr todo =>
    rw [step_of_cons htodo, isCandidate_congr h.threshold]
    by_cases hcand : c.isCandidate hr = true
    · rw [if_pos hcand]
      by_cases hidx : (s.workers i).updater.curChunkIdx = (s.workers i).updater.curChunkEnd
      · rw [if_pos hidx]
        exact ⟨_, rfl, h.claim hidx⟩
      rw [if_neg hidx]
      obtain ⟨chooser, updater, hput, h'⟩ := h.put htodo hcand hidx
      rw [hput]
      exact ⟨_, rfl, h'⟩
    · rw [if_neg hcand]
      exact ⟨_, rfl, h.skip htodo hcand⟩

end

lemma sum_coe_eq_coe_flatMap (l) :
    ∑ i, (l i : Multiset (HeapRegion E)) = ((finRange n).flatMap l : List (HeapRegion E)) := by
  rw [Fin.sum_univ_def]
  induction finRange n with
  | nil => rfl
  | cons i is ih => rw [map_cons, sum_cons, ih, flatMap_cons, Multiset.coe_add]

/-- The array with `size` entries that are not used. -/
def prepared (c : CollectionSetChooser E) (size : Nat) : CollectionSetChooser E :=
  { c.clear with firstParUnreservedIdx := 0, regions := replicate size none }

/-- The length that the array needs is an `int`, so none of the sums wraps. -/
def AdditionFits (nRegions chunk nThreads : Nat) : Prop :=
  0 < nThreads ∧ (nRegions + chunk - 1) / chunk * chunk + nThreads * chunk ≤ 2 ^ 31

lemma le_aligned (nRegions) (hchunk : 0 < chunk) : nRegions ≤ (nRegions + chunk - 1) / chunk * chunk := by
  have hdiv := div_add_mod (nRegions + chunk - 1) chunk
  have hmod := mod_lt (nRegions + chunk - 1) hchunk
  rw [mul_comm] at hdiv
  omega

variable {nRegions nThreads : Nat}

lemma map_regionsAtPutGrow_clear (c : CollectionSetChooser E) {i} (h : i < 2 ^ 31) :
    (regionsAtPutGrow c.clear.regions i).map (fun regions => { c.clear with firstParUnreservedIdx := 0, regions }) =
      some (prepared c (i + 1)) := by
  have hlen : c.clear.regions.length ≤ i := zero_le i
  rw [regionsAtPutGrow, if_neg (not_le.2 h), if_pos hlen]
  rfl

lemma size_suffices {m} (hchunk : 0 < chunk) (hthreads : n ≤ nThreads) (hm : m ≤ nRegions) :
    m + n * chunk ≤ (nRegions + chunk - 1) / chunk * chunk + nThreads * chunk :=
  Nat.add_le_add (hm.trans (le_aligned nRegions hchunk)) (mul_le_mul_right chunk hthreads)

lemma prepareForParRegionAddition_eq (c : CollectionSetChooser E) (hchunk : 0 < chunk)
    (hfits : AdditionFits nRegions chunk nThreads) : c.clear.prepareForParRegionAddition nRegions chunk nThreads =
      some (prepared c ((nRegions + chunk - 1) / chunk * chunk + nThreads * chunk)) := by
  obtain ⟨hpos, hle⟩ := hfits
  have haligned := le_aligned nRegions hchunk
  have hwaste : chunk ≤ nThreads * chunk := Nat.le_mul_of_pos_left chunk hpos
  obtain ⟨i, hi⟩ := Nat.exists_eq_add_one.2
    (show 0 < (nRegions + chunk - 1) / chunk * chunk + nThreads * chunk by omega)
  have hindex : (i + 1 + (2 ^ 32 - 1)) % 2 ^ 32 = i := by omega
  rw [prepareForParRegionAddition, mod_eq_of_lt (by omega : nThreads * chunk < _),
    mod_eq_of_lt (by omega : nRegions + chunk - 1 < _), hi, hindex]
  exact map_regionsAtPutGrow_clear c (by omega)

lemma inv_start {todo size} (hsize : (((finRange n).flatMap todo).filter c.isCandidate).length + n * chunk ≤ size) :
    Inv c chunk (((finRange n).flatMap todo).filter c.isCandidate) (start (prepared c size) chunk todo) := by
  have hslots : (prepared c size).regions = replicate size none := rfl
  have hplaced : placed (replicate size (none : Option (HeapRegion E))) = [] := placed_replicate _
  constructor
  · rfl
  · rfl
  · rwa [start, hslots, length_replicate, Multiset.coe_card]
  · rw [start, hslots, hplaced, filter_flatMap, ← sum_coe_eq_coe_flatMap]
    exact zero_add _
  · rw [start, hslots, hplaced]
    simp [prepared, reserved, CSetChooserParUpdater.new]
  · rw [start, hslots, hplaced]
    simp [prepared, clear, pendingRegions, CSetChooserParUpdater.new]
  · rw [start, hslots, hplaced]
    simp [prepared, clear, pendingBytes, CSetChooserParUpdater.new]
  · intro i
    refine ⟨rfl, le_rfl, zero_le _, zero_le _, fun k howns => ?_, fun hdone => ?_, fun _ => rfl⟩
    · exact absurd howns.2 (not_lt_zero k)
    · cases hdone
  · exact fun i j _ k howns => absurd howns.2 (not_lt_zero k)
  · intro k _ hk
    rw [start, hslots] at hk ⊢
    rw [length_replicate] at hk
    exact getElem?_replicate_of_lt hk

lemma Inv.totals (h : Inv c chunk all s) (hdone : s.isDone = true) :
    s.chooser.length = (placed s.chooser.regions).length ∧
      s.chooser.remainingReclaimableBytes = reclaimable (placed s.chooser.regions) := by
  have hdone' : ∀ i, (s.workers i).done = true := fun i => all_eq_true.1 hdone i (mem_finRange i)
  have hlength := h.length
  have hbytes := h.bytes
  simp only [pendingRegions, hdone', if_true, Finset.sum_const_zero] at hlength
  simp only [pendingBytes, hdone', if_true, Finset.sum_const_zero] at hbytes
  exact ⟨hlength, hbytes⟩

lemma Inv.filled {rs : List (HeapRegion E)} (h : Inv c chunk rs s) (hdone : s.isDone = true) :
    s.chooser.Filled rs := by
  have hdone' : ∀ i, (s.workers i).done = true := fun i => all_eq_true.1 hdone i (mem_finRange i)
  have hplaced : (placed s.chooser.regions).Perm rs := by
    have hcandidates := h.candidates
    simp only [(h.workers _).todo (hdone' _), filter_nil, Multiset.coe_nil, Finset.sum_const_zero,
      add_zero] at hcandidates
    exact Multiset.coe_eq_coe.1 hcandidates
  have htrimmed : placed s.chooser.trimmed = placed s.chooser.regions := by
    rw [trimmed]
    split
    · exact placed_take h.above
    · rfl
  obtain ⟨hlength, hbytes⟩ := h.totals hdone
  refine ⟨h.currIndex, ?_, hlength.trans hplaced.length_eq, hbytes.trans (reclaimable_perm hplaced)⟩
  exact (List.Perm.of_eq htrimmed).trans hplaced

end ParFill

def Filling.Ok (c : CollectionSetChooser E) (f : Filling E) : Prop :=
  (∀ hr ∈ f.visited, hr.isMarked = true → hr.isYoung = false) ∧
    match f with
    | .serial _ => c.firstParUnreservedIdx = 0
    | .parallel n todo nRegions chunkSize nThreads _ =>
      0 < chunkSize ∧ n ≤ nThreads ∧ ((finRange n).flatMap todo).length ≤ nRegions ∧
        ParFill.AdditionFits nRegions chunkSize nThreads

lemma Filling.fill_filled {c : CollectionSetChooser E} {f : Filling E} (hok : f.Ok c) :
    ∃ c' done, f.fill c = some (c', done) ∧ (done = true → c'.Filled (f.visited.filter c.isCandidate)) := by
  cases f with
  | serial hrs =>
    have hempty : c.clear.regions = ([] : List (HeapRegion E)).map some := rfl
    obtain ⟨c', hfold, hcurr, hpar, hslots, hlength, hbytes⟩ := foldl_addRegion hempty rfl rfl hrs
    refine ⟨c', true, by rw [fill, hfold], fun _ => ⟨hcurr, ?_, hlength, hbytes⟩⟩
    have htrimmed : c'.trimmed = c'.regions := if_neg (by rw [hpar]; exact (ne_of_gt · hok.2))
    rw [htrimmed, hslots, filterMap_map, id_comp, filterMap_some]
    exact .refl _
  | parallel n todo nRegions chunkSize nThreads schedule =>
    obtain ⟨hchunk, hthreads, hregions, hfits⟩ := hok.2
    have hadded := le_trans (length_filter_le c.isCandidate _) hregions
    have hstart := ParFill.inv_start (ParFill.size_suffices hchunk hthreads hadded)
    have hdefined : ∃ s, run ParFill.step _ schedule = some s ∧ ParFill.Inv c chunkSize _ s :=
      run_defined _ (fun _ => True) (fun s i h _ => h.step i) hstart fun _ _ => trivial
    obtain ⟨s, hrun, h⟩ := hdefined
    refine ⟨s.chooser, s.isDone, ?_, h.filled⟩
    rw [fill, ParFill.prepareForParRegionAddition_eq c hchunk hfits, Option.bind_some, hrun, Option.map_some]

end Rolp.CSet
