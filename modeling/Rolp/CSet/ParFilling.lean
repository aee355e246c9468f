import Rolp.CSet.Lemmas.Filling
import Mathlib.Tactic.Ring

/-!
# The workers stay inside the array

`claim_array_chunk` asserts that the chunk after the one it hands out lies in the array. It does when the length that
`prepare_for_par_region_addition` computes does not wrap.
-/

namespace Rolp.CSet

open Rolp.Lib CollectionSetChooser List Finset Nat Worker

variable {E : Type}

inductive Access where
  | none
  | claimArrayChunk (res : Nat)
  | setRegion (index : Nat)
  deriving DecidableEq

def Worker.access (w : Worker E) (c : CollectionSetChooser E) : Access :=
  match w.todo with
  | [] => .none
  | hr :: _ =>
    if c.isCandidate hr then
      if w.updater.curChunkIdx = w.updater.curChunkEnd then
        .claimArrayChunk (c.firstParUnreservedIdx + w.updater.chunkSize)
      else .setRegion w.updater.curChunkIdx
    else .none

namespace ParFill

variable {n : Nat} {s s' : ParFill E n} {c : CollectionSetChooser E} {chunk : Nat} {all : Multiset (HeapRegion E)}
  {i : Fin n}

def access (s : ParFill E n) (i : Fin n) : Access := (s.workers i).access s.chooser

/-- The indices that are given to `set_region`, in the order of the calls. -/
def setIndices (s : ParFill E n) : List (Fin n) → List Nat
  | [] => []
  | i :: schedule => (match s.access i with
      | .setRegion index => [index]
      | _ => []) ++ (match s.step i with
      | some s' => s'.setIndices schedule
      | none => [])

/-! ## Claims -/

/-- Whole chunks are claimed, and a chunk that is not used yet is wanted. -/
structure Tight (c : CollectionSetChooser E) (chunk : Nat) (s : ParFill E n) : Prop where
  aligned : chunk ∣ s.chooser.firstParUnreservedIdx
  wanted : ∀ i, (s.workers i).reserved = chunk → 0 < ((s.workers i).todo.filter c.isCandidate).length

lemma Tight.update (h : Tight c chunk s) {chooser w} (ha : chunk ∣ chooser.firstParUnreservedIdx)
    (hw : w.reserved = chunk → 0 < (w.todo.filter c.isCandidate).length) :
    Tight c chunk ⟨chooser, Function.update s.workers i w⟩ := by
  refine ⟨ha, fun j => ?_⟩
  by_cases hj : j = i
  · subst hj
    simpa using hw
  · simpa [hj] using h.wanted j

lemma Tight.step (h : Tight c chunk s) (hi : Inv c chunk all s) (i) (hs : s.step i = some s') : Tight c chunk s' := by
  have hw := hi.workers i
  rw [ParFill.step] at hs
  cases htodo : (s.workers i).todo with
  | nil =>
    have hwanted := h.wanted i
    rw [htodo] at hwanted
    have hdestroy : ((s.workers i).updater.destroy s.chooser).firstParUnreservedIdx =
        s.chooser.firstParUnreservedIdx := by
      unfold CSetChooserParUpdater.destroy updateTotals
      split <;> rfl
    rw [step_of_nil htodo] at hs
    split at hs <;> cases hs
    · exact h.update h.aligned (by rw [htodo]; exact hwanted)
    · exact h.update (by rw [hdestroy]; exact h.aligned) (by rw [htodo]; exact hwanted)
  | cons hr todo =>
    have hwanted := h.wanted i
    rw [htodo] at hwanted
    rw [step_of_cons htodo, isCandidate_congr hi.threshold] at hs
    by_cases hcand : c.isCandidate hr = true
    · rw [if_pos hcand] at hs
      split at hs
      · cases hs
        refine h.update ?_ fun _ => ?_
        · simp only [CSetChooserParUpdater.claimChunk, hw.chunkSize]
          exact (Nat.dvd_add_right h.aligned).2 (dvd_refl _)
        · rw [htodo, filter_cons_of_pos hcand]
          exact succ_pos _
      rename_i hidx
      have hlt := lt_of_le_of_ne hw.idx_le hidx
      have hle := hw.reserved_le
      rw [CSetChooserParUpdater.putRegion, setRegion] at hs
      split at hs
      · cases hs
        refine h.update h.aligned fun hfull => ?_
        simp only [reserved] at hfull hle
        omega
      · cases hs
    · rw [if_neg hcand] at hs
      cases hs
      rw [filter_cons_of_neg hcand] at hwanted
      exact h.update h.aligned hwanted

lemma Tight.claimed_lt (h : Tight c chunk s) (hi : Inv c chunk all s) (hchunk : 0 < chunk)
    (hres : (s.workers i).reserved = 0) (hcand : 0 < ((s.workers i).todo.filter c.isCandidate).length) :
    s.chooser.firstParUnreservedIdx < all.card + (n - 1) * (chunk - 1) := by
  have hothers : ∑ j ∈ univ.erase i, (s.workers j).reserved ≤
      (n - 1) * (chunk - 1) + ∑ j ∈ univ.erase i, ((s.workers j).todo.filter c.isCandidate).length := by
    have hle : ∀ j ∈ univ.erase i,
        (s.workers j).reserved ≤ chunk - 1 + ((s.workers j).todo.filter c.isCandidate).length := by
      intro j _
      have hle := (hi.workers j).reserved_le
      have hwanted := h.wanted j
      omega
    refine (Finset.sum_le_sum hle).trans (le_of_eq ?_)
    rw [sum_add_distrib, sum_const, card_erase_of_mem (mem_univ i), Finset.card_univ, Fintype.card_fin, smul_eq_mul]
  have hcard : (placed s.chooser.regions).length + ∑ j, ((s.workers j).todo.filter c.isCandidate).length =
      all.card := by
    rw [← hi.candidates, Multiset.card_add, Multiset.card_sum]
    rfl
  rw [hi.reserved, ← add_sum_erase _ _ (mem_univ i)]
  rw [← add_sum_erase _ _ (mem_univ i)] at hcard
  omega

variable {nRegions nThreads : Nat}

lemma claim_fits {unreserved} (hchunk : 0 < chunk) (hn : 0 < n) (hthreads : n ≤ nThreads)
    (hdvd : chunk ∣ unreserved) (hlt : unreserved < nRegions + (n - 1) * (chunk - 1)) :
    unreserved + chunk + chunk ≤ (nRegions + chunk - 1) / chunk * chunk + nThreads * chunk := by
  obtain ⟨k, rfl⟩ := hdvd
  have haligned := le_aligned nRegions hchunk
  have hwaste : (n - 1) * (chunk - 1) + (n - 1) + chunk = n * chunk := by
    obtain ⟨m, rfl⟩ : ∃ m, n = m + 1 := ⟨n - 1, by omega⟩
    obtain ⟨d, rfl⟩ : ∃ d, chunk = d + 1 := ⟨chunk - 1, by omega⟩
    simp only [Nat.add_sub_cancel]
    ring
  have hle : n * chunk ≤ nThreads * chunk := mul_le_mul_right chunk hthreads
  have hmul : (k + 1) * chunk < ((nRegions + chunk - 1) / chunk + nThreads) * chunk := by
    rw [succ_mul, add_mul, mul_comm k]
    omega
  have hk : k + 2 ≤ (nRegions + chunk - 1) / chunk + nThreads := Nat.lt_of_mul_lt_mul_right hmul
  calc chunk * k + chunk + chunk = (k + 2) * chunk := by ring
    _ ≤ ((nRegions + chunk - 1) / chunk + nThreads) * chunk := mul_le_mul_right chunk hk
    _ = (nRegions + chunk - 1) / chunk * chunk + nThreads * chunk := add_mul _ _ _

/-! ## Slots -/

lemma Inv.step_regions (h : Inv c chunk all s) (i) (hs : s.step i = some s') :
    (∃ index hr, s.access i = .setRegion index ∧ s.chooser.regions[index]? = some none ∧
      s'.chooser.regions = s.chooser.regions.set index (some hr)) ∨
    ((∀ index, s.access i ≠ .setRegion index) ∧ s'.chooser.regions = s.chooser.regions) := by
  have hw := h.workers i
  rw [ParFill.step] at hs
  rw [access, Worker.access]
  cases htodo : (s.workers i).todo with
  | nil =>
    have hdestroy : ((s.workers i).updater.destroy s.chooser).regions = s.chooser.regions := by
      unfold CSetChooserParUpdater.destroy updateTotals
      split <;> rfl
    rw [step_of_nil htodo] at hs
    right
    refine ⟨by simp, ?_⟩
    split at hs <;> cases hs
    · rfl
    · exact hdestroy
  | cons hr todo =>
    rw [step_of_cons htodo] at hs
    by_cases hcand : s.chooser.isCandidate hr = true
    · simp only [if_pos hcand] at hs ⊢
      by_cases hidx : (s.workers i).updater.curChunkIdx = (s.workers i).updater.curChunkEnd
      · rw [if_pos hidx] at hs
        cases hs
        exact .inr ⟨by simp [hidx], rfl⟩
      have hlt := lt_of_le_of_ne hw.idx_le hidx
      have hfree := hw.free _ ⟨le_rfl, hlt⟩
      rw [if_neg hidx, CSetChooserParUpdater.putRegion, setRegion, if_pos (List.getElem?_eq_some_iff.1 hfree).1] at hs
      cases hs
      exact .inl ⟨_, hr, by simp [hidx], hfree, rfl⟩
    · rw [if_neg hcand] at hs
      cases hs
      exact .inr ⟨by simp [hcand], rfl⟩

lemma Inv.setIndices_spec (h : Inv c chunk all s) (schedule) :
    (s.setIndices schedule).Nodup ∧ ∀ k ∈ s.setIndices schedule, s.chooser.regions[k]? = some none := by
  induction schedule generalizing s with
  | nil => exact ⟨nodup_nil, by simp [setIndices]⟩
  | cons i schedule ih =>
    obtain ⟨s', hs, h'⟩ := h.step i
    obtain ⟨hnodup, hfree⟩ := ih h'
    rw [setIndices, hs]
    obtain ⟨index, hr, haccess, hnone, hset⟩ | ⟨haccess, hsame⟩ := h.step_regions i hs
    · rw [hset] at hfree
      have hindex : index ∉ s'.setIndices schedule := by
        intro hmem
        have hsome := hfree index hmem
        rw [getElem?_set_self (List.getElem?_eq_some_iff.1 hnone).1] at hsome
        cases hsome
      rw [haccess]
      refine ⟨nodup_cons.2 ⟨hindex, hnodup⟩, fun k hk => ?_⟩
      rcases mem_cons.1 hk with rfl | hk
      · exact hnone
      have hne : index ≠ k := by
        rintro rfl
        exact hindex hk
      simpa [getElem?_set_ne hne] using hfree k hk
    · have hnil : (match s.access i with
          | .setRegion index => [index]
          | _ => []) = [] := by
        split
        next index heq => exact absurd heq (haccess index)
        · rfl
      rw [hnil, ← hsame]
      exact ⟨hnodup, hfree⟩

/-! ## Whole runs -/

lemma run_start {todo size} (hchunk : 0 < chunk)
    (hsize : (((finRange n).flatMap todo).filter c.isCandidate).length + n * chunk ≤ size) (schedule) :
    ∃ s, run ParFill.step (start (prepared c size) chunk todo) schedule = some s ∧
      Inv c chunk (((finRange n).flatMap todo).filter c.isCandidate) s ∧ Tight c chunk s ∧
      s.chooser.regions.length = size := by
  have htight : Tight c chunk (start (prepared c size) chunk todo) := by
    refine ⟨dvd_zero chunk, fun i hres => ?_⟩
    exact absurd hres (Nat.ne_of_lt hchunk)
  refine run_defined (fun s => Inv c chunk _ s ∧ Tight c chunk s ∧ _ = _) (fun _ => True) ?_
    ⟨inv_start hsize, htight, length_replicate⟩ fun _ _ => trivial
  rintro s i ⟨hi, ht, hl⟩ -
  obtain ⟨s', hs, hi'⟩ := hi.step i
  refine ⟨s', hs, hi', ht.step hi i hs, ?_⟩
  obtain ⟨index, hr, -, -, hset⟩ | ⟨-, hsame⟩ := hi.step_regions i hs
  · rw [hset, length_set, hl]
  · rw [hsame, hl]

lemma Tight.access_fits (h : Tight c chunk s) (hi : Inv c chunk all s) (hchunk : 0 < chunk)
    (hthreads : n ≤ nThreads) (hall : all.card ≤ nRegions)
    (hlen : s.chooser.regions.length = (nRegions + chunk - 1) / chunk * chunk + nThreads * chunk) {res}
    (haccess : s.access i = .claimArrayChunk res) : res + chunk - 1 < s.chooser.regions.length := by
  rw [access, Worker.access] at haccess
  cases htodo : (s.workers i).todo with
  | nil =>
    rw [htodo] at haccess
    cases haccess
  | cons hr todo =>
    simp only [htodo, isCandidate_congr hi.threshold, (hi.workers i).chunkSize] at haccess
    split at haccess
    next hcand =>
      split at haccess
      next hidx =>
        cases haccess
        have hres : (s.workers i).reserved = 0 := by rw [reserved, hidx, Nat.sub_self]
        have hpos : 0 < ((s.workers i).todo.filter c.isCandidate).length := by
          rw [htodo, filter_cons_of_pos hcand]
          exact succ_pos _
        have hlt := h.claimed_lt hi hchunk hres hpos
        have hlt' : s.chooser.firstParUnreservedIdx < nRegions + (n - 1) * (chunk - 1) := by omega
        have hfits := claim_fits hchunk i.pos hthreads h.aligned hlt'
        omega
      · cases haccess
    · cases haccess

end ParFill

/-- If the length of the array does not wrap, every claim and the chunk after it are inside, the indices given to
`set_region` are distinct and inside, and the totals of the chooser are those of the array once the updaters are
destroyed. -/
theorem par_region_addition_never_overruns (c : CollectionSetChooser E) {n : Nat} (todo : Fin n → List (HeapRegion E))
    (nRegions chunkSize nThreads : Nat) (hchunk : 1 ≤ chunkSize) (hthreads : n ≤ nThreads)
    (hfits : 0 < nThreads ∧ (nRegions + chunkSize - 1) / chunkSize * chunkSize + nThreads * chunkSize ≤ 2 ^ 31)
    (hregions : (((finRange n).flatMap todo).filter c.isCandidate).length ≤ nRegions) (schedule : List (Fin n)) :
    ∃ c0, c.clear.prepareForParRegionAddition nRegions chunkSize nThreads = some c0 ∧
    let s0 := ParFill.start c0 chunkSize todo
    (∀ before i after, schedule = before ++ i :: after → ∃ s, run ParFill.step s0 before = some s ∧
      (∀ res, s.access i = .claimArrayChunk res → res + chunkSize - 1 < s.chooser.regions.length) ∧
      ∀ index, s.access i = .setRegion index → index < s.chooser.regions.length) ∧
    (s0.setIndices schedule).Nodup ∧
    ∃ s, run ParFill.step s0 schedule = some s ∧
      (s.isDone = true → s.chooser.length = (s.chooser.regions.filterMap id).length ∧
        s.chooser.remainingReclaimableBytes =
          ((s.chooser.regions.filterMap id).map HeapRegion.reclaimableBytes).sum) := by
  have hsize := ParFill.size_suffices hchunk hthreads hregions
  refine ⟨_, ParFill.prepareForParRegionAddition_eq c hchunk hfits, fun before i after _ => ?_, ?_, ?_⟩
  · obtain ⟨s, hs, hi, ht, hlen⟩ := ParFill.run_start hchunk hsize before
    refine ⟨s, hs, fun res => ht.access_fits hi hchunk hthreads hregions hlen, fun index haccess => ?_⟩
    obtain ⟨s', hs', -⟩ := hi.step i
    obtain ⟨index', hr, haccess', hfree, -⟩ | ⟨hno, -⟩ := hi.step_regions i hs'
    · cases haccess.symm.trans haccess'
      exact (List.getElem?_eq_some_iff.1 hfree).1
    · exact absurd haccess (hno index)
  · exact ((ParFill.inv_start hsize).setIndices_spec schedule).1
  · obtain ⟨s, hs, hi, -⟩ := ParFill.run_start hchunk hsize schedule
    exact ⟨s, hs, hi.totals⟩

theorem par_region_addition_never_overruns_two_workers :
    let hr : Nat → HeapRegion Nat := fun k => ⟨k, 10, k, 0, true, false, false, false⟩
    let todo : Fin 2 → List (HeapRegion Nat) := fun i => if i = 0 then [hr 1, hr 2] else [hr 3]
    ∃ c0 s, (new 9).clear.prepareForParRegionAddition 3 2 2 = some c0 ∧
      ((ParFill.start c0 2 todo).setIndices [0, 1, 1, 0, 0, 0, 1]).Nodup ∧
      run ParFill.step (.start c0 2 todo) [0, 1, 1, 0, 0, 0, 1] = some s ∧ s.isDone = true ∧ s.chooser.length = 3 := by
  intro hr todo
  obtain ⟨c0, hc0, -, hnodup, s, hs, htotals⟩ := par_region_addition_never_overruns (new 9) todo 3 2 2
    (by decide) (by decide) (by decide) (by decide) [0, 1, 1, 0, 0, 0, 1]
  have hdone : ((new 9).clear.prepareForParRegionAddition 3 2 2).bind (fun c0 => (run ParFill.step (.start c0 2 todo)
      [0, 1, 1, 0, 0, 0, 1]).map fun s => (s.isDone, s.chooser.regions.filterMap id)) =
        some (true, [hr 1, hr 2, hr 3]) := by
    decide +kernel
  rw [hc0, Option.bind_some, hs, Option.map_some, Option.some.injEq, Prod.mk.injEq] at hdone
  refine ⟨c0, s, hc0, hnodup, hs, hdone.1, ?_⟩
  rw [(htotals hdone.1).1, hdone.2]
  rfl

/-- The product for four threads is zero, and there is no room for the chunk after the first one. -/
theorem par_region_addition_overruns :
    let hr : HeapRegion Nat := ⟨0, 10, 1, 0, true, false, false, false⟩
    ∃ c0, (new 9).clear.prepareForParRegionAddition 1 (2 ^ 30) 4 = some c0 ∧
      (ParFill.start c0 (2 ^ 30) fun _ : Fin 1 => [hr]).access 0 = .claimArrayChunk (2 ^ 30) ∧
      ¬2 ^ 30 + 2 ^ 30 - 1 < c0.regions.length := by
  have hgrow := ParFill.map_regionsAtPutGrow_clear (new 9 : CollectionSetChooser Nat) (i := 2 ^ 30 - 1) (by decide)
  refine ⟨ParFill.prepared (new 9) (2 ^ 30 - 1 + 1), hgrow, by decide, ?_⟩
  rw [ParFill.prepared, length_replicate]
  decide

end Rolp.CSet
