import Rolp.Code.HeapStructure

/-!
# The reserve for critical allocations

A non-critical allocation should stay below the last `CodeCacheMinimumFreeSpace` bytes.
-/

namespace Rolp.Code

open Option Nat CodeHeap

open Lib (run)

structure SameBounds (h h' : CodeHeap) : Prop where
  memory : h'.memory = h.memory
  committed : h'.numberOfCommittedSegments = h.numberOfCommittedSegments
  reserved : h'.numberOfReservedSegments = h.numberOfReservedSegments
  next : h'.nextSegment = h.nextSegment

lemma SameBounds.trans {h1 h2 h3} (h : SameBounds h1 h2) (h' : SameBounds h2 h3) : SameBounds h1 h3 :=
  ⟨h'.memory.trans h.memory, h'.committed.trans h.committed, h'.reserved.trans h.reserved, h'.next.trans h.next⟩

variable {instanceSize : Nat}

section
variable {cfg : HeapConfig} {h h' : CodeHeap} {b n : Nat} {isCritical : Bool}

lemma markSegmapAsUsed_spec {beg end'} (hm : h.markSegmapAsUsed beg end' = some h') :
    SameBounds h h' ∧ h'.length = h.length := by
  unfold markSegmapAsUsed at hm
  split at hm
  · cases hm
    exact ⟨⟨rfl, rfl, rfl, rfl⟩, rfl⟩
  · cases hm

lemma mergeRight_bounds {a} (hm : h.mergeRight a = some h') : SameBounds h h' := by
  unfold mergeRight at hm
  split at hm
  · cases hm
    exact ⟨rfl, rfl, rfl, rfl⟩
  · split at hm
    · obtain ⟨h1, h2, h3, h4⟩ := (markSegmapAsUsed_spec hm).1
      exact ⟨h1, h2, h3, h4⟩
    · cases hm
      exact ⟨rfl, rfl, rfl, rfl⟩

lemma insertAfter_bounds {a} (hi : h.insertAfter a b = some h') : SameBounds h h' := by
  simp only [insertAfter, bind_eq_bind, bind_eq_some_iff] at hi
  obtain ⟨h1, hb, ha⟩ := hi
  obtain ⟨h1, h2, h3, h4⟩ := (mergeRight_bounds hb).trans (mergeRight_bounds ha)
  exact ⟨h1, h2, h3, h4⟩

lemma addToFreelist_bounds (ha : h.addToFreelist b = some h') : SameBounds h h' := by
  unfold addToFreelist linkFree at ha
  split at ha
  · cases ha
    exact ⟨rfl, rfl, rfl, rfl⟩
  obtain ⟨prev, -, hprev⟩ := bind_eq_some_iff.1 ha
  cases prev with
  | none =>
    obtain ⟨h1, h2, h3, h4⟩ := mergeRight_bounds hprev
    exact ⟨h1, h2, h3, h4⟩
  | some prev =>
    obtain ⟨h1, h2, h3, h4⟩ := insertAfter_bounds hprev
    exact ⟨h1, h2, h3, h4⟩

lemma searchLoop_best {fuel prev cur best r} (hs : h.searchLoop cfg n isCritical fuel prev cur best = some (some r))
    (hbest : ∀ b ∈ best, b.length = h.length b.block ∧ n ≤ b.length) : r.length = h.length r.block ∧ n ≤ r.length := by
  induction fuel generalizing prev cur best with
  | zero => cases hs
  | succ fuel ih =>
    cases cur with
    | none =>
      cases hs
      exact hbest r rfl
    | some cur =>
      rw [searchLoop] at hs
      split at hs
      next hcond =>
        split at hs
        · cases hs
          exact hbest r rfl
        · refine ih hs fun b hb => ?_
          obtain rfl := some.inj hb
          exact ⟨rfl, hcond.1⟩
      · exact ih hs hbest

lemma takeBest_bounds (h : CodeHeap) (best) : SameBounds h ((h.unlinkBest best).setUsed best.block best.length) := by
  obtain ⟨h1, -, h2, h3, h4, -⟩ := kept_unlinkBest h best
  exact ⟨h1, h2, h3, h4⟩

def CodeHeap.bestFit (cfg : HeapConfig) (h : CodeHeap) (n : Nat) (isCritical : Bool) : Option (Option Best) :=
  h.searchLoop cfg n isCritical h.fuel none h.freelist none

lemma searchFreelist_some (hs : h.searchFreelist cfg n isCritical = some (h', some b)) :
    SameBounds h h' ∧ ∃ best, h.bestFit cfg n isCritical = some (some best) ∧
      b + h'.length b = best.block + best.length := by
  simp only [searchFreelist, bind_eq_bind, bind_eq_some_iff] at hs
  obtain ⟨best, hloop, hs⟩ := hs
  cases best with
  | none => cases hs
  | some best =>
    obtain ⟨hlen, hfits⟩ := searchLoop_best hloop fun _ hb => (not_mem_none _ hb).elim
    dsimp only at hs
    split at hs
    · cases hs
      refine ⟨takeBest_bounds h best, best, hloop, ?_⟩
      rw [hlen]
      exact congrArg (best.block + ·) (agreeAt_unlinkBest h best best.block).length
    · obtain ⟨h1, hmark, hs⟩ := bind_eq_some_iff.1 hs
      cases hs
      obtain ⟨⟨h1, h2, h3, h4⟩, -⟩ := markSegmapAsUsed_spec hmark
      refine ⟨⟨h1, h2, h3, h4⟩, best, hloop, ?_⟩
      simp only [setUsed, followingBlock, Function.update_self]
      omega

lemma searchFreelist_none (hs : h.searchFreelist cfg n isCritical = some (h', none)) :
    h' = h ∧ h.bestFit cfg n isCritical = some none := by
  simp only [searchFreelist, bind_eq_bind, bind_eq_some_iff] at hs
  obtain ⟨best, hloop, hs⟩ := hs
  cases best with
  | none =>
    cases hs
    exact ⟨rfl, hloop⟩
  | some best =>
    dsimp only at hs
    split at hs
    · cases hs
    · obtain ⟨h1, -, hs⟩ := bind_eq_some_iff.1 hs
      cases hs

lemma allocateAtEnd_some (ha : h.allocateAtEnd cfg n isCritical = some (h', some b)) :
    b = h.nextSegment ∧ h'.length b = max n cfg.minBlockLength ∧
      h.nextSegment + max n cfg.minBlockLength ≤ h.numberOfCommittedSegments ∧
      (isCritical = false → segmentsToSize cfg (max n cfg.minBlockLength) ≤
        wrapSub (h.heapUnallocatedCapacity cfg) cfg.minimumFreeSpace) ∧
      h'.memory = h.memory ∧ h'.numberOfCommittedSegments = h.numberOfCommittedSegments ∧
      h'.numberOfReservedSegments = h.numberOfReservedSegments ∧
      h'.nextSegment = h.nextSegment + max n cfg.minBlockLength := by
  unfold allocateAtEnd at ha
  dsimp only at ha
  split at ha
  · cases ha
  rename_i hcheck
  split at ha
  next hle =>
    obtain ⟨h1, hmark, ha⟩ := bind_eq_some_iff.1 ha
    cases ha
    obtain ⟨⟨h1, h2, h3, h4⟩, -⟩ := markSegmapAsUsed_spec hmark
    refine ⟨h4, Function.update_self _ _ _, hle, fun hcrit => ?_, h1, h2, h3, congrArg (· + _) h4⟩
    simpa [hcrit] using hcheck
  · cases ha

lemma allocateAtEnd_none (ha : h.allocateAtEnd cfg n isCritical = some (h', none)) : h' = h := by
  unfold allocateAtEnd at ha
  dsimp only at ha
  split at ha
  · cases ha
    rfl
  · split at ha
    · obtain ⟨h1, -, ha⟩ := bind_eq_some_iff.1 ha
      cases ha
    · cases ha
      rfl

lemma expandSegmap_bounds {i granted ok} (he : h.expandSegmap cfg i n granted = some (h', ok)) : SameBounds h h' := by
  have hmark : ∀ {h1 : CodeHeap}, ((h1.markSegmapAsFree i n).map (·, true)) = some (h', ok) → SameBounds h1 h' := by
    intro h1 hm
    obtain ⟨h2, hfree, heq⟩ := map_eq_some_iff.1 hm
    cases heq
    unfold markSegmapAsFree at hfree
    split at hfree
    · cases hfree
      exact ⟨rfl, rfl, rfl, rfl⟩
    · cases hfree
  unfold expandSegmap at he
  dsimp only at he
  split at he
  · split at he
    · cases he
      exact ⟨rfl, rfl, rfl, rfl⟩
    · obtain ⟨h1, h2, h3, h4⟩ := hmark he
      exact ⟨h1, h2, h3, h4⟩
  · exact hmark he

end

/-! ## How far blocks can reach -/

structure Bounded (cfg : HeapConfig) (h : CodeHeap) : Prop where
  memory : h.memory.reservedSize = cfg.reservedSize
  committed_le : h.memory.committedSize ≤ cfg.reservedSize
  segments : h.numberOfCommittedSegments = sizeToSegments cfg h.memory.committedSize
  reserved : h.numberOfReservedSegments = sizeToSegments cfg cfg.reservedSize
  next_le : h.nextSegment ≤ h.numberOfCommittedSegments

section
variable {cfg : HeapConfig} {h h' : CodeHeap} {n k : Nat}

lemma sizeToSegments_mono (hk : k ≤ n) (hn : n ≤ cfg.reservedSize) : sizeToSegments cfg k ≤ sizeToSegments cfg n := by
  have hfit := fits_word hn
  have hle := le_of_dvd (page_pos cfg) (segmentSize_dvd_page cfg)
  rw [sizeToSegments, sizeToSegments,
    shiftRight_eq_div_pow, shiftRight_eq_div_pow]
  exact Nat.div_le_div_right (by omega)

lemma Bounded.congr (hb : Bounded cfg h) (hs : SameBounds h h') : Bounded cfg h' := by
  obtain ⟨h1, h2, h3, h4⟩ := hs
  refine ⟨?_, ?_, ?_, ?_, ?_⟩
  · rw [h1, hb.memory]
  · rw [h1]
    exact hb.committed_le
  · rw [h1, h2, hb.segments]
  · rw [h3, hb.reserved]
  · rw [h2, h4]
    exact hb.next_le

lemma Bounded.allocate (hb : Bounded cfg h) {isCritical block}
    (ha : h.allocate cfg instanceSize isCritical = some (h', block)) : Bounded cfg h' := by
  simp only [CodeHeap.allocate, bind_eq_bind, bind_eq_some_iff] at ha
  obtain ⟨⟨h1, block1⟩, hsearch, ha⟩ := ha
  cases block1 with
  | some b =>
    cases ha
    exact hb.congr (searchFreelist_some hsearch).1
  | none =>
    obtain ⟨rfl, -⟩ := searchFreelist_none hsearch
    cases block with
    | none =>
      obtain rfl := allocateAtEnd_none ha
      exact hb
    | some b =>
      obtain ⟨-, -, hle, -, h1, h2, h3, h4⟩ := allocateAtEnd_some ha
      refine ⟨?_, ?_, ?_, ?_, ?_⟩
      · rw [h1, hb.memory]
      · rw [h1]
        exact hb.committed_le
      · rw [h1, h2, hb.segments]
      · rw [h3, hb.reserved]
      · rw [h2, h4]
        exact hle

lemma Bounded.expandBy (hb : Bounded cfg h) {size memoryGranted segmapGranted ok}
    (he : h.expandBy cfg size memoryGranted segmapGranted = some (h', ok)) : Bounded cfg h' := by
  obtain ⟨dm, hdm⟩ : ∃ dm, wrapSub (alignToPageSize cfg (h.memory.committedSize + size)) h.memory.committedSize = dm :=
    ⟨_, rfl⟩
  by_cases hpos : 0 < dm
  · cases hmem : h.memory.expandBy dm memoryGranted with
    | none =>
      rw [expandBy_of_refused hdm segmapGranted hpos hmem] at he
      cases he
      exact hb
    | some memory =>
      obtain ⟨hroom, rfl⟩ := virtualSpace_expandBy hmem
      rw [expandBy_of_granted hdm segmapGranted hpos hmem] at he
      have hcommitted : h.memory.committedSize + dm ≤ cfg.reservedSize := by
        have := hb.memory
        omega
      have hgrown : Bounded cfg (committed h dm (sizeToSegments cfg (h.memory.committedSize + dm))) := by
        refine ⟨hb.memory, hcommitted, rfl, hb.reserved, ?_⟩
        have hmono := sizeToSegments_mono (le_add_right h.memory.committedSize dm) hcommitted
        exact le_trans (hb.segments ▸ hb.next_le) hmono
      exact hgrown.congr (expandSegmap_bounds he)
  · rw [expandBy_of_zero hdm memoryGranted segmapGranted hpos] at he
    cases he
    exact hb

lemma Bounded.step {s s'} (hb : Bounded cfg s.1) {e} (hstep : heapStep cfg s e = some s') : Bounded cfg s'.1 := by
  cases e with
  | allocate instanceSize isCritical =>
    obtain ⟨⟨h, block⟩, ha, heq⟩ := bind_eq_some_iff.1 hstep
    cases heq
    exact hb.allocate ha
  | deallocate b contents =>
    obtain ⟨h, ha, heq⟩ := bind_eq_some_iff.1 hstep
    cases heq
    obtain ⟨h1, h2, h3, h4⟩ := addToFreelist_bounds ha
    exact hb.congr ⟨h1, h2, h3, h4⟩
  | expandBy size memoryGranted segmapGranted =>
    obtain ⟨⟨h, ok⟩, he, heq⟩ := bind_eq_some_iff.1 hstep
    cases heq
    exact hb.expandBy he

lemma Bounded.heapUnallocatedCapacity (hb : Bounded cfg h) :
    h.nextSegment * segmentSize cfg + h.heapUnallocatedCapacity cfg = cfg.reservedSize ∧
      h.heapUnallocatedCapacity cfg = (h.numberOfReservedSegments - h.nextSegment) * segmentSize cfg := by
  have hmul : h.numberOfReservedSegments * segmentSize cfg = cfg.reservedSize := by
    rw [hb.reserved]
    exact sizeToSegments_mul cfg.reserved_pages (fits_word (le_refl _))
  have hnext : h.nextSegment ≤ h.numberOfReservedSegments := by
    rw [hb.reserved]
    exact le_trans (hb.segments ▸ hb.next_le) (sizeToSegments_mono hb.committed_le (le_refl _))
  have hle := mul_le_mul_right (segmentSize cfg) hnext
  have hfit := cfg.reserved_in_memory
  have hpos := Nat.two_pow_pos cfg.logSegmapAlignment
  have hcap : h.heapUnallocatedCapacity cfg = (h.numberOfReservedSegments - h.nextSegment) * segmentSize cfg := by
    rw [CodeHeap.heapUnallocatedCapacity, segmentsToSize, shiftLeft_eq]
    refine mod_eq_of_lt ?_
    change (h.numberOfReservedSegments - h.nextSegment) * segmentSize cfg < _
    rw [Nat.sub_mul]
    omega
  refine ⟨?_, hcap⟩
  rw [hcap, Nat.sub_mul]
  omega

end

/-! ## The reserve -/

variable (cfg : HeapConfig)

end Rolp.Code
