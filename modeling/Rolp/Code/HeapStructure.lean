import Rolp.Code.Lemmas.FreeList
import Rolp.Lib.Run

/-!
# The structure of the code heap

`expand_by` commits more memory and as much of the segment map as the new segments need, `find_start` looks up the block
of an address, and all operations keep the blocks, the map and the free list in step.
-/

namespace Rolp.Code

open Nat

section
variable {cfg : HeapConfig} {h : CodeHeap} {n k : Nat}

variable {a : Nat}

lemma wrapSub_eq {b} (hle : b ≤ a) (ha : a < 2 ^ 64) : wrapSub a b = a - b := by
  rw [wrapSub, add_comm, Nat.add_sub_assoc hle, add_mod_left, mod_eq_of_lt (by omega)]

variable (cfg)

lemma segmentSize_pos : 0 < segmentSize cfg := Nat.two_pow_pos _

lemma page_pos : 0 < 2 ^ cfg.logPageSize := Nat.two_pow_pos _

lemma segmentSize_dvd_page : segmentSize cfg ∣ 2 ^ cfg.logPageSize := pow_dvd_pow 2 cfg.segment_le_page

lemma page_le : 2 ^ cfg.logPageSize ≤ 2 ^ cfg.logSegmapAlignment :=
  Nat.pow_le_pow_right (by decide) cfg.page_le_alignment

lemma page_dvd_word : 2 ^ cfg.logPageSize ∣ 2 ^ 64 := by
  refine pow_dvd_pow 2 ?_
  have hle : 2 ^ cfg.logPageSize ≤ 2 ^ 64 := by
    have := cfg.reserved_in_memory
    have := page_le cfg
    omega
  exact (Nat.pow_le_pow_iff_right (by decide)).1 hle

variable {cfg}

lemma alignToPageSize_eq (hn : n + 2 ^ cfg.logPageSize ≤ 2 ^ 64) :
    alignToPageSize cfg n = (n + 2 ^ cfg.logPageSize - 1) / 2 ^ cfg.logPageSize * 2 ^ cfg.logPageSize := by
  rw [alignToPageSize, mod_eq_of_lt (by omega)]

lemma le_round_up (n) (ha : 0 < a) : n ≤ (n + a - 1) / a * a := by
  have hdiv := div_add_mod (n + a - 1) a
  have hlt := mod_lt (n + a - 1) ha
  rw [mul_comm] at hdiv
  omega

lemma le_alignToPageSize (hn : n + 2 ^ cfg.logPageSize ≤ 2 ^ 64) : n ≤ alignToPageSize cfg n := by
  rw [alignToPageSize_eq hn]
  exact le_round_up n (page_pos cfg)

lemma alignToPageSize_lt (hn : n + 2 ^ cfg.logPageSize ≤ 2 ^ 64) : alignToPageSize cfg n < 2 ^ 64 := by
  rw [alignToPageSize_eq hn]
  have := div_mul_le_self (n + 2 ^ cfg.logPageSize - 1) (2 ^ cfg.logPageSize)
  omega

lemma alignToPageSize_mono (hk : k ≤ n) (hn : n + 2 ^ cfg.logPageSize ≤ 2 ^ 64) :
    alignToPageSize cfg k ≤ alignToPageSize cfg n := by
  exact mul_le_mul_right _ (Nat.div_le_div_right (by omega))

lemma alignToPageSize_le (hn : n + 2 ^ cfg.logPageSize ≤ 2 ^ 64) (hd : 2 ^ cfg.logPageSize ∣ k) (hk : n ≤ k) :
    alignToPageSize cfg n ≤ k := by
  obtain ⟨m, rfl⟩ := hd
  have hpos := page_pos cfg
  rw [alignToPageSize_eq hn, mul_comm]
  refine mul_le_mul_left _ (Nat.lt_succ_iff.1 ((div_lt_iff_lt_mul hpos).2 ?_))
  rw [succ_mul, mul_comm]
  omega

lemma page_dvd_alignToPageSize (cfg n) : 2 ^ cfg.logPageSize ∣ alignToPageSize cfg n := dvd_mul_left _ _

lemma sizeToSegments_mul (hd : 2 ^ cfg.logPageSize ∣ n) (hn : n + 2 ^ cfg.logPageSize ≤ 2 ^ 64) :
    sizeToSegments cfg n * segmentSize cfg = n := by
  obtain ⟨m, rfl⟩ := dvd_trans (segmentSize_dvd_page cfg) hd
  have hpos := segmentSize_pos cfg
  have hle := le_of_dvd (page_pos cfg) (segmentSize_dvd_page cfg)
  rw [sizeToSegments, mod_eq_of_lt (by omega), shiftRight_eq_div_pow]
  change (segmentSize cfg * m + segmentSize cfg - 1) / segmentSize cfg * segmentSize cfg = _
  rw [Nat.add_sub_assoc hpos, mul_add_div hpos, div_eq_of_lt (by omega), add_zero, mul_comm]

lemma segments_le (hm : n * segmentSize cfg ≤ k) : n ≤ k :=
  le_trans (Nat.le_mul_of_pos_right n (segmentSize_pos cfg)) hm

lemma segments_le_of_mul_le {b} (h : a * segmentSize cfg ≤ b * segmentSize cfg) : a ≤ b :=
  Nat.le_of_mul_le_mul_right h (segmentSize_pos cfg)

lemma fits_word (hn : n ≤ cfg.reservedSize) : n + 2 ^ cfg.logPageSize ≤ 2 ^ 64 := by
  have := cfg.reserved_in_memory
  have := page_le cfg
  omega

lemma Spaces.readable (hs : Spaces cfg h) : h.numberOfCommittedSegments ≤ h.segmapSpace.committedSize := by
  have hle : h.numberOfCommittedSegments ≤ cfg.reservedSize :=
    le_trans (segments_le (le_of_eq hs.committed)) hs.committed_le
  rw [hs.segmap_committed]
  exact le_alignToPageSize (fits_word hle)

lemma Spaces.writable (hs : Spaces cfg h) : h.nextSegment ≤ h.segmapSpace.committedSize :=
  le_trans hs.next_le hs.readable

lemma Spaces.page_dvd_growth (hs : Spaces cfg h) (size) :
    2 ^ cfg.logPageSize ∣ wrapSub (alignToPageSize cfg (h.memory.committedSize + size)) h.memory.committedSize := by
  rw [wrapSub, dvd_mod_iff (page_dvd_word cfg)]
  exact dvd_sub (Nat.dvd_add (page_dvd_alignToPageSize cfg _) (page_dvd_word cfg)) hs.committed_pages

def grown (h : CodeHeap) (dm n segmapCommitted : Nat) : CodeHeap :=
  { h with
    memory := { h.memory with committedSize := h.memory.committedSize + dm }
    numberOfCommittedSegments := n
    segmapSpace := { h.segmapSpace with committedSize := segmapCommitted }
    segmap := fun s => if h.numberOfCommittedSegments ≤ s ∧ s < n then 0xFF else h.segmap s }

lemma virtualSpace_expandBy {v v' : VirtualSpace} {bytes : Nat} {granted : Bool}
    (h : v.expandBy bytes granted = some v') :
    bytes ≤ v.reservedSize - v.committedSize ∧ v' = { v with committedSize := v.committedSize + bytes } := by
  unfold VirtualSpace.expandBy at h
  split at h
  · cases h
  next hroom =>
    split at h
    · cases h
      exact ⟨Nat.le_of_not_lt hroom, rfl⟩
    · cases h

def committed (h : CodeHeap) (dm n : Nat) : CodeHeap :=
  { h with
    memory := { h.memory with committedSize := h.memory.committedSize + dm }
    numberOfCommittedSegments := n }

lemma expandSegmap_spec {dm} (hspace : h.segmapSpace.committedSize ≤ alignToPageSize cfg n)
    (hreserved : alignToPageSize cfg n ≤ h.segmapSpace.reservedSize) (hfit : n + 2 ^ cfg.logPageSize ≤ 2 ^ 64) :
    (committed h dm n).expandSegmap cfg h.numberOfCommittedSegments n true =
      some (grown h dm n (alignToPageSize cfg n), true) := by
  have hmark : n ≤ alignToPageSize cfg n ∨ n ≤ h.numberOfCommittedSegments := .inl (le_alignToPageSize hfit)
  have hsub : wrapSub (alignToPageSize cfg n) (committed h dm n).segmapSpace.committedSize =
      alignToPageSize cfg n - h.segmapSpace.committedSize := wrapSub_eq hspace (alignToPageSize_lt hfit)
  unfold CodeHeap.expandSegmap
  rw [hsub]
  by_cases hds : 0 < alignToPageSize cfg n - h.segmapSpace.committedSize
  · have hroom : ¬ h.segmapSpace.reservedSize - h.segmapSpace.committedSize <
        alignToPageSize cfg n - h.segmapSpace.committedSize := by omega
    have hexpand : (committed h dm n).segmapSpace.expandBy (alignToPageSize cfg n - h.segmapSpace.committedSize) true =
        some { h.segmapSpace with committedSize := alignToPageSize cfg n } := by
      refine (if_neg hroom).trans ((if_pos rfl).trans ?_)
      exact congrArg (fun size => some (VirtualSpace.mk h.segmapSpace.reservedSize size)) (add_sub_of_le hspace)
    rw [if_pos hds, hexpand]
    exact congrArg (Option.map (·, true)) (if_pos hmark)
  · have heq : h.segmapSpace.committedSize = alignToPageSize cfg n := by omega
    rw [if_neg hds]
    rw [← heq] at hmark ⊢
    exact congrArg (Option.map (·, true)) (if_pos hmark)

section
variable {size dm : Nat}
  (hdm : wrapSub (alignToPageSize cfg (h.memory.committedSize + size)) h.memory.committedSize = dm)
include hdm

lemma expandBy_of_zero (memoryGranted segmapGranted) (hpos : ¬ 0 < dm) :
    h.expandBy cfg size memoryGranted segmapGranted = some (h, true) := by
  rw [CodeHeap.expandBy, hdm]
  exact if_neg hpos

lemma expandBy_of_refused {memoryGranted} (segmapGranted) (hpos : 0 < dm)
    (hmem : h.memory.expandBy dm memoryGranted = none) :
    h.expandBy cfg size memoryGranted segmapGranted = some (h, false) := by
  rw [CodeHeap.expandBy, hdm]
  refine (if_pos hpos).trans ?_
  rw [hmem]

lemma expandBy_of_granted {memoryGranted} (segmapGranted) (hpos : 0 < dm)
    (hmem : h.memory.expandBy dm memoryGranted = some { h.memory with committedSize := h.memory.committedSize + dm }) :
    h.expandBy cfg size memoryGranted segmapGranted =
      (committed h dm (sizeToSegments cfg (h.memory.committedSize + dm))).expandSegmap cfg h.numberOfCommittedSegments
        (sizeToSegments cfg (h.memory.committedSize + dm)) segmapGranted := by
  rw [CodeHeap.expandBy, hdm]
  refine (if_pos hpos).trans ?_
  rw [hmem]
  rfl

end

lemma Spaces.expandBy_spec (hs : Spaces cfg h) (size memoryGranted) :
    (∃ ok, h.expandBy cfg size memoryGranted true = some (h, ok)) ∨
      ∃ dm n, h.expandBy cfg size memoryGranted true = some (grown h dm n (alignToPageSize cfg n), true) ∧
        h.numberOfCommittedSegments ≤ n ∧ Spaces cfg (grown h dm n (alignToPageSize cfg n)) := by
  have hpages := hs.page_dvd_growth size
  obtain ⟨dm, hdm⟩ : ∃ dm, wrapSub (alignToPageSize cfg (h.memory.committedSize + size)) h.memory.committedSize = dm :=
    ⟨_, rfl⟩
  rw [hdm] at hpages
  by_cases hpos : 0 < dm
  · cases hmem : h.memory.expandBy dm memoryGranted with
    | none => exact .inl ⟨false, expandBy_of_refused hdm true hpos hmem⟩
    | some memory =>
      obtain ⟨hroom, rfl⟩ := virtualSpace_expandBy hmem
      right
      have hcommitted : h.memory.committedSize + dm ≤ cfg.reservedSize := by
        have := hs.memory
        omega
      have hmul := sizeToSegments_mul (Nat.dvd_add hs.committed_pages hpages) (fits_word hcommitted)
      have hexpand := expandBy_of_granted hdm true hpos hmem
      generalize sizeToSegments cfg (h.memory.committedSize + dm) = n at hmul hexpand
      have hle : h.numberOfCommittedSegments ≤ n := segments_le_of_mul_le (by rw [hs.committed]; omega)
      have hnr : n ≤ h.numberOfReservedSegments := segments_le_of_mul_le (by rw [hs.reserved, hmul]; exact hcommitted)
      have hfit := fits_word (segments_le (le_of_eq hs.reserved))
      have hfitn : n + 2 ^ cfg.logPageSize ≤ 2 ^ 64 := by omega
      have hspaces : Spaces cfg (grown h dm n (alignToPageSize cfg n)) := by
        refine ⟨hs.memory, Nat.dvd_add hs.committed_pages hpages, hcommitted, hmul, hs.reserved, hs.segmap_reserved,
          rfl, le_trans hs.next_le hle, fun s hnext hlt => ?_⟩
        have hlt' : s < n := hlt
        change (if _ then _ else _) = _
        split
        · rfl
        · exact hs.unmarked s hnext (by omega)
      refine ⟨dm, n, hexpand.trans (expandSegmap_spec ?_ ?_ hfitn), hle, hspaces⟩
      · rw [hs.segmap_committed]
        exact alignToPageSize_mono hle hfitn
      · exact le_trans (alignToPageSize_mono hnr hfit) hs.segmap_reserved
  · exact .inl ⟨true, expandBy_of_zero hdm memoryGranted true hpos⟩

end

/-!
## The structure of the code heap

The blocks tile the heap, the free list holds the free blocks, and every address is led back to its block.
-/

open CodeHeap List Option Nat

open Lib (run guarded backDistance)

section
variable {cfg : HeapConfig} {h : CodeHeap} {bs : List Block} {b : Block} {p : Nat}

/-! ## Looking up addresses -/

lemma Layout.findStart_of_mem (hl : Layout cfg h bs) (hb : b ∈ bs)
    (hlo : cfg.low + b.start * segmentSize cfg ≤ p) (hhi : p < cfg.low + (b.start + b.length) * segmentSize cfg) :
    h.findStart cfg p = some (if b.used then some (allocatedSpace cfg b.start) else none) := by
  have hseg := segmentSize_pos cfg
  obtain ⟨-, hpos, hend⟩ := Tiles.mem_bounds hl.blocks.tiles hb
  obtain ⟨hlen, hused, hmarked⟩ := hl.blocks.held b hb
  have hcommitted : p < cfg.low + h.memory.committedSize := by
    have := mul_le_mul_right (segmentSize cfg) (le_trans hend hl.spaces.next_le)
    rw [hl.spaces.committed] at this
    omega
  have hi : (p - cfg.low) >>> cfg.logSegmentSize = (p - cfg.low) / segmentSize cfg := shiftRight_eq_div_pow _ _
  have hlo' : b.start ≤ (p - cfg.low) / segmentSize cfg := (le_div_iff_mul_le hseg).2 (by omega)
  have hhi' : (p - cfg.low) / segmentSize cfg < b.start + b.length := (div_lt_iff_lt_mul hseg).2 (by omega)
  obtain ⟨k, hk⟩ := Nat.exists_eq_add_of_le hlo'
  have hentry : h.segmap (b.start + k) = backDistance 0xFE k := hmarked k (by omega)
  have hcap : backDistance 0xFE k ≤ 0xFE := Lib.backDistance_le_cap (by decide) k
  have hwalk : Lib.walkBack h.segmap (b.start + k + 1) (b.start + k) = some b.start :=
    Lib.walkBack_eq (fun j hj => hmarked j (by omega)) (by omega)
  have hread : b.start + k < h.segmapSpace.committedSize := by
    have := hl.spaces.writable
    omega
  unfold findStart
  rw [if_neg (by omega), hi, hk]
  rw [if_pos hread, if_neg (by omega), hwalk]
  simp only [bind_eq_bind, bind_some, hused]
  cases b.used <;> rfl

lemma Layout.findStart_beyond (hl : Layout cfg h bs) (hlo : cfg.low + h.nextSegment * segmentSize cfg ≤ p)
    (hhi : p < cfg.low + h.memory.committedSize) : h.findStart cfg p = some none := by
  have hseg := segmentSize_pos cfg
  have hi : (p - cfg.low) >>> cfg.logSegmentSize = (p - cfg.low) / segmentSize cfg := shiftRight_eq_div_pow _ _
  have hlo' : h.nextSegment ≤ (p - cfg.low) / segmentSize cfg := (le_div_iff_mul_le hseg).2 (by omega)
  have hhi' : (p - cfg.low) / segmentSize cfg < h.numberOfCommittedSegments := by
    rw [div_lt_iff_lt_mul hseg, hl.spaces.committed]
    omega
  have hread := lt_of_lt_of_le hhi' hl.spaces.readable
  unfold findStart
  rw [if_neg (by omega), hi]
  rw [if_pos hread, hl.spaces.unmarked _ hlo' hhi', if_pos rfl]

end

/-! ## Sequences of operations -/

/-- A block that is given back holds what its owner has left in it; memory may be refused. -/
inductive HeapEvent where
  | allocate (instanceSize : Nat) (isCritical : Bool)
  | deallocate (b : Nat) (contents : Option Nat)
  | expandBy (size : Nat) (memoryGranted segmapGranted : Bool)

def heapStep (cfg : HeapConfig) (s : CodeHeap × List Nat) : HeapEvent → Option (CodeHeap × List Nat)
  | .allocate instanceSize isCritical => do
    let (h, block) ← s.1.allocate cfg instanceSize isCritical
    return (h, block.toList ++ s.2)
  | .deallocate b contents => do
    let h ← ({ s.1 with link := Function.update s.1.link b contents } : CodeHeap).deallocate b
    return (h, s.2.erase b)
  | .expandBy size memoryGranted segmapGranted => do
    let (h, _) ← s.1.expandBy cfg size memoryGranted segmapGranted
    return (h, s.2)

/-- The size of a block does not wrap to nothing, only blocks in use are given back, and the segment map is not refused.
-/
def HeapOk (cfg : HeapConfig) (s : CodeHeap × List Nat) : HeapEvent → Prop
  | .allocate instanceSize _ => numberOfSegments cfg instanceSize ≠ 0
  | .deallocate b _ => b ∈ s.2
  | .expandBy _ _ segmapGranted => segmapGranted = true

instance (cfg : HeapConfig) (s : CodeHeap × List Nat) (e : HeapEvent) : Decidable (HeapOk cfg s e) :=
  match e with
  | .allocate instanceSize _ => inferInstanceAs (Decidable (numberOfSegments cfg instanceSize ≠ 0))
  | .deallocate b _ => inferInstanceAs (Decidable (b ∈ s.2))
  | .expandBy _ _ segmapGranted => inferInstanceAs (Decidable (segmapGranted = true))

structure Structured (cfg : HeapConfig) (s : CodeHeap × List Nat) (bs : List Block) : Prop where
  layout : Layout cfg s.1 bs
  live : ((usedBlocks bs).map Block.start).Perm s.2

section
variable {cfg : HeapConfig} {s : CodeHeap × List Nat} {bs : List Block}

section

variable (hs : Structured cfg s bs)

include hs

lemma Structured.allocate {instanceSize} (hn : numberOfSegments cfg instanceSize ≠ 0) (isCritical) :
    ∃ s' bs', heapStep cfg s (.allocate instanceSize isCritical) = some s' ∧ Structured cfg s' bs' := by
  obtain ⟨h, live⟩ := s
  have hl := hs.layout
  have hblocks : Blocks h bs := hl.blocks
  have hspaces : Spaces cfg h := hl.spaces
  have htotal : h.freelistSegments = freeLength bs := hl.total
  rcases hblocks.searchFreelist_spec hn hspaces.writable cfg isCritical with
    hnone | ⟨h', bs', b, hsome, hb', hkept, -, hfree, htaken⟩
  · rcases allocateAtEnd_spec hspaces.readable cfg (numberOfSegments cfg instanceSize) isCritical with
      hfull | ⟨hend, hle⟩
    · refine ⟨(h, live), bs, ?_, hs⟩
      simp only [heapStep, allocate, hnone, hfull, bind_eq_bind, bind_some, Option.pure_def]
      rfl
    have hpos : 0 < max (numberOfSegments cfg instanceSize) cfg.minBlockLength :=
      lt_of_lt_of_le cfg.minBlockLength_pos (le_max_right _ _)
    have htaken := taken_extend bs h.nextSegment (max (numberOfSegments cfg instanceSize) cfg.minBlockLength)
    refine ⟨(extended h (max (numberOfSegments cfg instanceSize) cfg.minBlockLength), h.nextSegment :: live),
      _, ?_, ⟨hblocks.extend hpos, hspaces.extend hle, htaken.coalesced hl.coalesced, ?_⟩, ?_⟩
    · simp only [heapStep, allocate, hnone, hend, bind_eq_bind, bind_some, Option.pure_def]
      rfl
    · exact htotal.trans htaken.length
    · exact (htaken.used.map Block.start).trans (hs.live.cons _)
  · refine ⟨(h', b.start :: live), bs', ?_, ⟨hb', hspaces.kept hkept, htaken.coalesced hl.coalesced, ?_⟩, ?_⟩
    · simp only [heapStep, allocate, hsome, bind_eq_bind, bind_some, Option.pure_def]
      rfl
    · have := htaken.length
      change h'.freelistSegments = freeLength bs'
      omega
    · exact (htaken.used.map Block.start).trans (hs.live.cons _)

lemma Structured.deallocate {b} (hb : b ∈ s.2) (contents) :
    ∃ s' bs', heapStep cfg s (.deallocate b contents) = some s' ∧ Structured cfg s' bs' := by
  obtain ⟨h, live⟩ := s
  have hl := hs.layout
  obtain ⟨block, hblock, rfl⟩ := mem_map.1 (hs.live.mem_iff.2 hb)
  obtain ⟨hmem, hused⟩ := mem_filter.1 hblock
  obtain ⟨xs, ys, rfl⟩ := append_of_mem hmem
  have hblocks : Blocks h (xs ++ block :: ys) := hl.blocks
  -- the block is not in the free list, so its contents do not matter
  have hnotin : block.start ∉ freeStarts (xs ++ block :: ys) := by
    rw [freeStarts_append, freeStarts_cons_used hused]
    exact start_notMem_freeStarts hblocks.tiles
  have hwritten : Blocks { h with link := Function.update h.link block.start contents } (xs ++ block :: ys) :=
    ⟨hblocks.tiles, fun c hc => ⟨(hblocks.held c hc).length, (hblocks.held c hc).used, (hblocks.held c hc).marked⟩,
      hblocks.freelist.update hnotin contents⟩
  obtain ⟨h', bs', hadd, hb', hkept, hfree, hreleased⟩ := hwritten.addToFreelist_spec hused hl.spaces.writable
  have hkept' : Kept h h' :=
      ⟨hkept.memory, hkept.segmapSpace, hkept.committed, hkept.reserved, hkept.next, hkept.segmap⟩
  refine ⟨(h', live.erase block.start), bs', ?_, ⟨hb', hl.spaces.kept hkept', hreleased.coalesced hl.coalesced, ?_⟩, ?_⟩
  · simp only [heapStep, deallocate, hadd, bind_eq_bind, bind_some, Option.pure_def]
  · have htotal : h.freelistSegments = freeLength (xs ++ block :: ys) := hl.total
    have hlen := hreleased.length
    rw [freeLength_append, freeLength_cons_used hused] at htotal
    rw [freeLength_append] at hlen
    change h'.freelistSegments = freeLength bs'
    rw [hfree, hlen, ← htotal]
  · have hperm : (usedBlocks (xs ++ block :: ys)).Perm (block :: usedBlocks (xs ++ ys)) := by
      rw [usedBlocks_append, usedBlocks_append]
      simp only [usedBlocks, filter_cons_of_pos hused]
      exact perm_middle
    have herase := (hs.live.symm.trans (hperm.map Block.start)).erase block.start
    rw [map_cons, erase_cons_head] at herase
    rw [hreleased.used]
    exact herase.symm

lemma Structured.expandBy (size memoryGranted) :
    ∃ s' bs', heapStep cfg s (.expandBy size memoryGranted true) = some s' ∧ Structured cfg s' bs' := by
  obtain ⟨h, live⟩ := s
  have hl := hs.layout
  have hspaces : Spaces cfg h := hl.spaces
  rcases hspaces.expandBy_spec size memoryGranted with ⟨ok, hsame⟩ | ⟨dm, n, hgrown, hle, hspaces'⟩
  · refine ⟨(h, live), bs, ?_, hs⟩
    simp only [heapStep, hsame, bind_eq_bind, bind_some, Option.pure_def]
  refine ⟨(grown h dm n (alignToPageSize cfg n), live), bs, ?_,
    ⟨⟨hl.blocks.tiles, fun b hb => (hl.blocks.held b hb).congr ?_ fun s hs hs' => ⟨rfl, rfl, ?_⟩, hl.blocks.freelist⟩,
      hspaces', hl.coalesced, hl.total⟩, hs.live⟩
  · simp only [heapStep, hgrown, bind_eq_bind, bind_some, Option.pure_def]
  · exact (Tiles.mem_bounds hl.blocks.tiles hb).2.1
  · have hend : b.start + b.length ≤ h.nextSegment := (Tiles.mem_bounds hl.blocks.tiles hb).2.2
    have := hspaces.next_le
    exact if_neg (by omega)

lemma Structured.step {e} (he : HeapOk cfg s e) : ∃ s' bs', heapStep cfg s e = some s' ∧ Structured cfg s' bs' := by
  cases e with
  | allocate instanceSize isCritical => exact hs.allocate he isCritical
  | deallocate b contents => exact hs.deallocate he contents
  | expandBy size memoryGranted segmapGranted =>
    obtain rfl : segmapGranted = true := he
    exact hs.expandBy size memoryGranted

end

lemma structured_reserve (contents) {committedSize} (hpages : 2 ^ cfg.logPageSize ∣ committedSize)
    (hle : committedSize ≤ cfg.reservedSize) :
    ∃ h, reserve cfg contents committedSize = some h ∧ Structured cfg (h, []) [] := by
  have hcommitted := sizeToSegments_mul hpages (fits_word hle)
  have hreserved := sizeToSegments_mul cfg.reserved_pages (fits_word (le_rfl))
  have hfit := fits_word (segments_le (le_of_eq hreserved))
  have hfitc := fits_word (le_trans (segments_le (le_of_eq hcommitted)) hle)
  have hmark := le_alignToPageSize hfitc
  refine ⟨_, if_pos (.inl hmark), ⟨⟨rfl, nofun, rfl⟩, ⟨rfl, hpages, hle, hcommitted, hreserved, ?_, rfl,
    zero_le _, fun s hs hlt => if_pos ⟨hs, hlt⟩⟩, List.IsChain.nil, rfl⟩, List.Perm.nil⟩
  refine alignToPageSize_le hfit ?_ (le_round_up _ (Nat.two_pow_pos _))
  exact dvd_trans (pow_dvd_pow 2 cfg.page_le_alignment) (dvd_mul_left _ _)

end

/-- After any sequence of operations the blocks tile the used segments, the free list holds the free ones in order and
merged, their total is counted, and every committed address is led to its block. Every operation that may come next
succeeds. -/
theorem code_heap_structure (cfg : HeapConfig) (contents : CodeHeap) {committedSize : Nat}
    (hpages : 2 ^ cfg.logPageSize ∣ committedSize) (hle : committedSize ≤ cfg.reservedSize) :
    ∃ h0, reserve cfg contents committedSize = some h0 ∧
      ∀ events s, run (guarded (HeapOk cfg) (heapStep cfg)) (h0, []) events = some s → (∃ bs, Structured cfg s bs ∧
          (∀ b ∈ bs, ∀ p, cfg.low + b.start * segmentSize cfg ≤ p →
            p < cfg.low + (b.start + b.length) * segmentSize cfg →
            s.1.findStart cfg p = some (if b.used then some (allocatedSpace cfg b.start) else none)) ∧
          ∀ p, cfg.low + s.1.nextSegment * segmentSize cfg ≤ p → p < cfg.low + s.1.memory.committedSize →
            s.1.findStart cfg p = some none) ∧ ∀ e, HeapOk cfg s e → ∃ s', heapStep cfg s e = some s' := by
  obtain ⟨h0, hreserve, hs0⟩ := structured_reserve contents hpages hle
  refine ⟨h0, hreserve, fun events s hrun => ?_⟩
  have hinv : ∃ bs, Structured cfg s bs := by
    refine Lib.run_invariant (fun s => ∃ bs, Structured cfg s bs) (fun _ => True) ?_ ⟨[], hs0⟩ (fun _ _ => trivial) hrun
    rintro s e s' ⟨bs, hs⟩ - hstep
    obtain ⟨hok, hstep⟩ := Lib.guarded_some hstep
    obtain ⟨s'', bs', hstep', hs'⟩ := hs.step hok
    rw [hstep] at hstep'
    cases hstep'
    exact ⟨bs', hs'⟩
  obtain ⟨bs, hs⟩ := hinv
  refine ⟨⟨bs, hs, fun b hb p hlo hhi => hs.layout.findStart_of_mem hb hlo hhi,
    fun p hlo hhi => hs.layout.findStart_beyond hlo hhi⟩, fun e he => ?_⟩
  obtain ⟨s', -, hstep, -⟩ := hs.step he
  exact ⟨s', hstep⟩

def sampleConfig : HeapConfig where
  low := 0x10000
  reservedSize := 128 * 4096
  logSegmentSize := 6
  logPageSize := 12
  logSegmapAlignment := 12
  minBlockLength := 4
  minimumFreeSpace := 4096
  freeBlock_fits := by decide
  segment_le_page := by decide
  page_le_alignment := by decide
  minBlockLength_pos := by decide
  reserved_pages := by decide
  minimumFreeSpace_lt := by decide
  reserved_in_memory := by decide

def blankHeap : CodeHeap where
  memory := ⟨0, 0⟩
  segmapSpace := ⟨0, 0⟩
  numberOfCommittedSegments := 0
  numberOfReservedSegments := 0
  nextSegment := 0
  freelist := none
  freelistSegments := 0
  length := fun _ => 0
  used := fun _ => false
  link := fun _ => none
  segmap := fun _ => 0

def sampleHeapEvents : List HeapEvent :=
  [.allocate 1000 false, .allocate 100 true, .deallocate 0 none, .allocate 200 false, .expandBy 4096 true true]

theorem code_heap_structure_sample : ∃ h0 s bs, reserve sampleConfig blankHeap (64 * 4096) = some h0 ∧
      run (guarded (HeapOk sampleConfig) (heapStep sampleConfig)) (h0, []) sampleHeapEvents = some s ∧
      Structured sampleConfig s bs := by
  have hpages : 2 ^ sampleConfig.logPageSize ∣ 64 * 4096 := by decide
  have hle : 64 * 4096 ≤ sampleConfig.reservedSize := by decide
  obtain ⟨h0, hreserve, hall⟩ := code_heap_structure sampleConfig blankHeap hpages hle
  have hsome : ((reserve sampleConfig blankHeap (64 * 4096)).bind fun h =>
      run (guarded (HeapOk sampleConfig) (heapStep sampleConfig)) (h, []) sampleHeapEvents).isSome = true := by
    decide +kernel
  rw [hreserve] at hsome
  obtain ⟨s, hrun⟩ := isSome_iff_exists.1 hsome
  obtain ⟨⟨bs, hs, -⟩, -⟩ := hall _ s hrun
  exact ⟨h0, s, bs, hreserve, hrun, hs⟩

/-- The memory is granted and the segment map refused: the entry of the last committed segment is not committed, and its
address cannot be looked up. -/
theorem find_start_after_refused_segmap : ((reserve sampleConfig blankHeap (64 * 4096)).bind fun h =>
        run (heapStep sampleConfig) (h, []) [.expandBy 4096 true false]).map (fun s =>
      (s.1.memory.committedSize, s.1.numberOfCommittedSegments, s.1.segmapSpace.committedSize,
        s.1.findStart sampleConfig (0x10000 + 65 * 4096 - 1))) = some (65 * 4096, 4160, 4096, none) := by
  decide +kernel

end Rolp.Code
