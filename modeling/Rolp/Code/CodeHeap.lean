import Rolp.Lib.Tiling
import Mathlib.Algebra.Ring.Nat
import Rolp.Lib.LinkedSlots

/-!
# The code heap

`CodeHeap` of `heap.cpp`. Blocks start at a segment, so a pointer to a block is the number of its first segment.
`size_t` arithmetic is modulo 2^64. An access to a segment map entry that has not been committed is `none`, as are a
null pointer that is followed and a loop that has not ended.
-/

namespace Rolp.Code

open Function

open Lib (fillBack walkBack)

/-- `sizeof(HeapBlock)` -/
def headerSize : Nat := 16

/-- `sizeof(FreeBlock)` -/
def freeBlockSize : Nat := 24

/-- The flags and what the operating system and `reserve` fix. Sizes of pages and segments are powers
of two; spaces are reserved and committed in pages. -/
structure HeapConfig where
  low : Nat
  reservedSize : Nat
  logSegmentSize : Nat
  logPageSize : Nat
  /-- `MAX2(os::vm_page_size(), os::vm_allocation_granularity())` -/
  logSegmapAlignment : Nat
  /-- `CodeCacheMinBlockLength` -/
  minBlockLength : Nat
  /-- `CodeCacheMinimumFreeSpace` -/
  minimumFreeSpace : Nat
  freeBlock_fits : freeBlockSize ≤ 2 ^ logSegmentSize
  segment_le_page : logSegmentSize ≤ logPageSize
  page_le_alignment : logPageSize ≤ logSegmapAlignment
  minBlockLength_pos : 0 < minBlockLength
  reserved_pages : 2 ^ logPageSize ∣ reservedSize
  minimumFreeSpace_lt : minimumFreeSpace < 2 ^ 64
  reserved_in_memory : low + reservedSize + 2 ^ logSegmapAlignment ≤ 2 ^ 64

/-- `VirtualSpace`: how much of it is reserved, and how much is committed. -/
structure VirtualSpace where
  reservedSize : Nat
  committedSize : Nat

/-- `expand_by`, where `granted` is the answer of the operating system. -/
def VirtualSpace.expandBy (v : VirtualSpace) (bytes : Nat) (granted : Bool) : Option VirtualSpace :=
  if v.reservedSize - v.committedSize < bytes then none
  else if granted then some { v with committedSize := v.committedSize + bytes }
  else none

structure CodeHeap where
  memory : VirtualSpace
  segmapSpace : VirtualSpace
  numberOfCommittedSegments : Nat
  numberOfReservedSegments : Nat
  nextSegment : Nat
  freelist : Option Nat
  freelistSegments : Nat
  /-- the headers of blocks -/
  length : Nat → Nat
  used : Nat → Bool
  /-- `_link`, which for a used block is part of its allocated space -/
  link : Nat → Option Nat
  segmap : Nat → Nat

structure Best where
  block : Nat
  prev : Option Nat
  length : Nat

def wrapSub (a b : Nat) : Nat := (a + 2 ^ 64 - b) % 2 ^ 64

variable (cfg : HeapConfig)

def segmentSize : Nat := 2 ^ cfg.logSegmentSize

def sizeToSegments (size : Nat) : Nat := ((size + segmentSize cfg - 1) % 2 ^ 64) >>> cfg.logSegmentSize

def segmentsToSize (numberOfSegments : Nat) : Nat := (numberOfSegments <<< cfg.logSegmentSize) % 2 ^ 64

def alignToPageSize (size : Nat) : Nat :=
  ((size + 2 ^ cfg.logPageSize - 1) % 2 ^ 64) / 2 ^ cfg.logPageSize * 2 ^ cfg.logPageSize

def highBoundary : Nat := cfg.low + cfg.reservedSize

namespace CodeHeap

variable {cfg} (h : CodeHeap)

def markSegmapAsFree (beg end' : Nat) : Option CodeHeap :=
  if end' ≤ h.segmapSpace.committedSize ∨ end' ≤ beg then
    some { h with segmap := fun s => if beg ≤ s ∧ s < end' then 0xFF else h.segmap s }
  else none

def markSegmapAsUsed (beg end' : Nat) : Option CodeHeap :=
  if end' ≤ h.segmapSpace.committedSize ∨ end' ≤ beg then
    some { h with segmap := fillBack 0xFE h.segmap (end' - beg) beg 0 }
  else none

variable (cfg) in
/-- The part of `expand_by` that expands the segment map from `i` to `n` entries. -/
def expandSegmap (i n : Nat) (granted : Bool) : Option (CodeHeap × Bool) :=
  let ds := wrapSub (alignToPageSize cfg n) h.segmapSpace.committedSize
  if 0 < ds then
    match h.segmapSpace.expandBy ds granted with
    | none => some (h, false)
    | some space => (({ h with segmapSpace := space } : CodeHeap).markSegmapAsFree i n).map (·, true)
  else (h.markSegmapAsFree i n).map (·, true)

variable (cfg) in
/-- `expand_by`, with the answers of the operating system for the memory and for the segment map. -/
def expandBy (h : CodeHeap) (size : Nat) (memoryGranted segmapGranted : Bool) : Option (CodeHeap × Bool) :=
  let dm := wrapSub (alignToPageSize cfg (h.memory.committedSize + size)) h.memory.committedSize
  if 0 < dm then
    match h.memory.expandBy dm memoryGranted with
    | none => some (h, false)
    | some memory =>
      let i := h.numberOfCommittedSegments
      let n := sizeToSegments cfg memory.committedSize
      ({ h with memory := memory, numberOfCommittedSegments := n } : CodeHeap).expandSegmap cfg i n segmapGranted
  else some (h, true)

/-! ## Free list management -/

def followingBlock (b : Nat) : Nat := b + h.length b

def mergeRight (a : Nat) : Option CodeHeap :=
  match h.link a with
  | none => some h
  | some b =>
    if h.followingBlock a = b then
      let h := { h with length := update h.length a (h.length a + h.length b) }
      let h := { h with link := update h.link a (h.link b) }
      h.markSegmapAsUsed a (a + h.length a)
    else some h

def insertAfter (a b : Nat) : Option CodeHeap := do
  let h := { h with link := update h.link b (h.link a) }
  let h := { h with link := update h.link a (some b) }
  let h ← h.mergeRight b
  h.mergeRight a

/-- The loop of `add_to_freelist`: the last free block before `b`. -/
def findPrev (h : CodeHeap) (b : Nat) : Nat → Option Nat → Option Nat → Option (Option Nat)
  | 0, _, _ => none
  | _ + 1, prev, none => some prev
  | fuel + 1, prev, some cur => if cur < b then h.findPrev b fuel (some cur) (h.link cur) else some prev

def fuel : Nat := h.nextSegment + 1

def setFree (b : Nat) : CodeHeap :=
  { h with freelistSegments := h.freelistSegments + h.length b, used := update h.used b false }

/-- The rest of `add_to_freelist`, which puts the block into the list. -/
def linkFree (b : Nat) : Option CodeHeap :=
  match h.freelist with
  | none => some { h with freelist := some b, link := update h.link b none }
  | some first =>
    (h.findPrev b h.fuel none (some first)).bind fun prev =>
      match prev with
      | none => ({ h with link := update h.link b (some first), freelist := some b } : CodeHeap).mergeRight b
      | some prev => h.insertAfter prev b

def addToFreelist (b : Nat) : Option CodeHeap := (h.setFree b).linkFree b

variable (cfg) in
/-- The loop of `search_freelist`. -/
def searchLoop (h : CodeHeap) (length : Nat) (isCritical : Bool) :
    Nat → Option Nat → Option Nat → Option Best → Option (Option Best)
  | 0, _, _, _ => none
  | _ + 1, _, none, best => some best
  | fuel + 1, prev, some cur, best =>
    let l := h.length cur
    if length ≤ l ∧ (∀ b ∈ best, l < b.length) then
      if !isCritical ∧
          wrapSub (highBoundary cfg) cfg.minimumFreeSpace < cfg.low + cur * segmentSize cfg + length then
        some best
      else h.searchLoop length isCritical fuel (some cur) (h.link cur) (some ⟨cur, prev, l⟩)
    else h.searchLoop length isCritical fuel (some cur) (h.link cur) best

def unlinkBest (best : Best) : CodeHeap :=
  match best.prev with
  | none => { h with freelist := h.link best.block }
  | some prev => { h with link := update h.link prev (h.link best.block) }

/-- `set_used`, and the segments are no longer free. -/
def setUsed (b length : Nat) : CodeHeap :=
  { h with used := update h.used b true, freelistSegments := h.freelistSegments - length }

variable (cfg) in
def searchFreelist (length : Nat) (isCritical : Bool) : Option (CodeHeap × Option Nat) := do
  match ← h.searchLoop cfg length isCritical h.fuel none h.freelist none with
  | none => return (h, none)
  | some best =>
    if best.length < length + cfg.minBlockLength then
      return ((h.unlinkBest best).setUsed best.block best.length, some best.block)
    else
      let h := { h with length := update h.length best.block (best.length - length) }
      let block := h.followingBlock best.block
      let h ← h.markSegmapAsUsed block (block + length)
      let h := { h with length := update h.length block length }
      return (h.setUsed block length, some block)

variable (cfg) in
def heapUnallocatedCapacity : Nat :=
  segmentsToSize cfg (h.numberOfReservedSegments - h.nextSegment)

variable (cfg) in
/-- The part of `allocate` that takes a block from the end of the heap. -/
def allocateAtEnd (numberOfSegments : Nat) (isCritical : Bool) : Option (CodeHeap × Option Nat) :=
  let numberOfSegments := max numberOfSegments cfg.minBlockLength
  let available := wrapSub (h.heapUnallocatedCapacity cfg) cfg.minimumFreeSpace
  if !isCritical ∧ available < segmentsToSize cfg numberOfSegments then some (h, none)
  else if h.nextSegment + numberOfSegments ≤ h.numberOfCommittedSegments then do
    let h ← h.markSegmapAsUsed h.nextSegment (h.nextSegment + numberOfSegments)
    let b := h.nextSegment
    let h := { h with length := update h.length b numberOfSegments }
    let h := { h with used := update h.used b true }
    return ({ h with nextSegment := h.nextSegment + numberOfSegments }, some b)
  else some (h, none)

variable (cfg) in
def numberOfSegments (instanceSize : Nat) : Nat := sizeToSegments cfg ((instanceSize + headerSize) % 2 ^ 64)

variable (cfg) in
/-- `allocate`; the result is the block, whose allocated space follows its header. -/
def allocate (instanceSize : Nat) (isCritical : Bool) : Option (CodeHeap × Option Nat) := do
  let numberOfSegments := numberOfSegments cfg instanceSize
  let (h, block) ← h.searchFreelist cfg numberOfSegments isCritical
  match block with
  | some block => return (h, some block)
  | none => h.allocateAtEnd cfg numberOfSegments isCritical

def deallocate (b : Nat) : Option CodeHeap := h.addToFreelist b

variable (cfg) in
def allocatedSpace (b : Nat) : Nat := cfg.low + b * segmentSize cfg + headerSize

variable (cfg) in
/-- `find_start`: the outer `none` is an entry that cannot be read or a loop that has not ended. -/
def findStart (p : Nat) : Option (Option Nat) :=
  if ¬ (cfg.low ≤ p ∧ p < cfg.low + h.memory.committedSize) then some none
  else
    let i := (p - cfg.low) >>> cfg.logSegmentSize
    if i < h.segmapSpace.committedSize then
      if h.segmap i = 0xFF then some none
      else do
        let i ← walkBack h.segmap (i + 1) i
        if h.used i = false then return none else return some (allocatedSpace cfg i)
    else none

variable (cfg) in
/-- `reserve`, with the aligned sizes; `contents` is what memory holds. -/
def reserve (contents : CodeHeap) (committedSize : Nat) : Option CodeHeap :=
  let memory : VirtualSpace := ⟨cfg.reservedSize, committedSize⟩
  let committed := sizeToSegments cfg committedSize
  let reserved := sizeToSegments cfg cfg.reservedSize
  let alignment := 2 ^ cfg.logSegmapAlignment
  let h :=
    { contents with
      memory := memory
      segmapSpace := ⟨(reserved + alignment - 1) / alignment * alignment, alignToPageSize cfg committed⟩
      numberOfCommittedSegments := committed
      numberOfReservedSegments := reserved
      nextSegment := 0
      freelist := none
      freelistSegments := 0 }
  h.markSegmapAsFree 0 committed

end CodeHeap

end Rolp.Code

/-! ## The layout of the code heap -/

namespace Rolp.Code

open Lib (Tiles tiles_append backDistance)

structure Block where
  start : Nat
  length : Nat
  used : Bool

def Block.extent (b : Block) : Nat × Nat := (b.start, b.length)

variable (bs : List Block)

def extents : List (Nat × Nat) := bs.map Block.extent

def freeBlocks : List Block := bs.filter fun b => !b.used

def freeStarts : List Nat := (freeBlocks bs).map Block.start

section
variable {bs xs ys : List Block} {b : Block}

@[simp] lemma extents_append (xs ys) : extents (xs ++ ys) = extents xs ++ extents ys := List.map_append

@[simp] lemma freeBlocks_append (xs ys) : freeBlocks (xs ++ ys) = freeBlocks xs ++ freeBlocks ys :=
  List.filter_append ..

lemma freeBlocks_cons_used (hb : b.used = true) (bs) : freeBlocks (b :: bs) = freeBlocks bs := by simp [freeBlocks, hb]

lemma freeBlocks_cons_free (hb : b.used = false) (bs) : freeBlocks (b :: bs) = b :: freeBlocks bs := by
  simp [freeBlocks, hb]

@[simp] lemma freeStarts_append (xs ys) : freeStarts (xs ++ ys) = freeStarts xs ++ freeStarts ys := by simp [freeStarts]

lemma freeStarts_cons_used (hb : b.used = true) (bs) : freeStarts (b :: bs) = freeStarts bs := by
  rw [freeStarts, freeBlocks_cons_used hb]
  rfl

lemma freeStarts_cons_free (hb : b.used = false) (bs) : freeStarts (b :: bs) = b.start :: freeStarts bs := by
  rw [freeStarts, freeBlocks_cons_free hb]
  rfl

lemma mem_freeStarts {s} : s ∈ freeStarts bs ↔ ∃ b ∈ bs, b.used = false ∧ b.start = s := by
  simp [freeStarts, freeBlocks, and_assoc]

lemma freeStarts_sublist (bs) : (freeStarts bs).Sublist ((extents bs).map Prod.fst) := by
  rw [extents, List.map_map]
  exact List.filter_sublist.map _

lemma tiles_middle {lo hi} (h : Tiles lo (extents (xs ++ b :: ys)) hi) :
    Tiles lo (extents xs) b.start ∧ 0 < b.length ∧ Tiles (b.start + b.length) (extents ys) hi := by
  rw [extents_append, tiles_append] at h
  obtain ⟨mid, hxs, hmid, hpos, hys⟩ := h
  obtain rfl : b.start = mid := hmid
  exact ⟨hxs, hpos, hys⟩

lemma Tiles.mem_bounds {lo hi} (h : Tiles lo (extents bs) hi) (hb : b ∈ bs) :
    lo ≤ b.start ∧ 0 < b.length ∧ b.start + b.length ≤ hi := by
  have hmem : b.extent ∈ extents bs := List.mem_map_of_mem hb
  exact ⟨(h.within _ hmem).1, h.pos _ hmem, (h.within _ hmem).2⟩

lemma tiles_freeStarts_nodup {lo hi} (h : Tiles lo (extents bs) hi) : (freeStarts bs).Nodup :=
  h.nodup_starts.sublist (freeStarts_sublist bs)

lemma freeStarts_bounds {lo hi} (h : Tiles lo (extents bs) hi) : ∀ s ∈ freeStarts bs, lo ≤ s ∧ s < hi := by
  intro s hs
  obtain ⟨c, hc, -, rfl⟩ := mem_freeStarts.1 hs
  have := Tiles.mem_bounds h hc
  omega

lemma start_notMem_freeStarts {lo hi} (h : Tiles lo (extents (xs ++ b :: ys)) hi) :
    b.start ∉ freeStarts xs ++ freeStarts ys := by
  obtain ⟨hxs, hpos, hys⟩ := tiles_middle h
  intro hmem
  rcases List.mem_append.1 hmem with hmem | hmem
  · have := freeStarts_bounds hxs _ hmem
    omega
  · have := freeStarts_bounds hys _ hmem
    omega

lemma length_freeStarts_le {hi} (h : Tiles 0 (extents bs) hi) : (freeStarts bs).length ≤ hi := by
  have hle := (freeStarts_sublist bs).length_le
  have := h.length_le
  rw [List.length_map] at hle
  omega

end

/-! ## Blocks in memory -/

structure AgreeAt (h h' : CodeHeap) (s : Nat) : Prop where
  length : h'.length s = h.length s
  used : h'.used s = h.used s
  segmap : h'.segmap s = h.segmap s

structure Block.Held (h : CodeHeap) (b : Block) : Prop where
  length : h.length b.start = b.length
  used : h.used b.start = b.used
  marked : ∀ k < b.length, h.segmap (b.start + k) = backDistance 0xFE k

lemma Block.Held.congr {h h' : CodeHeap} {b : Block} (hb : b.Held h) (hpos : 0 < b.length)
    (hs : ∀ s, b.start ≤ s → s < b.start + b.length → AgreeAt h h' s) : b.Held h' := by
  have hstart := hs b.start (le_rfl) (by omega)
  refine ⟨hstart.length.trans hb.length, hstart.used.trans hb.used, fun k hk => ?_⟩
  rw [(hs (b.start + k) (by omega) (by omega)).segmap]
  exact hb.marked k hk

/-- Blocks that tile the used segments, and the free list through the free ones. -/
structure Blocks (h : CodeHeap) (bs : List Block) : Prop where
  tiles : Tiles 0 (extents bs) h.nextSegment
  held : ∀ b ∈ bs, b.Held h
  freelist : Lib.Linked h.link h.freelist (freeStarts bs)

section
variable {h h' : CodeHeap} {xs mid ys : List Block} {lo hi : Nat}

lemma Blocks.assemble (hout : ∀ b ∈ xs ++ ys, b.Held h) (hxs : Tiles 0 (extents xs) lo)
    (hmid : Tiles lo (extents mid) hi) (hys : Tiles hi (extents ys) h'.nextSegment) (hheld : ∀ b ∈ mid, b.Held h')
    (hsame : ∀ s, s < lo ∨ hi ≤ s → AgreeAt h h' s)
    (hfree : Lib.Linked h'.link h'.freelist (freeStarts (xs ++ (mid ++ ys)))) : Blocks h' (xs ++ (mid ++ ys)) := by
  refine ⟨?_, fun b hmem => ?_, hfree⟩
  · rw [extents_append, extents_append, tiles_append]
    exact ⟨lo, hxs, tiles_append.2 ⟨hi, hmid, hys⟩⟩
  · rcases List.mem_append.1 hmem with hmem | hmem
    · obtain ⟨-, hpos, hle⟩ := Tiles.mem_bounds hxs hmem
      exact (hout b (by simp [hmem])).congr hpos fun s hs hs' => hsame s (.inl (by omega))
    rcases List.mem_append.1 hmem with hmem | hmem
    · exact hheld b hmem
    · obtain ⟨hle, hpos, -⟩ := Tiles.mem_bounds hys hmem
      exact (hout b (by simp [hmem])).congr hpos fun s hs hs' => hsame s (.inr (by omega))

end

/-! ## The bounds of the spaces -/

structure Spaces (cfg : HeapConfig) (h : CodeHeap) : Prop where
  memory : h.memory.reservedSize = cfg.reservedSize
  committed_pages : 2 ^ cfg.logPageSize ∣ h.memory.committedSize
  committed_le : h.memory.committedSize ≤ cfg.reservedSize
  committed : h.numberOfCommittedSegments * segmentSize cfg = h.memory.committedSize
  reserved : h.numberOfReservedSegments * segmentSize cfg = cfg.reservedSize
  segmap_reserved : alignToPageSize cfg h.numberOfReservedSegments ≤ h.segmapSpace.reservedSize
  segmap_committed : h.segmapSpace.committedSize = alignToPageSize cfg h.numberOfCommittedSegments
  next_le : h.nextSegment ≤ h.numberOfCommittedSegments
  /-- what has not been used is marked so -/
  unmarked : ∀ s, h.nextSegment ≤ s → s < h.numberOfCommittedSegments → h.segmap s = 0xFF

def Coalesced (bs : List Block) : Prop := bs.IsChain fun b b' => b.used = true ∨ b'.used = true

structure Layout (cfg : HeapConfig) (h : CodeHeap) (bs : List Block) : Prop where
  blocks : Blocks h bs
  spaces : Spaces cfg h
  coalesced : Coalesced bs
  total : h.freelistSegments = ((freeBlocks bs).map Block.length).sum

end Rolp.Code
