import Rolp.Heap.Fillers
import Rolp.Lib.Run

/-!
# Thread-local allocation buffers

A TLAB hands out the words of one chunk from the bottom up.
-/

namespace Rolp.Heap

open Rolp.Lib Function Nat

/-- `ThreadLocalAllocBuffer::max_size` -/
def ObjectLayout.tlabMaxSize (c : ObjectLayout) : Nat :=
  alignSizeDown (c.intArrayHeaderSize + 4 * (maxJint / 8)) c.minObjAlignment

lemma ObjectLayout.tlabMaxSize_fits (c : ObjectLayout) :
    c.tlabMaxSize ≤ c.fillerArrayMaxSize ∧ 2 * (c.tlabMaxSize - c.fillerArrayHdrSize) ≤ maxJint := by
  obtain ⟨k, compressed, hk⟩ := c
  cases compressed <;> interval_cases k <;> decide +revert

/-- The object layout, `VM_Version::reserve_for_allocation_prefetch()` and the flag `ZeroTLAB`. -/
structure TlabConfig where
  layout : ObjectLayout
  prefetchReserve : Nat
  zeroTLAB : Bool

namespace TlabConfig

variable (c : TlabConfig)

/-- `alignment_reserve`, of `end_reserve` -/
def alignmentReserve : Nat := c.layout.alignObjectSize (max c.layout.intArrayHeaderSize c.prefetchReserve)

def maxSize : Nat := c.layout.tlabMaxSize

/-- `compute_size`, where `availableSize` is what the heap says it can give. -/
def computeSize (availableSize desiredSize objSize : Nat) : Nat :=
  let alignedObjSize := c.layout.alignObjectSize objSize
  let newTlabSize := min availableSize (desiredSize + alignedObjSize)
  if newTlabSize < alignedObjSize + c.alignmentReserve then 0 else newTlabSize

end TlabConfig

structure Tlab where
  start : Nat
  top : Nat
  pfTop : Nat
  endAddr : Nat
  deriving DecidableEq

/-- A TLAB and the memory it hands out: the size that a heap walk reads at an address. The last three fields record the
chunk of the last `fill` and the objects in it. -/
structure TlabHeap where
  tlab : Tlab
  sizeAt : Nat → Nat
  chunkStart : Nat
  chunkEnd : Nat
  objects : List (Nat × Nat)

namespace TlabHeap

variable (c : TlabConfig) (s : TlabHeap)

def withObject (addr size : Nat) : TlabHeap :=
  { s with sizeAt := update s.sizeAt addr size, objects := s.objects ++ [(addr, size)] }

/-- `fill` a new chunk whose first `size` words are taken by an object. -/
def fill (start size newSize : Nat) : TlabHeap :=
  let top := start + size
  { s with
    tlab := ⟨start, top, top, start + newSize - c.alignmentReserve⟩
    chunkStart := start
    chunkEnd := start + newSize
    objects := [] }.withObject start size

def allocate (size : Nat) : TlabHeap × Option Nat :=
  let obj := s.tlab.top
  if size ≤ s.tlab.endAddr - obj then
    ({ s with tlab := { s.tlab with top := obj + size } }.withObject obj size, some obj)
  else (s, none)

def hardEnd : Nat := s.tlab.endAddr + c.alignmentReserve

def writeFillers (fillers : List (Nat × Filler)) : TlabHeap :=
  { s with
    sizeAt := fillers.foldl (fun sizeAt p => update sizeAt p.1 (p.2.size c.layout).toNat) s.sizeAt }

def makeParsable (retire : Bool) : TlabHeap :=
  if s.tlab.endAddr ≠ 0 then
    let s' := s.writeFillers c (fillWithObjectImpl c.layout s.tlab.top (s.hardEnd c - s.tlab.top))
    if retire || c.zeroTLAB then { s' with tlab := ⟨0, 0, 0, 0⟩ } else s'
  else s

end TlabHeap

inductive TlabOp where
  | fill (start size newSize : Nat)
  | allocate (size : Nat)
  | makeParsable (retire : Bool)

def TlabHeap.step (c : TlabConfig) (s : TlabHeap) : TlabOp → Option TlabHeap
  | .fill start size newSize => some (s.fill c start size newSize)
  | .allocate size => some (s.allocate size).1
  | .makeParsable retire => some (s.makeParsable c retire)

/-- Sizes are aligned, and a chunk has room for its first object and the reserve but is not larger than `max_size`
without the object. -/
def TlabOp.Ok (c : TlabConfig) : TlabOp → Prop
  | .fill start size newSize =>
    0 < start ∧ 0 < size ∧ start % c.layout.minObjAlignment = 0 ∧ size % c.layout.minObjAlignment = 0 ∧
      newSize % c.layout.minObjAlignment = 0 ∧ size + c.alignmentReserve ≤ newSize ∧ newSize ≤ size + c.maxSize
  | .allocate size => 0 < size ∧ size % c.layout.minObjAlignment = 0
  | .makeParsable _ => True

instance (c : TlabConfig) : (op : TlabOp) → Decidable (op.Ok c)
  | .fill _ _ _ => inferInstanceAs (Decidable (_ ∧ _))
  | .allocate _ => inferInstanceAs (Decidable (_ ∧ _))
  | .makeParsable _ => inferInstanceAs (Decidable True)

/-! ## Reserve and sizes -/

namespace TlabConfig

variable (c : TlabConfig)

lemma minFillSize_le_alignmentReserve : c.layout.minFillSize ≤ c.alignmentReserve := by
  refine le_trans c.layout.sizeFacts.minFill_le ?_
  refine alignSizeUp_mono ?_ _
  rw [c.layout.sizeFacts.hdr_eq]
  exact le_max_left _ _

lemma fillable {words} (haligned : words % c.layout.minObjAlignment = 0) (hmin : c.alignmentReserve ≤ words)
    (hmax : words ≤ c.maxSize) : Fillable c.layout words := by
  obtain ⟨hle, hfits⟩ := c.layout.tlabMaxSize_fits
  unfold maxSize at hmax
  exact ⟨haligned, le_trans c.minFillSize_le_alignmentReserve hmin, le_trans hmax hle, by omega⟩

lemma computeSize_spec {availableSize desiredSize objSize}
    (haligned : objSize % c.layout.minObjAlignment = 0) (hdesired : desiredSize ≤ c.maxSize)
    (hsize : c.computeSize availableSize desiredSize objSize ≠ 0) :
    objSize + c.alignmentReserve ≤ c.computeSize availableSize desiredSize objSize ∧
      c.computeSize availableSize desiredSize objSize ≤ objSize + c.maxSize := by
  have hobj : c.layout.alignObjectSize objSize = objSize := alignSizeUp_of_mod c.layout.sizeFacts.alignment_pos haligned
  unfold computeSize at hsize ⊢
  simp only [hobj] at hsize ⊢
  split at hsize
  · exact absurd rfl hsize
  next hlarge =>
    rw [if_neg hlarge]
    omega

end TlabConfig

lemma aligned_add {a b alignment} (ha : a % alignment = 0) (hb : b % alignment = 0) : (a + b) % alignment = 0 :=
  mod_eq_zero_of_dvd (Nat.dvd_add (dvd_of_mod_eq_zero ha) (dvd_of_mod_eq_zero hb))

/-! ## The invariant -/

namespace TlabHeap

variable {c : TlabConfig} {s : TlabHeap}

def TiledByFiller (c : TlabConfig) (s : TlabHeap) : Prop :=
  ∃ filler : Nat × Nat, c.layout.minFillSize ≤ filler.2 ∧ Tiles s.chunkStart (s.objects ++ [filler]) s.chunkEnd ∧
    ∀ b ∈ s.objects ++ [filler], s.sizeAt b.1 = b.2

structure Active (c : TlabConfig) (s : TlabHeap) : Prop where
  end_ne : s.tlab.endAddr ≠ 0
  start_eq : s.tlab.start = s.chunkStart
  top_le : s.tlab.top ≤ s.tlab.endAddr
  hardEnd_eq : s.hardEnd c = s.chunkEnd
  tiles : Tiles s.chunkStart s.objects s.tlab.top
  sizes : ∀ b ∈ s.objects, s.sizeAt b.1 = b.2
  top_aligned : s.tlab.top % c.layout.minObjAlignment = 0
  end_aligned : s.chunkEnd % c.layout.minObjAlignment = 0
  rest_le : s.chunkEnd - s.tlab.top ≤ c.maxSize

structure Retired (c : TlabConfig) (s : TlabHeap) : Prop where
  reset : s.tlab = ⟨0, 0, 0, 0⟩
  tiled : s.TiledByFiller c

def Valid (c : TlabConfig) (s : TlabHeap) : Prop := s.Active c ∨ s.Retired c

variable {size : Nat}

lemma fill_active {start newSize} (h : (TlabOp.fill start size newSize).Ok c) :
    (s.fill c start size newSize).Active c := by
  obtain ⟨hstart, hsize, hstartAligned, hsizeAligned, hnewAligned, hmin, hmax⟩ := h
  refine ⟨?_, rfl, ?_, ?_, ?_, ?_, ?_, ?_, ?_⟩
  · change start + newSize - c.alignmentReserve ≠ 0
    omega
  · change start + size ≤ start + newSize - c.alignmentReserve
    omega
  · change start + newSize - c.alignmentReserve + c.alignmentReserve = start + newSize
    omega
  · exact ⟨rfl, hsize, rfl⟩
  · intro b hb
    cases List.mem_singleton.1 hb
    exact update_self start size s.sizeAt
  · exact aligned_add hstartAligned hsizeAligned
  · exact aligned_add hstartAligned hnewAligned
  · change start + newSize - (start + size) ≤ c.maxSize
    omega

section

variable (h : s.Active c)

include h

lemma Active.sizes_snoc (size) :
    ∀ b ∈ s.objects ++ [(s.tlab.top, size)], update s.sizeAt s.tlab.top size b.1 = b.2 := by
  intro b hb
  rcases List.mem_append.1 hb with hb | hb
  · have hpos := h.tiles.pos b hb
    have hne : b.1 ≠ s.tlab.top := by
      have := (h.tiles.within b hb).2
      omega
    rw [update_of_ne hne]
    exact h.sizes b hb
  · cases List.mem_singleton.1 hb
    exact update_self s.tlab.top size s.sizeAt

lemma Active.allocate (hsize : 0 < size)
    (haligned : size % c.layout.minObjAlignment = 0) : (s.allocate size).1.Active c := by
  unfold TlabHeap.allocate
  dsimp only
  split
  · refine ⟨h.end_ne, h.start_eq, ?_, h.hardEnd_eq, h.tiles.snoc hsize, h.sizes_snoc size, ?_, h.end_aligned, ?_⟩
    · change s.tlab.top + size ≤ s.tlab.endAddr
      omega
    · exact aligned_add h.top_aligned haligned
    · have := h.rest_le
      change s.chunkEnd - (s.tlab.top + size) ≤ c.maxSize
      omega
  · exact h

lemma Active.writeFillers :
    ∃ size, (s.writeFillers c (fillWithObjectImpl c.layout s.tlab.top (s.hardEnd c - s.tlab.top))).sizeAt =
        update s.sizeAt s.tlab.top size ∧ c.layout.minFillSize ≤ size ∧ s.tlab.top + size = s.chunkEnd := by
  have htop := h.top_le
  have hhard := h.hardEnd_eq
  have hreserve : c.alignmentReserve ≤ s.hardEnd c - s.tlab.top := by
    unfold TlabHeap.hardEnd
    omega
  have haligned : (s.hardEnd c - s.tlab.top) % c.layout.minObjAlignment = 0 := by
    rw [hhard]
    exact sub_mod_eq_zero_of_mod_eq (h.end_aligned.trans h.top_aligned.symm)
  have hfillable := c.fillable haligned hreserve (hhard ▸ h.rest_le)
  obtain ⟨f, hf, hsize, -⟩ := hfillable.object_impl s.tlab.top
  refine ⟨s.hardEnd c - s.tlab.top, ?_, hfillable.min_le, ?_⟩
  · simp [TlabHeap.writeFillers, hf, hsize]
  · rw [← hhard]
    unfold TlabHeap.hardEnd
    omega

lemma Active.tiled {sizeAt} (hsizeAt : sizeAt = update s.sizeAt s.tlab.top size) (hmin : c.layout.minFillSize ≤ size)
    (hend : s.tlab.top + size = s.chunkEnd) (tlab) : TiledByFiller c { s with sizeAt, tlab } := by
  refine ⟨(s.tlab.top, size), hmin, ?_, ?_⟩
  · have hpos := lt_of_lt_of_le c.layout.sizeFacts.minFill_pos hmin
    exact hend ▸ h.tiles.snoc hpos
  · rw [hsizeAt]
    exact h.sizes_snoc size

lemma Active.makeParsable (retire) : (s.makeParsable c retire).TiledByFiller c ∧ (s.makeParsable c retire).Valid c := by
  obtain ⟨size, hsizeAt, hmin, hend⟩ := h.writeFillers
  unfold TlabHeap.makeParsable
  rw [if_pos h.end_ne]
  split
  · have htiled := h.tiled hsizeAt hmin hend ⟨0, 0, 0, 0⟩
    exact ⟨htiled, .inr ⟨rfl, htiled⟩⟩
  · refine ⟨h.tiled hsizeAt hmin hend s.tlab, .inl ?_⟩
    refine ⟨h.end_ne, h.start_eq, h.top_le, h.hardEnd_eq, h.tiles, ?_, h.top_aligned, h.end_aligned, h.rest_le⟩
    rw [hsizeAt]
    exact fun b hb => h.sizes_snoc size b (List.mem_append_left _ hb)

end

lemma Retired.makeParsable (h : s.Retired c) (retire) : s.makeParsable c retire = s := by
  unfold TlabHeap.makeParsable
  rw [h.reset]
  rfl

lemma Retired.allocate (h : s.Retired c) (hsize : 0 < size) : s.allocate size = (s, none) := by
  unfold TlabHeap.allocate
  rw [h.reset]
  exact if_neg (not_le.2 hsize)

lemma Valid.makeParsable (h : s.Valid c) (retire) :
    (s.makeParsable c retire).TiledByFiller c ∧ (s.makeParsable c retire).Valid c := by
  rcases h with hactive | hretired
  · exact hactive.makeParsable retire
  · rw [hretired.makeParsable]
    exact ⟨hretired.tiled, .inr hretired⟩

lemma step_valid {op} (h : s.Valid c) (hop : op.Ok c) : ∃ s', s.step c op = some s' ∧ s'.Valid c := by
  cases op with
  | fill start size newSize => exact ⟨_, rfl, .inl (fill_active hop)⟩
  | allocate size =>
    refine ⟨_, rfl, ?_⟩
    rcases h with hactive | hretired
    · exact .inl (hactive.allocate hop.1 hop.2)
    · rw [hretired.allocate hop.1]
      exact .inr hretired
  | makeParsable retire => exact ⟨_, rfl, (h.makeParsable retire).2⟩

lemma run_valid {start newSize ops} (hfill : (TlabOp.fill start size newSize).Ok c) (hops : ∀ op ∈ ops, op.Ok c) :
    ∃ s', run (TlabHeap.step c) s (.fill start size newSize :: ops) = some s' ∧ s'.Valid c := by
  rw [run_cons]
  exact run_defined (Valid c) (TlabOp.Ok c) (fun _ _ h hop => step_valid h hop) (.inl (fill_active hfill)) hops

lemma Valid.bounds (h : s.Valid c) :
    s.tlab.start ≤ s.tlab.top ∧ s.tlab.top ≤ s.tlab.endAddr ∧ (s.tlab.endAddr ≠ 0 → s.hardEnd c = s.chunkEnd) := by
  rcases h with hactive | hretired
  · exact ⟨hactive.start_eq ▸ hactive.tiles.le, hactive.top_le, fun _ => hactive.hardEnd_eq⟩
  · rw [hretired.reset]
    exact ⟨le_refl 0, le_refl 0, fun hne => absurd rfl hne⟩

lemma Valid.tiles (h : s.Valid c) : ∃ mid, Tiles s.chunkStart s.objects mid ∧ mid ≤ s.chunkEnd := by
  rcases h with hactive | hretired
  · refine ⟨s.tlab.top, hactive.tiles, ?_⟩
    have := hactive.top_le
    rw [← hactive.hardEnd_eq]
    unfold hardEnd
    omega
  · obtain ⟨filler, -, htiles, -⟩ := hretired.tiled
    obtain ⟨mid, hobjects, hfiller⟩ := tiles_append.1 htiles
    exact ⟨mid, hobjects, hfiller.le⟩

lemma TiledByFiller.walk (h : s.TiledByFiller c) :
    ∃ filler, Lib.walk s.sizeAt (s.objects.length + 2) s.chunkStart s.chunkEnd = some (s.objects ++ [filler]) := by
  obtain ⟨filler, -, htiles, hsizes⟩ := h
  exact ⟨filler, walk_of_tiles htiles hsizes (by simp)⟩

end TlabHeap

/-- Every sequence of operations that starts with the fill of a chunk keeps the pointers in order, never hands out
overlapping objects, and leaves a chunk that `make_parsable` makes parsable. -/
theorem tlab_stays_parsable (c : TlabConfig) (s : TlabHeap) (start size newSize : Nat) (ops : List TlabOp)
    (hfill : (TlabOp.fill start size newSize).Ok c) (hops : ∀ op ∈ ops, op.Ok c) :
    ∃ s', run (TlabHeap.step c) s (.fill start size newSize :: ops) = some s' ∧
      s'.tlab.start ≤ s'.tlab.top ∧ s'.tlab.top ≤ s'.tlab.endAddr ∧
      (s'.tlab.endAddr ≠ 0 → s'.tlab.endAddr + c.alignmentReserve = s'.chunkEnd) ∧
      s'.objects.Pairwise (fun b b' => b.1 + b.2 ≤ b'.1) ∧
      (∀ b ∈ s'.objects, s'.chunkStart ≤ b.1 ∧ b.1 + b.2 ≤ s'.chunkEnd) ∧
      ∀ retire, (s'.makeParsable c retire).objects = s'.objects ∧ (s'.makeParsable c retire).TiledByFiller c := by
  obtain ⟨s', hrun, hvalid⟩ := TlabHeap.run_valid hfill hops
  obtain ⟨hstart, htop, hend⟩ := hvalid.bounds
  obtain ⟨mid, htiles, hmid⟩ := hvalid.tiles
  refine ⟨s', hrun, hstart, htop, hend, htiles.pairwise, fun b hb => ?_,
    fun retire => ⟨?_, (hvalid.makeParsable retire).1⟩⟩
  · obtain ⟨hlo, hhi⟩ := htiles.within b hb
    exact ⟨hlo, le_trans hhi hmid⟩
  · unfold TlabHeap.makeParsable
    split
    · split <;> rfl
    · rfl

def defaultTlab : TlabConfig := ⟨defaultLayout, 0, false⟩

def emptyTlab : TlabHeap := ⟨⟨0, 0, 0, 0⟩, fun _ => 0, 0, 0, []⟩

theorem tlab_stays_parsable_example :
    ∃ s', run (TlabHeap.step defaultTlab) emptyTlab [.fill 16 2 64, .allocate 8, .makeParsable false, .allocate 4] =
        some s' ∧ s'.tlab.start ≤ s'.tlab.top ∧ s'.tlab.top ≤ s'.tlab.endAddr ∧
      (s'.tlab.endAddr ≠ 0 → s'.tlab.endAddr + defaultTlab.alignmentReserve = s'.chunkEnd) ∧
      s'.objects.Pairwise (fun b b' => b.1 + b.2 ≤ b'.1) ∧
      (∀ b ∈ s'.objects, s'.chunkStart ≤ b.1 ∧ b.1 + b.2 ≤ s'.chunkEnd) ∧
      ∀ retire, (s'.makeParsable defaultTlab retire).objects = s'.objects ∧
        (s'.makeParsable defaultTlab retire).TiledByFiller defaultTlab :=
  tlab_stays_parsable defaultTlab emptyTlab 16 2 64 [.allocate 8, .makeParsable false, .allocate 4] (by decide)
    (by decide)

/-- The filler for the rest of a chunk of 8 GiB and 80 bytes has a negative length, and its size reads as 0. -/
theorem tlab_large_chunk_not_parsable :
    ¬((emptyTlab.fill defaultTlab 16 2 (2 ^ 30 + 10)).makeParsable defaultTlab true).TiledByFiller defaultTlab := by
  rintro ⟨filler, hmin, htiles, hsizes⟩
  have hsize := hsizes filler (by simp)
  obtain ⟨mid, ⟨-, -, rfl⟩, hfiller, -⟩ := tiles_append.1 htiles
  have hzero : ((emptyTlab.fill defaultTlab 16 2 (2 ^ 30 + 10)).makeParsable defaultTlab true).sizeAt 18 = 0 := by
    decide
  have haddr : filler.1 = 18 := hfiller
  rw [haddr] at hsize
  rw [← hsize] at hmin
  exact absurd hmin (by decide)

/-! ## Allocating from a TLAB -/

/-- A request, and what the slow path finds for it: the limit of waste, the sizes for `compute_size` and a new chunk. -/
structure TlabRequest where
  size : Nat
  refillWasteLimit : Nat
  availableSize : Nat
  desiredSize : Nat
  newTlab : Option Nat

def TlabRequest.Ok (c : TlabConfig) (r : TlabRequest) : Prop :=
  0 < r.size ∧ r.desiredSize ≤ c.maxSize ∧ (∀ obj ∈ r.newTlab, 0 < obj) ∧
    ∀ n ∈ r.size :: r.availableSize :: r.desiredSize :: r.newTlab.toList, n % c.layout.minObjAlignment = 0

namespace TlabHeap

variable (c : TlabConfig) (s : TlabHeap) (r : TlabRequest)

def allocateFromTlabSlow : TlabHeap × Option Nat :=
  if r.refillWasteLimit < s.tlab.endAddr - s.tlab.top then (s, none)
  else
    match c.computeSize r.availableSize r.desiredSize r.size, r.newTlab with
    | n + 1, some obj => ((s.makeParsable c true).fill c obj r.size (n + 1), some obj)
    | _, _ => (s.makeParsable c true, none)

def allocateFromTlab : TlabHeap × Option Nat :=
  match s.allocate r.size with
  | (s', some obj) => (s', some obj)
  | (_, none) => s.allocateFromTlabSlow c r

variable {c s r}

lemma fill_ok (hr : r.Ok c) {n obj} (hn : c.computeSize r.availableSize r.desiredSize r.size = n + 1)
    (hobj : r.newTlab = some obj) : (TlabOp.fill obj r.size (n + 1)).Ok c := by
  obtain ⟨hpos, hdesired, hnull, haligned⟩ := hr
  simp only [hobj, Option.toList_some, List.forall_mem_cons, Option.mem_some, forall_eq'] at haligned hnull
  obtain ⟨hsize, havail, hdes, hstart, -⟩ := haligned
  have hne : c.computeSize r.availableSize r.desiredSize r.size ≠ 0 := hn ▸ succ_ne_zero n
  have hspec := c.computeSize_spec hsize hdesired hne
  have hnew : c.computeSize r.availableSize r.desiredSize r.size % c.layout.minObjAlignment = 0 := by
    simp only [TlabConfig.computeSize, alignSizeUp_of_mod c.layout.sizeFacts.alignment_pos hsize,
      ObjectLayout.alignObjectSize]
    split
    · exact zero_mod _
    · rcases min_choice r.availableSize (r.desiredSize + r.size) with hmin | hmin
      · rwa [hmin]
      · rw [hmin]
        exact aligned_add hdes hsize
  rw [hn] at hspec hnew
  exact ⟨hnull, hpos, hstart, hsize, hnew, hspec⟩

lemma Valid.allocateFromTlab (h : s.Valid c) (hr : r.Ok c) : (s.allocateFromTlab c r).1.Valid c := by
  unfold TlabHeap.allocateFromTlab
  split
  next s' obj hal =>
    have hop : (TlabOp.allocate r.size).Ok c := ⟨hr.1, hr.2.2.2 _ List.mem_cons_self⟩
    obtain ⟨t, ht, hvalid⟩ := step_valid h hop
    cases ht
    rwa [hal] at hvalid
  · unfold allocateFromTlabSlow
    split
    · exact h
    · split
      next hn hobj => exact .inl (fill_active (fill_ok hr hn hobj))
      · exact (h.makeParsable true).2

lemma allocateFromTlab_mem {obj} (h : (s.allocateFromTlab c r).2 = some obj) :
    (obj, r.size) ∈ (s.allocateFromTlab c r).1.objects := by
  grind [TlabHeap.allocateFromTlab, allocateFromTlabSlow, TlabHeap.allocate, TlabHeap.fill, withObject]

end TlabHeap

/-- Whatever the heap has to give, after any requests a walk over the chunk made parsable finds exactly the objects that
were allocated in it and a filler, and a request that succeeds adds its object. -/
theorem tlab_requests_stay_walkable {c : TlabConfig} {s : TlabHeap} (h : s.Valid c) (rs : List TlabRequest)
    (hrs : ∀ r ∈ rs, r.Ok c) : let s' := rs.foldl (fun s r => (s.allocateFromTlab c r).1) s
    (∀ retire, let t := s'.makeParsable c retire
      ∃ filler, walk t.sizeAt (t.objects.length + 2) t.chunkStart t.chunkEnd = some (t.objects ++ [filler])) ∧
    ∀ r obj, (s'.allocateFromTlab c r).2 = some obj → (obj, r.size) ∈ (s'.allocateFromTlab c r).1.objects := by
  intro s'
  have hvalid : s'.Valid c := List.foldlRecOn rs _ h fun _ hs r hr => hs.allocateFromTlab (hrs r hr)
  exact ⟨fun retire => (hvalid.makeParsable retire).1.walk, fun r obj => TlabHeap.allocateFromTlab_mem⟩

def refill : TlabRequest := ⟨100, 70, 400, 200, some 512⟩

theorem tlab_requests_stay_walkable_refill :
    let s := ((emptyTlab.fill defaultTlab 16 2 64).allocateFromTlab defaultTlab refill).1.makeParsable defaultTlab true
    ∃ filler, walk s.sizeAt 3 512 812 = some [(512, 100), filler] :=
  (tlab_requests_stay_walkable (.inl (TlabHeap.fill_active (c := defaultTlab) (by decide))) [refill]
    (by unfold TlabRequest.Ok; decide)).1 true

end Rolp.Heap
