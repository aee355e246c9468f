import Rolp.Lib.Jint
import Rolp.RemSet.SparseTable

/-!
# The remembered set of a region

`OtherRegionsTable` records the cards of other regions that may hold references into its region. The cards of a region
are in the sparse table, in a bitmap (a fine table), or all of them are, by a bit of the coarse map. The last card that
a thread added is cached.

The fine tables are known by numbers; `nextPrt` is the next one that `PerRegionTable::alloc` gives out. A collision list
is the list of its tables. A guarantee that fails and an access through `NULL` are undefined.
-/

namespace Rolp.RemSet

open Rolp.Lib Function

structure RemSetConfig where
  /-- `LogOfHRGrainBytes - card_shift` -/
  logCardsPerRegion : Nat
  maxRegions : Nat
  /-- The heap starts at this multiple of the region size. -/
  bias : Nat
  /-- `SparsePRTEntry::cards_num()` -/
  cardsNum : Nat
  /-- The logarithm of `_max_fine_entries`. -/
  logMaxFine : Nat
  numParRemSets : Nat
  logCardsPerRegion_le : logCardsPerRegion ≤ 16
  /-- The indices of the regions fit `RegionIdx_t`. -/
  maxRegions_lt : maxRegions < 2 ^ 31
  cardsNum_ge : 4 ≤ cardsNum

namespace RemSetConfig

variable (c : RemSetConfig)

def cardsPerRegion : Nat := 2 ^ c.logCardsPerRegion

def grainBytes : Nat := c.cardsPerRegion * 512

def maxFineEntries : Nat := 2 ^ c.logMaxFine

def fineEvictionSampleSize : Nat := max 4 c.logMaxFine

def fineEvictionStride : Nat := c.maxFineEntries / c.fineEvictionSampleSize

def bottom (r : Nat) : Nat := (c.bias + r) * c.grainBytes

def InHeap (loc : Nat) : Prop := c.bottom 0 ≤ loc ∧ loc < c.bottom c.maxRegions

instance (c : RemSetConfig) (loc : Nat) : Decidable (c.InHeap loc) := inferInstanceAs (Decidable (_ ∧ _))

/-- The index of `heap_region_containing_raw`. -/
def heapRegionContainingRaw (c : RemSetConfig) (loc : Nat) : Nat := loc / c.grainBytes - c.bias

/-- `(int)(uintptr_t(from) >> card_shift)` -/
def fromCard (loc : Nat) : Int := toJint (loc / 512 : Nat)

/-- The bucket of a region: `hrs_ind & _mod_max_fine_entries_mask`. -/
def fineInd (c : RemSetConfig) (r : Nat) : Nat := r &&& (c.maxFineEntries - 1)

/-- The index of the card of a location in the card table: `index_for`. -/
def indexFor (c : RemSetConfig) (loc : Nat) : Nat := loc / 512 - c.bottom 0 / 512

def cardIndex (c : RemSetConfig) (r card : Nat) : Nat := r * c.cardsPerRegion + card

end RemSetConfig

/-- `count_one_bits` of a bitmap with `n` bits. -/
def countOneBits (n : Nat) (bm : Nat → Bool) : Nat := (List.range n).countP bm

structure PerRegionTable where
  hr : Nat
  bm : Nat → Bool
  occupied : Nat

namespace PerRegionTable

def init (r : Nat) : PerRegionTable := ⟨r, fun _ => false, 0⟩

/-- `add_card_work` -/
def addCard (p : PerRegionTable) (card : Nat) : PerRegionTable :=
  if p.bm card then p else { p with bm := update p.bm card true, occupied := p.occupied + 1 }

variable (c : RemSetConfig) (p : PerRegionTable)

/-- `add_reference_work` -/
def addReference (loc : Nat) : PerRegionTable :=
  if c.bottom p.hr ≤ loc ∧ loc < c.bottom p.hr + c.grainBytes then p.addCard ((loc - c.bottom p.hr) / 8 / 64)
  else p

def containsReference (loc : Nat) : Bool := p.bm ((loc - c.bottom p.hr) / 512)

def scrub (cardBm : Nat → Bool) (p : PerRegionTable) : PerRegionTable :=
  let bm := fun card => p.bm card && cardBm (c.cardIndex p.hr card)
  { p with bm, occupied := countOneBits c.cardsPerRegion bm }

def addCards (cards : List (Option Nat)) : PerRegionTable :=
  cards.foldl (fun p card => match card with
    | some card => p.addCard card
    | none => p) p

end PerRegionTable

structure OtherRegionsTable where
  coarseMap : Nat → Bool
  nCoarseEntries : Nat
  prts : Nat → PerRegionTable
  nextPrt : Nat
  fineGrainRegions : Nat → List Nat
  nFineEntries : Nat
  allFinePrts : List Nat
  fineEvictionStart : Nat
  sparseTable : SparsePRT
  /-- The entries of this region in `_from_card_cache`, by thread. -/
  fromCardCache : Nat → Int

namespace OtherRegionsTable

def new (c : RemSetConfig) : OtherRegionsTable :=
  { coarseMap := fun _ => false, nCoarseEntries := 0, prts := fun _ => .init 0, nextPrt := 0
    fineGrainRegions := fun _ => [], nFineEntries := 0, allFinePrts := [], fineEvictionStart := 0
    sparseTable := .new c.cardsNum, fromCardCache := fun _ => -1 }

def setPrt (t : OtherRegionsTable) (prt : Nat) (p : PerRegionTable) : OtherRegionsTable :=
  { t with prts := update t.prts prt p }

variable (c : RemSetConfig) (t : OtherRegionsTable)

def findRegionTable (r : Nat) : Option Nat :=
  (t.fineGrainRegions (c.fineInd r)).find? fun prt => (t.prts prt).hr = r

/-! ## Evicting a fine table -/

/-- The first bucket from index `i` on that is not empty. -/
def sampleBucket (i : Nat) : Option Nat :=
  ((List.range c.maxFineEntries).map fun d => (i + d) % c.maxFineEntries).find? fun ii => t.fineGrainRegions ii ≠ []

/-- Take the table `cur` of bucket `ii` as the maximum if it has more cards than the one so far. -/
def considerTable (ii : Nat) (max : Option (Nat × Nat)) (cur : Nat) : Option (Nat × Nat) :=
  match max with
  | none => some (ii, cur)
  | some (_, prt) => if (t.prts prt).occupied < (t.prts cur).occupied then some (ii, cur) else max

/-- One sample of the loop of `delete_region_table`. -/
def sampleStep (i : Nat) (max : Option (Nat × Nat)) : Option (Nat × Option (Nat × Nat)) :=
  match t.sampleBucket c i with
  | none => none
  | some ii =>
    let max := (t.fineGrainRegions ii).foldl (t.considerTable ii) max
    let i := i + c.fineEvictionStride
    some (if t.nFineEntries ≤ i then i - t.nFineEntries else i, max)

def sampleLoop (c : RemSetConfig) (t : OtherRegionsTable) : Nat → Nat → Option (Nat × Nat) → Option (Nat × Nat)
  | 0, _, max => max
  | n + 1, i, max =>
    match t.sampleStep c i max with
    | none => none
    | some (i, max) => sampleLoop c t n i max

def deleteRegionTable : Option (OtherRegionsTable × Nat) :=
  match t.sampleLoop c c.fineEvictionSampleSize t.fineEvictionStart none with
  | none => none
  | some (ii, max) =>
    let start := t.fineEvictionStart + 1
    let r := (t.prts max).hr
    some ({ t with
      fineEvictionStart := if t.nFineEntries ≤ start then start - t.nFineEntries else start
      coarseMap := update t.coarseMap r true
      nCoarseEntries := if t.coarseMap r then t.nCoarseEntries else t.nCoarseEntries + 1
      fineGrainRegions := update t.fineGrainRegions ii ((t.fineGrainRegions ii).erase max)
      nFineEntries := t.nFineEntries - 1 }, max)

/-! ## Adding a reference -/

/-- A fine table for a region: an evicted one that stays in the list of all tables, or a new one that is linked to
it. -/
def newTable (r : Nat) : Option (OtherRegionsTable × Nat) :=
  if t.nFineEntries = c.maxFineEntries then
    match t.deleteRegionTable c with
    | none => none
    | some (t, prt) => some (t.setPrt prt (.init r), prt)
  else
    let prt := t.nextPrt
    some ({ t.setPrt prt (.init r) with nextPrt := prt + 1, allFinePrts := prt :: t.allFinePrts }, prt)

def pushTable (prt r : Nat) : OtherRegionsTable :=
  let ind := c.fineInd r
  { t with
    fineGrainRegions := update t.fineGrainRegions ind (prt :: t.fineGrainRegions ind)
    nFineEntries := t.nFineEntries + 1 }

def transferFromSparse (prt r : Nat) : Option OtherRegionsTable :=
  let t := t.pushTable c prt r
  match t.sparseTable.getEntry r with
  | none => none
  | some e =>
    let t := t.setPrt prt ((t.prts prt).addCards e.cards)
    some { t with sparseTable := (t.sparseTable.deleteEntry r).1 }

def addReference (c : RemSetConfig) (t : OtherRegionsTable) (loc tid : Nat) : Option OtherRegionsTable :=
  let fromCard := RemSetConfig.fromCard loc
  if fromCard = t.fromCardCache tid then some t
  else
    let t := { t with fromCardCache := update t.fromCardCache tid fromCard }
    let r := c.heapRegionContainingRaw loc
    if t.coarseMap r then some t
    else
      match t.findRegionTable c r with
      | some prt => some (t.setPrt prt ((t.prts prt).addReference c loc))
      | none =>
        let cardIndex := toJint (fromCard - (c.bottom r / 512 : Nat))
        match t.sparseTable.addCard c.cardsNum r cardIndex.toNat with
        | none => none
        | some (sparseTable, true) => some { t with sparseTable }
        | some (sparseTable, false) =>
          match newTable c { t with sparseTable } r with
          | none => none
          | some (t, prt) =>
            match t.transferFromSparse c prt r with
            | none => none
            | some t => some (t.setPrt prt ((t.prts prt).addReference c loc))

/-! ## Scrubbing and clearing -/

def dropTable (b prt : Nat) : OtherRegionsTable :=
  { t with
    fineGrainRegions := update t.fineGrainRegions b ((t.fineGrainRegions b).erase prt)
    nFineEntries := t.nFineEntries - 1
    allFinePrts := t.allFinePrts.erase prt }

variable (regionBm cardBm : Nat → Bool)

def scrubTable (b : Nat) (t : OtherRegionsTable) (prt : Nat) : OtherRegionsTable :=
  if regionBm (t.prts prt).hr then
    let t := t.setPrt prt ((t.prts prt).scrub c cardBm)
    if (t.prts prt).occupied = 0 then t.dropTable b prt else t
  else t.dropTable b prt

def scrubBucket (t : OtherRegionsTable) (b : Nat) : OtherRegionsTable :=
  (t.fineGrainRegions b).foldl (scrubTable c regionBm cardBm b) t

def clearFcc : OtherRegionsTable :=
  { t with fromCardCache := fun tid => if tid < c.numParRemSets then -1 else t.fromCardCache tid }

def scrub (regionBm cardBm : Nat → Bool) (t : OtherRegionsTable) : OtherRegionsTable :=
  let coarseMap := fun r => t.coarseMap r && regionBm r
  let t := { t with coarseMap, nCoarseEntries := countOneBits c.maxRegions coarseMap }
  ((List.range c.maxFineEntries).foldl (scrubBucket c regionBm cardBm) t).clearFcc c

/-- `OtherRegionsTable::clear`. The buckets are left as they are if no fine table is in use. -/
def clear (c : RemSetConfig) (t : OtherRegionsTable) : OtherRegionsTable :=
  let fineGrainRegions := if t.allFinePrts ≠ [] then fun _ => [] else t.fineGrainRegions
  { t with
      fineGrainRegions, allFinePrts := [], sparseTable := t.sparseTable.clear c.cardsNum, coarseMap := fun _ => false
      nFineEntries := 0, nCoarseEntries := 0 }.clearFcc c

/-! ## What the table holds -/

/-- `contains_reference_locked` -/
def containsReference (c : RemSetConfig) (t : OtherRegionsTable) (loc : Nat) : Bool :=
  let r := c.heapRegionContainingRaw loc
  if t.coarseMap r then true
  else
    match t.findRegionTable c r with
    | some prt => (t.prts prt).containsReference c loc
    | none => t.sparseTable.containsCard r (loc / 512 - c.bottom r / 512)

/-- `occ_fine`, with its guarantee. -/
def occFine : Option Nat :=
  if t.allFinePrts.length = t.nFineEntries then some (t.allFinePrts.map fun prt => (t.prts prt).occupied).sum else none

def occCoarse : Nat := t.nCoarseEntries * c.cardsPerRegion

def occSparse : Nat := t.sparseTable.occupied

def occupied : Option Nat :=
  t.occFine.map fun fine => fine + t.occSparse + t.occCoarse c

def cleanup (t : OtherRegionsTable) : OtherRegionsTable := { t with sparseTable := t.sparseTable.cleanup }

end OtherRegionsTable

/-! ## Calls -/

inductive RemSetOp where
  | addReference (loc tid : Nat)
  | scrub (regionBm cardBm : Nat → Bool)
  | clear

namespace RemSetOp

def Ok (c : RemSetConfig) : RemSetOp → Prop
  | .addReference loc tid => c.InHeap loc ∧ tid < c.numParRemSets
  | .scrub .. => True
  | .clear => True

instance (c : RemSetConfig) : DecidablePred (Ok c)
  | .addReference _ _ => inferInstanceAs (Decidable (_ ∧ _))
  | .scrub .. => inferInstanceAs (Decidable True)
  | .clear => inferInstanceAs (Decidable True)

end RemSetOp

def OtherRegionsTable.step (c : RemSetConfig) (t : OtherRegionsTable) : RemSetOp → Option OtherRegionsTable
  | .addReference loc tid => t.addReference c loc tid
  | .scrub regionBm cardBm => some (t.scrub c regionBm cardBm)
  | .clear => some (t.clear c)

/-!
## Iterating over a remembered set

`HeapRegionRemSetIterator` goes over the sparse table, the fine tables and the coarse map. A step is undefined if it
reads outside of an array or through `NULL`, and otherwise gives the next card index, or `none` if `has_next` is false.
-/

open Rolp.Lib

/-- The conversion of an integer to `short`. -/
def toInt16 (n : Int) : Int := n.bmod (2 ^ 16)

/-- `get_next_one_offset` of a bitmap with `n` bits. -/
def getNextOneOffset (n : Nat) (bm : Nat → Bool) (i : Nat) : Nat := ((List.range' i (n - i)).find? bm).getD n

/-! ## The sparse table -/

structure RSHashTableIter where
  tblInd : Int
  blInd : Option Nat
  cardInd : Int
  deriving DecidableEq

namespace RSHashTableIter

def new (k : Nat) : RSHashTableIter := ⟨-1, none, toInt16 (k - 1)⟩

def card (t : RSHashTable) (blInd : Option Nat) (i : Int) : Option (Option Nat) :=
  match blInd with
  | none => none
  | some slot => if 0 ≤ i then (t.entries slot).cards[i.toNat]? else none

def computeCardInd (c : RemSetConfig) (t : RSHashTable) (slot ci : Nat) : Nat :=
  c.cardIndex ((t.entries slot).rInd.getD 0) ci

def firstCard (t : RSHashTable) (slot : Nat) : Option Nat := (t.entries slot).cards.head?.join

/-- `find_first_card_in_list`, with the entry that it leaves `_bl_ind` at. -/
def findFirstCardInList (t : RSHashTable) (blInd : Option Nat) : Option (Nat × Nat) :=
  (search t.next (fun slot => (firstCard t slot).isSome) t.capacity blInd).bind fun slot =>
    (firstCard t slot).map fun ci => (slot, ci)

/-- The loop over the table indices from `b` on. -/
def nextBucket (t : RSHashTable) : Nat → Nat → Option (Nat × Nat × Nat)
  | 0, _ => none
  | n + 1, b =>
    match findFirstCardInList t (t.buckets b) with
    | some (slot, ci) => some (b, slot, ci)
    | none => nextBucket t n (b + 1)

/-- The part of `has_next` that finds the next valid entry. -/
def nextEntry (c : RemSetConfig) (t : RSHashTable) (it : RSHashTableIter) : RSHashTableIter × Option Nat :=
  match it.blInd.bind fun slot => findFirstCardInList t (t.next slot) with
  | some (slot, ci) => ({ it with blInd := some slot }, some (computeCardInd c t slot ci))
  | none =>
    let b := (it.tblInd + 1).toNat
    match nextBucket t (t.capacity - b) b with
    | some (b, slot, ci) => ({ it with tblInd := b, blInd := some slot }, some (computeCardInd c t slot ci))
    | none => ({ it with tblInd := t.capacity, blInd := none }, none)

def hasNext (c : RemSetConfig) (t : RSHashTable) (it : RSHashTableIter) : Option (RSHashTableIter × Option Nat) :=
  let cardInd := toInt16 (it.cardInd + 1)
  if cardInd < c.cardsNum then
    match card t it.blInd cardInd, it.blInd with
    | some (some ci), some slot => some ({ it with cardInd }, some (computeCardInd c t slot ci))
    | some none, _ => some (nextEntry c t { it with cardInd := 0 })
    | _, _ => none
  else some (nextEntry c t { it with cardInd := 0 })

end RSHashTableIter

/-! ## The three tables -/

inductive IterState where
  | sparse
  | fine
  | coarse
  deriving DecidableEq

/-- `_fine_cur_prt` is the list of the tables from the current one on to the end of its bucket. -/
structure HeapRegionRemSetIterator where
  is : IterState
  sparseIter : RSHashTableIter
  curRegionCardOffset : Nat
  curRegionCurCard : Nat
  fineArrayIndex : Int
  fineCurPrt : List Nat
  coarseCurRegionIndex : Int
  coarseCurRegionCurCard : Nat
  nYieldedSparse : Nat
  nYieldedFine : Nat
  nYieldedCoarse : Nat
  deriving DecidableEq

namespace HeapRegionRemSetIterator

def new (c : RemSetConfig) : HeapRegionRemSetIterator :=
  { is := .sparse, sparseIter := .new c.cardsNum, curRegionCardOffset := 0, curRegionCurCard := 0, fineArrayIndex := -1
    fineCurPrt := [], coarseCurRegionIndex := -1, coarseCurRegionCurCard := c.cardsPerRegion - 1, nYieldedSparse := 0
    nYieldedFine := 0, nYieldedCoarse := 0 }

def nYielded (it : HeapRegionRemSetIterator) : Nat := it.nYieldedFine + it.nYieldedCoarse + it.nYieldedSparse

/-- The loop over the buckets of `fine_find_next_non_null_prt`: the bucket that it stops at. -/
def nextNonNull (t : OtherRegionsTable) : Nat → Nat → Option Nat
  | 0, _ => none
  | n + 1, b => if t.fineGrainRegions b ≠ [] then some b else nextNonNull t n (b + 1)

/-- `fine_find_next_non_null_prt`, where `limit` is `(int) _max_fine_entries`. -/
def fineFindNextNonNullPrt (limit : Nat) (t : OtherRegionsTable) (it : HeapRegionRemSetIterator) :
    HeapRegionRemSetIterator :=
  match nextNonNull t (limit - (it.fineArrayIndex + 1).toNat) (it.fineArrayIndex + 1).toNat with
  | some b => { it with fineArrayIndex := b, fineCurPrt := t.fineGrainRegions b }
  | none => { it with fineArrayIndex := max (it.fineArrayIndex + 1) limit }

variable (c : RemSetConfig)

def fineLimit : Nat := (toJint c.maxFineEntries).toNat

/-- `fine_has_next()` -/
def fineHasCard (it : HeapRegionRemSetIterator) : Bool :=
  it.fineCurPrt ≠ [] ∧ it.curRegionCurCard < c.cardsPerRegion

variable (t : OtherRegionsTable)

def fineAdvance (it : HeapRegionRemSetIterator) : HeapRegionRemSetIterator :=
  let it := if it.curRegionCurCard = c.cardsPerRegion then
    { it with curRegionCurCard := 0, fineCurPrt := it.fineCurPrt.tail } else it
  if it.fineCurPrt = [] then it.fineFindNextNonNullPrt (fineLimit c) t else it

/-- The loop of `fine_has_next`. Each turn but the last one goes to another table, and `fuel` bounds the turns. -/
def fineLoop (c : RemSetConfig) (t : OtherRegionsTable) : Nat → HeapRegionRemSetIterator →
    Option (HeapRegionRemSetIterator × Option Nat)
  | 0, _ => none
  | fuel + 1, it =>
    if it.fineHasCard c then some (it, some (it.curRegionCardOffset + it.curRegionCurCard))
    else if it.curRegionCurCard = c.cardsPerRegion ∧ it.fineCurPrt = [] then none
    else
      let it := it.fineAdvance c t
      match it.fineCurPrt with
      | [] => some (it, none)
      | prt :: _ =>
        fineLoop c t fuel { it with
          curRegionCardOffset := c.cardIndex (t.prts prt).hr 0
          curRegionCurCard := getNextOneOffset c.cardsPerRegion (t.prts prt).bm 0 }

variable (it : HeapRegionRemSetIterator)

def fineHasNext : Option (HeapRegionRemSetIterator × Option Nat) :=
  let it := match it.fineCurPrt with
    | [] => it
    | prt :: _ =>
      if it.curRegionCurCard < c.cardsPerRegion then
        { it with curRegionCurCard := getNextOneOffset c.cardsPerRegion (t.prts prt).bm (it.curRegionCurCard + 1) }
      else it
  fineLoop c t (c.maxFineEntries + 2) it

def coarseHasNext : HeapRegionRemSetIterator × Option Nat :=
  if t.nCoarseEntries = 0 then (it, none)
  else
    let card := it.coarseCurRegionCurCard + 1
    if card = c.cardsPerRegion then
      let r := getNextOneOffset c.maxRegions t.coarseMap (it.coarseCurRegionIndex + 1).toNat
      if r < c.maxRegions then
        ({ it with coarseCurRegionIndex := r, coarseCurRegionCurCard := 0, curRegionCardOffset := c.cardIndex r 0 },
          some (c.cardIndex r 0))
      else ({ it with coarseCurRegionIndex := r, coarseCurRegionCurCard := card }, none)
    else ({ it with coarseCurRegionCurCard := card }, some (it.curRegionCardOffset + card))

/-- The case `Coarse` of `has_next`. -/
def hasNextCoarse : HeapRegionRemSetIterator × Option Nat :=
  match it.coarseHasNext c t with
  | (it, some i) => ({ it with nYieldedCoarse := it.nYieldedCoarse + 1 }, some i)
  | (it, none) => (it, none)

/-- The case `Fine` of `has_next`, which falls through to the next one. -/
def hasNextFine : Option (HeapRegionRemSetIterator × Option Nat) :=
  match it.fineHasNext c t with
  | none => none
  | some (it, some i) => some ({ it with nYieldedFine := it.nYieldedFine + 1 }, some i)
  | some (it, none) => some (hasNextCoarse c t { it with is := .coarse })

/-- The case `Sparse` of `has_next`, which falls through to the next one. -/
def hasNextSparse : Option (HeapRegionRemSetIterator × Option Nat) :=
  match it.sparseIter.hasNext c t.sparseTable.cur with
  | none => none
  | some (sparseIter, some i) => some ({ it with sparseIter, nYieldedSparse := it.nYieldedSparse + 1 }, some i)
  | some (sparseIter, none) => hasNextFine c t { it with sparseIter, is := .fine }

def hasNext : Option (HeapRegionRemSetIterator × Option Nat) :=
  match it.is with
  | .sparse => hasNextSparse c t it
  | .fine => hasNextFine c t it
  | .coarse => some (hasNextCoarse c t it)

end HeapRegionRemSetIterator

end Rolp.RemSet
