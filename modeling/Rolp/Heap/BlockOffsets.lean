import Rolp.Lib.Run

/-!
# The block offset table of a region

An entry is for a card of 64 words: the number of words from its first word back to the start of a block, or else an
order to go back by a power of 16 cards. A query goes back by the entries, and then forward over the objects. If it
meets several objects where the table knows only one block, it refines the entries that it passes.

Addresses are in words, and those of queries in bytes. The objects of the space are the memory that a query reads: an
address has a klass and a size if an object starts there. A query that goes below the bottom or does not end is
undefined.
-/

namespace Rolp.Heap.BlockOffsets

def nWords : Nat := 64

def nPowers : Nat := 14

def powerToCardsBack (i : Nat) : Nat := 2 ^ (4 * i)

def entryToCardsBack (entry : Nat) : Nat := powerToCardsBack (entry - nWords)

/-- A region in the part of the heap that the shared array is reserved for. -/
structure Region where
  reservedStart : Nat
  bottom : Nat
  endAddr : Nat
  reserved_le : reservedStart ≤ bottom
  bottom_le : bottom ≤ endAddr
  /-- A region starts at a card. -/
  aligned : (bottom - reservedStart) % nWords = 0
  /-- Addresses have 64 bits. -/
  end_le : endAddr ≤ 2 ^ 61

namespace Region

def indexFor (r : Region) (addr : Nat) : Nat := (addr - 8 * r.reservedStart) / 512

def addressForIndex (r : Region) (index : Nat) : Nat := r.reservedStart + index * nWords

def isCardBoundary (r : Region) (p : Nat) : Bool := (p - r.reservedStart) % nWords = 0

end Region

/-! ## Entries -/

def setOffsetArray (array : Nat → Nat) (left right offset : Nat) : Nat → Nat :=
  fun index => if left ≤ index ∧ index ≤ right then offset else array index

/-- The loop of `set_remainder_to_point_to_start_incl` from the power `i` on. -/
def remainderLoop (startCard endCard : Nat) : Nat → Nat → Nat → (Nat → Nat) → Nat → Nat
  | 0, _, _, array => array
  | powers + 1, i, startCardForRegion, array =>
    let reach := startCard - 1 + (powerToCardsBack (i + 1) - 1)
    let offset := nWords + i
    if reach ≥ endCard then setOffsetArray array startCardForRegion endCard offset
    else
      remainderLoop startCard endCard powers (i + 1) (reach + 1)
        (setOffsetArray array startCardForRegion reach offset)

def setRemainderToPointToStartIncl (array : Nat → Nat) (startCard endCard : Nat) : Nat → Nat :=
  if startCard > endCard then array else remainderLoop startCard endCard nPowers 0 startCard array

variable (r : Region) (array : Nat → Nat)

def setRemainderToPointToStart (start endAddr : Nat) : Nat → Nat :=
  if start ≥ endAddr then array
  else setRemainderToPointToStartIncl array (r.indexFor (8 * start)) (r.indexFor (8 * (endAddr - 1)))

/-- `alloc_block_work2`, with the new threshold and index. The difference of two addresses is stored as `u_char`. -/
def allocBlockWork2 (threshold index blkStart blkEnd : Nat) : (Nat → Nat) × Nat × Nat :=
  let array := Function.update array index ((threshold - blkStart) % 256)
  let endIndex := r.indexFor (8 * (blkEnd - 1))
  let array :=
    if index + 1 ≤ endIndex then
      setRemainderToPointToStart r array (r.addressForIndex (index + 1)) (r.addressForIndex endIndex + nWords)
    else array
  (array, r.addressForIndex endIndex + nWords, endIndex + 1)

structure OffsetTable where
  offsetArray : Nat → Nat
  nextOffsetThreshold : Nat
  nextOffsetIndex : Nat

namespace OffsetTable

variable (t : OffsetTable)

def zeroBottomEntry : OffsetTable :=
  { t with offsetArray := Function.update t.offsetArray (r.indexFor (8 * r.bottom)) 0 }

def initializeThreshold : OffsetTable :=
  { t with
    nextOffsetIndex := r.indexFor (8 * r.bottom) + 1
    nextOffsetThreshold := r.addressForIndex (r.indexFor (8 * r.bottom) + 1) }

def allocBlock (blkStart blkEnd : Nat) : OffsetTable :=
  if blkEnd > t.nextOffsetThreshold then
    let (offsetArray, nextOffsetThreshold, nextOffsetIndex) :=
      allocBlockWork2 r t.offsetArray t.nextOffsetThreshold t.nextOffsetIndex blkStart blkEnd
    ⟨offsetArray, nextOffsetThreshold, nextOffsetIndex⟩
  else t

end OffsetTable

/-! ## The space -/

/-- The objects are pairs of a start and a size. -/
structure Space where
  top : Nat
  objs : List (Nat × Nat)

namespace Space

variable (sp : Space)

variable (p : Nat)

def objectAt : Option (Nat × Nat) := sp.objs.find? fun o => o.1 = p

/-- `klass_or_null() == NULL` -/
def klassIsNull : Bool := (sp.objectAt p).isNone

def size : Nat := ((sp.objectAt p).map Prod.snd).getD 0

def blockSize : Nat := if p < sp.top then sp.size p else r.endAddr - p

end Space

/-! ## Queries -/

/-- A walk over objects ends at an address without an object, or with the object from `q` to `n`. -/
inductive WalkResult where
  | noObject (q : Nat)
  | object (q n : Nat)
  deriving DecidableEq

/-- A loop that steps over objects as long as `more n` holds. -/
def stepOver (sp : Space) (more : Nat → Bool) : Nat → Nat → Nat → Option WalkResult
  | 0, _, _ => none
  | turns + 1, q, n =>
    if more n then
      if sp.klassIsNull n then some (.noObject n) else stepOver sp more turns n (n + sp.size n)
    else some (.object q n)

/-- The loop of `block_at_or_preceding`. -/
def backSkipLoop (r : Region) (array : Nat → Nat) : Nat → Nat → Nat → Option Nat
  | 0, _, _ => none
  | turns + 1, q, index =>
    let offset := array index
    if offset ≥ nWords then
      let nCardsBack := entryToCardsBack offset
      if r.bottom + nWords * nCardsBack ≤ q then
        backSkipLoop r array turns (q - nWords * nCardsBack) (index - nCardsBack)
      else none
    else some (q - offset)

def blockAtOrPreceding (addr maxIndex : Nat) : Option Nat :=
  let index := min (r.indexFor addr) maxIndex
  backSkipLoop r array (index + 1) (r.addressForIndex index) index

variable (sp : Space)

def forwardToBlockContainingAddrConst (q n addr : Nat) : Option Nat :=
  if addr ≥ 8 * sp.top then some sp.top
  else
    match stepOver sp (fun n => 8 * n ≤ addr) (sp.top + 1) q n with
    | none => none
    | some (.noObject q) => some q
    | some (.object q _) => some q

/-- The loop of `forward_to_block_containing_addr_slow` over the card boundaries before `addr`. -/
def refineLoop (r : Region) (sp : Space) (addr : Nat) :
    Nat → (Nat → Nat) → Nat → Nat → Nat → Nat → Option ((Nat → Nat) × WalkResult)
  | 0, _, _, _, _, _ => none
  | turns + 1, array, q, n, nextBoundary, nextIndex =>
    if 8 * nextBoundary < addr then
      match stepOver sp (fun n => n ≤ nextBoundary) (sp.top + 1) q n with
      | none => none
      | some (.noObject q) => some (array, .noObject q)
      | some (.object q n) =>
        let (array, nextBoundary, nextIndex) := allocBlockWork2 r array nextBoundary nextIndex q n
        refineLoop r sp addr turns array q n nextBoundary nextIndex
    else some (array, .object q n)

def forwardToBlockContainingAddrSlow (array : Nat → Nat) (q n addr : Nat) : Option ((Nat → Nat) × Nat) :=
  let nIndex := r.indexFor (8 * n)
  let nextIndex := if r.isCardBoundary n then nIndex else nIndex + 1
  let nextBoundary := r.addressForIndex nIndex + if nIndex = nextIndex then 0 else nWords
  if addr ≥ 8 * sp.top then some (array, sp.top)
  else
    match refineLoop r sp addr (sp.top + 1) array q n nextBoundary nextIndex with
    | none => none
    | some (array, .noObject q) => some (array, q)
    | some (array, .object q n) => (forwardToBlockContainingAddrConst sp q n addr).map fun q => (array, q)

def forwardToBlockContainingAddr (array : Nat → Nat) (q addr : Nat) : Option ((Nat → Nat) × Nat) :=
  if sp.klassIsNull q then some (array, q)
  else
    let n := q + sp.blockSize r q
    if 8 * n ≤ addr then forwardToBlockContainingAddrSlow r sp array q n addr else some (array, q)

def OffsetTable.blockStartUnsafe (t : OffsetTable) (addr : Nat) : Option (OffsetTable × Nat) :=
  match blockAtOrPreceding r t.offsetArray addr (t.nextOffsetIndex - 1) with
  | none => none
  | some q =>
    (forwardToBlockContainingAddr r sp t.offsetArray q addr).map fun (offsetArray, q) => ({ t with offsetArray }, q)

/-- The start of the block, or `NULL` for an address outside of the region. -/
def OffsetTable.blockStart (t : OffsetTable) (addr : Nat) : Option (OffsetTable × Option Nat) :=
  if 8 * r.bottom ≤ addr ∧ addr < 8 * r.endAddr then
    (t.blockStartUnsafe r sp addr).map fun (t, q) => (t, some q)
  else some (t, none)

/-! ## Histories -/

inductive BotOp where
  | allocate (size : Nat)
  | subdivide (k : Nat) (sizes : List Nat)
  | blockStart (addr : Nat)
  deriving DecidableEq

structure BotState where
  table : OffsetTable
  space : Space

def consecutive : Nat → List Nat → List (Nat × Nat)
  | _, [] => []
  | start, size :: sizes => (start, size) :: consecutive (start + size) sizes

/-- The object at position `k` becomes several ones that fill it. -/
def Space.subdivide (k : Nat) (sizes : List Nat) : Space :=
  match sp.objs[k]? with
  | none => sp
  | some (start, size) =>
    if sizes.sum = size ∧ ∀ size ∈ sizes, 0 < size then
      { sp with objs := sp.objs.take k ++ (consecutive start sizes ++ sp.objs.drop (k + 1)) }
    else sp

def BotState.new (array : Nat → Nat) : BotState :=
  ⟨((⟨array, 0, 0⟩ : OffsetTable).zeroBottomEntry r).initializeThreshold r, ⟨r.bottom, []⟩⟩

def BotState.step (s : BotState) : BotOp → Option BotState
  | .allocate size =>
    if 0 < size ∧ s.space.top + size ≤ r.endAddr then
      some ⟨s.table.allocBlock r s.space.top (s.space.top + size),
        ⟨s.space.top + size, s.space.objs ++ [(s.space.top, size)]⟩⟩
    else some s
  | .subdivide k sizes => some { s with space := s.space.subdivide k sizes }
  | .blockStart addr =>
    if 8 * r.bottom ≤ addr ∧ addr < 8 * s.space.top then
      (s.table.blockStart r s.space addr).map fun (table, _) => { s with table }
    else some s

end Rolp.Heap.BlockOffsets

/-!
## Splitting a block

`BlockOffsetArrayNonContigSpace` records blocks that are split in place. `split_block` corrects only the entries of the
second part that do not lead to its start yet.

The address of a word is its distance from the start of the reserved space, which is at a card boundary.
`BlockOffsetArrayUseUnallocatedBlock` is off, as by default.
-/

namespace Rolp.Heap.BlockSplitting

open BlockOffsets

def indexFor (p : Nat) : Nat := p / nWords

def addressForIndex (index : Nat) : Nat := index * nWords

variable (array : Nat → Nat)

/-- `set_offset_array` for the distance of two addresses, which is stored as `u_char`. -/
def setOffset (index high low : Nat) : Nat → Nat := Function.update array index ((high - low) % 256)

/-! ## Blocks -/

/-- `do_block_internal`: what to do with a block that starts at or crosses a card boundary. -/
def doBlockInternal {α : Type} (blkStart blkEnd : Nat) (otherwise : α)
    (action : (boundary startIndex endIndex : Nat) → α) : α :=
  let boundaryBeforeEnd := (blkEnd - 1) / nWords * nWords
  if blkStart ≤ boundaryBeforeEnd then
    let startIndex := indexFor blkStart
    let endIndex := indexFor (blkEnd - 1)
    let boundary := addressForIndex startIndex
    if blkStart ≠ boundary then action (boundary + nWords) (startIndex + 1) endIndex
    else action boundary startIndex endIndex
  else otherwise

/-- `Action_single`. The remainder is given by its cards, not by their addresses. -/
def singleBlock (blkStart blkEnd : Nat) : Nat → Nat :=
  doBlockInternal blkStart blkEnd array fun boundary startIndex endIndex =>
    let array := setOffset array startIndex boundary blkStart
    if startIndex < endIndex then setRemainderToPointToStartIncl array (startIndex + 1) endIndex else array

def allocBlock (blkStart blkEnd : Nat) : Nat → Nat := singleBlock array blkStart blkEnd

/-- The loop of `check_all_cards` over `n` cards. -/
def checkCards (array : Nat → Nat) (startCard : Nat) : Nat → Nat → Nat → Bool
  | 0, _, _ => true
  | n + 1, c, lastEntry =>
    let entry := array c
    let landingCard := c - entryToCardsBack entry
    decide (lastEntry ≤ entry) &&
      (decide (c - startCard ≤ powerToCardsBack 1) || decide (nWords < entry)) &&
      decide (startCard - 1 + entryToCardsBack entry ≤ c) &&
      (if startCard ≤ landingCard then decide (array landingCard ≤ entry)
        else landingCard == startCard - 1 && decide (array landingCard ≤ nWords)) &&
      checkCards array startCard n (c + 1) entry

def checkAllCards (startCard endCard : Nat) : Bool :=
  if endCard < startCard then true
  else array startCard == nWords && checkCards array startCard (endCard - startCard) (startCard + 1) nWords

/-- `Action_check` -/
def checkBlock (blkStart blkEnd : Nat) : Bool :=
  doBlockInternal blkStart blkEnd true fun boundary startIndex endIndex =>
    array startIndex == boundary - blkStart && checkAllCards array (startIndex + 1) endIndex

/-! ## Splitting -/

/-- The first loop finds the first power block that is longer than the prefix. The results are `more` and `i`. -/
def fixFirst (suffIndex endIndex numPrefCards : Nat) : Nat → Nat → (Nat → Nat) → (Nat → Nat) × Bool × Nat
  | 0, i, array => (array, true, i)
  | n + 1, i, array =>
    let backBy := powerToCardsBack i
    let rightIndex := suffIndex + backBy - 1
    let leftIndex := rightIndex - numPrefCards + 1
    let isLast := decide (rightIndex ≥ endIndex - 1)
    let rightIndex := if isLast then endIndex - 1 else rightIndex
    if backBy > numPrefCards then
      if leftIndex ≤ rightIndex then (setOffsetArray array leftIndex rightIndex (nWords + i - 1), !isLast, i + 1)
      else (array, false, i + 1)
    else if isLast then (array, false, i + 1)
    else fixFirst suffIndex endIndex numPrefCards n (i + 1) array

def fixRest (suffIndex endIndex numPrefCards : Nat) : Nat → Nat → (Nat → Nat) → Nat → Nat
  | 0, _, array => array
  | n + 1, i, array =>
    let backBy := powerToCardsBack i
    let rightIndex := suffIndex + backBy - 1
    let leftIndex := rightIndex - numPrefCards + 1
    if rightIndex ≥ endIndex - 1 then
      let rightIndex := endIndex - 1
      if leftIndex > rightIndex then array else setOffsetArray array leftIndex rightIndex (nWords + i - 1)
    else
      fixRest suffIndex endIndex numPrefCards n (i + 1) (setOffsetArray array leftIndex rightIndex (nWords + i - 1))

def firstCard (p : Nat) : Nat := if addressForIndex (indexFor p) ≠ p then indexFor p + 1 else indexFor p

def splitBlock (array : Nat → Nat) (blk blkSize leftBlkSize : Nat) : Nat → Nat :=
  let suffAddr := blk + leftBlkSize
  let endAddr := blk + blkSize
  let prefIndex := firstCard blk
  let suffIndex := firstCard suffAddr
  let endIndex := indexFor (endAddr - 1) + 1
  let numPrefCards := suffIndex - prefIndex
  let numSuffCards := endIndex - suffIndex
  if numSuffCards > 0 then
    let array := setOffset array suffIndex (addressForIndex suffIndex) suffAddr
    if numPrefCards > 0 then
      if numPrefCards ≥ numSuffCards then setRemainderToPointToStartIncl array (suffIndex + 1) (endIndex - 1)
      else
        let array := setRemainderToPointToStartIncl array (suffIndex + 1) (suffIndex + numPrefCards - 1)
        let (array, more, i) := fixFirst suffIndex endIndex numPrefCards (nPowers - 1) 1 array
        if more then fixRest suffIndex endIndex numPrefCards (nPowers - i) i array else array
    else array
  else array

/-! ## Queries -/

/-- The loop of `block_start_careful`. It goes below the reserved space if an entry goes back too far. -/
def carefulLoop (array : Nat → Nat) : Nat → Nat → Nat → Option Nat
  | 0, _, _ => none
  | turns + 1, q, index =>
    let offset := array index
    if offset < nWords then some (q - offset)
    else
      let nCardsBack := entryToCardsBack offset
      if nCardsBack ≤ index then carefulLoop array turns (q - nCardsBack * nWords) (index - nCardsBack) else none

def blockStartCareful (array : Nat → Nat) (addr : Nat) : Option Nat :=
  carefulLoop array (indexFor addr + 1) addr (indexFor addr)

end Rolp.Heap.BlockSplitting
