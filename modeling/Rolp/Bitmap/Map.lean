import Rolp.Lib.BitField
import Rolp.Lib.Run

/-!
# Bit maps

`BitMap` is an array of words with a size in bits. Indices and sizes are `size_t` values: natural numbers, modulo `2 ^
64` where they can overflow. A write outside of the array is undefined. The assertions are left out.
-/

namespace Rolp.Bitmap

open Rolp.Lib

/-- `bm_word_t` -/
abbrev Word := BitVec 64

abbrev bitsPerWord : Nat := 64

/-- Arithmetic on `idx_t`. -/
def idx (n : Nat) : Nat := n % 2 ^ 64

structure BitMap where
  map : Nat → Word
  size : Nat

def bitInWord (bit : Nat) : Nat := bit % bitsPerWord

def bitMask (bit : Nat) : Word := 1#64 <<< bitInWord bit

def wordIndex (bit : Nat) : Nat := bit / bitsPerWord

def bitIndex (word : Nat) : Nat := idx (word * bitsPerWord)

def invertedBitMaskForRange (beg stop : Nat) : Word :=
  let mask := bitMask beg - 1#64
  if bitInWord stop ≠ 0 then mask ||| ~~~(bitMask stop - 1#64) else mask

inductive RangeSizeHint where
  | unknownRange
  | smallRange
  | largeRange
  deriving DecidableEq

namespace BitMap

variable (m : BitMap)

def sizeInWords : Nat := wordIndex (idx (m.size + (bitsPerWord - 1)))

/-- `at` -/
def atIndex (index : Nat) : Bool := m.map (wordIndex index) &&& bitMask index != 0#64

def putWord (word : Nat) (value : Word) : Option BitMap :=
  if word < m.sizeInWords then some { m with map := Function.update m.map word value } else none

def setBit (bit : Nat) : Option BitMap :=
  m.putWord (wordIndex bit) (m.map (wordIndex bit) ||| bitMask bit)

def clearBit (bit : Nat) : Option BitMap :=
  m.putWord (wordIndex bit) (m.map (wordIndex bit) &&& ~~~bitMask bit)

def atPut (offset : Nat) (value : Bool) : Option BitMap :=
  if value then m.setBit offset else m.clearBit offset

/-! ## Ranges -/

def wordIndexRoundUp (bit : Nat) : Nat :=
  let bitRoundedUp := idx (bit + (bitsPerWord - 1))
  if bit < bitRoundedUp then wordIndex bitRoundedUp else m.sizeInWords

/-- `set_range_within_word` and `clear_range_within_word` -/
def putRangeWithinWord (value : Bool) (m : BitMap) (beg stop : Nat) : Option BitMap :=
  if beg ≠ stop then
    let mask := invertedBitMaskForRange beg stop
    let word := m.map (wordIndex beg)
    m.putWord (wordIndex beg) (if value then word ||| ~~~mask else word &&& mask)
  else some m

def putWords (value : Bool) : Nat → Nat → BitMap → Option BitMap
  | 0, _, m => some m
  | n + 1, word, m => do
    let m ← m.putWord word (if value then BitVec.allOnes 64 else 0#64)
    putWords value n (word + 1) m

section

variable (value : Bool) (m : BitMap) (beg stop : Nat)

/-- `set_range_of_words` and `clear_range_of_words` -/
def putRangeOfWords : Option BitMap := putWords value (stop - beg) beg m

/-- `set_large_range_of_words` and `clear_large_range_of_words`: a `memset` of this many bytes. -/
def putLargeRangeOfWords : Option BitMap :=
  let bytes := idx (idx (stop + 2 ^ 64 - beg) * 8)
  putWords value (bytes / 8) beg m

def putRange : Option BitMap :=
  let begFullWord := m.wordIndexRoundUp beg
  let endFullWord := wordIndex stop
  if begFullWord < endFullWord then do
    let m ← putRangeWithinWord value m beg (bitIndex begFullWord)
    let m ← putRangeOfWords value m begFullWord endFullWord
    putRangeWithinWord value m (bitIndex endFullWord) stop
  else do
    let boundary := min (bitIndex begFullWord) stop
    let m ← putRangeWithinWord value m beg boundary
    putRangeWithinWord value m boundary stop

def putLargeRange : Option BitMap := do
  let begFullWord := m.wordIndexRoundUp beg
  let endFullWord := wordIndex stop
  let m ← putRangeWithinWord value m beg (bitIndex begFullWord)
  let m ← putLargeRangeOfWords value m begFullWord endFullWord
  putRangeWithinWord value m (bitIndex endFullWord) stop

end

/-- What `set_large_range` and `clear_large_range` assert, in unsigned arithmetic. -/
def LargeRangeAsserted (m : BitMap) (beg stop : Nat) : Prop :=
  32 ≤ idx (wordIndex stop + 2 ^ 64 - m.wordIndexRoundUp beg)

instance (m : BitMap) (beg stop : Nat) : Decidable (m.LargeRangeAsserted beg stop) :=
  inferInstanceAs (Decidable (_ ≤ _))

def putRangeWithHint (value : Bool) (m : BitMap) (beg stop : Nat) (hint : RangeSizeHint) : Option BitMap :=
  if hint = .smallRange ∧ stop - beg = 1 then m.atPut beg value
  else if hint = .largeRange then putLargeRange value m beg stop else putRange value m beg stop

def setRange (m : BitMap) (beg stop : Nat) (hint : RangeSizeHint) : Option BitMap :=
  putRangeWithHint true m beg stop hint

def clearRange (m : BitMap) (beg stop : Nat) (hint : RangeSizeHint) : Option BitMap :=
  putRangeWithHint false m beg stop hint

/-! ## Growing -/

/-- The words are copied to `fresh` memory, and the words that are added are cleared. -/
def resize (m : BitMap) (fresh : Nat → Word) (sizeInBits : Nat) : Option BitMap :=
  let oldSizeInWords := m.sizeInWords
  let m' : BitMap := { map := fresh, size := sizeInBits }
  let newSizeInWords := m'.sizeInWords
  let copied := { m' with map := fun i => if i < min oldSizeInWords newSizeInWords then m.map i else fresh i }
  if oldSizeInWords < newSizeInWords then putRangeOfWords false copied oldSizeInWords newSizeInWords else some copied

def new (fresh : Nat → Word) (sizeInBits : Nat) : Option BitMap := resize ⟨fresh, 0⟩ fresh sizeInBits

def atPutGrow (m : BitMap) (fresh : Nat → Word) (offset : Nat) (value : Bool) : Option BitMap := do
  let m ← if m.size ≤ offset then m.resize fresh (idx (2 * max m.size offset)) else some m
  m.atPut offset value

/-! ## Questions -/

def contains (m other : BitMap) : Bool :=
  (List.range m.sizeInWords).all fun index => m.map index ||| other.map index == m.map index

def isSame (m other : BitMap) : Bool := (List.range m.sizeInWords).all fun index => m.map index == other.map index

def rightNBits (n : Nat) : Word := lowMask 64 n

/-- The loop of `is_full` and `is_empty`: whole words, and then the part of the last word that is in the map. -/
def allWords (m : BitMap) (whole : Word → Bool) (part : Nat → Word → Bool) (rest word : Nat) : Bool :=
  if bitsPerWord ≤ rest then
    if whole (m.map word) then allWords m whole part (rest - bitsPerWord) (word + 1) else false
  else rest == 0 || part rest (m.map word)
termination_by rest
decreasing_by exact Nat.sub_lt (Nat.lt_of_lt_of_le (Nat.succ_pos 63) ‹bitsPerWord ≤ rest›) (Nat.succ_pos 63)

def isFull (m : BitMap) : Bool :=
  m.allWords (· == BitVec.allOnes 64) (fun rest word => word ||| ~~~rightNBits rest == BitVec.allOnes 64) m.size 0

def isEmpty (m : BitMap) : Bool :=
  m.allWords (· == 0#64) (fun rest word => word &&& rightNBits rest == 0#64) m.size 0

/-- The inner loop of `num_set_bits`. -/
def skipZeros : Nat → Word → Option Word
  | 0, _ => none
  | fuel + 1, w => if w &&& 1#64 = 0#64 then skipZeros fuel (w >>> 1) else some w

def numSetBitsLoop : Nat → Word → Nat → Option Nat
  | 0, _, _ => none
  | fuel + 1, w, bits =>
    if w = 0#64 then some bits
    else do
      let w ← skipZeros (bitsPerWord + 1) w
      numSetBitsLoop fuel (w >>> 1) (bits + 1)

def numSetBits (w : Word) : Option Nat := numSetBitsLoop (bitsPerWord + 1) w 0

/-- The entry of `_pop_count_table`, which is filled by `num_set_bits`. -/
def numSetBitsFromTable (c : Word) : Option Nat := numSetBits c

def countBytes : Nat → Word → Nat → Option Nat
  | 0, _, sum => some sum
  | j + 1, w, sum => do
    let bits ← numSetBitsFromTable (w &&& 255#64)
    countBytes j (w >>> 8) (sum + bits)

def countOneBits (m : BitMap) : Option Nat :=
  (List.range m.sizeInWords).foldlM (fun sum i => countBytes 8 (m.map i) sum) 0

end BitMap

/-! ## Several maps -/

variable {ι : Type} [DecidableEq ι]

variable (f : Word → Word → Word) (i j : ι)

def combineWord (s : (ι → BitMap) × Bool) (index : Nat) : (ι → BitMap) × Bool :=
  let word := (s.1 i).map index
  let temp := f word ((s.1 j).map index)
  (Function.update s.1 i { s.1 i with map := Function.update (s.1 i).map index temp }, s.2 || temp != word)

def combine (maps : ι → BitMap) : (ι → BitMap) × Bool :=
  (List.range (maps i).sizeInWords).foldl (combineWord f i j) (maps, false)

variable (i j : ι) (maps : ι → BitMap)

def setUnionWithResult : (ι → BitMap) × Bool := combine (· ||| ·) i j maps

def setDifferenceWithResult : (ι → BitMap) × Bool := combine (· &&& ~~~·) i j maps

def setIntersectionWithResult : (ι → BitMap) × Bool := combine (· &&& ·) i j maps

def setUnion : ι → BitMap := (combine (· ||| ·) i j maps).1

def setDifference : ι → BitMap := (combine (· &&& ~~~·) i j maps).1

def setIntersection : ι → BitMap := (combine (· &&& ·) i j maps).1

inductive Op (ι : Type) where
  | setBit (i : ι) (bit : Nat)
  | clearBit (i : ι) (bit : Nat)
  | setRange (i : ι) (beg stop : Nat) (hint : RangeSizeHint)
  | clearRange (i : ι) (beg stop : Nat) (hint : RangeSizeHint)
  | atPutGrow (i : ι) (fresh : Nat → Word) (offset : Nat) (value : Bool)
  | setUnion (i j : ι)
  | setDifference (i j : ι)
  | setIntersection (i j : ι)
  | setUnionWithResult (i j : ι)
  | setDifferenceWithResult (i j : ι)
  | setIntersectionWithResult (i j : ι)

structure State (ι : Type) where
  maps : ι → BitMap
  results : List Bool

def State.put (s : State ι) (i : ι) (m : Option BitMap) : Option (State ι) :=
  m.map fun m => { s with maps := Function.update s.maps i m }

def State.step (s : State ι) : Op ι → Option (State ι)
  | .setBit i bit => s.put i ((s.maps i).setBit bit)
  | .clearBit i bit => s.put i ((s.maps i).clearBit bit)
  | .setRange i beg stop hint => s.put i ((s.maps i).setRange beg stop hint)
  | .clearRange i beg stop hint => s.put i ((s.maps i).clearRange beg stop hint)
  | .atPutGrow i fresh offset value => s.put i ((s.maps i).atPutGrow fresh offset value)
  | .setUnion i j => some { s with maps := setUnion i j s.maps }
  | .setDifference i j => some { s with maps := setDifference i j s.maps }
  | .setIntersection i j => some { s with maps := setIntersection i j s.maps }
  | .setUnionWithResult i j =>
    let (maps, changed) := setUnionWithResult i j s.maps
    some { maps, results := s.results ++ [changed] }
  | .setDifferenceWithResult i j =>
    let (maps, changed) := setDifferenceWithResult i j s.maps
    some { maps, results := s.results ++ [changed] }
  | .setIntersectionWithResult i j =>
    let (maps, changed) := setIntersectionWithResult i j s.maps
    some { maps, results := s.results ++ [changed] }

/-!
## Searching and iterating

The searches skip whole words, and `iterate` applies a closure, which can change the map, to the set bits. Each
application is recorded with the map before and after it.
-/

def leftNBits (n : Nat) : Word := BitMap.rightNBits n <<< (if bitsPerWord ≤ n then 0 else bitsPerWord - n)

/-- The word without a bit of the value: `NoBits` or `AllBits`. -/
def withoutBit (value : Bool) : Word := if value then 0#64 else BitVec.allOnes 64

def scanWord (value : Bool) : Nat → Word → Nat → Option Nat
  | 0, _, _ => none
  | fuel + 1, res, resOffset =>
    if (res &&& 1#64 != 0#64) = value then some resOffset else scanWord value fuel (res >>> 1) (resOffset + 1)

namespace BitMap

def scanWords (value : Bool) (m : BitMap) (found : Nat → Nat) (rOffset : Nat) : Nat → Nat → Option Nat
  | 0, _ => some rOffset
  | n + 1, index =>
    let res := m.map index
    if res ≠ withoutBit value then (scanWord value (bitsPerWord + 1) res (bitIndex index)).map found
    else scanWords value m found rOffset n (index + 1)

/-- The searches: the rest of the first word, and then the words up to `rIndex`. -/
def getNextOffset (value : Bool) (m : BitMap) (found : Nat → Nat) (res : Word) (lOffset rOffset rIndex : Nat) :
    Option Nat :=
  if res ≠ withoutBit value then (scanWord value (bitsPerWord + 1) res lOffset).map found
  else
    let index := wordIndex lOffset + 1
    scanWords value m found rOffset (rIndex - index) index

section

variable (m : BitMap) (lOffset rOffset : Nat)

def getNextOneOffsetInline : Option Nat :=
  if lOffset = rOffset then some lOffset
  else
    let res := m.map (wordIndex lOffset) >>> bitInWord lOffset
    getNextOffset true m (min · rOffset) res lOffset rOffset (wordIndex (rOffset - 1) + 1)

def getNextZeroOffsetInline : Option Nat :=
  if lOffset = rOffset then some lOffset
  else
    let pos := bitInWord lOffset
    let res := m.map (wordIndex lOffset) >>> pos ||| leftNBits pos
    getNextOffset false m (min · rOffset) res lOffset rOffset (wordIndex (rOffset - 1) + 1)

def getNextOneOffsetInlineAlignedRight : Option Nat :=
  if lOffset = rOffset then some lOffset
  else
    let res := m.map (wordIndex lOffset) >>> bitInWord lOffset
    getNextOffset true m id res lOffset rOffset (wordIndex rOffset)

end

end BitMap

/-! ## Iteration -/

variable {σ : Type}

/-- `BitMapClosure`: the result of `do_bit` is false to stop. -/
abbrev Closure (σ : Type) := Nat → σ → BitMap → (σ × BitMap) × Bool

structure Visit where
  offset : Nat
  before : BitMap
  after : BitMap

structure Walk (σ : Type) where
  state : σ
  map : BitMap
  visits : List Visit

def Walk.visit (doBit : Closure σ) (offset : Nat) (s : Walk σ) : Walk σ × Bool :=
  let ((state, map), go) := doBit offset s.state s.map
  ({ state, map, visits := s.visits ++ [⟨offset, s.map, map⟩] }, go)

def iterateWord (doBit : Closure σ) (rightOffset index : Nat) : Nat → Nat → Word → Walk σ → Option (Walk σ × Bool)
  | 0, _, _, _ => none
  | fuel + 1, offset, rest, s =>
    if offset < rightOffset ∧ rest ≠ 0#64 then
      if rest &&& 1#64 ≠ 0#64 then
        let (s, go) := s.visit doBit offset
        if go then
          let rest := s.map.map index >>> bitInWord offset
          iterateWord doBit rightOffset index fuel (offset + 1) (rest >>> 1) s
        else some (s, false)
      else iterateWord doBit rightOffset index fuel (offset + 1) (rest >>> 1) s
    else some (s, true)

def iterateWords (doBit : Closure σ) (rightOffset : Nat) : Nat → Nat → Nat → Walk σ → Option (Walk σ × Bool)
  | 0, _, _, s => some (s, true)
  | n + 1, index, offset, s =>
    if offset < rightOffset then do
      let rest := s.map.map index >>> bitInWord offset
      let (s, go) ← iterateWord doBit rightOffset index (bitsPerWord + 1) offset rest s
      if go then iterateWords doBit rightOffset n (index + 1) (bitIndex (index + 1)) s else some (s, false)
    else some (s, true)

def iterate (doBit : Closure σ) (state : σ) (m : BitMap) (leftOffset rightOffset : Nat) : Option (Walk σ × Bool) :=
  let startIndex := wordIndex leftOffset
  let endIndex := min (wordIndex rightOffset + 1) m.sizeInWords
  iterateWords doBit rightOffset (endIndex - startIndex) startIndex leftOffset ⟨state, m, []⟩

end Rolp.Bitmap
