import Rolp.Lib.LinkedSlots
import Mathlib.Data.Nat.Cast.Basic

/-!
# The sparse per-region table

`SparsePRT` holds a few cards for each region in a hash table whose entries are slots of an array. The entries of a
bucket and the freed ones, which keep their region and cards, are linked through the slots. `NullEntry` is `none`, and
`k` is `SparsePRTEntry::cards_num()`.
-/

namespace Rolp.RemSet

open Rolp.Lib

structure SparsePRTEntry where
  rInd : Option Nat
  nextIndex : Option Nat
  cards : List (Option Nat)
  deriving DecidableEq

namespace SparsePRTEntry

/-- An entry whose memory was filled with `NullEntry`. -/
def unused (k : Nat) : SparsePRTEntry := ⟨none, none, List.replicate k none⟩

def init (k r : Nat) : SparsePRTEntry := ⟨some r, none, List.replicate k none⟩

def containsCard (e : SparsePRTEntry) (c : Nat) : Bool := some c ∈ e.cards

def numValidCards (e : SparsePRTEntry) : Nat := e.cards.countP (· ≠ none)

inductive AddCardResult where
  | overflow
  | found
  | added
  deriving DecidableEq

/-- The loop of `add_card` over the cards. -/
def addCardLoop (c : Nat) : List (Option Nat) → List (Option Nat) × AddCardResult
  | [] => ([], .overflow)
  | none :: rest => (some c :: rest, .added)
  | some d :: rest =>
    if d = c then (some d :: rest, .found)
    else
      let (rest', res) := addCardLoop c rest
      (some d :: rest', res)

def addCard (e : SparsePRTEntry) (c : Nat) : SparsePRTEntry × AddCardResult :=
  let (cards, res) := addCardLoop c e.cards
  ({ e with cards }, res)

/-- `e.copyCards e'` is `e'` after `e->copy_cards(e')`. -/
def copyCards (e e' : SparsePRTEntry) : SparsePRTEntry := { e' with cards := e.cards }

end SparsePRTEntry

structure RSHashTable where
  capacity : Nat
  occupiedEntries : Nat
  occupiedCards : Nat
  entries : Nat → SparsePRTEntry
  buckets : Nat → Option Nat
  freeRegion : Nat
  freeList : Option Nat

namespace RSHashTable

def new (k capacity : Nat) : RSHashTable :=
  { capacity, occupiedEntries := 0, occupiedCards := 0, entries := fun _ => .unused k, buckets := fun _ => none
    freeRegion := 0, freeList := none }

def clear (k : Nat) (t : RSHashTable) : RSHashTable :=
  { t with
    occupiedEntries := 0, occupiedCards := 0, entries := fun _ => .unused k, buckets := fun _ => none
    freeList := none, freeRegion := 0 }

variable (t : RSHashTable)

def next (i : Nat) : Option Nat := (t.entries i).nextIndex

def setEntry (i : Nat) (e : SparsePRTEntry) : RSHashTable :=
  { t with entries := Function.update t.entries i e }

/-- The bucket of a region: `region_ind & capacity_mask()`. -/
def ind (r : Nat) : Nat := r &&& (t.capacity - 1)

def isFor (r i : Nat) : Bool := (t.entries i).rInd = some r

/-- `entry_for_region_ind` and `get_entry`. A chain has no more slots than the table. -/
def entryForRegionInd (r : Nat) : Option Nat :=
  search t.next (t.isFor r) t.capacity (t.buckets (t.ind r))

def allocEntry : RSHashTable × Option Nat :=
  match t.freeList with
  | some res => ({ t with freeList := t.next res }, some res)
  | none =>
    if t.freeRegion + 1 < t.capacity then ({ t with freeRegion := t.freeRegion + 1 }, some t.freeRegion)
    else (t, none)

def freeEntry (fi : Nat) : RSHashTable :=
  { t.setEntry fi { t.entries fi with nextIndex := t.freeList } with freeList := some fi }

section

variable (k : Nat) (t : RSHashTable)

/-- The part of `entry_for_region_ind_create` that puts a new entry into its bucket. -/
def insertEntry (r i : Nat) : RSHashTable :=
  { t.setEntry i { SparsePRTEntry.init k r with nextIndex := t.buckets (t.ind r) } with
    buckets := Function.update t.buckets (t.ind r) (some i)
    occupiedEntries := t.occupiedEntries + 1 }

/-- `entry_for_region_ind_create`, undefined if `alloc_entry` finds no room. -/
def entryForRegionIndCreate (r : Nat) : Option (RSHashTable × Nat) :=
  match t.entryForRegionInd r with
  | some i => some (t, i)
  | none =>
    match t.allocEntry with
    | (_, none) => none
    | (t, some i) => some (t.insertEntry k r i, i)

def addCard (r c : Nat) : Option (RSHashTable × Bool) :=
  match t.entryForRegionIndCreate k r with
  | none => none
  | some (t, i) =>
    let (e, res) := (t.entries i).addCard c
    let occupiedCards := if res = .added then t.occupiedCards + 1 else t.occupiedCards
    some ({ t.setEntry i e with occupiedCards }, res ≠ .overflow)

end

/-- Splice an entry out of a list, where `prev` is the entry before it or `none` for the bucket. -/
def spliceOut (b : Nat) (prev : Option Nat) (i : Nat) : RSHashTable :=
  match prev with
  | none => { t with buckets := Function.update t.buckets b (t.next i) }
  | some j => t.setEntry j { t.entries j with nextIndex := t.next i }

def deleteEntry (r : Nat) : RSHashTable × Bool :=
  match searchWithPrev t.next (t.isFor r) t.capacity none (t.buckets (t.ind r)) with
  | none => (t, false)
  | some (prev, i) =>
    let t' := (t.spliceOut (t.ind r) prev i).freeEntry i
    ({ t' with
        occupiedCards := t.occupiedCards - (t.entries i).numValidCards
        occupiedEntries := t.occupiedEntries - 1 }, true)

def containsCard (t : RSHashTable) (r c : Nat) : Bool :=
  match t.entryForRegionInd r with
  | none => false
  | some i => (t.entries i).containsCard c

/-- `add_entry` for an entry of region `r`. -/
def addEntry (k : Nat) (t : RSHashTable) (e : SparsePRTEntry) (r : Nat) : Option RSHashTable :=
  match t.entryForRegionIndCreate k r with
  | none => none
  | some (t, i) =>
    let e' := e.copyCards (t.entries i)
    some { t.setEntry i e' with occupiedCards := t.occupiedCards + e'.numValidCards }

/-- One turn of the loop of `expand`: transfer slot `i` of the last table if it looks valid. -/
def transfer (k : Nat) (last t : RSHashTable) (i : Nat) : Option RSHashTable :=
  match (last.entries i).rInd with
  | none => some t
  | some r => t.addEntry k (last.entries i) r

/-- The new table that `SparsePRT::expand` makes. -/
def expand (k : Nat) (last : RSHashTable) : Option RSHashTable :=
  (List.range last.capacity).foldlM (transfer k last) (new k (last.capacity * 2))

end RSHashTable

/-- `SparsePRT`. The table `_cur` differs from `_next` only after an expansion, and `oldCur` is that table. -/
structure SparsePRT where
  next : RSHashTable
  oldCur : Option RSHashTable
  expanded : Bool

namespace SparsePRT

abbrev initialCapacity : Nat := 16

def new (k : Nat) : SparsePRT := ⟨.new k initialCapacity, none, false⟩

variable (s : SparsePRT)

def cur : RSHashTable := s.oldCur.getD s.next

def expand (k : Nat) (s : SparsePRT) : Option SparsePRT :=
  match s.next.expand k with
  | none => none
  | some next => some { next, oldCur := some s.cur, expanded := true }

def addCard (k : Nat) (s : SparsePRT) (r c : Nat) : Option (SparsePRT × Bool) := do
  let s ← if s.next.capacity < s.next.occupiedEntries * 2 then s.expand k else some s
  let (next, ok) ← s.next.addCard k r c
  pure ({ s with next }, ok)

def getEntry (r : Nat) : Option SparsePRTEntry := (s.next.entryForRegionInd r).map s.next.entries

def deleteEntry (s : SparsePRT) (r : Nat) : SparsePRT × Bool :=
  let (next, ok) := s.next.deleteEntry r
  ({ s with next }, ok)

def clear (k : Nat) (s : SparsePRT) : SparsePRT :=
  let cur := if s.cur.capacity ≠ initialCapacity then .new k initialCapacity else s.cur.clear k
  ⟨cur, none, false⟩

def cleanup : SparsePRT := { s with oldCur := none, expanded := false }

def containsCard (s : SparsePRT) (r c : Nat) : Bool := s.next.containsCard r c

def occupied : Nat := s.next.occupiedCards

end SparsePRT

end Rolp.RemSet
