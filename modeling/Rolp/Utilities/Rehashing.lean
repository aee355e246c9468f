import Rolp.Lib.HashTable
import Rolp.Lib.Run

/-!
# Moving the entries of a hash table

`move_to` walks as many buckets of the old table as the new one has. A chain is the list of its entries. The lowest bit
of the link to the next entry, the shared mark, is a field of its own: `set_next` clears it.
-/

namespace Rolp.Utilities

open Rolp.Lib Function List

structure HashtableEntry (T : Type) where
  hash : BitVec 32
  shared : Bool
  literal : T
  deriving DecidableEq

structure Hashtable (T : Type) where
  tableSize : Nat
  buckets : Nat → List (HashtableEntry T)
  numberOfEntries : Int
  freeList : List Nat
  firstFreeEntry : Nat
  endBlock : Nat

variable {T : Type}

namespace Hashtable

def new (tableSize : Nat) : Hashtable T := ⟨tableSize, fun _ => [], 0, [], 0, 0⟩

lemma tableSize_new (tableSize) : (new tableSize : Hashtable T).tableSize = tableSize := rfl

variable (t : Hashtable T)

/-- A read outside the array of the buckets is undefined. -/
def bucket (i : Nat) : Option (List (HashtableEntry T)) := if i < t.tableSize then some (t.buckets i) else none

def hashToIndex (hash : BitVec 32) : Nat := hash.toNat % t.tableSize

def unlinkEntry (e : HashtableEntry T) : HashtableEntry T × Hashtable T :=
  ({ e with shared := false }, { t with numberOfEntries := t.numberOfEntries - 1 })

def addEntry (index : Nat) (e : HashtableEntry T) : Hashtable T :=
  { t with buckets := update t.buckets index (e :: t.buckets index), numberOfEntries := t.numberOfEntries + 1 }

def copyFreelist (src : Hashtable T) : Hashtable T × Hashtable T :=
  ({ t with freeList := src.freeList, firstFreeEntry := src.firstFreeEntry, endBlock := src.endBlock },
    { src with freeList := [], firstFreeEntry := 0, endBlock := 0 })

def freeBuckets : Hashtable T := { t with buckets := fun _ => [] }

def entries : List (HashtableEntry T) := (range t.tableSize).flatMap t.buckets

end Hashtable

variable (newHash : T → BitVec 32)

variable (tables : Hashtable T × Hashtable T)

def moveEntry (e : HashtableEntry T) : Hashtable T × Hashtable T :=
  let hashValue := newHash e.literal
  let index := tables.2.hashToIndex hashValue
  let (unlinked, old) := tables.1.unlinkEntry { e with hash := hashValue }
  (old, tables.2.addEntry index (if e.shared then { unlinked with shared := true } else unlinked))

def moveBucket (i : Nat) : Option (Hashtable T × Hashtable T) := do
  let chain ← tables.1.bucket i
  some (chain.foldl (moveEntry newHash) tables)

/-- The old and the new table after `old.move_to(new_table)`. -/
def moveTo (old newTable : Hashtable T) : Option (Hashtable T × Hashtable T) := do
  let (old, newTable) ← run (moveBucket newHash) (old, newTable) (range newTable.tableSize)
  let (newTable, old) := newTable.copyFreelist old
  some (old.freeBuckets, newTable)

def rehashed (e : HashtableEntry T) : HashtableEntry T := { e with hash := newHash e.literal }

variable {newHash} {tables start : Hashtable T × Hashtable T} {done : List (HashtableEntry T)}

structure Moved (newHash : T → BitVec 32) (start tables : Hashtable T × Hashtable T) (done : List (HashtableEntry T)) :
    Prop where
  entries : tables.2.entries.Perm (done.map (rehashed newHash))
  bucket : ∀ i, ∀ e ∈ tables.2.buckets i, tables.2.hashToIndex e.hash = i
  count : tables.2.numberOfEntries = done.length
  size : tables.2.tableSize = start.2.tableSize
  old : tables.1.tableSize = start.1.tableSize ∧ tables.1.buckets = start.1.buckets

lemma Moved.entry (h : Moved newHash start tables done) (hsize : 0 < start.2.tableSize) (e) :
    Moved newHash start (moveEntry newHash tables e) (done ++ [e]) := by
  have hentry : moveEntry newHash tables e = ({ tables.1 with numberOfEntries := tables.1.numberOfEntries - 1 },
      tables.2.addEntry (tables.2.hashToIndex (newHash e.literal)) (rehashed newHash e)) := by
    cases hs : e.shared <;> simp [moveEntry, Hashtable.unlinkEntry, rehashed, hs]
  rw [hentry]
  refine ⟨?_, fun i e' he' => ?_, by simp [Hashtable.addEntry, h.count], h.size, h.old⟩
  · rw [map_append]
    refine (flatMap_update_perm nodup_range (mem_range.2 (Nat.mod_lt _ (h.size ▸ hsize))) _ _).trans ?_
    exact (h.entries.cons _).trans (perm_append_singleton _ _).symm
  · by_cases hi : i = tables.2.hashToIndex (newHash e.literal)
    · subst hi
      rcases mem_cons.1 (by simpa [Hashtable.addEntry] using he') with rfl | he'
      · rfl
      · exact h.bucket _ e' he'
    · exact h.bucket i e' (by simpa [Hashtable.addEntry, hi] using he')

lemma Moved.chain (h : Moved newHash start tables done) (hsize : 0 < start.2.tableSize) (chain) :
    Moved newHash start (chain.foldl (moveEntry newHash) tables) (done ++ chain) := by
  induction chain generalizing tables done with
  | nil => simpa using h
  | cons e chain ih => simpa using ih (h.entry hsize e)

lemma Moved.buckets (hsize : 0 < start.2.tableSize) (hstart : Moved newHash start start []) {n : Nat}
    (hn : n ≤ start.1.tableSize) : ∃ tables, run (moveBucket newHash) start (range n) = some tables ∧
      Moved newHash start tables ((range n).flatMap start.1.buckets) := by
  induction n with
  | zero => exact ⟨start, rfl, hstart⟩
  | succ n ih =>
    obtain ⟨tables, hrun, h⟩ := ih (Nat.le_of_succ_le hn)
    refine ⟨_, ?_, by simpa [range_succ] using h.chain hsize (start.1.buckets n)⟩
    rw [range_succ]
    refine run_snoc hrun ?_
    rw [moveBucket, Hashtable.bucket, h.old.1, if_pos (Nat.lt_of_succ_le hn), h.old.2]
    rfl

/-- The new table has exactly the literals of the old one, with their shared marks and new hashes, each in the bucket of
its hash. -/
def Rehashed (newHash : T → BitVec 32) (old newTable : Hashtable T) : Prop :=
  newTable.entries.Perm (old.entries.map (rehashed newHash)) ∧
    (∀ i, ∀ e ∈ newTable.buckets i, newTable.hashToIndex e.hash = i) ∧
    newTable.numberOfEntries = old.numberOfEntries

/-- All entries are moved just when the new table has no more buckets than the old one and those that it lacks are
empty. -/
theorem move_to_moves_everything_iff (newHash : T → BitVec 32) (old : Hashtable T)
    (hcount : old.numberOfEntries = old.entries.length) {size : Nat} (hsize : 0 < size) :
    (∃ tables, moveTo newHash old (.new size) = some tables ∧ Rehashed newHash old tables.2) ↔
      size ≤ old.tableSize ∧ ∀ i, size ≤ i → i < old.tableSize → old.buckets i = [] := by
  have hstart : Moved newHash (old, .new size) (old, .new size) [] :=
    ⟨by simp [Hashtable.entries, Hashtable.new], by simp [Hashtable.new], rfl, rfl, rfl, rfl⟩
  by_cases hle : size ≤ old.tableSize
  · obtain ⟨tables, hrun, h⟩ := Moved.buckets hsize hstart hle
    have hmove : moveTo newHash old (.new size) = some ((tables.2.copyFreelist tables.1).2.freeBuckets,
        (tables.2.copyFreelist tables.1).1) := by
      rw [moveTo, Hashtable.tableSize_new, hrun]
      rfl
    obtain ⟨k, hk⟩ := Nat.exists_eq_add_of_le hle
    have hsplit : old.entries = (range size).flatMap old.buckets ++
        (range k).flatMap fun i => old.buckets (size + i) := by
      rw [Hashtable.entries, hk, range_add, flatMap_append, flatMap_map]
    rw [hmove]
    constructor
    · rintro ⟨_, ⟨⟩, hperm, -, -⟩
      have hlen := (h.entries.symm.trans hperm).length_eq
      simp only [length_map, hsplit, length_append] at hlen
      have hnil : ((range k).flatMap fun i => old.buckets (size + i)) = [] := eq_nil_of_length_eq_zero (by omega)
      refine ⟨hle, fun i hi hlt => ?_⟩
      have := flatMap_eq_nil_iff.1 hnil (i - size) (mem_range.2 (by omega))
      rwa [Nat.add_sub_cancel' hi] at this
    rintro ⟨-, hempty⟩
    have hnil : ((range k).flatMap fun i => old.buckets (size + i)) = [] :=
      flatMap_eq_nil_iff.2 fun i hi => hempty _ (by omega) (by simp at hi; omega)
    rw [hnil, append_nil] at hsplit
    refine ⟨_, rfl, hsplit ▸ h.entries, h.bucket, ?_⟩
    rw [hcount, hsplit]
    exact h.count
  · -- The walk goes on to the bucket after the last one.
    have hnone : moveTo newHash old (.new size) = none := by
      obtain ⟨tables, hrun, h⟩ := Moved.buckets hsize hstart (Nat.le_refl old.tableSize)
      obtain ⟨k, rfl⟩ := Nat.exists_eq_add_of_lt (Nat.lt_of_not_le hle)
      have hread : moveBucket newHash tables old.tableSize = none := by
        rw [moveBucket, Hashtable.bucket, h.old.1, if_neg (Nat.lt_irrefl _)]
        rfl
      rw [moveTo, Hashtable.tableSize_new, Nat.add_assoc, range_add, run_append, ← Nat.add_assoc, hrun]
      simp [range_succ_eq_map, hread]
    simp [hnone, hle]

/-- A table of one bucket is moved to one of two. -/
theorem move_to_reads_past_last_bucket : ¬∃ tables, moveTo (fun _ : Nat => 0) (.new 1) (.new 2) = some tables ∧
      Rehashed (fun _ : Nat => 0) (.new 1) tables.2 := by
  rintro ⟨_, ⟨⟩, -⟩

def twoSymbols : Hashtable Nat :=
  ⟨2, fun i => if i = 0 then [⟨0, true, 4⟩, ⟨2, false, 7⟩] else [], 2, [], 0, 0⟩

theorem move_to_moves_everything_halved : ∃ tables,
    moveTo (BitVec.ofNat 32) twoSymbols (.new 1) = some tables ∧ Rehashed (BitVec.ofNat 32) twoSymbols tables.2 :=
  (move_to_moves_everything_iff _ twoSymbols rfl (by decide)).2 ⟨by decide, fun i hi _ => if_neg (by omega)⟩

end Rolp.Utilities
