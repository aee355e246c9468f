import Rolp.Profiler.Tables

/-!
# The tables of the profiler as finite maps

`MethodBciHashtable`, `PromotionCounters` and `StaticAnalysis` each have their own walk over the chains of a
`Hashtable`.
-/

namespace Rolp.Profiler

open Rolp.Lib

abbrev Hashtable (V : Type) := Buckets (BitVec 32) V BitVec.toNat

namespace Hashtable

variable {V : Type}

/-! ## `MethodBciHashtable` -/

variable (t : Hashtable V)

def getEntry (hash : BitVec 32) : Option V := if hash = 0 then none else t.find? hash

def addEntry (t : Hashtable V) (hash : BitVec 32) (array : V) : Hashtable V × Option V :=
  match getEntry t hash with
  | some found => (t, some found)
  | none => (Buckets.addEntry t hash array, some array)

variable (hash : BitVec 32)

/-- `add_entry(hash); return bucket(idx)->literal();` -/
def addAndReadHead (array : V) : Hashtable V × Option V :=
  let t' := (addEntry t hash array).1
  (t', (t'.chain hash).head?.map Entry.literal)

def getEntryNotNull (array : V) : Hashtable V × Option V :=
  match t.chain hash with
  | [] => addAndReadHead t hash array
  | entry :: rest =>
    if (stopEntry hash entry rest).key ≠ hash then addAndReadHead t hash array
    else (t, some (stopEntry hash entry rest).literal)

/-! ## `PromotionCounters` -/

def addCounter (pc : V) : Hashtable V × Option V :=
  (Buckets.addEntry t hash pc, some pc)

def getCounter : Option V := t.find? hash

def getCounterNotNull (pc : V) : Hashtable V × Option V :=
  match t.chain hash with
  | [] => addCounter t hash pc
  | entry :: rest =>
    if (stopEntry hash entry rest).key = hash then (t, some (stopEntry hash entry rest).literal)
    else addCounter t hash pc

/-! ## `StaticAnalysis` -/

def addIndex (key : BitVec 32) (ci : V) : Hashtable V := Buckets.addEntry t key ci

def getValue (key : BitVec 32) : Option V := t.find? key

end Hashtable

/-! ## Sequences of operations -/

inductive TableOp (V : Type) where
  | addEntry (hash : BitVec 32) (array : V)
  | getEntry (hash : BitVec 32)
  | getEntryNotNull (hash : BitVec 32) (array : V)
  | getCounter (hash : BitVec 32)
  | getCounterNotNull (hash : BitVec 32) (pc : V)
  | addIndex (key : BitVec 32) (ci : V)
  | getValue (key : BitVec 32)

inductive TableResult (V : Type) where
  | literal (v : Option V)
  | key (k : BitVec 32)
  deriving DecidableEq

namespace TableOp

variable {V : Type}

/-- The keys of `MethodBciHashtable` are not 0. -/
def KeyOk : TableOp V → Prop
  | .addEntry hash _ => hash ≠ 0
  | .getEntry hash => hash ≠ 0
  | .getEntryNotNull hash _ => hash ≠ 0
  | _ => True

def isAddIndex (k : BitVec 32) : TableOp V → Bool
  | .addIndex key _ => key = k
  | _ => false

def exec (t : Hashtable V) : TableOp V → Hashtable V × TableResult V
  | .addEntry hash array => (t.addEntry hash array).map id .literal
  | .getEntry hash => (t, .literal (t.getEntry hash))
  | .getEntryNotNull hash array => (t.getEntryNotNull hash array).map id .literal
  | .getCounter hash => (t, .literal (t.getCounter hash))
  | .getCounterNotNull hash pc => (t.getCounterNotNull hash pc).map id .literal
  | .addIndex key ci => (t.addIndex key ci, .key key)
  | .getValue key => (t, .literal (t.getValue key))

variable (log : List (Entry (BitVec 32) V))

def latestOrAdd (k : BitVec 32) (v : V) : List (Entry (BitVec 32) V) × TableResult V :=
  match latest k log with
  | some found => (log, .literal (some found))
  | none => (⟨k, v⟩ :: log, .literal (some v))

def spec : TableOp V → List (Entry (BitVec 32) V) × TableResult V
  | .addEntry hash array => latestOrAdd log hash array
  | .getEntry hash => (log, .literal (latest hash log))
  | .getEntryNotNull hash array => latestOrAdd log hash array
  | .getCounter hash => (log, .literal (latest hash log))
  | .getCounterNotNull hash pc => latestOrAdd log hash pc
  | .addIndex key ci => (⟨key, ci⟩ :: log, .key key)
  | .getValue key => (log, .literal (latest key log))

end TableOp

/-! ## The operations and their purpose -/

namespace Hashtable

variable {V : Type} (t : Hashtable V)

variable {hash : BitVec 32}

lemma addEntry_eq (hne : hash ≠ 0) (array : V) : t.addEntry hash array = match t.find? hash with
      | some found => (t, some found)
      | none => (Buckets.addEntry t hash array, some array) := by
  rw [addEntry, getEntry, if_neg hne]

lemma addAndReadHead_eq (hne : hash ≠ 0) (h : t.find? hash = none) (array : V) :
    t.addAndReadHead hash array = (Buckets.addEntry t hash array, some array) := by
  have hadd : (t.addEntry hash array).1 = Buckets.addEntry t hash array := by rw [addEntry_eq t hne, h]
  rw [addAndReadHead, hadd, Buckets.chain_addEntry_self]
  rfl

lemma match_chain_eq_match_find? (hash : BitVec 32) {A : Type} (add : A) (found : V → A) : (match t.chain hash with
      | [] => add
      | entry :: rest =>
        if (stopEntry hash entry rest).key = hash then found (stopEntry hash entry rest).literal else add) =
      match t.find? hash with
      | some literal => found literal
      | none => add := by
  rw [Buckets.find?]
  cases t.chain hash with
  | nil => rfl
  | cons entry rest =>
    by_cases hkey : (stopEntry hash entry rest).key = hash
    · simp [chainFind, hkey]
    · simp [chainFind, hkey]

lemma getEntryNotNull_eq (hne : hash ≠ 0) (array : V) : t.getEntryNotNull hash array = t.addEntry hash array := by
  rw [addEntry_eq t hne, getEntryNotNull]
  simp only [ite_not]
  rw [match_chain_eq_match_find? t hash (t.addAndReadHead hash array) fun literal => (t, some literal)]
  cases hfind : t.find? hash with
  | none => exact addAndReadHead_eq t hne hfind array
  | some literal => rfl

lemma getCounterNotNull_eq (hash : BitVec 32) (pc : V) : t.getCounterNotNull hash pc = match t.find? hash with
      | some found => (t, some found)
      | none => (Buckets.addEntry t hash pc, some pc) :=
  match_chain_eq_match_find? t hash (t.addCounter hash pc) fun literal => (t, some literal)

end Hashtable

namespace TableOp

variable {V : Type} {t : Hashtable V} {log : List (Entry (BitVec 32) V)}

lemma latestOrAdd_refined (h : t.Refines log) (k : BitVec 32) (v : V) {r : Hashtable V × Option V}
    (hr : r = match t.find? k with
      | some found => (t, some found)
      | none => (Buckets.addEntry t k v, some v)) : (r.map id TableResult.literal).2 = (latestOrAdd log k v).2 ∧
      Buckets.Refines (r.map id TableResult.literal).1 (latestOrAdd log k v).1 := by
  subst hr
  rw [h.find? k, latestOrAdd]
  cases latest k log with
  | none => exact ⟨rfl, h.addEntry k v⟩
  | some found => exact ⟨rfl, h⟩

lemma exec_refines (h : t.Refines log) (op : TableOp V) (hop : op.KeyOk) :
    (exec t op).2 = (spec log op).2 ∧ Buckets.Refines (exec t op).1 (spec log op).1 := by
  cases op with
  | addEntry hash array => exact latestOrAdd_refined h hash array (t.addEntry_eq hop array)
  | getEntry hash =>
    refine ⟨?_, h⟩
    rw [exec, spec, Hashtable.getEntry, if_neg hop, h.find? hash]
  | getEntryNotNull hash array =>
    exact latestOrAdd_refined h hash array ((t.getEntryNotNull_eq hop array).trans (t.addEntry_eq hop array))
  | getCounter hash => exact ⟨congrArg TableResult.literal (h.find? hash), h⟩
  | getCounterNotNull hash pc => exact latestOrAdd_refined h hash pc (t.getCounterNotNull_eq hash pc)
  | addIndex key ci => exact ⟨rfl, h.addEntry key ci⟩
  | getValue key => exact ⟨congrArg TableResult.literal (h.find? key), h⟩

/-! ## Entries of one key -/

def entriesOf (k : BitVec 32) (es : List (Entry (BitVec 32) V)) : Nat := es.countP fun e => e.key = k

lemma entriesOf_cons (k : BitVec 32) (e : Entry (BitVec 32) V) (log : List (Entry (BitVec 32) V)) :
    entriesOf k (e :: log) = entriesOf k log + if e.key = k then 1 else 0 := by
  simp [entriesOf, List.countP_cons]

lemma entriesOf_of_latest {k : BitVec 32} (h : latest k log = none) : entriesOf k log = 0 := by
  simpa [latest, entriesOf] using h

variable {n : Nat}

lemma entriesOf_latestOrAdd (k k' : BitVec 32) (v : V) (h : entriesOf k log ≤ n + 1) :
    entriesOf k (latestOrAdd log k' v).1 ≤ n + 1 := by
  unfold latestOrAdd
  split
  · exact h
  rename_i hnone
  rw [entriesOf_cons]
  split
  next hk =>
    subst hk
    rw [entriesOf_of_latest hnone]
    omega
  · exact h

lemma entriesOf_spec (k : BitVec 32) (op : TableOp V) (h : entriesOf k log ≤ n + 1) :
    entriesOf k (spec log op).1 ≤ n + (if op.isAddIndex k then 1 else 0) + 1 := by
  cases op with
  | addEntry hash array => exact entriesOf_latestOrAdd k hash array h
  | getEntry hash => exact h
  | getEntryNotNull hash array => exact entriesOf_latestOrAdd k hash array h
  | getCounter hash => exact h
  | getCounterNotNull hash pc => exact entriesOf_latestOrAdd k hash pc h
  | addIndex key ci =>
    simp only [spec, entriesOf_cons, isAddIndex, decide_eq_true_eq]
    omega
  | getValue key => exact h

lemma entriesOf_results (k : BitVec 32) (ops : List (TableOp V)) (h : entriesOf k log ≤ n + 1) :
    entriesOf k (results spec log ops).1 ≤ n + ops.countP (isAddIndex k) + 1 := by
  induction ops generalizing log n with
  | nil => exact h
  | cons op ops ih =>
    have hrest := ih (entriesOf_spec k op h)
    rw [List.countP_cons]
    simp only [results]
    omega

/-- A table of any size gives the results of the log of all additions, and only `add_index` can create more than one
entry for a key. -/
theorem results_eq_latest (size : Nat) (hsize : 0 < size) (ops : List (TableOp V)) (hops : ∀ op ∈ ops, op.KeyOk) :
    (results exec (Buckets.empty size hsize) ops).2 = (results spec [] ops).2 ∧
      (∀ k, (results exec (Buckets.empty size hsize) ops).1.find? k = latest k (results spec [] ops).1) ∧
      ∀ k, entriesOf k (results exec (Buckets.empty size hsize) ops).1.entries ≤ ops.countP (isAddIndex k) + 1 := by
  obtain ⟨hresults, href⟩ := results_eq_of_simulation (fun t log => Buckets.Refines t log) KeyOk
    (fun t log op h hop => exec_refines h op hop) (Buckets.refines_empty size hsize) hops
  refine ⟨hresults, href.find?, fun k => ?_⟩
  have hcount : entriesOf k ([] : List (Entry (BitVec 32) V)) ≤ 0 + 1 := Nat.zero_le _
  have hlog := entriesOf_results k ops hcount
  rw [entriesOf, href.entries.countP_eq]
  rw [Nat.zero_add] at hlog
  exact hlog

theorem results_eq_latest_oneBucket : (results exec (Buckets.empty 1 Nat.one_pos)
      [.getEntryNotNull 3 10, .addIndex 5 11, .getEntry 3, .addIndex 5 12, .getValue 5, .getCounterNotNull 7 13,
        .getEntryNotNull 3 14, .getValue 9]).2 =
      [.literal (some 10), .key 5, .literal (some 10), .key 5, .literal (some 12), .literal (some 13),
        .literal (some 10), .literal (none : Option Nat)] := by
  refine (results_eq_latest 1 Nat.one_pos _ ?_).1.trans (by decide)
  simp [KeyOk]

end TableOp

end Rolp.Profiler
