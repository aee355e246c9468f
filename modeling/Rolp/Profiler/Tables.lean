import Rolp.Lib.HashTable
import Rolp.Lib.Run
import Mathlib.Tactic.Linarith
import Rolp.Mark.Word

/-!
# The tables of the profiler

`ng2c/ng2c_globals.hpp`, `ng2c/promotion_counter.cpp` and `ng2c/method_bci_hashtable.cpp`: the allocation counters of a
site, the survivor counters of a key, and the hash tables that hold them. A pointer to a counter is its key.
-/

namespace Rolp.Profiler

open Rolp.Lib Function

abbrev ng2cGenArraySize : Nat := 16
abbrev ng2cMaxAllocSite : Nat := 65536

scoped instance : NeZero ng2cGenArraySize := ⟨by decide⟩

scoped instance : NeZero ng2cMaxAllocSite := ⟨by decide⟩

/-! ## Allocation sites -/

/-- The counters of one allocation site. `factor` is 0 until the contexts are expanded and then 1, and `factorBytes` is
the same in bytes. The target generations are in range, as `target_gen` asserts. -/
structure NGenerationArray where
  factor : Nat
  factorBytes : Nat
  targetGens : Fin ng2cMaxAllocSite → BitVec 64
  allocsGens : Fin ng2cMaxAllocSite → BitVec 64
  factor_le : factor ≤ 1
  factorBytes_eq : factorBytes = 8 * factor
  target_lt : ∀ i, (targetGens i).toNat < ng2cGenArraySize

namespace NGenerationArray

def new : NGenerationArray where
  factor := 0
  factorBytes := 0
  targetGens := fun _ => 0
  allocsGens := fun _ => 0
  factor_le := by decide
  factorBytes_eq := by decide
  target_lt := fun _ => by decide

variable (a : NGenerationArray)

def expandedContexts : Bool := 0 < a.factor

/-- `context * _factor`. All callers mask the context to 16 bits. -/
def slot (context : BitVec 16) : Fin ng2cMaxAllocSite :=
  ⟨context.toNat * a.factor, by
    have h : context.toNat * a.factor ≤ context.toNat * 1 := Nat.mul_le_mul_left _ a.factor_le
    have hlt : context.toNat < 65536 := context.isLt
    rw [ng2cMaxAllocSite]
    omega⟩

def prepareContexts : NGenerationArray where
  factor := 1
  factorBytes := 8
  targetGens := fun _ => a.targetGens 0
  allocsGens := update a.allocsGens 0 0
  factor_le := by decide
  factorBytes_eq := by decide
  target_lt := fun _ => a.target_lt 0

variable (context : BitVec 16)

def targetGen : BitVec 64 := a.targetGens (a.slot context)

def numberAllocs : BitVec 64 := a.allocsGens (a.slot context)

def incNumberAllocs : NGenerationArray :=
  { a with allocsGens := update a.allocsGens (a.slot context) (a.allocsGens (a.slot context) + 1) }

/-- The second `inc_target_gen`, with a generation in range. -/
def incTargetGen (newGen : Fin ng2cGenArraySize) : NGenerationArray :=
  { a with
    targetGens := update a.targetGens (a.slot context) (BitVec.ofNat 64 newGen.val)
    target_lt := by
      intro i
      by_cases hi : i = a.slot context
      · rw [hi, update_self, BitVec.toNat_ofNat, Nat.mod_eq_of_lt (lt_trans newGen.isLt (by decide))]
        exact newGen.isLt
      · rw [update_of_ne hi]
        exact a.target_lt i }

def resetAllocs : NGenerationArray :=
  { a with allocsGens := update a.allocsGens (a.slot context) 0 }

def size : Nat := if a.expandedContexts then ng2cMaxAllocSite else 1

/-- What `MethodBciHashtable::zero` does to each array. -/
def zero : NGenerationArray :=
  { a with allocsGens := fun j => if j.val < a.size then 0 else a.allocsGens j }

end NGenerationArray

abbrev MethodBciHashtable := ChainTable (BitVec 32) NGenerationArray BitVec.toNat

namespace MethodBciHashtable

variable (t : MethodBciHashtable) (hash : BitVec 32)

def getEntry : Option NGenerationArray :=
  if hash = 0 then none else t.find? hash

def addEntry (hne : hash ≠ 0) : MethodBciHashtable :=
  match h : t.getEntry hash with
  | some _ => t
  | none => ChainTable.addEntry t hash .new (by rwa [getEntry, if_neg hne] at h)

def prepareContexts : MethodBciHashtable :=
  t.modify hash NGenerationArray.prepareContexts

def zero (t : MethodBciHashtable) : MethodBciHashtable := t.mapLiterals NGenerationArray.zero

end MethodBciHashtable

/-! ## Survivor counters -/

structure PromotionCounter where
  hash : BitVec 32
  array : Fin ng2cGenArraySize → BitVec 64

namespace PromotionCounter

def new (hash : BitVec 32) : PromotionCounter := ⟨hash, fun _ => 0⟩

/-- `age >= NG2C_GEN_ARRAY_SIZE ? NG2C_GEN_ARRAY_SIZE - 1 : age` -/
def ageIndex (age : BitVec 32) : Fin ng2cGenArraySize :=
  if h : age.toNat < ng2cGenArraySize then ⟨age.toNat, h⟩ else ⟨ng2cGenArraySize - 1, by decide⟩

def update (pc : PromotionCounter) (age : BitVec 32) : PromotionCounter :=
  { pc with array := Function.update pc.array (ageIndex age) (pc.array (ageIndex age) + 1) }

variable (pc : PromotionCounter)

def clear : PromotionCounter := { pc with array := fun _ => 0 }

/-- `*garr++ += *sarr++` after both pointers were moved past index 0. -/
def addFromOne {n : Nat} (garr sarr : Fin (n + 1) → BitVec 64) : Fin (n + 1) → BitVec 64 :=
  (List.finRange n).foldl (fun garr i => Function.update garr i.succ (garr i.succ + sarr i.succ)) garr

def addSurvivors (global survivors : PromotionCounter) : PromotionCounter :=
  { global with array := addFromOne (n := ng2cGenArraySize - 1) global.array survivors.array }

@[simp] lemma hash_update (age) : (pc.update age).hash = pc.hash := rfl

@[simp] lemma hash_clear : pc.clear.hash = pc.hash := rfl

@[simp] lemma hash_addSurvivors (pc survivors : PromotionCounter) : (pc.addSurvivors survivors).hash = pc.hash := rfl

end PromotionCounter

/-- A table of survivor counters. A counter knows the key it is stored under. -/
structure PromotionCounters where
  counters : ChainTable (BitVec 32) PromotionCounter BitVec.toNat
  hash_eq : ∀ k pc, counters.find? k = some pc → pc.hash = k

namespace PromotionCounters

def new (size : Nat) (h : 0 < size) : PromotionCounters := ⟨.empty size h, by simp⟩

variable (t : PromotionCounters)

variable (hash : BitVec 32)

abbrev getCounter : Option PromotionCounter := t.counters.find? hash

def addCounter (h : t.getCounter hash = none) : PromotionCounters where
  counters := t.counters.addEntry hash (.new hash) h
  hash_eq := by
    intro k pc hk
    rw [ChainTable.find?_addEntry] at hk
    split at hk
    · cases hk
      rename_i hkey
      exact hkey.symm
    · exact t.hash_eq k pc hk

/-- The table after `get_counter_not_null(hash)`, which returns a pointer to the counter under `hash`. -/
def getCounterNotNull : PromotionCounters :=
  match h : t.getCounter hash with
  | some _ => t
  | none => t.addCounter hash h

/-- A write through the pointer to the counter of `hash`. The hash of a counter is never written. -/
def modify (t : PromotionCounters) (hash : BitVec 32) (f : PromotionCounter → PromotionCounter)
    (hf : ∀ pc, (f pc).hash = pc.hash) : PromotionCounters where
  counters := t.counters.modify hash f
  hash_eq := by
    intro k pc hk
    rw [ChainTable.find?_modify] at hk
    split at hk
    · obtain ⟨pc', hpc, rfl⟩ := Option.map_eq_some_iff.1 hk
      rw [hf]
      exact t.hash_eq k pc' hpc
    · exact t.hash_eq k pc hk

def zero : PromotionCounters where
  counters := t.counters.mapLiterals PromotionCounter.clear
  hash_eq := by
    intro k pc hk
    rw [ChainTable.find?_mapLiterals] at hk
    obtain ⟨pc', hpc, rfl⟩ := Option.map_eq_some_iff.1 hk
    exact t.hash_eq k pc' hpc

end PromotionCounters

/-!
## Lifetime curves

`NG2C_MergeAllocCounters::normalize_derive_analyze` looks for the ages at which the objects of a site die. The curve has
the allocations at age 0 and then the survivors. The three loops work with `float`s, whose arithmetic is a parameter.
-/

structure Arith (F : Type) where
  zero : F
  /-- `(float) x / y` -/
  quot : BitVec 64 → BitVec 64 → F
  sub : F → F → F
  /-- `x > -0.1` -/
  aboveNegTenth : F → Bool
  /-- `x != 0` -/
  nonzero : F → Bool
  lt : F → F → Bool

abbrev Curve := Fin ng2cGenArraySize → BitVec 64

section Analysis

variable {F : Type} (A : Arith F) (curve : Curve)

def normalized (i : Fin ng2cGenArraySize) : F :=
  if i.val < ng2cGenArraySize - 1 ∧ curve i ≠ 0 then A.quot (curve i) (curve 0) else A.zero

/-- The second loop: the entry `i + 1` of the normalized curve less the entry `i`, if that is a drop of a tenth. -/
def derivative (normalized : Fin ng2cGenArraySize → F) (i : Fin ng2cGenArraySize) : F :=
  if h : i.val + 1 < ng2cGenArraySize then
    let d := A.sub (normalized ⟨i.val + 1, h⟩) (normalized i)
    if A.aboveNegTenth d then A.zero else d
  else A.zero

/-- One age in the third loop. `segm` is the last age of the segment, `NG2C_GEN_ARRAY_SIZE` if there is none. There is
no next state where the code returns -1. -/
def analyzeAge (derivative : Fin ng2cGenArraySize → F) :
    Nat × Fin ng2cGenArraySize → Fin ng2cGenArraySize → Option (Nat × Fin ng2cGenArraySize)
  | (segm, min), i =>
    if A.nonzero (derivative i) then
      if i.val ≠ segm + 1 ∧ segm ≠ ng2cGenArraySize then none
      else some (i.val, if A.lt (derivative i) (derivative min) then i else min)
    else some (segm, min)

def normalizeDeriveAnalyze : Int :=
  match run (analyzeAge A (derivative A (normalized A curve))) (ng2cGenArraySize, 0)
      (List.finRange ng2cGenArraySize) with
  | none => -1
  | some (_, min) => min.val

lemma normalizeDeriveAnalyze_toNat_lt : (normalizeDeriveAnalyze A curve).toNat < ng2cGenArraySize := by
  unfold normalizeDeriveAnalyze
  split
  · decide
  next min _ => exact min.isLt

end Analysis

/-!
## Counting survivors

The profiling block of `G1ParCopyClosure::copy_to_survivor_space`, the merge of a worker's counters
(`NG2C_MergeAllocCounters::update_promotions`) and the expansion of a site, as steps of one profiler that any number of
GC workers use.
-/

open Rolp.Mark

/-- `NG2C_MergeAllocCounters::should_profile`. The total is a `uint`, the flag `NG2CUpdateThreshold` a `uintx`. -/
def shouldProfile (totalUpdateTargetGen : BitVec 32) (ng2cUpdateThreshold : BitVec 64) : Bool :=
  totalUpdateTargetGen.setWidth 64 / ng2cUpdateThreshold ≤ 3

def allocSiteId (hash : BitVec 32) : BitVec 32 := hash >>> 16

/-- The key of the counter to use for `hash`. Without expanded contexts it is the site with a zeroed context. -/
def counterKey (ngen : NGenerationArray) (hash : BitVec 32) : BitVec 32 :=
  if ngen.expandedContexts then hash else allocSiteId hash <<< 16

/-! ## Copying an object -/

inductive CopyAttempt where
  | evacuationFailed
  | forwardedByOther
  | copied
  deriving DecidableEq

/-- What a worker sees of the object it copies. `mem` holds the displaced headers. -/
structure SurvivorCopy where
  mark : MarkOop
  mem : BitVec 64 → MarkOop
  trackObjectAge : Bool
  attempt : CopyAttempt

namespace SurvivorCopy

variable (c : SurvivorCopy)

def age : BitVec 32 :=
  if hasDisplacedMarkHelper c.mark then Mark.age (displacedMarkHelper c.mem c.mark) else Mark.age c.mark

/-- The local `m` after the age was tracked. It is the mark of the copy. -/
def agedMark : MarkOop :=
  if c.trackObjectAge then
    if hasDisplacedMarkHelper c.mark then c.mark else incrAge c.mark
  else c.mark

def agedMem : BitVec 64 → MarkOop :=
  if c.trackObjectAge && hasDisplacedMarkHelper c.mark then
    update c.mem (c.mark &&& ~~~monitorValue) (incrAge (displacedMarkHelper c.mem c.mark))
  else c.mem

def updateAge : BitVec 32 := if c.age = maxAge then c.age else c.age + 1

end SurvivorCopy

/-- The `NG2C_PROF` block: `m` is the mark word of the copy. -/
def profileSurvivor (profiling : Bool) (sites : MethodBciHashtable) (counters : PromotionCounters) (m : MarkOop)
    (age : BitVec 32) : PromotionCounters :=
  let rhash := ng2cProf m
  if profiling && rhash != 0 then
    match sites.getEntry (allocSiteId rhash) with
    | none => counters
    | some arr =>
      (counters.getCounterNotNull (counterKey arr rhash)).modify (counterKey arr rhash) (·.update age)
        fun pc => pc.hash_update age
  else counters

structure CopyResult where
  mark : Option MarkOop
  mem : BitVec 64 → MarkOop
  counters : PromotionCounters

def copyToSurvivorSpace (profiling : Bool) (sites : MethodBciHashtable) (counters : PromotionCounters)
    (c : SurvivorCopy) : CopyResult :=
  match c.attempt with
  | .evacuationFailed => ⟨none, c.mem, counters⟩
  | .forwardedByOther => ⟨none, c.mem, counters⟩
  | .copied => ⟨some c.agedMark, c.agedMem, profileSurvivor profiling sites counters c.agedMark c.updateAge⟩

/-! ## Merging -/

/-- The counts of the entry `surv` go to the global table and it is cleared. A site without an array is a dereference of
`NULL`. -/
def updatePromotion (sites : MethodBciHashtable) :
    PromotionCounters × PromotionCounters → Entry (BitVec 32) PromotionCounter →
      Option (PromotionCounters × PromotionCounters)
  | (thread, global), surv => do
    let ngen ← sites.getEntry (allocSiteId surv.literal.hash)
    let key := counterKey ngen surv.literal.hash
    pure (thread.modify surv.key PromotionCounter.clear PromotionCounter.hash_clear,
      (global.getCounterNotNull key).modify key (·.addSurvivors surv.literal)
        fun pc => pc.hash_addSurvivors surv.literal)

/-- `update_promotions(NamedThread*)`: the tables of the thread and the global one after the loop. -/
def updatePromotions (sites : MethodBciHashtable) (thread global : PromotionCounters) :
    Option (PromotionCounters × PromotionCounters) :=
  run (updatePromotion sites) (thread, global) thread.counters.entries

/-! ## The profiler -/

structure Tables (W : Type) where
  totalUpdateTargetGen : BitVec 32
  ng2cUpdateThreshold : BitVec 64
  sites : MethodBciHashtable
  global : PromotionCounters
  worker : W → PromotionCounters

inductive Event (W : Type) where
  | copy (w : W) (c : SurvivorCopy)
  | merge (w : W)
  | expand (site : BitVec 32)

namespace Tables

variable {W : Type}

def start (sites : MethodBciHashtable) : Tables W where
  totalUpdateTargetGen := 0
  ng2cUpdateThreshold := 16
  sites := sites
  global := .new ng2cMaxAllocSite (by decide)
  worker := fun _ => .new ng2cMaxAllocSite (by decide)

def profiling (p : Tables W) : Bool := shouldProfile p.totalUpdateTargetGen p.ng2cUpdateThreshold

/-- One event. It is undefined where the code would dereference `NULL`. -/
def step [DecidableEq W] (p : Tables W) : Event W → Option (Tables W)
  | .copy w c =>
    some { p with
      worker := update p.worker w (copyToSurvivorSpace p.profiling p.sites (p.worker w) c).counters }
  | .merge w => do
    let (thread, global) ← updatePromotions p.sites (p.worker w) p.global
    pure { p with global := global, worker := update p.worker w thread }
  | .expand site => do
    let _ ← p.sites.getEntry site
    pure { p with sites := p.sites.prepareContexts site }

end Tables

end Rolp.Profiler
