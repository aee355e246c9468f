import Rolp.Alloc.Theorems

/-!
# The arrays of a site in memory and the VM operation

`NGenerationArray` as the VM has it: two arrays and a factor that switches between two ways to index them. Compiled code
reads the factor in bytes and indexes without a check. The fields always are those of an `NGenerationArray` whose unused
elements are 0. The second part is the operation that decides on generations.
-/

namespace Rolp.Profiler

open Rolp.Lib NGenerationArray MethodBciHashtable Function

structure Cells where
  factor : BitVec 32
  factorBytes : BitVec 32
  targetGen : Fin ng2cMaxAllocSite → BitVec 64
  allocsGen : Fin ng2cMaxAllocSite → BitVec 64

namespace Cells

def new : Cells := ⟨0, 0, fun _ => 0, fun _ => 0⟩

variable (c : Cells)

def index (context : BitVec 16) : Option (Fin ng2cMaxAllocSite) :=
  if h : (context.setWidth 32 * c.factor).toNat < ng2cMaxAllocSite then
    some ⟨(context.setWidth 32 * c.factor).toNat, h⟩
  else none

def expandedContexts : Bool := BitVec.slt 0 c.factor

def prepareContexts : Cells where
  factor := 1
  factorBytes := 8
  targetGen := fun _ => c.targetGen 0
  allocsGen := update c.allocsGen 0 0

variable (context : BitVec 16)

def targetGenAt : Option (BitVec 64) := (c.index context).map c.targetGen

def incTargetGen (newGen : BitVec 32) : Option Cells := do
  let i ← c.index context
  pure { c with targetGen := update c.targetGen i (newGen.setWidth 64) }

def incNumberAllocs : Option Cells := do
  let i ← c.index context
  pure { c with allocsGen := update c.allocsGen i (c.allocsGen i + 1) }

def resetAllocs : Option Cells := do
  let i ← c.index context
  pure { c with allocsGen := update c.allocsGen i 0 }

/-- The part of `MethodBciHashtable::zero` for one site. -/
def zero : Cells :=
  let size := if c.expandedContexts then ng2cMaxAllocSite else 1
  { c with allocsGen := fun j => if j.val < size then 0 else c.allocsGen j }

/-- An operation on a site. The generation that `inc_target_gen` gets is the result of the analysis of a curve. -/
inductive Op where
  | prepareContexts
  | incTargetGen (context : BitVec 16) (curve : Curve)
  | incNumberAllocs (context : BitVec 16)
  | resetAllocs (context : BitVec 16)
  | zero

/-- `update_target_gen` only passes a decision on that is positive. -/
def step {F : Type} (A : Arith F) (c : Cells) : Op → Option Cells
  | .prepareContexts => some c.prepareContexts
  | .incTargetGen context curve =>
    if 0 < normalizeDeriveAnalyze A curve then
      c.incTargetGen context (BitVec.ofInt 32 (normalizeDeriveAnalyze A curve))
    else some c
  | .incNumberAllocs context => c.incNumberAllocs context
  | .resetAllocs context => c.resetAllocs context
  | .zero => some c.zero

structure WellFormed (c : Cells) : Prop where
  factor : c.factor = 0 ∨ c.factor = 1
  factorBytes : c.factorBytes = 8 * c.factor
  unused : c.factor = 0 → ∀ i, i ≠ 0 → c.targetGen i = 0 ∧ c.allocsGen i = 0
  target_lt : ∀ i, (c.targetGen i).toNat < ng2cGenArraySize

end Cells

/-! ## The unused elements -/

namespace NGenerationArray

def Blank (a : NGenerationArray) : Prop := a.factor = 0 → ∀ i, i ≠ 0 → a.targetGens i = 0 ∧ a.allocsGens i = 0

variable {a : NGenerationArray}

lemma slot_of_factor_zero (h : a.factor = 0) (context) : a.slot context = 0 := by
  apply Fin.ext
  simp [slot, h]

lemma blank_new : new.Blank := fun _ _ _ => ⟨rfl, rfl⟩

lemma blank_prepareContexts (a : NGenerationArray) : a.prepareContexts.Blank := fun h => absurd h one_ne_zero

lemma Blank.incTargetGen (h : a.Blank) (context newGen) : (a.incTargetGen context newGen).Blank := by
  intro h0 i hi
  refine ⟨?_, (h h0 i hi).2⟩
  have hslot : a.slot context = 0 := slot_of_factor_zero h0 context
  simp only [NGenerationArray.incTargetGen, hslot, update_of_ne hi]
  exact (h h0 i hi).1

lemma Blank.update_allocsGens (h : a.Blank) (context v) :
    Blank { a with allocsGens := update a.allocsGens (a.slot context) v } := by
  intro h0 i hi
  refine ⟨(h h0 i hi).1, ?_⟩
  have hslot : a.slot context = 0 := slot_of_factor_zero h0 context
  simp only [hslot, update_of_ne hi]
  exact (h h0 i hi).2

lemma Blank.zero (h : a.Blank) : a.zero.Blank := by
  intro h0 i hi
  refine ⟨(h h0 i hi).1, ?_⟩
  simp only [NGenerationArray.zero]
  split
  · rfl
  · exact (h h0 i hi).2

/-! ## Fields of a site -/

def cells (a : NGenerationArray) : Cells where
  factor := BitVec.ofNat 32 a.factor
  factorBytes := BitVec.ofNat 32 a.factorBytes
  targetGen := a.targetGens
  allocsGen := a.allocsGens

lemma factor_cases (a : NGenerationArray) : a.factor = 0 ∨ a.factor = 1 :=
  Nat.le_one_iff_eq_zero_or_eq_one.1 a.factor_le

lemma factor_of_cells (h : a.cells.factor = 0) : a.factor = 0 := by
  refine a.factor_cases.resolve_right fun h1 => ?_
  simp [cells, h1] at h

lemma index_cells (a : NGenerationArray) (context : BitVec 16) : a.cells.index context = some (a.slot context) := by
  have hval : (context.setWidth 32 * a.cells.factor).toNat = context.toNat * a.factor := by
    rcases a.factor_cases with h | h <;> simp [cells, h]
    omega
  have hslot : (a.slot context).val = context.toNat * a.factor := rfl
  simp only [Cells.index, hval]
  rw [dif_pos (hslot ▸ (a.slot context).isLt)]
  rfl

lemma expandedContexts_cells (a : NGenerationArray) : a.cells.expandedContexts = a.expandedContexts := by
  rcases a.factor_cases with h | h <;> simp [cells, Cells.expandedContexts, expandedContexts, h]

lemma wellFormed_cells (h : a.Blank) : a.cells.WellFormed where
  factor := a.factor_cases.imp (fun h => by simp [cells, h]) fun h => by simp [cells, h]
  factorBytes := by
    rw [cells, a.factorBytes_eq]
    rcases a.factor_cases with h | h <;> simp [h]
  unused := fun h0 => h (factor_of_cells h0)
  target_lt := a.target_lt

lemma targetGenAt_prepareContexts (h : a.factor = 0) (context : BitVec 16) :
    a.cells.prepareContexts.targetGenAt context = a.cells.targetGenAt context := by
  have hprep : a.cells.prepareContexts = a.prepareContexts.cells := rfl
  rw [hprep, Cells.targetGenAt, Cells.targetGenAt, index_cells, index_cells, slot_of_factor_zero h]
  rfl

end NGenerationArray

namespace Cells

lemma step_cells {F : Type} (A : Arith F) {a : NGenerationArray} (h : a.Blank) (op : Op) :
    ∃ a' : NGenerationArray, step A a.cells op = some a'.cells ∧ a'.Blank := by
  cases op with
  | prepareContexts => exact ⟨a.prepareContexts, rfl, a.blank_prepareContexts⟩
  | incTargetGen context curve =>
    by_cases hpos : 0 < normalizeDeriveAnalyze A curve
    · refine ⟨a.incTargetGen context ⟨_, normalizeDeriveAnalyze_toNat_lt A curve⟩, ?_, h.incTargetGen context _⟩
      have hlt := normalizeDeriveAnalyze_toNat_lt A curve
      have hgen : (BitVec.ofInt 32 (normalizeDeriveAnalyze A curve)).setWidth 64 =
          BitVec.ofNat 64 (normalizeDeriveAnalyze A curve).toNat := by
        apply BitVec.eq_of_toNat_eq
        simp only [BitVec.toNat_setWidth, BitVec.toNat_ofInt, BitVec.toNat_ofNat]
        simp only [ng2cGenArraySize] at hlt
        omega
      simp only [step, if_pos hpos, incTargetGen, index_cells, hgen]
      rfl
    · exact ⟨a, by simp [step, hpos], h⟩
  | incNumberAllocs context =>
    refine ⟨a.incNumberAllocs context, ?_, h.update_allocsGens context _⟩
    simp only [step, incNumberAllocs, index_cells]
    rfl
  | resetAllocs context =>
    refine ⟨a.resetAllocs context, ?_, h.update_allocsGens context _⟩
    simp only [step, resetAllocs, index_cells]
    rfl
  | zero =>
    refine ⟨a.zero, ?_, h.zero⟩
    simp only [step, zero, expandedContexts_cells]
    rfl

/-- Every sequence of operations on a new site keeps its fields well-formed, and expanding its contexts changes no
target generation. -/
theorem wellFormed_of_run {F : Type} (A : Arith F) (ops : List Op) : ∃ c, run (step A) new ops = some c ∧ c.WellFormed ∧
      (c.factor = 0 → ∀ context, c.prepareContexts.targetGenAt context = c.targetGenAt context) := by
  have hstep : ∀ c op, (∃ a : NGenerationArray, c = a.cells ∧ a.Blank) → True →
      ∃ c', step A c op = some c' ∧ ∃ a : NGenerationArray, c' = a.cells ∧ a.Blank := by
    rintro _ op ⟨a, rfl, hblank⟩ -
    obtain ⟨a', hstep, hblank'⟩ := step_cells A hblank op
    exact ⟨a'.cells, hstep, a', rfl, hblank'⟩
  obtain ⟨_, hrun, a, rfl, hblank⟩ := run_defined _ (fun _ => True) hstep
    ⟨.new, rfl, blank_new⟩ fun _ _ => trivial
  exact ⟨a.cells, hrun, wellFormed_cells hblank, fun h0 => targetGenAt_prepareContexts (factor_of_cells h0)⟩

end Cells

/-!
## The VM operation of the profiler

`NG2C_MergeAllocCounters::doit` runs after every collection. At the end of a window of `NG2CUpdateThreshold` collections
it merges the counters of the threads, decides about every site (`update_target_gen`) and clears all counters.
-/

open Rolp.Mark Rolp.Alloc

/-! ## Decisions -/

/-- Flags of the build: `NG2C_PROF_ALLOC` and `NG2C_PROF_CONTEXT`. -/
structure BuildFlags where
  profAlloc : Bool
  profContext : Bool

variable (pc : PromotionCounter) (allocs : BitVec 64)

def PromotionCounter.addAllocs : PromotionCounter :=
  { pc with array := Function.update pc.array 0 (pc.array 0 + allocs) }

@[simp] lemma PromotionCounter.hash_addAllocs : (pc.addAllocs allocs).hash = pc.hash := rfl

section Decisions

variable {F : Type} (A : Arith F) (flags : BuildFlags)

def NGenerationArray.applyDecision (context : BitVec 16) (curve : Curve) (allocs : NGenerationArray) :
    NGenerationArray :=
  let decision := normalizeDeriveAnalyze A curve
  if 0 < decision then
    if flags.profAlloc then allocs.incTargetGen context ⟨decision.toNat, normalizeDeriveAnalyze_toNat_lt A curve⟩
    else allocs
  else if decision < 0 then
    if !allocs.expandedContexts && flags.profContext then allocs.prepareContexts else allocs
  else allocs

/-- The state of `update_target_gen`. `analyzed` are the curves that `normalize_derive_analyze` got so far. -/
structure DecisionPass where
  sites : MethodBciHashtable
  global : PromotionCounters
  needMoreContext : Bool
  analyzed : List Curve

/-- One entry `p` of the global table. A site without an array is a dereference of `NULL`. -/
def updateTargetGenOf (pass : DecisionPass) (p : Entry (BitVec 32) PromotionCounter) : Option DecisionPass := do
  let context := p.literal.hash.setWidth 16
  let site := allocSiteId p.literal.hash
  let allocs ← pass.sites.getEntry site
  let numberAllocs := allocs.numberAllocs context
  let curve := (p.literal.addAllocs numberAllocs).array
  pure {
    sites := pass.sites.modify site (applyDecision A flags context curve)
    global := pass.global.modify p.key (·.addAllocs numberAllocs) fun pc => pc.hash_addAllocs numberAllocs
    needMoreContext := pass.needMoreContext || normalizeDeriveAnalyze A curve < 0
    analyzed := pass.analyzed ++ [curve] }

def updateTargetGen (sites : MethodBciHashtable) (global : PromotionCounters) : Option DecisionPass :=
  run (updateTargetGenOf A flags) ⟨sites, global, false, []⟩ global.counters.entries

end Decisions

/-! ## One operation -/

namespace Tables

variable {W : Type} (p : Tables W)

/-- `_total_update_target_gen % NG2CUpdateThreshold == 0 && should_profile()` -/
def windowEnds : Bool :=
  p.totalUpdateTargetGen.setWidth 64 % p.ng2cUpdateThreshold == 0 && p.profiling

/-- `_total_update_target_gen / NG2CUpdateThreshold > 1` -/
def decides : Bool := 1 < p.totalUpdateTargetGen.setWidth 64 / p.ng2cUpdateThreshold

def countOperation : Tables W := { p with totalUpdateTargetGen := p.totalUpdateTargetGen + 1 }

def mergeThreads [DecidableEq W] (p : Tables W) (threads : List W) : Option (Tables W) :=
  run (fun p w => p.step (.merge w)) p threads

def decisionPass {F : Type} (A : Arith F) (flags : BuildFlags) (p : Tables W) : Option DecisionPass :=
  if p.decides then updateTargetGen A flags p.sites p.global else some ⟨p.sites, p.global, false, []⟩

/-- The passes at the end of a window, with the analyzed curves. The contexts of the Java threads, which are set last,
are left out. -/
def endWindow {F : Type} [DecidableEq W] (A : Arith F) (flags : BuildFlags) (p : Tables W) (threads : List W) :
    Option (Tables W × List Curve) := do
  let p ← p.mergeThreads threads
  let pass ← p.decisionPass A flags
  pure ({ p with sites := MethodBciHashtable.zero pass.sites, global := pass.global.zero }, pass.analyzed)

end Tables

/-- What one operation did, and `should_profile()` at its end. -/
structure Call where
  merged : Bool
  decided : Bool
  analyzed : List Curve
  profiles : Bool

/-- The profiler in the VM. `usesProfiler` is `NG2CStaticAnalysis != NULL || UseROLP`, `threads` are those that
`Threads::threads_do` visits, and `calls` are the operations so far. -/
structure Vm (W : Type) where
  tables : Tables W
  usesProfiler : Bool
  threads : List W
  maxTenuringThreshold : BitVec 64
  calls : List Call

namespace Vm

variable {W : Type}

def start (ng2cUpdateThreshold : BitVec 64) (usesProfiler : Bool) (threads : List W)
    (maxTenuringThreshold : BitVec 64) : Vm W where
  tables := { Tables.start (.empty ng2cMaxAllocSite (Nat.pos_of_neZero _)) with
    ng2cUpdateThreshold := ng2cUpdateThreshold }
  usesProfiler := usesProfiler
  threads := threads
  maxTenuringThreshold := maxTenuringThreshold
  calls := []

/-- The end of `doit`, with the tables after the passes. -/
def finish (vm : Vm W) (p : Tables W) (merged decided : Bool) (analyzed : List Curve) : Vm W :=
  { vm with
    tables := p
    maxTenuringThreshold := if p.profiling then vm.maxTenuringThreshold else 1
    calls := vm.calls ++ [⟨merged, decided, analyzed, p.profiling⟩] }

def doit {F : Type} [DecidableEq W] (A : Arith F) (flags : BuildFlags) (vm : Vm W) : Option (Vm W) :=
  if vm.usesProfiler then
    let p := vm.tables.countOperation
    if p.ng2cUpdateThreshold = 0 then none
    else if p.windowEnds then do
      let (p', analyzed) ← p.endWindow A flags vm.threads
      pure (vm.finish p' true p.decides analyzed)
    else some (vm.finish p false false [])
  else some vm

end Vm

/-! ## Runs -/

inductive VmEvent (W : Type) where
  | register (site : BitVec 32)
  | allocate (useBiasedLocking : Bool) (thread : AllocThread) (klass : Klass) (gen : BitVec 32)
      (length : Option (BitVec 32))
  | fastPath (useBiasedLocking : Bool) (thread : AllocThread) (klass : Klass) (site : BitVec 32)
      (length : Option (BitVec 32))
  | copy (w : W) (c : SurvivorCopy)
  | doit

namespace Vm

variable {W : Type}

def setSites (vm : Vm W) (sites : MethodBciHashtable) : Vm W := { vm with tables := { vm.tables with sites := sites } }

/-- One event. It is undefined where the code would dereference `NULL`, and for site 0, which is not registered. -/
def step {F : Type} [DecidableEq W] (A : Arith F) (flags : BuildFlags) (vm : Vm W) : VmEvent W → Option (Vm W)
  | .register site => if h : site ≠ 0 then some (vm.setSites (addEntry vm.tables.sites site h)) else none
  | .allocate useBiasedLocking thread klass gen length =>
    (Alloc.allocate useBiasedLocking vm.tables.sites thread klass gen length).map fun r => vm.setSites r.1
  | .fastPath useBiasedLocking thread klass site length =>
    (Alloc.fastPath useBiasedLocking vm.tables.sites thread klass site length).map fun r => vm.setSites r.1
  | .copy w c => (vm.tables.step (.copy w c)).map fun p => { vm with tables := p }
  | .doit => vm.doit A flags

end Vm

/-! ## Keys -/

/-- `k` is the key under which survivors with this tag are counted. -/
def Keyed (sites : MethodBciHashtable) (k : BitVec 32) : Prop :=
  ∃ arr, sites.getEntry (allocSiteId k) = some arr ∧ counterKey arr k = k

variable {arr : NGenerationArray}

lemma keyed_counterKey {sites hash}
    (h : sites.getEntry (allocSiteId hash) = some arr) : Keyed sites (counterKey arr hash) := by
  refine ⟨arr, by rwa [allocSiteId_counterKey], ?_⟩
  have hsite := allocSiteId_counterKey arr hash
  unfold counterKey at hsite ⊢
  split
  · rfl
  next hexp =>
    rw [if_neg hexp] at hsite
    rw [hsite]

lemma keyed_of_expanded {sites k}
    (h : sites.getEntry (allocSiteId k) = some arr) (hexp : arr.expandedContexts = true) : Keyed sites k :=
  ⟨arr, h, by rw [counterKey, if_pos hexp]⟩

lemma Keyed.isSome {sites k} (h : Keyed sites k) : (sites.getEntry (allocSiteId k)).isSome := by
  obtain ⟨arr, harr, -⟩ := h
  rw [harr]
  rfl

lemma Keyed.expanded_of_ne {sites k k'}
    (h : Keyed sites k) (h' : Keyed sites k') (hsite : allocSiteId k = allocSiteId k') (hne : k ≠ k')
    (harr : sites.getEntry (allocSiteId k) = some arr) : arr.expandedContexts = true := by
  obtain ⟨_, hk, hkey⟩ := h
  obtain ⟨_, hk', hkey'⟩ := h'
  cases harr.symm.trans hk
  cases (hsite ▸ hk).symm.trans hk'
  by_contra hexp
  rw [counterKey, if_neg hexp] at hkey hkey'
  exact hne (hkey.symm.trans (hsite ▸ hkey'))

/-! ## Sites -/

namespace NGenerationArray

structure Keeps (f : NGenerationArray → NGenerationArray) : Prop where
  blank : ∀ a : NGenerationArray, a.Blank → (f a).Blank
  expanded : ∀ a : NGenerationArray, a.expandedContexts = true → (f a).expandedContexts = true

lemma keeps_incNumberAllocs (context) : Keeps (·.incNumberAllocs context) where
  blank := fun _ h => h.update_allocsGens context _
  expanded := fun _ h => h

lemma keeps_zero : Keeps zero where
  blank := fun _ h => h.zero
  expanded := fun _ h => h

section Decision

variable {F : Type} (A : Arith F) (flags : BuildFlags) (context : BitVec 16) (curve : Curve)

lemma applyDecision_cases (a) : (∃ gen, applyDecision A flags context curve a = a.incTargetGen context gen) ∨
      (a.expandedContexts = false ∧ applyDecision A flags context curve a = a.prepareContexts) ∨
      applyDecision A flags context curve a = a := by
  unfold applyDecision
  by_cases hpos : 0 < normalizeDeriveAnalyze A curve
  · cases hf : flags.profAlloc with
    | true => exact .inl ⟨_, by simp only [hpos, if_true]; rfl⟩
    | false => simp [hpos]
  · by_cases hneg : normalizeDeriveAnalyze A curve < 0
    · cases hexp : a.expandedContexts <;> cases hf : flags.profContext <;> simp [hpos, hneg]
    · simp [hpos, hneg]

lemma keeps_applyDecision : Keeps (applyDecision A flags context curve) where
  blank := by
    intro a h
    obtain ⟨gen, heq⟩ | ⟨-, heq⟩ | heq := applyDecision_cases A flags context curve a
    · rw [heq]
      exact h.incTargetGen context gen
    · rw [heq]
      exact a.blank_prepareContexts
    · rwa [heq]
  expanded := by
    intro a h
    obtain ⟨gen, heq⟩ | ⟨-, heq⟩ | heq := applyDecision_cases A flags context curve a
    · rw [heq]
      exact h
    · rw [heq]
      rfl
    · rwa [heq]

lemma numberAllocs_applyDecision {a} (h : a.expandedContexts = true) (context') :
    (applyDecision A flags context curve a).numberAllocs context' = a.numberAllocs context' := by
  obtain ⟨gen, heq⟩ | ⟨hexp, -⟩ | heq := applyDecision_cases A flags context curve a
  · rw [heq]
    rfl
  · rw [h] at hexp
    cases hexp
  · rw [heq]

end Decision

lemma allocsGens_zero {a : NGenerationArray} (h : a.Blank) (i : Fin ng2cMaxAllocSite) : a.zero.allocsGens i = 0 := by
  show (if i.val < a.size then 0 else a.allocsGens i) = 0
  split
  · rfl
  rename_i hsize
  rcases a.factor_cases with h0 | h1
  · have hi : i ≠ 0 := by
      rintro rfl
      exact hsize (by simp [size, expandedContexts, h0])
    exact (h h0 i hi).2
  · have hlt := i.isLt
    simp only [size, expandedContexts, h1] at hsize
    exact absurd hlt hsize

end NGenerationArray

namespace MethodBciHashtable

variable (t : MethodBciHashtable)

def AllBlank : Prop := ∀ s arr, t.find? s = some arr → arr.Blank

def allocsAt (site : BitVec 32) (context : BitVec 16) : BitVec 64 :=
  ((t.getEntry site).map (·.numberAllocs context)).getD 0

def allocsOf (hash : BitVec 32) : BitVec 64 :=
  t.allocsAt (allocSiteId hash) (hash.setWidth 16)

variable {t : MethodBciHashtable} {f : NGenerationArray → NGenerationArray}

lemma getEntry_mapLiterals (t : MethodBciHashtable) (f : NGenerationArray → NGenerationArray) (hash : BitVec 32) :
    getEntry (t.mapLiterals f) hash = (t.getEntry hash).map f := by
  by_cases h0 : hash = 0
  · rw [h0]
    rfl
  · rw [getEntry_of_ne h0, getEntry_of_ne h0, ChainTable.find?_mapLiterals]

lemma AllBlank.modify (h : t.AllBlank) (hf : NGenerationArray.Keeps f) (site) : AllBlank (t.modify site f) := by
  intro s arr hs
  rw [ChainTable.find?_modify] at hs
  split at hs
  · obtain ⟨arr', harr, rfl⟩ := Option.map_eq_some_iff.1 hs
    exact hf.blank arr' (h s arr' harr)
  · exact h s arr hs

lemma AllBlank.zero (h : t.AllBlank) : AllBlank t.zero := by
  intro s arr hs
  rw [MethodBciHashtable.zero, ChainTable.find?_mapLiterals] at hs
  obtain ⟨arr', harr, rfl⟩ := Option.map_eq_some_iff.1 hs
  exact (h s arr' harr).zero

lemma AllBlank.addEntry (h : t.AllBlank) (site) (hne : site ≠ 0) : AllBlank (t.addEntry site hne) := by
  intro s arr hs
  unfold MethodBciHashtable.addEntry at hs
  split at hs
  · exact h s arr hs
  · rw [ChainTable.find?_addEntry] at hs
    split at hs
    · cases hs
      exact blank_new
    · exact h s arr hs

end MethodBciHashtable

namespace Keyed

variable {sites : MethodBciHashtable} {k : BitVec 32} {f : NGenerationArray → NGenerationArray}

lemma of_keeps {sites' arr'} (harr' : sites'.getEntry (allocSiteId k) = some arr') (hkey : counterKey arr k = k)
    (hexp : arr.expandedContexts = true → arr'.expandedContexts = true) : Keyed sites' k := by
  by_cases h' : arr'.expandedContexts = true
  · exact keyed_of_expanded harr' h'
  · refine ⟨arr', harr', ?_⟩
    rw [counterKey, if_neg fun h => h' (hexp h)] at hkey
    rw [counterKey, if_neg h', hkey]

lemma modify (h : Keyed sites k) (hf : NGenerationArray.Keeps f) (site) : Keyed (sites.modify site f) k := by
  obtain ⟨arr, harr, hkey⟩ := h
  by_cases hs : allocSiteId k = site
  · refine of_keeps ?_ hkey (hf.expanded arr)
    rw [getEntry_modify, if_pos hs, harr]
    rfl
  · refine of_keeps ?_ hkey fun h : arr.expandedContexts = true => h
    rw [getEntry_modify, if_neg hs, harr]

lemma zero (h : Keyed sites k) : Keyed (MethodBciHashtable.zero sites) k := by
  obtain ⟨arr, harr, hkey⟩ := h
  refine of_keeps ?_ hkey (keeps_zero.expanded arr)
  rw [MethodBciHashtable.zero, getEntry_mapLiterals, harr]
  rfl

lemma addEntry (h : Keyed sites k) (site) (hne : site ≠ 0) : Keyed (addEntry sites site hne) k := by
  obtain ⟨arr, harr, hkey⟩ := h
  refine ⟨arr, ?_, hkey⟩
  rw [getEntry_addEntry]
  split
  next hs =>
    rw [← hs, harr]
    rfl
  · exact harr

end Keyed

/-! ## Tables of counters -/

namespace PromotionCounters

variable (t : PromotionCounters)

def Cleared : Prop := ∀ k pc, t.getCounter k = some pc → ∀ a, pc.array a = 0

lemma cleared_zero : t.zero.Cleared := by
  intro k pc hk a
  rw [show t.zero.getCounter k = _ from t.counters.find?_mapLiterals k PromotionCounter.clear] at hk
  obtain ⟨pc', -, rfl⟩ := Option.map_eq_some_iff.1 hk
  rfl

/-- Every counter is under a key, and what it counts has the property `P`. -/
def Counts (sites : MethodBciHashtable) (P : BitVec 32 → Prop) (t : PromotionCounters) : Prop :=
  ∀ k pc, t.getCounter k = some pc → Keyed sites k ∧ ∀ a, pc.array a ≠ 0 → P k

def FromOne : Prop := ∀ k pc, t.getCounter k = some pc → pc.array 0 = 0

variable {sites : MethodBciHashtable} {P : BitVec 32 → Prop} {t : PromotionCounters}

lemma Counts.write (h : t.Counts sites P) {k} (hkey : Keyed sites k) {f} (hf : ∀ pc, (f pc).hash = pc.hash)
    (hP : ∀ pc a, (f pc).array a ≠ 0 → pc.array a ≠ 0 ∨ P k) :
    ((t.getCounterNotNull k).modify k f hf).Counts sites P := by
  intro k' pc hk'
  rw [getCounter_write] at hk'
  split at hk'
  next he =>
    subst he
    cases hk'
    refine ⟨hkey, fun a ha => ?_⟩
    obtain hold | hp := hP _ a ha
    · cases hget : t.getCounter k' with
      | none => simp [hget, PromotionCounter.new] at hold
      | some pc => exact (h k' pc hget).2 a (by simpa [hget] using hold)
    · exact hp
  · exact h k' pc hk'

lemma Counts.cleared (h : t.Counts sites P) {t' : PromotionCounters}
    (ht' : ∀ k, t'.getCounter k = (t.getCounter k).map PromotionCounter.clear) (Q : BitVec 32 → Prop) :
    t'.Counts sites Q := by
  intro k pc hk
  rw [ht'] at hk
  obtain ⟨pc', hpc, rfl⟩ := Option.map_eq_some_iff.1 hk
  exact ⟨(h k pc' hpc).1, fun a ha => absurd rfl ha⟩

end PromotionCounters

end Rolp.Profiler
