import Rolp.Profiler.Tables
import Rolp.Context.StaticAnalysis

/-!
# The two ways to allocate an object

The runtime allocates in `CollectedHeap::obj_allocate`, `array_allocate` and `array_allocate_nozero`, and C2 emits a
fast path with raw addresses and byte offsets (`PhaseMacroExpand::expand_allocate_common`, `set_eden_pointers` and
`initialize_object`). Only what the profiler sees is modelled: the mark word, the counters of the site and the TLAB.
-/

namespace Rolp.Alloc

open Rolp.Lib Rolp.Mark Rolp.Profiler

/-- What the two paths read of a class. Only instance classes get a prototype header for biased locking. -/
structure Klass where
  isArray : Bool
  prototypeHeader : MarkOop
  upper_zero : prototypeHeader >>> 32 = 0
  array_header : isArray = true → prototypeHeader = prototype

/-- What they read and write of a thread. A pointer into `_tlabGenArray` is its index, and 0 is the eden TLAB. -/
structure AllocThread where
  context : BitVec 32
  allocGen : BitVec 32
  genTlab : Nat

def AllocThread.setAllocGen (t : AllocThread) (gen : BitVec 32) : AllocThread :=
  { t with allocGen := gen, genTlab := gen.toNat }

structure Allocated where
  mark : MarkOop
  length : Option (BitVec 32)
  tlab : Nat

/-! ## The slow path -/

structure KlassHandle where
  klass : Klass
  allocGen : BitVec 32 := 0
  asHash : BitVec 32 := 0

/-- The `NG2C_PROF` block of the three allocation functions. A site without an array is a dereference of `NULL`. -/
def profileAllocation (sites : MethodBciHashtable) (thread : AllocThread) (klass : KlassHandle) (gen : BitVec 32) :
    Option (MethodBciHashtable × AllocThread × KlassHandle) :=
  if gen ≠ 0 then do
    let context := thread.context &&& 0xFFFF
    let allocSiteId := gen &&& 0xFFFF
    let mark := (allocSiteId <<< 16) ||| context
    let ngen ← sites.getEntry allocSiteId
    let target := (ngen.targetGen (context.setWidth 16)).setWidth 32
    pure (sites.modify allocSiteId (·.incNumberAllocs (context.setWidth 16)), thread.setAllocGen target,
      { klass with allocGen := target, asHash := mark })
  else some (sites, thread, klass)

variable (useBiasedLocking : Bool)

/-- `post_allocation_setup_no_klass_install`, for a class that is not `NULL`. -/
def postAllocationSetup (klass : KlassHandle) : MarkOop :=
  if useBiasedLocking then setNg2cProf klass.klass.prototypeHeader klass.asHash
  else setNg2cProf prototype klass.asHash

def selectTlab (thread : AllocThread) (klass : KlassHandle) : Nat :=
  if klass.allocGen ≠ 0 then thread.genTlab else 0

variable (sites : MethodBciHashtable) (thread : AllocThread) (klass : Klass)

def allocate
    (gen : BitVec 32) (length : Option (BitVec 32)) : Option (MethodBciHashtable × AllocThread × Allocated) := do
  let (sites, thread, handle) ← profileAllocation sites thread { klass := klass } gen
  pure (sites, thread, ⟨postAllocationSetup useBiasedLocking handle, length, selectTlab thread handle⟩)

def objAllocate (gen : BitVec 32) : Option (MethodBciHashtable × AllocThread × Allocated) :=
  allocate useBiasedLocking sites thread klass gen none

def arrayAllocate (gen length : BitVec 32) : Option (MethodBciHashtable × AllocThread × Allocated) :=
  allocate useBiasedLocking sites thread klass gen (some length)

/-- It leaves the memory of the array as it is. Header and length are set up as in `array_allocate`. -/
def arrayAllocateNozero (gen length : BitVec 32) : Option (MethodBciHashtable × AllocThread × Allocated) :=
  allocate useBiasedLocking sites thread klass gen (some length)

/-! ## The fast path -/

def elementAt (offset : BitVec 64) : Option (Fin ng2cMaxAllocSite) :=
  if h : offset.toNat % 8 = 0 ∧ offset.toNat / 8 < ng2cMaxAllocSite then some ⟨offset.toNat / 8, h.2⟩ else none

/-- `AndI`, `MulI` and `ConvI2L` of `expand_allocate_common`. -/
def counterOffset (arr : NGenerationArray) (context : BitVec 32) : BitVec 64 :=
  (BitVec.ofNat 32 arr.factorBytes * (context &&& 0xFFFF)).signExtend 64

def storeUpperInt (m : BitVec 64) (v : BitVec 32) : BitVec 64 :=
  (m &&& 0xFFFFFFFF) ||| (v.setWidth 64 <<< 32)

/-- The mark that `initialize_object` stores first. Fast locking is for non-array types only. -/
def initialMark (length : Option (BitVec 32)) : MarkOop :=
  if useBiasedLocking && length.isNone then klass.prototypeHeader else prototype

def incrementAt (i : Fin ng2cMaxAllocSite) (arr : NGenerationArray) : NGenerationArray :=
  { arr with allocsGens := Function.update arr.allocsGens i (arr.allocsGens i + 1) }

/-- The code that C2 emits for a site with an identifier other than 0, with the array `arr` of the site. It is undefined
where a load leaves the tables. -/
def fastPath (allocSiteId : BitVec 32) (length : Option (BitVec 32)) :
    Option (MethodBciHashtable × AllocThread × Allocated) := do
  let arr ← sites.getEntry allocSiteId
  let context := thread.context &&& 0xFFFF
  let i ← elementAt (counterOffset arr thread.context)
  let targetGen := arr.targetGens i
  let mark := storeUpperInt (initialMark useBiasedLocking klass length) ((allocSiteId <<< 16) ||| context)
  pure (sites.modify allocSiteId (incrementAt i), thread, ⟨mark, length, targetGen.toNat⟩)

end Rolp.Alloc

/-!
## Who asks for an allocation

The `gen` that reaches `CollectedHeap::obj_allocate` and its siblings comes from three places. The interpreter and the
C2 call for multi-dimensional arrays pass a flag for an `@Gen` annotation at the bytecode. The slow path of a C2
allocation passes the identifier of the site, which the compilation has registered.
-/

namespace Rolp.Alloc

open Rolp.Lib Rolp.Profiler Rolp.Context

/-! ## Annotations -/

abbrev maxJushort : BitVec 16 := 0xFFFF

structure Method where
  typeAnnotations : Option (List (BitVec 8))
  allocAnno : Option (List (BitVec 8))
  allocAnnoCache : Option (List (BitVec 16))
  symbolAt : BitVec 16 → String
  /-- `Bytecodes::length_for(Bytecodes::code_at(method, bci))` -/
  lengthFor : Nat → Nat

inductive CacheLookup where
  | hit
  /-- The first entry that holds `max_jushort`, or the length of the cache. -/
  | free (nextCentry : Nat)
  deriving DecidableEq

def lookIntoCache (bci : Nat) : List (BitVec 16) → Nat → CacheLookup
  | [], next => .free next
  | entry :: aac, next =>
    if bci = entry.toNat then .hit
    else if entry = maxJushort then .free next
    else lookIntoCache bci aac (next + 1)

def getJavaU2 (data : List (BitVec 8)) (i : Nat) : Option (BitVec 16) := do
  let high ← data[i]?
  let low ← data[i + 1]?
  pure (high ++ low)

/-- The bytes between an annotation and the bytecode it is for: `nDims` bytecodes that push the dimensions. -/
def annoBcLen (m : Method) (annoBci : Nat) : Nat → Nat
  | 0 => 0
  | nDims + 1 =>
    let len := annoBcLen m annoBci nDims
    len + m.lengthFor (annoBci + len)

def scanAnnotations (m : Method) (bci nDims : Nat) : Nat → List (BitVec 8) → Option Bool
  | 0, _ => some false
  | n + 1, data => do
    let annoTarget ← data[0]?
    let annoBci ← getJavaU2 data 1
    let dsize ← data[3]?
    let annoTypeIndex ← getJavaU2 data (4 + dsize.toNat * 2)
    let typeName := m.symbolAt annoTypeIndex
    if annoTarget = 68 ∧ annoBci.toNat + annoBcLen m annoBci.toNat nDims = bci ∧ typeName = "Ljava/lang/Gen;" then
      some true
    else scanAnnotations m bci nDims n (data.drop (8 + dsize.toNat * 2))

/-- `aac->at_put(next_centry, bci)`, undefined for a missing cache and past its end. -/
def Method.putCache (m : Method) (nextCentry bci : Nat) : Option Method := do
  let aac ← m.allocAnnoCache
  if nextCentry < aac.length then
    some { m with allocAnnoCache := some (aac.set nextCentry (BitVec.ofNat 16 bci)) }
  else none

def getAllocGenUncached (m : Method) (bci nDims nextCentry : Nat) : Option (BitVec 32 × Method) :=
  match m.typeAnnotations, m.allocAnno with
  | some aa, some _ => do
    let nAnno ← getJavaU2 aa 0
    if ← scanAnnotations m bci nDims nAnno.toNat (aa.drop 2) then
      let m ← m.putCache nextCentry bci
      some (1, m)
    else some (0, m)
  | _, _ => some (0, m)

def getAllocGen (m : Method) (bci nDims : Nat) : Option (BitVec 32 × Method) :=
  match m.allocAnnoCache.map (lookIntoCache bci · 0) with
  | some .hit => some (1, m)
  | some (.free nextCentry) => getAllocGenUncached m bci nDims nextCentry
  | none => getAllocGenUncached m bci nDims 0

def getAllocGen2 (aac : Option (List (BitVec 16))) (bci : Nat) : BitVec 32 :=
  match aac.map (lookIntoCache bci · 0) with
  | some .hit => 1
  | _ => 0

/-! ## The machine -/

structure Vm (M : Type) where
  sites : MethodBciHashtable
  analysis : StaticAnalysis M
  methods : M → Method
  slowCalls : List (BitVec 32)
  /-- The number of dimensions and the `gen` of each compiled `multianewarray`. -/
  multiCalls : List (Nat × BitVec 32)

/-- The three callers. The number of dimensions is 0 for `_new` and 1 for `newarray` and `anewarray`. -/
inductive Caller (M : Type) where
  | interpreter (m : M) (bci nDims : Nat)
  | slowPath (i : Nat)
  | multianewarray (i : Nat)

def Caller.isSlowPath {M : Type} : Caller M → Bool
  | .slowPath _ => true
  | _ => false

inductive Event (M : Type) where
  | compile (m : M) (bci : Nat)
  | compileMultianewarray (m : M) (bci nDims : Nat)
  /-- A VM operation writes to the array of a site. -/
  | update (hash : BitVec 32) (f : NGenerationArray → NGenerationArray)
  | request (caller : Caller M) (thread : AllocThread) (klass : Klass)

namespace Vm

variable {M : Type} [DecidableEq M]

def expandAllocateCommon (env : Env M) (p : Vm M) (m : M) (bci : Nat) : Vm M :=
  let (sa, allocGen) := p.analysis.getAllocIndex env m (BitVec.ofNat 32 bci)
  { p with
    analysis := sa
    sites := if h : allocGen = 0 then p.sites else p.sites.addEntry allocGen h
    slowCalls := allocGen :: p.slowCalls }

/-- `Parse::do_multianewarray`, where it emits a call. -/
def doMultianewarray (p : Vm M) (m : M) (bci nDims : Nat) : Vm M :=
  { p with multiCalls := (nDims, getAllocGen2 (p.methods m).allocAnnoCache bci) :: p.multiCalls }

/-- The `gen` that reaches the heap. `multianewarrayN_C`, for more than five dimensions, drops it. -/
def requestedGen (p : Vm M) : Caller M → Option (BitVec 32 × Vm M)
  | .interpreter m bci nDims => do
    let (gen, method) ← getAllocGen (p.methods m) bci nDims
    pure (gen, { p with methods := Function.update p.methods m method })
  | .slowPath i => do
    let gen ← p.slowCalls[i]?
    pure (gen, p)
  | .multianewarray i => do
    let (nDims, gen) ← p.multiCalls[i]?
    pure (if nDims ≤ 5 then gen else 0, p)

def step (env : Env M) (p : Vm M) : Event M → Option (Vm M)
  | .compile m bci => some (p.expandAllocateCommon env m bci)
  | .compileMultianewarray m bci nDims => some (p.doMultianewarray m bci nDims)
  | .update hash f => some { p with sites := p.sites.modify hash f }
  | .request caller thread klass => do
    let (gen, p) ← p.requestedGen caller
    let (sites, _, _) ← profileAllocation p.sites thread { klass := klass } gen
    pure { p with sites := sites }

/-- Before the first compilation. The indices that `parse_from_file` loads have 16 bits. -/
structure Initial (p : Vm M) : Prop where
  sites : ∀ hash, p.sites.getEntry hash = none
  indices : ∀ key ci, p.analysis.alloc2Context.find? key = some ci → ci.index &&& 0xFFFF = ci.index
  slowCalls : p.slowCalls = []
  multiCalls : p.multiCalls = []

end Vm

end Rolp.Alloc
