import Rolp.Alloc.Paths
import Rolp.Profiler.Lemmas.Totals

/-!
# The fast and the slow path agree

The fast path multiplies the context with a factor in bytes and writes the upper half of the header; the slow path
indexes an array and updates the header as a word.
-/

namespace Rolp.Alloc

open Rolp.Lib Rolp.Mark Rolp.Profiler MethodBciHashtable BitVec NGenerationArray

/-! ## Offsets and indices -/

lemma toNat_maskedContext (context : BitVec 32) :
    (context &&& 0xFFFF).toNat = ((context &&& 0xFFFF).setWidth 16).toNat := by
  have hmask : (context &&& 0xFFFF).toNat = context.toNat % 2 ^ 16 := by
    rw [toNat_and, show BitVec.toNat 0xFFFF = 2 ^ 16 - 1 from rfl, Nat.and_two_pow_sub_one_eq_mod]
  rw [toNat_setWidth, hmask, Nat.mod_mod]

lemma counterOffset_toNat (arr : NGenerationArray) (context : BitVec 32) :
    (counterOffset arr context).toNat = 8 * (arr.slot ((context &&& 0xFFFF).setWidth 16)).val := by
  have hctx := toNat_maskedContext context
  have hslot : (arr.slot ((context &&& 0xFFFF).setWidth 16)).val =
      ((context &&& 0xFFFF).setWidth 16).toNat * arr.factor := rfl
  obtain hf | hf : arr.factor = 0 ∨ arr.factor = 1 := by
    have := arr.factor_le
    omega
  · rw [hslot, counterOffset, arr.factorBytes_eq, hf]
    simp
  have hprod : (BitVec.ofNat 32 arr.factorBytes * (context &&& 0xFFFF)).toNat =
      8 * ((context &&& 0xFFFF).setWidth 16).toNat := by
    rw [arr.factorBytes_eq, hf, toNat_mul, toNat_ofNat]
    omega
  have hmsb : (BitVec.ofNat 32 arr.factorBytes * (context &&& 0xFFFF)).msb = false := by
    rw [msb_eq_false_iff_two_mul_lt]
    omega
  rw [hslot, hf, counterOffset, signExtend_eq_setWidth_of_msb_false hmsb, toNat_setWidth]
  omega

lemma elementAt_counterOffset (arr context) :
    elementAt (counterOffset arr context) = some (arr.slot ((context &&& 0xFFFF).setWidth 16)) := by
  have hoff := counterOffset_toNat arr context
  rw [elementAt, dif_pos ⟨by omega, by omega⟩]
  congr 1
  apply Fin.ext
  show (counterOffset arr context).toNat / 8 = _
  omega

/-! ## Headers -/

lemma storeUpperInt_eq_setNg2cProf (m : MarkOop) {v} (hv : v ≠ 0) : storeUpperInt m v = setNg2cProf m v := by
  have hlow : storeUpperInt m v = (m &&& ~~~ng2cProfMaskInPlace) ||| (v.setWidth 64 <<< 32) := rfl
  rw [setNg2cProf, if_neg hv, ng2cProfMask_eq, setWidth_and_lowMask (by decide)]
  rfl

lemma siteTag_ne_zero {s : BitVec 16} (hs : s ≠ 0) (context) : (s.setWidth 32 <<< 16) ||| (context &&& 0xFFFF) ≠ 0 := by
  intro h
  apply hs
  apply eq_of_getLsbD_eq
  intro i hi
  have hbit := congrArg (·.getLsbD (16 + i)) h
  simp only [getLsbD_or, getLsbD_shiftLeft, getLsbD_setWidth] at hbit
  simp only [show 16 + i < 32 by omega, show ¬ 16 + i < 16 by omega, Nat.add_sub_cancel_left,
    show i < 32 by omega, decide_true, decide_false, Bool.true_and, Bool.not_false] at hbit
  rw [Bool.or_eq_false_iff.1 (hbit.trans (by simp))|>.1]
  simp

lemma maskedSite (s : BitVec 16) : s.setWidth 32 &&& 0xFFFF = s.setWidth 32 := by
  apply eq_of_toNat_eq
  rw [toNat_and, show BitVec.toNat 0xFFFF = 2 ^ 16 - 1 from rfl,
    Nat.and_two_pow_sub_one_eq_mod, toNat_setWidth]
  omega

/-! ## Agreement -/

def SameEffect (sites : MethodBciHashtable) (site : BitVec 32) (arr : NGenerationArray)
    (fast slow : Option (MethodBciHashtable × AllocThread × Allocated)) : Prop :=
  ∃ sites' thread thread' obj i, fast = some (sites', thread, obj) ∧ slow = some (sites', thread', obj) ∧
    ∀ hash, sites'.getEntry hash = if hash = site then some (incrementAt i arr) else sites.getEntry hash

section Agree

variable {sites : MethodBciHashtable} {s : BitVec 16} {arr : NGenerationArray} {klass : Klass}

lemma site_ne_zero (harr : sites.getEntry (s.setWidth 32) = some arr) : s ≠ 0 := by
  rintro rfl
  cases harr

lemma initialMark_eq (useBiasedLocking) {length} (hlength : klass.isArray = length.isSome) :
    initialMark useBiasedLocking klass length = if useBiasedLocking then klass.prototypeHeader else prototype := by
  cases length with
  | none => simp [initialMark]
  | some n =>
    have hheader := klass.array_header hlength
    simp [initialMark, hheader]

lemma selectTlab_target (thread : AllocThread) (klass : Klass) (mark : BitVec 32) {target : BitVec 64}
    (htarget : target.toNat < ng2cGenArraySize) : selectTlab (thread.setAllocGen (target.setWidth 32))
      { klass := klass, allocGen := target.setWidth 32, asHash := mark } = target.toNat := by
  have hmod : (target.setWidth 32).toNat = target.toNat := by
    rw [toNat_setWidth, Nat.mod_eq_of_lt]
    exact htarget.trans (by decide)
  show (if target.setWidth 32 ≠ 0#32 then (target.setWidth 32).toNat else 0) = target.toNat
  by_cases h0 : target.setWidth 32 = 0#32
  · rw [← hmod, h0]
    rfl
  · rw [if_pos h0, hmod]

lemma fastPath_allocate (harr : sites.getEntry (s.setWidth 32) = some arr) (useBiasedLocking : Bool)
    (thread : AllocThread) (length : Option (BitVec 32)) (hlength : klass.isArray = length.isSome) :
    SameEffect sites (s.setWidth 32) arr (fastPath useBiasedLocking sites thread klass (s.setWidth 32) length)
      (allocate useBiasedLocking sites thread klass (s.setWidth 32) length) := by
  have hs := site_ne_zero harr
  have hgen : s.setWidth 32 ≠ 0 := by
    intro h
    rw [h] at harr
    cases harr
  have htag := siteTag_ne_zero hs thread.context
  set c := (thread.context &&& 0xFFFF).setWidth 16 with hc
  have htarget := arr.target_lt (arr.slot c)
  have hmodify : sites.modify (s.setWidth 32) (incrementAt (arr.slot c)) =
      sites.modify (s.setWidth 32) (·.incNumberAllocs c) := by
    apply ChainTable.modify_congr
    intro v hv
    rw [← getEntry_of_ne hgen, harr] at hv
    cases hv
    rfl
  have htlab : selectTlab (thread.setAllocGen ((arr.targetGen c).setWidth 32))
      { klass := klass, allocGen := (arr.targetGen c).setWidth 32,
        asHash := (s.setWidth 32 <<< 16) ||| (thread.context &&& 0xFFFF) } =
        (arr.targetGens (arr.slot c)).toNat :=
    selectTlab_target thread klass _ htarget
  refine ⟨sites.modify (s.setWidth 32) (incrementAt (arr.slot c)), thread,
    thread.setAllocGen ((arr.targetGen c).setWidth 32),
    ⟨setNg2cProf (if useBiasedLocking then klass.prototypeHeader else prototype)
      ((s.setWidth 32 <<< 16) ||| (thread.context &&& 0xFFFF)), length, (arr.targetGens (arr.slot c)).toNat⟩,
    arr.slot c, ?_, ?_, ?_⟩
  · simp only [fastPath, harr, elementAt_counterOffset, storeUpperInt_eq_setNg2cProf _ htag,
      initialMark_eq useBiasedLocking hlength]
    rfl
  · simp only [allocate, profileAllocation, if_pos hgen, maskedSite, harr, Option.bind_eq_bind, Option.bind_some,
      Option.pure_def, ← hc, htlab, hmodify]
    cases useBiasedLocking <;> rfl
  · intro hash
    rw [getEntry_modify]
    by_cases hk : hash = s.setWidth 32
    · rw [if_pos hk, if_pos hk, hk, harr]
      rfl
    · rw [if_neg hk, if_neg hk]

/-- For a tracked site the code of C2 and the three functions of the runtime leave the same mark word and counters, and
take the TLAB of the same generation. -/
theorem fastPath_refines_slowPath (harr : sites.getEntry (s.setWidth 32) = some arr) (useBiasedLocking : Bool)
    (thread : AllocThread) (klass : Klass) : (klass.isArray = false →
      SameEffect sites (s.setWidth 32) arr (fastPath useBiasedLocking sites thread klass (s.setWidth 32) none)
        (objAllocate useBiasedLocking sites thread klass (s.setWidth 32))) ∧ (klass.isArray = true → ∀ length,
      SameEffect sites (s.setWidth 32) arr (fastPath useBiasedLocking sites thread klass (s.setWidth 32) (some length))
        (arrayAllocate useBiasedLocking sites thread klass (s.setWidth 32) length) ∧
      SameEffect sites (s.setWidth 32) arr (fastPath useBiasedLocking sites thread klass (s.setWidth 32) (some length))
        (arrayAllocateNozero useBiasedLocking sites thread klass (s.setWidth 32) length)) := by
  constructor
  · intro hklass
    exact fastPath_allocate harr useBiasedLocking thread none hklass
  · intro hklass length
    have h := fastPath_allocate harr useBiasedLocking thread (some length) hklass
    exact ⟨h, h⟩

end Agree

theorem fastPath_refines_slowPath_expandedSite :
    let sites : MethodBciHashtable := ChainTable.addEntry (.empty 65536 (by decide)) 1 (prepareContexts .new) rfl
    SameEffect sites 1 (prepareContexts .new)
      (fastPath true sites ⟨7, 0, 0⟩ ⟨true, prototype, rfl, fun _ => rfl⟩ 1 (some 3))
      (arrayAllocate true sites ⟨7, 0, 0⟩ ⟨true, prototype, rfl, fun _ => rfl⟩ 1 3) :=
  ((fastPath_refines_slowPath (s := 1) rfl true ⟨7, 0, 0⟩ ⟨true, prototype, rfl, fun _ => rfl⟩).2 rfl 3).1

end Rolp.Alloc

namespace Rolp.Context

open Rolp.Lib

variable {M : Type}

/-! ## Indices have 16 bits -/

/-- What `parse_from_file` loads and what full mode adds. -/
def ContextTable.Narrow (t : ContextTable) : Prop :=
  ∀ key ci, t.find? key = some ci → ci.index &&& 0xFFFF = ci.index

lemma ContextTable.Narrow.lookup {t : ContextTable} (ht : t.Narrow) (env : Env M) (key : BitVec 32) :
    ContextTable.Narrow (t.lookup env key).1 := by
  unfold ContextTable.lookup
  split
  · exact ht
  split
  · exact ht
  · intro key' ci hci
    rw [ChainTable.find?_addEntry] at hci
    split at hci
    · cases hci
      rw [BitVec.and_assoc, BitVec.and_self]
    · exact ht key' ci hci

variable [DecidableEq M]

lemma StaticAnalysis.narrow_getAllocIndex {sa : StaticAnalysis M} (hsa : ContextTable.Narrow sa.alloc2Context)
    (env : Env M) (m : M) (bci : BitVec 32) : ContextTable.Narrow (sa.getAllocIndex env m bci).1.alloc2Context ∧
      (sa.getAllocIndex env m bci).2 &&& 0xFFFF = (sa.getAllocIndex env m bci).2 := by
  have htable : ContextTable.Narrow (sa.getAllocContext env m bci).1.alloc2Context := by
    unfold getAllocContext
    split
    · exact hsa
    · have hhash : (sa.hash env m bci).1.alloc2Context = sa.alloc2Context := by rw [hash_fst]
      exact ContextTable.Narrow.lookup (hhash ▸ hsa) env _
  refine ⟨htable, ?_⟩
  simp only [getAllocIndex]
  split
  · rfl
  next key _ =>
    cases hfind : (sa.getAllocContext env m bci).1.alloc2Context.find? key with
    | none => rfl
    | some ci => exact htable key ci hfind

end Rolp.Context

namespace Rolp.Alloc

open Rolp.Lib Rolp.Mark Rolp.Profiler Rolp.Context

/-! ## The flag of the annotated callers -/

variable {gen : BitVec 32}

lemma getAllocGenUncached_flag {m m' bci nDims next}
    (h : getAllocGenUncached m bci nDims next = some (gen, m')) : gen = 0 ∨ gen = 1 := by
  unfold getAllocGenUncached at h
  split at h
  · simp only [Option.bind_eq_bind, Option.bind_eq_some_iff] at h
    obtain ⟨nAnno, -, found, -, h⟩ := h
    cases found with
    | true =>
      obtain ⟨m'', -, h⟩ := Option.bind_eq_some_iff.1 h
      cases h
      exact .inr rfl
    | false =>
      cases h
      exact .inl rfl
  · cases h
    exact .inl rfl

lemma getAllocGen_flag {m m' bci nDims} (h : getAllocGen m bci nDims = some (gen, m')) : gen = 0 ∨ gen = 1 := by
  unfold getAllocGen at h
  split at h
  · cases h
    exact .inr rfl
  · exact getAllocGenUncached_flag h
  · exact getAllocGenUncached_flag h

lemma getAllocGen2_flag (aac bci) : getAllocGen2 aac bci = 0 ∨ getAllocGen2 aac bci = 1 := by
  unfold getAllocGen2
  split
  · exact .inr rfl
  · exact .inl rfl

lemma isSome_getEntry_profileAllocation {sites sites' thread thread'} {klass klass'}
    (h : profileAllocation sites thread klass gen = some (sites', thread', klass')) (hash : BitVec 32) :
    (sites'.getEntry hash).isSome = (sites.getEntry hash).isSome := by
  unfold profileAllocation at h
  split at h
  · obtain ⟨ngen, -, h⟩ := Option.bind_eq_some_iff.1 h
    cases h
    exact MethodBciHashtable.isSome_getEntry_modify _ _ _ _
  · cases h
    rfl

namespace Vm

variable {M : Type} [DecidableEq M] {env : Env M} {p p' : Vm M}

/-! ## The invariant -/

structure Registered (p : Vm M) : Prop where
  indices : ContextTable.Narrow p.analysis.alloc2Context
  sites : ∀ hash, (p.sites.getEntry hash).isSome ↔ hash ≠ 0 ∧ hash ∈ p.slowCalls
  slowCalls : ∀ gen ∈ p.slowCalls, gen &&& 0xFFFF = gen
  multiCalls : ∀ call ∈ p.multiCalls, call.2 = 0 ∨ call.2 = 1

omit [DecidableEq M] in
lemma Initial.registered (h : p.Initial) : p.Registered where
  indices := h.indices
  sites := by
    intro hash
    rw [h.sites, h.slowCalls]
    simp
  slowCalls := by
    rw [h.slowCalls]
    simp
  multiCalls := by
    rw [h.multiCalls]
    simp

omit [DecidableEq M] in
lemma Registered.congr (h : p.Registered) (ha : p'.analysis = p.analysis)
    (hs : ∀ hash, (p'.sites.getEntry hash).isSome = (p.sites.getEntry hash).isSome)
    (hslow : p'.slowCalls = p.slowCalls) (hmulti : p'.multiCalls = p.multiCalls) : p'.Registered where
  indices := ha ▸ h.indices
  sites := by
    intro hash
    rw [hs, hslow]
    exact h.sites hash
  slowCalls := hslow ▸ h.slowCalls
  multiCalls := hmulti ▸ h.multiCalls

lemma Registered.compile (h : p.Registered) (env m bci) : (p.expandAllocateCommon env m bci).Registered := by
  obtain ⟨hindices, hgen⟩ := StaticAnalysis.narrow_getAllocIndex h.indices env m (BitVec.ofNat 32 bci)
  simp only [expandAllocateCommon]
  generalize hidx : p.analysis.getAllocIndex env m (BitVec.ofNat 32 bci) = idx at hindices hgen ⊢
  obtain ⟨sa, allocGen⟩ := idx
  refine ⟨hindices, ?_, ?_, h.multiCalls⟩
  · intro hash
    show ((if h : allocGen = 0 then p.sites else p.sites.addEntry allocGen h).getEntry hash).isSome ↔
      hash ≠ 0 ∧ hash ∈ allocGen :: p.slowCalls
    split
    next h0 =>
      rw [h.sites, List.mem_cons, h0]
      constructor
      · exact fun ⟨hne, hmem⟩ => ⟨hne, .inr hmem⟩
      · exact fun ⟨hne, hmem⟩ => ⟨hne, hmem.resolve_left hne⟩
    rename_i h0
    rw [MethodBciHashtable.isSome_getEntry_addEntry, Bool.or_eq_true, decide_eq_true_eq, h.sites, List.mem_cons]
    constructor
    · rintro (rfl | ⟨hne, hmem⟩)
      · exact ⟨h0, .inl rfl⟩
      · exact ⟨hne, .inr hmem⟩
    · rintro ⟨hne, rfl | hmem⟩
      · exact .inl rfl
      · exact .inr ⟨hne, hmem⟩
  · intro gen hmem
    obtain rfl | hmem := List.mem_cons.1 hmem
    · exact hgen
    · exact h.slowCalls gen hmem

omit [DecidableEq M] in
lemma Registered.doMultianewarray (h : p.Registered) (m bci nDims) : (p.doMultianewarray m bci nDims).Registered := by
  refine ⟨h.indices, h.sites, h.slowCalls, ?_⟩
  intro call hmem
  obtain rfl | hmem := List.mem_cons.1 hmem
  · exact getAllocGen2_flag _ _
  · exact h.multiCalls call hmem

lemma requestedGen_frame {caller} (h : p.requestedGen caller = some (gen, p')) :
    p'.analysis = p.analysis ∧ p'.sites = p.sites ∧ p'.slowCalls = p.slowCalls ∧ p'.multiCalls = p.multiCalls := by
  cases caller
  all_goals
    obtain ⟨_, -, h⟩ := Option.bind_eq_some_iff.1 h
    cases h
    exact ⟨rfl, rfl, rfl, rfl⟩

lemma Registered.step (h : p.Registered) {e} (hstep : Vm.step env p e = some p') : p'.Registered := by
  cases e with
  | compile m bci =>
    cases hstep
    exact h.compile env m bci
  | compileMultianewarray m bci nDims =>
    cases hstep
    exact h.doMultianewarray m bci nDims
  | update hash f =>
    cases hstep
    exact h.congr rfl (fun hash' => MethodBciHashtable.isSome_getEntry_modify _ _ hash' f) rfl rfl
  | request caller thread klass =>
    obtain ⟨⟨gen, q⟩, hreq, hstep⟩ := Option.bind_eq_some_iff.1 hstep
    obtain ⟨⟨sites, thread', klass'⟩, hprof, hstep⟩ := Option.bind_eq_some_iff.1 hstep
    obtain ⟨ha, hs, hslow, hmulti⟩ := requestedGen_frame hreq
    cases hstep
    refine h.congr ha ?_ hslow hmulti
    intro hash
    rw [← hs]
    exact isSome_getEntry_profileAllocation hprof hash

lemma registered_of_run {p0} (hinit : p0.Initial) {es} (hrun : run (Vm.step env) p0 es = some p) : p.Registered :=
  run_invariant Registered (fun _ => True) (fun _ _ _ h _ hstep => h.step hstep) hinit.registered (fun _ _ => trivial)
    hrun

/-! ## What a caller asks for -/

lemma mem_slowCalls_of_slowPath {i} (hreq : p.requestedGen (.slowPath i) = some (gen, p')) : gen ∈ p.slowCalls := by
  obtain ⟨gen', hget, hreq⟩ := Option.bind_eq_some_iff.1 hreq
  cases hreq
  exact List.mem_of_getElem? hget

lemma Registered.flag (h : p.Registered) {caller} (hcaller : caller.isSlowPath = false)
    (hreq : p.requestedGen caller = some (gen, p')) : gen = 0 ∨ gen = 1 := by
  cases caller with
  | interpreter m bci nDims =>
    obtain ⟨⟨gen', method⟩, hget, hreq⟩ := Option.bind_eq_some_iff.1 hreq
    cases hreq
    exact getAllocGen_flag hget
  | slowPath i => cases hcaller
  | multianewarray i =>
    obtain ⟨⟨nDims, gen'⟩, hget, hreq⟩ := Option.bind_eq_some_iff.1 hreq
    cases hreq
    split
    · exact h.multiCalls _ (List.mem_of_getElem? hget)
    · exact .inl rfl

/-- In every run a request for a tracked allocation finds the array of its site just if it comes from the slow path of
compiled code, or a compilation has registered a site with the identifier 1. -/
theorem known_site_iff (env : Env M) {p0 : Vm M} (hinit : p0.Initial) (es : List (Event M))
    (hrun : run (Vm.step env) p0 es = some p) (caller : Caller M) {gen : BitVec 32}
    (hreq : p.requestedGen caller = some (gen, p')) (hgen : gen ≠ 0) :
    (p'.sites.getEntry (gen &&& 0xFFFF)).isSome ↔ caller.isSlowPath = true ∨ 1 ∈ p.slowCalls := by
  have hp := registered_of_run hinit hrun
  obtain ⟨-, hsites, -, -⟩ := requestedGen_frame hreq
  rw [hsites, hp.sites]
  cases hcaller : caller.isSlowPath with
  | true =>
    cases caller with
    | slowPath i =>
      have hmem := mem_slowCalls_of_slowPath hreq
      rw [hp.slowCalls gen hmem]
      exact ⟨fun _ => .inl rfl, fun _ => ⟨hgen, hmem⟩⟩
    | interpreter m bci nDims => cases hcaller
    | multianewarray i => cases hcaller
  | false =>
    obtain rfl : gen = 1 := (hp.flag hcaller hreq).resolve_left hgen
    constructor
    · exact fun ⟨_, hmem⟩ => .inr hmem
    · rintro (h | hmem)
      · cases h
      · exact ⟨by decide, hmem⟩

end Vm

/-! ## An annotated method -/

def annotatedMethod : Method where
  typeAnnotations := some [0, 1, 68, 0, 0, 0, 0, 7, 0, 0]
  allocAnno := some [0, 1, 68, 0, 0, 0, 0, 7, 0, 0]
  allocAnnoCache := some (List.replicate 10 maxJushort)
  symbolAt := fun _ => "Ljava/lang/Gen;"
  lengthFor := fun _ => 1

def annotatedVm : Vm Unit where
  sites := .empty 65536 (by decide)
  analysis := ⟨.empty 65536 (by decide), .empty 65536 (by decide), fun _ => 0⟩
  methods := fun _ => annotatedMethod
  slowCalls := []
  multiCalls := []

lemma annotatedVm_initial : annotatedVm.Initial where
  sites := by
    intro hash
    simp [annotatedVm, MethodBciHashtable.getEntry, ChainTable.find?_empty]
  indices := by
    intro key ci h
    simp [annotatedVm, ChainTable.find?_empty] at h
  slowCalls := rfl
  multiCalls := rfl

def fullMode : Env Unit where
  useROLP := true
  ng2cStaticAnalysis := false
  nameAndSig := fun _ => "Main.main()V".toList
  murmur := fun _ => 1

/-- The interpreter asks for the annotated object before anything is compiled, and the request faults. -/
theorem unknown_site_interpreter : annotatedVm.Initial ∧
    (∃ p', annotatedVm.requestedGen (.interpreter () 0 0) = some (1, p') ∧ p'.sites.getEntry (1 &&& 0xFFFF) = none) ∧
      Vm.step fullMode annotatedVm
        (.request (.interpreter () 0 0) ⟨0, 0, 0⟩ ⟨false, prototype, rfl, fun _ => rfl⟩) = none :=
  ⟨annotatedVm_initial, ⟨_, rfl, rfl⟩, rfl⟩

theorem known_site_compiled : ∃ p p', run (Vm.step fullMode) annotatedVm [.compile () 0] = some p ∧
    p.requestedGen (.slowPath 0) = some (1, p') ∧ (p'.sites.getEntry (1 &&& 0xFFFF)).isSome :=
  ⟨_, _, rfl, rfl,
    (Vm.known_site_iff fullMode annotatedVm_initial [.compile () 0] rfl (.slowPath 0) rfl (by decide)).2 (.inl rfl)⟩

end Rolp.Alloc
