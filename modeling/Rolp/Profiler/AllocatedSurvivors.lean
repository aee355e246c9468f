import Rolp.Profiler.Windows

/-!
# Survivors and allocations of a window

The analysis of a curve divides by the allocations of the window.
-/

namespace Rolp.Profiler

open Rolp.Lib Rolp.Mark Rolp.Alloc MethodBciHashtable Tables Function List Option

variable {W F : Type} {A : Arith F} {flags : BuildFlags}

/-- A survivor is counted only after an allocation with its tag was counted in the window, and these counters do not
wrap. -/
def Vm.Timely (vm : Vm W) : VmEvent W → Prop
  | .register _ => True
  | .allocate _ thread _ gen _ => gen ≠ 0 →
    vm.tables.sites.allocsAt (gen &&& 0xFFFF) ((thread.context &&& 0xFFFF).setWidth 16) + 1 ≠ 0
  | .fastPath _ thread _ site _ => vm.tables.sites.allocsAt site ((thread.context &&& 0xFFFF).setWidth 16) + 1 ≠ 0
  | .copy w c => w ∈ vm.threads → vm.tables.profiling = true → c.attempt = .copied →
    (vm.tables.sites.getEntry (allocSiteId (ng2cProf c.mark))).isSome →
      vm.tables.sites.allocsOf (ng2cProf c.mark) ≠ 0
  | .doit => True

instance [DecidableEq W] (vm : Vm W) : (e : VmEvent W) → Decidable (vm.Timely e)
  | .register _ => inferInstanceAs (Decidable True)
  | .allocate _ _ _ _ _ => inferInstanceAs (Decidable (_ → _))
  | .fastPath _ _ _ _ _ => inferInstanceAs (Decidable (_ ≠ _))
  | .copy _ _ => inferInstanceAs (Decidable (_ → _ → _ → _ → _))
  | .doit => inferInstanceAs (Decidable True)

/-! ## Allocations of a tag -/

variable {arr : NGenerationArray}

section Allocs

variable {sites : MethodBciHashtable} {k site : BitVec 32} {context : BitVec 16}

lemma allocsOf_of_getEntry (h : sites.getEntry (allocSiteId k) = some arr) :
    sites.allocsOf k = arr.numberAllocs (k.setWidth 16) := by
  simp [allocsOf, allocsAt, h]

lemma allocsOf_addEntry (hk : Keyed sites k) (hne : site ≠ 0) :
    (addEntry sites site hne).allocsOf k = sites.allocsOf k := by
  obtain ⟨arr, harr, -⟩ := hk
  rw [allocsOf_of_getEntry harr]
  apply allocsOf_of_getEntry
  rw [getEntry_addEntry]
  split
  next hs =>
    rw [← hs, harr]
    rfl
  · exact harr

lemma allocsOf_incNumberAllocs (hne : sites.allocsOf k ≠ 0) (hwrap : sites.allocsAt site context + 1 ≠ 0) :
    allocsOf (sites.modify site (·.incNumberAllocs context)) k ≠ 0 := by
  unfold allocsOf allocsAt at hne ⊢
  rw [getEntry_modify]
  split
  next hs =>
    subst hs
    cases harr : sites.getEntry (allocSiteId k) with
    | none => simp [harr] at hne
    | some arr =>
      rw [allocsAt, harr] at hwrap
      rw [harr] at hne
      show update arr.allocsGens (arr.slot context) _ (arr.slot (k.setWidth 16)) ≠ 0
      by_cases hslot : arr.slot (k.setWidth 16) = arr.slot context
      · rw [hslot, update_self]
        exact hwrap
      · rw [update_of_ne hslot]
        exact hne
  · exact hne

lemma allocsOf_counterKey {hash} (h : sites.getEntry (allocSiteId hash) = some arr) :
    sites.allocsOf (counterKey arr hash) = sites.allocsOf hash := by
  have hkey : sites.getEntry (allocSiteId (counterKey arr hash)) = some arr := by rwa [allocSiteId_counterKey]
  rw [allocsOf_of_getEntry h, allocsOf_of_getEntry hkey]
  rcases arr.factor_cases with h0 | h1
  · simp only [NGenerationArray.numberAllocs, NGenerationArray.slot_of_factor_zero h0]
  · rw [counterKey, if_pos (by simp [NGenerationArray.expandedContexts, h1])]

end Allocs

/-! ## Timely runs -/

def Call.Divides (call : Call) : Prop := ∀ curve ∈ call.analyzed, (∃ a, a ≠ 0 ∧ curve a ≠ 0) → curve 0 ≠ 0

section Runs

variable {vm vm' : Vm W} {e : VmEvent W}

lemma Vm.Timely.counted {site context} (h : vm.Timely e)
    (hcount : e.counted = some (site, context)) : vm.tables.sites.allocsAt site context + 1 ≠ 0 := by
  cases e with
  | allocate useBiasedLocking thread klass gen length =>
    simp only [VmEvent.counted] at hcount
    split at hcount
    · cases hcount
    next hgen =>
      cases hcount
      exact h hgen
  | fastPath useBiasedLocking thread klass site length =>
    cases hcount
    exact h
  | register site => cases hcount
  | copy w c => cases hcount
  | doit => cases hcount

variable [DecidableEq W]

structure Vm.Backed (vm : Vm W) : Prop where
  sound : vm.tables.Sound (fun k => vm.tables.sites.allocsOf k ≠ 0) vm.threads
  divides : ∀ call ∈ vm.calls, call.Divides

lemma Vm.Backed.doit (h : vm.Backed) (hdoit : vm.doit A flags = some vm') : vm'.Backed := by
  obtain ⟨hsound, hcalls⟩ := sound_doit (fun sites k => sites.allocsOf k ≠ 0) h.sound hdoit
  refine ⟨hsound, fun call hcall => ?_⟩
  obtain hold | hnew := hcalls call hcall
  · exact h.divides call hold
  · rintro curve hcurve ⟨a, ha, hne⟩
    obtain ⟨k, hzero, hP⟩ := hnew curve hcurve
    rw [hzero]
    exact hP a ha hne

lemma Vm.Backed.step (h : vm.Backed) (htimely : vm.Timely e) (hstep : vm.step A flags e = some vm') : vm'.Backed := by
  have hcopy : ∀ w c arr, e = .copy w c → w ∈ vm.threads → vm.tables.profiling = true → c.attempt = .copied →
      vm.tables.sites.getEntry (allocSiteId (ng2cProf c.mark)) = some arr →
        vm.tables.sites.allocsOf (counterKey arr (ng2cProf c.mark)) ≠ 0 := by
    rintro w c arr rfl hw hprof hatt harr
    rw [allocsOf_counterKey harr]
    exact htimely hw hprof hatt (by rw [harr]; rfl)
  have hsound := sound_step (fun sites k => sites.allocsOf k ≠ 0) h.sound hstep
  obtain ⟨site, hne, rfl, rfl⟩ | ⟨site, context, hcount, rfl⟩ | ⟨_, _, _, _, rfl, rfl⟩ | ⟨w, c, rfl, rfl⟩ |
    ⟨rfl, hdoit⟩ := step_cases hstep
  · refine ⟨hsound (fun _ k hk hP => ?_) hcopy, h.divides⟩
    have heq := allocsOf_addEntry hk hne
    exact fun h0 => hP (heq.symm.trans h0)
  · exact ⟨hsound (fun _ k _ hP => allocsOf_incNumberAllocs hP (htimely.counted hcount)) hcopy, h.divides⟩
  · exact h
  · exact ⟨hsound (fun _ k _ hP => hP) hcopy, h.divides⟩
  · exact h.doit hdoit

/-- In a timely run no curve with survivors is analyzed with no allocations, so the analysis never divides by zero. -/
theorem divides_of_timely {threshold maxTenuringThreshold : BitVec 64} {usesProfiler : Bool} {threads : List W}
    {es : List (VmEvent W)}
    (h : run (guarded Vm.Timely (Vm.step A flags)) (Vm.start threshold usesProfiler threads maxTenuringThreshold) es =
      some vm) : ∀ call ∈ vm.calls, call.Divides := by
  have hbacked : vm.Backed := by
    refine run_invariant Vm.Backed (fun _ => True) ?_ ⟨sound_start _, fun _ hc => absurd hc not_mem_nil⟩
      (fun _ _ => trivial) h
    intro vm e vm' hvm _ hstep
    obtain ⟨htimely, hstep⟩ := guarded_some hstep
    exact hvm.step htimely hstep
  exact hbacked.divides

end Runs

/-! ## An object of an earlier window -/

section Example

lemma doit_firstWindow [DecidableEq W] (A : Arith F) (flags : BuildFlags) {vm : Vm W}
    (hs : vm.tables.Sound (fun _ => True) vm.threads) (huse : vm.usesProfiler = true)
    (hT : vm.tables.ng2cUpdateThreshold ≠ 0) (hends : vm.tables.countOperation.windowEnds = true)
    (hfirst : vm.tables.countOperation.decides = false) :
    ∃ vm', vm.doit A flags = some vm' ∧ vm'.tables.totalUpdateTargetGen = vm.tables.totalUpdateTargetGen + 1 ∧
      vm'.tables.sites = zero vm.tables.sites ∧ vm'.tables.Reset vm.threads := by
  obtain ⟨p', analyzed, hend, -, hreset, -⟩ := hs.countOperation.endWindow A flags
  refine ⟨_, Vm.doit_of_windowEnds huse hT hends hend, (Vm.endWindow_counter hend).1, ?_, hreset⟩
  obtain ⟨p1, hmerge, hrest⟩ := bind_eq_some_iff.1 hend
  obtain ⟨pass, hpass, hpure⟩ := bind_eq_some_iff.1 hrest
  obtain ⟨htotal, hthreshold, hsites⟩ := mergeThreads_frame hmerge
  have hfirst1 : p1.decides = false := by rwa [decides, htotal, hthreshold]
  rw [decisionPass, hfirst1] at hpass
  cases hpass
  cases hpure
  exact congrArg zero hsites

variable {p : Tables W} {a : Fin ng2cGenArraySize}

lemma exists_merged_survivor [DecidableEq W] {p1 w} (hs : p.Sound (fun _ => True) [w])
    (hmerge : p.mergeThreads [w] = some p1) {s} (ha : a ≠ 0)
    (hne : (p.worker w).siteTotal s a ≠ 0) : ∃ k pc, p1.global.getCounter k = some pc ∧ pc.array a ≠ 0 := by
  have hstep : p.step (.merge w) = some p1 := by simpa [mergeThreads] using hmerge
  obtain ⟨thread, global, hrun, rfl⟩ := merge_some hstep
  obtain ⟨_, _, hrun', hmoved, -⟩ := updatePromotions_total (fun k pc hk => (hs.worker w k pc hk).1.isSome) p.global
  cases hrun.symm.trans hrun'
  by_contra hno
  have hglobal : p.global.siteTotal s a = 0 := ChainTable.sumOver_eq_zero (fun k pc hk => hs.cleared k pc hk a) _
  have hmerged : global.siteTotal s a = 0 :=
    ChainTable.sumOver_eq_zero (fun k pc hk => by_contra fun h => hno ⟨k, pc, hk, h⟩) _
  rw [hmoved s a ha, hglobal, zero_add] at hmerged
  exact hne hmerged

lemma exists_curve_of_siteTotal [DecidableEq W] (A : Arith F) (flags : BuildFlags) {w}
    (hs : p.Sound (fun _ => True) [w]) (hdecides : p.decides = true) {s}
    (ha : a ≠ 0) (hne : (p.worker w).siteTotal s a ≠ 0) : ∃ p' analyzed, p.endWindow A flags [w] = some (p', analyzed) ∧
      ∃ curve ∈ analyzed, curve a ≠ 0 ∧ ∃ k, curve 0 = p.sites.allocsOf k := by
  obtain ⟨p1, hmerge, hp1, -⟩ := hs.merging.mergeThreads
  obtain ⟨htotal, hthreshold, hsites⟩ := mergeThreads_frame hmerge
  obtain ⟨k, pc, hk, hpc⟩ := exists_merged_survivor hs hmerge ha hne
  have hkeyed : ∀ k pc, p1.global.getCounter k = some pc → Keyed p1.sites k := fun k pc hk =>
    hsites ▸ (hp1.global k pc hk).1
  obtain ⟨pass, hpass, -, hanalyzed⟩ := decisionPass_spec A flags hkeyed
  rw [if_pos (show p1.decides = true by rwa [decides, htotal, hthreshold])] at hanalyzed
  refine ⟨_, pass.analyzed, endWindow_of_pass hmerge hpass, curveOf p1.sites ⟨k, pc⟩, ?_, ?_, k, ?_⟩
  · rw [hanalyzed]
    exact mem_map_of_mem ((p1.global.counters.mem_entries_iff k pc).2 hk)
  · rwa [curveOf_of_ne ha]
  · rw [curveOf_zero (hp1.fromOne k pc hk), hsites]

lemma curve_of_survivor {vm : Vm Unit} (hs : vm.tables.Sound (fun _ => True) vm.threads)
    (huse : vm.usesProfiler = true) (hthreads : vm.threads = [()]) (hT : vm.tables.ng2cUpdateThreshold ≠ 0)
    (hends : vm.tables.countOperation.windowEnds = true) (hdecides : vm.tables.countOperation.decides = true)
    (ha : a ≠ 0) (hne : (vm.tables.worker ()).siteTotal 1 a ≠ 0) :
    ∃ vm' call curve k, vm.doit ratArith shippedFlags = some vm' ∧ call ∈ vm'.calls ∧ curve ∈ call.analyzed ∧
      curve a ≠ 0 ∧ curve 0 = vm.tables.sites.allocsOf k := by
  rw [hthreads] at hs
  obtain ⟨p', analyzed, hend, curve, hcurve, hcurve_a, k, hcurve_0⟩ :=
    exists_curve_of_siteTotal ratArith shippedFlags hs.countOperation hdecides ha hne
  exact ⟨_, _, curve, k, Vm.doit_of_windowEnds huse hT hends (hthreads ▸ hend),
    mem_append_right _ mem_cons_self, hcurve, hcurve_a, hcurve_0⟩

lemma allocsAt_of_reset {threads} (h : p.Reset threads) (site) (context) : p.sites.allocsAt site context = 0 := by
  unfold allocsAt getEntry
  split
  · rfl
  · cases hfind : p.sites.find? site with
    | none => rfl
    | some arr => exact h.sites _ arr hfind _

lemma isSome_getEntry_zero (sites : MethodBciHashtable) (hash : BitVec 32) :
    (sites.zero.getEntry hash).isSome = (sites.getEntry hash).isSome := by
  rw [zero, getEntry_mapLiterals, isSome_map]

lemma siteTotal_survivor {sites t c} (ht : t.Cleared) (hsome : (sites.getEntry 1).isSome)
    (hcount : c.countsFor 1 a = true) :
    (copyToSurvivorSpace true sites t c).counters.siteTotal 1 a ≠ 0 := by
  have hzero : t.siteTotal 1 a = 0 := ChainTable.sumOver_eq_zero (fun k pc hk => ht k pc hk a) _
  rw [siteTotal_copyToSurvivorSpace, hzero, if_pos ⟨hsome, hcount⟩]
  decide

def agedObject : SurvivorCopy := { youngObject with mark := youngObject.agedMark }

/-- An object of site 1 is allocated in one window, and copied again in the next, in which nothing is allocated. Each
has 15 operations before the last one. -/
def allocatingWindow : List (VmEvent Unit) :=
  (.register 1 :: List.replicate 15 .doit) ++ [allocateYoung, .copy () youngObject]

def survivingWindow : List (VmEvent Unit) := .copy () agedObject :: List.replicate 15 .doit

def Tables.countOperations (p : Tables W) (n : Nat) : Tables W :=
  { p with totalUpdateTargetGen := p.totalUpdateTargetGen + BitVec.ofNat 32 n }

lemma countOperations_succ (p : Tables W) (n : Nat) :
    p.countOperations (n + 1) = p.countOperation.countOperations n := by
  have htotal : p.totalUpdateTargetGen + BitVec.ofNat 32 (n + 1) =
      p.totalUpdateTargetGen + 1 + BitVec.ofNat 32 n := by
    rw [BitVec.ofNat_add, add_comm (BitVec.ofNat 32 n), add_assoc]
    rfl
  simp only [countOperations, countOperation, htotal]

lemma run_doit_withinWindow [DecidableEq W] (A : Arith F) (flags : BuildFlags) (n : Nat) (vm : Vm W)
    (huse : vm.usesProfiler = true) (hT : vm.tables.ng2cUpdateThreshold ≠ 0)
    (hwithin : ∀ i < n, (vm.tables.countOperations (i + 1)).windowEnds = false) :
    ∃ vm', run (Vm.step A flags) vm (List.replicate n .doit) = some vm' ∧ vm'.tables = vm.tables.countOperations n := by
  induction n generalizing vm with
  | zero => exact ⟨vm, rfl, by simp [countOperations]⟩
  | succ n ih =>
    have hdoit : vm.step A flags .doit = some (vm.finish vm.tables.countOperation false false []) :=
      Vm.doit_of_not_windowEnds huse hT (hwithin 0 (by omega))
    have hwithin' : ∀ i < n, ((vm.finish vm.tables.countOperation false false []).tables.countOperations
        (i + 1)).windowEnds = false := fun i hi =>
      countOperations_succ vm.tables (i + 1) ▸ hwithin (i + 1) (by omega)
    obtain ⟨vm', hrun, htables⟩ := ih (vm.finish vm.tables.countOperation false false []) huse hT hwithin'
    exact ⟨vm', by rw [replicate_succ, run_cons, hdoit, bind_some, hrun],
      htables.trans (countOperations_succ vm.tables n).symm⟩

lemma run_survivingWindow {vm} (huse : vm.usesProfiler = true)
    (hT : vm.tables.ng2cUpdateThreshold = 16) (htotal : vm.tables.totalUpdateTargetGen = 16) :
    ∃ vm', run (Vm.step ratArith shippedFlags) vm survivingWindow = some vm' ∧
      vm'.tables.totalUpdateTargetGen = 31 ∧ vm'.tables.sites = vm.tables.sites ∧ vm'.tables.worker () =
        (copyToSurvivorSpace true vm.tables.sites (vm.tables.worker ()) agedObject).counters := by
  have hprofiling : vm.tables.profiling = true := by
    rw [profiling, hT, htotal]
    decide
  obtain ⟨vm1, hcopy, huse1, htables1⟩ : ∃ vm1, vm.step ratArith shippedFlags (.copy () agedObject) = some vm1 ∧
      vm1.usesProfiler = vm.usesProfiler ∧ vm1.tables = { vm.tables with
        worker := update vm.tables.worker ()
          (copyToSurvivorSpace vm.tables.profiling vm.tables.sites (vm.tables.worker ()) agedObject).counters } :=
    ⟨_, rfl, rfl, rfl⟩
  obtain ⟨vm', hrun, htables⟩ := run_doit_withinWindow ratArith shippedFlags 15 vm1 (huse1.trans huse)
    (by simp only [htables1, hT]; decide)
    (by simp only [windowEnds, countOperations, profiling, htables1, hT, htotal]; decide)
  refine ⟨vm', by rw [survivingWindow, run_cons, hcopy]; exact hrun, ?_, ?_, ?_⟩
  · simp only [htables, countOperations, htables1, htotal]
    rfl
  · simp only [htables, countOperations, htables1]
  · simp only [htables, countOperations, htables1, update_self, hprofiling]

/-- An object of an earlier window is analyzed with no allocations, also with the default threshold of 16. -/
theorem curve_earlierSurvivor : ∃ vm call curve, run (Vm.step ratArith shippedFlags) (Vm.start 16 true [()] 15)
        (allocatingWindow ++ [.doit] ++ survivingWindow ++ [.doit]) = some vm ∧
      call ∈ vm.calls ∧ curve ∈ call.analyzed ∧ curve 2 ≠ 0 ∧ curve 0 = 0 := by
  obtain ⟨vm1, h1, hends, hfirst, htotal1, hsome⟩ :
      ∃ vm, run (Vm.step ratArith shippedFlags) (Vm.start 16 true [()] 15) allocatingWindow = some vm ∧
        vm.tables.countOperation.windowEnds = true ∧ vm.tables.countOperation.decides = false ∧
        vm.tables.totalUpdateTargetGen = 15 ∧ (vm.tables.sites.getEntry 1).isSome = true :=
    ⟨_, rfl, rfl, rfl, rfl, rfl⟩
  obtain ⟨huse1, hthreads1, hT1⟩ := Vm.sameSettings_run h1
  obtain ⟨vm2, hdoit, htotal2, hsites2, hreset⟩ := doit_firstWindow ratArith shippedFlags (sound_run h1) huse1
    (hT1 ▸ by decide) hends hfirst
  have h2 : run (Vm.step ratArith shippedFlags) (Vm.start 16 true [()] 15) (allocatingWindow ++ [.doit]) =
      some vm2 := run_snoc h1 hdoit
  obtain ⟨huse2, hthreads2, hT2⟩ := Vm.sameSettings_run h2
  obtain ⟨vm3, h3, htotal3, hsites3, hworker3⟩ := run_survivingWindow huse2 hT2 (htotal2.trans (htotal1 ▸ rfl))
  have h3 := run_trans h2 h3
  obtain ⟨huse3, hthreads3, hT3⟩ := Vm.sameSettings_run h3
  have hT3 : vm3.tables.ng2cUpdateThreshold = 16 := hT3
  have hcleared : (vm2.tables.worker ()).Cleared := hreset.threads () (hthreads1 ▸ mem_cons_self)
  have hregistered : (vm2.tables.sites.getEntry 1).isSome = true := by
    rw [hsites2, isSome_getEntry_zero]
    exact hsome
  have hsurvivor : (vm3.tables.worker ()).siteTotal 1 2 ≠ 0 := by
    rw [hworker3]
    exact siteTotal_survivor hcleared hregistered rfl
  obtain ⟨vm, call, curve, k, hlast, hcall, hcurve, hcurve_2, hcurve_0⟩ :=
    curve_of_survivor (sound_run h3) huse3 hthreads3 (hT3 ▸ by decide)
      (by simp only [windowEnds, countOperation, profiling, htotal3, hT3]; decide)
      (by simp only [decides, countOperation, htotal3, hT3]; decide) (by decide) hsurvivor
  refine ⟨vm, call, curve, run_snoc h3 hlast, hcall, hcurve, hcurve_2, ?_⟩
  rw [hcurve_0, hsites3]
  exact allocsAt_of_reset hreset _ _

lemma step_allocateYoung {vm : Vm Unit} (harr : vm.tables.sites.getEntry 1 = some arr) :
    vm.step ratArith shippedFlags allocateYoung =
      some (vm.setSites (vm.tables.sites.modify 1 (·.incNumberAllocs ((7 &&& 0xFFFF : BitVec 32).setWidth 16)))) := by
  obtain ⟨r, hr⟩ : ∃ r, Alloc.fastPath false vm.tables.sites ⟨7, 0, 0⟩ plainKlass 1 none = some r := by
    simp only [Alloc.fastPath, harr, elementAt_counterOffset]
    exact ⟨_, rfl⟩
  rw [allocateYoung, Vm.step, hr, map_some, fst_fastPath hr]

lemma allocsAt_incNumberAllocs_self {sites : MethodBciHashtable} {site : BitVec 32}
    (harr : sites.getEntry site = some arr) (context) :
    allocsAt (sites.modify site (·.incNumberAllocs context)) site context = sites.allocsAt site context + 1 := by
  unfold allocsAt
  rw [getEntry_modify, if_pos rfl, harr]
  exact update_self _ _ _

lemma run_timelySurvivor {vm : Vm Unit} (hreset : vm.tables.Reset [()]) (hprofiling : vm.tables.profiling = true)
    (hregistered : (vm.tables.sites.getEntry 1).isSome = true) :
    ∃ vm', run (guarded Vm.Timely (Vm.step ratArith shippedFlags)) vm [allocateYoung, .copy () youngObject] = some vm' ∧
      vm'.tables.totalUpdateTargetGen = vm.tables.totalUpdateTargetGen ∧ (vm'.tables.worker ()).siteTotal 1 1 ≠ 0 := by
  obtain ⟨arr, harr⟩ := isSome_iff_exists.1 hregistered
  have hzero := allocsAt_of_reset hreset 1
  have hallocate : vm.Timely allocateYoung := by
    show vm.tables.sites.allocsAt 1 _ + 1 ≠ 0
    rw [hzero]
    decide
  have h1 := run_snoc (run_nil vm) (guarded_of_ok hallocate (step_allocateYoung harr))
  set vm1 := vm.setSites
    (vm.tables.sites.modify 1 (·.incNumberAllocs ((7 &&& 0xFFFF : BitVec 32).setWidth 16))) with hvm1
  have hcopy : vm1.Timely (.copy () youngObject) := by
    intro _ _ _ _
    have hself := allocsAt_incNumberAllocs_self harr ((7 &&& 0xFFFF : BitVec 32).setWidth 16)
    rw [hzero] at hself
    intro h0
    exact absurd (hself.symm.trans h0) (by decide)
  have h2 := run_snoc h1 (guarded_of_ok hcopy (show vm1.step ratArith shippedFlags _ = some _ from rfl))
  refine ⟨_, h2, rfl, ?_⟩
  have hsome : (vm1.tables.sites.getEntry 1).isSome = true := by
    rw [hvm1, Vm.setSites, isSome_getEntry_modify]
    exact hregistered
  have hsurvivor := siteTotal_survivor (hreset.threads () mem_cons_self) hsome
    (show youngObject.countsFor 1 1 = true from rfl)
  rw [← hprofiling] at hsurvivor
  exact hsurvivor

theorem divides_of_timely_twoWindows :
    ∃ vm call curve, run (guarded Vm.Timely (Vm.step ratArith shippedFlags)) (Vm.start 1 true [()] 15)
        ([.register 1] ++ [.doit] ++ [allocateYoung, .copy () youngObject] ++ [.doit]) = some vm ∧
      call ∈ vm.calls ∧ curve ∈ call.analyzed ∧ curve 1 ≠ 0 ∧ curve 0 ≠ 0 := by
  obtain ⟨vm1, h1, hends, hfirst, htotal1, hsome⟩ :
      ∃ vm, run (guarded Vm.Timely (Vm.step ratArith shippedFlags)) (Vm.start 1 true [()] 15) [.register 1] =
          some vm ∧
        vm.tables.countOperation.windowEnds = true ∧ vm.tables.countOperation.decides = false ∧
        vm.tables.totalUpdateTargetGen = 0 ∧ (vm.tables.sites.getEntry 1).isSome = true :=
    ⟨_, rfl, rfl, rfl, rfl, rfl⟩
  obtain ⟨huse1, hthreads1, hT1⟩ := Vm.sameSettings_run (run_of_guarded h1)
  obtain ⟨vm2, hdoit, htotal2, hsites2, hreset⟩ := doit_firstWindow ratArith shippedFlags
    (sound_run (run_of_guarded h1)) huse1 (hT1 ▸ by decide) hends hfirst
  rw [show vm1.threads = [()] from hthreads1] at hreset
  have h2 := run_snoc h1 (guarded_of_ok (show vm1.Timely .doit from trivial)
    (show vm1.step ratArith shippedFlags .doit = some vm2 from hdoit))
  obtain ⟨-, -, hT2⟩ := Vm.sameSettings_run (run_of_guarded h2)
  have hT2 : vm2.tables.ng2cUpdateThreshold = 1 := hT2
  have hprofiling : vm2.tables.profiling = true := by
    rw [profiling, hT2, htotal2, htotal1]
    decide
  obtain ⟨vm3, h3, htotal3, hsurvivor⟩ := run_timelySurvivor hreset hprofiling
    (by rw [hsites2, isSome_getEntry_zero]; exact hsome)
  have h3 := run_trans h2 h3
  obtain ⟨huse3, hthreads3, hT3⟩ := Vm.sameSettings_run (run_of_guarded h3)
  have hT3 : vm3.tables.ng2cUpdateThreshold = 1 := hT3
  have htotal3 : vm3.tables.totalUpdateTargetGen = 1 := htotal3.trans (htotal2.trans (htotal1 ▸ rfl))
  obtain ⟨vm, call, curve, k, hlast, hcall, hcurve, hcurve_1, -⟩ :=
    curve_of_survivor (sound_run (run_of_guarded h3)) huse3 hthreads3 (hT3 ▸ by decide)
      (by simp only [windowEnds, countOperation, profiling, htotal3, hT3]; decide)
      (by simp only [decides, countOperation, htotal3, hT3]; decide) (by decide) hsurvivor
  have h4 := run_snoc h3 (guarded_of_ok (show vm3.Timely .doit from trivial)
    (show vm3.step ratArith shippedFlags .doit = some vm from hlast))
  exact ⟨vm, call, curve, h4, hcall, hcurve, hcurve_1,
    divides_of_timely h4 call hcall curve hcurve ⟨1, by decide, hcurve_1⟩⟩

end Example

end Rolp.Profiler
