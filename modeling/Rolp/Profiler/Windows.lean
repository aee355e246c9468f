import Rolp.Profiler.Lemmas.WindowEnd
import Rolp.Profiler.Verdict

/-!
# Windows

At the end of a window all counters are zero, so that no window sees what another one counted.
-/

namespace Rolp.Profiler

open Rolp.Lib Rolp.Mark Rolp.Alloc List Option

variable {W F : Type} {A : Arith F} {flags : BuildFlags}

/-! ## Between two operations -/

structure Tables.Sound (P : BitVec 32 → Prop) (threads : List W) (p : Tables W) : Prop where
  blank : p.sites.AllBlank
  worker : ∀ w, (p.worker w).Counts p.sites fun k => w ∈ threads → P k
  global : ∀ k pc, p.global.getCounter k = some pc → Keyed p.sites k
  cleared : p.global.Cleared

structure Tables.Reset (threads : List W) (p : Tables W) : Prop where
  sites : ∀ s arr, p.sites.find? s = some arr → ∀ i, arr.allocsGens i = 0
  global : p.global.Cleared
  threads : ∀ w ∈ threads, (p.worker w).Cleared

variable {sites : MethodBciHashtable}

section Sound

variable {P : BitVec 32 → Prop} {threads : List W} {p : Tables W}

lemma Tables.Sound.merging (h : p.Sound P threads) : p.Merging p.sites P threads where
  sites_eq := rfl
  worker := h.worker
  global := fun k pc hk => ⟨h.global k pc hk, fun a ha => absurd (h.cleared k pc hk a) ha⟩
  fromOne := fun k pc hk => h.cleared k pc hk 0

lemma Tables.Sound.countOperation (h : p.Sound P threads) : p.countOperation.Sound P threads :=
  ⟨h.blank, h.worker, h.global, h.cleared⟩

lemma Tables.Sound.setSites (h : p.Sound P threads) {Q : BitVec 32 → Prop}
    (hblank : sites.AllBlank) (hkeyed : ∀ k, Keyed p.sites k → Keyed sites k)
    (hQ : ∀ k, Keyed p.sites k → P k → Q k) : Tables.Sound Q threads { p with sites := sites } where
  blank := hblank
  worker := by
    intro w k pc hk
    obtain ⟨hkey, hP⟩ := h.worker w k pc hk
    exact ⟨hkeyed k hkey, fun a ha hw => hQ k hkey (hP a ha hw)⟩
  global := fun k pc hk => hkeyed k (h.global k pc hk)
  cleared := h.cleared

lemma counters_copyToSurvivorSpace_cases (profiling sites t)
    (c) : (copyToSurvivorSpace profiling sites t c).counters = t ∨
      (profiling = true ∧ c.attempt = .copied ∧ ∃ arr, sites.getEntry (allocSiteId (ng2cProf c.mark)) = some arr ∧
        (copyToSurvivorSpace profiling sites t c).counters =
          (t.getCounterNotNull (counterKey arr (ng2cProf c.mark))).modify (counterKey arr (ng2cProf c.mark))
            (·.update c.updateAge) fun pc => pc.hash_update c.updateAge) := by
  cases profiling with
  | false =>
    left
    unfold copyToSurvivorSpace
    cases c.attempt <;> rfl
  | true =>
    by_cases hatt : c.attempt = .copied
    · cases harr : sites.getEntry (allocSiteId (ng2cProf c.mark)) with
      | none => exact .inl (counters_copyToSurvivorSpace_none (fun _ => harr) t)
      | some arr => exact .inr ⟨rfl, hatt, arr, rfl, counters_copyToSurvivorSpace_some hatt harr t⟩
    · exact .inl (counters_copyToSurvivorSpace_none (fun h => absurd h hatt) t)

lemma decisionPass_spec (A : Arith F) (flags : BuildFlags)
    (h : ∀ k pc, p.global.getCounter k = some pc → Keyed p.sites k) :
    ∃ pass, p.decisionPass A flags = some pass ∧ DecisionPass.Follows ⟨p.sites, p.global, false, []⟩ pass ∧
      pass.analyzed = if p.decides then p.global.counters.entries.map (curveOf p.sites) else [] := by
  unfold Tables.decisionPass
  cases p.decides with
  | false => exact ⟨_, rfl, .refl _, rfl⟩
  | true => exact updateTargetGen_spec A flags h

variable [DecidableEq W]

lemma Tables.Sound.copy (h : p.Sound P threads) (w c)
    (hP : ∀ arr, w ∈ threads → p.profiling = true → c.attempt = .copied →
      p.sites.getEntry (allocSiteId (ng2cProf c.mark)) = some arr → P (counterKey arr (ng2cProf c.mark))) :
    Tables.Sound P threads { p with
      worker := Function.update p.worker w (copyToSurvivorSpace p.profiling p.sites (p.worker w) c).counters } where
  blank := h.blank
  worker := by
    intro v
    by_cases hv : v = w
    · subst hv
      simp only [Function.update_self]
      obtain heq | ⟨hprof, hatt, arr, harr, heq⟩ :=
        counters_copyToSurvivorSpace_cases p.profiling p.sites (p.worker v) c
      · rw [heq]
        exact h.worker v
      · rw [heq]
        exact (h.worker v).write (keyed_counterKey harr) _ fun pc a _ => .inr fun hw => hP arr hw hprof hatt harr
    · simp only [Function.update_of_ne hv]
      exact h.worker v
  global := h.global
  cleared := h.cleared

lemma endWindow_of_pass {p1 : Tables W} {pass : DecisionPass} (hmerge : p.mergeThreads threads = some p1)
    (hpass : p1.decisionPass A flags = some pass) : p.endWindow A flags threads =
      some ({ p1 with sites := MethodBciHashtable.zero pass.sites, global := pass.global.zero }, pass.analyzed) := by
  simp only [Tables.endWindow, hmerge, hpass, bind_eq_bind, bind_some]
  rfl

/-- The end of a window is defined and resets the tables. Every analyzed curve has the allocations of its key at age 0
and only what the visited threads counted at the other ages. -/
lemma Tables.Sound.endWindow (A : Arith F) (flags : BuildFlags) (h : p.Sound P threads) :
    ∃ p' analyzed, p.endWindow A flags threads = some (p', analyzed) ∧ (∀ Q, p'.Sound Q threads) ∧ p'.Reset threads ∧
      ∀ curve ∈ analyzed, ∃ k, curve 0 = p.sites.allocsOf k ∧ ∀ a, a ≠ 0 → curve a ≠ 0 → P k := by
  obtain ⟨p1, hmerge, hp1, hcleared⟩ := h.merging.mergeThreads
  have hglobal : ∀ k pc, p1.global.getCounter k = some pc → Keyed p1.sites k := fun k pc hk =>
    hp1.sites_eq ▸ (hp1.global k pc hk).1
  obtain ⟨pass, hpass, hfollows, hanalyzed⟩ := decisionPass_spec A flags hglobal
  have hblank : pass.sites.AllBlank := hfollows.blank (hp1.sites_eq ▸ h.blank)
  have hkeyed : ∀ k, Keyed p.sites k → Keyed (MethodBciHashtable.zero pass.sites) k := fun k hk =>
    (hfollows.keyed k (hp1.sites_eq ▸ hk)).zero
  refine ⟨_, pass.analyzed, endWindow_of_pass hmerge hpass, ?_, ?_, ?_⟩
  · intro Q
    refine ⟨hblank.zero, ?_, ?_, PromotionCounters.cleared_zero _⟩
    · intro w k pc hk
      refine ⟨hkeyed k (hp1.worker w k pc hk).1, fun a ha hw => ?_⟩
      exact absurd (hcleared w hw k pc hk a) ha
    intro k pc hk
    rw [show pass.global.zero.getCounter k = _ from
      pass.global.counters.find?_mapLiterals k PromotionCounter.clear] at hk
    obtain ⟨pc', hpc', -⟩ := map_eq_some_iff.1 hk
    obtain ⟨pc1, hpc1⟩ := hfollows.counters k pc' hpc'
    exact hkeyed k (hp1.global k pc1 hpc1).1
  · refine ⟨?_, PromotionCounters.cleared_zero _, hcleared⟩
    intro s arr hs
    rw [show (MethodBciHashtable.zero pass.sites).find? s = _ from
      pass.sites.find?_mapLiterals s NGenerationArray.zero] at hs
    obtain ⟨arr', harr', rfl⟩ := map_eq_some_iff.1 hs
    exact NGenerationArray.allocsGens_zero (hblank s arr' harr')
  · intro curve hcurve
    rw [hanalyzed] at hcurve
    split at hcurve
    · obtain ⟨e, he, rfl⟩ := mem_map.1 hcurve
      have hget := (p1.global.counters.mem_entries_iff e.key e.literal).1 he
      refine ⟨e.key, ?_, fun a ha hne => (hp1.global _ _ hget).2 a ?_⟩
      · exact (curveOf_zero (hp1.fromOne _ _ hget)).trans (by rw [hp1.sites_eq])
      · rwa [curveOf_of_ne ha] at hne
    · cases hcurve

end Sound

/-! ## Steps -/

variable {useBiasedLocking : Bool} {thread : AllocThread} {klass : Klass}

lemma fst_allocate {gen : BitVec 32} {length : Option (BitVec 32)} {r : MethodBciHashtable × AllocThread × Allocated}
    (h : Alloc.allocate useBiasedLocking sites thread klass gen length = some r) : r.1 = if gen = 0 then sites
      else sites.modify (gen &&& 0xFFFF) (·.incNumberAllocs ((thread.context &&& 0xFFFF).setWidth 16)) := by
  obtain ⟨⟨sites', thread', handle⟩, hprof, hpure⟩ := bind_eq_some_iff.1 h
  cases hpure
  unfold profileAllocation at hprof
  by_cases hgen : gen = 0
  · rw [if_neg (not_not.2 hgen)] at hprof
    cases hprof
    rw [if_pos hgen]
  · rw [if_pos hgen] at hprof
    obtain ⟨ngen, -, hpure⟩ := bind_eq_some_iff.1 hprof
    cases hpure
    rw [if_neg hgen]

lemma fst_fastPath {site : BitVec 32} {length : Option (BitVec 32)} {r : MethodBciHashtable × AllocThread × Allocated}
    (h : Alloc.fastPath useBiasedLocking sites thread klass site length = some r) :
    r.1 = sites.modify site (·.incNumberAllocs ((thread.context &&& 0xFFFF).setWidth 16)) := by
  obtain ⟨arr, harr, h⟩ := bind_eq_some_iff.1 h
  rw [elementAt_counterOffset] at h
  cases h
  apply ChainTable.modify_congr
  intro v hv
  unfold MethodBciHashtable.getEntry at harr
  split at harr
  · cases harr
  · cases hv.symm.trans harr
    rfl

def VmEvent.counted : VmEvent W → Option (BitVec 32 × BitVec 16)
  | .allocate _ thread _ gen _ =>
    if gen = 0 then none else some (gen &&& 0xFFFF, (thread.context &&& 0xFFFF).setWidth 16)
  | .fastPath _ thread _ site _ => some (site, (thread.context &&& 0xFFFF).setWidth 16)
  | _ => none

namespace Vm

variable [DecidableEq W] {vm vm' : Vm W} {e : VmEvent W}

lemma step_cases (h : vm.step A flags e = some vm') :
    (∃ site hne, e = .register site ∧ vm' = vm.setSites (MethodBciHashtable.addEntry vm.tables.sites site hne)) ∨
    (∃ site context, e.counted = some (site, context) ∧
      vm' = vm.setSites (vm.tables.sites.modify site (·.incNumberAllocs context))) ∨
    (∃ useBiasedLocking thread klass length, e = .allocate useBiasedLocking thread klass 0 length ∧ vm' = vm) ∨
    (∃ w c, e = .copy w c ∧ vm' = { vm with tables := { vm.tables with
      worker := Function.update vm.tables.worker w
        (copyToSurvivorSpace vm.tables.profiling vm.tables.sites (vm.tables.worker w) c).counters } }) ∨
    (e = .doit ∧ vm.doit A flags = some vm') := by
  cases e with
  | register site =>
    simp only [step] at h
    split at h
    next hne =>
      cases h
      exact .inl ⟨site, hne, rfl, rfl⟩
    · cases h
  | allocate useBiasedLocking thread klass gen length =>
    obtain ⟨r, hr, rfl⟩ := map_eq_some_iff.1 h
    rw [fst_allocate hr]
    by_cases hgen : gen = 0
    · subst hgen
      exact .inr (.inr (.inl ⟨useBiasedLocking, thread, klass, length, rfl, rfl⟩))
    · exact .inr (.inl ⟨_, _, if_neg hgen, by rw [if_neg hgen]⟩)
  | fastPath useBiasedLocking thread klass site length =>
    obtain ⟨r, hr, rfl⟩ := map_eq_some_iff.1 h
    rw [fst_fastPath hr]
    exact .inr (.inl ⟨site, _, rfl, rfl⟩)
  | copy w c =>
    cases h
    exact .inr (.inr (.inr (.inl ⟨w, c, rfl, rfl⟩)))
  | doit => exact .inr (.inr (.inr (.inr ⟨rfl, h⟩)))

lemma doit_of_windowEnds {p' : Tables W} {analyzed : List Curve} (huse : vm.usesProfiler = true)
    (hT : vm.tables.ng2cUpdateThreshold ≠ 0) (hends : vm.tables.countOperation.windowEnds = true)
    (hend : vm.tables.countOperation.endWindow A flags vm.threads = some (p', analyzed)) :
    vm.doit A flags = some (vm.finish p' true vm.tables.countOperation.decides analyzed) := by
  have hT' : vm.tables.countOperation.ng2cUpdateThreshold ≠ 0 := hT
  simp only [doit, huse, hT', hends, hend, if_true, if_false]
  rfl

lemma doit_of_not_windowEnds (huse : vm.usesProfiler = true) (hT : vm.tables.ng2cUpdateThreshold ≠ 0)
    (hends : vm.tables.countOperation.windowEnds = false) :
    vm.doit A flags = some (vm.finish vm.tables.countOperation false false []) := by
  have hT' : vm.tables.countOperation.ng2cUpdateThreshold ≠ 0 := hT
  simp only [doit, huse, hT', hends, Bool.false_eq_true, if_true, if_false]

lemma doit_defined (A : Arith F) (flags : BuildFlags) {P : BitVec 32 → Prop}
    (hs : vm.tables.Sound P vm.threads) (huse : vm.usesProfiler = true)
    (hT : vm.tables.ng2cUpdateThreshold ≠ 0) : ∃ vm', vm.doit A flags = some vm' := by
  cases hends : vm.tables.countOperation.windowEnds with
  | false => exact ⟨_, doit_of_not_windowEnds huse hT hends⟩
  | true =>
    obtain ⟨p', analyzed, hend, -⟩ := hs.countOperation.endWindow A flags
    exact ⟨_, doit_of_windowEnds huse hT hends hend⟩

lemma doit_cases (h : vm.doit A flags = some vm') : (vm.usesProfiler = false ∧ vm' = vm) ∨
    (vm.usesProfiler = true ∧ vm.tables.ng2cUpdateThreshold ≠ 0 ∧ ((vm.tables.countOperation.windowEnds = false ∧
        vm' = vm.finish vm.tables.countOperation false false []) ∨
      (vm.tables.countOperation.windowEnds = true ∧ ∃ p' analyzed,
        vm.tables.countOperation.endWindow A flags vm.threads = some (p', analyzed) ∧
        vm' = vm.finish p' true vm.tables.countOperation.decides analyzed))) := by
  unfold doit at h
  cases huse : vm.usesProfiler with
  | false =>
    rw [huse] at h
    cases h
    exact .inl ⟨rfl, rfl⟩
  | true =>
    rw [huse] at h
    refine .inr ⟨rfl, ?_⟩
    by_cases hT : vm.tables.countOperation.ng2cUpdateThreshold = 0
    · simp only [hT, if_true] at h
      cases h
    refine ⟨hT, ?_⟩
    cases hends : vm.tables.countOperation.windowEnds with
    | false =>
      simp only [hends, hT, Bool.false_eq_true, if_false] at h
      cases h
      exact .inl ⟨rfl, rfl⟩
    | true =>
      simp only [hends, hT, if_false, if_true] at h
      obtain ⟨⟨p', analyzed⟩, hend, hpure⟩ := bind_eq_some_iff.1 h
      cases hpure
      exact .inr ⟨rfl, p', analyzed, hend, rfl⟩

lemma sound_doit (P : MethodBciHashtable → BitVec 32 → Prop)
    (hs : vm.tables.Sound (P vm.tables.sites) vm.threads) (h : vm.doit A flags = some vm') :
    vm'.tables.Sound (P vm'.tables.sites) vm'.threads ∧
      ∀ call ∈ vm'.calls, call ∈ vm.calls ∨ ∀ curve ∈ call.analyzed, ∃ k,
        curve 0 = vm.tables.sites.allocsOf k ∧ ∀ a, a ≠ 0 → curve a ≠ 0 → P vm.tables.sites k := by
  obtain ⟨-, rfl⟩ | ⟨-, -, ⟨-, rfl⟩ | ⟨-, p', analyzed, hend, rfl⟩⟩ := doit_cases h
  · exact ⟨hs, fun call hc => .inl hc⟩
  · refine ⟨hs.countOperation, fun call hc => ?_⟩
    obtain hc | rfl := mem_append.1 hc |>.imp_right mem_singleton.1
    · exact .inl hc
    · exact .inr fun curve hcurve => absurd hcurve not_mem_nil
  · obtain ⟨p1, analyzed1, hend1, hsound, -, hcurves⟩ := hs.countOperation.endWindow A flags
    cases hend.symm.trans hend1
    refine ⟨hsound _, fun call hc => ?_⟩
    obtain hc | rfl := mem_append.1 hc |>.imp_right mem_singleton.1
    · exact .inl hc
    · exact .inr hcurves

lemma sound_step (P : MethodBciHashtable → BitVec 32 → Prop)
    (hs : vm.tables.Sound (P vm.tables.sites) vm.threads) (h : vm.step A flags e = some vm')
    (hkeep : e ≠ .doit → ∀ k, Keyed vm.tables.sites k → P vm.tables.sites k → P vm'.tables.sites k)
    (hcopy : ∀ w c arr, e = .copy w c → w ∈ vm.threads → vm.tables.profiling = true → c.attempt = .copied →
      vm.tables.sites.getEntry (allocSiteId (ng2cProf c.mark)) = some arr →
        P vm.tables.sites (counterKey arr (ng2cProf c.mark))) : vm'.tables.Sound (P vm'.tables.sites) vm'.threads := by
  obtain ⟨site, hne, rfl, rfl⟩ | ⟨site, context, hcount, rfl⟩ | ⟨_, _, _, _, rfl, rfl⟩ | ⟨w, c, rfl, rfl⟩ |
    ⟨rfl, hdoit⟩ := step_cases h
  · exact hs.setSites (hs.blank.addEntry site hne) (fun k hk => hk.addEntry site hne) (hkeep (by simp))
  · have hf := NGenerationArray.keeps_incNumberAllocs context
    refine hs.setSites (hs.blank.modify hf site) (fun k hk => hk.modify hf site) (hkeep ?_)
    rintro rfl
    cases hcount
  · exact hs
  · exact hs.copy w c fun arr hw hprof hatt harr => hcopy w c arr rfl hw hprof hatt harr
  · exact (sound_doit P hs hdoit).1

lemma endWindow_counter {p p' : Tables W} {threads : List W} {analyzed : List Curve}
    (h : p.endWindow A flags threads = some (p', analyzed)) :
    p'.totalUpdateTargetGen = p.totalUpdateTargetGen ∧ p'.ng2cUpdateThreshold = p.ng2cUpdateThreshold := by
  obtain ⟨p1, hmerge, h⟩ := bind_eq_some_iff.1 h
  obtain ⟨pass, -, hpure⟩ := bind_eq_some_iff.1 h
  cases hpure
  obtain ⟨htotal, hthreshold, -⟩ := mergeThreads_frame hmerge
  exact ⟨htotal, hthreshold⟩

structure SameSettings (vm vm' : Vm W) : Prop where
  usesProfiler : vm'.usesProfiler = vm.usesProfiler
  threads : vm'.threads = vm.threads
  threshold : vm'.tables.ng2cUpdateThreshold = vm.tables.ng2cUpdateThreshold

lemma sameSettings_step (h : vm.step A flags e = some vm') : SameSettings vm vm' := by
  obtain ⟨site, hne, -, rfl⟩ | ⟨site, context, -, rfl⟩ | ⟨_, _, _, _, -, rfl⟩ | ⟨w, c, -, rfl⟩ | ⟨-, hdoit⟩ :=
    step_cases h
  · exact ⟨rfl, rfl, rfl⟩
  · exact ⟨rfl, rfl, rfl⟩
  · exact ⟨rfl, rfl, rfl⟩
  · exact ⟨rfl, rfl, rfl⟩
  · obtain ⟨-, rfl⟩ | ⟨-, -, ⟨-, rfl⟩ | ⟨-, p', analyzed, hend, rfl⟩⟩ := doit_cases hdoit
    · exact ⟨rfl, rfl, rfl⟩
    · exact ⟨rfl, rfl, rfl⟩
    · exact ⟨rfl, rfl, (endWindow_counter hend).2⟩

lemma sameSettings_run {es : List (VmEvent W)} (h : run (step A flags) vm es = some vm') : SameSettings vm vm' :=
  run_invariant (fun vm1 => SameSettings vm vm1) (fun _ => True)
    (fun _ _ _ hs _ hstep =>
      have hstep := sameSettings_step hstep
      ⟨hstep.usesProfiler.trans hs.usesProfiler, hstep.threads.trans hs.threads, hstep.threshold.trans hs.threshold⟩)
    ⟨rfl, rfl, rfl⟩ (fun _ _ => trivial) h

end Vm

/-! ## Runs -/

section Runs

variable {vm : Vm W} {threshold maxTenuringThreshold : BitVec 64} {usesProfiler : Bool} {threads : List W}
  {es : List (VmEvent W)}

lemma sound_start (P : BitVec 32 → Prop) :
    (Vm.start threshold usesProfiler threads maxTenuringThreshold).tables.Sound P threads where
  blank := fun _ _ h => nomatch h
  worker := fun _ _ _ h => nomatch h
  global := fun _ _ h => nomatch h
  cleared := fun _ _ h => nomatch h

variable [DecidableEq W]

lemma sound_run
    (h : run (Vm.step A flags) (Vm.start threshold usesProfiler threads maxTenuringThreshold) es = some vm) :
    vm.tables.Sound (fun _ => True) vm.threads :=
  run_invariant (fun vm : Vm W => vm.tables.Sound (fun _ => True) vm.threads) (fun _ => True)
    (fun _ _ _ hs _ hstep => Vm.sound_step (fun _ _ => True) hs hstep (fun _ _ _ _ => trivial)
      fun _ _ _ _ _ _ _ _ => trivial)
    (sound_start _) (fun _ _ => trivial) h

/-- Windows are isolated: whatever happened before, an operation that ends a window leaves every counter at zero. -/
theorem doit_resets (hthreshold : threshold ≠ 0)
    (h : run (Vm.step A flags) (Vm.start threshold true threads maxTenuringThreshold) es = some vm)
    (hends : vm.tables.countOperation.windowEnds = true) :
    ∃ vm', vm.doit A flags = some vm' ∧ vm'.tables.Reset threads := by
  obtain ⟨huse, hthreads, hT⟩ := Vm.sameSettings_run h
  have hsound := (sound_run h).countOperation
  rw [hthreads] at hsound
  obtain ⟨p', analyzed, hend, -, hreset, -⟩ := hsound.endWindow A flags
  refine ⟨vm.finish p' true vm.tables.countOperation.decides analyzed, ?_, hreset⟩
  have hT' : vm.tables.ng2cUpdateThreshold ≠ 0 := hT ▸ hthreshold
  exact Vm.doit_of_windowEnds huse hT' hends (hthreads ▸ hend)

end Runs

section Example

def youngObject : SurvivorCopy := ⟨setNg2cProf prototype 0x10007, fun _ => 0, true, .copied⟩

def plainKlass : Klass := ⟨false, prototype, rfl, fun _ => rfl⟩

def allocateYoung : VmEvent Unit := .fastPath false ⟨7, 0, 0⟩ plainKlass 1 none

def shippedFlags : BuildFlags := ⟨false, true⟩

theorem doit_resets_oneObject : ∃ vm vm', run (Vm.step ratArith shippedFlags) (Vm.start 1 true [()] 15)
        [.register 1, allocateYoung, .copy () youngObject] = some vm ∧
      vm.doit ratArith shippedFlags = some vm' ∧ vm'.tables.Reset [()] := by
  obtain ⟨vm, hrun, hends⟩ : ∃ vm, run (Vm.step ratArith shippedFlags) (Vm.start 1 true [()] 15)
      [.register 1, allocateYoung, .copy () youngObject] = some vm ∧
        vm.tables.countOperation.windowEnds = true := ⟨_, rfl, rfl⟩
  obtain ⟨vm', hdoit, hreset⟩ := doit_resets (by decide) hrun hends
  exact ⟨vm, vm', hrun, hdoit, hreset⟩

end Example

end Rolp.Profiler
