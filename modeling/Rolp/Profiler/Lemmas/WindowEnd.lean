import Rolp.Profiler.VmOperation

/-!
# The end of a window

The merge of all threads, the decision pass and the clearing, each by what the next one needs.
-/

namespace Rolp.Profiler

open Rolp.Lib Rolp.Mark Rolp.Alloc Function List Option MethodBciHashtable PromotionCounter NGenerationArray

/-! ## The merge of a thread -/

variable {e : Entry (BitVec 32) PromotionCounter}

section Merge

variable {sites : MethodBciHashtable} {P : BitVec 32 → Prop}

lemma updatePromotion_counts {tg tg'} (h : updatePromotion sites tg e = some tg')
    (hhash : e.literal.hash = e.key) (hkey : Keyed sites e.key) (hP : ∀ a, e.literal.array a ≠ 0 → P e.key)
    (hg : tg.2.Counts sites P) : tg'.2.Counts sites P := by
  obtain ⟨ngen, hngen, hpure⟩ := bind_eq_some_iff.1 h
  obtain ⟨arr, harr, hk⟩ := hkey
  rw [hhash] at hngen
  cases hngen.symm.trans harr
  cases hpure
  simp only [hhash, hk]
  refine hg.write ⟨ngen, harr, hk⟩ _ fun pc a ha => ?_
  rw [array_addSurvivors] at ha
  split at ha
  · exact .inl ha
  · by_cases hold : pc.array a = 0
    · exact .inr (hP a (by simpa [hold] using ha))
    · exact .inl hold

lemma updatePromotion_fromOne {tg tg'}
    (h : updatePromotion sites tg e = some tg') (hg : tg.2.FromOne) : tg'.2.FromOne := by
  obtain ⟨ngen, -, hpure⟩ := bind_eq_some_iff.1 h
  cases hpure
  intro k pc hk
  rw [PromotionCounters.getCounter_write] at hk
  split at hk
  · cases hk
    cases hget : tg.2.getCounter (counterKey ngen e.literal.hash) with
    | none => rfl
    | some pc => exact hg _ pc hget
  · exact hg k pc hk

lemma updatePromotions_counts {thread global} (ht : thread.Counts sites P)
    (hg : global.Counts sites P) (hone : global.FromOne) :
    ∃ thread' global', updatePromotions sites thread global = some (thread', global') ∧
      global'.Counts sites P ∧ global'.FromOne := by
  obtain ⟨thread', global', hrun, -, -⟩ := updatePromotions_total (fun k pc hk => (ht k pc hk).1.isSome) global
  refine ⟨thread', global', hrun, ?_⟩
  refine run_invariant (fun tg : PromotionCounters × PromotionCounters => tg.2.Counts sites P ∧ tg.2.FromOne)
    (fun e => e ∈ thread.counters.entries) ?_ ⟨hg, hone⟩ (fun _ he => he) hrun
  rintro tg e tg' ⟨hc, hf⟩ he hstep
  have hget := ht e.key e.literal ((thread.counters.mem_entries_iff e.key e.literal).1 he)
  exact ⟨updatePromotion_counts hstep (thread.hash_of_mem_entries he) hget.1 hget.2 hc,
    updatePromotion_fromOne hstep hf⟩

end Merge

/-! ## The merge of all threads -/

section MergeThreads

variable {W : Type} [DecidableEq W] {sites : MethodBciHashtable} {P : BitVec 32 → Prop} {threads : List W}
  {p p' : Tables W}

structure Tables.Merging (sites : MethodBciHashtable) (P : BitVec 32 → Prop) (threads : List W) (p : Tables W) :
    Prop where
  sites_eq : p.sites = sites
  worker : ∀ w, (p.worker w).Counts sites fun k => w ∈ threads → P k
  global : p.global.Counts sites P
  fromOne : p.global.FromOne

variable {w : W}

lemma merge_some (h : p.step (.merge w) = some p') :
    ∃ thread global, updatePromotions p.sites (p.worker w) p.global = some (thread, global) ∧
      p' = { p with global := global, worker := update p.worker w thread } := by
  obtain ⟨⟨thread, global⟩, hrun, hpure⟩ := bind_eq_some_iff.1 h
  cases hpure
  exact ⟨thread, global, hrun, rfl⟩

lemma Tables.Merging.merge (h : p.Merging sites P threads) (hw : w ∈ threads) :
    ∃ p', p.step (.merge w) = some p' ∧ p'.Merging sites P threads := by
  have hthread : (p.worker w).Counts sites P := fun k pc hk =>
    ⟨(h.worker w k pc hk).1, fun a ha => (h.worker w k pc hk).2 a ha hw⟩
  obtain ⟨thread, global, hrun, hcounts, hone⟩ := updatePromotions_counts hthread h.global h.fromOne
  rw [← h.sites_eq] at hrun
  refine ⟨{ p with global := global, worker := update p.worker w thread },
    by simp only [Tables.step, hrun]; rfl, h.sites_eq, ?_, hcounts, hone⟩
  intro v
  by_cases hv : v = w
  · subst hv
    simp only [update_self]
    exact (h.worker v).cleared (getCounter_updatePromotions_fst hrun) _
  · simp only [update_of_ne hv]
    exact h.worker v

lemma cleared_merge (h : p.step (.merge w) = some p') : (p'.worker w).Cleared := by
  obtain ⟨thread, global, hrun, rfl⟩ := merge_some h
  intro k pc hk a
  simp only [update_self, getCounter_updatePromotions_fst hrun] at hk
  obtain ⟨pc', -, rfl⟩ := map_eq_some_iff.1 hk
  rfl

lemma PromotionCounters.Cleared.merge {v} (hw : (p.worker w).Cleared) (h : p.step (.merge v) = some p') :
    (p'.worker w).Cleared := by
  by_cases hv : v = w
  · exact cleared_merge (hv ▸ h)
  · obtain ⟨thread, global, -, rfl⟩ := merge_some h
    simpa only [update_of_ne (Ne.symm hv)] using hw

lemma Tables.Merging.mergeThreads (h : p.Merging sites P threads) :
    ∃ p', p.mergeThreads threads = some p' ∧ p'.Merging sites P threads ∧ ∀ w ∈ threads, (p'.worker w).Cleared := by
  obtain ⟨p', hrun, hp'⟩ := run_defined (fun p : Tables W => p.Merging sites P threads) (fun w => w ∈ threads)
    (fun _ _ hp hw => hp.merge hw) h fun _ hw => hw
  refine ⟨p', hrun, hp', fun w hw => ?_⟩
  exact run_establishes (fun _ => True) (fun p : Tables W => (p.worker w).Cleared) (fun v => v = w)
    (fun _ _ _ _ _ => trivial) (fun _ _ _ hc hs => hc.merge hs)
    (fun p v p' _ hv hs => cleared_merge (hv ▸ hs)) trivial ⟨w, hw, rfl⟩ hrun

lemma mergeThreads_frame (h : p.mergeThreads threads = some p') :
    p'.totalUpdateTargetGen = p.totalUpdateTargetGen ∧ p'.ng2cUpdateThreshold = p.ng2cUpdateThreshold ∧
      p'.sites = p.sites := by
  refine run_invariant (fun q : Tables W => q.totalUpdateTargetGen = p.totalUpdateTargetGen ∧
    q.ng2cUpdateThreshold = p.ng2cUpdateThreshold ∧ q.sites = p.sites) (fun _ => True) ?_ ⟨rfl, rfl, rfl⟩
    (fun _ _ => trivial) h
  intro q w q' hq _ hs
  obtain ⟨thread, global, -, rfl⟩ := merge_some hs
  exact hq

end MergeThreads

/-! ## The decision pass -/

section Decisions

variable {F : Type} (A : Arith F) (flags : BuildFlags) {pass : DecisionPass}

structure DecisionPass.Follows (pass pass' : DecisionPass) : Prop where
  blank : pass.sites.AllBlank → pass'.sites.AllBlank
  keyed : ∀ k, Keyed pass.sites k → Keyed pass'.sites k
  counters : ∀ k pc', pass'.global.getCounter k = some pc' → ∃ pc, pass.global.getCounter k = some pc

lemma DecisionPass.Follows.refl (pass : DecisionPass) : pass.Follows pass := ⟨id, fun _ => id, fun _ pc h => ⟨pc, h⟩⟩

lemma DecisionPass.Follows.trans {pass1 pass2 pass3 : DecisionPass} (h1 : pass1.Follows pass2)
    (h2 : pass2.Follows pass3) : pass1.Follows pass3 where
  blank := fun h => h2.blank (h1.blank h)
  keyed := fun k h => h2.keyed k (h1.keyed k h)
  counters := by
    intro k pc hk
    obtain ⟨pc2, hk2⟩ := h2.counters k pc hk
    exact h1.counters k pc2 hk2

variable {k : BitVec 32}

lemma allocsOf_applyDecision {sites k'} (hk : Keyed sites k)
    (hk' : Keyed sites k') (hne : k' ≠ k) (context curve) : allocsOf
      (sites.modify (allocSiteId k) (applyDecision A flags context curve)) k' = sites.allocsOf k' := by
  unfold allocsOf allocsAt
  rw [getEntry_modify]
  split
  next hsite =>
    obtain ⟨arr, harr, hkey'⟩ := hk'
    have hexp := Keyed.expanded_of_ne ⟨arr, harr, hkey'⟩ hk hsite hne harr
    rw [harr]
    exact numberAllocs_applyDecision A flags context curve hexp _
  · rfl

def curveOf (sites : MethodBciHashtable) (e : Entry (BitVec 32) PromotionCounter) : Curve :=
  (e.literal.addAllocs (sites.allocsOf e.key)).array

lemma curveOf_zero {sites pc} (h : pc.array 0 = 0) : curveOf sites ⟨k, pc⟩ 0 = sites.allocsOf k := by
  simp [curveOf, addAllocs, h]

lemma curveOf_of_ne {sites pc} {a} (ha : a ≠ 0) : curveOf sites ⟨k, pc⟩ a = pc.array a := by
  simp [curveOf, addAllocs, update_of_ne ha]

lemma updateTargetGenOf_spec (hhash : e.literal.hash = e.key) (hkey : Keyed pass.sites e.key) :
    ∃ pass', updateTargetGenOf A flags pass e = some pass' ∧ pass.Follows pass' ∧
      pass'.analyzed = pass.analyzed ++ [curveOf pass.sites e] ∧
      ∀ k, k ≠ e.key → Keyed pass.sites k → pass'.sites.allocsOf k = pass.sites.allocsOf k := by
  obtain ⟨arr, harr, hk⟩ := hkey
  have hallocs : pass.sites.allocsOf e.key = arr.numberAllocs (e.key.setWidth 16) := by simp [allocsOf, allocsAt, harr]
  refine ⟨_, by simp only [updateTargetGenOf, hhash, harr]; rfl, ⟨?_, ?_, ?_⟩, ?_, ?_⟩
  · intro hb
    exact hb.modify (keeps_applyDecision A flags _ _) _
  · intro k h
    exact h.modify (keeps_applyDecision A flags _ _) _
  · intro k pc h
    rw [PromotionCounters.getCounter_modify] at h
    split at h
    · obtain ⟨pc', hpc, -⟩ := map_eq_some_iff.1 h
      exact ⟨pc', hpc⟩
    · exact ⟨pc, h⟩
  · simp only [curveOf, hallocs]
  · intro k hne h
    exact allocsOf_applyDecision A flags ⟨arr, harr, hk⟩ h hne _ _

lemma run_updateTargetGenOf {es : List (Entry (BitVec 32) PromotionCounter)} (hn : (es.map Entry.key).Nodup)
    (hes : ∀ e ∈ es, e.literal.hash = e.key ∧ Keyed pass.sites e.key) :
    ∃ pass', run (updateTargetGenOf A flags) pass es = some pass' ∧ pass.Follows pass' ∧
      pass'.analyzed = pass.analyzed ++ es.map (curveOf pass.sites) := by
  induction es generalizing pass with
  | nil => exact ⟨pass, rfl, .refl pass, by simp⟩
  | cons e es ih =>
    rw [map_cons, nodup_cons] at hn
    obtain ⟨hhash, hkey⟩ := hes e (by simp)
    obtain ⟨pass1, h1, hf1, ha1, hsame⟩ := updateTargetGenOf_spec A flags hhash hkey
    have hes1 : ∀ e' ∈ es, e'.literal.hash = e'.key ∧ Keyed pass1.sites e'.key := fun e' he' =>
      ⟨(hes e' (by simp [he'])).1, hf1.keyed _ (hes e' (by simp [he'])).2⟩
    obtain ⟨pass', h', hf', ha'⟩ := ih hn.2 hes1
    refine ⟨pass', by simpa [h1] using h', hf1.trans hf', ?_⟩
    -- The allocations of the entries that follow are still those from before the pass.
    have hcurves : es.map (curveOf pass1.sites) = es.map (curveOf pass.sites) := by
      apply map_congr_left
      intro e' he'
      have hne : e'.key ≠ e.key := fun h => hn.1 (h ▸ mem_map_of_mem he')
      rw [curveOf, curveOf, hsame e'.key hne (hes e' (by simp [he'])).2]
    rw [ha', ha1, hcurves, append_assoc]
    rfl

lemma updateTargetGen_spec {sites global} (h : ∀ k pc, global.getCounter k = some pc → Keyed sites k) :
    ∃ pass, updateTargetGen A flags sites global = some pass ∧ DecisionPass.Follows ⟨sites, global, false, []⟩ pass ∧
      pass.analyzed = global.counters.entries.map (curveOf sites) := by
  refine run_updateTargetGenOf A flags global.counters.nodup_entries fun e he => ?_
  exact ⟨global.hash_of_mem_entries he, h _ _ ((global.counters.mem_entries_iff e.key e.literal).1 he)⟩

end Decisions

end Rolp.Profiler
