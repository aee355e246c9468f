import Rolp.Profiler.Lemmas.Totals
import Rolp.Lib.Pool

/-!
# Attribution of survivors and the state of the mark word

An object is tagged when it is allocated.
-/

namespace Rolp.Profiler

open Rolp.Lib Rolp.Mark BitVec MethodBciHashtable PromotionCounter

/-- The address of a lock record or a monitor: aligned, and in the lower 48 bits. -/
abbrev LockAddr := {p : BitVec 64 // p &&& 7 = 0 ∧ p < 0x1000000000000}

inductive MarkState where
  | neutral
  | hashed (h : BitVec 64)
  | stackLocked (p : LockAddr)
  | inflated (p : LockAddr)

namespace MarkState

def mark (hdr : MarkOop) : MarkState → MarkOop
  | .neutral => hdr
  | .hashed h => copySetHash hdr h
  | .stackLocked p => encodeLock p
  | .inflated p => encodeMonitor p

def displace (hdr : MarkOop) (mem : BitVec 64 → MarkOop) : MarkState → BitVec 64 → MarkOop
  | .neutral => mem
  | .hashed _ => mem
  | .stackLocked p => Function.update mem p hdr
  | .inflated p => Function.update mem p hdr

def copy (st : MarkState) (hdr : MarkOop) (mem : BitVec 64 → MarkOop) (trackObjectAge : Bool) : SurvivorCopy :=
  ⟨st.mark hdr, st.displace hdr mem, trackObjectAge, .copied⟩

/-- The mark word still gives the key: it is not displaced, and the hash, if there is one and the context matters,
agrees with the context where both are. -/
def KeepsKey (st : MarkState) (arr : NGenerationArray) (context : BitVec 16) : Prop :=
  match st with
  | .neutral => True
  | .hashed h => arr.expandedContexts = true → ∀ i < 7, h.getLsbD (24 + i) = context.getLsbD i
  | .stackLocked _ => False
  | .inflated _ => False

end MarkState

open MarkState

def survivorKey (arr : NGenerationArray) (site context : BitVec 16) : BitVec 32 :=
  if arr.expandedContexts then site ++ context else site ++ 0#16

def UpdatedOnly (t t' : PromotionCounters) (key age : BitVec 32) : Prop :=
  ∀ k, t'.getCounter k = if k = key then some (((t.getCounter key).getD (.new key)).update age) else t.getCounter k

lemma UpdatedOnly.key_unique {t t' : PromotionCounters} {key key' age age' : BitVec 32}
    (h : UpdatedOnly t t' key age) (h' : UpdatedOnly t t' key' age') : key' = key := by
  by_contra hne
  have hk := (h key').symm.trans (h' key')
  rw [if_neg hne, if_pos rfl] at hk
  -- An update changes the counter, so it cannot be the one from before.
  rw [hk] at hk
  have harr := congrArg (fun pc : PromotionCounter => pc.array (ageIndex age')) (Option.some.inj hk)
  simp [update] at harr

lemma UpdatedOnly.ne {t : PromotionCounters} {key age : BitVec 32} : ¬ UpdatedOnly t t key age := by
  intro h
  have hk := h key
  rw [if_pos rfl] at hk
  rw [hk] at hk
  have harr := congrArg (fun pc : PromotionCounter => pc.array (ageIndex age)) (Option.some.inj hk)
  simp [update] at harr

/-! ## Tags and keys -/

lemma allocSiteId_append (s c : BitVec 16) : allocSiteId (s ++ c) = s.setWidth 32 := by
  apply eq_of_getLsbD_eq
  intro i hi
  rw [allocSiteId, getLsbD_ushiftRight, getLsbD_append]
  simp [hi]

lemma counterKey_append (arr : NGenerationArray) (s c : BitVec 16) : counterKey arr (s ++ c) = survivorKey arr s c := by
  unfold counterKey survivorKey
  split
  · rfl
  · rw [allocSiteId_append]
    apply eq_of_getLsbD_eq
    intro i hi
    rw [getLsbD_shiftLeft, getLsbD_append]
    by_cases h16 : i < 16
    · simp [h16]
    · simp [h16, hi, show i - 16 < 32 by omega]

lemma allocSiteId_of_pointer {m : MarkOop} (h : m.toNat < 2 ^ 48) : allocSiteId (ng2cProf m) = 0 := by
  apply eq_of_getLsbD_eq
  intro i hi
  rw [allocSiteId, getLsbD_ushiftRight]
  by_cases h16 : 16 + i < 32
  · rw [getLsbD_ng2cProf m h16, ← testBit_toNat,
      Nat.testBit_lt_two_pow (lt_of_lt_of_le h (Nat.pow_le_pow_right (by decide) (by omega)))]
    simp
  · rw [getLsbD_of_ge _ _ (by omega)]
    simp

lemma encodeMonitor_toNat_lt {p : BitVec 64} (h : p.toNat < 2 ^ 48) : (encodeMonitor p).toNat < 2 ^ 48 := by
  exact Nat.or_lt_two_pow h (by decide)

/-! ## Copies of a tagged object -/

def headerAge (hdr : MarkOop) : BitVec 32 := if age hdr = maxAge then age hdr else age hdr + 1

section Tagged

variable {sites : MethodBciHashtable} {arr : NGenerationArray} {s c : BitVec 16} {hdr : MarkOop}
  {mem : BitVec 64 → MarkOop} {track : Bool}

lemma updatedOnly_of_site {copy : SurvivorCopy} (hatt : copy.attempt = .copied)
    (harr : sites.getEntry (allocSiteId (ng2cProf copy.mark)) = some arr) (t : PromotionCounters) :
    UpdatedOnly t (copyToSurvivorSpace true sites t copy).counters (counterKey arr (ng2cProf copy.mark))
      copy.updateAge := by
  intro k
  rw [counters_copyToSurvivorSpace_some hatt harr, PromotionCounters.getCounter_write]

lemma updateAge_of_not_displaced (st : MarkState) (h : hasDisplacedMarkHelper (st.mark hdr) = false)
    (hage : age (st.mark hdr) = age hdr) : (st.copy hdr mem track).updateAge = headerAge hdr := by
  have hcopy : (st.copy hdr mem track).age = age hdr := by simp [SurvivorCopy.age, copy, h, hage]
  rw [SurvivorCopy.updateAge, headerAge, hcopy]

lemma counters_of_pointer {st : MarkState} (h : (st.mark hdr).toNat < 2 ^ 48) (t : PromotionCounters) :
    (copyToSurvivorSpace true sites t (st.copy hdr mem track)).counters = t := by
  apply counters_copyToSurvivorSpace_none
  intro _
  rw [show allocSiteId (ng2cProf (st.copy hdr mem track).mark) = 0 from allocSiteId_of_pointer h]
  exact getEntry_zero sites

lemma counterKey_copySetHash_eq_iff (htag : ng2cProf hdr = s ++ c) (h : BitVec 64) :
    counterKey arr (ng2cProf (copySetHash hdr h)) = survivorKey arr s c ↔ (hashed h).KeepsKey arr c := by
  have hsite : allocSiteId (ng2cProf (copySetHash hdr h)) = allocSiteId (s ++ c) := by
    rw [allocSiteId, ng2cProf_copySetHash_ushiftRight, htag, allocSiteId]
  have hlow : ∀ i < 7, (s ++ c).getLsbD i = c.getLsbD i := by
    intro i hi
    rw [getLsbD_append, if_pos (by omega)]
  rw [← counterKey_append, MarkState.KeepsKey]
  by_cases hexp : arr.expandedContexts = true
  · simp only [counterKey, hexp, if_true, ← htag, ng2cProf_copySetHash_eq_iff, forall_true_left]
    rw [htag]
    exact forall₂_congr fun i hi => by rw [hlow i hi]
  · simp [counterKey, hexp, hsite]

/-- A copy updates the one counter of the object's site and context exactly when the mark word keeps the key. -/
theorem updatedOnly_survivorKey_iff (hneutral : isNeutral hdr = true) (htag : ng2cProf hdr = s ++ c)
    (harr : sites.getEntry (s.setWidth 32) = some arr) (st : MarkState) (t : PromotionCounters) :
    UpdatedOnly t (copyToSurvivorSpace true sites t (st.copy hdr mem track)).counters (survivorKey arr s c)
      (headerAge hdr) ↔ st.KeepsKey arr c := by
  have hdisp := hasDisplacedMarkHelper_of_isNeutral hneutral
  cases st with
  | neutral =>
    have hsite :
        sites.getEntry (allocSiteId (ng2cProf (neutral.copy hdr mem track).mark)) = some arr := by
      rw [show ng2cProf (neutral.copy hdr mem track).mark = s ++ c from htag, allocSiteId_append, harr]
    have hupd := updatedOnly_of_site rfl hsite t
    rw [updateAge_of_not_displaced .neutral hdisp rfl,
      show ng2cProf (neutral.copy hdr mem track).mark = s ++ c from htag, counterKey_append] at hupd
    exact iff_of_true hupd trivial
  | hashed h =>
    have hmark : ((hashed h).copy hdr mem track).mark = copySetHash hdr h := rfl
    have hsite : sites.getEntry (allocSiteId (ng2cProf ((hashed h).copy hdr mem track).mark)) =
        some arr := by
      rw [hmark, allocSiteId, ng2cProf_copySetHash_ushiftRight, htag, ← allocSiteId, allocSiteId_append, harr]
    have hlock : lockAndBias (copySetHash hdr h) = lockAndBias hdr := by rw [copySetHash_eq_write, lockAndBias_write]
    have hupd := updatedOnly_of_site rfl hsite t
    rw [updateAge_of_not_displaced (.hashed h) ((hasDisplacedMarkHelper_of_lockAndBias hlock).trans hdisp)
      (age_copySetHash hdr h), hmark] at hupd
    rw [← counterKey_copySetHash_eq_iff htag h]
    constructor
    · intro hkey
      exact hkey.key_unique hupd
    · intro hkey
      rwa [hkey] at hupd
  | stackLocked p =>
    have hlt : ((stackLocked p).mark hdr).toNat < 2 ^ 48 := p.2.2
    rw [counters_of_pointer hlt]
    exact iff_of_false UpdatedOnly.ne id
  | inflated p =>
    have hlt : ((inflated p).mark hdr).toNat < 2 ^ 48 := encodeMonitor_toNat_lt p.2.2
    rw [counters_of_pointer hlt]
    exact iff_of_false UpdatedOnly.ne id

end Tagged

theorem updatedOnly_survivorKey_neutral : UpdatedOnly (.new 1 (by decide))
      (copyToSurvivorSpace true ((ChainTable.empty 1 (by decide)).addEntry 1 .new rfl) (.new 1 (by decide))
        (neutral.copy 0x0001000300000001 (fun _ => 0) true)).counters
      (survivorKey .new 1 3) (headerAge 0x0001000300000001) :=
  (updatedOnly_survivorKey_iff (by decide) (by decide) (show _ = some NGenerationArray.new from rfl) .neutral
    (.new 1 (by decide))).2 trivial

/-- The copy of the same object while it is stack-locked updates no counter. -/
theorem not_updatedOnly_stackLocked : ¬ UpdatedOnly (.new 1 (by decide))
      (copyToSurvivorSpace true ((ChainTable.empty 1 (by decide)).addEntry 1 .new rfl) (.new 1 (by decide))
        ((stackLocked ⟨0x7f0000001000, by decide⟩).copy 0x0001000300000001 (fun _ => 0) true)).counters
      (survivorKey .new 1 3) (headerAge 0x0001000300000001) := by
  exact UpdatedOnly.ne

open Function List

variable {W : Type} [DecidableEq W]

/-! ## Totals over all tables -/

def Tables.total [Fintype W] (p : Tables W) (s : BitVec 16) (a : Fin ng2cGenArraySize) : BitVec 64 :=
  p.global.siteTotal s a + ∑ w, (p.worker w).siteTotal s a

structure Tables.Zeroed (p : Tables W) : Prop where
  global : ∀ k pc, p.global.getCounter k = some pc → ∀ a, pc.array a = 0
  worker : ∀ w k pc, (p.worker w).getCounter k = some pc → ∀ a, pc.array a = 0

def Tables.WorkersRegistered (p : Tables W) : Prop :=
  ∀ w k pc, (p.worker w).getCounter k = some pc → (p.sites.getEntry (allocSiteId k)).isSome

/-- A survivor without an array for its site, such as a locked one, is not counted. -/
def Event.countsFor (sites : MethodBciHashtable) (s : BitVec 16) (a : Fin ng2cGenArraySize) : Event W → Bool
  | .copy _ c => (sites.getEntry (s.setWidth 32)).isSome ∧ c.countsFor s a
  | .merge _ => false
  | .expand _ => false

def Event.Registered (sites : MethodBciHashtable) : Event W → Prop
  | .copy _ _ => True
  | .merge _ => True
  | .expand site => (sites.getEntry site).isSome

/-! ## One event -/

structure Tables.Running (sites : MethodBciHashtable) (p : Tables W) : Prop where
  profiling : p.profiling = true
  sites_eq : ∀ hash, (p.sites.getEntry hash).isSome = (sites.getEntry hash).isSome
  workersRegistered : p.WorkersRegistered

lemma getCounter_copyToSurvivorSpace {sites : MethodBciHashtable} {t : PromotionCounters} {c : SurvivorCopy}
    {k : BitVec 32} {pc : PromotionCounter} (h : (copyToSurvivorSpace true sites t c).counters.getCounter k = some pc) :
    (∃ pc', t.getCounter k = some pc') ∨ (sites.getEntry (allocSiteId k)).isSome := by
  by_cases hreg : c.attempt = .copied ∧ (sites.getEntry (allocSiteId (ng2cProf c.mark))).isSome
  · obtain ⟨hatt, hsome⟩ := hreg
    obtain ⟨arr, harr⟩ := Option.isSome_iff_exists.1 hsome
    rw [counters_copyToSurvivorSpace_some hatt harr, PromotionCounters.getCounter_write] at h
    split at h
    next hk =>
      refine .inr ?_
      rwa [hk, allocSiteId_counterKey]
    · exact .inl ⟨pc, h⟩
  · rw [counters_copyToSurvivorSpace_none fun hatt => by simpa [hatt] using hreg] at h
    exact .inl ⟨pc, h⟩

section Step

variable [Fintype W] {sites : MethodBciHashtable} {p : Tables W}

section

variable (hp : p.Running sites)

include hp

lemma step_copy (w : W) (c : SurvivorCopy) : ∃ p', p.step (.copy w c) = some p' ∧ p'.Running sites ∧
      ∀ s a, p'.total s a =
        p.total s a + if (sites.getEntry (s.setWidth 32)).isSome ∧ c.countsFor s a then 1 else 0 := by
  refine ⟨_, rfl, ⟨hp.profiling, hp.sites_eq, ?_⟩, ?_⟩
  · intro v k pc hk
    by_cases hv : v = w
    · subst hv
      simp only [update_self, hp.profiling] at hk
      obtain ⟨pc', hpc'⟩ | hs := getCounter_copyToSurvivorSpace hk
      · exact hp.workersRegistered v k pc' hpc'
      · exact hs
    · simp only [update_of_ne hv] at hk
      exact hp.workersRegistered v k pc hk
  · intro s a
    simp only [Tables.total, hp.profiling]
    rw [← hp.sites_eq, sum_update_add p.worker w _ (·.siteTotal s a)
      (siteTotal_copyToSurvivorSpace c (p.worker w) s a), add_assoc]

lemma step_merge (w : W) :
    ∃ p', p.step (.merge w) = some p' ∧ p'.Running sites ∧ ∀ s, ∀ a ≠ 0, p'.total s a = p.total s a := by
  obtain ⟨thread', global', hmerge, htotal, hclear⟩ := updatePromotions_total (hp.workersRegistered w) p.global
  refine ⟨{ p with global := global', worker := update p.worker w thread' }, ?_, ⟨hp.profiling, hp.sites_eq, ?_⟩, ?_⟩
  · simp only [Tables.step, hmerge]
    rfl
  · intro v k pc hk
    by_cases hv : v = w
    · subst hv
      simp only [update_self, hclear] at hk
      obtain ⟨pc', hpc', -⟩ := Option.map_eq_some_iff.1 hk
      exact hp.workersRegistered v k pc' hpc'
    · simp only [update_of_ne hv] at hk
      exact hp.workersRegistered v k pc hk
  · intro s a ha
    -- What the global table gains is what the table of `w` loses.
    have hworker : ∑ v, (p.worker v).siteTotal s a =
        ∑ v, (update p.worker w thread' v).siteTotal s a + (p.worker w).siteTotal s a := by
      have h := sum_update_add (update p.worker w thread') w (p.worker w) (·.siteTotal s a)
        (by
          rw [update_self, siteTotal_of_cleared hclear, zero_add])
      rwa [update_idem, update_eq_self] at h
    simp only [Tables.total]
    rw [htotal s a ha, hworker, add_assoc, add_comm ((p.worker w).siteTotal s a)]

lemma step_expand {site : BitVec 32} (hsite : (sites.getEntry site).isSome) :
    ∃ p', p.step (.expand site) = some p' ∧ p'.Running sites ∧ ∀ s a, p'.total s a = p.total s a := by
  obtain ⟨arr, harr⟩ := Option.isSome_iff_exists.1 ((hp.sites_eq site).trans hsite)
  refine ⟨{ p with sites := p.sites.prepareContexts site }, ?_, ⟨hp.profiling, ?_, ?_⟩, fun _ _ => rfl⟩
  · simp only [Tables.step, harr]
    rfl
  · intro hash
    rw [prepareContexts, isSome_getEntry_modify]
    exact hp.sites_eq hash
  · intro v k pc hk
    rw [prepareContexts, isSome_getEntry_modify]
    exact hp.workersRegistered v k pc hk

lemma step_total {e : Event W} (he : e.Registered sites) : ∃ p', p.step e = some p' ∧ p'.Running sites ∧
      ∀ s, ∀ a ≠ 0, p'.total s a = p.total s a + if e.countsFor sites s a then 1 else 0 := by
  cases e with
  | copy w c =>
    obtain ⟨p', h, hp', ht⟩ := step_copy hp w c
    exact ⟨p', h, hp', fun s a _ => by simp [Event.countsFor, ht s a]⟩
  | merge w =>
    obtain ⟨p', h, hp', ht⟩ := step_merge hp w
    exact ⟨p', h, hp', fun s a ha => by simp [Event.countsFor, ht s a ha]⟩
  | expand site =>
    obtain ⟨p', h, hp', ht⟩ := step_expand hp he
    exact ⟨p', h, hp', fun s a _ => by simp [Event.countsFor, ht s a]⟩

end

end Step

/-! ## Runs -/

lemma sum_indicator {E : Type} (q : E → Bool) (es : List E) :
    (es.map fun e => if q e then (1 : BitVec 64) else 0).sum = BitVec.ofNat 64 (es.countP q) := by
  induction es with
  | nil => rfl
  | cons e es ih =>
    rw [map_cons, sum_cons, ih, countP_cons]
    cases q e with
    | true => simp [ofNat_add, add_comm]
    | false => simp

/-- From zeroed tables, any interleaving of copies, merges and expansions is defined and ends with totals that are
the numbers of copied survivors of the sites with an array, modulo the size of a counter. -/
theorem total_eq_number_of_copies [Fintype W] {p : Tables W} (hprof : p.profiling = true) (hzero : p.Zeroed)
    (hworkers : p.WorkersRegistered) (es : List (Event W)) (hes : ∀ e ∈ es, e.Registered p.sites) :
    ∃ p', run Tables.step p es = some p' ∧
      ∀ s, ∀ a ≠ 0, p'.total s a = BitVec.ofNat 64 (es.countP (Event.countsFor p.sites s a)) := by
  have hstart : ∀ s a, p.total s a = 0 := by
    intro s a
    have hg : p.global.siteTotal s a = 0 := ChainTable.sumOver_eq_zero (fun k pc hk => hzero.global k pc hk a) _
    have hw : ∀ w, (p.worker w).siteTotal s a = 0 := fun w =>
      ChainTable.sumOver_eq_zero (fun k pc hk => hzero.worker w k pc hk a) _
    simp [Tables.total, hg, hw]
  have hrun : ∀ s, ∀ a ≠ 0, ∃ p', run Tables.step p es = some p' ∧ p'.Running p.sites ∧
      p'.total s a = p.total s a + (es.map fun e => if e.countsFor p.sites s a then 1 else 0).sum := by
    intro s a ha
    refine run_ledger (Tables.Running p.sites) (Event.Registered p.sites) (Tables.total · s a) _ ?_
      ⟨hprof, fun _ => rfl, hworkers⟩ hes
    intro q e hq he
    obtain ⟨q', h, hq', ht⟩ := step_total hq he
    exact ⟨q', h, hq', ht s a ha⟩
  obtain ⟨p', hp', -, -⟩ := hrun 0 1 (by decide)
  refine ⟨p', hp', ?_⟩
  intro s a ha
  obtain ⟨p'', hp'', -, ht⟩ := hrun s a ha
  cases hp'.symm.trans hp''
  rw [ht, hstart, zero_add, sum_indicator]

omit [DecidableEq W] in
lemma start_zeroed (sites : MethodBciHashtable) : (Tables.start sites : Tables W).Zeroed where
  global := by
    intro k pc h
    cases h
  worker := by
    intro w k pc h
    cases h

theorem total_eq_number_of_copies_twoWorkers :
    let p : Tables Bool := Tables.start ((ChainTable.empty 65536 (by decide)).addEntry 1 .new rfl)
    let c : SurvivorCopy := ⟨0x0001000300000001, fun _ => 0, true, .copied⟩
    ∃ p', run Tables.step p [.copy true c, .expand 1, .merge true, .copy false c] = some p' ∧ p'.total 1 1 = 2 := by
  intro p c
  have hes : ∀ e ∈ [Event.copy true c, .expand 1, .merge true, .copy false c], e.Registered p.sites := by
    simp only [forall_mem_cons]
    exact ⟨trivial, rfl, trivial, trivial, forall_mem_nil _⟩
  obtain ⟨p', hrun, htotal⟩ := total_eq_number_of_copies (p := p) (by simp only [p]; decide) (start_zeroed _)
    (fun w k pc h => by cases h) _ hes
  exact ⟨p', hrun, (htotal 1 1 (by decide)).trans (by decide)⟩

end Rolp.Profiler
