import Rolp.Profiler.Tables
import Mathlib.Algebra.BigOperators.Fin

/-!
# What the table operations do to a lookup

Every operation of the profiler changes the counter of at most one key.
-/

namespace Rolp.Profiler

open Rolp.Lib Rolp.Mark PromotionCounter

/-! ## Sites -/

namespace MethodBciHashtable

variable (t : MethodBciHashtable)

lemma getEntry_zero : t.getEntry 0 = none := by simp [getEntry]

lemma getEntry_of_ne {t : MethodBciHashtable} {hash : BitVec 32} (h : hash ≠ 0) :
    t.getEntry hash = t.find? hash := if_neg h

variable (hash hash' : BitVec 32)

lemma getEntry_addEntry (hne : hash ≠ 0) : (t.addEntry hash hne).getEntry hash' =
      if hash' = hash then some ((t.getEntry hash).getD .new) else t.getEntry hash' := by
  unfold addEntry
  split
  next arr h =>
    by_cases he : hash' = hash
    · simp [he, h]
    · simp [he]
  next h =>
    by_cases h0 : hash' = 0
    · rw [h0, getEntry_zero, getEntry_zero, if_neg (Ne.symm hne)]
    · rw [getEntry_of_ne h0, getEntry_of_ne h0, ChainTable.find?_addEntry, h]
      rfl

lemma getEntry_modify (f) : getEntry (t.modify hash f) hash' =
      if hash' = hash then (t.getEntry hash').map f else t.getEntry hash' := by
  by_cases h0 : hash' = 0
  · subst h0
    rw [getEntry_zero, getEntry_zero]
    simp
  · rw [getEntry_of_ne h0, getEntry_of_ne h0, ChainTable.find?_modify]

lemma isSome_getEntry_modify (f) : (getEntry (t.modify hash f) hash').isSome = (t.getEntry hash').isSome := by
  rw [getEntry_modify]
  split <;> simp

lemma isSome_getEntry_addEntry (hne : hash ≠ 0) :
    ((t.addEntry hash hne).getEntry hash').isSome = (decide (hash' = hash) || (t.getEntry hash').isSome) := by
  rw [getEntry_addEntry]
  split <;> simp [*]

end MethodBciHashtable

/-! ## Counters -/

namespace PromotionCounters

variable (t : PromotionCounters)

variable (hash hash' : BitVec 32)

lemma getCounter_getCounterNotNull : (t.getCounterNotNull hash).getCounter hash' =
      if hash' = hash then some ((t.getCounter hash).getD (.new hash)) else t.getCounter hash' := by
  unfold getCounterNotNull
  split
  next pc h =>
    by_cases he : hash' = hash
    · simp [he, h]
    · simp [he]
  next h =>
    refine (ChainTable.find?_addEntry t.counters hash hash' (.new hash) h).trans ?_
    simp [h]

lemma getCounter_modify (f) (hf : ∀ pc, (f pc).hash = pc.hash) : (t.modify hash f hf).getCounter hash' =
      if hash' = hash then (t.getCounter hash').map f else t.getCounter hash' :=
  ChainTable.find?_modify t.counters hash hash' f

lemma getCounter_write (f)
    (hf : ∀ pc, (f pc).hash = pc.hash) : ((t.getCounterNotNull hash).modify hash f hf).getCounter hash' =
      if hash' = hash then some (f ((t.getCounter hash).getD (.new hash))) else t.getCounter hash' := by
  rw [getCounter_modify, getCounter_getCounterNotNull]
  by_cases he : hash' = hash <;> simp [he]

lemma hash_of_mem_entries {e} (he : e ∈ t.counters.entries) : e.literal.hash = e.key :=
  t.hash_eq _ _ ((t.counters.mem_entries_iff e.key e.literal).1 he)

end PromotionCounters

/-! ## One counter -/

namespace PromotionCounter

lemma foldl_update_succ {n} (s : Fin (n + 1) → BitVec 64) (is : List (Fin n)) (hn : is.Nodup)
    (g : Fin (n + 1) → BitVec 64) (j : Fin (n + 1)) :
    (is.foldl (fun garr i => Function.update garr i.succ (garr i.succ + s i.succ)) g) j =
      if j ∈ is.map Fin.succ then g j + s j else g j := by
  induction is generalizing g with
  | nil => simp
  | cons i is ih =>
    rw [List.nodup_cons] at hn
    rw [List.foldl_cons, ih hn.2]
    by_cases hj : j = i.succ
    · subst hj
      have hni : i.succ ∉ is.map Fin.succ := by
        intro hm
        obtain ⟨i', hi', he⟩ := List.mem_map.1 hm
        exact hn.1 (Fin.succ_injective _ he ▸ hi')
      simp [hni]
    · simp [hj]

lemma addFromOne_apply {n} (garr sarr : Fin (n + 1) → BitVec 64) (a : Fin (n + 1)) :
    addFromOne garr sarr a = if a = 0 then garr a else garr a + sarr a := by
  rw [addFromOne, foldl_update_succ sarr _ (List.nodup_finRange n)]
  cases a using Fin.cases with
  | zero => simp
  | succ i => simp [Fin.succ_ne_zero]

lemma array_addSurvivors (global survivors : PromotionCounter) (a : Fin ng2cGenArraySize) :
    (global.addSurvivors survivors).array a = if a = 0 then global.array a else global.array a + survivors.array a :=
  addFromOne_apply (n := ng2cGenArraySize - 1) global.array survivors.array a

end PromotionCounter

/-! ## Copies -/

@[simp] lemma SurvivorCopy.ng2cProf_agedMark (c : SurvivorCopy) : ng2cProf c.agedMark = ng2cProf c.mark := by
  unfold agedMark
  split
  · split
    · rfl
    · exact ng2cProf_incrAge c.mark
  · rfl

lemma SurvivorCopy.age_toNat_lt (c : SurvivorCopy) : c.age.toNat < 16 := by
  unfold age
  split
  · exact Mark.age_toNat_lt _
  · exact Mark.age_toNat_lt _

section Copy

variable {sites : MethodBciHashtable} {c : SurvivorCopy}

lemma counters_copyToSurvivorSpace_none {profiling}
    (h : c.attempt = .copied → sites.getEntry (allocSiteId (ng2cProf c.mark)) = none) (t : PromotionCounters) :
    (copyToSurvivorSpace profiling sites t c).counters = t := by
  unfold copyToSurvivorSpace
  cases hatt : c.attempt with
  | evacuationFailed => rfl
  | forwardedByOther => rfl
  | copied =>
    simp only [profileSurvivor, SurvivorCopy.ng2cProf_agedMark, h hatt]
    exact ite_self t

lemma counters_copyToSurvivorSpace_some {arr} (hatt : c.attempt = .copied)
    (harr : sites.getEntry (allocSiteId (ng2cProf c.mark)) = some arr) (t : PromotionCounters) :
    (copyToSurvivorSpace true sites t c).counters =
      (t.getCounterNotNull (counterKey arr (ng2cProf c.mark))).modify (counterKey arr (ng2cProf c.mark))
        (·.update c.updateAge) fun pc => pc.hash_update c.updateAge := by
  have htag : ng2cProf c.mark ≠ 0#32 := by
    intro h
    rw [h, show allocSiteId 0#32 = 0 from rfl] at harr
    cases harr
  simp [copyToSurvivorSpace, hatt, profileSurvivor, htag, harr]

end Copy

lemma allocSiteId_counterKey (ngen) (hash : BitVec 32) : allocSiteId (counterKey ngen hash) = allocSiteId hash := by
  unfold counterKey
  split
  · rfl
  · apply BitVec.eq_of_toNat_eq
    simp only [allocSiteId, BitVec.toNat_ushiftRight, BitVec.toNat_shiftLeft]
    omega

/-! ## Survivor totals of a site -/

open Option BitVec

def siteKeys (s : BitVec 16) : Finset (BitVec 32) :=
  Finset.univ.image fun c : Fin ng2cMaxAllocSite => s ++ BitVec.ofFin (w := 16) c

def PromotionCounters.siteTotal (t : PromotionCounters) (s : BitVec 16) (a : Fin ng2cGenArraySize) : BitVec 64 :=
  t.counters.sumOver (siteKeys s) (·.array a)

lemma mem_siteKeys {s k} : k ∈ siteKeys s ↔ allocSiteId k = s.setWidth 32 := by
  simp only [siteKeys, Finset.mem_image, Finset.mem_univ, true_and]
  constructor
  · rintro ⟨c, rfl⟩
    apply eq_of_getLsbD_eq
    intro i _
    simp only [allocSiteId, getLsbD_ushiftRight, getLsbD_append]
    by_cases hi : i < 16
    · simp [show i < 32 by omega]
    · simp [getLsbD_of_ge s i (by omega)]
  · intro h
    refine ⟨(k.setWidth 16).toFin, ?_⟩
    apply eq_of_getLsbD_eq
    intro i hi
    rw [getLsbD_append]
    by_cases hlow : i < 16
    · rw [ofFin_toFin]
      simp [hlow]
    have hbit := congrArg (·.getLsbD (i - 16)) h
    simp only [allocSiteId, getLsbD_ushiftRight] at hbit
    rw [← Nat.add_sub_of_le (Nat.not_lt.1 hlow), hbit]
    simp [show i - 16 < 32 by omega]

lemma counterKey_mem_siteKeys {ngen hash s} : counterKey ngen hash ∈ siteKeys s ↔ hash ∈ siteKeys s := by
  rw [mem_siteKeys, mem_siteKeys, allocSiteId_counterKey]

namespace PromotionCounters

lemma siteTotal_write (t : PromotionCounters) (k : BitVec 32) (f : PromotionCounter → PromotionCounter)
    (hf : ∀ pc, (f pc).hash = pc.hash) {a d} (hd : ∀ pc, (f pc).array a = pc.array a + d) (s : BitVec 16) :
    ((t.getCounterNotNull k).modify k f hf).siteTotal s a = t.siteTotal s a + if k ∈ siteKeys s then d else 0 := by
  refine ChainTable.sumOver_of_find?_eq (fun k' => t.getCounter_write k k' f hf) ?_ (siteKeys s)
  rw [hd]
  cases h : t.counters.find? k with
  | none => simp [h, PromotionCounter.new]
  | some pc => simp [h]

end PromotionCounters

/-! ## Copies -/

variable (c : SurvivorCopy)

def SurvivorCopy.clampedAge : Fin ng2cGenArraySize :=
  ⟨min (c.age.toNat + 1) 15, Nat.lt_succ_of_le (Nat.min_le_right _ _)⟩

lemma ageIndex_updateAge : ageIndex c.updateAge = c.clampedAge := by
  have hlt := c.age_toNat_lt
  apply Fin.ext
  show (ageIndex c.updateAge).val = min (c.age.toNat + 1) 15
  unfold SurvivorCopy.updateAge
  by_cases hmax : c.age = maxAge
  · rw [hmax]
    rfl
  · have hne : c.age.toNat ≠ 15 := fun h => hmax (eq_of_toNat_eq h)
    have hval : (c.age + 1).toNat = c.age.toNat + 1 := by
      rw [toNat_add, show BitVec.toNat 1 = 1 from rfl]
      omega
    rw [if_neg hmax, ageIndex, dif_pos (show (c.age + 1).toNat < 16 by omega)]
    show (c.age + 1).toNat = min (c.age.toNat + 1) 15
    omega

def SurvivorCopy.countsFor (s : BitVec 16) (a : Fin ng2cGenArraySize) : Bool :=
  c.attempt = .copied ∧ ng2cProf c.mark ≠ 0 ∧ allocSiteId (ng2cProf c.mark) = s.setWidth 32 ∧ c.clampedAge = a

variable {sites : MethodBciHashtable}

lemma siteTotal_copyToSurvivorSpace (t : PromotionCounters) (s : BitVec 16) (a : Fin ng2cGenArraySize) :
    (copyToSurvivorSpace true sites t c).counters.siteTotal s a =
      t.siteTotal s a + if (sites.getEntry (s.setWidth 32)).isSome ∧ c.countsFor s a then 1 else 0 := by
  by_cases hcount : c.attempt = .copied ∧ (sites.getEntry (allocSiteId (ng2cProf c.mark))).isSome
  · obtain ⟨hatt, hsome⟩ := hcount
    have htag : ng2cProf c.mark ≠ 0#32 := by
      intro h
      rw [h, show sites.getEntry (allocSiteId 0#32) = none from MethodBciHashtable.getEntry_zero sites] at hsome
      cases hsome
    obtain ⟨arr, harr⟩ := isSome_iff_exists.1 hsome
    have hd : ∀ pc : PromotionCounter, (pc.update c.updateAge).array a =
        pc.array a + if c.clampedAge = a then 1 else 0 := by
      intro pc
      rw [update, ageIndex_updateAge]
      by_cases ha : c.clampedAge = a
      · subst ha
        simp
      · simp [ha, Ne.symm ha]
    have hmem : counterKey arr (ng2cProf c.mark) ∈ siteKeys s ↔
        allocSiteId (ng2cProf c.mark) = s.setWidth 32 := counterKey_mem_siteKeys.trans mem_siteKeys
    rw [counters_copyToSurvivorSpace_some hatt harr, PromotionCounters.siteTotal_write t _ _ _ hd]
    by_cases hs : allocSiteId (ng2cProf c.mark) = s.setWidth 32
    · rw [hs] at hsome
      simp [SurvivorCopy.countsFor, hatt, htag, hs, hmem, hsome]
    · simp [SurvivorCopy.countsFor, hs, hmem]
  · rw [counters_copyToSurvivorSpace_none fun hatt => by simpa [hatt] using hcount, if_neg, add_zero]
    rintro ⟨hsome, hc⟩
    simp only [SurvivorCopy.countsFor, decide_eq_true_eq] at hc
    exact hcount ⟨hc.1, hc.2.2.1 ▸ hsome⟩

/-! ## Merges -/

def Mergeable (sites : MethodBciHashtable) (e : Entry (BitVec 32) PromotionCounter) : Prop :=
  e.literal.hash = e.key ∧ (sites.getEntry (allocSiteId e.key)).isSome

lemma updatePromotion_total {e} (he : Mergeable sites e) (tg : PromotionCounters × PromotionCounters) :
    ∃ tg', updatePromotion sites tg e = some tg' ∧ ∀ s, ∀ a ≠ 0,
      tg'.2.siteTotal s a = tg.2.siteTotal s a + if e.key ∈ siteKeys s then e.literal.array a else 0 := by
  obtain ⟨hhash, hsome⟩ := he
  obtain ⟨ngen, hngen⟩ := isSome_iff_exists.1 hsome
  refine ⟨_, by simp only [updatePromotion, hhash, hngen]; rfl, ?_⟩
  intro s a ha
  have hd : ∀ pc : PromotionCounter, (pc.addSurvivors e.literal).array a = pc.array a + e.literal.array a := by
    intro pc
    rw [array_addSurvivors, if_neg ha]
  rw [PromotionCounters.siteTotal_write tg.2 _ _ _ hd]
  simp only [counterKey_mem_siteKeys]

lemma updatePromotion_fst {e} {tg tg'} (h : updatePromotion sites tg e = some tg') :
    tg'.1 = tg.1.modify e.key clear hash_clear := by
  obtain ⟨ngen, -, hpure⟩ := bind_eq_some_iff.1 h
  cases hpure
  rfl

lemma getCounter_run_updatePromotion {es} {tg tg'} (h : run (updatePromotion sites) tg es = some tg')
    (k) : tg'.1.getCounter k = if k ∈ es.map Entry.key then (tg.1.getCounter k).map clear else tg.1.getCounter k := by
  induction es generalizing tg with
  | nil =>
    cases h
    rfl
  | cons e es ih =>
    obtain ⟨tg1, h1, h2⟩ := run_cons_some h
    rw [ih h2, updatePromotion_fst h1, PromotionCounters.getCounter_modify]
    by_cases hk : k = e.key
    · by_cases hmem : k ∈ es.map Entry.key
      · simp only [hk ▸ hmem, hk, List.map_cons, List.mem_cons, if_true, map_map]
        rfl
      · simp [hk, hk ▸ hmem]
    · simp [hk]

lemma getCounter_updatePromotions_fst {thread global thread' global'}
    (h : updatePromotions sites thread global = some (thread', global')) (k) :
    thread'.getCounter k = (thread.getCounter k).map clear := by
  rw [getCounter_run_updatePromotion h k]
  cases hk : thread.getCounter k with
  | none => simp
  | some pc =>
    have hmem := List.mem_map_of_mem (f := Entry.key) ((thread.counters.mem_entries_iff k pc).2 hk)
    exact if_pos hmem

lemma updatePromotions_total {thread}
    (h : ∀ k pc, thread.getCounter k = some pc → (sites.getEntry (allocSiteId k)).isSome) (global) :
    ∃ thread' global', updatePromotions sites thread global = some (thread', global') ∧
      (∀ s, ∀ a ≠ 0, global'.siteTotal s a = global.siteTotal s a + thread.siteTotal s a) ∧
      ∀ k, thread'.getCounter k = (thread.getCounter k).map clear := by
  have hok : ∀ e ∈ thread.counters.entries, Mergeable sites e := fun e he =>
    ⟨thread.hash_of_mem_entries he, h _ _ ((thread.counters.mem_entries_iff e.key e.literal).1 he)⟩
  have hstep : ∀ s a, a ≠ 0 → ∃ tg', run (updatePromotion sites) (thread, global) thread.counters.entries = some tg' ∧
      True ∧ tg'.2.siteTotal s a = global.siteTotal s a + thread.siteTotal s a := by
    intro s a ha
    rw [show thread.siteTotal s a = _ from thread.counters.sumOver_eq_sum_entries (siteKeys s) (·.array a)]
    refine run_ledger (fun _ => True) (Mergeable sites)
      (fun tg : PromotionCounters × PromotionCounters => tg.2.siteTotal s a) _ ?_ trivial hok
    intro tg e _ he
    obtain ⟨tg', h1, h2⟩ := updatePromotion_total he tg
    exact ⟨tg', h1, trivial, h2 s a ha⟩
  obtain ⟨⟨thread', global'⟩, hrun, -, -⟩ := hstep 0 1 (by decide)
  refine ⟨thread', global', hrun, ?_, getCounter_updatePromotions_fst hrun⟩
  intro s a ha
  obtain ⟨tg', hrun', -, htotal⟩ := hstep s a ha
  cases hrun.symm.trans hrun'
  exact htotal

lemma siteTotal_of_cleared {t t' : PromotionCounters} (h : ∀ k, t'.getCounter k = (t.getCounter k).map clear) (s)
    (a) : t'.siteTotal s a = 0 := by
  apply ChainTable.sumOver_eq_zero
  intro k pc hk
  rw [show t'.counters.find? k = _ from h k] at hk
  obtain ⟨pc', -, rfl⟩ := map_eq_some_iff.1 hk
  rfl

end Rolp.Profiler
