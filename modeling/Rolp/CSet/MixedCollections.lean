import Rolp.CSet.Lemmas.Filling

/-!
# The collection sets of migrations and of mixed collections

A migration stops at the first region whose efficiency is below the bandwidth, and the mixed collections of a cycle take
all candidates in the number that the policy allows.
-/

namespace Rolp.CSet

open Nat CollectionSetChooser

variable {E : Type} [LinearOrder E] {bandwidth : E} {c : CollectionSetChooser E} {rs : List (HeapRegion E)}

def isWorthMigrating (bandwidth : E) (hr : HeapRegion E) : Bool := bandwidth ≤ hr.gcEfficiency

lemma not_isWorthMigrating_of_le {hr hr'} (hle : hr'.gcEfficiency ≤ hr.gcEfficiency)
    (h : ¬isWorthMigrating bandwidth hr = true) : ¬isWorthMigrating bandwidth hr' = true := by
  simp only [isWorthMigrating, decide_eq_true_eq] at h ⊢
  exact fun hworth => h (hworth.trans hle)

lemma Descending.takeWhile_eq_filter (h : Descending rs) (bandwidth) :
    rs.takeWhile (isWorthMigrating bandwidth) = rs.filter (isWorthMigrating bandwidth) ∧
      rs.dropWhile (isWorthMigrating bandwidth) = rs.filter fun hr => !isWorthMigrating bandwidth hr := by
  induction rs with
  | nil => exact ⟨rfl, rfl⟩
  | cons hr rs ih =>
    obtain ⟨hhead, htail⟩ := List.pairwise_cons.1 h
    by_cases hworth : isWorthMigrating bandwidth hr = true
    · simp [hworth, ih htail]
    · have hrest : ∀ hr' ∈ rs, ¬isWorthMigrating bandwidth hr' = true := fun hr' hmem =>
        not_isWorthMigrating_of_le (hhead hr' hmem) hworth
      have hnil : rs.filter (isWorthMigrating bandwidth) = [] := List.filter_eq_nil_iff.2 hrest
      have hself : rs.filter (fun hr => !isWorthMigrating bandwidth hr) = rs :=
        List.filter_eq_self.2 fun hr' hmem => by simpa using hrest hr' hmem
      simp [hworth, hnil, hself]

lemma migrationLoop_spec (h : c.Holds rs) {turns} (hturns : rs.length ≤ turns) (cset) :
    ∃ c', migrationLoop bandwidth turns c cset = (c', (rs.takeWhile (isWorthMigrating bandwidth)).reverse ++ cset) ∧
      c'.Holds (rs.dropWhile (isWorthMigrating bandwidth)) := by
  induction rs generalizing c turns cset with
  | nil =>
    refine ⟨c, ?_, h⟩
    cases turns with
    | zero => rfl
    | succ turns => simp [migrationLoop, h.peek]
  | cons hr rs ih =>
    cases turns with
    | zero => cases hturns
    | succ turns =>
      rw [migrationLoop, h.peek]
      by_cases hworth : isWorthMigrating bandwidth hr = true
      · have hge : ¬hr.gcEfficiency < bandwidth := not_lt.2 (of_decide_eq_true hworth)
        obtain ⟨c', hloop, h'⟩ := ih h.removeAndMoveToNext (le_of_succ_le_succ hturns) (hr :: cset)
        refine ⟨c', ?_, by simpa [hworth] using h'⟩
        simp [hge, hloop, hworth]
      · have hlt : hr.gcEfficiency < bandwidth := not_le.1 (of_decide_eq_false (Bool.eq_false_of_not_eq_true hworth))
        exact ⟨c, by simp [hlt, hworth], by simpa [hworth] using h⟩

lemma CollectionSetChooser.Holds.remainingRegions_eq (h : c.Holds rs) : c.remainingRegions = rs.length := by
  rw [remainingRegions, h.length, Nat.add_sub_cancel_left]

lemma CollectionSetChooser.Holds.finalizeCsetForMigration (h : c.Holds rs) (bandwidth) (cset) :
    ∃ c', finalizeCsetForMigration bandwidth c cset =
        some (c', (rs.filter (isWorthMigrating bandwidth)).reverse ++ cset) ∧
      c'.Holds (rs.filter fun hr => !isWorthMigrating bandwidth hr) := by
  obtain ⟨c', hloop, h'⟩ := migrationLoop_spec h (le_of_eq h.remainingRegions_eq.symm) cset
  obtain ⟨htake, hdrop⟩ := h.ordered.takeWhile_eq_filter bandwidth
  rw [htake] at hloop
  rw [hdrop] at h'
  refine ⟨c', ?_, h'⟩
  rw [CSet.finalizeCsetForMigration, if_pos (verify_iff_holds.2 ⟨rs, h⟩), hloop]
  exact if_pos (verify_iff_holds.2 ⟨_, h'⟩)

/-- However the chooser was filled and sorted, a migration takes exactly the candidates whose efficiency is at least the
bandwidth, and the chooser keeps the others by descending efficiency. -/
theorem migration_takes_efficient_regions (c : CollectionSetChooser E) (f : Filling E) (hok : f.Ok c) :
    ∃ filled done, f.fill c = some (filled, done) ∧
      (done = true → ∀ sorted, filled.SortRegions sorted → ∀ bandwidth cset,
        ∃ (c' : CollectionSetChooser E) (added left : List (HeapRegion E)),
        finalizeCsetForMigration bandwidth sorted cset = some (c', added ++ cset) ∧
        added.Perm ((f.visited.filter c.isCandidate).filter fun hr => bandwidth ≤ hr.gcEfficiency) ∧
        left.Perm ((f.visited.filter c.isCandidate).filter fun hr => hr.gcEfficiency < bandwidth) ∧
        c'.candidates = left.map some ∧ left.Pairwise (fun hr1 hr2 => hr2.gcEfficiency ≤ hr1.gcEfficiency) ∧
        c'.verify = true) := by
  obtain ⟨filled, done, hfill, hfilled⟩ := Filling.fill_filled hok
  refine ⟨filled, done, hfill, fun hdone sorted hsort bandwidth cset => ?_⟩
  have hold : ∀ hr ∈ f.visited.filter c.isCandidate, hr.isYoung = false ∧ hr.isHumongous = false := by
    intro hr hmem
    obtain ⟨hvisited, hcand⟩ := List.mem_filter.1 hmem
    exact ⟨hok.1 hr hvisited (Bool.and_eq_true_iff.1 hcand).1, not_isHumongous_of_isCandidate hcand⟩
  obtain ⟨rs, h, hperm⟩ := (hfilled hdone).holds_of_sortRegions hsort hold
  obtain ⟨c', hfinalize, h'⟩ := h.finalizeCsetForMigration bandwidth cset
  refine ⟨c', _, _, hfinalize, ?_, ?_, h'.candidates, h'.ordered, verify_iff_holds.2 ⟨_, h'⟩⟩
  · exact (List.reverse_perm _).trans (hperm.filter _)
  · refine (hperm.filter _).trans (List.Perm.of_eq (List.filter_congr fun hr _ => ?_))
    rw [isWorthMigrating, ← decide_not]
    exact decide_eq_decide.2 not_le

def oldRegion (hrsIndex liveBytes gcEfficiency : Nat) : HeapRegion Nat :=
  ⟨hrsIndex, 10, liveBytes, gcEfficiency, true, false, false, false⟩

def twoWorkers : Filling Nat :=
  .parallel 2 (fun i => if i = 0 then [oldRegion 0 1 3, oldRegion 1 2 7] else [oldRegion 2 9 5]) 3 1 2
    [0, 1, 0, 1, 0, 0, 0]

theorem migration_takes_efficient_regions_example :
    ∃ filled sorted, twoWorkers.fill (.new 8) = some (filled, true) ∧ filled.SortRegions sorted ∧
      ∃ (c' : CollectionSetChooser Nat) (added left : List (HeapRegion Nat)),
        finalizeCsetForMigration 5 sorted [] = some (c', added ++ []) ∧ added.Perm [oldRegion 1 2 7] ∧
        left.Perm [oldRegion 0 1 3] ∧ c'.candidates = left.map some ∧
        left.Pairwise (fun hr1 hr2 => hr2.gcEfficiency ≤ hr1.gcEfficiency) ∧ c'.verify = true := by
  obtain ⟨filled, done, hfill, htakes⟩ :=
    migration_takes_efficient_regions (.new 8) twoWorkers
      ⟨by decide, by decide, by decide, by decide, by decide, by decide⟩
  have hfilled : twoWorkers.fill (.new 8) =
      some (⟨[some (oldRegion 0 1 3), some (oldRegion 1 2 7), none, none, none], 0, 2, 2, 8, 17⟩, true) := by decide
  cases hfill.symm.trans hfilled
  have hsort : CollectionSetChooser.SortRegions
      ⟨[some (oldRegion 0 1 3), some (oldRegion 1 2 7), none, none, none], 0, 2, 2, 8, 17⟩
      ⟨[some (oldRegion 1 2 7), some (oldRegion 0 1 3)], 0, 2, 2, 8, 17⟩ := ⟨by decide, by decide, rfl⟩
  exact ⟨_, _, hfilled, hsort, htakes rfl _ hsort 5 []⟩

/-! ## Mixed collections finish on schedule -/

open Rolp.Lib CollectionSetChooser List Nat

variable {E : Type}

lemma calcMinOldCsetLength_eq (flags : MixedFlags) (c : CollectionSetChooser E) : calcMinOldCsetLength flags c =
      (c.length + (max flags.g1MixedGCCountTarget 1 - 1)) / max flags.g1MixedGCCountTarget 1 := by
  have hpos : 0 < max flags.g1MixedGCCountTarget 1 := lt_of_lt_of_le one_pos (le_max_right _ _)
  unfold calcMinOldCsetLength
  generalize max flags.g1MixedGCCountTarget 1 = gcNum at hpos
  have hdiv := div_add_mod c.length gcNum
  have hmod := mod_lt c.length hpos
  rw [mul_comm] at hdiv
  dsimp only
  split
  · refine (Nat.div_eq_of_lt_le ?_ ?_).symm
    · rw [add_mul]
      omega
    · rw [add_mul, add_mul]
      omega
  · refine (Nat.div_eq_of_lt_le ?_ ?_).symm
    · omega
    · rw [add_mul]
      omega

lemma length_le_mul_calcMinOldCsetLength (flags : MixedFlags) (c : CollectionSetChooser E) :
    c.length ≤ max flags.g1MixedGCCountTarget 1 * calcMinOldCsetLength flags c := by
  have hpos : 0 < max flags.g1MixedGCCountTarget 1 := lt_of_lt_of_le one_pos (le_max_right _ _)
  rw [calcMinOldCsetLength_eq]
  generalize max flags.g1MixedGCCountTarget 1 = gcNum at hpos
  have hdiv := div_add_mod (c.length + (gcNum - 1)) gcNum
  have hmod := mod_lt (c.length + (gcNum - 1)) hpos
  omega

variable {D : Type} [NatCast D] [Mul D] [Div D] [LE D] [DecidableLE D] {flags : MixedFlags}
  {c : CollectionSetChooser E} {rs : List (HeapRegion E)} {p : MixedPause E D}

def Finished (flags : MixedFlags) (last : Option (MixedPause E D)) (c : CollectionSetChooser E) : Prop :=
  c.isEmpty = true ∨ ∃ p ∈ last, p.atOrBelowWaste flags c = true

lemma finished_of_not_mixed (h : p.nextGcShouldBeMixed flags c = false) : Finished flags (some p) c := by
  rw [MixedPause.nextGcShouldBeMixed] at h
  split at h
  next hempty => exact .inl hempty
  · exact .inr ⟨p, rfl, by simpa using h⟩

variable [LinearOrder E] [Zero D] [Sub D] [LT D] [DecidableLT D]

/-! ## One collection -/

lemma mixedLoop_spec (h : c.Holds rs) {turns : Nat} (hturns : rs.length ≤ turns) (min)
    (old) (hold : old.length ≤ p.maxOldCsetLength flags) (timeRemainingMs) :
    ∃ k c', mixedLoop flags p min turns c old timeRemainingMs = (c', (rs.take k).reverse ++ old) ∧ k ≤ rs.length ∧
      c'.Holds (rs.drop k) ∧ c'.length = c.length ∧ old.length + k ≤ p.maxOldCsetLength flags ∧
      (k = rs.length ∨ p.maxOldCsetLength flags ≤ old.length + k ∨ p.atOrBelowWaste flags c' = true ∨
        min ≤ old.length + k) := by
  induction rs generalizing c turns old timeRemainingMs with
  | nil =>
    refine ⟨0, c, ?_, le_rfl, h, rfl, hold, .inl rfl⟩
    cases turns with
    | zero => rfl
    | succ turns => simp [mixedLoop, h.peek]
  | cons hr rs ih =>
    cases turns with
    | zero => cases hturns
    | succ turns =>
      have hpeek : c.peek = some hr := h.peek
      rw [mixedLoop, hpeek]
      dsimp only
      by_cases hmax : p.maxOldCsetLength flags ≤ old.length
      · rw [if_pos hmax]
        exact ⟨0, c, rfl, zero_le _, h, rfl, hold, .inr (.inl hmax)⟩
      rw [if_neg hmax]
      by_cases hwaste : p.atOrBelowWaste flags c = true
      · rw [if_pos hwaste]
        exact ⟨0, c, rfl, zero_le _, h, rfl, hold, .inr (.inr (.inl hwaste))⟩
      rw [if_neg hwaste]
      split
      next hexpensive => exact ⟨0, c, rfl, zero_le _, h, rfl, hold, .inr (.inr (.inr hexpensive.2.2))⟩
      split
      next hmin => exact ⟨0, c, rfl, zero_le _, h, rfl, hold, .inr (.inr (.inr hmin.2))⟩
      obtain ⟨k, c', hloop, hk, h', hlength, hle, hexit⟩ :=
        ih h.removeAndMoveToNext (le_of_succ_le_succ hturns) (hr :: old) (Nat.lt_of_not_le hmax)
          (max2 (timeRemainingMs - p.predictRegionElapsedTimeMs hr) 0)
      refine ⟨k + 1, c', ?_, succ_le_succ hk, h', hlength, ?_, ?_⟩
      · rw [hloop, take_succ_cons, reverse_cons, append_assoc]
        rfl
      · rw [length_cons] at hle
        omega
      · rw [length_cons, add_assoc, add_comm 1 k] at hexit
        exact hexit.imp_left (congrArg (· + 1))

lemma finalizeCset_spec (h : c.Holds rs) (hmax : calcMinOldCsetLength flags c ≤ p.maxOldCsetLength flags) :
    ∃ k c', finalizeCset flags p c = some (c', (rs.take k).reverse) ∧ k ≤ rs.length ∧ c'.Holds (rs.drop k) ∧
      c'.length = c.length ∧ k ≤ p.maxOldCsetLength flags ∧
      (p.nextGcShouldBeMixed flags c' = true → calcMinOldCsetLength flags c ≤ k) := by
  have hturns : rs.length ≤ c.remainingRegions := by
    rw [remainingRegions, h.length]
    omega
  obtain ⟨k, c', hloop, hk, h', hlength, hle, hexit⟩ :=
    mixedLoop_spec h hturns (calcMinOldCsetLength flags c) [] (zero_le _) p.timeRemainingMs
  rw [length_nil, zero_add] at hle hexit
  refine ⟨k, c', ?_, hk, h', hlength, hle, fun hmixed => ?_⟩
  · rw [finalizeCset, if_pos (verify_iff_holds.2 ⟨rs, h⟩), hloop, append_nil]
    exact if_pos (verify_iff_holds.2 ⟨_, h'⟩)
  rcases hexit with hall | hmost | hwaste | hmin
  · have hempty : c'.isEmpty = true := by
      rw [CollectionSetChooser.isEmpty, remainingRegions, h'.length, hall]
      simp
    rw [MixedPause.nextGcShouldBeMixed, if_pos hempty] at hmixed
    cases hmixed
  · exact le_trans hmax hmost
  · rw [MixedPause.nextGcShouldBeMixed, hwaste, Bool.not_true, ite_self] at hmixed
    cases hmixed
  · exact hmin

/-! ## All collections -/

lemma finished_within {min j : Nat} {ps : List (MixedPause E D)} (h : c.Holds rs)
    (hmin : calcMinOldCsetLength flags c = min) (hrs : rs.length ≤ j * min) (hps : j ≤ ps.length)
    (hmax : ∀ p ∈ ps, min ≤ p.maxOldCsetLength flags) :
    ∃ k ≤ j, ∃ c', run (mixedCollection flags) c (ps.take k) = some c' ∧ Finished flags (ps.take k).getLast? c' := by
  induction j generalizing c rs ps with
  | zero =>
    have hempty : c.isEmpty = true := by
      rw [CollectionSetChooser.isEmpty, remainingRegions, h.length]
      simpa using hrs
    exact ⟨0, le_rfl, c, rfl, .inl hempty⟩
  | succ j ih =>
    cases ps with
    | nil => cases hps
    | cons p ps =>
      have hp := hmax p mem_cons_self
      obtain ⟨k, c1, hfinalize, hk, h1, hlength, -, hmixed⟩ := finalizeCset_spec h (hmin.symm ▸ hp)
      have hstep : mixedCollection flags c p = some c1 := congrArg (Option.map Prod.fst) hfinalize
      cases hdue : p.nextGcShouldBeMixed flags c1 with
      | false => exact ⟨1, le_add_left _ _, c1, by simp [hstep], finished_of_not_mixed hdue⟩
      | true =>
        have htaken := hmixed hdue
        have hmin1 : calcMinOldCsetLength flags c1 = min := by
          rw [← hmin, calcMinOldCsetLength, calcMinOldCsetLength, hlength]
        have hrs1 : (rs.drop k).length ≤ j * min := by
          rw [length_drop]
          rw [succ_mul] at hrs
          omega
        obtain ⟨k', hk', c', hrun, hfinished⟩ :=
          ih h1 hmin1 hrs1 (le_of_succ_le_succ hps) fun q hq => hmax q (mem_cons_of_mem p hq)
        refine ⟨k' + 1, succ_le_succ hk', c', by rw [take_succ_cons, run_cons, hstep]; exact hrun, ?_⟩
        rw [take_succ_cons, getLast?_cons]
        refine hfinished.imp_right ?_
        rintro ⟨q, hq, hwaste⟩
        exact ⟨q, by rw [hq]; rfl, hwaste⟩

lemma run_holds {ps : List (MixedPause E D)} (h : c.Holds rs)
    (hmax : ∀ p ∈ ps, calcMinOldCsetLength flags c ≤ p.maxOldCsetLength flags) :
    ∃ c', run (mixedCollection flags) c ps = some c' ∧ c'.length = c.length ∧ ∃ rs', c'.Holds rs' := by
  refine run_defined (fun c' : CollectionSetChooser E => c'.length = c.length ∧ ∃ rs', c'.Holds rs')
    (fun p : MixedPause E D => calcMinOldCsetLength flags c ≤ p.maxOldCsetLength flags) ?_ ⟨rfl, rs, h⟩ hmax
  rintro c' p ⟨hlength, rs', h'⟩ hp
  have hmin : calcMinOldCsetLength flags c' = calcMinOldCsetLength flags c := by
    rw [calcMinOldCsetLength, calcMinOldCsetLength, hlength]
  obtain ⟨k, c'', hfinalize, -, h'', hlength', -, -⟩ := finalizeCset_spec h' (hmin.symm ▸ hp)
  exact ⟨c'', congrArg (Option.map Prod.fst) hfinalize, hlength'.trans hlength, _, h''⟩

/-- If the maximum is at least the minimum, then after at most `G1MixedGCCountTarget` mixed collections the candidates
are used up or not worth it any more. None takes more regions than the maximum, and only the last one may take fewer
than the minimum. -/
theorem mixed_collections_finish (flags : MixedFlags) (c : CollectionSetChooser E) (ps : List (MixedPause E D))
    (hverify : c.verify = true)
    (hmax : ∀ p ∈ ps, (c.length + (max flags.g1MixedGCCountTarget 1 - 1)) / max flags.g1MixedGCCountTarget 1 ≤
      p.maxOldCsetLength flags) (hps : max flags.g1MixedGCCountTarget 1 ≤ ps.length) :
    (∃ k ≤ max flags.g1MixedGCCountTarget 1, ∃ c',
      run (mixedCollection flags) c (ps.take k) = some c' ∧ Finished flags (ps.take k).getLast? c') ∧
    ∀ k p, ps[k]? = some p → ∃ before after old,
      run (mixedCollection flags) c (ps.take k) = some before ∧ finalizeCset flags p before = some (after, old) ∧
      old.length ≤ p.maxOldCsetLength flags ∧
      (p.nextGcShouldBeMixed flags after = true → calcMinOldCsetLength flags before ≤ old.length) := by
  rw [← calcMinOldCsetLength_eq flags c] at hmax
  obtain ⟨rs, h⟩ := verify_iff_holds.1 hverify
  refine ⟨finished_within h rfl ?_ hps hmax, fun k p hp => ?_⟩
  · have hlength := h.length
    have hmul := length_le_mul_calcMinOldCsetLength flags c
    omega
  obtain ⟨before, hrun, hlength, rs', h'⟩ := run_holds h fun q hq => hmax q (mem_of_mem_take hq)
  have hmin : calcMinOldCsetLength flags before = calcMinOldCsetLength flags c := by
    rw [calcMinOldCsetLength, calcMinOldCsetLength, hlength]
  obtain ⟨taken, after, hfinalize, htaken, -, -, hle, hmixed⟩ :=
    finalizeCset_spec h' (hmin.symm ▸ hmax p (mem_of_getElem? hp))
  have hcount : (rs'.take taken).reverse.length = taken := by
    rw [length_reverse, length_take]
    omega
  rw [← hcount] at hle hmixed
  exact ⟨before, after, _, hrun, hfinalize, hle, hmixed⟩

def twoCandidates : CollectionSetChooser Nat :=
  ⟨[some ⟨0, 10, 1, 7, true, false, false, false⟩, some ⟨1, 10, 2, 3, true, false, false, false⟩], 0, 2, 0, 8, 17⟩

def shortPause : MixedPause Nat Nat := ⟨10, 100, true, 1, 1, 0, fun _ => 5⟩

theorem mixed_collections_finish_example :
    (∃ k ≤ 2, ∃ c', run (mixedCollection ⟨2, 5, 10⟩) twoCandidates ([shortPause, shortPause].take k) = some c' ∧
      Finished ⟨2, 5, 10⟩ ([shortPause, shortPause].take k).getLast? c') ∧
    ∀ k p, [shortPause, shortPause][k]? = some p → ∃ before after old,
      run (mixedCollection ⟨2, 5, 10⟩) twoCandidates ([shortPause, shortPause].take k) = some before ∧
      finalizeCset ⟨2, 5, 10⟩ p before = some (after, old) ∧ old.length ≤ p.maxOldCsetLength ⟨2, 5, 10⟩ ∧
      (p.nextGcShouldBeMixed ⟨2, 5, 10⟩ after = true → calcMinOldCsetLength ⟨2, 5, 10⟩ before ≤ old.length) :=
  mixed_collections_finish ⟨2, 5, 10⟩ twoCandidates [shortPause, shortPause] (by decide) (by decide) (by decide)

end Rolp.CSet
