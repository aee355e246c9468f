import Rolp.Profiler.Windows

/-!
# The schedule of the passes

The operations are counted in 32 bits.
-/

namespace Rolp.Profiler

open Rolp.Lib BitVec Nat List

variable {W F : Type} {A : Arith F} {flags : BuildFlags}

/-- The operations `T`, `2 T` and `3 T` merge, the last two of them decide, and profiling that was turned off stays off.
-/
structure Schedule (T : Nat) (calls : List Call) : Prop where
  merged : ∀ i call, calls[i]? = some call → (call.merged = true ↔ i + 1 = T ∨ i + 1 = 2 * T ∨ i + 1 = 3 * T)
  decided : ∀ i call, calls[i]? = some call → (call.decided = true ↔ i + 1 = 2 * T ∨ i + 1 = 3 * T)
  staysOff : ∀ (i j : Nat) (call call' : Call), i ≤ j → calls[i]? = some call → calls[j]? = some call' →
    call.profiles = false → call'.profiles = false

def VmEvent.isDoit : VmEvent W → Bool
  | .doit => true
  | _ => false

def operations (es : List (VmEvent W)) : Nat := es.countP VmEvent.isDoit

/-! ## What the counter decides -/

variable (p : Tables W)

lemma profiling_iff : p.profiling = true ↔ p.totalUpdateTargetGen.toNat / p.ng2cUpdateThreshold.toNat ≤ 3 := by
  have hlt := p.totalUpdateTargetGen.isLt
  simp only [Tables.profiling, shouldProfile, decide_eq_true_eq, le_def, toNat_udiv,
    toNat_setWidth, mod_eq_of_lt (lt_trans hlt (show 2 ^ 32 < 2 ^ 64 by decide))]
  exact .rfl

lemma windowEnds_iff : p.windowEnds = true ↔ p.totalUpdateTargetGen.toNat % p.ng2cUpdateThreshold.toNat = 0 ∧
      p.totalUpdateTargetGen.toNat / p.ng2cUpdateThreshold.toNat ≤ 3 := by
  have hlt := p.totalUpdateTargetGen.isLt
  rw [← profiling_iff p]
  simp only [Tables.windowEnds, Bool.and_eq_true, beq_iff_eq, ← toNat_inj, toNat_umod,
    toNat_setWidth, mod_eq_of_lt (lt_trans hlt (show 2 ^ 32 < 2 ^ 64 by decide))]
  exact .rfl

lemma decides_iff : p.decides = true ↔ 1 < p.totalUpdateTargetGen.toNat / p.ng2cUpdateThreshold.toNat := by
  have hlt := p.totalUpdateTargetGen.isLt
  simp only [Tables.decides, decide_eq_true_eq, lt_def, toNat_udiv,
    toNat_setWidth, mod_eq_of_lt (lt_trans hlt (show 2 ^ 32 < 2 ^ 64 by decide))]
  exact .rfl

/-- What an operation does when the counter is `c`. -/
structure Recorded (T c : Nat) (call : Call) : Prop where
  merged : call.merged = true ↔ c % T = 0 ∧ c / T ≤ 3
  decided : call.decided = true ↔ (c % T = 0 ∧ c / T ≤ 3) ∧ 1 < c / T
  profiles : call.profiles = true ↔ c / T ≤ 3

structure Logged (T : Nat) (vm : Vm W) : Prop where
  threshold : vm.tables.ng2cUpdateThreshold.toNat = T
  total : vm.tables.totalUpdateTargetGen.toNat = vm.calls.length % 2 ^ 32
  recorded : ∀ i call, vm.calls[i]? = some call → Recorded T ((i + 1) % 2 ^ 32) call

lemma toNat_countOperation {T : Nat} {vm : Vm W} (h : Logged T vm) :
    vm.tables.countOperation.totalUpdateTargetGen.toNat = (vm.calls.length + 1) % 2 ^ 32 := by
  show (vm.tables.totalUpdateTargetGen + 1).toNat = _
  rw [toNat_add, h.total]
  exact mod_add_mod _ _ _

lemma Logged.finish {T : Nat} {vm : Vm W} (h : Logged T vm) {p : Tables W} {merged decided : Bool}
    {analyzed : List Curve} (htotal : p.totalUpdateTargetGen = vm.tables.countOperation.totalUpdateTargetGen)
    (hthreshold : p.ng2cUpdateThreshold = vm.tables.countOperation.ng2cUpdateThreshold)
    (hmerged : merged = vm.tables.countOperation.windowEnds)
    (hdecided : decided = (vm.tables.countOperation.windowEnds && vm.tables.countOperation.decides)) :
    Logged T (vm.finish p merged decided analyzed) where
  threshold := by
    rw [← h.threshold]
    exact congrArg BitVec.toNat hthreshold
  total := by
    show p.totalUpdateTargetGen.toNat = (vm.calls ++ [_]).length % 2 ^ 32
    rw [htotal, toNat_countOperation h, length_append]
    rfl
  recorded := by
    intro i call hi
    have hT : vm.tables.countOperation.ng2cUpdateThreshold.toNat = T := h.threshold
    simp only [Vm.finish, getElem?_append] at hi
    split at hi
    · exact h.recorded i call hi
    -- The only new call is the last one, and its number is one more than the number of calls before.
    obtain ⟨hi0, rfl⟩ : i - vm.calls.length = 0 ∧ _ := by
      cases hsub : i - vm.calls.length with
      | zero => exact ⟨rfl, by simpa [hsub] using hi⟩
      | succ n => simp [hsub] at hi
    obtain rfl : i = vm.calls.length := by omega
    refine ⟨?_, ?_, ?_⟩
    · show merged = true ↔ _
      rw [hmerged, windowEnds_iff, toNat_countOperation h, hT]
    · show decided = true ↔ _
      rw [hdecided, Bool.and_eq_true, windowEnds_iff, decides_iff, toNat_countOperation h, hT]
    · show p.profiling = true ↔ _
      rw [profiling_iff, htotal, hthreshold, toNat_countOperation h, hT]

/-! ## The schedule -/

section Schedule

variable {vm : Vm W} {T : Nat}

lemma multiple_iff {c : Nat} (hT : 0 < T) : c % T = 0 ∧ c / T ≤ 3 ↔ c = 0 ∨ c = T ∨ c = 2 * T ∨ c = 3 * T := by
  constructor
  · rintro ⟨hmod, hdiv⟩
    have hc : c = c / T * T := (Nat.div_mul_cancel (dvd_of_mod_eq_zero hmod)).symm
    generalize c / T = q at hc hdiv
    obtain rfl | rfl | rfl | rfl : q = 0 ∨ q = 1 ∨ q = 2 ∨ q = 3 := by omega
    all_goals omega
  · rintro (rfl | rfl | rfl | rfl)
    · simp
    · simp [Nat.div_self hT]
    · simp [Nat.mul_div_cancel _ hT]
    · simp [Nat.mul_div_cancel _ hT]

lemma later_multiple_iff {c : Nat} (hT : 0 < T) : (c % T = 0 ∧ c / T ≤ 3) ∧ 1 < c / T ↔ c = 2 * T ∨ c = 3 * T := by
  rw [multiple_iff hT]
  constructor
  · rintro ⟨rfl | rfl | rfl | rfl, hlt⟩
    · simp at hlt
    · simp [Nat.div_self hT] at hlt
    · exact .inl rfl
    · exact .inr rfl
  · rintro (rfl | rfl)
    · simp [Nat.mul_div_cancel _ hT]
    · simp [Nat.mul_div_cancel _ hT]

lemma Logged.schedule_of_lt (h : Logged T vm) (hT : 0 < T) (hlt : vm.calls.length < 2 ^ 32) : Schedule T vm.calls := by
  have hrec : ∀ i call, vm.calls[i]? = some call → Recorded T (i + 1) call := by
    intro i call hi
    have hrec := h.recorded i call hi
    have hi' := (List.getElem?_eq_some_iff.1 hi).1
    rwa [mod_eq_of_lt (by omega)] at hrec
  refine ⟨?_, ?_, ?_⟩
  · intro i call hi
    rw [(hrec i call hi).merged, multiple_iff hT]
    omega
  · intro i call hi
    rw [(hrec i call hi).decided, later_multiple_iff hT]
  · intro i j call call' hij hi hj hoff
    have hle : (i + 1) / T ≤ (j + 1) / T := Nat.div_le_div_right (by omega)
    rw [← Bool.not_eq_true, (hrec i call hi).profiles] at hoff
    rw [← Bool.not_eq_true, (hrec j call' hj).profiles]
    omega

lemma Logged.schedule_of_wideWindow (h : Logged (2 ^ 32) vm) (hlt : vm.calls.length < 2 ^ 33) :
    Schedule (2 ^ 32) vm.calls := by
  refine ⟨?_, ?_, ?_⟩
  · intro i call hi
    have hi' := (List.getElem?_eq_some_iff.1 hi).1
    rw [(h.recorded i call hi).merged]
    omega
  · intro i call hi
    have hi' := (List.getElem?_eq_some_iff.1 hi).1
    rw [(h.recorded i call hi).decided]
    omega
  · intro i j call call' hij hi hj hoff
    rw [← Bool.not_eq_true, (h.recorded i call hi).profiles] at hoff
    omega

lemma Logged.call_of_wrapped (h : Logged T vm) {i : Nat} (hi : i < vm.calls.length) (hwrap : (i + 1) % 2 ^ 32 = 0) :
    ∃ call, vm.calls[i]? = some call ∧ call.merged = true ∧ call.decided = false ∧ call.profiles = true := by
  have hget := List.getElem?_eq_getElem hi
  have hrec := h.recorded i _ hget
  rw [hwrap] at hrec
  refine ⟨_, hget, hrec.merged.2 ?_, ?_, hrec.profiles.2 ?_⟩
  · simp
  · rw [← Bool.not_eq_true, hrec.decided]
    simp
  · simp

end Schedule

/-! ## Runs -/

section Runs

variable {vm vm' : Vm W} {e : VmEvent W} {es : List (VmEvent W)} {T : Nat}
  {threshold maxTenuringThreshold : BitVec 64} {threads : List W}

lemma logged_start : Logged threshold.toNat (Vm.start threshold true threads maxTenuringThreshold) where
  threshold := rfl
  total := rfl
  recorded := fun _ _ h => nomatch h

variable [DecidableEq W]

lemma Logged.doit (h : Logged T vm) (huse : vm.usesProfiler = true) (hdoit : vm.doit A flags = some vm') :
    Logged T vm' ∧ vm'.calls.length = vm.calls.length + 1 := by
  obtain ⟨hno, -⟩ | ⟨-, -, ⟨hends, rfl⟩ | ⟨hends, p', analyzed, hend, rfl⟩⟩ := Vm.doit_cases hdoit
  · rw [huse] at hno
    cases hno
  · exact ⟨h.finish rfl rfl hends.symm (by rw [hends]; rfl), by simp [Vm.finish]⟩
  · obtain ⟨htotal, hthreshold⟩ := Vm.endWindow_counter hend
    exact ⟨h.finish htotal hthreshold hends.symm (by rw [hends]; rfl), by simp [Vm.finish]⟩

lemma Logged.step (h : Logged T vm) (huse : vm.usesProfiler = true) (hstep : vm.step A flags e = some vm') :
    Logged T vm' ∧ vm'.calls.length = vm.calls.length + if e.isDoit then 1 else 0 := by
  obtain ⟨site, hne, rfl, rfl⟩ | ⟨site, context, hcount, rfl⟩ | ⟨_, _, _, _, rfl, rfl⟩ | ⟨w, c, rfl, rfl⟩ |
    ⟨rfl, hdoit⟩ := Vm.step_cases hstep
  · exact ⟨⟨h.threshold, h.total, h.recorded⟩, rfl⟩
  · have hno : e.isDoit = false := by
      cases e with
      | doit => cases hcount
      | _ => rfl
    rw [hno]
    exact ⟨⟨h.threshold, h.total, h.recorded⟩, rfl⟩
  · exact ⟨h, rfl⟩
  · exact ⟨⟨h.threshold, h.total, h.recorded⟩, rfl⟩
  · exact h.doit huse hdoit

lemma Logged.run (h : Logged T vm) (huse : vm.usesProfiler = true) (hrun : run (Vm.step A flags) vm es = some vm') :
    Logged T vm' ∧ vm'.calls.length = vm.calls.length + operations es := by
  induction es generalizing vm with
  | nil =>
    cases hrun
    exact ⟨h, rfl⟩
  | cons e es ih =>
    obtain ⟨vm1, h1, h2⟩ := run_cons_some hrun
    obtain ⟨hlog, hlength⟩ := h.step huse h1
    obtain ⟨hlog', hlength'⟩ := ih hlog ((Vm.sameSettings_step h1).usesProfiler.trans huse) h2
    refine ⟨hlog', ?_⟩
    rw [hlength', hlength, operations, operations, countP_cons]
    omega

/-- The passes follow the schedule exactly as long as the counter does not wrap around, or until the second time if
the window has exactly as many operations as the counter has values. -/
theorem schedule_iff (hthreshold : threshold ≠ 0)
    (h : run (Vm.step A flags) (Vm.start threshold true threads maxTenuringThreshold) es = some vm) :
    vm.calls.length = operations es ∧ (Schedule threshold.toNat vm.calls ↔
        operations es < 2 ^ 32 ∨ (threshold.toNat = 2 ^ 32 ∧ operations es < 2 ^ 33)) := by
  obtain ⟨hlog, hlength⟩ := logged_start.run rfl h
  have hT : 0 < threshold.toNat := pos_of_ne_zero fun h0 => hthreshold (eq_of_toNat_eq h0)
  have hlength : vm.calls.length = operations es := by
    rw [hlength]
    exact zero_add _
  refine ⟨hlength, ?_⟩
  rw [← hlength]
  constructor
  · intro hs
    by_contra hge
    obtain ⟨call, hcall, hmerged, hdecided, -⟩ := hlog.call_of_wrapped (i := 2 ^ 32 - 1) (by omega) (by decide)
    have hm := (hs.merged _ _ hcall).1 hmerged
    have hd : ¬ (2 ^ 32 - 1 + 1 = 2 * threshold.toNat ∨ 2 ^ 32 - 1 + 1 = 3 * threshold.toNat) := by
      rw [← hs.decided _ _ hcall, hdecided]
      decide
    have hwide : threshold.toNat = 2 ^ 32 := by omega
    obtain ⟨call', hcall', -, hdecided', -⟩ := hlog.call_of_wrapped (i := 2 ^ 33 - 1) (by omega) (by decide)
    have hd' : ¬ (2 ^ 33 - 1 + 1 = 2 * threshold.toNat ∨ 2 ^ 33 - 1 + 1 = 3 * threshold.toNat) := by
      rw [← hs.decided _ _ hcall', hdecided']
      decide
    omega
  · rintro (hlt | ⟨hwide, hlt⟩)
    · exact hlog.schedule_of_lt hT hlt
    · rw [hwide] at hlog ⊢
      exact hlog.schedule_of_wideWindow hlt

lemma run_replicate_doit (A : Arith F) (flags : BuildFlags) (vm : Vm W)
    (hs : vm.tables.Sound (fun _ => True) vm.threads) (huse : vm.usesProfiler = true)
    (hT : vm.tables.ng2cUpdateThreshold ≠ 0) (n : Nat) :
    ∃ vm', run (Vm.step A flags) vm (replicate n .doit) = some vm' := by
  have hstep : ∀ (vm : Vm W) (e : VmEvent W),
      (vm.tables.Sound (fun _ => True) vm.threads ∧ vm.usesProfiler = true ∧ vm.tables.ng2cUpdateThreshold ≠ 0) →
      e = .doit → ∃ vm', vm.step A flags e = some vm' ∧
        (vm'.tables.Sound (fun _ => True) vm'.threads ∧ vm'.usesProfiler = true ∧
          vm'.tables.ng2cUpdateThreshold ≠ 0) := by
    rintro vm _ ⟨hs, huse, hT⟩ rfl
    obtain ⟨vm', hdoit⟩ := Vm.doit_defined A flags hs huse hT
    have hsame := Vm.sameSettings_step (e := .doit) hdoit
    exact ⟨vm', hdoit, (Vm.sound_doit (fun _ _ => True) hs hdoit).1, hsame.usesProfiler.trans huse,
      hsame.threshold ▸ hT⟩
  obtain ⟨vm', hrun, -⟩ := run_defined _ _ hstep ⟨hs, huse, hT⟩ fun e he => eq_of_mem_replicate he
  exact ⟨vm', hrun⟩

end Runs

section Example

theorem schedule_iff_fourOperations :
    ∃ vm : Vm Unit, run (Vm.step ratArith shippedFlags) (Vm.start 1 true [()] 15) (replicate 4 .doit) = some vm ∧
      Schedule 1 vm.calls := by
  obtain ⟨vm, hrun⟩ := run_replicate_doit ratArith shippedFlags (Vm.start 1 true [()] 15) (sound_start _) rfl
    (by decide) 4
  exact ⟨vm, hrun, (schedule_iff (by decide) hrun).2.2 (.inl (by decide))⟩

/-- After `2 ^ 32` operations profiling is on again, and counters are merged. -/
theorem not_schedule_wrapped : ∃ (vm : Vm Unit) (call call' : Call),
      run (Vm.step ratArith shippedFlags) (Vm.start 1 true [()] 15) (replicate (2 ^ 32) .doit) = some vm ∧
      vm.calls[3]? = some call ∧ call.profiles = false ∧
      vm.calls[2 ^ 32 - 1]? = some call' ∧ call'.profiles = true ∧ call'.merged = true ∧ ¬ Schedule 1 vm.calls := by
  obtain ⟨vm, hrun⟩ := run_replicate_doit ratArith shippedFlags (Vm.start 1 true [()] 15) (sound_start _) rfl
    (by decide) (2 ^ 32)
  obtain ⟨hlog, hlength⟩ := logged_start.run rfl hrun
  have hlength : vm.calls.length = 2 ^ 32 := by
    rw [hlength, operations, countP_replicate]
    simp [VmEvent.isDoit, Vm.start]
  obtain ⟨call', hcall', hmerged, -, hprofiles⟩ := hlog.call_of_wrapped (i := 2 ^ 32 - 1) (by omega) (by decide)
  have hget : vm.calls[3]? = some vm.calls[3] := getElem?_eq_getElem (by omega)
  have hoff : vm.calls[3].profiles = false := by
    rw [← Bool.not_eq_true, (hlog.recorded 3 _ hget).profiles]
    decide
  refine ⟨vm, vm.calls[3], call', hrun, hget, hoff, hcall', hprofiles, hmerged, fun hs => ?_⟩
  have := hs.staysOff 3 (2 ^ 32 - 1) _ _ (by decide) hget hcall' hoff
  rw [hprofiles] at this
  cases this

end Example

end Rolp.Profiler
