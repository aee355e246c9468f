import Rolp.Context.Stack

/-!
# Calls in flight

Every frame but the top one has what `do_context` left there for its call in flight, and the context is the initial one
plus the amounts of these calls.
-/

namespace Rolp.Context

open Rolp.Lib Activation Function List StaticAnalysis Machine ContextTable

variable {M : Type} {env : Env M} {mc mc' : Machine M}

/-! ## Emitted code -/

def EmittedOk (env : Env M) (sa : StaticAnalysis M) (m : M) (bci : BitVec 32) (cindex : Option (BitVec 32)) : Prop :=
  if env.disabled || env.avoids m then cindex = none
  else (sa.methodContext m = 0 → env.murmur (env.nameAndSig m) = 0) ∧
    ((cindex = some (sa.methodContext m + bci) ∧ ∃ ci, sa.invoke2Context.find? (sa.methodContext m + bci) = some ci) ∨
      (cindex = none ∧ env.ng2cStaticAnalysis = true ∧ sa.invoke2Context.find? (sa.methodContext m + bci) = none))

variable {sa : StaticAnalysis M} {m : M}

lemma EmittedOk.cached
    (h : sa.methodContext m = 0 → env.murmur (env.nameAndSig m) = 0) : sa.cached env m = sa.methodContext m := by
  unfold StaticAnalysis.cached
  split
  next h0 => rw [h0, h h0]
  · rfl

lemma emittedOk_getInvokeContext [DecidableEq M] (sa : StaticAnalysis M) (m : M) (bci : BitVec 32) :
    EmittedOk env (sa.getInvokeContext env m bci).1 m bci (sa.getInvokeContext env m bci).2 := by
  rw [getInvokeContext_eq, EmittedOk]
  split
  · rfl
  simp only [update_self]
  refine ⟨?_, ?_⟩
  · intro h
    unfold cached at h
    split at h
    · exact h
    next hne => exact absurd h hne
  · obtain ⟨hsome, hfind⟩ | ⟨hnone, hfile, hfind⟩ := lookup_snd env sa.invoke2Context (sa.cached env m + bci)
    · exact .inl ⟨hsome, hfind⟩
    · rw [lookup_of_file hfile]
      exact .inr ⟨hnone, hfile, hfind⟩

variable {bci : BitVec 32} {cindex : Option (BitVec 32)}

lemma EmittedOk.getInvokeContext [DecidableEq M] (h : EmittedOk env sa m bci cindex) (m' bci') :
    EmittedOk env (sa.getInvokeContext env m' bci').1 m bci cindex ∧
      (m' = m → bci' = bci → (sa.getInvokeContext env m' bci').2 = cindex) := by
  rw [getInvokeContext_eq]
  by_cases hoff' : (env.disabled || env.avoids m') = true
  · rw [if_pos hoff']
    refine ⟨h, ?_⟩
    rintro rfl -
    rw [EmittedOk, if_pos hoff'] at h
    exact h.symm
  rw [if_neg hoff']
  unfold EmittedOk at h ⊢
  by_cases hoff : (env.disabled || env.avoids m) = true
  · rw [if_pos hoff] at h ⊢
    refine ⟨h, ?_⟩
    rintro rfl -
    exact absurd hoff hoff'
  rw [if_neg hoff] at h ⊢
  obtain ⟨hzero, hfound⟩ := h
  -- The hash of `m` is cached already, so it does not change any more.
  have hctx : update sa.methodContext m' (sa.cached env m') m = sa.methodContext m := by
    by_cases hm : m = m'
    · subst hm
      rw [update_self, EmittedOk.cached hzero]
    · rw [update_of_ne hm]
  simp only [hctx]
  refine ⟨⟨hzero, ?_⟩, ?_⟩
  · obtain ⟨hc, ci, hci⟩ | ⟨hc, hfile, hnone⟩ := hfound
    · exact .inl ⟨hc, ci, ContextTable.find?_lookup_of_some hci⟩
    · refine .inr ⟨hc, hfile, ?_⟩
      rw [lookup_of_file hfile]
      exact hnone
  rintro rfl rfl
  rw [EmittedOk.cached hzero]
  obtain ⟨hs, hsome⟩ | ⟨hs, hfile, hnone⟩ := lookup_snd env sa.invoke2Context (sa.methodContext m' + bci')
  · obtain ⟨hc, -⟩ | ⟨hc, hfile, hnone⟩ := hfound
    · exact hs.trans hc.symm
    rw [lookup_of_file hfile] at hsome
    obtain ⟨ci, hci⟩ := hsome
    rw [hnone] at hci
    cases hci
  · obtain ⟨-, ci, hci⟩ | ⟨hc, -, -⟩ := hfound
    · rw [hnone] at hci
      cases hci
    · exact hs.trans hc.symm

lemma EmittedOk.trackedIndex
    (h : EmittedOk env sa m bci cindex) : (cindex.map sa.trackedAt).getD 0 = sa.trackedIndex env m bci := by
  unfold EmittedOk at h
  unfold StaticAnalysis.trackedIndex
  split
  next hoff =>
    rw [if_pos hoff] at h
    subst h
    rfl
  next hoff =>
    rw [if_neg hoff] at h
    obtain ⟨-, ⟨rfl, -⟩ | ⟨rfl, -, hnone⟩⟩ := h
    · rfl
    · simp [trackedAt, hnone]

lemma EmittedOk.setTrackContext (h : EmittedOk env sa m bci cindex) (key track) :
    EmittedOk env (sa.setTrackContext key track) m bci cindex := by
  unfold EmittedOk at h ⊢
  split
  next hoff => rwa [if_pos hoff] at h
  rename_i hoff
  rw [if_neg hoff] at h
  refine ⟨h.1, ?_⟩
  simp only [StaticAnalysis.setTrackContext, ChainTable.find?_modify]
  obtain ⟨hc, ci, hci⟩ | ⟨hc, hfile, hnone⟩ := h.2
  · refine .inl ⟨hc, ?_⟩
    split
    · exact ⟨_, by rw [hci]; rfl⟩
    · exact ⟨ci, hci⟩
  · refine .inr ⟨hc, hfile, ?_⟩
    split
    · rw [hnone]
      rfl
    · exact hnone

/-! ## The stack -/

/-- The frame `a` has what a call to `callee` leaves there. -/
def CallOk (mc : Machine M) (callee : VFrame M) (a : Activation M) : Prop :=
  if a.frame.executesContext callee then
    (mc.emittedAt a.frame = some none ∧ a.pending = none) ∨
      ∃ key ci, mc.emittedAt a.frame = some (some key) ∧ mc.sa.invoke2Context.find? key = some ci ∧
        a.pending = some ⟨key, ci.index, ci.trackContext⟩
  else a.pending = none

def CallersOk (mc : Machine M) : VFrame M → List (Activation M) → Prop
  | _, [] => True
  | callee, a :: rest => CallOk mc callee a ∧ CallersOk mc a.frame rest

def StackOk (mc : Machine M) : List (Activation M) → Prop
  | [] => True
  | top :: rest => top.pending = none ∧ CallersOk mc top.frame rest

variable {callee : VFrame M} {a : Activation M}

lemma CallOk.pending_of_not_executes (h : CallOk mc callee a)
    (he : a.frame.executesContext callee = false) : a.pending = none := by
  rwa [CallOk, he, if_neg Bool.false_ne_true] at h

lemma CallOk.amount_eq (h : CallOk mc callee a) (he : a.frame.executesContext callee = true)
    (hem : ∀ m bci cindex, mc.emitted m bci = some cindex → EmittedOk env mc.sa m bci cindex) :
    a.amount = a.frame.siteIndex env mc.sa := by
  rw [CallOk, if_pos he] at h
  obtain ⟨frame, pending⟩ := a
  cases frame with
  | external => cases he
  | java code m bci =>
    have hcode : code ≠ .interpreted := by
      rintro rfl
      cases he
    rw [VFrame.siteIndex, if_neg hcode]
    obtain ⟨hnone, hp⟩ | ⟨key, ci, hkey, hci, hp⟩ := h
    · rw [← (hem m bci none hnone).trackedIndex, amount, hp]
      rfl
    · rw [← (hem m bci (some key) hkey).trackedIndex, amount, hp]
      simp [trackedAt, hci, Pending.amount, ContextIndex.tracked]

structure Machine.Ok (env : Env M) (mc : Machine M) : Prop where
  emitted : ∀ m bci cindex, mc.emitted m bci = some cindex → EmittedOk env mc.sa m bci cindex
  stack : StackOk mc mc.stack
  context : mc.context = 0xFFFF + (mc.stack.map amount).sum

lemma start_ok (sa) : (Machine.start sa).Ok env where
  emitted := by
    intro m bci cindex h
    cases h
  stack := trivial
  context := by simp [Machine.start]

/-! ## Steps -/

lemma CallersOk.imp {as} (h : CallersOk mc callee as)
    (himp : ∀ callee, ∀ a ∈ as, CallOk mc callee a → CallOk mc' callee a) : CallersOk mc' callee as := by
  induction as generalizing callee with
  | nil => trivial
  | cons a as ih =>
    obtain ⟨ha, has⟩ := h
    exact ⟨himp callee a (by simp) ha, ih has fun c b hb => himp c b (by simp [hb])⟩

lemma StackOk.imp {as} (h : StackOk mc as)
    (himp : ∀ callee, ∀ a ∈ as, CallOk mc callee a → CallOk mc' callee a) : StackOk mc' as := by
  cases as with
  | nil => trivial
  | cons top rest => exact ⟨h.1, h.2.imp fun c a ha => himp c a (by simp [ha])⟩

lemma doCall_spec {rest} (h : mc.doCall callee = some mc') (hs : mc.stack = a :: rest) :
    ∃ p, CallOk mc callee ⟨a.frame, p⟩ ∧ mc' = { mc with
        stack := ⟨callee, none⟩ :: ⟨a.frame, p⟩ :: rest
        context := mc.context + amount ⟨a.frame, p⟩ } := by
  simp only [doCall, hs] at h
  split at h
  · cases h
  split at h
  next he =>
    obtain ⟨cindex, hcindex, hdo⟩ := Option.bind_eq_some_iff.1 h
    cases cindex with
    | none =>
      cases hdo
      refine ⟨none, ?_, by simp [amount]⟩
      rw [CallOk, if_pos he]
      exact .inl ⟨hcindex, rfl⟩
    | some key =>
      obtain ⟨ci, hci, hpure⟩ := Option.bind_eq_some_iff.1 hdo
      cases hpure
      refine ⟨some ⟨key, ci.index, ci.trackContext⟩, ?_, rfl⟩
      rw [CallOk, if_pos he]
      exact .inr ⟨key, ci, hcindex, hci, rfl⟩
  next he =>
    cases h
    refine ⟨none, ?_, by simp [amount]⟩
    rw [CallOk, if_neg he]

lemma parseCall_ok [DecidableEq M] (hok : mc.Ok env) (h : mc.step env (.parseCall m bci) = some mc') : mc'.Ok env := by
  cases h
  -- Compiling a call again finds the same index as before.
  have hsame : ∀ f cindex, mc.emittedAt f = some cindex →
      emittedAt { mc with
        sa := (mc.sa.getInvokeContext env m bci).1
        emitted := update mc.emitted m
          (update (mc.emitted m) bci (some (mc.sa.getInvokeContext env m bci).2)) } f = some cindex := by
    intro f cindex hf
    cases f with
    | external => cases hf
    | java code m' bci' =>
      have hem := hok.emitted m' bci' cindex hf
      by_cases hm : m' = m
      · subst hm
        by_cases hb : bci' = bci
        · subst hb
          simp [emittedAt, (hem.getInvokeContext m' bci').2 rfl rfl]
        · simpa [emittedAt, hb] using hf
      · simpa [emittedAt, hm] using hf
  refine ⟨?_, ?_, hok.context⟩
  · intro m' bci' cindex hem
    by_cases hm : m' = m ∧ bci' = bci
    · obtain ⟨rfl, rfl⟩ := hm
      simp only [update_self, Option.some.injEq] at hem
      exact hem ▸ emittedOk_getInvokeContext mc.sa m' bci'
    have hold : mc.emitted m' bci' = some cindex := by
      by_cases hm' : m' = m
      · subst hm'
        simpa [show bci' ≠ bci from fun hb => hm ⟨rfl, hb⟩] using hem
      · simpa [hm'] using hem
    exact ((hok.emitted m' bci' cindex hold).getInvokeContext m bci).1
  · refine hok.stack.imp ?_
    intro callee a _ ha
    unfold CallOk at ha ⊢
    split
    next he =>
      rw [if_pos he] at ha
      obtain ⟨hnone, hp⟩ | ⟨key, ci, hkey, hci, hp⟩ := ha
      · exact .inl ⟨hsame _ _ hnone, hp⟩
      · exact .inr ⟨key, ci, hsame _ _ hkey, mc.sa.find?_getInvokeContext m bci hci, hp⟩
    next he => rwa [if_neg he] at ha

lemma call_ok (hok : mc.Ok env) (h : mc.doCall callee = some mc') : mc'.Ok env := by
  cases hs : mc.stack with
  | nil =>
    simp only [doCall, hs] at h
    split at h
    · cases h
    · cases h
      refine ⟨hok.emitted, ⟨rfl, trivial⟩, ?_⟩
      have hc := hok.context
      rw [hs] at hc
      simpa [amount] using hc
  | cons a rest =>
    obtain ⟨p, hp, rfl⟩ := doCall_spec h hs
    have hstack := hok.stack
    have hc := hok.context
    rw [hs] at hstack hc
    obtain ⟨htop, hcallers⟩ := hstack
    refine ⟨hok.emitted, ⟨rfl, hp, hcallers.imp fun _ _ _ h => h⟩, ?_⟩
    have h0 : a.amount = 0 := by rw [amount, htop]; rfl
    have hnew : amount ⟨callee, none⟩ = 0 := rfl
    simp only [map_cons, sum_cons, h0, hnew, zero_add] at hc ⊢
    rw [hc, add_assoc, add_comm (amount _)]

lemma ret_ok (hok : mc.Ok env) (h : mc.doReturn = some mc') : mc'.Ok env := by
  unfold doReturn at h
  have hstack := hok.stack
  have hc := hok.context
  split at h
  · cases h
  next top hs =>
    cases h
    rw [hs] at hstack hc
    refine ⟨hok.emitted, trivial, ?_⟩
    have h0 : top.amount = 0 := by rw [amount, hstack.1]; rfl
    simpa [h0] using hc
  next top a rest hs =>
    cases h
    rw [hs] at hstack hc
    obtain ⟨htop, -, hcallers⟩ := hstack
    refine ⟨hok.emitted, ⟨rfl, hcallers.imp fun _ _ _ h => h⟩, ?_⟩
    have h0 : top.amount = 0 := by rw [amount, htop]; rfl
    have hnew : amount ⟨a.frame, none⟩ = 0 := rfl
    simp only [map_cons, sum_cons, h0, hnew, zero_add] at hc ⊢
    rw [hc, add_comm a.amount, ← add_assoc, add_sub_cancel_right]

lemma goto_ok [DecidableEq M] (hok : mc.Ok env) (h : mc.step env (.goto bci) = some mc') : mc'.Ok env := by
  simp only [Machine.step] at h
  split at h
  next code m bci' p rest hs =>
    cases h
    have hstack := hok.stack
    have hc := hok.context
    rw [hs] at hstack hc
    obtain ⟨htop, hcallers⟩ := hstack
    cases htop
    refine ⟨hok.emitted, ⟨rfl, ?_⟩, hc⟩
    cases rest with
    | nil => trivial
    | cons a rest => exact ⟨hcallers.1, hcallers.2.imp fun _ _ _ h => h⟩
  · cases h

lemma setTrackContext_ok [DecidableEq M] {key track} (hok : mc.Ok env)
    (h : mc.step env (.setTrackContext key track) = some mc') : mc'.Ok env := by
  simp only [Machine.step] at h
  split at h
  next hidle =>
    cases h
    refine ⟨fun m bci cindex hem => (hok.emitted m bci cindex hem).setTrackContext key track, ?_, hok.context⟩
    refine hok.stack.imp ?_
    intro callee a hmem ha
    unfold CallOk at ha ⊢
    split
    next he =>
      rw [if_pos he] at ha
      obtain ⟨hnone, hp⟩ | ⟨key', ci, hkey, hci, hp⟩ := ha
      · exact .inl ⟨hnone, hp⟩
      -- The call is in flight, so its flag is not the one that changes.
      have hne : key' ≠ key := by
        have := all_eq_true.1 hidle a hmem
        simpa [hp] using this
      refine .inr ⟨key', ci, hkey, ?_, hp⟩
      simp only [setTrackContext, ChainTable.find?_modify, if_neg hne, hci]
    next he => rwa [if_neg he] at ha
  · cases h

lemma step_ok [DecidableEq M] {act} (hok : mc.Ok env) (h : mc.step env act = some mc') : mc'.Ok env := by
  cases act with
  | parseCall m bci => exact parseCall_ok hok h
  | call callee => exact call_ok hok h
  | goto bci => exact goto_ok hok h
  | ret => exact ret_ok hok h
  | setTrackContext key track => exact setTrackContext_ok hok h

lemma run_ok [DecidableEq M] {acts} (h : run (Machine.step env) (Machine.start sa) acts = some mc) : mc.Ok env :=
  run_invariant (Machine.Ok env) (fun _ => True) (fun _ _ _ hok _ hstep => step_ok hok hstep) (start_ok sa)
    (fun _ _ => trivial) h

/-! ## Kept and computed contexts -/

variable {mc : Machine M}

/-- The tracked indices of the compiled frames whose call in flight did not execute `do_context`: the callee is
inlined, or it is not Java code. -/
def unaccounted (env : Env M) (sa : StaticAnalysis M) : List (VFrame M) → BitVec 32
  | [] => 0
  | [_] => 0
  | callee :: caller :: rest =>
    (if caller.executesContext callee then 0 else caller.siteIndex env sa) + unaccounted env sa (caller :: rest)

lemma CallersOk.sum_siteIndex {callee as} (h : CallersOk mc callee as)
    (hem : ∀ m bci cindex, mc.emitted m bci = some cindex → EmittedOk env mc.sa m bci cindex) :
    ((as.map frame).map (VFrame.siteIndex env mc.sa)).sum =
      (as.map amount).sum + unaccounted env mc.sa (callee :: as.map frame) := by
  induction as generalizing callee with
  | nil => simp [unaccounted]
  | cons a as ih =>
    obtain ⟨ha, has⟩ := h
    simp only [map_cons, sum_cons, unaccounted]
    rw [ih has]
    by_cases he : a.frame.executesContext callee = true
    · rw [if_pos he, ← ha.amount_eq he hem, zero_add, add_assoc]
    · have hnone := ha.pending_of_not_executes (Bool.eq_false_iff.2 he)
      have h0 : a.amount = 0 := by rw [amount, hnone]; rfl
      rw [if_neg he, h0, zero_add, add_left_comm]

lemma StackOk.dropWhile {as} (h : StackOk mc as) : StackOk mc (as.dropWhile fun a => !a.frame.isJavaFrame) ∧
      ((as.dropWhile fun a => !a.frame.isJavaFrame).map amount).sum = (as.map amount).sum := by
  induction as with
  | nil => exact ⟨h, rfl⟩
  | cons top rest ih =>
    by_cases hj : top.frame.isJavaFrame = true
    · simp only [dropWhile_cons, hj, Bool.not_true, Bool.false_eq_true, if_false]
      exact ⟨h, trivial⟩
    obtain ⟨htop, hcallers⟩ := h
    have hrest : StackOk mc rest := by
      cases rest with
      | nil => trivial
      | cons a rest =>
        refine ⟨hcallers.1.pending_of_not_executes ?_, hcallers.2⟩
        simp [VFrame.executesContext, hj]
    have h0 : top.amount = 0 := by rw [amount, htop]; rfl
    simp only [dropWhile_cons, hj, Bool.not_false, if_true, map_cons, sum_cons, h0, zero_add]
    exact ih hrest

lemma vframes_eq (mc : Machine M) : mc.vframes = (mc.stack.dropWhile fun a => !a.frame.isJavaFrame).map frame := by
  rw [vframes, dropWhile_map]
  rfl

lemma walk_vframes [DecidableEq M] {maxDepth top fs} (h : mc.vframes = top :: fs) :
    walk env maxDepth mc.vframes 0 0xFFFF mc.sa = walk env maxDepth fs 1 0xFFFF mc.sa := by
  have hjava : top.isJavaFrame = true := by
    have hhead := head?_dropWhile_not (fun f : VFrame M => !f.isJavaFrame) (mc.stack.map frame)
    rw [show dropWhile _ _ = _ from h] at hhead
    simpa using hhead
  cases top with
  | external => cases hjava
  | java code m bci => rw [h, walk]; rfl

/-- In every state that a thread reaches from an empty stack, `calculate_context` leaves the context as compiled code
kept it exactly when it returns early or nothing is unaccounted for. -/
theorem calculateContext_eq_iff [DecidableEq M] {sa : StaticAnalysis M} {acts : List (Action M)}
    (h : run (Machine.step env) (Machine.start sa) acts = some mc) (maxDepth : Int) :
    (mc.calculateContext env maxDepth).context = mc.context ↔
      BailsOut maxDepth mc.sa mc.vframes.tail 1 ∨ unaccounted env mc.sa mc.vframes = 0 := by
  have hok := run_ok h
  obtain ⟨hstack, hsum⟩ := hok.stack.dropWhile
  have hv := vframes_eq mc
  unfold calculateContext
  cases has : mc.stack.dropWhile (fun a => !a.frame.isJavaFrame) with
  | nil =>
    rw [has] at hv
    simp [hv, unaccounted]
  | cons top rest =>
    rw [has] at hv hstack hsum
    rw [walk_vframes hv]
    obtain ⟨htop, hcallers⟩ := hstack
    have h0 : top.amount = 0 := by rw [amount, htop]; rfl
    have hcontext : mc.context = 0xFFFF + (rest.map amount).sum := by
      rw [hok.context, ← hsum, map_cons, sum_cons, h0, zero_add]
    have hwalk := walk_spec env maxDepth mc.sa (rest.map frame) (show 0 < 1 by decide) 0xFFFF
    simp only [hv, map_cons, isEmpty_cons, Bool.false_eq_true, if_false, tail_cons]
    by_cases hbail : BailsOut maxDepth mc.sa (rest.map frame) 1
    · rw [hwalk.1 hbail]
      simp [hbail]
    · rw [hwalk.2 hbail, Option.getD_some, hcallers.sum_siteIndex hok.emitted, ← add_assoc, ← hcontext]
      simp [hbail]

section Example

def twoMethods : Env Bool := ⟨true, false, fun _ => [], fun _ => 7⟩

def noIndices : StaticAnalysis Bool := ⟨.empty 1 Nat.one_pos, .empty 1 Nat.one_pos, fun _ => 0⟩

def trackedCall (callee : VFrame Bool) : List (Action Bool) :=
  [.parseCall false 3, .setTrackContext 10 1, .call (.java .compiled false 3), .call callee]

theorem calculateContext_eq_interpretedCallee :
    ∃ mc, run (Machine.step twoMethods) (Machine.start noIndices) (trackedCall (.java .interpreted true 0)) = some mc ∧
      mc.context = 0xFFFF + 10 ∧ (mc.calculateContext twoMethods 1024).context = mc.context := by
  obtain ⟨mc, hrun, hcontext, hzero⟩ : ∃ mc, run (Machine.step twoMethods) (Machine.start noIndices)
      (trackedCall (.java .interpreted true 0)) = some mc ∧ mc.context = 0xFFFF + 10 ∧
        unaccounted twoMethods mc.sa mc.vframes = 0 := ⟨_, rfl, rfl, rfl⟩
  exact ⟨mc, hrun, hcontext, (calculateContext_eq_iff hrun 1024).2 (.inr hzero)⟩

/-- An inlined callee: compiled code adds nothing, `calculate_context` adds the index. -/
theorem calculateContext_ne_inlinedCallee :
    ∃ mc, run (Machine.step twoMethods) (Machine.start noIndices) (trackedCall (.java .inlined true 0)) = some mc ∧
      mc.context = 0xFFFF ∧ (mc.calculateContext twoMethods 1024).context = 0xFFFF + 10 :=
  ⟨_, rfl, rfl, rfl⟩

end Example

end Rolp.Context
