import Rolp.Context.Theorems

/-!
# Contexts around calls and exceptions

What compiled code adds before a call is undone inline after a normal return, and in `JavaThread::do_uncontext` when an
exception leaves a C2-compiled callee through `OptoRuntime::rethrow_C`. Other callees unwind without it. A call tree is
everything that a call does until control is back in its caller.
-/

namespace Rolp.Context

open Rolp.Lib

variable {M : Type}

/-! ## Call trees -/

/-- How a method runs. A native method has a compiled wrapper here, else it counts as interpreted. -/
inductive Kind where
  | interpreted
  | native
  | c1
  | c2
  deriving DecidableEq

def Kind.isCompiledFrame : Kind → Bool
  | .interpreted => false
  | .native => true
  | .c1 => true
  | .c2 => true

inductive Exit where
  | normal
  | exception
  deriving DecidableEq

/-- What the activation of a method does. A call has its site, the `ContextIndex` that C2 found for it (used if the
caller is C2 code), the kind and the body of the callee, and how the caller goes on after a return and after an
exception: with `throw` if it has no handler. -/
inductive Body (M : Type) where
  | ret
  | throw
  | setTrackContext (key track : BitVec 32) (next : Body M)
  | call (m : M) (bci : BitVec 32) (cindex : Option (BitVec 32)) (kind : Kind) (callee next handler : Body M)

structure ThreadState (M : Type) where
  sa : StaticAnalysis M
  context : BitVec 32

/-! ## Execution -/

/-- What `do_context` adds at a site: nothing without a `ContextIndex` or with tracking off. -/
def contextAmount (sa : StaticAnalysis M) (caller : Kind) (cindex : Option (BitVec 32)) : BitVec 32 :=
  if caller = .c2 then (cindex.map sa.trackedAt).getD 0 else 0

/-- `JavaThread::do_uncontext` on the frame of the caller, at the call in flight. -/
def doUncontext [DecidableEq M] (env : Env M) (caller : Kind) (m : M) (bci : BitVec 32) (st : ThreadState M) :
    ThreadState M :=
  if st.sa.methodContext m = 0 then st
  else
    let (sa, ci) := st.sa.getInvokeContext env m bci
    ⟨sa, if caller.isCompiledFrame then st.context - (ci.map sa.trackedAt).getD 0 else st.context⟩

/-- The state when control is back in the caller. `amount` is what was added before the call. -/
def leaveCall [DecidableEq M] (env : Env M) (caller : Kind) (m : M) (bci : BitVec 32) (kind : Kind)
    (amount : BitVec 32) (st : ThreadState M) : Exit → ThreadState M
  | .normal => { st with context := st.context - amount }
  | .exception => if kind = .c2 then doUncontext env caller m bci st else st

def exec [DecidableEq M] (env : Env M) (caller : Kind) : Body M → ThreadState M → ThreadState M × Exit
  | .ret, st => (st, .normal)
  | .throw, st => (st, .exception)
  | .setTrackContext key track next, st => exec env caller next { st with sa := st.sa.setTrackContext key track }
  | .call m bci cindex kind callee next handler, st =>
    let amount := contextAmount st.sa caller cindex
    let (st', exit) := exec env kind callee { st with context := st.context + amount }
    match exit with
    | .normal => exec env caller next (leaveCall env caller m bci kind amount st' .normal)
    | .exception => exec env caller handler (leaveCall env caller m bci kind amount st' .exception)

def execCall [DecidableEq M] (env : Env M) (caller : Kind) (m : M) (bci : BitVec 32) (cindex : Option (BitVec 32))
    (kind : Kind) (callee : Body M) (st : ThreadState M) : ThreadState M :=
  let amount := contextAmount st.sa caller cindex
  let (st', exit) := exec env kind callee { st with context := st.context + amount }
  leaveCall env caller m bci kind amount st' exit

/-! ## Calls that an exception leaves -/

def Body.exit : Body M → Exit
  | .ret => .normal
  | .throw => .exception
  | .setTrackContext _ _ next => next.exit
  | .call _ _ _ _ callee next handler =>
    match callee.exit with
    | .normal => next.exit
    | .exception => handler.exit

/-- The tables after an exception left a callee: for a C2 callee `do_uncontext` looks up the site. -/
def unwindTables [DecidableEq M] (env : Env M) (m : M) (bci : BitVec 32) (kind : Kind) (sa : StaticAnalysis M) :
    StaticAnalysis M :=
  if kind = .c2 ∧ sa.methodContext m ≠ 0 then (sa.getInvokeContext env m bci).1 else sa

def Body.tables [DecidableEq M] (env : Env M) : Body M → StaticAnalysis M → StaticAnalysis M
  | .ret, sa => sa
  | .throw, sa => sa
  | .setTrackContext key track next, sa => next.tables env (sa.setTrackContext key track)
  | .call m bci _ kind callee next handler, sa =>
    match callee.exit with
    | .normal => next.tables env (callee.tables env sa)
    | .exception => handler.tables env (unwindTables env m bci kind (callee.tables env sa))

/-- A call that an exception leaves, with the tables before the call and when the exception reaches the caller. -/
structure Unwound (M : Type) where
  caller : Kind
  m : M
  bci : BitVec 32
  cindex : Option (BitVec 32)
  kind : Kind
  atCall : StaticAnalysis M
  atUnwind : StaticAnalysis M

def Unwound.added (u : Unwound M) : BitVec 32 := contextAmount u.atCall u.caller u.cindex

/-- The index that is taken away again: that of the site, if the callee is C2 code and the caller is compiled and
has a method with a hash. -/
def Unwound.takenAway (env : Env M) (u : Unwound M) : BitVec 32 :=
  if u.kind = .c2 ∧ u.atUnwind.methodContext u.m ≠ 0 ∧ u.caller.isCompiledFrame = true then
    u.atUnwind.trackedIndex env u.m u.bci
  else 0

def Body.unwound [DecidableEq M] (env : Env M) (caller : Kind) : Body M → StaticAnalysis M → List (Unwound M)
  | .ret, _ => []
  | .throw, _ => []
  | .setTrackContext key track next, sa => next.unwound env caller (sa.setTrackContext key track)
  | .call m bci cindex kind callee next handler, sa =>
    callee.unwound env kind sa ++
      match callee.exit with
      | .normal => next.unwound env caller (callee.tables env sa)
      | .exception =>
        ⟨caller, m, bci, cindex, kind, sa, callee.tables env sa⟩ ::
          handler.unwound env caller (unwindTables env m bci kind (callee.tables env sa))

def netAdded (env : Env M) (us : List (Unwound M)) : BitVec 32 :=
  (us.map Unwound.added).sum - (us.map (Unwound.takenAway env)).sum

section Unwound

variable {env : Env M}

@[simp] lemma netAdded_nil : netAdded env ([] : List (Unwound M)) = 0 := by simp [netAdded]

lemma netAdded_append (us vs) : netAdded env (us ++ vs) = netAdded env us + netAdded env vs := by
  simp only [netAdded, List.map_append, List.sum_append]
  exact add_sub_add_comm _ _ _ _

lemma netAdded_cons (u us) : netAdded env (u :: us) = u.added - u.takenAway env + netAdded env us := by
  exact add_sub_add_comm _ _ _ _

lemma Unwound.added_eq_takenAway {u : Unwound M} (hcaller : u.caller = .c2) (hkind : u.kind = .c2)
    (hem : EmittedOk env u.atCall u.m u.bci u.cindex) (hm : u.atUnwind.methodContext u.m ≠ 0)
    (hflag : u.atUnwind.trackedIndex env u.m u.bci = u.atCall.trackedIndex env u.m u.bci) :
    u.added = u.takenAway env := by
  rw [Unwound.added, contextAmount, if_pos hcaller, hem.trackedIndex, Unwound.takenAway, hcaller,
    if_pos ⟨hkind, hm, rfl⟩, hflag]

variable [DecidableEq M]

lemma doUncontext_eq (caller m bci st) : doUncontext env caller m bci st =
      ⟨if st.sa.methodContext m ≠ 0 then (st.sa.getInvokeContext env m bci).1 else st.sa,
        st.context - if st.sa.methodContext m ≠ 0 ∧ caller.isCompiledFrame = true then
          st.sa.trackedIndex env m bci else 0⟩ := by
  unfold doUncontext
  by_cases hm : st.sa.methodContext m = 0
  · rw [if_pos hm, if_neg (not_not.2 hm), if_neg (fun h => h.1 hm), sub_zero]
  · rw [if_neg hm, if_pos hm]
    by_cases hk : caller.isCompiledFrame = true
    · rw [if_pos ⟨hm, hk⟩, ← st.sa.trackedAt_getInvokeContext_snd m bci hm]
      simp only [hk, if_true]
    · simp [hk]

lemma leaveCall_exception (u : Unwound M) (context : BitVec 32) :
    leaveCall env u.caller u.m u.bci u.kind u.added ⟨u.atUnwind, context + u.added⟩ .exception =
      ⟨unwindTables env u.m u.bci u.kind u.atUnwind, context + (u.added - u.takenAway env)⟩ := by
  simp only [leaveCall, unwindTables, Unwound.takenAway]
  by_cases hk : u.kind = .c2
  · simp only [hk, if_true, true_and]
    rw [doUncontext_eq, add_sub_assoc]
  · simp [hk]

lemma exec_eq (b : Body M) (caller : Kind) (sa : StaticAnalysis M) (context : BitVec 32) :
    exec env caller b ⟨sa, context⟩ =
      (⟨b.tables env sa, context + netAdded env (b.unwound env caller sa)⟩, b.exit) := by
  induction b generalizing caller sa context with
  | ret => simp [exec, Body.tables, Body.unwound, Body.exit]
  | throw => simp [exec, Body.tables, Body.unwound, Body.exit]
  | setTrackContext key track next ih => exact ih caller _ context
  | call m bci cindex kind callee next handler ihc ihn ihh =>
    simp only [exec, Body.tables, Body.unwound, Body.exit, ihc]
    rw [add_right_comm, netAdded_append]
    cases callee.exit with
    | normal =>
      simp only [leaveCall, add_sub_cancel_right, ihn]
      rw [add_assoc]
    | exception =>
      have hleave : ∀ c, leaveCall env caller m bci kind (contextAmount sa caller cindex)
          ⟨callee.tables env sa, c + contextAmount sa caller cindex⟩ .exception = _ :=
        leaveCall_exception ⟨caller, m, bci, cindex, kind, sa, callee.tables env sa⟩
      simp only [hleave, ihh, netAdded_cons]
      rw [add_assoc, add_assoc]

lemma execCall_eq (caller m bci cindex kind) (callee st) : execCall env caller m bci cindex kind callee st =
      (exec env caller (.call m bci cindex kind callee .ret .throw) st).1 := by
  simp only [execCall, exec]
  cases (exec env kind callee { st with context := st.context + contextAmount st.sa caller cindex }).2 with
  | normal => rfl
  | exception => rfl

end Unwound

/-- Nothing is left behind if every exception goes from a C2 callee to C2 code, at a site compiled with its index and an
unchanged flag, in a method with a hash. -/
theorem execCall_context_of_c2 [DecidableEq M] {env : Env M} {m : M} {bci : BitVec 32} {cindex : Option (BitVec 32)}
    {kind : Kind} {callee : Body M} {st : ThreadState M}
    (h : ∀ u ∈ (Body.call m bci cindex kind callee .ret .throw).unwound env .c2 st.sa,
      u.caller = .c2 ∧ u.kind = .c2 ∧ EmittedOk env u.atCall u.m u.bci u.cindex ∧ u.atUnwind.methodContext u.m ≠ 0 ∧
        u.atUnwind.trackedIndex env u.m u.bci = u.atCall.trackedIndex env u.m u.bci) :
    (execCall env .c2 m bci cindex kind callee st).context = st.context := by
  have heq : ∀ u ∈ (Body.call m bci cindex kind callee .ret .throw).unwound env .c2 st.sa,
      u.added = u.takenAway env := by
    intro u hu
    obtain ⟨hcaller, hkind, hem, hm, hflag⟩ := h u hu
    exact u.added_eq_takenAway hcaller hkind hem hm hflag
  rw [execCall_eq, exec_eq, add_eq_left, netAdded, List.map_congr_left heq, sub_self]

/-- The context is back at its value from before a call out of C2 code exactly when, over all the calls in it that an
exception leaves, the indices that C2 callers added are those that were taken away for C2 callees. -/
theorem execCall_balanced_iff [DecidableEq M] (env : Env M) (m : M) (bci : BitVec 32) (cindex : Option (BitVec 32))
    (kind : Kind) (callee : Body M) (st : ThreadState M) :
    (execCall env .c2 m bci cindex kind callee st).context = st.context ↔
      (((Body.call m bci cindex kind callee .ret .throw).unwound env .c2 st.sa).map Unwound.added).sum =
        (((Body.call m bci cindex kind callee .ret .throw).unwound env .c2 st.sa).map (Unwound.takenAway env)).sum := by
  rw [execCall_eq, exec_eq, add_eq_left, netAdded, sub_eq_zero]

/-- A tracked call, with index 10, of an interpreted method that throws. -/
theorem execCall_interpreted_throw :
    (execCall (M := Unit) ⟨true, false, fun _ => [], fun _ => 7⟩ .c2 () 3 (some 10) .interpreted .throw
      ⟨⟨(ChainTable.empty 1 (by decide)).addEntry 10 ⟨10, 1⟩ rfl, .empty 1 (by decide), fun _ => 7⟩, 0xFFFF⟩).context =
        0xFFFF + 10 := by
  decide

theorem execCall_c2_throw :
    (execCall (M := Unit) ⟨true, false, fun _ => [], fun _ => 7⟩ .c2 () 3 (some 10) .c2 .throw
      ⟨⟨(ChainTable.empty 1 (by decide)).addEntry 10 ⟨10, 1⟩ rfl, .empty 1 (by decide), fun _ => 7⟩, 0xFFFF⟩).context =
        0xFFFF :=
  execCall_context_of_c2 fun u hu => by
    obtain rfl := List.mem_singleton.1 hu
    exact ⟨rfl, rfl, ⟨by decide, .inl ⟨rfl, _, rfl⟩⟩, by decide, rfl⟩

end Rolp.Context
