import Rolp.Context.StaticAnalysis
import Rolp.Lib.Run

/-!
# The context of a thread and its stack

C2 code keeps the context of the thread up to date around every call that is not inlined (`Parse::do_call`, `do_context`
and `do_uncontext` of `opto/doCall.cpp`). `JavaThread::calculate_context` of `runtime/thread.cpp` computes it again from
the virtual frames of the stack.
-/

namespace Rolp.Context

open Rolp.Lib

variable {M : Type}

/-! ## Frames -/

/-- How the code of a Java frame runs. The virtual frame of an inlined method is part of the frame of its caller. -/
inductive Code where
  | interpreted
  | compiled
  | inlined
  deriving DecidableEq

/-- A virtual frame. The `bci` of a frame that is not on top is the one of its call in flight. -/
inductive VFrame (M : Type) where
  | external
  | java (code : Code) (method : M) (bci : BitVec 32)

namespace VFrame

def isJavaFrame : VFrame M → Bool
  | .external => false
  | .java _ _ _ => true

def isCompiledFrame : VFrame M → Bool
  | .external => false
  | .java code _ _ => code != .interpreted

def isInlined : VFrame M → Bool
  | .external => false
  | .java code _ _ => code == .inlined

/-- A call for which C2 has emitted `do_context`: compiled code calls a method and does not inline it. -/
def executesContext (caller callee : VFrame M) : Bool :=
  caller.isCompiledFrame && callee.isJavaFrame && !callee.isInlined

end VFrame

/-- What a compiled caller keeps over a call: the `ContextIndex` found when the call was compiled, its index, and the
flag `should_context` as loaded before the call. -/
structure Pending where
  cindex : BitVec 32
  index : BitVec 32
  shouldContext : BitVec 32

def Pending.amount (p : Pending) : BitVec 32 := if p.shouldContext ≠ 0 then p.index else 0

structure Activation (M : Type) where
  frame : VFrame M
  pending : Option Pending

def Activation.amount (a : Activation M) : BitVec 32 := (a.pending.map Pending.amount).getD 0

/-! ## The thread -/

/-- A Java thread, with the tables of the VM. `emitted m bci` is the result of `get_invoke_context` where the call was
compiled. The stack has its top frame first. -/
structure Machine (M : Type) where
  sa : StaticAnalysis M
  emitted : M → BitVec 32 → Option (Option (BitVec 32))
  stack : List (Activation M)
  context : BitVec 32

inductive Action (M : Type) where
  /-- C2 parses a call that it does not inline. -/
  | parseCall (m : M) (bci : BitVec 32)
  | call (callee : VFrame M)
  | goto (bci : BitVec 32)
  | ret
  | setTrackContext (key track : BitVec 32)

namespace Machine

def start (sa : StaticAnalysis M) : Machine M := ⟨sa, fun _ _ => none, [], 0xFFFF⟩

variable (mc : Machine M)

/-- The call of `callee` by the frame `a`, where `do_context` was emitted for `cindex`. -/
def doContext (a : Activation M) (rest : List (Activation M)) (callee : VFrame M) :
    Option (BitVec 32) → Option (Machine M)
  | none => some { mc with stack := ⟨callee, none⟩ :: ⟨a.frame, none⟩ :: rest }
  | some cindex => do
    let ci ← mc.sa.invoke2Context.find? cindex
    let p : Pending := ⟨cindex, ci.index, ci.trackContext⟩
    pure { mc with stack := ⟨callee, none⟩ :: ⟨a.frame, some p⟩ :: rest, context := mc.context + p.amount }

def emittedAt : VFrame M → Option (Option (BitVec 32))
  | .external => none
  | .java _ m bci => mc.emitted m bci

def doCall (callee : VFrame M) : Option (Machine M) :=
  match mc.stack with
  | [] => if callee.isInlined then none else some { mc with stack := [⟨callee, none⟩] }
  | a :: rest =>
    if callee.isInlined && !a.frame.isCompiledFrame then none
    else if a.frame.executesContext callee then (mc.emittedAt a.frame).bind (mc.doContext a rest callee)
    else some { mc with stack := ⟨callee, none⟩ :: ⟨a.frame, none⟩ :: rest }

def doReturn : Option (Machine M) :=
  match mc.stack with
  | [] => none
  | [_] => some { mc with stack := [] }
  | _ :: a :: rest => some { mc with stack := ⟨a.frame, none⟩ :: rest, context := mc.context - a.amount }

def idle (key : BitVec 32) : Bool := mc.stack.all fun a => a.pending.all fun p => p.cindex != key

def step [DecidableEq M] (env : Env M) (mc : Machine M) : Action M → Option (Machine M)
  | .parseCall m bci =>
    let (sa, cindex) := mc.sa.getInvokeContext env m bci
    some { mc with
      sa := sa
      emitted := Function.update mc.emitted m (Function.update (mc.emitted m) bci (some cindex)) }
  | .call callee => mc.doCall callee
  | .goto bci =>
    match mc.stack with
    | ⟨.java code m _, _⟩ :: rest => some { mc with stack := ⟨.java code m bci, none⟩ :: rest }
    | _ => none
  | .ret => mc.doReturn
  | .setTrackContext key track => if mc.idle key then some { mc with sa := mc.sa.setTrackContext key track } else none

end Machine

/-! ## Computing the context again -/

/-- The loop of `calculate_context` over the virtual frames. It has no result where the code returns early: at the frame
number `MaxJavaStackTraceDepth`, and at a method that was never compiled. -/
def walk [DecidableEq M] (env : Env M) (maxJavaStackTraceDepth : Int) :
    List (VFrame M) → Int → BitVec 32 → StaticAnalysis M → StaticAnalysis M × Option (BitVec 32)
  | [], _, calcContext, sa => (sa, some calcContext)
  | .external :: fs, count, calcContext, sa => walk env maxJavaStackTraceDepth fs count calcContext sa
  | .java code m bci :: fs, count, calcContext, sa =>
    -- The first frame is ignored because the context is only updated upon a call.
    if count = 0 then walk env maxJavaStackTraceDepth fs (count + 1) calcContext sa
    else if maxJavaStackTraceDepth = count + 1 then (sa, none)
    else if sa.methodContext m = 0 then (sa, none)
    else if code = .interpreted then walk env maxJavaStackTraceDepth fs (count + 1) calcContext sa
    else
      let (sa, ci) := sa.getInvokeContext env m bci
      walk env maxJavaStackTraceDepth fs (count + 1) (calcContext + (ci.map sa.trackedAt).getD 0) sa

def Machine.vframes (mc : Machine M) : List (VFrame M) :=
  (mc.stack.map Activation.frame).dropWhile fun f => !f.isJavaFrame

def Machine.calculateContext [DecidableEq M] (env : Env M) (maxJavaStackTraceDepth : Int) (mc : Machine M) :
    Machine M :=
  -- Without a last Java frame nothing is done.
  if mc.vframes.isEmpty then mc
  else
    let (sa, calcContext) := walk env maxJavaStackTraceDepth mc.vframes 0 0xFFFF mc.sa
    { mc with sa := sa, context := calcContext.getD mc.context }

variable [DecidableEq M] {env : Env M}

/-! ## The loop -/

def VFrame.siteIndex (env : Env M) (sa : StaticAnalysis M) : VFrame M → BitVec 32
  | .external => 0
  | .java code m bci => if code = .interpreted then 0 else sa.trackedIndex env m bci

def VFrame.known (sa : StaticAnalysis M) : VFrame M → Prop
  | .external => True
  | .java _ m _ => sa.methodContext m ≠ 0

def javaDepth (fs : List (VFrame M)) : Nat := fs.countP VFrame.isJavaFrame

def BailsOut (maxJavaStackTraceDepth : Int) (sa : StaticAnalysis M) (fs : List (VFrame M)) (count : Int) : Prop :=
  (count < maxJavaStackTraceDepth ∧ maxJavaStackTraceDepth ≤ count + javaDepth fs) ∨ ∃ f ∈ fs, ¬ f.known sa

section Walk

variable {maxDepth count : Int} {sa : StaticAnalysis M} {fs : List (VFrame M)}

omit [DecidableEq M] in
lemma bailsOut_external : BailsOut maxDepth sa (.external :: fs) count ↔ BailsOut maxDepth sa fs count := by
  simp [BailsOut, javaDepth, VFrame.isJavaFrame, VFrame.known]

omit [DecidableEq M] in
lemma bailsOut_java {code m bci} : BailsOut maxDepth sa (.java code m bci :: fs) count ↔
      maxDepth = count + 1 ∨ sa.methodContext m = 0 ∨ BailsOut maxDepth sa fs (count + 1) := by
  have hdepth : javaDepth (VFrame.java code m bci :: fs) = javaDepth fs + 1 := List.countP_cons_of_pos rfl
  have hcount : (count < maxDepth ∧ maxDepth ≤ count + (javaDepth fs + 1 : Nat)) ↔
      maxDepth = count + 1 ∨ (count + 1 < maxDepth ∧ maxDepth ≤ count + 1 + javaDepth fs) := by
    omega
  simp only [BailsOut, hdepth, hcount, List.exists_mem_cons_iff, VFrame.known, not_not]
  exact or_assoc.trans (or_congr_right or_left_comm)

omit [DecidableEq M] in
lemma not_bailsOut_nil : ¬ BailsOut maxDepth sa [] count := by
  rintro (⟨h1, h2⟩ | ⟨f, hf, -⟩)
  · simp only [javaDepth, List.countP_nil] at h2
    omega
  · cases hf

lemma siteIndex_getInvokeContext {m} (h : sa.methodContext m ≠ 0) (bci) :
    VFrame.siteIndex env (sa.getInvokeContext env m bci).1 = VFrame.siteIndex env sa := by
  funext f
  cases f with
  | external => rfl
  | java code m' bci' =>
    simp only [VFrame.siteIndex, StaticAnalysis.trackedIndex, sa.trackedAt_getInvokeContext,
      StaticAnalysis.methodContext_getInvokeContext_of_ne env sa m bci h]

omit [DecidableEq M] in
lemma bailsOut_congr {sa'} (h : sa'.methodContext = sa.methodContext) :
    BailsOut maxDepth sa' fs count ↔ BailsOut maxDepth sa fs count := by
  have hknown : ∀ f : VFrame M, f.known sa' ↔ f.known sa := by
    intro f
    cases f with
    | external => exact .rfl
    | java code m bci => simp only [VFrame.known, h]
  simp only [BailsOut, hknown]

lemma walk_spec (env : Env M) (maxDepth : Int) (sa : StaticAnalysis M) (fs : List (VFrame M))
    (hcount : 0 < count) (acc : BitVec 32) :
    (BailsOut maxDepth sa fs count → (walk env maxDepth fs count acc sa).2 = none) ∧ (¬ BailsOut maxDepth sa fs count →
        (walk env maxDepth fs count acc sa).2 = some (acc + (fs.map (VFrame.siteIndex env sa)).sum)) := by
  induction fs generalizing count acc sa with
  | nil => exact ⟨fun h => absurd h not_bailsOut_nil, fun _ => by simp [walk]⟩
  | cons f fs ih =>
    cases f with
    | external =>
      rw [bailsOut_external, List.map_cons, List.sum_cons, VFrame.siteIndex, zero_add]
      exact ih sa hcount acc
    | java code m bci =>
      rw [walk, bailsOut_java, if_neg (by omega), List.map_cons, List.sum_cons]
      by_cases hmax : maxDepth = count + 1
      · simp [hmax]
      by_cases hm : sa.methodContext m = 0
      · simp [hm]
      simp only [hmax, hm, false_or]
      by_cases hcode : code = .interpreted
      · rw [if_pos hcode, VFrame.siteIndex, if_pos hcode, zero_add]
        exact ih sa (by omega) acc
      · rw [if_neg hcode, VFrame.siteIndex, if_neg hcode, ← add_assoc, ← sa.trackedAt_getInvokeContext_snd m bci hm]
        have hsa := StaticAnalysis.methodContext_getInvokeContext_of_ne env sa m bci hm
        rw [← bailsOut_congr hsa, ← siteIndex_getInvokeContext hm bci]
        exact ih _ (by omega) _

end Walk

end Rolp.Context
