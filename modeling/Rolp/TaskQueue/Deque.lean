import Rolp.Lib.Run
import Mathlib.Data.Fintype.BigOperators

/-!
# The work-stealing deque

`GenericTaskQueue` of `taskqueue.hpp`: one owner pushes and pops at the bottom, any number of thieves pop at the top. A
program counter says where a thread is in its operation, and each event is one access to the shared memory, so runs are
the sequentially consistent interleavings. The capacity `N` is a power of two.
-/

namespace Rolp.TaskQueue

open Rolp.Lib

/-! ## Indices -/

def incrementIndex (N ind : Nat) : Nat := (ind + 1) % 2 ^ 32 &&& (N - 1)

def decrementIndex (N ind : Nat) : Nat := (ind + 2 ^ 32 - 1) % 2 ^ 32 &&& (N - 1)

def dirtySize (N bot top : Nat) : Nat := (bot + 2 ^ 32 - top) % 2 ^ 32 &&& (N - 1)

def size (N bot top : Nat) : Nat :=
  let sz := dirtySize N bot top
  if sz = N - 1 then 0 else sz

def maxElems (N : Nat) : Nat := N - 2

/-- The top index and the tag, which share one word. The tag counts on without end; its field holds the low 32 bits. -/
structure Age where
  top : Nat
  tag : Nat
  deriving DecidableEq

def Age.data (a : Age) : Nat × Nat := (a.top, a.tag % 2 ^ 32)

def Age.increment (N : Nat) (a : Age) : Age :=
  let top := incrementIndex N a.top
  ⟨top, if top = 0 then a.tag + 1 else a.tag⟩

/-! ## Threads -/

/-- Where the owner is in `push`, `push_slow`, `pop_local` or `pop_local_slow`, with the locals it still uses. Each name
says which shared variable is accessed next. -/
inductive OwnerPc (E : Type) where
  | idle
  | pushTop (t : E) (localBot : Nat)
  | pushSlowBottom (t : E)
  | pushElem (t : E) (localBot : Nat)
  | pushBottom (t : E) (localBot : Nat)
  | popTop (localBot : Nat)
  | popBottom (localBot : Nat)
  | popElem (localBot : Nat)
  | popTopAgain (localBot : Nat) (t : E)
  | popSlowAge (localBot : Nat) (t : E)
  | popSlowCas (localBot : Nat) (t : E) (oldAge : Age)
  | popSlowSet (newAge : Age)
  deriving DecidableEq

/-- Where a thief is in `pop_global`. -/
inductive ThiefPc (E : Type) where
  | idle
  | bottom (oldAge : Age)
  | elem (oldAge : Age)
  | cas (oldAge : Age) (t : E)
  deriving DecidableEq

def ThiefPc.TagKept {E : Type} (age : Age) : ThiefPc E → Prop
  | .cas oldAge _ => age.tag < oldAge.tag + 2 ^ 32
  | _ => True

instance {E : Type} (age : Age) : (pc : ThiefPc E) → Decidable (pc.TagKept age)
  | .cas oldAge _ => inferInstanceAs (Decidable (age.tag < oldAge.tag + 2 ^ 32))
  | .idle | .bottom _ | .elem _ => .isTrue trivial

structure Deque (E ι : Type) where
  elems : Nat → E
  bottom : Nat
  age : Age
  owner : OwnerPc E
  thieves : ι → ThiefPc E

/-- What the last access of an operation returns. -/
inductive Outcome (E : Type) where
  | pushed (t : E)
  | rejected (t : E)
  | popped (t : E)
  | empty
  | stolen (t : E)
  | missed
  deriving DecidableEq

inductive Event (E ι : Type) where
  /-- The owner calls `push`, which reads the bottom. -/
  | push (t : E)
  /-- The owner calls `pop_local`, which reads the bottom. -/
  | popLocal
  | owner
  /-- The thief makes its next access; an idle one calls `pop_global`. -/
  | thief (i : ι)
  deriving DecidableEq

namespace Deque

variable {E ι : Type}

def new (junk : Nat → E) : Deque E ι := ⟨junk, 0, ⟨0, 0⟩, .idle, fun _ => .idle⟩

def begin (pc : OwnerPc E) (q : Deque E ι) : Option (Deque E ι × Option (Outcome E)) :=
  match q.owner with
  | .idle => some ({ q with owner := pc }, none)
  | _ => none

def ownerNext (N : Nat) (q : Deque E ι) : Option (Deque E ι × Option (Outcome E)) :=
  match q.owner with
  | .idle => none
  | .pushTop t localBot =>
    let dirtyNElems := dirtySize N localBot q.age.top
    if dirtyNElems < maxElems N then some ({ q with owner := .pushElem t localBot }, none)
    -- The rest is `push_slow`.
    else if dirtyNElems = N - 1 then some ({ q with owner := .pushSlowBottom t }, none)
    else some ({ q with owner := .idle }, some (.rejected t))
  | .pushSlowBottom t => some ({ q with owner := .pushElem t q.bottom }, none)
  | .pushElem t localBot =>
    some ({ q with elems := Function.update q.elems localBot t, owner := .pushBottom t localBot }, none)
  | .pushBottom t localBot => some ({ q with bottom := incrementIndex N localBot, owner := .idle }, some (.pushed t))
  | .popTop localBot =>
    if dirtySize N localBot q.age.top = 0 then some ({ q with owner := .idle }, some .empty)
    else some ({ q with owner := .popBottom (decrementIndex N localBot) }, none)
  | .popBottom localBot => some ({ q with bottom := localBot, owner := .popElem localBot }, none)
  | .popElem localBot => some ({ q with owner := .popTopAgain localBot (q.elems localBot) }, none)
  | .popTopAgain localBot t =>
    if 0 < size N localBot q.age.top then some ({ q with owner := .idle }, some (.popped t))
    else some ({ q with owner := .popSlowAge localBot t }, none)
  | .popSlowAge localBot t =>
    if localBot = q.age.top then some ({ q with owner := .popSlowCas localBot t q.age }, none)
    else some ({ q with owner := .popSlowSet ⟨localBot, q.age.tag + 1⟩ }, none)
  | .popSlowCas localBot t oldAge =>
    if q.age.data = oldAge.data then
      some ({ q with age := ⟨localBot, oldAge.tag + 1⟩, owner := .idle }, some (.popped t))
    else some ({ q with owner := .popSlowSet ⟨localBot, oldAge.tag + 1⟩ }, none)
  | .popSlowSet newAge => some ({ q with age := newAge, owner := .idle }, some .empty)

variable [DecidableEq ι]

def setThief (q : Deque E ι) (i : ι) (pc : ThiefPc E) : Deque E ι :=
  { q with thieves := Function.update q.thieves i pc }

def thiefNext (N : Nat) (i : ι) (q : Deque E ι) : Deque E ι × Option (Outcome E) :=
  match q.thieves i with
  | .idle => (q.setThief i (.bottom q.age), none)
  | .bottom oldAge =>
    if size N q.bottom oldAge.top = 0 then (q.setThief i .idle, some .missed)
    else (q.setThief i (.elem oldAge), none)
  | .elem oldAge => (q.setThief i (.cas oldAge (q.elems oldAge.top)), none)
  | .cas oldAge t =>
    if q.age.data = oldAge.data then
      ({ q with age := oldAge.increment N }.setThief i .idle, some (.stolen t))
    else (q.setThief i .idle, some .missed)

def next (N : Nat) (q : Deque E ι) : Event E ι → Option (Deque E ι × Option (Outcome E))
  | .push t => q.begin (.pushTop t q.bottom)
  | .popLocal => q.begin (.popTop q.bottom)
  | .owner => q.ownerNext N
  | .thief i => some (q.thiefNext N i)

def TagKept (q : Deque E ι) : Event E ι → Prop
  | .thief i => (q.thieves i).TagKept q.age
  | _ => True

instance (q : Deque E ι) : (ev : Event E ι) → Decidable (q.TagKept ev)
  | .thief i => inferInstanceAs (Decidable ((q.thieves i).TagKept q.age))
  | .push _ | .popLocal | .owner => .isTrue trivial

end Deque

/-! ## Histories -/

structure History (E ι : Type) where
  deque : Deque E ι
  outcomes : List (Outcome E)

namespace History

variable {E ι : Type}

def new (junk : Nat → E) : History E ι := ⟨.new junk, []⟩

def step [DecidableEq ι] (N : Nat) (s : History E ι) (ev : Event E ι) : Option (History E ι) :=
  (s.deque.next N ev).map fun r => ⟨r.1, s.outcomes ++ r.2.toList⟩

variable (outcomes : List (Outcome E))

def pushed : Multiset E :=
  outcomes.filterMap fun
    | .pushed t => some t
    | _ => none

def popped : Multiset E :=
  outcomes.filterMap fun
    | .popped t => some t
    | .stolen t => some t
    | _ => none

end History

structure Deque.Quiet {E ι : Type} (q : Deque E ι) : Prop where
  owner : q.owner = .idle
  thieves : ∀ i, q.thieves i = .idle

def Deque.slots {E ι : Type} (N : Nat) (q : Deque E ι) : List E :=
  (List.range (dirtySize N q.bottom q.age.top)).map fun i => q.elems ((q.age.top + i) % N)

/-! ## What a deque is for -/

variable {E : Type} {N : Nat} {o : Outcome E} {os : List (Outcome E)} {c c' : List E}

def Outcome.Effect (N : Nat) : Outcome E → List E → List E → Prop
  | .pushed t, c, c' => c' = c ++ [t]
  | .rejected _, c, c' => c' = c ∧ N - 2 ≤ c.length
  | .popped t, c, c' => c = c' ++ [t]
  | .empty, c, c' => c = [] ∧ c' = []
  | .stolen t, c, c' => c = t :: c'
  | .missed, c, c' => c' = c

def Effect (N : Nat) : Option (Outcome E) → List E → List E → Prop
  | none, c, c' => c' = c
  | some o, c, c' => o.Effect N c c'

/-- The outcomes of operations that are made one after another on a deque that is empty at first and ends with the tasks
`c`. -/
inductive Sequential (N : Nat) : List (Outcome E) → List E → Prop where
  | nil : Sequential N [] []
  | snoc {os : List (Outcome E)} {o : Outcome E} {c c' : List E} :
      Sequential N os c → o.Effect N c c' → Sequential N (os ++ [o]) c'

lemma History.pushed_append (os os' : List (Outcome E)) : pushed (os ++ os') = pushed os + pushed os' := by
  simp [pushed]

lemma History.popped_append (os os' : List (Outcome E)) : popped (os ++ os') = popped os + popped os' := by
  simp [popped]

open History

lemma effect_balance (h : o.Effect N c c') : (c : Multiset E) + pushed [o] = popped [o] + c' := by
  cases o with
  | pushed t =>
    cases h
    rw [← Multiset.coe_add]
    simp [pushed, popped]
  | rejected t =>
    rw [h.1]
    simp [pushed, popped]
  | popped t =>
    cases h
    rw [← Multiset.coe_add]
    simp [pushed, popped, add_comm]
  | empty =>
    rw [h.1, h.2]
    simp [pushed, popped]
  | stolen t =>
    cases h
    simp [pushed, popped]
  | missed =>
    cases h
    simp [pushed, popped]

namespace Sequential

lemma balance (h : Sequential N os c) : pushed os = popped os + c := by
  induction h with
  | nil => rfl
  | snoc _ he ih => rw [pushed_append, popped_append, ih, add_assoc, effect_balance he, add_assoc]

lemma card_eq (h : Sequential N os c) : c.length = (pushed os).card - (popped os).card := by
  rw [h.balance, Multiset.card_add, Nat.add_sub_cancel_left, Multiset.coe_card]

lemma rejected_when_full (h : Sequential N os c) :
    AtEach (fun before o => ∀ t, o = .rejected t → N - 2 ≤ (pushed before).card - (popped before).card) os := by
  induction h with
  | nil => exact atEach_nil _
  | snoc h he ih =>
    refine atEach_snoc ih ?_
    rintro t rfl
    exact h.card_eq ▸ he.2

end Sequential

end Rolp.TaskQueue

/-!
## Parallel termination

`n` workers share a `GenericTaskQueueSet` and a `ParallelTaskTerminator`. A worker executes tasks, which create tasks,
and pushes, pops and steals them. When it has no task and a steal has failed, it calls `offer_termination`, without a
`TerminatorTerminator`, and goes back to stealing if that returns false. Each event is a local action of a worker or one
access to the shared memory.
-/

namespace Rolp.TaskQueue

/-- Where a worker is outside the operations on its own queue. The names say which shared variable is accessed next. -/
inductive Phase (n : Nat) where
  | working
  /-- As `working`, but the last steal has failed. -/
  | stealFailed
  /-- In `steal`, before call `i` of `steal_best_of_2`. -/
  | steal (i : Nat)
  | sampleBottom1 (i : Nat) (k1 k2 : Fin n)
  | sampleTop1 (i : Nat) (k1 k2 : Fin n) (bot : Nat)
  | sampleBottom2 (i : Nat) (k1 k2 : Fin n) (sz1 : Nat)
  | sampleTop2 (i : Nat) (k1 k2 : Fin n) (sz1 bot : Nat)
  | popGlobal (i : Nat) (k : Fin n)
  /-- In the loop of `offer_termination`, before the number of offers is read. -/
  | check
  | peekBottom (j : Fin n)
  | peekTop (j : Fin n) (bot : Nat)
  /-- A task has been seen, and the offer is to be taken back. -/
  | withdraw
  /-- `offer_termination` has returned true. -/
  | terminated
  deriving DecidableEq

namespace Phase

variable {n : Nat}

def free : Phase n → Bool
  | .working | .stealFailed => true
  | _ => false

def offers : Phase n → Bool
  | .check | .peekBottom _ | .peekTop _ _ | .withdraw | .terminated => true
  | _ => false

def stealFrom (i : Nat) : Phase n := if i < 2 * n then .steal i else .stealFailed

def peekFrom (j : Nat) : Phase n := if h : j < n then .peekBottom ⟨j, h⟩ else .check

/-- The random choices of worker `w` in `steal_best_of_2` are `k1` and `k2`. -/
def stealBestOf2 (w : Fin n) (i : Nat) (k1 k2 : Fin n) : Option (Phase n) :=
  if 2 < n then
    if k1 ≠ w ∧ k2 ≠ w ∧ k2 ≠ k1 then some (.sampleBottom1 i k1 k2) else none
  else if h : n = 2 then some (.popGlobal i ⟨(w + 1) % 2, by omega⟩)
  else some (stealFrom (i + 1))

/-- After an access in `pop_global`. -/
def afterPopGlobal {E : Type} (i : Nat) (k : Fin n) : Option (Outcome E) → Phase n
  | none => .popGlobal i k
  | some .missed => stealFrom (i + 1)
  | some _ => .working

end Phase

inductive Action (E : Type) (n : Nat) where
  /-- The task at position `k` in the worker's hands is executed and creates `children`. -/
  | execute (k : Nat) (children : List E)
  /-- `push` is called with the task at position `k` in the worker's hands. -/
  | push (k : Nat)
  | popLocal
  | steal
  | choose (k1 k2 : Fin n)
  | offerTermination
  | next
  deriving DecidableEq

structure System (E : Type) (n : Nat) where
  queues : Fin n → Deque E (Fin n)
  hands : Fin n → List E
  phases : Fin n → Phase n
  offeredTermination : Int
  executed : List E

def Outcome.received {E : Type} : Option (Outcome E) → List E
  | some (.rejected t) | some (.popped t) | some (.stolen t) => [t]
  | _ => []

namespace System

variable {E : Type} {n : Nat}

def start (junk : Nat → E) (hands : Fin n → List E) : System E n :=
  ⟨fun _ => .new junk, hands, fun _ => .working, 0, []⟩

variable (s : System E n)

def setPhase (w : Fin n) (ph : Phase n) : System E n := { s with phases := Function.update s.phases w ph }

def setHand (w : Fin n) (hand : List E) : System E n := { s with hands := Function.update s.hands w hand }

def setQueue (k : Fin n) (q : Deque E (Fin n)) : System E n :=
  { s with queues := Function.update s.queues k q }

section

variable (N : Nat) (s : System E n)

def access (w k : Fin n) (ev : Event E (Fin n)) (hand : List E) : Option (System E n × Option (Outcome E)) :=
  ((s.queues k).next N ev).map fun r => ((s.setQueue k r.1).setHand w (Outcome.received r.2 ++ hand), r.2)

def ownAccess (w : Fin n) (ev : Event E (Fin n)) (hand : List E) : Option (System E n) :=
  (s.access N w w ev hand).map Prod.fst

/-- The next step of the operation that worker `w` is in. -/
def next (w : Fin n) : Option (System E n) :=
  match s.phases w with
  | .working | .stealFailed => s.ownAccess N w .owner (s.hands w)
  | .sampleBottom1 i k1 k2 => some (s.setPhase w (.sampleTop1 i k1 k2 (s.queues k1).bottom))
  | .sampleTop1 i k1 k2 bot => some (s.setPhase w (.sampleBottom2 i k1 k2 (size N bot (s.queues k1).age.top)))
  | .sampleBottom2 i k1 k2 sz1 => some (s.setPhase w (.sampleTop2 i k1 k2 sz1 (s.queues k2).bottom))
  | .sampleTop2 i k1 k2 sz1 bot =>
    let sz2 := size N bot (s.queues k2).age.top
    some (s.setPhase w (.popGlobal i (if sz1 < sz2 then k2 else k1)))
  | .popGlobal i k => (s.access N w k (.thief w) (s.hands w)).map fun r => r.1.setPhase w (.afterPopGlobal i k r.2)
  | .check => if s.offeredTermination = n then some (s.setPhase w .terminated) else some (s.setPhase w (.peekFrom 0))
  | .peekBottom j => some (s.setPhase w (.peekTop j (s.queues j).bottom))
  | .peekTop j bot =>
    if bot ≠ (s.queues j).age.top then some (s.setPhase w .withdraw) else some (s.setPhase w (.peekFrom (j + 1)))
  | .withdraw => some { s.setPhase w (.stealFrom 0) with offeredTermination := s.offeredTermination - 1 }
  | .steal _ | .terminated => none

def act (w : Fin n) : Action E n → Option (System E n)
  | .execute k children =>
    match (s.phases w).free, (s.queues w).owner, (s.hands w)[k]? with
    | true, .idle, some t =>
      some { s.setHand w (children ++ (s.hands w).eraseIdx k) with executed := s.executed ++ [t] }
    | _, _, _ => none
  | .push k =>
    match (s.phases w).free, (s.hands w)[k]? with
    | true, some t => s.ownAccess N w (.push t) ((s.hands w).eraseIdx k)
    | _, _ => none
  | .popLocal => if (s.phases w).free then s.ownAccess N w .popLocal (s.hands w) else none
  | .steal =>
    match (s.phases w).free, (s.queues w).owner with
    | true, .idle => some (s.setPhase w (.stealFrom 0))
    | _, _ => none
  | .choose k1 k2 =>
    match s.phases w with
    | .steal i => (Phase.stealBestOf2 w i k1 k2).map (s.setPhase w)
    | _ => none
  | .offerTermination =>
    -- What the callers see to: the worker has no task and its queue is empty.
    match s.phases w, s.hands w, (s.queues w).owner with
    | .stealFailed, [], .idle =>
      if (s.queues w).bottom = (s.queues w).age.top then
        some { s.setPhase w .check with offeredTermination := s.offeredTermination + 1 }
      else none
    | _, _, _ => none
  | .next => s.next N w

def step (e : Fin n × Action E n) : Option (System E n) := s.act N e.1 e.2

end

def victim (e : Fin n × Action E n) : Option (Fin n) :=
  match e.2, s.phases e.1 with
  | .next, .popGlobal _ k => some k
  | _, _ => none

/-- The tag of no queue comes round to the same 32 bits during one `pop_global`. -/
def TagsKept (e : Fin n × Action E n) : Prop :=
  ∀ k ∈ s.victim e, (s.queues k).TagKept (.thief e.1)

instance (s : System E n) (e : Fin n × Action E n) : Decidable (s.TagsKept e) :=
  inferInstanceAs (Decidable (∀ k ∈ s.victim e, (s.queues k).TagKept (.thief e.1)))

end System

end Rolp.TaskQueue
