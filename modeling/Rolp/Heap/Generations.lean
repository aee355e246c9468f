import Rolp.Profiler.Tables

/-!
# Generation numbers

Java code creates, selects and collects generations. A generation indexes two arrays: `_gen_alloc_regions` of the heap
grows with every new one, and `_tlabGenArray` of each thread has a fixed length. The model records each access to them.
-/

namespace Rolp.Heap

open Rolp.Lib Rolp.Profiler

structure GenAllocRegion where
  gen : Int
  epoch : Nat
  nregions : Nat

def GenAllocRegion.new (gen : Int) : GenAllocRegion := ⟨gen, 0, 0⟩

def GenAllocRegion.newEpoch (r : GenAllocRegion) : GenAllocRegion := { r with epoch := r.epoch + 1, nregions := 0 }

/-- `threads` are the Java threads in the order of `Threads::first()`. -/
structure Generations (T : Type) where
  threads : List T
  genAllocRegions : List (Option GenAllocRegion)
  allocGen : T → Int

inductive Access (T : Type) where
  /-- `_tlabGenArray[gen]` -/
  | tlab (t : T) (gen : Int)
  /-- `_gen_alloc_regions->at(gen)`, with the length of the array. -/
  | region (gen : Int) (length : Nat)
  /-- A call of a method of the region. -/
  | deref (region : Option GenAllocRegion)

def Access.InRange {T : Type} : Access T → Prop
  | .tlab _ gen => 0 ≤ gen ∧ gen < ng2cGenArraySize
  | .region gen length => 0 ≤ gen ∧ gen < length
  | .deref r => r.isSome = true

/-- How `collect_alloc_gen` goes on after its locked part: with a garbage collection, with `VM_Rebase_Gen`, or with that
operation after a failed prologue. -/
inductive Outcome where
  | collect
  | rebase
  | prologueFailed
  deriving DecidableEq

inductive Call (T : Type) where
  | newAllocGen (t : T)
  | setAllocGen (t : T) (gen : Int)
  | collectAllocGen (gen : Int) (outcome : Outcome)

namespace Generations

variable {T : Type}

def start (threads : List T) : Generations T where
  threads := threads
  genAllocRegions := none :: (List.range' 1 (ng2cGenArraySize - 1)).map fun (i : Nat) => some (.new i)
  allocGen := fun _ => 1

def length (s : Generations T) : Nat := s.genAllocRegions.length

variable (s : Generations T)

def regionAt (gen : Int) : Option GenAllocRegion := (s.genAllocRegions[gen.toNat]?).join

/-! ## Accesses -/

def useRegion (gen : Int) : List (Access T) :=
  [.region gen s.length, .deref (s.regionAt gen)]

def useRegions : List (Access T) :=
  (List.range' 1 (s.length - 1)).flatMap fun (i : Nat) => s.useRegion i

def useGenTlabs : List (Access T) :=
  s.threads.flatMap fun t => (List.range' 1 (ng2cGenArraySize - 1)).map fun (i : Nat) => .tlab t i

def rebaseAllocGen (gen : Int) : List (Access T) :=
  s.threads.map (.tlab · gen) ++ s.useRegion gen

def finishCollect (gen : Int) : Outcome → List (Access T)
  | .collect => s.useGenTlabs ++ s.useRegions ++ s.useRegions
  | .rebase => s.rebaseAllocGen gen
  | .prologueFailed => []

def rejects (gen : Int) : Prop := (s.length : Int) ≤ gen ∨ gen < 0

instance (s : Generations T) (gen : Int) : Decidable (s.rejects gen) := by
  unfold rejects
  infer_instance

def accesses (s : Generations T) : Call T → List (Access T)
  | .newAllocGen t => [.tlab t s.length]
  | .setAllocGen t gen => [.tlab t gen]
  | .collectAllocGen gen outcome => if s.rejects gen then [] else s.useRegion gen ++ s.finishCollect gen outcome

/-! ## Effects -/

variable [DecidableEq T]

section

variable (s : Generations T)

def setAllocGen (t : T) (gen : Int) : Generations T :=
  { s with allocGen := Function.update s.allocGen t gen }

def newAllocGen : Generations T :=
  { s with genAllocRegions := s.genAllocRegions ++ [some (.new s.length)] }

def exec : Call T → Generations T
  | .newAllocGen t => s.newAllocGen.setAllocGen t s.length
  | .setAllocGen t gen => s.setAllocGen t gen
  | .collectAllocGen gen _ =>
    if s.rejects gen then s
    else { s with genAllocRegions := s.genAllocRegions.modify gen.toNat (Option.map GenAllocRegion.newEpoch) }

def result : Call T → List Int
  | .newAllocGen _ => [s.length]
  | _ => []

end

end Generations

/-! ## Sequences of calls -/

structure History (T : Type) where
  gens : Generations T
  returned : List Int
  accesses : List (Access T)

namespace History

variable {T : Type} [DecidableEq T]

def start (threads : List T) : History T := ⟨.start threads, [], []⟩

def permits (h : History T) : Call T → Prop
  | .setAllocGen _ gen => gen ∈ h.returned ∨ (0 ≤ gen ∧ gen < ng2cGenArraySize)
  | _ => True

instance (h : History T) (c : Call T) : Decidable (h.permits c) := by
  cases c <;> unfold permits <;> infer_instance

def step (h : History T) (c : Call T) : Option (History T) :=
  if h.permits c then
    some ⟨h.gens.exec c, h.gens.result c ++ h.returned, h.gens.accesses c ++ h.accesses⟩
  else none

end History

/-! ## Which calls stay in range -/

variable {T : Type}

def Call.Faulty : Call T → Prop
  | .newAllocGen _ => True
  | .setAllocGen _ _ => False
  | .collectAllocGen gen _ => gen = 0

namespace Generations

variable {s : Generations T}

structure WellFormed (s : Generations T) : Prop where
  length_le : ng2cGenArraySize ≤ s.length
  eden : s.genAllocRegions[0]? = some none
  region : ∀ i, 0 < i → i < s.length → ∃ r, s.genAllocRegions[i]? = some (some r)

lemma start_wellFormed (threads : List T) : (start threads).WellFormed where
  length_le := by simp [start, length]
  eden := rfl
  region := by
    intro i hi hlt
    obtain ⟨j, rfl⟩ := Nat.exists_eq_succ_of_ne_zero (Nat.pos_iff_ne_zero.1 hi)
    have hj : j < 15 := by
      simp [start, length] at hlt
      omega
    exact ⟨.new (1 + j : Nat), by simp [start, hj]⟩

lemma length_modify (s : Generations T) (i : Nat) :
    length { s with genAllocRegions := s.genAllocRegions.modify i (Option.map GenAllocRegion.newEpoch) } =
      s.length := by
  simp [length]

variable {gen : Int}

lemma regionAt_isSome (hs : s.WellFormed) (hpos : 0 < gen) (hlt : gen < s.length) : (s.regionAt gen).isSome = true := by
  obtain ⟨r, hr⟩ := hs.region gen.toNat (by omega) (by omega)
  simp [regionAt, hr]

lemma regionAt_zero (hs : s.WellFormed) : s.regionAt 0 = none := by
  have heden := hs.eden
  simp [regionAt, heden]

lemma WellFormed.exec [DecidableEq T] (hs : s.WellFormed) (c : Call T) : (s.exec c).WellFormed := by
  cases c with
  | newAllocGen t =>
    have hpos : 0 < s.length := Nat.lt_of_lt_of_le (by decide) hs.length_le
    refine ⟨?_, ?_, ?_⟩
    · exact Nat.le_trans hs.length_le (by simp [Generations.exec, newAllocGen, setAllocGen, length])
    · exact (List.getElem?_append_left hpos).trans hs.eden
    · intro i hi hlt
      have hlt' : i < s.length + 1 := by simpa [Generations.exec, newAllocGen, setAllocGen, length] using hlt
      rcases Nat.lt_succ_iff_lt_or_eq.1 hlt' with hold | rfl
      · obtain ⟨r, hr⟩ := hs.region i hi hold
        exact ⟨r, (List.getElem?_append_left hold).trans hr⟩
      · exact ⟨.new s.length, by simp [Generations.exec, newAllocGen, setAllocGen, length]⟩
  | setAllocGen t gen => exact ⟨hs.length_le, hs.eden, hs.region⟩
  | collectAllocGen gen outcome =>
    simp only [Generations.exec]
    split
    · exact hs
    refine ⟨?_, ?_, ?_⟩
    · rw [length_modify]
      exact hs.length_le
    · have heden := hs.eden
      simp only [List.getElem?_modify, heden]
      split <;> rfl
    · intro i hi hlt
      rw [length_modify] at hlt
      obtain ⟨r, hr⟩ := hs.region i hi hlt
      simp only [List.getElem?_modify, hr]
      split
      · exact ⟨r.newEpoch, rfl⟩
      · exact ⟨r, rfl⟩

/-! ## One call -/

lemma useRegion_inRange (hs : s.WellFormed) (hpos : 0 < gen) (hlt : gen < s.length) :
    ∀ a ∈ s.useRegion gen, a.InRange := by
  intro a ha
  simp only [useRegion, List.mem_cons, List.not_mem_nil, or_false] at ha
  rcases ha with rfl | rfl
  · exact ⟨by omega, hlt⟩
  · exact regionAt_isSome hs hpos hlt

lemma useRegions_inRange (hs : s.WellFormed) : ∀ a ∈ s.useRegions, a.InRange := by
  intro a ha
  obtain ⟨i, hi, ha⟩ := List.mem_flatMap.1 ha
  have hi' := List.mem_range'_1.1 hi
  exact useRegion_inRange hs (by omega) (by omega) a ha

lemma useGenTlabs_inRange (s : Generations T) : ∀ a ∈ s.useGenTlabs, a.InRange := by
  intro a ha
  obtain ⟨t, -, ha⟩ := List.mem_flatMap.1 ha
  obtain ⟨i, hi, rfl⟩ := List.mem_map.1 ha
  have hi' := List.mem_range'_1.1 hi
  exact ⟨by omega, by omega⟩

lemma finishCollect_inRange (hs : s.WellFormed) (hpos : 0 < gen) (hlt : gen < s.length)
    (hsize : s.length = ng2cGenArraySize) (outcome : Outcome) : ∀ a ∈ s.finishCollect gen outcome, a.InRange := by
  intro a ha
  cases outcome with
  | collect =>
    rcases List.mem_append.1 ha with ha | ha
    · rcases List.mem_append.1 ha with ha | ha
      · exact useGenTlabs_inRange s a ha
      · exact useRegions_inRange hs a ha
    · exact useRegions_inRange hs a ha
  | rebase =>
    rcases List.mem_append.1 ha with ha | ha
    · obtain ⟨t, -, rfl⟩ := List.mem_map.1 ha
      exact ⟨by omega, by omega⟩
    · exact useRegion_inRange hs hpos hlt a ha
  | prologueFailed => cases ha

end Generations

/-! ## All calls -/

namespace History

open Generations

variable [DecidableEq T] {h h' : History T} {c : Call T}

lemma step_some (hstep : h.step c = some h') : h.permits c ∧
    h' = ⟨h.gens.exec c, h.gens.result c ++ h.returned, h.gens.accesses c ++ h.accesses⟩ := by
  unfold step at hstep
  split at hstep
  next hp =>
    cases hstep
    exact ⟨hp, rfl⟩
  · cases hstep

structure Initial (h : History T) : Prop where
  wellFormed : h.gens.WellFormed
  length : h.gens.length = ng2cGenArraySize
  returned : h.returned = []
  inRange : ∀ a ∈ h.accesses, a.InRange

omit [DecidableEq T] in
lemma Initial.accesses_inRange (hh : h.Initial) (hc : ¬ c.Faulty) (hp : h.permits c) :
    ∀ a ∈ h.gens.accesses c, a.InRange := by
  intro a ha
  cases c with
  | newAllocGen t => exact (hc trivial).elim
  | setAllocGen t gen =>
    obtain rfl := List.mem_singleton.1 ha
    rcases hp with hmem | hrange
    · rw [hh.returned] at hmem
      cases hmem
    · exact hrange
  | collectAllocGen gen outcome =>
    simp only [Generations.accesses] at ha
    split at ha
    · cases ha
    next hrej =>
      have hne : gen ≠ 0 := hc
      simp only [rejects, not_or, Int.not_le] at hrej
      have hpos : 0 < gen := by omega
      rcases List.mem_append.1 ha with ha | ha
      · exact useRegion_inRange hh.wellFormed hpos hrej.1 a ha
      · exact finishCollect_inRange hh.wellFormed hpos hrej.1 hh.length outcome a ha

lemma Initial.step (hh : h.Initial) (hc : ¬ c.Faulty) (hstep : h.step c = some h') : h'.Initial := by
  obtain ⟨hp, rfl⟩ := step_some hstep
  refine ⟨hh.wellFormed.exec c, ?_, ?_, ?_⟩
  · cases c with
    | newAllocGen t => exact (hc trivial).elim
    | setAllocGen t gen => exact hh.length
    | collectAllocGen gen outcome =>
      simp only [exec]
      split
      · exact hh.length
      · rw [length_modify]
        exact hh.length
  · cases c with
    | newAllocGen t => exact (hc trivial).elim
    | setAllocGen t gen => exact hh.returned
    | collectAllocGen gen outcome => exact hh.returned
  · intro a ha
    rcases List.mem_append.1 ha with ha | ha
    · exact hh.accesses_inRange hc hp a ha
    · exact hh.inRange a ha

omit [DecidableEq T] in
lemma start_initial (threads : List T) : (History.start threads).Initial where
  wellFormed := start_wellFormed threads
  length := by simp [start, Generations.start, Generations.length]
  returned := rfl
  inRange := by
    intro a ha
    cases ha

omit [DecidableEq T] in
lemma faulty_outOfRange (hwf : h.gens.WellFormed) (hc : c.Faulty) : ∃ a ∈ h.gens.accesses c, ¬ a.InRange := by
  have hlen : 16 ≤ h.gens.length := hwf.length_le
  cases c with
  | newAllocGen t =>
    refine ⟨.tlab t h.gens.length, List.mem_singleton_self _, ?_⟩
    rintro ⟨-, hlt⟩
    have hlt' : (h.gens.length : Int) < 16 := hlt
    omega
  | setAllocGen t gen => exact hc.elim
  | collectAllocGen gen outcome =>
    obtain rfl : gen = 0 := hc
    have hrej : ¬ h.gens.rejects 0 := by
      rintro (hle | hlt)
      · exact absurd hlen (by omega)
      · exact absurd hlt (by decide)
    refine ⟨.deref (h.gens.regionAt 0), ?_, ?_⟩
    · rw [Generations.accesses, if_neg hrej]
      simp [useRegion]
    · rw [regionAt_zero hwf]
      exact Bool.false_ne_true

/-- Every access is in range and no call uses slot 0, just if no generation is created and generation 0 is not
collected. -/
theorem accesses_inRange_iff (threads : List T) (cs : List (Call T))
    (hrun : run History.step (start threads) cs = some h) : (∀ a ∈ h.accesses, a.InRange) ↔ ∀ c ∈ cs, ¬ c.Faulty := by
  constructor
  · intro hall c hc hfault
    have hbad : ∃ a ∈ h.accesses, ¬ a.InRange := by
      refine run_establishes (fun h => h.gens.WellFormed) (fun h => ∃ a ∈ h.accesses, ¬ a.InRange) Call.Faulty
        ?_ ?_ ?_ (start_wellFormed threads) ⟨c, hc, hfault⟩ hrun
      · intro h c h' hwf hstep
        obtain ⟨-, rfl⟩ := step_some hstep
        exact hwf.exec c
      · rintro h c h' ⟨a, ha, hout⟩ hstep
        obtain ⟨-, rfl⟩ := step_some hstep
        exact ⟨a, List.mem_append_right _ ha, hout⟩
      · intro h c h' hwf hfault hstep
        obtain ⟨-, rfl⟩ := step_some hstep
        obtain ⟨a, ha, hout⟩ := faulty_outOfRange hwf hfault
        exact ⟨a, List.mem_append_left _ ha, hout⟩
    obtain ⟨a, ha, hout⟩ := hbad
    exact hout (hall a ha)
  · intro hok
    exact (run_invariant Initial (fun c => ¬ c.Faulty) (fun _ _ _ hh hc hstep => hh.step hc hstep)
      (start_initial threads) hok hrun).inRange

/-- The first new generation is 16, and its TLAB would be the 17th of the thread. -/
theorem accesses_outOfRange_newAllocGen : ∃ h, run History.step (start [()]) [.newAllocGen ()] = some h ∧
    Access.tlab () 16 ∈ h.accesses ∧ ¬ (Access.tlab () 16).InRange :=
  ⟨_, rfl, List.mem_cons_self, fun hrange => absurd hrange.2 (by decide)⟩

theorem accesses_inRange_initialGens :
    let calls := [.setAllocGen true 2, .setAllocGen false 15, .collectAllocGen 2 .rebase, .collectAllocGen 16 .collect]
    ∃ h, run History.step (start [true, false]) calls = some h ∧ ∀ a ∈ h.accesses, a.InRange := by
  intro calls
  refine ⟨_, rfl, (accesses_inRange_iff [true, false] calls rfl).2 fun c hc => ?_⟩
  simp only [calls, List.mem_cons, List.not_mem_nil, or_false] at hc
  rcases hc with rfl | rfl | rfl | rfl
  · exact id
  · exact id
  · exact (by decide : (2 : Int) ≠ 0)
  · exact (by decide : (16 : Int) ≠ 0)

end History

end Rolp.Heap
