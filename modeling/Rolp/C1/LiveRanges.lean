import Rolp.Lib.Jint
import Rolp.Lib.Run
import Mathlib.Order.Bounds.Basic
import Mathlib.Data.List.DropRight

/-!
# Live ranges of the linear scan

`Range` and `Interval` of the register allocator of C1. The end of a list of ranges stands for `Range::end()`, which
starts and ends at `max_jint`.
-/

namespace Rolp.C1

open Rolp.Lib

structure Range where
  fromPos : Int
  toPos : Int

inductive IntervalUseKind where
  | loopEndMarker
  | shouldHaveRegister
  | mustHaveRegister

inductive OprMode where
  | input
  | temp
  | output
  deriving DecidableEq

/-- `_use_pos_and_kinds` as pairs, the last one at the top of the stack. -/
structure Interval where
  ranges : List Range
  usePosAndKinds : List (Int × IntervalUseKind)

def firstFrom : List Range → Int
  | [] => maxJint
  | r :: _ => r.fromPos

/-- `none` where an assertion fails, or where the sentinel would be joined. -/
def addRange : List Range → Range → Option (List Range)
  | [], r => if r.fromPos < r.toPos ∧ r.toPos < maxJint then some [r] else none
  | first :: rest, r =>
    if r.fromPos < r.toPos ∧ r.toPos < firstFrom rest ∧ r.fromPos ≤ first.toPos then
      if first.fromPos ≤ r.toPos then some (⟨min r.fromPos first.fromPos, max r.toPos first.toPos⟩ :: rest)
      else some (r :: first :: rest)
    else none

/-- The ranges below and from `splitPos` on. `none` where an assertion of `split` fails. -/
def splitRanges (splitPos : Int) (hasPrev : Bool) : List Range → Option (List Range × List Range)
  | [] => none
  | cur :: next =>
    if cur.toPos ≤ splitPos then (splitRanges splitPos true next).map fun (l, r) => (cur :: l, r)
    else if cur.fromPos < splitPos then some ([⟨cur.fromPos, splitPos⟩], ⟨splitPos, cur.toPos⟩ :: next)
    else if hasPrev then some ([], cur :: next) else none

/-- The interval itself and the new split child. -/
def Interval.split (i : Interval) (splitPos : Int) : Option (Interval × Interval) :=
  (splitRanges splitPos false i.ranges).map fun (l, r) =>
    (⟨l, i.usePosAndKinds.rtakeWhile (·.1 < splitPos)⟩, ⟨r, i.usePosAndKinds.rdropWhile (·.1 < splitPos)⟩)

def covers (opId : Int) (mode : OprMode) : List Range → Bool
  | [] => false
  | cur :: next =>
    if cur.toPos < opId then covers opId mode next
    else if mode = .output then cur.fromPos ≤ opId && opId < cur.toPos
    else cur.fromPos ≤ opId && opId ≤ cur.toPos

/-- A use of a kind other than `noUse`, in the interval of a virtual register. `none` where an assertion fails. -/
def Interval.addUsePos (i : Interval) (use : Int × IntervalUseKind) : Option Interval :=
  if covers use.1 .input i.ranges ∧ ∀ u ∈ i.usePosAndKinds, use.1 ≤ u.1 then
    match i.usePosAndKinds.getLast? with
    | none => some { i with usePosAndKinds := [use] }
    | some last =>
      if use.1 < last.1 then some { i with usePosAndKinds := i.usePosAndKinds ++ [use] }
      else if last.2.ctorIdx < use.2.ctorIdx then
        some { i with usePosAndKinds := i.usePosAndKinds.dropLast ++ [use] }
      else some i
  else none

def hasHoleBetween (holeFrom holeTo : Int) : List Range → Bool
  | [] => false
  | cur :: next =>
    if holeFrom < cur.fromPos then true
    else if holeTo ≤ cur.toPos then false
    else if holeFrom ≤ cur.toPos then true
    else hasHoleBetween holeFrom holeTo next

def intersectsAt : List Range → List Range → Int
  | r1 :: n1, r2 :: n2 =>
    if r1.fromPos < r2.fromPos then
      if r1.toPos ≤ r2.fromPos then intersectsAt n1 (r2 :: n2) else r2.fromPos
    else if r2.fromPos < r1.fromPos then
      if r2.toPos ≤ r1.fromPos then intersectsAt (r1 :: n1) n2 else r1.fromPos
    else if r1.fromPos = r1.toPos then intersectsAt n1 (r2 :: n2)
    else if r2.fromPos = r2.toPos then intersectsAt (r1 :: n1) n2
    else r1.fromPos
  | _, _ => -1
termination_by l1 l2 => l1.length + l2.length

/-! ## The positions of an interval -/

def positions (rs : List Range) : Set Int := {x | ∃ r ∈ rs, r.fromPos ≤ x ∧ x < r.toPos}

/-- Sorted, disjoint and not touching each other. -/
def Separated : List Range → Prop
  | [] => True
  | r :: rs => r.fromPos < r.toPos ∧ r.toPos < firstFrom rs ∧ Separated rs

variable {rs rs' : List Range} {r : Range} {x p : Int}

@[simp, grind =] lemma mem_positions_nil : x ∈ positions [] ↔ False := by simp [positions]

@[simp, grind =] lemma mem_positions_cons :
    x ∈ positions (r :: rs) ↔ r.fromPos ≤ x ∧ x < r.toPos ∨ x ∈ positions rs := by
  simp [positions]

attribute [grind =] Separated firstFrom

@[grind →] lemma firstFrom_le (h : Separated rs) (hx : x ∈ positions rs) : firstFrom rs ≤ x := by
  induction rs with grind

lemma firstFrom_le_maxJint (h : Separated rs) : firstFrom rs ≤ maxJint := by
  induction rs with grind

lemma firstFrom_mono (h : Separated rs) (h' : Separated rs') (hsub : ∀ x ∈ positions rs', x ∈ positions rs) :
    firstFrom rs ≤ firstFrom rs' := by
  cases rs' with
  | nil => exact firstFrom_le_maxJint h
  | cons r rs' => exact firstFrom_le h (hsub r.fromPos (by grind))

/-! ## Adding ranges -/

lemma addRange_step (h : Separated rs) (hadd : addRange rs r = some rs') :
    Separated rs' ∧ ∀ x, x ∈ positions rs' ↔ r.fromPos ≤ x ∧ x < r.toPos ∨ x ∈ positions rs := by
  cases rs with grind [addRange]

lemma addRange_run {calls} (h : Separated rs) (hrun : run addRange rs calls = some rs') :
    Separated rs' ∧ ∀ x, x ∈ positions rs' ↔ x ∈ positions calls ∨ x ∈ positions rs := by
  induction calls generalizing rs with
  | nil =>
    cases hrun
    simp [h]
  | cons r calls ih =>
    obtain ⟨rs1, hadd, hrest⟩ := run_cons_some hrun
    obtain ⟨h1, hpos⟩ := addRange_step h hadd
    obtain ⟨h', hpos'⟩ := ih h1 hrest
    refine ⟨h', fun x => ?_⟩
    rw [hpos', hpos, mem_positions_cons]
    tauto

/-! ## Adding uses -/

lemma addUsePos_step {i i' : Interval} {use} (hadd : i.addUsePos use = some i')
    (h : i.usePosAndKinds.Pairwise (·.1 > ·.1)) : i'.ranges = i.ranges ∧ i'.usePosAndKinds.Pairwise (·.1 > ·.1) := by
  obtain ⟨rs, us⟩ := i
  unfold Interval.addUsePos at hadd
  induction us using List.reverseRecOn with
  | nil => grind
  | append_singleton us last => grind

/-! ## Splitting -/

lemma splitRanges_spec {hasPrev} (h : Separated rs) (hlo : hasPrev = true ∨ ∃ x ∈ positions rs, x < p)
    (hhi : ∃ x ∈ positions rs, p ≤ x) : ∃ l r, splitRanges p hasPrev rs = some (l, r) ∧ Separated l ∧ Separated r ∧
      (∀ x, x ∈ positions l ↔ x ∈ positions rs ∧ x < p) ∧ ∀ x, x ∈ positions r ↔ x ∈ positions rs ∧ p ≤ x := by
  induction rs generalizing hasPrev with
  | nil => simp at hhi
  | cons cur next ih =>
    rw [splitRanges]
    split_ifs with hto hfrom hprev
    · obtain ⟨l, r, hsplit, hl, hr, hpl, hpr⟩ := ih h.2.2 (.inl rfl) (by grind)
      have hmono := firstFrom_mono h.2.2 hl fun x hx => ((hpl x).1 hx).1
      exact ⟨cur :: l, r, by rw [hsplit]; rfl, by grind, hr, by grind, by grind⟩
    · have hmax := h.2.1.trans_le (firstFrom_le_maxJint h.2.2)
      exact ⟨_, _, rfl, by grind, by grind, by grind, by grind⟩
    · exact ⟨_, _, rfl, trivial, h, by grind, by grind⟩
    · grind

lemma split_uses {us : List (Int × IntervalUseKind)} (h : us.Pairwise (·.1 > ·.1)) :
    us.rtakeWhile (·.1 < p) = us.filter (·.1 < p) ∧ us.rdropWhile (·.1 < p) = us.filter (p ≤ ·.1) := by
  induction us using List.reverseRecOn with
  | nil => simp
  | append_singleton us u ih =>
    obtain ⟨hus, -, hlast⟩ := List.pairwise_append.1 h
    rw [List.rtakeWhile_concat, List.rdropWhile_concat, (ih hus).1, (ih hus).2]
    by_cases hu : u.1 < p
    · simp [hu]
    · have hall : ∀ v ∈ us ++ [u], p ≤ v.1 := by
        rintro v hv
        rcases List.mem_append.1 hv with hv | hv
        · exact (not_lt.1 hu).trans (hlast v hv u (by simp)).le
        · simp_all
      simp only [hu, decide_false, Bool.false_eq_true, if_false]
      exact ⟨(List.filter_eq_nil_iff.2 (by simpa using hall)).symm, (List.filter_eq_self.2 (by simpa using hall)).symm⟩

lemma covers_iff (h : Separated rs) (opId mode) :
    covers opId mode rs = true ↔ opId ∈ positions rs ∨ mode ≠ .output ∧ opId - 1 ∈ positions rs := by
  induction rs with
  | nil => simp [covers]
  | cons cur next ih => grind [covers]

lemma hasHoleBetween_iff (h : Separated rs) {f t : Int} (hft : f < t) (hto : ∃ r ∈ rs, t ≤ r.toPos) :
    hasHoleBetween f t rs = true ↔ ∃ x, f ≤ x ∧ x < t ∧ x ∉ positions rs := by
  induction rs with
  | nil => simp at hto
  | cons cur next ih =>
    rw [hasHoleBetween]
    split_ifs with hfrom hin hout
    · exact iff_of_true rfl ⟨f, by grind⟩
    · exact iff_of_false (by simp) (by grind)
    · exact iff_of_true rfl ⟨cur.toPos, by grind⟩
    · rw [ih h.2.2 (by grind)]
      refine exists_congr fun x => ?_
      grind

lemma intersectsAt_spec (h : Separated rs) (h' : Separated rs') :
    (∀ x ∈ positions rs, x ∉ positions rs') ∧ intersectsAt rs rs' = -1 ∨ intersectsAt rs rs' ∈ positions rs ∧
      intersectsAt rs rs' ∈ positions rs' ∧ ∀ x ∈ positions rs, x ∈ positions rs' → intersectsAt rs rs' ≤ x := by
  fun_induction intersectsAt rs rs' with
  | case8 l1 l2 hnil => cases l1 <;> cases l2 <;> grind
  | _ => grind

/-- Adding, splitting and the queries on ranges are what they should be on the sets of their positions. -/
theorem live_ranges_denote_their_positions :
    (∀ rs r, Separated rs → r.fromPos < r.toPos → r.fromPos ≤ firstFrom rs → r.toPos < firstFrom rs.tail →
      (addRange rs r).isSome = true) ∧
    (∀ calls rs, run addRange [] calls = some rs → Separated rs ∧ positions rs = positions calls) ∧
    (∀ rs uses (i : Interval), run Interval.addUsePos ⟨rs, []⟩ uses = some i →
      i.ranges = rs ∧ i.usePosAndKinds.Pairwise (·.1 > ·.1)) ∧
    (∀ (i : Interval) p, Separated i.ranges → i.usePosAndKinds.Pairwise (·.1 > ·.1) →
      (∃ x ∈ positions i.ranges, x < p) → (∃ x ∈ positions i.ranges, p ≤ x) →
      ∃ i1 i2, i.split p = some (i1, i2) ∧ Separated i1.ranges ∧ Separated i2.ranges ∧
        positions i1.ranges = {x ∈ positions i.ranges | x < p} ∧
        positions i2.ranges = {x ∈ positions i.ranges | p ≤ x} ∧ i1.usePosAndKinds = i.usePosAndKinds.filter (·.1 < p) ∧
        i2.usePosAndKinds = i.usePosAndKinds.filter (p ≤ ·.1)) ∧ ∀ rs, Separated rs →
      (∀ x mode, covers x mode rs = true ↔ x ∈ positions rs ∨ mode ≠ .output ∧ x - 1 ∈ positions rs) ∧
      (∀ f t, f < t → (∃ r ∈ rs, t ≤ r.toPos) →
        (hasHoleBetween f t rs = true ↔ ∃ x, f ≤ x ∧ x < t ∧ x ∉ positions rs)) ∧
      ∀ rs', Separated rs' → (∀ x ∈ positions rs, x ∉ positions rs') ∧ intersectsAt rs rs' = -1 ∨
        IsLeast (positions rs ∩ positions rs') (intersectsAt rs rs') := by
  refine ⟨fun rs r h hlt hfrom hto => ?_, fun calls rs hrun => ?_, fun rs uses i hrun => ?_,
    fun i p h huses hlo hhi => ?_, fun rs h => ⟨covers_iff h, fun f t => ?_, ?_⟩⟩
  · cases rs with grind [addRange]
  · obtain ⟨h, hpos⟩ := addRange_run (show Separated [] from trivial) hrun
    exact ⟨h, Set.ext fun x => by simp [hpos]⟩
  · refine run_invariant (fun i : Interval => i.ranges = rs ∧ i.usePosAndKinds.Pairwise (·.1 > ·.1)) (fun _ => True)
      (fun i use i' hi _ hadd => ?_) ⟨rfl, .nil⟩ (fun _ _ => trivial) hrun
    obtain ⟨hranges, huses⟩ := addUsePos_step hadd hi.2
    exact ⟨hranges.trans hi.1, huses⟩
  · obtain ⟨l, r, hsplit, hl, hr, hpl, hpr⟩ := splitRanges_spec h (.inr hlo) hhi
    exact ⟨_, _, by rw [Interval.split, hsplit]; rfl, hl, hr, Set.ext hpl, Set.ext hpr, split_uses huses⟩
  · exact hasHoleBetween_iff h
  · intro rs' h'
    refine (intersectsAt_spec h h').imp_right ?_
    exact fun ⟨h1, h2, hle⟩ => ⟨⟨h1, h2⟩, fun x hx => hle x hx.1 hx.2⟩

theorem live_ranges_denote_their_positions_joined :
    let rs : List Range := [⟨4, 8⟩, ⟨10, 12⟩]
    run addRange [] [⟨10, 12⟩, ⟨6, 8⟩, ⟨4, 6⟩] = some rs ∧ positions rs = positions [⟨10, 12⟩, ⟨6, 8⟩, ⟨4, 6⟩] ∧
    (∃ i1 i2, (Interval.mk rs [(11, .mustHaveRegister), (5, .shouldHaveRegister)]).split 6 = some (i1, i2) ∧
      positions i2.ranges = {x ∈ positions rs | 6 ≤ x}) ∧ IsLeast (positions rs ∩ positions [⟨9, 11⟩]) 10 := by
  intro rs
  obtain ⟨-, hadd, huses, hsplit, hqueries⟩ := live_ranges_denote_their_positions
  obtain ⟨hsep, hpos⟩ := hadd [⟨10, 12⟩, ⟨6, 8⟩, ⟨4, 6⟩] rs rfl
  obtain ⟨-, hsorted⟩ := huses rs [(11, .mustHaveRegister), (5, .shouldHaveRegister)] _ rfl
  obtain ⟨i1, i2, hi, -, -, -, hi2, -⟩ := hsplit _ 6 hsep hsorted ⟨4, by simp [rs]⟩ ⟨6, by simp [rs]⟩
  have hat : intersectsAt rs [⟨9, 11⟩] = 10 := by simp [rs, intersectsAt]
  refine ⟨rfl, hpos, ⟨i1, i2, hi, hi2⟩, ?_⟩
  rcases (hqueries _ hsep).2.2 [⟨9, 11⟩] (by simp [Separated, firstFrom, maxJint]) with h | h
  · exact absurd (hat.symm.trans h.2) (by decide)
  · rwa [hat] at h

end Rolp.C1
