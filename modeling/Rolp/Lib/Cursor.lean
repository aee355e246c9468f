import Mathlib.Data.List.Basic
import Mathlib.Order.Monotone.Basic

/-!
# Cursors

A step of a cursor gives the next element, or none at the end, or is undefined. `collect` goes on to the end.
-/

namespace Rolp.Lib

variable {S α : Type} {next : S → Option (S × Option α)}

def collect (next : S → Option (S × Option α)) : Nat → S → Option (S × List α)
  | 0, _ => none
  | fuel + 1, s =>
    match next s with
    | none => none
    | some (s', none) => some (s', [])
    | some (s', some a) => (collect next fuel s').map fun (s'', l) => (s'', a :: l)

lemma collect_of_remaining (Remaining : S → List α → Prop)
    (hstep : ∀ s l, Remaining s l → ∃ s', next s = some (s', l.head?) ∧ (l ≠ [] → Remaining s' l.tail)) {s}
    {l} (h : Remaining s l) {fuel} (hf : l.length < fuel) : ∃ s', collect next fuel s = some (s', l) := by
  induction l generalizing s fuel with
  | nil =>
    obtain ⟨s', hs', -⟩ := hstep s [] h
    cases fuel with
    | zero => cases hf
    | succ fuel => exact ⟨s', by simp [collect, hs']⟩
  | cons a l ih =>
    obtain ⟨s1, hs1, hrest⟩ := hstep s (a :: l) h
    cases fuel with
    | zero => cases hf
    | succ fuel =>
      obtain ⟨s', hs'⟩ := ih (hrest (List.cons_ne_nil a l)) (Nat.lt_of_succ_lt_succ hf)
      exact ⟨s', by simp [collect, hs1, hs']⟩

lemma collect_count (count : S → Nat) (hyield : ∀ s s' a, next s = some (s', some a) → count s' = count s + 1)
    (hend : ∀ s s', next s = some (s', none) → count s' = count s) {fuel s s' l}
    (h : collect next fuel s = some (s', l)) : count s' = count s + l.length := by
  induction fuel generalizing s l with
  | zero => cases h
  | succ fuel ih =>
    rw [collect] at h
    split at h
    · cases h
    next s1 hnext =>
      cases h
      exact hend s s' hnext
    next s1 a hnext =>
      obtain ⟨⟨s2, l2⟩, hrest, heq⟩ := Option.map_eq_some_iff.1 h
      cases heq
      rw [ih hrest, hyield s s1 a hnext, List.length_cons]
      omega

/-!
## Cursors that hand out slots of several sizes

For each kind of item, which has one size, there is a gap with room for some items and a main area; a request takes the
next slot of the gap while it has room and then the next of the main area. The `r`-th request for a kind therefore gets
a slot that is known in advance, in whatever order the kinds are asked for.
-/

variable {κ : Type} [DecidableEq κ]

structure SlotCursor (κ : Type) where
  next : κ → Nat
  spaceOffset : κ → Nat
  spaceCount : κ → Nat

namespace SlotCursor

def take (size : κ → Nat) (c : SlotCursor κ) (k : κ) : Nat × SlotCursor κ :=
  if 0 < c.spaceCount k then
    (c.spaceOffset k, { c with
        spaceOffset := fun j => if j = k then c.spaceOffset j + size j else c.spaceOffset j
        spaceCount := fun j => if j = k then c.spaceCount j - 1 else c.spaceCount j })
  else (c.next k, { c with next := fun j => if j = k then c.next j + size j else c.next j })

def takeAll (size : κ → Nat) : SlotCursor κ → List κ → List (κ × Nat)
  | _, [] => []
  | c, k :: ks => (k, (c.take size k).1) :: takeAll size (c.take size k).2 ks

def slot (size : κ → Nat) (c : SlotCursor κ) (k : κ) (r : Nat) : Nat :=
  if r < c.spaceCount k then c.spaceOffset k + r * size k else c.next k + (r - c.spaceCount k) * size k

variable {size : κ → Nat} {c : SlotCursor κ} {n : κ → Nat} {lo hi : Nat}

lemma take_fst (k) : (c.take size k).1 = c.slot size k 0 := by
  by_cases h : 0 < c.spaceCount k
  · simp [take, slot, h]
  · simp [take, slot, h]

lemma slot_take_self (k r) : (c.take size k).2.slot size k r = c.slot size k (r + 1) := by
  by_cases h : 0 < c.spaceCount k
  · have hlt : r < c.spaceCount k - 1 ↔ r + 1 < c.spaceCount k := by omega
    have hsub : r - (c.spaceCount k - 1) = r + 1 - c.spaceCount k := by omega
    simp only [take, slot, if_pos h, if_true, hlt, hsub, Nat.add_mul]
    split
    · omega
    · rfl
  · have hzero : c.spaceCount k = 0 := by omega
    simp only [take, slot, if_true, hzero, Nat.not_lt_zero, if_false, Nat.sub_zero, Nat.add_mul]
    omega

variable {k : κ}

lemma slot_take_other {j} (h : j ≠ k) (r) : (c.take size k).2.slot size j r = c.slot size j r := by
  by_cases hs : 0 < c.spaceCount k
  · simp [take, slot, hs, h]
  · simp [take, slot, hs, h]

lemma slot_take (k j r) : (c.take size k).2.slot size j r = c.slot size j (if j = k then r + 1 else r) := by
  by_cases h : j = k
  · subst h
    rw [if_pos rfl, slot_take_self]
  · rw [if_neg h, slot_take_other h]

variable {ks : List κ}

lemma shift_lt_count {j r} (h : r < ks.count j) : (if j = k then r + 1 else r) < (k :: ks).count j := by
  by_cases hj : j = k
  · subst hj
    simpa using h
  · rw [if_neg hj, List.count_cons_of_ne fun e => hj e.symm]
    exact h

lemma mem_takeAll {o} (h : (k, o) ∈ takeAll size c ks) : ∃ r, r < ks.count k ∧ o = c.slot size k r := by
  induction ks generalizing c with
  | nil => simp [takeAll] at h
  | cons j ks ih =>
    rw [takeAll, List.mem_cons] at h
    rcases h with h | h
    · obtain ⟨rfl, rfl⟩ := Prod.mk.inj h
      exact ⟨0, by simp, take_fst k⟩
    · obtain ⟨r, hr, ho⟩ := ih h
      rw [slot_take] at ho
      exact ⟨_, shift_lt_count hr, ho⟩

/-! ## Room for all requests -/

/-- The first `n k` slots of every kind `k` are aligned, lie between `lo` and `hi` and do not overlap. -/
structure Roomy (size : κ → Nat) (c : SlotCursor κ) (n : κ → Nat) (lo hi : Nat) : Prop where
  aligned : ∀ k r, r < n k → c.slot size k r % size k = 0
  lower : ∀ k r, r < n k → lo ≤ c.slot size k r
  upper : ∀ k r, r < n k → c.slot size k r + size k ≤ hi
  apart : ∀ k r j s, r < n k → s < n j → (k, r) ≠ (j, s) →
    c.slot size k r + size k ≤ c.slot size j s ∨ c.slot size j s + size j ≤ c.slot size k r

lemma Roomy.mem {o} (h : c.Roomy size (ks.count ·) lo hi)
    (hm : (k, o) ∈ takeAll size c ks) : o % size k = 0 ∧ lo ≤ o ∧ o + size k ≤ hi := by
  obtain ⟨r, hr, rfl⟩ := mem_takeAll hm
  exact ⟨h.aligned k r hr, h.lower k r hr, h.upper k r hr⟩

lemma Roomy.take (h : c.Roomy size ((k :: ks).count ·) lo hi) : (c.take size k).2.Roomy size (ks.count ·) lo hi := by
  refine ⟨?_, ?_, ?_, ?_⟩
  · intro j r hr
    rw [slot_take]
    exact h.aligned _ _ (shift_lt_count hr)
  · intro j r hr
    rw [slot_take]
    exact h.lower _ _ (shift_lt_count hr)
  · intro j r hr
    rw [slot_take]
    exact h.upper _ _ (shift_lt_count hr)
  · intro j r i s hr hs hne
    rw [slot_take, slot_take]
    refine h.apart _ _ _ _ (shift_lt_count hr) (shift_lt_count hs) ?_
    intro heq
    obtain ⟨rfl, hrs⟩ := Prod.mk.inj heq
    apply hne
    split at hrs
    · rw [Nat.succ.inj hrs]
    · rw [hrs]

lemma Roomy.pairwise (h : c.Roomy size (ks.count ·) lo hi) :
    (takeAll size c ks).Pairwise fun p q => p.2 + size p.1 ≤ q.2 ∨ q.2 + size q.1 ≤ p.2 := by
  induction ks generalizing c with
  | nil => exact List.Pairwise.nil
  | cons k ks ih =>
    rw [takeAll, List.pairwise_cons]
    refine ⟨?_, ih h.take⟩
    -- every later slot is a slot of `c` other than the first one of `k`
    rintro ⟨j, o⟩ hm
    obtain ⟨r, hr, rfl⟩ := mem_takeAll hm
    rw [slot_take, take_fst]
    refine h.apart k 0 j _ (by simp) (shift_lt_count hr) ?_
    intro heq
    obtain ⟨rfl, hz⟩ := Prod.mk.inj heq
    simp at hz

/-! ## Areas that follow each other -/

/-- The start of the gap (`true`) or of the main area (`false`) of a kind. -/
def areaStart (c : SlotCursor κ) : κ × Bool → Nat
  | (k, true) => c.spaceOffset k
  | (k, false) => c.next k

def areaCount (c : SlotCursor κ) (n : κ → Nat) : κ × Bool → Nat
  | (k, true) => c.spaceCount k
  | (k, false) => n k - c.spaceCount k

omit [DecidableEq κ] in
lemma slot_mem_area (size : κ → Nat) (c : SlotCursor κ) {r} (hr : r < n k) :
    ∃ b i, i < c.areaCount n (k, b) ∧ c.slot size k r = c.areaStart (k, b) + i * size k ∧
      r = i + if b then 0 else c.spaceCount k := by
  by_cases h : r < c.spaceCount k
  · exact ⟨true, r, h, by simp [slot, h, areaStart], by simp⟩
  · refine ⟨false, r - c.spaceCount k, ?_, by simp [slot, h, areaStart], by simp; omega⟩
    change r - c.spaceCount k < n k - c.spaceCount k
    omega

lemma item_le_area {i m s : Nat} (h : i < m) : i * s + s ≤ m * s := by
  calc i * s + s = (i + 1) * s := by rw [Nat.add_mul, Nat.one_mul]
    _ ≤ m * s := Nat.mul_le_mul_right s h

omit [DecidableEq κ] in
lemma Roomy.of_areas {pos : κ × Bool → Nat} {bound : Nat → Nat} (hpos : Function.Injective pos)
    (hmono : Monotone bound) (hlo : ∀ a, lo ≤ bound (pos a)) (hhi : ∀ a, bound (pos a + 1) ≤ hi)
    (harea : ∀ k b, 0 < c.areaCount n (k, b) → c.areaStart (k, b) % size k = 0 ∧
      bound (pos (k, b)) ≤ c.areaStart (k, b) ∧
      c.areaStart (k, b) + c.areaCount n (k, b) * size k ≤ bound (pos (k, b) + 1)) : c.Roomy size n lo hi := by
  have hitem : ∀ k b i, i < c.areaCount n (k, b) →
      bound (pos (k, b)) ≤ c.areaStart (k, b) ∧ c.areaStart (k, b) + i * size k + size k ≤ bound (pos (k, b) + 1) := by
    intro k b i hi'
    have := harea k b (by omega)
    have := item_le_area (s := size k) hi'
    omega
  refine ⟨?_, ?_, ?_, ?_⟩
  · intro k r hr
    obtain ⟨b, i, hi', hs, -⟩ := slot_mem_area size c hr
    rw [hs, Nat.add_mul_mod_self_right]
    exact (harea k b (by omega)).1
  · intro k r hr
    obtain ⟨b, i, hi', hs, -⟩ := slot_mem_area size c hr
    have := hitem k b i hi'
    have := hlo (k, b)
    omega
  · intro k r hr
    obtain ⟨b, i, hi', hs, -⟩ := slot_mem_area size c hr
    have := hitem k b i hi'
    have := hhi (k, b)
    omega
  · intro k r j s hr hs hne
    obtain ⟨b, i, hi', hslot, hri⟩ := slot_mem_area size c hr
    obtain ⟨b', i', hi'', hslot', hsi⟩ := slot_mem_area size c hs
    have h1 := hitem k b i hi'
    have h2 := hitem j b' i' hi''
    rcases Nat.lt_trichotomy (pos (k, b)) (pos (j, b')) with hlt | heq | hlt
    · have := hmono (show pos (k, b) + 1 ≤ pos (j, b') from hlt)
      omega
    · -- in one area the slots are ordered by their number
      obtain ⟨rfl, rfl⟩ := Prod.mk.inj (hpos heq)
      have hii : i ≠ i' := fun e => hne (by rw [hri, hsi, e])
      rcases Nat.lt_or_gt_of_ne hii with hlt | hlt
      · have := item_le_area (s := size k) hlt
        omega
      · have := item_le_area (s := size k) hlt
        omega
    · have := hmono (show pos (j, b') + 1 ≤ pos (k, b) from hlt)
      omega

end SlotCursor

end Rolp.Lib
