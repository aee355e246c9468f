import Mathlib.Order.Nat

/-!
# Quicksort

`QuickSort::sort` for a comparator that may find different elements equal. The scans of `partition` have no bounds: a
read outside the array is undefined, and the sort never makes one.
-/

namespace Rolp.Utilities

open Std List Ordering Option

variable {T : Type} (cmp : T → T → Ordering)

namespace QuickSort

variable (array : List T)

def swap (x y : Nat) : Option (List T) := do
  let tmp ← array[x]?
  let other ← array[y]?
  return (array.set x other).set y tmp

def swapIfGreater (x y : Nat) : Option (List T) := do
  if cmp (← array[x]?) (← array[y]?) = .gt then swap array x y else return array

def findPivot : Option (List T × Nat) := do
  let middle := array.length / 2
  let last := array.length - 1
  let array ← swapIfGreater cmp array 0 middle
  let array ← swapIfGreater cmp array 0 last
  let array ← swapIfGreater cmp array middle last
  return (array, middle)

def scanLeft (pivotVal : T) (array : List T) (left : Nat) : Option Nat :=
  match h : array[left]? with
  | none => none
  | some x => if cmp x pivotVal = .lt then scanLeft pivotVal array (left + 1) else some left
termination_by array.length - left
decreasing_by
  have := (List.getElem?_eq_some_iff.1 h).1
  omega

def scanRight (pivotVal : T) (array : List T) : Nat → Option Nat
  | 0 => none
  | right + 1 => do if cmp (← array[right]?) pivotVal = .gt then scanRight pivotVal array right else return right

lemma scanRight_lt {cmp} {pivotVal : T} {array right r} (h : scanRight cmp pivotVal array right = some r) :
    r < right := by
  induction right with
  | zero => cases h
  | succ right ih =>
    cases hx : array[right]? <;> simp only [scanRight, hx, bind_eq_bind, bind_some] at h
    · cases h
    · split at h
      · exact Nat.lt_succ_of_lt (ih h)
      · cases h; exact Nat.lt_succ_self _

def swapUnlessEqual (idempotent : Bool) (array : List T) (l r : Nat) : Option (List T) := do
  if !idempotent || cmp (← array[l]?) (← array[r]?) != .eq then swap array l r else return array

/-- The loop of `partition`: the left scan starts at `left` and the right one below `right`. -/
def partition (idempotent : Bool) (pivotVal : T) (array : List T) (left right : Nat) : Option (List T × Nat) :=
  match scanLeft cmp pivotVal array left, h : scanRight cmp pivotVal array right with
  | some l, some r =>
    if l < r then do
      partition idempotent pivotVal (← swapUnlessEqual cmp idempotent array l r) (l + 1) r
    else some (array, r)
  | _, _ => none
termination_by right
decreasing_by exact scanRight_lt h

def innerSort (idempotent : Bool) : Nat → List T → Option (List T)
  | 0, _ => none
  | fuel + 1, array => do
    if array.length < 2 then return array
    let (array, pivot) ← findPivot cmp array
    if array.length < 4 then return array
    let (array, split) ← partition cmp idempotent (← array[pivot]?) array 0 array.length
    let firstPartLength := split + 1
    let first ← innerSort idempotent fuel (array.take firstPartLength)
    let second ← innerSort idempotent fuel (array.drop firstPartLength)
    return first ++ second

def sort (idempotent : Bool) (array : List T) (fuel : Nat) : Option (List T) :=
  if idempotent then innerSort cmp true fuel array else innerSort cmp false fuel array

/-! ## Swaps -/

def Sorted (a : List T) : Prop := a.Pairwise fun x y => (cmp x y).isLE

variable {cmp} {a : List T} {x y : Nat} {s t : T}

lemma swap_eq (hx : a[x]? = some s) (hy : a[y]? = some t) : swap a x y = some ((a.set x t).set y s) := by
  simp [swap, hx, hy]

lemma set_set_perm (hx : a[x]? = some s) (hy : a[y]? = some t) : ((a.set x t).set y s).Perm a := by grind [set_set_perm]

lemma getElem?_set_set (hx : x < a.length) (hy : y < a.length) (i) :
    ((a.set x t).set y s)[i]? = if i = y then some s else if i = x then some t else a[i]? := by
  grind

lemma Sorted.isLE (h : Sorted cmp a) (hxy : x < y) (hx : a[x]? = some s) (hy : a[y]? = some t) : (cmp s t).isLE := by
  grind [Sorted, pairwise_iff_getElem]

variable [TransCmp cmp]

lemma isLE_of_gt (h : cmp s t = .gt) : (cmp t s).isLE := by rw [OrientedCmp.gt_iff_lt.1 h]; rfl

lemma isLE_of_ne_lt (h : cmp s t ≠ .lt) : (cmp t s).isLE := OrientedCmp.isGE_iff_isLE.1 (isGE_iff_ne_lt.2 h)

variable (cmp) in
lemma swapIfGreater_spec (a) {x y} (hxy : x ≤ y) (hy : y < a.length) :
    ∃ b, swapIfGreater cmp a x y = some b ∧ b.Perm a ∧ (Sorted cmp a → b = a) := by
  have hs := getElem?_eq_getElem (Nat.lt_of_le_of_lt hxy hy)
  have ht := getElem?_eq_getElem hy
  simp only [swapIfGreater, hs, ht, bind_eq_bind, bind_some, swap_eq hs ht]
  split
  next hgt =>
    refine ⟨_, rfl, set_set_perm hs ht, fun h => absurd hgt ?_⟩
    rcases Nat.lt_or_eq_of_le hxy with hlt | rfl
    · exact isLE_iff_ne_gt.1 (h.isLE hlt hs ht)
    · exact isLE_iff_ne_gt.1 ReflCmp.isLE_rfl
  · exact ⟨a, rfl, .refl _, fun _ => rfl⟩

variable (cmp) in
lemma findPivot_spec (h : 2 ≤ a.length) : ∃ b, findPivot cmp a = some (b, a.length / 2) ∧
    b.Perm a ∧ (Sorted cmp a → b = a) := by
  obtain ⟨a1, h1, hp1, hs1⟩ := swapIfGreater_spec cmp a (Nat.zero_le (a.length / 2)) (by omega)
  have hlen1 := hp1.length_eq
  obtain ⟨a2, h2, hp2, hs2⟩ := swapIfGreater_spec cmp a1 (Nat.zero_le (a.length - 1)) (by omega)
  have hlen2 := hp2.length_eq
  obtain ⟨a3, h3, hp3, hs3⟩ := swapIfGreater_spec cmp a2 (show a.length / 2 ≤ a.length - 1 by omega)
    (by omega)
  refine ⟨a3, by simp [findPivot, h1, h2, h3], hp3.trans (hp2.trans hp1), fun h => ?_⟩
  obtain rfl := hs1 h; obtain rfl := hs2 h; exact hs3 h

lemma sorted_three {u} (hst : (cmp s t).isLE) (htu : (cmp t u).isLE) : Sorted cmp [s, t, u] := by
  simp [Sorted, hst, htu, TransCmp.isLE_trans hst htu]

lemma sorted_findPivot (h2 : 2 ≤ a.length) (h4 : a.length < 4) {b k}
    (hp : findPivot cmp a = some (b, k)) : Sorted cmp b := by
  have hle (x y) : cmp x y = .gt ∧ (cmp y x).isLE ∨ cmp x y ≠ .gt ∧ (cmp x y).isLE := by
    by_cases h : cmp x y = .gt
    · exact .inl ⟨h, isLE_of_gt h⟩
    · exact .inr ⟨h, Ordering.isLE_iff_ne_gt.2 h⟩
  match a with
  | [r, s] =>
    rcases hle r s with ⟨hrs, hrs'⟩ | ⟨hrs, hrs'⟩
    · simp [findPivot, swapIfGreater, swap, hrs, OrientedCmp.gt_iff_lt.1 hrs] at hp
      simp [← hp.1, Sorted, hrs']
    · simp [findPivot, swapIfGreater, swap, hrs] at hp
      simp [← hp.1, Sorted, hrs']
  | [r, s, t] =>
    rcases hle r s with ⟨hrs, hrs'⟩ | ⟨hrs, hrs'⟩ <;> rcases hle s t with ⟨hst, hst'⟩ | ⟨hst, hst'⟩ <;>
      rcases hle r t with ⟨hrt, hrt'⟩ | ⟨hrt, hrt'⟩ <;> rcases hle s r with ⟨hsr, hsr'⟩ | ⟨hsr, hsr'⟩ <;>
      simp [findPivot, swapIfGreater, swap, hrs, hrt, hst, hsr] at hp <;> obtain ⟨rfl, -⟩ := hp <;>
      exact sorted_three (by first | assumption | exact TransCmp.isLE_trans hrt' hrs') (by assumption)

/-! ## Scans -/

variable {p : T} {left right stop : Nat}

lemma scanLeft_spec (hbelow : ∀ i u, i < left → a[i]? = some u → (cmp u p).isLE) (hle : left ≤ stop)
    (hstop : a[stop]? = some s) (hs : (cmp p s).isLE) : ∃ l t, scanLeft cmp p a left = some l ∧ l ≤ stop ∧
      a[l]? = some t ∧ (cmp p t).isLE ∧ ∀ i u, i < l → a[i]? = some u → (cmp u p).isLE := by
  fun_induction scanLeft cmp p a left with
  | case1 left h =>
    have := (List.getElem?_eq_some_iff.1 hstop).1
    rw [getElem?_eq_none_iff] at h; omega
  | case2 left t h hlt ih =>
    have hne : left ≠ stop := by grind [OrientedCmp.not_isLE_of_lt hlt]
    exact ih (by grind [isLE]) (by omega)
  | case3 left t h hlt => exact ⟨left, t, rfl, hle, h, isLE_of_ne_lt hlt, hbelow⟩

lemma scanRight_spec (habove : ∀ i u, right ≤ i → a[i]? = some u → (cmp p u).isLE) (hlt : stop < right)
    (hright : right ≤ a.length) (hstop : a[stop]? = some s) (hs : (cmp s p).isLE) :
    ∃ r t, scanRight cmp p a right = some r ∧ r < right ∧ a[r]? = some t ∧ (cmp t p).isLE ∧
      ∀ i u, r < i → a[i]? = some u → (cmp p u).isLE := by
  induction right with
  | zero => omega
  | succ right ih =>
    have ht := getElem?_eq_getElem (show right < a.length by omega)
    simp only [scanRight, ht, bind_eq_bind, bind_some]
    split
    next hgt =>
      have hne : stop ≠ right := by grind [isLE]
      obtain ⟨r, u, hr, hlt, hrest⟩ := ih (by grind [isLE_of_gt hgt]) (by omega) (by omega)
      exact ⟨r, u, hr, by omega, hrest⟩
    next hgt => exact ⟨right, _, rfl, by omega, ht, isLE_iff_ne_gt.2 hgt, habove⟩

/-! ## Partitions -/

structure Scanned (cmp : T → T → Ordering) (p : T) (a : List T) (left right : Nat) : Prop where
  le : right ≤ a.length
  below : ∀ i x, i < left → a[i]? = some x → (cmp x p).isLE
  above : ∀ i x, right ≤ i → a[i]? = some x → (cmp p x).isLE
  stopsLeft : ∃ i x, left ≤ i ∧ a[i]? = some x ∧ (cmp p x).isLE ∧
    (right < a.length ∨ i + 1 < a.length)
  stopsRight : ∃ i x, i < right ∧ a[i]? = some x ∧ (cmp x p).isLE

/-- The two elements at which the scans stopped change places, unless they are equal and `idempotent` is set. -/
lemma scanned_swap (idempotent) {l r : Nat} (hlr : l < r) (hls : a[l]? = some s) (hrt : a[r]? = some t)
    (hps : (cmp p s).isLE) (htp : (cmp t p).isLE) (hbelow : ∀ i u, i < l → a[i]? = some u → (cmp u p).isLE)
    (habove : ∀ i u, r < i → a[i]? = some u → (cmp p u).isLE) : ∃ b, swapUnlessEqual cmp idempotent a l r = some b ∧
      b.Perm a ∧ Scanned cmp p b (l + 1) r ∧ (idempotent → Sorted cmp a → b = a) := by
  have hr : r < a.length := (List.getElem?_eq_some_iff.1 hrt).1
  simp only [swapUnlessEqual, hls, hrt, bind_eq_bind, bind_some]
  split
  next hswap =>
    have hget i := @getElem?_set_set T a l r s t (hlr.trans hr) hr i
    refine ⟨_, swap_eq hls hrt, set_set_perm hls hrt, ⟨?_, ?_, ?_, ?_, ?_⟩, fun hid hsorted => ?_⟩
    · simpa using hr.le
    · grind
    · grind
    · exact ⟨r, s, hlr, by simp [hget], hps, .inl (by simpa using hr)⟩
    · exact ⟨l, t, hlr, by simp [hget, hlr.ne], htp⟩
    · have heq := OrientedCmp.isLE_antisymm (hsorted.isLE hlr hls hrt) (TransCmp.isLE_trans htp hps)
      simp [hid, heq] at hswap
  next hswap =>
    have heq : cmp s t = .eq := by simp at hswap; exact hswap.2
    have hst : (cmp s t).isLE := by rw [heq]; rfl
    have hsp := TransCmp.isLE_trans hst htp
    have hpt := TransCmp.isLE_trans hps hst
    refine ⟨a, rfl, .refl _, ⟨hr.le, ?_, ?_, ?_, ?_⟩, fun _ _ => rfl⟩
    · grind
    · grind
    · exact ⟨r, t, hlr, hrt, hpt, .inl hr⟩
    · exact ⟨l, s, hlr, hls, hsp⟩

lemma Scanned.partition (h : Scanned cmp p a left right) (idempotent) :
    ∃ b r, partition cmp idempotent p a left right = some (b, r) ∧ b.Perm a ∧
      r + 1 < a.length ∧ (∀ i x, i ≤ r → b[i]? = some x → (cmp x p).isLE) ∧
      (∀ i x, r < i → b[i]? = some x → (cmp p x).isLE) ∧ (idempotent → Sorted cmp a → b = a) := by
  induction right using Nat.strongRecOn generalizing a left with
  | _ right ih =>
    obtain ⟨i, x, hi, hix, hpx, hlast⟩ := h.stopsLeft
    obtain ⟨j, y, hj, hjy, hyp⟩ := h.stopsRight
    obtain ⟨l, s, hl, hli, hls, hps, hbelow⟩ := scanLeft_spec h.below hi hix hpx
    obtain ⟨r, t, hr, hrr, hrt, htp, habove⟩ := scanRight_spec h.above hj h.le hjy hyp
    rw [QuickSort.partition, hl, hr]
    by_cases hlr : l < r
    · obtain ⟨a1, ha, hperm, hscan, hid⟩ := scanned_swap idempotent hlr hls hrt hps htp hbelow habove
      obtain ⟨b, k, hb, hperm', hk, hle, hge, hid'⟩ := ih r hrr hscan
      refine ⟨b, k, by simp [hlr, ha, hb], hperm'.trans hperm, hperm.length_eq ▸ hk, hle, hge, fun hi hs => ?_⟩
      obtain rfl := hid hi hs; exact hid' hi hs
    · exact ⟨a, r, by simp [hlr], .refl _, by omega, by grind, habove, fun _ _ => rfl⟩

/-! ## The sort -/

variable (cmp) in
lemma scanned_of_pivot (h : 4 ≤ a.length) (hp : a[a.length / 2]? = some p) : Scanned cmp p a 0 a.length := by
  refine ⟨le_rfl, by omega, fun i x hi hx => ?_, ⟨_, _, Nat.zero_le _, hp, ReflCmp.isLE_rfl, .inr (by omega)⟩,
    ⟨_, _, by omega, hp, ReflCmp.isLE_rfl⟩⟩
  exact absurd (List.getElem?_eq_some_iff.1 hx).1 (by omega)

lemma innerSort_spec (idempotent) {fuel} (hfuel : a.length < fuel) : ∃ b, innerSort cmp idempotent fuel a = some b ∧
    b.Perm a ∧ Sorted cmp b ∧ (idempotent → Sorted cmp a → b = a) := by
  induction fuel generalizing a with
  | zero => omega
  | succ fuel ih =>
    by_cases h2 : a.length < 2
    · refine ⟨a, by simp [innerSort, h2], .refl _, ?_, fun _ _ => rfl⟩
      rw [Sorted, pairwise_iff_getElem]; omega
    obtain ⟨b, hb, hperm, hid⟩ := findPivot_spec cmp (Nat.le_of_not_lt h2)
    have hlen := hperm.length_eq
    by_cases h4 : a.length < 4
    · exact ⟨b, by simp [innerSort, h2, hb, hlen, h4], hperm, sorted_findPivot (Nat.le_of_not_lt h2) h4 hb,
      fun _ => hid⟩
    have hp := getElem?_eq_getElem (show b.length / 2 < b.length by omega)
    obtain ⟨c, k, hc, hperm', hk, hle, hge, hid'⟩ := (scanned_of_pivot cmp (by omega) hp).partition idempotent
    have hlen' := hperm'.length_eq
    obtain ⟨d, hd, hpd, hsd, hidd⟩ := @ih (c.take (k + 1)) (by simp; omega)
    obtain ⟨e, he, hpe, hse, hide⟩ := @ih (c.drop (k + 1)) (by simp; omega)
    have hde : (d ++ e).Perm a := ((hpd.append hpe).trans (.of_eq (take_append_drop ..))).trans (hperm'.trans hperm)
    refine ⟨d ++ e, ?_, hde, pairwise_append.2 ⟨hsd, hse, fun x hx y hy => ?_⟩, fun hi hs => ?_⟩
    · rw [← hlen] at hb h4; simp [innerSort, h2, hb, h4, hp, hc, hd, he]
    · obtain ⟨i, hi, hx⟩ := mem_take_iff_getElem.1 (hpd.subset hx)
      obtain ⟨j, hj⟩ := mem_iff_getElem?.1 (hpe.subset hy)
      rw [getElem?_drop] at hj
      exact TransCmp.isLE_trans (hle i x (by omega) (by rw [← hx, getElem?_eq_getElem])) (hge _ y (by omega) hj)
    · obtain rfl := hid hs; obtain rfl := hid' hi hs
      rw [hidd hi (hs.sublist (take_sublist ..)), hide hi (hs.sublist (drop_sublist ..)), take_append_drop]

/-- Fuel that exceeds the length of the array suffices. -/
theorem sort_is_correct (idempotent a) {fuel} (hfuel : a.length < fuel) :
    ∃ sorted, sort cmp idempotent a fuel = some sorted ∧ sorted.Perm a ∧ Sorted cmp sorted ∧
      (idempotent → Sorted cmp a → sorted = a) := by
  cases idempotent <;> exact innerSort_spec _ hfuel

theorem sort_is_correct_equal_keys : ∃ sorted, sort (compareOn Prod.fst) true [(1, 0), (1, 1), (1, 2), (2, 3)] 5 =
    some sorted ∧ sorted = [(1, 0), (1, 1), (1, 2), (2, 3)] := by
  obtain ⟨sorted, hsort, -, -, hid⟩ := @sort_is_correct (Nat × Nat) (compareOn Prod.fst) _ true
    [(1, 0), (1, 1), (1, 2), (2, 3)] 5 (by decide)
  exact ⟨sorted, hsort, hid rfl (by unfold Sorted; decide)⟩

end QuickSort

end Rolp.Utilities
