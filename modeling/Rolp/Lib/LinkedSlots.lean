import Mathlib.Data.List.Nodup

/-!
# Lists linked through slots

The slots of an array hold the index of the next slot. A list is linked from a head if following the indices visits its
slots and then ends.
-/

namespace Rolp.Lib

open Function List

def Linked (next : Nat → Option Nat) : Option Nat → List Nat → Prop
  | a, [] => a = none
  | a, i :: l => a = some i ∧ Linked next (next i) l

variable {next next' : Nat → Option Nat} {a : Option Nat} {l l1 l2 : List Nat} {i j : Nat}

@[simp] lemma linked_nil : Linked next a [] ↔ a = none := .rfl

@[simp] lemma linked_cons : Linked next a (i :: l) ↔ a = some i ∧ Linked next (next i) l := .rfl

lemma Linked.congr (h : Linked next a l) (hc : ∀ i ∈ l, next' i = next i) : Linked next' a l := by
  induction l generalizing a with
  | nil => exact h
  | cons i l ih =>
    refine ⟨h.1, ?_⟩
    rw [hc i (by simp)]
    exact ih h.2 fun j hj => hc j (by simp [hj])

lemma Linked.update (h : Linked next a l) (hj : j ∉ l) (x) : Linked (update next j x) a l := by
  refine h.congr fun i hi => ?_
  have hne : i ≠ j := by
    rintro rfl
    exact hj hi
  rw [update_of_ne hne]

lemma Linked.head_eq (h : Linked next a l) : a = l.head? := by
  cases l with
  | nil => exact h
  | cons i l => exact h.1

lemma Linked.behind (h : Linked next a (l1 ++ i :: l2)) : Linked next (next i) l2 := by
  induction l1 generalizing a with
  | nil => exact h.2
  | cons k l1 ih => exact ih h.2

lemma Linked.next_eq (h : Linked next a (l1 ++ i :: l2)) : next i = l2.head? := h.behind.head_eq

/-- Slot `j` gets another list behind it. -/
lemma Linked.relink {b} (h : Linked next a (l1 ++ j :: l)) (hn : (l1 ++ j :: l).Nodup) (hb : Linked next b l2)
    (hj : j ∉ l2) : Linked (Function.update next j b) a (l1 ++ j :: l2) := by
  induction l1 generalizing a with
  | nil =>
    refine ⟨h.1, ?_⟩
    rw [update_self]
    exact hb.update hj b
  | cons k l1 ih =>
    obtain ⟨hk, hn'⟩ := nodup_cons.1 hn
    have hne : k ≠ j := by
      rintro rfl
      exact hk (by simp)
    refine ⟨h.1, ?_⟩
    rw [update_of_ne hne]
    exact ih h.2 hn'

lemma Linked.unlink (h : Linked next a (l1 ++ j :: i :: l2)) (hn : (l1 ++ j :: i :: l2).Nodup) :
    Linked (Function.update next j (next i)) a (l1 ++ j :: l2) := by
  have hj := (nodup_cons.1 (nodup_append.1 hn).2.1).1
  exact h.relink hn h.behind.2 fun hmem => hj (mem_cons_of_mem i hmem)

lemma Linked.insert (h : Linked next a (l1 ++ j :: l2)) (hn : (l1 ++ j :: l2).Nodup) (hi : i ∉ l1 ++ j :: l2) :
    Linked (Function.update (Function.update next i (next j)) j (some i)) a (l1 ++ j :: i :: l2) := by
  have hj : j ∉ i :: l2 := by
    have hj2 := (nodup_cons.1 (nodup_append.1 hn).2.1).1
    rintro (_ | ⟨_, hmem⟩)
    · exact hi (by simp)
    · exact hj2 hmem
  refine (h.update hi (next j)).relink hn ⟨rfl, ?_⟩ hj
  rw [update_self]
  exact h.behind.update (fun hmem => hi (by simp [hmem])) _

/-! ## Searching -/

def search (next : Nat → Option Nat) (p : Nat → Bool) : Nat → Option Nat → Option Nat
  | 0, _ => none
  | _, none => none
  | fuel + 1, some i => if p i then some i else search next p fuel (next i)

variable {p : Nat → Bool}

lemma search_eq (h : Linked next a l) {fuel} (hf : l.length ≤ fuel) : search next p fuel a = l.find? p := by
  induction l generalizing a fuel with
  | nil =>
    rw [linked_nil.1 h]
    cases fuel <;> rfl
  | cons i l ih =>
    obtain ⟨rfl, hl⟩ := h
    cases fuel with
    | zero => cases hf
    | succ fuel =>
      have ih' := ih hl (Nat.le_of_succ_le_succ hf)
      cases hp : p i <;> simp [search, hp, ih']

def searchWithPrev (next : Nat → Option Nat) (p : Nat → Bool) : Nat → Option Nat → Option Nat →
    Option (Option Nat × Nat)
  | 0, _, _ => none
  | _, _, none => none
  | fuel + 1, prev, some i => if p i then some (prev, i) else searchWithPrev next p fuel (some i) (next i)

lemma searchWithPrev_none (h : Linked next a l) (hp : ∀ i ∈ l, p i = false) (fuel)
    (prev) : searchWithPrev next p fuel prev a = none := by
  induction l generalizing a fuel prev with
  | nil =>
    rw [linked_nil.1 h]
    cases fuel <;> rfl
  | cons i l ih =>
    obtain ⟨rfl, hl⟩ := h
    cases fuel with
    | zero => rfl
    | succ fuel => simp [searchWithPrev, hp i (by simp), ih hl fun j hj => hp j (by simp [hj])]

lemma searchWithPrev_some (h : Linked next a (l1 ++ i :: l2)) (hl1 : ∀ j ∈ l1, p j = false)
    (hi : p i = true) {fuel} (hf : l1.length < fuel) (prev) :
    searchWithPrev next p fuel prev a = some (l1.getLast?.or prev, i) := by
  induction l1 generalizing a fuel prev with
  | nil =>
    obtain ⟨rfl, -⟩ := h
    cases fuel with
    | zero => cases hf
    | succ fuel => simp [searchWithPrev, hi]
  | cons j l1 ih =>
    obtain ⟨rfl, hl⟩ := h
    cases fuel with
    | zero => cases hf
    | succ fuel =>
      have ih' := ih hl (fun k hk => hl1 k (by simp [hk])) (Nat.lt_of_succ_lt_succ hf) (some j)
      rw [searchWithPrev, hl1 j (by simp)]
      simp only [ih', getLast?_cons]
      cases l1.getLast? <;> rfl

/-!
## Doubly linked lists

A list of slots that is linked by `next` from its head and by `prev` from its last slot.
-/

structure Chain (next prev : Nat → Option Nat) (l : List Nat) : Prop where
  forward : Linked next l.head? l
  backward : Linked prev l.reverse.head? l.reverse

variable {next prev next' prev' : Nat → Option Nat} {l l1 l2 : List Nat} {i j k : Nat}

lemma chain_singleton (hn : next i = none) (hp : prev i = none) : Chain next prev [i] := ⟨⟨rfl, hn⟩, ⟨rfl, hp⟩⟩

lemma Chain.congr (h : Chain next prev l) (hn : ∀ i ∈ l, next' i = next i) (hp : ∀ i ∈ l, prev' i = prev i) :
    Chain next' prev' l :=
  ⟨h.forward.congr hn, h.backward.congr fun i hi => hp i (mem_reverse.1 hi)⟩

lemma Chain.next_eq (h : Chain next prev (l1 ++ i :: l2)) : next i = l2.head? := h.forward.next_eq

lemma Chain.prev_eq (h : Chain next prev (l1 ++ j :: i :: l2)) : prev i = some j := by
  have hb := h.backward
  simp only [reverse_append, reverse_cons, append_assoc] at hb
  exact hb.next_eq

lemma Chain.snoc (h : Chain next prev (l ++ [j])) (hn : (l ++ [j]).Nodup) (hi : i ∉ l ++ [j]) :
    Chain (update (update next j (some i)) i none) (update prev i (some j)) (l ++ [j, i]) := by
  have hne : j ≠ i := fun heq => hi (by simp [heq])
  constructor
  · have hi' : Linked (update next i none) (some i) [i] := ⟨rfl, update_self _ _ _⟩
    have h' : Linked (update next i none) (l ++ [j]).head? (l ++ [j]) := h.forward.update hi none
    rw [update_comm hne]
    have := h'.relink hn hi' (by simpa using hne)
    cases l <;> exact this
  · have hb := h.backward.update (x := some j) (fun hmem => hi (mem_reverse.1 hmem))
    simp only [reverse_append] at hb ⊢
    exact ⟨rfl, by rwa [update_self]⟩

lemma Chain.tail (h : Chain next prev (i :: j :: l)) (hn : (i :: j :: l).Nodup) :
    Chain next (update prev j none) (j :: l) := by
  refine ⟨h.forward.2.head_eq ▸ h.forward.2, ?_⟩
  have hb := h.backward
  have hi : prev i = none := by
    rw [reverse_cons] at hb
    exact hb.next_eq
  have hn' := nodup_reverse.2 hn
  simp only [reverse_cons, append_assoc, singleton_append] at hb hn' ⊢
  have := hb.unlink hn'
  rw [hi] at this
  have hhead : (l.reverse ++ [j, i]).head? = (l.reverse ++ [j]).head? := by cases l.reverse <;> rfl
  rwa [hhead] at this

def linkPrev (prev : Nat → Option Nat) (x : Option Nat) (j : Nat) : Nat → Option Nat :=
  match x with
  | none => prev
  | some k => update prev k (some j)

lemma Chain.unlink (h : Chain next prev (l1 ++ j :: i :: l2)) (hn : (l1 ++ j :: i :: l2).Nodup) :
    Chain (update next j l2.head?) (linkPrev prev l2.head? j) (l1 ++ j :: l2) := by
  constructor
  · have hi : next i = l2.head? := by
      have hf := h.forward
      rw [← singleton_append, ← append_assoc] at hf
      exact hf.next_eq
    have := h.forward.unlink hn
    rw [hi] at this
    cases l1 <;> exact this
  have hb := h.backward
  have hn' := nodup_reverse.2 hn
  cases l2 with
  | nil =>
    simp only [reverse_append, reverse_cons, reverse_nil, nil_append, cons_append,
      head?_cons] at hb ⊢
    have hj : prev i = some j := hb.2.head_eq
    exact hj ▸ hb.2
  | cons k l2 =>
    have hij := h.prev_eq
    simp only [reverse_append, reverse_cons, append_assoc, linkPrev] at hb hn' ⊢
    have := hb.unlink hn'
    rw [hij] at this
    cases hl : l2.reverse with
    | nil => simpa [hl] using this
    | cons m l => simpa [hl] using this

end Rolp.Lib
