import Mathlib.Algebra.BigOperators.Group.Finset.Basic
import Mathlib.Data.Fintype.Basic

/-!
# Pools of cells

Cells are free, held by one of finitely many owners, booked or hidden. None is created or lost as long as what one owner
gains, some other part loses.
-/

namespace Rolp.Lib

open Multiset Finset Function

section

variable {O A M : Type} [Fintype O] [DecidableEq O] [AddCommMonoid M] (f : O → A) (o : O) (x : A) (g : A → M)

lemma sum_update : ∑ o', g (update f o x o') = g x + ∑ o' ∈ univ.erase o, g (f o') := by
  have hrest : ∀ o' ∈ univ.erase o, g (update f o x o') = g (f o') := by
    intro o' ho'
    rw [update_of_ne (ne_of_mem_erase ho')]
  rw [← add_sum_erase _ _ (mem_univ o), sum_congr rfl hrest, update_self]

lemma sum_update_add {d} (h : g x = g (f o) + d) : ∑ o', g (update f o x o') = ∑ o', g (f o') + d := by
  rw [sum_update, ← add_sum_erase _ (fun o' => g (f o')) (mem_univ o), h, add_right_comm]

lemma sum_update_exchange : ∑ o', g (update f o x o') + g (f o) = ∑ o', g (f o') + g x := by
  rw [sum_update, ← add_sum_erase _ (fun o' => g (f o')) (mem_univ o), add_right_comm, add_comm (g x),
    add_right_comm (g (f o))]

end

structure Pool (O I : Type) where
  free : Multiset I
  held : O → Multiset I
  booked : Multiset I
  hidden : Multiset I

namespace Pool

variable {O I : Type} [Fintype O] {p q : Pool O I}

def all (p : Pool O I) : Multiset I := p.free + ∑ o, p.held o + p.booked + p.hidden

lemma all_eq (p : Pool O I) : p.all = p.free + p.booked + p.hidden + ∑ o, p.held o := by
  rw [all, add_right_comm p.free, add_right_comm (p.free + p.booked)]

lemma all_of_move [DecidableEq O] (o : O) (hheld : ∀ o' ≠ o, q.held o' = p.held o')
    (hmove : q.free + q.booked + q.hidden + q.held o = p.free + p.booked + p.hidden + p.held o) : q.all = p.all := by
  have hrest : ∑ o' ∈ univ.erase o, q.held o' = ∑ o' ∈ univ.erase o, p.held o' :=
    sum_congr rfl fun o' ho' => hheld o' (ne_of_mem_erase ho')
  rw [all_eq, all_eq, ← add_sum_erase _ q.held (mem_univ o),
    ← add_sum_erase _ p.held (mem_univ o), hrest, ← add_assoc, ← add_assoc, hmove]

variable {i : I}

lemma mem_all : i ∈ p.all ↔ i ∈ p.free ∨ (∃ o, i ∈ p.held o) ∨ i ∈ p.booked ∨ i ∈ p.hidden := by
  simp [all, or_assoc]

/-! ## A cell is in one part -/

section

variable (hp : p.all.Nodup)

include hp

lemma not_mem_of_held {o} (hi : i ∈ p.held o) : i ∉ p.free ∧ i ∉ p.booked ∧ i ∉ p.hidden := by
  rw [all_eq] at hp
  have hdisj := (nodup_add.1 hp).2.2
  have hmem : i ∈ ∑ o, p.held o := mem_sum.2 ⟨o, mem_univ o, hi⟩
  have hnot : i ∉ p.free + p.booked + p.hidden := fun h => disjoint_left.1 hdisj h hmem
  simpa [mem_add, not_or, and_assoc] using hnot

lemma held_unique {o o'} (hi : i ∈ p.held o) (hi' : i ∈ p.held o') : o' = o := by
  classical
  by_contra hne
  rw [all_eq, ← add_sum_erase _ p.held (mem_univ o)] at hp
  have hdisj := (nodup_add.1 (nodup_add.1 hp).2.1).2.2
  exact disjoint_left.1 hdisj hi (mem_sum.2 ⟨o', mem_erase.2 ⟨hne, mem_univ o'⟩, hi'⟩)

lemma not_mem_hidden_of_booked (hi : i ∈ p.booked) : i ∉ p.hidden :=
  fun h => disjoint_left.1 (nodup_add.1 hp).2.2 (mem_add.2 (.inr hi)) h

lemma not_mem_booked_of_free (hi : i ∈ p.free) : i ∉ p.booked := by
  have hdisj := (nodup_add.1 (nodup_add.1 hp).1).2.2
  exact fun h => disjoint_left.1 hdisj (mem_add.2 (.inl hi)) h

lemma not_mem_hidden_of_free (hi : i ∈ p.free) : i ∉ p.hidden :=
  fun h => disjoint_left.1 (nodup_add.1 hp).2.2
    (mem_add.2 (.inl (mem_add.2 (.inl hi)))) h

lemma nodup_booked : p.booked.Nodup := (nodup_add.1 (nodup_add.1 hp).1).2.1

lemma nodup_free : p.free.Nodup := (nodup_add.1 (nodup_add.1 (nodup_add.1 hp).1).1).1

end

/-! ## Weights -/

lemma sum_map_all (w : I → Nat) (hfree : ∀ i ∈ p.free, w i = 0) (hhidden : ∀ i ∈ p.hidden, w i = 0) :
    (p.all.map w).sum = (p.booked.map w).sum + ∑ o, ((p.held o).map w).sum := by
  have hzero : ∀ m : Multiset I, (∀ i ∈ m, w i = 0) → (m.map w).sum = 0 := by
    intro m hm
    rw [map_congr rfl hm]
    simp
  have hheld : ((∑ o, p.held o).map w).sum = ∑ o, ((p.held o).map w).sum := by
    rw [← coe_mapAddMonoidHom, map_sum, sum_sum]
  rw [all_eq, map_add, sum_add, hheld, map_add, map_add, sum_add,
    sum_add, hzero _ hfree, hzero _ hhidden, zero_add, add_zero]

end Pool

end Rolp.Lib
