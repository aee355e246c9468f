import Mathlib.Data.List.Basic
import Mathlib.Data.Nat.ModEq

/-!
# Buffers of a fixed length

A write outside a buffer is undefined.
-/

namespace Rolp.Lib

open List

variable {α : Type}

def atPut (buffer : List α) (i : Nat) (a : α) : Option (List α) :=
  if i < buffer.length then some (buffer.set i a) else none

/-- Write the elements of `src` one after the other, from the index `offset` on. -/
def copyInto (offset : Nat) : List α → List α → Option (List α)
  | [], buffer => some buffer
  | a :: src, buffer => do
    let buffer ← atPut buffer offset a
    copyInto (offset + 1) src buffer

lemma copyInto_eq {offset : Nat} {src buffer : List α} (h : offset + src.length ≤ buffer.length) :
    copyInto offset src buffer = some (buffer.take offset ++ src ++ buffer.drop (offset + src.length)) := by
  induction src generalizing offset buffer with
  | nil => simp [copyInto]
  | cons a src ih =>
    rw [length_cons] at h
    have hlt : offset < buffer.length := by omega
    have htake : (buffer.set offset a).take (offset + 1) = buffer.take offset ++ [a] := by
      rw [take_succ_eq_append_getElem (by simpa using hlt), getElem_set_self, take_set_of_le (le_rfl)]
    have hdrop : (buffer.set offset a).drop (offset + 1 + src.length) = buffer.drop (offset + (src.length + 1)) := by
      rw [drop_set_of_lt (by omega)]
      congr 1
      omega
    rw [copyInto, atPut, if_pos hlt, Option.bind_eq_bind, Option.bind_some, ih (by simpa using by omega), htake, hdrop]
    simp

/-!
## Circular buffers

A list lies in the array from some index on if its elements are in the slots that follow, modulo the capacity.
-/

variable {cap : Nat} {array : Nat → α} {start start' : Nat} {l : List α} {x : α}

def RingAt (cap : Nat) (array : Nat → α) (start : Nat) (l : List α) : Prop :=
  ∀ i x, l[i]? = some x → array ((start + i) % cap) = x

lemma ringAt_nil : RingAt cap array start [] := by
  intro i x h
  cases h

lemma RingAt.congr_start (h : RingAt cap array start l) (hs : start' % cap = start % cap) :
    RingAt cap array start' l := by
  intro i x hx
  rw [Nat.add_mod, hs, ← Nat.add_mod]
  exact h i x hx

lemma RingAt.head (h : RingAt cap array start (x :: l)) : array (start % cap) = x := h 0 x rfl

lemma RingAt.tail (h : RingAt cap array start (x :: l)) : RingAt cap array (start + 1) l := by
  intro i y hy
  have hi := h (i + 1) y hy
  rwa [Nat.add_comm i 1, ← Nat.add_assoc] at hi

lemma RingAt.getElem {l1 l2} (h : RingAt cap array start (l1 ++ x :: l2)) :
    array ((start + l1.length) % cap) = x := h l1.length x (by simp)

lemma mod_add_ne {i j} (hij : i < j) (hj : j < i + cap) : (start + i) % cap ≠ (start + j) % cap := by
  intro h
  have hmod : i ≡ j [MOD cap] := Nat.ModEq.add_left_cancel' start h
  have hdvd : cap ∣ j - i := (Nat.modEq_iff_dvd' (Nat.le_of_lt hij)).1 hmod
  exact absurd (Nat.le_of_dvd (by omega) hdvd) (by omega)

lemma RingAt.left {l1 l2} (h : RingAt cap array start (l1 ++ l2)) : RingAt cap array start l1 := by
  intro i x hx
  exact h i x (by rw [getElem?_append_left (List.getElem?_eq_some_iff.1 hx).1, hx])

section

variable (h : RingAt cap array start l)

include h

lemma RingAt.update_free (hlen : l.length < cap) (x) :
    RingAt cap (Function.update array ((start + l.length) % cap) x) start l := by
  intro i y hy
  have hi : i < l.length := (List.getElem?_eq_some_iff.1 hy).1
  rw [Function.update_of_ne (mod_add_ne hi (by omega))]
  exact h i y hy

lemma RingAt.snoc (hx : array ((start + l.length) % cap) = x) : RingAt cap array start (l ++ [x]) := by
  intro i y hy
  by_cases hi : i < l.length
  · rw [getElem?_append_left hi] at hy
    exact h i y hy
  · have hlt : i < (l ++ [x]).length := (List.getElem?_eq_some_iff.1 hy).1
    have heq : i = l.length := by
      rw [length_append, length_singleton] at hlt
      omega
    subst heq
    rw [getElem?_concat_length, Option.some.injEq] at hy
    rw [hx, hy]

lemma RingAt.push (hlen : l.length < cap) (x) :
    RingAt cap (Function.update array ((start + l.length) % cap) x) start (l ++ [x]) :=
  (h.update_free hlen x).snoc (Function.update_self _ _ _)

lemma RingAt.eq_map_range : l = (List.range l.length).map fun i => array ((start + i) % cap) := by
  apply ext_getElem (by simp)
  intro i hi _
  rw [getElem_map, getElem_range]
  exact (h i l[i] (getElem?_eq_getElem hi)).symm

end

end Rolp.Lib
