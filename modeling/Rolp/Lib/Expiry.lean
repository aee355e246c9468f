import Mathlib.Data.List.DropRight

/-!
# Lists whose oldest elements expire

If an element is expired, so are all before it. Such a list is a log of which only the last elements, not expired, are
kept.
-/

namespace Rolp.Lib

open List

variable {α : Type} {expired : α → Bool} {l : List α} {x : α} {n : Nat}

lemma rtake_of_length_le (h : l.length ≤ n) : l.rtake n = l := by rw [rtake, Nat.sub_eq_zero_of_le h, drop_zero]

lemma rtake_cons_of_le_length (h : n ≤ l.length) (x) : (x :: l).rtake n = l.rtake n := by
  rw [rtake, length_cons, Nat.succ_sub h, drop_succ_cons, rtake]

lemma rtake_rtake_concat (l : List α) (x : α) (n : Nat) : (l.rtake n ++ [x]).rtake n = (l ++ [x]).rtake n := by
  cases n with
  | zero => simp
  | succ n =>
    rw [rtake_concat_succ, rtake_concat_succ, rtake_eq_reverse_take_reverse (l.rtake (n + 1)),
      rtake_eq_reverse_take_reverse l, reverse_reverse, take_take, Nat.min_eq_left (Nat.le_succ n),
      ← rtake_eq_reverse_take_reverse]

section

variable (h : l.Pairwise fun x y => expired y = true → expired x = true)

include h

lemma dropWhile_eq_filter : l.dropWhile expired = l.filter fun x => !expired x := by
  induction l with
  | nil => rfl
  | cons x l ih =>
    obtain ⟨hx, hl⟩ := pairwise_cons.1 h
    cases hexp : expired x with
    | true => rw [dropWhile_cons_of_pos hexp, filter_cons_of_neg (by simp [hexp]), ih hl]
    | false =>
      have hfresh : ∀ y ∈ l, (!expired y) = true := by
        intro y hy
        cases hexp' : expired y with
        | true => exact absurd (hx y hy hexp') (by simp [hexp])
        | false => rfl
      rw [dropWhile_cons_of_neg (by simp [hexp]), filter_cons_of_pos (by simp [hexp]), filter_eq_self.2 hfresh]

lemma dropWhile_rtake (n) : (l.rtake n).dropWhile expired = (l.filter fun x => !expired x).rtake n := by
  induction l with
  | nil => simp
  | cons x l ih =>
    obtain ⟨hx, hl⟩ := pairwise_cons.1 h
    by_cases hlen : (x :: l).length ≤ n
    · rw [rtake_of_length_le hlen, dropWhile_eq_filter h, rtake_of_length_le ((length_filter_le _ _).trans hlen)]
    have hle : n ≤ l.length := Nat.le_of_lt_succ (not_le.1 hlen)
    rw [rtake_cons_of_le_length hle, ih hl]
    cases hexp : expired x with
    | true => rw [filter_cons_of_neg (by simp [hexp])]
    | false =>
      have hfilter := dropWhile_eq_filter h
      rw [dropWhile_cons_of_neg (by simp [hexp])] at hfilter
      have hself : (l.filter fun x => !expired x) = l := by
        rw [filter_cons_of_pos (by simp [hexp])] at hfilter
        exact (cons.inj hfilter).2.symm
      rw [← hfilter, hself, rtake_cons_of_le_length hle]

end

end Rolp.Lib
