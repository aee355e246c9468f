import Mathlib.Data.List.Pairwise
import Mathlib.Data.List.Basic

/-!
# Consecutive blocks

A block is a start address and a size. Blocks tile an interval if each starts where the one before it ends.
-/

namespace Rolp.Lib

open List Nat

/-- The blocks cover the addresses from `lo` to `hi`, in order, without a gap or an overlap. -/
def Tiles : Nat → List (Nat × Nat) → Nat → Prop
  | lo, [], hi => lo = hi
  | lo, b :: bs, hi => b.1 = lo ∧ 0 < b.2 ∧ Tiles (lo + b.2) bs hi

@[simp] lemma tiles_nil {lo hi} : Tiles lo [] hi ↔ lo = hi := .rfl

@[simp] lemma tiles_cons {lo hi b bs} : Tiles lo (b :: bs) hi ↔ b.1 = lo ∧ 0 < b.2 ∧ Tiles (lo + b.2) bs hi := .rfl

lemma tiles_append {lo hi bs bs'} : Tiles lo (bs ++ bs') hi ↔ ∃ mid, Tiles lo bs mid ∧ Tiles mid bs' hi := by
  induction bs generalizing lo with
  | nil => simp
  | cons b bs ih =>
    simp only [cons_append, tiles_cons, ih]
    constructor
    · rintro ⟨hb, hpos, mid, h, h'⟩
      exact ⟨mid, ⟨hb, hpos, h⟩, h'⟩
    · rintro ⟨mid, ⟨hb, hpos, h⟩, h'⟩
      exact ⟨hb, hpos, mid, h, h'⟩

lemma Tiles.snoc {lo mid size bs} (h : Tiles lo bs mid) (hsize : 0 < size) :
    Tiles lo (bs ++ [(mid, size)]) (mid + size) :=
  tiles_append.2 ⟨mid, h, rfl, hsize, rfl⟩

lemma Tiles.le {lo hi bs} (h : Tiles lo bs hi) : lo ≤ hi := by
  induction bs generalizing lo with
  | nil => exact Nat.le_of_eq h
  | cons b bs ih =>
    have := ih h.2.2
    omega

lemma Tiles.length_le {lo hi bs} (h : Tiles lo bs hi) : lo + bs.length ≤ hi := by
  induction bs generalizing lo with
  | nil => exact Nat.le_of_eq h
  | cons b bs ih =>
    have := ih h.2.2
    have := h.2.1
    rw [length_cons]
    omega

theorem Tiles.within {lo hi bs} (h : Tiles lo bs hi) : ∀ b ∈ bs, lo ≤ b.1 ∧ b.1 + b.2 ≤ hi := by
  induction bs generalizing lo with
  | nil => simp
  | cons b bs ih =>
    intro b' hb'
    rcases mem_cons.1 hb' with rfl | hb'
    · have := h.2.2.le
      have := h.1
      omega
    · have := ih h.2.2 b' hb'
      omega

lemma Tiles.pairwise {lo hi bs} (h : Tiles lo bs hi) : bs.Pairwise fun b b' => b.1 + b.2 ≤ b'.1 := by
  induction bs generalizing lo with
  | nil => exact .nil
  | cons b bs ih =>
    refine .cons (fun b' hb' => ?_) (ih h.2.2)
    have := h.2.2.within b' hb'
    have := h.1
    omega

lemma Tiles.pos {lo hi bs} (h : Tiles lo bs hi) : ∀ b ∈ bs, 0 < b.2 := by
  induction bs generalizing lo with
  | nil => simp
  | cons b bs ih => exact forall_mem_cons.2 ⟨h.2.1, ih h.2.2⟩

lemma Tiles.nodup_starts {lo hi bs} (h : Tiles lo bs hi) : (bs.map Prod.fst).Nodup := by
  refine pairwise_map.2 (h.pairwise.imp_of_mem fun {b b'} hb _ hle heq => ?_)
  have hpos := h.pos b hb
  omega

lemma Tiles.exists_first {lo hi bs} (h : Tiles lo bs hi) (hlt : lo < hi) : ∃ b ∈ bs, b.1 = lo := by
  cases bs with
  | nil => exact absurd h (Nat.ne_of_lt hlt)
  | cons b bs => exact ⟨b, mem_cons_self, h.1⟩

lemma Tiles.exists_next {lo hi bs} (h : Tiles lo bs hi) {b} (hb : b ∈ bs)
    (hlt : b.1 + b.2 < hi) : ∃ b' ∈ bs, b'.1 = b.1 + b.2 := by
  obtain ⟨pre, post, rfl⟩ := append_of_mem hb
  obtain ⟨mid, -, hmid, -, hpost⟩ := tiles_append.1 h
  subst hmid
  obtain ⟨b', hb', heq⟩ := hpost.exists_first hlt
  exact ⟨b', mem_append_right _ (mem_cons_of_mem b hb'), heq⟩

lemma eq_take_append_cons_drop {α : Type} {l : List α} {k : Nat} {a : α} (hk : l[k]? = some a) :
    l = l.take k ++ a :: l.drop (k + 1) := by
  obtain ⟨hlt, rfl⟩ := List.getElem?_eq_some_iff.1 hk
  rw [getElem_cons_drop, take_append_drop]

section Replace

variable {lo hi start size k : Nat} {bs bs' : List (Nat × Nat)}

lemma Tiles.replace (h : Tiles lo bs hi) (hk : bs[k]? = some (start, size)) (h' : Tiles start bs' (start + size)) :
    Tiles lo (bs.take k ++ (bs' ++ bs.drop (k + 1))) hi := by
  rw [eq_take_append_cons_drop hk] at h
  obtain ⟨mid, hpre, hmid, -, hpost⟩ := tiles_append.1 h
  subst hmid
  exact tiles_append.2 ⟨_, hpre, tiles_append.2 ⟨_, h', hpost⟩⟩

lemma Tiles.exists_start_replace (h : Tiles lo bs hi) (hk : bs[k]? = some (start, size))
    (h' : Tiles start bs' (start + size)) {q : Nat} (hq : ∃ b ∈ bs, b.1 = q) :
    ∃ b ∈ bs.take k ++ (bs' ++ bs.drop (k + 1)), b.1 = q := by
  obtain ⟨b, hb, rfl⟩ := hq
  have hsize : 0 < size := h.pos _ (mem_of_getElem? hk)
  rw [eq_take_append_cons_drop hk, mem_append, mem_cons] at hb
  rcases hb with hpre | rfl | hpost
  · exact ⟨b, mem_append_left _ hpre, rfl⟩
  · obtain ⟨b', hb', heq⟩ := h'.exists_first (Nat.lt_add_of_pos_right hsize)
    exact ⟨b', mem_append_right _ (mem_append_left _ hb'), heq⟩
  · exact ⟨b, mem_append_right _ (mem_append_right _ hpost), rfl⟩

end Replace

/-! ## Walking over blocks -/

/-- Read the size of the block at `lo`, step over it, and go on up to `hi`. -/
def walk (sizeAt : Nat → Nat) : Nat → Nat → Nat → Option (List (Nat × Nat))
  | 0, _, _ => none
  | fuel + 1, lo, hi => if lo = hi then some [] else (walk sizeAt fuel (lo + sizeAt lo) hi).map ((lo, sizeAt lo) :: ·)

lemma walk_of_tiles {sizeAt lo hi bs} (h : Tiles lo bs hi)
    (hsize : ∀ b ∈ bs, sizeAt b.1 = b.2) {fuel} (hfuel : bs.length < fuel) : walk sizeAt fuel lo hi = some bs := by
  induction bs generalizing lo fuel with
  | nil =>
    cases fuel with
    | zero => cases hfuel
    | succ fuel => simp [walk, tiles_nil.1 h]
  | cons b bs ih =>
    obtain ⟨rfl, hpos, hrest⟩ := h
    cases fuel with
    | zero => cases hfuel
    | succ fuel =>
      have hb : sizeAt b.1 = b.2 := hsize b (by simp)
      have hne : b.1 ≠ hi := by
        have := hrest.le
        omega
      have ih' := ih hrest (fun b' hb' => hsize b' (by simp [hb'])) (lt_of_succ_lt_succ hfuel)
      simp [walk, hne, hb, ih']

/-!
## Sections

Spans of an address space that follow each other, with gaps, between two bounds.
-/

structure Span where
  start : Int
  stop : Int

def Stacked : Int → List Span → Int → Prop
  | lo, [], hi => lo ≤ hi
  | lo, r :: rs, hi => lo ≤ r.start ∧ r.start ≤ r.stop ∧ Stacked r.stop rs hi

def optional (present : Bool) (start stop : Int) : List Span := if present then [⟨start, stop⟩] else []

variable {lo hi : Int} {rs : List Span}

lemma Stacked.le (h : Stacked lo rs hi) : lo ≤ hi := by
  induction rs generalizing lo with
  | nil => exact h
  | cons r rs ih =>
    obtain ⟨h1, h2, h3⟩ := h
    exact Int.le_trans h1 (Int.le_trans h2 (ih h3))

lemma Stacked.mono {lo'} (h : Stacked lo rs hi) (hle : lo' ≤ lo) : Stacked lo' rs hi := by
  cases rs with
  | nil => exact Int.le_trans hle h
  | cons r rs => exact ⟨Int.le_trans hle h.1, h.2⟩

lemma Stacked.append {mid rs'} (h : Stacked lo rs mid) (h' : Stacked mid rs' hi) : Stacked lo (rs ++ rs') hi := by
  induction rs generalizing lo with
  | nil => exact h'.mono h
  | cons r rs ih => exact ⟨h.1, h.2.1, ih h.2.2⟩

lemma stacked_optional {start stop present} (hle : lo ≤ hi)
    (h : present = true → lo ≤ start ∧ start ≤ stop ∧ stop ≤ hi) : Stacked lo (optional present start stop) hi := by
  cases present with
  | false => exact hle
  | true => exact h rfl

lemma Stacked.mem_bounds (h : Stacked lo rs hi) {r} (hr : r ∈ rs) : lo ≤ r.start ∧ r.start ≤ r.stop ∧ r.stop ≤ hi := by
  induction rs generalizing lo with
  | nil => cases hr
  | cons a rs ih =>
    obtain ⟨h1, h2, h3⟩ := h
    rcases mem_cons.1 hr with rfl | hr
    · exact ⟨h1, h2, h3.le⟩
    · obtain ⟨h4, h5⟩ := ih h3 hr
      exact ⟨Int.le_trans h1 (Int.le_trans h2 h4), h5⟩

lemma Stacked.pairwise (h : Stacked lo rs hi) : rs.Pairwise fun r r' => r.stop ≤ r'.start := by
  induction rs generalizing lo with
  | nil => exact List.Pairwise.nil
  | cons r rs ih =>
    obtain ⟨-, -, h3⟩ := h
    exact pairwise_cons.2 ⟨fun r' hr' => (h3.mem_bounds hr').1, ih h3⟩

/-!
## Maps of back distances

Every cell of a block holds a distance back towards the first cell, which holds 0. Distances are at most `cap`, so the
way back may take several steps.
-/

variable {cap : Nat}

/-- The entry `k` cells after the start of a block. -/
def backDistance (cap k : Nat) : Nat := if k = 0 then 0 else (k - 1) % cap + 1

@[simp] lemma backDistance_zero : backDistance cap 0 = 0 := rfl

lemma backDistance_pos (cap) {k} (hk : k ≠ 0) : 0 < backDistance cap k := by
  rw [backDistance, if_neg hk]
  exact succ_pos _

lemma backDistance_le_self (cap k) : backDistance cap k ≤ k := by
  unfold backDistance
  split
  · exact zero_le k
  · have := mod_le (k - 1) cap
    omega

lemma backDistance_le_cap (hcap : 0 < cap) (k) : backDistance cap k ≤ cap := by
  unfold backDistance
  split
  · exact zero_le cap
  · exact mod_lt _ hcap

lemma backDistance_succ (hcap : 0 < cap) (k) :
    backDistance cap (k + 1) = if backDistance cap k = cap then 1 else backDistance cap k + 1 := by
  cases k with
  | zero => simp [backDistance]
  | succ k =>
    simp only [backDistance, succ_ne_zero, if_false, Nat.add_sub_cancel]
    have hlt := mod_lt k hcap
    rw [add_mod]
    by_cases hk : k % cap + 1 = cap
    · rw [if_pos hk]
      by_cases hone : cap = 1
      · subst hone
        simp [mod_one]
      · rw [mod_eq_of_lt (show 1 < cap by omega), hk, mod_self]
    · rw [if_neg hk, mod_eq_of_lt (show 1 < cap by omega), mod_eq_of_lt (by omega)]

/-- Write the entries of a block to the `n` cells from `p` on; the next entry is `i`. -/
def fillBack (cap : Nat) (map : Nat → Nat) : Nat → Nat → Nat → Nat → Nat
  | 0, _, _ => map
  | n + 1, p, i => fillBack cap (Function.update map p i) n (p + 1) (if i = cap then 1 else i + 1)

lemma fillBack_eq (hcap : 0 < cap) (map n p k s) : fillBack cap map n p (backDistance cap k) s =
      if p ≤ s ∧ s < p + n then backDistance cap (k + (s - p)) else map s := by
  induction n generalizing map p k with
  | zero => rw [fillBack, if_neg (by omega)]
  | succ n ih =>
    rw [fillBack, ← backDistance_succ hcap, ih]
    by_cases hs : s = p
    · subst hs
      rw [if_neg (by omega), if_pos (by omega), Function.update_self, Nat.sub_self]
      rfl
    · rw [Function.update_of_ne hs]
      by_cases hin : p + 1 ≤ s ∧ s < p + 1 + n
      · rw [if_pos hin, if_pos (by omega), show k + 1 + (s - (p + 1)) = k + (s - p) by omega]
      · rw [if_neg hin, if_neg (by omega)]

/-- From the cell `i` back to the start of its block. -/
def walkBack (map : Nat → Nat) : Nat → Nat → Option Nat
  | 0, _ => none
  | fuel + 1, i =>
    if 0 < map i then
      if map i ≤ i then walkBack map fuel (i - map i) else none
    else some i

lemma walkBack_eq {map start k} (h : ∀ j ≤ k, map (start + j) = backDistance cap j) {fuel}
    (hf : k < fuel) : walkBack map fuel (start + k) = some start := by
  induction fuel generalizing k with
  | zero => cases hf
  | succ fuel ih =>
    have hle := backDistance_le_self cap k
    rw [walkBack, h k (Nat.le_refl k)]
    by_cases hk : k = 0
    · subst hk
      simp
    · have hpos := backDistance_pos cap hk
      rw [if_pos hpos, if_pos (by omega), Nat.add_sub_assoc hle]
      exact ih (fun j hj => h j (by omega)) (by omega)

end Rolp.Lib
