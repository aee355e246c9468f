import Rolp.Heap.RegionLists

/-!
# Region lists keep their shape

After permitted operations every list holds the expected regions, and a region on no list is neither linked nor pending.
-/

namespace Rolp.Heap.RegionLists

open Rolp.Lib Function List Option Expected

variable {ι : Type} {rn us : Nat → Nat} {s s' : Lists ι} {a a' : Expected ι} {op : Op ι}

structure Expected.Apart (a : Expected ι) : Prop where
  nodup : ∀ i, (a.seq i).Nodup
  apart : ∀ i j, i ≠ j → ∀ r ∈ a.seq i, r ∉ a.seq j

structure Represents (rn us : Nat → Nat) (s : Lists ι) (a : Expected ι) : Prop where
  shape : ∀ i, Shape s.regions (s.list i) (a.seq i)
  pending : s.regions.pendingRemoval = fun _ => false
  next : ∀ r, (∀ i, r ∉ a.seq i) → s.regions.next r = none
  regionNum : s.regions.regionNum = rn
  used : s.regions.used = us

lemma Represents.change (h : Represents rn us s a) {t} (hf : Frame t s.regions s'.regions)
    (hlists : ∀ k, Shape s'.regions (s'.list k) (a'.seq k) ∨
      (s'.list k = s.list k ∧ a'.seq k = a.seq k ∧ ∀ r ∈ a.seq k, r ∉ t))
    (hp : s'.regions.pendingRemoval = fun _ => false)
    (hn : ∀ r, (∀ k, r ∉ a'.seq k) → s'.regions.next r = none) : Represents rn us s' a' := by
  refine ⟨fun k => ?_, hp, hn, hf.regionNum.trans h.regionNum, hf.used.trans h.used⟩
  obtain hk | ⟨hlist, hseq, hdis⟩ := hlists k
  · exact hk
  · rw [hlist, hseq]
    exact (h.shape k).frame hf hdis

lemma represents_initial (rn us) : Represents rn us (Lists.initial rn us) (Expected.empty : Expected ι) :=
  ⟨fun _ => shape_clear _, rfl, fun _ _ => rfl, rfl, rfl⟩

variable [DecidableEq ι]

/-! ## The expected sequences -/

variable {i j : ι} {l : List Nat}

lemma Expected.Apart.update (h : a.Apart) (hl : l.Nodup)
    (hother : ∀ j, j ≠ i → ∀ r ∈ a.seq j, r ∉ l) : (a.setSeq i l).Apart := by
  refine ⟨fun j => ?_, fun j k hjk r hr => ?_⟩
  · by_cases hj : j = i
    · subst hj
      simpa [setSeq] using hl
    · simpa [setSeq, hj] using h.nodup j
  by_cases hj : j = i
  · subst hj
    have hk : k ≠ j := Ne.symm hjk
    simp only [setSeq, update_self, update_of_ne hk] at hr ⊢
    exact fun hr' => hother k hk r hr' hr
  · by_cases hk : k = i
    · subst hk
      simp only [setSeq, update_self, update_of_ne hj] at hr ⊢
      exact hother j hj r hr
    · simp only [setSeq, update_of_ne hj, update_of_ne hk] at hr ⊢
      exact h.apart j k hjk r hr

lemma Expected.Apart.update_sublist (h : a.Apart) (hl : l.Sublist (a.seq i)) : (a.setSeq i l).Apart :=
  h.update ((h.nodup i).sublist hl) fun j hj r hr hm => h.apart j i hj r hr (hl.subset hm)

lemma Expected.Apart.update_fresh (h : a.Apart) {hr} (hfresh : ∀ j, hr ∉ a.seq j)
    (hl : (hr :: a.seq i).Perm l) : (a.setSeq i l).Apart := by
  refine h.update (hl.nodup_iff.1 (nodup_cons.2 ⟨hfresh i, h.nodup i⟩)) fun j hj r hr' hm => ?_
  rcases mem_cons.1 (hl.mem_iff.2 hm) with rfl | hm
  · exact hfresh j hr'
  · exact h.apart j i hj r hr' hm

lemma Expected.Apart.update_join (h : a.Apart) (hij : i ≠ j)
    (hl : (a.seq i ++ a.seq j).Perm l) : ((a.setSeq i l).setSeq j []).Apart := by
  have hnil : (a.setSeq j []).Apart := h.update_sublist (nil_sublist _)
  have hnodup : (a.seq i ++ a.seq j).Nodup := nodup_append'.2 ⟨h.nodup i, h.nodup j, fun r hr => h.apart i j hij r hr⟩
  have hswap : (a.setSeq i l).setSeq j [] = (a.setSeq j []).setSeq i l := by simp only [setSeq, update_comm hij]
  rw [hswap]
  refine hnil.update (hl.nodup_iff.1 hnodup) fun k hk r hr hm => ?_
  by_cases hkj : k = j
  · subst hkj
    simp [setSeq] at hr
  · simp only [setSeq, update_of_ne hkj] at hr
    rcases mem_append.1 (hl.mem_iff.2 hm) with hm | hm
    · exact h.apart k i hk r hr hm
    · exact h.apart k j hkj r hr hm

lemma Expected.Apart.step (h : a.Apart) (hop : a.Permitted op) : (a.step op).Apart := by
  cases op with
  | addAsHead i hr => exact h.update_fresh hop (.refl _)
  | addAsTail i hr => exact h.update_fresh hop (perm_append_singleton _ _).symm
  | addListAsHead i j => exact h.update_join hop perm_append_comm
  | addListAsTail i j => exact h.update_join hop (.refl _)
  | removeHead i => exact h.update_sublist (tail_sublist _)
  | removeAll i => exact h.update_sublist (nil_sublist _)
  | removeAllPending i marked => exact h.update_sublist filter_sublist

/-! ## The operations on the lists -/

section

variable (h : Represents rn us s a)

include h

lemma Represents.put {t rs ll} (hf : Frame t s.regions rs) (hs : Shape rs ll l)
    (hp : rs.pendingRemoval = fun _ => false)
    (hother : ∀ j, j ≠ i → ∀ r ∈ a.seq j, r ∉ t) (hn : ∀ r, r ∈ t ∨ r ∈ a.seq i → r ∈ l ∨ rs.next r = none) :
    Represents rn us (s.put i (rs, ll)) (a.setSeq i l) := by
  refine h.change hf (fun k => ?_) hp fun r hr => ?_
  · by_cases hk : k = i
    · subst hk
      left
      simpa [Lists.put, setSeq] using hs
    · right
      simpa [Lists.put, setSeq, hk] using hother k hk
  · have hrl : r ∉ l := by simpa [setSeq] using hr i
    by_cases hr' : r ∈ t ∨ r ∈ a.seq i
    · exact (hn r hr').resolve_left hrl
    rw [not_or] at hr'
    refine (hf.next r hr'.1).trans (h.next r fun k => ?_)
    by_cases hk : k = i
    · exact hk ▸ hr'.2
    · simpa [setSeq, hk] using hr k

lemma Represents.join (ha : a.Apart) (hij : i ≠ j) {rs}
    {ll fromList} (hl : (a.seq i ++ a.seq j).Perm l) (hf : Frame l s.regions rs)
    (hs : Shape rs ll l) (hs' : Shape rs fromList []) (hp : rs.pendingRemoval = fun _ => false) :
    Represents rn us ((s.put i (rs, ll)).put j (rs, fromList)) ((a.setSeq i l).setSeq j []) := by
  refine h.change hf (fun k => ?_) hp fun r hr => ?_
  · by_cases hkj : k = j
    · subst hkj
      left
      simpa [Lists.put, setSeq] using hs'
    by_cases hki : k = i
    · subst hki
      left
      simpa [Lists.put, setSeq, hkj] using hs
    right
    refine ⟨by simp [Lists.put, hkj, hki], by simp [setSeq, hkj, hki], fun r hr hm => ?_⟩
    rcases mem_append.1 (hl.mem_iff.2 hm) with hm | hm
    · exact ha.apart k i hki r hr hm
    · exact ha.apart k j hkj r hr hm
  · have hrl : r ∉ l := by simpa [setSeq, hij] using hr i
    refine (hf.next r hrl).trans (h.next r fun k hm => ?_)
    by_cases hki : k = i
    · exact hrl (hl.mem_iff.1 (mem_append_left _ (hki ▸ hm)))
    · by_cases hkj : k = j
      · exact hrl (hl.mem_iff.1 (mem_append_right _ (hkj ▸ hm)))
      · exact hr k (by simpa [setSeq, hki, hkj] using hm)

lemma Represents.removeAllPending (ha : a.Apart) (debug) {marked} (hop : a.Permitted (.removeAllPending i marked)) :
    ∃ s', s.step debug (.removeAllPending i marked) = some s' ∧
      Represents rn us s' (a.step (.removeAllPending i marked)) := by
  obtain ⟨hk, hnodup, hsub⟩ := hop
  obtain ⟨hf, hmarked⟩ := s.regions.markPending_spec (l := []) marked
  have hpending (r) : (s.regions.markPending marked).pendingRemoval r = marked.contains r := by
    rw [hmarked, h.pending, Bool.false_or]
  have hcount : (a.seq i).countP (s.regions.markPending marked).pendingRemoval = marked.length := by
    rw [funext hpending, countP_eq_length_filter]
    refine ((perm_ext_iff_of_nodup ((ha.nodup i).filter _) hnodup).2 fun r => ?_).length_eq
    simpa using @hsub r
  obtain ⟨rs, ll, heq, hpost⟩ := removeAllPending_spec debug ((h.shape i).frame hf (by simp)) (ha.nodup i) hk hcount
  have hkept : (a.seq i).filter (fun r => !(s.regions.markPending marked).pendingRemoval r) =
      (a.seq i).filter (· ∉ marked) := by simp [hpending]
  refine ⟨_, by rw [Lists.step, heq, map_some], h.put ((hf.mono (by simp)).trans hpost.frame) (hkept ▸ hpost.shape)
    (funext fun r => ?_) (ha.apart · i) fun r hr => ?_⟩
  · rw [hpost.pending, hpending]
    by_cases hr : r ∈ marked
    · simp [hsub hr]
    · simp [hr]
  · have hr' : r ∈ a.seq i := by simpa using hr
    by_cases hm : r ∈ marked
    · exact .inr (hpost.next r hr' (by simp [hpending, hm]))
    · exact .inl (mem_filter.2 ⟨hr', by simpa using hm⟩)

lemma Represents.step (ha : a.Apart) (debug) (hop : a.Permitted op) :
    ∃ s', s.step debug op = some s' ∧ Represents rn us s' (a.step op) := by
  cases op with
  | addAsHead i hr =>
    obtain ⟨rs, ll, heq, hs, hf, hp⟩ := addAsHead_spec (h.shape i) (h.next hr hop) (hop i)
    refine ⟨_, by rw [Lists.step, heq, map_some], h.put hf hs (hp.trans h.pending) ?_ ?_⟩
    · rintro j - r hr' hm
      rw [mem_singleton.1 hm] at hr'
      exact hop j hr'
    · exact fun r hm => .inl (by simpa using hm)
  | addAsTail i hr =>
    obtain ⟨rs, ll, heq, hs, hf, hp⟩ := addAsTail_spec (h.shape i) (h.next hr hop) (hop i) (ha.nodup i)
    refine ⟨_, by rw [Lists.step, heq, map_some], h.put hf hs (hp.trans h.pending) ?_ ?_⟩
    · exact (ha.apart · i)
    · rintro r (hm | hm) <;> exact .inl (mem_append_left _ hm)
  | addListAsHead i j =>
    obtain ⟨rs, ll, from', heq, hs, hs', hf, hp⟩ := addListAsHead_spec (h.shape i) (h.shape j) (ha.nodup j)
      (ha.apart j i (Ne.symm hop))
    refine ⟨_, by rw [Lists.step, heq, map_some], h.join ha hop perm_append_comm ?_ hs hs' (hp.trans h.pending)⟩
    exact hf.mono fun r hr => mem_append_left _ hr
  | addListAsTail i j =>
    obtain ⟨rs, ll, from', heq, hs, hs', hf, hp⟩ := addListAsTail_spec (h.shape i) (h.shape j) (ha.nodup i)
      (ha.apart i j hop)
    refine ⟨_, by rw [Lists.step, heq, map_some], h.join ha hop (.refl _) ?_ hs hs' (hp.trans h.pending)⟩
    exact hf.mono fun r hr => mem_append_left _ hr
  | removeHead i =>
    obtain ⟨hd, tl, htl⟩ := ne_nil_iff_exists_cons.1 hop
    have hshape := h.shape i
    have hnodup := ha.nodup i
    rw [htl] at hshape hnodup
    obtain ⟨rs, ll, heq, hs, hf, hn, hp⟩ := removeHead_spec hshape hnodup
    rw [Expected.step, htl]
    refine ⟨_, by rw [Lists.step, heq, map_some], h.put hf hs (hp.trans h.pending) ?_ ?_⟩
    · intro j hj r hr hm
      rw [mem_singleton.1 hm] at hr
      exact ha.apart j i hj hd hr (by simp [htl])
    · intro r hr
      by_cases hrd : r = hd
      · exact .inr (hrd ▸ hn)
      · exact .inl (by simpa [htl, hrd] using hr)
  | removeAll i =>
    obtain ⟨rs, heq, hn, hf, hp⟩ := removeAll_spec (h.shape i) (ha.nodup i)
    refine ⟨_, by rw [Lists.step, heq, map_some], h.put hf (shape_clear rs) (hp.trans h.pending) ?_ ?_⟩
    · exact (ha.apart · i)
    · rintro r (hm | hm) <;> exact .inr (hn r hm)
  | removeAllPending i marked => exact h.removeAllPending ha debug hop

lemma Represents.run (ha : a.Apart) (debug) {ops} (hops : a.Legal ops) :
    ∃ s', run (Lists.step debug) s ops = some s' ∧ Represents rn us s' (ops.foldl Expected.step a) := by
  induction ops generalizing s a with
  | nil => exact ⟨s, rfl, h⟩
  | cons op ops ih =>
    obtain ⟨hop, hops⟩ := hops
    obtain ⟨s1, hs1, h1⟩ := h.step ha debug hop
    obtain ⟨s', hs', h'⟩ := ih h1 (ha.step hop) hops
    exact ⟨s', by rw [run_cons, hs1, bind_some, hs'], h'⟩

end

/-- The lists are the expected sequences, their ends and counters agree with them, and regions on no list are neither
linked nor pending. -/
theorem region_lists_keep_shape (debug : Bool) (regionNum used : Nat → Nat) (ops : List (Op ι))
    (hops : Expected.empty.Legal ops) : ∃ s, run (Lists.step debug) (Lists.initial regionNum used) ops = some s ∧
      (∀ i, let l := (ops.foldl Expected.step .empty).seq i
        Linked s.regions.next (s.list i).head l ∧ (s.list i).head = l.head? ∧ (s.list i).tail = l.getLast? ∧
          (s.list i).length = l.length ∧ (s.list i).regionNum = (l.map regionNum).sum ∧
          (s.list i).totalUsedBytes = (l.map used).sum) ∧
      ∀ r, (∀ i, r ∉ (ops.foldl Expected.step .empty).seq i) →
        s.regions.next r = none ∧ s.regions.pendingRemoval r = false := by
  have hapart : (Expected.empty : Expected ι).Apart := ⟨fun _ => nodup_nil, fun _ _ _ r hr => by cases hr⟩
  obtain ⟨s, hs, h⟩ := (represents_initial regionNum used).run hapart debug hops
  refine ⟨s, hs, fun i => ?_, fun r hr => ⟨h.next r hr, congrFun h.pending r⟩⟩
  obtain ⟨hlinked, htail, hlen, hnum, hused⟩ := h.shape i
  rw [h.regionNum] at hnum
  rw [h.used] at hused
  exact ⟨hlinked, hlinked.head_eq, htail, hlen, hnum, hused⟩

theorem region_lists_keep_shape_two_lists :
    let ops : List (Op Bool) := [.addAsTail true 1, .addAsTail true 2, .addAsHead false 3, .addAsTail false 4,
      .addListAsHead true false, .removeAllPending true [3, 2], .removeHead true]
    Expected.empty.Legal ops ∧ ∃ s, run (Lists.step true) (Lists.initial (fun _ => 1) fun _ => 0) ops = some s ∧
      (s.list true).head = some 1 ∧ (s.list true).tail = some 1 ∧ (s.list true).length = 1 ∧
      s.regions.next 3 = none ∧ s.regions.pendingRemoval 3 = false := by
  intro ops
  have hops : Expected.empty.Legal ops := by
    simp [ops, Expected.Legal, Expected.Permitted, Expected.step, setSeq, Expected.empty]
  obtain ⟨s, hs, hlists, hoff⟩ := region_lists_keep_shape true (fun _ => 1) (fun _ => 0) ops hops
  obtain ⟨-, hhead, htail, hlen, -⟩ := hlists true
  have hthree : ∀ i, 3 ∉ (ops.foldl Expected.step .empty).seq i := by decide
  obtain ⟨hnext, hpend⟩ := hoff 3 hthree
  exact ⟨hops, s, hs, hhead, htail, hlen, hnext, hpend⟩

end Rolp.Heap.RegionLists
