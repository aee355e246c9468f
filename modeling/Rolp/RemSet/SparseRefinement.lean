import Rolp.Lib.Run
import Rolp.RemSet.Lemmas.SparseTable

/-!
# The sparse table as a finite set of cards

A history of calls of a `SparsePRT` goes along with the set of the cards that were successfully added and not deleted or
cleared since.
-/

namespace Rolp.RemSet

open Rolp.Lib SparsePRTEntry Option

inductive SparseOp where
  | addCard (r c : Nat)
  | deleteEntry (r : Nat)
  | cleanup
  | clear
  deriving DecidableEq

structure SparseHistory where
  table : SparsePRT
  held : Finset (Nat × Nat)

def SparseHistory.new (k : Nat) : SparseHistory := ⟨.new k, ∅⟩

def SparseHistory.step (k : Nat) (h : SparseHistory) : SparseOp → Option SparseHistory
  | .addCard r c => (h.table.addCard k r c).map fun (table, ok) => ⟨table, if ok then insert (r, c) h.held else h.held⟩
  | .deleteEntry r => some ⟨(h.table.deleteEntry r).1, h.held.filter fun p => p.1 ≠ r⟩
  | .cleanup => some ⟨h.table.cleanup, h.held⟩
  | .clear => some ⟨h.table.clear k, ∅⟩

namespace SparsePRT

variable {k : Nat} {s : SparsePRT} {r c : Nat}

def Wf (k : Nat) (s : SparsePRT) : Prop := ∃ live free, s.next.Wf k live [] free

def view (s : SparsePRT) : Nat → Option (List Nat) := s.next.view

lemma containsCard_iff : s.containsCard r c = true ↔ ∃ ds, s.view r = some ds ∧ c ∈ ds := RSHashTable.containsCard_iff

lemma view_eq_getEntry (s : SparsePRT) (r : Nat) : s.view r = (s.getEntry r).map validCards := by
  rw [getEntry, map_map]
  rfl

lemma wf_new (k) : Wf k (new k) := ⟨[], [], RSHashTable.wf_new k (by decide) (by decide)⟩

lemma view_new (k) : (new k).view = fun _ => none := RSHashTable.view_new k (by decide) (by decide)

lemma clear_eq (k : Nat) (s : SparsePRT) : s.clear k = new k := by
  unfold clear new
  split
  · rfl
  next hcap =>
    have hclear : s.cur.clear k = .new k s.cur.capacity := rfl
    rw [hclear, not_ne_iff.1 hcap]

lemma Wf.expand (h : Wf k s) (hfull : s.next.capacity < s.next.occupiedEntries * 2) :
    ∃ s' live free, s.expand k = some s' ∧ s'.next.Wf k live [] free ∧ live.length ≤ s'.next.capacity / 2 ∧
      s'.view = s.view := by
  obtain ⟨live, free, hwf⟩ := h
  obtain ⟨t', live', free', hexp, h', hroom, hview⟩ := hwf.expand hfull
  refine ⟨{ next := t', oldCur := some s.cur, expanded := true }, live', free', ?_, h', hroom, hview⟩
  rw [SparsePRT.expand, hexp]

lemma Wf.addCard (h : Wf k s) (r c) : ∃ s', s.addCard k r c =
        some (s', decide ((cardsAfter k ((s.view r).getD []) c).2 ≠ .overflow)) ∧
      Wf k s' ∧ s'.view = Function.update s.view r (some (cardsAfter k ((s.view r).getD []) c).1) := by
  rw [SparsePRT.addCard]
  by_cases hfull : s.next.capacity < s.next.occupiedEntries * 2
  · obtain ⟨s1, live, free, hexp, hwf, hroom, hview⟩ := h.expand hfull
    obtain ⟨t', live', free', hadd, hwf', hview'⟩ := hwf.addCard hroom r c
    have hsame : s1.next.view = s.view := hview
    rw [hsame] at hadd hview'
    refine ⟨{ s1 with next := t' }, ?_, ⟨live', free', hwf'⟩, hview'⟩
    simp only [if_pos hfull, hexp, hadd, bind_eq_bind, bind_some, pure_def]
  · obtain ⟨live, free, hwf⟩ := h
    have hroom : live.length ≤ s.next.capacity / 2 := by
      have := hwf.occupiedEntries
      omega
    obtain ⟨t', live', free', hadd, hwf', hview'⟩ := hwf.addCard hroom r c
    refine ⟨{ s with next := t' }, ?_, ⟨live', free', hwf'⟩, hview'⟩
    simp only [if_neg hfull, hadd, bind_eq_bind, bind_some]
    rfl

lemma Wf.deleteEntry (h : Wf k s) (r) :
    Wf k (s.deleteEntry r).1 ∧ (s.deleteEntry r).1.view = Function.update s.view r none := by
  obtain ⟨live, free, hwf⟩ := h
  obtain ⟨live', free', hwf', -, hview⟩ := hwf.deleteEntry r
  exact ⟨⟨live', free', hwf'⟩, hview⟩

structure Holds (k : Nat) (s : SparsePRT) (held : Finset (Nat × Nat)) : Prop where
  wf : Wf k s
  mem : ∀ r c, (r, c) ∈ held ↔ ∃ ds, s.view r = some ds ∧ c ∈ ds

variable {held : Finset (Nat × Nat)}

lemma card_eq_length {l : List (Nat × Nat)} (hn : l.Nodup) (hmem : ∀ p, p ∈ held ↔ p ∈ l) : held.card = l.length := by
  have heq : held = l.toFinset := by
    ext p
    rw [hmem, List.mem_toFinset]
  rw [heq, List.toFinset_card_of_nodup hn]

lemma Holds.occupied_eq (h : Holds k s held) : s.occupied = held.card := by
  obtain ⟨live, free, hwf⟩ := h.wf
  have hcard := card_eq_length hwf.nodup_cardPairs fun p => (h.mem p.1 p.2).trans hwf.mem_cardPairs.symm
  rw [hcard, RSHashTable.length_cardPairs]
  exact hwf.occupiedCards

lemma Wf.view_nodup (h : Wf k s) : ((s.view r).getD []).Nodup ∧ ((s.view r).getD []).length ≤ k := by
  obtain ⟨live, free, hwf⟩ := h
  cases hview : s.view r with
  | none => exact ⟨List.nodup_nil, Nat.zero_le k⟩
  | some ds =>
    obtain ⟨i, hi, -, rfl⟩ := hwf.view_eq_some.1 hview
    exact ⟨(hwf.cards i hi).nodup, (hwf.cards i hi).length_le⟩

lemma Holds.mem_iff (h : Holds k s held) : (r, c) ∈ held ↔ c ∈ (s.view r).getD [] := by
  rw [h.mem]
  cases s.view r <;> simp

lemma Holds.card_region (h : Holds k s held) (r) :
    (held.filter fun p => p.1 = r).card = ((s.view r).getD []).length := by
  have hn := (h.wf.view_nodup (r := r)).1.map (Prod.mk_right_injective r)
  rw [card_eq_length hn, List.length_map]
  rintro ⟨r', c⟩
  rw [Finset.mem_filter, List.mem_map]
  constructor
  · rintro ⟨hmem, rfl⟩
    exact ⟨c, h.mem_iff.1 hmem, rfl⟩
  · rintro ⟨c, hc, heq⟩
    cases heq
    exact ⟨h.mem_iff.2 hc, rfl⟩

lemma holds_new (k) : Holds k (new k) ∅ := by
  refine ⟨wf_new k, fun r c => ?_⟩
  rw [view_new]
  simp

lemma Holds.update (h : Holds k s held) {s' held' x}
    (hwf : Wf k s') (hview : s'.view = Function.update s.view r x) (hself : ∀ c, (r, c) ∈ held' ↔ c ∈ x.getD [])
    (hother : ∀ r' c, r' ≠ r → ((r', c) ∈ held' ↔ (r', c) ∈ held)) : Holds k s' held' := by
  refine ⟨hwf, fun r' c => ?_⟩
  rw [hview]
  by_cases hr : r' = r
  · subst hr
    rw [hself]
    cases x <;> simp
  · rw [hother r' c hr, h.mem, Function.update_of_ne hr]

lemma Holds.addCard (h : Holds k s held) (r c) : ∃ s' ok, s.addCard k r c = some (s', ok) ∧
      (ok = false ↔ (r, c) ∉ held ∧ (held.filter fun p => p.1 = r).card = k) ∧
      Holds k s' (if ok then insert (r, c) held else held) := by
  obtain ⟨s', hadd, hwf', hview⟩ := h.wf.addCard r c
  have hle := (h.wf.view_nodup (r := r)).2
  have hcard := h.card_region r
  have hmem := fun c => h.mem_iff (r := r) (c := c)
  generalize (s.view r).getD [] = ds at *
  by_cases hc : c ∈ ds
  · have hafter : cardsAfter k ds c = (ds, .found) := if_pos hc
    rw [hafter] at hadd hview
    refine ⟨s', true, hadd, by simp [hmem, hc], h.update hwf' hview ?_ ?_⟩
    · intro c'
      rw [if_pos rfl, Finset.insert_eq_of_mem ((hmem c).2 hc), hmem, getD_some]
    · intro r' c' hr
      simp [hr]
  by_cases hlt : ds.length < k
  · have hafter : cardsAfter k ds c = (ds ++ [c], .added) := by rw [cardsAfter, if_neg hc, if_pos hlt]
    rw [hafter] at hadd hview
    refine ⟨s', true, hadd, by simp [hcard, Nat.ne_of_lt hlt], h.update hwf' hview ?_ ?_⟩
    · intro c'
      simp [hmem, or_comm]
    · intro r' c' hr
      simp [hr]
  · have hafter : cardsAfter k ds c = (ds, .overflow) := by rw [cardsAfter, if_neg hc, if_neg hlt]
    rw [hafter] at hadd hview
    refine ⟨s', false, hadd, ?_, h.update hwf' hview ?_ ?_⟩
    · simp [hmem, hc, hcard, Nat.le_antisymm hle (Nat.not_lt.1 hlt)]
    · intro c'
      simp [hmem]
    · intro r' c' hr
      simp

lemma Holds.deleteEntry (h : Holds k s held) (r) : Holds k (s.deleteEntry r).1 (held.filter fun p => p.1 ≠ r) := by
  obtain ⟨hwf, hview⟩ := h.wf.deleteEntry r
  refine h.update hwf hview (fun c => ?_) (fun r' c hr => ?_)
  · simp
  · simp [hr]

lemma Holds.step {h : SparseHistory} (hh : Holds k h.table h.held) (op : SparseOp) :
    ∃ h', h.step k op = some h' ∧ Holds k h'.table h'.held := by
  cases op with
  | addCard r c =>
    obtain ⟨s', ok, hadd, -, h'⟩ := hh.addCard r c
    exact ⟨_, by rw [SparseHistory.step, hadd, map_some], h'⟩
  | deleteEntry r => exact ⟨_, rfl, hh.deleteEntry r⟩
  | cleanup => exact ⟨_, rfl, hh.wf, hh.mem⟩
  | clear =>
    refine ⟨_, rfl, ?_⟩
    rw [clear_eq]
    exact holds_new k

/-- After every history the table holds exactly the cards that were added and not deleted or cleared since. Every call
has an outcome, so a slot is always found for a new entry. -/
theorem history_holds (k : Nat) (ops : List SparseOp) : ∃ h, run (SparseHistory.step k) (.new k) ops = some h ∧
      (∀ r c, h.table.containsCard r c = true ↔ (r, c) ∈ h.held) ∧ h.table.occupied = h.held.card ∧
      (∀ r c, ∃ s ok, h.table.addCard k r c = some (s, ok) ∧
        (ok = false ↔ (r, c) ∉ h.held ∧ (h.held.filter fun p => p.1 = r).card = k)) ∧
      (h.table.next.capacity < h.table.next.occupiedEntries * 2 →
        ∃ s, h.table.expand k = some s ∧ ∀ r c, s.containsCard r c = true ↔ (r, c) ∈ h.held) := by
  have hdefined : ∃ h, run (SparseHistory.step k) (.new k) ops = some h ∧ Holds k h.table h.held :=
    run_defined (fun h : SparseHistory => Holds k h.table h.held) (fun _ => True) (fun _ op hh _ => hh.step op)
      (holds_new k) (fun _ _ => trivial)
  obtain ⟨h, hrun, hh⟩ := hdefined
  refine ⟨h, hrun, fun r c => ?_, hh.occupied_eq, fun r c => ?_, fun hfull => ?_⟩
  · rw [containsCard_iff, hh.mem]
  · obtain ⟨s, ok, hadd, hok, -⟩ := hh.addCard r c
    exact ⟨s, ok, hadd, hok⟩
  · obtain ⟨s, live, free, hexp, -, -, hview⟩ := hh.wf.expand hfull
    refine ⟨s, hexp, fun r c => ?_⟩
    rw [containsCard_iff, hview, hh.mem]

end SparsePRT

end Rolp.RemSet
