import Rolp.Lib.LinkedSlots
import Rolp.Lib.Run

/-!
# Linked lists of regions

`HeapRegionLinkedList` links regions through a field of their own and records both ends, the length, the number of
regions and their used bytes. Regions are known by an index, and the lists that share them by the values of a type.

An assertion that does not hold makes an operation undefined. A loop has one step of fuel for each region that the
length promises and one for the end.
-/

namespace Rolp.Heap.RegionLists

open Rolp.Lib Function

structure Regions where
  next : Nat → Option Nat
  pendingRemoval : Nat → Bool
  /-- A humongous region counts for all the regions it covers. -/
  regionNum : Nat → Nat
  used : Nat → Nat

namespace Regions

variable (rs : Regions)

variable (hr : Nat)

def setNext (next : Option Nat) : Regions :=
  { rs with next := update rs.next hr next }

def setPendingRemoval (pending : Bool) : Regions :=
  { rs with pendingRemoval := update rs.pendingRemoval hr pending }

@[simp] lemma setNext_next (x) : (rs.setNext hr x).next = update rs.next hr x := rfl

@[simp] lemma setNext_pendingRemoval (x) : (rs.setNext hr x).pendingRemoval = rs.pendingRemoval := rfl

@[simp] lemma setPendingRemoval_pendingRemoval (x) :
    (rs.setPendingRemoval hr x).pendingRemoval = update rs.pendingRemoval hr x := rfl

/-- The loop of the caller of `remove_all_pending`, which marks the regions that it wants removed. -/
def markPending (marked : List Nat) : Regions := marked.foldl (·.setPendingRemoval · true) rs

end Regions

structure HeapRegionSetBase where
  length : Nat
  regionNum : Nat
  totalUsedBytes : Nat
  deriving DecidableEq

namespace HeapRegionSetBase

variable (b : HeapRegionSetBase) (rs : Regions)

variable (hr : Nat)

def updateForAddition : HeapRegionSetBase where
  length := b.length + 1
  regionNum := b.regionNum + rs.regionNum hr
  totalUsedBytes := b.totalUsedBytes + rs.used hr

def addInternal : Option HeapRegionSetBase :=
  if rs.next hr = none then some (b.updateForAddition rs hr) else none

def updateForRemoval : Option HeapRegionSetBase :=
  if 0 < b.length ∧ rs.regionNum hr ≤ b.regionNum ∧ rs.used hr ≤ b.totalUsedBytes then
    some ⟨b.length - 1, b.regionNum - rs.regionNum hr, b.totalUsedBytes - rs.used hr⟩
  else none

def removeInternal : Option HeapRegionSetBase :=
  if rs.next hr = none then b.updateForRemoval rs hr else none

def add (b b' : HeapRegionSetBase) : HeapRegionSetBase where
  length := b.length + b'.length
  regionNum := b.regionNum + b'.regionNum
  totalUsedBytes := b.totalUsedBytes + b'.totalUsedBytes

end HeapRegionSetBase

structure HeapRegionLinkedList extends HeapRegionSetBase where
  head : Option Nat
  tail : Option Nat
  deriving DecidableEq

namespace HeapRegionLinkedList

def clear : HeapRegionLinkedList := ⟨⟨0, 0, 0⟩, none, none⟩

def isEmpty (l : HeapRegionLinkedList) : Bool := l.length == 0

/-! ## Adding a region -/

variable (rs : Regions) (l : HeapRegionLinkedList)

def addAsHead (hr : Nat) : Option (Regions × HeapRegionLinkedList) :=
  (l.addInternal rs hr).map fun b =>
    match l.head with
    | some _ => (rs.setNext hr l.head, ⟨b, some hr, l.tail⟩)
    | none => (rs, ⟨b, some hr, some hr⟩)

def addAsTail (hr : Nat) : Option (Regions × HeapRegionLinkedList) :=
  (l.addInternal rs hr).map fun b =>
    match l.tail with
    | some t => (rs.setNext t (some hr), ⟨b, l.head, some hr⟩)
    | none => (rs, ⟨b, some hr, some hr⟩)

/-! ## Adding a list

The result is the list and the emptied `fromList`. Its tail is read when it is not empty.
-/

def addListAsHead (l fromList : HeapRegionLinkedList) :
    Option (Regions × HeapRegionLinkedList × HeapRegionLinkedList) :=
  if fromList.isEmpty then some (rs, l, fromList)
  else
    let b := l.add fromList.toHeapRegionSetBase
    match l.head with
    | some _ => fromList.tail.map fun t => (rs.setNext t l.head, ⟨b, fromList.head, l.tail⟩, clear)
    | none => some (rs, ⟨b, fromList.head, fromList.tail⟩, clear)

def addListAsTail (l fromList : HeapRegionLinkedList) :
    Option (Regions × HeapRegionLinkedList × HeapRegionLinkedList) :=
  if fromList.isEmpty then some (rs, l, fromList)
  else
    let b := l.add fromList.toHeapRegionSetBase
    match l.tail with
    | some t => some (rs.setNext t fromList.head, ⟨b, l.head, fromList.tail⟩, clear)
    | none => some (rs, ⟨b, fromList.head, fromList.tail⟩, clear)

/-! ## Removing regions -/

def removeHead : Option (Nat × Regions × HeapRegionLinkedList) :=
  l.head.bind fun hr =>
    let head := rs.next hr
    let tail := if head = none then none else l.tail
    let rs := rs.setNext hr none
    (l.removeInternal rs hr).map fun b => (hr, rs, ⟨b, head, tail⟩)

def removeAllLoop : Nat → Regions → Option Nat → Option Regions
  | 0, _, _ => none
  | _ + 1, rs, none => some rs
  | fuel + 1, rs, some curr => removeAllLoop fuel (rs.setNext curr none) (rs.next curr)

def removeAll (rs : Regions) (l : HeapRegionLinkedList) : Option (Regions × HeapRegionLinkedList) :=
  (removeAllLoop (l.length + 1) rs l.head).map fun rs => (rs, clear)

def removePending (rs : Regions) (l : HeapRegionLinkedList) (prev : Option Nat) (curr : Nat) :
    Option (Regions × HeapRegionLinkedList) :=
  let next := rs.next curr
  let head := prev.elim next fun _ => l.head
  let rs1 := prev.elim rs fun p => rs.setNext p next
  let tail := if next = none then prev else l.tail
  let rs2 := rs1.setNext curr none
  (l.removeInternal rs2 curr).map fun b => (rs2.setPendingRemoval curr false, ⟨b, head, tail⟩)

def removeAllPendingLoop (debug : Bool) (targetCount : Nat) :
    Nat → Regions → HeapRegionLinkedList → Option Nat → Option Nat → Nat → Option (Regions × HeapRegionLinkedList × Nat)
  | 0, _, _, _, _, _ => none
  | _ + 1, rs, l, _, none, count => some (rs, l, count)
  | fuel + 1, rs, l, prev, some curr, count =>
    let next := rs.next curr
    if rs.pendingRemoval curr then
      if count < targetCount then
        (removePending rs l prev curr).bind fun (rs, l) =>
          if debug ∧ count + 1 = targetCount then some (rs, l, count + 1)
          else removeAllPendingLoop debug targetCount fuel rs l prev next (count + 1)
      else none
    else removeAllPendingLoop debug targetCount fuel rs l (some curr) next count

def removeAllPending (debug : Bool) (rs : Regions) (l : HeapRegionLinkedList) (targetCount : Nat) :
    Option (Regions × HeapRegionLinkedList) :=
  if 1 < targetCount ∧ l.isEmpty = false then
    (removeAllPendingLoop debug targetCount (l.length + 1) rs l none l.head 0).bind fun (rs, l', count) =>
      if count = targetCount ∧ l'.length + targetCount = l.length then some (rs, l') else none
  else none

end HeapRegionLinkedList

/-! ## Several lists -/

variable {ι : Type} [DecidableEq ι]

structure Lists (ι : Type) where
  regions : Regions
  list : ι → HeapRegionLinkedList

inductive Op (ι : Type) where
  | addAsHead (i : ι) (hr : Nat)
  | addAsTail (i : ι) (hr : Nat)
  | addListAsHead (i fromList : ι)
  | addListAsTail (i fromList : ι)
  | removeHead (i : ι)
  | removeAll (i : ι)
  | removeAllPending (i : ι) (marked : List Nat)
  deriving DecidableEq

namespace Lists

def put (s : Lists ι) (i : ι) (r : Regions × HeapRegionLinkedList) : Lists ι :=
  ⟨r.1, update s.list i r.2⟩

open HeapRegionLinkedList in
def step (debug : Bool) (s : Lists ι) : Op ι → Option (Lists ι)
  | .addAsHead i hr => (addAsHead s.regions (s.list i) hr).map (s.put i)
  | .addAsTail i hr => (addAsTail s.regions (s.list i) hr).map (s.put i)
  | .addListAsHead i j =>
    (addListAsHead s.regions (s.list i) (s.list j)).map fun (rs, l, from') => (s.put i (rs, l)).put j (rs, from')
  | .addListAsTail i j =>
    (addListAsTail s.regions (s.list i) (s.list j)).map fun (rs, l, from') => (s.put i (rs, l)).put j (rs, from')
  | .removeHead i => (removeHead s.regions (s.list i)).map fun (_, r) => s.put i r
  | .removeAll i => (removeAll s.regions (s.list i)).map (s.put i)
  | .removeAllPending i marked =>
    (removeAllPending debug (s.regions.markPending marked) (s.list i) marked.length).map (s.put i)

def initial (regionNum used : Nat → Nat) : Lists ι :=
  ⟨⟨fun _ => none, fun _ => false, regionNum, used⟩, fun _ => .clear⟩

end Lists

/-! ## The sequences that are expected -/

structure Expected (ι : Type) where
  seq : ι → List Nat

namespace Expected

def empty : Expected ι := ⟨fun _ => []⟩

variable (a : Expected ι)

def setSeq (i : ι) (l : List Nat) : Expected ι := ⟨update a.seq i l⟩

def step : Op ι → Expected ι
  | .addAsHead i hr => a.setSeq i (hr :: a.seq i)
  | .addAsTail i hr => a.setSeq i (a.seq i ++ [hr])
  | .addListAsHead i j => (a.setSeq i (a.seq j ++ a.seq i)).setSeq j []
  | .addListAsTail i j => (a.setSeq i (a.seq i ++ a.seq j)).setSeq j []
  | .removeHead i => a.setSeq i (a.seq i).tail
  | .removeAll i => a.setSeq i []
  | .removeAllPending i marked => a.setSeq i ((a.seq i).filter (· ∉ marked))

/-- When an operation may be called. -/
def Permitted : Op ι → Prop
  | .addAsHead _ hr | .addAsTail _ hr => ∀ j, hr ∉ a.seq j
  | .addListAsHead i j | .addListAsTail i j => i ≠ j
  | .removeHead i => a.seq i ≠ []
  | .removeAll _ => True
  | .removeAllPending i marked => 2 ≤ marked.length ∧ marked.Nodup ∧ marked ⊆ a.seq i

def Legal : Expected ι → List (Op ι) → Prop
  | _, [] => True
  | a, op :: ops => a.Permitted op ∧ Legal (a.step op) ops

end Expected

end Rolp.Heap.RegionLists

/-! ## Specifications of the region list operations -/

namespace Rolp.Heap.RegionLists

open Rolp.Lib HeapRegionLinkedList Function Option Nat

structure Counted (rs : Regions) (b : HeapRegionSetBase) (l : List Nat) : Prop where
  length : b.length = l.length
  regionNum : b.regionNum = (l.map rs.regionNum).sum
  totalUsedBytes : b.totalUsedBytes = (l.map rs.used).sum

/-- The list `ll` has the regions `l`, in this order. -/
structure Shape (rs : Regions) (ll : HeapRegionLinkedList) (l : List Nat) : Prop where
  linked : Linked rs.next ll.head l
  tail : ll.tail = l.getLast?
  counted : Counted rs ll.toHeapRegionSetBase l

/-- Nothing but the links of the regions `l` is changed. -/
structure Frame (l : List Nat) (rs rs' : Regions) : Prop where
  next : ∀ r ∉ l, rs'.next r = rs.next r
  regionNum : rs'.regionNum = rs.regionNum
  used : rs'.used = rs.used

variable {rs rs' rs'' : Regions} {b b' : HeapRegionSetBase} {ll fromList : HeapRegionLinkedList}
  {l l' kept rest : List Nat}
  {hr : Nat} {a : Option Nat}

/-! ## Frames -/

lemma Frame.refl (l rs) : Frame l rs rs := ⟨fun _ _ => rfl, rfl, rfl⟩

lemma Frame.mono (h : Frame l rs rs') (hl : ∀ r ∈ l, r ∈ l') : Frame l' rs rs' :=
  ⟨fun r hr => h.next r fun hm => hr (hl r hm), h.regionNum, h.used⟩

lemma Frame.trans (h : Frame l rs rs') (h' : Frame l rs' rs'') : Frame l rs rs'' :=
  ⟨fun r hr => (h'.next r hr).trans (h.next r hr), h'.regionNum.trans h.regionNum, h'.used.trans h.used⟩

lemma Frame.setNext (h : hr ∈ l) (x) : Frame l rs (rs.setNext hr x) := by
  refine ⟨fun r hn => update_of_ne ?_ _ _, rfl, rfl⟩
  rintro rfl
  exact hn h

lemma Frame.setPendingRemoval (x) : Frame l rs (rs.setPendingRemoval hr x) := ⟨fun _ _ => rfl, rfl, rfl⟩

lemma Counted.frame (h : Counted rs b l) (hf : Frame l' rs rs') : Counted rs' b l :=
  ⟨h.length, by rw [hf.regionNum]; exact h.regionNum, by rw [hf.used]; exact h.totalUsedBytes⟩

lemma Shape.frame (h : Shape rs ll l) (hf : Frame l' rs rs') (hd : ∀ r ∈ l, r ∉ l') : Shape rs' ll l :=
  ⟨h.linked.congr fun r hr => hf.next r (hd r hr), h.tail, h.counted.frame hf⟩

/-! ## Counters -/

lemma Counted.updateForAddition (h : Counted rs b l) (hp : (hr :: l).Perm l') :
    Counted rs (b.updateForAddition rs hr) l' := by
  refine ⟨?_, ?_, ?_⟩
  · rw [← hp.length_eq]
    exact congrArg (· + 1) h.length
  · rw [← (hp.map rs.regionNum).sum_eq, List.map_cons, List.sum_cons, ← h.regionNum, add_comm]
    rfl
  · rw [← (hp.map rs.used).sum_eq, List.map_cons, List.sum_cons, ← h.totalUsedBytes, add_comm]
    rfl

lemma Counted.updateForRemoval (h : Counted rs b l') (hp : l'.Perm (hr :: l)) :
    ∃ b', b.updateForRemoval rs hr = some b' ∧ Counted rs b' l := by
  have hlen := h.length.trans hp.length_eq
  have hnum := h.regionNum.trans (hp.map rs.regionNum).sum_eq
  have hused := h.totalUsedBytes.trans (hp.map rs.used).sum_eq
  simp only [List.length_cons, List.map_cons, List.sum_cons] at hlen hnum hused
  refine ⟨_, if_pos (by omega), ?_, ?_, ?_⟩ <;> dsimp only <;> omega

lemma Counted.add (h : Counted rs b l) (h' : Counted rs b' l') : Counted rs (b.add b') (l ++ l') := by
  refine ⟨?_, ?_, ?_⟩
  · rw [List.length_append, ← h.length, ← h'.length]
    rfl
  · rw [List.map_append, List.sum_append, ← h.regionNum, ← h'.regionNum]
    rfl
  · rw [List.map_append, List.sum_append, ← h.totalUsedBytes, ← h'.totalUsedBytes]
    rfl

lemma Counted.perm (h : Counted rs b l) (hp : l.Perm l') : Counted rs b l' :=
  ⟨h.length.trans hp.length_eq, h.regionNum.trans (hp.map _).sum_eq, h.totalUsedBytes.trans (hp.map _).sum_eq⟩

lemma Shape.isEmpty_iff (h : Shape rs ll l) : ll.isEmpty = true ↔ l = [] := by
  rw [isEmpty, beq_iff_eq, h.counted.length, List.length_eq_zero_iff]

lemma shape_clear (rs) : Shape rs .clear [] := ⟨rfl, rfl, rfl, rfl, rfl⟩

/-! ## Adding -/

lemma addAsHead_spec (h : Shape rs ll l) (hn : rs.next hr = none) (hl : hr ∉ l) :
    ∃ rs' ll', ll.addAsHead rs hr = some (rs', ll') ∧ Shape rs' ll' (hr :: l) ∧ Frame [hr] rs rs' ∧
      rs'.pendingRemoval = rs.pendingRemoval := by
  have hc := h.counted.updateForAddition (List.Perm.refl (hr :: l))
  have ha : ll.addInternal rs hr = some (ll.updateForAddition rs hr) := if_pos hn
  have hhead := h.linked.head_eq
  rw [addAsHead, ha]
  cases l with
  | nil =>
    rw [show ll.head = none from hhead]
    exact ⟨_, _, rfl, ⟨⟨rfl, hn⟩, rfl, hc⟩, .refl _ _, rfl⟩
  | cons k l =>
    rw [show ll.head = some k from hhead]
    have hf : Frame [hr] rs (rs.setNext hr (some k)) := .setNext (by simp) _
    refine ⟨_, _, rfl, ⟨⟨rfl, ?_⟩, ?_, hc.frame hf⟩, hf, rfl⟩
    · rw [Regions.setNext_next, update_self, ← show ll.head = some k from hhead]
      exact h.linked.update hl _
    · exact h.tail

lemma addAsTail_spec (h : Shape rs ll l) (hn : rs.next hr = none) (hl : hr ∉ l) (hd : l.Nodup) :
    ∃ rs' ll', ll.addAsTail rs hr = some (rs', ll') ∧ Shape rs' ll' (l ++ [hr]) ∧ Frame l rs rs' ∧
      rs'.pendingRemoval = rs.pendingRemoval := by
  have hc := h.counted.updateForAddition (List.perm_append_singleton hr l).symm
  have ha : ll.addInternal rs hr = some (ll.updateForAddition rs hr) := if_pos hn
  have htail := h.tail
  rw [addAsTail, ha]
  obtain rfl | ⟨l, k, rfl⟩ := l.eq_nil_or_concat'
  · rw [show ll.tail = none from htail]
    exact ⟨_, _, rfl, ⟨⟨rfl, hn⟩, rfl, hc⟩, .refl _ _, rfl⟩
  rw [List.getLast?_concat] at htail
  rw [htail]
  have hf : Frame (l ++ [k]) rs (rs.setNext k (some hr)) := .setNext (by simp) _
  have hk : k ∉ [hr] := by
    intro hk
    exact hl (by simp [List.mem_singleton.1 hk])
  refine ⟨_, _, rfl, ⟨?_, by simp, hc.frame hf⟩, hf, rfl⟩
  rw [List.append_assoc]
  exact h.linked.relink hd ⟨rfl, hn⟩ hk

lemma Shape.join {la lb k} (ha : Shape rs la (l ++ [k])) (hb : Shape rs lb l')
    (hl' : l' ≠ []) (hd : (l ++ [k]).Nodup) (hk : k ∉ l') (hc : Counted rs b (l ++ [k] ++ l')) :
    Shape (rs.setNext k lb.head) ⟨b, la.head, lb.tail⟩ (l ++ [k] ++ l') := by
  have hf : Frame [k] rs (rs.setNext k lb.head) := .setNext (by simp) _
  refine ⟨?_, ?_, hc.frame hf⟩
  · rw [List.append_assoc]
    exact ha.linked.relink hd hb.linked hk
  · rw [List.getLast?_append_of_ne_nil _ hl']
    exact hb.tail

lemma addListAsHead_spec (h : Shape rs ll l) (h' : Shape rs fromList l') (hd : l'.Nodup) (hdis : ∀ r ∈ l', r ∉ l) :
    ∃ rs' ll' from', ll.addListAsHead rs fromList = some (rs', ll', from') ∧ Shape rs' ll' (l' ++ l) ∧
      Shape rs' from' [] ∧ Frame l' rs rs' ∧ rs'.pendingRemoval = rs.pendingRemoval := by
  have hc := (h.counted.add h'.counted).perm List.perm_append_comm
  have hhead := h.linked.head_eq
  have htail := h'.tail
  obtain rfl | ⟨l', k, rfl⟩ := l'.eq_nil_or_concat'
  · rw [addListAsHead, if_pos (h'.isEmpty_iff.2 rfl)]
    exact ⟨_, _, _, rfl, h, h', .refl _ _, rfl⟩
  rw [addListAsHead, if_neg (by simp [h'.isEmpty_iff])]
  rw [List.getLast?_concat] at htail
  cases l with
  | nil =>
    rw [show ll.head = none from hhead]
    refine ⟨_, _, _, rfl, ⟨?_, ?_, hc⟩, shape_clear rs, .refl _ _, rfl⟩
    · simpa using h'.linked
    · simpa using h'.tail
  | cons i l =>
    have hi : ll.head = some i := hhead
    rw [hi, htail]
    refine ⟨_, _, _, rfl, ?_, shape_clear _, .setNext (by simp) _, rfl⟩
    rw [← hi]
    exact h'.join h (by simp) hd (hdis k (by simp)) hc

lemma addListAsTail_spec (h : Shape rs ll l) (h' : Shape rs fromList l') (hd : l.Nodup) (hdis : ∀ r ∈ l, r ∉ l') :
    ∃ rs' ll' from', ll.addListAsTail rs fromList = some (rs', ll', from') ∧ Shape rs' ll' (l ++ l') ∧
      Shape rs' from' [] ∧ Frame l rs rs' ∧ rs'.pendingRemoval = rs.pendingRemoval := by
  have hc := h.counted.add h'.counted
  have htail := h.tail
  by_cases hl' : l' = []
  · rw [addListAsTail, if_pos (h'.isEmpty_iff.2 hl'), hl', List.append_nil]
    exact ⟨_, _, _, rfl, h, hl' ▸ h', .refl _ _, rfl⟩
  · rw [addListAsTail, if_neg (mt h'.isEmpty_iff.1 hl')]
    obtain rfl | ⟨l, k, rfl⟩ := l.eq_nil_or_concat'
    · rw [show ll.tail = none from htail]
      exact ⟨_, _, _, rfl, ⟨h'.linked, h'.tail, hc⟩, shape_clear rs, .refl _ _, rfl⟩
    · rw [List.getLast?_concat] at htail
      rw [htail]
      exact ⟨_, _, _, rfl, h.join h' hl' hd (hdis k (by simp)) hc, shape_clear _, .setNext (by simp) _, rfl⟩

/-! ## Removing -/

lemma removeHead_spec (h : Shape rs ll (hr :: l)) (hd : (hr :: l).Nodup) :
    ∃ rs' ll', ll.removeHead rs = some (hr, rs', ll') ∧ Shape rs' ll' l ∧ Frame [hr] rs rs' ∧ rs'.next hr = none ∧
      rs'.pendingRemoval = rs.pendingRemoval := by
  obtain ⟨hhead, hl⟩ := h.linked
  have hf : Frame [hr] rs (rs.setNext hr none) := .setNext (by simp) _
  have hself : (rs.setNext hr none).next hr = none := by simp
  obtain ⟨b, hb, hc⟩ := (h.counted.frame hf).updateForRemoval (List.Perm.refl _)
  have hr' : ll.removeInternal (rs.setNext hr none) hr = some b := (if_pos hself).trans hb
  rw [removeHead, hhead, bind_some]
  dsimp only
  rw [hr']
  refine ⟨_, _, rfl, ⟨?_, ?_, hc⟩, hf, hself, rfl⟩
  · exact hl.update (List.nodup_cons.1 hd).1 none
  · rw [hl.head_eq, h.tail]
    cases l with
    | nil => rfl
    | cons k l => rfl

lemma removeAllLoop_spec (h : Linked rs.next a l) {fuel} (hf : l.length < fuel) (hd : l.Nodup) :
    ∃ rs', removeAllLoop fuel rs a = some rs' ∧ (∀ r ∈ l, rs'.next r = none) ∧ Frame l rs rs' ∧
      rs'.pendingRemoval = rs.pendingRemoval := by
  induction l generalizing rs a fuel with
  | nil =>
    cases fuel with
    | zero => cases hf
    | succ fuel =>
      rw [linked_nil.1 h]
      exact ⟨rs, rfl, by simp, .refl _ _, rfl⟩
  | cons i l ih =>
    cases fuel with
    | zero => cases hf
    | succ fuel =>
      obtain ⟨rfl, hl⟩ := h
      obtain ⟨hi, hd'⟩ := List.nodup_cons.1 hd
      have hl' : Linked (rs.setNext i none).next (rs.next i) l := hl.update hi none
      obtain ⟨rs', heq, hnone, hframe, hpend⟩ := ih hl' (lt_of_succ_lt_succ hf) hd'
      have hfi : Frame (i :: l) rs (rs.setNext i none) := .setNext (by simp) _
      refine ⟨rs', heq, ?_, hfi.trans (hframe.mono (by simp +contextual)), hpend⟩
      intro r hr
      rcases List.mem_cons.1 hr with rfl | hr
      · rw [hframe.next r hi, Regions.setNext_next, update_self]
      · exact hnone r hr

lemma removeAll_spec (h : Shape rs ll l) (hd : l.Nodup) :
    ∃ rs', ll.removeAll rs = some (rs', .clear) ∧ (∀ r ∈ l, rs'.next r = none) ∧ Frame l rs rs' ∧
      rs'.pendingRemoval = rs.pendingRemoval := by
  have hfuel : l.length < ll.length + 1 := by
    rw [h.counted.length]
    exact lt_succ_self _
  obtain ⟨rs', heq, hnone, hframe, hpend⟩ := removeAllLoop_spec h.linked hfuel hd
  refine ⟨rs', ?_, hnone, hframe, hpend⟩
  rw [removeAll, heq, map_some]

/-! ## Removing the pending regions -/

lemma Regions.markPending_spec (rs : Regions) (marked) :
    Frame l rs (rs.markPending marked) ∧
      ∀ r, (rs.markPending marked).pendingRemoval r = (rs.pendingRemoval r || marked.contains r) := by
  induction marked generalizing rs with
  | nil => exact ⟨.refl l rs, fun r => (Bool.or_false _).symm⟩
  | cons hr marked ih =>
    obtain ⟨hf, hp⟩ := ih (rs.setPendingRemoval hr true)
    refine ⟨(Frame.setPendingRemoval true).trans hf, fun r => (hp r).trans ?_⟩
    by_cases hrr : r = hr <;> simp [hrr]

section

variable (h : Shape rs ll (kept ++ hr :: rest))

include h

lemma Shape.linked_unlink (hd : (kept ++ hr :: rest).Nodup) :
    Linked (kept.getLast?.elim rs fun p => rs.setNext p (rs.next hr)).next
      (kept.getLast?.elim (rs.next hr) fun _ => ll.head) (kept ++ rest) := by
  obtain rfl | ⟨kept, p, rfl⟩ := kept.eq_nil_or_concat'
  · exact h.linked.2
  · rw [List.getLast?_concat]
    simp only [List.append_assoc] at h hd ⊢
    exact h.linked.unlink hd

lemma Shape.tail_unlink : (if rs.next hr = none then kept.getLast? else ll.tail) = (kept ++ rest).getLast? := by
  rw [h.linked.next_eq, h.tail]
  cases rest with
  | nil => simp
  | cons k rest => simp [List.getLast?_cons]

lemma removePending_spec (hd : (kept ++ hr :: rest).Nodup) :
    ∃ rs' ll', ll.removePending rs kept.getLast? hr = some (rs', ll') ∧ Shape rs' ll' (kept ++ rest) ∧
      Frame (kept ++ hr :: rest) rs rs' ∧ rs'.next hr = none ∧
      rs'.pendingRemoval = update rs.pendingRemoval hr false := by
  have hlinked := h.linked_unlink hd
  have htail := h.tail_unlink
  have hnot : hr ∉ kept ++ rest := (List.nodup_cons.1 (List.nodup_middle.1 hd)).1
  rw [removePending]
  obtain ⟨hf1, hp1⟩ : Frame (kept ++ hr :: rest) rs (kept.getLast?.elim rs fun p => rs.setNext p (rs.next hr)) ∧
      (kept.getLast?.elim rs fun p => rs.setNext p (rs.next hr)).pendingRemoval = rs.pendingRemoval := by
    cases hp : kept.getLast? with
    | none => exact ⟨.refl _ _, rfl⟩
    | some p => exact ⟨.setNext (List.mem_append_left _ (List.mem_of_getLast? hp)) _, rfl⟩
  set rs1 := kept.getLast?.elim rs fun p => rs.setNext p (rs.next hr)
  have hf2 : Frame (kept ++ hr :: rest) rs1 (rs1.setNext hr none) := .setNext (by simp) _
  have hself : (rs1.setNext hr none).next hr = none := by simp
  obtain ⟨b, hb, hc⟩ := ((h.counted.frame hf1).frame hf2).updateForRemoval List.perm_middle
  have hr' : ll.removeInternal (rs1.setNext hr none) hr = some b := (if_pos hself).trans hb
  rw [hr']
  refine ⟨_, _, rfl, ⟨?_, htail, ⟨hc.length, hc.regionNum, hc.totalUsedBytes⟩⟩,
    (hf1.trans hf2).trans (.setPendingRemoval _), hself, ?_⟩
  · exact hlinked.update hnot none
  · rw [Regions.setPendingRemoval_pendingRemoval, Regions.setNext_pendingRemoval, hp1]

end

structure PendingRemoved (kept rest : List Nat) (rs rs' : Regions) (ll' : HeapRegionLinkedList) : Prop where
  shape : Shape rs' ll' (kept ++ rest.filter fun r => !rs.pendingRemoval r)
  frame : Frame (kept ++ rest) rs rs'
  next : ∀ r ∈ rest, rs.pendingRemoval r = true → rs'.next r = none
  pending : ∀ r, rs'.pendingRemoval r = (rs.pendingRemoval r && !rest.contains r)

lemma PendingRemoved.of_none_pending (h : Shape rs ll (kept ++ rest)) (hp : ∀ r ∈ rest, rs.pendingRemoval r = false) :
    PendingRemoved kept rest rs rs ll := by
  refine ⟨?_, .refl _ _, fun r hr ht => ?_, fun r => ?_⟩
  · rwa [List.filter_eq_self.2 fun r hr => by simp [hp r hr]]
  · simp [hp r hr] at ht
  · by_cases hr : r ∈ rest
    · simp [hp r hr]
    · simp [hr]

lemma PendingRemoved.keep (h : PendingRemoved (kept ++ [hr]) rest rs rs' ll) (hp : rs.pendingRemoval hr = false) :
    PendingRemoved kept (hr :: rest) rs rs' ll := by
  refine ⟨?_, by simpa using h.frame, fun r hm ht => ?_, fun r => ?_⟩
  · rw [List.filter_cons_of_pos (by simp [hp])]
    simpa using h.shape
  · rcases List.mem_cons.1 hm with rfl | hm
    · simp [hp] at ht
    · exact h.next r hm ht
  · rw [h.pending r, List.contains_cons]
    by_cases heq : r = hr
    · simp [heq, hp]
    · simp [beq_eq_false_iff_ne.2 heq]

lemma PendingRemoved.remove (h : PendingRemoved kept rest rs' rs'' ll) (hp : rs.pendingRemoval hr = true)
    (hnot : hr ∉ kept ++ rest) (hf : Frame (kept ++ hr :: rest) rs rs') (hn : rs'.next hr = none)
    (hu : rs'.pendingRemoval = update rs.pendingRemoval hr false) : PendingRemoved kept (hr :: rest) rs rs'' ll := by
  have hcongr : ∀ r, r ≠ hr → rs'.pendingRemoval r = rs.pendingRemoval r := fun r hne => by
    rw [hu, update_of_ne hne]
  have hne : ∀ r ∈ rest, r ≠ hr := by
    rintro r hm rfl
    exact hnot (List.mem_append_right _ hm)
  refine ⟨?_, hf.trans (h.frame.mono (by simp +contextual [or_imp])), fun r hm ht => ?_, fun r => ?_⟩
  · rw [List.filter_cons_of_neg (by simp [hp]), ← List.filter_congr fun r hm => congrArg Bool.not (hcongr r (hne r hm))]
    exact h.shape
  · rcases List.mem_cons.1 hm with rfl | hm
    · rw [h.frame.next r hnot, hn]
    · exact h.next r hm ((hcongr r (hne r hm)).trans ht)
  · rw [h.pending r, List.contains_cons]
    by_cases heq : r = hr
    · simp [heq, hu]
    · simp [beq_eq_false_iff_ne.2 heq, hcongr r heq]

lemma removeAllPendingLoop_spec (debug) {target count fuel} (h : Shape rs ll (kept ++ rest))
    (hd : (kept ++ rest).Nodup) (hf : rest.length < fuel) (hcount : count + rest.countP rs.pendingRemoval = target) :
    ∃ rs' ll', removeAllPendingLoop debug target fuel rs ll kept.getLast? rest.head? count =
        some (rs', ll', target) ∧ PendingRemoved kept rest rs rs' ll' := by
  induction rest generalizing rs ll kept count fuel with
  | nil =>
    cases fuel with
    | zero => cases hf
    | succ fuel => exact ⟨rs, ll, by rw [← hcount]; rfl, .of_none_pending h (by simp)⟩
  | cons hr rest ih =>
    cases fuel with
    | zero => cases hf
    | succ fuel =>
      have hf' : rest.length < fuel := lt_of_succ_lt_succ hf
      rw [List.head?_cons, removeAllPendingLoop, h.linked.next_eq]
      cases hp : rs.pendingRemoval hr with
      | false =>
        rw [List.countP_cons_of_neg (by simp [hp])] at hcount
        rw [List.append_cons] at h hd
        obtain ⟨rs', ll', heq, hpost⟩ := ih h hd hf' hcount
        exact ⟨rs', ll', by simpa using heq, hpost.keep hp⟩
      | true =>
        rw [List.countP_cons_of_pos hp] at hcount
        obtain ⟨hnot, hd'⟩ := List.nodup_cons.1 (List.nodup_middle.1 hd)
        obtain ⟨rs1, ll1, heq1, hshape1, hframe1, hnone, hpend1⟩ := removePending_spec h hd
        have hcount1 : rest.countP rs1.pendingRemoval = rest.countP rs.pendingRemoval := by
          refine List.countP_congr fun r hm => ?_
          rw [hpend1, update_of_ne]
          rintro rfl
          exact hnot (List.mem_append_right _ hm)
        simp only [if_true, if_pos (show count < target by omega), heq1, bind_some]
        split
        · -- the target is reached, so nothing that is left is pending
          rename_i hbreak
          have hnone_left : ∀ r ∈ rest, rs1.pendingRemoval r = false := by
            have hzero : rest.countP rs1.pendingRemoval = 0 := by omega
            simpa using List.countP_eq_zero.1 hzero
          exact ⟨rs1, ll1, by rw [hbreak.2],
            (PendingRemoved.of_none_pending hshape1 hnone_left).remove hp hnot hframe1 hnone hpend1⟩
        · obtain ⟨rs', ll', heq, hpost⟩ := ih hshape1 hd' hf' (by omega : count + 1 + _ = target)
          exact ⟨rs', ll', heq, hpost.remove hp hnot hframe1 hnone hpend1⟩

lemma removeAllPending_spec (debug) {k} (h : Shape rs ll l) (hd : l.Nodup) (hk : 2 ≤ k)
    (hcount : l.countP rs.pendingRemoval = k) :
    ∃ rs' ll', ll.removeAllPending debug rs k = some (rs', ll') ∧ PendingRemoved [] l rs rs' ll' := by
  have hfuel : l.length < ll.length + 1 := by
    rw [h.counted.length]
    exact lt_succ_self _
  have hnil : Shape rs ll ([] ++ l) := h
  obtain ⟨rs', ll', heq, hpost⟩ := removeAllPendingLoop_spec debug hnil hd hfuel ((zero_add _).trans hcount)
  have hne : ll.isEmpty = false := by
    rw [Bool.eq_false_iff, Ne, h.isEmpty_iff]
    rintro rfl
    simp only [List.countP_nil] at hcount
    omega
  have hlen : ll'.length + k = ll.length := by
    have hsplit := List.length_eq_countP_add_countP rs.pendingRemoval (l := l)
    rw [hpost.shape.counted.length, h.counted.length, hsplit, hcount, List.nil_append, ← List.countP_eq_length_filter,
      add_comm]
    simp
  rw [← h.linked.head_eq] at heq
  refine ⟨rs', ll', ?_, hpost⟩
  rw [removeAllPending, if_pos ⟨hk, hne⟩]
  rw [show (List.getLast? ([] : List Nat)) = none from rfl] at heq
  rw [heq]
  exact if_pos ⟨rfl, hlen⟩

end Rolp.Heap.RegionLists
