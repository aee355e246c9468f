import Mathlib.Data.List.Nodup
import Mathlib.Data.List.Pairwise

/-!
# Binary trees linked through parent and child pointers

A tree of values that live at addresses, and the pointers that link them. A context is a tree with a hole, from the hole
upwards. Grafting a tree into it assigns one child pointer and one parent pointer.
-/

namespace Rolp.Lib.LinkedTree

open Function List Option

inductive BinTree (α : Type) where
  | leaf
  | node (l : BinTree α) (a : α) (r : BinTree α)

open BinTree

inductive Ctx (α : Type) where
  | top
  | left (a : α) (r : BinTree α) (up : Ctx α)
  | right (l : BinTree α) (a : α) (up : Ctx α)

variable {α A : Type}

def BinTree.inorder : BinTree α → List α
  | .leaf => []
  | .node l a r => l.inorder ++ a :: r.inorder

namespace Ctx

def plug : Ctx α → BinTree α → BinTree α
  | top, t => t
  | left a r up, t => up.plug (.node t a r)
  | right l a up, t => up.plug (.node l a t)

def before : Ctx α → List α
  | top => []
  | left _ _ up => up.before
  | right l a up => up.before ++ (l.inorder ++ [a])

def after : Ctx α → List α
  | top => []
  | left a r up => a :: (r.inorder ++ up.after)
  | right _ _ up => up.after

lemma inorder_plug (c : Ctx α) (t : BinTree α) : (c.plug t).inorder = c.before ++ t.inorder ++ c.after := by
  induction c generalizing t with
  | top => simp [plug, before, after]
  | left a r up ih => simp [plug, before, after, ih, inorder]
  | right l a up ih => simp [plug, before, after, ih, inorder]

end Ctx

namespace Ctx

def append : Ctx α → Ctx α → Ctx α
  | top, up => up
  | left a r c, up => left a r (c.append up)
  | right l a c, up => right l a (c.append up)

lemma plug_append (c up : Ctx α) (t : BinTree α) : (c.append up).plug t = up.plug (c.plug t) := by
  induction c generalizing t with
  | top => rfl
  | left a r c ih => exact ih _
  | right l a c ih => exact ih _

lemma before_append (c up : Ctx α) : (c.append up).before = up.before ++ c.before := by
  induction c with
  | top => simp [append, before]
  | left a r c ih => simp [append, before, ih]
  | right l a c ih => simp [append, before, ih]

end Ctx

variable {a : α}

lemma BinTree.exists_ctx {t} (h : a ∈ t.inorder) : ∀ up : Ctx α, ∃ c l r, up.plug t = Ctx.plug c (.node l a r) := by
  induction t with
  | leaf => cases h
  | node l b r ihl ihr =>
    intro up
    rcases mem_append.1 h with h | h
    · exact ihl h (.left b r up)
    · rcases mem_cons.1 h with rfl | h
      · exact ⟨up, l, r, rfl⟩
      · exact ihr h (.right l b up)

/-! ## Pointers -/

structure Links (A : Type) where
  parent : A → Option A
  left : A → Option A
  right : A → Option A

namespace Links

variable [DecidableEq A] (s : Links A)

def setParent (x : Option A) (p : Option A) : Links A :=
  match x with
  | none => s
  | some x => { s with parent := Function.update s.parent x p }

def setLeft (x : A) (child : Option A) : Links A :=
  setParent { s with left := Function.update s.left x child } child (some x)

def setRight (x : A) (child : Option A) : Links A :=
  setParent { s with right := Function.update s.right x child } child (some x)

lemma setParent_left (x p) : (s.setParent x p).left = s.left := by
  cases x <;> rfl

lemma setParent_right (x p) : (s.setParent x p).right = s.right := by
  cases x <;> rfl

lemma setParent_parent (x p y) : (s.setParent x p).parent y = if x = some y then p else s.parent y := by
  cases x with
  | none => simp [setParent]
  | some x =>
    by_cases h : x = y
    · simp [setParent, h]
    · simp [setParent, h, update_of_ne (Ne.symm h)]

end Links

open Links

variable {r l : BinTree α}

section
variable (addr : α → A)

def BinTree.root : BinTree α → Option A
  | .leaf => none
  | .node _ a _ => some (addr a)

def Ctx.parent : Ctx α → Option A
  | .top => none
  | .left a _ _ => some (addr a)
  | .right _ a _ => some (addr a)

def Linked (s : Links A) : Option A → BinTree α → Prop
  | _, .leaf => True
  | p, .node l a r =>
    s.parent (addr a) = p ∧ s.left (addr a) = l.root addr ∧ s.right (addr a) = r.root addr ∧
      Linked s (some (addr a)) l ∧ Linked s (some (addr a)) r

/-- The pointers link the context, with `hole` as the child pointer at the hole. -/
def CtxLinked (s : Links A) : Ctx α → Option A → Prop
  | .top, _ => True
  | .left a r up, hole =>
    s.parent (addr a) = up.parent addr ∧ s.left (addr a) = hole ∧ s.right (addr a) = r.root addr ∧
      Linked addr s (some (addr a)) r ∧ CtxLinked s up (some (addr a))
  | .right l a up, hole =>
    s.parent (addr a) = up.parent addr ∧ s.left (addr a) = l.root addr ∧ s.right (addr a) = hole ∧
      Linked addr s (some (addr a)) l ∧ CtxLinked s up (some (addr a))

variable {addr} {s s' : Links A} {t : BinTree α} {c : Ctx α} {p q hole : Option A}

lemma linked_plug :
    Linked addr s none (c.plug t) ↔ CtxLinked addr s c (t.root addr) ∧ Linked addr s (c.parent addr) t := by
  induction c generalizing t with
  | top => simp [Ctx.plug, CtxLinked, Ctx.parent]
  | left a r up ih =>
    simp only [Ctx.plug, ih]
    constructor
    · rintro ⟨hup, hp, hl, hr, ht, hr'⟩
      exact ⟨⟨hp, hl, hr, hr', hup⟩, ht⟩
    · rintro ⟨⟨hp, hl, hr, hr', hup⟩, ht⟩
      exact ⟨hup, hp, hl, hr, ht, hr'⟩
  | right l a up ih =>
    simp only [Ctx.plug, ih]
    constructor
    · rintro ⟨hup, hp, hl, hr, hl', ht⟩
      exact ⟨⟨hp, hl, hr, hl', hup⟩, ht⟩
    · rintro ⟨⟨hp, hl, hr, hl', hup⟩, ht⟩
      exact ⟨hup, hp, hl, hr, hl', ht⟩

lemma root_plug_of_ne_top {c : Ctx α} (hc : c ≠ .top) (t t') : (c.plug t).root addr = (c.plug t').root addr := by
  induction c generalizing t t' with
  | top => exact absurd rfl hc
  | left a r up ih =>
    cases up with
    | top => rfl
    | left b r' up => exact ih nofun _ _
    | right l' b up => exact ih nofun _ _
  | right l a up ih =>
    cases up with
    | top => rfl
    | left b r' up => exact ih nofun _ _
    | right l' b up => exact ih nofun _ _

lemma root_plug_congr (c : Ctx α) (t t' : BinTree α) (h : t.root addr = t'.root addr) :
    (c.plug t).root addr = (c.plug t').root addr := by
  by_cases hc : c = .top
  · rw [hc]
    exact h
  · exact root_plug_of_ne_top hc _ _

variable {x : A}

lemma root_mem {t : BinTree α} (h : t.root addr = some x) : ∃ a ∈ t.inorder, addr a = x := by
  cases t with
  | leaf => cases h
  | node l a r => exact ⟨a, by simp [inorder], some.inj h⟩

def AgreeAt (s s' : Links A) (x : A) : Prop := s'.parent x = s.parent x ∧ s'.left x = s.left x ∧ s'.right x = s.right x

lemma Linked.congr (h : Linked addr s p t) (hs : ∀ a ∈ t.inorder, AgreeAt s s' (addr a)) : Linked addr s' p t := by
  induction t generalizing p with
  | leaf => trivial
  | node l a r ihl ihr =>
    obtain ⟨hp, hl, hr, hlt, hrt⟩ := h
    obtain ⟨h1, h2, h3⟩ := hs a (by simp [inorder])
    exact ⟨h1.trans hp, h2.trans hl, h3.trans hr, ihl hlt fun b hb => hs b (by simp [inorder, hb]),
      ihr hrt fun b hb => hs b (by simp [inorder, hb])⟩

lemma CtxLinked.congr (h : CtxLinked addr s c hole) (hs : ∀ a ∈ c.before ++ c.after, AgreeAt s s' (addr a)) :
    CtxLinked addr s' c hole := by
  induction c generalizing hole with
  | top => trivial
  | left a r up ih =>
    obtain ⟨hp, hl, hr, hrt, hup⟩ := h
    obtain ⟨h1, h2, h3⟩ := hs a (by simp [Ctx.after])
    refine ⟨h1.trans hp, h2.trans hl, h3.trans hr, hrt.congr fun b hb => hs b (by simp [Ctx.after, hb]),
      ih hup fun b hb => hs b ?_⟩
    rcases mem_append.1 hb with hb | hb
    · simp [Ctx.before, hb]
    · simp [Ctx.after, hb]
  | right l a up ih =>
    obtain ⟨hp, hl, hr, hlt, hup⟩ := h
    obtain ⟨h1, h2, h3⟩ := hs a (by simp [Ctx.before])
    refine ⟨h1.trans hp, h2.trans hl, h3.trans hr, hlt.congr fun b hb => hs b (by simp [Ctx.before, hb]),
      ih hup fun b hb => hs b ?_⟩
    rcases mem_append.1 hb with hb | hb
    · simp [Ctx.before, hb]
    · simp [Ctx.after, hb]

/-! ## Grafting -/

/-- No address of the tree is one of the context, and none occurs twice. -/
structure Apart (addr : α → A) (c : Ctx α) (t : BinTree α) : Prop where
  tree : (t.inorder.map addr).Nodup
  ctx : ((c.before ++ c.after).map addr).Nodup
  disjoint : ∀ a ∈ t.inorder, ∀ b ∈ c.before ++ c.after, addr a ≠ addr b

lemma apart_of_nodup (h : ((c.plug t).inorder.map addr).Nodup) : Apart addr c t := by
  rw [Ctx.inorder_plug, append_assoc] at h
  have hperm : (c.before ++ (t.inorder ++ c.after)).Perm (t.inorder ++ (c.before ++ c.after)) := by
    rw [← append_assoc, ← append_assoc]
    exact List.Perm.append_right _ perm_append_comm
  rw [(hperm.map addr).nodup_iff, map_append, nodup_append] at h
  obtain ⟨h1, h2, h3⟩ := h
  exact ⟨h1, h2, fun a ha b hb => h3 _ (mem_map_of_mem ha) _ (mem_map_of_mem hb)⟩

variable {b : α}

lemma ne_of_nodup_middle {xs ys} (h : ((xs ++ a :: ys).map addr).Nodup) (hb : b ∈ xs ++ ys) : addr b ≠ addr a := by
  rw [map_append, map_cons, nodup_middle, nodup_cons, ← map_append] at h
  intro heq
  exact h.1 (heq ▸ mem_map_of_mem hb)

lemma ctx_left_ne {up} (hn : ((Ctx.before (.left a r up) ++ Ctx.after (.left a r up)).map addr).Nodup) :
    (∀ b ∈ r.inorder, addr b ≠ addr a) ∧ ∀ b ∈ up.before ++ up.after, addr b ≠ addr a := by
  refine ⟨fun b hb => ne_of_nodup_middle hn (by simp [hb]), fun b hb => ne_of_nodup_middle hn ?_⟩
  rcases mem_append.1 hb with hb | hb <;> simp [Ctx.before, hb]

lemma ctx_right_ne {up} (hn : ((Ctx.before (.right l a up) ++ Ctx.after (.right l a up)).map addr).Nodup) :
    (∀ b ∈ l.inorder, addr b ≠ addr a) ∧ ∀ b ∈ up.before ++ up.after, addr b ≠ addr a := by
  have heq : Ctx.before (.right l a up) ++ Ctx.after (.right l a up) =
      (up.before ++ l.inorder) ++ a :: up.after := by simp [Ctx.before, Ctx.after]
  rw [heq] at hn
  refine ⟨fun b hb => ne_of_nodup_middle hn (by simp [hb]), fun b hb => ne_of_nodup_middle hn ?_⟩
  rcases mem_append.1 hb with hb | hb <;> simp [hb]

lemma root_ne_of_forall (h : ∀ b ∈ t.inorder, addr b ≠ x) : t.root addr ≠ some x := by
  intro hroot
  obtain ⟨b, hb, hbx⟩ := root_mem hroot
  exact h b hb hbx

lemma Apart.root_ne (ha : Apart addr c t) (hb : b ∈ c.before ++ c.after) : t.root addr ≠ some (addr b) :=
  root_ne_of_forall fun a ha' => ha.disjoint a ha' b hb

variable [DecidableEq A]

/-- The assignments that put the subtree with the root `x` into the hole. -/
def Links.graft (s : Links A) (addr : α → A) (c : Ctx α) (x : Option A) : Links A :=
  match c with
  | .top => s.setParent x none
  | .left a _ _ => s.setLeft (addr a) x
  | .right _ a _ => s.setRight (addr a) x

lemma Linked.reparent (h : Linked addr s p t) (hn : (t.inorder.map addr).Nodup) (q) :
    Linked addr (s.setParent (t.root addr) q) q t := by
  cases t with
  | leaf => trivial
  | node l a r =>
    obtain ⟨hp, hl, hr, hlt, hrt⟩ := h
    simp only [inorder, map_append, map_cons] at hn
    rw [nodup_middle, nodup_cons, ← map_append] at hn
    have hne b (hb : b ∈ l.inorder ++ r.inorder) :
        AgreeAt s (s.setParent (some (addr a)) q) (addr b) := by
      have hab : addr a ≠ addr b := fun heq => hn.1 (heq ▸ mem_map_of_mem hb)
      refine ⟨?_, by rw [setParent_left], by rw [setParent_right]⟩
      rw [setParent_parent, if_neg (fun heq => hab (some.inj heq))]
    refine ⟨?_, ?_, ?_, hlt.congr fun b hb => hne b (by simp [hb]), hrt.congr fun b hb => hne b (by simp [hb])⟩
    · rw [root, setParent_parent, if_pos rfl]
    · rw [setParent_left, hl]
    · rw [setParent_right, hr]

variable {y : A} {child : Option A}

lemma agreeAt_setLeft (hx : y ≠ x) (hc : child ≠ some y) : AgreeAt s (s.setLeft x child) y := by
  refine ⟨?_, ?_, ?_⟩
  · rw [setLeft, setParent_parent, if_neg hc]
  · rw [setLeft, setParent_left]
    exact update_of_ne hx _ _
  · rw [setLeft, setParent_right]

lemma agreeAt_setRight (hx : y ≠ x) (hc : child ≠ some y) : AgreeAt s (s.setRight x child) y := by
  refine ⟨?_, ?_, ?_⟩
  · rw [setRight, setParent_parent, if_neg hc]
  · rw [setRight, setParent_left]
  · rw [setRight, setParent_right]
    exact update_of_ne hx _ _

lemma setLeft_at (hc : child ≠ some x) :
    (s.setLeft x child).parent x = s.parent x ∧ (s.setLeft x child).left x = child ∧
      (s.setLeft x child).right x = s.right x := by
  refine ⟨?_, ?_, ?_⟩
  · rw [setLeft, setParent_parent, if_neg hc]
  · rw [setLeft, setParent_left]
    exact update_self _ _ _
  · rw [setLeft, setParent_right]

lemma setRight_at (hc : child ≠ some x) :
    (s.setRight x child).parent x = s.parent x ∧ (s.setRight x child).left x = s.left x ∧
      (s.setRight x child).right x = child := by
  refine ⟨?_, ?_, ?_⟩
  · rw [setRight, setParent_parent, if_neg hc]
  · rw [setRight, setParent_left]
  · rw [setRight, setParent_right]
    exact update_self _ _ _

lemma Linked.setLeft_root (h : Linked addr s p t) (hn : (t.inorder.map addr).Nodup)
    (hx : ∀ b ∈ t.inorder, addr b ≠ x) : Linked addr (s.setLeft x (t.root addr)) (some x) t := by
  have h' : Linked addr { s with left := update s.left x (t.root addr) } p t :=
    h.congr fun b hb => ⟨rfl, update_of_ne (hx b hb) _ _, rfl⟩
  exact h'.reparent hn (some x)

lemma Linked.setRight_root (h : Linked addr s p t) (hn : (t.inorder.map addr).Nodup)
    (hx : ∀ b ∈ t.inorder, addr b ≠ x) : Linked addr (s.setRight x (t.root addr)) (some x) t := by
  have h' : Linked addr { s with right := update s.right x (t.root addr) } p t :=
    h.congr fun b hb => ⟨rfl, rfl, update_of_ne (hx b hb) _ _⟩
  exact h'.reparent hn (some x)

lemma graft_children (hy : ∀ b ∈ c.before ++ c.after, y ≠ addr b) (child) :
    (s.graft addr c child).left y = s.left y ∧ (s.graft addr c child).right y = s.right y := by
  cases c with
  | top => exact ⟨by rw [graft, setParent_left], by rw [graft, setParent_right]⟩
  | left a r up =>
    refine ⟨?_, by rw [graft, setLeft, setParent_right]⟩
    rw [graft, setLeft, setParent_left]
    exact update_of_ne (hy a (by simp [Ctx.after])) _ _
  | right l a up =>
    refine ⟨by rw [graft, setRight, setParent_left], ?_⟩
    rw [graft, setRight, setParent_right]
    exact update_of_ne (hy a (by simp [Ctx.before])) _ _

lemma agreeAt_graft (hy : ∀ b ∈ c.before ++ c.after, y ≠ addr b) (hc : child ≠ some y) :
    AgreeAt s (s.graft addr c child) y := by
  refine ⟨?_, graft_children hy child⟩
  cases c with
  | top => rw [graft, setParent_parent, if_neg hc]
  | left a r up => rw [graft, setLeft, setParent_parent, if_neg hc]
  | right l a up => rw [graft, setRight, setParent_parent, if_neg hc]

lemma graft_parent (c x) : (s.graft addr c (some x)).parent x = c.parent addr := by
  cases c with
  | top => rw [graft, setParent_parent, if_pos rfl]; rfl
  | left a r up => rw [graft, setLeft, setParent_parent, if_pos rfl]; rfl
  | right l a up => rw [graft, setRight, setParent_parent, if_pos rfl]; rfl

lemma ctxLinked_graft (hc : CtxLinked addr s c hole)
    (hn : ((c.before ++ c.after).map addr).Nodup) (hchild : ∀ b ∈ c.before ++ c.after, child ≠ some (addr b)) :
    CtxLinked addr (s.graft addr c child) c child := by
  cases c with
  | top => trivial
  | left a r up =>
    obtain ⟨har, haup⟩ := ctx_left_ne hn
    obtain ⟨hp, -, hr, hrt, hup⟩ := hc
    obtain ⟨h1, h2, h3⟩ := setLeft_at (hchild a (by simp [Ctx.after]))
    refine ⟨h1.trans hp, h2, h3.trans hr, ?_, ?_⟩
    · exact hrt.congr fun b hb => agreeAt_setLeft (har b hb) (hchild b (by simp [Ctx.after, hb]))
    · refine hup.congr fun b hb => agreeAt_setLeft (haup b hb) (hchild b ?_)
      rcases mem_append.1 hb with hb | hb
      · simp [Ctx.before, hb]
      · simp [Ctx.after, hb]
  | right l a up =>
    obtain ⟨hal, haup⟩ := ctx_right_ne hn
    obtain ⟨hp, hl, -, hlt, hup⟩ := hc
    obtain ⟨h1, h2, h3⟩ := setRight_at (hchild a (by simp [Ctx.before]))
    refine ⟨h1.trans hp, h2.trans hl, h3, ?_, ?_⟩
    · exact hlt.congr fun b hb => agreeAt_setRight (hal b hb) (hchild b (by simp [Ctx.before, hb]))
    · refine hup.congr fun b hb => agreeAt_setRight (haup b hb) (hchild b ?_)
      rcases mem_append.1 hb with hb | hb
      · simp [Ctx.before, hb]
      · simp [Ctx.after, hb]

lemma linked_graft (hc : CtxLinked addr s c hole) (ht : Linked addr s q t) (ha : Apart addr c t) :
    Linked addr (s.graft addr c (t.root addr)) none (c.plug t) := by
  rw [linked_plug]
  refine ⟨ctxLinked_graft hc ha.ctx fun b hb => ha.root_ne hb, ?_⟩
  cases c with
  | top => exact ht.reparent ha.tree none
  | left a r up => exact ht.setLeft_root ha.tree fun b hb => ha.disjoint b hb a (by simp [Ctx.after])
  | right l a up => exact ht.setRight_root ha.tree fun b hb => ha.disjoint b hb a (by simp [Ctx.before])

lemma graft_eq_ite_left (hc : CtxLinked addr s c (some x)) (hx : ∀ b ∈ c.before ++ c.after, x ≠ addr b)
    {p} (hp : c.parent addr = some p) (child) :
    (if s.left p = some x then s.setLeft p child else s.setRight p child) = s.graft addr c child := by
  cases c with
  | top => cases hp
  | left a r up =>
    obtain ⟨-, hl, -⟩ := hc
    obtain rfl := some.inj hp
    rw [if_pos hl]
    rfl
  | right l a up =>
    obtain ⟨-, hl, -⟩ := hc
    obtain rfl := some.inj hp
    rw [if_neg, graft]
    rw [hl]
    exact root_ne_of_forall fun b hb heq => hx b (by simp [Ctx.before, hb]) heq.symm

lemma graft_eq_ite_right (hc : CtxLinked addr s c (some x)) (hx : ∀ b ∈ c.before ++ c.after, x ≠ addr b)
    {p} (hp : c.parent addr = some p) (child) :
    (if s.right p = some x then s.setRight p child else s.setLeft p child) = s.graft addr c child := by
  cases c with
  | top => cases hp
  | left a r up =>
    obtain ⟨-, -, hr, -⟩ := hc
    obtain rfl := some.inj hp
    rw [if_neg, graft]
    rw [hr]
    exact root_ne_of_forall fun b hb heq => hx b (by simp [Ctx.after, hb]) heq.symm
  | right l a up =>
    obtain ⟨-, -, hr, -⟩ := hc
    obtain rfl := some.inj hp
    rw [if_pos hr]
    rfl

lemma linked_graft_node {p1 p2} (hc : CtxLinked addr s c hole)
    (hl : Linked addr s p1 l) (hr : Linked addr s p2 r) (ha : Apart addr c (.node l b r)) :
    Linked addr (((s.graft addr c (some (addr b))).setLeft (addr b) (l.root addr)).setRight (addr b) (r.root addr))
      none (c.plug (.node l b r)) := by
  have hb : ∀ d ∈ c.before ++ c.after, addr b ≠ addr d := ha.disjoint b (by simp [inorder])
  have hn := ha.tree
  simp only [inorder] at hn
  have hlb : ∀ d ∈ l.inorder, addr d ≠ addr b := fun d hd => ne_of_nodup_middle hn (by simp [hd])
  have hrb : ∀ d ∈ r.inorder, addr d ≠ addr b := fun d hd => ne_of_nodup_middle hn (by simp [hd])
  rw [map_append, map_cons, nodup_append, nodup_cons] at hn
  obtain ⟨hln, ⟨-, hrn⟩, hlr⟩ := hn
  have hlroot : ∀ d ∈ r.inorder, l.root addr ≠ some (addr d) := fun d hd => root_ne_of_forall fun e he =>
    hlr _ (mem_map_of_mem he) _ (mem_cons_of_mem _ (mem_map_of_mem hd))
  have hrroot : ∀ d ∈ l.inorder, r.root addr ≠ some (addr d) := fun d hd => root_ne_of_forall fun e he heq =>
    hlr _ (mem_map_of_mem hd) _ (mem_cons_of_mem _ (mem_map_of_mem he)) heq.symm
  have hctxl : ∀ d ∈ c.before ++ c.after, l.root addr ≠ some (addr d) := fun d hd => root_ne_of_forall fun e he =>
    ha.disjoint e (by simp [inorder, he]) d hd
  have hctxr : ∀ d ∈ c.before ++ c.after, r.root addr ≠ some (addr d) := fun d hd => root_ne_of_forall fun e he =>
    ha.disjoint e (by simp [inorder, he]) d hd
  have hlx := root_ne_of_forall hlb
  have hrx := root_ne_of_forall hrb
  -- the node is in the hole
  set s1 := s.graft addr c (some (addr b)) with hs1
  have hc1 : CtxLinked addr s1 c (some (addr b)) := ctxLinked_graft hc ha.ctx fun d hd heq => hb d hd (some.inj heq)
  have hsub {d : α} (hd : d ∈ l.inorder ++ r.inorder) : AgreeAt s s1 (addr d) := by
    have hmem : d ∈ (node l b r).inorder := by
      rcases mem_append.1 hd with hd | hd <;> simp [inorder, hd]
    refine agreeAt_graft (ha.disjoint d hmem) ?_
    intro heq
    rcases mem_append.1 hd with hd | hd
    · exact hlb d hd (some.inj heq).symm
    · exact hrb d hd (some.inj heq).symm
  have hl1 : Linked addr s1 p1 l := hl.congr fun d hd => hsub (by simp [hd])
  have hr1 : Linked addr s1 p2 r := hr.congr fun d hd => hsub (by simp [hd])
  -- its left child
  obtain ⟨hp2, hleft2, -⟩ := setLeft_at hlx
  have hc2 := hc1.congr fun d hd => agreeAt_setLeft (fun heq => hb d hd heq.symm) (hctxl d hd)
  have hl2 := hl1.setLeft_root hln hlb
  have hr2 := hr1.congr fun d hd => agreeAt_setLeft (hrb d hd) (hlroot d hd)
  -- its right child
  obtain ⟨hp3, hleft3, hright3⟩ := setRight_at hrx
  rw [linked_plug]
  refine ⟨hc2.congr fun d hd => agreeAt_setRight (fun heq => hb d hd heq.symm) (hctxr d hd), ?_, ?_, hright3, ?_, ?_⟩
  · rw [hp3, hp2, graft_parent]
  · rw [hleft3, hleft2]
  · exact hl2.congr fun d hd => agreeAt_setRight (hlb d hd) (hrroot d hd)
  · exact hr2.setRight_root hrn hrb

end

/-! ## Walks -/

namespace Links

def leftmost (s : Links A) : Nat → A → Option A
  | 0, _ => none
  | fuel + 1, x =>
    match s.left x with
    | none => some x
    | some y => leftmost s fuel y

def rightmost (s : Links A) : Nat → A → Option A
  | 0, _ => none
  | fuel + 1, x =>
    match s.right x with
    | none => some x
    | some y => rightmost s fuel y

/-- Down from `cur` to the node with the key `k`; the second component is the last node passed. -/
def search (s : Links A) (key : A → Nat) (k : Nat) : Nat → Option A → Option A → Option (Option A × Option A)
  | 0, _, _ => none
  | _ + 1, none, last => some (none, last)
  | fuel + 1, some x, last =>
    if key x = k then some (some x, last)
    else if key x < k then search s key k fuel (s.right x) (some x)
    else search s key k fuel (s.left x) (some x)

/-- Up from `cur` to the first node with a key of at least `k`. -/
def climb (s : Links A) (key : A → Nat) (k : Nat) : Nat → Option A → Option (Option A)
  | 0, _ => none
  | _ + 1, none => some none
  | fuel + 1, some x => if k ≤ key x then some (some x) else climb s key k fuel (s.parent x)

end Links

section
variable {addr : α → A} {s : Links A}

lemma Linked.leftmost_spec {p} (h : Linked addr s p (.node l a r)) {fuel} (hf : (node l a r).inorder.length ≤ fuel) :
    ∃ c m mr, node l a r = Ctx.plug c (.node .leaf m mr) ∧ c.before = [] ∧
      s.leftmost fuel (addr a) = some (addr m) := by
  induction l generalizing p a r fuel with
  | leaf =>
    obtain ⟨-, hl, -⟩ := h
    cases fuel with
    | zero => simp [inorder] at hf
    | succ fuel => exact ⟨.top, a, r, rfl, rfl, by rw [leftmost, hl]; rfl⟩
  | node l b r' ihl ihr =>
    obtain ⟨-, hl, -, hlt, -⟩ := h
    cases fuel with
    | zero => simp [inorder] at hf
    | succ fuel =>
      have hf' : (node l b r').inorder.length ≤ fuel := by simp [inorder] at hf ⊢; omega
      obtain ⟨c, m, mr, heq, hbefore, hwalk⟩ := ihl hlt hf'
      refine ⟨c.append (.left a r .top), m, mr, by rw [Ctx.plug_append, ← heq]; rfl, ?_, ?_⟩
      · rw [Ctx.before_append, hbefore]
        rfl
      · rw [leftmost, hl]
        exact hwalk

lemma Linked.rightmost_spec {p} (h : Linked addr s p (.node l a r)) {fuel} (hf : (node l a r).inorder.length ≤ fuel) :
    ∃ m, (node l a r).inorder.getLast? = some m ∧ s.rightmost fuel (addr a) = some (addr m) := by
  induction r generalizing p a l fuel with
  | leaf =>
    obtain ⟨-, -, hr, -⟩ := h
    cases fuel with
    | zero => simp [inorder] at hf
    | succ fuel => exact ⟨a, by simp [inorder], by rw [rightmost, hr]; rfl⟩
  | node l' b r ihl ihr =>
    obtain ⟨-, -, hr, -, hrt⟩ := h
    cases fuel with
    | zero => simp [inorder] at hf
    | succ fuel =>
      have hf' : (node l' b r).inorder.length ≤ fuel := by simp [inorder] at hf ⊢; omega
      obtain ⟨m, hm, hwalk⟩ := ihr hrt hf'
      refine ⟨m, ?_, ?_⟩
      · rw [inorder, getLast?_append, getLast?_cons, hm]
        rfl
      · rw [rightmost, hr]
        exact hwalk

structure Around (addr : α → A) (key : A → Nat) (k : Nat) (c : Ctx α) : Prop where
  before : ∀ b ∈ c.before, key (addr b) < k
  after : ∀ b ∈ c.after, k < key (addr b)

lemma search_spec {key k} (t : BinTree α) (up : Ctx α) (h : Linked addr s (up.parent addr) t)
    (hs : (((up.plug t).inorder.map addr).map key).Pairwise (· < ·)) (hup : Around addr key k up) (fuel : Nat)
    (hf : t.inorder.length < fuel) (last : Option A) (hlast : t = .leaf → last = up.parent addr) :
    ∃ c t' last', up.plug t = Ctx.plug c t' ∧ s.search key k fuel (t.root addr) last = some (t'.root addr, last') ∧
      Around addr key k c ∧ ((t' = .leaf ∧ last' = c.parent addr) ∨ ∃ l a r, t' = .node l a r ∧ key (addr a) = k) := by
  induction t generalizing up fuel last with
  | leaf =>
    cases fuel with
    | zero => simp at hf
    | succ fuel =>
      refine ⟨up, .leaf, last, rfl, ?_, hup, .inl ⟨rfl, hlast rfl⟩⟩
      rw [root, Links.search]
  | node l a r ihl ihr =>
    obtain ⟨-, hl, hr, hlt, hrt⟩ := h
    cases fuel with
    | zero => simp at hf
    | succ fuel =>
      simp only [inorder, length_append, length_cons] at hf
      rw [root, Links.search]
      by_cases heq : key (addr a) = k
      · rw [if_pos heq]
        exact ⟨up, .node l a r, last, rfl, rfl, hup, .inr ⟨l, a, r, rfl, heq⟩⟩
      have hsorted := hs
      rw [Ctx.inorder_plug] at hsorted
      simp only [inorder, map_append, map_cons] at hsorted
      rw [append_assoc, pairwise_append] at hsorted
      obtain ⟨-, hsorted, hbefore⟩ := hsorted
      rw [append_assoc, cons_append, pairwise_append, pairwise_cons] at hsorted
      obtain ⟨-, ⟨hafter, -⟩, hleft⟩ := hsorted
      rw [if_neg heq]
      by_cases hlt' : key (addr a) < k
      · rw [if_pos hlt', hr]
        refine ihr (.right l a up) hrt hs ⟨?_, hup.after⟩ fuel (by omega) _ (fun _ => rfl)
        intro b hb
        simp only [Ctx.before, mem_append, mem_singleton] at hb
        rcases hb with hb | hb | rfl
        · exact hup.before b hb
        · have := hleft _ (mem_map_of_mem (mem_map_of_mem hb)) (key (addr a)) (by simp)
          omega
        · exact hlt'
      · rw [if_neg hlt', hl]
        refine ihl (.left a r up) hlt hs ⟨hup.before, ?_⟩ fuel (by omega) _ (fun _ => rfl)
        intro b hb
        simp only [Ctx.after, mem_cons, mem_append] at hb
        rcases hb with rfl | hb | hb
        · omega
        · have := hafter _ (mem_append_left _ (mem_map_of_mem (mem_map_of_mem hb)))
          omega
        · exact hup.after b hb

lemma climb_spec {key k c hole} (h : CtxLinked addr s c hole)
    (hc : Around addr key k c) (fuel) (hf : (c.before ++ c.after).length < fuel) :
    s.climb key k fuel (c.parent addr) = some (c.after.head?.map addr) := by
  induction c generalizing fuel hole with
  | top =>
    cases fuel with
    | zero => simp at hf
    | succ fuel => rfl
  | left a r up ih =>
    cases fuel with
    | zero => simp at hf
    | succ fuel =>
      rw [Ctx.parent, climb, if_pos (Nat.le_of_lt (hc.after a (by simp [Ctx.after])))]
      rfl
  | right l a up ih =>
    obtain ⟨hp, -, -, -, hup⟩ := h
    cases fuel with
    | zero => simp at hf
    | succ fuel =>
      have ha := hc.before a (by simp [Ctx.before])
      rw [Ctx.parent, climb, if_neg (by omega), hp]
      refine ih hup ⟨fun b hb => hc.before b (by simp [Ctx.before, hb]), hc.after⟩ fuel ?_
      simp only [Ctx.before, Ctx.after, length_append, length_singleton] at hf ⊢
      omega

end

end Rolp.Lib.LinkedTree
