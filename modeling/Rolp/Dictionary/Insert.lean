import Mathlib.Algebra.BigOperators.Group.List.Basic
import Rolp.Dictionary.Model

/-!
# Inserting a chunk

The chunk goes to the end of the list of its size, or becomes a new node where the search has left the tree.
-/

namespace Rolp.Dictionary

open Mem List Node Function

open Lib (Chain)
open Lib.LinkedTree

section
variable {m : Mem} {n : Node} {fc : Addr}

def Node.snoc (n : Node) (fc : Addr) : Node := { n with rest := n.rest ++ [fc] }

lemma Node.snoc_chunks (n : Node) (fc : Addr) : (n.snoc fc).chunks = n.chunks ++ [fc] := rfl

def appended (m : Mem) (n : Node) (last fc : Addr) : Mem :=
  let m := m.initializeList fc
  let m := { m with list := update m.list fc (some n.first) }
  let m := (m.linkAfter last (some fc)).linkTail n.first fc
  { m with count := update m.count n.first (m.count n.first + 1) }

variable {x : Addr}

lemma sameAt_appended {last : Addr} (hx : x ∉ n.chunks) (hlast : last ∈ n.chunks) (hfc : x ≠ fc) :
    SameAt m (appended m n last fc) x := by
  have hfirst : x ≠ n.first := fun heq => hx (heq ▸ n.first_mem)
  have hl : x ≠ last := fun heq => hx (heq ▸ hlast)
  constructor <;> simp [appended, initializeList, linkAfter, linkTail, hfirst, hl, hfc]

lemma Node.Held.append (h : n.Held m) (hnd : n.chunks.Nodup) (hfc : fc ∉ n.chunks) (hsize : m.size fc = n.size)
    {l : List Addr} {last : Addr} (hl : n.chunks = l ++ [last]) : (n.snoc fc).Held (appended m n last fc) := by
  have hfirst : n.first ≠ fc := fun heq => hfc (heq ▸ n.first_mem)
  constructor
  · simpa [appended, initializeList, linkAfter, linkTail, snoc, hfirst] using h.head
  · rw [snoc_chunks]
    simp [appended, linkTail, snoc]
  · simpa [appended, initializeList, linkAfter, linkTail, snoc, hfirst] using h.listSize
  · rw [snoc_chunks, length_append, ← h.count]
    simp [appended, initializeList, linkAfter, linkTail, snoc, hfirst]
  · simpa [appended, initializeList, linkAfter, linkTail, snoc, hfirst] using h.hint
  · have hchain := h.chain
    rw [hl] at hchain hnd hfc
    rw [snoc_chunks, hl, append_assoc]
    exact hchain.snoc hnd hfc
  · intro x hx
    rw [snoc_chunks, mem_append, mem_singleton] at hx
    rcases hx with hx | rfl
    · exact h.sizes x hx
    · exact hsize
  · intro x hx
    rw [snoc_chunks, mem_append, mem_singleton] at hx
    rcases hx with hx | rfl
    · have hne : x ≠ fc := fun heq => hfc (heq ▸ hx)
      simpa [appended, initializeList, linkAfter, linkTail, snoc, hne] using h.lists x hx
    · simp [appended, initializeList, linkAfter, linkTail, snoc]

section

variable (m : Mem) (fc : Addr)

lemma held_asTreeList : Node.Held (m.asTreeList fc) ⟨m.size fc, fc, []⟩ := by
  constructor
  · simp [asTreeList, linkHead, linkTail]
  · simp [asTreeList, linkHead, linkTail, Node.chunks]
  · simp [asTreeList, initializeList, linkHead, linkTail]
  · simp [asTreeList, Node.chunks]
  · simp [asTreeList, initializeList, linkHead, linkTail]
  · exact Lib.chain_singleton (by simp [asTreeList, linkHead, linkTail])
      (by simp [asTreeList, linkHead, linkTail])
  · intro x hx
    obtain rfl := mem_singleton.1 hx
    rfl
  · intro x hx
    obtain rfl := mem_singleton.1 hx
    simp [asTreeList, linkHead, linkTail]

def lone : Mem :=
  let m := m.initializeList fc
  ({ m with next := update m.next fc none, prev := update m.prev fc none } : Mem).asTreeList fc

lemma held_lone : Node.Held (lone m fc) ⟨m.size fc, fc, []⟩ := held_asTreeList _ fc

end

lemma sameAt_lone (hx : x ≠ fc) : SameAt m (lone m fc) x := by
  constructor <;> simp [lone, asTreeList, initializeList, linkHead, linkTail, hx]

lemma agreeAt_lone (hx : x ≠ fc) : AgreeAt m.links (lone m fc).links x := by
  refine ⟨?_, ?_, ?_⟩ <;> simp [lone, asTreeList, initializeList, linkHead, linkTail, hx]

lemma linked_lone (m fc) : Linked first (lone m fc).links none (.node .leaf ⟨m.size fc, fc, []⟩ .leaf) := by
  refine ⟨?_, ?_, ?_, trivial, trivial⟩ <;>
    simp [lone, asTreeList, initializeList, linkHead, linkTail, BinTree.root]

lemma agreeAt_initializeList (hx : x ≠ fc) : AgreeAt m.links (m.initializeList fc).links x := by
  refine ⟨?_, ?_, ?_⟩ <;> simp [initializeList, hx]

end

section
variable {d : Dict} {t l r : BinTree Node} {c : Ctx Node} {n : Node} {m m' : Mem} {root : Option Addr} {fc : Addr}

lemma Shape.congr (h : Shape m root t) (hs : ∀ x ∈ chunks t.inorder, SameAt m m' x)
    (hl : ∀ x ∈ chunks t.inorder, AgreeAt m.links m'.links x) : Shape m' root t :=
  ⟨h.root, h.linked.congr fun n hn => hl _ (mem_chunks.2 ⟨n, hn, n.first_mem⟩), h.lists.congr hs⟩

lemma inorder_plug_node (c : Ctx Node) (l r : BinTree Node) (n : Node) :
    (c.plug (.node l n r)).inorder = (c.before ++ l.inorder) ++ n :: (r.inorder ++ c.after) := by
  simp [Ctx.inorder_plug, BinTree.inorder]

lemma linked_plug_congr {s : Links Addr} {n' : Node} (h : Linked first s none (c.plug (.node l n r)))
    (hn : n'.first = n.first) : Linked first s none (c.plug (.node l n' r)) := by
  rw [linked_plug] at h ⊢
  simpa only [BinTree.root, Linked, hn] using h

lemma Shape.append (h : Shape d.mem d.root (c.plug (.node l n r))) (hsize : d.mem.size fc = n.size)
    (hfc : fc ∉ chunks (c.plug (.node l n r)).inorder) (prevTL : Option Addr) :
    ∃ m', d.linkChunk fc (some n.first) prevTL = some { d with mem := m' } ∧
      Shape m' d.root (c.plug (.node l (n.snoc fc) r)) := by
  have hlists := h.lists
  rw [inorder_plug_node] at hlists hfc
  obtain ⟨-, hb, hn⟩ := hlists.erase
  have hfcn : fc ∉ n.chunks := fun hmem => hfc (by simp [hmem])
  have hfirst : n.first ≠ fc := fun heq => hfcn (heq ▸ n.first_mem)
  obtain ⟨ls, last, hl⟩ : ∃ ls last, n.chunks = ls ++ [last] := by
    rcases eq_nil_or_concat n.chunks with hnil | ⟨ls, last, hl⟩
    · cases hnil
    · exact ⟨ls, last, by rw [hl, concat_eq_append]⟩
  have hlast : last ∈ n.chunks := by simp [hl]
  have htail : d.mem.tail n.first = some last := by rw [hn.tail, hl, getLast?_concat]
  refine ⟨appended d.mem n last fc, ?_, ?_, ?_, ?_⟩
  · simp only [Dict.linkChunk, returnChunkAtTail, initializeList, update_of_ne hfirst, htail,
      Option.bind_eq_bind, Option.bind_some, Option.pure_def]
    rfl
  · exact h.root.trans (root_plug_congr c (.node l n r) (.node l (n.snoc fc) r) rfl)
  · refine linked_plug_congr (h.linked.congr fun n' hn' => ?_) rfl
    refine agreeAt_initializeList fun heq => hfc (mem_chunks.2 ⟨n', ?_, heq ▸ n'.first_mem⟩)
    rwa [inorder_plug_node] at hn'
  rw [inorder_plug_node]
  have hsnoc : (n.snoc fc).chunks.Nodup := by exact nodup_append'.2 ⟨hb.nodup, nodup_singleton fc, by simpa using hfcn⟩
  refine hlists.replace rfl hsnoc ?_ (hn.append hb.nodup hfcn hsize hl) fun x hx hx' => ?_
  · intro x hx
    rw [snoc_chunks, mem_append, mem_singleton] at hx
    rcases hx with hx | rfl
    · exact .inl hx
    refine .inr fun hmem => hfc ?_
    simp only [chunks_append, chunks_cons, mem_append] at hmem ⊢
    rcases hmem with (hmem | hmem) | hmem | hmem
    · exact .inl (.inl hmem)
    · exact .inl (.inr hmem)
    · exact .inr (.inr (.inl hmem))
    · exact .inr (.inr (.inr hmem))
  · exact sameAt_appended hx hlast fun heq => hx' (by simp [snoc_chunks, heq])

lemma linkChunk_none (hfc : fc ∉ chunks (c.before ++ c.after)) (hlists : Lists d.mem (c.before ++ c.after))
    (hc : Around first d.mem.listSize (d.mem.size fc) c) (hne : c ≠ .top) : d.linkChunk fc none (c.parent first) =
      some { d with mem := { lone d.mem fc with links := (lone d.mem fc).links.graft first c (some fc) } } := by
  have hsize a (ha : a ∈ c.before ++ c.after) : (lone d.mem fc).listSize a.first = d.mem.listSize a.first := by
    refine (sameAt_lone fun heq => hfc ?_).listSize
    exact mem_chunks.2 ⟨a, ha, heq ▸ a.first_mem⟩
  cases c with
  | top => exact absurd rfl hne
  | left a r up =>
    have hlt := hc.after a (by simp [Ctx.after])
    rw [← hsize a (by simp [Ctx.after])] at hlt
    have hif : ¬ (lone d.mem fc).listSize a.first < (lone d.mem fc).size fc := Nat.lt_asymm hlt
    exact if_neg hif
  | right l a up =>
    have hlt := hc.before a (by simp [Ctx.before])
    rw [← hsize a (by simp [Ctx.before])] at hlt
    have hif : (lone d.mem fc).listSize a.first < (lone d.mem fc).size fc := hlt
    exact if_pos hif

lemma Shape.addNode (h : Shape d.mem d.root (c.plug .leaf)) (hfc : fc ∉ chunks (c.plug .leaf).inorder)
    (hc : Around first d.mem.listSize (d.mem.size fc) c) :
    ∃ m' root', d.linkChunk fc none (c.parent first) = some { d with mem := m', root := root' } ∧
      Shape m' root' (c.plug (.node .leaf ⟨d.mem.size fc, fc, []⟩ .leaf)) := by
  have hlists := h.lists
  have hin : (c.plug .leaf).inorder = c.before ++ c.after := by simp [Ctx.inorder_plug, BinTree.inorder]
  rw [hin] at hlists hfc
  have hne x (hx : x ∈ chunks (c.before ++ c.after)) : x ≠ fc := fun heq => hfc (heq ▸ hx)
  have hbetween : Between c.before c.after ⟨d.mem.size fc, fc, []⟩ := by
    refine ⟨fun n hn => ?_, fun n hn => ?_, nodup_singleton fc, by simpa [Node.chunks] using hfc⟩
    · exact (hlists.held n (by simp [hn])).listSize ▸ hc.before n hn
    · exact (hlists.held n (by simp [hn])).listSize ▸ hc.after n hn
  have hlists' : Lists (lone d.mem fc) (c.plug (.node .leaf ⟨d.mem.size fc, fc, []⟩ .leaf)).inorder := by
    rw [inorder_plug_node]
    simp only [BinTree.inorder, append_nil, nil_append]
    exact (hlists.congr fun x hx => sameAt_lone (hne x hx)).insert hbetween (held_lone d.mem fc)
  have hlinked : Linked first (lone d.mem fc).links none (c.plug .leaf) := by
    refine h.linked.congr fun n hn => agreeAt_lone (hne _ (mem_chunks.2 ⟨n, ?_, n.first_mem⟩))
    rwa [hin] at hn
  by_cases htop : c = .top
  · subst htop
    exact ⟨_, _, rfl, rfl, linked_lone d.mem fc, hlists'⟩
  · refine ⟨_, d.root, linkChunk_none hfc hlists hc htop, ?_, ?_, hlists'.congr fun x _ => sameAt_links _ _ x⟩
    · exact h.root.trans (root_plug_of_ne_top htop _ _)
    · exact linked_graft (linked_plug.1 hlinked).1 (linked_lone d.mem fc)
        (apart_of_nodup (chunks_first_nodup hlists'.nodup))

lemma Represents.insert (h : Represents d t) (hfc : fc ∉ chunks t.inorder) :
    ∃ d' t', d.insertChunkInTree fc = some d' ∧ Represents d' t' ∧
      (contents t'.inorder).Perm ((fc, d.mem.size fc) :: contents t.inorder) := by
  set m : Mem := { d.mem with next := update d.mem.next fc none, prev := update d.mem.prev fc none }
    with hm
  have hne x hx : x ≠ fc := fun heq => hfc (heq ▸ hx)
  have hshape : Shape m d.root t := by
    refine h.shape.congr (fun x hx => ?_) fun x _ => ⟨rfl, rfl, rfl⟩
    constructor <;> simp [hm, hne x hx]
  obtain ⟨c, t0, last, hplug, hsearch, haround, hcases⟩ := search_spec (k := d.mem.size fc) t .top hshape.linked
    hshape.keys_sorted ⟨by simp [Ctx.before], by simp [Ctx.after]⟩ d.fuel h.fuel_gt (t.root first)
    (by rintro rfl; rfl)
  subst hplug
  rw [← hshape.root] at hsearch
  -- the counters follow the contents
  suffices hlink : ∃ m' root' t', ({ d with mem := m } : Dict).linkChunk fc (t0.root first) last =
        some { d with mem := m', root := root' } ∧ Shape m' root' t' ∧
        (contents t'.inorder).Perm ((fc, d.mem.size fc) :: contents (c.plug t0).inorder) by
    obtain ⟨m', root', t', hlink, hs, hperm⟩ := hlink
    refine ⟨⟨m', root', d.totalSize + d.mem.size fc, d.totalFreeBlocks + 1⟩, t', ?_, ⟨hs, ?_, ?_⟩, hperm⟩
    · have hsearch' : d.mem.links.search d.mem.listSize (d.mem.size fc) d.fuel d.root d.root =
          some (t0.root first, last) := hsearch
      simp only [Dict.insertChunkInTree, ← hm, hsearch', hlink, Option.bind_eq_bind, Option.bind_some, Option.pure_def]
    · rw [(hperm.map Prod.snd).sum_eq, map_cons, sum_cons, ← h.totalSize]
      exact Nat.add_comm _ _
    · rw [hperm.length_eq, length_cons, ← h.totalFreeBlocks]
  rcases hcases with ⟨rfl, rfl⟩ | ⟨l, n, r, rfl, hkey⟩
  · obtain ⟨m', root', hlink, hs⟩ := Shape.addNode (d := { d with mem := m }) hshape hfc haround
    refine ⟨m', root', _, hlink, hs, ?_⟩
    rw [inorder_plug_node]
    simp only [Ctx.inorder_plug, BinTree.inorder, append_nil, nil_append, contents_append, contents_cons]
    exact perm_middle
  · have hn : n.Held m := hshape.lists.held n (by simp [inorder_plug_node])
    have hsize : n.size = d.mem.size fc := hn.listSize.symm.trans hkey
    obtain ⟨m', hlink, hs⟩ := Shape.append (d := { d with mem := m }) hshape hsize.symm hfc last
    refine ⟨m', d.root, _, hlink, hs, ?_⟩
    rw [inorder_plug_node, inorder_plug_node]
    refine (contents_middle _ _ _).trans (List.Perm.trans ?_ ((contents_middle _ _ n).symm.cons _))
    rw [snoc_chunks, map_append, ← hsize]
    exact List.Perm.append_right _ (perm_append_singleton _ _)

end

/-! ## Repairing the tree -/

open Node

open Lib.LinkedTree

section
variable {d : Dict} {l r t : BinTree Node} {c : Ctx Node} {n n' : Node} {s : Links Addr}

lemma first_ne_of_nodup (h : ((c.plug (.node l n r)).inorder.map first).Nodup) :
    ∀ b ∈ c.before ++ c.after, n.first ≠ b.first := by
  exact (apart_of_nodup h).disjoint n (by simp [BinTree.inorder])

lemma linked_replaceNode (m : Mem) (h : Linked first m.links none (c.plug (.node l n r)))
    (hn : ((c.plug (.node l n r)).inorder.map first).Nodup) (hn' : ((c.plug (.node l n' r)).inorder.map first).Nodup) :
    Linked first (Mem.replaceNode (m.setEmbeddedList n'.first n.first).links n.first n'.first) none
      (c.plug (.node l n' r)) := by
  have ha := apart_of_nodup hn'
  have hx : ∀ b ∈ c.before ++ c.after, n'.first ≠ b.first := first_ne_of_nodup hn'
  have htree := ha.tree
  obtain ⟨hc, hp, hl, hr, hlt, hrt⟩ := linked_plug.1 h
  -- the copy changes nothing but the new address
  set s := (m.setEmbeddedList n'.first n.first).links with hs
  have hagree y (hy : y ≠ n'.first) : AgreeAt m.links s y := by
    refine ⟨?_, ?_, ?_⟩ <;> simp [hs, Mem.setEmbeddedList, hy]
  have hsp : s.parent n'.first = c.parent first := by simp [hs, Mem.setEmbeddedList, hp]
  have hsl : s.left n'.first = l.root first := by simp [hs, Mem.setEmbeddedList, hl]
  have hsr : s.right n'.first = r.root first := by simp [hs, Mem.setEmbeddedList, hr]
  have hsub b (hb : b ∈ l.inorder ++ r.inorder) : b.first ≠ n'.first := ne_of_nodup_middle htree hb
  have hc' : CtxLinked first s c (some n.first) := hc.congr fun b hb => hagree _ (hx b hb).symm
  have hl' : Linked first s (some n.first) l := hlt.congr fun b hb => hagree _ (hsub b (by simp [hb]))
  have hr' : Linked first s (some n.first) r := hrt.congr fun b hb => hagree _ (hsub b (by simp [hb]))
  -- the parent, if there is one, gets its new child
  have hgraft : Mem.fixParent s n.first n'.first = s.graft first c (some n'.first) := by
    cases hcp : c.parent first with
    | none =>
      rw [Mem.fixParent, hsp, hcp]
      cases c with
      | top =>
        change s = { s with parent := update s.parent n'.first none }
        rw [← hsp.trans hcp, update_eq_self]
      | left a r up => cases hcp
      | right l a up => cases hcp
    | some p =>
      rw [Mem.fixParent, hsp, hcp]
      exact graft_eq_ite_left hc' (first_ne_of_nodup hn) hcp _
  refine (linked_graft_node hc' hl' hr' ha).congr fun b _ => ?_
  obtain ⟨hgl, hgr⟩ := graft_children (s := s) hx (some n'.first)
  rw [Mem.replaceNode, hgraft]
  simp only [Links.setParent_left, hgl, hgr, hsl, hsr]
  refine ⟨?_, ?_, ?_⟩
  · simp only [Links.setLeft, Links.setRight, Links.setParent_parent]
    split
    · simp
    · rfl
  · simp only [Links.setLeft, Links.setRight, Links.setParent_left]
    rw [← hsl, ← hgl, update_eq_self]
  · simp only [Links.setLeft, Links.setRight, Links.setParent_right, Links.setParent_left]
    rw [← hsr, ← hgr, update_eq_self]

lemma replaceChild_spec (hc : CtxLinked first d.mem.links c (some n.first))
    (hp : d.mem.links.parent n.first = c.parent first) (hn : ∀ b ∈ c.before ++ c.after, n.first ≠ b.first)
    (hroot : d.root = (c.plug (.node l n r)).root first) (t) : d.replaceChild n.first (t.root first) = { d with
        root := (c.plug t).root first
        mem := { d.mem with links := d.mem.links.graft first c (t.root first) } } := by
  cases hcp : c.parent first with
  | none =>
    cases c with
    | top => rw [Dict.replaceChild, hp]; rfl
    | left a r up => cases hcp
    | right l a up => cases hcp
  | some p =>
    have htop : c ≠ .top := by
      rintro rfl
      cases hcp
    rw [Dict.replaceChild, hp, hcp, root_plug_of_ne_top htop t (.node l n r), ← hroot]
    simp only [graft_eq_ite_right hc hn hcp]

lemma removeTreeMinimum_spec {lr rr : BinTree Node} {b : Node}
    (h : Linked first d.mem.links none (c.plug (.node l n (.node lr b rr))))
    (hn : ((c.plug (.node l n (.node lr b rr))).inorder.map first).Nodup)
    (hroot : d.root = (c.plug (.node l n (.node lr b rr))).root first)
    (hf : (c.plug (.node l n (.node lr b rr))).inorder.length ≤ d.fuel) :
    ∃ a r' links, d.removeTreeMinimum b.first = some ({ d with mem := { d.mem with links := links } }, a.first) ∧
      (BinTree.node lr b rr).inorder = a :: r'.inorder ∧ Linked first links none (c.plug (.node l n r')) := by
  have hr := (linked_plug.1 h).2.2.2.2.2
  have hf' : (BinTree.node lr b rr).inorder.length ≤ d.fuel := by
    rw [inorder_plug_node] at hf
    simp only [length_append, length_cons] at hf
    omega
  obtain ⟨cm, a, ar, heq, hbefore, hwalk⟩ := hr.leftmost_spec hf'
  -- the context of the least node in the whole tree
  set up := cm.append (.right l n c) with hup
  have hplug t : up.plug t = c.plug (.node l n (cm.plug t)) := by
    rw [Ctx.plug_append]
    rfl
  have htop : up ≠ .top := by
    cases cm <;> nofun
  rw [heq, ← hplug] at h hn hroot
  obtain ⟨hc, hp, -, hright, -, har⟩ := linked_plug.1 h
  have hne := first_ne_of_nodup hn
  obtain ⟨p, hpar⟩ : ∃ p, up.parent first = some p := by
    cases hup' : up with
    | top => exact absurd hup' htop
    | left a r up => exact ⟨_, rfl⟩
    | right l a up => exact ⟨_, rfl⟩
  have hnotroot : some a.first ≠ d.root := by
    rw [hroot, root_plug_of_ne_top htop _ .leaf]
    intro heq'
    obtain ⟨e, he, hea⟩ := root_mem heq'.symm
    simp only [Ctx.inorder_plug, BinTree.inorder, append_nil] at he
    exact hne e he hea.symm
  refine ⟨a, cm.plug ar, d.mem.links.graft first up (ar.root first), ?_, ?_, ?_⟩
  · rw [Dict.removeTreeMinimum, hwalk]
    simp only [Option.bind_eq_bind, Option.bind_some, if_pos hnotroot, hp, hpar, hright, Option.pure_def,
      graft_eq_ite_left hc hne hpar]
  · rw [heq, Ctx.inorder_plug, Ctx.inorder_plug, hbefore]
    rfl
  · rw [← hplug]
    refine linked_graft hc har (apart_of_nodup (hn.sublist (List.Sublist.map _ ?_)))
    rw [Ctx.inorder_plug, Ctx.inorder_plug]
    exact ((sublist_cons_self a ar.inorder).append_left _).append_right _

lemma repairTree_spec (h : Linked first d.mem.links none (c.plug (.node l n r)))
    (hn : ((c.plug (.node l n r)).inorder.map first).Nodup)
    (hroot : d.root = (c.plug (.node l n r)).root first) (hf : (c.plug (.node l n r)).inorder.length ≤ d.fuel) :
    ∃ t links, d.repairTree n.first = some { d with root := t.root first, mem := { d.mem with links := links } } ∧
      Linked first links none t ∧ t.inorder = (c.before ++ l.inorder) ++ (r.inorder ++ c.after) := by
  obtain ⟨hc, hp, hl, hr, hlt, hrt⟩ := linked_plug.1 h
  have hne := first_ne_of_nodup hn
  have hin := inorder_plug_node c l r n
  cases l with
  | leaf =>
    have ha : Apart first c r := by
      refine apart_of_nodup (hn.sublist (List.Sublist.map _ ?_))
      rw [hin, Ctx.inorder_plug]
      simp [BinTree.inorder]
    refine ⟨c.plug r, _, ?_, linked_graft hc hrt ha, ?_⟩
    · rw [Dict.repairTree, hl, hr]
      exact congrArg some (replaceChild_spec hc hp hne hroot r)
    · rw [Ctx.inorder_plug]
      simp [BinTree.inorder]
  | node ll b lr =>
    cases r with
    | leaf =>
      have ha : Apart first c (.node ll b lr) := by
        refine apart_of_nodup (hn.sublist (List.Sublist.map _ ?_))
        rw [hin, Ctx.inorder_plug]
        simp [BinTree.inorder]
      refine ⟨c.plug (.node ll b lr), _, ?_, linked_graft hc hlt ha, ?_⟩
      · rw [Dict.repairTree, hl, hr]
        exact congrArg some (replaceChild_spec hc hp hne hroot (.node ll b lr))
      · rw [Ctx.inorder_plug]
        simp [BinTree.inorder]
    | node rl e rr =>
      obtain ⟨a, r', links, hmin, heq, hlinks⟩ := removeTreeMinimum_spec h hn hroot hf
      obtain ⟨hc1, hp1, hl1, hr1, hlt1, hrt1⟩ := linked_plug.1 hlinks
      have hsub : (c.plug (.node (.node ll b lr) a r')).inorder.Sublist
          (c.plug (.node (.node ll b lr) n (.node rl e rr))).inorder := by
        rw [hin, inorder_plug_node, heq]
        exact (sublist_cons_self n _).append_left _
      have hothers : ∀ b' ∈ (c.before ++ (BinTree.node ll b lr).inorder) ++ ((BinTree.node rl e rr).inorder ++ c.after),
          b'.first ≠ n.first := by
        rw [hin] at hn
        exact fun b' => ne_of_nodup_middle hn
      have hna : n.first ≠ a.first := (hothers a (by simp [heq])).symm
      have hbn : some b.first ≠ some n.first := fun heq' => hothers b (by simp [BinTree.inorder]) (Option.some.inj heq')
      have hroot1 : d.root = (c.plug (.node (.node ll b lr) n r')).root first :=
        hroot.trans (root_plug_congr c (.node _ n _) (.node _ n r') rfl)
      have hreplace := replaceChild_spec (d := { d with mem := { d.mem with links := links } }) hc1 hp1 hne hroot1
        (.node (.node ll b lr) a r')
      -- the node that goes still has its children
      obtain ⟨-, hl2, hr2⟩ := agreeAt_graft (s := links) hne (fun heq' => hna (Option.some.inj heq').symm)
      obtain ⟨-, -, hr3⟩ := agreeAt_setLeft (s := links.graft first c (some a.first)) hna hbn
      refine ⟨c.plug (.node (.node ll b lr) a r'), _, ?_,
        linked_graft_node hc1 hlt1 hrt1 (apart_of_nodup (hn.sublist (hsub.map _))), ?_⟩
      · rw [Dict.repairTree, hl, hr]
        simp only [BinTree.root, hmin, Option.bind_eq_bind, Option.bind_some, Option.pure_def] at hreplace ⊢
        rw [hreplace]
        simp only [hl2, hl1, BinTree.root, hr3, hr2, hr1]
      · rw [inorder_plug_node, heq]
        rfl

end

end Rolp.Dictionary
