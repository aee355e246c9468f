import Rolp.Dictionary.Insert

/-!
# Taking a chunk out of its list

`remove_chunk_replace_if_needed`.
-/

namespace Rolp.Dictionary

open Lib (Chain)
open Lib.LinkedTree Function List Option Node Mem Dict

section
variable {m : Mem} {size : Nat} {first x tc : Addr} {rest : List Addr} {n : Node}

def emptied (m : Mem) (first : Addr) : Mem :=
  { m with
    tail := update m.tail first none
    head := update m.head first none
    count := update m.count first (m.count first - 1) }

lemma Node.Held.remove_only (h : Node.Held m ⟨size, first, []⟩) :
    m.removeChunkReplaceIfNeeded first first = some (emptied m first, first) ∧ (emptied m first).count first = 0 := by
  have hhead : m.head first = some first := h.head
  have hnext : m.next first = none := h.chain.forward.2
  have hcount : m.count first = 1 := h.count
  constructor
  · simp only [removeChunkReplaceIfNeeded, hhead, hnext, bind_eq_bind, bind_some, if_pos, Option.pure_def]
    rfl
  · simp [emptied, hcount]

lemma sameAt_emptied {y} (hy : y ≠ first) : SameAt m (emptied m first) y := by constructor <;> simp [emptied, hy]

lemma setLists_spec (m : Mem) (retTL : Addr) {a : Option Addr} {l : List Addr} (h : Lib.Linked m.next a l)
    {fuel : Nat} (hf : l.length < fuel) :
    ∃ list, m.setLists retTL fuel a = some { m with list := list } ∧ (∀ y ∈ l, list y = some retTL) ∧
      ∀ y, y ∉ l → list y = m.list y := by
  induction l generalizing m a fuel with
  | nil =>
    cases fuel with
    | zero => cases hf
    | succ fuel =>
      obtain rfl := h
      exact ⟨m.list, rfl, nofun, fun y _ => rfl⟩
  | cons i l ih =>
    cases fuel with
    | zero => cases hf
    | succ fuel =>
      obtain ⟨rfl, hl⟩ := h
      obtain ⟨list, heq, hin, hout⟩ := ih { m with list := update m.list i (some retTL) } hl
        (Nat.lt_of_succ_lt_succ hf)
      refine ⟨list, heq, fun y hy => ?_, fun y hy => ?_⟩
      · by_cases hyl : y ∈ l
        · exact hin y hyl
        · obtain rfl : y = i := (mem_cons.1 hy).resolve_right hyl
          rw [hout y hyl]
          exact update_self _ _ _
      · rw [mem_cons, not_or] at hy
        rw [hout y hy.2]
        exact update_of_ne hy.1 _ _

/-- The memory after the list has moved from `first` to the next chunk `x`. -/
def moved (m : Mem) (first x : Addr) (list : Addr → Option Addr) : Mem :=
  let m := { m.setEmbeddedList x first with list := list }
  let m := ({ m with links := replaceNode m.links first x } : Mem).linkHead x x
  { m with count := update m.count x (m.count x - 1) }

lemma Node.Held.remove_first (h : Node.Held m ⟨size, first, x :: rest⟩) (hnd : (first :: x :: rest).Nodup) :
    ∃ list, m.removeChunkReplaceIfNeeded first first = some (moved m first x list, x) ∧
      Node.Held (moved m first x list) ⟨size, x, rest⟩ ∧
      ∀ y, y ∉ first :: x :: rest → SameAt m (moved m first x list) y := by
  have hhead : m.head first = some first := h.head
  have hnext : m.next first = some x := h.chain.forward.2.1
  have hcount : m.count first = rest.length + 2 := h.count
  have hfuel : (x :: rest).length < rest.length + 2 := Nat.lt_succ_self _
  have hforward : Lib.Linked m.next (some x) (x :: rest) := (h.chain.tail hnd).forward
  obtain ⟨list, hlist, hin, hout⟩ := setLists_spec (m.setEmbeddedList x first) x hforward hfuel
  refine ⟨list, ?_, ?_, fun y hy => ?_⟩
  · have hcount' : (m.setEmbeddedList x first).count x = rest.length + 2 := by simp [setEmbeddedList, hcount]
    simp only [removeChunkReplaceIfNeeded, hhead, hnext, hcount', hlist, bind_eq_bind, bind_some,
      if_pos, Option.pure_def]
    rfl
  · constructor
    · simp [moved, linkHead]
    · have htail : m.tail first = (first :: x :: rest).getLast? := h.tail
      simp [moved, linkHead, setEmbeddedList, htail, chunks]
    · have hsize : m.listSize first = size := h.listSize
      simp [moved, linkHead, setEmbeddedList, hsize]
    · simp [moved, linkHead, setEmbeddedList, hcount, chunks]
    · have hhint : m.hint first = 0 := h.hint
      simp [moved, linkHead, setEmbeddedList, hhint]
    · exact h.chain.tail hnd
    · exact fun y hy => h.sizes y (mem_cons_of_mem _ hy)
    · exact hin
  · have hyx : y ≠ x := fun heq => hy (by simp [heq])
    have hylist : list y = m.list y := hout y fun hmem => hy (mem_cons_of_mem _ hmem)
    constructor <;> simp [moved, linkHead, setEmbeddedList, hyx, hylist]

def unlinked (m : Mem) (first p : Addr) (q : Option Addr) : Mem :=
  let m := if q = none then m.linkTail first p else m
  let m := m.linkAfter p q
  { m with count := update m.count first (m.count first - 1) }

lemma sublist_without (first tc : Addr) (pre post) : (first :: (pre ++ post)).Sublist (first :: (pre ++ tc :: post)) :=
  ((sublist_cons_self tc post).append_left pre).cons_cons first

lemma Node.Held.remove_interior {pre post} (h : Node.Held m ⟨size, first, pre ++ tc :: post⟩)
    (hnd : (first :: (pre ++ tc :: post)).Nodup) :
    ∃ p ∈ first :: pre, m.removeChunkReplaceIfNeeded first tc = some (unlinked m first p post.head?, first) ∧
      Node.Held (unlinked m first p post.head?) ⟨size, first, pre ++ post⟩ := by
  obtain ⟨l, p, hlp⟩ : ∃ l p, first :: pre = l ++ [p] := by
    rcases eq_nil_or_concat (first :: pre) with hnil | ⟨l, p, hl⟩
    · cases hnil
    · exact ⟨l, p, by rw [hl, concat_eq_append]⟩
  have hbefore : first :: (pre ++ tc :: post) = l ++ p :: tc :: post := by
    rw [← cons_append, hlp, append_assoc]
    rfl
  have hafter : first :: (pre ++ post) = l ++ p :: post := by
    rw [← cons_append, hlp, append_assoc]
    rfl
  have hchain : Chain m.next m.prev (l ++ p :: tc :: post) := hbefore ▸ h.chain
  have hnd' : (l ++ p :: tc :: post).Nodup := hbefore ▸ hnd
  have hne : tc ≠ first := by
    rintro rfl
    exact (nodup_cons.1 hnd).1 (by simp)
  have hnext : m.next tc = post.head? := by
    have := hchain
    rw [← singleton_append, ← append_assoc] at this
    exact this.next_eq
  have hhead : m.head first = some first := h.head
  refine ⟨p, by rw [hlp]; simp, ?_, ?_⟩
  · simp only [removeChunkReplaceIfNeeded, hhead, hnext, hchain.prev_eq, if_neg hne, bind_eq_bind,
      bind_some, Option.pure_def]
    rfl
  have hunlink := hchain.unlink hnd'
  rw [← hafter] at hunlink
  have hsub := sublist_without first tc pre post
  have hcount : m.count first = (pre ++ tc :: post).length + 1 := h.count
  have htail : m.tail first = (first :: (pre ++ tc :: post)).getLast? := h.tail
  cases post with
  | nil =>
    refine ⟨h.head, ?_, h.listSize, ?_, h.hint, ?_, fun y hy => h.sizes y (hsub.subset hy),
      fun y hy => h.lists y (hsub.subset hy)⟩
    · rw [chunks, hafter, getLast?_concat]
      exact update_self _ _ _
    · simp [unlinked, linkTail, linkAfter, hcount, chunks]
    · simpa [unlinked, linkTail, linkAfter, Lib.linkPrev, chunks] using hunlink
  | cons q post =>
    refine ⟨h.head, ?_, h.listSize, ?_, h.hint, hunlink, fun y hy => h.sizes y (hsub.subset hy),
      fun y hy => h.lists y (hsub.subset hy)⟩
    · simp [unlinked, linkAfter, htail, chunks, getLast?_cons]
    · simp [unlinked, linkAfter, hcount, chunks, add_assoc]

lemma sameAt_unlinked {p y q} (hp : y ≠ p) (hfirst : y ≠ first) (hq : q ≠ some y) :
    SameAt m (unlinked m first p q) y := by
  cases q with
  | none => constructor <;> simp [unlinked, linkTail, linkAfter, hp, hfirst]
  | some q =>
    have hyq : y ≠ q := fun heq => hq (congrArg some heq.symm)
    constructor <;> simp [unlinked, linkAfter, hp, hfirst, hyq]

lemma unlinked_links (m first p q) : (unlinked m first p q).links = m.links := by
  cases q <;> rfl

lemma unlinked_size (m first p q) : (unlinked m first p q).size = m.size := by
  cases q <;> rfl

end

/-! ## Removing a chunk -/

open Option

section
variable {d : Dict} {t l r : BinTree Node} {c : Ctx Node} {n : Node} {size : Nat} {first x tc : Addr}
  {rest : List Addr}

lemma Shape.first_nodup {m root} (h : Shape m root t) : (t.inorder.map Node.first).Nodup :=
  chunks_first_nodup h.lists.nodup

structure Removed (d d' : Dict) (t t' : BinTree Node) (tc : Addr) : Prop where
  shape : Shape d'.mem d'.root t'
  size : d'.mem.size = d.mem.size
  totalSize : d'.totalSize = d.totalSize
  totalFreeBlocks : d'.totalFreeBlocks = d.totalFreeBlocks
  perm : (contents t.inorder).Perm ((tc, d.mem.size tc) :: contents t'.inorder)

lemma Shape.remove_only (h : Shape d.mem d.root (c.plug (.node l ⟨size, first, []⟩ r)))
    (hf : (c.plug (.node l ⟨size, first, []⟩ r)).inorder.length ≤ d.fuel) :
    ∃ d' t', d.unlinkChunk first = some d' ∧ Removed d d' (c.plug (.node l ⟨size, first, []⟩ r)) t' first := by
  have hlists := h.lists
  rw [inorder_plug_node] at hlists
  obtain ⟨hothers, hb, hheld⟩ := hlists.erase
  obtain ⟨hremove, hcount⟩ := hheld.remove_only
  have hsize : d.mem.size first = size := hheld.sizes first (first_mem _)
  obtain ⟨t', links, hrepair, hlinked, hin⟩ :=
    repairTree_spec (d := { d with mem := emptied d.mem first }) h.linked h.first_nodup h.root hf
  refine ⟨{ d with root := t'.root Node.first, mem := { emptied d.mem first with links := links } }, t', ?_,
    ⟨rfl, hlinked, ?_⟩, rfl, rfl, rfl, ?_⟩
  · have hroot : (if some first = d.root then some first else d.root) = d.root := ite_eq_right_iff.2 id
    have hlist : d.mem.list first = some first := hheld.lists first (first_mem _)
    simp only [unlinkChunk, hlist, hremove, hroot, hcount, hrepair, bind_eq_bind, bind_some, if_pos]
  · rw [hin]
    refine hothers.congr fun y hy => (sameAt_emptied ?_).trans (sameAt_links _ _ y)
    rintro rfl
    exact hb.disjoint y (first_mem _) hy
  · rw [hin, inorder_plug_node, hsize]
    exact contents_middle _ _ _

lemma Shape.remove_first (h : Shape d.mem d.root (c.plug (.node l ⟨size, first, x :: rest⟩ r))) :
    ∃ d' t', d.unlinkChunk first = some d' ∧ Removed d d' (c.plug (.node l ⟨size, first, x :: rest⟩ r)) t' first := by
  have hlists := h.lists
  rw [inorder_plug_node] at hlists
  obtain ⟨-, hb, hheld⟩ := hlists.erase
  have hnd : (first :: x :: rest).Nodup := hb.nodup
  obtain ⟨list, hremove, hheld', hsame⟩ := hheld.remove_first hnd
  have hsize : d.mem.size first = size := hheld.sizes first (Node.first_mem _)
  have hlists' : Lists (moved d.mem first x list) (c.plug (.node l ⟨size, x, rest⟩ r)).inorder := by
    rw [inorder_plug_node]
    exact hlists.replace rfl (nodup_cons.1 hnd).2 (fun y hy => .inl (mem_cons_of_mem _ hy)) hheld'
      fun y hy _ => hsame y hy
  refine ⟨{ d with mem := moved d.mem first x list, root := if some first = d.root then some x else d.root },
    c.plug (.node l ⟨size, x, rest⟩ r), ?_, ⟨?_, ?_, hlists'⟩, rfl, rfl, rfl, ?_⟩
  · have hlist : d.mem.list first = some first := hheld.lists first (Node.first_mem _)
    have hcount : (moved d.mem first x list).count x = rest.length + 1 := hheld'.count
    simp only [unlinkChunk, hlist, hremove, hcount, Nat.succ_ne_zero, bind_eq_bind, bind_some, if_false]
  · by_cases htop : c = .top
    · subst htop
      exact if_pos h.root.symm
    have hne : some first ≠ d.root := by
      rw [h.root, root_plug_of_ne_top htop _ .leaf]
      intro heq
      obtain ⟨b, hb, hbf⟩ := root_mem heq.symm
      simp only [Ctx.inorder_plug, BinTree.inorder, append_nil] at hb
      exact first_ne_of_nodup h.first_nodup b hb hbf.symm
    rw [if_neg hne, h.root]
    exact root_plug_of_ne_top htop _ _
  · exact linked_replaceNode d.mem h.linked h.first_nodup (chunks_first_nodup hlists'.nodup)
  · rw [inorder_plug_node, inorder_plug_node, hsize]
    exact (contents_middle _ _ _).trans ((contents_middle _ _ ⟨size, x, rest⟩).symm.cons _)

lemma Shape.remove_interior {pre post} (h : Shape d.mem d.root (c.plug (.node l ⟨size, first, pre ++ tc :: post⟩ r))) :
    ∃ d' t', d.unlinkChunk tc = some d' ∧ Removed d d' (c.plug (.node l ⟨size, first, pre ++ tc :: post⟩ r)) t' tc := by
  have hlists := h.lists
  rw [inorder_plug_node] at hlists
  obtain ⟨-, hb, hheld⟩ := hlists.erase
  have hnd : (first :: (pre ++ tc :: post)).Nodup := hb.nodup
  obtain ⟨p, hp, hremove, hheld'⟩ := hheld.remove_interior hnd
  have htc : tc ∈ Node.chunks ⟨size, first, pre ++ tc :: post⟩ := by simp [Node.chunks]
  have hsize : d.mem.size tc = size := hheld.sizes tc htc
  have hsub := sublist_without first tc pre post
  have hlists' : Lists (unlinked d.mem first p post.head?) (c.plug (.node l ⟨size, first, pre ++ post⟩ r)).inorder := by
    rw [inorder_plug_node]
    refine hlists.replace rfl (hnd.sublist hsub) (fun y hy => .inl (hsub.subset hy)) hheld' fun y hy _ => ?_
    refine sameAt_unlinked ?_ (fun heq => hy (heq ▸ first_mem _)) fun heq => hy ?_
    · rintro rfl
      exact hy (mem_append_left _ hp)
    · have hmem : y ∈ post := mem_of_head? heq
      simp [Node.chunks, hmem]
  refine ⟨{ d with mem := unlinked d.mem first p post.head? }, c.plug (.node l ⟨size, first, pre ++ post⟩ r), ?_,
    ⟨?_, ?_, hlists'⟩, unlinked_size _ _ _ _, rfl, rfl, ?_⟩
  · have hlist : d.mem.list tc = some first := hheld.lists tc htc
    have hcount : (unlinked d.mem first p post.head?).count first = (pre ++ post).length + 1 := hheld'.count
    have hroot : (if some first = d.root then some first else d.root) = d.root := ite_eq_right_iff.2 id
    simp only [unlinkChunk, hlist, hremove, hroot, hcount, Nat.succ_ne_zero, bind_eq_bind, bind_some, if_false]
  · exact h.root.trans (root_plug_congr c (.node l ⟨size, first, pre ++ tc :: post⟩ r) _ rfl)
  · rw [unlinked_links]
    exact linked_plug_congr h.linked rfl
  · rw [inorder_plug_node, inorder_plug_node, hsize]
    refine (contents_middle _ _ _).trans (List.Perm.trans ?_ ((contents_middle _ _ _).symm.cons _))
    rw [← cons_append]
    refine List.Perm.append_right _ ?_
    have hperm : (first :: (pre ++ tc :: post)).Perm (tc :: first :: (pre ++ post)) :=
      (perm_middle.cons first).trans (List.Perm.swap _ _ _)
    exact hperm.map fun y => (y, size)

lemma Represents.remove (h : Represents d t) (htc : tc ∈ chunks t.inorder) :
    ∃ d' t', d.removeChunkFromTree tc = some d' ∧ Represents d' t' ∧
      (contents t.inorder).Perm ((tc, d.mem.size tc) :: contents t'.inorder) := by
  suffices hunlink : ∃ d' t', d.unlinkChunk tc = some d' ∧ Removed d d' t t' tc by
    obtain ⟨d', t', heq, hr⟩ := hunlink
    refine ⟨{ d' with totalSize := d'.totalSize - d'.mem.size tc, totalFreeBlocks := d'.totalFreeBlocks - 1 }, t', ?_,
      ⟨hr.shape, ?_, ?_⟩, hr.perm⟩
    · rw [removeChunkFromTree, heq]
      rfl
    · have htotal := h.totalSize
      rw [(hr.perm.map Prod.snd).sum_eq, map_cons, sum_cons] at htotal
      simp only [hr.totalSize, hr.size, htotal, Nat.add_sub_cancel_left]
    · have htotal := h.totalFreeBlocks
      rw [hr.perm.length_eq, length_cons] at htotal
      simp only [hr.totalFreeBlocks, htotal, Nat.add_sub_cancel]
  obtain ⟨n, hn, htcn⟩ := mem_chunks.1 htc
  obtain ⟨c, l, r, hplug⟩ := BinTree.exists_ctx hn .top
  subst hplug
  obtain ⟨size, first, rest⟩ := n
  by_cases hfirst : tc = first
  · subst hfirst
    cases rest with
    | nil => exact h.shape.remove_only (Nat.le_of_lt h.fuel_gt)
    | cons x rest => exact h.shape.remove_first
  · have hrest : tc ∈ rest := (mem_cons.1 htcn).resolve_left hfirst
    obtain ⟨pre, post, rfl⟩ := append_of_mem hrest
    exact h.shape.remove_interior

end

/-!
## Getting a chunk of a size

The search for a size ends at its list or leaves the tree; the way back up then leads to the next larger size.
-/

def Dither.Fits (dither : Dither) (size s : Nat) : Prop :=
  match dither with
  | .exactly => s = size
  | .atLeast => size ≤ s
  | .roughly => size ≤ s

instance (dither : Dither) (size s : Nat) : Decidable (dither.Fits size s) :=
  match dither with
  | .exactly => inferInstanceAs (Decidable (s = size))
  | .atLeast => inferInstanceAs (Decidable (size ≤ s))
  | .roughly => inferInstanceAs (Decidable (size ≤ s))

lemma Dither.fits_self (dither : Dither) (size : Nat) : dither.Fits size size := by
  cases dither <;> simp [Fits]

lemma Dither.Fits.le {dither : Dither} {size s : Nat} (h : dither.Fits size s) : size ≤ s := by
  cases dither with
  | exactly => exact Nat.le_of_eq h.symm
  | atLeast => exact h
  | roughly => exact h

lemma Dither.fits_of_ne_exactly {dither : Dither} (hd : dither ≠ .exactly) {size s : Nat} (h : size ≤ s) :
    dither.Fits size s := by
  cases dither with
  | exactly => exact absurd rfl hd
  | atLeast => exact h
  | roughly => exact h

section
variable {d : Dict} {t : BinTree Node} {n : Node} {size : Nat} {dither : Dither}

lemma getBetterList_eq (hn : n.Held d.mem) (adaptive) : d.getBetterList adaptive n.first = some (d, n.first) := by
  unfold getBetterList
  split
  · rw [fuel, followHints, if_pos hn.hint]
  · rfl

lemma firstAvailable_spec (hn : n.Held d.mem) : ∃ a ∈ n.chunks, d.mem.firstAvailable n.first = some a := by
  obtain ⟨size, first, rest⟩ := n
  have hhead : d.mem.head first = some first := hn.head
  have hnext : d.mem.next first = rest.head? := hn.chain.forward.2.head_eq
  cases rest with
  | nil => exact ⟨first, by simp [Node.chunks], by simp [firstAvailable, hhead, hnext]⟩
  | cons x rest => exact ⟨x, by simp [Node.chunks], by simp [firstAvailable, hhead, hnext]⟩

def Found (nodes : List Node) (dither : Dither) (size : Nat) : Option Node → Prop
  | none => ∀ n ∈ nodes, ¬ dither.Fits size n.size
  | some n => n ∈ nodes ∧ dither.Fits size n.size ∧ ∀ n' ∈ nodes, dither.Fits size n'.size → n.size ≤ n'.size

/-- The two walks of `get_chunk_from_tree`. -/
def Dict.findFit (d : Dict) (size : Nat) (dither : Dither) : Option (Option Addr) := do
  let (curTL, prevTL) ← d.mem.links.search d.mem.listSize size d.fuel d.root d.root
  if curTL = none ∧ dither = .exactly then return none
  else if curTL = none then d.mem.links.climb d.mem.listSize size d.fuel prevTL
  else return curTL

lemma Represents.findFit_spec (h : Represents d t) (size : Nat) (dither : Dither) :
    ∃ n?, d.findFit size dither = some (n?.map first) ∧ Found t.inorder dither size n? := by
  have hshape := h.shape
  obtain ⟨c, t0, last, hplug, hsearch, haround, hcases⟩ := search_spec (k := size) t .top hshape.linked
    hshape.keys_sorted ⟨by simp [Ctx.before], by simp [Ctx.after]⟩ d.fuel h.fuel_gt (t.root first)
    (by rintro rfl; rfl)
  subst hplug
  rw [← hshape.root] at hsearch
  rcases hcases with ⟨rfl, rfl⟩ | ⟨l, n, r, rfl, hkey⟩
  · have hin : (c.plug .leaf).inorder = c.before ++ c.after := by simp [Ctx.inorder_plug, BinTree.inorder]
    have hsize n (hn : n ∈ c.before ++ c.after) : d.mem.listSize n.first = n.size :=
      (hshape.lists.held n (hin ▸ hn)).listSize
    have hbefore (n : Node) (hn : n ∈ c.before) : n.size < size := hsize n (by simp [hn]) ▸ haround.before n hn
    have hafter (n : Node) (hn : n ∈ c.after) : size < n.size := hsize n (by simp [hn]) ▸ haround.after n hn
    rw [hin]
    by_cases hd : dither = .exactly
    · refine ⟨none, by simp [findFit, hsearch, BinTree.root, hd], fun n hn hfits => ?_⟩
      subst hd
      have heq : n.size = size := hfits
      rcases mem_append.1 hn with hn | hn
      · have := hbefore n hn
        omega
      · have := hafter n hn
        omega
    have hf : (c.before ++ c.after).length < d.fuel := hin ▸ h.fuel_gt
    refine ⟨c.after.head?, ?_, ?_⟩
    · rw [findFit, hsearch]
      simp only [bind_eq_bind, bind_some, BinTree.root, true_and, if_neg hd, if_true]
      exact climb_spec (linked_plug.1 hshape.linked).1 haround d.fuel hf
    have hsorted := hshape.lists.sorted
    rw [hin] at hsorted
    cases hca : c.after with
    | nil =>
      intro n hn hfits
      rw [append_nil] at hn
      have := hbefore n hn
      have := hfits.le
      omega
    | cons n rest =>
      rw [hca, map_append, pairwise_append] at hsorted
      have hn := hafter n (by simp [hca])
      refine ⟨by simp, Dither.fits_of_ne_exactly hd (Nat.le_of_lt hn), fun n' hn' hfits => ?_⟩
      rcases List.mem_append.1 hn' with hn' | hn'
      · have := hbefore n' hn'
        have := hfits.le
        omega
      · rcases List.mem_cons.1 hn' with rfl | hn'
        · exact Nat.le_refl _
        · exact Nat.le_of_lt ((List.pairwise_cons.1 hsorted.2.1).1 _ (List.mem_map_of_mem hn'))
  · have hmem : n ∈ (c.plug (.node l n r)).inorder := by simp [inorder_plug_node]
    have hsize : n.size = size := (hshape.lists.held n hmem).listSize.symm.trans hkey
    refine ⟨some n, by simp [findFit, hsearch, BinTree.root], hmem, hsize ▸ dither.fits_self _, ?_⟩
    exact fun n' _ hfits => hsize ▸ hfits.le

lemma getChunkFromTree_eq (d : Dict) (adaptive : Bool) (size : Nat) (dither : Dither) :
    d.getChunkFromTree adaptive size dither = (d.findFit size dither).bind fun curTL => match curTL with
      | none => some (d, none)
      | some curTL => (d.getBetterList adaptive curTL).bind fun (d, curTL) =>
        (d.mem.firstAvailable curTL).bind fun retTC =>
          (d.removeChunkFromTree retTC).bind fun d => some (d, some retTC) := by
  unfold getChunkFromTree findFit
  cases d.mem.links.search d.mem.listSize size d.fuel d.root d.root with
  | none => rfl
  | some res =>
    obtain ⟨curTL, prevTL⟩ := res
    simp only [bind_eq_bind, bind_some, Option.pure_def]
    split
    · rfl
    · cases curTL <;> rfl

lemma Represents.get (h : Represents d t) (adaptive : Bool) (size : Nat) (dither : Dither) :
    (d.getChunkFromTree adaptive size dither = some (d, none) ∧ Found t.inorder dither size none) ∨
      ∃ n a d' t', Found t.inorder dither size (some n) ∧ a ∈ n.chunks ∧
        d.getChunkFromTree adaptive size dither = some (d', some a) ∧ Represents d' t' ∧
        (contents t.inorder).Perm ((a, n.size) :: contents t'.inorder) := by
  obtain ⟨n?, hfind, hfound⟩ := h.findFit_spec size dither
  rw [getChunkFromTree_eq, hfind]
  cases n? with
  | none => exact .inl ⟨rfl, hfound⟩
  | some n =>
    have hn := h.shape.lists.held n hfound.1
    obtain ⟨a, ha, havail⟩ := firstAvailable_spec hn
    obtain ⟨d', t', hremove, hr, hperm⟩ := h.remove (mem_chunks.2 ⟨n, hfound.1, ha⟩)
    refine .inr ⟨n, a, d', t', hfound, ha, ?_, hr, hn.sizes a ha ▸ hperm⟩
    simp only [map_some, bind_some, getBetterList_eq hn, havail, hremove]

end

end Rolp.Dictionary
