import Rolp.Lib.LinkedTree
import Mathlib.Algebra.Ring.Nat
import Rolp.Lib.LinkedSlots

/-!
# The dictionary of free blocks

`TreeList` and `BinaryTreeDictionary` of `binaryTreeDictionary.cpp`. The header of a list is embedded in its first
chunk, so a `TreeList*` is the address of that chunk. Memory is one function for each field. `none` is a loop that has
not ended or a null pointer that is followed. Assignments under `debug_only` are left out.
-/

namespace Rolp.Dictionary

open Lib.LinkedTree Function

abbrev Addr := Nat

structure Mem where
  size : Addr → Nat
  prev : Addr → Option Addr
  next : Addr → Option Addr
  list : Addr → Option Addr
  /-- the fields of the list that is embedded in a chunk: `_parent`, `_left` and `_right` -/
  links : Links Addr
  head : Addr → Option Addr
  tail : Addr → Option Addr
  listSize : Addr → Nat
  count : Addr → Nat
  /-- the fields of an `AdaptiveFreeList` that `get_better_list` reads -/
  hint : Addr → Nat
  surplus : Addr → Int

structure Dict where
  mem : Mem
  root : Option Addr
  totalSize : Nat
  totalFreeBlocks : Nat

inductive Dither where
  | atLeast
  | exactly
  | roughly
  deriving DecidableEq

namespace Mem

variable (m : Mem)

/-- `link_after`: `chunk` follows `fc`. -/
def linkAfter (fc : Addr) (chunk : Option Addr) : Mem :=
  let m := { m with next := update m.next fc chunk }
  match chunk with
  | none => m
  | some chunk => { m with prev := update m.prev chunk (some fc) }

def linkHead (tl chunk : Addr) : Mem :=
  { m with head := update m.head tl (some chunk), prev := update m.prev chunk none }

def linkTail (tl chunk : Addr) : Mem :=
  { m with tail := update m.tail tl (some chunk), next := update m.next chunk none }

/-- `TreeList::initialize` -/
def initializeList (tl : Addr) : Mem :=
  { m with
    links :=
      { parent := update m.links.parent tl none
        left := update m.links.left tl none
        right := update m.links.right tl none }
    head := update m.head tl none
    tail := update m.tail tl none
    count := update m.count tl 0
    listSize := update m.listSize tl 0
    hint := update m.hint tl 0
    surplus := update m.surplus tl 0 }

/-- `as_TreeList`: the chunk becomes a list of its own. -/
def asTreeList (tc : Addr) : Mem :=
  let m := m.initializeList tc
  let m := { m with list := update m.list tc (some tc) }
  let m := { m with listSize := update m.listSize tc (m.size tc) }
  let m := m.linkHead tc tc
  let m := m.linkTail tc tc
  { m with count := update m.count tc 1 }

def returnChunkAtTail (tl chunk : Addr) : Option Mem := do
  let fc ← m.tail tl
  let m := m.linkAfter fc (some chunk)
  let m := m.linkTail tl chunk
  return { m with count := update m.count tl (m.count tl + 1) }

/-- `first_available`: the chunk after the head, or the head if it is alone. -/
def firstAvailable (tl : Addr) : Option Addr := do
  let head ← m.head tl
  match m.next head with
  | none => return head
  | some fc => return fc

/-- The embedded list of `tc` is copied into `nextTC`. -/
def setEmbeddedList (nextTC tc : Addr) : Mem :=
  { m with
    links :=
      { parent := update m.links.parent nextTC (m.links.parent tc)
        left := update m.links.left nextTC (m.links.left tc)
        right := update m.links.right nextTC (m.links.right tc) }
    head := update m.head nextTC (m.head tc)
    tail := update m.tail nextTC (m.tail tc)
    count := update m.count nextTC (m.count tc)
    listSize := update m.listSize nextTC (m.listSize tc)
    hint := update m.hint nextTC (m.hint tc)
    surplus := update m.surplus nextTC (m.surplus tc) }

/-- The loop that lets the chunks from `curTC` on know their list. -/
def setLists (m : Mem) (retTL : Addr) : Nat → Option Addr → Option Mem
  | 0, _ => none
  | _ + 1, none => some m
  | fuel + 1, some curTC =>
    ({ m with list := update m.list curTC (some retTL) } : Mem).setLists retTL fuel (m.next curTC)

variable (links : Links Addr) (tl retTL : Addr)

/-- The parent of `tl` points to the list `retTL`, which is a copy of `tl`. -/
def fixParent : Links Addr :=
  match links.parent retTL with
  | none => links
  | some parent =>
    if links.left parent = some tl then links.setLeft parent (some retTL) else links.setRight parent (some retTL)

def replaceNode : Links Addr :=
  let links := fixParent links tl retTL
  let links := links.setParent (links.right retTL) (some retTL)
  links.setParent (links.left retTL) (some retTL)

/-- `remove_chunk_replace_if_needed`: the list without `tc`, which may have moved to another chunk. -/
def removeChunkReplaceIfNeeded (tl tc : Addr) : Option (Mem × Addr) := do
  let list ← m.head tl
  let (m, retTL) ←
    if tc = list then
      match m.next tc with
      | none => some ({ m with tail := update m.tail tl none, head := update m.head tl none }, tl)
      | some nextTC => do
        let m := m.setEmbeddedList nextTC tc
        let m ← m.setLists nextTC (m.count nextTC) (some nextTC)
        let m := { m with links := replaceNode m.links tl nextTC }
        pure (m.linkHead nextTC nextTC, nextTC)
    else do
      let prevFC ← m.prev tc
      let nextTC := m.next tc
      let m := if nextTC = none then m.linkTail tl prevFC else m
      pure (m.linkAfter prevFC nextTC, tl)
  return ({ m with count := update m.count retTL (m.count retTL - 1) }, retTL)

end Mem

namespace Dict

variable (d : Dict)

def fuel : Nat := d.totalFreeBlocks + 1

def findList (size : Nat) : Option (Option Addr) := do
  let (curTL, _) ← d.mem.links.search d.mem.listSize size d.fuel d.root d.root
  return curTL

/-- The part of `insert_chunk_in_tree` after the search: the chunk joins the list `curTL`, or becomes a new node below
`prevTL`. -/
def linkChunk (fc : Addr) (curTL prevTL : Option Addr) : Option Dict :=
  let m := d.mem.initializeList fc
  match curTL with
  | some curTL => do
    let m := { m with list := update m.list fc (some curTL) }
    let m ← m.returnChunkAtTail curTL fc
    return { d with mem := m }
  | none =>
    let m := { m with next := update m.next fc none, prev := update m.prev fc none }
    let m := m.asTreeList fc
    match prevTL with
    | none => some { d with mem := m, root := some fc }
    | some prevTL =>
      if m.listSize prevTL < m.size fc then some { d with mem := { m with links := m.links.setRight prevTL (some fc) } }
      else some { d with mem := { m with links := m.links.setLeft prevTL (some fc) } }

def insertChunkInTree (fc : Addr) : Option Dict := do
  let size := d.mem.size fc
  let m := { d.mem with next := update d.mem.next fc none, prev := update d.mem.prev fc none }
  let (curTL, prevTL) ← m.links.search m.listSize size d.fuel d.root d.root
  let d ← ({ d with mem := m } : Dict).linkChunk fc curTL prevTL
  return { d with totalSize := d.totalSize + size, totalFreeBlocks := d.totalFreeBlocks + 1 }

/-- `remove_tree_minimum`: the least node below `tl` is unlinked from its parent. -/
def removeTreeMinimum (tl : Addr) : Option (Dict × Addr) := do
  let curTL ← d.mem.links.leftmost d.fuel tl
  if some curTL ≠ d.root then
    let parentTL ← d.mem.links.parent curTL
    let links :=
      if d.mem.links.left parentTL = some curTL then d.mem.links.setLeft parentTL (d.mem.links.right curTL)
      else d.mem.links.setRight parentTL (d.mem.links.right curTL)
    return ({ d with mem := { d.mem with links := links } }, curTL)
  else return ({ d with root := none }, curTL)

def replaceChild (tl : Addr) (newTL : Option Addr) : Dict :=
  match d.mem.links.parent tl with
  | none => { d with root := newTL, mem := { d.mem with links := d.mem.links.setParent newTL none } }
  | some parentTL =>
    { d with
      mem :=
        { d.mem with
          links :=
            if d.mem.links.right parentTL = some tl then d.mem.links.setRight parentTL newTL
            else d.mem.links.setLeft parentTL newTL } }

/-- The tree without its node `tl`, whose list is empty. -/
def repairTree (tl : Addr) : Option Dict :=
  match d.mem.links.left tl, d.mem.links.right tl with
  | none, right => some (d.replaceChild tl right)
  | some left, none => some (d.replaceChild tl (some left))
  | some _, some right => do
    let (d, newTL) ← d.removeTreeMinimum right
    let d := d.replaceChild tl (some newTL)
    let links := d.mem.links.setLeft newTL (d.mem.links.left tl)
    let links := links.setRight newTL (links.right tl)
    return { d with mem := { d.mem with links := links } }

/-- The part of `remove_chunk_from_tree` before the counters. -/
def unlinkChunk (tc : Addr) : Option Dict := do
  let tl ← d.mem.list tc
  let (m, replacementTL) ← d.mem.removeChunkReplaceIfNeeded tl tc
  let d := { d with mem := m, root := if some tl = d.root then some replacementTL else d.root }
  if d.mem.count replacementTL = 0 then d.repairTree replacementTL else some d

def removeChunkFromTree (tc : Addr) : Option Dict := do
  let d ← d.unlinkChunk tc
  return { d with totalSize := d.totalSize - d.mem.size tc, totalFreeBlocks := d.totalFreeBlocks - 1 }

/-- The loop of `get_better_list` for an `AdaptiveFreeList`: the hints are followed to a list with
a surplus. -/
def followHints (d : Dict) (curTL : Addr) : Nat → Addr → Option (Dict × Addr)
  | 0, _ => none
  | fuel + 1, hintTL =>
    if d.mem.hint hintTL = 0 then some (d, curTL)
    else do
      match ← d.findList (d.mem.hint hintTL) with
      | none => return ({ d with mem := { d.mem with hint := update d.mem.hint curTL 0 } }, curTL)
      | some hintTL =>
        if hintTL = curTL then
          return ({ d with mem := { d.mem with hint := update d.mem.hint curTL 0 } }, curTL)
        else if d.mem.surplus hintTL > 0 then
          return ({ d with mem := { d.mem with hint := update d.mem.hint curTL (d.mem.listSize hintTL) } }, hintTL)
        else d.followHints curTL fuel hintTL

/-- `get_better_list`; only the specialisation for `AdaptiveFreeList` looks for another list. -/
def getBetterList (adaptive : Bool) (curTL : Addr) : Option (Dict × Addr) :=
  if adaptive && decide (d.mem.surplus curTL ≤ 0) then d.followHints curTL d.fuel curTL else some (d, curTL)

/-- The chunk of `get_chunk_from_tree`, if any, and the dictionary without it. -/
def getChunkFromTree (adaptive : Bool) (size : Nat) (dither : Dither) : Option (Dict × Option Addr) := do
  let (curTL, prevTL) ← d.mem.links.search d.mem.listSize size d.fuel d.root d.root
  if curTL = none ∧ dither = .exactly then return (d, none)
  else
    let curTL ← if curTL = none then d.mem.links.climb d.mem.listSize size d.fuel prevTL else some curTL
    match curTL with
    | none => return (d, none)
    | some curTL =>
      let (d, curTL) ← d.getBetterList adaptive curTL
      let retTC ← d.mem.firstAvailable curTL
      let d ← d.removeChunkFromTree retTC
      return (d, some retTC)

/-- The loop of `largest_address` from `fc` on. -/
def largestFrom (next : Addr → Option Addr) : Nat → Addr → Addr → Option Addr
  | 0, _, _ => none
  | fuel + 1, last, fc =>
    match next fc with
    | none => some last
    | some fc' => largestFrom next fuel (if last < fc then fc else last) fc'

def largestAddress (tl : Addr) : Option Addr := do
  let head ← d.mem.head tl
  match d.mem.next head with
  | none => return head
  | some fc => largestFrom d.mem.next d.fuel fc fc

def findLargestDict : Option (Option Addr) :=
  match d.root with
  | none => some none
  | some root => do
    let curTL ← d.mem.links.rightmost d.fuel root
    let tc ← d.largestAddress curTL
    return some tc

end Dict

/-! ## The shape of a dictionary -/

open Lib (Chain)
open Lib.LinkedTree List

structure Node where
  size : Nat
  first : Addr
  rest : List Addr

def Node.chunks (n : Node) : List Addr := n.first :: n.rest

lemma Node.first_mem (n : Node) : n.first ∈ n.chunks := mem_cons_self

structure Node.Held (m : Mem) (n : Node) : Prop where
  head : m.head n.first = some n.first
  tail : m.tail n.first = n.chunks.getLast?
  listSize : m.listSize n.first = n.size
  count : m.count n.first = n.chunks.length
  hint : m.hint n.first = 0
  chain : Chain m.next m.prev n.chunks
  sizes : ∀ x ∈ n.chunks, m.size x = n.size
  lists : ∀ x ∈ n.chunks, m.list x = some n.first

/-- Two memories agree on what a list keeps in the chunk `x`. -/
structure SameAt (m m' : Mem) (x : Addr) : Prop where
  size : m'.size x = m.size x
  prev : m'.prev x = m.prev x
  next : m'.next x = m.next x
  list : m'.list x = m.list x
  head : m'.head x = m.head x
  tail : m'.tail x = m.tail x
  listSize : m'.listSize x = m.listSize x
  count : m'.count x = m.count x
  hint : m'.hint x = m.hint x

variable {x : Addr}

lemma SameAt.trans {m1 m2 m3} (h : SameAt m1 m2 x) (h' : SameAt m2 m3 x) : SameAt m1 m3 x :=
  ⟨h'.size.trans h.size, h'.prev.trans h.prev, h'.next.trans h.next, h'.list.trans h.list, h'.head.trans h.head,
    h'.tail.trans h.tail, h'.listSize.trans h.listSize, h'.count.trans h.count, h'.hint.trans h.hint⟩

lemma sameAt_links (m links x) : SameAt m { m with links := links } x := ⟨rfl, rfl, rfl, rfl, rfl, rfl, rfl, rfl, rfl⟩

lemma Node.Held.congr {m m' : Mem} {n : Node} (h : n.Held m) (hs : ∀ x ∈ n.chunks, SameAt m m' x) : n.Held m' where
  head := (hs _ n.first_mem).head.trans h.head
  tail := (hs _ n.first_mem).tail.trans h.tail
  listSize := (hs _ n.first_mem).listSize.trans h.listSize
  count := (hs _ n.first_mem).count.trans h.count
  hint := (hs _ n.first_mem).hint.trans h.hint
  chain := h.chain.congr (fun x hx => (hs x hx).next) fun x hx => (hs x hx).prev
  sizes := fun x hx => (hs x hx).size.trans (h.sizes x hx)
  lists := fun x hx => (hs x hx).list.trans (h.lists x hx)

def chunks (nodes : List Node) : List Addr := nodes.flatMap Node.chunks

def contents (nodes : List Node) : List (Addr × Nat) := nodes.flatMap fun n => n.chunks.map fun x => (x, n.size)

@[simp] lemma chunks_append (xs ys) : chunks (xs ++ ys) = chunks xs ++ chunks ys := flatMap_append

@[simp] lemma chunks_cons (n ys) : chunks (n :: ys) = n.chunks ++ chunks ys := rfl

@[simp] lemma contents_append (xs ys) : contents (xs ++ ys) = contents xs ++ contents ys := flatMap_append

@[simp] lemma contents_cons (n ys) : contents (n :: ys) = (n.chunks.map fun x => (x, n.size)) ++ contents ys := rfl

lemma contents_map_fst (nodes) : (contents nodes).map Prod.fst = chunks nodes := by
  induction nodes with
  | nil => rfl
  | cons n nodes ih =>
    rw [contents_cons, map_append, map_map]
    congr 1
    exact map_id'' (fun _ => rfl) _

lemma mem_contents {nodes size} : (x, size) ∈ contents nodes ↔ ∃ n ∈ nodes, x ∈ n.chunks ∧ n.size = size := by
  simp [contents]

lemma mem_chunks {nodes} : x ∈ chunks nodes ↔ ∃ n ∈ nodes, x ∈ n.chunks := by simp [chunks]

lemma contents_middle (xs ys n) :
    (contents (xs ++ n :: ys)).Perm ((n.chunks.map fun x => (x, n.size)) ++ contents (xs ++ ys)) := by
  simp only [contents_append, contents_cons, ← append_assoc]
  exact List.Perm.append_right _ perm_append_comm

lemma length_le_chunks (nodes) : nodes.length ≤ (chunks nodes).length := by
  induction nodes with
  | nil => exact Nat.le_refl 0
  | cons n nodes ih =>
    rw [chunks_cons, length_append, Node.chunks, length_cons, length_cons]
    omega

structure Lists (m : Mem) (nodes : List Node) : Prop where
  sorted : (nodes.map Node.size).Pairwise (· < ·)
  nodup : (chunks nodes).Nodup
  held : ∀ n ∈ nodes, n.Held m

section
variable {m m' : Mem} {xs ys nodes : List Node} {n : Node}

lemma Lists.congr (h : Lists m nodes) (hs : ∀ x ∈ chunks nodes, SameAt m m' x) : Lists m' nodes :=
  ⟨h.sorted, h.nodup, fun n hn => (h.held n hn).congr fun x hx => hs x (mem_chunks.2 ⟨n, hn, hx⟩)⟩

structure Between (xs ys : List Node) (n : Node) : Prop where
  before : ∀ n' ∈ xs, n'.size < n.size
  after : ∀ n' ∈ ys, n.size < n'.size
  nodup : n.chunks.Nodup
  disjoint : ∀ x ∈ n.chunks, x ∉ chunks (xs ++ ys)

lemma nodup_middle_iff : (chunks (xs ++ n :: ys)).Nodup ↔
    n.chunks.Nodup ∧ (chunks (xs ++ ys)).Nodup ∧ ∀ x ∈ n.chunks, x ∉ chunks (xs ++ ys) := by
  have hperm : (chunks (xs ++ n :: ys)).Perm (n.chunks ++ chunks (xs ++ ys)) := by
    simp only [chunks_append, chunks_cons, ← append_assoc]
    exact List.Perm.append_right _ perm_append_comm
  rw [hperm.nodup_iff, nodup_append']
  exact .rfl

lemma Lists.erase (h : Lists m (xs ++ n :: ys)) : Lists m (xs ++ ys) ∧ Between xs ys n ∧ n.Held m := by
  have hs := h.sorted
  rw [map_append, map_cons, pairwise_append, pairwise_cons] at hs
  obtain ⟨hxs, ⟨hn, hys⟩, hlt⟩ := hs
  obtain ⟨hnc, hnd, hdis⟩ := nodup_middle_iff.1 h.nodup
  refine ⟨⟨?_, hnd, fun n' hn' => h.held n' ?_⟩, ⟨?_, ?_, hnc, hdis⟩, h.held n (by simp)⟩
  · rw [map_append, pairwise_append]
    exact ⟨hxs, hys, fun a ha b hb => hlt a ha b (mem_cons_of_mem _ hb)⟩
  · rcases mem_append.1 hn' with hn' | hn' <;> simp [hn']
  · exact fun n' hn' => hlt _ (mem_map_of_mem hn') _ mem_cons_self
  · exact fun n' hn' => hn _ (mem_map_of_mem hn')

lemma Lists.insert (h : Lists m (xs ++ ys)) (hb : Between xs ys n) (hn : n.Held m) : Lists m (xs ++ n :: ys) := by
  have hs := h.sorted
  rw [map_append, pairwise_append] at hs
  obtain ⟨hxs, hys, hlt⟩ := hs
  refine ⟨?_, nodup_middle_iff.2 ⟨hb.nodup, h.nodup, hb.disjoint⟩, fun n' hn' => ?_⟩
  · rw [map_append, map_cons, pairwise_append, pairwise_cons]
    refine ⟨hxs, ⟨?_, hys⟩, ?_⟩
    · intro s hs
      obtain ⟨n', hn', rfl⟩ := mem_map.1 hs
      exact hb.after n' hn'
    intro s hs s' hs'
    rcases mem_cons.1 hs' with rfl | hs'
    · obtain ⟨n', hn', rfl⟩ := mem_map.1 hs
      exact hb.before n' hn'
    · exact hlt s hs s' hs'
  · rcases mem_append.1 hn' with hn' | hn'
    · exact h.held n' (by simp [hn'])
    · rcases mem_cons.1 hn' with rfl | hn'
      · exact hn
      · exact h.held n' (by simp [hn'])

lemma Lists.replace {n'} (h : Lists m (xs ++ n :: ys)) (hsize : n'.size = n.size) (hnd : n'.chunks.Nodup)
    (hsub : ∀ x ∈ n'.chunks, x ∈ n.chunks ∨ x ∉ chunks (xs ++ ys)) (hn' : n'.Held m')
    (hs : ∀ x, x ∉ n.chunks → x ∉ n'.chunks → SameAt m m' x) : Lists m' (xs ++ n' :: ys) := by
  obtain ⟨h0, hb, -⟩ := h.erase
  have hdis : ∀ x ∈ n'.chunks, x ∉ chunks (xs ++ ys) := by
    intro x hx
    rcases hsub x hx with hx | hx
    · exact hb.disjoint x hx
    · exact hx
  refine (h0.congr fun x hx => hs x (fun hn => hb.disjoint x hn hx) fun hn => hdis x hn hx).insert ?_ hn'
  exact ⟨fun a ha => hsize ▸ hb.before a ha, fun a ha => hsize ▸ hb.after a ha, hnd, hdis⟩

end

/-- Memory and root store the tree: the parent and child pointers link its lists, which are in order. -/
structure Shape (m : Mem) (root : Option Addr) (t : BinTree Node) : Prop where
  root : root = t.root Node.first
  linked : Linked Node.first m.links none t
  lists : Lists m t.inorder

lemma chunks_first_nodup {nodes} (h : (chunks nodes).Nodup) : (nodes.map Node.first).Nodup := by
  induction nodes with
  | nil => exact nodup_nil
  | cons n nodes ih =>
    rw [chunks_cons, nodup_append'] at h
    rw [map_cons, nodup_cons]
    refine ⟨fun hmem => ?_, ih h.2.1⟩
    obtain ⟨n', hn', heq⟩ := mem_map.1 hmem
    exact h.2.2 n.first_mem (mem_chunks.2 ⟨n', hn', heq ▸ n'.first_mem⟩)

lemma Shape.keys_sorted {m root t} (h : Shape m root t) :
    ((t.inorder.map Node.first).map m.listSize).Pairwise (· < ·) := by
  have heq : (t.inorder.map Node.first).map m.listSize = t.inorder.map Node.size := by
    rw [map_map]
    exact map_congr_left fun n hn => (h.lists.held n hn).listSize
  rw [heq]
  exact h.lists.sorted

structure Represents (d : Dict) (t : BinTree Node) : Prop where
  shape : Shape d.mem d.root t
  totalSize : d.totalSize = ((contents t.inorder).map Prod.snd).sum
  totalFreeBlocks : d.totalFreeBlocks = (contents t.inorder).length

lemma Represents.fuel_gt {d t} (h : Represents d t) : t.inorder.length < d.fuel := by
  have hlen := length_le_chunks t.inorder
  rw [← contents_map_fst, length_map, ← h.totalFreeBlocks] at hlen
  exact Nat.lt_succ_of_le hlen

end Rolp.Dictionary
