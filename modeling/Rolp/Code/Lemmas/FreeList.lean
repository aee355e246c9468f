import Mathlib.Data.List.Chain
import Rolp.Code.CodeHeap

/-!
# Giving a block back

A freed block is linked between the free blocks before and after it and merged with those it touches.
-/

namespace Rolp.Code

open CodeHeap Function List Option

open Lib (Tiles tiles_append backDistance fillBack)

/-- What an operation on blocks below `nextSegment` leaves as it is. -/
structure Kept (h h' : CodeHeap) : Prop where
  memory : h'.memory = h.memory
  segmapSpace : h'.segmapSpace = h.segmapSpace
  committed : h'.numberOfCommittedSegments = h.numberOfCommittedSegments
  reserved : h'.numberOfReservedSegments = h.numberOfReservedSegments
  next : h'.nextSegment = h.nextSegment
  segmap : ∀ s, h.nextSegment ≤ s → h'.segmap s = h.segmap s

lemma Kept.trans {h1 h2 h3} (h : Kept h1 h2) (h' : Kept h2 h3) : Kept h1 h3 where
  memory := h'.memory.trans h.memory
  segmapSpace := h'.segmapSpace.trans h.segmapSpace
  committed := h'.committed.trans h.committed
  reserved := h'.reserved.trans h.reserved
  next := h'.next.trans h.next
  segmap := fun s hs => (h'.segmap s (h.next.symm ▸ hs)).trans (h.segmap s hs)

lemma Spaces.kept {cfg h h'} (hs : Spaces cfg h) (hk : Kept h h') : Spaces cfg h' where
  memory := by rw [hk.memory]; exact hs.memory
  committed_pages := by rw [hk.memory]; exact hs.committed_pages
  committed_le := by rw [hk.memory]; exact hs.committed_le
  committed := by rw [hk.memory, hk.committed]; exact hs.committed
  reserved := by rw [hk.reserved]; exact hs.reserved
  segmap_reserved := by rw [hk.reserved, hk.segmapSpace]; exact hs.segmap_reserved
  segmap_committed := by rw [hk.committed, hk.segmapSpace]; exact hs.segmap_committed
  next_le := by rw [hk.next, hk.committed]; exact hs.next_le
  unmarked := by
    rw [hk.next, hk.committed]
    exact fun s hs' hlt => (hk.segmap s hs').trans (hs.unmarked s hs' hlt)

/-! ## Merging -/

def mergeNext (a : Block) : List Block → List Block
  | [] => [a]
  | f :: ys => if f.used then a :: f :: ys else ⟨a.start, a.length + f.length, false⟩ :: ys

def usedBlocks (bs : List Block) : List Block := bs.filter Block.used

def freeLength (bs : List Block) : Nat := ((freeBlocks bs).map Block.length).sum

section
variable {xs ys : List Block} {a b : Block}

@[simp] lemma usedBlocks_append (xs ys) : usedBlocks (xs ++ ys) = usedBlocks xs ++ usedBlocks ys := filter_append ..

@[simp] lemma freeLength_append (xs ys) : freeLength (xs ++ ys) = freeLength xs + freeLength ys := by simp [freeLength]

lemma freeLength_cons_free (hb : b.used = false) (bs) : freeLength (b :: bs) = b.length + freeLength bs := by
  simp [freeLength, freeBlocks_cons_free hb]

lemma freeLength_cons_used (hb : b.used = true) (bs) : freeLength (b :: bs) = freeLength bs := by
  simp [freeLength, freeBlocks_cons_used hb]

lemma usedBlocks_mergeNext (ha : a.used = false) (ys) : usedBlocks (mergeNext a ys) = usedBlocks ys := by
  cases ys with
  | nil => simp [mergeNext, usedBlocks, ha]
  | cons f ys =>
    cases hf : f.used with
    | true => simp [mergeNext, usedBlocks, ha, hf]
    | false => simp [mergeNext, usedBlocks, hf]

lemma freeLength_mergeNext (ha : a.used = false) (ys) : freeLength (mergeNext a ys) = a.length + freeLength ys := by
  cases ys with
  | nil => rw [mergeNext, freeLength_cons_free ha]
  | cons f ys =>
    cases hf : f.used with
    | true => rw [mergeNext, hf, if_pos rfl, freeLength_cons_free ha]
    | false =>
      rw [mergeNext, hf, if_neg Bool.false_ne_true, freeLength_cons_free rfl, freeLength_cons_free hf, Nat.add_assoc]

lemma coalesced_mergeNext (a) (h : Coalesced ys) : Coalesced (mergeNext a ys) := by
  cases ys with
  | nil => exact List.IsChain.singleton a
  | cons f ys =>
    cases hf : f.used with
    | true =>
      rw [mergeNext, hf]
      exact isChain_cons_cons.2 ⟨.inr hf, h⟩
    | false =>
      rw [mergeNext, hf]
      cases ys with
      | nil => exact List.IsChain.singleton _
      | cons g ys =>
        obtain ⟨hfg, hg⟩ := isChain_cons_cons.1 h
        exact isChain_cons_cons.2 ⟨.inr (hfg.resolve_left (by simp [hf])), hg⟩

lemma coalesced_append (hxs : Coalesced xs) (hys : Coalesced ys) (h : ∀ b ∈ xs.getLast?, b.used = true) :
    Coalesced (xs ++ ys) :=
  isChain_append.2 ⟨hxs, hys, fun b hb _ _ => .inl (h b hb)⟩

end

lemma mergeNext_of_used {ys} (a) (h : ∀ f ∈ ys.head?, f.used = true) : mergeNext a ys = a :: ys := by
  cases ys with
  | nil => rfl
  | cons f ys => exact if_pos (h f rfl)

section
variable {h : CodeHeap} {xs ys : List Block} {a b : Block}

lemma Blocks.link_eq (hb : Blocks h (xs ++ a :: ys)) (ha : a.used = false) :
      h.link a.start = (freeStarts ys).head? := by
  have hl := hb.freelist
  rw [freeStarts_append, freeStarts_cons_free ha] at hl
  exact hl.next_eq

lemma head_eq_of_tiles {lo hi} (ht : Tiles lo (extents ys) hi) (hhead : (freeStarts ys).head? = some lo) :
    ∃ f ys', ys = f :: ys' ∧ f.used = false ∧ f.start = lo := by
  obtain ⟨f, hf, hfree, hstart⟩ := mem_freeStarts.1 (mem_of_head? hhead)
  cases ys with
  | nil => cases hf
  | cons y ys =>
    obtain ⟨hy, hpos, hys⟩ : y.start = lo ∧ 0 < y.length ∧ Tiles (lo + y.length) (extents ys) hi := ht
    rcases mem_cons.1 hf with rfl | hf
    · exact ⟨f, ys, rfl, hfree, hstart⟩
    · have := (Tiles.mem_bounds hys hf).1
      omega

lemma Blocks.mergeRight_spec (hb : Blocks h (xs ++ a :: ys)) (ha : a.used = false)
    (hspace : h.nextSegment ≤ h.segmapSpace.committedSize) :
    ∃ h', h.mergeRight a.start = some h' ∧ Blocks h' (xs ++ mergeNext a ys) ∧ Kept h h' ∧
      h'.freelistSegments = h.freelistSegments := by
  obtain ⟨hxs, hpos, hys⟩ := tiles_middle hb.tiles
  have hlink := hb.link_eq ha
  have hlen : h.length a.start = a.length := (hb.held a (by simp)).length
  by_cases hadj : (freeStarts ys).head? = some (a.start + a.length)
  · obtain ⟨f, ys', rfl, hf, hfs⟩ := head_eq_of_tiles hys hadj
    have hys0 : Tiles (a.start + a.length) (extents ([] ++ f :: ys')) h.nextSegment := hys
    obtain ⟨-, hfpos, hys'⟩ := tiles_middle hys0
    have hflen : h.length f.start = f.length := (hb.held f (by simp)).length
    have hend : a.start + (a.length + f.length) = f.start + f.length := by omega
    have hle := hys'.le
    have hmerge : mergeNext a (f :: ys') = ⟨a.start, a.length + f.length, false⟩ :: ys' := by
      rw [mergeNext, hf, if_neg Bool.false_ne_true]
    let h' : CodeHeap :=
      { h with
        length := update h.length a.start (a.length + f.length)
        link := update h.link a.start (h.link f.start)
        segmap := fillBack 0xFE h.segmap (a.length + f.length) a.start 0 }
    have hmap s : h'.segmap s =
        if a.start ≤ s ∧ s < a.start + (a.length + f.length) then backDistance 0xFE (s - a.start) else h.segmap s := by
      have := Lib.fillBack_eq (by decide : 0 < 0xFE) h.segmap (a.length + f.length) a.start 0 s
      rw [Nat.zero_add] at this
      exact this
    refine ⟨h', ?_, ?_, ⟨rfl, rfl, rfl, rfl, rfl, fun s hs => ?_⟩, rfl⟩
    · rw [hadj] at hlink
      have hwrite : a.start + (a.length + f.length) ≤ h.segmapSpace.committedSize ∨
          a.start + (a.length + f.length) ≤ a.start := .inl (by omega)
      simp only [mergeRight, hlink, followingBlock, hlen, ← hfs, hflen,
        markSegmapAsUsed, update_self, if_pos hwrite, Nat.add_sub_cancel_left]
      rfl
    · rw [hmerge]
      have hnd := tiles_freeStarts_nodup hb.tiles
      have hfree := hb.freelist
      rw [freeStarts_append, freeStarts_cons_free ha, freeStarts_cons_free hf] at hnd hfree
      have hmid : Tiles a.start (extents [⟨a.start, a.length + f.length, false⟩]) (f.start + f.length) :=
        ⟨rfl, Nat.add_pos_left hpos _, hend⟩
      refine Blocks.assemble (fun b hmem => hb.held b ?_) hxs hmid hys' ?_ (fun s hs => ?_) ?_
      · rcases mem_append.1 hmem with hmem | hmem <;> simp [hmem]
      · intro b hmem
        obtain rfl := mem_singleton.1 hmem
        refine ⟨update_self _ _ _, ((hb.held a (by simp)).used).trans ha, fun k hk => ?_⟩
        have hk' : k < a.length + f.length := hk
        change h'.segmap (a.start + k) = _
        rw [hmap, if_pos ⟨by omega, by omega⟩, Nat.add_sub_cancel_left]
      · refine ⟨update_of_ne (by omega) _ _, rfl, ?_⟩
        rw [hmap, if_neg (by omega)]
      · rw [freeStarts_append]
        exact hfree.unlink hnd
    · rw [hmap, if_neg (by omega)]
  · have hmerge : mergeNext a ys = a :: ys := by
      refine mergeNext_of_used a fun f hf => ?_
      cases ys with
      | nil => cases hf
      | cons y ys =>
        obtain rfl := some.inj hf
        by_contra hfree
        rw [Bool.not_eq_true] at hfree
        refine hadj ?_
        rw [freeStarts_cons_free hfree]
        exact congrArg some hys.1
    refine ⟨h, ?_, hmerge ▸ hb, ⟨rfl, rfl, rfl, rfl, rfl, fun s _ => rfl⟩, rfl⟩
    rw [mergeRight, hlink]
    cases hhead : (freeStarts ys).head? with
    | none => rfl
    | some b =>
      have hne : ¬ h.followingBlock a.start = b := by
        rw [followingBlock, hlen]
        rintro rfl
        exact hadj hhead
      exact if_neg hne

/-! ## Linking -/

lemma findPrev_spec (h : CodeHeap) {b l l'} (hl : ∀ x ∈ l, x < b) (hl' : ∀ x ∈ l', b < x)
    {cur} (hlinked : Lib.Linked h.link cur (l ++ l')) {fuel} (hf : l.length < fuel)
    (prev) : h.findPrev b fuel prev cur = some (l.getLast?.or prev) := by
  induction l generalizing cur fuel prev with
  | nil =>
    cases fuel with
    | zero => cases hf
    | succ fuel =>
      cases l' with
      | nil =>
        obtain rfl := hlinked
        rfl
      | cons y l' =>
        obtain ⟨rfl, -⟩ := hlinked
        have := hl' y (by simp)
        rw [findPrev, if_neg (by omega)]
        rfl
  | cons x l ih =>
    cases fuel with
    | zero => cases hf
    | succ fuel =>
      obtain ⟨rfl, hrest⟩ := hlinked
      rw [findPrev, if_pos (hl x (by simp)), ih (fun y hy => hl y (by simp [hy])) hrest (by simpa using hf)]
      cases l with
      | nil => rfl
      | cons y l => simp [getLast?_cons]

lemma Blocks.free (hb : Blocks h (xs ++ b :: ys)) {link freelist}
    (hfree : Lib.Linked link freelist (freeStarts xs ++ b.start :: freeStarts ys)) :
    Blocks { h.setFree b.start with link := link, freelist := freelist } (xs ++ { b with used := false } :: ys) := by
  obtain ⟨hxs, hpos, hys⟩ := tiles_middle hb.tiles
  have hheld := hb.held b (by simp)
  have hmid : Tiles b.start (extents [{ b with used := false }]) (b.start + b.length) := ⟨rfl, hpos, rfl⟩
  refine Blocks.assemble (fun c hmem => hb.held c ?_) hxs hmid hys ?_ (fun s hs => ?_) ?_
  · rcases mem_append.1 hmem with hmem | hmem <;> simp [hmem]
  · intro c hmem
    obtain rfl := mem_singleton.1 hmem
    exact ⟨hheld.length, update_self _ _ _, hheld.marked⟩
  · exact ⟨rfl, update_of_ne (by omega) _ _, rfl⟩
  · rw [freeStarts_append]
    exact hfree

lemma used_of_no_free (hxs : freeStarts xs = []) : ∀ c ∈ xs, c.used = true := by
  intro c hc
  by_contra hfree
  rw [Bool.not_eq_true] at hfree
  have hmem : c.start ∈ freeStarts xs := mem_freeStarts.2 ⟨c, hc, hfree, rfl⟩
  rw [hxs] at hmem
  cases hmem

structure Released (xs ys bs : List Block) (b : Block) : Prop where
  used : usedBlocks bs = usedBlocks (xs ++ ys)
  length : freeLength bs = freeLength (xs ++ ys) + b.length
  coalesced : Coalesced (xs ++ b :: ys) → Coalesced bs

lemma released_first (hxs : freeStarts xs = []) (ys b) :
    Released xs ys (xs ++ mergeNext { b with used := false } ys) b := by
  refine ⟨?_, ?_, fun hc => ?_⟩
  · rw [usedBlocks_append, usedBlocks_mergeNext rfl, usedBlocks_append]
  · rw [freeLength_append, freeLength_mergeNext rfl, freeLength_append]
    dsimp only
    omega
  · obtain ⟨hcx, hcy, -⟩ := isChain_append.1 hc
    exact coalesced_append hcx (coalesced_mergeNext _ hcy.tail) fun c hc' => used_of_no_free hxs c (mem_of_getLast? hc')

lemma released_after {xs' p} (hp : p.used = false) (hxs : freeStarts xs' = []) (xs ys b) :
    Released (xs ++ p :: xs') ys (xs ++ mergeNext p (xs' ++ mergeNext { b with used := false } ys)) b := by
  obtain ⟨hused, hlen, hco⟩ := released_first hxs ys b
  refine ⟨?_, ?_, fun hc => ?_⟩
  · rw [usedBlocks_append, usedBlocks_mergeNext hp, hused]
    simp [usedBlocks, hp]
  · simp only [append_assoc, cons_append]
    rw [freeLength_append, freeLength_mergeNext hp, freeLength_append xs, freeLength_cons_free hp]
    omega
  · rw [append_assoc] at hc
    obtain ⟨hcx, hcp, hlast⟩ := isChain_append.1 hc
    refine coalesced_append hcx (coalesced_mergeNext _ (hco hcp.tail)) fun c hc' => ?_
    exact (hlast c hc' p (by simp)).resolve_right (by simp [hp])

lemma exists_last_free (hne : freeStarts xs ≠ []) :
    ∃ xs1 p xs2, xs = xs1 ++ p :: xs2 ∧ p.used = false ∧ freeStarts xs2 = [] := by
  induction xs with
  | nil => exact absurd rfl hne
  | cons c xs ih =>
    by_cases hxs : freeStarts xs = []
    · cases hc : c.used with
      | false => exact ⟨[], c, xs, rfl, hc, hxs⟩
      | true => exact absurd ((freeStarts_cons_used hc xs).trans hxs) hne
    · obtain ⟨xs1, p, xs2, rfl, hp, h2⟩ := ih hxs
      exact ⟨c :: xs1, p, xs2, rfl, hp, h2⟩

lemma Blocks.addToFreelist_spec (hb : Blocks h (xs ++ b :: ys)) (hused : b.used = true)
    (hspace : h.nextSegment ≤ h.segmapSpace.committedSize) :
    ∃ h' bs, h.addToFreelist b.start = some h' ∧ Blocks h' bs ∧ Kept h h' ∧
      h'.freelistSegments = h.freelistSegments + b.length ∧ Released xs ys bs b := by
  obtain ⟨hxs, hpos, hys⟩ := tiles_middle hb.tiles
  have hlen : h.length b.start = b.length := (hb.held b (by simp)).length
  have hlinked : Lib.Linked h.link h.freelist (freeStarts xs ++ freeStarts ys) := by
    have := hb.freelist
    rwa [freeStarts_append, freeStarts_cons_used hused] at this
  have hbefore : ∀ s ∈ freeStarts xs, s < b.start := fun s hs => (freeStarts_bounds hxs s hs).2
  have hafter : ∀ s ∈ freeStarts ys, b.start < s := by
    intro s hs
    have := freeStarts_bounds hys s hs
    omega
  have hnotin := start_notMem_freeStarts hb.tiles
  have hnd : (freeStarts xs ++ freeStarts ys).Nodup := by
    have := tiles_freeStarts_nodup hb.tiles
    rwa [freeStarts_append, freeStarts_cons_used hused] at this
  have hkept {link : Nat → Option Nat} {freelist : Option Nat} :
      Kept h { h.setFree b.start with link := link, freelist := freelist } := ⟨rfl, rfl, rfl, rfl, rfl, fun _ _ => rfl⟩
  have hfuel : (freeStarts xs).length < h.fuel := by
    have := length_freeStarts_le hxs
    have := hys.le
    rw [fuel]
    omega
  have hseg : (h.setFree b.start).freelistSegments = h.freelistSegments + b.length :=
    congrArg (h.freelistSegments + ·) hlen
  cases hlist : h.freelist with
  | none =>
    rw [hlist] at hlinked
    obtain ⟨hfx, hfy⟩ := append_eq_nil_iff.1 (head?_eq_none_iff.1 hlinked.head_eq.symm)
    have hmerge : mergeNext { b with used := false } ys = { b with used := false } :: ys :=
      mergeNext_of_used _ fun f hf => used_of_no_free hfy f (mem_of_head? hf)
    refine ⟨{ h.setFree b.start with link := update h.link b.start none, freelist := some b.start },
      xs ++ { b with used := false } :: ys, ?_, hb.free ?_, hkept, hseg, hmerge ▸ released_first hfx ys b⟩
    · have hlist' : (h.setFree b.start).freelist = none := hlist
      rw [addToFreelist, linkFree, hlist']
      rfl
    · rw [hfx, hfy]
      exact ⟨rfl, update_self _ _ _⟩
  | some first =>
    have hlist' : (h.setFree b.start).freelist = some first := hlist
    have hprev := findPrev_spec (h.setFree b.start) hbefore hafter (hlist ▸ hlinked) hfuel none
    by_cases hfx : freeStarts xs = []
    · rw [hfx] at hprev hlinked hnotin
      have hfree : Lib.Linked (update h.link b.start (some first)) (some b.start)
          (freeStarts xs ++ b.start :: freeStarts ys) := by
        rw [hfx]
        refine ⟨rfl, ?_⟩
        rw [update_self, ← hlist]
        exact hlinked.update hnotin _
      obtain ⟨h', hmerge, hb', hk', hseg'⟩ := (hb.free hfree).mergeRight_spec rfl hspace
      refine ⟨h', _, ?_, hb', hkept.trans hk', hseg'.trans hseg, released_first hfx ys b⟩
      rw [addToFreelist, linkFree, hlist']
      exact (congrArg (bind · _) hprev).trans hmerge
    obtain ⟨xs1, p, xs2, rfl, hp, hfx2⟩ := exists_last_free hfx
    have hstarts : freeStarts (xs1 ++ p :: xs2) = freeStarts xs1 ++ [p.start] := by
      rw [freeStarts_append, freeStarts_cons_free hp, hfx2]
    rw [hstarts, getLast?_concat] at hprev
    rw [hstarts, append_assoc] at hlinked hnd hnotin
    have hfree := hlinked.insert hnd hnotin
    rw [← singleton_append, ← append_assoc, ← hstarts] at hfree
    obtain ⟨h1, hmerge1, hb1, hk1, hseg1⟩ := (hb.free hfree).mergeRight_spec rfl hspace
    rw [append_assoc] at hb1
    obtain ⟨h2, hmerge2, hb2, hk2, hseg2⟩ := hb1.mergeRight_spec hp (by rw [hk1.next, hk1.segmapSpace]; exact hspace)
    refine ⟨h2, _, ?_, hb2, (hkept.trans hk1).trans hk2, (hseg2.trans hseg1).trans hseg,
      released_after hp hfx2 xs1 ys b⟩
    rw [addToFreelist, linkFree, hlist']
    refine (congrArg (bind · _) hprev).trans ?_
    exact (congrArg (bind · _) hmerge1).trans hmerge2

end

/-! ## Taking a block -/

open Lib (Tiles tiles_append backDistance fillBack)

structure Taken (bs bs' : List Block) (b : Block) (k : Nat) : Prop where
  used : (usedBlocks bs').Perm (b :: usedBlocks bs)
  length : freeLength bs = freeLength bs' + k
  coalesced : Coalesced bs → Coalesced bs'

section
variable {cfg : HeapConfig} {h : CodeHeap} {bs xs ys : List Block} {b : Block} {n : Nat} {isCritical : Bool}

structure Best.Ok (h : CodeHeap) (l : List Nat) (n : Nat) (best : Best) : Prop where
  mem : ∃ l1 l2, l = l1 ++ best.block :: l2 ∧ best.prev = l1.getLast?
  length : best.length = h.length best.block
  fits : n ≤ best.length

variable {best : Best}

lemma Best.Ok.append {l} (hb : best.Ok h l n) (l') : best.Ok h (l ++ l') n := by
  obtain ⟨⟨l1, l2, rfl, hprev⟩, hlen, hfits⟩ := hb
  exact ⟨⟨l1, l2 ++ l', by simp, hprev⟩, hlen, hfits⟩

lemma searchLoop_spec (cfg) (h : CodeHeap) (n isCritical done)
    {rest cur} (hlinked : Lib.Linked h.link cur rest) {fuel} (hf : rest.length < fuel)
    (best) (hbest : ∀ b ∈ best, b.Ok h done n) :
    ∃ best', h.searchLoop cfg n isCritical fuel done.getLast? cur best = some best' ∧
      ∀ b ∈ best', b.Ok h (done ++ rest) n := by
  induction rest generalizing done cur fuel best with
  | nil =>
    cases fuel with
    | zero => cases hf
    | succ fuel =>
      obtain rfl := hlinked
      exact ⟨best, rfl, fun b hb => (hbest b hb).append []⟩
  | cons x rest ih =>
    cases fuel with
    | zero => cases hf
    | succ fuel =>
      obtain ⟨rfl, hrest⟩ := hlinked
      have hlast : (done ++ [x]).getLast? = some x := getLast?_concat
      have hlist : done ++ x :: rest = (done ++ [x]) ++ rest := by simp
      have hnext best := ih (done ++ [x]) hrest (Nat.lt_of_succ_lt_succ hf) best
      rw [hlast, ← hlist] at hnext
      rw [searchLoop]
      split
      next hcond =>
        split
        · exact ⟨best, rfl, fun b hb => (hbest b hb).append _⟩
        · refine hnext _ fun b hb => ?_
          obtain rfl := some.inj hb
          exact ⟨⟨done, [], rfl, rfl⟩, rfl, hcond.1⟩
      · exact hnext _ fun b hb => (hbest b hb).append _

lemma exists_free_split {bs l1 l2 s} (h : freeStarts bs = l1 ++ s :: l2) :
    ∃ xs b ys, bs = xs ++ b :: ys ∧ b.used = false ∧ b.start = s ∧ freeStarts xs = l1 ∧ freeStarts ys = l2 := by
  induction bs generalizing l1 with
  | nil => simp [freeStarts, freeBlocks] at h
  | cons c bs ih =>
    cases hc : c.used with
    | true =>
      rw [freeStarts_cons_used hc] at h
      obtain ⟨xs, b, ys, rfl, hb, hs, hxs, hys⟩ := ih h
      exact ⟨c :: xs, b, ys, rfl, hb, hs, (freeStarts_cons_used hc xs).trans hxs, hys⟩
    | false =>
      rw [freeStarts_cons_free hc] at h
      cases l1 with
      | nil =>
        obtain ⟨hs, hys⟩ := cons.inj h
        exact ⟨[], c, bs, rfl, hc, hs, rfl, hys⟩
      | cons x l1 =>
        obtain ⟨hx, hrest⟩ := cons.inj h
        obtain ⟨xs, b, ys, rfl, hb, hs, hxs, hys⟩ := ih hrest
        refine ⟨c :: xs, b, ys, rfl, hb, hs, ?_, hys⟩
        rw [freeStarts_cons_free hc, hx, hxs]

lemma Coalesced.cons_used {c} (h : Coalesced (b :: ys)) (hc : c.used = true) : Coalesced (c :: ys) := by
  cases ys with
  | nil => exact List.IsChain.singleton _
  | cons y ys =>
    obtain ⟨-, hy⟩ := isChain_cons_cons.1 h
    exact isChain_cons_cons.2 ⟨.inl hc, hy⟩

lemma taken_whole (hb : b.used = false) (xs ys) :
    Taken (xs ++ b :: ys) (xs ++ { b with used := true } :: ys) { b with used := true } b.length := by
  refine ⟨?_, ?_, fun hc => ?_⟩
  · simp only [usedBlocks_append]
    simp only [usedBlocks, filter_cons, hb]
    exact perm_middle
  · rw [freeLength_append, freeLength_cons_free hb, freeLength_append, freeLength_cons_used rfl]
    omega
  · obtain ⟨hcx, hcb, hlast⟩ := isChain_append.1 hc
    refine isChain_append.2 ⟨hcx, Coalesced.cons_used hcb rfl, fun c _ c' hc' => ?_⟩
    obtain rfl := some.inj hc'
    exact .inr rfl

lemma taken_end (hb : b.used = false) (hn : n < b.length) (xs ys) :
    Taken (xs ++ b :: ys) (xs ++ ⟨b.start, b.length - n, false⟩ :: ⟨b.start + (b.length - n), n, true⟩ :: ys)
      ⟨b.start + (b.length - n), n, true⟩ n := by
  refine ⟨?_, ?_, fun hc => ?_⟩
  · simp only [usedBlocks_append]
    simp only [usedBlocks, filter_cons, hb]
    exact perm_middle
  · rw [freeLength_append, freeLength_cons_free hb, freeLength_append, freeLength_cons_free rfl,
      freeLength_cons_used rfl]
    dsimp only
    omega
  · obtain ⟨hcx, hcb, hlast⟩ := isChain_append.1 hc
    exact isChain_append.2 ⟨hcx, isChain_cons_cons.2 ⟨.inr rfl, Coalesced.cons_used hcb rfl⟩, fun c hc _ _ =>
      .inl ((hlast c hc b rfl).resolve_right (by simp [hb]))⟩

lemma unlink_best {h : CodeHeap} {l1 l2 : List Nat}
    (hlinked : Lib.Linked h.link h.freelist (l1 ++ best.block :: l2)) (hnd : (l1 ++ best.block :: l2).Nodup)
    (hprev : best.prev = l1.getLast?) :
      Lib.Linked (h.unlinkBest best).link (h.unlinkBest best).freelist (l1 ++ l2) := by
  rcases eq_nil_or_concat l1 with rfl | ⟨l, p, rfl⟩
  · rw [unlinkBest, hprev]
    exact hlinked.2
  · rw [concat_eq_append] at hprev hlinked hnd ⊢
    rw [getLast?_concat] at hprev
    rw [append_assoc] at hlinked hnd ⊢
    rw [unlinkBest, hprev]
    exact hlinked.unlink hnd

lemma kept_unlinkBest (h : CodeHeap) (best) : Kept h (h.unlinkBest best) := by
  unfold unlinkBest
  split <;> exact ⟨rfl, rfl, rfl, rfl, rfl, fun _ _ => rfl⟩

lemma agreeAt_unlinkBest (h : CodeHeap) (best s) : AgreeAt h (h.unlinkBest best) s := by
  unfold unlinkBest
  split <;> exact ⟨rfl, rfl, rfl⟩

lemma unlinkBest_freelistSegments (h : CodeHeap) (best) :
    (h.unlinkBest best).freelistSegments = h.freelistSegments := by
  unfold unlinkBest
  split <;> rfl

lemma Blocks.take_whole (hb : Blocks h (xs ++ b :: ys)) (hfree : b.used = false)
    (hblock : b.start = best.block) (hprev : best.prev = (freeStarts xs).getLast?) :
    Blocks ((h.unlinkBest best).setUsed best.block best.length) (xs ++ { b with used := true } :: ys) := by
  obtain ⟨hxs, hpos, hys⟩ := tiles_middle hb.tiles
  have hheld := hb.held b (by simp)
  have hmid : Tiles b.start (extents [{ b with used := true }]) (b.start + b.length) := ⟨rfl, hpos, rfl⟩
  have hnext : ((h.unlinkBest best).setUsed best.block best.length).nextSegment = h.nextSegment :=
    (kept_unlinkBest h best).next
  have hagree := agreeAt_unlinkBest h best
  have hlinked := hb.freelist
  have hnd := tiles_freeStarts_nodup hb.tiles
  rw [freeStarts_append, freeStarts_cons_free hfree, hblock] at hlinked hnd
  refine Blocks.assemble (fun c hmem => hb.held c ?_) hxs hmid (hnext ▸ hys) ?_ (fun s hs => ?_) ?_
  · rcases mem_append.1 hmem with hmem | hmem <;> simp [hmem]
  · intro c hmem
    obtain rfl := mem_singleton.1 hmem
    refine ⟨(hagree b.start).length.trans hheld.length, ?_, fun k hk => (hagree _).segmap.trans (hheld.marked k hk)⟩
    rw [hblock]
    exact update_self _ _ _
  · refine ⟨(hagree s).length, ?_, (hagree s).segmap⟩
    have hne : s ≠ best.block := by omega
    exact (update_of_ne hne _ _).trans (hagree s).used
  · rw [freeStarts_append]
    exact unlink_best hlinked hnd hprev

/-- The memory after the last `n` segments of the free block `b` have been taken. -/
def cut (h : CodeHeap) (b : Block) (n : Nat) : CodeHeap :=
  { h with
    length := update (update h.length b.start (b.length - n)) (b.start + (b.length - n)) n
    used := update h.used (b.start + (b.length - n)) true
    segmap := fillBack 0xFE h.segmap n (b.start + (b.length - n)) 0
    freelistSegments := h.freelistSegments - n }

lemma fillBack_segmap (segmap n start s) : fillBack 0xFE segmap n start 0 s =
    if start ≤ s ∧ s < start + n then backDistance 0xFE (s - start) else segmap s := by
  have := Lib.fillBack_eq (by decide : 0 < 0xFE) segmap n start 0 s
  rw [Nat.zero_add] at this
  exact this

lemma cut_segmap (h : CodeHeap) (b n s) : (cut h b n).segmap s =
    if b.start + (b.length - n) ≤ s ∧ s < b.start + (b.length - n) + n then
      backDistance 0xFE (s - (b.start + (b.length - n))) else h.segmap s := fillBack_segmap _ _ _ _

lemma Blocks.take_end (hb : Blocks h (xs ++ b :: ys)) (hfree : b.used = false) (hn0 : n ≠ 0) (hn : n < b.length) :
    Blocks (cut h b n) (xs ++ ⟨b.start, b.length - n, false⟩ :: ⟨b.start + (b.length - n), n, true⟩ :: ys) := by
  obtain ⟨hxs, hpos, hys⟩ := tiles_middle hb.tiles
  have hheld := hb.held b (by simp)
  have hmid : Tiles b.start (extents [⟨b.start, b.length - n, false⟩, ⟨b.start + (b.length - n), n, true⟩])
      (b.start + b.length) := by
    refine ⟨rfl, Nat.sub_pos_of_lt hn, rfl, Nat.pos_of_ne_zero hn0, ?_⟩
    change b.start + (b.length - n) + n = b.start + b.length
    omega
  have hlinked := hb.freelist
  rw [freeStarts_append, freeStarts_cons_free hfree] at hlinked
  refine Blocks.assemble (fun c hmem => hb.held c ?_) hxs hmid hys ?_ (fun s hs => ?_) ?_
  · rcases mem_append.1 hmem with hmem | hmem <;> simp [hmem]
  · intro c hmem
    rcases mem_cons.1 hmem with rfl | hmem
    · refine ⟨?_, ?_, fun k hk => ?_⟩
      · exact (update_of_ne (by dsimp only; omega) _ _).trans (update_self _ _ _)
      · exact (update_of_ne (by dsimp only; omega) _ _).trans (hheld.used.trans hfree)
      · have hk' : k < b.length - n := hk
        rw [cut_segmap, if_neg (by dsimp only; omega)]
        exact hheld.marked k (by omega)
    · obtain rfl := mem_singleton.1 hmem
      refine ⟨update_self _ _ _, update_self _ _ _, fun k hk => ?_⟩
      have hk' : k < n := hk
      rw [cut_segmap, if_pos (by dsimp only; omega), Nat.add_sub_cancel_left]
  · refine ⟨?_, update_of_ne (by omega) _ _, ?_⟩
    · exact (update_of_ne (by omega) _ _).trans (update_of_ne (by omega) _ _)
    · rw [cut_segmap, if_neg (by omega)]
  · rw [freeStarts_append, cons_append]
    exact hlinked

lemma kept_cut (hle : b.start + b.length ≤ h.nextSegment) (hn : n < b.length) : Kept h (cut h b n) := by
  refine ⟨rfl, rfl, rfl, rfl, rfl, fun s hs => ?_⟩
  rw [cut_segmap, if_neg (by omega)]

lemma Blocks.searchFreelist_spec (hb : Blocks h bs) (hn : n ≠ 0) (hspace : h.nextSegment ≤ h.segmapSpace.committedSize)
    (cfg isCritical) : h.searchFreelist cfg n isCritical = some (h, none) ∨
      ∃ h' bs' b, h.searchFreelist cfg n isCritical = some (h', some b.start) ∧ Blocks h' bs' ∧ Kept h h' ∧
        b.used = true ∧ h'.freelistSegments = h.freelistSegments - b.length ∧ Taken bs bs' b b.length := by
  have hfuel : (freeStarts bs).length < h.fuel := Nat.lt_succ_of_le (length_freeStarts_le hb.tiles)
  obtain ⟨best, hloop, hok⟩ := searchLoop_spec cfg h n isCritical [] hb.freelist hfuel none nofun
  rw [getLast?_nil] at hloop
  rw [searchFreelist, hloop]
  cases best with
  | none => exact .inl rfl
  | some best =>
    right
    obtain ⟨⟨l1, l2, hl, hprev⟩, hlen, hfits⟩ := hok best rfl
    obtain ⟨xs, b, ys, rfl, hfree, hstart, rfl, rfl⟩ := exists_free_split hl
    have hblen : best.length = b.length := by
      rw [hlen, ← hstart]
      exact (hb.held b (by simp)).length
    obtain ⟨-, hpos, hys⟩ := tiles_middle hb.tiles
    have hle := hys.le
    by_cases hwhole : best.length < n + cfg.minBlockLength
    · refine ⟨_, _, { b with used := true }, ?_, hb.take_whole hfree hstart hprev, ?_, rfl, ?_, taken_whole hfree xs ys⟩
      · simp only [bind_eq_bind, bind_some, if_pos hwhole, Option.pure_def, hstart]
      · obtain ⟨h1, h2, h3, h4, h5, h6⟩ := kept_unlinkBest h best
        exact ⟨h1, h2, h3, h4, h5, h6⟩
      · exact (congrArg₂ _ (unlinkBest_freelistSegments h best) hblen)
    have hlt : n < b.length := by
      have := cfg.minBlockLength_pos
      omega
    refine ⟨cut h b n, _, ⟨b.start + (b.length - n), n, true⟩, ?_, hb.take_end hfree hn hlt, kept_cut hle hlt, rfl,
      rfl, taken_end hfree hlt xs ys⟩
    rw [hblen] at hwhole
    have hwrite : b.start + (b.length - n) + n ≤ h.segmapSpace.committedSize ∨
        b.start + (b.length - n) + n ≤ b.start + (b.length - n) := .inl (by omega)
    simp only [bind_eq_bind, bind_some, hblen, if_neg hwhole, followingBlock,
      markSegmapAsUsed, ← hstart, update_self, if_pos hwrite, Nat.add_sub_cancel_left]
    rfl

/-- The memory after a block of `n` segments has been put at the end. -/
def extended (h : CodeHeap) (n : Nat) : CodeHeap :=
  { h with
    length := update h.length h.nextSegment n
    used := update h.used h.nextSegment true
    segmap := fillBack 0xFE h.segmap n h.nextSegment 0
    nextSegment := h.nextSegment + n }

lemma extended_segmap (h : CodeHeap) (n s) : (extended h n).segmap s =
    if h.nextSegment ≤ s ∧ s < h.nextSegment + n then backDistance 0xFE (s - h.nextSegment) else h.segmap s :=
  fillBack_segmap _ _ _ _

lemma Blocks.extend (hb : Blocks h bs) (hn : 0 < n) : Blocks (extended h n) (bs ++ [⟨h.nextSegment, n, true⟩]) := by
  have hmid : Tiles h.nextSegment (extents [⟨h.nextSegment, n, true⟩]) (h.nextSegment + n) := ⟨rfl, hn, rfl⟩
  refine Blocks.assemble (fun c hc => hb.held c (by simpa using hc)) hb.tiles hmid rfl ?_ (fun s hs => ?_) ?_
  · intro c hmem
    obtain rfl := mem_singleton.1 hmem
    refine ⟨update_self _ _ _, update_self _ _ _, fun k hk => ?_⟩
    have hk' : k < n := hk
    rw [extended_segmap, if_pos (by dsimp only; omega), Nat.add_sub_cancel_left]
  · refine ⟨update_of_ne (by omega) _ _, update_of_ne (by omega) _ _, ?_⟩
    rw [extended_segmap, if_neg (by omega)]
  · rw [freeStarts_append]
    exact (append_nil _).symm ▸ hb.freelist

lemma Spaces.extend (hs : Spaces cfg h) (hle : h.nextSegment + n ≤ h.numberOfCommittedSegments) :
    Spaces cfg (extended h n) where
  memory := hs.memory
  committed_pages := hs.committed_pages
  committed_le := hs.committed_le
  committed := hs.committed
  reserved := hs.reserved
  segmap_reserved := hs.segmap_reserved
  segmap_committed := hs.segmap_committed
  next_le := hle
  unmarked := by
    intro s hnext hlt
    have hnext' : h.nextSegment + n ≤ s := hnext
    rw [extended_segmap, if_neg (by omega)]
    exact hs.unmarked s (by omega) hlt

lemma taken_extend (bs start n) : Taken bs (bs ++ [⟨start, n, true⟩]) ⟨start, n, true⟩ 0 := by
  refine ⟨?_, ?_, fun hc => ?_⟩
  · rw [usedBlocks_append]
    exact perm_append_singleton _ _
  · rw [freeLength_append]
    rfl
  · refine isChain_append.2 ⟨hc, List.IsChain.singleton _, fun c _ c' hc' => ?_⟩
    obtain rfl := some.inj hc'
    exact .inr rfl

lemma allocateAtEnd_spec (hspace : h.numberOfCommittedSegments ≤ h.segmapSpace.committedSize) (cfg)
    (n isCritical) : h.allocateAtEnd cfg n isCritical = some (h, none) ∨
      (h.allocateAtEnd cfg n isCritical = some (extended h (max n cfg.minBlockLength), some h.nextSegment) ∧
        h.nextSegment + max n cfg.minBlockLength ≤ h.numberOfCommittedSegments) := by
  unfold allocateAtEnd
  dsimp only
  split
  · exact .inl rfl
  · split
    next hle =>
      refine .inr ⟨?_, hle⟩
      simp only [markSegmapAsUsed, if_pos (Or.inl (Nat.le_trans hle hspace)), Nat.add_sub_cancel_left]
      rfl
    · exact .inl rfl

end

end Rolp.Code
