import Rolp.Dictionary.Remove
import Rolp.Lib.Run

/-!
# Sequences of operations on a dictionary

A run keeps a ledger beside the dictionary: the chunks that were inserted, with their sizes, less those handed out. The
dictionary is an ordered tree of exactly those chunks.
-/

namespace Rolp.Dictionary

open Lib (run guarded)
open Lib.LinkedTree Function List

abbrev Ledger := List (Addr × Nat)

/-- An inserted chunk holds whatever its last owner has left in it. -/
inductive Event where
  | insert (fc : Addr) (chunk : Mem)
  | remove (tc : Addr)
  | get (size : Nat) (dither : Dither)

def Mem.overwrite (m chunk : Mem) (x : Addr) : Mem where
  size := update m.size x (chunk.size x)
  prev := update m.prev x (chunk.prev x)
  next := update m.next x (chunk.next x)
  list := update m.list x (chunk.list x)
  links :=
    { parent := update m.links.parent x (chunk.links.parent x)
      left := update m.links.left x (chunk.links.left x)
      right := update m.links.right x (chunk.links.right x) }
  head := update m.head x (chunk.head x)
  tail := update m.tail x (chunk.tail x)
  listSize := update m.listSize x (chunk.listSize x)
  count := update m.count x (chunk.count x)
  hint := update m.hint x (chunk.hint x)
  surplus := update m.surplus x (chunk.surplus x)

def Dict.operate (d : Dict) (adaptive : Bool) : Event → Option (Dict × Option Addr)
  | .insert fc chunk => do
    let d ← ({ d with mem := d.mem.overwrite chunk fc } : Dict).insertChunkInTree fc
    return (d, none)
  | .remove tc => do
    let d ← d.removeChunkFromTree tc
    return (d, some tc)
  | .get size dither => d.getChunkFromTree adaptive size dither

def Permitted (ledger : Ledger) : Event → Prop
  | .insert fc _ => fc ∉ ledger.map Prod.fst
  | .remove tc => tc ∈ ledger.map Prod.fst
  | .get _ _ => True

instance (ledger : Ledger) (e : Event) : Decidable (Permitted ledger e) :=
  match e with
  | .insert fc _ => inferInstanceAs (Decidable (fc ∉ ledger.map Prod.fst))
  | .remove tc => inferInstanceAs (Decidable (tc ∈ ledger.map Prod.fst))
  | .get _ _ => inferInstanceAs (Decidable True)

def Event.inserted : Event → Ledger
  | .insert fc chunk => [(fc, chunk.size fc)]
  | .remove _ => []
  | .get _ _ => []

def Ledger.without (ledger : Ledger) : Option Addr → Ledger
  | none => ledger
  | some a => ledger.filter fun x => x.1 ≠ a

def step (adaptive : Bool) (s : Dict × Ledger) (e : Event) : Option (Dict × Ledger) := do
  let (d, out) ← s.1.operate adaptive e
  return (d, Ledger.without (e.inserted ++ s.2) out)

/-- What an operation returns. A request is given a chunk of the least size that fits, and none only if there is
none. -/
def Returns (ledger : Ledger) : Event → Option Addr → Prop
  | .insert _ _, out => out = none
  | .remove tc, out => out = some tc
  | .get size dither, none => ∀ x ∈ ledger, ¬ dither.Fits size x.2
  | .get size dither, some a => ∃ s, (a, s) ∈ ledger ∧ dither.Fits size s ∧ ∀ x ∈ ledger, dither.Fits size x.2 → s ≤ x.2

/-- The dictionary holds the chunks of the ledger in an ordered tree without empty lists, and its
counters are exact. -/
structure Exact (d : Dict) (ledger : Ledger) : Prop where
  tree : ∃ t : BinTree Node, Shape d.mem d.root t ∧ (contents t.inorder).Perm ledger
  totalSize : d.totalSize = (ledger.map Prod.snd).sum
  totalFreeBlocks : d.totalFreeBlocks = ledger.length

/-- `reset()` and `reset(mr)`: the dictionary is empty, or it has one chunk. -/
def construct (m : Mem) : Option (Addr × Nat) → Dict × Ledger
  | none => ({ mem := m, root := none, totalSize := 0, totalFreeBlocks := 0 }, [])
  | some (start, wordSize) =>
    let m :=
      { m with
        size := update m.size start wordSize
        prev := update m.prev start none
        next := update m.next start none }
    ({ mem := m.asTreeList start, root := some start, totalSize := wordSize, totalFreeBlocks := 1 },
      [(start, wordSize)])

section
variable {d : Dict} {t : BinTree Node} {ledger : Ledger}

lemma Exact.represents (h : Exact d ledger) : ∃ t, Represents d t ∧ (contents t.inorder).Perm ledger := by
  obtain ⟨t, hs, hperm⟩ := h.tree
  refine ⟨t, ⟨hs, ?_, ?_⟩, hperm⟩
  · rw [h.totalSize, (hperm.map Prod.snd).sum_eq]
  · rw [h.totalFreeBlocks, hperm.length_eq]

lemma Represents.exact (h : Represents d t) (hperm : (contents t.inorder).Perm ledger) : Exact d ledger := by
  refine ⟨⟨t, h.shape, hperm⟩, ?_, ?_⟩
  · rw [h.totalSize, (hperm.map Prod.snd).sum_eq]
  · rw [h.totalFreeBlocks, hperm.length_eq]

lemma chunks_perm (hperm : (contents t.inorder).Perm ledger) : (chunks t.inorder).Perm (ledger.map Prod.fst) := by
  rw [← contents_map_fst]
  exact hperm.map Prod.fst

lemma contents_perm_without {t' : BinTree Node} {a : Addr} {s : Nat} (hperm : (contents t.inorder).Perm ledger)
    (hnd : (chunks t.inorder).Nodup) (h : (contents t.inorder).Perm ((a, s) :: contents t'.inorder)) :
    (contents t'.inorder).Perm (ledger.without (some a)) := by
  have hnd' : (a :: chunks t'.inorder).Nodup := by
    have hfst := h.map Prod.fst
    rw [contents_map_fst, map_cons, contents_map_fst] at hfst
    exact hfst.nodup_iff.1 hnd
  have ha : ∀ x ∈ contents t'.inorder, x.1 ≠ a := by
    rintro x hx rfl
    refine (nodup_cons.1 hnd').1 ?_
    rw [← contents_map_fst]
    exact mem_map_of_mem hx
  have hfilter := (h.symm.trans hperm).filter fun x => decide (x.1 ≠ a)
  rw [filter_cons_of_neg (by simp), filter_eq_self.2 (by simpa using ha)] at hfilter
  exact hfilter

lemma represents_construct (m start wordSize) :
    Represents (construct m (some (start, wordSize))).1 (.node .leaf ⟨wordSize, start, []⟩ .leaf) := by
  refine ⟨⟨rfl, ?_, pairwise_singleton _ _, nodup_singleton _, ?_⟩, rfl, rfl⟩
  · refine ⟨?_, ?_, ?_, trivial, trivial⟩ <;>
      simp [construct, Mem.asTreeList, Mem.initializeList, Mem.linkHead, Mem.linkTail, BinTree.root]
  intro n hn
  obtain rfl := mem_singleton.1 hn
  have hheld := held_asTreeList
    { m with
      size := update m.size start wordSize
      prev := update m.prev start none
      next := update m.next start none } start
  simp only [update_self] at hheld
  exact hheld

lemma exact_construct (m region) : Exact (construct m region).1 (construct m region).2 := by
  cases region with
  | none => exact ⟨⟨.leaf, ⟨rfl, trivial, List.Pairwise.nil, nodup_nil, nofun⟩, List.Perm.nil⟩, rfl, rfl⟩
  | some r => exact (represents_construct m r.1 r.2).exact (List.Perm.refl _)

lemma Represents.overwrite (h : Represents d t) {fc} (hfc : fc ∉ chunks t.inorder) (chunk) :
    Represents { d with mem := d.mem.overwrite chunk fc } t := by
  have hne x hx : x ≠ fc := fun heq => hfc (heq ▸ hx)
  refine ⟨h.shape.congr (fun x hx => ?_) (fun x hx => ?_), h.totalSize, h.totalFreeBlocks⟩
  · constructor <;> simp [Mem.overwrite, hne x hx]
  · refine ⟨?_, ?_, ?_⟩ <;> simp [Mem.overwrite, hne x hx]

lemma Exact.operate (h : Exact d ledger) (adaptive) {e : Event} (he : Permitted ledger e) :
    ∃ d' out, d.operate adaptive e = some (d', out) ∧ Returns ledger e out ∧
      Exact d' (Ledger.without (e.inserted ++ ledger) out) := by
  obtain ⟨t, hr, hperm⟩ := h.represents
  have hmem {x : Addr} : x ∈ chunks t.inorder ↔ x ∈ ledger.map Prod.fst := (chunks_perm hperm).mem_iff
  cases e with
  | insert fc chunk =>
    have hfc : fc ∉ chunks t.inorder := fun hc => he (hmem.1 hc)
    obtain ⟨d', t', hinsert, hr', hperm'⟩ := (hr.overwrite hfc chunk).insert hfc
    refine ⟨d', none, by simp [Dict.operate, hinsert], rfl, hr'.exact (hperm'.trans ?_)⟩
    have hsize : (d.mem.overwrite chunk fc).size fc = chunk.size fc := update_self _ _ _
    rw [hsize]
    exact hperm.cons _
  | remove tc =>
    obtain ⟨d', t', hremove, hr', hperm'⟩ := hr.remove (hmem.2 he)
    exact ⟨d', some tc, by simp [Dict.operate, hremove], rfl,
      hr'.exact (contents_perm_without hperm hr.shape.lists.nodup hperm')⟩
  | get size dither =>
    have hfits {x : Addr × Nat} (hx : x ∈ ledger) : ∃ n ∈ t.inorder, n.size = x.2 := by
      obtain ⟨n, hn, -, hsize⟩ := mem_contents.1 (hperm.mem_iff.2 hx)
      exact ⟨n, hn, hsize⟩
    rcases hr.get adaptive size dither with ⟨hget, hnone⟩ | ⟨n, a, d', t', hfound, ha, hget, hr', hperm'⟩
    · refine ⟨d, none, hget, fun x hx => ?_, h⟩
      obtain ⟨n, hn, hsize⟩ := hfits hx
      exact hsize ▸ hnone n hn
    · refine ⟨d', some a, hget, ⟨n.size, ?_, hfound.2.1, fun x hx hfit => ?_⟩,
        hr'.exact (contents_perm_without hperm hr.shape.lists.nodup hperm')⟩
      · exact hperm.mem_iff.1 (mem_contents.2 ⟨n, hfound.1, ha, rfl⟩)
      · obtain ⟨n', hn', hsize⟩ := hfits hx
        exact hsize ▸ hfound.2.2 n' hn' (hsize ▸ hfit)

end

lemma exact_of_run {adaptive m region events} {s : Dict × Ledger}
    (hrun : run (guarded (fun s => Permitted s.2) (step adaptive)) (construct m region) events = some s) :
    Exact s.1 s.2 := by
  refine Lib.run_invariant (fun s : Dict × Ledger => Exact s.1 s.2) (fun _ => True) ?_ (exact_construct m region)
    (fun _ _ => trivial) hrun
  intro s e s' hs _ hstep
  obtain ⟨hok, hstep⟩ := Lib.guarded_some hstep
  obtain ⟨d, out, hop, -, hexact⟩ := hs.operate adaptive hok
  rw [step, hop] at hstep
  cases hstep
  exact hexact

/-- After any sequence of operations the dictionary is exact, and whatever comes next succeeds and returns what it
should. -/
theorem dictionary_operations_are_exact (adaptive : Bool) (m : Mem) (region : Option (Addr × Nat))
    (events : List Event) {s : Dict × Ledger}
    (hrun : run (guarded (fun s => Permitted s.2) (step adaptive)) (construct m region) events = some s) :
    Exact s.1 s.2 ∧ ∀ e, Permitted s.2 e → ∃ d out, s.1.operate adaptive e = some (d, out) ∧ Returns s.2 e out ∧
      Exact d (Ledger.without (e.inserted ++ s.2) out) := by
  have hexact := exact_of_run hrun
  exact ⟨hexact, fun e he => hexact.operate adaptive he⟩

def uniform (size : Nat) : Mem where
  size := fun _ => size
  prev := fun _ => none
  next := fun _ => none
  list := fun _ => none
  links := ⟨fun _ => none, fun _ => none, fun _ => none⟩
  head := fun _ => none
  tail := fun _ => none
  listSize := fun _ => 0
  count := fun _ => 0
  hint := fun _ => 0
  surplus := fun _ => 0

def sampleEvents : List Event :=
  [.insert 200 (uniform 12), .insert 300 (uniform 48), .insert 400 (uniform 12), .insert 500 (uniform 36), .remove 200,
    .get 21 .atLeast]

def sampleRun : Option (Dict × Ledger) :=
  run (guarded (fun s => Permitted s.2) (step true)) (construct (uniform 0) (some (100, 24))) sampleEvents

theorem dictionary_operations_are_exact_sample :
    ∃ s, sampleRun = some s ∧ s.2.map Prod.fst = [500, 400, 300] ∧ Exact s.1 s.2 := by
  obtain ⟨s, hs⟩ : ∃ s, sampleRun = some s := Option.isSome_iff_exists.1 (by decide +kernel)
  have hledger : sampleRun.map (fun s => s.2.map Prod.fst) = some [500, 400, 300] := by decide +kernel
  rw [hs] at hledger
  exact ⟨s, hs, Option.some.inj hledger,
    (dictionary_operations_are_exact true (uniform 0) (some (100, 24)) sampleEvents hs).1⟩

/-! ## The chunk with the largest address -/

open Lib (run guarded)
open Lib.LinkedTree List Option

/-- The scan compares the highest chunk of the list: it is the only one, or the second of two, or neither the first nor
the last. -/
def HighestIsCompared : List Addr → Prop
  | [] => False
  | [_] => True
  | [a, b] => a ≤ b
  | a :: b :: c :: l => ∃ w ∈ (b :: c :: l).dropLast, ∀ x ∈ a :: b :: c :: l, x ≤ w

lemma foldl_max_spec (l : List Addr) (last : Addr) :
    l.foldl max last ∈ last :: l ∧ ∀ x ∈ last :: l, x ≤ l.foldl max last := by
  induction l generalizing last with
  | nil => simp
  | cons y l ih =>
    obtain ⟨hmem, hle⟩ := ih (max last y)
    have hmax := hle (max last y) mem_cons_self
    rw [foldl_cons]
    refine ⟨?_, fun x hx => ?_⟩
    · rcases mem_cons.1 hmem with heq | hmem
      · rw [heq]
        rcases le_total last y with h | h <;> simp [h]
      · simp [hmem]
    · rcases mem_cons.1 hx with rfl | hx
      · exact le_trans (le_max_left _ _) hmax
      · rcases mem_cons.1 hx with rfl | hx
        · exact le_trans (le_max_right _ _) hmax
        · exact hle x (mem_cons_of_mem _ hx)

lemma largestFrom_eq {next : Addr → Option Addr} {fc : Addr} {l : List Addr}
    (h : Lib.Linked next (some fc) (fc :: l)) {fuel : Nat} (hf : l.length < fuel) (last) :
    Dict.largestFrom next fuel last fc = some ((fc :: l).dropLast.foldl max last) := by
  induction l generalizing fc fuel last with
  | nil =>
    cases fuel with
    | zero => cases hf
    | succ fuel =>
      have hnext : next fc = none := h.2
      rw [Dict.largestFrom, hnext]
      rfl
  | cons y l ih =>
    cases fuel with
    | zero => cases hf
    | succ fuel =>
      obtain ⟨-, hnext, hl⟩ := h
      rw [Dict.largestFrom, hnext]
      have hmax : (if last < fc then fc else last) = max last fc := by
        split
        next hlt => exact (max_eq_right (Nat.le_of_lt hlt)).symm
        next hlt => exact (max_eq_left (Nat.le_of_not_lt hlt)).symm
      exact (ih ⟨rfl, hl⟩ (Nat.lt_of_succ_lt_succ hf) _).trans (by rw [hmax]; rfl)

lemma Node.Held.largestAddress_spec {d : Dict} {n : Node} (h : n.Held d.mem) (hf : n.rest.length ≤ d.fuel) :
    ∃ a ∈ n.chunks, d.largestAddress n.first = some a ∧ ((∀ x ∈ n.chunks, x ≤ a) ↔ HighestIsCompared n.chunks) := by
  obtain ⟨size, first, rest⟩ := n
  have hhead : d.mem.head first = some first := h.head
  have hnext : d.mem.next first = rest.head? := h.chain.forward.2.head_eq
  have hlinked : Lib.Linked d.mem.next (d.mem.next first) rest := h.chain.forward.2
  cases rest with
  | nil =>
    have hscan : d.largestAddress first = some first := by simp [Dict.largestAddress, hhead, hnext]
    exact ⟨first, by simp [Node.chunks], hscan, by simp [Node.chunks, HighestIsCompared]⟩
  | cons y rest =>
    have hscan : d.largestAddress first = some ((y :: rest).dropLast.foldl max y) := by
      simp only [Dict.largestAddress, hhead, hnext, bind_eq_bind, bind_some]
      rw [hnext] at hlinked
      exact largestFrom_eq hlinked hf y
    cases rest with
    | nil => exact ⟨y, by simp [Node.chunks], hscan, by simp [Node.chunks, HighestIsCompared]⟩
    | cons z rest =>
      obtain ⟨hmem, hle⟩ := foldl_max_spec (y :: z :: rest).dropLast y
      set a := (y :: z :: rest).dropLast.foldl max y
      have ha : a ∈ (y :: z :: rest).dropLast := by
        rcases mem_cons.1 hmem with heq | hmem
        · rw [heq]
          simp
        · exact hmem
      refine ⟨a, mem_cons_of_mem _ (dropLast_subset _ ha), hscan, ?_, ?_⟩
      · exact fun hall => ⟨a, ha, hall⟩
      · rintro ⟨w, hw, hall⟩ x hx
        exact le_trans (hall x hx) (hle w (mem_cons_of_mem _ hw))

/-- The list that is scanned is the one of the largest size. The chunk returned is the highest one exactly if that one
is compared. -/
theorem find_largest_dict_is_highest_iff {d : Dict} {t : BinTree Node} (h : Represents d t) (hne : t.inorder ≠ []) :
    ∃ n ∈ t.inorder, (∀ n' ∈ t.inorder, n'.size ≤ n.size) ∧ ∃ a ∈ n.chunks, d.findLargestDict = some (some a) ∧
      ((∀ x ∈ n.chunks, x ≤ a) ↔ HighestIsCompared n.chunks) := by
  cases t with
  | leaf => exact absurd rfl hne
  | node l b r =>
    obtain ⟨n, hlast, hwalk⟩ := h.shape.linked.rightmost_spec (Nat.le_of_lt h.fuel_gt)
    obtain ⟨before, hin⟩ := getLast?_eq_some_iff.1 hlast
    have hn : n ∈ (BinTree.node l b r).inorder := by simp [hin]
    have hf : n.rest.length ≤ d.fuel := by
      have hlen : n.chunks.length ≤ (chunks (BinTree.node l b r).inorder).length := by
        rw [hin, chunks_append, chunks_cons]
        simp only [length_append]
        omega
      rw [← contents_map_fst, length_map, ← h.totalFreeBlocks, Node.chunks, length_cons] at hlen
      rw [Dict.fuel]
      omega
    obtain ⟨a, ha, hlargest, hiff⟩ := (h.shape.lists.held n hn).largestAddress_spec hf
    refine ⟨n, hn, fun n' hn' => ?_, a, ha, ?_, hiff⟩
    · have hsorted := h.shape.lists.sorted
      rw [hin, map_append, pairwise_append] at hsorted
      rw [hin] at hn'
      rcases mem_append.1 hn' with hn' | hn'
      · exact Nat.le_of_lt (hsorted.2.2 _ (mem_map_of_mem hn') _ (by simp))
      · rw [mem_singleton.1 hn']
    · have hroot : d.root = some b.first := h.shape.root
      rw [Dict.findLargestDict, hroot]
      simp only [hwalk, hlargest, bind_eq_bind, bind_some, Option.pure_def]

def insertRun (events : List Event) : Option (Dict × Ledger) :=
  run (guarded (fun s => Permitted s.2) (step false)) (construct (uniform 0) none) events

theorem find_largest_dict_is_highest_iff_three : ∃ s t n,
    insertRun [.insert 100 (uniform 16), .insert 300 (uniform 16), .insert 200 (uniform 16)] = some s ∧
    Represents s.1 t ∧ n ∈ t.inorder ∧ s.1.findLargestDict = some (some 300) ∧ HighestIsCompared n.chunks := by
  have hvalues : (insertRun [.insert 100 (uniform 16), .insert 300 (uniform 16), .insert 200 (uniform 16)]).map
      (fun s => (s.1.findLargestDict, s.2)) = some (some (some 300), [(200, 16), (300, 16), (100, 16)]) := by
    decide +kernel
  obtain ⟨s, hs, hvalues⟩ := map_eq_some_iff.1 hvalues
  rw [Prod.mk.injEq] at hvalues
  obtain ⟨t, ht, hperm⟩ := (exact_of_run hs).represents
  rw [hvalues.2] at hperm
  have hne : t.inorder ≠ [] := fun heq => by simp [heq, contents] at hperm
  obtain ⟨n, hn, -, a, -, ha, hiff⟩ := find_largest_dict_is_highest_iff ht hne
  obtain rfl : a = 300 := by simpa [hvalues.1] using ha.symm
  refine ⟨s, t, n, hs, ht, hn, ha, hiff.1 fun x hx => ?_⟩
  have hx' : x ∈ [200, 300, 100] := (chunks_perm hperm).mem_iff.1 (mem_chunks.2 ⟨n, hn, hx⟩)
  simp only [mem_cons, not_mem_nil, or_false] at hx'
  rcases hx' with rfl | rfl | rfl <;> decide

/-- Two chunks of a size: the first one is higher, and the second one is returned. -/
theorem find_largest_dict_misses_first :
    (insertRun [.insert 200 (uniform 16), .insert 100 (uniform 16)]).map (fun s => (s.1.findLargestDict, s.2)) =
      some (some (some 100), [(100, 16), (200, 16)]) := by
  decide +kernel

end Rolp.Dictionary
