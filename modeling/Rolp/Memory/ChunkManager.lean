import Rolp.Lib.Pool
import Rolp.Lib.Run
import Mathlib.Data.List.MinMax

/-!
# Free chunks of the metaspace

A `ChunkManager` keeps the chunks that no `SpaceManager` uses, in a list for each of three sizes and a dictionary for
the others. `list_index` is one function for the class space and the other metadata, whose chunks have different sizes.
-/

namespace Rolp.Memory

open Rolp.Lib Function List

inductive ChunkIndex where
  | specializedIndex
  | smallIndex
  | mediumIndex
  | humongousIndex
  deriving DecidableEq

instance : Fintype ChunkIndex :=
  ⟨{.specializedIndex, .smallIndex, .mediumIndex, .humongousIndex}, fun i => by cases i <;> decide⟩

def specializedChunk : Nat := 128

def smallChunk (isClass : Bool) : Nat := if isClass then 256 else 512

def mediumChunk (isClass : Bool) : Nat := if isClass then 4096 else 8192

def listIndex (size : Nat) : ChunkIndex :=
  if size = specializedChunk then .specializedIndex
  else if size = smallChunk false ∨ size = smallChunk true then .smallIndex
  else if size = mediumChunk false ∨ size = mediumChunk true then .mediumIndex
  else .humongousIndex

structure Metachunk where
  address : Nat
  wordSize : Nat
  deriving DecidableEq

/-- A free list, or a list of a space manager. The free list of the humongous chunks stands for their dictionary. -/
inductive Place where
  | free (i : ChunkIndex)
  | inUse (m : Nat) (i : ChunkIndex)
  deriving DecidableEq

def Place.index : Place → ChunkIndex
  | .free i | .inUse _ i => i

structure Metaspace where
  chunks : Place → List Metachunk
  freeChunksTotal : Nat
  freeChunksCount : Nat
  nextAddress : Nat
  /-- The calls of `chunk_freelist_allocate` that returned a chunk. -/
  handedOut : List (Nat × Metachunk)

namespace Metaspace

def empty : Metaspace := ⟨fun _ => [], 0, 0, 0, []⟩

variable (s : Metaspace)

/-- `get_chunk` of the dictionary returns a chunk of the least size that suffices: `first_available` of the list of this
size. Here it is the one that was freed last. -/
def freeChunksGet (wordSize : Nat) : Option Metachunk :=
  if listIndex wordSize = .humongousIndex then
    ((s.chunks (.free .humongousIndex)).filter (wordSize ≤ ·.wordSize)).argmin (·.wordSize)
  else (s.chunks (.free (listIndex wordSize))).head?

def chunkFreelistAllocate (wordSize : Nat) : Option (Metachunk × Metaspace) :=
  let list := .free (listIndex wordSize)
  (s.freeChunksGet wordSize).map fun c => (c, { s with
      chunks := update s.chunks list ((s.chunks list).erase c)
      freeChunksTotal := s.freeChunksTotal - c.wordSize
      freeChunksCount := s.freeChunksCount - 1
      handedOut := (wordSize, c) :: s.handedOut })

def addChunk (m : Nat) (c : Metachunk) : Metaspace :=
  let list := .inUse m (listIndex c.wordSize)
  { s with chunks := update s.chunks list (c :: s.chunks list) }

/-- A chunk that is carved out of the reserved memory. -/
def newChunk (wordSize : Nat) : Metachunk × Metaspace :=
  (⟨s.nextAddress, wordSize⟩, { s with nextAddress := s.nextAddress + wordSize })

def smallChunkLimit : Nat := 4

def calcChunkSize (isClass : Bool) (overhead : Nat) (s : Metaspace) (m wordSize : Nat) : Nat :=
  let chunkWordSize :=
    if s.chunks (.inUse m .mediumIndex) = [] ∧ (s.chunks (.inUse m .smallIndex)).length < smallChunkLimit then
      if smallChunk isClass < wordSize + overhead then mediumChunk isClass else smallChunk isClass
    else mediumChunk isClass
  max chunkWordSize ((wordSize + overhead + (specializedChunk - 1)) / specializedChunk * specializedChunk)

end Metaspace

/-- A space manager asks for a chunk to allocate some words, and memory can be carved out for a new one or not; what a
node has left over becomes a free chunk; a space manager is destroyed. -/
inductive ChunkEvent where
  | getNewChunk (m wordSize : Nat) (available : Bool)
  | returnChunk (i : ChunkIndex)
  | destroy (m : Nat)
  deriving DecidableEq

namespace Metaspace

variable (isClass : Bool) (overhead : Nat)

def nominalSize : ChunkIndex → Option Nat
  | .specializedIndex => some specializedChunk
  | .smallIndex => some (smallChunk isClass)
  | .mediumIndex => some (mediumChunk isClass)
  | .humongousIndex => none

def step (s : Metaspace) : ChunkEvent → Option Metaspace
  | .getNewChunk m wordSize available =>
    let n := s.calcChunkSize isClass overhead m wordSize
    match s.chunkFreelistAllocate n with
    | some (c, s) => some (s.addChunk m c)
    | none => some (if available then (s.newChunk n).2.addChunk m (s.newChunk n).1 else s)
  | .returnChunk i => (nominalSize isClass i).map fun n =>
    { (s.newChunk n).2 with
      chunks := update s.chunks (.free i) ((s.newChunk n).1 :: s.chunks (.free i))
      freeChunksTotal := s.freeChunksTotal + n
      freeChunksCount := s.freeChunksCount + 1 }
  | .destroy m => some { s with
      chunks := fun
        | .free i => (s.chunks (.inUse m i)).reverse ++ s.chunks (.free i)
        | .inUse m' i => if m' = m then [] else s.chunks (.inUse m' i)
      freeChunksTotal := s.freeChunksTotal + ∑ i, ((s.chunks (.inUse m i)).map (·.wordSize)).sum
      freeChunksCount := s.freeChunksCount + ∑ i, (s.chunks (.inUse m i)).length }

/-- The sizes for which `list_index` gives the list of the space: in the class space a medium chunk of the other space
is humongous. -/
def Proper (n : Nat) : Prop :=
  n = specializedChunk ∨ n = smallChunk isClass ∨ n = mediumChunk isClass ∨ mediumChunk isClass < n ∧
    n ≠ mediumChunk false

def Fits (s : Metaspace) : ChunkEvent → Prop
  | .getNewChunk m wordSize _ => isClass → s.calcChunkSize isClass overhead m wordSize ≠ mediumChunk false
  | _ => True

instance (s e) : Decidable (Fits isClass overhead s e) := by cases e <;> unfold Fits <;> infer_instance

structure Accounted (s : Metaspace) : Prop where
  handedOut : ∀ h ∈ s.handedOut, h.1 ≤ h.2.wordSize
  total : s.freeChunksTotal = ∑ i, ((s.chunks (.free i)).map (·.wordSize)).sum
  count : s.freeChunksCount = ∑ i, (s.chunks (.free i)).length

structure Sound (s : Metaspace) : Prop extends Accounted s where
  nominal : ∀ i, ∀ c ∈ s.chunks (.free i), ∀ n ∈ nominalSize isClass i, c.wordSize = n
  humongous : ∀ c ∈ s.chunks (.free .humongousIndex), mediumChunk isClass < c.wordSize
  nodup : ∀ p, ((s.chunks p).map (·.address)).Nodup
  apart : ∀ p q c d, c ∈ s.chunks p → d ∈ s.chunks q → c.address = d.address → p = q

variable {isClass overhead} {s s' : Metaspace} {chunks : Place → List Metachunk} {next : Nat}

structure Placed (isClass : Bool) (chunks : Place → List Metachunk) (next : Nat) : Prop where
  proper : ∀ p, ∀ c ∈ chunks p, Proper isClass c.wordSize ∧ listIndex c.wordSize = p.index ∧ c.address < next
  nodup : ∀ p, ((chunks p).map (·.address)).Nodup
  apart : ∀ p q c d, c ∈ chunks p → d ∈ chunks q → c.address = d.address → p = q

lemma Placed.push {p n} (h : Placed isClass chunks next) (hn : Proper isClass n) (hp : listIndex n = p.index) :
    Placed isClass (update chunks p (⟨next, n⟩ :: chunks p)) (next + n) := by
  have hpos : 0 < n := by simp only [Proper, specializedChunk, smallChunk, mediumChunk] at hn; grind
  have hold := h.proper
  have hnodup := h.nodup
  have hapart := h.apart
  refine ⟨fun q c hc => ?_, fun q => ?_, fun q q' c d hc hd heq => ?_⟩
  · grind
  · by_cases hq : q = p
    · subst hq
      grind
    · rw [update_of_ne hq]; exact hnodup q
  · grind

lemma Placed.move {i m c} (h : Placed isClass chunks next) (hc : c ∈ chunks (.free i)) :
    Placed isClass (update (update chunks (.free i) ((chunks (.free i)).erase c)) (.inUse m (listIndex c.wordSize))
      (c :: chunks (.inUse m (listIndex c.wordSize)))) next := by
  have hold := h.proper
  have hnodup := h.nodup
  have hapart := h.apart
  have herase : ∀ d ∈ (chunks (.free i)).erase c, d ∈ chunks (.free i) ∧ d.address ≠ c.address := by
    intro d hd
    refine ⟨mem_of_mem_erase hd, fun heq => ?_⟩
    have hne := (Nodup.of_map _ (hnodup (.free i))).mem_erase_iff.1 hd
    exact hne.1 (inj_on_of_nodup_map (hnodup (.free i)) hne.2 hc heq)
  refine ⟨fun q d hd => ?_, fun q => ?_, fun q q' d d' hd hd' heq => ?_⟩
  · simp only [update_apply] at hd; grind [Place.index]
  · simp only [update_apply]
    split
    · rw [map_cons]; grind
    · split
      · exact (hnodup _).sublist ((erase_sublist ..).map _)
      · exact hnodup q
  · simp only [update_apply] at hd hd'; grind

lemma Placed.destroy (h : Placed isClass chunks next) (m : Nat) : Placed isClass (fun
    | .free i => (chunks (.inUse m i)).reverse ++ chunks (.free i)
    | .inUse m' i => if m' = m then [] else chunks (.inUse m' i)) next := by
  have hold := h.proper
  have hnodup := h.nodup
  have hapart := h.apart
  refine ⟨fun q d hd => ?_, fun q => ?_, fun q q' d d' hd hd' heq => ?_⟩
  · cases q <;> grind [Place.index]
  · cases q with
    | free i => grind
    | inUse m' i => split <;> grind
  · cases q <;> cases q' <;> grind

lemma sum_index (f : ChunkIndex → Nat) :
    ∑ i, f i = f .specializedIndex + f .smallIndex + f .mediumIndex + f .humongousIndex := by
  simp [Finset.univ, Fintype.elems, Nat.add_assoc]

lemma proper_calcChunkSize {m wordSize}
    (h : isClass → s.calcChunkSize isClass overhead m wordSize ≠ mediumChunk false) :
    Proper isClass (s.calcChunkSize isClass overhead m wordSize) := by
  cases isClass <;> simp [Proper, calcChunkSize, specializedChunk, smallChunk] at h ⊢ <;> grind

lemma Proper.nominalSize {n} (h : Proper isClass n) : match nominalSize isClass (listIndex n) with
    | some k => n = k
    | none => mediumChunk isClass < n := by
  cases isClass <;> simp [Proper, specializedChunk, smallChunk, mediumChunk] at h <;>
    grind [nominalSize, listIndex, specializedChunk, smallChunk, mediumChunk]

lemma Placed.freeChunksGet {n c} (h : Placed isClass s.chunks s.nextAddress) (hn : Proper isClass n)
    (hc : s.freeChunksGet n = some c) : c ∈ s.chunks (.free (listIndex n)) ∧ n ≤ c.wordSize := by
  unfold Metaspace.freeChunksGet at hc
  split at hc
  · have hmem := argmin_mem hc
    simp_all
  · have hmem := mem_of_head? hc
    obtain ⟨hproper, hindex, -⟩ := h.proper _ c hmem
    have hcn := hproper.nominalSize
    have hnn := hn.nominalSize
    cases hi : listIndex n <;> simp_all [Metaspace.nominalSize, Place.index]

structure Inv (isClass : Bool) (s : Metaspace) : Prop extends Accounted s where
  placed : Placed isClass s.chunks s.nextAddress

lemma Inv.step {e} (h : Inv isClass s) (hfit : Fits isClass overhead s e) (hs : step isClass overhead s e = some s') :
    Inv isClass s' := by
  have htotal := h.total
  have hcount := h.count
  rw [sum_index] at htotal hcount
  cases e with
  | getNewChunk m wordSize available =>
    have hn := proper_calcChunkSize hfit
    simp only [Metaspace.step, chunkFreelistAllocate] at hs
    cases hget : s.freeChunksGet (s.calcChunkSize isClass overhead m wordSize) with
    | none =>
      simp only [hget, Option.map_none, Option.some.injEq] at hs
      subst hs
      split
      · exact { h with placed := h.placed.push hn rfl }
      · exact h
    | some c =>
      obtain ⟨hmem, hle⟩ := h.placed.freeChunksGet hn hget
      have hsum := sum_map_erase (·.wordSize) hmem
      simp only [hget, Option.map_some, Option.some.injEq] at hs
      subst hs
      refine ⟨⟨forall_mem_cons.2 ⟨hle, h.handedOut⟩, ?_, ?_⟩, h.placed.move hmem⟩ <;>
        simp only [addChunk, sum_index] <;>
        cases hi : listIndex (s.calcChunkSize isClass overhead m wordSize) <;>
        grind
  | returnChunk i =>
    obtain ⟨n, hn, rfl⟩ := Option.map_eq_some_iff.1 hs
    have hi : Proper isClass n ∧ listIndex n = i := by
      unfold Proper
      cases isClass <;> cases i <;> cases hn <;> decide
    refine ⟨⟨h.handedOut, ?_, ?_⟩, h.placed.push hi.1 hi.2⟩ <;> rw [sum_index] <;> cases i <;> grind [newChunk]
  | destroy m =>
    cases hs
    refine ⟨⟨h.handedOut, ?_, ?_⟩, h.placed.destroy m⟩ <;>
      simp [h.total, h.count, Finset.sum_add_distrib, Nat.add_comm]

lemma Inv.sound (h : Inv isClass s) : Sound isClass s where
  toAccounted := h.toAccounted
  nominal i c hc n hn := by
    obtain ⟨hproper, hindex, -⟩ := h.placed.proper _ c hc
    have := hproper.nominalSize
    simp_all [Place.index]
  humongous c hc := by
    obtain ⟨hproper, hindex, -⟩ := h.placed.proper _ c hc
    have := hproper.nominalSize
    simp_all [Place.index, nominalSize]
  nodup := h.placed.nodup
  apart := h.placed.apart

/-- In the space of the other metadata every run is sound, and in the class space every run in which no request is
rounded to the size of a medium chunk of the other space. -/
theorem free_chunks_fit_the_request {es}
    (h : run (guarded (Fits isClass overhead) (step isClass overhead)) empty es = some s) : Sound isClass s := by
  have hempty : Inv isClass empty := by refine ⟨⟨?_, ?_, ?_⟩, ?_, ?_, ?_⟩ <;> simp [empty]
  exact (run_invariant (Inv isClass) (fun _ => True)
    (fun s e s' hs _ he => hs.step (guarded_some he).1 (guarded_some he).2) hempty (by simp) h).sound

theorem free_chunks_fit_medium_data_request : ∃ s, Sound false s ∧ s.handedOut = [(8192, ⟨0, 8192⟩)] := by
  refine ⟨_, @free_chunks_fit_the_request false 5 _
    [.getNewChunk 0 1000 true, .destroy 0, .getNewChunk 1 8187 true] rfl, by decide⟩

/-- `list_index` takes the 8192 words for a medium chunk, and those of the class space have 4096. -/
theorem medium_class_chunk_for_humongous_request :
    ∃ s, run (step true 5) empty [.getNewChunk 0 1000 true, .destroy 0, .getNewChunk 1 8187 true] = some s ∧
      s.handedOut = [(8192, ⟨0, 4096⟩)] ∧ ¬ Sound true s :=
  ⟨_, rfl, by decide, fun h => absurd (h.handedOut (8192, ⟨0, 4096⟩) (by decide)) (by decide)⟩

end Metaspace

end Rolp.Memory
