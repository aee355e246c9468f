import Rolp.Bitmap.Lemmas.Words
import Mathlib.Order.Interval.Finset.Nat

/-!
# Bit maps are sets of indices

The bits of a map, also those after its size, are the members of a set of indices below the size.
-/

namespace Rolp.Bitmap

open Rolp.Lib Finset Function

/-! ## Sets of indices -/

structure IndexSet where
  size : Nat
  elems : Finset Nat

structure Sets (ι : Type) where
  sets : ι → IndexSet
  results : List Bool

namespace Sets

variable {ι : Type} [DecidableEq ι] (s : Sets ι)

variable (i : ι) (elems : Finset Nat)

def put : Sets ι :=
  { s with sets := update s.sets i { s.sets i with elems } }

def putWithResult : Sets ι :=
  { s.put i elems with results := s.results ++ [decide (elems ≠ (s.sets i).elems)] }

def step : Op ι → Sets ι
  | .setBit i bit => s.put i (insert bit (s.sets i).elems)
  | .clearBit i bit => s.put i ((s.sets i).elems.erase bit)
  | .setRange i beg stop _ => s.put i ((s.sets i).elems ∪ Finset.Ico beg stop)
  | .clearRange i beg stop _ => s.put i ((s.sets i).elems \ Finset.Ico beg stop)
  | .atPutGrow i _ offset value =>
    let size := if (s.sets i).size ≤ offset then 2 * max (s.sets i).size offset else (s.sets i).size
    let elems := if value then insert offset (s.sets i).elems else (s.sets i).elems.erase offset
    { s with sets := update s.sets i { size, elems } }
  | .setUnion i j => s.put i ((s.sets i).elems ∪ (s.sets j).elems)
  | .setDifference i j => s.put i ((s.sets i).elems \ (s.sets j).elems)
  | .setIntersection i j => s.put i ((s.sets i).elems ∩ (s.sets j).elems)
  | .setUnionWithResult i j => s.putWithResult i ((s.sets i).elems ∪ (s.sets j).elems)
  | .setDifferenceWithResult i j => s.putWithResult i ((s.sets i).elems \ (s.sets j).elems)
  | .setIntersectionWithResult i j => s.putWithResult i ((s.sets i).elems ∩ (s.sets j).elems)

/-- Indices and ranges are in the map, and the maps of an operation have the same size. A large range reaches a word
boundary. A map does not grow for the offset 0, and its new size fits. -/
def Legal : Op ι → Prop
  | .setBit i bit | .clearBit i bit => bit < (s.sets i).size
  | .setRange i beg stop hint | .clearRange i beg stop hint =>
    beg ≤ stop ∧ stop ≤ (s.sets i).size ∧ (hint = .largeRange → (beg + 63) / 64 ≤ stop / 64)
  | .atPutGrow i _ offset _ => (s.sets i).size ≤ offset → offset ≠ 0 ∧ 2 * offset + 63 < 2 ^ 64
  | .setUnion i j | .setDifference i j | .setIntersection i j
  | .setUnionWithResult i j | .setDifferenceWithResult i j | .setIntersectionWithResult i j =>
    (s.sets i).size = (s.sets j).size

instance (s : Sets ι) : (op : Op ι) → Decidable (s.Legal op)
  | .setBit _ _ | .clearBit _ _ => inferInstanceAs (Decidable (_ < _))
  | .setRange _ _ _ _ | .clearRange _ _ _ _ => inferInstanceAs (Decidable (_ ∧ _))
  | .atPutGrow _ _ _ _ => inferInstanceAs (Decidable (_ → _))
  | .setUnion _ _ | .setDifference _ _ | .setIntersection _ _
  | .setUnionWithResult _ _ | .setDifferenceWithResult _ _ | .setIntersectionWithResult _ _ =>
    inferInstanceAs (Decidable (_ = _))

def LegalRun : Sets ι → List (Op ι) → Prop
  | _, [] => True
  | s, op :: ops => s.Legal op ∧ LegalRun (s.step op) ops

instance decidableLegalRun : (s : Sets ι) → (ops : List (Op ι)) → Decidable (s.LegalRun ops)
  | _, [] => inferInstanceAs (Decidable True)
  | s, op :: ops =>
    have := decidableLegalRun (s.step op) ops
    inferInstanceAs (Decidable (_ ∧ _))

end Sets

/-! ## One map -/

namespace BitMap

variable {m m' : BitMap} {s : IndexSet} {value : Bool} {p : Nat → Prop} {elems : Finset Nat}

structure Represents (m : BitMap) (s : IndexSet) : Prop where
  size : m.size = s.size
  fits : m.Fits
  lt_size : ∀ k ∈ s.elems, k < s.size
  bits : ∀ k < 64 * m.sizeInWords, bitAt m.map k = decide (k ∈ s.elems)

variable {k : Nat}

section

variable (h : m.Represents s)

include h

lemma Represents.lt_words (hk : k < s.size) : k < 64 * m.sizeInWords :=
  Nat.lt_of_lt_of_le (by rwa [h.size]) h.fits.size_le

lemma Represents.word_lt (hk : k < s.size) : k / 64 < m.sizeInWords := Nat.div_lt_of_lt_mul (h.lt_words hk)

lemma Represents.bit_iff (hk : k < 64 * m.sizeInWords) : bitAt m.map k = true ↔ k ∈ s.elems := by
  rw [h.bits k hk, decide_eq_true_eq]

lemma Represents.puts (hp : Puts value p m m') (hsize : ∀ k, p k → k < s.size)
    (hin : ∀ k, p k → (k ∈ elems ↔ value = true)) (hout : ∀ k, ¬p k → (k ∈ elems ↔ k ∈ s.elems)) :
    m'.Represents { s with elems } := by
  refine ⟨hp.size.trans h.size, ?_, fun k hk => ?_, fun k hk => ?_⟩
  · rw [Fits, hp.size]
    exact h.fits
  · by_cases hpk : p k
    · exact hsize k hpk
    · exact h.lt_size k ((hout k hpk).1 hk)
  · rw [sizeInWords_congr hp.size] at hk
    by_cases hpk : p k
    · rw [hp.inside k hpk, Bool.eq_iff_iff, decide_eq_true_eq, hin k hpk]
    · rw [hp.outside k hpk, h.bits k hk, Bool.eq_iff_iff, decide_eq_true_eq, decide_eq_true_eq, hout k hpk]

lemma Represents.resize {size} (fresh) (hle : s.size ≤ size)
    (hsize : size + 63 < 2 ^ 64) : ∃ m', m.resize fresh size = some m' ∧ m'.Represents { s with size } := by
  obtain ⟨m', h', hsize', hold, hnew⟩ := resize_spec fresh h.fits (by rwa [h.size]) hsize
  refine ⟨m', h', hsize', ?_, fun k hk => (h.lt_size k hk).trans_le hle, fun k hk => ?_⟩
  · rw [Fits, hsize']
    exact hsize
  · by_cases hk' : k < 64 * m.sizeInWords
    · rw [hold k hk', h.bits k hk']
    · rw [hnew k (not_lt.1 hk') hk, eq_comm, decide_eq_false_iff_not]
      exact fun hmem => hk' (h.lt_words (h.lt_size k hmem))

end

lemma represents_new (fresh) {size} (hsize : size + 63 < 2 ^ 64) :
    ∃ m, new fresh size = some m ∧ m.Represents ⟨size, ∅⟩ := by
  have hfits : (⟨fresh, 0⟩ : BitMap).Fits := (by decide : 0 + 63 < 2 ^ 64)
  have hwords : (⟨fresh, 0⟩ : BitMap).sizeInWords = 0 :=
    hfits.sizeInWords.trans (Nat.div_eq_of_lt (by decide : 0 + 63 < 64))
  have hnil : (⟨fresh, 0⟩ : BitMap).Represents ⟨0, ∅⟩ := by
    refine ⟨rfl, hfits, by simp, fun k hk => ?_⟩
    rw [hwords] at hk
    exact absurd hk (Nat.not_lt_zero k)
  exact hnil.resize fresh (Nat.zero_le size) hsize

section

variable (h : m.Represents s)

include h

lemma Represents.atPut (value) {bit} (hbit : bit < s.size) : ∃ m', m.atPut bit value = some m' ∧
      m'.Represents { s with elems := if value then insert bit s.elems else s.elems.erase bit } := by
  obtain ⟨m', h', hp⟩ := atPut_spec value (h.word_lt hbit)
  refine ⟨m', h', h.puts hp (fun k hk => by rwa [hk]) (fun k hk => ?_) fun k hk => ?_⟩
  · cases value <;> simp [hk]
  · cases value <;> simp [hk]

lemma Represents.putRangeWithHint (value) {beg stop} (hle : beg ≤ stop)
    (hstop : stop ≤ s.size) {hint} (hfull : hint = .largeRange → (beg + 63) / 64 ≤ stop / 64) :
    ∃ m', BitMap.putRangeWithHint value m beg stop hint = some m' ∧ m'.Represents
      { s with elems := if value then s.elems ∪ Finset.Ico beg stop else s.elems \ Finset.Ico beg stop } := by
  have hstop' : stop ≤ m.size := by rwa [h.size]
  have hfull' : hint = .largeRange → m.wordIndexRoundUp beg ≤ wordIndex stop := fun hlarge => by
    rw [h.fits.wordIndexRoundUp (hle.trans hstop')]
    exact hfull hlarge
  obtain ⟨m', h', hp⟩ := putRangeWithHint_spec h.fits value hle hstop' hfull'
  refine ⟨m', h', h.puts hp (fun k hk => hk.2.trans_le hstop) (fun k hk => ?_) fun k hk => ?_⟩
  · cases value <;> simp [hk]
  · have hnot : k ∉ Finset.Ico beg stop := by rwa [mem_Ico]
    cases value <;> simp only [Bool.false_eq_true, if_true, if_false, mem_union, mem_sdiff, hnot, or_false,
      not_false_eq_true, and_true]

lemma Represents.atPutGrow (fresh) {offset} (value) (hgrow : s.size ≤ offset → offset ≠ 0 ∧ 2 * offset + 63 < 2 ^ 64) :
    ∃ m', m.atPutGrow fresh offset value = some m' ∧ m'.Represents
      { size := if s.size ≤ offset then 2 * max s.size offset else s.size,
        elems := if value then insert offset s.elems else s.elems.erase offset } := by
  rw [BitMap.atPutGrow, h.size]
  by_cases hle : s.size ≤ offset
  · obtain ⟨hne, hfit⟩ := hgrow hle
    have hmax : max s.size offset = offset := max_eq_right hle
    rw [if_pos hle, if_pos hle, hmax, idx_of_lt (by omega)]
    obtain ⟨m1, h1, hr1⟩ := h.resize fresh (show s.size ≤ 2 * offset by omega) hfit
    rw [h1]
    exact hr1.atPut value (show offset < 2 * offset by omega)
  · rw [if_neg hle, if_neg hle]
    exact h.atPut value (not_le.1 hle)

/-! ### Questions -/

lemma Represents.atIndex_eq (hk : k < m.size) : m.atIndex k = decide (k ∈ s.elems) := by
  rw [BitMap.atIndex_eq, h.bits k (h.lt_words (by rwa [← h.size]))]

lemma Represents.isEmpty_iff : m.isEmpty = true ↔ s.elems = ∅ := by
  rw [BitMap.isEmpty_iff, eq_empty_iff_forall_notMem]
  constructor
  · intro hall k hk
    have hlt := h.lt_size k hk
    have hfalse := hall k (by rwa [h.size])
    rw [h.bits k (h.lt_words hlt), decide_eq_false_iff_not] at hfalse
    exact hfalse hk
  · intro hnone k hk
    rw [h.bits k (h.lt_words (by rwa [← h.size])), decide_eq_false_iff_not]
    exact hnone k

lemma Represents.isFull_iff : m.isFull = true ↔ s.elems = Finset.range s.size := by
  rw [BitMap.isFull_iff, Finset.ext_iff]
  constructor
  · intro hall k
    rw [mem_range]
    refine ⟨h.lt_size k, fun hk => ?_⟩
    exact (h.bit_iff (h.lt_words hk)).1 (hall k (by rwa [h.size]))
  · intro heq k hk
    rw [h.size] at hk
    exact (h.bit_iff (h.lt_words hk)).2 ((heq k).2 (mem_range.2 hk))

lemma Represents.countOneBits_eq : m.countOneBits = some s.elems.card := by
  rw [BitMap.countOneBits_eq, bitCount_congr h.bits]
  congr 1
  have hfilter : s.elems = (range (64 * m.sizeInWords)).filter (· ∈ s.elems) := by
    ext k
    rw [mem_filter, mem_range]
    exact ⟨fun hk => ⟨h.lt_words (h.lt_size k hk), hk⟩, fun hk => hk.2⟩
  rw [bitCount, List.countP_eq_length_filter]
  conv_rhs => rw [hfilter]
  rfl

end

variable {other : BitMap} {s' : IndexSet}

lemma Represents.sizeInWords_eq (h : m.Represents s) (h' : other.Represents s') (hsize : s.size = s'.size) :
    other.sizeInWords = m.sizeInWords := sizeInWords_congr (by rw [h.size, h'.size, hsize])

lemma Represents.contains_iff (h : m.Represents s) (h' : other.Represents s') (hsize : s.size = s'.size) :
    m.contains other = true ↔ s'.elems ⊆ s.elems := by
  have hwords := h.sizeInWords_eq h' hsize
  rw [BitMap.contains_iff]
  constructor
  · intro hall k hk
    have hlt := h'.lt_words (h'.lt_size k hk)
    have hlt' := hlt
    rw [hwords] at hlt'
    exact (h.bit_iff hlt').1 (hall k hlt' ((h'.bit_iff hlt).2 hk))
  · intro hsub k hk hbit
    have hk' := hk
    rw [← hwords] at hk'
    exact (h.bit_iff hk).2 (hsub ((h'.bit_iff hk').1 hbit))

lemma Represents.isSame_iff (h : m.Represents s) (h' : other.Represents s') (hsize : s.size = s'.size) :
    m.isSame other = true ↔ s.elems = s'.elems := by
  have hwords := h.sizeInWords_eq h' hsize
  rw [BitMap.isSame_iff, Finset.ext_iff]
  constructor
  · intro hall k
    by_cases hk : k < 64 * m.sizeInWords
    · have hk' := hk
      rw [← hwords] at hk'
      rw [← h.bit_iff hk, ← h'.bit_iff hk', hall k hk]
    · refine iff_of_false (fun hmem => hk (h.lt_words (h.lt_size k hmem))) fun hmem => hk ?_
      rw [← hwords]
      exact h'.lt_words (h'.lt_size k hmem)
  · intro heq k hk
    have hk' := hk
    rw [← hwords] at hk'
    rw [Bool.eq_iff_iff, h.bit_iff hk, h'.bit_iff hk', heq k]

end BitMap

/-! ## Runs -/

section Runs

variable {ι : Type} [DecidableEq ι]

structure Refines (s : State ι) (a : Sets ι) : Prop where
  maps : ∀ i, (s.maps i).Represents (a.sets i)
  results : s.results = a.results

variable {s : State ι} {a : Sets ι}

lemma Refines.update (h : Refines s a) (i) {m set} (hm : m.Represents set) (k) :
    (update s.maps i m k).Represents (update a.sets i set k) := by
  by_cases hk : k = i
  · subst hk
    rwa [update_self, update_self]
  · rw [update_of_ne hk, update_of_ne hk]
    exact h.maps k

variable {i : ι}

lemma Refines.put (h : Refines s a) {m set} (hm : ∃ m', m = some m' ∧ m'.Represents set) :
    ∃ s', s.put i m = some s' ∧ Refines s' { a with sets := Function.update a.sets i set } := by
  obtain ⟨m', rfl, hrep⟩ := hm
  exact ⟨_, rfl, h.update i hrep, h.results⟩

structure BitwiseOn (f : Word → Word → Word) (elems elems1 elems2 : Finset Nat) (g : Bool → Bool → Bool) : Prop where
  words : ∀ x y l, l < 64 → (f x y).getLsbD l = g (x.getLsbD l) (y.getLsbD l)
  mem : ∀ k, decide (k ∈ elems) = g (decide (k ∈ elems1)) (decide (k ∈ elems2))
  none : g false false = false

lemma bitwiseOn_union (s t) : BitwiseOn (· ||| ·) (s ∪ t) s t or :=
  ⟨fun _ _ _ _ => BitVec.getLsbD_or, fun k => by simp [mem_union], rfl⟩

lemma bitwiseOn_sdiff (s t) : BitwiseOn (· &&& ~~~·) (s \ t) s t fun x y => x && !y := by
  refine ⟨fun x y l hl => ?_, fun k => by simp [mem_sdiff], rfl⟩
  rw [BitVec.getLsbD_and, BitVec.getLsbD_not, decide_eq_true hl, Bool.true_and]

lemma bitwiseOn_inter (s t) : BitwiseOn (· &&& ·) (s ∩ t) s t and :=
  ⟨fun _ _ _ _ => BitVec.getLsbD_and, fun k => by simp [mem_inter], rfl⟩

variable {j : ι} {f : Word → Word → Word} {g : Bool → Bool → Bool}

section

variable (h : Refines s a)

include h

section

variable (hsize : (a.sets i).size = (a.sets j).size)

include hsize

lemma Refines.combine {elems} (hf : BitwiseOn f elems (a.sets i).elems (a.sets j).elems g) :
    ∃ m, Bitmap.combine f i j s.maps = (Function.update s.maps i m, decide (elems ≠ (a.sets i).elems)) ∧
      m.Represents { a.sets i with elems } := by
  obtain ⟨m, changed, hm, hmsize, hbits, hchanged⟩ := combine_spec hf.words i j s.maps
  have hwords := (h.maps i).sizeInWords_eq (h.maps j) hsize
  have hmem : ∀ k < 64 * (s.maps i).sizeInWords, bitAt m.map k = decide (k ∈ elems) := by
    intro k hk
    rw [hbits k hk, (h.maps i).bits k hk, (h.maps j).bits k (by rwa [hwords]), hf.mem]
  have hlt : ∀ k ∈ elems, k < (a.sets i).size := by
    intro k hk
    by_contra hge
    have hi : k ∉ (a.sets i).elems := fun hi => hge ((h.maps i).lt_size k hi)
    have hj : k ∉ (a.sets j).elems := fun hj => hge (hsize ▸ (h.maps j).lt_size k hj)
    have hk' := hf.mem k
    rw [decide_eq_true hk, decide_eq_false hi, decide_eq_false hj, hf.none] at hk'
    cases hk'
  have hfits : m.Fits := by
    rw [BitMap.Fits, hmsize]
    exact (h.maps i).fits
  have hrep : m.Represents { a.sets i with elems } := by
    refine ⟨hmsize.trans (h.maps i).size, hfits, hlt, fun k hk => hmem k ?_⟩
    rwa [BitMap.sizeInWords_congr hmsize] at hk
  refine ⟨m, ?_, hrep⟩
  have hresult : changed = decide (elems ≠ (a.sets i).elems) := by
    rw [Bool.eq_iff_iff, hchanged, decide_eq_true_eq, Ne, Finset.ext_iff, not_forall]
    constructor
    · rintro ⟨k, hk, hne⟩
      rw [hmem k hk, (h.maps i).bits k hk] at hne
      exact ⟨k, fun hiff => hne (by rw [Bool.eq_iff_iff, decide_eq_true_eq, decide_eq_true_eq, hiff])⟩
    rintro ⟨k, hne⟩
    by_cases hk : k < 64 * (s.maps i).sizeInWords
    · refine ⟨k, hk, fun heq => hne ?_⟩
      rw [hmem k hk, (h.maps i).bits k hk, Bool.eq_iff_iff, decide_eq_true_eq, decide_eq_true_eq] at heq
      exact heq
    · refine absurd (iff_of_false (fun hmem' => hk ?_) fun hmem' => hk ?_) hne
      · exact (h.maps i).lt_words (hlt k hmem')
      · exact (h.maps i).lt_words ((h.maps i).lt_size k hmem')
  rw [hm, hresult]

lemma Refines.combine_maps {elems} (hf : BitwiseOn f elems (a.sets i).elems (a.sets j).elems g) :
    ∃ s', some { s with maps := (Bitmap.combine f i j s.maps).1 } = some s' ∧ Refines s' (a.put i elems) := by
  obtain ⟨m, hm, hrep⟩ := h.combine hsize hf
  rw [hm]
  exact ⟨_, rfl, h.update i hrep, h.results⟩

lemma Refines.combine_results {elems} (hf : BitwiseOn f elems (a.sets i).elems (a.sets j).elems g) :
    ∃ s', some (State.mk (Bitmap.combine f i j s.maps).1 (s.results ++ [(Bitmap.combine f i j s.maps).2])) = some s' ∧
      Refines s' (a.putWithResult i elems) := by
  obtain ⟨m, hm, hrep⟩ := h.combine hsize hf
  rw [hm]
  exact ⟨_, rfl, h.update i hrep, by rw [h.results]; rfl⟩

end

lemma Refines.step {op} (hop : a.Legal op) : ∃ s', s.step op = some s' ∧ Refines s' (a.step op) := by
  cases op with
  | setBit i bit => exact h.put ((h.maps i).atPut true hop)
  | clearBit i bit => exact h.put ((h.maps i).atPut false hop)
  | setRange i beg stop hint => exact h.put ((h.maps i).putRangeWithHint true hop.1 hop.2.1 hop.2.2)
  | clearRange i beg stop hint => exact h.put ((h.maps i).putRangeWithHint false hop.1 hop.2.1 hop.2.2)
  | atPutGrow i fresh offset value => exact h.put ((h.maps i).atPutGrow fresh value hop)
  | setUnion i j => exact h.combine_maps hop (bitwiseOn_union _ _)
  | setDifference i j => exact h.combine_maps hop (bitwiseOn_sdiff _ _)
  | setIntersection i j => exact h.combine_maps hop (bitwiseOn_inter _ _)
  | setUnionWithResult i j => exact h.combine_results hop (bitwiseOn_union _ _)
  | setDifferenceWithResult i j => exact h.combine_results hop (bitwiseOn_sdiff _ _)
  | setIntersectionWithResult i j => exact h.combine_results hop (bitwiseOn_inter _ _)

lemma Refines.run {ops} (hops : a.LegalRun ops) :
    ∃ s', Lib.run State.step s ops = some s' ∧ Refines s' (ops.foldl Sets.step a) := by
  induction ops generalizing s a with
  | nil => exact ⟨s, rfl, h⟩
  | cons op ops ih =>
    obtain ⟨s1, h1, hr1⟩ := h.step hops.1
    obtain ⟨s', h', hr'⟩ := ih hr1 hops.2
    exact ⟨s', by rw [run_cons, h1, Option.bind_some, h'], hr'⟩

end

end Runs

/-- Over every run of legal operations on maps that start out clear, the maps are the sets that the operations on sets
give, with the same results and answers. -/
theorem bitmaps_refine_index_sets {ι : Type} [DecidableEq ι] (fresh : ι → Nat → Word) (size : ι → Nat)
    (hsize : ∀ i, size i + 63 < 2 ^ 64) (ops : List (Op ι)) (hops : Sets.LegalRun ⟨fun i => ⟨size i, ∅⟩, []⟩ ops) :
    ∃ maps, (∀ i, BitMap.new (fresh i) (size i) = some (maps i)) ∧
      ∃ s a, run State.step ⟨maps, []⟩ ops = some s ∧ ops.foldl Sets.step ⟨fun i => ⟨size i, ∅⟩, []⟩ = a ∧
        s.results = a.results ∧ ∀ i,
          (s.maps i).size = (a.sets i).size ∧ (a.sets i).elems ⊆ Finset.range (a.sets i).size ∧
          (∀ k < (s.maps i).size, (s.maps i).atIndex k = decide (k ∈ (a.sets i).elems)) ∧
          ((s.maps i).isEmpty = true ↔ (a.sets i).elems = ∅) ∧
          ((s.maps i).isFull = true ↔ (a.sets i).elems = Finset.range (a.sets i).size) ∧
          (s.maps i).countOneBits = some (a.sets i).elems.card ∧ ∀ j, (a.sets i).size = (a.sets j).size →
            ((s.maps i).contains (s.maps j) = true ↔ (a.sets j).elems ⊆ (a.sets i).elems) ∧
            ((s.maps i).isSame (s.maps j) = true ↔ (a.sets i).elems = (a.sets j).elems) := by
  choose maps hnew hrep using fun i => BitMap.represents_new (fresh i) (hsize i)
  have hstart : Refines ⟨maps, []⟩ ⟨fun i => ⟨size i, ∅⟩, []⟩ := ⟨hrep, rfl⟩
  obtain ⟨s, hs, hr⟩ := hstart.run hops
  refine ⟨maps, hnew, s, _, hs, rfl, hr.results, fun i => ?_⟩
  have hi := hr.maps i
  exact ⟨hi.size, fun k hk => mem_range.2 (hi.lt_size k hk), fun k hk => hi.atIndex_eq hk, hi.isEmpty_iff,
    hi.isFull_iff, hi.countOneBits_eq, fun j hj => ⟨hi.contains_iff (hr.maps j) hj, hi.isSame_iff (hr.maps j) hj⟩⟩

def unionAndGrow : List (Op Bool) :=
  [.setRange false 60 70 .unknownRange, .setBit true 3, .setUnionWithResult true false,
    .atPutGrow false (fun _ => 1#64) 150 true]

theorem bitmaps_refine_index_sets_two_maps : ∃ maps, (∀ i, BitMap.new (fun _ => 0#64) 100 = some (maps i)) ∧
      ∃ s, run State.step ⟨maps, []⟩ unionAndGrow = some s ∧
        s.results = [true] ∧ (s.maps false).size = 300 ∧ (s.maps false).countOneBits = some 11 ∧
        (s.maps true).countOneBits = some 11 := by
  obtain ⟨maps, hnew, s, a, hs, ha, hresults, hall⟩ := bitmaps_refine_index_sets (fun _ : Bool => fun _ => 0#64)
    (fun _ => 100) (by decide) unionAndGrow (by decide)
  subst ha
  obtain ⟨hsize, -, -, -, -, hcount, -⟩ := hall false
  obtain ⟨-, -, -, -, -, hcount', -⟩ := hall true
  exact ⟨maps, hnew, s, hs, hresults.trans (by decide), hsize.trans (by decide), hcount.trans (by decide),
    hcount'.trans (by decide)⟩

/-- A map of size 0 does not grow for the offset 0, and the bit is written outside of it. A large range inside of one
word passes the assertion, and the `memset` runs out of the map. -/
theorem bitmap_at_put_grow_leaves_map :
    (∃ m, BitMap.new (fun _ => 0#64) 0 = some m ∧ m.atPutGrow (fun _ => 0#64) 0 true = none) ∧
      ∃ m, BitMap.new (fun _ => 0#64) 64 = some m ∧ m.LargeRangeAsserted 1 2 ∧ m.setRange 1 2 .largeRange = none :=
  ⟨⟨_, rfl, rfl⟩, ⟨_, rfl, by decide, rfl⟩⟩

end Rolp.Bitmap
