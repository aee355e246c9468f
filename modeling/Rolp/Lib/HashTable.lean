import Mathlib.Algebra.BigOperators.Group.Finset.Piecewise
import Mathlib.Data.List.FinRange

/-!
# Hash tables
-/

/-!
## Lists with distinct keys

No two elements have the same key. A bucket holds the elements whose keys have the same hash.
-/

namespace Rolp.Lib

open List Function

variable {α κ β : Type} [DecidableEq κ] [DecidableEq β] {key : α → κ} {l : List α} {k : κ} {a : α}

lemma find?_bucket (key : α → κ) (hash : κ → β) (l : List α) (k : κ) :
    (l.filter fun a => hash (key a) = hash k).find? (fun a => key a = k) = l.find? fun a => key a = k := by
  rw [find?_filter]
  congr 1
  funext a
  by_cases h : key a = k <;> simp [h]

lemma find?_key_eq_none_iff : l.find? (fun a => key a = k) = none ↔ ∀ a ∈ l, key a ≠ k := by simp [find?_eq_none]

lemma find?_key_eq_some_iff (hn : (l.map key).Nodup) : l.find? (fun a => key a = k) = some a ↔ a ∈ l ∧ key a = k := by
  constructor
  · intro h
    exact ⟨mem_of_find?_eq_some h, by simpa using find?_some h⟩
  · rintro ⟨ha, hk⟩
    cases h : l.find? fun a => key a = k with
    | none => exact absurd hk (find?_key_eq_none_iff.1 h a ha)
    | some a' =>
      have hk' : key a' = k := by simpa using find?_some h
      rw [inj_on_of_nodup_map hn ha (mem_of_find?_eq_some h) (hk.trans hk'.symm)]

lemma flatMap_bucket_perm (hash : α → β) {hashes : List β} (hn : hashes.Nodup) (hmem : ∀ a ∈ l, hash a ∈ hashes) :
    (hashes.flatMap fun b => l.filter fun a => hash a = b).Perm l := by
  induction hashes generalizing l with
  | nil =>
    cases l with
    | nil => exact .refl []
    | cons a l => exact absurd (hmem a mem_cons_self) not_mem_nil
  | cons b hashes ih =>
    obtain ⟨hb, hn⟩ := nodup_cons.1 hn
    -- The other buckets are those of the elements outside of the first one.
    have hrest : (hashes.flatMap fun b' => l.filter fun a => hash a = b') =
        hashes.flatMap fun b' => (l.filter fun a => !decide (hash a = b)).filter fun a => hash a = b' := by
      refine flatMap_congr fun b' hb' => ?_
      rw [filter_filter]
      refine filter_congr fun a _ => ?_
      by_cases h : hash a = b'
      · have hne : b' ≠ b := fun heq => hb (heq ▸ hb')
        simp [h, hne]
      · simp [h]
    have hmem' : ∀ a ∈ l.filter (fun a => !decide (hash a = b)), hash a ∈ hashes := by
      intro a ha
      obtain ⟨hal, hne⟩ := mem_filter.1 ha
      refine (mem_cons.1 (hmem a hal)).resolve_left ?_
      simpa using hne
    rw [flatMap_cons, hrest]
    exact ((ih hn hmem').append_left _).trans (filter_append_perm _ l)

lemma nodup_flatMap_pairs {κ ν : Type} {key : α → κ} {values : α → List ν} (hkeys : (l.map key).Nodup)
    (hvalues : ∀ a ∈ l, (values a).Nodup) : (l.flatMap fun a => (values a).map (Prod.mk (key a))).Nodup := by
  rw [nodup_flatMap]
  refine ⟨fun a ha => (hvalues a ha).map (Prod.mk_right_injective _), (pairwise_map.1 hkeys).imp ?_⟩
  intro a b hne
  refine disjoint_left.2 fun p hp hp' => ?_
  obtain ⟨v, -, rfl⟩ := mem_map.1 hp
  obtain ⟨v', -, heq⟩ := mem_map.1 hp'
  exact hne (congrArg Prod.fst heq).symm

/-!
## Hash tables with chained buckets

A bucket is a chain of entries, and a key lives in the bucket that its slot gives modulo the number of buckets. New
entries are pushed at the head. The table carries the proof that every entry is in the bucket of its key and that no key
occurs twice, so it is a finite map.
-/

open Function

variable {K V : Type} [DecidableEq K]

/-! ## Chains -/

structure Entry (K V : Type) where
  key : K
  literal : V

/-- The entry at which a walk for `k` stops: the first one with that key, or the last one of the chain. -/
def stopEntry (k : K) : Entry K V → List (Entry K V) → Entry K V
  | e, [] => e
  | e, e' :: es => if e.key = k then e else stopEntry k e' es

def chainFind (k : K) : List (Entry K V) → Option V
  | [] => none
  | e :: es => if (stopEntry k e es).key = k then some (stopEntry k e es).literal else none

def chainModify (k : K) (f : V → V) (es : List (Entry K V)) : List (Entry K V) :=
  es.map fun e => if e.key = k then ⟨e.key, f e.literal⟩ else e

@[simp] lemma chainFind_nil (k) : chainFind k ([] : List (Entry K V)) = none := rfl

lemma chainFind_cons (k : K) (e : Entry K V) (es : List (Entry K V)) :
    chainFind k (e :: es) = if e.key = k then some e.literal else chainFind k es := by
  cases es with
  | nil => rfl
  | cons e' es =>
    by_cases h : e.key = k
    · simp [chainFind, stopEntry, h]
    · simp [chainFind, stopEntry, h]

variable {k : K}

lemma chainFind_eq_none_iff {es : List (Entry K V)} : chainFind k es = none ↔ ∀ e ∈ es, e.key ≠ k := by
  induction es with
  | nil => simp
  | cons e es ih =>
    rw [chainFind_cons]
    by_cases h : e.key = k
    · simp [h]
    · simp [h, ih]

lemma chainFind_eq_some_iff {v : V} {es : List (Entry K V)} (hn : (es.map Entry.key).Nodup) :
    chainFind k es = some v ↔ ⟨k, v⟩ ∈ es := by
  induction es with
  | nil => simp
  | cons e es ih =>
    rw [map_cons, nodup_cons] at hn
    rw [chainFind_cons]
    by_cases h : e.key = k
    · have hnot : (⟨k, v⟩ : Entry K V) ∉ es := by
        intro hm
        exact hn.1 (h ▸ mem_map_of_mem hm)
      obtain ⟨k', v'⟩ := e
      subst h
      simp [hnot, eq_comm]
    · have hne : (⟨k, v⟩ : Entry K V) ≠ e := by
        rintro rfl
        exact h rfl
      simp [h, hne, ih hn.2]

lemma map_key_chainModify (k : K) (f : V → V) (es : List (Entry K V)) :
    (chainModify k f es).map Entry.key = es.map Entry.key := by
  rw [chainModify, map_map]
  apply map_congr_left
  intro e _
  by_cases h : e.key = k <;> simp [h]

lemma chainFind_chainModify (k k' : K) (f : V → V) (es : List (Entry K V)) :
    chainFind k' (chainModify k f es) = if k' = k then (chainFind k' es).map f else chainFind k' es := by
  induction es with
  | nil => simp [chainModify]
  | cons e es ih =>
    rw [show chainModify k f (e :: es) = (if e.key = k then ⟨e.key, f e.literal⟩ else e) :: chainModify k f es
      from rfl, chainFind_cons, chainFind_cons, ih]
    by_cases hk : k' = k
    · subst hk
      by_cases he : e.key = k' <;> simp [he]
    · by_cases he : e.key = k
      · simp [he, hk, Ne.symm hk]
      · simp [he, hk]

lemma chainFind_map (k : K) (f : V → V) (es : List (Entry K V)) :
    chainFind k (es.map fun e => ⟨e.key, f e.literal⟩) = (chainFind k es).map f := by
  induction es with
  | nil => rfl
  | cons e es ih =>
    rw [map_cons, chainFind_cons, chainFind_cons, ih]
    by_cases he : e.key = k <;> simp [he]

/-! ## Tables -/

/-- A table whose keys are spread over the buckets by `slot`. -/
structure ChainTable (K V : Type) (slot : K → Nat) where
  size : Nat
  size_pos : 0 < size
  bucket : Fin size → List (Entry K V)
  placed : ∀ i, ∀ e ∈ bucket i, slot e.key % size = i
  nodup : ∀ i, ((bucket i).map Entry.key).Nodup

namespace ChainTable

variable {slot : K → Nat}

def empty (size : Nat) (h : 0 < size) : ChainTable K V slot where
  size := size
  size_pos := h
  bucket := fun _ => []
  placed := by simp
  nodup := by simp

variable (t : ChainTable K V slot)

def index (k : K) : Fin t.size := ⟨slot k % t.size, Nat.mod_lt _ t.size_pos⟩

def find? (k : K) : Option V := chainFind k (t.bucket (t.index k))

def addEntry (k : K) (v : V) (h : t.find? k = none) : ChainTable K V slot where
  size := t.size
  size_pos := t.size_pos
  bucket := update t.bucket (t.index k) (⟨k, v⟩ :: t.bucket (t.index k))
  placed := by
    intro i e he
    by_cases hi : i = t.index k
    · subst hi
      rw [update_self, mem_cons] at he
      rcases he with rfl | he
      · rfl
      · exact t.placed _ e he
    · rw [update_of_ne hi] at he
      exact t.placed i e he
  nodup := by
    intro i
    by_cases hi : i = t.index k
    · subst hi
      rw [update_self, map_cons, nodup_cons]
      refine ⟨?_, t.nodup _⟩
      intro hm
      obtain ⟨e, he, hk⟩ := mem_map.1 hm
      exact chainFind_eq_none_iff.1 h e he hk
    · rw [update_of_ne hi]
      exact t.nodup i

def modify (k : K) (f : V → V) : ChainTable K V slot where
  size := t.size
  size_pos := t.size_pos
  bucket := update t.bucket (t.index k) (chainModify k f (t.bucket (t.index k)))
  placed := by
    intro i e he
    by_cases hi : i = t.index k
    · subst hi
      rw [update_self] at he
      have hk : e.key ∈ (t.bucket (t.index k)).map Entry.key := by
        rw [← map_key_chainModify k f]
        exact mem_map_of_mem he
      obtain ⟨e', he', hkey⟩ := mem_map.1 hk
      rw [← hkey]
      exact t.placed _ e' he'
    · rw [update_of_ne hi] at he
      exact t.placed i e he
  nodup := by
    intro i
    by_cases hi : i = t.index k
    · subst hi
      rw [update_self, map_key_chainModify]
      exact t.nodup _
    · rw [update_of_ne hi]
      exact t.nodup i

def mapLiterals (f : V → V) : ChainTable K V slot where
  size := t.size
  size_pos := t.size_pos
  bucket := fun i => (t.bucket i).map fun e => ⟨e.key, f e.literal⟩
  placed := by
    intro i e he
    obtain ⟨e', he', rfl⟩ := mem_map.1 he
    exact t.placed i e' he'
  nodup := by
    intro i
    rw [map_map]
    exact t.nodup i

variable {t : ChainTable K V slot}

lemma modify_congr {f g : V → V} (h : ∀ v, t.find? k = some v → f v = g v) : t.modify k f = t.modify k g := by
  have hchain : chainModify k f (t.bucket (t.index k)) = chainModify k g (t.bucket (t.index k)) := by
    apply map_congr_left
    intro e he
    by_cases hk : e.key = k
    · subst hk
      rw [if_pos rfl, if_pos rfl, h e.literal ((chainFind_eq_some_iff (t.nodup _)).2 he)]
    · rw [if_neg hk, if_neg hk]
  simp only [modify, hchain]

variable (t)

def entries : List (Entry K V) := (finRange t.size).flatMap t.bucket

@[simp] lemma find?_empty (size) (h : 0 < size) (k) : (empty size h : ChainTable K V slot).find? k = none := rfl

lemma find?_addEntry (k k' : K) (v : V) (h : t.find? k = none) :
    (t.addEntry k v h).find? k' = if k' = k then some v else t.find? k' := by
  show chainFind k' (update t.bucket (t.index k) _ (t.index k')) = _
  by_cases hi : t.index k' = t.index k
  · rw [hi, update_self, chainFind_cons, find?, hi]
    by_cases hk : k' = k
    · simp [hk]
    · simp [hk, Ne.symm hk]
  · have hk : k' ≠ k := by
      rintro rfl
      exact hi rfl
    rw [update_of_ne hi, if_neg hk, find?]

lemma find?_modify (k k' : K) (f : V → V) :
    (t.modify k f).find? k' = if k' = k then (t.find? k').map f else t.find? k' := by
  show chainFind k' (update t.bucket (t.index k) _ (t.index k')) = _
  by_cases hi : t.index k' = t.index k
  · rw [hi, update_self, chainFind_chainModify, find?, hi]
  · have hk : k' ≠ k := by
      rintro rfl
      exact hi rfl
    rw [update_of_ne hi, if_neg hk, find?]

lemma find?_mapLiterals (k : K) (f : V → V) : (t.mapLiterals f).find? k = (t.find? k).map f :=
  chainFind_map k f (t.bucket (t.index k))

lemma mem_entries_iff (k v) : ⟨k, v⟩ ∈ t.entries ↔ t.find? k = some v := by
  rw [find?, chainFind_eq_some_iff (t.nodup _), entries, mem_flatMap]
  constructor
  · rintro ⟨i, -, hi⟩
    have : i = t.index k := Fin.ext (t.placed i _ hi).symm
    rwa [← this]
  · intro h
    exact ⟨t.index k, mem_finRange _, h⟩

omit [DecidableEq K] in
lemma nodup_entries : (t.entries.map Entry.key).Nodup := by
  rw [entries, map_flatMap, nodup_flatMap]
  refine ⟨fun i _ => t.nodup i, ?_⟩
  apply (nodup_finRange t.size).imp
  intro i j hij
  refine disjoint_left.2 fun k hi hj => ?_
  obtain ⟨e, he, rfl⟩ := mem_map.1 hi
  obtain ⟨e', he', hk⟩ := mem_map.1 hj
  exact hij (Fin.ext ((t.placed i e he).symm.trans (hk ▸ t.placed j e' he')))

lemma find?_eq_chainFind_entries (k) : t.find? k = chainFind k t.entries := by
  ext v
  exact (t.mem_entries_iff k v).symm.trans (chainFind_eq_some_iff t.nodup_entries).symm

/-! ## Sums over a set of keys -/

section Sum

variable {M : Type} [AddCommMonoid M] (t : ChainTable K V slot)

def sumOver (S : Finset K) (g : V → M) : M :=
  ∑ k ∈ S, ((t.find? k).map g).getD 0

lemma sum_chainFind (es : List (Entry K V)) (hn : (es.map Entry.key).Nodup) (S : Finset K) (g : V → M) :
    ∑ k ∈ S, ((chainFind k es).map g).getD 0 = (es.map fun e => if e.key ∈ S then g e.literal else 0).sum := by
  induction es with
  | nil => simp
  | cons e es ih =>
    rw [map_cons, nodup_cons] at hn
    have hnone : chainFind e.key es = none := by
      rw [chainFind_eq_none_iff]
      intro e' he' hk
      exact hn.1 (hk ▸ mem_map_of_mem he')
    -- The head contributes at its own key, where the rest of the chain has nothing.
    have hsplit : ∀ k, ((chainFind k (e :: es)).map g).getD 0 =
        (if e.key = k then g e.literal else 0) + ((chainFind k es).map g).getD 0 := by
      intro k
      rw [chainFind_cons]
      by_cases hk : e.key = k
      · subst hk
        simp [hnone]
      · simp [hk]
    rw [Finset.sum_congr rfl fun k _ => hsplit k, Finset.sum_add_distrib, ih hn.2, Finset.sum_ite_eq,
      map_cons, sum_cons]

lemma sumOver_eq_sum_entries (S : Finset K) (g : V → M) :
    t.sumOver S g = (t.entries.map fun e => if e.key ∈ S then g e.literal else 0).sum := by
  rw [sumOver, Finset.sum_congr rfl fun k _ => by rw [t.find?_eq_chainFind_entries k]]
  exact sum_chainFind _ t.nodup_entries S g

variable {t}

lemma sumOver_of_find?_eq {t' : ChainTable K V slot} {v : V} {g : V → M} {d : M}
    (hfind : ∀ k', t'.find? k' = if k' = k then some v else t.find? k')
    (hv : g v = ((t.find? k).map g).getD 0 + d) (S) : t'.sumOver S g = t.sumOver S g + if k ∈ S then d else 0 := by
  have hterm : ∀ k', ((t'.find? k').map g).getD 0 =
      ((t.find? k').map g).getD 0 + if k = k' then d else 0 := by
    intro k'
    rw [hfind]
    by_cases hk : k' = k
    · subst hk
      simp [hv]
    · simp [hk, Ne.symm hk]
  rw [sumOver, Finset.sum_congr rfl fun k' _ => hterm k', Finset.sum_add_distrib, Finset.sum_ite_eq, sumOver]

lemma sumOver_eq_zero {g : V → M} (h : ∀ k v, t.find? k = some v → g v = 0) (S) : t.sumOver S g = 0 := by
  apply Finset.sum_eq_zero
  intro k _
  cases hk : t.find? k with
  | none => rfl
  | some v => simpa using h k v hk

end Sum

end ChainTable

/-!
## Hash tables that only grow

Entries are added without a look at what is there, so a key can have several. A walk over a chain finds what was added
last: a table refines the log of its additions.
-/

variable {K V : Type} {slot : K → Nat}

structure Buckets (K V : Type) (slot : K → Nat) where
  size : Nat
  size_pos : 0 < size
  bucket : Fin size → List (Entry K V)

/-- The literal that was added last under `k`. A log has its latest addition first. -/
def latest [DecidableEq K] (k : K) (log : List (Entry K V)) : Option V :=
  (log.find? fun e => e.key = k).map Entry.literal

lemma latest_cons [DecidableEq K] (k : K) (e : Entry K V) (log : List (Entry K V)) :
    latest k (e :: log) = if e.key = k then some e.literal else latest k log := by
  by_cases h : e.key = k <;> simp [latest, h]

lemma flatMap_update_perm {I A : Type} [DecidableEq I] {is : List I} (hn : is.Nodup) {i : I} (hi : i ∈ is)
    (f : I → List A) (a : A) : (is.flatMap (update f i (a :: f i))).Perm (a :: is.flatMap f) := by
  induction is with
  | nil => cases hi
  | cons j is ih =>
    rw [nodup_cons] at hn
    rw [flatMap_cons]
    by_cases hj : j = i
    · subst hj
      have hrest : is.flatMap (update f j (a :: f j)) = is.flatMap f := by
        apply flatMap_congr
        intro k hk
        have hne : k ≠ j := by
          rintro rfl
          exact hn.1 hk
        rw [update_of_ne hne]
      rw [update_self, hrest]
      rfl
    · rw [update_of_ne hj]
      have hmem : i ∈ is := (mem_cons.1 hi).resolve_left fun heq => hj heq.symm
      exact ((ih hn.2 hmem).append_left (f j)).trans perm_middle

namespace Buckets

def empty (size : Nat) (h : 0 < size) : Buckets K V slot := ⟨size, h, fun _ => []⟩

variable (t : Buckets K V slot)

def index (k : K) : Fin t.size := ⟨slot k % t.size, Nat.mod_lt _ t.size_pos⟩

def chain (k : K) : List (Entry K V) := t.bucket (t.index k)

def find? [DecidableEq K] (t : Buckets K V slot) (k : K) : Option V := chainFind k (t.chain k)

def addEntry (k : K) (v : V) : Buckets K V slot :=
  { t with bucket := update t.bucket (t.index k) (⟨k, v⟩ :: t.chain k) }

def entries : List (Entry K V) := (finRange t.size).flatMap t.bucket

lemma chain_addEntry_self (k v) : (t.addEntry k v).chain k = ⟨k, v⟩ :: t.chain k := update_self _ _ _

lemma entries_addEntry (k : K) (v : V) : (t.addEntry k v).entries.Perm (⟨k, v⟩ :: t.entries) :=
  flatMap_update_perm (nodup_finRange t.size) (mem_finRange (t.index k)) t.bucket ⟨k, v⟩

variable [DecidableEq K]

lemma find?_addEntry (k k' : K) (v : V) : (t.addEntry k v).find? k' = if k = k' then some v else t.find? k' := by
  show chainFind k' (update t.bucket (t.index k) _ (t.index k')) = _
  by_cases hi : t.index k' = t.index k
  · rw [hi, update_self, chainFind_cons, find?, chain, chain, hi]
  · have hne : k ≠ k' := by
      rintro rfl
      exact hi rfl
    rw [update_of_ne hi, if_neg hne, find?, chain]

/-- The table has the entries of the log, and finds what was added last. -/
structure Refines (t : Buckets K V slot) (log : List (Entry K V)) : Prop where
  entries : t.entries.Perm log
  find? : ∀ k, t.find? k = latest k log

lemma refines_empty (size) (h : 0 < size) : Refines (empty size h : Buckets K V slot) [] where
  entries := by simp [Buckets.entries, empty]
  find? := fun _ => rfl

lemma Refines.addEntry {t : Buckets K V slot} {log : List (Entry K V)} (h : t.Refines log) (k : K) (v : V) :
    (t.addEntry k v).Refines (⟨k, v⟩ :: log) where
  entries := (t.entries_addEntry k v).trans (h.entries.cons _)
  find? := by
    intro k'
    rw [find?_addEntry, latest_cons, h.find? k']

end Buckets

end Rolp.Lib
