import Rolp.Lib.Run
import Mathlib.Data.List.AList

/-!
# Dictionaries

`Dict` of `dict.cpp`, and what its insertions, removals and assignments do to the map that it stands for.
-/

namespace Rolp.Libadt

/-- `_hash` and `_cmp`; keys are the same when `_cmp` gives zero, and the same keys have one hash. -/
structure Hashing (Key : Type) where
  hash : Key → Nat
  same : Key → Key → Bool
  refl : ∀ a, same a a = true
  symm : ∀ {a b}, same a b = true → same b a = true
  trans : ∀ {a b c}, same a b = true → same b c = true → same a c = true
  hash_eq : ∀ {a b}, same a b = true → hash a = hash b

variable {Key Val : Type}

abbrev Bucket (Key Val : Type) := List (Key × Val)

/-- A bucket is the list of its pairs, without the space allocated beyond them, and `cnt` is a `uint` that does not
overflow. -/
structure Dict (Key Val : Type) where
  bin : List (Bucket Key Val)
  cnt : Nat

namespace Bucket

def moveLast (b : Bucket Key Val) : Bucket Key Val :=
  match b.getLast? with
  | none => []
  | some e => e :: b.dropLast

lemma moveLast_perm (b : Bucket Key Val) : (moveLast b).Perm b := by
  unfold moveLast
  split
  next h => rw [List.getLast?_eq_none_iff.1 h]
  next e h => exact (List.perm_append_singleton e _).symm.trans (.of_eq (List.dropLast_append_getLast? e h))

variable (H : Hashing Key)

def lookup (key : Key) : Bucket Key Val → Option Val
  | [] => none
  | e :: b => if H.same key e.1 then some e.2 else lookup key b

def replace (key : Key) (val : Val) : Bucket Key Val → Option (Bucket Key Val × Val)
  | [] => none
  | e :: b => if H.same key e.1 then some ((key, val) :: b, e.2) else (replace key val b).map fun r => (e :: r.1, r.2)

def delete (key : Key) : Bucket Key Val → Option (Bucket Key Val × Val)
  | [] => none
  | e :: b => if H.same key e.1 then some (moveLast b, e.2) else (delete key b).map fun r => (e :: r.1, r.2)

def rehash (moves : Key → Bool) (b nb : Bucket Key Val) : Bucket Key Val × Bucket Key Val :=
  match b with
  | [] => ([], nb)
  | e :: b =>
    if moves e.1 then rehash moves (moveLast b) (nb ++ [e])
    else
      let (b, nb) := rehash moves b nb
      (e :: b, nb)
  termination_by b.length
  decreasing_by
  · rw [(moveLast_perm b).length_eq]; exact Nat.lt_succ_self _
  · exact Nat.lt_succ_self _

end Bucket

namespace Dict

variable (H : Hashing Key)

/-- `i = 16; while (i < size) i <<= 1;` -/
def roundUp (size i : Nat) : Nat := if i < size ∧ 0 < i then roundUp size (i * 2) else i
  termination_by size - i

def new (size : Nat) : Dict Key Val := ⟨List.replicate (roundUp size 16) [], 0⟩

variable (d : Dict Key Val)

def size : Nat := d.bin.length

def index (key : Key) : Nat := H.hash key &&& (d.size - 1)

def bucket (key : Key) : Bucket Key Val := d.bin.getD (d.index H key) []

def setBucket (key : Key) (b : Bucket Key Val) : Dict Key Val :=
  { d with bin := d.bin.set (d.index H key) b }

def doubhash : Dict Key Val :=
  let parts := d.bin.mapIdx fun i b => Bucket.rehash (fun key => H.hash key &&& (d.size * 2 - 1) != i) b []
  { d with bin := parts.map Prod.fst ++ parts.map Prod.snd }

/-- The end of `Insert`, for a key that is not there. -/
def append (key : Key) (val : Val) : Dict Key Val :=
  let d := { d with cnt := d.cnt + 1 }
  let d := if d.cnt > d.size then d.doubhash H else d
  d.setBucket H key (d.bucket H key ++ [(key, val)])

section

variable (null : Val) (d : Dict Key Val) (key : Key)

def insert (val : Val) (replace : Bool) : Dict Key Val × Val :=
  match (d.bucket H key).replace H key val with
  | none => (d.append H key val, null)
  | some (b, prior) => (if replace then d.setBucket H key b else d, prior)

def delete : Dict Key Val × Val :=
  match (d.bucket H key).delete H key with
  | none => (d, null)
  | some (b, prior) => ({ d.setBucket H key b with cnt := d.cnt - 1 }, prior)

def lookup : Val := ((d.bucket H key).lookup H key).getD null

end

/-- The loop of `operator =` over the buckets of the source; a bucket beyond its last one is not there. -/
def assignLoop (null : Val) (a : Dict Key Val) (i : Nat) : List (Bucket Key Val) → Option (Dict Key Val)
  | [] => if i < a.size then none else some a
  | b :: rest =>
    if i < a.size then assignLoop null (b.foldl (fun a e => (a.insert H null e.1 e.2 true).1) a) (i + 1) rest
    else some a

def assign (null : Val) (a d : Dict Key Val) : Option (Dict Key Val) :=
  assignLoop H null ⟨List.replicate (max a.size d.size) [], d.cnt⟩ 0 d.bin

end Dict

inductive Op (Key Val : Type) where
  | insert (key : Key) (val : Val) (replace : Bool)
  | delete (key : Key)
  | lookup (key : Key)

def Dict.step (H : Hashing Key) (null : Val) (d : Dict Key Val) : Op Key Val → Dict Key Val × Val
  | .insert key val replace => d.insert H null key val replace
  | .delete key => d.delete H null key
  | .lookup key => (d, d.lookup H null key)

/-! ## A dictionary is a map -/

open Rolp.Lib List Option Nat

variable {H : Hashing Key} {key : Key} {val : Val}

def Hashing.setoid (H : Hashing Key) : Setoid Key := ⟨fun a b => H.same a b = true, ⟨H.refl, H.symm, H.trans⟩⟩

abbrev Hashing.Class (H : Hashing Key) := Quotient H.setoid

instance (H : Hashing Key) : DecidableEq H.Class :=
  @Quotient.decidableEq Key H.setoid fun a b => inferInstanceAs (Decidable (H.same a b = true))

def Hashing.cls (H : Hashing Key) (key : Key) : H.Class := Quotient.mk H.setoid key

abbrev Map (H : Hashing Key) (Val : Type) := AList fun _ : H.Class => Val

def Map.step (null : Val) (m : Map H Val) : Op Key Val → Map H Val × Val
  | .insert key val replace =>
    (if replace ∨ H.cls key ∉ m then m.insert (H.cls key) val else m, (m.lookup (H.cls key)).getD null)
  | .delete key => (m.erase (H.cls key), (m.lookup (H.cls key)).getD null)
  | .lookup key => (m, (m.lookup (H.cls key)).getD null)

lemma cls_eq_iff {a b} : H.cls a = H.cls b ↔ H.same a b = true := Quotient.eq

/-! ## Lists of pairs -/

def pairs (H : Hashing Key) (b : Bucket Key Val) : List (Σ _ : H.Class, Val) := b.map fun e => ⟨H.cls e.1, e.2⟩

section Lists

open List

variable {b : Bucket Key Val}

lemma pairs_cons (e) : pairs H (e :: b) = ⟨H.cls e.1, e.2⟩ :: pairs H b := rfl

lemma mem_keys_pairs {c} : c ∈ (pairs H b).keys ↔ ∃ e ∈ b, H.cls e.1 = c := by simp [pairs, keys]

lemma lookup_eq_dlookup (b : Bucket Key Val) : b.lookup H key = (pairs H b).dlookup (H.cls key) := by
  induction b with
  | nil => rfl
  | cons e b ih =>
    rw [Bucket.lookup, pairs_cons]
    split
    next hsame => rw [← cls_eq_iff.2 hsame, dlookup_cons_eq]
    next hsame => rw [dlookup_cons_ne _ _ (mt cls_eq_iff.1 hsame), ih]

lemma replace_spec (b : Bucket Key Val) (key : Key) (val : Val) : match b.replace H key val with
    | none => (pairs H b).dlookup (H.cls key) = none
    | some (b', prior) =>
      (pairs H b).dlookup (H.cls key) = some prior ∧ (pairs H b').Perm ((pairs H b).kinsert (H.cls key) val) := by
  induction b with
  | nil => rfl
  | cons e b ih =>
    rw [Bucket.replace]
    by_cases hsame : H.same key e.1 = true
    · rw [if_pos hsame]
      simp [pairs, ← cls_eq_iff.2 hsame]
    have hne := mt cls_eq_iff.1 hsame
    rw [if_neg hsame, pairs_cons, dlookup_cons_ne _ _ hne]
    cases hr : Bucket.replace H key val b with
    | none => simpa [hr] using ih
    | some r =>
      simp only [hr] at ih
      refine ⟨ih.1, ?_⟩
      rw [kinsert_def, kerase_cons_ne hne]
      exact (ih.2.cons _).trans (.swap _ _ _)

lemma delete_spec (b : Bucket Key Val) (key : Key) : match b.delete H key with
    | none => (pairs H b).dlookup (H.cls key) = none
    | some (b', prior) =>
      (pairs H b).dlookup (H.cls key) = some prior ∧ (pairs H b').Perm ((pairs H b).kerase (H.cls key)) := by
  induction b with
  | nil => rfl
  | cons e b ih =>
    rw [Bucket.delete]
    by_cases hsame : H.same key e.1 = true
    · rw [if_pos hsame, pairs_cons, ← cls_eq_iff.2 hsame, dlookup_cons_eq]
      refine ⟨rfl, ?_⟩
      simp only [kerase_cons_eq]
      exact (Bucket.moveLast_perm b).map _
    have hne := mt cls_eq_iff.1 hsame
    rw [if_neg hsame, pairs_cons, dlookup_cons_ne _ _ hne]
    cases hr : Bucket.delete H key b with
    | none => simpa [hr] using ih
    | some r =>
      simp only [hr] at ih
      refine ⟨ih.1, ?_⟩
      rw [kerase_cons_ne hne]
      exact ih.2.cons _

lemma kerase_append {c : H.Class} {l rest : List (Σ _ : H.Class, Val)} (hrest : c ∉ rest.keys) :
    (l ++ rest).kerase c = l.kerase c ++ rest := by
  by_cases hl : c ∈ l.keys
  · exact kerase_append_left hl
  · rw [kerase_append_right hl, kerase_of_notMem_keys hrest, kerase_of_notMem_keys hl]

lemma rehash_spec (moves : Key → Bool) (b nb : Bucket Key Val) :
    (Bucket.rehash moves b nb).1.Perm (b.filter fun e => !moves e.1) ∧
      (Bucket.rehash moves b nb).2.Perm (nb ++ b.filter fun e => moves e.1) := by
  fun_induction Bucket.rehash moves b nb with
  | case1 nb => simp
  | case2 nb e b hmoves ih =>
    have hperm := Bucket.moveLast_perm b
    refine ⟨by simpa [hmoves] using ih.1.trans (hperm.filter _), ?_⟩
    simpa [hmoves] using ih.2.trans ((hperm.filter _).append_left _)
  | case3 nb e b hmoves b' nb' heq ih =>
    simp only [heq] at ih
    exact ⟨by simpa [hmoves] using ih.1.cons e, by simpa [hmoves] using ih.2⟩

lemma flatten_set {α : Type} {l : List (List α)} {i : Nat} {b : List α} (h : l[i]? = some b) :
    ∃ rest, l.flatten.Perm (b ++ rest) ∧ ∀ b', (l.set i b').flatten.Perm (b' ++ rest) := by
  induction l generalizing i with
  | nil => cases h
  | cons a l ih =>
    cases i with
    | zero => cases h; exact ⟨l.flatten, .refl _, fun b' => .refl _⟩
    | succ i =>
      obtain ⟨rest, hl, hset⟩ := ih h
      exact ⟨a ++ rest, (hl.append_left a).trans (perm_append_comm_assoc _ _ _), fun b' =>
        ((hset b').append_left a).trans (perm_append_comm_assoc _ _ _)⟩

lemma flatten_mapIdx_perm {α : Type} (l : List (List α)) (f : Nat → List α → List α × List α)
    (hf : ∀ i b, ((f i b).1 ++ (f i b).2).Perm b) :
    (((l.mapIdx f).map Prod.fst).flatten ++ ((l.mapIdx f).map Prod.snd).flatten).Perm l.flatten := by
  induction l generalizing f with
  | nil => exact .refl _
  | cons a l ih =>
    simp only [mapIdx_cons, map_cons, flatten_cons, append_assoc]
    refine Perm.trans ?_ ((hf 0 a).append (ih (fun i => f (i + 1)) fun i => hf (i + 1)))
    rw [append_assoc]
    exact (perm_append_comm_assoc _ _ _).append_left _

end Lists

/-! ## Dictionaries -/

lemma cnt_append (d : Dict Key Val) (key : Key) (val : Val) : (d.append H key val).cnt = d.cnt + 1 := by
  unfold Dict.append
  dsimp only
  split <;> rfl

lemma size_doubhash (d : Dict Key Val) : (d.doubhash H).size = d.size * 2 := by simp [Dict.size, Dict.doubhash, mul_two]

lemma flatten_doubhash (H : Hashing Key) (d : Dict Key Val) : (d.doubhash H).bin.flatten.Perm d.bin.flatten := by
  rw [Dict.doubhash]
  simp only [flatten_append]
  refine flatten_mapIdx_perm d.bin _ fun i b => ?_
  obtain ⟨hlo, hhi⟩ := rehash_spec (fun key => H.hash key &&& (d.size * 2 - 1) != i) b []
  exact (hlo.append hhi).trans (perm_append_comm.trans (filter_append_perm _ b))

/-- Every pair is in the bucket where it is looked for. -/
structure Stored (H : Hashing Key) (d : Dict Key Val) (m : Map H Val) : Prop where
  size : ∃ p, d.size = 2 ^ p
  home : ∀ i b, d.bin[i]? = some b → ∀ e ∈ b, d.index H e.1 = i
  perm : (pairs H d.bin.flatten).Perm m.entries

namespace Stored

variable {d : Dict Key Val} {m : Map H Val} {b : Bucket Key Val}

lemma index_eq (h : Stored H d m) (key) : d.index H key = H.hash key % d.size := by
  obtain ⟨p, hp⟩ := h.size
  rw [Dict.index, hp, and_two_pow_sub_one_eq_mod]

lemma index_congr {a b} (h : H.cls a = H.cls b) : d.index H a = d.index H b := by
  rw [Dict.index, Dict.index, H.hash_eq (cls_eq_iff.1 h)]

section

variable (h : Stored H d m)

include h

lemma bucket_eq (key) : d.bin[d.index H key]? = some (d.bucket H key) := by
  obtain ⟨p, hp⟩ := h.size
  have hlt : d.index H key < d.bin.length := by
    rw [h.index_eq]
    exact mod_lt _ (hp ▸ Nat.two_pow_pos p)
  rw [Dict.bucket, getD_eq_getElem?_getD, getElem?_eq_getElem hlt, getD_some]

/-- The pairs outside of the bucket of a key have other keys. -/
lemma split (key) : ∃ rest, m.entries.Perm (pairs H (d.bucket H key) ++ rest) ∧ H.cls key ∉ rest.keys ∧
      ∀ b, (pairs H (d.setBucket H key b).bin.flatten).Perm (pairs H b ++ rest) := by
  obtain ⟨rest, hflat, hset⟩ := flatten_set (h.bucket_eq key)
  have hmap : ∀ {l : Bucket Key Val} {b}, l.Perm (b ++ rest) → (pairs H l).Perm (pairs H b ++ pairs H rest) := by
    intro l b hl
    rw [pairs, pairs, pairs, ← map_append]
    exact hl.map _
  have hperm := h.perm.symm.trans (hmap hflat)
  refine ⟨pairs H rest, hperm, fun hkey => ?_, fun b => hmap (hset b)⟩
  obtain ⟨e, he, hcls⟩ := mem_keys_pairs.1 hkey
  obtain ⟨b, hb, heb⟩ := mem_flatten.1 (hflat.symm.mem_iff.1 (mem_append_right _ he))
  obtain ⟨i, hi⟩ := mem_iff_getElem?.1 hb
  rw [← h.home i b hi e heb, index_congr hcls, h.bucket_eq] at hi
  cases hi
  have hnodup := (perm_nodupKeys hperm).1 m.nodupKeys
  rw [List.NodupKeys, keys_append] at hnodup
  exact (nodup_append.1 hnodup).2.2 _ (mem_keys_pairs.2 ⟨e, heb, hcls⟩) _ hkey rfl

lemma lookup_eq (key) : (pairs H (d.bucket H key)).dlookup (H.cls key) = m.lookup (H.cls key) := by
  obtain ⟨rest, hperm, hrest, -⟩ := h.split key
  rw [AList.lookup, perm_dlookup _ m.nodupKeys hperm, dlookup_append, dlookup_eq_none.2 hrest, or_none]

lemma setBucket {m'} (hkeys : ∀ e ∈ b, H.cls e.1 = H.cls key ∨ H.cls e.1 ∈ (pairs H (d.bucket H key)).keys)
    (hperm : ∀ rest, m.entries.Perm (pairs H (d.bucket H key) ++ rest) → H.cls key ∉ rest.keys →
      (pairs H b ++ rest).Perm m'.entries) : Stored H (d.setBucket H key b) m' := by
  obtain ⟨rest, hm, hrest, hset⟩ := h.split key
  have hsize : (d.setBucket H key b).size = d.size := length_set
  refine ⟨hsize ▸ h.size, fun i b' hi e he => ?_, (hset b).trans (hperm rest hm hrest)⟩
  have hindex : (d.setBucket H key b).index H e.1 = d.index H e.1 := by rw [Dict.index, Dict.index, hsize]
  rw [hindex]
  rw [Dict.setBucket, getElem?_set] at hi
  split at hi
  next heq =>
    split at hi <;> cases hi
    rcases hkeys e he with hcls | hmem
    · exact (index_congr hcls).trans heq
    · obtain ⟨e', he', hcls⟩ := mem_keys_pairs.1 hmem
      exact (index_congr hcls.symm).trans ((h.home _ _ (h.bucket_eq key) e' he').trans heq)
  · exact h.home i b' hi e he

lemma setInserted (hb : (pairs H b).Perm ((pairs H (d.bucket H key)).kinsert (H.cls key) val)) :
    Stored H (d.setBucket H key b) (m.insert (H.cls key) val) := by
  refine h.setBucket (fun e he => ?_) fun rest hm hrest => ?_
  · exact mem_keys_kinsert.1 ((hb.map Sigma.fst).mem_iff.1 (mem_keys_pairs.2 ⟨e, he, rfl⟩))
  · refine (hb.append_right rest).trans ?_
    rw [kinsert_def, cons_append, ← kerase_append hrest]
    exact (hm.kerase m.nodupKeys).symm.cons _

lemma setErased (hb : (pairs H b).Perm ((pairs H (d.bucket H key)).kerase (H.cls key))) :
    Stored H (d.setBucket H key b) (m.erase (H.cls key)) := by
  refine h.setBucket (fun e he => ?_) fun rest hm hrest => ?_
  · exact .inr (kerase_keys_subset _ _ ((hb.map Sigma.fst).mem_iff.1 (mem_keys_pairs.2 ⟨e, he, rfl⟩)))
  · refine (hb.append_right rest).trans ?_
    rw [← kerase_append hrest]
    exact (hm.kerase m.nodupKeys).symm

lemma doubhash : Stored H (d.doubhash H) m := by
  obtain ⟨p, hp⟩ := h.size
  have hsize : (d.doubhash H).size = 2 ^ (p + 1) := by rw [size_doubhash, hp, pow_succ]
  refine ⟨⟨p + 1, hsize⟩, fun i b hi e he => ?_, ((flatten_doubhash H d).map _).trans h.perm⟩
  have hmask (n) : n &&& (d.size * 2 - 1) = n % (d.size * 2) := by
    rw [hp, ← pow_succ, and_two_pow_sub_one_eq_mod]
  simp only [Dict.doubhash, getElem?_append, length_map, length_mapIdx, getElem?_map,
    getElem?_mapIdx, Option.map_map] at hi
  rw [Dict.index, size_doubhash, hmask]
  split at hi
  · obtain ⟨b, hb, rfl⟩ := map_eq_some_iff.1 hi
    have hmem := mem_filter.1 ((rehash_spec _ b []).1.mem_iff.1 he)
    simpa [hmask] using hmem.2
  obtain ⟨b, hb, rfl⟩ := map_eq_some_iff.1 hi
  have hmem := mem_filter.1 ((rehash_spec _ b []).2.mem_iff.1 he)
  have hmoves : H.hash e.1 % (d.size * 2) ≠ i - d.bin.length := by simpa [hmask] using hmem.2
  have hold : H.hash e.1 % d.size = i - d.bin.length := h.index_eq e.1 ▸ h.home _ _ hb e hmem.1
  have hsize' : d.size = d.bin.length := rfl
  -- The bit of the hash that is exposed is set, as the lower ones are those of the old bucket.
  rw [mod_mul] at hmoves ⊢
  rcases mod_two_eq_zero_or_one (H.hash e.1 / d.size) with hbit | hbit
  · rw [hbit] at hmoves; omega
  · rw [hbit]; omega

lemma withCnt (cnt) : Stored H { d with cnt := cnt } m := ⟨h.size, h.home, h.perm⟩

lemma append (hnone : m.lookup (H.cls key) = none) : Stored H (d.append H key val) (m.insert (H.cls key) val) := by
  have hgrown : Stored H (if d.cnt + 1 > d.size then ({ d with cnt := d.cnt + 1 } : Dict Key Val).doubhash H
      else { d with cnt := d.cnt + 1 }) m := by
    split
    · exact (h.withCnt _).doubhash
    · exact h.withCnt _
  refine hgrown.setInserted ?_
  rw [← hgrown.lookup_eq, dlookup_eq_none] at hnone
  rw [kinsert_def, kerase_of_notMem_keys hnone, pairs, map_append]
  exact perm_append_singleton _ _

end

end Stored

structure Represents (H : Hashing Key) (d : Dict Key Val) (m : Map H Val) : Prop extends Stored H d m where
  cnt : d.cnt = m.keys.length

namespace Represents

variable {d : Dict Key Val} {m : Map H Val} (null : Val) (h : Represents H d m)

include h

lemma insert (val : Val) (replace : Bool) : (d.insert H null key val replace).2 = (m.lookup (H.cls key)).getD null ∧
      Represents H (d.insert H null key val replace).1 (m.step null (.insert key val replace)).1 := by
  have hspec := replace_spec (H := H) (d.bucket H key) key val
  rw [h.lookup_eq] at hspec
  unfold Dict.insert Map.step
  cases hr : (d.bucket H key).replace H key val with
  | none =>
    rw [hr] at hspec
    have hnot := AList.lookup_eq_none.1 hspec
    simp only [hspec, hnot, not_false_eq_true, or_true, if_true]
    refine ⟨rfl, h.append hspec, ?_⟩
    rw [cnt_append, h.cnt, AList.keys_insert, erase_of_not_mem hnot, length_cons]
  | some r =>
    rw [hr] at hspec
    obtain ⟨hv, hb⟩ := hspec
    have hmem : H.cls key ∈ m := AList.lookup_isSome.1 (by rw [hv]; rfl)
    cases replace with
    | true =>
      simp only [hv, true_or, if_true]
      refine ⟨rfl, h.setInserted hb, ?_⟩
      rw [AList.keys_insert, length_cons, length_erase_add_one hmem]
      exact h.cnt
    | false => simpa [hv, hmem] using h

lemma delete : (d.delete H null key).2 = (m.lookup (H.cls key)).getD null ∧
    Represents H (d.delete H null key).1 (m.erase (H.cls key)) := by
  have hspec := delete_spec (H := H) (d.bucket H key) key
  rw [h.lookup_eq] at hspec
  unfold Dict.delete
  cases hr : (d.bucket H key).delete H key with
  | none =>
    rw [hr] at hspec
    have herase : m.erase (H.cls key) = m := AList.ext (kerase_of_notMem_keys (AList.lookup_eq_none.1 hspec))
    rw [hspec, herase]
    exact ⟨rfl, h⟩
  | some r =>
    rw [hr] at hspec
    obtain ⟨hv, hb⟩ := hspec
    have hmem : H.cls key ∈ m := AList.lookup_isSome.1 (by rw [hv]; rfl)
    refine ⟨by rw [hv]; rfl, (h.setErased hb).withCnt _, ?_⟩
    rw [AList.keys_erase, length_erase_of_mem hmem, ← h.cnt]

lemma lookup (key : Key) : d.lookup H null key = (m.lookup (H.cls key)).getD null := by
  rw [Dict.lookup, lookup_eq_dlookup, h.lookup_eq]

end Represents

lemma exists_roundUp (size i) (h : ∃ p, i = 2 ^ p) : ∃ q, Dict.roundUp size i = 2 ^ q := by
  fun_induction Dict.roundUp size i with
  | case1 i _ ih =>
    obtain ⟨p, rfl⟩ := h
    exact ih ⟨p + 1, rfl⟩
  | case2 => exact h

lemma represents_new (size) : Represents H (Dict.new size : Dict Key Val) ∅ := by
  refine ⟨⟨?_, fun i b hi e he => ?_, ?_⟩, rfl⟩
  · simpa [Dict.size, Dict.new] using exists_roundUp size 16 ⟨4, rfl⟩
  · simp only [Dict.new, getElem?_replicate] at hi
    split at hi <;> cases hi
    cases he
  · simp [Dict.new, pairs]

lemma represents_results (H : Hashing Key) (null : Val) (size : Nat) (ops : List (Op Key Val)) :
    (results (Dict.step H null) (.new size) ops).2 = (results (Map.step (H := H) null) ∅ ops).2 ∧
      Represents H (results (Dict.step H null) (.new size) ops).1 (results (Map.step null) ∅ ops).1 := by
  refine results_eq_of_simulation (Represents H) (fun _ => True) ?_ (represents_new size) fun _ _ => trivial
  intro d m op h _
  cases op with
  | insert key val replace => exact h.insert null val replace
  | delete key => exact h.delete null
  | lookup key => exact ⟨h.lookup null key, h⟩

variable {null : Val} {a a' : Dict Key Val} {i : Nat}

section

variable (H : Hashing Key) (null : Val)

def Copies (a b : Dict Key Val) : Prop :=
  ∃ a', a.assign H null b = some a' ∧ (∀ key, a'.lookup H null key = b.lookup H null key) ∧ a'.cnt = b.cnt

lemma insert_mono (a : Dict Key Val) (e : Key × Val) :
    a.cnt ≤ (a.insert H null e.1 e.2 true).1.cnt ∧ a.size ≤ (a.insert H null e.1 e.2 true).1.size := by
  have hset : ∀ (d : Dict Key Val) b, (d.setBucket H e.1 b).size = d.size := fun d b => length_set
  unfold Dict.insert
  split
  · refine ⟨by rw [cnt_append]; exact le_succ _, ?_⟩
    unfold Dict.append
    rw [hset]
    split
    · rw [size_doubhash]; exact Nat.le_mul_of_pos_right _ (by decide)
    · exact le_refl _
  · exact ⟨le_refl _, (hset _ _).ge⟩

lemma foldl_insert_mono (b : Bucket Key Val) (a : Dict Key Val) :
    a.cnt ≤ (b.foldl (fun a e => (a.insert H null e.1 e.2 true).1) a).cnt ∧
      a.size ≤ (b.foldl (fun a e => (a.insert H null e.1 e.2 true).1) a).size := by
  induction b generalizing a with
  | nil => exact ⟨le_rfl, le_rfl⟩
  | cons e b ih =>
    have hinsert := insert_mono H null a e
    have hrest := ih (a.insert H null e.1 e.2 true).1
    exact ⟨hinsert.1.trans hrest.1, hinsert.2.trans hrest.2⟩

end

lemma assignLoop_cnt {rest} (hroom : i + rest.length ≤ a.size) (h : Dict.assignLoop H null a i rest = some a') :
    a.cnt ≤ a'.cnt ∧ ((∀ key, a.bucket H key = []) → rest.flatten ≠ [] → a.cnt < a'.cnt) := by
  induction rest generalizing a i with
  | nil =>
    rw [Dict.assignLoop] at h
    split at h <;> cases h
    exact ⟨le_rfl, fun _ hne => absurd rfl hne⟩
  | cons b rest ih =>
    rw [length_cons] at hroom
    have hmono := foldl_insert_mono H null b a
    rw [Dict.assignLoop, if_pos (by omega)] at h
    have hrest := ih (by omega) h
    refine ⟨hmono.1.trans hrest.1, fun hempty hne => ?_⟩
    cases b with
    | nil => exact hrest.2 hempty hne
    | cons e b =>
      have hnew : (a.insert H null e.1 e.2 true).1 = a.append H e.1 e.2 := by simp [Dict.insert, hempty, Bucket.replace]
      have hfold := (foldl_insert_mono H null b (a.insert H null e.1 e.2 true).1).1
      rw [hnew, cnt_append] at hfold
      rw [foldl_cons, hnew] at hrest
      exact lt_of_lt_of_le (lt_of_succ_le hfold) hrest.1

lemma assignLoop_of_empty {rest : List (Bucket Key Val)} (h : ∀ b ∈ rest, b = []) :
    Dict.assignLoop H null a i rest = if i + rest.length < a.size then none else some a := by
  induction rest generalizing i with
  | nil => rfl
  | cons b rest ih =>
    rw [Dict.assignLoop, h b mem_cons_self, foldl_nil, ih fun b hb => h b (mem_cons_of_mem _ hb)]
    rw [add_right_comm]
    split
    · rfl
    · rw [if_neg (by omega)]

lemma bucket_of_empty {d : Dict Key Val} (h : ∀ b ∈ d.bin, b = []) (key) : d.bucket H key = [] := by
  rw [Dict.bucket, getD_eq_getElem?_getD]
  cases hb : d.bin[d.index H key]? with
  | none => rfl
  | some b => exact h b (mem_of_getElem? hb)

/-- The assignment is a copy only if there is nothing to copy and the target does not have more buckets. -/
theorem dict_assignment_copies_iff (H : Hashing Key) (null : Val) (sizeA sizeB : Nat) (opsA opsB : List (Op Key Val)) :
    let a := (results (Dict.step H null) (.new sizeA) opsA).1
    let b := (results (Dict.step H null) (.new sizeB) opsB).1
    Copies H null a b ↔ b.cnt = 0 ∧ a.size ≤ b.size := by
  intro a b
  obtain ⟨-, hrep⟩ := represents_results H null sizeB opsB
  have hlength : b.cnt = b.bin.flatten.length := by
    have hperm := hrep.perm.length_eq
    rw [pairs, length_map] at hperm
    rw [hrep.cnt, hperm, AList.keys, keys, length_map]
  have hempty : b.cnt = 0 → ∀ x ∈ b.bin, x = [] := by
    intro h0
    rw [hlength, length_eq_zero_iff, flatten_eq_nil_iff] at h0
    exact h0
  have hreset : ∀ x ∈ replicate (max a.size b.size) ([] : Bucket Key Val), x = [] := fun x hx => eq_of_mem_replicate hx
  have hsize : (⟨replicate (max a.size b.size) [], b.cnt⟩ : Dict Key Val).size = max a.size b.size := length_replicate
  constructor
  · rintro ⟨a', ha', -, hsame⟩
    have hzero : b.cnt = 0 := by
      by_contra hne
      have hcounts := (assignLoop_cnt (by rw [hsize, zero_add]; exact le_max_right _ _) ha').2
        (bucket_of_empty hreset) fun hnil => hne (by rw [hlength, hnil]; rfl)
      exact absurd hsame (ne_of_gt hcounts)
    refine ⟨hzero, ?_⟩
    rw [Dict.assign, assignLoop_of_empty (hempty hzero)] at ha'
    split at ha'
    · cases ha'
    · have hbins : b.bin.length = b.size := rfl
      omega
  · rintro ⟨hzero, hle⟩
    refine ⟨⟨replicate (max a.size b.size) [], b.cnt⟩, ?_, fun key => ?_, rfl⟩
    · rw [Dict.assign, assignLoop_of_empty (hempty hzero), if_neg]
      have hbins : b.bin.length = b.size := rfl
      omega
    · rw [Dict.lookup, Dict.lookup, bucket_of_empty hreset, bucket_of_empty (hempty hzero)]

def natHashing : Hashing Nat := ⟨id, (· == ·), by simp, by simp, by simp, by simp⟩

theorem dict_assignment_counts_twice : let a : Dict Nat Nat := ⟨replicate 16 [], 0⟩
    let b := (a.insert natHashing 0 1 5 true).1
    (∃ a', a.assign natHashing 0 b = some a' ∧ b.cnt = 1 ∧ a'.cnt = 2) ∧ ¬Copies natHashing 0 a b := by
  refine ⟨⟨_, rfl, rfl, rfl⟩, ?_⟩
  rintro ⟨a', ha', -, hcnt⟩
  cases ha'
  exact absurd hcnt (by decide)

end Rolp.Libadt
