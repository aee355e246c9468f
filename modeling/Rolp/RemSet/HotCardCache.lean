import Rolp.Lib.Pool
import Rolp.Lib.Buffer
import Rolp.Lib.Run

/-!
# The hot card cache

`G1HotCardCache::insert` keeps the cards that are refined often in a circular array, of which the workers of a pause
claim chunks to refine. Every card that was inserted is given back or refined, once.
-/

namespace Rolp.RemSet

open Rolp.Lib Function List

/-! ## Card counts -/

structure G1CardCounts where
  hotCardLimit : Nat
  hasCountTable : Bool
  ctBot : Nat
  committedMaxCardNum : Nat
  cardCounts : Nat → BitVec 8

def G1CardCounts.addCardCount (t : G1CardCounts) (cardPtr : Nat) : G1CardCounts × Nat :=
  let cardNum := cardPtr - t.ctBot
  if t.hasCountTable ∧ cardNum < t.committedMaxCardNum then
    let count := (t.cardCounts cardNum).toNat
    if count < t.hotCardLimit then
      ({ t with cardCounts := update t.cardCounts cardNum (.ofNat 8 (min (count + 1) t.hotCardLimit)) }, count)
    else (t, count)
  else (t, 0)

def G1CardCounts.isHot (t : G1CardCounts) (count : Nat) : Bool := t.hotCardLimit ≤ count

/-! ## The cache -/

structure G1HotCardCache where
  counts : G1CardCounts
  hotCache : Nat → Option Nat
  hotCacheSize : Nat
  hotCacheSize_pos : 0 < hotCacheSize
  nHot : Nat
  hotCacheIdx : Nat
  parChunkSize : Nat
  parClaimedIdx : Nat

namespace G1HotCardCache

/-- The new array is not cleared. -/
def initializeCache (logCacheSize nWorkers : Nat) (counts : G1CardCounts) (memory : Nat → Option Nat) :
    G1HotCardCache where
  counts := counts
  hotCache := memory
  hotCacheSize := 2 ^ logCacheSize
  hotCacheSize_pos := Nat.two_pow_pos _
  nHot := 0
  hotCacheIdx := 0
  parChunkSize := max 1 (2 ^ logCacheSize / nWorkers)
  parClaimedIdx := 0

variable (c : G1HotCardCache)

def insert (cardPtr : Nat) : G1HotCardCache × Option Nat :=
  let (counts, count) := c.counts.addCardCount cardPtr
  if !counts.isHot count then ({ c with counts := counts }, some cardPtr)
  else
    let full := c.nHot = c.hotCacheSize
    let res := if full then c.hotCache c.hotCacheIdx else none
    let nHot := if full then c.nHot - 1 else c.nHot
    let idx := c.hotCacheIdx + 1
    ({ c with
        counts := counts
        hotCache := update c.hotCache c.hotCacheIdx (some cardPtr)
        hotCacheIdx := if idx = c.hotCacheSize then 0 else idx
        nHot := nHot + 1 }, res)

def resetHotCache : G1HotCardCache := { c with hotCacheIdx := 0, nHot := 0 }

def resetHotCacheClaimedIndex : G1HotCardCache := { c with parClaimedIdx := 0 }

end G1HotCardCache

/-! ## Draining -/

/-- Where a worker is in `drain`: it reads the claimed index, tries to move it on, or refines the cards of its chunk. -/
inductive DrainPc where
  | read
  | cmpxchg (startIdx : Nat)
  | refine (i endIdx : Nat)
  | returned
  deriving DecidableEq

structure Drain (n : Nat) where
  cache : G1HotCardCache
  pc : Fin n → DrainPc
  /-- The calls of `refine_card`, with the worker that makes the call. -/
  refined : List (Fin n × Nat)

namespace Drain

variable {n : Nat}

def start (n : Nat) (c : G1HotCardCache) : Drain n := ⟨c.resetHotCacheClaimedIndex, fun _ => .read, []⟩

def step (d : Drain n) (w : Fin n) : Drain n :=
  let goto pc := update d.pc w pc
  match d.pc w with
  | .read =>
    let startIdx := d.cache.parClaimedIdx
    { d with pc := goto (if startIdx < d.cache.nHot then .cmpxchg startIdx else .returned) }
  | .cmpxchg startIdx =>
    let endIdx := startIdx + d.cache.parChunkSize
    if d.cache.parClaimedIdx = startIdx then
      { d with
        cache := { d.cache with parClaimedIdx := endIdx }
        pc := goto (.refine startIdx (min endIdx d.cache.nHot)) }
    else { d with pc := goto .read }
  | .refine i endIdx =>
    if i < endIdx then
      { d with
        pc := goto (.refine (i + 1) endIdx)
        refined := d.refined ++ (d.cache.hotCache i).toList.map (w, ·) }
    else { d with pc := goto .read }
  | .returned => d

end Drain

/-! ## The inserted cards -/

structure Insertions where
  cold : List Nat := []
  returned : List Nat := []
  hot : List Nat := []
  evicted : List Nat := []
  deriving DecidableEq

def record (s : G1HotCardCache × Insertions) (cardPtr : Nat) : G1HotCardCache × Insertions :=
  let (c, res) := s.1.insert cardPtr
  let (counts, count) := s.1.counts.addCardCount cardPtr
  (c, if counts.isHot count then
    { s.2 with hot := s.2.hot ++ [cardPtr], evicted := s.2.evicted ++ res.toList }
  else { s.2 with cold := s.2.cold ++ [cardPtr], returned := s.2.returned ++ res.toList })

def insertAll (c : G1HotCardCache) (cards : List Nat) : G1HotCardCache × Insertions := cards.foldl record (c, {})

/-! ## The cache holds the youngest hot cards -/

lemma add_one_mod {m cap : Nat} (hcap : 0 < cap) : (if m % cap + 1 = cap then 0 else m % cap + 1) = (m + 1) % cap := by
  have hlt := Nat.mod_lt m hcap
  rw [← Nat.mod_add_mod]
  split
  next h => rw [h, Nat.mod_self]
  · exact (Nat.mod_eq_of_lt (by omega)).symm

structure Holds (c : G1HotCardCache) (start : Nat) (kept : List Nat) : Prop where
  ring : RingAt c.hotCacheSize c.hotCache start (kept.map some)
  length : kept.length = c.nHot
  le : c.nHot ≤ c.hotCacheSize
  idx : c.hotCacheIdx = (start + c.nHot) % c.hotCacheSize
  full : start = 0 ∨ c.nHot = c.hotCacheSize

lemma Holds.insert {c start kept} (h : Holds c start kept) (card)
    (hot : (c.counts.addCardCount card).1.isHot (c.counts.addCardCount card).2 = true) :
    ∃ start' kept', Holds (c.insert card).1 start' kept' ∧ kept ++ [card] = (c.insert card).2.toList ++ kept' := by
  have hlen := h.length
  have hidx := h.idx
  have hpos := c.hotCacheSize_pos
  have push {start' kept'} (hring : RingAt c.hotCacheSize c.hotCache start' (kept'.map some))
      (hlt : kept'.length < c.hotCacheSize) (heq : (start' + kept'.length) % c.hotCacheSize = c.hotCacheIdx) :
      RingAt c.hotCacheSize (update c.hotCache c.hotCacheIdx (some card)) start' ((kept' ++ [card]).map some) := by
    simpa [heq] using hring.push (by simpa using hlt) (some card)
  simp only [G1HotCardCache.insert, hot, Bool.not_true, Bool.false_eq_true, if_false]
  by_cases hfull : c.nHot = c.hotCacheSize
  · cases kept with
    | nil => simp_all
    | cons old rest =>
      rw [length_cons] at hlen
      have hend : start + 1 + rest.length = start + c.nHot := by omega
      have hhead : c.hotCache c.hotCacheIdx = some old := by
        rw [hidx, hfull, Nat.add_mod_right]
        exact h.ring.head
      have hn : c.nHot - 1 + 1 = c.nHot := by omega
      simp only [if_pos hfull, hn]
      refine ⟨start + 1, rest ++ [card],
        ⟨push h.ring.tail (by omega) (by rw [hend, hidx]), by simpa using hlen, h.le, ?_, .inr hfull⟩, by simp [hhead]⟩
      rw [hidx, add_one_mod hpos, Nat.add_right_comm]
  · have hlt := lt_of_le_of_ne h.le hfull
    simp only [if_neg hfull]
    refine ⟨start, kept ++ [card], ⟨push h.ring (hlen ▸ hlt) (by rw [hlen, hidx]), by simpa using hlen, hlt, ?_,
      .inl (h.full.resolve_right hfull)⟩, by simp⟩
    rw [hidx, add_one_mod hpos, Nat.add_assoc]

structure Recorded (cards : List Nat) (s : G1HotCardCache × Insertions) : Prop where
  perm : (s.2.cold ++ s.2.hot).Perm cards
  returned : s.2.returned = s.2.cold
  kept : ∃ start kept, Holds s.1 start kept ∧ s.2.hot = s.2.evicted ++ kept

lemma Recorded.record {cards s} (h : Recorded cards s) (card) : Recorded (cards ++ [card]) (record s card) := by
  obtain ⟨start, kept, hholds, heq⟩ := h.kept
  by_cases hot : (s.1.counts.addCardCount card).1.isHot (s.1.counts.addCardCount card).2 = true
  · obtain ⟨start', kept', hholds', heq'⟩ := hholds.insert card hot
    simp only [RemSet.record, hot, if_true]
    refine ⟨?_, h.returned, start', kept', hholds', ?_⟩
    · simpa using h.perm.append_right [card]
    · rw [heq, append_assoc, heq', append_assoc]
  · simp only [RemSet.record, G1HotCardCache.insert, hot, Bool.not_false, if_true, if_false, Bool.false_eq_true]
    refine ⟨?_, by simp [h.returned], start, kept, ⟨hholds.ring, hholds.length, hholds.le, hholds.idx, hholds.full⟩,
      heq⟩
    simp only [append_assoc]
    exact (Perm.append_left _ perm_append_comm).trans (by simpa using h.perm.append_right [card])

lemma recorded_insertAll (c : G1HotCardCache) (cards) : Recorded cards (insertAll c.resetHotCache cards) := by
  induction cards using reverseRecOn with
  | nil =>
    refine ⟨.refl _, rfl, 0, [], ⟨ringAt_nil, rfl, Nat.zero_le _, ?_, .inl rfl⟩, rfl⟩
    exact (Nat.zero_mod _).symm
  | append_singleton cards card ih =>
    rw [insertAll, foldl_append]
    exact ih.record card

/-- The slots below the fill level hold the cards, in a rotated order. -/
lemma Holds.slots {c start kept} (h : Holds c start kept) : ((range c.nHot).filterMap c.hotCache).Perm kept := by
  have hmap := h.ring.eq_map_range
  rw [length_map, h.length] at hmap
  have hrange : ((range c.nHot).map fun i => (start + i) % c.hotCacheSize).Perm (range c.nHot) := by
    have hle := h.le
    have hnodup : ((range c.nHot).map fun i => (start + i) % c.hotCacheSize).Nodup := by
      refine Nodup.map_on (fun i hi j hj hij => ?_) nodup_range
      rw [mem_range] at hi hj
      rcases Nat.lt_trichotomy i j with hlt | heq | hlt
      · exact absurd hij (mod_add_ne hlt (by omega))
      · exact heq
      · exact absurd hij.symm (mod_add_ne hlt (by omega))
    refine (hnodup.subperm fun i hi => ?_).perm_of_length_le (by simp)
    obtain ⟨j, hj, rfl⟩ := mem_map.1 hi
    rw [mem_range] at hj ⊢
    rcases h.full with rfl | hfull
    · rw [Nat.zero_add, Nat.mod_eq_of_lt (by omega)]; exact hj
    · rw [hfull]; exact Nat.mod_lt _ c.hotCacheSize_pos
  have hkept : kept = ((range c.nHot).map fun i => (start + i) % c.hotCacheSize).filterMap c.hotCache := by
    have := congrArg (filterMap id) hmap
    simpa [filterMap_map, comp_def] using this
  rw [hkept]
  exact (hrange.filterMap _).symm

/-! ## Each slot is refined by one worker -/

namespace Drain

def cardsIn (c : G1HotCardCache) (i endIdx : Nat) : Multiset Nat := (range' i (endIdx - i)).filterMap c.hotCache

def pending (c : G1HotCardCache) : DrainPc → Multiset Nat
  | .refine i endIdx => cardsIn c i endIdx
  | _ => 0

structure Inv (c : G1HotCardCache) (d : Drain n) : Prop where
  cache : d.cache = { c with parClaimedIdx := d.cache.parClaimedIdx }
  slots : ↑(d.refined.map Prod.snd) + ∑ w, pending c (d.pc w) = cardsIn c 0 (min d.cache.parClaimedIdx c.nHot)
  returned : ∀ w, d.pc w = .returned → c.nHot ≤ d.cache.parClaimedIdx

lemma cardsIn_claim (c : G1HotCardCache) (startIdx) : cardsIn c 0 (min (startIdx + c.parChunkSize) c.nHot) =
    cardsIn c 0 (min startIdx c.nHot) + cardsIn c startIdx (min (startIdx + c.parChunkSize) c.nHot) := by
  rcases Nat.le_total startIdx c.nHot with h | h
  · have hadd : min (startIdx + c.parChunkSize) c.nHot =
        startIdx + (min (startIdx + c.parChunkSize) c.nHot - startIdx) := by omega
    rw [min_eq_left h, cardsIn, cardsIn, cardsIn, Multiset.coe_add, hadd]
    congr 2
    rw [Nat.sub_zero, ← range'_append]
    simp
  · rw [min_eq_right h, min_eq_right (by omega)]
    simp [cardsIn, Nat.sub_eq_zero_of_le h]

lemma cardsIn_cons (c : G1HotCardCache) {i endIdx} (h : i < endIdx) :
    cardsIn c i endIdx = ↑(c.hotCache i).toList + cardsIn c (i + 1) endIdx := by
  have hsub : endIdx - i = endIdx - (i + 1) + 1 := by omega
  rw [cardsIn, hsub, range'_succ, filterMap_cons, cardsIn]
  cases c.hotCache i <;> simp

lemma Inv.goto {c k k' pc} {refined calls : List (Fin n × Nat)} {w x}
    (h : Inv c ⟨{ c with parClaimedIdx := k }, pc, refined⟩) (hk : k ≤ k') (hx : x = .returned → c.nHot ≤ k')
    (hmove : ↑(calls.map Prod.snd) + pending c x + cardsIn c 0 (min k c.nHot) =
      pending c (pc w) + cardsIn c 0 (min k' c.nHot)) :
    Inv c ⟨{ c with parClaimedIdx := k' }, update pc w x, refined ++ calls⟩ := by
  refine ⟨rfl, ?_, fun w' hw' => ?_⟩
  · have hsum := sum_update_exchange pc w x (pending c)
    have hslots := h.slots
    simp only at hslots ⊢
    rw [← hslots] at hmove
    refine add_right_cancel (b := pending c (pc w)) ?_
    rw [map_append, ← Multiset.coe_add, add_assoc, hsum, add_comm (cardsIn c 0 _), ← hmove]
    ac_rfl
  · by_cases hw : w' = w
    · subst hw
      exact hx (by simpa using hw')
    · exact (h.returned w' (by simpa [hw] using hw')).trans hk

lemma Inv.step {c} {d : Drain n} (h : Inv c d) (w) : Inv c (d.step w) := by
  obtain ⟨cache, pc, refined⟩ := d
  obtain ⟨k, rfl⟩ : ∃ k, cache = { c with parClaimedIdx := k } := ⟨_, h.cache⟩
  unfold Drain.step
  cases hpc : pc w with
  | read =>
    simp only [hpc]
    rw [← append_nil refined]
    refine h.goto le_rfl (fun hx => ?_) ?_
    · by_contra hlt
      simp [Nat.lt_of_not_le hlt] at hx
    · rw [hpc]
      split <;> simp [pending]
  | cmpxchg startIdx =>
    simp only [hpc]
    split
    next heq =>
      subst heq
      rw [← append_nil refined]
      refine h.goto (Nat.le_add_right _ _) nofun ?_
      rw [hpc, cardsIn_claim]
      simp [pending, add_comm]
    · rw [← append_nil refined]
      exact h.goto le_rfl nofun (by simp [hpc, pending])
  | refine i endIdx =>
    simp only [hpc]
    split
    next hlt =>
      refine h.goto le_rfl nofun ?_
      rw [hpc, pending, pending, cardsIn_cons c hlt]
      simp [comp_def]
    next hge =>
      rw [← append_nil refined]
      refine h.goto le_rfl nofun ?_
      simp [hpc, pending, cardsIn, Nat.sub_eq_zero_of_le (Nat.le_of_not_lt hge)]
  | returned => simpa only [hpc] using h

lemma inv_start (c : G1HotCardCache) : Inv c (start n c) := by
  refine ⟨rfl, ?_, nofun⟩
  simp [start, pending, cardsIn, G1HotCardCache.resetHotCacheClaimedIndex]

lemma Inv.run {c} {d : Drain n} (h : Inv c d) (schedule : List (Fin n)) : Inv c (schedule.foldl Drain.step d) := by
  induction schedule generalizing d with
  | nil => exact h
  | cons w schedule ih => exact ih (h.step w)

def rank (k nHot : Nat) : DrainPc → Nat
  | .read => if k < nHot then 6 else 1
  | .cmpxchg startIdx => if k = startIdx ∧ k < nHot then 5 else 8
  | .refine i endIdx => endIdx - i + 7
  | .returned => 0

/-- A bound for the steps that a worker makes if it runs alone. -/
def remaining (d : Drain n) (w : Fin n) : Nat :=
  (d.cache.nHot - d.cache.parClaimedIdx) * (d.cache.parChunkSize + 4) +
    rank d.cache.parClaimedIdx d.cache.nHot (d.pc w)

lemma remaining_step {d : Drain n} {w} (hchunk : 0 < d.cache.parChunkSize) (hw : d.pc w ≠ .returned) :
    (d.step w).cache.parChunkSize = d.cache.parChunkSize ∧ (d.step w).remaining w < d.remaining w := by
  unfold Drain.step
  cases hpc : d.pc w with
  | read =>
    refine ⟨rfl, ?_⟩
    simp only [remaining, update_self]
    grind [rank]
  | cmpxchg startIdx =>
    dsimp only
    split_ifs with hclaim
    · refine ⟨rfl, ?_⟩
      simp only [remaining, update_self, hclaim, hpc, rank, true_and]
      split_ifs with hk
      · have hmul := Nat.mul_le_mul_right (d.cache.parChunkSize + 4)
          (show d.cache.nHot - (startIdx + d.cache.parChunkSize) + 1 ≤ d.cache.nHot - startIdx by omega)
        rw [Nat.succ_mul] at hmul
        omega
      · rw [show d.cache.nHot - (startIdx + d.cache.parChunkSize) = 0 by omega]
        omega
    · refine ⟨rfl, ?_⟩
      simp only [remaining, update_self]
      grind [rank]
  | refine i endIdx =>
    dsimp only
    split_ifs with hi <;> refine ⟨rfl, ?_⟩ <;> simp only [remaining, update_self] <;> grind [rank]
  | returned => exact absurd hpc hw

/-- With a positive chunk size a drain ends: whatever the others have done, a worker returns after finitely many steps
of its own. -/
lemma exists_returned (d : Drain n) (w) (hchunk : 0 < d.cache.parChunkSize) :
    ∃ k, ((replicate k w).foldl Drain.step d).pc w = .returned := by
  by_cases hw : d.pc w = .returned
  · exact ⟨0, hw⟩
  · obtain ⟨hsize, hlt⟩ := remaining_step hchunk hw
    obtain ⟨k, hk⟩ := exists_returned (d.step w) w (hsize ▸ hchunk)
    exact ⟨k + 1, hk⟩
termination_by d.remaining w

end Drain

/-! ## Every card is accounted for -/

/-- Cards are inserted into an empty cache and then `n` workers drain it, interleaved by `schedule`. A cold card is
returned by its own call. The hot ones are evicted in the order of their insertion, and those that remain are refined.
-/
theorem every_inserted_card_is_accounted_for (c : G1HotCardCache) (cards : List Nat) {n : Nat} (hn : 0 < n)
    (schedule : List (Fin n)) {d : Drain n}
    (hd : schedule.foldl Drain.step (.start n (insertAll c.resetHotCache cards).1) = d)
    (hreturned : ∀ w, d.pc w = .returned) : let i := (insertAll c.resetHotCache cards).2
    (i.cold ++ i.hot).Perm cards ∧ i.returned = i.cold ∧ ∃ kept, i.hot = i.evicted ++ kept ∧
      (d.refined.map Prod.snd).Perm kept := by
  obtain ⟨hperm, hcold, start, kept, hholds, heq⟩ := recorded_insertAll c cards
  refine ⟨hperm, hcold, kept, heq, .trans ?_ hholds.slots⟩
  have hinv : Drain.Inv _ d := hd ▸ (Drain.inv_start (insertAll c.resetHotCache cards).1).run schedule
  have hslots := hinv.slots
  rw [min_eq_right (hinv.returned ⟨0, hn⟩ (hreturned _))] at hslots
  simpa [Drain.pending, hreturned, Drain.cardsIn, range_eq_range'] using hslots

theorem three_hot_cards_are_accounted_for :
    let c := G1HotCardCache.initializeCache 1 2 ⟨0, true, 0, 9, fun _ => 0⟩ fun _ => none
    let i := (insertAll c.resetHotCache [3, 4, 5]).2
    i.evicted = [3] ∧ ∃ kept, i.hot = i.evicted ++ kept ∧
      (([0, 1, 0, 1, 0, 0, 0, 1, 1, 1, 1, 1, 1, 0, 0, 1].foldl Drain.step
        (.start 2 (insertAll c.resetHotCache [3, 4, 5]).1)).refined.map Prod.snd).Perm kept :=
  ⟨by decide, (every_inserted_card_is_accounted_for _ _ (by decide) _ rfl (by decide)).2.2⟩

end Rolp.RemSet
