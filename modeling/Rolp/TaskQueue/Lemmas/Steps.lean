import Rolp.TaskQueue.Deque
import Rolp.Lib.Buffer

/-!
# Indices modulo the capacity

On indices below the capacity the masks of the source compute remainders.
-/

namespace Rolp.TaskQueue

open Nat Deque

variable {N ind bot top len : Nat}

/-- The capacities that the code is written for: powers of two in an `unsigned int`. -/
structure IsCapacity (N : Nat) : Prop where
  power : ∃ k, N = 2 ^ k
  four_le : 4 ≤ N
  lt : N < 2 ^ 32

namespace IsCapacity

section

variable (h : IsCapacity N)

include h

lemma pos : 0 < N := lt_of_lt_of_le (by decide) h.four_le

lemma dvd : N ∣ 2 ^ 32 := by
  obtain ⟨k, rfl⟩ := h.power
  have hk : k < 32 := (Nat.pow_lt_pow_iff_right (by decide)).1 h.lt
  exact pow_dvd_pow 2 (le_of_lt hk)

lemma mask (x) : x % 2 ^ 32 &&& (N - 1) = x % N := by
  obtain ⟨k, rfl⟩ := h.power
  rw [and_two_pow_sub_one_eq_mod, mod_mod_of_dvd _ h.dvd]

lemma incrementIndex_eq (ind) : incrementIndex N ind = (ind + 1) % N := h.mask _

lemma decrementIndex_eq (ind) : decrementIndex N ind = (ind + (N - 1)) % N := by
  have hN := h.four_le
  have hlt := h.lt
  obtain ⟨c, hc⟩ := dvd_sub h.dvd (dvd_refl N)
  have hsum : ind + 2 ^ 32 - 1 = ind + (N - 1) + N * c := by omega
  rw [decrementIndex, h.mask, hsum, add_mul_mod_self_left]

lemma dirtySize_add (htop : top < N) (hlen : len < N) : dirtySize N ((top + len) % N) top = len := by
  have hlt := h.lt
  obtain ⟨c, hc⟩ := h.dvd
  rw [dirtySize, h.mask]
  by_cases hsum : top + len < N
  · have heq : (top + len) % N + 2 ^ 32 - top = len + N * c := by
      rw [mod_eq_of_lt hsum]
      omega
    rw [heq, add_mul_mod_self_left, mod_eq_of_lt hlen]
  · have hmod : (top + len) % N = top + len - N := by rw [mod_eq_sub_mod (by omega), mod_eq_of_lt (by omega)]
    have heq : (top + len) % N + 2 ^ 32 - top + N = len + N * c := by omega
    rw [← add_mod_right, heq, add_mul_mod_self_left, mod_eq_of_lt hlen]

lemma size_add (htop : top < N) (hlen : len ≤ N - 2) : size N ((top + len) % N) top = len := by
  have hN := h.four_le
  have hsz : dirtySize N ((top + len) % N) top = len := h.dirtySize_add htop (by omega)
  simp only [size, hsz]
  exact if_neg (by omega)

lemma size_lowered (htop : top < N) (hlen : len ≤ N - 2) : size N ((top + len + (N - 1)) % N) top = len - 1 := by
  cases len with
  | zero =>
    have hsz : dirtySize N ((top + (N - 1)) % N) top = N - 1 := h.dirtySize_add htop (by omega)
    simp [size, hsz]
  | succ len =>
    have heq : top + (len + 1) + (N - 1) = top + len + N := by omega
    rw [heq, add_mod_right, h.size_add htop (by omega)]
    rfl

end

end IsCapacity

lemma isCapacity_four : IsCapacity 4 := ⟨⟨2, rfl⟩, by decide, by decide⟩

open Rolp.Lib

variable {E ι : Type} {N : Nat} {q : Deque E ι} {c c' : List E} {t : E}

/-! ## Ages -/

namespace Age

variable {a b d : Age}

def Before (a b : Age) : Prop := a.tag < b.tag ∨ a.tag = b.tag ∧ a.top < b.top

def AtMost (a b : Age) : Prop := a.tag < b.tag ∨ a.tag = b.tag ∧ a.top ≤ b.top

lemma AtMost.refl (a : Age) : a.AtMost a := .inr ⟨rfl, le_rfl⟩

lemma Before.atMost (h : a.Before b) : a.AtMost b := by
  unfold Before at h
  unfold AtMost
  omega

lemma Before.ne (h : a.Before b) : b ≠ a := by
  rintro rfl
  unfold Before at h
  omega

lemma AtMost.trans (h : a.AtMost b) (h' : b.AtMost d) : a.AtMost d := by
  unfold AtMost at h h' ⊢
  omega

lemma AtMost.antisymm (h : a.AtMost b) (h' : b.AtMost a) : a = b := by
  cases a
  cases b
  simp only [AtMost, Age.mk.injEq] at *
  omega

lemma increment_top (hN : IsCapacity N) (a : Age) : (a.increment N).top = (a.top + 1) % N := hN.incrementIndex_eq _

lemma increment_tag (hN : IsCapacity N) (a : Age) :
    (a.increment N).tag = if (a.top + 1) % N = 0 then a.tag + 1 else a.tag := by
  rw [← hN.incrementIndex_eq]
  rfl

lemma before_increment (hN : IsCapacity N) (htop : a.top < N) : a.Before (a.increment N) := by
  rw [Before, increment_top hN, increment_tag hN]
  by_cases hwrap : a.top + 1 = N
  · simp [hwrap]
  · rw [mod_eq_of_lt (by omega), if_neg (by omega)]
    omega

lemma eq_of_data_eq (h : a.AtMost b) (hdata : b.data = a.data) (htag : b.tag < a.tag + 2 ^ 32) : b = a := by
  cases a
  cases b
  simp only [data, AtMost, Prod.mk.injEq, Age.mk.injEq] at *
  omega

end Age

/-! ## The invariant -/

section

variable (N : Nat) (q : Deque E ι) (c : List E)

def Steady : Prop := q.bottom = (q.age.top + c.length) % N

def beforeEnd : Nat := (q.age.top + c.length + (N - 1)) % N

def Lowered (localBot : Nat) : Prop :=
  q.bottom = localBot ∧ localBot = beforeEnd N q c

end

def EndsIn (t : E) (c : List E) : Prop := ∀ c0 x, c = c0 ++ [x] → x = t

def OwnerOk (N : Nat) (q : Deque E ι) (c : List E) : OwnerPc E → Prop
  | .idle => Steady N q c
  | .pushTop _ localBot => Steady N q c ∧ localBot = q.bottom
  -- `push` never finds the bottom one below the top, since `pop_local` leaves it so only while it runs.
  | .pushSlowBottom _ => False
  | .pushElem _ localBot => Steady N q c ∧ localBot = q.bottom ∧ c.length < N - 2
  | .pushBottom t localBot => Steady N q c ∧ localBot = q.bottom ∧ c.length < N - 2 ∧ q.elems localBot = t
  | .popTop localBot => Steady N q c ∧ localBot = q.bottom
  | .popBottom localBot => Steady N q c ∧ localBot = beforeEnd N q c
  | .popElem localBot => Lowered N q c localBot
  | .popTopAgain localBot t => Lowered N q c localBot ∧ EndsIn t c
  | .popSlowAge localBot t => Lowered N q c localBot ∧ EndsIn t c ∧ c.length ≤ 1
  | .popSlowCas localBot t oldAge =>
    Lowered N q c localBot ∧ oldAge.top = localBot ∧
      (q.age = oldAge ∧ c = [t] ∨ c = [] ∧ q.age.Before ⟨localBot, oldAge.tag + 1⟩)
  | .popSlowSet newAge => Lowered N q c newAge.top ∧ c = [] ∧ q.age.Before newAge

def ThiefOk (age : Age) (c : List E) : ThiefPc E → Prop
  | .idle => True
  | .bottom oldAge => oldAge.AtMost age
  | .elem oldAge => oldAge.AtMost age ∧ (oldAge = age → ∃ t, c.head? = some t)
  | .cas oldAge t => oldAge.AtMost age ∧ (oldAge = age → c.head? = some t)

structure Shape (N : Nat) (q : Deque E ι) (c : List E) : Prop where
  ring : RingAt N q.elems q.age.top c
  top_lt : q.age.top < N
  length_le : c.length ≤ N - 2
  owner : OwnerOk N q c q.owner
  thieves : ∀ i, ThiefOk q.age c (q.thieves i)

lemma Shape.ownerAt (h : Shape N q c) {pc} (hpc : q.owner = pc) : OwnerOk N q c pc := hpc ▸ h.owner

lemma shape_new (hN : IsCapacity N) (junk) : Shape N (Deque.new junk : Deque E ι) [] where
  ring := ringAt_nil
  top_lt := hN.pos
  length_le := zero_le _
  owner := (zero_mod N).symm
  thieves _ := trivial

lemma ThiefOk.keep {age age' pc} (h : ThiefOk age c pc) (hle : age.AtMost age')
    (hhead : age' = age → ∀ x, c.head? = some x → c'.head? = some x) : ThiefOk age' c' pc := by
  have hsame : ∀ oldAge, oldAge.AtMost age → oldAge = age' → oldAge = age := by
    rintro oldAge hold rfl
    exact hold.antisymm hle
  cases pc with
  | idle => trivial
  | bottom oldAge => exact h.trans hle
  | elem oldAge =>
    refine ⟨h.1.trans hle, fun heq => ?_⟩
    obtain ⟨t, ht⟩ := h.2 (hsame oldAge h.1 heq)
    exact ⟨t, hhead (heq.symm.trans (hsame oldAge h.1 heq)) t ht⟩
  | cas oldAge t =>
    exact ⟨h.1.trans hle, fun heq => hhead (heq.symm.trans (hsame oldAge h.1 heq)) t (h.2 (hsame oldAge h.1 heq))⟩

lemma beforeEnd_cons (hN : IsCapacity N) (hlen : c.length = c'.length + 1) :
    beforeEnd N q c = (q.age.top + c'.length) % N := by
  have hfour := hN.four_le
  have heq : q.age.top + c.length + (N - 1) = q.age.top + c'.length + N := by omega
  rw [beforeEnd, heq, add_mod_right]

lemma beforeEnd_nil_ne (hN : IsCapacity N) (htop : q.age.top < N) : beforeEnd N q ([] : List E) ≠ q.age.top := by
  have hfour := hN.four_le
  intro h
  have hne : (q.age.top + 0) % N ≠ (q.age.top + (N - 1)) % N := mod_add_ne (by omega) (by omega)
  rw [add_zero, mod_eq_of_lt htop] at hne
  exact hne h.symm

lemma beforeEnd_lt (hN : IsCapacity N) : beforeEnd N q c < N := mod_lt _ hN.pos

/-! ## One access -/

open Function List Nat

variable {E ι : Type} {N localBot : Nat} {q q' : Deque E ι} {c : List E} {t : E} {out : Option (Outcome E)}
  {oldAge newAge : Age}

lemma Shape.setOwner (h : Shape N q c) {pc} (ho : OwnerOk N q c pc) : Shape N { q with owner := pc } c :=
  ⟨h.ring, h.top_lt, h.length_le, ho, h.thieves⟩

lemma Shape.begin (h : Shape N q c) (pc) (hpc : Steady N q c → OwnerOk N q c pc)
    (he : q.begin pc = some (q', out)) : ∃ c', Shape N q' c' ∧ Effect N out c c' := by
  unfold Deque.begin at he
  split at he
  next hidle =>
    cases he
    exact ⟨c, h.setOwner (hpc (h.ownerAt hidle)), rfl⟩
  · cases he

lemma Shape.setThief [DecidableEq ι] {i} (h : Shape N q c) {pc} (ht : ThiefOk q.age c pc) :
    Shape N (q.setThief i pc) c := by
  refine ⟨h.ring, h.top_lt, h.length_le, h.owner, fun j => ?_⟩
  change ThiefOk q.age c (update q.thieves i pc j)
  by_cases hj : j = i
  · subst hj
    rwa [update_self]
  · rw [update_of_ne hj]
    exact h.thieves j

lemma head?_append_of_head? {c0} (c1 : List E) {x} (h : c0.head? = some x) : (c0 ++ c1).head? = some x := by
  rw [head?_append, h]
  rfl

lemma EndsIn.tail {x} (h : EndsIn t (x :: c)) : EndsIn t c := by
  rintro c0 y rfl
  exact h (x :: c0) y rfl

variable (hN : IsCapacity N)

include hN

/-! ## The owner -/

section

variable (h : Shape N q c)

include h

lemma Steady.dirtySize (hs : Steady N q c) : dirtySize N q.bottom q.age.top = c.length := by
  have hfour := hN.four_le
  have hlen := h.length_le
  rw [hs]
  exact hN.dirtySize_add h.top_lt (by omega)

lemma Steady.size (hs : Steady N q c) : size N q.bottom q.age.top = c.length := by
  rw [hs]
  exact hN.size_add h.top_lt h.length_le

lemma Lowered.size (hl : Lowered N q c localBot) : size N localBot q.age.top = c.length - 1 := by
  rw [hl.2]
  exact hN.size_lowered h.top_lt h.length_le

lemma Shape.pushTop (hpc : q.owner = .pushTop t localBot)
    (he : q.ownerNext N = some (q', out)) : ∃ c', Shape N q' c' ∧ Effect N out c c' := by
  have hfour := hN.four_le
  have hlen := h.length_le
  obtain ⟨hs, rfl⟩ := h.ownerAt hpc
  simp only [ownerNext, hpc, hs.dirtySize hN h, maxElems] at he
  split at he
  next hlt =>
    cases he
    exact ⟨c, h.setOwner ⟨hs, rfl, hlt⟩, rfl⟩
  · split at he
    · omega
    · cases he
      exact ⟨c, h.setOwner hs, rfl, by omega⟩

omit hN in
lemma Shape.pushElem (ho : OwnerOk N q c (.pushElem t localBot)) :
    Shape N { q with elems := update q.elems localBot t, owner := .pushBottom t localBot } c := by
  obtain ⟨hs, rfl, hlt⟩ := ho
  refine ⟨?_, h.top_lt, h.length_le, ⟨hs, rfl, hlt, update_self _ _ _⟩, h.thieves⟩
  rw [Steady] at hs
  simp only [hs]
  exact h.ring.update_free (by omega) t

lemma Shape.pushBottom (ho : OwnerOk N q c (.pushBottom t localBot)) :
    Shape N { q with bottom := incrementIndex N localBot, owner := .idle } (c ++ [t]) := by
  obtain ⟨hs, rfl, hlt, ht⟩ := ho
  refine ⟨h.ring.snoc (hs ▸ ht), h.top_lt, ?_, ?_, fun i => (h.thieves i).keep (.refl _) ?_⟩
  · rw [length_append, length_singleton]
    omega
  · change incrementIndex N q.bottom = (q.age.top + (c ++ [t]).length) % N
    rw [hN.incrementIndex_eq, hs, mod_add_mod, length_append, length_singleton, add_assoc]
  · exact fun _ x hx => head?_append_of_head? [t] hx

lemma Shape.popTop (hpc : q.owner = .popTop localBot)
    (he : q.ownerNext N = some (q', out)) : ∃ c', Shape N q' c' ∧ Effect N out c c' := by
  obtain ⟨hs, rfl⟩ := h.ownerAt hpc
  simp only [ownerNext, hpc, hs.dirtySize hN h] at he
  split at he
  next hnil =>
    cases he
    obtain rfl := length_eq_zero_iff.1 hnil
    exact ⟨[], h.setOwner hs, rfl, rfl⟩
  · cases he
    refine ⟨c, h.setOwner ⟨hs, ?_⟩, rfl⟩
    rw [hN.decrementIndex_eq, hs, mod_add_mod]
    rfl

lemma Shape.popElem (ho : OwnerOk N q c (.popElem localBot)) :
    OwnerOk N q c (.popTopAgain localBot (q.elems localBot)) := by
  refine ⟨ho, ?_⟩
  rintro c0 x rfl
  have hlen : (c0 ++ [x]).length = c0.length + 1 := by simp
  have hbot : localBot = (q.age.top + c0.length) % N := ho.2.trans (beforeEnd_cons hN hlen)
  rw [hbot]
  exact h.ring.getElem.symm

lemma Shape.popLast (hl : Lowered N q c localBot) (hend : EndsIn t c)
    (htwo : 2 ≤ c.length) : ∃ c', Shape N { q with owner := .idle } c' ∧ c = c' ++ [t] := by
  rcases eq_nil_or_concat c with rfl | ⟨c0, x, hc⟩
  · cases htwo
  rw [concat_eq_append] at hc
  obtain rfl := hend c0 x hc
  have hlen : c.length = c0.length + 1 := by rw [hc, length_append, length_singleton]
  refine ⟨c0, ⟨(hc ▸ h.ring).left, h.top_lt, ?_, ?_, fun i => (h.thieves i).keep (.refl _) ?_⟩, hc⟩
  · have hle := h.length_le
    omega
  · exact hl.1.trans (hl.2.trans (beforeEnd_cons hN hlen))
  intro _ y hy
  cases c0 with
  | nil =>
    rw [hlen, length_nil] at htwo
    exact absurd htwo (by decide)
  | cons z c0 =>
    rw [hc] at hy
    exact hy

lemma Shape.popTopAgain (hpc : q.owner = .popTopAgain localBot t)
    (he : q.ownerNext N = some (q', out)) : ∃ c', Shape N q' c' ∧ Effect N out c c' := by
  obtain ⟨hl, hend⟩ := h.ownerAt hpc
  simp only [ownerNext, hpc, hl.size hN h] at he
  split at he
  · cases he
    exact h.popLast hN hl hend (by omega)
  · cases he
    exact ⟨c, h.setOwner ⟨hl, hend, by omega⟩, rfl⟩

lemma Shape.popSlowAge (hpc : q.owner = .popSlowAge localBot t)
    (he : q.ownerNext N = some (q', out)) : ∃ c', Shape N q' c' ∧ Effect N out c c' := by
  obtain ⟨hl, hend, hone⟩ := h.ownerAt hpc
  simp only [ownerNext, hpc] at he
  split at he
  next htop =>
    cases he
    refine ⟨c, h.setOwner ⟨hl, htop.symm, .inl ⟨rfl, ?_⟩⟩, rfl⟩
    match c, hone with
    | [], _ => exact absurd (hl.2.symm.trans htop) (beforeEnd_nil_ne hN h.top_lt)
    | [x], _ => rw [hend [] x rfl]
  next htop =>
    cases he
    refine ⟨c, h.setOwner ⟨hl, ?_, .inl (lt_succ_self _)⟩, rfl⟩
    match c, hone with
    | [], _ => rfl
    | [x], _ =>
      have hbot : beforeEnd N q [x] = (q.age.top + ([] : List E).length) % N := beforeEnd_cons hN rfl
      rw [length_nil, add_zero, mod_eq_of_lt h.top_lt] at hbot
      exact absurd (hl.2.trans hbot) htop

lemma Shape.setEmpty (hl : Lowered N q c newAge.top)
    (hage : q.age.Before newAge) : Shape N { q with age := newAge, owner := .idle } [] where
  ring := ringAt_nil
  top_lt := hl.2 ▸ beforeEnd_lt hN
  length_le := zero_le _
  owner := by
    have hlt : newAge.top < N := hl.2 ▸ beforeEnd_lt hN
    exact hl.1.trans (mod_eq_of_lt hlt).symm
  thieves i := (h.thieves i).keep hage.atMost fun heq => absurd heq hage.ne

lemma Shape.popSlowCas (hpc : q.owner = .popSlowCas localBot t oldAge)
    (he : q.ownerNext N = some (q', out)) : ∃ c', Shape N q' c' ∧ Effect N out c c' := by
  obtain ⟨hl, htop, ⟨rfl, rfl⟩ | ⟨rfl, hage⟩⟩ := h.ownerAt hpc
  · simp only [ownerNext, hpc, if_true] at he
    cases he
    exact ⟨[], h.setEmpty hN hl (.inl (lt_succ_self _)), rfl⟩
  · have hdata : q.age.data ≠ oldAge.data := by
      intro hdata
      have htop' : q.age.top = oldAge.top := congrArg Prod.fst hdata
      exact beforeEnd_nil_ne hN h.top_lt (hl.2.symm.trans (htop.symm.trans htop'.symm))
    simp only [ownerNext, hpc, if_neg hdata] at he
    cases he
    exact ⟨[], h.setOwner ⟨hl, rfl, hage⟩, rfl⟩

lemma Shape.ownerNext (he : q.ownerNext N = some (q', out)) : ∃ c', Shape N q' c' ∧ Effect N out c c' := by
  cases hpc : q.owner with
  | idle =>
    simp only [Deque.ownerNext, hpc] at he
    cases he
  | pushTop t localBot => exact h.pushTop hN hpc he
  | pushSlowBottom t => exact (h.ownerAt hpc).elim
  | pushElem t localBot =>
    simp only [Deque.ownerNext, hpc] at he
    cases he
    exact ⟨c, h.pushElem (h.ownerAt hpc), rfl⟩
  | pushBottom t localBot =>
    simp only [Deque.ownerNext, hpc] at he
    cases he
    exact ⟨c ++ [t], h.pushBottom hN (h.ownerAt hpc), rfl⟩
  | popTop localBot => exact h.popTop hN hpc he
  | popBottom localBot =>
    have ho := h.ownerAt hpc
    simp only [Deque.ownerNext, hpc] at he
    cases he
    exact ⟨c, ⟨h.ring, h.top_lt, h.length_le, ⟨rfl, ho.2⟩, h.thieves⟩, rfl⟩
  | popElem localBot =>
    simp only [Deque.ownerNext, hpc] at he
    cases he
    exact ⟨c, h.setOwner (h.popElem hN (h.ownerAt hpc)), rfl⟩
  | popTopAgain localBot t => exact h.popTopAgain hN hpc he
  | popSlowAge localBot t => exact h.popSlowAge hN hpc he
  | popSlowCas localBot t oldAge => exact h.popSlowCas hN hpc he
  | popSlowSet newAge =>
    have ho := h.ownerAt hpc
    simp only [Deque.ownerNext, hpc] at he
    cases he
    exact ⟨[], h.setEmpty hN ho.1 ho.2.2, ho.2.1, rfl⟩

end

/-! ## The thieves -/

lemma increment_end (q : Deque E ι) (k : Nat) : ((q.age.increment N).top + k) % N = (q.age.top + (k + 1)) % N := by
  rw [Age.increment_top hN, mod_add_mod, add_assoc, add_comm 1 k]

lemma Steady.steal (h : Steady N q (t :: c)) : Steady N { q with age := q.age.increment N } c := by
  exact h.trans (increment_end hN q c.length).symm

lemma beforeEnd_steal : beforeEnd N { q with age := q.age.increment N } c = beforeEnd N q (t :: c) := by
  have hend := increment_end hN q (c.length + (N - 1))
  rw [beforeEnd, beforeEnd, length_cons, add_assoc, hend]
  congr 1
  omega

lemma Lowered.steal (h : Lowered N q (t :: c) localBot) :
    Lowered N { q with age := q.age.increment N } c localBot := ⟨h.1, h.2.trans (beforeEnd_steal hN).symm⟩

/-- A thief that takes the task for which the owner is about to exchange the age leaves an age before the one the owner
will set. -/
lemma increment_before_set (htop : oldAge.top < N) : (oldAge.increment N).Before ⟨oldAge.top, oldAge.tag + 1⟩ := by
  have hfour := hN.four_le
  rw [Age.Before, Age.increment_top hN, Age.increment_tag hN]
  by_cases hwrap : oldAge.top + 1 = N
  · rw [hwrap, mod_self]
    have hpos : 0 < oldAge.top := by omega
    exact .inr ⟨rfl, hpos⟩
  · rw [mod_eq_of_lt (by omega)]
    exact .inl (lt_succ_self _)

lemma OwnerOk.steal (htop : q.age.top < N) {pc} (h : OwnerOk N q (t :: c) pc) :
    OwnerOk N { q with age := q.age.increment N } c pc := by
  cases pc with
  | idle => exact Steady.steal hN h
  | pushTop t localBot => exact ⟨Steady.steal hN h.1, h.2⟩
  | pushSlowBottom t => exact h
  | pushElem t localBot => exact ⟨Steady.steal hN h.1, h.2.1, lt_of_succ_lt h.2.2⟩
  | pushBottom t localBot => exact ⟨Steady.steal hN h.1, h.2.1, lt_of_succ_lt h.2.2.1, h.2.2.2⟩
  | popTop localBot => exact ⟨Steady.steal hN h.1, h.2⟩
  | popBottom localBot => exact ⟨Steady.steal hN h.1, h.2.trans (beforeEnd_steal hN).symm⟩
  | popElem localBot => exact Lowered.steal hN h
  | popTopAgain localBot t => exact ⟨Lowered.steal hN h.1, h.2.tail⟩
  | popSlowAge localBot t => exact ⟨Lowered.steal hN h.1, h.2.1.tail, le_of_succ_le h.2.2⟩
  | popSlowCas localBot t oldAge =>
    obtain ⟨hl, hold, ⟨rfl, hc⟩ | ⟨hc, -⟩⟩ := h
    · cases hc
      refine ⟨hl.steal hN, hold, .inr ⟨rfl, ?_⟩⟩
      rw [← hold]
      exact increment_before_set hN htop
    · cases hc
  | popSlowSet newAge => cases h.2.1

lemma Shape.steal (h : Shape N q (t :: c)) : Shape N { q with age := q.age.increment N } c := by
  have hage : q.age.Before (q.age.increment N) := Age.before_increment hN h.top_lt
  refine ⟨?_, ?_, le_of_succ_le h.length_le, h.owner.steal hN h.top_lt, ?_⟩
  · exact h.ring.tail.congr_start (by rw [Age.increment_top hN, mod_mod])
  · exact Age.increment_top hN q.age ▸ mod_lt _ hN.pos
  · exact fun i => (h.thieves i).keep hage.atMost fun heq => absurd heq hage.ne

lemma Shape.head_of_size (h : Shape N q c) (hsize : size N q.bottom q.age.top ≠ 0) : ∃ t, c.head? = some t := by
  cases c with
  | cons t c => exact ⟨t, rfl⟩
  | nil =>
    refine absurd ?_ hsize
    cases hpc : q.owner with
    | idle => exact Steady.size hN h (h.ownerAt hpc)
    | pushTop | pushElem | pushBottom | popTop | popBottom => exact Steady.size hN h (h.ownerAt hpc).1
    | pushSlowBottom => exact (h.ownerAt hpc).elim
    | popElem =>
      have hl := h.ownerAt hpc
      exact hl.1 ▸ Lowered.size hN h hl
    | popTopAgain | popSlowAge | popSlowCas | popSlowSet =>
      have hl := (h.ownerAt hpc).1
      exact hl.1 ▸ Lowered.size hN h hl

variable [DecidableEq ι] {i : ι}

lemma Shape.thiefNext (h : Shape N q c) (htag : (q.thieves i).TagKept q.age) :
    ∃ c', Shape N (q.thiefNext N i).1 c' ∧ Effect N (q.thiefNext N i).2 c c' := by
  have ht := h.thieves i
  unfold Deque.thiefNext
  split
  · exact ⟨c, h.setThief (.refl _), rfl⟩
  next oldAge hpc =>
    rw [hpc] at ht
    split
    · exact ⟨c, h.setThief trivial, rfl⟩
    rename_i hsize
    refine ⟨c, h.setThief ⟨ht, ?_⟩, rfl⟩
    rintro rfl
    exact h.head_of_size hN hsize
  next oldAge hpc =>
    rw [hpc] at ht
    refine ⟨c, h.setThief ⟨ht.1, ?_⟩, rfl⟩
    rintro rfl
    obtain ⟨x, hx⟩ := ht.2 rfl
    obtain ⟨c', rfl⟩ := head?_eq_some_iff.1 hx
    have helem := h.ring.head
    rw [mod_eq_of_lt h.top_lt] at helem
    rw [helem]
    rfl
  next oldAge t hpc =>
    rw [hpc] at ht htag
    split
    next hdata =>
      obtain rfl := Age.eq_of_data_eq ht.1 hdata htag
      obtain ⟨c', rfl⟩ := head?_eq_some_iff.1 (ht.2 rfl)
      exact ⟨c', (h.steal hN).setThief trivial, rfl⟩
    · exact ⟨c, h.setThief trivial, rfl⟩

/-! ## Any access -/

lemma Shape.next (h : Shape N q c) {ev} (htag : q.TagKept ev)
    (he : q.next N ev = some (q', out)) : ∃ c', Shape N q' c' ∧ Effect N out c c' := by
  cases ev with
  | push t => exact h.begin (.pushTop t q.bottom) (fun hs => ⟨hs, rfl⟩) he
  | popLocal => exact h.begin (.popTop q.bottom) (fun hs => ⟨hs, rfl⟩) he
  | owner => exact h.ownerNext hN he
  | thief i =>
    have hi := h.thiefNext hN htag
    have heq : q.thiefNext N i = (q', out) := Option.some.inj he
    rwa [heq] at hi

end Rolp.TaskQueue
