import Mathlib.Data.BitVec
import Mathlib.Tactic.IntervalCases
import Mathlib.Tactic.Ring

/-!
# Modified UTF-8

The conversions of `utf8.cpp`. A C string is the list of bytes that can be read from it, with the terminator, and a
pointer into it is the rest of that list; `none` is a read beyond it. An output pointer stands for the list of the bytes
written. `jint` values are words, which wrap as the code's do.
-/

namespace Rolp.Utf8

/-- `u_char` and `char`. -/
abbrev Byte := BitVec 8

abbrev JChar := BitVec 16

abbrev JInt := BitVec 32

/-! ## Reading -/

/-- The `switch` of `UTF8::next`: the character and its length, or no result for the bad length. -/
def nextLength : List Byte → Option (Option (JChar × Nat))
  | [] => none
  | ch :: rest =>
    match (ch >>> 4).toNat with
    | 0x8 | 0x9 | 0xA | 0xB | 0xF => some none
    | 0xC | 0xD =>
      match rest with
      | [] => none
      | ch2 :: _ =>
        if ch2 &&& 0xC0 = 0x80 then
          some (some (((ch &&& 0x1F).setWidth 16 <<< 6) + (ch2 &&& 0x3F).setWidth 16, 2))
        else some none
    | 0xE =>
      match rest with
      | [] => none
      | ch2 :: rest2 =>
        if ch2 &&& 0xC0 = 0x80 then
          match rest2 with
          | [] => none
          | ch3 :: _ =>
            if ch3 &&& 0xC0 = 0x80 then
              some (some (((((ch &&& 0x0F).setWidth 16 <<< 6) + (ch2 &&& 0x3F).setWidth 16) <<< 6) +
                (ch3 &&& 0x3F).setWidth 16, 3))
            else some none
        else some none
    | _ => some (some (ch.setWidth 16, 1))

/-- `UTF8::next`: the character and the new pointer. -/
def next (str : List Byte) : Option (JChar × List Byte) :=
  match str, nextLength str with
  | ch :: rest, some none => some (ch.setWidth 16, rest)
  | _, some (some (value, length)) => some (value, str.drop length)
  | _, _ => none

/-- The loop of `UTF8::unicode_length(str, len)`. -/
def countLoop : Nat → List Byte → JInt → Option JInt
  | 0, _, numChars => some numChars
  | _ + 1, [], _ => none
  | i + 1, b :: rest, numChars => countLoop i rest (if b &&& 0xC0 = 0x80 then numChars - 1 else numChars)

def unicodeLength (str : List Byte) (len : JInt) : Option JInt := countLoop len.toInt.toNat str len

/-- The loop of `UTF8::unicode_length(str)`. -/
def countToZero : List Byte → JInt → Option JInt
  | [], _ => none
  | b :: rest, numChars =>
    if b = 0 then some numChars
    else countToZero rest (if b &&& 0xC0 ≠ 0x80 then numChars + 1 else numChars)

/-- `UTF8::unicode_length(str)` -/
def unicodeLengthZ (str : List Byte) : Option JInt := countToZero str 0

def convertLoop : Nat → List Byte → List JChar → Option (List JChar)
  | 0, _, out => some out
  | n + 1, ptr, out => (next ptr).bind fun (value, ptr) => convertLoop n ptr (out ++ [value])

def convertAscii : Nat → List Byte → List JChar → Option (List JChar)
  | 0, _, out => some out
  | _ + 1, [], _ => none
  | n + 1, ch :: rest, out =>
    if ch > 0x7F then convertLoop (n + 1) (ch :: rest) out else convertAscii n rest (out ++ [ch.setWidth 16])

def convertToUnicode (utf8Str : List Byte) (unicodeLength : Nat) : Option (List JChar) :=
  convertAscii unicodeLength utf8Str []

/-! ## Writing -/

/-- The bytes that `utf8_write` writes. -/
def utf8Write (ch : JChar) : List Byte :=
  if ch ≠ 0 ∧ ch ≤ 0x7F then [ch.setWidth 8]
  else if ch ≤ 0x7FF then [(ch >>> 6).setWidth 8 ||| 0xC0, (ch &&& 0x3F).setWidth 8 ||| 0x80]
  else [(ch >>> 12).setWidth 8 ||| 0xE0, ((ch >>> 6) &&& 0x3F).setWidth 8 ||| 0x80, (ch &&& 0x3F).setWidth 8 ||| 0x80]

def utf8Size (c : JChar) : Nat := if 0x0001 ≤ c ∧ c ≤ 0x007F then 1 else if c ≤ 0x07FF then 2 else 3

/-- The loop of `UNICODE::utf8_length`. -/
def utf8LengthLoop : List JChar → JInt → JInt
  | [], result => result
  | c :: rest, result =>
    utf8LengthLoop rest
      (if 0x0001 ≤ c ∧ c ≤ 0x007F then result + 1 else if c ≤ 0x07FF then result + 2 else result + 3)

def utf8Length (base : List JChar) : JInt := utf8LengthLoop base 0

def convertToUtf8Loop : List JChar → List Byte → List Byte
  | [], out => out ++ [0]
  | c :: rest, out => convertToUtf8Loop rest (out ++ utf8Write c)

def convertToUtf8 (base : List JChar) : List Byte := convertToUtf8Loop base []

/-- The loop of `as_utf8` into a buffer of `buflen` bytes. -/
def asUtf8Loop (buflen : Nat) : List JChar → List Byte → List Byte
  | [], out => out ++ [0]
  | c :: rest, out =>
    if out.length + utf8Size c ≥ buflen then out ++ [0] else asUtf8Loop buflen rest (out ++ utf8Write c)

def asUtf8 (base : List JChar) (buflen : Nat) : List Byte := asUtf8Loop buflen base []

/-! ## The encoding -/

def encode (s : List JChar) : List Byte := s.flatMap utf8Write

open List Nat

/-! ## Bytes -/

lemma two_byte_lead : ∀ h : Byte, h ≤ 0x1F →
    (((h ||| 0xC0) >>> 4).toNat = 0xC ∨ ((h ||| 0xC0) >>> 4).toNat = 0xD) ∧ (h ||| 0xC0) &&& 0x1F = h := by
  decide +kernel

lemma three_byte_lead : ∀ h : Byte, h ≤ 0x0F → ((h ||| 0xE0) >>> 4).toNat = 0xE ∧ (h ||| 0xE0) &&& 0x0F = h := by
  decide +kernel

lemma tail_byte : ∀ l : Byte, l ≤ 0x3F → (l ||| 0x80) &&& 0xC0 = 0x80 ∧ (l ||| 0x80) &&& 0x3F = l := by decide +kernel

lemma lead_not_tail : ∀ h : Byte, (h ||| 0xC0) &&& 0xC0 ≠ 0x80 ∧ (h ||| 0xE0) &&& 0xC0 ≠ 0x80 ∧
    h ||| 0xC0 ≠ 0 ∧ h ||| 0xE0 ≠ 0 := by
  decide +kernel

lemma ascii_byte : ∀ b : Byte, b ≤ 0x7F → (b >>> 4).toNat < 8 ∧ b &&& 0xC0 ≠ 0x80 := by decide +kernel

lemma tail_ne_zero {b : Byte} (h : b &&& 0xC0 = 0x80) : b ≠ 0 := by
  rintro rfl
  exact absurd h (by decide)

/-! ## The cases of `UTF8::next` -/

section Next

variable {ch ch2 ch3 : Byte} {rest : List Byte}

lemma nextLength_one (h : (ch >>> 4).toNat < 8) : nextLength (ch :: rest) = some (some (ch.setWidth 16, 1)) := by
  unfold nextLength
  dsimp only
  generalize (ch >>> 4).toNat = nibble at h ⊢
  interval_cases nibble <;> rfl

lemma nextLength_two (h : (ch >>> 4).toNat = 0xC ∨ (ch >>> 4).toNat = 0xD) (h2 : ch2 &&& 0xC0 = 0x80) :
    nextLength (ch :: ch2 :: rest) =
      some (some (((ch &&& 0x1F).setWidth 16 <<< 6) + (ch2 &&& 0x3F).setWidth 16, 2)) := by
  unfold nextLength
  dsimp only
  rcases h with h | h
  · rw [h]
    exact if_pos h2
  · rw [h]
    exact if_pos h2

lemma nextLength_three (h : (ch >>> 4).toNat = 0xE) (h2 : ch2 &&& 0xC0 = 0x80) (h3 : ch3 &&& 0xC0 = 0x80) :
    nextLength (ch :: ch2 :: ch3 :: rest) =
      some (some (((((ch &&& 0x0F).setWidth 16 <<< 6) + (ch2 &&& 0x3F).setWidth 16) <<< 6) +
        (ch3 &&& 0x3F).setWidth 16, 3)) := by
  unfold nextLength
  dsimp only
  rw [h]
  exact (if_pos h2).trans (if_pos h3)

lemma next_of_length {str : List Byte} {value : JChar} {length : Nat}
    (h : nextLength str = some (some (value, length))) : next str = some (value, str.drop length) := by
  cases str with
  | nil => cases h
  | cons ch rest =>
    unfold next
    rw [h]

end Next

/-! ## The parts of a character -/

section Parts

variable (c : JChar)

lemma toNat_low_six : ((c &&& 0x3F).setWidth 8).toNat = c.toNat % 64 := by
  have hand : c.toNat &&& 63 = c.toNat % 64 := and_two_pow_sub_one_eq_mod _ 6
  rw [BitVec.toNat_setWidth, BitVec.toNat_and, show (0x3F : JChar).toNat = 63 from rfl]
  omega

lemma low_six_le : (c &&& 0x3F).setWidth 8 ≤ (0x3F : Byte) := by
  rw [BitVec.le_def, toNat_low_six]
  exact le_of_lt_succ (mod_lt _ (by decide))

lemma toNat_mid_six : (((c >>> 6) &&& 0x3F).setWidth 8).toNat = c.toNat / 64 % 64 := by
  rw [toNat_low_six, BitVec.toNat_ushiftRight, shiftRight_eq_div_pow]

lemma toNat_high_five (h : c ≤ 0x7FF) : ((c >>> 6).setWidth 8).toNat = c.toNat / 64 := by
  have hc : c.toNat ≤ 2047 := h
  rw [BitVec.toNat_setWidth, BitVec.toNat_ushiftRight]
  omega

lemma toNat_high_four : ((c >>> 12).setWidth 8).toNat = c.toNat / 4096 := by
  rw [BitVec.toNat_setWidth, BitVec.toNat_ushiftRight]
  omega

lemma toNat_widen (b : Byte) : (b.setWidth 16).toNat = b.toNat := by
  rw [BitVec.toNat_setWidth]
  omega

lemma join_two (h : c ≤ 0x7FF) :
    (((c >>> 6).setWidth 8).setWidth 16 <<< 6) + ((c &&& 0x3F).setWidth 8).setWidth 16 = c := by
  refine BitVec.eq_of_toNat_eq ?_
  rw [BitVec.toNat_add, BitVec.toNat_shiftLeft, toNat_widen, toNat_widen, toNat_low_six, toNat_high_five c h]
  omega

lemma join_three :
    (((((c >>> 12).setWidth 8).setWidth 16 <<< 6) + (((c >>> 6) &&& 0x3F).setWidth 8).setWidth 16) <<< 6) +
      ((c &&& 0x3F).setWidth 8).setWidth 16 = c := by
  refine BitVec.eq_of_toNat_eq ?_
  rw [BitVec.toNat_add, BitVec.toNat_shiftLeft, BitVec.toNat_add, BitVec.toNat_shiftLeft, toNat_widen, toNat_widen,
    toNat_widen, toNat_mid_six, toNat_low_six, toNat_high_four]
  omega

end Parts

/-! ## One character -/

variable {tail : List Byte}

section Character

variable (c : JChar)

lemma utf8Write_cases : (utf8Write c = [c.setWidth 8] ∧ utf8Size c = 1 ∧ c ≠ 0 ∧ c ≤ 0x7F) ∨
      (utf8Write c = [(c >>> 6).setWidth 8 ||| 0xC0, (c &&& 0x3F).setWidth 8 ||| 0x80] ∧ utf8Size c = 2 ∧ c ≤ 0x7FF) ∨
      (utf8Write c = [(c >>> 12).setWidth 8 ||| 0xE0, ((c >>> 6) &&& 0x3F).setWidth 8 ||| 0x80,
        (c &&& 0x3F).setWidth 8 ||| 0x80] ∧ utf8Size c = 3) := by
  have hone : 0x0001 ≤ c ↔ c ≠ 0 := by
    rw [ne_eq, ← BitVec.toNat_inj]
    exact one_le_iff_ne_zero
  unfold utf8Write utf8Size
  simp only [hone]
  split
  next h => exact .inl ⟨rfl, rfl, h⟩
  · split
    next h => exact .inr (.inl ⟨rfl, rfl, h⟩)
    · exact .inr (.inr ⟨rfl, rfl⟩)

lemma length_utf8Write : (utf8Write c).length = utf8Size c := by
  rcases utf8Write_cases c with ⟨h, hs, -⟩ | ⟨h, hs, -⟩ | ⟨h, hs⟩
  · rw [h, hs]; rfl
  · rw [h, hs]; rfl
  · rw [h, hs]; rfl

lemma ascii_setWidth (h0 : c ≠ 0) (h : c ≤ 0x7F) :
    c.setWidth 8 ≤ (0x7F : Byte) ∧ c.setWidth 8 ≠ (0 : Byte) ∧ (c.setWidth 8).setWidth 16 = c := by
  have hc : c.toNat ≤ 127 := h
  have hne : c.toNat ≠ 0 := fun hz => h0 (BitVec.eq_of_toNat_eq hz)
  have hnat : (c.setWidth 8).toNat = c.toNat := by
    rw [BitVec.toNat_setWidth]
    omega
  refine ⟨?_, ?_, BitVec.eq_of_toNat_eq ?_⟩
  · rw [BitVec.le_def, hnat]
    exact hc
  · intro hz
    rw [hz] at hnat
    exact hne hnat.symm
  · rw [BitVec.toNat_setWidth]
    omega

lemma utf8Write_shape : ∃ head tail, utf8Write c = head :: tail ∧ head &&& 0xC0 ≠ 0x80 ∧ head ≠ 0 ∧
    ∀ b ∈ tail, b &&& 0xC0 = 0x80 := by
  rcases utf8Write_cases c with ⟨h, -, h0, hle⟩ | ⟨h, -, hle⟩ | ⟨h, -⟩
  · obtain ⟨hb, hne, -⟩ := ascii_setWidth c h0 hle
    exact ⟨_, _, h, (ascii_byte _ hb).2, hne, nofun⟩
  · have hlead := lead_not_tail ((c >>> 6).setWidth 8)
    refine ⟨_, _, h, hlead.1, hlead.2.2.1, ?_⟩
    simpa using (tail_byte _ (low_six_le c)).1
  · have hlead := lead_not_tail ((c >>> 12).setWidth 8)
    refine ⟨_, _, h, hlead.2.1, hlead.2.2.2, ?_⟩
    have hmid := (tail_byte _ (low_six_le (c >>> 6))).1
    have hlow := (tail_byte _ (low_six_le c)).1
    simpa using And.intro hmid hlow

lemma nextLength_utf8Write (rest) : nextLength (utf8Write c ++ rest) = some (some (c, utf8Size c)) := by
  rcases utf8Write_cases c with ⟨h, hs, h0, hle⟩ | ⟨h, hs, hle⟩ | ⟨h, hs⟩
  · obtain ⟨hb, -, hback⟩ := ascii_setWidth c h0 hle
    rw [h, hs, singleton_append, nextLength_one (ascii_byte _ hb).1, hback]
  · have hlead := two_byte_lead ((c >>> 6).setWidth 8) (by
      have hc : c.toNat ≤ 2047 := hle
      rw [BitVec.le_def, toNat_high_five c hle]
      exact le_trans (Nat.div_le_div_right hc) (by decide))
    have htail := tail_byte _ (low_six_le c)
    rw [h, hs]
    refine (nextLength_two hlead.1 htail.1).trans ?_
    rw [hlead.2, htail.2, join_two c hle]
  · have hlead := three_byte_lead ((c >>> 12).setWidth 8) (by
      have hc := c.isLt
      rw [BitVec.le_def, toNat_high_four]
      exact le_of_lt_succ (Nat.div_lt_of_lt_mul hc))
    have hmid := tail_byte _ (low_six_le (c >>> 6))
    have hlow := tail_byte _ (low_six_le c)
    rw [h, hs]
    refine (nextLength_three hlead.1 hmid.1 hlow.1).trans ?_
    rw [hlead.2, hmid.2, hlow.2, join_three]

lemma utf8Write_ascii {head : Byte} (h : utf8Write c = head :: tail) (hle : head ≤ 0x7F) :
    tail = [] ∧ head.setWidth 16 = c := by
  have hnext := nextLength_utf8Write c []
  rw [h, append_nil, nextLength_one (ascii_byte _ hle).1] at hnext
  obtain ⟨hc, hsize⟩ := Prod.mk.inj (Option.some.inj (Option.some.inj hnext))
  have hlen := length_utf8Write c
  rw [h, ← hsize] at hlen
  exact ⟨eq_nil_of_length_eq_zero (succ.inj hlen), hc⟩

lemma next_utf8Write (rest) : next (utf8Write c ++ rest) = some (c, rest) := by
  rw [next_of_length (nextLength_utf8Write c rest), ← length_utf8Write, drop_left]

end Character

/-! ## Strings of characters -/

variable {s : List JChar}

section Strings

lemma encode_cons (c s) : encode (c :: s) = utf8Write c ++ encode s := flatMap_cons

lemma convertToUtf8Loop_eq (s out) : convertToUtf8Loop s out = out ++ encode s ++ [0] := by
  induction s generalizing out with
  | nil => simp [convertToUtf8Loop, encode]
  | cons c s ih => rw [convertToUtf8Loop, ih, encode_cons, append_assoc out]

lemma convertToUtf8_eq (s) : convertToUtf8 s = encode s ++ [0] := convertToUtf8Loop_eq s []

lemma encode_ne_zero {b : Byte} (hb : b ∈ encode s) : b ≠ 0 := by
  obtain ⟨c, -, hb⟩ := mem_flatMap.1 hb
  obtain ⟨head, tail, h, -, hhead, htail⟩ := utf8Write_shape c
  rw [h] at hb
  rcases mem_cons.1 hb with rfl | hb
  · exact hhead
  · exact tail_ne_zero (htail b hb)

variable (s)

lemma length_encode : (encode s).length = (s.map utf8Size).sum := by
  induction s with
  | nil => rfl
  | cons c s ih => rw [encode_cons, length_append, length_utf8Write, ih, map_cons, sum_cons]

lemma utf8LengthLoop_eq (result) : utf8LengthLoop s result = result + ((s.map utf8Size).sum : Nat) := by
  induction s generalizing result with
  | nil => simp [utf8LengthLoop]
  | cons c s ih =>
    have hsize : (if 0x0001 ≤ c ∧ c ≤ 0x007F then result + 1 else if c ≤ 0x07FF then result + 2 else result + 3) =
        result + (utf8Size c) := by
      unfold utf8Size
      split_ifs <;> rfl
    rw [utf8LengthLoop, hsize, ih, map_cons, sum_cons]
    push_cast
    ring

lemma utf8Length_eq : utf8Length s = ((encode s).length : Nat) := by
  rw [utf8Length, utf8LengthLoop_eq, length_encode, zero_add]

lemma toInt_natCast_eq_iff (n : Nat) : ((n : JInt).toInt = n) ↔ n < 2 ^ 31 := by
  rw [BitVec.natCast_eq_ofNat, BitVec.toInt_ofNat', Int.bmod_def]
  omega

/-! ### Counting -/

lemma countLoop_tail (htail : ∀ b ∈ tail, b &&& 0xC0 = 0x80) (n rest k) :
    countLoop (tail.length + n) (tail ++ rest) k = countLoop n rest (k - (tail.length : Nat)) := by
  induction tail generalizing k with
  | nil => simp
  | cons b tail ih =>
    have hb := htail b (mem_cons_self ..)
    rw [length_cons, add_right_comm, cons_append, countLoop, if_pos hb, ih fun b hb => htail b (mem_cons_of_mem _ hb)]
    congr 1
    push_cast
    ring

lemma countLoop_encode (n rest k) :
    countLoop ((encode s).length + n) (encode s ++ rest) (k + ((encode s).length : Nat)) =
      countLoop n rest (k + (s.length : Nat)) := by
  induction s generalizing k with
  | nil => simp [encode]
  | cons c s ih =>
    obtain ⟨head, tail, h, hhead, -, htail⟩ := utf8Write_shape c
    have hcount := ih (k + 1)
    rw [encode_cons, h, cons_append, cons_append, append_assoc, length_cons, length_append,
      add_right_comm, countLoop, if_neg hhead, add_assoc, countLoop_tail htail]
    convert hcount using 2
    · push_cast
      ring
    · rw [length_cons]
      push_cast
      ring

lemma countToZero_tail (htail : ∀ b ∈ tail, b &&& 0xC0 = 0x80) (rest k) :
    countToZero (tail ++ rest) k = countToZero rest k := by
  induction tail with
  | nil => rfl
  | cons b tail ih =>
    have hb := htail b (mem_cons_self ..)
    rw [cons_append, countToZero, if_neg (tail_ne_zero hb), if_neg (not_not.2 hb),
      ih fun b hb => htail b (mem_cons_of_mem _ hb)]

lemma countToZero_encode (rest k) : countToZero (encode s ++ 0 :: rest) k = some (k + (s.length : Nat)) := by
  induction s generalizing k with
  | nil => simp [encode, countToZero]
  | cons c s ih =>
    obtain ⟨head, tail, h, hhead, h0, htail⟩ := utf8Write_shape c
    rw [encode_cons, h, cons_append, cons_append, append_assoc, countToZero, if_neg h0, if_pos hhead,
      countToZero_tail htail, ih, length_cons]
    push_cast
    congr 1
    ring

/-! ### Decoding -/

lemma convertLoop_encode (rest out) : convertLoop s.length (encode s ++ rest) out = some (out ++ s) := by
  induction s generalizing out with
  | nil => simp [convertLoop]
  | cons c s ih =>
    rw [encode_cons, append_assoc, length_cons, convertLoop, next_utf8Write]
    refine (ih (out ++ [c])).trans ?_
    rw [append_assoc, singleton_append]

lemma convertAscii_encode (rest out) : convertAscii s.length (encode s ++ rest) out = some (out ++ s) := by
  induction s generalizing out with
  | nil => simp [convertAscii]
  | cons c s ih =>
    obtain ⟨head, tail, h, -⟩ := utf8Write_shape c
    have hloop := convertLoop_encode (c :: s) rest out
    rw [encode_cons, h, cons_append, cons_append, length_cons] at hloop ⊢
    rw [convertAscii]
    split
    · exact hloop
    next hascii =>
      obtain ⟨rfl, hc⟩ := utf8Write_ascii c h (BitVec.not_lt.1 hascii)
      rw [hc, nil_append, ih, append_assoc, singleton_append]

variable {s}

/-! ### A buffer of limited size -/

lemma asUtf8Loop_spec (buflen s out) (hout : out.length < buflen) :
    ∃ k ≤ s.length, asUtf8Loop buflen s out = out ++ encode (s.take k) ++ [0] ∧
      out.length + (encode (s.take k)).length < buflen ∧
      ∀ j, k < j → j ≤ s.length → buflen ≤ out.length + (encode (s.take j)).length := by
  induction s generalizing out with
  | nil => exact ⟨0, le_rfl, by simp [asUtf8Loop, encode], by simpa [encode] using hout,
      fun j h1 h2 => absurd h1 (not_lt.2 h2)⟩
  | cons c s ih =>
    rw [asUtf8Loop]
    split
    · refine ⟨0, zero_le _, by simp [encode], by simpa [encode] using hout, fun j hj _ => ?_⟩
      obtain ⟨j, rfl⟩ := exists_eq_succ_of_ne_zero (ne_of_gt hj)
      rw [take_succ_cons, encode_cons, length_append, length_utf8Write]
      omega
    rename_i hroom
    rw [← length_utf8Write] at hroom
    obtain ⟨k, hk, heq, hfits, hmax⟩ := ih (out ++ utf8Write c) (by rw [length_append]; omega)
    refine ⟨k + 1, succ_le_succ hk, ?_, ?_, fun j hj hle => ?_⟩
    · rw [heq, take_succ_cons, encode_cons, append_assoc out]
    · rw [take_succ_cons, encode_cons, length_append]
      rw [length_append] at hfits
      omega
    · obtain ⟨j, rfl⟩ := exists_eq_succ_of_ne_zero (show j ≠ 0 by omega)
      have hlarge := hmax j (by omega) (by simpa using hle)
      rw [take_succ_cons, encode_cons, length_append]
      rw [length_append] at hlarge
      omega

end Strings

/-! ## The round trip -/

/-- The conversions of a string agree: the length predicted, the lengths counted, the characters read back, and what
fits into a buffer. -/
structure RoundTrips (s : List JChar) : Prop where
  written : ∃ bytes : List Byte, convertToUtf8 s = bytes ++ [0] ∧ (utf8Length s).toInt = bytes.length ∧
    ∀ b ∈ bytes, b ≠ 0
  counted : ∃ n, unicodeLength (convertToUtf8 s) (utf8Length s) = some n ∧ n.toInt = s.length
  countedZ : ∃ n, unicodeLengthZ (convertToUtf8 s) = some n ∧ n.toInt = s.length
  readBack : convertToUnicode (convertToUtf8 s) s.length = some s
  limited : ∀ buflen, 0 < buflen → ∃ k ≤ s.length, asUtf8 s buflen = convertToUtf8 (s.take k) ∧
    (convertToUtf8 (s.take k)).length ≤ buflen ∧
    ∀ j, k < j → j ≤ s.length → buflen < (convertToUtf8 (s.take j)).length

lemma length_convertToUtf8 (s) : (convertToUtf8 s).length = (encode s).length + 1 := by
  rw [convertToUtf8_eq, length_append, length_singleton]

lemma length_le_encode (s) : s.length ≤ (encode s).length := by
  induction s with
  | nil => exact le_rfl
  | cons c s ih =>
    obtain ⟨head, tail, h, -⟩ := utf8Write_shape c
    rw [encode_cons, h, length_append, length_cons, length_cons]
    omega

lemma asUtf8_spec (s) {buflen : Nat} (hbuf : 0 < buflen) :
    ∃ k ≤ s.length, asUtf8 s buflen = convertToUtf8 (s.take k) ∧ (convertToUtf8 (s.take k)).length ≤ buflen ∧
      ∀ j, k < j → j ≤ s.length → buflen < (convertToUtf8 (s.take j)).length := by
  obtain ⟨k, hk, heq, hfits, hmax⟩ := asUtf8Loop_spec buflen s [] hbuf
  simp only [nil_append, length_nil, zero_add] at heq hfits hmax
  refine ⟨k, hk, heq.trans (convertToUtf8_eq _).symm, ?_, fun j hj hle => ?_⟩
  · rw [length_convertToUtf8]
    exact hfits
  · rw [length_convertToUtf8]
    exact lt_succ_of_le (hmax j hj hle)

lemma roundTrips_of_lt (h : (encode s).length < 2 ^ 31) : RoundTrips s := by
  have hlen : (utf8Length s).toInt = (encode s).length := by
    rw [utf8Length_eq]
    exact (toInt_natCast_eq_iff _).2 h
  have hchars : ((s.length : JInt)).toInt = s.length :=
    (toInt_natCast_eq_iff _).2 (lt_of_le_of_lt (length_le_encode s) h)
  refine ⟨⟨encode s, convertToUtf8_eq s, hlen, fun _ => encode_ne_zero⟩, ⟨_, ?_, hchars⟩, ⟨_, ?_, hchars⟩, ?_,
    fun buflen hbuf => asUtf8_spec s hbuf⟩
  · have hcount := countLoop_encode s 0 [0] 0
    rw [unicodeLength, hlen, convertToUtf8_eq, utf8Length_eq]
    rw [zero_add, zero_add] at hcount
    exact hcount
  · rw [unicodeLengthZ, convertToUtf8_eq, countToZero_encode, zero_add]
  · rw [convertToUnicode, convertToUtf8_eq, convertAscii_encode, nil_append]

lemma not_roundTrips_of_le (h : 2 ^ 31 ≤ (encode s).length) : ¬RoundTrips s := by
  intro hs
  obtain ⟨bytes, heq, hlen, -⟩ := hs.written
  rw [convertToUtf8_eq] at heq
  rw [← append_cancel_right heq, utf8Length_eq] at hlen
  exact absurd ((toInt_natCast_eq_iff _).1 hlen) (not_lt.2 h)

/-- The conversions of a string agree exactly when its text has fewer than `2 ^ 31` bytes, for any characters. -/
theorem conversions_round_trip_iff (s : List JChar) : RoundTrips s ↔ (s.map utf8Size).sum < 2 ^ 31 := by
  rw [← length_encode]
  constructor
  · intro hs
    exact Nat.lt_of_not_le fun h => not_roundTrips_of_le h hs
  · exact roundTrips_of_lt

lemma not_roundTrips_replicate {n : Nat} (h : 2 ^ 31 ≤ 3 * n) : ¬RoundTrips (List.replicate n 0xFFFF) := by
  refine not_roundTrips_of_le ?_
  rw [length_encode, map_replicate, sum_replicate_nat, show utf8Size 0xFFFF = 3 from rfl]
  omega

/-- `715827883` characters of three bytes are the first that are too many. -/
theorem conversions_round_trip_fails : ¬RoundTrips (List.replicate 715827883 0xFFFF) :=
  not_roundTrips_replicate (by norm_num)

end Rolp.Utf8
