import Rolp.Lib.Run
import Mathlib.Data.List.Infix

/-!
# Compressed streams

`CompressedWriteStream` writes values of basic types to a buffer that grows, and `CompressedReadStream` reads them back.
Integers are in the UNSIGNED5 coding: up to four bytes of six bits each with a bias of `L`, and a last byte.

A new buffer holds whatever the memory held, given by `junk`. An access outside of the buffer, an assertion that does
not hold and an array whose size is not an `int` are undefined.
-/

namespace Rolp.Stream

open Rolp.Lib Nat

abbrev Byte := BitVec 8
abbrev JInt := BitVec 32

abbrev lgH : Nat := 6
abbrev H : Nat := 2 ^ lgH
abbrev L : Nat := 2 ^ 8 - H
abbrev maxI : Nat := 4

def encodeSign (value : JInt) : JInt := (value <<< 1) ^^^ value.sshiftRight 31

def decodeSign (value : JInt) : JInt := (value >>> 1) ^^^ -(value &&& 1#32)

/-- One line of the bit reversal: it exchanges neighbouring groups of `n` bits. -/
def swapGroups (mask : JInt) (n : Nat) (i : JInt) : JInt := ((i &&& mask) <<< n) ||| ((i >>> n) &&& mask)

def reverseInt (i : JInt) : JInt :=
  let i := swapGroups 0x55555555#32 1 i
  let i := swapGroups 0x33333333#32 2 i
  let i := swapGroups 0x0f0f0f0f#32 4 i
  (i <<< 24) ||| ((i &&& 0xff00#32) <<< 8) ||| ((i >>> 8) &&& 0xff00#32) ||| (i >>> 24)

def high (value : BitVec 64) : JInt := value.extractLsb' 32 32

def low (value : BitVec 64) : JInt := value.extractLsb' 0 32

def jlongFrom (h l : JInt) : BitVec 64 := h ++ l

/-! ## Writing -/

structure CompressedWriteStream where
  buffer : List Byte
  position : Nat
  size : Nat
  deriving DecidableEq

namespace CompressedWriteStream

variable (junk : Nat → Byte)

/-- `NEW_RESOURCE_ARRAY` -/
def newArray (size : Nat) : List Byte := (List.range size).map junk

def new (initialSize : Nat) : CompressedWriteStream := ⟨newArray junk initialSize, 0, initialSize⟩

variable (s : CompressedWriteStream)

def full : Bool := s.size ≤ s.position

def store (b : Byte) : Option CompressedWriteStream :=
  if s.position < s.buffer.length then some { s with buffer := s.buffer.set s.position b, position := s.position + 1 }
  else none

/-- `memcpy` copies the bytes before the position. A size that overflows is negative: the VM exits when it allocates an
array of it. -/
def grow : Option CompressedWriteStream :=
  if s.size * 2 < 2 ^ 31 then
    some { s with
      buffer := s.buffer.take s.position ++ (newArray junk (s.size * 2)).drop s.position
      size := s.size * 2 }
  else none

def write (b : Byte) : Option CompressedWriteStream :=
  if s.full then (s.grow junk).bind (·.store b) else s.store b

def writeIntMbLoop (junk : Nat → Byte) : Nat → Nat → JInt → CompressedWriteStream → Option CompressedWriteStream
  | 0, _, _, _ => none
  | fuel + 1, i, sum, s =>
    if sum.toNat < L ∨ i = maxI then
      if sum = (sum.setWidth 8).setWidth 32 then s.write junk (sum.setWidth 8) else none
    else
      let sum := sum - BitVec.ofNat 32 L
      let b := BitVec.ofNat 8 (L + sum.toNat % H)
      (s.write junk b).bind fun s => writeIntMbLoop junk fuel (i + 1) (sum >>> lgH) s

section

variable (s : CompressedWriteStream) (value : JInt)

def writeIntMb : Option CompressedWriteStream :=
  writeIntMbLoop junk (maxI + 1) 0 value s

def writeInt : Option CompressedWriteStream :=
  if value.toNat < L ∧ s.full = false then s.store (value.setWidth 8) else s.writeIntMb junk value

def writeSignedInt : Option CompressedWriteStream :=
  s.writeInt junk (encodeSign value)

end

end CompressedWriteStream

/-! ## Reading -/

structure CompressedReadStream where
  buffer : List Byte
  position : Nat
  deriving DecidableEq

namespace CompressedReadStream

variable (s : CompressedReadStream)

def read : Option (Byte × CompressedReadStream) :=
  s.buffer[s.position]?.map fun b => (b, { s with position := s.position + 1 })

def readIntMbLoop (s : CompressedReadStream) (pos : Nat) : Nat → Nat → Nat → JInt → Option (JInt × CompressedReadStream)
  | 0, _, _, _ => none
  | fuel + 1, i, lgHI, sum =>
    let i := i + 1
    s.buffer[pos + i]?.bind fun b =>
      let sum := sum + (b.setWidth 32 <<< lgHI)
      if b.toNat < L ∨ i = maxI then some (sum, { s with position := pos + i + 1 })
      else readIntMbLoop s pos fuel i (lgHI + lgH) sum

def readIntMb (b0 : JInt) : Option (JInt × CompressedReadStream) :=
  readIntMbLoop s (s.position - 1) maxI 0 lgH b0

def readInt : Option (JInt × CompressedReadStream) :=
  s.read.bind fun (b0, s) => if b0.toNat < L then some (b0.setWidth 32, s) else s.readIntMb (b0.setWidth 32)

def readSignedInt : Option (JInt × CompressedReadStream) :=
  s.readInt.map fun (v, s) => (decodeSign v, s)

end CompressedReadStream

/-! ## Typed values -/

/-- The types that are written and read. Floats and doubles are known by their bits. -/
inductive Kind where
  | byte
  | char
  | short
  | int
  | signedInt
  | float
  | double
  | long
  deriving DecidableEq

inductive Value where
  | byte (v : BitVec 8)
  | char (v : BitVec 16)
  | short (v : BitVec 16)
  | int (v : BitVec 32)
  | signedInt (v : BitVec 32)
  | float (bits : BitVec 32)
  | double (bits : BitVec 64)
  | long (v : BitVec 64)
  deriving DecidableEq

def Value.kind : Value → Kind
  | .byte _ => .byte
  | .char _ => .char
  | .short _ => .short
  | .int _ => .int
  | .signedInt _ => .signedInt
  | .float _ => .float
  | .double _ => .double
  | .long _ => .long

/-- The functions `write_byte` to `write_long`. -/
def CompressedWriteStream.writeValue (junk : Nat → Byte) (s : CompressedWriteStream) : Value →
    Option CompressedWriteStream
  | .byte v => s.write junk v
  | .char v => s.writeInt junk (v.setWidth 32)
  | .short v => s.writeSignedInt junk (v.signExtend 32)
  | .int v => s.writeInt junk v
  | .signedInt v => s.writeSignedInt junk v
  | .float v => s.writeInt junk (reverseInt v)
  | .double v => (s.writeInt junk (reverseInt (high v))).bind fun s => s.writeInt junk (reverseInt (low v))
  | .long v => (s.writeSignedInt junk (low v)).bind fun s => s.writeSignedInt junk (high v)

/-- The functions `read_byte` to `read_long`. -/
def CompressedReadStream.readValue (s : CompressedReadStream) : Kind → Option (Value × CompressedReadStream)
  | .byte => s.read.map fun (v, s) => (.byte v, s)
  | .char => s.readInt.map fun (v, s) => (.char (v.setWidth 16), s)
  | .short => s.readSignedInt.map fun (v, s) => (.short (v.setWidth 16), s)
  | .int => s.readInt.map fun (v, s) => (.int v, s)
  | .signedInt => s.readSignedInt.map fun (v, s) => (.signedInt v, s)
  | .float => s.readInt.map fun (v, s) => (.float (reverseInt v), s)
  | .double => s.readInt.bind fun (rh, s) =>
    s.readInt.map fun (rl, s) => (.double (jlongFrom (reverseInt rh) (reverseInt rl)), s)
  | .long => s.readSignedInt.bind fun (low, s) => s.readSignedInt.map fun (high, s) => (.long (jlongFrom high low), s)

def CompressedReadStream.readValues (s : CompressedReadStream) : List Kind → Option (List Value × CompressedReadStream)
  | [] => some ([], s)
  | k :: ks => (s.readValue k).bind fun (v, s) => (s.readValues ks).map fun (vs, s) => (v :: vs, s)

open List Option Nat

/-! ## Words -/

/-- The mask selects the lower one of two neighbouring groups of `n` bits. -/
def SelectsLower (mask : JInt) (n : Nat) : Prop :=
  ∀ k : Fin 32, (mask.getLsbD k = true ∧ k.val ^^^ n = k + n ∧ (k.val < n ∨ mask.getLsbD (k - n) = false)) ∨
    (mask.getLsbD k = false ∧ k.val ^^^ n = k - n ∧ n ≤ k.val ∧ mask.getLsbD (k - n) = true)

variable {n k : Nat}

lemma getLsbD_swapGroups {mask} (h : SelectsLower mask n) (hk : k < 32) (i) :
    (swapGroups mask n i).getLsbD k = i.getLsbD (k ^^^ n) := by
  simp only [swapGroups, BitVec.getLsbD_or, BitVec.getLsbD_and, BitVec.getLsbD_shiftLeft, BitVec.getLsbD_ushiftRight]
  obtain ⟨hm, hx, hlow⟩ | ⟨hm, hx, hn, hm'⟩ := h ⟨k, hk⟩
  · rw [hx, hm, add_comm n k]
    rcases hlow with hlow | hlow <;> simp [hlow]
  · rw [hx, hm, hm']
    simp [hk, not_lt.2 hn]

lemma getLsbD_swapBytes (i : JInt) (hk : k < 32) :
    ((i <<< 24) ||| ((i &&& 0xff00#32) <<< 8) ||| ((i >>> 8) &&& 0xff00#32) ||| (i >>> 24)).getLsbD k =
      i.getLsbD (k ^^^ 24) := by
  have hmask : ∀ k : Fin 32, (0xff00#32).getLsbD k = decide (8 ≤ k.val ∧ k.val < 16) := by decide
  have hxor : ∀ k : Fin 32, k.val ^^^ 24 = if k.val < 8 then 24 + k.val else if k.val < 16 then 8 + k.val else
      if k.val < 24 then k.val - 8 else k.val - 24 := by decide
  have hm : (0xff00#32).getLsbD k = decide (8 ≤ k ∧ k < 16) := hmask ⟨k, hk⟩
  have hm' : (0xff00#32).getLsbD (k - 8) = decide (8 ≤ k - 8 ∧ k - 8 < 16) := hmask ⟨k - 8, by omega⟩
  simp only [BitVec.getLsbD_or, BitVec.getLsbD_and, BitVec.getLsbD_shiftLeft, BitVec.getLsbD_ushiftRight]
  rw [show k ^^^ 24 = _ from hxor ⟨k, hk⟩, hm, hm']
  by_cases h8 : k < 8
  · simp [h8, show k < 24 by omega, show ¬8 ≤ k by omega]
  by_cases h16 : k < 16
  · have hge : 32 ≤ 24 + k := by omega
    simp [h8, h16, show k < 24 by omega, show 8 ≤ k by omega, show ¬8 ≤ k - 8 by omega, hge]
  · by_cases h24 : k < 24
    · have hge : 32 ≤ 24 + k := by omega
      simp [h8, h16, h24, hk, show 8 ≤ k - 8 by omega, show k - 8 < 16 by omega, hge]
    · have hge : 32 ≤ 24 + k := by omega
      simp [h8, h16, h24, hk, show ¬k - 8 < 16 by omega, hge]

lemma getLsbD_reverseInt (i : JInt) (hk : k < 32) : (reverseInt i).getLsbD k = i.getLsbD (31 - k) := by
  -- the lines exchange bits whose positions differ in one bit, the last one bytes
  have hx : ∀ k : Fin 32, (((k.val ^^^ 24) ^^^ 4) ^^^ 2) ^^^ 1 = 31 - k := by decide
  have h24 : k ^^^ 24 < 32 := xor_lt_two_pow (n := 5) hk (by decide)
  have h4 : k ^^^ 24 ^^^ 4 < 32 := xor_lt_two_pow (n := 5) h24 (by decide)
  have h2 : k ^^^ 24 ^^^ 4 ^^^ 2 < 32 := xor_lt_two_pow (n := 5) h4 (by decide)
  rw [← hx ⟨k, hk⟩, reverseInt, getLsbD_swapBytes _ hk, getLsbD_swapGroups _ h24, getLsbD_swapGroups _ h4,
    getLsbD_swapGroups _ h2]
  all_goals unfold SelectsLower; decide

lemma reverseInt_reverseInt (i) : reverseInt (reverseInt i) = i := by
  refine BitVec.eq_of_getLsbD_eq fun k hk => ?_
  rw [getLsbD_reverseInt _ hk, getLsbD_reverseInt _ (by omega), Nat.sub_sub_self (le_of_lt_succ hk)]

lemma getLsbD_sshiftRight_last (v : JInt) (hk : k < 32) : (v.sshiftRight 31).getLsbD k = v.getLsbD 31 := by
  rw [BitVec.getLsbD_sshiftRight, BitVec.msb_eq_getLsbD_last]
  cases k with
  | zero => simp
  | succ k => simp [not_le.2 hk, show ¬31 + (k + 1) < 32 by omega]

lemma neg_and_one (v : JInt) : -(v &&& 1#32) = if v.getLsbD 0 then BitVec.allOnes 32 else 0#32 := by
  rw [BitVec.and_one_eq_setWidth_ofBool_getLsbD]
  cases v.getLsbD 0 <;> decide

lemma decodeSign_encodeSign (v : JInt) : decodeSign (encodeSign v) = v := by
  have hzero : (encodeSign v).getLsbD 0 = v.getLsbD 31 := by
    rw [encodeSign, BitVec.getLsbD_xor, getLsbD_sshiftRight_last v (by decide)]
    simp
  refine BitVec.eq_of_getLsbD_eq fun k hk => ?_
  have hsign : (-(encodeSign v &&& 1#32)).getLsbD k = v.getLsbD 31 := by
    rw [neg_and_one, hzero]
    split
    next h =>
      rw [BitVec.getLsbD_allOnes, h]
      exact decide_eq_true hk
    next h =>
      rw [Bool.not_eq_true] at h
      rw [h, BitVec.getLsbD_zero]
  have hnext : (encodeSign v).getLsbD (1 + k) = (decide (k < 31) && (v.getLsbD k ^^ v.getLsbD 31)) := by
    rw [encodeSign, BitVec.getLsbD_xor, BitVec.getLsbD_shiftLeft]
    by_cases hlt : k < 31
    · rw [getLsbD_sshiftRight_last v (by omega)]
      simp [hlt, show 1 + k < 32 by omega]
    · rw [BitVec.getLsbD_of_ge (v.sshiftRight 31) _ (by omega)]
      simp [hlt, show ¬1 + k < 32 by omega]
  rw [decodeSign, BitVec.getLsbD_xor, BitVec.getLsbD_ushiftRight, hnext, hsign]
  by_cases hlt : k < 31
  · simp [hlt]
  · have hk31 : k = 31 := by omega
    simp [hk31]

lemma jlongFrom_high_low (i) : jlongFrom (high i) (low i) = i := by
  refine BitVec.eq_of_getLsbD_eq fun k hk => ?_
  simp only [jlongFrom, high, low, BitVec.getLsbD_append, BitVec.getLsbD_extractLsb']
  by_cases hlt : k < 32
  · simp [hlt]
  · rw [if_neg hlt, decide_eq_true (by omega), Bool.true_and, Nat.add_sub_cancel' (not_lt.1 hlt)]

lemma setWidth_signExtend (v : BitVec 16) : (v.signExtend 32).setWidth 16 = v := by
  refine BitVec.eq_of_getLsbD_eq fun k hk => ?_
  rw [BitVec.getLsbD_setWidth, BitVec.getLsbD_signExtend, if_pos hk, decide_eq_true hk, decide_eq_true (by omega)]
  rfl

/-! ## The coding -/

/-- The bytes for a value, at most `k` of them before the last one. -/
def code : Nat → Nat → List Byte
  | 0, n => [BitVec.ofNat 8 n]
  | k + 1, n => if n < L then [BitVec.ofNat 8 n] else BitVec.ofNat 8 (L + (n - L) % H) :: code k ((n - L) / H)

def encodeInt (value : JInt) : List Byte := code maxI value.toNat

lemma length_code (k n) : 1 ≤ (code k n).length ∧ (code k n).length ≤ k + 1 := by
  induction k generalizing n with
  | zero => exact ⟨le_rfl, le_rfl⟩
  | succ k ih =>
    rw [code]
    split
    · exact ⟨le_rfl, succ_le_succ (zero_le _)⟩
    · exact ⟨succ_le_succ (zero_le _), succ_le_succ (ih _).2⟩

lemma next_lt (h : n < 2 ^ (8 + lgH * (k + 1))) : (n - L) / H < 2 ^ (8 + lgH * k) := by
  have hpow : 2 ^ (8 + lgH * (k + 1)) = 2 ^ (8 + lgH * k) * H := by rw [mul_succ, ← add_assoc, pow_add]
  rw [hpow] at h
  exact Nat.div_lt_of_lt_mul (lt_of_le_of_lt (sub_le _ _) (by rwa [mul_comm]))

lemma digits_eq (h : ¬n < L) : L + (n - L) % H + (n - L) / H * H = n := by
  have hdiv := div_add_mod (n - L) H
  rw [mul_comm] at hdiv
  omega

variable {sum : JInt}

lemma byte_of_lt (h : sum.toNat < 256) :
    sum = (sum.setWidth 8).setWidth 32 ∧ sum.setWidth 8 = BitVec.ofNat 8 sum.toNat := by
  constructor <;> refine BitVec.eq_of_toNat_eq ?_
  · rw [BitVec.toNat_setWidth, BitVec.toNat_setWidth, mod_eq_of_lt h, mod_eq_of_lt sum.isLt]
  · rw [BitVec.toNat_setWidth, BitVec.toNat_ofNat]

/-! ## Writing -/

namespace CompressedWriteStream

variable {junk : Nat → Byte} {s s' : CompressedWriteStream} {bs bs' : List Byte} {out : Option CompressedWriteStream}

structure Valid (s : CompressedWriteStream) : Prop where
  length : s.buffer.length = s.size
  position : s.position ≤ s.size
  size : 1 ≤ s.size
  size_lt : s.size < 2 ^ 31

def contents (s : CompressedWriteStream) : List Byte := s.buffer.take s.position

/-- The buffer can be doubled, and its size stays an `int`, until `n` more bytes fit. -/
def Room (s : CompressedWriteStream) (n : Nat) : Prop := ∃ k, s.size * 2 ^ k < 2 ^ 31 ∧ s.position + n ≤ s.size * 2 ^ k

structure Appends (s s' : CompressedWriteStream) (bs : List Byte) : Prop where
  valid : s'.Valid
  contents : s'.contents = s.contents ++ bs
  size : ∃ k, s'.size = s.size * 2 ^ k

/-- The bytes are written, unless there is no room for them. -/
structure Writes (s : CompressedWriteStream) (bs : List Byte) (out : Option CompressedWriteStream) : Prop where
  appends : ∀ s', out = some s' → Appends s s' bs
  isSome_iff : out.isSome ↔ s.Room bs.length

lemma Appends.trans {s''} (h : Appends s s' bs) (h' : Appends s' s'' bs') : Appends s s'' (bs ++ bs') := by
  obtain ⟨i, hi⟩ := h.size
  obtain ⟨k, hk⟩ := h'.size
  exact ⟨h'.valid, by rw [h'.contents, h.contents, append_assoc], i + k, by rw [hk, hi, pow_add, mul_assoc]⟩

lemma length_newArray (size) : (newArray junk size).length = size := by simp [newArray]

lemma valid_new {initialSize} (h : 1 ≤ initialSize) (hlt : initialSize < 2 ^ 31) : (new junk initialSize).Valid :=
  ⟨length_newArray _, zero_le _, h, hlt⟩

section

variable (h : s.Valid)

include h

lemma Valid.length_contents : s.contents.length = s.position := by
  rw [contents, length_take, h.length, min_eq_left h.position]

lemma Appends.refl : Appends s s [] := ⟨h, (append_nil _).symm, 0, (mul_one _).symm⟩

lemma Appends.position (ha : Appends s s' bs) : s'.position = s.position + bs.length := by
  have hlen := congrArg List.length ha.contents
  rwa [length_append, ha.valid.length_contents, h.length_contents] at hlen

/-- Doubling commutes with writing: what is left of the room is the room that is left. -/
lemma Appends.room_iff (ha : Appends s s' bs) (n) : s'.Room n ↔ s.Room (bs.length + n) := by
  obtain ⟨i, hi⟩ := ha.size
  have hpos := ha.position h
  constructor
  · rintro ⟨k, hlt, hle⟩
    rw [hi, mul_assoc, ← pow_add] at hlt hle
    exact ⟨i + k, hlt, by omega⟩
  · rintro ⟨k, hlt, hle⟩
    by_cases hik : i ≤ k
    · refine ⟨k - i, ?_⟩
      rw [hi, mul_assoc, ← pow_add, Nat.add_sub_cancel' hik]
      exact ⟨hlt, by omega⟩
    · have hmono : s.size * 2 ^ k ≤ s.size * 2 ^ i :=
        Nat.mul_le_mul_left _ (Nat.pow_le_pow_right (by decide) (by omega))
      exact ⟨0, by simpa using ha.valid.size_lt, by omega⟩

lemma Appends.writes (ha : Appends s s' bs) : Writes s bs (some s') := by
  have hroom : s'.Room 0 := ⟨0, by simpa using ⟨ha.valid.size_lt, ha.valid.position⟩⟩
  exact ⟨fun t ht => some.inj ht ▸ ha, by simpa using (ha.room_iff h 0).1 hroom⟩

lemma Writes.bind (hw : Writes s bs out) {f : CompressedWriteStream → Option CompressedWriteStream}
    (hf : ∀ s', Appends s s' bs → Writes s' bs' (f s')) : Writes s (bs ++ bs') (out.bind f) := by
  cases out with
  | none =>
    refine ⟨nofun, nofun, ?_⟩
    rintro ⟨k, hlt, hle⟩
    rw [length_append] at hle
    exact absurd (hw.isSome_iff.2 ⟨k, hlt, by omega⟩) (by simp)
  | some s1 =>
    have ha := hw.appends s1 rfl
    obtain ⟨happ, hiff⟩ := hf s1 ha
    exact ⟨fun s' hs' => ha.trans (happ s' hs'), by rw [length_append, ← ha.room_iff h]; exact hiff⟩

lemma store_spec (hlt : s.position < s.size) (b) : ∃ s', s.store b = some s' ∧ Appends s s' [b] := by
  have hlt' : s.position < s.buffer.length := by rwa [h.length]
  refine ⟨_, if_pos hlt', ⟨?_, hlt, h.size, h.size_lt⟩, ?_, 0, (mul_one _).symm⟩
  · rw [length_set]
    exact h.length
  · rw [CompressedWriteStream.contents, CompressedWriteStream.contents, take_succ_eq_append_getElem
      (by rwa [length_set]), take_set_of_le (le_rfl), getElem_set_self]

lemma grow_spec (junk) (hlt : s.size * 2 < 2 ^ 31) :
    ∃ s', s.grow junk = some s' ∧ Appends s s' [] ∧ s'.position < s'.size := by
  have hsize := h.size
  have hpos := h.position
  have hlen := h.length
  have htake : (s.buffer.take s.position).length = s.position := by
    rw [length_take]
    omega
  refine ⟨_, if_pos hlt, ⟨⟨?_, ?_, ?_, hlt⟩, ?_, 1, rfl⟩, ?_⟩
  · dsimp only
    rw [length_append, htake, length_drop, length_newArray]
    omega
  · exact le_trans hpos (Nat.le_mul_of_pos_right _ (by decide))
  · exact le_trans hsize (Nat.le_mul_of_pos_right _ (by decide))
  · rw [append_nil]
    exact take_left' htake
  · show s.position < s.size * 2
    omega

lemma write_spec (junk) (b) : Writes s [b] (s.write junk b) := by
  rw [write]
  cases hfull : s.full with
  | true =>
    by_cases hlt : s.size * 2 < 2 ^ 31
    · obtain ⟨s1, hs1, h1, hpos⟩ := grow_spec h junk hlt
      obtain ⟨s', hs', h'⟩ := store_spec h1.valid hpos b
      rw [if_pos rfl, hs1, bind_some, hs']
      exact (h1.trans h').writes h
    · rw [if_pos rfl, grow, if_neg hlt]
      refine ⟨nofun, nofun, ?_⟩
      rintro ⟨k, hk, hle⟩
      have hpos : s.size ≤ s.position := by simpa [full] using hfull
      cases k with
      | zero => simp at hle; omega
      | succ k =>
        have hone : 1 ≤ 2 ^ k := Nat.one_le_two_pow
        rw [Nat.pow_succ', ← mul_assoc] at hk
        exact absurd (lt_of_le_of_lt (Nat.le_mul_of_pos_right _ hone) hk) hlt
  | false =>
    obtain ⟨s', hs', h'⟩ := store_spec h (by simpa [full] using hfull) b
    exact hs' ▸ h'.writes h

end

lemma sub_L_toNat (h : ¬sum.toNat < L) : (sum - BitVec.ofNat 32 L).toNat = sum.toNat - L :=
  BitVec.toNat_sub_of_le (BitVec.le_def.2 (not_lt.1 h))

lemma writeIntMbLoop_spec {i} (hk : i + k = maxI) (hsum : sum.toNat < 2 ^ (8 + lgH * k))
    (h : s.Valid) : Writes s (code k sum.toNat) (writeIntMbLoop junk (k + 1) i sum s) := by
  induction k generalizing i sum s with
  | zero =>
    obtain ⟨hbyte, hofNat⟩ := byte_of_lt hsum
    rw [writeIntMbLoop, if_pos (.inr hk), if_pos hbyte, code]
    exact write_spec h junk _
  | succ k ih =>
    rw [writeIntMbLoop, code]
    by_cases hlow : sum.toNat < L
    · obtain ⟨hbyte, hofNat⟩ := byte_of_lt (lt_trans hlow (by decide))
      rw [if_pos hlow, if_pos (.inl hlow), if_pos hbyte]
      exact write_spec h junk _
    have hsub := sub_L_toNat hlow
    have hnext : ((sum - BitVec.ofNat 32 L) >>> lgH).toNat = (sum.toNat - L) / H := by
      rw [BitVec.toNat_ushiftRight, hsub, shiftRight_eq_div_pow]
    rw [if_neg hlow, if_neg (by omega), ← hnext]
    dsimp only
    rw [hsub]
    have hk' : i + 1 + k = maxI := by omega
    exact (write_spec h junk _).bind h fun s1 h1 => ih hk' (by rw [hnext]; exact next_lt hsum) h1.valid

lemma writeInt_spec (junk) (h : s.Valid) (value) : Writes s (encodeInt value) (s.writeInt junk value) := by
  rw [writeInt]
  split
  next hlow =>
    rw [encodeInt, code, if_pos hlow.1]
    obtain ⟨s', hs', h'⟩ := store_spec h (by simpa [full] using hlow.2) _
    exact hs' ▸ h'.writes h
  · exact writeIntMbLoop_spec rfl value.isLt h

end CompressedWriteStream

/-! ## Reading -/

namespace CompressedReadStream

variable {s : CompressedReadStream} {rest : List Byte}

def skip (s : CompressedReadStream) (n : Nat) : CompressedReadStream := { s with position := s.position + n }

def Next (s : CompressedReadStream) (bs : List Byte) : Prop := bs <+: s.buffer.drop s.position

lemma Next.left {bs bs'} (h : s.Next (bs ++ bs')) : s.Next bs := (prefix_append _ _).trans h

lemma Next.right {bs bs'} (h : s.Next (bs ++ bs')) : (s.skip bs.length).Next bs' := by
  obtain ⟨rest, hrest⟩ := h
  refine ⟨rest, ?_⟩
  rw [skip, ← drop_drop, ← hrest, append_assoc, drop_left]

variable {b : Byte}

lemma Next.getElem? {bs} (h : s.Next (b :: bs)) : s.buffer[s.position]? = some b := by
  obtain ⟨rest, hrest⟩ := h
  rw [← head?_drop, ← hrest]
  rfl

lemma Next.tail {bs} (h : s.Next (b :: bs)) : Next ⟨s.buffer, s.position + 1⟩ bs :=
  Next.right (show s.Next ([b] ++ bs) from h)

lemma read_spec (h : s.Next [b]) : s.read = some (b, s.skip 1) := by
  rw [read, h.getElem?]
  rfl

lemma shiftLeft_byte {m} (hm : m < 256) (n) : (BitVec.ofNat 8 m).setWidth 32 <<< n = BitVec.ofNat 32 (m * 2 ^ n) := by
  refine BitVec.eq_of_toNat_eq ?_
  rw [BitVec.toNat_shiftLeft, BitVec.toNat_setWidth, BitVec.toNat_ofNat, BitVec.toNat_ofNat, shiftLeft_eq,
    mod_eq_of_lt hm, mod_eq_of_lt (lt_trans hm (by decide))]

lemma weighted_digits {m} (h : ¬n < L) :
    (L + (n - L) % H) * 2 ^ (lgH * m) + (n - L) / H * 2 ^ (lgH * (m + 1)) = n * 2 ^ (lgH * m) := by
  rw [mul_succ, pow_add, mul_comm (2 ^ (lgH * m)), ← mul_assoc, ← add_mul, digits_eq h]

lemma readIntMbLoop_spec {i pos} (hk : i + 1 + k = maxI) (hn : n < 2 ^ (8 + lgH * k)) (sum)
    (h : Next ⟨s.buffer, pos + (i + 1)⟩ (code k n)) : s.readIntMbLoop pos (k + 1) i (lgH * (i + 1)) sum =
      some (sum + BitVec.ofNat 32 (n * 2 ^ (lgH * (i + 1))), ⟨s.buffer, pos + (i + 1) + (code k n).length⟩) := by
  induction k generalizing i n sum with
  | zero =>
    have hget := h.getElem?
    rw [readIntMbLoop]
    rw [hget, bind_some, if_pos (.inr hk), shiftLeft_byte hn]
    rfl
  | succ k ih =>
    rw [code] at h ⊢
    rw [readIntMbLoop]
    by_cases hlow : n < L
    · rw [if_pos hlow] at h ⊢
      have hlt : n < 256 := lt_trans hlow (by decide)
      have hget := h.getElem?
      have hbyte : (BitVec.ofNat 8 n).toNat < L := by rwa [BitVec.toNat_ofNat, mod_eq_of_lt hlt]
      rw [hget, bind_some, if_pos (.inl hbyte), shiftLeft_byte hlt]
      rfl
    · rw [if_neg hlow] at h ⊢
      have hmod : L + (n - L) % H < 256 := Nat.add_lt_add_left (mod_lt _ (by decide)) L
      have hget := h.getElem?
      have hbyte : ¬(BitVec.ofNat 8 (L + (n - L) % H)).toNat < L := by
        rw [BitVec.toNat_ofNat, mod_eq_of_lt hmod]
        exact not_lt.2 (le_add_right _ _)
      have hnext : Next ⟨s.buffer, pos + (i + 1 + 1)⟩ (code k ((n - L) / H)) := h.tail
      have hk' : i + 1 + 1 + k = maxI := by omega
      rw [hget, bind_some, if_neg (by omega), shiftLeft_byte hmod, ← mul_succ, ih hk' (next_lt hn) _ hnext,
        BitVec.add_assoc, ← BitVec.ofNat_add, weighted_digits hlow, length_cons]
      simp only [add_assoc, add_comm 1]

lemma readInt_of_low (h : s.buffer[s.position]? = some b) (hb : b.toNat < L) :
    s.readInt = some (b.setWidth 32, s.skip 1) := by
  rw [readInt, read, h, map_some]
  exact if_pos hb

lemma readInt_of_high (h : s.buffer[s.position]? = some b) (hb : ¬b.toNat < L) :
    s.readInt = (s.skip 1).readIntMbLoop s.position maxI 0 lgH (b.setWidth 32) := by
  rw [readInt, read, h, map_some]
  exact if_neg hb

lemma readInt_spec {value} (h : s.Next (encodeInt value)) :
    s.readInt = some (value, s.skip (encodeInt value).length) := by
  rw [encodeInt, code] at h ⊢
  by_cases hlow : value.toNat < L
  · rw [if_pos hlow] at h ⊢
    have hlt : value.toNat < 256 := lt_trans hlow (by decide)
    obtain ⟨hbyte, hofNat⟩ := byte_of_lt hlt
    rw [readInt_of_low h.getElem? (by rwa [BitVec.toNat_ofNat, mod_eq_of_lt hlt]), ← hofNat, ← hbyte]
    rfl
  rw [if_neg hlow] at h ⊢
  have hmod : L + (value.toNat - L) % H < 256 := Nat.add_lt_add_left (mod_lt _ (by decide)) L
  have hhigh : ¬(BitVec.ofNat 8 (L + (value.toNat - L) % H)).toNat < L := by
    rw [BitVec.toNat_ofNat, mod_eq_of_lt hmod]
    exact not_lt.2 (le_add_right _ _)
  have hnext : Next ⟨(s.skip 1).buffer, s.position + (0 + 1)⟩ (code 3 ((value.toNat - L) / H)) := h.tail
  have hlt : value.toNat < 2 ^ (8 + lgH * (3 + 1)) := value.isLt
  have hloop := readIntMbLoop_spec rfl (next_lt hlt)
    ((BitVec.ofNat 8 (L + (value.toNat - L) % H)).setWidth 32) hnext
  have hb0 := shiftLeft_byte hmod (lgH * 0)
  rw [mul_zero, BitVec.shiftLeft_zero] at hb0
  rw [readInt_of_high h.getElem? hhigh]
  refine hloop.trans ?_
  rw [hb0, ← BitVec.ofNat_add]
  have hsum := weighted_digits (m := 0) hlow
  rw [mul_zero] at hsum
  rw [hsum, pow_zero, mul_one, BitVec.ofNat_toNat, add_assoc, add_comm (0 + 1)]
  rfl

end CompressedReadStream

lemma eq_of_encodeInt_prefix {v w} (h : encodeInt v <+: encodeInt w) : v = w := by
  have hv := CompressedReadStream.readInt_spec (s := ⟨encodeInt w, 0⟩) h
  have hw := CompressedReadStream.readInt_spec (s := ⟨encodeInt w, 0⟩) prefix_rfl
  exact congrArg Prod.fst (some.inj (hv.symm.trans hw))

end Rolp.Stream
