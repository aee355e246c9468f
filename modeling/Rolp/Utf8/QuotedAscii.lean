import Rolp.Utf8.RoundTrip

/-!
# Quoted ASCII

`UTF8::quoted_ascii_length`, `as_quoted_ascii` and `from_quoted_ascii`, with loops on fuel.
-/

namespace Rolp.Utf8

/-! ## The writer -/

/-- `c >= 32 && c < 127` -/
def Printable (c : JChar) : Prop := 32 ≤ c ∧ c < 127

instance (c : JChar) : Decidable (Printable c) := inferInstanceAs (Decidable (_ ∧ _))

def quotedAsciiLengthLoop (endLength : Nat) : Nat → List Byte → JInt → Option JInt
  | 0, _, _ => none
  | fuel + 1, ptr, result =>
    if ptr.length > endLength then
      (next ptr).bind fun (c, ptr) =>
        quotedAsciiLengthLoop endLength fuel ptr (if Printable c then result + 1 else result + 6)
    else some result

def quotedAsciiLength (utf8Str : List Byte) (utf8Length : Nat) : Option JInt :=
  quotedAsciiLengthLoop (utf8Str.length - utf8Length) (utf8Length + 1) utf8Str 0

def hexDigit (n : Nat) : Byte := if n < 10 then BitVec.ofNat 8 (0x30 + n) else BitVec.ofNat 8 (0x61 + (n - 10))

/-- `sprintf(p, "\\u%04x", c)` -/
def hexQuote (c : JChar) : List Byte :=
  [0x5C, 0x75, hexDigit (c.toNat / 4096), hexDigit (c.toNat / 256 % 16), hexDigit (c.toNat / 16 % 16),
    hexDigit (c.toNat % 16)]

def asQuotedAsciiLoop (endLength : Nat) (buflen : Int) : Nat → List Byte → List Byte → Option (List Byte)
  | 0, _, _ => none
  | fuel + 1, ptr, out =>
    if ptr.length > endLength then
      (next ptr).bind fun (c, ptr) =>
        if Printable c then
          if (out.length + 1 : Int) ≥ buflen then some (out ++ [0])
          else asQuotedAsciiLoop endLength buflen fuel ptr (out ++ [c.setWidth 8])
        else if (out.length + 6 : Int) ≥ buflen then some (out ++ [0])
        else asQuotedAsciiLoop endLength buflen fuel ptr (out ++ hexQuote c)
    else some (out ++ [0])

def asQuotedAscii (utf8Str : List Byte) (utf8Length : Nat) (buflen : JInt) : Option (List Byte) :=
  asQuotedAsciiLoop (utf8Str.length - utf8Length) buflen.toInt (utf8Length + 1) utf8Str []

/-! ## The reader -/

inductive Stop where
  | fuel
  | shouldNotReachHere
  | outOfBounds
  deriving DecidableEq

/-- The first loop of `from_quoted_ascii`, which does not advance its pointer. -/
def scanPlain : Nat → List Byte → Except Stop (List Byte)
  | 0, _ => .error .fuel
  | _ + 1, [] => .error .outOfBounds
  | fuel + 1, c :: rest =>
    if c = 0 then .ok (c :: rest)
    else if c.toInt < 32 ∨ c.toInt ≥ 127 then .ok (c :: rest)
    else scanPlain fuel (c :: rest)

/-- The digits after `\u`. -/
def hexValue : Nat → List Byte → JChar → Except Stop (JChar × List Byte)
  | 0, ptr, value => .ok (value, ptr)
  | _ + 1, [], _ => .error .outOfBounds
  | i + 1, c :: rest, value =>
    if 0x30 ≤ c ∧ c ≤ 0x39 then hexValue i rest ((value <<< 4) + c.setWidth 16 - 0x30)
    else if 0x61 ≤ c ∧ c ≤ 0x66 then hexValue i rest ((value <<< 4) + 10 + c.setWidth 16 - 0x61)
    else if 0x41 ≤ c ∧ c ≤ 0x46 then hexValue i rest ((value <<< 4) + 10 + c.setWidth 16 - 0x41)
    else .error .shouldNotReachHere

def store : Option (List Byte) → Nat → List Byte → Except Stop (Option (List Byte))
  | none, _, _ => .ok none
  | some buffer, _, [] => .ok (some buffer)
  | some buffer, i, b :: rest =>
    if i < buffer.length then store (some (buffer.set i b)) (i + 1) rest else .error .outOfBounds

def escapeOf (c : Byte) : Option Byte :=
  if c = 0x74 then some 0x09 else if c = 0x6E then some 0x0A else if c = 0x72 then some 0x0D
  else if c = 0x66 then some 0x0C else none

def unquoteRound : Nat → List Byte → Nat → Option (List Byte) → Except Stop (Nat × Option (List Byte))
  | 0, _, _, _ => .error .fuel
  | _ + 1, [], _, _ => .error .outOfBounds
  | fuel + 1, c :: rest, length, buffer =>
    if c = 0 then .ok (length, buffer)
    else if c ≠ 0x5C then do
      -- the pointer stays where it is
      let buffer ← store buffer length [c]
      unquoteRound fuel (c :: rest) (length + 1) buffer
    else
      match rest with
      | [] => .error .outOfBounds
      | letter :: rest =>
        if letter = 0x75 then do
          let (value, ptr) ← hexValue 4 rest 0
          let buffer ← store buffer length (utf8Write value)
          unquoteRound fuel ptr (length + (utf8Write value).length) buffer
        else
          match escapeOf letter with
          | some b => do
            let buffer ← store buffer length [b]
            unquoteRound fuel rest (length + 1) buffer
          | none => .error .shouldNotReachHere

def fromQuotedAscii (fuel : Nat) (str : List Byte) : Except Stop (Option (List Byte)) := do
  let ptr ← scanPlain fuel str
  if ptr.head? = some 0 then pure (some str)
  else
    let (length, _) ← unquoteRound fuel ptr (str.length - ptr.length) none
    -- the second round starts at the length that the first one ended with
    let (length, buffer) ← unquoteRound fuel str length (some (List.replicate (length + 1) 0))
    store buffer length [0]

/-! ## The round trip -/

def QuotedRoundTrips (text : List Byte) : Prop :=
  ∃ length quoted fuel, quotedAsciiLength (text ++ [0]) text.length = some length ∧
    asQuotedAscii (text ++ [0]) text.length (length + 1) = some quoted ∧
    fromQuotedAscii fuel quoted = .ok (some (text ++ [0]))

lemma scanPlain_printable {c} (h : 32 ≤ c.toInt ∧ c.toInt < 127) (fuel rest) :
    scanPlain fuel (c :: rest) = .error .fuel := by
  induction fuel with
  | zero => rfl
  | succ fuel ih =>
    have h0 : c ≠ 0 := by
      rintro rfl
      exact absurd h.1 (by decide)
    rw [scanPlain, if_neg h0, if_neg (by omega), ih]

variable {quoted : List Byte}

lemma asQuotedAsciiLoop_out {endLength buflen fuel ptr out}
    (h : asQuotedAsciiLoop endLength buflen fuel ptr out = some quoted) : ∃ rest, quoted = out ++ rest := by
  induction fuel generalizing ptr out with
  | zero => cases h
  | succ fuel ih =>
    rw [asQuotedAsciiLoop] at h
    split at h
    · obtain ⟨⟨c, ptr'⟩, -, h⟩ := Option.bind_eq_some_iff.1 h
      dsimp only at h
      split at h
      all_goals
        split at h
        · exact ⟨_, (Option.some.inj h).symm⟩
        · obtain ⟨rest, hrest⟩ := ih h
          exact ⟨_, hrest.trans (List.append_assoc ..)⟩
    · exact ⟨_, (Option.some.inj h).symm⟩

lemma printable_byte {c} (h : Printable c) : 32 ≤ (c.setWidth 8 : Byte).toInt ∧ (c.setWidth 8 : Byte).toInt < 127 := by
  have h1 : 32 ≤ c.toNat := h.1
  have h2 : c.toNat < 127 := h.2
  have hnat : (c.setWidth 8).toNat = c.toNat := by
    rw [BitVec.toNat_setWidth]
    omega
  rw [BitVec.toInt_eq_toNat_of_lt (by omega)]
  omega

lemma asQuotedAscii_head {str length buflen} (h : asQuotedAscii str length buflen = some quoted) :
    quoted = [0] ∨ ∃ c rest, quoted = c :: rest ∧ 32 ≤ c.toInt ∧ c.toInt < 127 := by
  rw [asQuotedAscii, asQuotedAsciiLoop] at h
  split at h
  · obtain ⟨⟨c, ptr⟩, -, h⟩ := Option.bind_eq_some_iff.1 h
    dsimp only at h
    split at h
    next hprint =>
      split at h
      · exact .inl (Option.some.inj h).symm
      · obtain ⟨rest, hrest⟩ := asQuotedAsciiLoop_out h
        exact .inr ⟨_, _, hrest, printable_byte hprint⟩
    · split at h
      · exact .inl (Option.some.inj h).symm
      · obtain ⟨rest, hrest⟩ := asQuotedAsciiLoop_out h
        exact .inr ⟨_, _, hrest, by decide, by decide⟩
  · exact .inl (Option.some.inj h).symm

lemma fromQuotedAscii_asQuotedAscii {str length fuel buflen r}
    (h : asQuotedAscii str length buflen = some quoted) (hr : fromQuotedAscii fuel quoted = .ok r) : r = some [0] := by
  rcases asQuotedAscii_head h with rfl | ⟨c, rest, rfl, hc⟩
  · cases fuel with
    | zero => cases hr
    | succ fuel => exact (Except.ok.inj hr).symm
  · rw [fromQuotedAscii, scanPlain_printable hc] at hr
    cases hr

/-- Quoting and reading back gives a text again exactly when it is empty: on any other the reader does not return. -/
theorem quoted_ascii_round_trip_iff (s : List JChar) : QuotedRoundTrips (encode s) ↔ s = [] := by
  constructor
  · rintro ⟨length, quoted, fuel, -, hquoted, hread⟩
    have htext := fromQuotedAscii_asQuotedAscii hquoted hread
    cases s with
    | nil => rfl
    | cons c s =>
      obtain ⟨head, tail, h, -⟩ := utf8Write_shape c
      rw [encode_cons, h] at htext
      simp at htext
  · rintro rfl
    exact ⟨0, [0], 1, rfl, rfl, rfl⟩

/-- One letter is quoted as itself, and the reader never gets past it. -/
theorem quoted_ascii_round_trip_fails : asQuotedAscii (encode [0x61] ++ [0]) 1 2 = some [0x61, 0] ∧
      (∀ fuel, fromQuotedAscii fuel [0x61, 0] = .error .fuel) ∧ ¬QuotedRoundTrips (encode [0x61]) := by
  refine ⟨by decide, fun fuel => ?_, ?_⟩
  · rw [fromQuotedAscii, scanPlain_printable ⟨by decide, by decide⟩]
    rfl
  · rintro ⟨length, quoted, fuel, -, hquoted, hread⟩
    have htext := fromQuotedAscii_asQuotedAscii hquoted hread
    exact absurd htext (by decide)

end Rolp.Utf8
