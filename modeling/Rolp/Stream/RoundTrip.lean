import Rolp.Stream.Compressed

/-!
# Streams and line number tables round-trip

Typed values that are written to a stream are read back from its buffer, and so are the pairs of a line number table,
just when the buffer can grow to hold them.
-/

namespace Rolp.Stream

open Rolp.Lib List Option CompressedWriteStream Value CompressedReadStream BitVec

def encodeSignedInt (value : JInt) : List Byte := encodeInt (encodeSign value)

def Value.encode : Value → List Byte
  | .byte v => [v]
  | .char v => encodeInt (v.setWidth 32)
  | .short v => encodeSignedInt (v.signExtend 32)
  | .int v => encodeInt v
  | .signedInt v => encodeSignedInt v
  | .float v => encodeInt (reverseInt v)
  | .double v => encodeInt (reverseInt (high v)) ++ encodeInt (reverseInt (low v))
  | .long v => encodeSignedInt (low v) ++ encodeSignedInt (high v)

namespace CompressedWriteStream

variable {s : CompressedWriteStream}

lemma writeValue_spec (junk) (h : s.Valid) (v) : Writes s v.encode (s.writeValue junk v) := by
  cases v with
  | byte v => exact write_spec h junk v
  | char v => exact writeInt_spec junk h _
  | short v => exact writeInt_spec junk h _
  | int v => exact writeInt_spec junk h _
  | signedInt v => exact writeInt_spec junk h _
  | float v => exact writeInt_spec junk h _
  | double v => exact (writeInt_spec junk h _).bind h fun s1 h1 => writeInt_spec junk h1.valid _
  | long v => exact (writeInt_spec junk h _).bind h fun s1 h1 => writeInt_spec junk h1.valid _

lemma writeValues_spec (junk) (h : s.Valid) (vs) : Writes s (vs.flatMap encode) (run (writeValue junk) s vs) := by
  induction vs generalizing s with
  | nil => exact (Appends.refl h).writes h
  | cons v vs ih => exact (writeValue_spec junk h v).bind h fun s1 h1 => ih h1.valid

end CompressedWriteStream

namespace CompressedReadStream

variable {s : CompressedReadStream}

lemma skip_skip (s : CompressedReadStream) (m n : Nat) : (s.skip m).skip n = s.skip (m + n) := by
  simp [skip, Nat.add_assoc]

lemma readSignedInt_spec {value} (h : s.Next (encodeSignedInt value)) :
    s.readSignedInt = some (value, s.skip (encodeSignedInt value).length) := by
  have hread := readInt_spec h
  simp only [readSignedInt, hread, map_some, decodeSign_encodeSign]
  rfl

lemma readValue_spec {v} (h : s.Next v.encode) : s.readValue v.kind = some (v, s.skip v.encode.length) := by
  cases v with
  | byte v =>
    rw [kind, readValue, read_spec h]
    rfl
  | char v =>
    have hread := readInt_spec h
    simp only [kind, readValue, hread, map_some]
    rw [setWidth_setWidth_of_le _ (by decide), setWidth_eq]
    rfl
  | short v =>
    have hread := readSignedInt_spec h
    simp only [kind, readValue, hread, map_some, setWidth_signExtend]
    rfl
  | int v =>
    rw [kind, readValue, readInt_spec h]
    rfl
  | signedInt v =>
    rw [kind, readValue, readSignedInt_spec h]
    rfl
  | float v =>
    have hread := readInt_spec h
    simp only [kind, readValue, hread, map_some, reverseInt_reverseInt]
    rfl
  | double v =>
    have hhigh := readInt_spec h.left
    have hlow := readInt_spec h.right
    simp only [kind, readValue, hhigh, hlow, bind_some, map_some, reverseInt_reverseInt,
      jlongFrom_high_low, skip_skip, ← length_append]
    rfl
  | long v =>
    have hlow := readSignedInt_spec h.left
    have hhigh := readSignedInt_spec h.right
    simp only [kind, readValue, hlow, hhigh, bind_some, map_some, jlongFrom_high_low, skip_skip, ← length_append]
    rfl

lemma readValues_spec {vs} (h : s.Next (vs.flatMap encode)) :
    s.readValues (vs.map kind) = some (vs, s.skip (vs.flatMap encode).length) := by
  induction vs generalizing s with
  | nil => rfl
  | cons v vs ih =>
    rw [flatMap_cons] at h ⊢
    have hv := readValue_spec h.left
    have hvs := ih h.right
    simp only [map_cons, readValues, hv, hvs, bind_some, map_some, skip_skip, length_append]

end CompressedReadStream

/-- The values are written and read back up to the writer's position just when the buffer can be doubled until their
bytes fit. Every integer takes one to five bytes that do not depend on the stream, and those of different integers are
never a prefix of one another. -/
theorem compressed_streams_round_trip_iff (junk : Nat → Byte) (initialSize : Nat) (hsize : 1 ≤ initialSize)
    (hint : initialSize < 2 ^ 31) (vs : List Value) :
    ((∃ s, run (writeValue junk) (.new junk initialSize) vs = some s ∧
        readValues ⟨s.buffer, 0⟩ (vs.map kind) = some (vs, ⟨s.buffer, s.position⟩)) ↔
      ∃ k, initialSize * 2 ^ k < 2 ^ 31 ∧ (vs.flatMap encode).length ≤ initialSize * 2 ^ k) ∧
    (∀ s, run (writeValue junk) (.new junk initialSize) vs = some s → ∀ v s', s.writeInt junk v = some s' →
      s'.buffer.take s'.position = s.buffer.take s.position ++ encodeInt v ∧
        s.position + 1 ≤ s'.position ∧ s'.position ≤ s.position + 5) ∧ ∀ v w, encodeInt v <+: encodeInt w → v = w := by
  have hnew : (new junk initialSize).Valid := valid_new hsize hint
  obtain ⟨happ, hiff⟩ := writeValues_spec junk hnew vs
  have hroom : (new junk initialSize).Room (vs.flatMap encode).length ↔
      ∃ k, initialSize * 2 ^ k < 2 ^ 31 ∧ (vs.flatMap encode).length ≤ initialSize * 2 ^ k := by simp [Room, new]
  rw [← hroom, ← hiff]
  refine ⟨⟨fun ⟨s, hs, _⟩ => isSome_of_eq_some hs, fun hsome => ?_⟩, fun s hs v s' hs' => ?_,
    fun v w => eq_of_encodeInt_prefix⟩
  · obtain ⟨s, hs⟩ := isSome_iff_exists.1 hsome
    have hbytes : s.contents = vs.flatMap encode := (happ s hs).contents
    have hnext : CompressedReadStream.Next ⟨s.buffer, 0⟩ (vs.flatMap encode) := by
      rw [← hbytes]
      exact take_prefix _ _
    refine ⟨s, hs, ?_⟩
    rw [readValues_spec hnext, ← hbytes, (happ s hs).valid.length_contents, skip, Nat.zero_add]
  · have hvalid := (happ s hs).valid
    have ha := (writeInt_spec junk hvalid v).appends s' hs'
    have hpos := ha.position hvalid
    have hone : 1 ≤ (encodeInt v).length := (length_code maxI v.toNat).1
    have hfive : (encodeInt v).length ≤ 5 := (length_code maxI v.toNat).2
    exact ⟨ha.contents, by omega, by omega⟩

theorem compressed_streams_round_trip_iff_grows :
    let vs : List Value := [.byte 0xff#8, .int 0xffffffff#32, .short 0xfffe#16, .double 0x3ff0000000000000#64]
    ∃ s, run (writeValue fun _ => 0#8) (.new (fun _ => 0#8) 1) vs = some s ∧
      readValues ⟨s.buffer, 0⟩ (vs.map kind) = some (vs, ⟨s.buffer, s.position⟩) := by
  intro vs
  exact (compressed_streams_round_trip_iff (fun _ => 0#8) 1 (by decide) (by decide) vs).1.2 ⟨5, by decide, by decide⟩

lemma not_room_new {junk a n} (h : 2 ^ 30 < n) : ¬(new junk (2 ^ a)).Room n := by
  rintro ⟨k, hlt, hle⟩
  simp only [new, ← Nat.pow_add, Nat.zero_add] at hlt hle
  have hk : a + k < 31 := (Nat.pow_lt_pow_iff_right (by decide)).1 hlt
  have hpow : 2 ^ (a + k) ≤ 2 ^ 30 := Nat.pow_le_pow_right (by decide) (Nat.le_of_lt_succ hk)
  omega

/-- The buffer of 2^30 bytes is full, and twice its size is not an `int`. -/
theorem stream_of_maximal_buffer_overflows :
    run (writeValue fun _ => 0#8) (.new (fun _ => 0#8) (2 ^ 30)) (List.replicate (2 ^ 30 + 1) (.byte 0#8)) = none := by
  have hnew : (new (fun _ => 0#8) (2 ^ 30)).Valid := valid_new (by decide) (by decide)
  have hlen n : ((List.replicate n (Value.byte 0#8)).flatMap encode).length = n := by
    induction n with
    | zero => rfl
    | succ n ih => exact congrArg (· + 1) ih
  have hlt : 2 ^ 30 < 2 ^ 30 + 1 := Nat.lt_succ_self _
  generalize 2 ^ 30 + 1 = n at hlt ⊢
  rw [← Option.not_isSome_iff_eq_none, (writeValues_spec _ hnew _).isSome_iff, hlen]
  exact not_room_new hlt

/-!
## Line number tables

`CompressedLineNumberWriteStream` and `CompressedLineNumberReadStream` of `method.hpp`. Differences of `int` wrap.
-/

structure CompressedLineNumberWriteStream where
  stream : CompressedWriteStream
  bci : JInt
  line : JInt

structure CompressedLineNumberReadStream where
  stream : CompressedReadStream
  bci : JInt
  line : JInt

def singleByte (bciDelta lineDelta : JInt) : Byte := bciDelta.setWidth 8 <<< 3 ||| lineDelta.setWidth 8

/-- 5 bits of the bci and 3 bits of the line, and not the escape character. -/
def Compresses (bciDelta lineDelta : JInt) : Prop :=
  (bciDelta &&& ~~~0x1F#32 = 0#32 ∧ lineDelta &&& ~~~0x7#32 = 0#32) ∧ singleByte bciDelta lineDelta ≠ 0xFF#8

instance (bciDelta lineDelta : JInt) : Decidable (Compresses bciDelta lineDelta) := inferInstanceAs (Decidable (_ ∧ _))

namespace CompressedLineNumberWriteStream

variable (junk : Nat → Byte) (s : CompressedWriteStream)

def writePairRegular (bciDelta lineDelta : JInt) : Option CompressedWriteStream := do
  let s ← s.write junk 0xFF#8
  let s ← s.writeSignedInt junk bciDelta
  s.writeSignedInt junk lineDelta

def writeDelta (bciDelta lineDelta : JInt) : Option CompressedWriteStream :=
  if bciDelta = 0#32 ∧ lineDelta = 0#32 then some s
  else if Compresses bciDelta lineDelta then s.write junk (singleByte bciDelta lineDelta)
  else writePairRegular junk s bciDelta lineDelta

variable (w : CompressedLineNumberWriteStream)

def writePair (p : JInt × JInt) : Option CompressedLineNumberWriteStream := do
  let s ← writeDelta junk w.stream (p.1 - w.bci) (p.2 - w.line)
  return ⟨s, p.1, p.2⟩

def writeTerminator : Option CompressedWriteStream :=
  w.stream.write junk 0#8

end CompressedLineNumberWriteStream

open CompressedLineNumberWriteStream

namespace CompressedLineNumberReadStream

def readPair (r : CompressedLineNumberReadStream) : Option (Bool × CompressedLineNumberReadStream) := do
  let (next, s) ← r.stream.read
  if next = 0#8 then return (false, { r with stream := s })
  if next = 0xFF#8 then
    let (bciDelta, s) ← s.readSignedInt
    let (lineDelta, s) ← s.readSignedInt
    return (true, ⟨s, r.bci + bciDelta, r.line + lineDelta⟩)
  return (true, ⟨s, r.bci + (next >>> 3).setWidth 32, r.line + (next &&& 0x7#8).setWidth 32⟩)

/-- `while (stream.read_pair())`, with the pairs that it reads. -/
def readPairs : Nat → CompressedLineNumberReadStream → Option (List (JInt × JInt))
  | 0, _ => none
  | fuel + 1, r => do
    let (more, r) ← r.readPair
    if more then return (r.bci, r.line) :: (← readPairs fuel r)
    return []

end CompressedLineNumberReadStream

/-! ## The bytes of a table -/

def encodeDelta (bciDelta lineDelta : JInt) : List Byte :=
  if bciDelta = 0#32 ∧ lineDelta = 0#32 then []
  else if Compresses bciDelta lineDelta then [singleByte bciDelta lineDelta]
  else 0xFF#8 :: (encodeSignedInt bciDelta ++ encodeSignedInt lineDelta)

def encodePairs (prev : JInt × JInt) : List (JInt × JInt) → List Byte
  | [] => []
  | p :: ps => encodeDelta (p.1 - prev.1) (p.2 - prev.2) ++ encodePairs p ps

def withoutRepeats (prev : JInt × JInt) : List (JInt × JInt) → List (JInt × JInt)
  | [] => []
  | p :: ps => if p = prev then withoutRepeats p ps else p :: withoutRepeats p ps

section Bytes

variable {b l : JInt}

lemma widen_of_and_eq_zero {k} (h : b &&& ~~~(allOnes k).setWidth 32 = 0#32) : (b.setWidth k).setWidth 32 = b := by
  ext i hi
  have hbit := congrArg (getLsbD · i) h
  grind

lemma singleByte_spec : ∀ (x : BitVec 5) (y : BitVec 3),
    (singleByte (x.setWidth 32) (y.setWidth 32) >>> 3).setWidth 32 = x.setWidth 32 ∧
      (singleByte (x.setWidth 32) (y.setWidth 32) &&& 0x7#8).setWidth 32 = y.setWidth 32 := by
  decide +kernel

lemma Compresses.read (h : Compresses b l) :
    (singleByte b l >>> 3).setWidth 32 = b ∧ (singleByte b l &&& 0x7#8).setWidth 32 = l := by
  have hspec := singleByte_spec (b.setWidth 5) (l.setWidth 3)
  rwa [widen_of_and_eq_zero (k := 5) h.1.1, widen_of_and_eq_zero (k := 3) h.1.2] at hspec

lemma Compresses.ne_zero (h : Compresses b l) (hne : ¬(b = 0#32 ∧ l = 0#32)) : singleByte b l ≠ 0#8 := by
  intro h0
  obtain ⟨hb, hl⟩ := h.read
  rw [h0] at hb hl
  exact hne ⟨hb.symm, hl.symm⟩

end Bytes

namespace CompressedLineNumberWriteStream

open CompressedWriteStream

variable {w : CompressedLineNumberWriteStream} {s : CompressedWriteStream}

lemma writeDelta_spec (junk) (h : s.Valid) (b l) : Writes s (encodeDelta b l) (writeDelta junk s b l) := by
  unfold writeDelta encodeDelta
  split
  · exact (Appends.refl h).writes h
  split
  · exact write_spec h junk _
  exact (write_spec h junk 0xFF#8).bind h fun s1 h1 => (writeInt_spec junk h1.valid _).bind h1.valid fun s2 h2 =>
    writeInt_spec junk h2.valid _

lemma writePairs_spec (junk) (h : w.stream.Valid) (ps) :
    Writes w.stream (encodePairs (w.bci, w.line) ps) ((run (writePair junk) w ps).map (·.stream)) := by
  induction ps generalizing w with
  | nil => exact (Appends.refl h).writes h
  | cons p ps ih =>
    have hbind : (run (writePair junk) w (p :: ps)).map (·.stream) = (writeDelta junk w.stream (p.1 - w.bci)
        (p.2 - w.line)).bind fun s => (run (writePair junk) ⟨s, p.1, p.2⟩ ps).map (·.stream) := by
      rw [run_cons, writePair]
      cases writeDelta junk w.stream (p.1 - w.bci) (p.2 - w.line) <;> rfl
    rw [hbind]
    exact (writeDelta_spec junk h _ _).bind h fun s1 h1 => ih (w := ⟨s1, p.1, p.2⟩) h1.valid

end CompressedLineNumberWriteStream

namespace CompressedLineNumberReadStream

open CompressedReadStream

variable {r : CompressedLineNumberReadStream}

lemma readPair_spec {b l : JInt} (hne : ¬(b = 0#32 ∧ l = 0#32)) (h : r.stream.Next (encodeDelta b l)) :
    r.readPair = some (true, ⟨r.stream.skip (encodeDelta b l).length, r.bci + b, r.line + l⟩) := by
  unfold encodeDelta at h ⊢
  rw [if_neg hne] at h ⊢
  by_cases hc : Compresses b l
  · rw [if_pos hc] at h ⊢
    obtain ⟨hb, hl⟩ := hc.read
    simp only [readPair, read_spec h, bind_eq_bind, bind_some, if_neg (hc.ne_zero hne), if_neg hc.2, hb, hl]
    rfl
  rw [if_neg hc] at h ⊢
  have h : r.stream.Next ([0xFF#8] ++ (_ ++ _)) := h
  have hrest := h.right
  have hb := readSignedInt_spec hrest.left
  have hl := readSignedInt_spec hrest.right
  rw [length_singleton] at hb hl
  simp [readPair, read_spec h.left, hb, hl]
  rw [skip_skip, skip_skip, Nat.add_comm 1, Nat.add_right_comm]

lemma readPairs_spec {ps fuel} (h : r.stream.Next (encodePairs (r.bci, r.line) ps ++ [0#8]))
    (hfuel : (withoutRepeats (r.bci, r.line) ps).length < fuel) :
    readPairs fuel r = some (withoutRepeats (r.bci, r.line) ps) := by
  induction ps generalizing r fuel with
  | nil =>
    obtain ⟨fuel, rfl⟩ := Nat.exists_eq_succ_of_ne_zero (Nat.ne_zero_of_lt hfuel)
    have hread := read_spec h
    simp [readPairs, readPair, hread, withoutRepeats]
  | cons p ps ih =>
    rw [encodePairs, List.append_assoc] at h
    rw [withoutRepeats] at hfuel ⊢
    split
    next heq =>
      subst heq
      simp [encodeDelta] at h
      exact ih h (by simpa using hfuel)
    rename_i hne
    have hdelta : ¬(p.1 - r.bci = 0#32 ∧ p.2 - r.line = 0#32) := by
      rintro ⟨hb, hl⟩
      refine hne (Prod.ext ?_ ?_)
      · rw [← BitVec.sub_add_cancel p.1 r.bci, hb, BitVec.zero_add]
      · rw [← BitVec.sub_add_cancel p.2 r.line, hl, BitVec.zero_add]
    obtain ⟨fuel, rfl⟩ := Nat.exists_eq_succ_of_ne_zero (Nat.ne_zero_of_lt hfuel)
    have hpair := readPair_spec hdelta h.left
    rw [BitVec.add_comm, BitVec.sub_add_cancel, BitVec.add_comm, BitVec.sub_add_cancel] at hpair
    rw [if_neg hne, List.length_cons] at hfuel
    have hrest := ih (r := ⟨r.stream.skip (encodeDelta _ _).length, p.1, p.2⟩) h.right (Nat.lt_of_succ_lt_succ hfuel)
    simp [readPairs, hpair, hrest]

end CompressedLineNumberReadStream

/-- The table is written, and the pairs that differ from the one before are read back and then the terminator, just
when the buffer can be doubled until the table fits. No pair starts with the terminator, and one that takes a single
byte does not have the escape character. -/
theorem line_number_tables_round_trip_iff (junk : Nat → Byte) (s : CompressedWriteStream) (hs : s.Valid)
    (hstart : s.position = 0) (ps : List (JInt × JInt)) : ((∃ w s', run (writePair junk) ⟨s, 0, 0⟩ ps = some w ∧
      w.writeTerminator junk = some s' ∧ ∀ fuel, (withoutRepeats (0, 0) ps).length < fuel →
        CompressedLineNumberReadStream.readPairs fuel ⟨⟨s'.buffer, 0⟩, 0, 0⟩ = some (withoutRepeats (0, 0) ps)) ↔
      ∃ k, s.size * 2 ^ k < 2 ^ 31 ∧ (encodePairs (0, 0) ps).length + 1 ≤ s.size * 2 ^ k) ∧
    ∀ b l, ¬(b = 0#32 ∧ l = 0#32) → ∀ s', writeDelta junk s b l = some s' →
      (s'.buffer.take s'.position).head? ≠ some 0#8 ∧ s'.buffer.take s'.position ≠ [0xFF#8] := by
  have hempty : s.contents = [] := by simp [contents, hstart]
  constructor
  · have hw := (writePairs_spec (w := ⟨s, 0, 0⟩) junk hs ps).bind hs fun s1 h1 => write_spec h1.valid junk 0#8
    have hroom := hw.isSome_iff
    simp only [Room, hstart, Nat.zero_add, length_append, length_singleton] at hroom
    rw [← hroom]
    constructor
    · rintro ⟨w, s', hrun, hterm, -⟩
      rw [hrun, map_some, bind_some]
      exact isSome_of_eq_some hterm
    intro hsome
    obtain ⟨s', hs'⟩ := isSome_iff_exists.1 hsome
    obtain ⟨s1, hs1, hterm⟩ := bind_eq_some_iff.1 hs'
    obtain ⟨w, hrun, rfl⟩ := map_eq_some_iff.1 hs1
    refine ⟨w, s', hrun, hterm, fun fuel hfuel => ?_⟩
    have hbytes := (hw.appends s' hs').contents
    rw [hempty, nil_append] at hbytes
    refine CompressedLineNumberReadStream.readPairs_spec ?_ hfuel
    rw [← hbytes]
    exact take_prefix _ _
  · intro b l hne s' hs'
    have hbytes : s'.buffer.take s'.position = encodeDelta b l := by
      rw [← nil_append (encodeDelta b l), ← hempty]
      exact ((writeDelta_spec junk hs b l).appends s' hs').contents
    rw [hbytes, encodeDelta, if_neg hne]
    split
    next hc => simpa using ⟨hc.ne_zero hne, hc.2⟩
    have hlen := (length_code maxI (encodeSign b).toNat).1
    simp [encodeSignedInt, encodeInt]
    intro hnil
    simp [hnil] at hlen

/-- The second pair repeats the first one, the third has the escape byte's bits, and the last one goes back. -/
theorem line_number_tables_round_trip_iff_small_buffer : ∃ w s', run (writePair fun _ => 0) ⟨.new (fun _ => 0) 1, 0, 0⟩
        [(0, 5), (0, 5), (31, 12), (3, 7)] = some w ∧ w.writeTerminator (fun _ => 0) = some s' ∧
      CompressedLineNumberReadStream.readPairs 4 ⟨⟨s'.buffer, 0⟩, 0, 0⟩ = some [(0, 5), (31, 12), (3, 7)] := by
  obtain ⟨w, s', hw, hs', hread⟩ := (line_number_tables_round_trip_iff (fun _ => 0) (.new (fun _ => 0) 1)
    (valid_new (by decide) (by decide)) rfl [(0, 5), (0, 5), (31, 12), (3, 7)]).1.2 ⟨4, by decide, by decide⟩
  exact ⟨w, s', hw, hs', hread 4 (by decide)⟩

/-- The lines `i + 1` to `i + n`, all at the same bytecode. -/
def nextLines (i n : Nat) : List (JInt × JInt) := (List.range' i n).map fun j => (0#32, BitVec.ofNat 32 (j + 1))

lemma length_encodePairs_nextLines (i n) : (encodePairs (0#32, BitVec.ofNat 32 i) (nextLines i n)).length = n := by
  induction n generalizing i with
  | zero => rfl
  | succ n ih =>
    have hdelta : BitVec.ofNat 32 (i + 1) - BitVec.ofNat 32 i = 1#32 := by
      rw [BitVec.ofNat_add, BitVec.add_comm, BitVec.add_sub_cancel]
    have hone : encodeDelta (0#32 - 0#32) (BitVec.ofNat 32 (i + 1) - BitVec.ofNat 32 i) = [1#8] :=
      (congrArg (encodeDelta _) hdelta).trans (by decide)
    rw [nextLines, List.range'_succ, List.map_cons, encodePairs, length_append, hone, Nat.add_comm]
    exact congrArg (· + 1) (ih (i + 1))

lemma writePairs_nextLines_eq_none {junk a n} (ha : 2 ^ a < 2 ^ 31) (hn : 2 ^ 30 < n) :
    run (writePair junk) ⟨.new junk (2 ^ a), 0, 0⟩ (nextLines 0 n) = none := by
  have hw := writePairs_spec (w := ⟨.new junk (2 ^ a), 0, 0⟩) junk (valid_new Nat.one_le_two_pow ha) (nextLines 0 n)
  have hroom := hw.isSome_iff.not.2 (not_room_new ?_)
  · rwa [Option.isSome_map, Option.not_isSome_iff_eq_none] at hroom
  · exact hn.trans_eq (length_encodePairs_nextLines 0 n).symm

/-- 2^30 pairs of one byte fill the buffer of 131072 bytes after thirteen doublings, and the next one needs another. -/
theorem line_number_table_overflows :
    run (writePair fun _ => 0) ⟨.new (fun _ => 0) (2 ^ 17), 0, 0⟩ (nextLines 0 (2 ^ 30 + 1)) = none :=
  writePairs_nextLines_eq_none (by decide) (Nat.lt_succ_self _)

end Rolp.Stream
