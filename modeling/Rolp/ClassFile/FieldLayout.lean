import Rolp.Lib.Cursor
import Rolp.Heap.Fillers

/-!
# Field layout

`layout_fields`, `compute_oop_map_count` and `fill_oop_maps` of the class file parser, and the packed offset of a
`FieldInfo`, in bytes. The `int` cursors are natural numbers: `notalignedFieldsEnd_lt` shows that none reaches `2 ^ 31`
if the fields of the superclass end at `2 ^ 29` or below.
-/

namespace Rolp.ClassFile

open Rolp.Lib
open Heap (ObjectLayout)

/-! ## Fields -/

/-- The basic types from `T_BOOLEAN` to `T_ARRAY`. -/
inductive BasicType where
  | boolean
  | char
  | float
  | double
  | byte
  | short
  | int
  | long
  | object
  | array
  deriving DecidableEq

/-- The kinds of `FieldAllocationType`, which has each of them for static and for instance fields. -/
inductive AllocationType where
  | oop
  | byte
  | short
  | word
  | double
  deriving DecidableEq

def basicTypeToAtype : BasicType → AllocationType
  | .boolean => .byte
  | .char => .short
  | .float => .word
  | .double => .double
  | .byte => .byte
  | .short => .short
  | .int => .word
  | .long => .double
  | .object => .oop
  | .array => .oop

structure FieldDecl where
  type : BasicType
  isStatic : Bool
  contendedGroup : Option Nat
  deriving DecidableEq

namespace FieldDecl

variable (f : FieldDecl)

def allocationType : AllocationType := basicTypeToAtype f.type

def isContended : Bool := f.contendedGroup.isSome

def isPadded : Bool := f.isContended && !f.isStatic

end FieldDecl

/-- A class as it was parsed. The number of fields is a `u2` and a contended group is an index into the constant
pool. -/
structure ClassDecl where
  fields : List FieldDecl
  isContended : Bool
  /-- loaded by the boot loader and one of those whose field offsets are hard-coded -/
  isHardCoded : Bool
  cpSize : Nat
  length_lt : fields.length < 2 ^ 16
  group_lt : ∀ f ∈ fields, ∀ g, f.contendedGroup = some g → g < cpSize

/-- The flags that the layout depends on. `ContendedPaddingWidth` is checked when the flags are parsed. -/
structure LayoutFlags where
  objectLayout : ObjectLayout
  useCompressedOops : Bool
  fieldsAllocationStyle : Int
  compactFields : Bool
  contendedPaddingWidth : Nat
  offsetOfStaticFields : Nat
  padding_le : contendedPaddingWidth ≤ 8192
  padding_mod : contendedPaddingWidth % 8 = 0

namespace LayoutFlags

variable (c : LayoutFlags)

def heapOopSize : Nat := if c.useCompressedOops then 4 else 8

/-- `instanceOopDesc::base_offset_in_bytes` -/
def baseOffset : Nat := if c.useCompressedOops && c.objectLayout.useCompressedClassPointers then 12 else 16

def size : AllocationType → Nat
  | .oop => c.heapOopSize
  | .byte => 1
  | .short => 2
  | .word => 4
  | .double => 8

def typeSize : BasicType → Nat
  | .boolean | .byte => 1
  | .char | .short => 2
  | .float | .int => 4
  | .double | .long => 8
  | .object | .array => c.heapOopSize

end LayoutFlags

/-! ## Packed offsets -/

/-- The two packed shorts of a `FieldInfo` whose offset is set, low and high. -/
structure FieldInfo where
  low : Nat
  high : Nat
  deriving DecidableEq

def FieldInfo.setOffset (val : Nat) : FieldInfo :=
  let val := val * 4 % 2 ^ 32
  ⟨val % 2 ^ 16 ||| 1, val / 2 ^ 16⟩

/-- `FieldInfo::offset`: `build_int_from_shorts` gives an `int`, and the tag is shifted out of that. -/
def FieldInfo.offset (f : FieldInfo) : Int := toJint (f.high * 2 ^ 16 + f.low) / 4

/-! ## Oop maps -/

structure OopMapBlock where
  offset : Nat
  count : Nat
  deriving DecidableEq

def OopMapBlock.offsets (c : LayoutFlags) (b : OopMapBlock) : List Nat :=
  (List.range b.count).map fun i => b.offset + i * c.heapOopSize

/-- `nonstatic_oop_offsets` and `nonstatic_oop_counts`, and `first_nonstatic_oop_offset`. -/
structure OopMaps where
  blocks : List OopMapBlock
  first : Nat
  deriving DecidableEq

def OopMaps.create (m : OopMaps) (realOffset : Nat) : OopMaps :=
  ⟨m.blocks ++ [⟨realOffset, 1⟩], if m.first = 0 then realOffset else m.first⟩

def OopMaps.update (c : LayoutFlags) (m : OopMaps) (realOffset : Nat) : OopMaps :=
  match m.blocks.getLast? with
  | some b =>
    if (b.offset : Int) = realOffset - b.count * c.heapOopSize then
      ⟨m.blocks.dropLast ++ [⟨b.offset, b.count + 1⟩], m.first⟩
    else m.create realOffset
  | none => m.create realOffset

/-! ## Classes -/

structure StoredField where
  decl : FieldDecl
  info : FieldInfo

structure Klass where
  /-- the instance fields, those of the superclasses first -/
  fields : List StoredField
  nonstaticFieldSize : Nat
  staticFieldSize : Nat
  instanceSize : Nat
  hasNonstaticFields : Bool
  nonstaticOopMapCount : Nat
  oopMaps : List OopMapBlock

def Klass.nextOopOffset (c : LayoutFlags) (k : Klass) : Option Nat :=
  (k.oopMaps[k.nonstaticOopMapCount - 1]?).map fun b => b.offset + b.count * c.heapOopSize

/-! ## Where the fields of each type start -/

section Start

variable (c : LayoutFlags) (super : Option Klass) (d : ClassDecl)

variable (isStatic : Bool) (a : AllocationType)

def facCount : Nat :=
  d.fields.countP fun f => f.isStatic == isStatic && f.allocationType == a

def facContendedCount : Nat :=
  d.fields.countP fun f => f.isContended && (f.isStatic == isStatic && f.allocationType == a)

def nonstaticCount (a : AllocationType) : Nat := facCount d false a - facContendedCount d false a

def superFieldSize : Nat := (super.map Klass.nonstaticFieldSize).getD 0

def nonstaticFieldsStart : Nat := c.baseOffset + superFieldSize super * c.heapOopSize

/-- `next_nonstatic_field_offset`: a contended class is padded before all its fields. -/
def nextNonstaticFieldOffset : Nat :=
  nonstaticFieldsStart c super + if d.isContended then c.contendedPaddingWidth else 0

def nextStaticOffset : AllocationType → Nat
  | .oop => c.offsetOfStaticFields
  | .double => doubleOffset
  | .word => doubleOffset + facCount d true .double * 8
  | .short => doubleOffset + facCount d true .double * 8 + facCount d true .word * 4
  | .byte => doubleOffset + facCount d true .double * 8 + facCount d true .word * 4 + facCount d true .short * 2
where
  doubleOffset : Nat :=
    let offset := c.offsetOfStaticFields + facCount d true .oop * c.heapOopSize
    if facCount d true .double ≠ 0 then alignSizeUp offset 8 else offset

def compactFields : Bool := if d.isHardCoded then false else c.compactFields

/-- Whether `allocation_style` is 0, oops first, or 1, oops last, in the end: style 2 becomes one of them. -/
def oopsFirst : Bool :=
  let style := if c.fieldsAllocationStyle < 0 ∨ c.fieldsAllocationStyle > 2 then 1 else c.fieldsAllocationStyle
  let style := if d.isHardCoded then 0 else style
  if style = 0 then true
  else if style = 1 then false
  else
    match super with
    | none => false
    | some k =>
      if 0 < k.nonstaticFieldSize ∧ 0 < k.nonstaticOopMapCount then
        k.nextOopOffset c == some (nextNonstaticFieldOffset c super d)
      else false

/-- `next_nonstatic_double_offset` before its alignment -/
def doubleOffset : Nat :=
  if oopsFirst c super d then nextNonstaticFieldOffset c super d + nonstaticCount d .oop * c.heapOopSize
  else nextNonstaticFieldOffset c super d

/-- How often `size` goes into `length`, at most `count` times: the loops that squeeze fields into a gap. -/
def squeeze (size : Nat) : Nat → Nat → Nat
  | 0, _ => 0
  | count + 1, length => if size ≤ length then squeeze size count (length - size) + 1 else 0

structure Space where
  offset : AllocationType → Nat
  count : AllocationType → Nat

def noSpace : Space := ⟨fun _ => 0, fun _ => 0⟩

def fillGap (offset length : Nat) : Space :=
  let words := if 0 < nonstaticCount d .word then 1 else 0
  let shortOffset := offset + words * 4
  let length := length - words * 4
  let shorts := squeeze 2 (nonstaticCount d .short) length
  let byteOffset := shortOffset + shorts * 2
  let length := length - shorts * 2
  let bytes := squeeze 1 (nonstaticCount d .byte) length
  let length := length - bytes
  let oops := if c.heapOopSize ≤ length ∧ 0 < nonstaticCount d .oop ∧ ¬oopsFirst c super d then 1 else 0
  { offset := fun
      | .word => offset
      | .short => shortOffset
      | .byte | .oop => byteOffset
      | .double => 0
    count := fun
      | .word => words
      | .short => shorts
      | .byte => bytes
      | .oop => oops
      | .double => 0 }

/-- `next_nonstatic_double_offset` -/
def alignedDoubleOffset : Nat :=
  if 0 < nonstaticCount d .double then alignSizeUp (doubleOffset c super d) 8 else doubleOffset c super d

def space : Space :=
  if 0 < nonstaticCount d .double ∧ compactFields c d ∧ doubleOffset c super d ≠ alignedDoubleOffset c super d then
    fillGap c super d (doubleOffset c super d) (alignedDoubleOffset c super d - doubleOffset c super d)
  else noSpace

def restCount (a : AllocationType) : Nat := nonstaticCount d a - (space c super d).count a

def wordOffset : Nat := alignedDoubleOffset c super d + nonstaticCount d .double * 8

def shortOffset : Nat := wordOffset c super d + restCount c super d .word * 4

def byteOffset : Nat := shortOffset c super d + restCount c super d .short * 2

def bytesEnd : Nat := byteOffset c super d + restCount c super d .byte

/-- `next_nonstatic_oop_offset` -/
def oopOffset : Nat :=
  if oopsFirst c super d then nextNonstaticFieldOffset c super d
  else if 0 < restCount c super d .oop then alignSizeUp (bytesEnd c super d) c.heapOopSize
  else bytesEnd c super d

/-- `next_nonstatic_padded_offset` before the contended fields -/
def paddedOffset : Nat :=
  if oopsFirst c super d then bytesEnd c super d
  else oopOffset c super d + restCount c super d .oop * c.heapOopSize

def nonstaticCursor : SlotCursor AllocationType where
  next
    | .oop => oopOffset c super d
    | .double => alignedDoubleOffset c super d
    | .word => wordOffset c super d
    | .short => shortOffset c super d
    | .byte => byteOffset c super d
  spaceOffset := (space c super d).offset
  spaceCount := (space c super d).count

end Start

/-! ## Offsets of the fields -/

structure Placed where
  field : FieldDecl
  offset : Nat
  deriving DecidableEq

structure Cursors where
  nextStatic : AllocationType → Nat
  nonstatic : SlotCursor AllocationType
  oopMaps : OopMaps

section Place

variable (c : LayoutFlags)

def place (s : Cursors) (f : FieldDecl) : Nat × Cursors :=
  let a := f.allocationType
  if f.isStatic then
    (s.nextStatic a, { s with nextStatic := fun b => if b = a then s.nextStatic b + c.size b else s.nextStatic b })
  else
    let (realOffset, nonstatic) := s.nonstatic.take c.size a
    (realOffset, { s with nonstatic, oopMaps := if a = .oop then s.oopMaps.update c realOffset else s.oopMaps })

def layoutPlain (s : Cursors) : List FieldDecl → Cursors × List Placed
  | [] => (s, [])
  | f :: fs =>
    if f.isPadded then layoutPlain s fs
    else
      let (realOffset, s) := place c s f
      let (s, ps) := layoutPlain s fs
      (s, ⟨f, realOffset⟩ :: ps)

/-- `next_nonstatic_padded_offset` and the oop maps. -/
structure Padded where
  next : Nat
  oopMaps : OopMaps

def Padded.pad (s : Padded) (width : Nat) : Padded := { s with next := s.next + width }

/-- `real_offset` of a contended field of `group`, and the cursor behind it. -/
def placePadded (group : Nat) (s : Padded) (f : FieldDecl) : Nat × Padded :=
  let realOffset := alignSizeUp s.next (c.size f.allocationType)
  let s : Padded := {
    next := realOffset + c.size f.allocationType
    oopMaps := if f.allocationType = .oop then s.oopMaps.create realOffset else s.oopMaps }
  -- the fields of the default group are padded from each other
  (realOffset, if group = 0 then s.pad c.contendedPaddingWidth else s)

/-- The loop over all fields that lays out those of `group`. -/
def layoutGroup (group : Nat) (s : Padded) : List FieldDecl → Padded × List Placed
  | [] => (s, [])
  | f :: fs =>
    if f.isStatic ∨ f.contendedGroup ≠ some group then layoutGroup group s fs
    else
      let (realOffset, s) := placePadded c group s f
      let (s, ps) := layoutGroup group s fs
      (s, ⟨f, realOffset⟩ :: ps)

def layoutGroups (fs : List FieldDecl) (s : Padded) : List Nat → Padded × List Placed
  | [] => (s, [])
  | group :: groups =>
    let (s, ps) := layoutGroup c group s fs
    let s := if group ≠ 0 then s.pad c.contendedPaddingWidth else s
    let (s, qs) := layoutGroups fs s groups
    (s, ps ++ qs)

end Place

/-- The bits of `bm`, in ascending order. -/
def contendedGroups (d : ClassDecl) : List Nat :=
  (List.range d.cpSize).filter fun g => d.fields.any fun f => !f.isStatic && f.contendedGroup == some g

/-! ## The layout of a class -/

/-- `FieldLayoutInfo`, and the offset of each field in the order in which they are set. -/
structure FieldLayoutInfo where
  placed : List Placed
  oopMaps : OopMaps
  totalOopMapCount : Nat
  instanceSize : Nat
  staticFieldSize : Nat
  nonstaticFieldSize : Nat
  hasNonstaticFields : Bool

section Layout

variable (c : LayoutFlags) (super : Option Klass)

def superOopMapCount : Nat := (super.map Klass.nonstaticOopMapCount).getD 0

def computeOopMapCount (m : OopMaps) : Nat :=
  let mapCount := superOopMapCount super
  if 0 < m.blocks.length then
    if mapCount = 0 then m.blocks.length
    else
      let count := if super.bind (Klass.nextOopOffset c) = some m.first then m.blocks.length - 1 else m.blocks.length
      mapCount + count
  else mapCount

variable (d : ClassDecl)

def plainLayout : Cursors × List Placed :=
  layoutPlain c ⟨nextStaticOffset c d, nonstaticCursor c super d, ⟨[], 0⟩⟩ d.fields

def paddedLayout : Padded × List Placed :=
  let s : Padded := ⟨paddedOffset c super d, (plainLayout c super d).1.oopMaps⟩
  if d.fields.any FieldDecl.isPadded then
    layoutGroups c d.fields (s.pad c.contendedPaddingWidth) (contendedGroups d)
  else (s, [])

/-- `notaligned_nonstatic_fields_end`: a contended class is padded in the back. -/
def notalignedFieldsEnd : Nat :=
  (paddedLayout c super d).1.next + if d.isContended then c.contendedPaddingWidth else 0

def layoutFields : FieldLayoutInfo :=
  let oopMaps := (paddedLayout c super d).1.oopMaps
  let fieldsEnd := alignSizeUp (notalignedFieldsEnd c super d) c.heapOopSize
  let instanceEnd := alignSizeUp (notalignedFieldsEnd c super d) 8
  let staticFieldsEnd := alignSizeUp ((plainLayout c super d).1.nextStatic .byte) 8
  { placed := (plainLayout c super d).2 ++ (paddedLayout c super d).2
    oopMaps
    totalOopMapCount := computeOopMapCount c super oopMaps
    instanceSize := c.objectLayout.alignObjectSize (instanceEnd / 8)
    staticFieldSize := (staticFieldsEnd - c.offsetOfStaticFields) / 8
    nonstaticFieldSize := superFieldSize super + (fieldsEnd - nonstaticFieldsStart c super) / c.heapOopSize
    hasNonstaticFields :=
      (super.map Klass.hasNonstaticFields).getD false || d.fields.any fun f => !f.isStatic }

/-- `fill_oop_maps` for a class with `mapCount` blocks. -/
def fillOopMaps (mapCount : Nat) (own : List OopMapBlock) : List OopMapBlock :=
  let superCount := superOopMapCount super
  let copied := ((super.map Klass.oopMaps).getD []).take superCount
  match own with
  | [] => copied
  | b :: rest =>
    if mapCount < superCount + own.length then
      -- extends the last block that was copied
      match copied.getLast? with
      | some last => copied.dropLast ++ ⟨last.offset, last.count + b.count⟩ :: rest
      | none => copied ++ rest
    else copied ++ own

def ownFields : List StoredField :=
  ((layoutFields c super d).placed.filter fun p => !p.field.isStatic).map fun p => ⟨p.field, .setOffset p.offset⟩

def inheritedFields : List StoredField := (super.map Klass.fields).getD []

def layoutKlass : Klass :=
  let info := layoutFields c super d
  { fields := inheritedFields super ++ ownFields c super d
    nonstaticFieldSize := info.nonstaticFieldSize
    staticFieldSize := info.staticFieldSize
    instanceSize := info.instanceSize
    hasNonstaticFields := info.hasNonstaticFields
    nonstaticOopMapCount := info.totalOopMapCount
    oopMaps := fillOopMaps super info.totalOopMapCount info.oopMaps.blocks }

end Layout

end Rolp.ClassFile
