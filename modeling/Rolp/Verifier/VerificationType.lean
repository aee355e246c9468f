import Mathlib.Data.List.Basic

/-!
# Verification types and their assignability

`VerificationType` of `verificationType.hpp` and `verificationType.cpp`. Symbols are unique and aligned and not `NULL`,
so the union is a symbol, which stands for its text, or a word of encoded data.
-/

namespace Rolp.Verifier

abbrev Symbol := List Char
abbrev Word := BitVec 64

inductive VerificationType where
  | sym (name : Symbol)
  | data (word : Word)
  deriving DecidableEq

/-- What `resolve_or_fail` gives for a name, `none` with an exception, and what is asked of the classes. -/
structure Hierarchy (Klass : Type) where
  resolve : Symbol → Option Klass
  isInterface : Klass → Bool
  isSubclassOf : Klass → Klass → Bool

def javaLangObject : Symbol := "java/lang/Object".toList

/-! ## The encoding -/

def category1 : Word := 0x1#64 <<< 8 ||| 0x1#64
def category2 : Word := 0x2#64 <<< 8 ||| 0x1#64
def category2Second : Word := 0x4#64 <<< 8 ||| 0x1#64

namespace VerificationType

def category1Item (item : Word) : VerificationType := data (item <<< 16 ||| category1)
def category2Item (item : Word) : VerificationType := data (item <<< 16 ||| category2)

/-- `ITEM_Bogus` is `(uint)-1`. -/
def bogus : VerificationType := data (0xFFFF0000#64 ||| category1)
def boolean : VerificationType := category1Item 9#64
def byte : VerificationType := category1Item 10#64
def short : VerificationType := category1Item 11#64
def char : VerificationType := category1Item 12#64
def integer : VerificationType := category1Item 1#64
def float : VerificationType := category1Item 2#64
def long : VerificationType := category2Item 4#64
def double : VerificationType := category2Item 3#64

def null : VerificationType := data 0#64
def referenceQuery : VerificationType := data 0x3#64
def category1Query : VerificationType := data (0x1#64 <<< 8 ||| 0x3#64)
def category2Query : VerificationType := data (0x2#64 <<< 8 ||| 0x3#64)
def category2SecondQuery : VerificationType := data (0x4#64 <<< 8 ||| 0x3#64)
def uninitialized (bci : BitVec 16) : VerificationType := data (bci.setWidth 64 <<< 8 ||| 0x2#64)
def uninitializedThis : VerificationType := uninitialized 0xFFFF#16

def isReference : VerificationType → Bool
  | sym _ => true
  | data w => w &&& 0x3#64 == 0#64

def isUninitialized : VerificationType → Bool
  | sym _ => false
  | data w => w &&& 0x2#64 == 0x2#64

def isCategory1 : VerificationType → Bool
  | sym _ => true
  | data w => w &&& category1 != 0x1#64

def isCategory2 : VerificationType → Bool
  | sym _ => false
  | data w => w &&& category2 == category2

def isCategory2Second : VerificationType → Bool
  | sym _ => false
  | data w => w &&& category2Second == category2Second

def isArray : Symbol → Bool
  | '[' :: _ :: _ => true
  | _ => false

def isObject : Symbol → Bool
  | [] => false
  | c :: _ => c != '['

/-! ## Assignability -/

def getComponent : Symbol → VerificationType
  | _ :: 'Z' :: _ => boolean
  | _ :: 'B' :: _ => byte
  | _ :: 'C' :: _ => char
  | _ :: 'S' :: _ => short
  | _ :: 'I' :: _ => integer
  | _ :: 'J' :: _ => long
  | _ :: 'F' :: _ => float
  | _ :: 'D' :: _ => double
  | _ :: '[' :: rest => sym ('[' :: rest)
  | _ :: 'L' :: rest => sym rest.dropLast
  | _ => bogus

def nameLength : VerificationType → Nat
  | sym name => name.length
  | data _ => 0

lemma nameLength_getComponent {name} (h : isArray name = true) : (getComponent name).nameLength < name.length := by
  unfold isArray at h
  split at h
  · unfold getComponent
    split <;> simp_all [nameLength, boolean, byte, char, short, integer, long, float, double, category1Item,
      category2Item, bogus]
    all_goals omega
  · cases h

variable {Klass : Type} (h : Hierarchy Klass)

/-- The class hierarchy is asked. -/
def isObjectAssignableFrom (name source : Symbol) : Option Bool := do
  if name = javaLangObject then return true
  let thisClass ← h.resolve name
  if h.isInterface thisClass then return true
  if isObject source then
    let fromClass ← h.resolve source
    return h.isSubclassOf fromClass thisClass
  return false

/-- `is_assignable_from` with `is_reference_assignable_from`; `none` is a pending exception. -/
def isAssignableFrom (target source : VerificationType) : Option Bool :=
  if target = source ∨ target = bogus then some true
  else if target = category1Query then some source.isCategory1
  else if target = category2Query then some source.isCategory2
  else if target = category2SecondQuery then some source.isCategory2Second
  else if target = referenceQuery then some (source.isReference || source.isUninitialized)
  else if target = boolean ∨ target = byte ∨ target = char ∨ target = short then some (source = integer)
  else if !(target.isReference && source.isReference) then some false
  else if source = null then some true
  else match target, source with
    | sym name, sym source =>
      if isObject name then isObjectAssignableFrom h name source
      else if isArray name ∧ isArray source then
        if getComponent name = bogus ∨ getComponent source = bogus then some false
        else isAssignableFrom (getComponent name) (getComponent source)
      else some false
    | _, _ => some false
  termination_by target.nameLength
  decreasing_by exact nameLength_getComponent (And.left (by assumption))

end VerificationType

/-! ## Assignability of arrays -/

inductive Primitive where
  | boolean | byte | char | short | int | long | float | double
  deriving DecidableEq

/-- Not empty and not the name of an array. -/
abbrev ClassName := { name : Symbol // VerificationType.isObject name = true }

inductive JavaType where
  | primitive (p : Primitive)
  | object (name : ClassName)
  | array (component : JavaType)

def Primitive.letter : Primitive → Char
  | .boolean => 'Z'
  | .byte => 'B'
  | .char => 'C'
  | .short => 'S'
  | .int => 'I'
  | .long => 'J'
  | .float => 'F'
  | .double => 'D'

def Primitive.type : Primitive → VerificationType
  | .boolean => .boolean
  | .byte => .byte
  | .char => .char
  | .short => .short
  | .int => .integer
  | .long => .long
  | .float => .float
  | .double => .double

namespace JavaType

def descriptor : JavaType → Symbol
  | primitive p => [p.letter]
  | object name => 'L' :: (name.val ++ [';'])
  | array component => '[' :: component.descriptor

def type : JavaType → VerificationType
  | primitive p => p.type
  | object name => .sym name.val
  | array component => .sym ('[' :: component.descriptor)

/-- Interfaces are treated like `java.lang.Object`. -/
def Assignable {Klass : Type} (h : Hierarchy Klass) : JavaType → JavaType → Prop
  | primitive p, primitive q => p = q
  | object n, object m => n = m ∨ n.val = javaLangObject ∨
      ∃ k, h.resolve n.val = some k ∧ (h.isInterface k ∨ ∃ k', h.resolve m.val = some k' ∧ h.isSubclassOf k' k)
  | object n, array _ => n.val = javaLangObject ∨ ∃ k, h.resolve n.val = some k ∧ h.isInterface k
  | array t, array s => t.Assignable h s
  | _, _ => False

def SmallFromInt : JavaType → JavaType → Prop
  | primitive p, primitive q => q = .int ∧ (p = .boolean ∨ p = .byte ∨ p = .char ∨ p = .short)
  | array t, array s => t.SmallFromInt s
  | _, _ => False

end JavaType

open VerificationType JavaType

@[simp] lemma type_primitive (p) : (primitive p).type = p.type := rfl

@[simp] lemma type_object (n) : (object n).type = .sym n.val := rfl

@[simp] lemma type_array (t : JavaType) : t.array.type = .sym ('[' :: t.descriptor) := rfl

lemma descriptor_injective : Function.Injective JavaType.descriptor := by
  intro t s heq
  induction t generalizing s with
  | primitive p =>
    cases s with
    | primitive q => cases p <;> cases q <;> simp_all [descriptor, Primitive.letter]
    | object m => cases p <;> simp [descriptor, Primitive.letter] at heq
    | array s => cases p <;> simp [descriptor, Primitive.letter] at heq
  | object n =>
    cases s with
    | primitive q => cases q <;> simp [descriptor, Primitive.letter] at heq
    | object m => simpa [descriptor, Subtype.ext_iff] using heq
    | array s => simp [descriptor] at heq
  | array t ih =>
    cases s with
    | primitive q => cases q <;> simp [descriptor, Primitive.letter] at heq
    | object m => simp [descriptor] at heq
    | array s => rw [ih (List.tail_eq_of_cons_eq heq)]

variable (t : JavaType)

lemma isArray_descriptor : isArray ('[' :: t.descriptor) = true := by
  cases t <;> rfl

lemma getComponent_descriptor : getComponent ('[' :: t.descriptor) = t.type := by
  cases t with
  | primitive p => cases p <;> rfl
  | object n => exact congrArg VerificationType.sym List.dropLast_concat
  | array t => rfl

@[simp] lemma sym_ne_primitive (p : Primitive) (name : Symbol) : .sym name ≠ p.type := by
  cases p <;> exact VerificationType.noConfusion

@[simp] lemma isReference_primitive (p : Primitive) : p.type.isReference = false := by
  cases p <;> rfl

lemma type_ne_bogus : t.type ≠ bogus := by
  cases t with
  | primitive p => cases p <;> decide
  | object n => exact VerificationType.noConfusion
  | array t => exact VerificationType.noConfusion

lemma object_ne_array (n : ClassName) (t : JavaType) : n.val ≠ '[' :: t.descriptor := by
  intro heq
  have hobject := n.property
  rw [heq] at hobject
  cases hobject

lemma isArray_object (n : ClassName) : isArray n.val = false := by
  obtain ⟨_ | ⟨c, rest⟩, hname⟩ := n
  · cases hname
  · unfold isArray
    split
    next heq =>
      obtain ⟨rfl, rfl⟩ := heq
      cases hname
    · rfl

section

variable {Klass : Type} {h : Hierarchy Klass}

lemma assignable_refl : t.Assignable h t := by
  induction t with
  | primitive p => rfl
  | object n => exact .inl rfl
  | array t ih => exact ih

lemma isObjectAssignableFrom_iff {name source} :
    isObjectAssignableFrom h name source = some true ↔ name = javaLangObject ∨ ∃ k, h.resolve name = some k ∧
      (h.isInterface k ∨ isObject source ∧ ∃ k', h.resolve source = some k' ∧ h.isSubclassOf k' k) := by
  unfold isObjectAssignableFrom
  by_cases hobject : name = javaLangObject
  · simp [hobject]
  · cases hk : h.resolve name with
    | none => simp [hobject]
    | some k =>
      cases hi : h.isInterface k with
      | true => simp [hobject, hi]
      | false => cases isObject source <;> simp [hobject, hi, Option.bind_eq_some_iff]

lemma isAssignableFrom_sym (name source) : isAssignableFrom h (.sym name) source = if .sym name = source then some true
      else if !source.isReference then some false else if source = null then some true else match source with
        | .sym source => if isObject name then isObjectAssignableFrom h name source
          else if isArray name ∧ isArray source then
            if getComponent name = bogus ∨ getComponent source = bogus then some false
            else isAssignableFrom h (getComponent name) (getComponent source) else some false
        | _ => some false := by
  rw [isAssignableFrom.eq_def]
  cases source <;> simp [bogus, category1Query, category2Query, category2SecondQuery, referenceQuery,
    boolean, byte, char, short, category1Item, isReference]

lemma isAssignableFrom_primitive (p : Primitive) (source : VerificationType) :
    isAssignableFrom h p.type source = some true ↔ p.type = source ∨
      (p = .boolean ∨ p = .byte ∨ p = .char ∨ p = .short) ∧ source = integer := by
  have hne : p.type ≠ bogus ∧ p.type ≠ category1Query ∧ p.type ≠ category2Query ∧ p.type ≠ category2SecondQuery ∧
      p.type ≠ referenceQuery ∧ p.type.isReference = false := by
    cases p <;> decide
  obtain ⟨h0, h1, h2, h3, h4, h5⟩ := hne
  have hsmall : (p.type = boolean ∨ p.type = byte ∨ p.type = char ∨ p.type = short) ↔
      (p = .boolean ∨ p = .byte ∨ p = .char ∨ p = .short) := by
    cases p <;> decide
  rw [isAssignableFrom.eq_def]
  by_cases heq : p.type = source
  · simp [heq]
  · by_cases hs : p = .boolean ∨ p = .byte ∨ p = .char ∨ p = .short
    · simp [h0, h1, h2, h3, h4, hsmall, hs, heq]
    · simp [h0, h1, h2, h3, h4, h5, hsmall, hs, heq]

lemma isAssignableFrom_type (t s : JavaType) :
    isAssignableFrom h t.type s.type = some true ↔ t.Assignable h s ∨ t.SmallFromInt s := by
  induction t generalizing s with
  | primitive p =>
    rw [type_primitive, isAssignableFrom_primitive]
    cases s with
    | primitive q => cases p <;> cases q <;> simp [Assignable, SmallFromInt] <;> decide
    | object m => simp [Assignable, SmallFromInt, (sym_ne_primitive _ _).symm, integer, category1Item]
    | array s => simp [Assignable, SmallFromInt, (sym_ne_primitive _ _).symm, integer, category1Item]
  | object n =>
    rw [type_object, isAssignableFrom_sym]
    have hn := n.property
    cases s with
    | primitive q => simp [Assignable, SmallFromInt]
    | object m =>
      have hm := m.property
      simp [hn, hm, isObjectAssignableFrom_iff, Assignable, SmallFromInt, Subtype.ext_iff, isReference, null,
        or_iff_not_imp_left]
    | array s =>
      have hs : isObject ('[' :: s.descriptor) = false := rfl
      simp [object_ne_array, hn, hs, isObjectAssignableFrom_iff, Assignable, SmallFromInt, isReference, null]
  | array t ih =>
    rw [type_array, isAssignableFrom_sym]
    have ht : isObject ('[' :: t.descriptor) = false := rfl
    cases s with
    | primitive q => simp [Assignable, SmallFromInt]
    | object m => simp [(object_ne_array m t).symm, ht, isArray_object, Assignable, SmallFromInt, isReference, null]
    | array s =>
      simp [ht, isArray_descriptor, getComponent_descriptor, type_ne_bogus, ih, Assignable, SmallFromInt,
        isReference, null]
      by_cases heq : t.descriptor = s.descriptor
      · exact .inr (.inl (descriptor_injective heq ▸ assignable_refl t))
      · exact .inl heq

lemma not_assignable_of_small {t s : JavaType} (hs : t.SmallFromInt s) : ¬t.Assignable h s := by
  induction t generalizing s with
  | primitive p =>
    cases s with
    | primitive q => rintro rfl; obtain ⟨rfl, hp⟩ := hs; simp at hp
    | _ => exact id
  | object n => cases hs
  | array t ih =>
    cases s with
    | array s => exact ih hs
    | _ => exact id

end

/-- The check agrees with the rules on two array types unless, without the common dimensions, the source is `int` and
the target `boolean`, `byte`, `char` or `short`. -/
theorem array_assignability_matches_iff {Klass : Type} (h : Hierarchy Klass) (t s : JavaType) :
    (isAssignableFrom h t.array.type s.array.type = some true ↔ t.array.Assignable h s.array) ↔
      ¬t.array.SmallFromInt s.array := by
  rw [isAssignableFrom_type]
  constructor
  · exact fun heq hs => not_assignable_of_small hs (heq.1 (.inr hs))
  · exact fun hs => or_iff_left hs

/-- An array of `int` is assignable to an array of `byte`. -/
theorem int_array_is_assignable_to_byte_array :
    let h : Hierarchy Unit := ⟨fun _ => none, fun _ => false, fun _ _ => false⟩
    isAssignableFrom h (array (primitive .byte)).type (array (primitive .int)).type = some true ∧
      ¬(array (primitive .byte)).Assignable h (array (primitive .int)) := by
  refine ⟨(isAssignableFrom_type _ _).2 (.inr ⟨rfl, .inr (.inl rfl)⟩), Primitive.noConfusion⟩

/-!
## Flags on branches

`StackMapTable::check_jump_target`, `match_stackmap` and `StackMapFrame::is_assignable_to`. An array of types is a
function of the slot.
-/

structure StackMapFrame where
  offset : Int
  localsSize : Nat
  stackSize : Nat
  maxLocals : Nat
  maxStack : Nat
  flags : BitVec 8
  locals : Nat → VerificationType
  stack : Nat → VerificationType

structure StackMapTable where
  frames : List StackMapFrame
  codeLength : Int

inductive VerifyError where
  | expectingStackmapFrame (target : Int)
  | inconsistentStackmapFrames (target : Int)
  | uninitializedObject (target : Int)
  | constructorMustCallSuper
  deriving DecidableEq

namespace StackMapFrame

variable {Klass : Type} (f : StackMapFrame)

def flagThisUninit : Bool := f.flags &&& 0x1#8 != 0#8

def hasNewObject : Bool :=
  (List.range f.maxLocals).any (fun i => (f.locals i).isUninitialized) ||
    (List.range f.stackSize).any fun i => (f.stack i).isUninitialized

/-- The types are compared up to a length; an exception counts as a mismatch. -/
def typesAssignable (h : Hierarchy Klass) (source target : Nat → VerificationType) (len : Nat) : Bool :=
  (List.range len).all fun i => isAssignableFrom h (target i) (source i) == some true

def hasFlagMatchException (thisType : VerificationType) (f target : StackMapFrame) : Bool :=
  f.flagThisUninit && target.flags == 0#8 &&
    (List.range target.localsSize).all (fun i => !(f.locals i == thisType && target.locals i != bogus)) &&
    (List.range target.stackSize).all fun i => !(f.stack i == thisType && target.stack i != bogus)

def isAssignableTo (h : Hierarchy Klass) (thisType : VerificationType) (f target : StackMapFrame)
    (isExceptionHandler : Bool) : Bool :=
  f.maxLocals == target.maxLocals && f.stackSize == target.stackSize &&
    typesAssignable h f.locals target.locals target.localsSize && typesAssignable h f.stack target.stack f.stackSize &&
    (f.flags ||| target.flags == target.flags || isExceptionHandler && hasFlagMatchException thisType f target)

def reset : StackMapFrame := { f with locals := fun _ => bogus, stack := fun _ => bogus }

/-- The frame of the table becomes the current one. -/
def update (f target : StackMapFrame) : StackMapFrame :=
  let f := if target.localsSize < f.localsSize ∨ target.stackSize < f.stackSize then f.reset else f
  { f with
    localsSize := target.localsSize
    stackSize := target.stackSize
    flags := target.flags
    locals := fun i => if i < target.localsSize then target.locals i else f.locals i
    stack := fun i => if i < target.stackSize then target.stack i else f.stack i }

/-- `_return` of `verify_method`. -/
def verifyReturn (isInitializer : Bool) (f : StackMapFrame) : Except VerifyError Unit :=
  if isInitializer && f.flagThisUninit then .error .constructorMustCallSuper else .ok ()

end StackMapFrame

namespace StackMapTable

variable {Klass : Type} (h : Hierarchy Klass) (thisType : VerificationType) (table : StackMapTable)

/-- `_frame_array[get_index_from_offset(offset)]` -/
def frameAt (offset : Int) : Option StackMapFrame := table.frames.find? (·.offset == offset)

/-- The result and the current frame afterwards. -/
def matchStackmap (f : StackMapFrame) (target : Int) (isMatch isUpdate : Bool) :
    Except VerifyError (Bool × StackMapFrame) :=
  match table.frameAt target with
  | none => .error (.expectingStackmapFrame target)
  | some frame => .ok (!isMatch || f.isAssignableTo h thisType frame !isUpdate, if isUpdate then f.update frame else f)

def checkJumpTarget (f : StackMapFrame) (target : Int) : Except VerifyError Unit := do
  let (result, f) ← table.matchStackmap h thisType f target true false
  if !result || target < 0 || table.codeLength ≤ target then throw (.inconsistentStackmapFrames target)
  if target < f.offset && f.hasNewObject then throw (.uninitializedObject target)

end StackMapTable

open StackMapFrame

/-- On a branch that is accepted the flags are those of the target frame, except where `has_flag_match_exception` allows
otherwise. -/
theorem branches_respect_flags_iff {Klass : Type} (h : Hierarchy Klass) (thisType : VerificationType)
    (table : StackMapTable) (f frame : StackMapFrame) (target : Int)
    (hok : table.checkJumpTarget h thisType f target = .ok ()) (hframe : table.frameAt target = some frame) :
    f.flags ||| frame.flags = frame.flags ↔ hasFlagMatchException thisType f frame = false := by
  have hassign : f.isAssignableTo h thisType frame true = true := by
    by_contra hne
    rw [Bool.not_eq_true] at hne
    simp [StackMapTable.checkJumpTarget, StackMapTable.matchStackmap, hframe, hne] at hok
    cases hok
  have hflags : f.flags ||| frame.flags = frame.flags ∨ hasFlagMatchException thisType f frame = true := by
    simp only [isAssignableTo, Bool.and_eq_true, Bool.or_eq_true, beq_iff_eq, true_and] at hassign
    exact hassign.2
  constructor
  · intro heq
    by_contra hexc
    simp only [hasFlagMatchException, flagThisUninit, Bool.not_eq_false, Bool.and_eq_true, bne_iff_ne,
      beq_iff_eq] at hexc
    obtain ⟨⟨⟨hset, hzero⟩, -⟩, -⟩ := hexc
    rw [hzero, BitVec.or_zero] at heq
    rw [heq] at hset
    exact hset rfl
  · exact fun hexc => hflags.resolve_right (by simp [hexc])

def noClasses : Hierarchy Unit := ⟨fun _ => none, fun _ => false, fun _ _ => false⟩

def constructorFrame : StackMapFrame := ⟨0, 1, 0, 1, 0, 0x1#8, fun _ => uninitializedThis, fun _ => bogus⟩

def frameWithoutLocals (flags : BitVec 8) : StackMapFrame := ⟨3, 0, 0, 1, 0, flags, fun _ => bogus, fun _ => bogus⟩

theorem branches_respect_flags_both_set :
    constructorFrame.flags ||| (frameWithoutLocals 0x1#8).flags = (frameWithoutLocals 0x1#8).flags ↔
      hasFlagMatchException (.sym ['A']) constructorFrame (frameWithoutLocals 0x1#8) = false :=
  branches_respect_flags_iff noClasses (.sym ['A']) ⟨[frameWithoutLocals 0x1#8], 4⟩ constructorFrame _ 3 rfl rfl

/-- A constructor jumps with `this` uninitialized to a frame without the flag, where it may return. -/
theorem branch_drops_this_uninit : let table : StackMapTable := ⟨[frameWithoutLocals 0#8], 4⟩
    constructorFrame.verifyReturn true = .error .constructorMustCallSuper ∧
      table.checkJumpTarget noClasses (.sym ['A']) constructorFrame 3 = .ok () ∧
      constructorFrame.flags ||| (frameWithoutLocals 0#8).flags ≠ (frameWithoutLocals 0#8).flags ∧
      ∃ f, table.matchStackmap noClasses (.sym ['A']) constructorFrame 3 false true = .ok (true, f) ∧
        f.verifyReturn true = .ok () :=
  ⟨rfl, rfl, by decide, _, rfl, rfl⟩

end Rolp.Verifier
