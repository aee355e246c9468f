import Rolp.Lib.HashTable
import Mathlib.Data.BitVec

/-!
# Context indices

`ng2c/ng2c_static_analysis.cpp`: the tables that give a site its 16-bit index. Without an input file they are filled on
demand (full mode), with one they only have what the file names.

`M` is the type of methods. A pointer to a `ContextIndex` is the key of its entry.
-/

namespace Rolp.Context

open Rolp.Lib

variable {M : Type}

structure Env (M : Type) where
  useROLP : Bool
  /-- A file was given with `NG2CStaticAnalysis`. -/
  ng2cStaticAnalysis : Bool
  nameAndSig : M → List Char
  /-- `AltHashing::murmur3_32(37, ...)` -/
  murmur : List Char → BitVec 32

/-- Neither full mode nor a file: `get_invoke_context` and `get_alloc_context` bail out. -/
def Env.disabled (env : Env M) : Bool := !env.useROLP && !env.ng2cStaticAnalysis

/-- In full mode the methods whose name starts with `java` are avoided. -/
def Env.avoids (env : Env M) (m : M) : Bool := !env.ng2cStaticAnalysis && (env.nameAndSig m).take 4 == "java".toList

structure ContextIndex where
  index : BitVec 32
  trackContext : BitVec 32
  deriving DecidableEq

def ContextIndex.tracked (ci : ContextIndex) : BitVec 32 := if ci.trackContext ≠ 0 then ci.index else 0

abbrev ContextTable := ChainTable (BitVec 32) ContextIndex BitVec.toNat

/-- The tables, and the hash of each method that `constMethod()` caches (0 before the first use). -/
structure StaticAnalysis (M : Type) where
  invoke2Context : ContextTable
  alloc2Context : ContextTable
  methodContext : M → BitVec 32

def ContextTable.lookup (env : Env M) (t : ContextTable) (key : BitVec 32) : ContextTable × Option (BitVec 32) :=
  match h : t.find? key with
  | some _ => (t, some key)
  | none => if env.ng2cStaticAnalysis then (t, none) else (t.addEntry key ⟨key &&& 0xFFFF, 0⟩ h, some key)

namespace StaticAnalysis

variable [DecidableEq M] (env : Env M) (sa : StaticAnalysis M)

variable (m : M) (bci : BitVec 32)

/-- `hash(m, bci)`: the key of a site, and the tables with the hash of the method cached. -/
def hash : StaticAnalysis M × BitVec 32 :=
  if sa.methodContext m = 0 then
    let key := env.murmur (env.nameAndSig m)
    ({ sa with methodContext := Function.update sa.methodContext m key }, key + bci)
  else (sa, sa.methodContext m + bci)

def getInvokeContext : StaticAnalysis M × Option (BitVec 32) :=
  if env.disabled || env.avoids m then (sa, none)
  else
    let (sa, key) := sa.hash env m bci
    let (t, ci) := sa.invoke2Context.lookup env key
    ({ sa with invoke2Context := t }, ci)

def getAllocContext : StaticAnalysis M × Option (BitVec 32) :=
  if env.disabled || env.avoids m then (sa, none)
  else
    let (sa, key) := sa.hash env m bci
    let (t, ci) := sa.alloc2Context.lookup env key
    ({ sa with alloc2Context := t }, ci)

def trackedAt (key : BitVec 32) : BitVec 32 :=
  ((sa.invoke2Context.find? key).map ContextIndex.tracked).getD 0

def getAllocIndex (m : M) (bci : BitVec 32) : StaticAnalysis M × BitVec 32 :=
  let (sa, ci) := sa.getAllocContext env m bci
  (sa, match ci with
    | none => 0
    | some key => ((sa.alloc2Context.find? key).map ContextIndex.index).getD 0)

def setTrackContext (key track : BitVec 32) : StaticAnalysis M :=
  { sa with invoke2Context := sa.invoke2Context.modify key fun ci => { ci with trackContext := track } }

end StaticAnalysis

/-! ## Lookups of context indices -/

variable {env : Env M}

namespace ContextTable

lemma find?_lookup_of_some {t : ContextTable} {key key' : BitVec 32} {ci : ContextIndex}
    (h : t.find? key' = some ci) : (t.lookup env key).1.find? key' = some ci := by
  unfold lookup
  split
  · exact h
  rename_i hnone
  split
  · exact h
  · have hne : key' ≠ key := by
      rintro rfl
      rw [hnone] at h
      cases h
    rw [ChainTable.find?_addEntry, if_neg hne, h]

lemma tracked_lookup (t : ContextTable) (key key' : BitVec 32) :
    (((t.lookup env key).1.find? key').map ContextIndex.tracked).getD 0 =
      ((t.find? key').map ContextIndex.tracked).getD 0 := by
  unfold lookup
  split
  · rfl
  rename_i hnone
  split
  · rfl
  · rw [ChainTable.find?_addEntry]
    split
    next hk =>
      subst hk
      rw [hnone]
      rfl
    · rfl

lemma lookup_of_file (h : env.ng2cStaticAnalysis = true) (t : ContextTable) (key : BitVec 32) :
    (t.lookup env key).1 = t := by
  unfold lookup
  split
  · rfl
  · rw [if_pos h]

lemma lookup_snd (env : Env M) (t : ContextTable) (key : BitVec 32) :
    ((t.lookup env key).2 = some key ∧ ∃ ci, (t.lookup env key).1.find? key = some ci) ∨
      ((t.lookup env key).2 = none ∧ env.ng2cStaticAnalysis = true ∧ t.find? key = none) := by
  unfold lookup
  split
  next ci h => exact .inl ⟨rfl, ci, h⟩
  next hnone =>
    split
    next hfile => exact .inr ⟨rfl, hfile, hnone⟩
    · exact .inl ⟨rfl, ⟨key &&& 0xFFFF, 0⟩, by rw [ChainTable.find?_addEntry, if_pos rfl]⟩

end ContextTable

namespace StaticAnalysis

variable [DecidableEq M] (sa : StaticAnalysis M) (m : M) (bci : BitVec 32)

def cached (env : Env M) (sa : StaticAnalysis M) (m : M) : BitVec 32 :=
  if sa.methodContext m = 0 then env.murmur (env.nameAndSig m) else sa.methodContext m

lemma hash_fst : (sa.hash env m bci).1 =
    { sa with methodContext := Function.update sa.methodContext m (sa.cached env m) } := by
  unfold hash cached
  split
  · rfl
  · rw [Function.update_eq_self]

lemma hash_snd : (sa.hash env m bci).2 = sa.cached env m + bci := by
  unfold hash cached
  split
  · rfl
  · rfl

lemma getInvokeContext_eq : sa.getInvokeContext env m bci = if env.disabled || env.avoids m then (sa, none)
    else ({ sa with
        methodContext := Function.update sa.methodContext m (sa.cached env m)
        invoke2Context := (ContextTable.lookup env sa.invoke2Context (sa.cached env m + bci)).1 },
      (ContextTable.lookup env sa.invoke2Context (sa.cached env m + bci)).2) := by
  unfold getInvokeContext
  split
  · rfl
  · simp only [hash_snd]
    rw [hash_fst]

lemma methodContext_getInvokeContext_of_ne (env : Env M) (sa : StaticAnalysis M) (m : M) (bci : BitVec 32)
    (h : sa.methodContext m ≠ 0) : (sa.getInvokeContext env m bci).1.methodContext = sa.methodContext := by
  rw [getInvokeContext_eq]
  split
  · rfl
  · simp only [cached, if_neg h, Function.update_eq_self]

lemma trackedAt_getInvokeContext (key : BitVec 32) :
    (sa.getInvokeContext env m bci).1.trackedAt key = sa.trackedAt key := by
  rw [getInvokeContext_eq]
  split
  · rfl
  · exact ContextTable.tracked_lookup sa.invoke2Context _ key

lemma find?_getInvokeContext {key : BitVec 32} {ci : ContextIndex} (h : sa.invoke2Context.find? key = some ci) :
    (sa.getInvokeContext env m bci).1.invoke2Context.find? key = some ci := by
  rw [getInvokeContext_eq]
  split
  · exact h
  · exact ContextTable.find?_lookup_of_some h

/-- What a call in flight at the site `m`, `bci` adds to the context, if tracking is on. -/
def trackedIndex (env : Env M) (sa : StaticAnalysis M) (m : M) (bci : BitVec 32) : BitVec 32 :=
  if env.disabled || env.avoids m then 0 else sa.trackedAt (sa.methodContext m + bci)

lemma trackedAt_getInvokeContext_snd (h : sa.methodContext m ≠ 0) :
    ((sa.getInvokeContext env m bci).2.map (sa.getInvokeContext env m bci).1.trackedAt).getD 0 =
      sa.trackedIndex env m bci := by
  have htracked : ∀ key, (sa.getInvokeContext env m bci).1.trackedAt key = sa.trackedAt key :=
    sa.trackedAt_getInvokeContext m bci
  have hcached : sa.cached env m = sa.methodContext m := if_neg h
  simp only [funext htracked]
  rw [getInvokeContext_eq, trackedIndex, hcached]
  split
  · rfl
  · obtain ⟨hsome, -⟩ | ⟨hnone, -, hfind⟩ := ContextTable.lookup_snd env sa.invoke2Context (sa.methodContext m + bci)
    · simp [hsome]
    · simp [hnone, trackedAt, hfind]

end StaticAnalysis

end Rolp.Context
