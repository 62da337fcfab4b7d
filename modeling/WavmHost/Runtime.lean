import Mathlib.Data.String.Basic
import Mathlib.Data.List.Basic

/-!
# The WAVM runtime as the embedding sees it

WAVM itself is not part of this repository; this file states the part of its object model
that `wavm.cc` drives. A compartment owns linear memories, module instances and contexts,
each at an index. `cloneCompartment` copies a compartment with every object at the same
index, and `remapToClonedCompartment` follows an object to its copy.

A host pointer into a linear memory is the memory and an offset. WAVM reserves the whole
address range of a memory when it creates it, so growing a memory commits pages in place
and `getMemoryBaseAddress` names the same address for the memory's whole life.
-/

namespace WavmHost

/-- Value types of WAVM's IR. -/
inductive ValueType where
  | i32 | i64 | f32 | f64 | v128 | anyref | funcref
  deriving DecidableEq, Repr

inductive CallingConvention where
  | wasm | intrinsic | intrinsicWithContextSwitch | c | cAPICallback
  deriving DecidableEq, Repr

/-- `IR::FunctionType`: results, parameters and calling convention. -/
structure FunctionType where
  results : List ValueType
  params : List ValueType
  callingConvention : CallingConvention := .wasm
  deriving DecidableEq, Repr

/-- `IR::ExternType`. Only a function's type is inspected by the embedding. -/
inductive ExternType where
  | function (type : FunctionType)
  | table | memory | global | exceptionType
  deriving DecidableEq, Repr

/-- A pointer to a runtime object: its compartment and its index there. -/
structure Ref where
  compartment : Nat
  index : Nat
  deriving DecidableEq, Repr

/-- `Runtime::Object`: where it lives and its extern type. -/
structure Object where
  ref : Ref
  type : ExternType
  deriving DecidableEq, Repr

/-- `isA`: the object's extern type is the requested one. -/
def isA (o : Object) (t : ExternType) : Bool := o.type = t

/-- `asFunctionNullable`: the object's function type when it is a function. -/
def Object.functionType? (o : Object) : Option FunctionType :=
  match o.type with
  | .function t => some t
  | _ => none

/-- `WasmPageSize`, `1 << 16`. -/
def WasmPageSize : UInt64 := 65536

/-- A linear memory: its page count, at most the 65536 pages of a 32-bit memory, and its
bytes by offset. -/
structure Memory where
  numPages : Nat
  numPages_le : numPages ≤ 65536
  bytes : Nat → UInt8

namespace Memory

def size (m : Memory) : Nat := m.numPages * 65536

theorem size_le (m : Memory) : m.size ≤ 2 ^ 32 := by
  have := m.numPages_le; unfold size; omega

/-- The `n` bytes from offset `off`; `none` when they leave the memory. -/
def read (m : Memory) (off n : Nat) : Option (List UInt8) :=
  if off + n ≤ m.size then some ((List.range n).map fun i => m.bytes (off + i)) else none

/-- The bytes after copying `n` bytes of `data` to offset `off`. -/
def store (m : Memory) (off n : Nat) (data : Nat → UInt8) : Memory :=
  { m with bytes := fun i => if off ≤ i ∧ i < off + n then data (i - off) else m.bytes i }

/-- A copy of `n` bytes of `data` to offset `off`; `none` when they leave the memory. -/
def write (m : Memory) (off n : Nat) (data : Nat → UInt8) : Option Memory :=
  if off + n ≤ m.size then some (m.store off n data) else none

/-- `memory.grow`: `delta` zeroed pages, refused past 65536 pages. -/
def grow (m : Memory) (delta : Nat) : Option Memory :=
  if h : m.numPages + delta ≤ 65536 then
    some ⟨m.numPages + delta, h, fun i => if i < m.size then m.bytes i else 0⟩
  else none

@[simp] theorem store_numPages (m : Memory) (off n : Nat) (data : Nat → UInt8) :
    (m.store off n data).numPages = m.numPages := rfl

@[simp] theorem store_size (m : Memory) (off n : Nat) (data : Nat → UInt8) :
    (m.store off n data).size = m.size := rfl

theorem store_bytes (m : Memory) (off n : Nat) (data : Nat → UInt8) (i : Nat) :
    (m.store off n data).bytes i = if off ≤ i ∧ i < off + n then data (i - off) else m.bytes i :=
  rfl

theorem read_eq_some {m : Memory} {off n : Nat} (h : off + n ≤ m.size) :
    m.read off n = some ((List.range n).map fun i => m.bytes (off + i)) := if_pos h

theorem read_eq_none {m : Memory} {off n : Nat} (h : m.size < off + n) : m.read off n = none :=
  if_neg (by omega)

theorem write_eq_some {m : Memory} {off n : Nat} {data : Nat → UInt8} (h : off + n ≤ m.size) :
    m.write off n data = some (m.store off n data) := if_pos h

theorem write_eq_none {m : Memory} {off n : Nat} {data : Nat → UInt8} (h : m.size < off + n) :
    m.write off n data = none := if_neg (by omega)

theorem store_bytes_inside (m : Memory) {off n i : Nat} (data : Nat → UInt8) (hi : i < n) :
    (m.store off n data).bytes (off + i) = data i := by
  simp [store_bytes, hi]

theorem store_bytes_outside (m : Memory) {off n i : Nat} (data : Nat → UInt8)
    (hi : ¬(off ≤ i ∧ i < off + n)) : (m.store off n data).bytes i = m.bytes i := by
  simp [store_bytes, hi]

end Memory

/-- `ModuleInstance`: its exports by name and the index of its default memory. -/
structure ModuleInstance where
  exports : List (String × Object)
  defaultMemory : Option Nat

/-- `getInstanceExport`: the first export of that name. -/
def getInstanceExport (inst : ModuleInstance) (name : String) : Option Object :=
  (inst.exports.find? (·.1 = name)).map (·.2)

/-- A compartment: its memories and module instances by index, and how many other objects
(functions, tables, globals) and contexts it has created. -/
structure Compartment where
  memories : List Memory
  instances : List ModuleInstance
  objects : Nat
  contexts : Nat

/-- Every compartment, by index. -/
abbrev Store := List Compartment

namespace Store

def memory (s : Store) (r : Ref) : Option Memory := s[r.compartment]?.bind (·.memories[r.index]?)

def moduleInstance (s : Store) (r : Ref) : Option ModuleInstance :=
  s[r.compartment]?.bind (·.instances[r.index]?)

/-- The store with the memory at `r` replaced. -/
def setMemory (s : Store) (r : Ref) (m : Memory) : Store :=
  match s[r.compartment]? with
  | some c => s.set r.compartment { c with memories := c.memories.set r.index m }
  | none => s

/-- `getDefaultMemory`. -/
def defaultMemory (s : Store) (r : Ref) : Option Ref :=
  (s.moduleInstance r).bind fun inst => inst.defaultMemory.map (⟨r.compartment, ·⟩)

/-- `cloneCompartment`: a new compartment holding a copy of every object of `c`. -/
def cloneCompartment (s : Store) (c : Nat) : Option (Nat × Store) :=
  s[c]?.map fun comp => (s.length, s ++ [comp])

/-- `createCompartment`: a new empty compartment. -/
def createCompartment (s : Store) : Nat × Store := (s.length, s ++ [⟨[], [], 0, 0⟩])

/-- `createContext`: a new context of compartment `c`. -/
def createContext (s : Store) (c : Nat) : Ref × Store :=
  match s[c]? with
  | some comp => (⟨c, comp.contexts⟩, s.set c { comp with contexts := comp.contexts + 1 })
  | none => (⟨c, 0⟩, s)

@[simp] theorem length_setMemory (s : Store) (r : Ref) (m : Memory) :
    (s.setMemory r m).length = s.length := by
  unfold setMemory; split <;> simp

@[simp] theorem length_createContext (s : Store) (c : Nat) : (s.createContext c).2.length = s.length := by
  unfold createContext; split <;> simp

theorem defaultMemory_compartment {s : Store} {r m : Ref} (h : s.defaultMemory r = some m) :
    m.compartment = r.compartment := by
  simp only [defaultMemory, Option.bind_eq_some, Option.map_eq_some'] at h
  obtain ⟨_, -, _, -, rfl⟩ := h
  rfl

theorem setMemory_getElem? (s : Store) (r : Ref) (m : Memory) (c : Nat) :
    (s.setMemory r m)[c]? = if c = r.compartment then
      s[c]?.map fun comp => { comp with memories := comp.memories.set r.index m } else s[c]? := by
  unfold setMemory
  cases hc : s[r.compartment]? with
  | none => by_cases h : c = r.compartment <;> simp [h, hc]
  | some comp =>
    simp only [List.getElem?_set]
    by_cases h : c = r.compartment
    · subst h; simp [hc, (List.getElem?_eq_some_iff.mp hc).1]
    · simp [h, Ne.symm h]

theorem setMemory_getElem?_ne (s : Store) {r : Ref} (m : Memory) {c : Nat}
    (h : c ≠ r.compartment) : (s.setMemory r m)[c]? = s[c]? := by
  rw [setMemory_getElem?, if_neg h]

theorem memory_setMemory (s : Store) (r r' : Ref) (m : Memory) (h : (s.memory r).isSome) :
    (s.setMemory r m).memory r' = if r' = r then some m else s.memory r' := by
  obtain ⟨c, i⟩ := r
  obtain ⟨c', i'⟩ := r'
  simp only [memory, setMemory_getElem?] at h ⊢
  by_cases hc : c' = c
  · subst hc
    cases hs : s[c']? with
    | none => simp [hs] at h
    | some comp =>
      simp only [hs, Option.some_bind, Option.isSome_iff_exists] at h
      obtain ⟨_, hm⟩ := h
      have hlt := (List.getElem?_eq_some_iff.mp hm).1
      by_cases hi : i' = i
      · subst hi; simp [hlt]
      · simp [hi, Ne.symm hi]
  · simp [hc]

theorem memory_setMemory_self (s : Store) (r : Ref) (m : Memory) (h : (s.memory r).isSome) :
    (s.setMemory r m).memory r = some m := by
  simp [memory_setMemory s r r m h]

theorem memory_setMemory_ne (s : Store) {r r' : Ref} (m : Memory) (h : r' ≠ r) :
    (s.setMemory r m).memory r' = s.memory r' := by
  obtain ⟨c, i⟩ := r
  obtain ⟨c', i'⟩ := r'
  simp only [memory, setMemory_getElem?]
  by_cases hc : c' = c
  · subst hc
    have hi : i ≠ i' := fun hi => h (by rw [hi])
    cases s[c']? <;> simp [List.getElem?_set_ne hi]
  · simp [hc]

/-- Replacing a memory changes no module instance. -/
@[simp] theorem moduleInstance_setMemory (s : Store) (r r' : Ref) (m : Memory) :
    (s.setMemory r m).moduleInstance r' = s.moduleInstance r' := by
  simp only [moduleInstance, setMemory_getElem?]
  split <;> (try cases s[r'.compartment]?) <;> rfl

theorem moduleInstance_of_defaultMemory {s : Store} {r m : Ref} (h : s.defaultMemory r = some m) :
    (s.moduleInstance r).isSome := by
  simp only [defaultMemory, Option.bind_eq_some] at h
  obtain ⟨inst, hinst, -⟩ := h
  simp [hinst]

/-- A new context changes no memory. -/
@[simp] theorem createContext_memory (s : Store) (c : Nat) (r : Ref) :
    (s.createContext c).2.memory r = s.memory r := by
  unfold createContext
  split
  · next comp hc =>
    simp only [memory, List.getElem?_set]
    by_cases h : c = r.compartment
    · subst h; simp [hc, (List.getElem?_eq_some_iff.mp hc).1]
    · simp [h]
  · rfl

/-- A new context changes no module instance. -/
@[simp] theorem createContext_moduleInstance (s : Store) (c : Nat) (r : Ref) :
    (s.createContext c).2.moduleInstance r = s.moduleInstance r := by
  unfold createContext
  split
  · next comp hc =>
    simp only [moduleInstance, List.getElem?_set]
    by_cases h : c = r.compartment
    · subst h; simp [hc, (List.getElem?_eq_some_iff.mp hc).1]
    · simp [h]
  · rfl

theorem moduleInstance_append_of_lt (s : Store) (comp : Compartment) {r : Ref}
    (h : r.compartment < s.length) : (s ++ [comp]).moduleInstance r = s.moduleInstance r := by
  simp only [moduleInstance, List.getElem?_append_left h]

theorem moduleInstance_append_length (s : Store) (comp : Compartment) (j : Nat) :
    (s ++ [comp]).moduleInstance ⟨s.length, j⟩ = comp.instances[j]? := by
  simp [moduleInstance, List.getElem?_concat_length]

theorem memory_append_of_lt (s : Store) (comp : Compartment) {r : Ref}
    (h : r.compartment < s.length) : (s ++ [comp]).memory r = s.memory r := by
  simp only [memory, List.getElem?_append_left h]

theorem memory_append_length (s : Store) (comp : Compartment) (k : Nat) :
    (s ++ [comp]).memory ⟨s.length, k⟩ = comp.memories[k]? := by
  simp [memory, List.getElem?_concat_length]

end Store

/-- A host pointer into a linear memory: the memory and an offset in it. -/
structure Addr where
  memory : Ref
  offset : Nat
  deriving DecidableEq, Repr

/-- `getMemoryBaseAddress`: the address of offset 0. -/
def getMemoryBaseAddress (r : Ref) : Addr := ⟨r, 0⟩

/-- `remapToClonedCompartment`: the object of the same id in the cloned compartment `c`. -/
def remapToClonedCompartment (r : Ref) (c : Nat) : Ref := { r with compartment := c }

/-- `remapToClonedCompartment` of a memory, which looks its id up in the clone: `none`, undefined
behaviour, when the clone has no memory of that id. -/
def Store.remapMemory (s : Store) (r : Ref) (c : Nat) : Option Ref :=
  (s.memory (remapToClonedCompartment r c)).map fun _ => remapToClonedCompartment r c

/-- `remapToClonedCompartment` of a module instance, looked up the same way. -/
def Store.remapInstance (s : Store) (r : Ref) (c : Nat) : Option Ref :=
  (s.moduleInstance (remapToClonedCompartment r c)).map fun _ => remapToClonedCompartment r c

theorem Store.remapInstance_eq_some {s : Store} {r r' : Ref} {c : Nat}
    (h : s.remapInstance r c = some r') : r'.compartment = c ∧ (s.moduleInstance r').isSome := by
  obtain ⟨x, hx, rfl⟩ := Option.map_eq_some'.mp h
  exact ⟨rfl, by simp [hx]⟩

/-- `ContextBase *`, by identity. -/
abbrev Ctx := Nat

/-- What the embedding's operations act on: the store, the effective context that
`SaveRestoreContext` installs, the messages given to `WasmVm::error`, and the number of
`Runtime::Exception` objects not yet destroyed. -/
structure World where
  store : Store
  context : Option Ctx
  reports : List String
  liveExceptions : Nat

/-- Modelled from the spec: `WasmVm::error`, declared outside src/. The message is reported
and control returns to the caller: it is a `void` member that nothing in src/ makes
non-returning. -/
def World.error (w : World) (message : String) : World := { w with reports := w.reports ++ [message] }

namespace World

@[simp] theorem error_store (w : World) (message : String) : (w.error message).store = w.store :=
  rfl
@[simp] theorem error_context (w : World) (message : String) :
    (w.error message).context = w.context := rfl
@[simp] theorem error_liveExceptions (w : World) (message : String) :
    (w.error message).liveExceptions = w.liveExceptions := rfl
@[simp] theorem error_reports (w : World) (message : String) :
    (w.error message).reports = w.reports ++ [message] := rfl

end World

end WavmHost
