import WavmHost.Runtime

/-!
# The `Wavm` VM: loading a module

The fields of `proxy_wasm::Wavm` that `wavm.cc` reads and writes, `loadModule`'s choice
between the binary and the text parser, `Wavm::load` with its search for the precompiled
object section, `getCustomSection`, and `registerCallbackWavm`. The parsers, the compiler
and the loader of precompiled objects belong to WAVM and are left open.
-/

namespace WavmHost

/-- `IR::CustomSection`. -/
structure CustomSection where
  name : String
  data : List UInt8
  deriving DecidableEq, Repr

/-- An import of a module: module name, export name, expected extern type. -/
structure Import where
  moduleName : String
  exportName : String
  type : ExternType
  deriving DecidableEq, Repr

/-- `IR::Module`: its imports, its exports by extern type, the initial image of its
default memory, and its custom sections. -/
structure IRModule where
  imports : List Import := []
  exports : List (String × ExternType) := []
  memory : Option Memory := none
  customSections : List CustomSection := []

/-- `Runtime::ModuleRef`: compiled by `compileModule`, or loaded by
`loadPrecompiledModule` from a precompiled object. -/
inductive ModuleRef where
  | compiled (ir : IRModule)
  | precompiled (ir : IRModule) (object : List UInt8)

/-- `Intrinsics::Module`: the host functions registered under one module name. -/
abbrev IntrinsicModule := List (String × FunctionType)

/-- The fields of `proxy_wasm::Wavm`. `memory_` starts uninitialised, shown as `none`. -/
structure Wavm where
  hasInstantiatedModule : Bool := false
  irModule : IRModule := {}
  module : Option ModuleRef := none
  moduleInstance : Option Ref := none
  memory : Option Ref := none
  compartment : Option Nat := none
  context : Option Ref := none
  intrinsicModules : List (String × IntrinsicModule) := []
  intrinsicModuleInstances : List (String × Ref) := []
  memoryBase : Option Addr := none

/-- The functions of WAVM that the model leaves open: its two parsers and the rendering
of extern types in messages. -/
structure Engine where
  loadBinaryModule : List UInt8 → Option IRModule
  parseModule : List UInt8 → Option IRModule
  asString : ExternType → String

/-- `WasmMagicNumber`, `\0asm`. -/
def WasmMagicNumber : List UInt8 := [0x00, 0x61, 0x73, 0x6d]

/-- `loadModule`: binary when the code starts with the magic number, else text, which
the parser reads with the terminating NUL of `c_str()`. -/
def loadModule (eng : Engine) (code : List UInt8) : Option IRModule :=
  if code.length ≥ 4 ∧ code.take 4 = WasmMagicNumber then eng.loadBinaryModule code
  else eng.parseModule (code ++ [0])

/-- A code of the first three magic bytes is parsed as text. -/
example (eng : Engine) : loadModule eng [0x00, 0x61, 0x73] = eng.parseModule [0x00, 0x61, 0x73, 0] := rfl

/-- `getPrecompiledSectionName`. -/
def getPrecompiledSectionName : String := "wavm.precompiled_object"

/-- The `for ... break` loop of `Wavm::load`: the first section named `name`. -/
def findPrecompiledSection (name : String) : List CustomSection → Option CustomSection
  | [] => none
  | s :: ss => if s.name = name then some s else findPrecompiledSection name ss

/-- The loop of `Wavm::getCustomSection`: the data of the first section named `name`,
empty when there is none. -/
def customSectionData (name : String) : List CustomSection → List UInt8
  | [] => []
  | s :: ss => if s.name = name then s.data else customSectionData name ss

/-- Native types in the signatures of registered callbacks. -/
inductive NativeType where
  | u32 | i64 | u64
  deriving DecidableEq, Repr

/-- `IR::inferValueType`. -/
def inferValueType : NativeType → ValueType
  | .u32 => .i32
  | .i64 => .i64
  | .u64 => .i64

/-- A callback's native signature `R (*)(void *, Args...)`: its result, `none` for `void`,
and its arguments after the context pointer. -/
structure CallbackSignature where
  result : Option NativeType
  args : List NativeType
  deriving DecidableEq, Repr

/-- `inferEnvoyFunctionType`: the context pointer is not a parameter of the guest-visible
type, whose calling convention is `intrinsic`. -/
def inferEnvoyFunctionType (sig : CallbackSignature) : FunctionType :=
  ⟨sig.result.toList.map inferValueType, sig.args.map inferValueType, .intrinsic⟩

namespace Wavm

def getCustomSection (vm : Wavm) (name : String) : List UInt8 :=
  customSectionData name vm.irModule.customSections

/-- `Wavm::load`: the new compartment and context, then the module compiled, or loaded
from the first precompiled object section when that is allowed. `ASSERT` is compiled
out of release builds and is not modelled. -/
def load (eng : Engine) (vm : Wavm) (s : Store) (code : List UInt8) (allowPrecompiled : Bool) :
    Bool × Wavm × Store :=
  let (c, s) := s.createCompartment
  let (ctx, s) := s.createContext c
  let vm := { vm with hasInstantiatedModule := true, compartment := some c, context := some ctx }
  match loadModule eng code with
  | none => (false, vm, s)
  | some ir =>
    let section? := if allowPrecompiled then
      findPrecompiledSection getPrecompiledSectionName ir.customSections else none
    let module := match section? with
      | none => ModuleRef.compiled ir
      | some sec => ModuleRef.precompiled ir sec.data
    (true, { vm with irModule := ir, module := some module }, s)

/-- `registerCallbackWavm`: the callback joins `intrinsic_modules_[module_name]`, which
`operator[]` creates when it is missing, under its name and inferred type. -/
def registerCallback (vm : Wavm) (moduleName functionName : String) (sig : CallbackSignature) :
    Wavm :=
  let fn := (functionName, inferEnvoyFunctionType sig)
  { vm with intrinsicModules :=
      if vm.intrinsicModules.any (·.1 = moduleName) then
        vm.intrinsicModules.map fun p => if p.1 = moduleName then (p.1, p.2 ++ [fn]) else p
      else vm.intrinsicModules ++ [(moduleName, [fn])] }

end Wavm

/-- The two loops agree: the section `load` consumes has the data `getCustomSection`
reports. -/
theorem findPrecompiledSection_data (name : String) (ss : List CustomSection) :
    (findPrecompiledSection name ss).map (·.data) =
      if ∃ sec ∈ ss, sec.name = name then some (customSectionData name ss) else none := by
  induction ss with
  | nil => simp [findPrecompiledSection]
  | cons s ss ih =>
    by_cases h : s.name = name
    · simp [findPrecompiledSection, customSectionData, h]
    · simp [findPrecompiledSection, customSectionData, h, ih]

/-- The first section of the name, in section order. -/
theorem findPrecompiledSection_eq_find? (name : String) (ss : List CustomSection) :
    findPrecompiledSection name ss = ss.find? (·.name = name) := by
  induction ss with
  | nil => rfl
  | cons s ss ih => by_cases h : s.name = name <;> simp [findPrecompiledSection, h, ih]

/-- `load` on a module that parses: it succeeds, compiles the module unless precompiled
objects are allowed and a section has the reserved name, and then loads the data of the
first such section, which is the data `getCustomSection` reports for that name. -/
theorem load_executable (eng : Engine) (vm : Wavm) (s : Store) (code : List UInt8)
    (allowPrecompiled : Bool) {ir : IRModule} (hparse : loadModule eng code = some ir) :
    ∃ vm' s', vm.load eng s code allowPrecompiled = (true, vm', s') ∧ vm'.irModule = ir ∧
      vm'.module = some (match allowPrecompiled,
          ir.customSections.find? (·.name = getPrecompiledSectionName) with
        | true, some sec => .precompiled ir sec.data
        | _, _ => .compiled ir) ∧
      ∀ sec, ir.customSections.find? (·.name = getPrecompiledSectionName) = some sec →
        sec.data = vm'.getCustomSection getPrecompiledSectionName := by
  refine ⟨_, _, by simp only [Wavm.load, hparse]; rfl, rfl, ?_, fun sec hsec => ?_⟩
  · rw [← findPrecompiledSection_eq_find?]
    cases allowPrecompiled <;> cases findPrecompiledSection getPrecompiledSectionName ir.customSections <;> rfl
  · have h := findPrecompiledSection_data getPrecompiledSectionName ir.customSections
    rw [findPrecompiledSection_eq_find?, hsec] at h
    have hmem : ∃ sec ∈ ir.customSections, sec.name = getPrecompiledSectionName :=
      ⟨sec, List.mem_of_find?_eq_some hsec, by simpa using List.find?_some hsec⟩
    simpa [hmem, Wavm.getCustomSection] using h

/-- Sections with a near-miss name and two copies of the reserved one, parsed as text. -/
def sectionsSample : IRModule :=
  { customSections := [⟨"wavm.precompiled", [1]⟩, ⟨getPrecompiledSectionName, [2]⟩,
      ⟨getPrecompiledSectionName, [3]⟩] }

theorem load_executable_sample :
    ∃ vm' s', ({} : Wavm).load ⟨fun _ => none, fun _ => some sectionsSample, fun _ => ""⟩ [] [] true =
        (true, vm', s') ∧ vm'.irModule = sectionsSample ∧
      vm'.module = some (match true,
          sectionsSample.customSections.find? (·.name = getPrecompiledSectionName) with
        | true, some sec => .precompiled sectionsSample sec.data
        | _, _ => .compiled sectionsSample) ∧
      ∀ sec, sectionsSample.customSections.find? (·.name = getPrecompiledSectionName) = some sec →
        sec.data = vm'.getCustomSection getPrecompiledSectionName :=
  load_executable _ {} [] [] true rfl

end WavmHost
