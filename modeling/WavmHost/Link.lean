import WavmHost.Resolver

/-!
# Linking and cloning

`Wavm::link` instantiates the registered callbacks, resolves the module's imports through a
`RootResolver` by WAVM's `linkModule`, instantiates the module and caches its default memory
and that memory's base address. `Wavm::clone` makes a VM of a cloned compartment. WAVM's
`linkModule` and `instantiateModule` are stated as `wavm.cc` relies on them; a failure that
WAVM turns into a fatal error, and every undefined behaviour, is `none`.
-/

namespace WavmHost

/-- The IR module an executable was made from. -/
def ModuleRef.ir : ModuleRef → IRModule
  | .compiled ir => ir
  | .precompiled ir _ => ir

/-- `node_hash_map::emplace`: inserts unless the key is present. -/
def emplace {α : Type} (m : List (String × α)) (k : String) (v : α) : List (String × α) :=
  if m.any (·.1 = k) then m else m ++ [(k, v)]

/-- `HashMap::set`: inserts, or replaces the value of a present key. -/
def setKey {α : Type} (m : List (String × α)) (k : String) (v : α) : List (String × α) :=
  if m.any (·.1 = k) then m.map fun p => if p.1 = k then (k, v) else p else m ++ [(k, v)]

/-- The type of the function `Intrinsics::instantiateModule` exports for a registered one: WAVM
compiles a thunk into the native function, with its results and parameters in the wasm calling
convention, so that the imports of that signature a wasm parser produces link to it. -/
def FunctionType.toWasm (t : FunctionType) : FunctionType := { t with callingConvention := .wasm }

/-- `Intrinsics::instantiateModule`: an instance of compartment `c` exporting a new function
object, of the wasm-convention type, for each registered function. -/
def instantiateIntrinsic (s : Store) (c : Nat) (mod : IntrinsicModule) : Option (Ref × Store) :=
  s[c]?.map fun comp =>
    let exports := mod.enum.map fun (k, name, t) =>
      (name, ⟨⟨c, comp.objects + k⟩, .function t.toWasm⟩)
    (⟨c, comp.instances.length⟩, s.set c { comp with
      instances := comp.instances ++ [⟨exports, none⟩], objects := comp.objects + mod.length })

/-- `Runtime::instantiateModule`: WAVM fails unless it is given one object of the declared
type for each import; it creates the default memory from the module's initial image and an
object for each export. -/
def instantiateModule (s : Store) (c : Nat) (module : ModuleRef) (imports : List Object) :
    Option (Ref × Store) :=
  let ir := module.ir
  if imports.length = ir.imports.length ∧ (imports.zip ir.imports).all (fun p => isA p.1 p.2.type)
  then s[c]?.map fun comp =>
    let exports := ir.exports.enum.map fun (k, name, t) => (name, ⟨⟨c, comp.objects + k⟩, t⟩)
    (⟨c, comp.instances.length⟩, s.set c { comp with
      memories := comp.memories ++ ir.memory.toList,
      instances := comp.instances ++ [⟨exports, ir.memory.map fun _ => comp.memories.length⟩],
      objects := comp.objects + ir.exports.length })
  else none

/-- The instance `instantiateModule` makes is one of the compartment it is given. -/
theorem instantiateModule_compartment {s s' : Store} {c : Nat} {module : ModuleRef}
    {imports : List Object} {inst : Ref} (h : instantiateModule s c module imports = some (inst, s')) :
    inst.compartment = c := by
  simp only [instantiateModule] at h
  split at h
  · obtain ⟨comp, -, h⟩ := Option.map_eq_some'.mp h
    rw [← (Prod.mk.inj h).1]
  · cases h

/-- `Runtime::linkModule`: each import in order through the resolver, collecting the
resolved objects and the missing imports, with the resolver's reports; `none` when a call
of the resolver has undefined behaviour. -/
def linkModule (resolve : Import → List String × Resolution) :
    List Import → List String × Option (List Object × List Import)
  | [] => ([], some ([], []))
  | i :: is =>
    let (reports, res) := resolve i
    let (reports', rest) := linkModule resolve is
    match res with
    | .undefined => (reports, none)
    | .resolved o => (reports ++ reports', rest.map fun (os, ms) => (o :: os, ms))
    | .unresolved => (reports ++ reports', rest.map fun (os, ms) => (os, i :: ms))

/-- With a resolver that reports nothing when it succeeds and never returns false, a
`linkModule` that is defined reports nothing and leaves no import missing. -/
theorem linkModule_quiet {resolve : Import → List String × Resolution}
    (hres : ∀ i o, (resolve i).2 = .resolved o → (resolve i).1 = [])
    (hne : ∀ i, (resolve i).2 ≠ .unresolved) (imports : List Import) {x : List Object × List Import}
    (h : (linkModule resolve imports).2 = some x) : (linkModule resolve imports).1 = [] ∧ x.2 = [] := by
  induction imports generalizing x with
  | nil => simp only [linkModule, Option.some.injEq] at h; exact ⟨rfl, h ▸ rfl⟩
  | cons i is ih =>
    rcases hr : resolve i with ⟨reports, o | _ | _⟩
    · have hrep : reports = [] := by simpa [hr] using hres i o (by simp [hr])
      rcases hl : linkModule resolve is with ⟨reports', _ | y⟩
      · simp [linkModule, hr, hl] at h
      · obtain ⟨h₁, h₂⟩ := ih (x := y) (by simp [hl])
        simp only [hl] at h₁
        simp only [linkModule, hr, hl, Option.map_some', Option.some.injEq] at h ⊢
        subst h
        exact ⟨by simp [hrep, h₁], h₂⟩
    · exact absurd (by simp [hr]) (hne i)
    · simp [linkModule, hr] at h

namespace Wavm

/-- One pass of `link`'s loop over `intrinsic_modules_`: the module instantiated, its instance
put in `intrinsic_module_instances_` and in the resolver's map of named instances. -/
def instantiateIntrinsicStep (c : Nat)
    (acc : Store × List (String × Ref) × List (String × ModuleInstance))
    (mod : String × IntrinsicModule) :
    Option (Store × List (String × Ref) × List (String × ModuleInstance)) := do
  let (r, s) ← instantiateIntrinsic acc.1 c mod.2
  let inst ← s.moduleInstance r
  pure (s, emplace acc.2.1 mod.1 r, setKey acc.2.2 mod.1 inst)

/-- The registered modules instantiated in order of `intrinsic_modules_`: the store, the new
`intrinsic_module_instances_`, and the resolver's map of named instances. -/
def instantiateIntrinsics (c : Nat) (mods : List (String × IntrinsicModule)) (s : Store)
    (instances : List (String × Ref)) :
    Option (Store × List (String × Ref) × List (String × ModuleInstance)) :=
  mods.foldlM (instantiateIntrinsicStep c) (s, instances, [])

/-- `Wavm::link`. The resolver has no fallback resolvers, and `link_result.success` is not
read before `instantiateModule`. -/
def link (eng : Engine) (vm : Wavm) (w : World) : Option (Wavm × World) := do
  let c ← vm.compartment
  let module ← vm.module
  let (s, instances, named) ← instantiateIntrinsics c vm.intrinsicModules w.store
    vm.intrinsicModuleInstances
  let root : RootResolver := ⟨named, []⟩
  let (reports, result) :=
    linkModule (fun i => root.resolve eng i.moduleName i.exportName i.type) vm.irModule.imports
  let (resolvedImports, _missingImports) ← result
  let (inst, s) ← instantiateModule s c module resolvedImports
  let mem ← s.defaultMemory inst
  pure ({ vm with intrinsicModuleInstances := instances, moduleInstance := some inst,
                  memory := some mem, memoryBase := some (getMemoryBaseAddress mem) },
        { w with store := s, reports := w.reports ++ reports })

/-- `Wavm::clone`: a VM of a cloned compartment, whose memory, instances and base address are
the remapped ones and whose context is new. Each remapped id is looked up in the clone. The
other fields keep their defaults. -/
def clone (vm : Wavm) (w : World) : Option (Wavm × World) := do
  let c ← vm.compartment
  let (c', s) ← w.store.cloneCompartment c
  let mem' ← s.remapMemory (← vm.memory) c'
  let (ctx, s) := s.createContext c'
  let intrinsics ← vm.intrinsicModuleInstances.mapM fun p => (p.1, ·) <$> s.remapInstance p.2 c'
  let inst' ← s.remapInstance (← vm.moduleInstance) c'
  pure ({ compartment := some c', memory := some mem',
          memoryBase := some (getMemoryBaseAddress mem'), context := some ctx,
          intrinsicModuleInstances := intrinsics, moduleInstance := some inst' },
        { w with store := s })

variable {eng : Engine} {vm vm' : Wavm} {w w' : World}

/-- What `link` returning means: the VM had a compartment and a module, the registered modules
were instantiated in it, the resolver's calls all returned, and the module was instantiated with
a default memory; the VM and world are those `link` builds from them. -/
theorem link_inv (h : vm.link eng w = some (vm', w')) :
    ∃ c module s instances named resolved missing inst s' mem,
      vm.compartment = some c ∧ vm.module = some module ∧
      instantiateIntrinsics c vm.intrinsicModules w.store vm.intrinsicModuleInstances =
        some (s, instances, named) ∧
      (linkModule (fun i => RootResolver.resolve eng ⟨named, []⟩ i.moduleName i.exportName i.type)
        vm.irModule.imports).2 = some (resolved, missing) ∧
      instantiateModule s c module resolved = some (inst, s') ∧ s'.defaultMemory inst = some mem ∧
      vm' = { vm with intrinsicModuleInstances := instances, moduleInstance := some inst,
                      memory := some mem, memoryBase := some (getMemoryBaseAddress mem) } ∧
      w' = { w with store := s', reports := w.reports ++ (linkModule (fun i =>
        RootResolver.resolve eng ⟨named, []⟩ i.moduleName i.exportName i.type) vm.irModule.imports).1 } := by
  simp only [link, Option.bind_eq_bind, Option.bind_eq_some] at h
  obtain ⟨c, hc, module, hmod, ⟨s, instances, named⟩, hintr, ⟨resolved, missing⟩, hlm, ⟨inst, s'⟩,
    hinst, mem, hmem, h⟩ := h
  simp only [Option.pure_def, Option.some.injEq, Prod.mk.injEq] at h
  obtain ⟨rfl, rfl⟩ := h
  exact ⟨c, module, s, instances, named, resolved, missing, inst, s', mem, hc, hmod, hintr, hlm, hinst,
    hmem, rfl, rfl⟩

/-- What `clone` returning means: the VM had a compartment, a memory and a module instance, the
compartment was copied after every other, and each id was found in the copy; the VM and world
are those `clone` builds from them. -/
theorem clone_inv (h : vm.clone w = some (vm', w')) :
    ∃ c comp mem mem' intrinsics inst inst',
      vm.compartment = some c ∧ w.store[c]? = some comp ∧ vm.memory = some mem ∧
      (w.store ++ [comp]).remapMemory mem w.store.length = some mem' ∧
      vm.intrinsicModuleInstances.mapM (fun p => (p.1, ·) <$>
        ((w.store ++ [comp]).createContext w.store.length).2.remapInstance p.2 w.store.length) =
          some intrinsics ∧
      vm.moduleInstance = some inst ∧
      ((w.store ++ [comp]).createContext w.store.length).2.remapInstance inst w.store.length =
        some inst' ∧
      vm' = { compartment := some w.store.length, memory := some mem',
              memoryBase := some (getMemoryBaseAddress mem'),
              context := some ((w.store ++ [comp]).createContext w.store.length).1,
              intrinsicModuleInstances := intrinsics, moduleInstance := some inst' } ∧
      w' = { w with store := ((w.store ++ [comp]).createContext w.store.length).2 } := by
  simp only [clone, Option.bind_eq_bind, Option.bind_eq_some] at h
  obtain ⟨c, hc, ⟨c', s₁⟩, hclone, mem, hmem, mem', hmem', intrinsics, hintr, inst, hinst, inst',
    hinst', h⟩ := h
  obtain ⟨comp, hcs, hclone⟩ := Option.map_eq_some'.mp hclone
  simp only [Prod.mk.injEq] at hclone
  obtain ⟨rfl, rfl⟩ := hclone
  simp only [Option.pure_def, Option.some.injEq, Prod.mk.injEq] at h
  obtain ⟨rfl, rfl⟩ := h
  exact ⟨c, comp, mem, mem', intrinsics, inst, inst', hc, hcs, hmem, hmem', hintr, hinst, hinst', rfl,
    rfl⟩

end Wavm

/-- A module with one page of memory that imports `env.proxy_done`, a `void(void *)`
callback, from a VM where nothing was registered. -/
def missingImportModule : IRModule :=
  { imports := [⟨"env", "proxy_done", .function ⟨[], [], .wasm⟩⟩],
    memory := some ⟨1, by decide, fun _ => 0⟩ }

/-- Loading and then linking that module: `resolve` reports the missing import and flows off
its end, so `link` has undefined behaviour instead of failing without an instance. -/
theorem link_missing_import (asString : ExternType → String) :
    let eng : Engine := ⟨fun _ => none, fun _ => some missingImportModule, asString⟩
    let (_, vm, s) := ({} : Wavm).load eng [] [] false
    vm.link eng ⟨s, none, [], 0⟩ = none := rfl

namespace Wavm

/-- A `link` that returns made no report: `resolve` reports a type mismatch or a missing import
only on its way to flowing off its end. -/
theorem link_quiet {eng : Engine} {vm vm' : Wavm} {w w' : World}
    (h : vm.link eng w = some (vm', w')) : w'.reports = w.reports := by
  simp only [link, Option.bind_eq_bind, Option.bind_eq_some] at h
  obtain ⟨c, -, module, -, ⟨s₁, instances, named⟩, -, ⟨resolved, missing⟩, hres, ⟨inst, s₂⟩, -,
    mem, -, h⟩ := h
  simp only [Option.pure_def, Option.some.injEq, Prod.mk.injEq] at h
  obtain ⟨-, rfl⟩ := h
  have hq := (linkModule_quiet (fun _ _ ho => RootResolver.resolve_resolved_quiet eng _ _ _ _ rfl ho)
    (fun _ => RootResolver.resolve_ne_unresolved eng _ _ _ _) _ hres).1
  simp [hq]

end Wavm

/-- The engine that parses every code as `missingImportModule`. -/
def missingImportEngine : Engine := ⟨fun _ => none, fun _ => some missingImportModule, fun _ => ""⟩

/-- That module loaded into a VM which then registered `env.proxy_done` as a `void(void *)`
callback. -/
def doneRegistered : Wavm × World :=
  let (_, vm, s) := ({} : Wavm).load missingImportEngine [] [] false
  (vm.registerCallback "env" "proxy_done" ⟨none, []⟩, ⟨s, none, [], 0⟩)

/-- Its VM and world after `link`. -/
def doneLinked : Wavm × World :=
  (doneRegistered.1.link missingImportEngine doneRegistered.2).getD ({}, doneRegistered.2)

theorem link_quiet_doneRegistered :
    doneRegistered.1.link missingImportEngine doneRegistered.2 = some (doneLinked.1, doneLinked.2) ∧
      doneLinked.2.reports = doneRegistered.2.reports :=
  have h : doneRegistered.1.link missingImportEngine doneRegistered.2 =
      some (doneLinked.1, doneLinked.2) := rfl
  ⟨h, Wavm.link_quiet h⟩

end WavmHost
