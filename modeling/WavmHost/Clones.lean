import WavmHost.Registration

/-!
# When `clone` returns

`clone` copies the VM's compartment and looks every id the VM holds up in the copy:
`memory_`, each instance of `intrinsic_module_instances_`, and `module_instance_`. An id the copy
lacks is undefined behaviour. In every reachable state, every instance a VM refers to is live,
so when the VM's compartment is also its home and that of its intrinsic instances, `clone`
returns: a VM of a new compartment whose memory holds what the original's does.
-/

namespace WavmHost

namespace Store

/-- Each instance `clone`'s remapping of `intrinsic_module_instances_` gives is live. -/
theorem mapM_remapInstance_live {s : Store} {c' : Nat} : ∀ {l l' : List (String × Ref)},
    l.mapM (fun p => (p.1, ·) <$> s.remapInstance p.2 c') = some l' →
      ∀ p ∈ l', (s.moduleInstance p.2).isSome
  | [], l', h => by
    obtain rfl : l' = [] := (Option.some.inj h).symm
    intro p hp; cases hp
  | q :: l, l', h => by
    simp only [List.mapM_cons, Option.bind_eq_bind, Option.bind_eq_some, Option.map_eq_map,
      Option.map_eq_some', Option.pure_def, Option.some.injEq] at h
    obtain ⟨_, ⟨r, hr, rfl⟩, l₁, hl, rfl⟩ := h
    intro p hp
    rcases List.mem_cons.mp hp with rfl | hp
    · exact (remapInstance_eq_some hr).2
    · exact mapM_remapInstance_live hl p hp

end Store

namespace Wavm

variable {vm vm' : Wavm} {s : Store} {w w' : World} {c : Nat}

/-- Every module instance the VM holds is live: `module_instance_` and each instance of
`intrinsic_module_instances_`; and a VM with a module instance has a memory. -/
structure InstancesLive (vm : Wavm) (s : Store) : Prop where
  moduleInstance : ∀ r ∈ vm.moduleInstance, (s.moduleInstance r).isSome
  intrinsics : ∀ p ∈ vm.intrinsicModuleInstances, (s.moduleInstance p.2).isSome
  memory : vm.moduleInstance.isSome → vm.memory.isSome

theorem InstancesLive.keeps {s' : Store} (h : vm.InstancesLive s) (hk : Store.Keeps s s') :
    vm.InstancesLive s' :=
  ⟨fun r hr => hk.moduleInstance r (h.moduleInstance r hr),
    fun p hp => hk.moduleInstance _ (h.intrinsics p hp), h.memory⟩

theorem load_intrinsicModuleInstances (vm : Wavm) (s : Store) (eng : Engine) (code : List UInt8)
    (allowPrecompiled : Bool) :
    (vm.load eng s code allowPrecompiled).2.1.intrinsicModuleInstances =
      vm.intrinsicModuleInstances := by
  simp only [load]; split <;> rfl

theorem InstancesLive.load (h : vm.InstancesLive s) (eng : Engine) (code : List UInt8)
    (allowPrecompiled : Bool) :
    (vm.load eng s code allowPrecompiled).2.1.InstancesLive (vm.load eng s code allowPrecompiled).2.2 := by
  obtain ⟨-, hmem, -, hinst, -⟩ := load_eq vm s eng code allowPrecompiled
  have hintr := load_intrinsicModuleInstances vm s eng code allowPrecompiled
  have h' := h.keeps (load_keeps vm s eng code allowPrecompiled)
  exact ⟨fun r hr => h'.moduleInstance r (hinst ▸ hr), fun p hp => h'.intrinsics p (hintr ▸ hp),
    fun hi => hmem ▸ h'.memory (hinst ▸ hi)⟩

/-- Each pass of `link`'s loop over `intrinsic_modules_` keeps every instance of
`intrinsic_module_instances_` live: `emplace` keeps a present name's instance, and a new one is
the instance just made. -/
theorem foldlM_instantiateIntrinsicStep_live {c : Nat} (mods : List (String × IntrinsicModule)) :
    ∀ {acc acc'}, mods.foldlM (instantiateIntrinsicStep c) acc = some acc' →
      (∀ p ∈ acc.2.1, (acc.1.moduleInstance p.2).isSome) →
        ∀ p ∈ acc'.2.1, (acc'.1.moduleInstance p.2).isSome := by
  induction mods with
  | nil => intro acc acc' h hacc; cases h; exact hacc
  | cons mod mods ih =>
    intro acc acc' h hacc
    obtain ⟨acc₁, hstep, hrest⟩ := Option.bind_eq_some.mp h
    simp only [instantiateIntrinsicStep, Option.bind_eq_bind, Option.bind_eq_some] at hstep
    obtain ⟨⟨r, s₁⟩, hinst, inst, hi, hstep⟩ := hstep
    cases hstep
    have hk := Store.instantiateIntrinsic_keeps hinst
    refine ih hrest fun p hp => ?_
    simp only [emplace] at hp
    split at hp
    · exact hk.moduleInstance _ (hacc p hp)
    · rcases List.mem_append.mp hp with hp | hp
      · exact hk.moduleInstance _ (hacc p hp)
      · rw [List.mem_singleton.mp hp]; simp [hi]

theorem InstancesLive.link {eng : Engine} (h : vm.InstancesLive w.store)
    (hl : vm.link eng w = some (vm', w')) : vm'.InstancesLive w'.store := by
  obtain ⟨c, _, s₁, instances, _, _, _, inst, s₂, mem, -, -, hintr, -, hinst, hmem, rfl, rfl⟩ :=
    link_inv hl
  have hk := (Store.instantiateModule_keeps hinst).1
  exact ⟨fun r hr => by cases hr; exact Store.moduleInstance_of_defaultMemory hmem,
    fun p hp => hk.moduleInstance _ (foldlM_instantiateIntrinsicStep_live _ hintr h.intrinsics p hp),
    fun _ => rfl⟩

/-- Every instance `clone` gives its VM is one found in the copy, so live. -/
theorem clone_instancesLive (hc : vm.clone w = some (vm', w')) : vm'.InstancesLive w'.store := by
  obtain ⟨_, _, _, _, _, _, _, -, -, -, -, hintr, -, hinst', rfl, rfl⟩ := clone_inv hc
  exact ⟨fun r hr => by cases hr; exact (Store.remapInstance_eq_some hinst').2,
    Store.mapM_remapInstance_live hintr, fun _ => rfl⟩

end Wavm

namespace Embedding

/-- Every event keeps every instance each VM holds live. -/
theorem step_instancesLive {E E' : Embedding} {e : Event}
    (h : ∀ vm ∈ E.vms, vm.InstancesLive E.world.store) (hstep : E.step e = some E') :
    ∀ vm ∈ E'.vms, vm.InstancesLive E'.world.store :=
  step_forall (fun h hk => h.keeps hk)
    ⟨fun _ hr => (by cases hr), fun _ hp => (by cases hp), fun hi => (by cases hi)⟩
    (fun eng code ap h => h.load eng code ap)
    (fun _ _ _ h => ⟨h.moduleInstance, h.intrinsics, h.memory⟩) (fun h hl => h.link hl) (fun _ hc => Wavm.clone_instancesLive hc) h hstep

/-- In every reachable embedding, every instance each VM holds is live. -/
theorem reachable_instancesLive {E : Embedding} (h : E.Reachable) :
    ∀ vm ∈ E.vms, vm.InstancesLive E.world.store :=
  Reachable.invariant (fun _ hvm => by cases hvm) step_instancesLive h

end Embedding

namespace Wavm

variable {vm : Wavm} {s : Store} {c : Nat}

/-- The VM's compartment `c` is its home and that of every instance of
`intrinsic_module_instances_`: `clone` copies that one compartment, so every id it remaps is
one of the copy. -/
structure AtHome (vm : Wavm) (c : Nat) : Prop where
  compartment_eq : vm.compartment = some c
  home_eq : vm.home = some c
  intrinsics : ∀ p ∈ vm.intrinsicModuleInstances, p.2.compartment = c

theorem Linked.atHome (h : vm.Linked s c) : vm.AtHome c := by
  obtain ⟨j, hj, -⟩ := h.moduleInstance_eq
  exact ⟨h.compartment_eq, by simp [home, hj], fun p hp => (h.intrinsics p hp).1⟩

/-- A VM at home in `c` that refers only to its home, caches the base address of its live
memory and holds only live instances is linked in `c`. -/
theorem AtHome.linked (hat : vm.AtHome c) (hv : vm.Refers (vm.home = some ·)) (hb : vm.BaseLive s)
    (hi : vm.InstancesLive s) : vm.Linked s c := by
  obtain ⟨⟨rc, j⟩, hr, hrc⟩ := Option.map_eq_some'.mp hat.home_eq
  obtain ⟨⟨mc, k⟩, hmem⟩ := Option.isSome_iff_exists.mp (hi.memory (by rw [hr]; rfl))
  obtain ⟨m, hm⟩ := Option.isSome_iff_exists.mp (hb.live _ hmem)
  have hmc : mc = c := Option.some_injective _ ((hv.memory _ hmem).symm.trans hat.home_eq)
  subst hmc hrc
  exact ⟨hat.compartment_eq, ⟨k, m, hmem, hm, by rw [hb.base_eq, hmem]; rfl⟩,
    ⟨j, hr, hi.moduleInstance _ hr⟩, fun p hp => ⟨hat.intrinsics p hp, hi.intrinsics p hp⟩⟩

end Wavm

/-- In a reachable embedding, `clone` of a VM at home in its compartment `c` returns: it adds a
VM at home in a compartment after every compartment there was, and the clone's memory holds
what the original's does. -/
theorem reachable_clone_returns {E : Embedding} (h : E.Reachable) {i c : Nat} {vm : Wavm}
    (hvm : E.vms[i]? = some vm) (hat : vm.AtHome c) :
    ∃ vm' w', E.step (.clone i) = some ⟨E.vms ++ [vm'], w'⟩ ∧ vm'.AtHome E.world.store.length ∧
      ∃ k m, vm.MemoryAt w'.store ⟨c, k⟩ m ∧ vm'.MemoryAt w'.store ⟨E.world.store.length, k⟩ m := by
  have hmem := List.getElem?_mem hvm
  have hl := hat.linked ((Embedding.reachable_apart h).refers _ hmem) (Embedding.reachable_baseLive h _ hmem)
    (Embedding.reachable_instancesLive h _ hmem)
  obtain ⟨k, m, hm⟩ := hl.memoryAt
  obtain ⟨j, hj, -⟩ := hl.moduleInstance_eq
  obtain ⟨comp, hcs, -⟩ := Option.bind_eq_some.mp hm.store_eq
  have hc := hl.clone_eq hm hj hcs
  obtain ⟨-, -, hl', hsame⟩ := hl.clone hc
  exact ⟨_, _, by simp only [Embedding.step, hvm, Option.some_bind, hc, Option.map_some'],
    hl'.atHome, hsame⟩

theorem reachable_clone_returns_doneLinked :
    doneLinkedEmbedding.Reachable ∧ doneLinkedEmbedding.vms[0]? = some doneLinked.1 ∧
      doneLinked.1.AtHome 0 ∧
      ∃ vm' w', doneLinkedEmbedding.step (.clone 0) =
          some ⟨doneLinkedEmbedding.vms ++ [vm'], w'⟩ ∧
        vm'.AtHome doneLinkedEmbedding.world.store.length ∧
        ∃ k m, doneLinked.1.MemoryAt w'.store ⟨0, k⟩ m ∧
          vm'.MemoryAt w'.store ⟨doneLinkedEmbedding.world.store.length, k⟩ m :=
  have h : doneLinkedEmbedding.Reachable :=
    .step (.link 0 missingImportEngine) doneEmbedding_reachable rfl
  have hat : doneLinked.1.AtHome 0 := ⟨rfl, rfl, by decide⟩
  ⟨h, rfl, hat, reachable_clone_returns h rfl hat⟩

end WavmHost
