import WavmHost.System

/-!
# The VMs of an embedding keep apart

`load` and `clone` give a VM a compartment of its own, the one after every compartment there
was, and `link` and `clone` put the VM's module instance, its memory and the base address it
caches in that compartment. So in every reachable state of an embedding each VM refers only to
the compartment of its module instance, and no two VMs own a common compartment. With the
noninterference of host calls, this makes the VMs of every reachable state isolated from one
another: what one shows does not depend on the host calls made on the others.
-/

namespace WavmHost

namespace Wavm

variable {vm vm' : Wavm} {w w' : World} {c : Nat} {C : Nat → Prop}

/-- The compartment of the VM's module instance, where `link` or `clone` put its objects. -/
def home (vm : Wavm) : Option Nat := vm.moduleInstance.map (·.compartment)

/-- The compartments a VM owns: the one `load` or `clone` made for it, and its home. -/
def owned (vm : Wavm) : List Nat := vm.compartment.toList ++ vm.home.toList

theorem mem_owned_of_compartment (h : vm.compartment = some c) : c ∈ vm.owned := by
  simp [owned, h]

theorem mem_owned_of_home (h : vm.home = some c) : c ∈ vm.owned := by
  simp [owned, h]

theorem eq_of_mem_owned {c' : Nat} (hc : vm.compartment = some c) (hh : vm.home = some c)
    (h : c' ∈ vm.owned) : c' = c := by
  simpa [owned, hc, hh] using h

theorem Refers.mono {C' : Nat → Prop} (h : vm.Refers C) (hC : ∀ c, C c → C' c) : vm.Refers C' :=
  ⟨fun r hr => hC _ (h.memory r hr), fun a ha => hC _ (h.memoryBase a ha),
    fun r hr => hC _ (h.moduleInstance r hr)⟩

/-- What a VM refers to is read from its memory, base address and module instance alone. -/
theorem Refers.of_eq (h : vm.Refers C) (hm : vm'.memory = vm.memory)
    (hb : vm'.memoryBase = vm.memoryBase) (hi : vm'.moduleInstance = vm.moduleInstance) :
    vm'.Refers C :=
  ⟨hm ▸ h.memory, hb ▸ h.memoryBase, hi ▸ h.moduleInstance⟩

/-- `link` puts the VM's module instance, its memory and the base address it caches in the
VM's compartment. -/
theorem link_home {eng : Engine} (h : vm.link eng w = some (vm', w')) :
    ∃ c, vm.compartment = some c ∧ vm'.compartment = some c ∧ vm'.home = some c ∧
      vm'.Refers (· = c) := by
  simp only [link, Option.bind_eq_bind, Option.bind_eq_some] at h
  obtain ⟨c, hc, module, -, ⟨s₁, instances, named⟩, -, ⟨resolved, missing⟩, -, ⟨inst, s₂⟩,
    hinst, mem, hmem, h⟩ := h
  simp only [Option.pure_def, Option.some.injEq, Prod.mk.injEq] at h
  obtain ⟨rfl, rfl⟩ := h
  have hic := instantiateModule_compartment hinst
  have hmc := (Store.defaultMemory_compartment hmem).trans hic
  refine ⟨c, hc, hc, by simp [home, hic], fun r hr => ?_, fun a ha => ?_, fun r hr => ?_⟩
  · cases hr; exact hmc
  · cases ha; exact hmc
  · cases hr; exact hic

/-- `clone` makes its VM a compartment after every compartment there was, and puts the VM's
module instance, its memory and the base address it caches there. -/
theorem clone_home (h : vm.clone w = some (vm', w')) :
    w.store.length < w'.store.length ∧ vm'.compartment = some w.store.length ∧
      vm'.home = some w.store.length ∧ vm'.Refers (· = w.store.length) := by
  simp only [clone, Option.bind_eq_bind, Option.bind_eq_some] at h
  obtain ⟨c, -, ⟨c', s₁⟩, hclone, mem, -, mem', hmem', intrinsics, -, inst, -, inst', hinst', h⟩ :=
    h
  obtain ⟨comp, -, hclone⟩ := Option.map_eq_some'.mp hclone
  simp only [Prod.mk.injEq] at hclone
  obtain ⟨rfl, rfl⟩ := hclone
  simp only [Option.pure_def, Option.some.injEq, Prod.mk.injEq] at h
  obtain ⟨rfl, rfl⟩ := h
  obtain ⟨_, -, rfl⟩ := Option.map_eq_some'.mp hmem'
  obtain ⟨_, -, rfl⟩ := Option.map_eq_some'.mp hinst'
  refine ⟨by simp, rfl, rfl, fun r hr => ?_, fun a ha => ?_, fun r hr => ?_⟩
  · cases hr; rfl
  · cases ha; rfl
  · cases hr; rfl

end Wavm

/-- The VMs keep apart in the store: each refers only to its home, every compartment a VM owns
is one of the store, and no two VMs own a common compartment. -/
structure Apart (vms : List Wavm) (s : Store) : Prop where
  refers : ∀ vm ∈ vms, vm.Refers (vm.home = some ·)
  lt_length : ∀ vm ∈ vms, ∀ c ∈ vm.owned, c < s.length
  disjoint : ∀ i j (hi : i < vms.length) (hj : j < vms.length), i ≠ j →
    ∀ c ∈ vms[i].owned, c ∉ vms[j].owned

namespace Apart

variable {vms : List Wavm} {s s' : Store} {v : Wavm}

theorem keeps (h : Apart vms s) (hk : Store.Keeps s s') : Apart vms s' :=
  ⟨h.refers, fun vm hvm c hc => (h.lt_length vm hvm c hc).trans_le hk.length_le, h.disjoint⟩

/-- A compartment VM `k` owns, or one made after every compartment there was, is owned by no
other VM. -/
theorem not_owned (h : Apart vms s) {k j : Nat} (hk : k < vms.length) (hj : j < vms.length)
    (hkj : k ≠ j) {c : Nat} (hc : c ∈ vms[k].owned ∨ s.length ≤ c) : c ∉ vms[j].owned :=
  fun hcj => hc.elim (fun hc => h.disjoint k j hk hj hkj c hc hcj)
    fun hc => absurd (h.lt_length _ (List.getElem_mem ..) c hcj) (not_lt.mpr hc)

/-- Replacing VM `k` by one that owns only what VM `k` owned and compartments made since keeps
the VMs apart. -/
theorem set (h : Apart vms s) (hk : Store.Keeps s s') {k : Nat} (hk' : k < vms.length)
    (hv : v.Refers (v.home = some ·))
    (hown : ∀ c ∈ v.owned, c ∈ vms[k].owned ∨ s.length ≤ c ∧ c < s'.length) :
    Apart (vms.set k v) s' := by
  refine ⟨fun vm hvm => ?_, fun vm hvm => ?_, fun i j hi hj hij c hci hcj => ?_⟩
  · rcases List.mem_or_eq_of_mem_set hvm with hvm | rfl
    · exact h.refers vm hvm
    · exact hv
  · rcases List.mem_or_eq_of_mem_set hvm with hvm | rfl
    · exact (h.keeps hk).lt_length vm hvm
    · exact fun c hc => (hown c hc).elim ((h.keeps hk).lt_length _ (List.getElem_mem ..) c) And.right
  · rw [List.length_set] at hi hj
    rw [List.getElem_set] at hci hcj
    by_cases hki : k = i
    · subst hki
      simp only [↓reduceIte, hij] at hci hcj
      exact h.not_owned hk' hj hij ((hown c hci).imp_right And.left) hcj
    · by_cases hkj : k = j
      · subst hkj
        simp only [↓reduceIte, hki] at hci hcj
        exact h.not_owned hk' hi hki ((hown c hcj).imp_right And.left) hci
      · simp only [hki, hkj, ↓reduceIte] at hci hcj
        exact h.disjoint i j hi hj hij c hci hcj

/-- Adding a VM that owns only compartments made after every compartment there was keeps the
VMs apart. -/
theorem append (h : Apart vms s) (hk : Store.Keeps s s') (hv : v.Refers (v.home = some ·))
    (hown : ∀ c ∈ v.owned, s.length ≤ c ∧ c < s'.length) : Apart (vms ++ [v]) s' := by
  refine ⟨fun vm hvm => ?_, fun vm hvm => ?_, fun i j hi hj hij c hci hcj => ?_⟩
  · rcases List.mem_append.mp hvm with hvm | hvm
    · exact h.refers vm hvm
    · exact List.mem_singleton.mp hvm ▸ hv
  · rcases List.mem_append.mp hvm with hvm | hvm
    · exact (h.keeps hk).lt_length vm hvm
    · exact List.mem_singleton.mp hvm ▸ fun c hc => (hown c hc).2
  · rw [List.length_append, List.length_singleton] at hi hj
    rw [List.getElem_append] at hci hcj
    by_cases hi' : i < vms.length <;> by_cases hj' : j < vms.length <;>
      simp only [hi', hj', ↓reduceDIte, List.getElem_singleton] at hci hcj
    · exact h.disjoint i j hi' hj' hij c hci hcj
    · exact absurd (h.lt_length _ (List.getElem_mem ..) c hci) (not_lt.mpr (hown c hcj).1)
    · exact absurd (h.lt_length _ (List.getElem_mem ..) c hcj) (not_lt.mpr (hown c hci).1)
    · omega

end Apart

namespace Embedding

/-- Every event keeps the VMs apart. -/
theorem step_apart {E E' : Embedding} {e : Event} (h : Apart E.vms E.world.store)
    (hstep : E.step e = some E') : Apart E'.vms E'.world.store := by
  rcases step_cases hstep with ⟨-, rfl⟩ | ⟨i, _, eng, code, ap, -, hvm, rfl⟩ |
    ⟨i, _, _, _, _, -, hvm, rfl⟩ | ⟨i, _, _, _, _, -, hvm, hlink, rfl⟩ | ⟨_, _, _, _, -, -, hclone, rfl⟩ |
    ⟨_, _, _, _, _, -, -, hop, rfl⟩
  · exact h.append (Store.Keeps.refl _) ⟨fun _ h => (by cases h), fun _ h => (by cases h),
      fun _ h => (by cases h)⟩ fun c hc => by simp [Wavm.owned, Wavm.home] at hc
  · obtain ⟨hlt, rfl⟩ := List.getElem?_eq_some_iff.mp hvm
    obtain ⟨hcomp, hmem, hbase, hinst, hs⟩ := Wavm.load_eq E.vms[i] E.world.store eng code ap
    have hhome : (E.vms[i].load eng E.world.store code ap).2.1.home = E.vms[i].home := by
      simp only [Wavm.home, hinst]
    refine h.set (Wavm.load_keeps _ _ eng code ap) hlt
      (((h.refers _ (List.getElem_mem ..)).of_eq hmem hbase hinst).mono fun c hc => hhome.trans hc)
      fun c hc => ?_
    simp only [Wavm.owned, hcomp, hhome, Option.toList_some, List.singleton_append,
      List.mem_cons] at hc
    rcases hc with rfl | hc
    · exact .inr ⟨le_rfl, by simp [hs]⟩
    · exact .inl (List.mem_append_right _ hc)
  · obtain ⟨hlt, rfl⟩ := List.getElem?_eq_some_iff.mp hvm
    have h₀ := h.refers _ (List.getElem_mem hlt)
    exact h.set (Store.Keeps.refl _) hlt ⟨h₀.memory, h₀.memoryBase, h₀.moduleInstance⟩
      fun c hc => .inl hc
  · obtain ⟨hlt, rfl⟩ := List.getElem?_eq_some_iff.mp hvm
    obtain ⟨c, hc₀, hc₁, hhome, hrefers⟩ := Wavm.link_home hlink
    exact h.set (Wavm.link_baseLive hlink).1 hlt (hrefers.mono fun c' hc' => by rw [hhome, hc'])
      fun c' hc' => .inl (Wavm.eq_of_mem_owned hc₁ hhome hc' ▸ Wavm.mem_owned_of_compartment hc₀)
  · obtain ⟨hlen, hc₁, hhome, hrefers⟩ := Wavm.clone_home hclone
    exact h.append (Wavm.clone_baseLive hclone).1 (hrefers.mono fun c' hc' => by rw [hhome, hc'])
      fun c hc => by obtain rfl := Wavm.eq_of_mem_owned hc₁ hhome hc; exact ⟨le_rfl, hlen⟩
  · exact h.keeps (Wavm.step_keeps hop)

/-- In every reachable state the VMs keep apart. -/
theorem reachable_apart {E : Embedding} (h : E.Reachable) : Apart E.vms E.world.store :=
  Reachable.invariant ⟨fun _ h => (by cases h), fun _ h => (by cases h), fun _ _ hi => by cases hi⟩
    step_apart h

end Embedding

/-- In every reachable state of an embedding, after any creations, loads, links, clones and host
calls, each VM is isolated from all the others: in any interleaving of host calls on the VMs
(memory accesses, and calls of callables whatever their guests do), what one VM shows is what it
shows when only the calls on it are made, up to the first undefined behaviour and all of it when
there is none. -/
theorem reachable_vms_isolated {E : Embedding} (h : E.Reachable) (i : Fin E.vms.length) :
    Isolated E.vms.get i E.world := by
  have hA := Embedding.reachable_apart h
  have hlt : ∀ (k : Fin E.vms.length) c, (E.vms.get k).home = some c → c < E.world.store.length :=
    fun k c hc => hA.lt_length _ (List.get_mem ..) c (Wavm.mem_owned_of_home hc)
  have hown : ∀ j : Fin E.vms.length,
      (E.vms.get j).Refers (· = (E.vms.get j).home.getD (E.world.store.length + j)) := fun j =>
    (hA.refers _ (List.get_mem ..)).mono fun c hc => by rw [hc]; rfl
  refine fun ops => run_isolated hown (fun j hj => ?_) ops _ _ ⟨rfl, rfl⟩
  cases hi : (E.vms.get i).home <;> cases hj' : (E.vms.get j).home <;>
    simp only [hi, hj', Option.getD_none, Option.getD_some] at hj
  · exact Fin.ext (by omega)
  · have := hlt j _ hj'; omega
  · have := hlt i _ hi; omega
  · subst hj
    by_contra hne
    exact hA.disjoint j i j.2 i.2 (Fin.val_ne_of_ne hne) _ (Wavm.mem_owned_of_home hj')
      (Wavm.mem_owned_of_home hi)

/-- The one-page VM and its clone, after `clone`. -/
def clonedEmbedding : Embedding := ⟨[linkedOnePage.1, clonedOnePage.1], clonedOnePage.2⟩

theorem clonedEmbedding_reachable : clonedEmbedding.Reachable :=
  .step (.clone 0) (.step (.link 0 onePageEngine)
    (.step (.load 0 onePageEngine [] false) (.step .createVm .initial rfl) rfl) rfl) rfl

theorem reachable_vms_isolated_cloned :
    clonedEmbedding.Reachable ∧
      Isolated clonedEmbedding.vms.get ⟨1, by decide⟩ clonedEmbedding.world :=
  ⟨clonedEmbedding_reachable, reachable_vms_isolated clonedEmbedding_reachable ⟨1, by decide⟩⟩

/-! ## Events on other VMs -/

/-- The VM an event acts on; `createVm` acts on none. -/
def Event.vm : Event → Option Nat
  | .createVm => none
  | .load i .. | .registerCallback i .. | .link i _ | .clone i | .host i _ => some i

namespace Store

variable {s s' : Store} {c c' : Nat}

theorem createContext_getElem?_ne (s : Store) (h : c' ≠ c) : (s.createContext c).2[c']? = s[c']? := by
  unfold createContext; split
  · exact List.getElem?_set_ne (Ne.symm h)
  · rfl

theorem instantiateIntrinsic_frame {mod : IntrinsicModule} {r : Ref}
    (h : instantiateIntrinsic s c mod = some (r, s')) (hc : c' ≠ c) : s'[c']? = s[c']? := by
  obtain ⟨comp, -, h⟩ := Option.map_eq_some'.mp h
  rw [← (Prod.mk.inj h).2, List.getElem?_set_ne (Ne.symm hc)]

theorem instantiateModule_frame {module : ModuleRef} {imports : List Object} {inst : Ref}
    (h : instantiateModule s c module imports = some (inst, s')) (hc : c' ≠ c) : s'[c']? = s[c']? := by
  simp only [instantiateModule] at h
  split at h
  · obtain ⟨comp, -, h⟩ := Option.map_eq_some'.mp h
    rw [← (Prod.mk.inj h).2, List.getElem?_set_ne (Ne.symm hc)]
  · cases h

end Store

namespace Wavm

variable {vm vm' : Wavm} {w w' : World} {c c' : Nat}

/-- `link`'s loop over the registered modules changes no compartment but the VM's. -/
theorem foldlM_instantiateIntrinsicStep_frame (hc : c' ≠ c) (mods : List (String × IntrinsicModule)) :
    ∀ {acc acc' : Store × List (String × Ref) × List (String × ModuleInstance)},
      mods.foldlM (instantiateIntrinsicStep c) acc = some acc' → acc'.1[c']? = acc.1[c']? := by
  induction mods with
  | nil => intro acc acc' h; cases h; rfl
  | cons m mods ih =>
    intro acc acc' h
    obtain ⟨acc₁, hstep, hrest⟩ := Option.bind_eq_some.mp h
    simp only [instantiateIntrinsicStep, Option.bind_eq_bind, Option.bind_eq_some] at hstep
    obtain ⟨⟨r, s₁⟩, hinst, inst, -, hstep⟩ := hstep
    cases hstep
    exact (ih hrest).trans (Store.instantiateIntrinsic_frame hinst hc)

/-- `link` changes no compartment but the VM's. -/
theorem link_frame {eng : Engine} (h : vm.link eng w = some (vm', w')) (hc : vm.compartment = some c) :
    ∀ c' ≠ c, w'.store[c']? = w.store[c']? := by
  simp only [link, Option.bind_eq_bind, Option.bind_eq_some] at h
  obtain ⟨c₀, hc₀, module, -, ⟨s₁, instances, named⟩, hintr, ⟨resolved, missing⟩, -, ⟨inst, s₂⟩,
    hinst, mem, -, h⟩ := h
  simp only [Option.pure_def, Option.some.injEq, Prod.mk.injEq] at h
  obtain ⟨-, rfl⟩ := h
  cases hc.symm.trans hc₀
  exact fun c' hc' => (Store.instantiateModule_frame hinst hc').trans
    (foldlM_instantiateIntrinsicStep_frame hc' _ hintr)

/-- `clone` changes no compartment there was. -/
theorem clone_frame (h : vm.clone w = some (vm', w')) :
    ∀ c' < w.store.length, w'.store[c']? = w.store[c']? := by
  simp only [clone, Option.bind_eq_bind, Option.bind_eq_some] at h
  obtain ⟨c, -, ⟨c₁, s₁⟩, hclone, mem, -, mem', -, intrinsics, -, inst, -, inst', -, h⟩ := h
  obtain ⟨comp, -, hclone⟩ := Option.map_eq_some'.mp hclone
  simp only [Prod.mk.injEq] at hclone
  obtain ⟨rfl, rfl⟩ := hclone
  simp only [Option.pure_def, Option.some.injEq, Prod.mk.injEq] at h
  obtain ⟨-, rfl⟩ := h
  exact fun c' hc' => (Store.createContext_getElem?_ne _ hc'.ne).trans
    (List.getElem?_append_left hc')

/-- `load` changes no compartment there was. -/
theorem load_frame (vm : Wavm) (s : Store) (eng : Engine) (code : List UInt8) (allowPrecompiled : Bool)
    (hc' : c' < s.length) : (vm.load eng s code allowPrecompiled).2.2[c']? = s[c']? := by
  rw [(load_eq vm s eng code allowPrecompiled).2.2.2.2]
  exact (Store.createContext_getElem?_ne _ hc'.ne).trans (List.getElem?_append_left hc')

end Wavm

/-- In every reachable state, an event on another VM leaves VM `i`, every compartment it owns
and the effective context as they were: creating, loading, registering callbacks on, linking,
cloning and calling into other VMs never disturbs it. -/
theorem reachable_other_event {E E' : Embedding} (h : E.Reachable) {e : Event}
    (hstep : E.step e = some E') {i : Nat} (hi : i < E.vms.length) (he : e.vm ≠ some i) :
    E'.vms[i]? = E.vms[i]? ∧ E'.world.context = E.world.context ∧
      ∀ c ∈ E.vms[i].owned, E'.world.store[c]? = E.world.store[c]? := by
  have hA := Embedding.reachable_apart h
  have hlt : ∀ c ∈ E.vms[i].owned, c < E.world.store.length :=
    hA.lt_length _ (List.getElem_mem hi)
  have hji : ∀ {j}, e.vm = some j → j ≠ i := fun hj hji => he (hji ▸ hj)
  rcases Embedding.step_cases hstep with ⟨-, rfl⟩ | ⟨_, vm, eng, code, ap, rfl, -, rfl⟩ |
    ⟨_, _, _, _, _, rfl, -, rfl⟩ | ⟨j, _, _, _, _, rfl, hvm, hlink, rfl⟩ | ⟨_, _, _, _, -, -, hclone, rfl⟩ |
    ⟨j, _, _, _, _, rfl, hvm, hop, rfl⟩
  · exact ⟨List.getElem?_append_left hi, rfl, fun _ _ => rfl⟩
  · exact ⟨List.getElem?_set_ne (hji rfl), rfl, fun c hc => Wavm.load_frame vm _ eng code ap (hlt c hc)⟩
  · exact ⟨List.getElem?_set_ne (hji rfl), rfl, fun _ _ => rfl⟩
  · obtain ⟨hj, rfl⟩ := List.getElem?_eq_some_iff.mp hvm
    obtain ⟨cj, hcj, -⟩ := Wavm.link_home hlink
    have hne : ∀ c ∈ E.vms[i].owned, c ≠ cj := fun c hc hcc =>
      hA.disjoint j i hj hi (hji rfl) cj (Wavm.mem_owned_of_compartment hcj) (hcc ▸ hc)
    exact ⟨List.getElem?_set_ne (hji rfl), (Wavm.link_restores hlink).1,
      fun c hc => Wavm.link_frame hlink hcj c (hne c hc)⟩
  · exact ⟨List.getElem?_append_left hi, (Wavm.clone_restores hclone).1,
      fun c hc => Wavm.clone_frame hclone c (hlt c hc)⟩
  · obtain ⟨hj, rfl⟩ := List.getElem?_eq_some_iff.mp hvm
    obtain ⟨hwithin, hctx, -⟩ := Wavm.step_within (hA.refers _ (List.getElem_mem hj)) hop
    exact ⟨rfl, hctx, fun c hc => hwithin.frame c fun hh =>
      hA.disjoint j i hj hi (hji rfl) c (Wavm.mem_owned_of_home hh) hc⟩

/-- The clone's memory written through, after `clone`. -/
def cloneWritten : Embedding :=
  (clonedEmbedding.step (.host 1 (.access (.setMemory 8 4 fun _ => 7)))).getD clonedEmbedding

theorem reachable_other_event_cloned :
    clonedEmbedding.Reachable ∧
      clonedEmbedding.step (.host 1 (.access (.setMemory 8 4 fun _ => 7))) = some cloneWritten ∧
      0 < clonedEmbedding.vms.length ∧
      Event.vm (.host 1 (.access (.setMemory 8 4 fun _ => 7))) ≠ some 0 ∧
      cloneWritten.vms[0]? = clonedEmbedding.vms[0]? ∧
      cloneWritten.world.context = clonedEmbedding.world.context ∧
      ∀ c ∈ (clonedEmbedding.vms.get ⟨0, by decide⟩).owned,
        cloneWritten.world.store[c]? = clonedEmbedding.world.store[c]? :=
  have h := clonedEmbedding_reachable
  have hstep : clonedEmbedding.step (.host 1 (.access (.setMemory 8 4 fun _ => 7))) =
      some cloneWritten := rfl
  have hi : 0 < clonedEmbedding.vms.length := by decide
  have he : Event.vm (.host 1 (.access (.setMemory 8 4 fun _ => 7))) ≠ some 0 := by decide
  ⟨h, hstep, hi, he, reachable_other_event h hstep hi he⟩

end WavmHost
