import WavmHost.Isolation

/-!
# The embedding's VMs over whole runs

An embedding creates VMs, loads code into them, registers callbacks on them, links them,
clones them and makes host calls on them, all over one world. In every state reachable that
way, each VM's cached `memory_base_` is the base address of its `memory_`, and that memory,
once set, is live: no host call, no guest run that grows a memory, and nothing another VM does
leaves `memory_base_` stale or `memory_` dangling. WAVM fixes a memory's base address when it
creates the memory and grows it in place, which the model's addresses, an offset in a memory,
reflect. Between host calls, too, the world is as it started: no effective context is set and no
caught exception is alive, since every invocation restores the one and destroys the other.
-/

namespace WavmHost

/-- What the embedding does with its VMs, each named by its index. -/
inductive Event where
  | createVm
  | load (i : Nat) (eng : Engine) (code : List UInt8) (allowPrecompiled : Bool)
  | registerCallback (i : Nat) (moduleName functionName : String) (sig : CallbackSignature)
  | link (i : Nat) (eng : Engine)
  | clone (i : Nat)
  | host (i : Nat) (op : HostOp)

/-- The VMs an embedding holds and the world they share. -/
structure Embedding where
  vms : List Wavm
  world : World

namespace Embedding

/-- What an event does: `createVm` adds a VM, `clone` adds the clone, the others act on the VM
they name. `none` when the event has undefined behaviour or names no VM. -/
def step (E : Embedding) : Event → Option Embedding
  | .createVm => some { E with vms := E.vms ++ [{}] }
  | .load i eng code allowPrecompiled => E.vms[i]?.map fun vm =>
    let (_, vm, s) := vm.load eng E.world.store code allowPrecompiled
    { vms := E.vms.set i vm, world := { E.world with store := s } }
  | .registerCallback i moduleName functionName sig => E.vms[i]?.map fun vm =>
    { E with vms := E.vms.set i (vm.registerCallback moduleName functionName sig) }
  | .link i eng => E.vms[i]?.bind fun vm =>
    (vm.link eng E.world).map fun (vm, w) => { vms := E.vms.set i vm, world := w }
  | .clone i => E.vms[i]?.bind fun vm =>
    (vm.clone E.world).map fun (vm, w) => { vms := E.vms ++ [vm], world := w }
  | .host i op => E.vms[i]?.bind fun vm =>
    (vm.step E.world op).map fun (_, w) => { E with world := w }

/-- No VM, and an empty store. -/
def initial : Embedding := ⟨[], ⟨[], none, [], 0⟩⟩

/-- The states an embedding reaches from `initial`. -/
inductive Reachable : Embedding → Prop
  | initial : Reachable initial
  | step {E E' : Embedding} (e : Event) : Reachable E → E.step e = some E' → Reachable E'

/-- What each event does: `createVm` and `clone` add a VM, `load`, `registerCallback` and `link`
replace the VM they name, and a host call changes the world alone. -/
theorem step_cases {E E' : Embedding} {e : Event} (h : E.step e = some E') :
    (e = .createVm ∧ E' = { E with vms := E.vms ++ [{}] }) ∨
    (∃ (i : Nat) (vm : Wavm) (eng : Engine) (code : List UInt8) (allowPrecompiled : Bool),
      e = .load i eng code allowPrecompiled ∧ E.vms[i]? = some vm ∧
      E' = ⟨E.vms.set i (vm.load eng E.world.store code allowPrecompiled).2.1,
        { E.world with store := (vm.load eng E.world.store code allowPrecompiled).2.2 }⟩) ∨
    (∃ (i : Nat) (vm : Wavm) (moduleName functionName : String) (sig : CallbackSignature),
      e = .registerCallback i moduleName functionName sig ∧ E.vms[i]? = some vm ∧
      E' = { E with vms := E.vms.set i (vm.registerCallback moduleName functionName sig) }) ∨
    (∃ (i : Nat) (vm : Wavm) (eng : Engine) (vm' : Wavm) (w' : World), e = .link i eng ∧
      E.vms[i]? = some vm ∧ vm.link eng E.world = some (vm', w') ∧
      E' = ⟨E.vms.set i vm', w'⟩) ∨
    (∃ (i : Nat) (vm vm' : Wavm) (w' : World), e = .clone i ∧ E.vms[i]? = some vm ∧
      vm.clone E.world = some (vm', w') ∧
      E' = ⟨E.vms ++ [vm'], w'⟩) ∨
    (∃ (i : Nat) (vm : Wavm) (op : HostOp) (o : Observation) (w' : World), e = .host i op ∧
      E.vms[i]? = some vm ∧ vm.step E.world op = some (o, w') ∧
      E' = { E with world := w' }) := by
  cases e with
  | createVm => exact .inl ⟨rfl, (Option.some.inj h).symm⟩
  | load i eng code allowPrecompiled =>
    obtain ⟨vm, hvm, rfl⟩ := Option.map_eq_some'.mp h
    exact .inr <| .inl ⟨i, vm, eng, code, allowPrecompiled, rfl, hvm, rfl⟩
  | registerCallback i moduleName functionName sig =>
    obtain ⟨vm, hvm, rfl⟩ := Option.map_eq_some'.mp h
    exact .inr <| .inr <| .inl ⟨i, vm, moduleName, functionName, sig, rfl, hvm, rfl⟩
  | link i eng =>
    obtain ⟨vm, hvm, h⟩ := Option.bind_eq_some.mp h
    obtain ⟨⟨vm', w'⟩, hl, rfl⟩ := Option.map_eq_some'.mp h
    exact .inr <| .inr <| .inr <| .inl ⟨i, vm, eng, vm', w', rfl, hvm, hl, rfl⟩
  | clone i =>
    obtain ⟨vm, hvm, h⟩ := Option.bind_eq_some.mp h
    obtain ⟨⟨vm', w'⟩, hc, rfl⟩ := Option.map_eq_some'.mp h
    exact .inr <| .inr <| .inr <| .inr <| .inl ⟨i, vm, vm', w', rfl, hvm, hc, rfl⟩
  | host i op =>
    obtain ⟨vm, hvm, h⟩ := Option.bind_eq_some.mp h
    obtain ⟨⟨o, w'⟩, hop, rfl⟩ := Option.map_eq_some'.mp h
    exact .inr <| .inr <| .inr <| .inr <| .inr ⟨i, vm, op, o, w', rfl, hvm, hop, rfl⟩

/-- A property of embeddings that holds initially and that every event keeps holds in every
reachable state. -/
theorem Reachable.invariant {I : Embedding → Prop} (h₀ : I Embedding.initial)
    (hstep : ∀ {E E' : Embedding} {e : Event}, I E → E.step e = some E' → I E') {E : Embedding}
    (h : E.Reachable) : I E := by
  induction h with
  | initial => exact h₀
  | step _ _ hs ih => exact hstep ih hs

end Embedding

/-! ## Operations keep every memory -/

namespace Store

/-- Every compartment, every memory and every module instance of `s` is one of `s'`. -/
structure Keeps (s s' : Store) : Prop where
  length_le : s.length ≤ s'.length
  memory : ∀ r, (s.memory r).isSome → (s'.memory r).isSome
  moduleInstance : ∀ r, (s.moduleInstance r).isSome → (s'.moduleInstance r).isSome

variable {s s' s'' : Store} {c : Nat} {comp comp' : Compartment} {r : Ref}

theorem Keeps.refl (s : Store) : Keeps s s := ⟨le_rfl, fun _ h => h, fun _ h => h⟩

theorem Keeps.trans (h₁ : Keeps s s') (h₂ : Keeps s' s'') : Keeps s s'' :=
  ⟨h₁.length_le.trans h₂.length_le, fun r h => h₂.memory r (h₁.memory r h),
    fun r h => h₂.moduleInstance r (h₁.moduleInstance r h)⟩

theorem compartment_lt_of_memory (h : (s.memory r).isSome) : r.compartment < s.length := by
  cases hc : s[r.compartment]? with
  | none => simp [memory, hc] at h
  | some comp => exact (List.getElem?_eq_some_iff.mp hc).1

theorem compartment_lt_of_moduleInstance (h : (s.moduleInstance r).isSome) :
    r.compartment < s.length := by
  cases hc : s[r.compartment]? with
  | none => simp [moduleInstance, hc] at h
  | some comp => exact (List.getElem?_eq_some_iff.mp hc).1

/-- A compartment added after every other keeps every memory and instance. -/
theorem keeps_append (comp : Compartment) : Keeps s (s ++ [comp]) :=
  ⟨by simp, fun r h => by rwa [memory_append_of_lt _ _ (compartment_lt_of_memory h)],
    fun r h => by rwa [moduleInstance_append_of_lt _ _ (compartment_lt_of_moduleInstance h)]⟩

theorem keeps_createContext (c : Nat) : Keeps s (s.createContext c).2 :=
  ⟨(length_createContext s c).ge, fun r h => by rwa [createContext_memory],
    fun r h => by rwa [createContext_moduleInstance]⟩

/-- Replacing compartment `c` by one whose list `f` extends its own keeps every entry of `f`. -/
theorem isSome_set_of_extends {α : Type} (f : Compartment → List α) (hcs : s[c]? = some comp)
    {extra : List α} (h : f comp' = f comp ++ extra) (c' i : Nat)
    (hr : (s[c']?.bind fun x => (f x)[i]?).isSome) :
    ((s.set c comp')[c']?.bind fun x => (f x)[i]?).isSome := by
  have hlt := (List.getElem?_eq_some_iff.mp hcs).1
  rw [List.getElem?_set]
  by_cases hc : c = c'
  · subst hc
    rw [hcs, Option.some_bind] at hr
    obtain ⟨a, ha⟩ := Option.isSome_iff_exists.mp hr
    rw [if_pos rfl, if_pos hlt, Option.some_bind, h,
      List.getElem?_append_left (List.getElem?_eq_some_iff.mp ha).1]
    exact hr
  · rwa [if_neg hc]

/-- Replacing compartment `c` by one whose memories and instances extend its own keeps every
memory and instance. -/
theorem keeps_set (hcs : s[c]? = some comp) {extra : List Memory} {extraI : List ModuleInstance}
    (h : comp'.memories = comp.memories ++ extra) (hi : comp'.instances = comp.instances ++ extraI) :
    Keeps s (s.set c comp') :=
  ⟨(List.length_set ..).ge, fun r => isSome_set_of_extends (·.memories) hcs h r.compartment r.index,
    fun r => isSome_set_of_extends (·.instances) hcs hi r.compartment r.index⟩

/-- The default memory of an instance `instantiateModule` made is live. -/
theorem instantiateModule_keeps {module : ModuleRef} {imports : List Object} {inst : Ref}
    (h : instantiateModule s c module imports = some (inst, s')) :
    Keeps s s' ∧ ∀ mem ∈ s'.defaultMemory inst, (s'.memory mem).isSome := by
  simp only [instantiateModule] at h
  split at h
  · obtain ⟨comp, hcs, h⟩ := Option.map_eq_some'.mp h
    simp only [Prod.mk.injEq] at h
    obtain ⟨rfl, rfl⟩ := h
    have hlt := (List.getElem?_eq_some_iff.mp hcs).1
    refine ⟨keeps_set hcs rfl rfl, fun mem hmem => ?_⟩
    simp only [defaultMemory, moduleInstance, List.getElem?_set_self hlt, Option.some_bind,
      List.getElem?_concat_length, Option.mem_def, Option.bind_eq_some, Option.map_eq_some',
      Option.some.injEq] at hmem
    obtain ⟨k, ⟨m, hm, rfl⟩, rfl⟩ := hmem
    simp [memory, List.getElem?_set_self hlt, hm]
  · cases h

theorem instantiateIntrinsic_keeps {mod : IntrinsicModule} {r : Ref}
    (h : instantiateIntrinsic s c mod = some (r, s')) : Keeps s s' := by
  obtain ⟨comp, hcs, h⟩ := Option.map_eq_some'.mp h
  simp only [Prod.mk.injEq] at h
  rw [← h.2]
  exact keeps_set hcs (List.append_nil _).symm rfl

end Store

namespace Wavm

variable {vm vm' : Wavm} {s : Store} {w w' : World}

/-- `link`'s loop over the registered modules keeps every memory. -/
theorem foldlM_instantiateIntrinsicStep_keeps {c : Nat} (mods : List (String × IntrinsicModule)) :
    ∀ {acc acc' : Store × List (String × Ref) × List (String × ModuleInstance)},
      mods.foldlM (instantiateIntrinsicStep c) acc = some acc' → Store.Keeps acc.1 acc'.1 := by
  induction mods with
  | nil => intro acc acc' h; cases h; exact Store.Keeps.refl _
  | cons m mods ih =>
    intro acc acc' h
    obtain ⟨acc₁, hstep, hrest⟩ := Option.bind_eq_some.mp h
    simp only [instantiateIntrinsicStep, Option.bind_eq_bind, Option.bind_eq_some] at hstep
    obtain ⟨⟨r, s₁⟩, hinst, inst, -, hstep⟩ := hstep
    cases hstep
    exact (Store.instantiateIntrinsic_keeps hinst).trans (ih hrest)

/-- `memory_base_` is the base address of `memory_`, and `memory_`, once set, is live. -/
structure BaseLive (vm : Wavm) (s : Store) : Prop where
  base_eq : vm.memoryBase = vm.memory.map getMemoryBaseAddress
  live : ∀ r ∈ vm.memory, (s.memory r).isSome

theorem BaseLive.keeps {s' : Store} (h : vm.BaseLive s) (hk : Store.Keeps s s') : vm.BaseLive s' :=
  ⟨h.base_eq, fun r hr => hk.memory r (h.live r hr)⟩

/-- `load` sets `compartment_` to a new compartment, the one after every other, with a context,
and keeps `memory_`, `memory_base_` and `module_instance_`. -/
theorem load_eq (vm : Wavm) (s : Store) (eng : Engine) (code : List UInt8) (allowPrecompiled : Bool) :
    (vm.load eng s code allowPrecompiled).2.1.compartment = some s.length ∧
      (vm.load eng s code allowPrecompiled).2.1.memory = vm.memory ∧
      (vm.load eng s code allowPrecompiled).2.1.memoryBase = vm.memoryBase ∧
      (vm.load eng s code allowPrecompiled).2.1.moduleInstance = vm.moduleInstance ∧
      (vm.load eng s code allowPrecompiled).2.2 =
        ((s ++ [(⟨[], [], 0, 0⟩ : Compartment)]).createContext s.length).2 := by
  simp only [load, Store.createCompartment]
  split <;> exact ⟨rfl, rfl, rfl, rfl, rfl⟩

theorem load_keeps (vm : Wavm) (s : Store) (eng : Engine) (code : List UInt8)
    (allowPrecompiled : Bool) : Store.Keeps s (vm.load eng s code allowPrecompiled).2.2 := by
  rw [(load_eq vm s eng code allowPrecompiled).2.2.2.2]
  exact (Store.keeps_append _).trans (Store.keeps_createContext _)

/-- `load` keeps the VM's invariant. -/
theorem load_baseLive {eng : Engine} {code : List UInt8} {allowPrecompiled : Bool}
    (h : vm.BaseLive s) :
    (vm.load eng s code allowPrecompiled).2.1.BaseLive (vm.load eng s code allowPrecompiled).2.2 := by
  obtain ⟨-, hmem, hbase, -⟩ := load_eq vm s eng code allowPrecompiled
  have h' := h.keeps (load_keeps vm s eng code allowPrecompiled)
  exact ⟨by rw [hmem, hbase]; exact h'.base_eq, fun r hr => h'.live r (hmem ▸ hr)⟩

/-- `link` keeps every memory, and leaves `memory_base_` the base address of a live `memory_`. -/
theorem link_baseLive {eng : Engine} (h : vm.link eng w = some (vm', w')) :
    Store.Keeps w.store w'.store ∧ vm'.BaseLive w'.store := by
  simp only [link, Option.bind_eq_bind, Option.bind_eq_some] at h
  obtain ⟨c, -, module, -, ⟨s₁, instances, named⟩, hintr, ⟨resolved, missing⟩, -, ⟨inst, s₂⟩, hinst,
    mem, hmem, h⟩ := h
  simp only [Option.pure_def, Option.some.injEq, Prod.mk.injEq] at h
  obtain ⟨rfl, rfl⟩ := h
  obtain ⟨hkeeps, hlive⟩ := Store.instantiateModule_keeps hinst
  exact ⟨(foldlM_instantiateIntrinsicStep_keeps _ hintr).trans hkeeps, rfl,
    fun r hr => by cases hr; exact hlive mem hmem⟩

/-- `clone` keeps every memory, and its VM's `memory_base_` is the base address of its live
`memory_`. -/
theorem clone_baseLive (h : vm.clone w = some (vm', w')) :
    Store.Keeps w.store w'.store ∧ vm'.BaseLive w'.store := by
  simp only [clone, Option.bind_eq_bind, Option.bind_eq_some] at h
  obtain ⟨c, -, ⟨c', s₁⟩, hclone, mem, -, mem', hmem', intrinsics, -, inst, -, inst', -, h⟩ := h
  obtain ⟨comp, hcs, hclone⟩ := Option.map_eq_some'.mp hclone
  simp only [Prod.mk.injEq] at hclone
  obtain ⟨rfl, rfl⟩ := hclone
  simp only [Option.pure_def, Option.some.injEq, Prod.mk.injEq] at h
  obtain ⟨rfl, rfl⟩ := h
  obtain ⟨m, hm, rfl⟩ := Option.map_eq_some'.mp hmem'
  refine ⟨(Store.keeps_append comp).trans (Store.keeps_createContext _), rfl, fun r hr => ?_⟩
  cases hr
  rw [Store.createContext_memory, hm]; rfl

theorem Refers.top (vm : Wavm) : vm.Refers fun _ => True :=
  ⟨fun _ _ => trivial, fun _ _ => trivial, fun _ _ => trivial⟩

/-- A host call keeps every memory. -/
theorem step_keeps {op : HostOp} {o : Observation} (h : vm.step w op = some (o, w')) :
    Store.Keeps w.store w'.store :=
  have hw := (step_within (Refers.top vm) h).1
  ⟨hw.length_eq.ge, hw.live, fun r h => by rwa [hw.moduleInstance_eq r]⟩

end Wavm

namespace Embedding

/-- A property each VM has over the store holds after every event, when a store that keeps every
memory and instance keeps it, a new VM has it, and `load`, `registerCallback`, `link` and
`clone` give VMs that have it. -/
theorem step_forall {P : Wavm → Store → Prop} {E E' : Embedding} {e : Event}
    (hkeeps : ∀ {vm s s'}, P vm s → Store.Keeps s s' → P vm s') (hnew : P {} E.world.store)
    (hload : ∀ {vm} eng code allowPrecompiled, P vm E.world.store →
      P (vm.load eng E.world.store code allowPrecompiled).2.1
        (vm.load eng E.world.store code allowPrecompiled).2.2)
    (hregister : ∀ {vm} moduleName functionName sig, P vm E.world.store →
      P (vm.registerCallback moduleName functionName sig) E.world.store)
    (hlink : ∀ {vm vm' w' eng}, P vm E.world.store → vm.link eng E.world = some (vm', w') →
      P vm' w'.store)
    (hclone : ∀ {vm vm' w'}, P vm E.world.store → vm.clone E.world = some (vm', w') →
      P vm' w'.store)
    (h : ∀ vm ∈ E.vms, P vm E.world.store) (hstep : E.step e = some E') :
    ∀ vm ∈ E'.vms, P vm E'.world.store := by
  have hset : ∀ {i v s'}, Store.Keeps E.world.store s' → P v s' → ∀ vm ∈ E.vms.set i v, P vm s' :=
    fun hk hv vm hvm => (List.mem_or_eq_of_mem_set hvm).elim (fun hvm => hkeeps (h vm hvm) hk)
      (· ▸ hv)
  have happend : ∀ {v s'}, Store.Keeps E.world.store s' → P v s' → ∀ vm ∈ E.vms ++ [v], P vm s' :=
    fun hk hv => List.forall_mem_append.mpr
      ⟨fun vm hvm => hkeeps (h vm hvm) hk, List.forall_mem_singleton.mpr hv⟩
  rcases step_cases hstep with ⟨-, rfl⟩ | ⟨i, vm, eng, code, ap, -, hvm, rfl⟩ |
    ⟨i, vm, mn, fn, sig, -, hvm, rfl⟩ | ⟨i, vm, eng, vm', w', -, hvm, hl, rfl⟩ |
    ⟨i, vm, vm', w', -, hvm, hc, rfl⟩ | ⟨i, vm, op, o, w', -, -, hop, rfl⟩
  · exact happend (Store.Keeps.refl _) hnew
  · exact hset (Wavm.load_keeps vm _ eng code ap) (hload eng code ap (h vm (List.getElem?_mem hvm)))
  · exact hset (Store.Keeps.refl _) (hregister mn fn sig (h vm (List.getElem?_mem hvm)))
  · exact hset (Wavm.link_baseLive hl).1 (hlink (h vm (List.getElem?_mem hvm)) hl)
  · exact happend (Wavm.clone_baseLive hc).1 (hclone (h vm (List.getElem?_mem hvm)) hc)
  · exact fun vm hvm => hkeeps (h vm hvm) (Wavm.step_keeps hop)

/-- Every event keeps every VM's cached base address that of its live `memory_`. -/
theorem step_baseLive {E E' : Embedding} {e : Event} (h : ∀ vm ∈ E.vms, vm.BaseLive E.world.store)
    (hstep : E.step e = some E') : ∀ vm ∈ E'.vms, vm.BaseLive E'.world.store :=
  step_forall (fun h hk => h.keeps hk) ⟨rfl, fun _ hr => by cases hr⟩
    (fun _ _ _ h => Wavm.load_baseLive h) (fun _ _ _ h => ⟨h.base_eq, h.live⟩)
    (fun _ hl => (Wavm.link_baseLive hl).2) (fun _ hc => (Wavm.clone_baseLive hc).2) h hstep

/-- Every VM of a reachable embedding caches the base address of its `memory_`, and that memory
is live. -/
theorem reachable_baseLive {E : Embedding} (h : E.Reachable) :
    ∀ vm ∈ E.vms, vm.BaseLive E.world.store :=
  Reachable.invariant (fun _ hvm => by cases hvm) step_baseLive h

end Embedding

/-! ## Every admitted access is at the current memory -/

/-- Every access the four accessors admit is at an offset of the memory `r`, holding `m`:
`getMemory`'s view starts at offset `pointer` of `r`, `getWord` reads the four bytes there, and
`setMemory` and `setWord` copy into `r` and nowhere else. -/
structure Wavm.AccessesMemory (vm : Wavm) (s : Store) (r : Ref) (m : Memory) : Prop where
  getMemory : ∀ p n v, vm.getMemory s p n = some (some v) → v.addr = ⟨r, p.toNat⟩
  setMemory : ∀ p n data s', vm.setMemory s p n data = some (true, s') →
    s' = s.setMemory r (m.store p.toNat n.toNat data)
  getWord : ∀ p d d', vm.getWord s p d = some (true, d') →
    ∃ b, m.read p.toNat 4 = some b ∧ d' = ⟨(decodeU32 b).toUInt64⟩
  setWord : ∀ p d s', vm.setWord s p d = some (true, s') →
    s' = s.setMemory r (m.store p.toNat 4 (encodeU32 d.u32))

namespace Wavm

variable {vm : Wavm} {s : Store} {r : Ref} {m : Memory}

theorem MemoryAt.setMemory_true (h : vm.MemoryAt s r m) {p n : UInt64} {data : Nat → UInt8}
    {s' : Store} (hs : vm.setMemory s p n data = some (true, s')) :
    s' = s.setMemory r (m.store p.toNat n.toNat data) := by
  rw [h.setMemory] at hs
  split at hs
  · split at hs
    · simp only [Option.some.injEq, Prod.mk.injEq, true_and] at hs; exact hs.symm
    · cases hs
  · simp at hs

theorem MemoryAt.accessesMemory (h : vm.MemoryAt s r m) : vm.AccessesMemory s r m := by
  refine ⟨fun p n v hv => ?_, fun _ _ _ _ hs => h.setMemory_true hs, fun p d d' hw => ?_,
    fun p d s' hs => h.setMemory_true hs⟩
  · rw [h.getMemory] at hv
    split at hv
    · simp only [Option.some.injEq] at hv; rw [← hv]
    · simp at hv
  · rw [h.getWord] at hw
    split at hw
    · obtain ⟨b, hb, hd⟩ := Option.map_eq_some'.mp hw
      simp only [Prod.mk.injEq, true_and] at hd
      exact ⟨b, hb, hd.symm⟩
    · simp at hw

end Wavm

/-- In every reachable state of an embedding, after any interleaving of loads, links, clones
and host calls on any of its VMs, including guest runs that grow memories, every VM's cached
`memory_base_` is `getMemoryBaseAddress(memory_)`, and `memory_`, once set, is a live memory:
each access the four accessors admit is at an offset of that memory, as it is now. -/
theorem reachable_memory_base {E : Embedding} (h : E.Reachable) : ∀ vm ∈ E.vms,
    vm.memoryBase = vm.memory.map getMemoryBaseAddress ∧
      ∀ r ∈ vm.memory, ∃ m, vm.MemoryAt E.world.store r m ∧ vm.AccessesMemory E.world.store r m := by
  intro vm hvm
  have hb := Embedding.reachable_baseLive h vm hvm
  refine ⟨hb.base_eq, fun r hr => ?_⟩
  obtain ⟨m, hm⟩ := Option.isSome_iff_exists.mp (hb.live r hr)
  have hat : vm.MemoryAt E.world.store r m :=
    ⟨Option.mem_def.mp hr, hm, by rw [hb.base_eq, Option.mem_def.mp hr]; rfl⟩
  exact ⟨m, hat, hat.accessesMemory⟩

/-- An embedding that created a VM, loaded `onePageModule` into it and linked it. -/
def onePageEmbedding : Embedding := ⟨[linkedOnePage.1], linkedOnePage.2⟩

theorem onePageEmbedding_reachable : onePageEmbedding.Reachable :=
  .step (.link 0 onePageEngine)
    (.step (.load 0 onePageEngine [] false) (.step .createVm .initial rfl) rfl) rfl

theorem reachable_memory_base_onePage :
    onePageEmbedding.Reachable ∧ linkedOnePage.1.memory = some ⟨0, 0⟩ ∧
      ∀ vm ∈ onePageEmbedding.vms, vm.memoryBase = vm.memory.map getMemoryBaseAddress ∧
        ∀ r ∈ vm.memory, ∃ m, vm.MemoryAt onePageEmbedding.world.store r m ∧
          vm.AccessesMemory onePageEmbedding.world.store r m :=
  ⟨onePageEmbedding_reachable, rfl, reachable_memory_base onePageEmbedding_reachable⟩

/-! ## Between host calls -/

/-- Between host calls the thread has no effective context and no caught exception alive. -/
structure World.Quiescent (w : World) : Prop where
  context : w.context = none
  liveExceptions : w.liveExceptions = 0

namespace Wavm

variable {vm vm' : Wavm} {w w' : World}

/-- `link` changes the store and the reports only. -/
theorem link_restores {eng : Engine} (h : vm.link eng w = some (vm', w')) :
    w'.context = w.context ∧ w'.liveExceptions = w.liveExceptions := by
  simp only [link, Option.bind_eq_bind, Option.bind_eq_some] at h
  obtain ⟨_, -, _, -, _, -, _, -, _, -, _, -, h⟩ := h
  simp only [Option.pure_def, Option.some.injEq, Prod.mk.injEq] at h
  obtain ⟨-, rfl⟩ := h
  exact ⟨rfl, rfl⟩

/-- `clone` changes the store only. -/
theorem clone_restores (h : vm.clone w = some (vm', w')) :
    w'.context = w.context ∧ w'.liveExceptions = w.liveExceptions := by
  simp only [clone, Option.bind_eq_bind, Option.bind_eq_some] at h
  obtain ⟨_, -, _, -, _, -, _, -, _, -, _, -, _, -, h⟩ := h
  simp only [Option.pure_def, Option.some.injEq, Prod.mk.injEq] at h
  obtain ⟨-, rfl⟩ := h
  exact ⟨rfl, rfl⟩

/-- A host call leaves the effective context and the live exceptions as they were. -/
theorem step_restores {op : HostOp} {o : Observation} (h : vm.step w op = some (o, w')) :
    w'.context = w.context ∧ w'.liveExceptions = w.liveExceptions :=
  (step_within (Refers.top vm) h).2

end Wavm

namespace Embedding

/-- Every event keeps the world between host calls. -/
theorem step_quiescent {E E' : Embedding} {e : Event} (h : E.world.Quiescent)
    (hstep : E.step e = some E') : E'.world.Quiescent := by
  have keep : ∀ {w : World}, w.context = E.world.context ∧
      w.liveExceptions = E.world.liveExceptions → w.Quiescent :=
    fun hw => ⟨hw.1.trans h.context, hw.2.trans h.liveExceptions⟩
  rcases step_cases hstep with ⟨-, rfl⟩ | ⟨_, _, _, _, _, -, -, rfl⟩ | ⟨_, _, _, _, _, -, -, rfl⟩ |
    ⟨_, _, _, _, _, -, -, hl, rfl⟩ | ⟨_, _, _, _, -, -, hc, rfl⟩ | ⟨_, _, _, _, _, -, -, hop, rfl⟩
  · exact h
  · exact keep ⟨rfl, rfl⟩
  · exact h
  · exact keep (Wavm.link_restores hl)
  · exact keep (Wavm.clone_restores hc)
  · exact keep (Wavm.step_restores hop)

end Embedding

/-- In every reachable state of an embedding no effective context is left set and no caught
exception is left alive: every invocation restores the context it found and destroys the
exception it caught, and no other event touches either. -/
theorem reachable_quiescent {E : Embedding} (h : E.Reachable) : E.world.Quiescent :=
  Embedding.Reachable.invariant ⟨rfl, rfl⟩ Embedding.step_quiescent h

theorem reachable_quiescent_onePage :
    onePageEmbedding.Reachable ∧ onePageEmbedding.world.Quiescent :=
  ⟨onePageEmbedding_reachable, reachable_quiescent onePageEmbedding_reachable⟩

end WavmHost
