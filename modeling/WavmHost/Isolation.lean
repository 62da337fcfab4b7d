import WavmHost.Host

/-!
# Isolation of VMs in different compartments

A linked VM refers only to objects of its own compartment: its memory, the base address it
caches and its module instance. Every host call on it, and every guest run under it to any
depth of re-entry, reads only that compartment and the effective context, and changes only
that compartment, dropping no memory. These two facts about one call give, by induction on
the run, that what a VM shows in any interleaving of host calls on it and on VMs of other
compartments is what it shows when the calls on it are made alone. `clone` makes such a
pair: the clone's memory is a copy of the original's, in a new compartment.
-/

namespace WavmHost

/-! ## Agreement on a compartment -/

/-- Two worlds agree on compartment `c`: the same objects there, and the same effective
context. -/
def World.Agree (c : Nat) (w₁ w₂ : World) : Prop :=
  w₁.store[c]? = w₂.store[c]? ∧ w₁.context = w₂.context

theorem World.Agree.trans {c : Nat} {w₁ w₂ w₃ : World} (h₁ : w₁.Agree c w₂)
    (h₂ : w₂.Agree c w₃) : w₁.Agree c w₃ :=
  ⟨h₁.1.trans h₂.1, h₁.2.trans h₂.2⟩

/-- Two outcomes agree on compartment `c`: both undefined, or the same result in worlds that
agree on `c`. -/
def OutcomeAgree {β : Type} (c : Nat) : Option (β × World) → Option (β × World) → Prop :=
  Option.Rel fun x₁ x₂ => x₁.1 = x₂.1 ∧ x₁.2.Agree c x₂.2

theorem OutcomeAgree.cases {β : Type} {c : Nat} {o₁ o₂ : Option (β × World)}
    (h : OutcomeAgree c o₁ o₂) : (o₁ = none ∧ o₂ = none) ∨
      ∃ b w₁ w₂, o₁ = some (b, w₁) ∧ o₂ = some (b, w₂) ∧ w₁.Agree c w₂ := by
  cases h with
  | none => exact .inl ⟨rfl, rfl⟩
  | @some a b h => exact .inr ⟨a.1, a.2, b.2, rfl, by rw [h.1], h.2⟩

/-- Two guest runs end alike as far as compartment `c` shows. -/
inductive GuestEnd.Agree (c : Nat) : GuestEnd → GuestEnd → Prop
  | returned {v : UInt64} {w₁ w₂ : World} : w₁.Agree c w₂ → Agree c (.returned v w₁) (.returned v w₂)
  | trapped {d : String} {w₁ w₂ : World} : w₁.Agree c w₂ → Agree c (.trapped d w₁) (.trapped d w₂)
  | undefined : Agree c .undefined .undefined

/-- Two calls end alike as far as compartment `c` shows. -/
inductive CallEnd.Agree (c : Nat) : CallEnd → CallEnd → Prop
  | returned {v : Option UInt32} {w₁ w₂ : World} : w₁.Agree c w₂ →
      Agree c (.returned v w₁) (.returned v w₂)
  | undefined : Agree c .undefined .undefined

namespace Store

variable {s s' s₁ s₂ s₃ : Store} {c : Nat} {r : Ref}

theorem memory_congr (hr : r.compartment = c) (h : s₁[c]? = s₂[c]?) : s₁.memory r = s₂.memory r := by
  simp only [memory, hr, h]

theorem defaultMemory_congr (hr : r.compartment = c) (h : s₁[c]? = s₂[c]?) :
    s₁.defaultMemory r = s₂.defaultMemory r := by
  simp only [defaultMemory, moduleInstance, hr, h]

theorem moduleInstance_congr (hr : r.compartment = c) (h : s₁[c]? = s₂[c]?) :
    s₁.moduleInstance r = s₂.moduleInstance r := by
  simp only [moduleInstance, hr, h]

theorem setMemory_congr (h : s₁[c]? = s₂[c]?) (r : Ref) (m : Memory) :
    (s₁.setMemory r m)[c]? = (s₂.setMemory r m)[c]? := by
  simp only [setMemory_getElem?, h]

/-- Copies into stores that agree on the compartment copied into both fail, or both succeed
and agree there after. -/
theorem writeAt_agree {a : Addr} (ha : a.memory.compartment = c) (h : s₁[c]? = s₂[c]?) (n : Nat)
    (data : Nat → UInt8) :
    Option.Rel (fun s₁' s₂' : Store => s₁'[c]? = s₂'[c]?) (s₁.writeAt a n data)
      (s₂.writeAt a n data) := by
  rw [writeAt, writeAt, memory_congr ha h]
  cases s₂.memory a.memory with
  | none => exact .none
  | some m =>
    simp only [Option.some_bind]
    cases m.write a.offset n data with
    | none => exact .none
    | some m' => exact .some (setMemory_congr h _ _)

/-- What operations on objects of the compartments `C` can do to the store: change those
compartments only, keep every memory, and add no compartment. -/
structure Within (C : Nat → Prop) (s s' : Store) : Prop where
  frame : ∀ c, ¬C c → s'[c]? = s[c]?
  live : ∀ r, (s.memory r).isSome → (s'.memory r).isSome
  length_eq : s'.length = s.length
  moduleInstance_eq : ∀ r, s'.moduleInstance r = s.moduleInstance r

variable {C : Nat → Prop}

theorem Within.refl (C : Nat → Prop) (s : Store) : Within C s s :=
  ⟨fun _ _ => rfl, fun _ h => h, rfl, fun _ => rfl⟩

theorem Within.trans (h₁ : Within C s₁ s₂) (h₂ : Within C s₂ s₃) : Within C s₁ s₃ :=
  ⟨fun c hc => (h₂.frame c hc).trans (h₁.frame c hc), fun r h => h₂.live r (h₁.live r h),
    h₂.length_eq.trans h₁.length_eq, fun r => (h₂.moduleInstance_eq r).trans (h₁.moduleInstance_eq r)⟩

theorem setMemory_within (hr : C r.compartment) (m : Memory) : Within C s (s.setMemory r m) := by
  refine ⟨fun c hc => setMemory_getElem?_ne s m fun h => hc (h ▸ hr), fun r' h => ?_,
    length_setMemory s r m, fun r' => moduleInstance_setMemory s r r' m⟩
  by_cases hr' : r' = r
  · subst hr'; simp [memory_setMemory_self s r' m h]
  · rwa [memory_setMemory_ne s m hr']

theorem writeAt_within {a : Addr} {n : Nat} {data : Nat → UInt8} (ha : C a.memory.compartment)
    (h : s.writeAt a n data = some s') : Within C s s' := by
  obtain ⟨m, -, -, rfl⟩ := writeAt_eq_some h
  exact setMemory_within ha _

end Store

/-! ## A VM reads and changes its own compartment only -/

/-- Every object the VM refers to lies in one of the compartments `C`. -/
structure Wavm.Refers (vm : Wavm) (C : Nat → Prop) : Prop where
  memory : ∀ r ∈ vm.memory, C r.compartment
  memoryBase : ∀ a ∈ vm.memoryBase, C a.memory.compartment
  moduleInstance : ∀ r ∈ vm.moduleInstance, C r.compartment

namespace Wavm

variable {vm : Wavm} {c : Nat} {s₁ s₂ : Store} {w w₁ w₂ : World}

theorem memoryNumBytes_congr (hv : vm.Refers (· = c)) (h : s₁[c]? = s₂[c]?) :
    vm.memoryNumBytes s₁ = vm.memoryNumBytes s₂ := by
  cases hr : vm.memory with
  | none => simp [memoryNumBytes, memoryNumPages, hr]
  | some r => simp [memoryNumBytes, memoryNumPages, hr, Store.memory_congr (hv.memory r hr) h]

theorem getMemory_congr (hv : vm.Refers (· = c)) (h : s₁[c]? = s₂[c]?) (p n : UInt64) :
    vm.getMemory s₁ p n = vm.getMemory s₂ p n := by
  simp only [getMemory, memoryNumBytes_congr hv h]

/-- A view `getMemory` returns is at `memory_base_ + pointer`. -/
theorem getMemory_addr {s : Store} {p n : UInt64} {v : View} (h : vm.getMemory s p n = some (some v)) :
    ∃ base ∈ vm.memoryBase, v.addr = base.add p.toNat := by
  simp only [getMemory, Option.bind_eq_bind, Option.bind_eq_some] at h
  obtain ⟨N, -, h⟩ := h
  split at h
  · simp at h
  · simp only [Option.bind_eq_some, Option.pure_def, Option.some.injEq] at h
    obtain ⟨base, hb, rfl⟩ := h
    exact ⟨base, hb, rfl⟩

theorem getWord_congr (hv : vm.Refers (· = c)) (h : s₁[c]? = s₂[c]?) (p : UInt64) (d : Word) :
    vm.getWord s₁ p d = vm.getWord s₂ p d := by
  unfold getWord
  rw [memoryNumBytes_congr hv h]
  cases hb : vm.memoryBase with
  | none => rfl
  | some base =>
    simp only [Option.bind_eq_bind, Option.some_bind, Store.readAt, Addr.add,
      Store.memory_congr (hv.memoryBase base hb) h]

theorem setMemory_agree (hv : vm.Refers (· = c)) (h : s₁[c]? = s₂[c]?) (p n : UInt64)
    (data : Nat → UInt8) :
    Option.Rel (fun x₁ x₂ : Bool × Store => x₁.1 = x₂.1 ∧ x₁.2[c]? = x₂.2[c]?)
      (vm.setMemory s₁ p n data) (vm.setMemory s₂ p n data) := by
  unfold setMemory
  rw [memoryNumBytes_congr hv h]
  cases vm.memoryNumBytes s₂ with
  | none => exact .none
  | some N =>
    simp only [Option.bind_eq_bind, Option.some_bind]
    split
    · exact .some ⟨rfl, h⟩
    · cases hb : vm.memoryBase with
      | none => exact .none
      | some base =>
        simp only [Option.some_bind]
        match s₁.writeAt (base.add p.toNat) n.toNat data, s₂.writeAt (base.add p.toNat) n.toNat data,
          Store.writeAt_agree (a := base.add p.toNat) (hv.memoryBase base hb) h n.toNat data with
        | _, _, .none => exact .none
        | _, _, .some hs => exact .some ⟨rfl, hs⟩

/-- A host access from worlds that agree on the VM's compartment shows the same and leaves
them agreeing. -/
theorem access_agree (hv : vm.Refers (· = c)) (h : w₁.Agree c w₂) (a : Access) :
    OutcomeAgree c (vm.access w₁ a) (vm.access w₂ a) := by
  cases a with
  | getMemorySize =>
    simp only [Wavm.access, getMemorySize, memoryNumBytes_congr hv h.1]
    cases vm.memoryNumBytes w₂.store with
    | none => exact .none
    | some N => exact .some ⟨rfl, h⟩
  | getMemory p n =>
    simp only [Wavm.access, getMemory_congr hv h.1]
    cases hg : vm.getMemory w₂.store p n with
    | none => exact .none
    | some v? =>
      cases v? with
      | none => exact .some ⟨rfl, h⟩
      | some v =>
        obtain ⟨base, hb, hv'⟩ := getMemory_addr hg
        have hc : v.addr.memory.compartment = c := by rw [hv']; exact hv.memoryBase base hb
        simp only [Option.some_bind, Store.readView, Store.readAt, Store.memory_congr hc h.1]
        cases (w₂.store.memory v.addr.memory).bind (·.read v.addr.offset v.size) with
        | none => exact .none
        | some b => exact .some ⟨rfl, h⟩
  | setMemory p n data =>
    simp only [Wavm.access]
    match vm.setMemory w₁.store p n data, vm.setMemory w₂.store p n data,
      setMemory_agree hv h.1 p n data with
    | _, _, .none => exact .none
    | _, _, .some hs => exact .some ⟨congrArg Observation.written hs.1, hs.2, h.2⟩
  | getWord p d =>
    simp only [Wavm.access, getWord_congr hv h.1]
    cases vm.getWord w₂.store p d with
    | none => exact .none
    | some x => exact .some ⟨rfl, h⟩
  | setWord p d =>
    simp only [Wavm.access, setWord]
    match vm.setMemory w₁.store p 4 (encodeU32 d.u32), vm.setMemory w₂.store p 4 (encodeU32 d.u32),
      setMemory_agree hv h.1 p 4 (encodeU32 d.u32) with
    | _, _, .none => exact .none
    | _, _, .some hs => exact .some ⟨congrArg Observation.written hs.1, hs.2, h.2⟩

/-- `getFunction` from worlds that agree on the VM's compartment gives the same callable and
leaves them agreeing. -/
theorem getFunction_agree (hv : vm.Refers (· = c)) (h : w₁.Agree c w₂) (name : String)
    (sig : Signature) : OutcomeAgree c (vm.getFunction w₁ name sig) (vm.getFunction w₂ name sig) := by
  cases hr : vm.moduleInstance with
  | none => simp only [getFunction, getFunctionWavmReturn, hr]; exact .none
  | some r =>
    have hrc := hv.moduleInstance r hr
    cases hi : w₂.store.moduleInstance r with
    | none =>
      have hi₁ : w₁.store.moduleInstance r = none := by rw [Store.moduleInstance_congr hrc h.1, hi]
      simp only [getFunction, getFunctionWavmReturn, hr, hi, hi₁, Option.bind_eq_bind,
        Option.some_bind, Option.none_bind]
      exact .none
    | some inst =>
      have hi₁ := (Store.moduleInstance_congr hrc h.1).trans hi
      rw [getFunction, getFunction, getFunctionWavmReturn_eq hr hi₁, getFunctionWavmReturn_eq hr hi,
        Store.defaultMemory_congr hrc h.1]
      refine .some ?_
      split
      · exact ⟨rfl, h⟩
      · exact ⟨rfl, by split <;> exact h⟩

theorem getFunction_store {cl : Option Callable} {w' : World} {name : String} {sig : Signature}
    (h : vm.getFunction w name sig = some (cl, w')) :
    w'.store = w.store ∧ w'.context = w.context ∧ w'.liveExceptions = w.liveExceptions := by
  rcases getFunction_world h with rfl | rfl <;> exact ⟨rfl, rfl, rfl⟩

/-- The memory a callable runs against is the default memory of the VM's instance. -/
theorem getFunction_memory {C : Nat → Prop} (hv : ∀ r ∈ vm.moduleInstance, C r.compartment)
    {cl : Callable} {w' : World} {name : String} {sig : Signature}
    (h : vm.getFunction w name sig = some (some cl, w')) : ∀ r ∈ cl.memory, C r.compartment := by
  cases hr : vm.moduleInstance with
  | none => simp [getFunction, getFunctionWavmReturn, hr] at h
  | some i =>
    cases hi : w.store.moduleInstance i with
    | none => simp [getFunction, getFunctionWavmReturn, hr, hi] at h
    | some inst =>
      rw [getFunction, getFunctionWavmReturn_eq hr hi, Option.some_inj] at h
      split at h
      · cases h
      · intro r hm
        simp only [Prod.mk.injEq, Option.some.injEq] at h
        rw [← h.1] at hm
        simp only [Store.defaultMemory, Option.mem_def, Option.bind_eq_some, Option.map_eq_some'] at hm
        obtain ⟨_, -, _, -, rfl⟩ := hm
        exact hv i hr

end Wavm

namespace Callable

variable {cl : Callable} {ctx : Ctx} {args : List UInt32} {exec : World → GuestEnd} {c : Nat}

theorem call_agree (hexec : ∀ w₁ w₂ : World, w₁.Agree c w₂ → (exec w₁).Agree c (exec w₂))
    {w₁ w₂ : World} (h : w₁.Agree c w₂) :
    (cl.call ctx args exec w₁).Agree c (cl.call ctx args exec w₂) := by
  unfold call
  split
  · exact .undefined
  · match exec { w₁ with context := some ctx }, exec { w₂ with context := some ctx },
      hexec { w₁ with context := some ctx } { w₂ with context := some ctx } ⟨h.1, rfl⟩ with
    | _, _, .returned hw =>
      dsimp only
      split
      · exact .returned ⟨hw.1, h.2⟩
      · exact .undefined
    | _, _, .trapped hw =>
      cases cl.sig.result
      · exact .undefined
      · exact .returned ⟨hw.1, h.2⟩
    | _, _, .undefined => exact .undefined

end Callable

/-- A guest run ends in a store that its operations on the compartments `C` reach. -/
def GuestEnd.Within (C : Nat → Prop) (s : Store) : GuestEnd → Prop
  | .returned _ w | .trapped _ w => Store.Within C s w.store
  | .undefined => True

/-- A call ends in a store that its operations on the compartments `C` reach. -/
def CallEnd.Within (C : Nat → Prop) (s : Store) : CallEnd → Prop
  | .returned _ w => Store.Within C s w.store
  | .undefined => True

theorem GuestEnd.Within.of_within {C : Nat → Prop} {s s' : Store} {e : GuestEnd}
    (h : Store.Within C s s') (he : e.Within C s') : e.Within C s := by
  cases e with
  | returned _ w | trapped _ w => exact h.trans he
  | undefined => trivial

theorem Callable.call_within {C : Nat → Prop} {cl : Callable} {ctx : Ctx} {args : List UInt32}
    {exec : World → GuestEnd} {w : World}
    (h : (exec { w with context := some ctx }).Within C w.store) :
    (cl.call ctx args exec w).Within C w.store := by
  unfold Callable.call
  split
  · trivial
  · revert h
    cases exec { w with context := some ctx } with
    | returned v w' =>
      intro h
      dsimp only
      split
      exacts [h, trivial]
    | trapped d w' =>
      cases cl.sig.result
      · exact fun _ => trivial
      · exact id
    | undefined => exact fun _ => trivial

namespace Wavm

variable {vm : Wavm} {c : Nat} {w w₁ w₂ : World}

/-- A guest run, to any depth of re-entry, changes only the compartments its memory and the
VM's instance lie in, and drops no memory. -/
theorem runGuest_within {C : Nat → Prop} (hv : ∀ r ∈ vm.moduleInstance, C r.compartment)
    (g : Guest) (mem : Option Ref) (hmem : ∀ r ∈ mem, C r.compartment) (w : World) :
    (vm.runGuest mem g w).Within C w.store := by
  induction g generalizing mem w with
  | ret v => exact Store.Within.refl C _
  | trap d => exact Store.Within.refl C _
  | load off k ih =>
    simp only [runGuest]
    split
    · exact ih _ mem hmem w
    · exact Store.Within.refl C _
  | store off b k ih =>
    simp only [runGuest]
    split
    · next s hs =>
      obtain ⟨r, hr, hw⟩ := Option.bind_eq_some.mp hs
      exact GuestEnd.Within.of_within (Store.writeAt_within (a := ⟨r, off⟩) (hmem r hr) hw)
        (ih mem hmem _)
    · exact Store.Within.refl C _
  | grow delta k ih =>
    simp only [runGuest]
    split
    · next r m hx =>
      obtain ⟨r', hr', hx⟩ := Option.bind_eq_some.mp hx
      obtain ⟨_, -, hr⟩ := Option.map_eq_some'.mp hx
      have hc : C r.compartment := (Prod.mk.inj hr).1 ▸ hmem r' hr'
      exact GuestEnd.Within.of_within (Store.setMemory_within hc m) (ih _ mem hmem _)
    · exact ih _ mem hmem w
  | callback k ih => exact ih _ mem hmem w
  | reenter name sig ctx args run k ihrun ihk =>
    simp only [runGuest]
    split
    · trivial
    · next w' hget =>
      rw [← (getFunction_store hget).1]
      exact ihk mem hmem w'
    · next cl w' hget =>
      have hcall := @Callable.call_within _ cl ctx args _ w'
        (ihrun cl.memory (getFunction_memory hv hget) _)
      split
      · next w'' hret =>
        rw [hret] at hcall
        rw [← (getFunction_store hget).1]
        exact GuestEnd.Within.of_within hcall (ihk mem hmem w'')
      · trivial

/-- A guest run under a VM of compartment `c`, from worlds that agree on `c`, ends alike. -/
theorem runGuest_agree (hv : vm.Refers (· = c)) (g : Guest) (mem : Option Ref)
    (hmem : ∀ r ∈ mem, r.compartment = c) (w₁ w₂ : World) (h : w₁.Agree c w₂) :
    (vm.runGuest mem g w₁).Agree c (vm.runGuest mem g w₂) := by
  induction g generalizing mem w₁ w₂ with
  | ret v => exact .returned h
  | trap d => exact .trapped h
  | load off k ih =>
    cases mem with
    | none => exact .trapped h
    | some r =>
      simp only [runGuest, Option.some_bind, Store.readAt, Store.memory_congr (hmem r rfl) h.1]
      split
      · exact ih _ _ hmem w₁ w₂ h
      · exact .trapped h
  | store off b k ih =>
    cases mem with
    | none => exact .trapped h
    | some r =>
      simp only [runGuest, Option.some_bind]
      match w₁.store.writeAt ⟨r, off⟩ 1 (fun _ => b), w₂.store.writeAt ⟨r, off⟩ 1 (fun _ => b),
        Store.writeAt_agree (a := ⟨r, off⟩) (hmem r rfl) h.1 1 (fun _ => b) with
      | _, _, .none => exact .trapped h
      | _, _, .some hs => exact ih (some r) hmem _ _ ⟨hs, h.2⟩
  | grow delta k ih =>
    cases mem with
    | none => exact ih _ none hmem w₁ w₂ h
    | some r =>
      simp only [runGuest, Option.some_bind, Store.memory_congr (hmem r rfl) h.1]
      split
      · exact ih _ _ hmem _ _ ⟨Store.setMemory_congr h.1 _ _, h.2⟩
      · exact ih _ _ hmem w₁ w₂ h
  | callback k ih =>
    simp only [runGuest]
    rw [h.2]
    exact ih _ mem hmem w₁ w₂ h
  | reenter name sig ctx args run k ihrun ihk =>
    simp only [runGuest]
    rcases (getFunction_agree hv h name sig).cases with ⟨h₁, h₂⟩ | ⟨cl?, w₁', w₂', h₁, h₂, hw⟩
    · rw [h₁, h₂]; exact .undefined
    · rw [h₁, h₂]
      cases cl? with
      | none => exact ihk mem hmem w₁' w₂' hw
      | some cl =>
        dsimp only
        have hcl := getFunction_memory (C := (· = c)) hv.moduleInstance h₁
        match cl.call ctx args (vm.runGuest cl.memory run) w₁',
          cl.call ctx args (vm.runGuest cl.memory run) w₂',
          Callable.call_agree (fun w₁ w₂ hw => ihrun cl.memory hcl w₁ w₂ hw) hw with
        | _, _, .returned hw' => exact ihk mem hmem _ _ hw'
        | _, _, .undefined => exact .undefined

theorem invoke_agree (hv : vm.Refers (· = c)) {cl : Callable} (hcl : ∀ r ∈ cl.memory, r.compartment = c)
    (ctx : Ctx) (args : List UInt32) (g : Guest) (h : w₁.Agree c w₂) :
    (vm.invoke cl ctx args g w₁).Agree c (vm.invoke cl ctx args g w₂) :=
  Callable.call_agree (fun w₁ w₂ hw => runGuest_agree hv g cl.memory hcl w₁ w₂ hw) h

/-- Step consistency: a host call on a VM of compartment `c`, from worlds that agree on `c`,
shows the same and leaves them agreeing. -/
theorem step_agree (hv : vm.Refers (· = c)) (h : w₁.Agree c w₂) (op : HostOp) :
    OutcomeAgree c (vm.step w₁ op) (vm.step w₂ op) := by
  cases op with
  | access a => exact access_agree hv h a
  | call name sig ctx args g =>
    simp only [step]
    rcases (getFunction_agree hv h name sig).cases with ⟨h₁, h₂⟩ | ⟨cl?, w₁', w₂', h₁, h₂, hw⟩
    · rw [h₁, h₂]; exact .none
    · rw [h₁, h₂]
      cases cl? with
      | none => exact .some ⟨rfl, hw⟩
      | some cl =>
        simp only [Option.some_bind]
        match vm.invoke cl ctx args g w₁', vm.invoke cl ctx args g w₂',
          invoke_agree hv (getFunction_memory (C := (· = c)) hv.moduleInstance h₁) ctx args g hw with
        | _, _, .returned hw' => exact .some ⟨rfl, hw'⟩
        | _, _, .undefined => exact .none

theorem setMemory_within {C : Nat → Prop} (hv : vm.Refers C) {s s' : Store} {p n : UInt64}
    {data : Nat → UInt8} {ok : Bool} (h : vm.setMemory s p n data = some (ok, s')) :
    Store.Within C s s' := by
  simp only [setMemory, Option.bind_eq_bind, Option.bind_eq_some] at h
  obtain ⟨N, -, h⟩ := h
  split at h
  · simp only [Option.pure_def, Option.some.injEq, Prod.mk.injEq] at h
    rw [← h.2]; exact Store.Within.refl C s
  · simp only [Option.bind_eq_some, Option.pure_def, Option.some.injEq, Prod.mk.injEq] at h
    obtain ⟨base, hb, s'', hw, -, rfl⟩ := h
    exact Store.writeAt_within (a := base.add p.toNat) (hv.memoryBase base hb) hw

/-- Local respect: a host call on a VM whose objects lie in the compartments `C` changes only
those compartments, drops no memory, and leaves the effective context and the live exceptions as
they were. -/
theorem step_within {C : Nat → Prop} (hv : vm.Refers C) {op : HostOp} {o : Observation} {w' : World}
    (h : vm.step w op = some (o, w')) : Store.Within C w.store w'.store ∧ w'.context = w.context ∧
      w'.liveExceptions = w.liveExceptions := by
  cases op with
  | access a =>
    rcases access_world h with rfl | ⟨p, n, data, ok, s, hs, rfl⟩
    · exact ⟨Store.Within.refl C _, rfl, rfl⟩
    · exact ⟨setMemory_within hv hs, rfl, rfl⟩
  | call name sig ctx args g =>
    simp only [step, Option.bind_eq_some] at h
    obtain ⟨⟨cl?, w₁⟩, hget, h⟩ := h
    obtain ⟨hs₁, hc₁, hl₁⟩ := getFunction_store hget
    cases cl? with
    | none => cases h; exact ⟨hs₁ ▸ Store.Within.refl C _, hc₁, hl₁⟩
    | some cl =>
      have hwithin := @Callable.call_within _ cl ctx args _ w₁
        (runGuest_within hv.moduleInstance g cl.memory (getFunction_memory hv.moduleInstance hget) _)
      have hrestore := @Callable.call_restores cl ctx args _ w₁ (runGuest_restores vm g cl.memory _)
      dsimp only at h
      split at h
      · next r w'' hret =>
        cases h
        rw [invoke] at hret
        rw [hret] at hrestore hwithin
        exact ⟨hs₁ ▸ hwithin, hrestore.1.trans hc₁, hrestore.2.trans hl₁⟩
      · cases h

end Wavm

/-! ## Runs -/

section Runs

variable {σ α β : Type} {step : σ → α → Option (β × σ)}

@[simp] theorem runSteps_nil (s : σ) : runSteps step [] s = ([], some s) := rfl

theorem runSteps_cons_none {a : α} {as : List α} {s : σ} (h : step s a = none) :
    runSteps step (a :: as) s = ([], none) := by
  simp only [runSteps, h]

theorem runSteps_cons_some {a : α} {as : List α} {s s' : σ} {b : β} (h : step s a = some (b, s')) :
    runSteps step (a :: as) s = (b :: (runSteps step as s').1, (runSteps step as s').2) := by
  simp only [runSteps, h]

end Runs

variable {ι : Type} [DecidableEq ι]

@[simp] theorem observationsOf_cons (i j : ι) (o : Observation) (t : List (ι × Observation)) :
    observationsOf i ((j, o) :: t) = if j = i then o :: observationsOf i t else observationsOf i t := by
  by_cases h : j = i <;> simp [observationsOf, h]

/-- Noninterference. Take VMs whose objects each lie in one compartment, VM `i` alone in its
own. In every interleaving of host calls on them, what `i` shows is what it shows when only the
calls on it are made, from a world that agrees on its compartment: up to the first undefined
behaviour, and all of it when there is none. -/
theorem run_isolated {vms : ι → Wavm} {comp : ι → Nat} {i : ι}
    (hown : ∀ j, (vms j).Refers (· = comp j)) (hsep : ∀ j, comp j = comp i → j = i)
    (ops : List (ι × HostOp)) (w₁ w₂ : World) (h : w₁.Agree (comp i) w₂) :
    observationsOf i (runSteps (sysStep vms) ops w₁).1 <+:
        observationsOf i (runSteps (sysStep vms) (ops.filter (·.1 = i)) w₂).1 ∧
      ((runSteps (sysStep vms) ops w₁).2.isSome →
        observationsOf i (runSteps (sysStep vms) ops w₁).1 =
          observationsOf i (runSteps (sysStep vms) (ops.filter (·.1 = i)) w₂).1) := by
  induction ops generalizing w₁ w₂ with
  | nil => exact ⟨List.prefix_refl _, fun _ => rfl⟩
  | cons op ops ih =>
    obtain ⟨j, op⟩ := op
    by_cases hj : j = i
    · subst hj
      rw [List.filter_cons_of_pos (by simp)]
      rcases (Wavm.step_agree (hown j) h op).cases with ⟨h₁, h₂⟩ | ⟨o, w₁', w₂', h₁, h₂, hw⟩
      · have hs₁ : sysStep vms w₁ (j, op) = none := by simp [sysStep, h₁]
        have hs₂ : sysStep vms w₂ (j, op) = none := by simp [sysStep, h₂]
        rw [runSteps_cons_none hs₁, runSteps_cons_none hs₂]
        exact ⟨List.prefix_refl _, fun _ => rfl⟩
      · have hs₁ : sysStep vms w₁ (j, op) = some ((j, o), w₁') := by simp [sysStep, h₁]
        have hs₂ : sysStep vms w₂ (j, op) = some ((j, o), w₂') := by simp [sysStep, h₂]
        rw [runSteps_cons_some hs₁, runSteps_cons_some hs₂]
        obtain ⟨hp, he⟩ := ih w₁' w₂' hw
        simp only [observationsOf_cons, ↓reduceIte, List.cons_prefix_cons, true_and]
        exact ⟨hp, fun hs => by rw [he hs]⟩
    · rw [List.filter_cons_of_neg (by simpa using hj)]
      cases hstep : (vms j).step w₁ op with
      | none =>
        have hs : sysStep vms w₁ (j, op) = none := by simp [sysStep, hstep]
        rw [runSteps_cons_none hs]
        exact ⟨List.nil_prefix, fun hs => by cases hs⟩
      | some x =>
        obtain ⟨o, w₁'⟩ := x
        obtain ⟨hwithin, hctx, -⟩ := Wavm.step_within (hown j) hstep
        have hframe : w₁'.Agree (comp i) w₂ :=
          ⟨(hwithin.frame _ fun hc => hj (hsep j hc.symm)).trans h.1, hctx.trans h.2⟩
        have hs : sysStep vms w₁ (j, op) = some ((j, o), w₁') := by simp [sysStep, hstep]
        rw [runSteps_cons_some hs]
        simp only [observationsOf_cons, if_neg hj]
        exact ih w₁' w₂ hframe

/-! ## Cloning -/

/-- What VM `i` shows in any interleaving of host calls from `w` is what it shows when only the
calls on it are made: up to the first undefined behaviour, and all of it when there is none. -/
def Isolated (vms : ι → Wavm) (i : ι) (w : World) : Prop :=
  ∀ ops : List (ι × HostOp),
    observationsOf i (runSteps (sysStep vms) ops w).1 <+:
        observationsOf i (runSteps (sysStep vms) (ops.filter (·.1 = i)) w).1 ∧
      ((runSteps (sysStep vms) ops w).2.isSome →
        observationsOf i (runSteps (sysStep vms) ops w).1 =
          observationsOf i (runSteps (sysStep vms) (ops.filter (·.1 = i)) w).1)

/-- What `link` leaves, and `clone` makes again in a new compartment: the VM's compartment is
`c`, `memory_` is a live memory of `c` whose base address is `memory_base_`, and
`module_instance_` and every instance of `intrinsic_module_instances_` are live instances of
`c`. -/
structure Wavm.Linked (vm : Wavm) (s : Store) (c : Nat) : Prop where
  compartment_eq : vm.compartment = some c
  memoryAt : ∃ k m, vm.MemoryAt s ⟨c, k⟩ m
  moduleInstance_eq : ∃ j, vm.moduleInstance = some ⟨c, j⟩ ∧ (s.moduleInstance ⟨c, j⟩).isSome
  intrinsics : ∀ p ∈ vm.intrinsicModuleInstances,
    p.2.compartment = c ∧ (s.moduleInstance p.2).isSome

namespace Store

variable {s : Store} {c : Nat} {comp : Compartment} {r : Ref}

/-- In a clone of compartment `c`, made after every compartment there was, the object of an id
of `c` is the object of that id in `c`. -/
theorem memory_clone (hcs : s[c]? = some comp) (hr : r.compartment = c) :
    (s ++ [comp]).memory (remapToClonedCompartment r s.length) = s.memory r := by
  simp [remapToClonedCompartment, memory_append_length, memory, hr, hcs]

theorem moduleInstance_clone (hcs : s[c]? = some comp) (hr : r.compartment = c) (ctx : Nat) :
    ((s ++ [comp]).createContext ctx).2.moduleInstance (remapToClonedCompartment r s.length) =
      s.moduleInstance r := by
  rw [createContext_moduleInstance, remapToClonedCompartment, moduleInstance_append_length]
  simp [moduleInstance, hr, hcs]

theorem remapInstance_of_isSome {c' : Nat} (h : (s.moduleInstance (remapToClonedCompartment r c')).isSome) :
    s.remapInstance r c' = some (remapToClonedCompartment r c') := by
  obtain ⟨x, hx⟩ := Option.isSome_iff_exists.mp h
  simp [remapInstance, hx]

/-- Remapping instances that all have a counterpart in the clone succeeds. -/
theorem mapM_remapInstance (s' : Store) (c' : Nat) (l : List (String × Ref))
    (h : ∀ p ∈ l, (s'.moduleInstance (remapToClonedCompartment p.2 c')).isSome) :
    l.mapM (fun p => (p.1, ·) <$> s'.remapInstance p.2 c') =
      some (l.map fun p => (p.1, remapToClonedCompartment p.2 c')) := by
  induction l with
  | nil => rfl
  | cons p l ih =>
    simp only [List.mapM_cons, remapInstance_of_isSome (h p (List.mem_cons_self p l)),
      ih fun q hq => h q (List.mem_cons_of_mem p hq)]
    rfl

end Store

namespace Wavm

variable {vm vm' : Wavm} {s : Store} {c : Nat} {w w' : World}

theorem Linked.refers (h : vm.Linked s c) : vm.Refers (· = c) := by
  obtain ⟨-, ⟨k, m, hm⟩, ⟨j, hj, -⟩, -⟩ := h
  refine ⟨fun r hr => ?_, fun a ha => ?_, fun r hr => ?_⟩
  · rw [Option.mem_def, hm.memory_eq, Option.some.injEq] at hr; rw [← hr]
  · rw [Option.mem_def, hm.base_eq, Option.some.injEq] at ha; rw [← ha]; rfl
  · rw [Option.mem_def, hj, Option.some.injEq] at hr; rw [← hr]

/-- Adding a compartment after every other, and then a context, keeps a memory of an existing
compartment. -/
theorem MemoryAt.append_createContext {r : Ref} {m : Memory} (h : vm.MemoryAt s r m)
    (hlt : r.compartment < s.length) (comp : Compartment) (ctx : Nat) :
    vm.MemoryAt ((s ++ [comp]).createContext ctx).2 r m :=
  ⟨h.memory_eq, by rw [Store.createContext_memory, Store.memory_append_of_lt _ _ hlt, h.store_eq],
    h.base_eq⟩

/-- Adding a compartment after every other, and then a context, keeps a VM linked. -/
theorem Linked.append_createContext (h : vm.Linked s c) (hlt : c < s.length) (comp : Compartment)
    (ctx : Nat) : vm.Linked ((s ++ [comp]).createContext ctx).2 c := by
  have hold : ∀ r : Ref, r.compartment = c →
      ((s ++ [comp]).createContext ctx).2.moduleInstance r = s.moduleInstance r := fun r hr => by
    rw [Store.createContext_moduleInstance, Store.moduleInstance_append_of_lt _ _ (hr ▸ hlt)]
  obtain ⟨hcomp, ⟨k, m, hm⟩, ⟨j, hj, hjs⟩, hintr⟩ := h
  exact ⟨hcomp, ⟨k, m, hm.append_createContext hlt comp ctx⟩,
    ⟨j, hj, by rw [hold _ rfl]; exact hjs⟩,
    fun p hp => ⟨(hintr p hp).1, by rw [hold _ (hintr p hp).1]; exact (hintr p hp).2⟩⟩

/-- `clone` of a linked VM returns: a copy of its compartment `c` is appended to the store and given
one more context, and every id the VM holds is remapped into the copy. -/
theorem Linked.clone_eq (h : vm.Linked w.store c) {k j : Nat} {m : Memory} {comp : Compartment}
    (hm : vm.MemoryAt w.store ⟨c, k⟩ m) (hj : vm.moduleInstance = some ⟨c, j⟩)
    (hcs : w.store[c]? = some comp) :
    vm.clone w = some
      ({ compartment := some w.store.length, memory := some ⟨w.store.length, k⟩,
         memoryBase := some (getMemoryBaseAddress ⟨w.store.length, k⟩),
         context := some ((w.store ++ [comp]).createContext w.store.length).1,
         intrinsicModuleInstances := vm.intrinsicModuleInstances.map fun p =>
           (p.1, remapToClonedCompartment p.2 w.store.length),
         moduleInstance := some ⟨w.store.length, j⟩ },
       { w with store := ((w.store ++ [comp]).createContext w.store.length).2 }) := by
  obtain ⟨j', hj', hjs⟩ := h.moduleInstance_eq
  obtain rfl : j' = j := by rw [hj] at hj'; cases hj'; rfl
  have hmem' := Store.memory_clone hcs (r := ⟨c, k⟩) rfl
  have hinst' := Store.moduleInstance_clone hcs (r := ⟨c, j'⟩) rfl w.store.length
  have hintr' := Store.mapM_remapInstance ((w.store ++ [comp]).createContext w.store.length).2
    w.store.length vm.intrinsicModuleInstances fun p hp => by
      rw [Store.moduleInstance_clone hcs (h.intrinsics p hp).1]; exact (h.intrinsics p hp).2
  simp only [Wavm.clone, h.compartment_eq, hm.memory_eq, hj, Store.cloneCompartment, hcs,
    Option.bind_eq_bind, Option.some_bind, Option.map_some', Store.remapMemory, hmem', hm.store_eq,
    hintr', Store.remapInstance_of_isSome (hinst' ▸ hjs), Option.pure_def]
  rfl

/-- `clone` of a linked VM: a VM linked in a new compartment, the one after every compartment
there was, whose memory holds what the original's does, and the original still linked. -/
theorem Linked.clone (h : vm.Linked w.store c) (hc : vm.clone w = some (vm', w')) :
    c < w.store.length ∧ vm.Linked w'.store c ∧ vm'.Linked w'.store w.store.length ∧
      ∃ k m, vm.MemoryAt w'.store ⟨c, k⟩ m ∧ vm'.MemoryAt w'.store ⟨w.store.length, k⟩ m := by
  obtain ⟨k, m, hm⟩ := h.memoryAt
  obtain ⟨j, hj, hjs⟩ := h.moduleInstance_eq
  obtain ⟨comp, hcs, -⟩ := Option.bind_eq_some.mp hm.store_eq
  have hlt : c < w.store.length := (List.getElem?_eq_some_iff.mp hcs).1
  have hmem' := Store.memory_clone hcs (r := ⟨c, k⟩) rfl
  have hinst' := Store.moduleInstance_clone hcs (r := ⟨c, j⟩) rfl w.store.length
  rw [h.clone_eq hm hj hcs, Option.some.injEq, Prod.mk.injEq] at hc
  obtain ⟨rfl, rfl⟩ := hc
  have hmemnew : ((w.store ++ [comp]).createContext w.store.length).2.memory ⟨w.store.length, k⟩ =
      some m := by
    rw [Store.createContext_memory]; exact hmem'.trans hm.store_eq
  refine ⟨hlt, h.append_createContext hlt comp _,
    ⟨rfl, ⟨k, m, ⟨rfl, hmemnew, rfl⟩⟩, ⟨j, rfl, (congrArg Option.isSome hinst').trans hjs⟩,
      fun p hp => ?_⟩,
    k, m, hm.append_createContext hlt comp _, ⟨rfl, hmemnew, rfl⟩⟩
  obtain ⟨q, hq, rfl⟩ := List.mem_map.mp hp
  exact ⟨rfl, by rw [Store.moduleInstance_clone hcs (h.intrinsics q hq).1]; exact (h.intrinsics q hq).2⟩

end Wavm

/-- `clone` of a linked VM: the clone's memory holds what the original's does, the same size and
the same bytes, and what either shows in any interleaving of host calls on the two (memory
accesses and calls of callables `getFunction` gives, whatever their guests do) is what it shows
when only the calls on it are made. A write through one is never seen through the other. -/
theorem clone_isolated {v c : Wavm} {w w' : World} {cv : Nat} (hv : v.Linked w.store cv)
    (hc : v.clone w = some (c, w')) :
    (∃ k m, v.MemoryAt w'.store ⟨cv, k⟩ m ∧ c.MemoryAt w'.store ⟨w.store.length, k⟩ m) ∧
      ∀ b, Isolated (cond · c v) b w' := by
  obtain ⟨hlt, hv', hc', hmem⟩ := hv.clone hc
  have hown : ∀ j, (cond j c v).Refers (· = cond j w.store.length cv) := by
    intro j; cases j
    · exact hv'.refers
    · exact hc'.refers
  refine ⟨hmem, fun b ops => run_isolated hown (fun j hj => ?_) ops w' w' ⟨rfl, rfl⟩⟩
  cases j <;> cases b <;> simp only [cond_true, cond_false] at hj ⊢ <;> omega

/-- Its clone, with the world after `clone`. -/
def clonedOnePage : Wavm × World :=
  (linkedOnePage.1.clone linkedOnePage.2).getD ({}, ⟨[], none, [], 0⟩)

theorem clone_isolated_onePage :
    linkedOnePage.1.Linked linkedOnePage.2.store 0 ∧
      linkedOnePage.1.clone linkedOnePage.2 = some (clonedOnePage.1, clonedOnePage.2) ∧
      (∃ k m, linkedOnePage.1.MemoryAt clonedOnePage.2.store ⟨0, k⟩ m ∧
          clonedOnePage.1.MemoryAt clonedOnePage.2.store ⟨linkedOnePage.2.store.length, k⟩ m) ∧
        ∀ b, Isolated (cond · clonedOnePage.1 linkedOnePage.1) b clonedOnePage.2 :=
  have hv : linkedOnePage.1.Linked linkedOnePage.2.store 0 :=
    ⟨rfl, ⟨0, _, rfl, rfl, rfl⟩, ⟨0, rfl, rfl⟩, fun p hp => by
      rw [show linkedOnePage.1.intrinsicModuleInstances = [] from rfl] at hp; cases hp⟩
  have hc : linkedOnePage.1.clone linkedOnePage.2 = some (clonedOnePage.1, clonedOnePage.2) := rfl
  ⟨hv, hc, clone_isolated hv hc⟩

end WavmHost
