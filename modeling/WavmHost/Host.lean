import WavmHost.Calls

/-!
# Host calls on VMs

The calls the embedding makes on a VM between guest invocations, as one step over the world,
and runs of them on one VM or interleaved over several. What the memory accessors are for is
stated as an abstract machine: a linear memory of a fixed size whose bytes are those the last
write that covered them left, or the initial ones. Every run of host accesses on a linked VM
whose `pointer + size` does not wrap behaves as that machine does.
-/

namespace WavmHost

/-- A host access to guest memory. -/
inductive Access where
  | getMemorySize
  | getMemory (pointer size : UInt64)
  | setMemory (pointer size : UInt64) (data : Nat → UInt8)
  | getWord (pointer : UInt64) (data : Word)
  | setWord (pointer : UInt64) (data : Word)

/-- A call the host makes on a VM: a memory access, or a call of an export through what
`getFunction` installs. -/
inductive HostOp where
  | access (a : Access)
  | call (functionName : String) (sig : Signature) (ctx : Ctx) (args : List UInt32) (g : Guest)

/-- What the host sees of a call: the memory size, the bytes of the view it got, whether a
write was made, the word and flag `getWord` gives, or what the callable returned (`none` when
`getFunction` gave `nullptr`). -/
inductive Observation where
  | size (bytes : UInt64)
  | view (bytes : Option (List UInt8))
  | written (ok : Bool)
  | word (ok : Bool) (data : Word)
  | returned (value : Option (Option UInt32))
  deriving DecidableEq

namespace Wavm

/-- A host access. The host reads the view `getMemory` returns. -/
def access (vm : Wavm) (w : World) : Access → Option (Observation × World)
  | .getMemorySize => (vm.getMemorySize w.store).map fun n => (.size n, w)
  | .getMemory p n => (vm.getMemory w.store p n).bind fun
    | none => some (.view none, w)
    | some v => (w.store.readView v).map fun b => (.view (some b), w)
  | .setMemory p n data =>
    (vm.setMemory w.store p n data).map fun (ok, s) => (.written ok, { w with store := s })
  | .getWord p d => (vm.getWord w.store p d).map fun (ok, d) => (.word ok d, w)
  | .setWord p d => (vm.setWord w.store p d).map fun (ok, s) => (.written ok, { w with store := s })

/-- A host call on the VM; `none` is undefined behaviour. -/
def step (vm : Wavm) (w : World) : HostOp → Option (Observation × World)
  | .access a => vm.access w a
  | .call name sig ctx args g => (vm.getFunction w name sig).bind fun
    | (none, w) => some (.returned none, w)
    | (some cl, w) => match vm.invoke cl ctx args g w with
      | .returned r w => some (.returned (some r), w)
      | .undefined => none

/-- What a host access can do to the world: nothing, or put in the store a `setMemory` made. -/
theorem access_world {vm : Wavm} {w w' : World} {a : Access} {o : Observation}
    (h : vm.access w a = some (o, w')) : w' = w ∨
      ∃ p n data ok s, vm.setMemory w.store p n data = some (ok, s) ∧ w' = { w with store := s } := by
  cases a <;> simp only [access, setWord, Option.map_eq_some', Option.bind_eq_some, Prod.mk.injEq] at h
  case getMemory =>
    obtain ⟨v?, -, h⟩ := h
    cases v? with
    | none => cases h; exact .inl rfl
    | some v =>
      simp only [Option.map_eq_some', Prod.mk.injEq] at h
      obtain ⟨_, -, -, rfl⟩ := h; exact .inl rfl
  case setMemory | setWord =>
    obtain ⟨⟨ok, s⟩, hs, -, rfl⟩ := h; exact .inr ⟨_, _, _, ok, s, hs, rfl⟩
  all_goals obtain ⟨_, -, -, rfl⟩ := h; exact .inl rfl

end Wavm

/-- Steps one after another, with what each shows, up to the first undefined behaviour, which
ends the run. -/
def runSteps {σ α β : Type} (step : σ → α → Option (β × σ)) : List α → σ → List β × Option σ
  | [], s => ([], some s)
  | a :: as, s => match step s a with
    | none => ([], none)
    | some (b, s') => let r := runSteps step as s'; (b :: r.1, r.2)

/-- Host calls on several VMs, each call naming the VM it is made on. -/
def sysStep {ι : Type} (vms : ι → Wavm) (w : World) (op : ι × HostOp) :
    Option ((ι × Observation) × World) :=
  ((vms op.1).step w op.2).map fun (o, w) => ((op.1, o), w)

/-- What VM `i` was seen to do in a trace. -/
def observationsOf {ι : Type} [DecidableEq ι] (i : ι) (t : List (ι × Observation)) :
    List Observation :=
  t.filterMap fun (j, o) => if j = i then some o else none

/-! ## The linear memory the host sees -/

/-- Modelled from the spec: guest memory as host calls see it, a fixed number of bytes given
by the bytes it started with and the writes that succeeded, oldest first, each with its
offset, length and data. -/
structure LinearMemory where
  size : Nat
  initial : Nat → UInt8
  writes : List (Nat × Nat × (Nat → UInt8))

namespace LinearMemory

/-- The byte at `i`: what the most recent write whose range holds `i` wrote there, or the
initial byte when no write did. -/
def byte (M : LinearMemory) (i : Nat) : UInt8 :=
  match M.writes.reverse.find? fun w => w.1 ≤ i ∧ i < w.1 + w.2.1 with
  | some (p, _, data) => data (i - p)
  | none => M.initial i

def bytes (M : LinearMemory) (p n : Nat) : List UInt8 := (List.range n).map fun j => M.byte (p + j)

/-- A write succeeds exactly when its range lies within the memory. -/
def write (M : LinearMemory) (p n : Nat) (data : Nat → UInt8) : Bool × LinearMemory :=
  if p + n ≤ M.size then (true, { M with writes := M.writes ++ [(p, n, data)] }) else (false, M)

def access (M : LinearMemory) : Access → Observation × LinearMemory
  | .getMemorySize => (.size (UInt64.ofNat M.size), M)
  | .getMemory p n =>
    (.view (if p.toNat + n.toNat ≤ M.size then some (M.bytes p.toNat n.toNat) else none), M)
  | .setMemory p n data => let (ok, M) := M.write p.toNat n.toNat data; (.written ok, M)
  | .getWord p d =>
    (if p.toNat + 4 ≤ M.size then .word true ⟨(decodeU32 (M.bytes p.toNat 4)).toUInt64⟩
      else .word false d, M)
  | .setWord p d => let (ok, M) := M.write p.toNat 4 (encodeU32 d.u32); (.written ok, M)

def run : List Access → LinearMemory → List Observation × LinearMemory
  | [], M => ([], M)
  | a :: as, M => let r := run as (M.access a).2; ((M.access a).1 :: r.1, r.2)

/-- The bytes of a memory nothing has written to are the initial ones. -/
@[simp] theorem byte_nil (size : Nat) (initial : Nat → UInt8) (i : Nat) :
    (⟨size, initial, []⟩ : LinearMemory).byte i = initial i := rfl

/-- A write that succeeded decides the bytes of its range. -/
theorem byte_append (M : LinearMemory) (p n : Nat) (data : Nat → UInt8) (i : Nat) :
    ({ M with writes := M.writes ++ [(p, n, data)] } : LinearMemory).byte i =
      if p ≤ i ∧ i < p + n then data (i - p) else M.byte i := by
  by_cases h : p ≤ i ∧ i < p + n <;> simp [byte, h]

end LinearMemory

/-- A host access whose `pointer + size` stays below `2 ^ 64`. -/
def Access.NoWrap : Access → Prop
  | .getMemorySize => True
  | .getMemory p n | .setMemory p n _ => p.toNat + n.toNat < UInt64.size
  | .getWord p _ | .setWord p _ => p.toNat + 4 < UInt64.size

instance (a : Access) : Decidable a.NoWrap :=
  match a with
  | .getMemorySize => inferInstanceAs (Decidable True)
  | .getMemory p n | .setMemory p n _ => inferInstanceAs (Decidable (p.toNat + n.toNat < UInt64.size))
  | .getWord p _ | .setWord p _ => inferInstanceAs (Decidable (p.toNat + 4 < UInt64.size))

namespace Wavm

/-- The memory `r` of the VM holds what `M` describes. -/
def Holds (vm : Wavm) (s : Store) (r : Ref) (M : LinearMemory) : Prop :=
  ∃ m, vm.MemoryAt s r m ∧ m.size = M.size ∧ ∀ i, m.bytes i = M.byte i

variable {vm : Wavm} {s : Store} {r : Ref} {m : Memory} {M : LinearMemory}

/-- Replacing the memory `memory_` refers to keeps it `memory_`. -/
theorem MemoryAt.setMemory_self (h : vm.MemoryAt s r m) (m' : Memory) :
    vm.MemoryAt (s.setMemory r m') r m' :=
  ⟨h.memory_eq, Store.memory_setMemory_self s r m' (by simp [h.store_eq]), h.base_eq⟩

theorem Holds.getMemory (h : vm.Holds s r M) {p n : UInt64} (hw : p.toNat + n.toNat < UInt64.size) :
    vm.getMemory s p n = some (if p.toNat + n.toNat ≤ M.size then some ⟨⟨r, p.toNat⟩, n.toNat⟩
      else none) ∧
    (p.toNat + n.toNat ≤ M.size →
      s.readView ⟨⟨r, p.toNat⟩, n.toNat⟩ = some (M.bytes p.toNat n.toNat)) := by
  obtain ⟨m, hm, hsize, hbytes⟩ := h
  refine ⟨by rw [hm.getMemory, Nat.mod_eq_of_lt hw, hsize], fun hle => ?_⟩
  rw [Store.readView, Store.readAt, hm.store_eq, Option.some_bind, Memory.read_eq_some (hsize ▸ hle)]
  simp only [LinearMemory.bytes, hbytes]

theorem Holds.write (h : vm.Holds s r M) {p n : UInt64} (hw : p.toNat + n.toNat < UInt64.size)
    (data : Nat → UInt8) : ∃ s', vm.setMemory s p n data = some ((M.write p.toNat n.toNat data).1, s') ∧
      vm.Holds s' r (M.write p.toNat n.toNat data).2 := by
  obtain ⟨m, hm, hsize, hbytes⟩ := h
  rw [hm.setMemory, Nat.mod_eq_of_lt hw, LinearMemory.write, hsize]
  by_cases hle : p.toNat + n.toNat ≤ M.size
  · refine ⟨_, by rw [if_pos hle, if_pos hle, if_pos hle], ?_⟩
    rw [if_pos hle]
    refine ⟨_, hm.setMemory_self _, by simpa using hsize, fun i => ?_⟩
    rw [Memory.store_bytes, LinearMemory.byte_append, hbytes]
  · exact ⟨s, by rw [if_neg hle, if_neg hle], by rw [if_neg hle]; exact ⟨m, hm, hsize, hbytes⟩⟩

/-- Each host access that does not wrap does what the abstract memory does, and keeps it
describing the VM's memory. -/
theorem Holds.access (h : vm.Holds s r M) (w : World) (hs : w.store = s) {a : Access}
    (ha : a.NoWrap) : ∃ w', vm.access w a = some ((M.access a).1, w') ∧
      vm.Holds w'.store r (M.access a).2 := by
  subst hs
  cases a with
  | getMemorySize =>
    obtain ⟨m, hm, hsize, hbytes⟩ := h
    exact ⟨w, by simp [Wavm.access, getMemorySize, hm.memoryNumBytes, LinearMemory.access, hsize],
      ⟨m, hm, hsize, hbytes⟩⟩
  | getMemory p n =>
    obtain ⟨hget, hread⟩ := h.getMemory ha
    refine ⟨w, ?_, h⟩
    by_cases hle : p.toNat + n.toNat ≤ M.size
    · simp [Wavm.access, hget, if_pos hle, hread hle, LinearMemory.access]
    · simp [Wavm.access, hget, if_neg hle, LinearMemory.access]
  | setMemory p n data =>
    obtain ⟨s', hset, h'⟩ := h.write ha data
    exact ⟨{ w with store := s' }, by simp [Wavm.access, hset, LinearMemory.access], h'⟩
  | getWord p d =>
    obtain ⟨m, hm, hsize, hbytes⟩ := h
    refine ⟨w, ?_, ⟨m, hm, hsize, hbytes⟩⟩
    by_cases hle : p.toNat + 4 ≤ M.size
    · have hle' : p.toNat + 4 ≤ m.size := hsize ▸ hle
      simp [Wavm.access, hm.getWord, Nat.mod_eq_of_lt ha, hle', Memory.read_eq_some hle',
        LinearMemory.access, hle, LinearMemory.bytes, hbytes]
    · simp [Wavm.access, hm.getWord, Nat.mod_eq_of_lt ha, hsize, hle, LinearMemory.access]
  | setWord p d =>
    obtain ⟨s', hset, h'⟩ := h.write (n := 4) ha (encodeU32 d.u32)
    rw [show (4 : UInt64).toNat = 4 from rfl] at hset h'
    exact ⟨{ w with store := s' }, by simp [Wavm.access, setWord, hset, LinearMemory.access], h'⟩

/-- Runs of host accesses that do not wrap are runs of the abstract memory. -/
theorem Holds.run (as : List Access) (has : ∀ a ∈ as, a.NoWrap) :
    ∀ (w : World) (M : LinearMemory), vm.Holds w.store r M →
      ∃ w', runSteps vm.access as w = ((M.run as).1, some w') ∧ vm.Holds w'.store r (M.run as).2 := by
  induction as with
  | nil => exact fun w M h => ⟨w, rfl, h⟩
  | cons a as ih =>
    intro w M h
    obtain ⟨w₁, hstep, h₁⟩ := h.access w rfl (has a (List.mem_cons_self a as))
    obtain ⟨w₂, hrun, h₂⟩ := ih (fun a ha => has a (List.mem_cons_of_mem _ ha)) w₁ _ h₁
    exact ⟨w₂, by simp only [runSteps, hstep, hrun, LinearMemory.run], h₂⟩

/-- Host accesses on a linked VM, with no guest invocation between them and no `pointer + size`
reaching `2 ^ 64`: the run completes, every view, word and size it shows is the one the
abstract memory shows, where each byte is the one the most recent successful write covering it
wrote, or the initial byte, and the memory ends as that abstract memory describes. Reads and
failed writes change nothing in it. -/
theorem accesses_last_writer {w : World} (h : vm.MemoryAt w.store r m) (as : List Access)
    (has : ∀ a ∈ as, a.NoWrap) :
    ∃ w', runSteps vm.access as w = ((LinearMemory.run as ⟨m.size, m.bytes, []⟩).1, some w') ∧
      vm.Holds w'.store r (LinearMemory.run as ⟨m.size, m.bytes, []⟩).2 :=
  Holds.run as has w _ ⟨m, h, rfl, fun _ => rfl⟩

end Wavm

/-- An engine that reads every code as `onePageModule`. -/
def onePageEngine : Engine := ⟨fun _ => none, fun _ => some onePageModule, fun _ => ""⟩

/-- A VM after `load` and `link` of `onePageModule`, with its world. -/
def linkedOnePage : Wavm × World :=
  let (_, vm, s) := ({} : Wavm).load onePageEngine [] [] false
  (vm.link onePageEngine ⟨s, none, [], 0⟩).getD ({}, ⟨[], none, [], 0⟩)

/-- `setWord` of 7 at offset 8, `setMemory` of two bytes 1 at offset 9, then `getWord` at 8. -/
def overlappingAccesses : List Access :=
  [.setWord 8 ⟨7⟩, .setMemory 9 2 fun _ => 1, .getWord 8 ⟨0⟩]

theorem accesses_last_writer_onePage :
    linkedOnePage.1.MemoryAt linkedOnePage.2.store ⟨0, 0⟩ onePageMemory ∧
      (∀ a ∈ overlappingAccesses, a.NoWrap) ∧
      ∃ w', runSteps linkedOnePage.1.access overlappingAccesses linkedOnePage.2 =
          ((LinearMemory.run overlappingAccesses ⟨onePageMemory.size, onePageMemory.bytes, []⟩).1,
            some w') ∧
        linkedOnePage.1.Holds w'.store ⟨0, 0⟩
          (LinearMemory.run overlappingAccesses ⟨onePageMemory.size, onePageMemory.bytes, []⟩).2 :=
  have h : linkedOnePage.1.MemoryAt linkedOnePage.2.store ⟨0, 0⟩ onePageMemory := ⟨rfl, rfl, rfl⟩
  have has : ∀ a ∈ overlappingAccesses, a.NoWrap := by decide
  ⟨h, has, Wavm.accesses_last_writer h overlappingAccesses has⟩

end WavmHost
