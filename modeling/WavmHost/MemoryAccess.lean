import WavmHost.Link

/-!
# Host access to guest memory

`Wavm::getMemorySize`, `getMemory`, `setMemory`, `getWord` and `setWord`. The bounds check
adds `pointer` and `size` as `uint64_t`, so the sum wraps modulo `2 ^ 64`, and the access that
follows is at `memory_base_ + pointer` with no further check. An access that leaves the memory
object is undefined behaviour, shown as `none`, as is any access before `link` has set
`memory_` and `memory_base_`.
-/

namespace WavmHost

/-- Modelled from the spec: `proxy_wasm::Word`, declared outside src/, whose `u64_` field
the code reads and writes. -/
structure Word where
  u64 : UInt64
  deriving DecidableEq, Repr

/-- Modelled from the spec: `Word::u32`, declared outside src/; a `Word` packs as an unsigned
32-bit value. -/
def Word.u32 (w : Word) : UInt32 := w.u64.toUInt32

/-- The bytes of a `uint32_t` as `memcpy` copies them, least significant first: the hosts
WAVM runs on are little-endian. -/
def encodeU32 (x : UInt32) (i : Nat) : UInt8 := UInt8.ofNat (x.toNat / 256 ^ i)

/-- The `uint32_t` that `memcpy` assembles from four bytes. -/
def decodeU32 (b : List UInt8) : UInt32 :=
  UInt32.ofNat ((b.getD 0 0).toNat + 256 * (b.getD 1 0).toNat + 65536 * (b.getD 2 0).toNat +
    16777216 * (b.getD 3 0).toNat)

theorem decodeU32_encodeU32 (x : UInt32) : decodeU32 ((List.range 4).map (encodeU32 x)) = x := by
  apply UInt32.toNat.inj
  have hx := x.toNat_lt_size
  simp only [decodeU32, encodeU32, List.range_succ, List.range_zero, List.nil_append,
    List.cons_append, List.map_cons, List.map_nil, List.getD_cons_zero, List.getD_cons_succ]
  simp [UInt8.toNat, UInt8.ofNat, UInt32.toNat, UInt32.ofNat] at hx ⊢
  omega

/-- A `std::string_view` into guest memory: its address and length. -/
structure View where
  addr : Addr
  size : Nat
  deriving DecidableEq, Repr

namespace Store

/-- The `n` bytes at `a`; `none` when they leave its memory. -/
def readAt (s : Store) (a : Addr) (n : Nat) : Option (List UInt8) :=
  (s.memory a.memory).bind (·.read a.offset n)

/-- `memcpy` of `n` bytes of `data` to `a`; `none` when they leave its memory. -/
def writeAt (s : Store) (a : Addr) (n : Nat) (data : Nat → UInt8) : Option Store :=
  (s.memory a.memory).bind fun m => (m.write a.offset n data).map (s.setMemory a.memory)

/-- The bytes a view shows. -/
def readView (s : Store) (v : View) : Option (List UInt8) := s.readAt v.addr v.size

theorem writeAt_eq_some {s s' : Store} {a : Addr} {n : Nat} {data : Nat → UInt8}
    (h : s.writeAt a n data = some s') : ∃ m, s.memory a.memory = some m ∧
      a.offset + n ≤ m.size ∧ s' = s.setMemory a.memory (m.store a.offset n data) := by
  simp only [writeAt, Option.bind_eq_some, Option.map_eq_some'] at h
  obtain ⟨m, hm, m', hw, rfl⟩ := h
  unfold Memory.write at hw
  split at hw
  · cases hw; exact ⟨m, hm, ‹_›, rfl⟩
  · cases hw

theorem memory_setMemory_store_numPages {s : Store} {r : Ref} {m : Memory} (hm : s.memory r = some m)
    (off n : Nat) (data : Nat → UInt8) (x : Ref) :
    ((s.setMemory r (m.store off n data)).memory x).map (·.numPages) = (s.memory x).map (·.numPages) := by
  rw [memory_setMemory s r x _ (by simp [hm])]
  split
  · subst x; simp [hm]
  · rfl

theorem readAt_writeAt {s s' : Store} {a : Addr} {n : Nat} {data : Nat → UInt8}
    (h : s.writeAt a n data = some s') : s'.readAt a n = some ((List.range n).map data) := by
  obtain ⟨m, hm, hn, rfl⟩ := writeAt_eq_some h
  rw [readAt, memory_setMemory_self s a.memory _ (by simp [hm]), Option.some_bind,
    Memory.read_eq_some (m := m.store a.offset n data) (by simpa using hn)]
  exact congrArg some
    (List.map_congr_left fun i hi => Memory.store_bytes_inside m data (List.mem_range.mp hi))

end Store

/-- The address `n` bytes past `a`. -/
def Addr.add (a : Addr) (n : Nat) : Addr := ⟨a.memory, a.offset + n⟩

namespace Wavm

/-- `getMemoryNumPages(memory_)`. -/
def memoryNumPages (vm : Wavm) (s : Store) : Option Nat :=
  (vm.memory.bind s.memory).map (·.numPages)

/-- `getMemoryNumPages(memory_) * WasmPageSize`, in `uint64_t`. -/
def memoryNumBytes (vm : Wavm) (s : Store) : Option UInt64 :=
  (vm.memoryNumPages s).map fun n => UInt64.ofNat n * WasmPageSize

def getMemorySize (vm : Wavm) (s : Store) : Option UInt64 := vm.memoryNumBytes s

/-- `getMemory`: `std::nullopt` when the check fails, else the view at
`memory_base_ + pointer`. -/
def getMemory (vm : Wavm) (s : Store) (pointer size : UInt64) : Option (Option View) := do
  let memoryNumBytes ← vm.memoryNumBytes s
  if pointer + size > memoryNumBytes then pure none
  else
    let base ← vm.memoryBase
    pure (some ⟨base.add pointer.toNat, size.toNat⟩)

/-- `setMemory`: false when the check fails, else `memcpy` to `memory_base_ + pointer`. -/
def setMemory (vm : Wavm) (s : Store) (pointer size : UInt64) (data : Nat → UInt8) :
    Option (Bool × Store) := do
  let memoryNumBytes ← vm.memoryNumBytes s
  if pointer + size > memoryNumBytes then pure (false, s)
  else
    let base ← vm.memoryBase
    let s ← s.writeAt (base.add pointer.toNat) size.toNat data
    pure (true, s)

/-- `getWord`: false with `*data` unchanged when the check fails, else the four bytes at
`memory_base_ + pointer` as a `uint32_t`, widened into `data->u64_`. -/
def getWord (vm : Wavm) (s : Store) (pointer : UInt64) (data : Word) : Option (Bool × Word) := do
  let memoryNumBytes ← vm.memoryNumBytes s
  if pointer + 4 > memoryNumBytes then pure (false, data)
  else
    let base ← vm.memoryBase
    let bytes ← s.readAt (base.add pointer.toNat) 4
    pure (true, ⟨(decodeU32 bytes).toUInt64⟩)

/-- `setWord`: `setMemory` of the four bytes of `data.u32()`. -/
def setWord (vm : Wavm) (s : Store) (pointer : UInt64) (data : Word) : Option (Bool × Store) :=
  vm.setMemory s pointer 4 (encodeU32 data.u32)

/-- `memory_` is the live memory `r`, holding `m`, and `memory_base_` is its base address:
the state `link` and `clone` leave. -/
structure MemoryAt (vm : Wavm) (s : Store) (r : Ref) (m : Memory) : Prop where
  memory_eq : vm.memory = some r
  store_eq : s.memory r = some m
  base_eq : vm.memoryBase = some (getMemoryBaseAddress r)

/-- The check `pointer + size > memory_num_bytes` in `uint64_t`, read in ℕ: the sum wraps. -/
theorem check_iff (p n : UInt64) {S : Nat} (hS : S < UInt64.size) :
    UInt64.ofNat S < p + n ↔ S < (p.toNat + n.toNat) % UInt64.size := by
  rw [UInt64.lt_def, BitVec.lt_def]
  change (UInt64.ofNat S).toNat < (p + n).toNat ↔ _
  rw [UInt64.toNat_add, UInt64.toNat_ofNat_of_lt hS]

variable {vm : Wavm} {s : Store} {r : Ref} {m : Memory}

theorem MemoryAt.memoryNumBytes (h : vm.MemoryAt s r m) :
    vm.memoryNumBytes s = some (UInt64.ofNat m.size) := by
  simp only [Wavm.memoryNumBytes, memoryNumPages, h.memory_eq, h.store_eq, Option.some_bind,
    Option.map_some', Option.some.injEq]
  apply UInt64.toNat.inj
  have := m.numPages_le
  have hlt : m.numPages * 65536 < UInt64.size := by unfold UInt64.size; omega
  rw [UInt64.toNat_mul, UInt64.toNat_ofNat_of_lt (by unfold UInt64.size; omega),
    UInt64.toNat_ofNat_of_lt (n := m.size) hlt]
  exact Nat.mod_eq_of_lt hlt

theorem MemoryAt.check_iff (_ : vm.MemoryAt s r m) (p n : UInt64) :
    UInt64.ofNat m.size < p + n ↔ m.size < (p.toNat + n.toNat) % UInt64.size :=
  Wavm.check_iff p n (by have := m.size_le; unfold UInt64.size; omega)

/-- `getMemory` returns the view at offset `pointer` exactly when the wrapped sum
`(pointer + size) mod 2 ^ 64` is within the memory. -/
theorem MemoryAt.getMemory (h : vm.MemoryAt s r m) (p n : UInt64) :
    vm.getMemory s p n = some (if (p.toNat + n.toNat) % UInt64.size ≤ m.size
      then some ⟨⟨r, p.toNat⟩, n.toNat⟩ else none) := by
  simp only [Wavm.getMemory, h.memoryNumBytes, h.base_eq, Option.bind_eq_bind, Option.some_bind,
    gt_iff_lt, h.check_iff]
  by_cases hc : m.size < (p.toNat + n.toNat) % UInt64.size
  · rw [if_pos hc, if_neg (Nat.not_le.mpr hc)]; rfl
  · rw [if_neg hc, if_pos (Nat.le_of_not_lt hc)]; simp [Addr.add, getMemoryBaseAddress]

/-- `setMemory` writes when the wrapped sum is within the memory and the bytes are; when
the check passes on a wrapped sum, the copy leaves the memory. -/
theorem MemoryAt.setMemory (h : vm.MemoryAt s r m) (p n : UInt64) (data : Nat → UInt8) :
    vm.setMemory s p n data = if (p.toNat + n.toNat) % UInt64.size ≤ m.size then
      (if p.toNat + n.toNat ≤ m.size then some (true, s.setMemory r (m.store p.toNat n.toNat data))
        else none) else some (false, s) := by
  simp only [Wavm.setMemory, h.memoryNumBytes, h.base_eq, Option.bind_eq_bind, Option.some_bind,
    gt_iff_lt, h.check_iff]
  by_cases hc : m.size < (p.toNat + n.toNat) % UInt64.size
  · rw [if_pos hc, if_neg (Nat.not_le.mpr hc)]; rfl
  · rw [if_neg hc, if_pos (Nat.le_of_not_lt hc)]
    simp only [Store.writeAt, Addr.add, getMemoryBaseAddress, h.store_eq, Option.some_bind,
      Nat.zero_add, Memory.write]
    split <;> rfl

theorem MemoryAt.getWord (h : vm.MemoryAt s r m) (p : UInt64) (data : Word) :
    vm.getWord s p data = if (p.toNat + 4) % UInt64.size ≤ m.size then
      (m.read p.toNat 4).map (fun b => (true, ⟨(decodeU32 b).toUInt64⟩)) else some (false, data) := by
  have h4 := h.check_iff p 4
  rw [show (4 : UInt64).toNat = 4 from rfl] at h4
  simp only [Wavm.getWord, h.memoryNumBytes, h.base_eq, Option.bind_eq_bind, Option.some_bind,
    gt_iff_lt, h4]
  by_cases hc : m.size < (p.toNat + 4) % UInt64.size
  · rw [if_pos hc, if_neg (Nat.not_le.mpr hc)]; rfl
  · rw [if_neg hc, if_pos (Nat.le_of_not_lt hc)]
    simp only [Store.readAt, Addr.add, getMemoryBaseAddress, h.store_eq, Option.some_bind,
      Nat.zero_add]
    cases m.read p.toNat 4 <;> rfl

theorem memoryNumBytes_of_writeAt (vm : Wavm) {s s' : Store} {a : Addr} {n : Nat}
    {data : Nat → UInt8} (h : s.writeAt a n data = some s') :
    vm.memoryNumBytes s' = vm.memoryNumBytes s := by
  obtain ⟨m, hm, -, rfl⟩ := Store.writeAt_eq_some h
  simp only [memoryNumBytes, memoryNumPages]
  cases vm.memory with
  | none => rfl
  | some x =>
    have := Store.memory_setMemory_store_numPages hm a.offset n data x
    simp only [Option.some_bind] at this ⊢
    rw [this]

theorem setMemory_eq_true {p n : UInt64} {data : Nat → UInt8} {s' : Store}
    (h : vm.setMemory s p n data = some (true, s')) :
    ∃ N base, vm.memoryNumBytes s = some N ∧ ¬(p + n > N) ∧ vm.memoryBase = some base ∧
      s.writeAt (base.add p.toNat) n.toNat data = some s' := by
  unfold setMemory at h
  cases hN : vm.memoryNumBytes s with
  | none => simp [hN] at h
  | some N =>
    simp only [hN, Option.bind_eq_bind, Option.some_bind] at h
    split at h
    · cases h
    · cases hb : vm.memoryBase with
      | none => simp [hb] at h
      | some base =>
        cases hw : s.writeAt (base.add p.toNat) n.toNat data with
        | none => simp [hb, hw] at h
        | some s'' =>
          simp only [hb, hw, Option.some_bind, Option.pure_def, Option.some.injEq,
            Prod.mk.injEq, true_and] at h
          exact ⟨N, base, rfl, ‹_›, rfl, h ▸ hw⟩

theorem getWord_eq_getMemory (p : UInt64) (d : Word) :
    vm.getWord s p d = (vm.getMemory s p 4).bind fun v? => match v? with
      | none => some (false, d)
      | some v => (s.readView v).map fun b => (true, ⟨(decodeU32 b).toUInt64⟩) := by
  unfold getWord getMemory
  cases vm.memoryNumBytes s with
  | none => rfl
  | some N =>
    simp only [Option.bind_eq_bind, Option.some_bind]
    split
    · rfl
    · cases vm.memoryBase with
      | none => rfl
      | some base =>
        simp only [Option.some_bind, Option.pure_def, Store.readView,
          show (4 : UInt64).toNat = 4 from rfl]
        cases s.readAt (base.add p.toNat) 4 <;> rfl

theorem Word.u32_eq (w : Word) : w.u32 = UInt32.ofNat (w.u64.toNat % 2 ^ 32) := by
  apply UInt32.toNat.inj
  rw [Word.u32, UInt64.toUInt32_toNat,
    UInt32.toNat_ofNat_of_lt (n := w.u64.toNat % 2 ^ 32) (by unfold UInt32.size; omega)]

theorem getWord_inv {p : UInt64} {d d' : Word} {b : Bool}
    (h : vm.getWord s p d = some (b, d')) :
    (b = false ∧ d' = d) ∨ (b = true ∧ ∃ x : UInt32, d' = ⟨x.toUInt64⟩) := by
  rw [getWord_eq_getMemory] at h
  rcases hg : vm.getMemory s p 4 with _ | _ | v <;> rw [hg] at h
  · cases h
  · simp only [Option.some_bind, Option.some.injEq, Prod.mk.injEq] at h
    exact .inl ⟨h.1.symm, h.2.symm⟩
  · simp only [Option.some_bind, Option.map_eq_some', Prod.mk.injEq] at h
    obtain ⟨bytes, -, hb, hd⟩ := h
    exact .inr ⟨hb.symm, _, hd.symm⟩

theorem getWord_of_setWord_true {p : UInt64} {w d : Word} {s' : Store}
    (h : vm.setWord s p w = some (true, s')) :
    vm.getWord s' p d = some (true, ⟨UInt64.ofNat (w.u64.toNat % 2 ^ 32)⟩) := by
  obtain ⟨N, base, hN, hc, hb, hw⟩ := setMemory_eq_true h
  rw [show (4 : UInt64).toNat = 4 from rfl] at hw
  simp only [getWord, memoryNumBytes_of_writeAt vm hw, hN, hb, Option.bind_eq_bind,
    Option.some_bind, if_neg hc, Store.readAt_writeAt hw, decodeU32_encodeU32, Option.pure_def,
    Option.some.injEq, Prod.mk.injEq, true_and, Word.mk.injEq]
  rw [Word.u32_eq]
  apply UInt64.toNat.inj
  rw [UInt64.toNat_ofNat_of_lt (n := w.u64.toNat % 2 ^ 32) (by unfold UInt64.size; omega)]
  exact UInt32.toNat_ofNat_of_lt (by unfold UInt32.size; omega)

/-- The word accessors are the byte accessors on four bytes: `setWord` is `setMemory` of the
bytes of `w.u64_ mod 2 ^ 32`; `getWord` is `getMemory` followed by reading those bytes in the
same order; a `getWord` that succeeds stores a value below `2 ^ 32` and one that fails
leaves `*data` as it was; and after a successful `setWord` the word read back is
`w.u64_ mod 2 ^ 32`. -/
theorem word_accessors (p : UInt64) (w d : Word) :
    vm.setWord s p w = vm.setMemory s p 4 (encodeU32 (UInt32.ofNat (w.u64.toNat % 2 ^ 32))) ∧
    vm.getWord s p d = (vm.getMemory s p 4).bind (fun v? => match v? with
      | none => some (false, d)
      | some v => (s.readView v).map fun b => (true, ⟨(decodeU32 b).toUInt64⟩)) ∧
    (∀ d', vm.getWord s p d = some (true, d') → d'.u64.toNat < 2 ^ 32) ∧
    (∀ d', vm.getWord s p d = some (false, d') → d' = d) ∧
    (∀ s', vm.setWord s p w = some (true, s') →
      vm.getWord s' p d = some (true, ⟨UInt64.ofNat (w.u64.toNat % 2 ^ 32)⟩)) := by
  refine ⟨by rw [setWord, Word.u32_eq], getWord_eq_getMemory p d, fun d' h => ?_,
    fun d' h => ?_, fun _ h => getWord_of_setWord_true h⟩
  · obtain ⟨⟨⟩, -⟩ | ⟨-, x, rfl⟩ := getWord_inv h
    exact x.toNat_lt_size
  · obtain ⟨-, rfl⟩ | ⟨⟨⟩, -⟩ := getWord_inv h
    rfl

/-- At `pointer = 2 ^ 64 - 1` and `size = 1` the `uint64_t` sum wraps to 0 and the check
passes: `getMemory` returns a view of the byte at offset `2 ^ 64 - 1`, past the end of the
memory, and `setMemory` copies there. -/
theorem MemoryAt.wrapped_access (h : vm.MemoryAt s r m) (data : Nat → UInt8) :
    vm.getMemory s 18446744073709551615 1 = some (some ⟨⟨r, 18446744073709551615⟩, 1⟩) ∧
      m.size < 18446744073709551615 + 1 ∧ vm.setMemory s 18446744073709551615 1 data = none := by
  have hm := m.size_le
  have h1 : (18446744073709551615 : UInt64).toNat = 18446744073709551615 := rfl
  have h2 : (1 : UInt64).toNat = 1 := rfl
  refine ⟨?_, by omega, ?_⟩
  · rw [h.getMemory, h1, h2, if_pos (by unfold UInt64.size; omega)]
  · rw [h.setMemory, h1, h2, if_pos (by unfold UInt64.size; omega), if_neg (by omega)]

end Wavm

/-- One page of zeroed memory. -/
def onePageMemory : Memory := ⟨1, by decide, fun _ => 0⟩

/-- A module with one page of memory and no imports. -/
def onePageModule : IRModule := { memory := some onePageMemory }

/-- After `load` and `link` of that module, the memory is 65536 bytes, and `getMemory` at
`pointer = 2 ^ 64 - 1`, `size = 1` returns a view at offset `2 ^ 64 - 1`, while `setMemory`
there copies past the end of the memory. -/
theorem wrapped_access_after_link (asString : ExternType → String) (data : Nat → UInt8) :
    let eng : Engine := ⟨fun _ => none, fun _ => some onePageModule, asString⟩
    let (_, vm, s) := ({} : Wavm).load eng [] [] false
    (vm.link eng ⟨s, none, [], 0⟩).map (fun (vm, w) => (vm.getMemorySize w.store,
      vm.getMemory w.store 18446744073709551615 1,
      vm.setMemory w.store 18446744073709551615 1 data)) =
    some (some 65536, some (some ⟨⟨⟨0, 0⟩, 18446744073709551615⟩, 1⟩), none) := by
  intro eng
  obtain ⟨vm, w, hl, hat⟩ : ∃ vm w, (({} : Wavm).load eng [] [] false).2.1.link eng
      ⟨(({} : Wavm).load eng [] [] false).2.2, none, [], 0⟩ = some (vm, w) ∧
      vm.MemoryAt w.store ⟨0, 0⟩ onePageMemory := ⟨_, _, rfl, rfl, rfl, rfl⟩
  obtain ⟨hget, -, hset⟩ := hat.wrapped_access data
  show Option.map _ (((({} : Wavm).load eng [] [] false).2.1.link eng
      ⟨(({} : Wavm).load eng [] [] false).2.2, none, [], 0⟩)) = _
  simp only [hl, Option.map_some', Wavm.getMemorySize, hat.memoryNumBytes, hget, hset]
  rfl

end WavmHost
