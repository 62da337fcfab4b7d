import WavmHost.MemoryAccess

/-!
# Calling guest functions

`getFunctionWavm` and the two `getFunctionWavmReturn`, for `uint32_t` and for `void`
results, with the lambda they install, whose body is `CALL_WITH_CONTEXT` around
`invokeFunction` inside a `try` that catches `std::exception`.

What a guest function does when WAVM runs it is a tree of its effects on the embedding:
reading, writing and growing its linear memory, calling a host callback that reads the
effective context, calling a host callback that re-enters the VM through a callable
obtained from `getFunction`, trapping, and returning. A trap creates a `Runtime::Exception`
that unwinds to the innermost `catchRuntimeExceptions`.
-/

namespace WavmHost

/-- The result of a native signature: `uint32_t`, or `void` (matched as `Void`). -/
inductive ResultKind where
  | u32 | void
  deriving DecidableEq, Repr

/-- A native signature `R(ContextBase *, uint32_t, ...)` that `getFunctionWavm` is
instantiated for: its result and its number of `uint32_t` arguments. -/
structure Signature where
  result : ResultKind
  arity : Nat
  deriving DecidableEq, Repr

/-- `IR::inferResultType<R>()`. -/
def ResultKind.results : ResultKind → List ValueType
  | .u32 => [.i32]
  | .void => []

/-- `inferStdFunctionType`: `i32` for every argument, in the default calling convention. -/
def inferStdFunctionType (sig : Signature) : FunctionType :=
  ⟨sig.result.results, List.replicate sig.arity .i32, .wasm⟩

/-- `checkFunctionType`: `getFunctionType(f) == t`. -/
def checkFunctionType (type t : FunctionType) : Bool := type = t

/-- `asFunctionNullable`: the object with its function type when it is a function. -/
def asFunctionNullable (o : Option Object) : Option (Object × FunctionType) :=
  o.bind fun o => o.functionType?.map (o, ·)

/-- The lambda `getFunctionWavmReturn` installs, by what it captures: `wavm->context_`, `f`
with `getFunctionType(f)`, `function_name`, and the signature it was instantiated for. WAVM
runs `f` against the default memory of `f`'s instance, recorded as `memory`. -/
structure Callable where
  context : Option Ref
  f : Object
  type : FunctionType
  name : String
  sig : Signature
  memory : Option Ref

/-- What a guest function does when WAVM runs it. -/
inductive Guest where
  | ret (value : UInt64)
  | trap (description : String)
  | load (offset : Nat) (k : UInt8 → Guest)
  | store (offset : Nat) (value : UInt8) (k : Guest)
  | grow (delta : Nat) (k : Bool → Guest)
  | callback (k : Option Ctx → Guest)
  | reenter (name : String) (sig : Signature) (ctx : Ctx) (args : List UInt32) (run : Guest)
      (k : Guest)

/-- How a guest run ends: it returns the untagged return slot, a `Runtime::Exception` is in
flight, or undefined behaviour. -/
inductive GuestEnd where
  | returned (value : UInt64) (w : World)
  | trapped (description : String) (w : World)
  | undefined

/-- How a call of an installed callable ends: it returns, with a `uint32_t` or nothing, or
undefined behaviour. -/
inductive CallEnd where
  | returned (value : Option UInt32) (w : World)
  | undefined

/-- The report the lambda's `catch` makes: `function_name` and `e.what()`, which for the
`WasmException` that `CALL_WITH_CONTEXT` throws is `describeException`'s description. -/
def failedMessage (name description : String) : String :=
  "Function: " ++ name ++ " failed: " ++ description

namespace Callable

/-- A call of the lambda. `values[]` holds the arguments; `invokeFunction` reads one per
parameter of `f`, past the array when there are fewer, and on return writes `f`'s results
through the results pointer, which holds one slot in the `uint32_t` lambda and none in the
`void` lambda. `SaveRestoreContext` installs `ctx` and restores the previous context when its
scope ends, normally or by the `WasmException` the handler throws after describing and
destroying the `Runtime::Exception`; the `catch` then reports. The `uint32_t` lambda then flows
off its end. `exec` is what WAVM does for the invocation. -/
def call (cl : Callable) (ctx : Ctx) (args : List UInt32) (exec : World → GuestEnd) (w : World) :
    CallEnd :=
  if cl.context.isNone ∨ args.length < cl.type.params.length then .undefined
  else
    match exec { w with context := some ctx } with
    | .returned v w' =>
      if cl.type.results.length ≤ cl.sig.result.results.length then
        .returned (match cl.sig.result with
          | .u32 => some v.toUInt32
          | .void => none) { w' with context := w.context }
      else .undefined
    | .trapped description w' =>
      let w' := ({ w' with liveExceptions := w'.liveExceptions - 1, context := w.context } : World)
        |>.error (failedMessage cl.name description)
      match cl.sig.result with
      | .u32 => .undefined
      | .void => .returned none w'
    | .undefined => .undefined

end Callable

namespace Wavm

/-- `getFunctionWavmReturn`, for either result: the export looked up twice, `nullptr` when it
is not a function, a report when its type is not the inferred one, and the lambda installed
after the report all the same. `none` is undefined behaviour: `module_instance_` not set. -/
def getFunctionWavmReturn (vm : Wavm) (w : World) (functionName : String) (sig : Signature) :
    Option (Option Callable × World) := do
  let instRef ← vm.moduleInstance
  let inst ← w.store.moduleInstance instRef
  let f := asFunctionNullable (getInstanceExport inst functionName)
  let f := f <|> asFunctionNullable (getInstanceExport inst functionName)
  match f with
  | none => pure (none, w)
  | some (f, type) =>
    let w := if checkFunctionType type (inferStdFunctionType sig) then w
      else w.error ("Bad function signature for: " ++ functionName)
    pure (some ⟨vm.context, f, type, functionName, sig, w.store.defaultMemory instRef⟩, w)

/-- `getFunctionWavm`: `getFunctionWavmReturn` chosen by the result type. -/
def getFunction (vm : Wavm) (w : World) (functionName : String) (sig : Signature) :
    Option (Option Callable × World) :=
  vm.getFunctionWavmReturn w functionName sig

/-- WAVM running a guest function of `vm` whose code addresses the memory `mem`. A memory
access outside the memory traps; a host callback that re-enters the VM gets its callable
from `getFunction` and does nothing when there is none. -/
def runGuest (vm : Wavm) (mem : Option Ref) : Guest → World → GuestEnd
  | .ret v, w => .returned v w
  | .trap description, w => .trapped description { w with liveExceptions := w.liveExceptions + 1 }
  | .load off k, w =>
    match mem.bind fun r => w.store.readAt ⟨r, off⟩ 1 with
    | some [b] => runGuest vm mem (k b) w
    | _ => .trapped "outOfBoundsMemoryAccess" { w with liveExceptions := w.liveExceptions + 1 }
  | .store off b k, w =>
    match mem.bind fun r => w.store.writeAt ⟨r, off⟩ 1 fun _ => b with
    | some s => runGuest vm mem k { w with store := s }
    | none => .trapped "outOfBoundsMemoryAccess" { w with liveExceptions := w.liveExceptions + 1 }
  | .grow delta k, w =>
    match mem.bind fun r => (w.store.memory r).bind (·.grow delta) |>.map (r, ·) with
    | some (r, m) => runGuest vm mem (k true) { w with store := w.store.setMemory r m }
    | none => runGuest vm mem (k false) w
  | .callback k, w => runGuest vm mem (k w.context) w
  | .reenter name sig ctx args run k, w =>
    match vm.getFunction w name sig with
    | none => .undefined
    | some (none, w) => runGuest vm mem k w
    | some (some cl, w) =>
      match cl.call ctx args (runGuest vm cl.memory run) w with
      | .returned _ w => runGuest vm mem k w
      | .undefined => .undefined

/-- A host call of a callable obtained from `getFunction` on `vm`, whose guest function does
`g`. -/
def invoke (vm : Wavm) (cl : Callable) (ctx : Ctx) (args : List UInt32) (g : Guest) (w : World) :
    CallEnd :=
  cl.call ctx args (vm.runGuest cl.memory g) w

end Wavm

/-! ## What a call boundary restores -/

/-- A guest run that ends leaves the effective context as it found it, and the live exceptions
as they were, with one more while a trap is in flight. -/
def GuestEnd.Restores (context : Option Ctx) (live : Nat) : GuestEnd → Prop
  | .returned _ w => w.context = context ∧ w.liveExceptions = live
  | .trapped _ w => w.context = context ∧ w.liveExceptions = live + 1
  | .undefined => True

/-- A call that returns leaves the effective context and the live exceptions as it found them. -/
def CallEnd.Restores (context : Option Ctx) (live : Nat) : CallEnd → Prop
  | .returned _ w => w.context = context ∧ w.liveExceptions = live
  | .undefined => True

namespace Wavm

variable {vm : Wavm} {w w' : World} {name : String} {sig : Signature}

theorem getFunctionWavmReturn_eq {r : Ref} {inst : ModuleInstance} (hr : vm.moduleInstance = some r)
    (hi : w.store.moduleInstance r = some inst) :
    vm.getFunctionWavmReturn w name sig =
      some (match asFunctionNullable (getInstanceExport inst name) with
        | none => (none, w)
        | some (f, type) => (some ⟨vm.context, f, type, name, sig, w.store.defaultMemory r⟩,
            if checkFunctionType type (inferStdFunctionType sig) then w
            else w.error ("Bad function signature for: " ++ name))) := by
  simp only [getFunctionWavmReturn, hr, hi, Option.bind_eq_bind, Option.some_bind]
  cases asFunctionNullable (getInstanceExport inst name) with
  | none => rfl
  | some p => by_cases h : checkFunctionType p.2 (inferStdFunctionType sig) <;> simp [h]

theorem getFunction_world {c : Option Callable} (h : vm.getFunction w name sig = some (c, w')) :
    w' = w ∨ w' = w.error ("Bad function signature for: " ++ name) := by
  cases hr : vm.moduleInstance with
  | none => simp [getFunction, getFunctionWavmReturn, hr] at h
  | some r =>
    cases hi : w.store.moduleInstance r with
    | none => simp [getFunction, getFunctionWavmReturn, hr, hi] at h
    | some inst =>
      rw [getFunction, getFunctionWavmReturn_eq hr hi, Option.some_inj] at h
      split at h
      · exact .inl (Prod.ext_iff.mp h).2.symm
      · split at h <;> simp only [Prod.ext_iff] at h <;> simp [← h.2]

end Wavm

namespace Callable

variable {cl : Callable} {ctx : Ctx} {args : List UInt32} {exec : World → GuestEnd} {w : World}

/-- `SaveRestoreContext` and `destroyException`: whatever the invocation does to the context and
to the live exceptions, a call that returns has undone it. -/
theorem call_restores (h : (exec { w with context := some ctx }).Restores (some ctx) w.liveExceptions) :
    (cl.call ctx args exec w).Restores w.context w.liveExceptions := by
  unfold call
  split
  · trivial
  · revert h
    cases exec { w with context := some ctx } with
    | returned v w' => intro h; dsimp only; split; exacts [⟨rfl, h.2⟩, trivial]
    | trapped d w' =>
      intro h
      have hlive : w'.liveExceptions = w.liveExceptions + 1 := h.2
      cases cl.sig.result
      · trivial
      · exact ⟨rfl, by simp only [World.error_liveExceptions]; omega⟩
    | undefined => exact fun _ => trivial

/-- A trap in the guest of a `uint32_t` callable: the `catch` reports and the lambda flows off
its end. -/
theorem call_u32_trap {d : String} {w' : World} (hres : cl.sig.result = .u32)
    (htrap : exec { w with context := some ctx } = .trapped d w') :
    cl.call ctx args exec w = .undefined := by
  unfold call
  split
  · rfl
  · simp only [htrap, hres]

end Callable

namespace Wavm

theorem runGuest_restores (vm : Wavm) (g : Guest) (mem : Option Ref) (w : World) :
    (vm.runGuest mem g w).Restores w.context w.liveExceptions := by
  induction g generalizing mem w with
  | ret v => exact ⟨rfl, rfl⟩
  | trap d => exact ⟨rfl, rfl⟩
  | load off k ih =>
    simp only [runGuest]
    split
    · exact ih _ mem w
    · exact ⟨rfl, rfl⟩
  | store off b k ih =>
    simp only [runGuest]
    split
    · exact ih mem _
    · exact ⟨rfl, rfl⟩
  | grow delta k ih =>
    simp only [runGuest]
    split
    · exact ih _ mem _
    · exact ih _ mem w
  | callback k ih => exact ih _ mem w
  | reenter name sig ctx args run k ihrun ihk =>
    simp only [runGuest]
    split
    · trivial
    · next w' hget => rcases getFunction_world hget with rfl | rfl <;> exact ihk mem _
    · next cl w' hget =>
      have hw : w'.context = w.context ∧ w'.liveExceptions = w.liveExceptions := by
        rcases getFunction_world hget with rfl | rfl <;> simp
      have hcall := @Callable.call_restores cl ctx args _ w' (ihrun cl.memory _)
      split
      · next w'' hret =>
        rw [hret] at hcall
        rw [← hw.1, ← hw.2, ← hcall.1, ← hcall.2]
        exact ihk mem w''
      · trivial

/-- Each host call of a callable, whatever its guest does and however deep the guest re-enters
the VM, returns with the caller's context and no exception left alive, or is undefined. -/
theorem invoke_restores (vm : Wavm) (cl : Callable) (ctx : Ctx) (args : List UInt32) (g : Guest)
    (w : World) : (vm.invoke cl ctx args g w).Restores w.context w.liveExceptions :=
  Callable.call_restores (runGuest_restores vm g cl.memory _)

end Wavm

/-- A module with one page of memory exporting `proxy_on_vm_start`, a function of two `i32`
arguments returning `i32`. -/
def vmStartModule : IRModule :=
  { exports := [("proxy_on_vm_start", .function ⟨[.i32], [.i32, .i32], .wasm⟩)],
    memory := some ⟨1, by decide, fun _ => 0⟩ }

/-- The `uint32_t` callable for `proxy_on_vm_start` of a loaded and linked VM, called when its
guest traps: the `catch` reports and the lambda flows off its end. -/
theorem trap_in_u32_callable (asString : ExternType → String) :
    let eng : Engine := ⟨fun _ => none, fun _ => some vmStartModule, asString⟩
    let (_, vm, s) := ({} : Wavm).load eng [] [] false
    match (vm.link eng ⟨s, none, [], 0⟩).bind fun (vm, w) =>
        (vm.getFunction w "proxy_on_vm_start" ⟨.u32, 2⟩).map (vm, ·) with
    | some (vm, some cl, w) => vm.invoke cl 1 [0, 0] (.trap "unreachable") w = .undefined
    | _ => False :=
  Callable.call_u32_trap rfl rfl

/-- `proxy_on_vm_start` asked for as `uint32_t(ContextBase *, uint32_t)`: the signature is
reported and the callable installed all the same, and a call reads a second argument past
`values[]`. -/
theorem mismatched_signature_installed (asString : ExternType → String) :
    let eng : Engine := ⟨fun _ => none, fun _ => some vmStartModule, asString⟩
    let (_, vm, s) := ({} : Wavm).load eng [] [] false
    match (vm.link eng ⟨s, none, [], 0⟩).bind fun (vm, w) =>
        (vm.getFunction w "proxy_on_vm_start" ⟨.u32, 1⟩).map (vm, ·) with
    | some (vm, some cl, w) => w.reports = ["Bad function signature for: proxy_on_vm_start"] ∧
        vm.invoke cl 1 [0] (.ret 0) w = .undefined
    | _ => False := ⟨rfl, rfl⟩

end WavmHost
