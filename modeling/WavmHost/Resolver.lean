import WavmHost.Vm

/-!
# `RootResolver::resolve`

The resolver that `link` hands to `linkModule`. It looks the import up among the instances
it holds by module name, then asks its fallback resolvers in order. `WasmVm::error` is a
`void` member that nothing in src/ makes non-returning, so it is modelled as a report after
which control goes on: after a type mismatch the search continues into the fallback loop,
and a search that finds nothing flows off the end of the `bool` function, which is
undefined behaviour.
-/

namespace WavmHost

/-- A fallback `Runtime::Resolver`: `some o` when it returns true with `out_object = o`. -/
abbrev Resolver := String → String → ExternType → Option Object

/-- How a call of a `resolve` function ends: true with its `out_object`, false, or undefined
behaviour. -/
inductive Resolution where
  | resolved (o : Object)
  | unresolved
  | undefined
  deriving DecidableEq, Repr

/-- The state of a `RootResolver`: the named instances and the fallback resolvers. -/
structure RootResolver where
  moduleNameToInstanceMap : List (String × ModuleInstance)
  resolvers : List Resolver

/-- The loop over `resolvers_`: the object of the first resolver that succeeds. -/
def firstResolved (moduleName exportName : String) (type : ExternType) :
    List Resolver → Option Object
  | [] => none
  | f :: fs => match f moduleName exportName type with
    | some o => some o
    | none => firstResolved moduleName exportName type fs

theorem firstResolved_eq_findSome? (moduleName exportName : String) (type : ExternType)
    (fs : List Resolver) :
    firstResolved moduleName exportName type fs = fs.findSome? (· moduleName exportName type) := by
  induction fs with
  | nil => rfl
  | cons f fs ih => cases h : f moduleName exportName type <;> simp [firstResolved, h, ih]

def typeMismatchMessage (eng : Engine) (moduleName exportName : String) (found type : ExternType) :
    String :=
  "Failed to load WASM module due to a type mismatch in an import: " ++ moduleName ++ "." ++
    exportName ++ " " ++ eng.asString found ++ " but was expecting type: " ++ eng.asString type

def missingImportMessage (eng : Engine) (moduleName exportName : String) (type : ExternType) :
    String :=
  "Failed to load Wasm module due to a missing import: " ++ moduleName ++ "." ++ exportName ++
    " " ++ eng.asString type

namespace RootResolver

/-- `module_name_to_instance_map_.get(module_name)`. -/
def namedInstance (r : RootResolver) (moduleName : String) : Option ModuleInstance :=
  (r.moduleNameToInstanceMap.find? (·.1 = moduleName)).map (·.2)

/-- The export of that name of the instance of that module name. -/
def namedExport (r : RootResolver) (moduleName exportName : String) : Option Object :=
  (r.namedInstance moduleName).bind (getInstanceExport · exportName)

/-- The fallback loop and the end of `resolve`, after the reports made so far. -/
def searchResolvers (eng : Engine) (r : RootResolver) (moduleName exportName : String)
    (type : ExternType) (reports : List String) : List String × Resolution :=
  match firstResolved moduleName exportName type r.resolvers with
  | some o => (reports, .resolved o)
  | none => (reports ++ [missingImportMessage eng moduleName exportName type], .undefined)

/-- `resolve`, with the messages it passes to `error`. -/
def resolve (eng : Engine) (r : RootResolver) (moduleName exportName : String)
    (type : ExternType) : List String × Resolution :=
  match r.namedExport moduleName exportName with
  | some o =>
    if isA o type then ([], .resolved o)
    else r.searchResolvers eng moduleName exportName type
      [typeMismatchMessage eng moduleName exportName o.type type]
  | none => r.searchResolvers eng moduleName exportName type []

variable (eng : Engine) (r : RootResolver) (moduleName exportName : String) (type : ExternType)

theorem resolve_of_none (h : r.namedExport moduleName exportName = none) :
    r.resolve eng moduleName exportName type = r.searchResolvers eng moduleName exportName type [] := by
  simp [resolve, h]

theorem resolve_of_isA {x : Object} (h : r.namedExport moduleName exportName = some x)
    (hx : isA x type = true) : r.resolve eng moduleName exportName type = ([], .resolved x) := by
  simp [resolve, h, hx]

theorem resolve_of_not_isA {x : Object} (h : r.namedExport moduleName exportName = some x)
    (hx : isA x type = false) :
    r.resolve eng moduleName exportName type = r.searchResolvers eng moduleName exportName type
      [typeMismatchMessage eng moduleName exportName x.type type] := by
  simp [resolve, h, hx]

theorem searchResolvers_ne_unresolved (reports : List String) :
    (r.searchResolvers eng moduleName exportName type reports).2 ≠ .unresolved := by
  unfold searchResolvers; split <;> simp

/-- `resolve` never returns false: every search that fails flows off the end. -/
theorem resolve_ne_unresolved : (r.resolve eng moduleName exportName type).2 ≠ .unresolved := by
  cases h : r.namedExport moduleName exportName with
  | none => rw [resolve_of_none eng r moduleName exportName type h]; apply searchResolvers_ne_unresolved
  | some x =>
    cases hx : isA x type
    · rw [resolve_of_not_isA eng r moduleName exportName type h hx]; apply searchResolvers_ne_unresolved
    · simp [resolve_of_isA eng r moduleName exportName type h hx]

theorem searchResolvers_resolved_iff (reports : List String) (o : Object) :
    (r.searchResolvers eng moduleName exportName type reports).2 = .resolved o ↔
      r.resolvers.findSome? (· moduleName exportName type) = some o := by
  rw [← firstResolved_eq_findSome?]
  unfold searchResolvers
  split <;> simp_all

/-- What `resolve` succeeds with: a named export of the requested type, or else, whether
no named export exists or it has another type, the first fallback resolver's object. -/
theorem resolve_resolved_iff (o : Object) :
    (r.resolve eng moduleName exportName type).2 = .resolved o ↔
      (r.namedExport moduleName exportName = some o ∧ isA o type) ∨
      ((∀ x, r.namedExport moduleName exportName = some x → isA x type = false) ∧
        r.resolvers.findSome? (· moduleName exportName type) = some o) := by
  cases h : r.namedExport moduleName exportName with
  | none => simp [resolve_of_none eng r moduleName exportName type h, searchResolvers_resolved_iff]
  | some x =>
    cases hx : isA x type
    · have hne : ¬(x = o ∧ isA o type = true) := by rintro ⟨rfl, h⟩; simp [hx] at h
      simp [resolve_of_not_isA eng r moduleName exportName type h hx, searchResolvers_resolved_iff,
        hne, hx]
    · simp only [resolve_of_isA eng r moduleName exportName type h hx, Resolution.resolved.injEq,
        Option.some.injEq]
      constructor
      · rintro rfl; exact .inl ⟨rfl, hx⟩
      · rintro (⟨rfl, -⟩ | ⟨h, -⟩)
        · rfl
        · simp [h x rfl] at hx

/-- Without fallback resolvers, `resolve` succeeds only with the named export, and only when it
has the requested type. -/
theorem resolve_resolved_named (h : r.resolvers = []) {o : Object}
    (ho : (r.resolve eng moduleName exportName type).2 = .resolved o) :
    r.namedExport moduleName exportName = some o ∧ isA o type = true := by
  cases hn : r.namedExport moduleName exportName with
  | none =>
    simp [resolve_of_none eng r moduleName exportName type hn, searchResolvers, firstResolved, h] at ho
  | some x =>
    cases hx : isA x type
    · simp [resolve_of_not_isA eng r moduleName exportName type hn hx, searchResolvers,
        firstResolved, h] at ho
    · rw [resolve_of_isA eng r moduleName exportName type hn hx, Resolution.resolved.injEq] at ho
      exact ⟨ho ▸ rfl, ho ▸ hx⟩

/-- Without fallback resolvers, `resolve` succeeds only with a named export of the requested
type, and then reports nothing. -/
theorem resolve_resolved_quiet (h : r.resolvers = []) {o : Object}
    (ho : (r.resolve eng moduleName exportName type).2 = .resolved o) :
    (r.resolve eng moduleName exportName type).1 = [] := by
  obtain ⟨hn, hx⟩ := resolve_resolved_named eng r moduleName exportName type h ho
  simp [resolve_of_isA eng r moduleName exportName type hn hx]

end RootResolver

/-- The function `link` exports for a callback `env.f` registered as `void(void *)`, and an
object of type `void(i32)`, the type of a wasm import `env.f` that takes an `i32`. -/
def hostF : Object := ⟨⟨0, 0⟩, .function ⟨[], [], .wasm⟩⟩

def fallbackF : Object := ⟨⟨0, 1⟩, .function ⟨[], [.i32], .wasm⟩⟩

/-- The resolver `link` builds when `env.f` is registered: the instance `env` exporting `f`, and
no fallback resolver. -/
def mismatchResolver : RootResolver := ⟨[("env", ⟨[("f", hostF)], none⟩)], []⟩

/-- The import `env.f` of type `void(i32)` through the resolver `link` builds: `resolve` reports
the type mismatch, then the missing import, and flows off its end. With a fallback resolver
offering an `f` of that type, it reports the mismatch and then succeeds with the fallback's
object. -/
theorem resolve_mismatch_falls_through (eng : Engine) :
    mismatchResolver.resolve eng "env" "f" fallbackF.type =
        ([typeMismatchMessage eng "env" "f" hostF.type fallbackF.type,
          missingImportMessage eng "env" "f" fallbackF.type], .undefined) ∧
      ({ mismatchResolver with resolvers := [fun _ _ _ => some fallbackF] } : RootResolver).resolve
          eng "env" "f" fallbackF.type =
        ([typeMismatchMessage eng "env" "f" hostF.type fallbackF.type], .resolved fallbackF) :=
  ⟨rfl, rfl⟩

end WavmHost
