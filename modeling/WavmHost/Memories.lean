import Mathlib.Data.Fin.Basic
import WavmHost.Separation

/-!
# The memories of an embedding

What the host accesses are for, over several VMs at once: each VM has a linear memory of its
own, and an access to one VM's memory shows what that memory shows and changes no other. The
VMs share one store, so this is a refinement: host accesses interleaved over VMs whose memories
lie in compartments of their own, one each, are runs of the abstract machine. In every
reachable state of an embedding this holds of all its VMs with a memory, since each VM refers
only to the compartment it owns and no two VMs own the same one.
-/

namespace WavmHost

namespace LinearMemory

variable {ι : Type} [DecidableEq ι]

/-- Modelled from the spec: host accesses interleaved over several VMs, each VM's memory a
linear memory of its own that accesses to the others leave alone. -/
def sysRun : List (ι × Access) → (ι → LinearMemory) → List (ι × Observation) × (ι → LinearMemory)
  | [], Ms => ([], Ms)
  | (i, a) :: ops, Ms =>
    let r := sysRun ops (Function.update Ms i ((Ms i).access a).2)
    ((i, ((Ms i).access a).1) :: r.1, r.2)

/-- The accesses made on VM `i`, in order. -/
def accessesOf (i : ι) (ops : List (ι × Access)) : List Access :=
  ops.filterMap fun (j, a) => if j = i then some a else none

/-- In the abstract machine each VM's memory is its own: what VM `i` is seen to do, and the
memory it ends with, are those of its own accesses run alone. -/
theorem sysRun_alone (i : ι) (ops : List (ι × Access)) (Ms : ι → LinearMemory) :
    (observationsOf i (sysRun ops Ms).1, (sysRun ops Ms).2 i) = run (accessesOf i ops) (Ms i) := by
  induction ops generalizing Ms with
  | nil => rfl
  | cons op ops ih =>
    obtain ⟨j, a⟩ := op
    have h := ih (Function.update Ms j ((Ms j).access a).2)
    by_cases hji : j = i
    · subst hji
      rw [Function.update_same] at h
      simp only [sysRun, observationsOf, accessesOf, List.filterMap_cons, if_pos, run] at h ⊢
      rw [← h]
    · rw [Function.update_noteq (Ne.symm hji)] at h
      simpa [sysRun, observationsOf, accessesOf, List.filterMap_cons, hji] using h

end LinearMemory

/-- VM 0 writes the word 7 at offset 8 of its memory, then VM 1 reads the word there. -/
def crossAccesses : List (Fin 2 × Access) := [(0, .setWord 8 ⟨7⟩), (1, .getWord 8 ⟨0⟩)]

/-- Over two memories of one zeroed page, VM 1 reads 0: VM 0's write is in VM 0's memory. -/
example : (LinearMemory.sysRun crossAccesses fun _ => ⟨65536, fun _ => 0, []⟩).1 =
    [(0, .written true), (1, .word true ⟨0⟩)] := by decide

/-- Agreeing on the compartment of `r` keeps `r` holding what `M` describes. -/
theorem Wavm.Holds.congr {vm : Wavm} {s s' : Store} {r : Ref} {M : LinearMemory}
    (h : vm.Holds s r M) (hs : s'[r.compartment]? = s[r.compartment]?) : vm.Holds s' r M :=
  let ⟨m, hm, hsize, hbytes⟩ := h
  ⟨m, ⟨hm.memory_eq, (Store.memory_congr rfl hs).trans hm.store_eq, hm.base_eq⟩, hsize, hbytes⟩

section

variable {ι : Type} [DecidableEq ι] {vms : ι → Wavm} {r : ι → Ref}

/-- Each VM refers only to the compartment of its memory `r i`, and no two VMs' memories share a
compartment. -/
structure OwnMemories (vms : ι → Wavm) (r : ι → Ref) : Prop where
  refers : ∀ i, (vms i).Refers (· = (r i).compartment)
  injective : ∀ i j, (r i).compartment = (r j).compartment → i = j

/-- One access that does not wrap, on VM `j`, is that access on VM `j`'s abstract memory, and
every other VM's memory holds what it held. -/
theorem OwnMemories.sysStep_access (hv : OwnMemories vms r) {w : World} {Ms : ι → LinearMemory}
    (h : ∀ i, (vms i).Holds w.store (r i) (Ms i)) (j : ι) {a : Access} (ha : a.NoWrap) :
    ∃ w', sysStep vms w (j, .access a) = some ((j, ((Ms j).access a).1), w') ∧
      ∀ i, (vms i).Holds w'.store (r i) (Function.update Ms j ((Ms j).access a).2 i) := by
  obtain ⟨w', hacc, hj⟩ := (h j).access w rfl ha
  have hframe :=
    (Wavm.step_within (hv.refers j) (show (vms j).step w (.access a) = some _ from hacc)).1.frame
  refine ⟨w', by simp [sysStep, Wavm.step, hacc], fun i => ?_⟩
  by_cases hij : i = j
  · subst hij; rwa [Function.update_same]
  · rw [Function.update_noteq hij]
    exact (h i).congr (hframe _ fun hc => hij (hv.injective i j hc))

/-- Interleaved accesses that do not wrap, on VMs with memories of their own, are a run of the
abstract machine. -/
theorem OwnMemories.runSteps_access (hv : OwnMemories vms r) (ops : List (ι × Access))
    (hops : ∀ op ∈ ops, op.2.NoWrap) : ∀ (w : World) (Ms : ι → LinearMemory),
      (∀ i, (vms i).Holds w.store (r i) (Ms i)) →
      ∃ w', runSteps (sysStep vms) (ops.map fun op => (op.1, .access op.2)) w =
          ((LinearMemory.sysRun ops Ms).1, some w') ∧
        ∀ i, (vms i).Holds w'.store (r i) ((LinearMemory.sysRun ops Ms).2 i) := by
  induction ops with
  | nil => exact fun w Ms h => ⟨w, rfl, h⟩
  | cons op ops ih =>
    obtain ⟨j, a⟩ := op
    intro w Ms h
    obtain ⟨w₁, hstep, h₁⟩ := hv.sysStep_access h j (hops _ (List.mem_cons_self _ _))
    obtain ⟨w₂, hrun, h₂⟩ := ih (fun op hop => hops op (List.mem_cons_of_mem _ hop)) w₁ _ h₁
    exact ⟨w₂, by simp only [List.map_cons, runSteps, hstep, hrun, LinearMemory.sysRun], h₂⟩

end

/-- In a reachable state, VMs with memories keep their memories in compartments of their own. -/
theorem Embedding.reachable_ownMemories {E : Embedding} (h : E.Reachable) {ι : Type}
    (sel : ι → Fin E.vms.length) (hsel : Function.Injective sel) (r : ι → Ref)
    (hr : ∀ i, (E.vms.get (sel i)).memory = some (r i)) : OwnMemories (E.vms.get ∘ sel) r := by
  have hA := reachable_apart h
  have hhome : ∀ i, (E.vms.get (sel i)).home = some (r i).compartment := fun i =>
    (hA.refers _ (List.get_mem ..)).memory _ (hr i)
  refine ⟨fun i => (hA.refers _ (List.get_mem ..)).mono fun c hc =>
    Option.some_injective _ (hc.symm.trans (hhome i)), fun i j hij => hsel ?_⟩
  by_contra hne
  exact hA.disjoint (sel i) (sel j) (sel i).2 (sel j).2 (Fin.val_ne_of_ne hne) _
    (Wavm.mem_owned_of_home (hhome i)) (hij ▸ Wavm.mem_owned_of_home (hhome j))

/-- In every reachable state of an embedding, host accesses interleaved over any of its VMs with
a memory, none of them wrapping `pointer + size`, run to the end and are a run of separate
last-writer-wins memories, one for each VM, started from the contents of its memory: the trace
is the abstract one, and each VM's memory ends as its abstract memory describes. -/
theorem reachable_memories_refine {E : Embedding} (h : E.Reachable) {ι : Type} [DecidableEq ι]
    (sel : ι → Fin E.vms.length) (hsel : Function.Injective sel) (r : ι → Ref) (m : ι → Memory)
    (hm : ∀ i, (E.vms.get (sel i)).MemoryAt E.world.store (r i) (m i))
    (ops : List (ι × Access)) (hops : ∀ op ∈ ops, op.2.NoWrap) :
    ∃ w', runSteps (sysStep (E.vms.get ∘ sel)) (ops.map fun op => (op.1, .access op.2)) E.world =
        ((LinearMemory.sysRun ops fun i => ⟨(m i).size, (m i).bytes, []⟩).1, some w') ∧
      ∀ i, (E.vms.get (sel i)).Holds w'.store (r i)
        ((LinearMemory.sysRun ops fun i => ⟨(m i).size, (m i).bytes, []⟩).2 i) :=
  (Embedding.reachable_ownMemories h sel hsel r fun i => (hm i).memory_eq).runSteps_access ops hops
    E.world _ fun i => ⟨m i, hm i, rfl, fun _ => rfl⟩

/-- The one-page VM and its clone, the two VMs of `clonedEmbedding`. -/
def clonedPair : Fin 2 → Fin clonedEmbedding.vms.length := Fin.castLE (by decide)

theorem clonedPair_memoryAt :
    ∀ i, (clonedEmbedding.vms.get (clonedPair i)).MemoryAt clonedEmbedding.world.store ⟨i, 0⟩
      onePageMemory :=
  Fin.forall_fin_two.mpr ⟨⟨rfl, rfl, rfl⟩, ⟨rfl, rfl, rfl⟩⟩

theorem reachable_memories_refine_cloned :
    clonedEmbedding.Reachable ∧ Function.Injective clonedPair ∧
      (∀ i, (clonedEmbedding.vms.get (clonedPair i)).MemoryAt clonedEmbedding.world.store ⟨i, 0⟩
        onePageMemory) ∧ (∀ op ∈ crossAccesses, op.2.NoWrap) ∧
      ∃ w', runSteps (sysStep (clonedEmbedding.vms.get ∘ clonedPair))
            (crossAccesses.map fun op => (op.1, .access op.2)) clonedEmbedding.world =
          ((LinearMemory.sysRun crossAccesses fun _ =>
            ⟨onePageMemory.size, onePageMemory.bytes, []⟩).1, some w') ∧
        ∀ i, (clonedEmbedding.vms.get (clonedPair i)).Holds w'.store ⟨i, 0⟩
          ((LinearMemory.sysRun crossAccesses fun _ =>
            ⟨onePageMemory.size, onePageMemory.bytes, []⟩).2 i) :=
  have hops : ∀ op ∈ crossAccesses, op.2.NoWrap := by decide
  ⟨clonedEmbedding_reachable, Fin.castLE_injective _, clonedPair_memoryAt, hops,
    reachable_memories_refine clonedEmbedding_reachable clonedPair (Fin.castLE_injective _)
      (fun i => ⟨i, 0⟩) (fun _ => onePageMemory) clonedPair_memoryAt crossAccesses hops⟩

/-- In every reachable state of an embedding, in any interleaving of host accesses over its VMs
with a memory, none wrapping `pointer + size`, what one VM is seen to do is what its own
accesses alone show on a last-writer-wins memory started from the contents of its memory. -/
theorem reachable_vm_sees_own_accesses {E : Embedding} (h : E.Reachable) {ι : Type}
    [DecidableEq ι] (sel : ι → Fin E.vms.length) (hsel : Function.Injective sel) (r : ι → Ref)
    (m : ι → Memory) (hm : ∀ i, (E.vms.get (sel i)).MemoryAt E.world.store (r i) (m i))
    (ops : List (ι × Access)) (hops : ∀ op ∈ ops, op.2.NoWrap) (i : ι) :
    observationsOf i
        (runSteps (sysStep (E.vms.get ∘ sel)) (ops.map fun op => (op.1, .access op.2)) E.world).1 =
      (LinearMemory.run (LinearMemory.accessesOf i ops) ⟨(m i).size, (m i).bytes, []⟩).1 := by
  obtain ⟨w', hrun, -⟩ := (Embedding.reachable_ownMemories h sel hsel r fun i => (hm i).memory_eq
    ).runSteps_access ops hops E.world (fun i => ⟨(m i).size, (m i).bytes, []⟩)
    fun i => ⟨m i, hm i, rfl, fun _ => rfl⟩
  rw [hrun]
  exact congrArg Prod.fst (LinearMemory.sysRun_alone i ops _)

theorem reachable_vm_sees_own_accesses_cloned :
    clonedEmbedding.Reachable ∧ Function.Injective clonedPair ∧
      (∀ i, (clonedEmbedding.vms.get (clonedPair i)).MemoryAt clonedEmbedding.world.store ⟨i, 0⟩
        onePageMemory) ∧ (∀ op ∈ crossAccesses, op.2.NoWrap) ∧
      observationsOf 1 (runSteps (sysStep (clonedEmbedding.vms.get ∘ clonedPair))
          (crossAccesses.map fun op => (op.1, .access op.2)) clonedEmbedding.world).1 =
        (LinearMemory.run (LinearMemory.accessesOf 1 crossAccesses)
          ⟨onePageMemory.size, onePageMemory.bytes, []⟩).1 :=
  have hops : ∀ op ∈ crossAccesses, op.2.NoWrap := by decide
  ⟨clonedEmbedding_reachable, Fin.castLE_injective _, clonedPair_memoryAt, hops,
    reachable_vm_sees_own_accesses clonedEmbedding_reachable clonedPair (Fin.castLE_injective _)
      (fun i => ⟨i, 0⟩) (fun _ => onePageMemory) clonedPair_memoryAt crossAccesses hops 1⟩

end WavmHost
