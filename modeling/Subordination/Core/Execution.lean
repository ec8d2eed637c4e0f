import Subordination.Core.ParallelPipeline
import Mathlib.Data.Finset.Basic

/-!
# The execution of kernels

What a worker thread of the parallel pipeline does with a kernel, who owns the kernels meanwhile, and what is left
when the code of a class throws (`core/parallel_pipeline.cc`, `core/kernel.hh`).

## The model

A heap is the memory, with the kernels in it that are alive. What the classes do is a parameter: they may change
kernels, make and destroy them, take over the kernel that they are called with or that is called, and throw before or
after that; by themselves they leave no kernel that refers to one that has been destroyed, and destroy no kernel that
somebody else owns. `rollback` leaves the links of the kernels as they are. What is thrown is a `std::exception`.

## What is proved

* `process_kernel_iff` — when no kernel that is alive refers to one that has been destroyed.
* `react_throws` — a parent that throws is destroyed, and its child refers to it.
-/

namespace Subordination.Core

open Library

section Execution

variable {P : Type}

/-! ### Heaps -/

/-- The kernels that are in memory. -/
structure Heap (P : Type) where
  /-- The memory. -/
  memory : Memory P
  /-- The kernels that have not been destroyed. -/
  alive : Finset UInt64
  /-- There is none at the null pointer. -/
  null : 0 ∉ alive

namespace Heap

/-- The kernel at `b` has the one at `a` as its parent or principal. -/
def Refers (h : Heap P) (b a : UInt64) : Prop := (h.memory b).parent = a ∨ (h.memory b).principal = a

/-- **No kernel that is alive has a parent or principal that has been destroyed.** -/
def Closed (h : Heap P) : Prop := ∀ b ∈ h.alive, ∀ a, a ≠ 0 → h.Refers b a → a ∈ h.alive

/-- Nothing else that is alive refers to the given kernels. -/
def Spares (h : Heap P) (freed : Finset UInt64) : Prop := ∀ b ∈ h.alive, b ∉ freed → ∀ a ∈ freed, ¬ h.Refers b a

/-- The kernel is destroyed. -/
def destroy (h : Heap P) (a : UInt64) : Heap P :=
  { h with alive := h.alive.erase a, null := fun hnull => h.null (Finset.mem_of_mem_erase hnull) }

/-- The kernel is returned to its parent. -/
def returned (h : Heap P) (k : UInt64) : Heap P :=
  { h with memory := Function.update h.memory k ((h.memory k).returnToParent .error) }

end Heap

/-! ### The code of the classes -/

/-- What a call of `act` or `react` leaves. -/
structure Ran (P : Type) where
  /-- The heap. -/
  heap : Heap P
  /-- `this_ptr()` still has the kernel that has been called. -/
  own : Bool
  /-- The pointer to the child, which `react` is called with, still has it. -/
  child : Bool
  /-- The call has thrown. -/
  thrown : Bool

/-- The virtual functions of the kernels. -/
structure Code (P : Type) where
  /-- `act`. -/
  act : Heap P → UInt64 → Ran P
  /-- `react`, of the first kernel, with the second one. -/
  react : Heap P → UInt64 → UInt64 → Ran P
  /-- `rollback`. -/
  rollback : Heap P → UInt64 → Heap P
  /-- `act` leaves no kernel that refers to one that has been destroyed. -/
  act_closed : ∀ {h k}, h.Closed → k ∈ h.alive → (act h k).heap.Closed
  /-- It destroys the kernel only if it has taken it over. -/
  act_own : ∀ {h k}, h.Closed → k ∈ h.alive → (act h k).own = true → k ∈ (act h k).heap.alive
  /-- So does `react`. -/
  react_closed : ∀ {h p k}, h.Closed → p ∈ h.alive → k ∈ h.alive → (react h p k).heap.Closed
  /-- It destroys its kernel only if it has taken it over. -/
  react_own : ∀ {h p k}, h.Closed → p ∈ h.alive → k ∈ h.alive → (react h p k).own = true →
    p ∈ (react h p k).heap.alive
  /-- It destroys the child only if it has taken it over. -/
  react_child : ∀ {h p k}, h.Closed → p ∈ h.alive → k ∈ h.alive → (react h p k).child = true →
    k ∈ (react h p k).heap.alive
  /-- `rollback` destroys nothing. -/
  rollback_alive : ∀ h k, (rollback h k).alive = h.alive
  /-- It leaves the parents. -/
  rollback_parent : ∀ h k a, ((rollback h k).memory a).parent = (h.memory a).parent
  /-- It leaves the principals. -/
  rollback_principal : ∀ h k a, ((rollback h k).memory a).principal = (h.memory a).principal

/-- A call of such a function. -/
inductive Call where
  /-- `act`. -/
  | act (k : UInt64)
  /-- `react`. -/
  | react (p k : UInt64)
  /-- `rollback`. -/
  | rollback (k : UInt64)
  /-- `sbn::exit`, which wakes up whoever waits for the return value. -/
  | exit (ret : ExitCode)
  deriving DecidableEq

/-! ### Threads -/

/-- What there is after `act`. -/
structure Acted (P : Type) where
  /-- The heap. -/
  heap : Heap P
  /-- The pointer still has the kernel. -/
  holds : Bool
  /-- An exception has been thrown. -/
  thrown : Bool
  /-- What has been called. -/
  calls : List Call

/-- What a thread has done with a kernel. -/
structure Executed (P : Type) where
  /-- The heap. -/
  heap : Heap P
  /-- What has been called. -/
  calls : List Call
  /-- What has been sent to the error pipeline. -/
  errors : List UInt64

/-- How it ends. -/
inductive Ending (P : Type) where
  /-- A kernel is called that has been destroyed. -/
  | freed
  /-- The thread goes on. -/
  | executed (e : Executed P)

namespace Code

/-- The principal reacts to the kernel: it is in a pointer of its own meanwhile, which is released if nothing is thrown
and destroys it otherwise. -/
def reacted (code : Code P) (h : Heap P) (p k : UInt64) : Acted P :=
  let r := code.react h p k
  ⟨if r.thrown && r.own then r.heap.destroy p else r.heap, r.child, r.thrown, [.react p k]⟩

/-- `act`. -/
def acted (code : Code P) (h : Heap P) (k : UInt64) : Acted P :=
  let p := (h.memory k).principal
  if (h.memory k).phase = .upstream then
    let r := code.act h k
    -- the pointer is released if nothing is thrown
    ⟨r.heap, r.thrown && r.own, r.thrown, [.act k]⟩
  else if (h.memory k).phase = .downstream then
    -- without a principal the kernel stays in the pointer
    if p ≠ 0 then code.reacted h p k else ⟨h, true, false, [.exit (h.memory k).result]⟩
  else if (h.memory k).phase = .pointToPoint then
    if p ≠ 0 then code.reacted h p k else ⟨h, true, true, []⟩
  else if (h.memory k).phase = .broadcast then
    let r := code.act h k
    ⟨r.heap, r.own, r.thrown, [.act k]⟩
  else ⟨h, true, true, []⟩

/-- The `catch` block, and the end of the pointer to the kernel. -/
def caught (code : Code P) (errorPipeline : Bool) (k : UInt64) (a : Acted P) : Ending P :=
  if a.holds then
    if a.thrown then
      if k ∈ a.heap.alive then
        let h := code.rollback a.heap k
        let calls := a.calls ++ [.rollback k]
        if errorPipeline then .executed ⟨h.returned k, calls, [k]⟩ else .executed ⟨h.destroy k, calls, []⟩
      else .freed
    else .executed ⟨a.heap.destroy k, a.calls, []⟩
  else .executed ⟨a.heap, a.calls, []⟩

/-- `process_kernel`, and the end of the pointer to the kernel. -/
def processKernel (code : Code P) (errorPipeline : Bool) (h : Heap P) (k : UInt64) : Ending P :=
  code.caught errorPipeline k (code.acted h k)

end Code

/-! ### What is to hold -/

/-- No kernel that is alive refers to one that has been destroyed, and the one for the error pipeline is alive. -/
def Ending.Sound : Ending P → Prop
  | .freed => False
  | .executed e => e.heap.Closed ∧ ∀ a ∈ e.errors, a ∈ e.heap.alive

/-- But for the kernel `k`, whose principal is going to be its parent, nothing else refers to the kernel `p`. -/
def Heap.SparesBut (h : Heap P) (p k : UInt64) : Prop :=
  ∀ b ∈ h.alive, b ≠ p → (h.memory b).parent ≠ p ∧ (b ≠ k → (h.memory b).principal ≠ p)

/-- The condition on a call of `react`: if it throws while the principal is in its pointer, nothing refers to the
principal, and if the child is not taken over and not sent to the error pipeline, nothing refers to it. -/
def Ran.Harmless (errorPipeline : Bool) (p k : UInt64) (r : Ran P) : Prop :=
  if r.thrown && r.own then
    if r.child then p ≠ k ∧ if errorPipeline then r.heap.SparesBut p k else r.heap.Spares {p, k}
    else r.heap.Spares {p}
  else r.child && !(r.thrown && errorPipeline) → r.heap.Spares {k}

/-- The condition on the execution of a kernel. -/
def Code.Harmless (code : Code P) (errorPipeline : Bool) (h : Heap P) (k : UInt64) : Prop :=
  let p := (h.memory k).principal
  if (h.memory k).phase = .upstream then
    (code.act h k).thrown && (code.act h k).own && !errorPipeline → (code.act h k).heap.Spares {k}
  else if ((h.memory k).phase = .downstream ∨ (h.memory k).phase = .pointToPoint) ∧ p ≠ 0 then
    (code.react h p k).Harmless errorPipeline p k
  else if (h.memory k).phase = .downstream then h.Spares {k}
  else if (h.memory k).phase = .broadcast then
    (code.act h k).own && !((code.act h k).thrown && errorPipeline) → (code.act h k).heap.Spares {k}
  else !errorPipeline → h.Spares {k}

/-! ### Kernels that are returned -/

theorem Kernel.parent_returnToParent (k : Kernel P) (ret : ExitCode) : (k.returnToParent ret).parent = k.parent := by
  cases h : k.flags.isset .parentIsId <;>
    simp [Kernel.returnToParent, Kernel.parent, Kernel.isset, Kernel.setPrincipalId, Kernel.setPrincipal, h]

theorem Kernel.principal_returnToParent (k : Kernel P) (ret : ExitCode) :
    (k.returnToParent ret).principal = k.parent := by
  cases h : k.flags.isset .parentIsId <;>
    simp [Kernel.returnToParent, Kernel.parent, Kernel.principal, Kernel.isset, Kernel.setPrincipalId,
      Kernel.setPrincipal, h]

/-! ### Heaps from which kernels are gone -/

namespace Heap

variable {h g : Heap P} {a p k : UInt64}

theorem ne_zero (ha : a ∈ h.alive) : a ≠ 0 := fun hzero => h.null (hzero ▸ ha)

/-- A heap from which some kernels are gone is closed if nothing refers to them. -/
theorem closed_iff_spares {freed : Finset UInt64} (hclosed : h.Closed) (hfreed : 0 ∉ freed)
    (hmemory : g.memory = h.memory) (halive : ∀ b, b ∈ g.alive ↔ b ∈ h.alive ∧ b ∉ freed) :
    g.Closed ↔ h.Spares freed := by
  have hrefers : ∀ b a, g.Refers b a ↔ h.Refers b a := by
    intro b a
    rw [Refers, Refers, hmemory]
  constructor
  · intro hg b hb hnot a ha href
    have hne : a ≠ 0 := fun hzero => hfreed (hzero ▸ ha)
    exact ((halive a).mp (hg b ((halive b).mpr ⟨hb, hnot⟩) a hne ((hrefers b a).mpr href))).2 ha
  · intro hspares b hb a hne href
    obtain ⟨hb, hnot⟩ := (halive b).mp hb
    have href' := (hrefers b a).mp href
    exact (halive a).mpr ⟨hclosed b hb a hne href', fun ha => hspares b hb hnot a ha href'⟩

theorem closed_destroy_iff (hclosed : h.Closed) (ha : a ≠ 0) : (h.destroy a).Closed ↔ h.Spares {a} :=
  closed_iff_spares hclosed (by simpa using ha.symm) rfl fun b => by simp [destroy, and_comm]

theorem closed_destroy_destroy_iff (hclosed : h.Closed) (hp : p ≠ 0) (hk : k ≠ 0) :
    ((h.destroy p).destroy k).Closed ↔ h.Spares {p, k} :=
  closed_iff_spares hclosed (by simp [hp.symm, hk.symm]) rfl fun b => by
    simp only [destroy, Finset.mem_erase, Finset.mem_insert, Finset.mem_singleton]
    tauto

/-- Links that are the same refer to the same kernels. -/
theorem refers_congr (hparent : ∀ a, (g.memory a).parent = (h.memory a).parent)
    (hprincipal : ∀ a, (g.memory a).principal = (h.memory a).principal) (b : UInt64) :
    g.Refers b a ↔ h.Refers b a := by
  rw [Refers, Refers, hparent, hprincipal]

theorem closed_congr (halive : g.alive = h.alive) (hrefers : ∀ b a, g.Refers b a ↔ h.Refers b a) :
    g.Closed ↔ h.Closed := by
  simp only [Closed, halive, hrefers]

@[simp] theorem alive_returned : (h.returned k).alive = h.alive := rfl

theorem parent_returned (b : UInt64) : ((h.returned k).memory b).parent = (h.memory b).parent := by
  by_cases hb : b = k <;> simp [returned, hb, Kernel.parent_returnToParent]

theorem principal_returned (b : UInt64) : ((h.returned k).memory b).principal =
    if b = k then (h.memory k).parent else (h.memory b).principal := by
  by_cases hb : b = k <;> simp [returned, hb, Kernel.principal_returnToParent]

theorem closed_returned (hclosed : h.Closed) (hk : k ∈ h.alive) : (h.returned k).Closed := by
  intro b hb a hne href
  rw [Refers, parent_returned, principal_returned] at href
  split_ifs at href with hself
  · subst hself
    exact hclosed b hb a hne (Or.inl (or_self_iff.mp href))
  · exact hclosed b hb a hne href

/-- The kernel is returned when its principal is gone. -/
theorem closed_destroy_returned_iff (hclosed : h.Closed) (hk : k ∈ h.alive) (hp : p ≠ 0) :
    ((h.destroy p).returned k).Closed ↔ h.SparesBut p k := by
  have hfreed : ((h.destroy p).returned k).Closed ↔ (h.returned k).Spares {p} :=
    closed_iff_spares (closed_returned hclosed hk) (by simpa using hp.symm) rfl fun b => by
      simp [destroy, returned, and_comm]
  rw [hfreed]
  simp only [Spares, SparesBut, Refers, Finset.mem_singleton, forall_eq, not_or, parent_returned, principal_returned]
  refine forall₃_congr fun b _ _ => ?_
  by_cases hb : b = k
  · simp [hb]
  · simp [hb]

end Heap

/-! ### The end of a kernel -/

namespace Code

variable (code : Code P) {h : Heap P} {p k : UInt64} {errorPipeline : Bool} {a : Acted P}

theorem closed_rollback_returned :
    ((code.rollback h k).returned k).Closed ↔ (h.returned k).Closed := by
  refine Heap.closed_congr (code.rollback_alive h k) fun b a => ?_
  simp only [Heap.Refers, Heap.parent_returned, Heap.principal_returned, code.rollback_parent,
    code.rollback_principal]

theorem closed_rollback_destroy :
    ((code.rollback h k).destroy k).Closed ↔ (h.destroy k).Closed := by
  refine Heap.closed_congr (congrArg (Finset.erase · k) (code.rollback_alive h k)) fun b a => ?_
  exact Heap.refers_congr (code.rollback_parent h k) (code.rollback_principal h k) b

/-- What becomes of a kernel that has been acted on. -/
theorem sound_caught : (code.caught errorPipeline k a).Sound ↔
    if a.holds then
      if a.thrown then
        k ∈ a.heap.alive ∧ if errorPipeline then (a.heap.returned k).Closed else (a.heap.destroy k).Closed
      else (a.heap.destroy k).Closed
    else a.heap.Closed := by
  unfold caught
  split_ifs with hholds hthrown halive herror
  · simp [Ending.Sound, closed_rollback_returned, halive, code.rollback_alive]
  · simp [Ending.Sound, closed_rollback_destroy, halive]
  all_goals simp [Ending.Sound, *]

/-- A kernel that stays in its pointer is destroyed, unless it is sent to the error pipeline. -/
theorem sound_caught_iff {thrown holds : Bool} (hclosed : h.Closed) (hzero : k ≠ 0)
    (hk : holds = true → k ∈ h.alive) (calls : List Call) :
    (code.caught errorPipeline k ⟨h, holds, thrown, calls⟩).Sound ↔
      (holds && !(thrown && errorPipeline) → h.Spares {k}) := by
  rw [sound_caught, ← Heap.closed_destroy_iff hclosed hzero]
  cases holds with
  | false => simp [hclosed]
  | true =>
    have hreturned := Heap.closed_returned hclosed (hk rfl)
    cases thrown <;> cases errorPipeline <;> simp [hk, hreturned]

/-- A principal reacts to the kernel. -/
theorem sound_reacted (hclosed : h.Closed) (hp : p ∈ h.alive) (hk : k ∈ h.alive) :
    (code.caught errorPipeline k (code.reacted h p k)).Sound ↔ (code.react h p k).Harmless errorPipeline p k := by
  have hafter := code.react_closed hclosed hp hk
  have hpointer := code.react_child hclosed hp hk
  unfold reacted Ran.Harmless
  dsimp only
  generalize code.react h p k = r at hafter hpointer ⊢
  by_cases hfreed : (r.thrown && r.own) = true
  · -- the principal is destroyed before the exception is caught
    obtain ⟨hthrown, -⟩ := Bool.and_eq_true_iff.mp hfreed
    rw [if_pos hfreed, if_pos hfreed, sound_caught]
    simp only [hthrown, if_true]
    by_cases hchild : r.child = true
    · have halive := hpointer hchild
      rw [if_pos hchild, if_pos hchild, Heap.closed_destroy_returned_iff hafter halive (Heap.ne_zero hp),
        Heap.closed_destroy_destroy_iff hafter (Heap.ne_zero hp) (Heap.ne_zero hk)]
      refine and_congr_left fun _ => ?_
      simp [Heap.destroy, halive, eq_comm]
    · rw [if_neg hchild, if_neg hchild, Heap.closed_destroy_iff hafter (Heap.ne_zero hp)]
  · rw [if_neg hfreed, if_neg hfreed]
    exact code.sound_caught_iff hafter (Heap.ne_zero hk) hpointer _

/-- **No kernel is left that refers to a destroyed one**, if and only if what is destroyed in the end is not referred
to: the principal that throws before it has passed itself on, and the kernel that stays in its pointer and is not sent
to the error pipeline. -/
theorem process_kernel_iff (hclosed : h.Closed) (hk : k ∈ h.alive) :
    (code.processKernel errorPipeline h k).Sound ↔ code.Harmless errorPipeline h k := by
  have hzero := Heap.ne_zero hk
  have hprincipal : (h.memory k).principal ≠ 0 → (h.memory k).principal ∈ h.alive :=
    fun hne => hclosed k hk _ hne (Or.inr rfl)
  have hact := code.act_closed hclosed hk
  have hown := code.act_own hclosed hk
  have hself : (code.caught errorPipeline k ⟨h, true, true, []⟩).Sound ↔ (!errorPipeline → h.Spares {k}) :=
    (code.sound_caught_iff hclosed hzero (fun _ => hk) []).trans (by simp)
  have hexit : ∀ ret, (code.caught errorPipeline k ⟨h, true, false, [.exit ret]⟩).Sound ↔ h.Spares {k} := fun ret =>
    (code.sound_caught_iff hclosed hzero (fun _ => hk) [.exit ret]).trans (by simp)
  unfold processKernel acted Harmless
  dsimp only
  by_cases hup : (h.memory k).phase = .upstream
  · rw [if_pos hup, if_pos hup]
    refine (code.sound_caught_iff hact hzero (fun holds => hown (Bool.and_eq_true_iff.mp holds).2) _).trans ?_
    cases (code.act h k).thrown <;> simp
  rw [if_neg hup, if_neg hup]
  by_cases hdown : (h.memory k).phase = .downstream
  · by_cases hp : (h.memory k).principal = 0
    · simpa [hdown, hp] using hexit (h.memory k).result
    · simpa [hdown, hp] using code.sound_reacted hclosed (hprincipal hp) hk
  by_cases hpoint : (h.memory k).phase = .pointToPoint
  · have hall : (h.memory k).phase ≠ .broadcast := by
      rw [hpoint]
      decide
    by_cases hp : (h.memory k).principal = 0
    · rw [if_neg hdown, if_pos hpoint, if_neg (not_not.mpr hp), if_neg (by simp [hp]), if_neg hdown, if_neg hall]
      exact hself
    · simpa [hdown, hpoint, hp] using code.sound_reacted hclosed (hprincipal hp) hk
  simp only [hdown, hpoint, or_self, false_and, if_false]
  by_cases hall : (h.memory k).phase = .broadcast
  · rw [if_pos hall, if_pos hall]
    exact code.sound_caught_iff hact hzero hown _
  · rw [if_neg hall, if_neg hall]
    exact hself

end Code

end Execution

/-! ### A parent that throws -/

/-- The functions of the class `kernel`: `act` and `rollback` do nothing, and `react` throws. -/
def Code.ofKernel (P : Type) : Code P where
  act h _ := ⟨h, true, false, false⟩
  react h _ _ := ⟨h, true, true, true⟩
  rollback h _ := h
  act_closed hclosed _ := hclosed
  act_own _ hk _ := hk
  react_closed hclosed _ _ := hclosed
  react_own _ hp _ _ := hp
  react_child _ _ hk _ := hk
  rollback_alive _ _ := rfl
  rollback_parent _ _ _ := rfl
  rollback_principal _ _ _ := rfl

/-- A kernel at 16 and its child at 32, which has been returned to it. -/
def Heap.family : Heap Unit where
  memory a := if a = 32 then ((Kernel.plain []).setParent 16).returnToParent .success else Kernel.plain []
  alive := {16, 32}
  null := by decide

theorem Heap.closed_family : Heap.family.Closed := by
  intro b hb a hne href
  rcases Finset.mem_insert.mp hb with rfl | hb
  · rcases href with rfl | rfl
    all_goals exact absurd (by decide) hne
  · obtain rfl := Finset.mem_singleton.mp hb
    rcases href with rfl | rfl
    all_goals decide

/-- A kernel that is upstream is executed. -/
theorem process_kernel_upstream :
    ((Code.ofKernel Unit).processKernel true Heap.family 16).Sound := by
  rw [Code.process_kernel_iff (Code.ofKernel Unit) Heap.closed_family (by decide)]
  exact fun hthrown => absurd hthrown (by decide)

/-- **The parent does not react**, so it is destroyed, and its child is sent to the error pipeline with it as its
principal. -/
theorem react_throws : ¬((Code.ofKernel Unit).processKernel true Heap.family 32).Sound := by
  rintro ⟨hclosed, -⟩
  have hparent := hclosed 32 (by decide) 16 (by decide) (Or.inl (by decide))
  revert hparent
  decide

end Subordination.Core
