import Subordination.Core.Execution

/-!
# Kernels with threads of their own

What `kernel_loop` does with a kernel for which `send` makes a thread, and what a worker thread does with the same
kernel (`core/parallel_pipeline.hh`, `core/parallel_pipeline.cc`).

## The model

`kernel_loop` calls `act` in every phase, and does not release the pointer afterwards. Its `catch` block is that of
`process_kernel`. What is compared is the heap, what has been called in which order, and what has been sent to the
error pipeline.

## What is proved

* `Code.kernel_loop_iff` — when the two agree.
* `destroyed_after_act` — an upstream kernel that is destroyed by the one and stays alive in the other.
-/

namespace Subordination.Core

open Library
open ParallelPipeline (scheduled newThread)

section KernelThreads

variable {P : Type}

/-- `send` makes a thread for the kernel. -/
def Kernel.MakesThread (k : Kernel P) : Prop := k.phase ≠ .downstream ∧ scheduled k = false ∧ newThread k = true

/-- What has been called, if the thread goes on. -/
def Ending.calls : Ending P → Option (List Call)
  | .executed e => some e.calls
  | _ => none

namespace Code

variable (code : Code P)

/-- `kernel_loop`, and the end of the pointer to the kernel. -/
def kernelLoop (errorPipeline : Bool) (h : Heap P) (k : UInt64) : Ending P :=
  let r := code.act h k
  code.caught errorPipeline k ⟨r.heap, r.own, r.thrown, [.act k]⟩

variable {errorPipeline : Bool} {h : Heap P} {p k : UInt64} {a : Acted P}

/-- After the calls that there have been there is at most that of `rollback`. -/
theorem calls_caught {calls : List Call} (h : (code.caught errorPipeline k a).calls = some calls) :
    calls = a.calls ∨ calls = a.calls ++ [.rollback k] := by
  unfold caught at h
  split_ifs at h <;> cases h <;> simp

/-- `kernel_loop` calls `act` first. -/
theorem calls_kernelLoop (errorPipeline : Bool) (hclosed : h.Closed) (hk : k ∈ h.alive) :
    ∃ calls, (code.kernelLoop errorPipeline h k).calls = some (.act k :: calls) := by
  have hown := code.act_own hclosed hk
  unfold kernelLoop caught
  dsimp only
  split_ifs with hholds hthrown halive herror
  · exact ⟨_, rfl⟩
  · exact ⟨_, rfl⟩
  · exact absurd (hown hholds) halive
  all_goals exact ⟨_, rfl⟩

/-- In the broadcast phase there is no difference. -/
theorem kernelLoop_broadcast (hphase : (h.memory k).phase = .broadcast) :
    code.kernelLoop errorPipeline h k = code.processKernel errorPipeline h k := by
  have hup : ¬Phases.broadcast = .upstream := by decide
  have hdown : ¬Phases.broadcast = .downstream := by decide
  have hpoint : ¬Phases.broadcast = .pointToPoint := by decide
  simp [kernelLoop, processKernel, acted, hphase, hup, hdown, hpoint]

/-- In the upstream phase there is none if the kernel is not in the pointer any more, or the exception is caught. -/
theorem kernelLoop_upstream (hclosed : h.Closed) (hk : k ∈ h.alive) (hphase : (h.memory k).phase = .upstream) :
    code.kernelLoop errorPipeline h k = code.processKernel errorPipeline h k ↔
      (code.act h k).thrown = true ∨ (code.act h k).own = false := by
  have hown := code.act_own hclosed hk
  simp only [kernelLoop, processKernel, acted, if_pos hphase]
  generalize code.act h k = r at hown ⊢
  obtain ⟨g, own, child, thrown⟩ := r
  cases thrown with
  | true => simp
  | false =>
    cases own with
    | false => simp
    | true =>
      -- the kernel is alive, and `kernel_loop` destroys it
      have hne : g.destroy k ≠ g := by
        intro heq
        have halive := hown rfl
        rw [← heq] at halive
        simp [Heap.destroy] at halive
      simp [caught, hne]

/-- In the point-to-point phase the kernels that are called are not the same. -/
theorem kernelLoop_pointToPoint (hclosed : h.Closed) (hk : k ∈ h.alive)
    (hphase : (h.memory k).phase = .pointToPoint) :
    code.kernelLoop errorPipeline h k ≠ code.processKernel errorPipeline h k := by
  intro heq
  obtain ⟨calls, hcalls⟩ := code.calls_kernelLoop errorPipeline hclosed hk
  rw [heq] at hcalls
  have hup : ¬Phases.pointToPoint = .upstream := by decide
  have hdown : ¬Phases.pointToPoint = .downstream := by decide
  by_cases hp : (h.memory k).principal = 0
  · simp only [processKernel, acted, hphase, hup, hdown, hp, if_true, if_false, ne_eq, not_true] at hcalls
    rcases code.calls_caught hcalls with hself | hself <;> cases hself
  · simp only [processKernel, acted, hphase, hup, hdown, hp, if_true, if_false, ne_eq, not_false_eq_true] at hcalls
    rcases code.calls_caught hcalls with hself | hself <;> cases hself

/-- **A thread of its own agrees with a worker thread**, on any kernel of the phases that get one, if and only if the
kernel is broadcast, or it is upstream and `act` throws or passes the kernel on. -/
theorem kernel_loop_iff (hclosed : h.Closed) (hk : k ∈ h.alive)
    (hphase : (h.memory k).phase = .upstream ∨ (h.memory k).phase = .pointToPoint ∨
      (h.memory k).phase = .broadcast) :
    code.kernelLoop errorPipeline h k = code.processKernel errorPipeline h k ↔
      (h.memory k).phase = .broadcast ∨ (h.memory k).phase = .upstream ∧
        ((code.act h k).thrown = true ∨ (code.act h k).own = false) := by
  rcases hphase with hup | hpoint | hall
  · have hne : ¬Phases.upstream = .broadcast := by decide
    simp [code.kernelLoop_upstream hclosed hk hup, hup, hne]
  · have hall : ¬Phases.pointToPoint = .broadcast := by decide
    have hup : ¬Phases.pointToPoint = .upstream := by decide
    simp [code.kernelLoop_pointToPoint hclosed hk hpoint, hpoint, hall, hup]
  · exact iff_of_true (code.kernelLoop_broadcast hall) (Or.inl hall)

end Code

end KernelThreads

/-! ### A kernel that has children -/

/-- A kernel with a thread of its own. -/
def Kernel.threaded (phase : Phases) : Kernel Unit := { Kernel.plain [] with phase, flags := 128 }

/-- The kernel is the only one. -/
def Heap.single (k : Kernel Unit) : Heap Unit where
  memory _ := k
  alive := {16}
  null := by decide

theorem Heap.closed_single (phase : Phases) : (Heap.single (Kernel.threaded phase)).Closed := by
  have hparent : (Kernel.threaded phase).parent = 0 := ite_self _
  have hprincipal : (Kernel.threaded phase).principal = 0 := ite_self _
  intro b _ a hne href
  rcases href with rfl | rfl
  · exact absurd hparent hne
  · exact absurd hprincipal hne

/-- A broadcast kernel. -/
theorem kernel_loop_broadcast :
    (Code.ofKernel Unit).kernelLoop true (Heap.single (Kernel.threaded .broadcast)) 16 =
      (Code.ofKernel Unit).processKernel true (Heap.single (Kernel.threaded .broadcast)) 16 :=
  ((Code.ofKernel Unit).kernel_loop_iff (Heap.closed_single .broadcast) (by decide)
    (Or.inr (Or.inr rfl))).mpr (Or.inl rfl)

/-- **An upstream kernel is destroyed after `act`**, where it waits for its children on a worker thread. -/
theorem destroyed_after_act : (Kernel.threaded .upstream).MakesThread ∧
    (Code.ofKernel Unit).kernelLoop true (Heap.single (Kernel.threaded .upstream)) 16 ≠
      (Code.ofKernel Unit).processKernel true (Heap.single (Kernel.threaded .upstream)) 16 := by
  refine ⟨⟨by decide, by decide, by decide⟩, ?_⟩
  rw [ne_eq, Code.kernelLoop_upstream _ (Heap.closed_single .upstream) (by decide) rfl]
  rintro (hthrown | hown)
  · cases hthrown
  · cases hown

end Subordination.Core
