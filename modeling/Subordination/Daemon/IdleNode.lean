import Subordination.Core.WeightSums
import Subordination.Daemon.Admission
import Subordination.Daemon.Overcommitment

/-!
# Idle nodes

Kernels that come to a node on which no job has a load, or are queued there (`daemon/process_pipeline.cc`,
`daemon/process_pipeline.hh`).

## What is proved

* `ProcessPipeline.idle_passes_iff` — which kernels such a node passes on at once.
* `ProcessPipeline.waits_for_ever` — one that it could execute, and never passes on.
-/

namespace Subordination.Daemon

open Subordination.Core Subordination.Library

namespace ProcessPipeline

variable {P : Type}

/-- There is one job, and it need not share the node with others. -/
def Alone (p : ProcessPipeline P) : Prop := p.interleave = false ∧ p.jobs.entries.length = 1

instance (p : ProcessPipeline P) : Decidable p.Alone := inferInstanceAs (Decidable (_ ∧ _))

theorem admits_iff {p : ProcessPipeline P} {load : WeightArray} :
    p.admits load = true ↔ p.Alone ∨ (p.numThreadsUsed load).value < p.maxThreads := by
  simp [admits, Alone]

/-- On an idle node the load with a kernel is that of the kernel. -/
theorem zero_add_load (w : WeightArray) : WeightArray.add {} w = w := by
  rw [WeightArray.add_comm, WeightArray.add_zero]

/-- A number that is no greater is less if it is not the same. -/
theorem lt_iff_ne_of_le {a b : UInt32} (h : a ≤ b) : a < b ↔ a ≠ b := by
  rw [UInt32.le_iff_toNat_le] at h
  rw [UInt32.lt_iff_toNat_lt, Ne, ← UInt32.toNat_inj]
  omega

/-- The number of threads does not change as the kernels are gone through. -/
theorem maxThreads_ahead (p : ProcessPipeline P) (before : List (Kernel P)) :
    (p.ahead before).maxThreads = p.maxThreads := by
  have hfold (o : Outlook P) : (before.foldl Outlook.next o).maxThreads = o.maxThreads := by
    induction before generalizing o with
    | nil => rfl
    | cons k before ih => rw [List.foldl_cons, ih, Outlook.maxThreads_next]
  exact hfold _

/-- **Which kernels are passed on at once while no job has a load**, among those that take no more threads than there
are: those that take fewer, and all others only if there is one job that need not share the node. In the queue the
kernels before them count, and no other kernel may throw. -/
theorem idle_passes_iff [ByteOrder] (proc : Process P) (ppl : BasicSocketPipeline) (executes : Application → Bool)
    (p : ProcessPipeline P) (k : Kernel P) (hload : p.totalLoad = {})
    (hfits : (p.numThreadsUsed k.weights).value ≤ p.maxThreads) :
    ((∃ p', p.forward proc ppl executes k = .ok p' ∧ p.Passes k p') ↔
      p.stopping = false ∧ p.Available executes k.targetApplicationId (forwardApplication k) ∧
        (p.Alone ∨ (p.numThreadsUsed k.weights).value ≠ p.maxThreads)) ∧
    ∀ before after, ¬ForAll k → p.kernels ++ p.outstandingKernels = before ++ k :: after →
      (p.PassesQueued proc ppl executes before k ↔
        (∀ before k after, p.kernels ++ p.outstandingKernels = before ++ k :: after →
          (p.ahead before).Admits k → (p.ahead before).Safe executes k) ∧
        ((p.ahead before).Alone ∨
          ((p.ahead before).load = {} ∧ (p.numThreadsUsed k.weights).value ≠ p.maxThreads) ∨
          ((p.ahead before).load ≠ {} ∧
            (p.numThreadsUsed ((p.ahead before).load.add k.weights)).value < p.maxThreads))) := by
  refine ⟨?_, fun before after hall hsplit => ?_⟩
  · rw [forward_passes_iff, admits_iff, hload, zero_add_load, lt_iff_ne_of_le hfits]
  · have hthreads (w : WeightArray) : (p.ahead before).threads w = p.numThreadsUsed w := by
      rw [Outlook.threads, maxThreads_ahead]
      rfl
    refine (passesQueued_iff proc ppl hall hsplit).trans (and_congr Iff.rfl ?_)
    rw [Outlook.Admits, hthreads, maxThreads_ahead]
    by_cases hzero : (p.ahead before).load = {}
    · simp only [hzero, zero_add_load, lt_iff_ne_of_le hfits, true_and, ne_eq, not_true_eq_false, false_and, or_false]
    · simp only [hzero, false_and, false_or, ne_eq, not_false_eq_true, true_and]

/-- A kernel of weight one, that comes with its application. -/
def newcomer : Kernel Unit :=
  { Kernel.fresh 0 (.foreign []) with targetApplication := .application (plainApplication 7) }

/-- With two threads the kernel is passed on. -/
theorem idle_passes_newcomer :
    letI := ByteOrder.littleEndian
    ∃ p', (idle 2 (by decide)).forward (Process.plain 0) {} (fun _ => true) newcomer = .ok p' ∧
      (idle 2 (by decide)).Passes newcomer p' := by
  let _ := ByteOrder.littleEndian
  refine (idle_passes_iff (Process.plain 0) {} (fun _ => true) (idle 2 (by decide)) newcomer rfl
    (by decide)).1.mpr ⟨rfl, Or.inr ⟨plainApplication 7, rfl, by decide, rfl⟩, Or.inr (by decide)⟩

/-- **With one thread it waits for ever**: it is put into the queue, where `process_kernels` leaves it. -/
theorem waits_for_ever :
    letI := ByteOrder.littleEndian
    let p := idle 1 (by decide)
    p.totalLoad = {} ∧ (p.numThreadsUsed newcomer.weights).value ≤ p.maxThreads ∧
      p.Available (fun _ => true) newcomer.targetApplicationId (forwardApplication newcomer) ∧
      (¬∃ p', p.forward (Process.plain 0) {} (fun _ => true) newcomer = .ok p' ∧ p.Passes newcomer p') ∧
      ∃ p', p.forward (Process.plain 0) {} (fun _ => true) newcomer = .ok p' ∧
        p'.outstandingKernels = [newcomer] ∧
        p'.processKernels (Process.plain 0) {} (fun _ => true) = .ok p' := by
  let _ := ByteOrder.littleEndian
  have havailable : (idle 1 (by decide)).Available (fun _ => true) newcomer.targetApplicationId
      (forwardApplication newcomer) := Or.inr ⟨plainApplication 7, rfl, by decide, rfl⟩
  refine ⟨rfl, by decide, havailable, ?_, _, rfl, rfl, rfl⟩
  rw [forward_passes_iff]
  exact fun h => absurd h.2.2 (by decide)

end ProcessPipeline

end Subordination.Daemon
