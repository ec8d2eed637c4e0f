import Subordination.Core.Connection
import Subordination.Library.System

/-!
# The parallel pipeline

The pipeline executes native kernels in several threads. A kernel on its way back is put into one of several queues,
which is chosen by the hash of its principal (`core/parallel_pipeline.hh`, `core/parallel_pipeline.cc`,
`core/kernel.hh`).

## The model

The threads hold the lock but while they execute a kernel, so a step is what happens under the lock: a kernel is sent,
or a thread takes a kernel, or is done with one. Meanwhile connections give ids to kernels, which they do without that
lock. A kernel that asks for a thread of its own only acts. A queue that does not exist and a division by zero are no
steps. The queues that downstream kernels of a principal have been put into are kept for as long as the principal lives.

## What is proved

* `ParallelPipeline.one_queue` — in runs without certain steps, all downstream kernels of a principal are in one queue,
  and no two threads are in it.
* `ParallelPipeline.not_calm` — after such a step this is so no more, or no more when the next kernel is sent.
* `ParallelPipeline.two_threads` — a run with such a step, after which two threads are in one principal.
-/

namespace Subordination.Core

open Library

namespace ParallelPipeline

variable {P : Type}

/-! ### Hashes -/

/-- `hash()`: that of an id is the id, that of a kernel without one is made of its address. -/
def hash (memory : Memory P) (k : Kernel P) : UInt64 :=
  if k.isset .principalIsId then k.principalWord
  else if k.principalWord ≠ 0 ∧ (memory k.principalWord).hasId then (memory k.principalWord).id
  else k.principalWord / 8

/-- `new_thread()`. -/
def newThread (k : Kernel P) : Bool := k.flags.getLsbD 7

/-- `scheduled()`. -/
def scheduled (k : Kernel P) : Bool := k.atTime ≠ 0

/-- The principal in which the kernel is executed: `react` is called for kernels that are downstream or
point-to-point. -/
def reactsIn (k : Kernel P) : Option UInt64 :=
  if (k.phase = .downstream ∨ k.phase = .pointToPoint) ∧ k.principal ≠ 0 then some k.principal else none

/-! ### Threads -/

/-- How many threads and queues there are when the pipeline is started. -/
structure Threads where
  /-- `_upstream_threads.size()`. -/
  upstream : ℕ
  /-- `_downstream_threads.size()`. -/
  downstream : ℕ
  /-- `_downstream_kernels.size()`. -/
  queues : ℕ

namespace Threads

/-- `_downstream_kernels.size()` after `start`. -/
def numQueues (c : Threads) : ℕ := if c.downstream = 0 then c.upstream else c.queues

/-- By this number a hash is divided. -/
def size (c : Threads) : ℕ := max c.upstream c.downstream

/-- There is a thread, and a queue for every remainder. -/
def Valid (c : Threads) : Prop := 0 < c.size ∧ c.size ≤ c.numQueues

instance (c : Threads) : Decidable c.Valid := inferInstanceAs (Decidable (_ ∧ _))

end Threads

/-- A thread of the pipeline. -/
inductive Worker where
  /-- `upstream_loop`. -/
  | upstream (i : ℕ)
  /-- `downstream_loop`. -/
  | downstream (i : ℕ)
  /-- `timer_loop`. -/
  | timer
  deriving DecidableEq, Repr

/-- The threads that there are. -/
def Threads.workers (c : Threads) : List Worker :=
  (List.range c.upstream).map .upstream ++ (List.range c.downstream).map .downstream ++ [.timer]

/-- The queue of downstream kernels that a thread takes kernels from. -/
def Worker.queue (c : Threads) : Worker → Option ℕ
  | .upstream i => if c.downstream = 0 then some i else none
  | .downstream i => some i
  | .timer => none

/-! ### The pipeline -/

/-- `parallel_pipeline`, and the kernels in memory. -/
structure State (P : Type) where
  /-- The memory of the process. -/
  memory : Memory P
  /-- `_upstream_kernels`. -/
  upstreamKernels : List (Kernel P) := []
  /-- `_timer_kernels`. -/
  timerKernels : List (Kernel P) := []
  /-- `_downstream_kernels`. -/
  downstreamKernels : ℕ → List (Kernel P) := fun _ => []
  /-- The kernel that a thread executes. -/
  running : Worker → Option (Kernel P) := fun _ => none
  /-- The queues that downstream kernels of a principal have been put into. -/
  placed : UInt64 → List ℕ := fun _ => []

/-- What happens. -/
inductive Event (P : Type) where
  /-- A kernel is sent to the pipeline. -/
  | send (k : Kernel P)
  /-- A thread takes the first kernel; the timer thread takes the one at the given place. -/
  | take (w : Worker) (n : ℕ)
  /-- A thread is done with its kernel. -/
  | finish (w : Worker)
  /-- The kernel at the given address is sent over a connection with the given counter. -/
  | sendRemotely (counter : UInt64) (a : UInt64)
  /-- The kernel at the given address changes, but not its id. -/
  | change (a : UInt64) (k : Kernel P)
  /-- The kernel at the given address has been freed, and another one is made there. -/
  | renew (a : UInt64) (k : Kernel P)

/-- The queue that a downstream kernel of the given principal is put into. -/
def queueOf (c : Threads) (memory : Memory P) (p : UInt64) : ℕ :=
  (if (memory p).hasId then (memory p).id else p / 8).toNat % c.size

/-- A kernel whose principal is at the given address loses it. -/
def leave (a : UInt64) (k : Kernel P) : Kernel P := if reactsIn k = some a then k.setPrincipal 0 else k

/-- The ids that `connection::send` gives to a kernel and its parent. -/
def remoteMemory (counter a : UInt64) (memory : Memory P) : Option (Memory P) :=
  match ({ connection := { counter }, memory } : Endpoint P).prepare (memory a) with
  | none => none
  | some (e, k) => some (Function.update e.memory a { memory a with id := k.id })

namespace State

/-- `send_downstream`. -/
def sendDownstream (c : Threads) (s : State P) (k : Kernel P) : Option (State P) :=
  let i := (hash s.memory k).toNat % c.size
  if c.size = 0 ∨ c.numQueues ≤ i then none
  else some { s with
    downstreamKernels := Function.update s.downstreamKernels i (s.downstreamKernels i ++ [k])
    placed := Function.update s.placed k.principal (s.placed k.principal ++ [i]) }

/-- `send`. -/
def send (c : Threads) (s : State P) (k : Kernel P) : Option (State P) :=
  if k.phase = .downstream then s.sendDownstream c k
  else if scheduled k then some { s with timerKernels := s.timerKernels ++ [k] }
  else if newThread k then some s
  else some { s with upstreamKernels := s.upstreamKernels ++ [k] }

/-- A thread takes the first kernel of a queue of downstream kernels. -/
def takeDownstream (s : State P) (w : Worker) (i : ℕ) : Option (Kernel P × State P) :=
  match s.downstreamKernels i with
  | [] => none
  | k :: rest => some (k, { s with
      downstreamKernels := Function.update s.downstreamKernels i rest
      running := Function.update s.running w (some k) })

/-- A thread takes the first upstream kernel. -/
def takeUpstream (s : State P) (w : Worker) : Option (Kernel P × State P) :=
  match s.upstreamKernels with
  | [] => none
  | k :: rest => some (k, { s with
      upstreamKernels := rest
      running := Function.update s.running w (some k) })

/-- The timer thread takes a kernel whose time has come. -/
def takeTimer (s : State P) (w : Worker) (n : ℕ) : Option (Kernel P × State P) :=
  match s.timerKernels[n]? with
  | none => none
  | some k => some (k, { s with
      timerKernels := s.timerKernels.eraseIdx n
      running := Function.update s.running w (some k) })

/-- A thread takes the next kernel. If there are no downstream threads, the upstream ones do their work first. -/
def take (c : Threads) (s : State P) (w : Worker) (n : ℕ) : Option (Kernel P × State P) :=
  if w ∉ c.workers ∨ (s.running w).isSome then none
  else match w with
    | .downstream i => s.takeDownstream w i
    | .upstream i =>
      if c.downstream = 0 ∧ !(s.downstreamKernels i).isEmpty then s.takeDownstream w i else s.takeUpstream w
    | .timer => s.takeTimer w n

/-- The kernels in the queues. -/
def kernels (c : Threads) (s : State P) : List (Kernel P) :=
  (List.range c.numQueues).flatMap s.downstreamKernels ++ s.upstreamKernels ++ s.timerKernels

/-- One step. A kernel that is freed is not the principal of one in the queues. A thread may still be about to return
from it, but it does nothing there any more. -/
def step (c : Threads) (s : State P) : Event P → Option (State P)
  | .send k => s.send c k
  | .take w n => (s.take c w n).map Prod.snd
  | .finish w => some { s with running := Function.update s.running w none }
  | .sendRemotely counter a => (remoteMemory counter a s.memory).map fun memory => { s with memory }
  | .change a k =>
    if k.id = (s.memory a).id then some { s with memory := Function.update s.memory a k } else none
  | .renew a k =>
    if ∀ k' ∈ s.kernels c, reactsIn k' ≠ some a then
      some { s with
        memory := Function.update s.memory a k
        running := fun w => (s.running w).map (leave a)
        placed := Function.update s.placed a [] }
    else none

end State

/-! ### Runs -/

/-- The condition on a step: no principal gets an id, or another one, by which its downstream kernels would change the
queue; and no thread starts to execute a kernel in a principal in which another one does, if either kernel is
point-to-point. -/
def Calm (c : Threads) (s : State P) : Event P → Prop
  | .sendRemotely counter a => ∀ memory, remoteMemory counter a s.memory = some memory →
      ∀ p, p ≠ 0 → s.placed p ≠ [] → queueOf c memory p = queueOf c s.memory p
  | .take w n => ∀ k s', s.take c w n = some (k, s') → ∀ w' k' p, s.running w' = some k' →
      reactsIn k = some p → reactsIn k' = some p → k.phase = .downstream ∧ k'.phase = .downstream
  | _ => True

/-- The pipeline: it starts with empty queues, and whatever is in memory. -/
def system (P : Type) (c : Threads) : System (State P) where
  Initial s := ∃ memory, s = { memory }
  Step s s' := ∃ e, s.step c e = some s'

/-- The pipeline, as far as its steps meet the condition. -/
def calmSystem (P : Type) (c : Threads) : System (State P) where
  Initial s := ∃ memory, s = { memory }
  Step s s' := ∃ e, s.step c e = some s' ∧ Calm c s e

/-- All downstream kernels of a principal are put into one queue. -/
def OneQueue (s : State P) : Prop := ∀ p, p ≠ 0 → ∀ i ∈ s.placed p, ∀ j ∈ s.placed p, i = j

/-- No two threads are in one principal. -/
def Apart (s : State P) : Prop := ∀ p w w' k k', s.running w = some k → s.running w' = some k' →
  reactsIn k = some p → reactsIn k' = some p → w = w'

/-- The invariant. -/
structure Ordered (c : Threads) (s : State P) : Prop where
  /-- Downstream kernels have been put into the queue of their principal. -/
  placed : ∀ p, p ≠ 0 → ∀ i ∈ s.placed p, i = queueOf c s.memory p
  /-- The kernels in the queues of downstream kernels have been put there. -/
  queued : ∀ i, ∀ k ∈ s.downstreamKernels i, i < c.numQueues ∧ k.phase = .downstream ∧
    ∀ p, reactsIn k = some p → i ∈ s.placed p
  /-- The other kernels are not downstream. -/
  waiting : ∀ k ∈ s.upstreamKernels ++ s.timerKernels, k.phase ≠ .downstream
  /-- A thread executes the downstream kernels of its queue. -/
  running : ∀ w k, s.running w = some k → w ∈ c.workers ∧ (k.phase = .downstream →
    ∃ i, w.queue c = some i ∧ ∀ p, reactsIn k = some p → i ∈ s.placed p)
  /-- Two threads that are in one principal execute downstream kernels. -/
  apart : ∀ p w w' k k', s.running w = some k → s.running w' = some k' → w ≠ w' →
    reactsIn k = some p → reactsIn k' = some p → k.phase = .downstream ∧ k'.phase = .downstream

variable {c : Threads} {s s' : State P} {k : Kernel P} {p : UInt64} {w : Worker} {n : ℕ}

/-! ### What a step does -/

theorem principal_of_reactsIn (h : reactsIn k = some p) : k.principal = p := by
  rw [reactsIn] at h
  split_ifs at h
  exact Option.some.inj h

theorem ne_zero_of_reactsIn (h : reactsIn k = some p) : p ≠ 0 := by
  rw [reactsIn] at h
  split_ifs at h with hk
  rw [← Option.some.inj h]
  exact hk.2

@[simp] theorem phase_leave (a : UInt64) (k : Kernel P) : (leave a k).phase = k.phase := by
  rw [leave]
  split_ifs <;> rfl

theorem reactsIn_of_leave {a : UInt64} (h : reactsIn (leave a k) = some p) : reactsIn k = some p ∧ p ≠ a := by
  by_cases hk : reactsIn k = some a
  · have hnone : (leave a k).principal = 0 := by simp [leave, hk]
    simp [reactsIn, hnone] at h
  · rw [leave, if_neg hk] at h
    refine ⟨h, ?_⟩
    rintro rfl
    exact hk h

/-- A kernel that has its principal in memory has the hash of the queue of its principal. -/
theorem hash_eq (memory : Memory P) (h : k.principal ≠ 0) :
    (hash memory k).toNat % c.size = queueOf c memory k.principal := by
  have hset : ¬ k.isset .principalIsId = true := by
    intro hset
    simp [Kernel.principal, hset] at h
  have hword : k.principal = k.principalWord := by simp [Kernel.principal, hset]
  rw [hword] at h ⊢
  simp [hash, queueOf, hset, h]

/-- What `send` does to a kernel on its way back: it puts it at the end of a queue that there is. -/
theorem sendDownstream_eq_some (h : s.sendDownstream c k = some s') :
    ∃ i, i = (hash s.memory k).toNat % c.size ∧ i < c.numQueues ∧ s' = { s with
      downstreamKernels := Function.update s.downstreamKernels i (s.downstreamKernels i ++ [k])
      placed := Function.update s.placed k.principal (s.placed k.principal ++ [i]) } := by
  simp only [State.sendDownstream, Option.ite_none_left_eq_some, Option.some.injEq, not_or, not_le] at h
  obtain ⟨⟨-, hlt⟩, rfl⟩ := h
  exact ⟨_, rfl, hlt, rfl⟩

/-- What `send` does to other kernels. -/
theorem send_eq_some (hk : k.phase ≠ .downstream) (h : s.send c k = some s') :
    s' = s ∨ s' = { s with timerKernels := s.timerKernels ++ [k] } ∨
      s' = { s with upstreamKernels := s.upstreamKernels ++ [k] } := by
  simp only [State.send, hk, if_false] at h
  split_ifs at h <;> simp_all

/-- What a thread does when it takes a kernel: it is one of those that had none, the kernel comes from one of the
queues that are its own, and nothing else changes. -/
structure Takes (c : Threads) (s : State P) (w : Worker) (k : Kernel P) (s' : State P) : Prop where
  /-- The thread is there. -/
  mem : w ∈ c.workers
  /-- It had no kernel. -/
  idle : s.running w = none
  /-- It has one now. -/
  running : s'.running = Function.update s.running w (some k)
  /-- The memory is the same. -/
  memory : s'.memory = s.memory
  /-- No kernel has been put anywhere. -/
  placed : s'.placed = s.placed
  /-- The queues of downstream kernels have no other kernels than before. -/
  downstream : ∀ i, ∀ k' ∈ s'.downstreamKernels i, k' ∈ s.downstreamKernels i
  /-- The other queues neither. -/
  waiting : ∀ k' ∈ s'.upstreamKernels ++ s'.timerKernels, k' ∈ s.upstreamKernels ++ s.timerKernels
  /-- The kernel comes from the queue of the thread, or from one of the others. -/
  source : (∃ i, w.queue c = some i ∧ k ∈ s.downstreamKernels i) ∨ k ∈ s.upstreamKernels ++ s.timerKernels

theorem takeDownstream_eq_some {i : ℕ} (hw : w ∈ c.workers) (hidle : s.running w = none) (hi : w.queue c = some i)
    (h : s.takeDownstream w i = some (k, s')) : Takes c s w k s' := by
  rw [State.takeDownstream] at h
  split at h
  · cases h
  · next k rest heq =>
    cases h
    refine ⟨hw, hidle, rfl, rfl, rfl, ?_, fun k' hk' => hk', .inl ⟨i, hi, by simp [heq]⟩⟩
    intro j k' hk'
    by_cases hj : j = i
    · subst hj
      simp only [Function.update_self] at hk'
      exact heq ▸ List.mem_cons_of_mem _ hk'
    · simpa [Function.update_of_ne hj] using hk'

theorem takeUpstream_eq_some (hw : w ∈ c.workers) (hidle : s.running w = none)
    (h : s.takeUpstream w = some (k, s')) : Takes c s w k s' := by
  rw [State.takeUpstream] at h
  split at h
  · cases h
  · next k rest heq =>
    cases h
    refine ⟨hw, hidle, rfl, rfl, rfl, fun i k' hk' => hk', ?_, .inr (by simp [heq])⟩
    intro k' hk'
    simp only [List.mem_append, heq, List.mem_cons] at hk' ⊢
    tauto

theorem takeTimer_eq_some (hw : w ∈ c.workers) (hidle : s.running w = none)
    (h : s.takeTimer w n = some (k, s')) : Takes c s w k s' := by
  rw [State.takeTimer] at h
  split at h
  · cases h
  · next k heq =>
    cases h
    have hmem : k ∈ s.timerKernels := List.mem_of_getElem? heq
    refine ⟨hw, hidle, rfl, rfl, rfl, fun i k' hk' => hk', ?_, .inr (by simp [hmem])⟩
    intro k' hk'
    simp only [List.mem_append] at hk' ⊢
    exact hk'.imp_right List.mem_of_mem_eraseIdx

theorem take_eq_some (h : s.take c w n = some (k, s')) : Takes c s w k s' := by
  simp only [State.take, Option.ite_none_left_eq_some, not_or, Decidable.not_not,
    Option.not_isSome_iff_eq_none] at h
  obtain ⟨⟨hw, hidle⟩, h⟩ := h
  cases w with
  | upstream i =>
    dsimp only at h
    split_ifs at h with hdown
    · exact takeDownstream_eq_some hw hidle (by simp [Worker.queue, hdown.1]) h
    · exact takeUpstream_eq_some hw hidle h
  | downstream i => exact takeDownstream_eq_some hw hidle rfl h
  | timer => exact takeTimer_eq_some hw hidle h

/-! ### The invariant -/

/-- Different threads have different queues. -/
theorem eq_of_queue {w w' : Worker} {i : ℕ} (hw : w ∈ c.workers) (hw' : w' ∈ c.workers) (h : w.queue c = some i)
    (h' : w'.queue c = some i) : w = w' := by
  have hdown : ∀ {i}, Worker.downstream i ∈ c.workers → c.downstream ≠ 0 := by
    intro i hmem hzero
    simp [Threads.workers, hzero] at hmem
  cases w <;> cases w' <;> simp_all [Worker.queue]

theorem Ordered.oneQueue (h : Ordered c s) : OneQueue s := fun p hp i hi j hj =>
  (h.placed p hp i hi).trans (h.placed p hp j hj).symm

/-- **No two threads are in one principal**, since its downstream kernels are in one queue, from which one thread takes
them. -/
theorem Ordered.no_two (h : Ordered c s) : Apart s := by
  intro p w w' k k' hw hw' hk hk'
  by_contra hne
  obtain ⟨hdown, hdown'⟩ := h.apart p w w' k k' hw hw' hne hk hk'
  obtain ⟨hmem, hqueue⟩ := h.running w k hw
  obtain ⟨hmem', hqueue'⟩ := h.running w' k' hw'
  obtain ⟨i, hi, hplaced⟩ := hqueue hdown
  obtain ⟨j, hj, hplaced'⟩ := hqueue' hdown'
  have heq : i = j := h.oneQueue p (ne_zero_of_reactsIn hk) i (hplaced p hk) j (hplaced' p hk')
  exact hne (eq_of_queue hmem hmem' hi (heq ▸ hj))

/-! ### The steps keep the invariant -/

/-- Nothing has been put anywhere at the start. -/
theorem Ordered.initial (memory : Memory P) : Ordered c { memory } := by
  refine ⟨?_, ?_, ?_, ?_, ?_⟩ <;> simp

/-- What is in the queues and threads stays ordered if kernels are put into more queues. -/
theorem mem_placed_of_mem {i : ℕ} {q : UInt64} {j : ℕ} (h : i ∈ s.placed p) :
    i ∈ Function.update s.placed q (s.placed q ++ [j]) p := by
  by_cases hp : p = q
  · subst hp
    simp [h]
  · rwa [Function.update_of_ne hp]

/-- **A kernel on its way back is put into the queue of its principal.** -/
theorem Ordered.sendDownstream (h : Ordered c s) (hk : k.phase = .downstream) (hs : s.sendDownstream c k = some s') :
    Ordered c s' := by
  obtain ⟨i, hi, hlt, rfl⟩ := sendDownstream_eq_some hs
  refine ⟨?placed, ?queued, h.waiting, ?running, h.apart⟩
  case placed =>
    intro p hp j hj
    by_cases hpk : p = k.principal
    · subst hpk
      simp only [Function.update_self, List.mem_append, List.mem_singleton] at hj
      rcases hj with hj | rfl
      · exact h.placed _ hp j hj
      · rw [hi, hash_eq s.memory hp]
    · simp only [Function.update_of_ne hpk] at hj
      exact h.placed p hp j hj
  case queued =>
    have hold : ∀ j, ∀ k' ∈ s.downstreamKernels j, j < c.numQueues ∧ k'.phase = .downstream ∧
        ∀ p, reactsIn k' = some p → j ∈ Function.update s.placed k.principal (s.placed k.principal ++ [i]) p := by
      intro j k' hk'
      obtain ⟨hj, hphase, hplaced⟩ := h.queued j k' hk'
      exact ⟨hj, hphase, fun p hp => mem_placed_of_mem (hplaced p hp)⟩
    intro j k' hk'
    by_cases hj : j = i
    · subst hj
      simp only [Function.update_self, List.mem_append, List.mem_singleton] at hk'
      rcases hk' with hk' | rfl
      · exact hold j k' hk'
      · refine ⟨hlt, hk, fun p hp => ?_⟩
        simp [principal_of_reactsIn hp]
    · simp only [Function.update_of_ne hj] at hk'
      exact hold j k' hk'
  case running =>
    intro w k' hk'
    obtain ⟨hw, hqueue⟩ := h.running w k' hk'
    refine ⟨hw, fun hphase => ?_⟩
    obtain ⟨j, hj, hplaced⟩ := hqueue hphase
    exact ⟨j, hj, fun p hp => mem_placed_of_mem (hplaced p hp)⟩

theorem Ordered.send (h : Ordered c s) (hs : s.send c k = some s') : Ordered c s' := by
  by_cases hk : k.phase = .downstream
  · rw [State.send, if_pos hk] at hs
    exact h.sendDownstream hk hs
  · have hwaiting : ∀ k' ∈ s.upstreamKernels ++ s.timerKernels ++ [k], k'.phase ≠ .downstream := by
      intro k' hk'
      rcases List.mem_append.mp hk' with hk' | hk'
      · exact h.waiting k' hk'
      · rwa [List.mem_singleton.mp hk']
    rcases send_eq_some hk hs with rfl | rfl | rfl
    · exact h
    · exact { h with waiting := fun k' hk' => hwaiting k' (by simpa using hk') }
    · refine { h with waiting := fun k' hk' => hwaiting k' ?_ }
      simp only [List.mem_append, List.mem_singleton] at hk' ⊢
      tauto

/-- **A thread takes downstream kernels from its queue only.** -/
theorem Ordered.take (h : Ordered c s) (hs : s.take c w n = some (k, s')) (hcalm : Calm c s (.take w n)) :
    Ordered c s' := by
  have htakes := take_eq_some hs
  refine ⟨?placed, ?queued, ?waiting, ?running, ?apart⟩
  case placed =>
    rw [htakes.placed, htakes.memory]
    exact h.placed
  case queued =>
    rw [htakes.placed]
    exact fun i k' hk' => h.queued i k' (htakes.downstream i k' hk')
  case waiting => exact fun k' hk' => h.waiting k' (htakes.waiting k' hk')
  case running =>
    rw [htakes.running, htakes.placed]
    intro w' k' hk'
    by_cases hw : w' = w
    · subst hw
      obtain rfl : k = k' := by simpa using hk'
      refine ⟨htakes.mem, fun hphase => ?_⟩
      rcases htakes.source with ⟨i, hi, hmem⟩ | hmem
      · exact ⟨i, hi, (h.queued i k hmem).2.2⟩
      · exact absurd hphase (h.waiting k hmem)
    · rw [Function.update_of_ne hw] at hk'
      exact h.running w' k' hk'
  case apart =>
    rw [htakes.running]
    intro p w₁ w₂ k₁ k₂ h₁ h₂ hne hp₁ hp₂
    by_cases hw₁ : w₁ = w
    · subst hw₁
      obtain rfl : k = k₁ := by simpa using h₁
      rw [Function.update_of_ne hne.symm] at h₂
      exact hcalm k s' hs w₂ k₂ p h₂ hp₁ hp₂
    · rw [Function.update_of_ne hw₁] at h₁
      by_cases hw₂ : w₂ = w
      · subst hw₂
        obtain rfl : k = k₂ := by simpa using h₂
        exact (hcalm k s' hs w₁ k₁ p h₁ hp₂ hp₁).symm
      · rw [Function.update_of_ne hw₂] at h₂
        exact h.apart p w₁ w₂ k₁ k₂ h₁ h₂ hne hp₁ hp₂

theorem Ordered.finish (h : Ordered c s) (w : Worker) :
    Ordered c { s with running := Function.update s.running w none } := by
  have hold : ∀ w' k', Function.update s.running w none w' = some k' → s.running w' = some k' := by
    intro w' k' hk'
    by_cases hw : w' = w
    · subst hw
      simp at hk'
    · rwa [Function.update_of_ne hw] at hk'
  exact ⟨h.placed, h.queued, h.waiting, fun w' k' hk' => h.running w' k' (hold w' k' hk'),
    fun p w₁ w₂ k₁ k₂ h₁ h₂ => h.apart p w₁ w₂ k₁ k₂ (hold w₁ k₁ h₁) (hold w₂ k₂ h₂)⟩

/-- Kernels in memory may change, if the queues of those that downstream kernels have been put into one for stay. -/
theorem Ordered.memory (h : Ordered c s) {memory : Memory P}
    (hmemory : ∀ p, p ≠ 0 → s.placed p ≠ [] → queueOf c memory p = queueOf c s.memory p) :
    Ordered c { s with memory } :=
  { h with placed := fun p hp i hi => by rw [hmemory p hp (List.ne_nil_of_mem hi), ← h.placed p hp i hi] }

/-- A kernel that keeps its id keeps its queue. -/
theorem queueOf_update {memory : Memory P} {a : UInt64} (hk : k.id = (memory a).id) :
    queueOf c (Function.update memory a k) p = queueOf c memory p := by
  by_cases hp : p = a
  · subst hp
    simp [queueOf, Kernel.hasId, hk]
  · simp [queueOf, Function.update_of_ne hp]

/-- A new kernel in the place of a freed one has no kernel in the queues and threads. -/
theorem Ordered.renew (h : Ordered c s) {a : UInt64} (ha : ∀ k' ∈ s.kernels c, reactsIn k' ≠ some a) :
    Ordered c { s with
      memory := Function.update s.memory a k
      running := fun w => (s.running w).map (leave a)
      placed := Function.update s.placed a [] } := by
  have hother : ∀ {p i}, p ≠ a → i ∈ s.placed p → i ∈ Function.update s.placed a [] p := by
    intro p i hpa hi
    rwa [Function.update_of_ne hpa]
  refine ⟨?placed, ?queued, h.waiting, ?running, ?apart⟩
  case placed =>
    intro p hp i hi
    by_cases hpa : p = a
    · subst hpa
      simp at hi
    · simp only [Function.update_of_ne hpa] at hi
      simpa [queueOf, Function.update_of_ne hpa] using h.placed p hp i hi
  case queued =>
    intro i k' hk'
    obtain ⟨hi, hphase, hplaced⟩ := h.queued i k' hk'
    have hmem : k' ∈ s.kernels c := by
      simp only [State.kernels, List.mem_append, List.mem_flatMap, List.mem_range]
      exact .inl (.inl ⟨i, hi, hk'⟩)
    refine ⟨hi, hphase, fun p hp => hother ?_ (hplaced p hp)⟩
    rintro rfl
    exact ha k' hmem hp
  case running =>
    intro w k' hk'
    obtain ⟨k₀, hk₀, rfl⟩ := Option.map_eq_some_iff.mp hk'
    obtain ⟨hw, hqueue⟩ := h.running w k₀ hk₀
    refine ⟨hw, fun hphase => ?_⟩
    obtain ⟨i, hi, hplaced⟩ := hqueue (by simpa using hphase)
    refine ⟨i, hi, fun p hp => ?_⟩
    obtain ⟨hp₀, hpa⟩ := reactsIn_of_leave hp
    exact hother hpa (hplaced p hp₀)
  case apart =>
    intro p w w' k₁ k₂ h₁ h₂ hne hp₁ hp₂
    obtain ⟨k₁, hk₁, rfl⟩ := Option.map_eq_some_iff.mp h₁
    obtain ⟨k₂, hk₂, rfl⟩ := Option.map_eq_some_iff.mp h₂
    simpa using h.apart p w w' k₁ k₂ hk₁ hk₂ hne (reactsIn_of_leave hp₁).1 (reactsIn_of_leave hp₂).1

/-- **Every step that meets the condition keeps the invariant.** -/
theorem Ordered.step {e : Event P} (h : Ordered c s) (hs : s.step c e = some s') (hcalm : Calm c s e) :
    Ordered c s' := by
  cases e with
  | send k => exact h.send hs
  | take w n =>
    obtain ⟨⟨k, s''⟩, htake, rfl⟩ := Option.map_eq_some_iff.mp hs
    exact h.take htake hcalm
  | finish w =>
    obtain rfl := Option.some.inj hs
    exact h.finish w
  | sendRemotely counter a =>
    obtain ⟨memory, hmemory, rfl⟩ := Option.map_eq_some_iff.mp hs
    exact h.memory (hcalm memory hmemory)
  | change a k =>
    simp only [State.step, Option.ite_none_right_eq_some, Option.some.injEq] at hs
    obtain ⟨hk, rfl⟩ := hs
    exact h.memory fun p _ _ => queueOf_update hk
  | renew a k =>
    simp only [State.step, Option.ite_none_right_eq_some, Option.some.injEq] at hs
    obtain ⟨ha, rfl⟩ := hs
    exact h.renew ha

/-- And so do runs. -/
theorem ordered_of_reachable (h : (calmSystem P c).Reachable s) : Ordered c s := by
  refine h.invariant ?_ ?_
  · rintro s ⟨memory, rfl⟩
    exact Ordered.initial memory
  · rintro s s' hs ⟨e, he, hcalm⟩
    exact hs.step he hcalm

/-- With valid numbers of threads and queues there is a queue for every kernel. -/
theorem isSome_send (hc : c.Valid) (s : State P) (k : Kernel P) : (s.send c k).isSome := by
  obtain ⟨hpos, hle⟩ := hc
  have hlt : (hash s.memory k).toNat % c.size < c.numQueues := (Nat.mod_lt _ hpos).trans_le hle
  have hcond : ¬ (c.size = 0 ∨ c.numQueues ≤ (hash s.memory k).toNat % c.size) := by omega
  rw [State.send]
  split_ifs
  · simp [State.sendDownstream, hcond]
  all_goals rfl

/-! ### The queues of downstream kernels -/

/-- **In runs whose steps meet the condition, all downstream kernels of a principal are put into one queue, and no two
threads are in one principal.** -/
theorem one_queue (hc : c.Valid) (h : (calmSystem P c).Reachable s) :
    (∀ k, (s.send c k).isSome) ∧ OneQueue s ∧ Apart s := by
  have hordered : Ordered c s := ordered_of_reachable h
  exact ⟨isSome_send hc s, hordered.oneQueue, hordered.no_two⟩

/-- **A step that does not meet the condition breaks the order**, at once or with the next result that is sent. -/
theorem not_calm {e : Event P} (hc : c.Valid) (h : (calmSystem P c).Reachable s) (hs : s.step c e = some s')
    (hcalm : ¬Calm c s e) :
    ∃ s'', (s'' = s' ∨ ∃ k, s'.step c (.send k) = some s'') ∧ ¬(OneQueue s'' ∧ Apart s'') := by
  have hordered : Ordered c s := ordered_of_reachable h
  cases e with
  | take w n =>
    simp only [Calm, not_forall, not_and] at hcalm
    obtain ⟨k, s'', htake, w', k', p, hk', hp, hp', -⟩ := hcalm
    obtain rfl : s'' = s' := by simpa [State.step, htake] using hs
    have htakes := take_eq_some htake
    have hne : w' ≠ w := by
      rintro rfl
      simp [htakes.idle] at hk'
    refine ⟨s'', .inl rfl, fun hboth => hne (hboth.2 p w' w k' k ?_ ?_ hp' hp)⟩
    · rwa [htakes.running, Function.update_of_ne hne]
    · rw [htakes.running, Function.update_self]
  | sendRemotely counter a =>
    obtain ⟨memory, hmemory, rfl⟩ := Option.map_eq_some_iff.mp hs
    simp only [Calm, not_forall] at hcalm
    obtain ⟨memory', hmemory', p, hp, hplaced, hqueue⟩ := hcalm
    obtain rfl : memory = memory' := Option.some.inj (hmemory.symm.trans hmemory')
    obtain ⟨i, hi⟩ := List.exists_mem_of_ne_nil _ hplaced
    -- Any kernel that is sent back to this principal is put into the other queue.
    let k : Kernel P := { (memory p).setPrincipal p with phase := .downstream }
    have hk : k.principal = p := Kernel.principal_setPrincipal (memory p) p
    obtain ⟨s'', hs''⟩ := Option.isSome_iff_exists.mp (isSome_send hc { s with memory } k)
    refine ⟨s'', .inr ⟨k, hs''⟩, fun hboth => hqueue ?_⟩
    rw [State.send, if_pos rfl] at hs''
    obtain ⟨j, hj, -, rfl⟩ := sendDownstream_eq_some hs''
    have hmem : ∀ m, m ∈ s.placed p ∨ m = j →
        m ∈ Function.update s.placed k.principal (s.placed k.principal ++ [j]) p := by
      intro m hm
      simpa [hk] using hm
    have hij : i = j := hboth.1 p hp i (hmem i (.inl hi)) j (hmem j (.inr rfl))
    rw [← hordered.placed p hp i hi, hij, hj, hash_eq _ (hk.symm ▸ hp), hk]
  | send k => exact absurd trivial hcalm
  | finish w => exact absurd trivial hcalm
  | change a k => exact absurd trivial hcalm
  | renew a k => exact absurd trivial hcalm

/-- A child of the kernel at 32. -/
def child : Kernel Unit := { Kernel.fresh 0 (.native KernelType.plain.index ()) with parentWord := 32 }

/-- The result of a child. -/
def childResult : Kernel Unit := child.returnToParent .success

/-- Memory with a child at 64 that is going to be sent to another process. -/
def family : Memory Unit := fun a => if a = 64 then child else Kernel.fresh 0 (.native KernelType.plain.index ())

/-- A principal that has got its id before the first result comes. -/
theorem one_queue_child : ∃ s : State Unit, (calmSystem Unit ⟨3, 0, 0⟩).Reachable s ∧ s.placed 32 = [2] ∧
    (∀ k, (s.send ⟨3, 0, 0⟩ k).isSome) ∧ OneQueue s ∧ Apart s := by
  have hstart : (calmSystem Unit ⟨3, 0, 0⟩).Reachable { memory := family } := .initial ⟨family, rfl⟩
  have hremote := hstart.step ⟨.sendRemotely 1 64, rfl, fun _ _ _ _ hplaced => absurd rfl hplaced⟩
  have hsent := hremote.step ⟨.send childResult, rfl, trivial⟩
  exact ⟨_, hsent, rfl, one_queue (by decide) hsent⟩

/-- **A principal that gets its id later has results in two queues**, and two threads execute it. -/
theorem two_threads : ¬∀ c : Threads, c.Valid → ∀ s : State Unit, (system Unit c).Reachable s →
    OneQueue s ∧ Apart s := by
  intro hall
  have hstart : (system Unit ⟨3, 0, 0⟩).Reachable { memory := family } := .initial ⟨family, rfl⟩
  have hsent := hstart.step ⟨.send childResult, rfl⟩
  have htaken := hsent.step ⟨.take (.upstream 1) 0, rfl⟩
  have hremote := htaken.step ⟨.sendRemotely 1 64, rfl⟩
  have hsent' := hremote.step ⟨.send childResult, rfl⟩
  have htaken' := hsent'.step ⟨.take (.upstream 2) 0, rfl⟩
  have hsame := (hall ⟨3, 0, 0⟩ (by decide) _ htaken').2 32 (.upstream 1) (.upstream 2) childResult childResult rfl rfl
    rfl rfl
  cases hsame

end ParallelPipeline

end Subordination.Core
