import Subordination.Core.ParallelPipeline

/-!
# The queues of downstream kernels

How many queues of downstream kernels the parallel pipeline has, and which thread takes kernels from which, when the
numbers of the threads are set, and when the pipeline is started, stopped and started again
(`core/parallel_pipeline.hh`, `core/parallel_pipeline.cc`).

## The model

A step is a call of a setter, of `send`, `start`, `stop` or `wait`, or what a thread does with its queue. A call in a
state that does not allow it throws, and is no step; neither is one that looks at a queue or divides by a number that
is not there. The pipeline is started when it is new or has been stopped. A thread is given a reference to a queue,
which is good as long as the array of the queues is not replaced, so each thread has the number of its array. The
kernels in an array that is replaced are kept as lost.

## What is proved

* `DownstreamQueues.queues_suffice` — in runs with certain conditions on the steps, every queue that is looked at is
  there, and all downstream kernels are in queues that are gone through by a thread.
* `DownstreamQueues.not_proper_start`, `DownstreamQueues.not_proper_numDownstreamThreads`,
  `DownstreamQueues.not_proper_sendDownstream` — what is wrong after a step that does not meet them.
* `DownstreamQueues.more_upstream` — two upstream threads and a downstream one.
-/

namespace Subordination.Core

open Library
open ParallelPipeline

namespace DownstreamQueues

variable {P : Type}

/-! ### The pipeline -/

/-- `pipeline_base::states`. `start` holds the lock while the pipeline is starting. -/
inductive States where
  /-- `initial`. -/
  | initial
  /-- `started`. -/
  | started
  /-- `stopping`. -/
  | stopping
  /-- `stopped`. -/
  | stopped
  deriving DecidableEq, Repr

/-- No thread has been started, or all of them have been waited for. -/
def States.rests (s : States) : Prop := s = .initial ∨ s = .stopped

instance (s : States) : Decidable s.rests := inferInstanceAs (Decidable (_ ∨ _))

/-- The part of `parallel_pipeline` that has to do with downstream kernels. -/
structure State (P : Type) where
  /-- `state()`. -/
  state : States := .initial
  /-- `_upstream_threads.size()`. -/
  upstreamThreads : ℕ
  /-- `_downstream_threads.size()`. -/
  downstreamThreads : ℕ
  /-- `_downstream_kernels`. -/
  downstreamKernels : List (List (Kernel P))
  /-- `_downstream_semaphores.size()`. -/
  downstreamSemaphores : ℕ
  /-- How many arrays there have been in place of `_downstream_kernels`. -/
  replaced : ℕ := 0
  /-- The threads that run, each with the number of the array that it has been given a queue of. -/
  running : List (Worker × ℕ) := []
  /-- The kernels in the arrays that have been replaced. -/
  lost : List (Kernel P) := []

/-- What happens. -/
inductive Event (P : Type) where
  /-- `num_downstream_threads`. -/
  | numDownstreamThreads (n : ℕ)
  /-- `num_upstream_threads`. -/
  | numUpstreamThreads (n : ℕ)
  /-- A downstream kernel is sent, alone or with others. -/
  | sendDownstream (memory : Memory P) (k : Kernel P)
  /-- `start`. -/
  | start
  /-- `stop`. -/
  | stop
  /-- `wait`. -/
  | wait
  /-- A thread takes a downstream kernel. -/
  | take (w : Worker)
  /-- A thread ends. -/
  | leave (w : Worker)

/-- The queue that a thread is given a reference to, whether it goes through it or not. -/
def given : Worker → Option ℕ
  | .upstream i => some i
  | .downstream i => some i
  | .timer => none

namespace State

/-- The constructor. -/
def new (upstream downstream : ℕ) : State P where
  upstreamThreads := upstream
  downstreamThreads := downstream
  downstreamKernels := List.replicate downstream []
  downstreamSemaphores := downstream

/-- The numbers of the threads and queues. -/
def threads (s : State P) : Threads := ⟨s.upstreamThreads, s.downstreamThreads, s.downstreamKernels.length⟩

/-- `_downstream_kernels = kernel_queue_array(n)`. -/
def replaceQueues (s : State P) (n : ℕ) : State P :=
  { s with
    downstreamKernels := List.replicate n []
    replaced := s.replaced + 1
    lost := s.lost ++ s.downstreamKernels.flatten }

/-- `num_downstream_threads`. -/
def numDownstreamThreads (s : State P) (n : ℕ) : Option (State P) :=
  if s.state.rests ∨ s.downstreamThreads = 0 then some { s.replaceQueues n with downstreamSemaphores := n } else none

/-- `num_upstream_threads`. -/
def numUpstreamThreads (s : State P) (n : ℕ) : Option (State P) :=
  if s.state.rests ∨ s.upstreamThreads = 0 then some { s with upstreamThreads := n } else none

/-- The queue that a downstream kernel is put into. -/
def index (s : State P) (memory : Memory P) (k : Kernel P) : ℕ := (hash memory k).toNat % s.threads.size

/-- `send_downstream`, and `send` for a downstream kernel. -/
def sendDownstream (s : State P) (memory : Memory P) (k : Kernel P) : Option (State P) :=
  let i := s.index memory k
  if s.threads.size = 0 ∨ s.downstreamKernels.length ≤ i ∨ s.downstreamThreads ≠ 0 ∧ s.downstreamSemaphores ≤ i then
    none
  else some { s with downstreamKernels := s.downstreamKernels.modify i (· ++ [k]) }

/-- The threads that `start` starts. -/
def workers (s : State P) : List (Worker × ℕ) :=
  (List.range s.upstreamThreads).map (fun i => (.upstream i, s.replaced)) ++
    (List.range s.downstreamThreads).map fun i => (.downstream i, s.replaced)

/-- `start`. -/
def start (s : State P) : Option (State P) :=
  if s.state.rests then
    let s := if s.downstreamThreads = 0 then s.replaceQueues s.upstreamThreads else s
    some { s with state := .started, running := s.workers }
  else none

/-- `wait`, which returns when all threads have ended. -/
def wait (s : State P) : Option (State P) := if s.running = [] then some { s with state := .stopped } else none

/-- A thread takes the first kernel of its queue. -/
def take (s : State P) (w : Worker) : Option (State P) :=
  if (w, s.replaced) ∈ s.running then
    match w.queue s.threads with
    | none => none
    | some i =>
      match s.downstreamKernels[i]? with
      | some (_ :: rest) => some { s with downstreamKernels := s.downstreamKernels.set i rest }
      | _ => none
  else none

/-- A thread ends when its queue is empty and the pipeline is stopping. -/
def leave (s : State P) (w : Worker) : Option (State P) :=
  if s.state = .stopping ∧ ∀ i, w.queue s.threads = some i → s.downstreamKernels.getD i [] = [] then
    some { s with running := s.running.filter fun x => x.1 ≠ w }
  else none

/-- One step. -/
def step (s : State P) : Event P → Option (State P)
  | .numDownstreamThreads n => s.numDownstreamThreads n
  | .numUpstreamThreads n => s.numUpstreamThreads n
  | .sendDownstream memory k => s.sendDownstream memory k
  | .start => s.start
  | .stop => some { s with state := .stopping }
  | .wait => s.wait
  | .take w => s.take w
  | .leave w => s.leave w

/-- No downstream kernel is in a queue. -/
def Empty (s : State P) : Prop := ∀ q ∈ s.downstreamKernels, q = []

/-- The condition on a step. -/
def Proper (s : State P) : Event P → Prop
  | .sendDownstream _ _ => 0 < s.threads.size ∧ s.threads.size ≤ s.downstreamKernels.length ∧
      (s.downstreamThreads = 0 → s.state = .started ∨ s.state = .stopping) ∧
      (s.downstreamThreads ≠ 0 → s.upstreamThreads ≤ s.downstreamThreads)
  | .start => (s.downstreamThreads = 0 → s.Empty) ∧
      (s.downstreamThreads ≠ 0 → s.threads.size ≤ s.downstreamKernels.length)
  | .numDownstreamThreads _ => s.Empty ∧ s.running = [] ∧ s.state ≠ .started
  | _ => True

end State

/-- The pipeline, from any numbers of threads that its properties accept. -/
def system (P : Type) : System (State P) where
  Initial s := ∃ upstream downstream, 1 ≤ upstream ∧ s = .new upstream downstream
  Step s s' := ∃ e, s.step e = some s'

/-- The pipeline, as far as its steps meet the condition. -/
def properSystem (P : Type) : System (State P) where
  Initial s := ∃ upstream downstream, 1 ≤ upstream ∧ s = .new upstream downstream
  Step s s' := ∃ e, s.step e = some s' ∧ s.Proper e

/-! ### What is to hold -/

/-- The queue that a thread has been given is there. -/
def Placed (s : State P) : Prop :=
  ∀ x ∈ s.running, x.2 = s.replaced ∧ ∀ i, given x.1 = some i → i < s.downstreamKernels.length

/-- No kernel has been lost, and once the pipeline is started a thread goes through every queue that is not empty. -/
def Drained (s : State P) : Prop :=
  s.lost = [] ∧ (s.state = .started → ∀ i q, s.downstreamKernels[i]? = some q → q ≠ [] →
    ∃ w, (w, s.replaced) ∈ s.running ∧ w.queue s.threads = some i)

/-- The invariant. -/
structure Kept (s : State P) : Prop where
  /-- Threads have queues. -/
  placed : Placed s
  /-- Nothing is lost. -/
  lost : s.lost = []
  /-- While the pipeline rests, no thread runs. -/
  rests : s.state.rests → s.running = []
  /-- There are no other downstream threads than those of the pool. -/
  few : ∀ i n, (.downstream i, n) ∈ s.running → i < s.downstreamThreads
  /-- Downstream threads go through their queues. -/
  downstream : s.state = .started → ∀ i < s.downstreamThreads, (.downstream i, s.replaced) ∈ s.running
  /-- Without them, upstream threads go through all queues. -/
  upstream : s.state = .started → s.downstreamThreads = 0 → ∀ i < s.downstreamKernels.length,
    (.upstream i, s.replaced) ∈ s.running
  /-- The kernels are in the queues of the downstream threads, if there are any. -/
  low : s.downstreamThreads ≠ 0 → ∀ i q, s.downstreamKernels[i]? = some q → s.downstreamThreads ≤ i → q = []
  /-- There are as many semaphores as queues, if they are used. -/
  semaphores : s.downstreamThreads ≠ 0 → s.downstreamSemaphores = s.downstreamKernels.length

/-! ### Steps -/

variable {s s' : State P}

theorem flatten_of_empty (h : s.Empty) : s.downstreamKernels.flatten = [] := List.flatten_eq_nil_iff.mpr h

/-- A kernel that may be sent is put into a queue that there is. -/
theorem index_lt {memory : Memory P} {k : Kernel P} (hk : s.Proper (.sendDownstream memory k)) :
    s.index memory k < s.downstreamKernels.length :=
  (Nat.mod_lt _ hk.1).trans_le hk.2.1

/-- If there are downstream threads, it is that of one of them. -/
theorem index_lt_downstream {memory : Memory P} {k : Kernel P} (hk : s.Proper (.sendDownstream memory k))
    (hd : s.downstreamThreads ≠ 0) : s.index memory k < s.downstreamThreads := by
  have hsize : s.threads.size = s.downstreamThreads := max_eq_right (hk.2.2.2 hd)
  exact (Nat.mod_lt _ hk.1).trans_eq hsize

/-- What `start` gives to the threads: the queues up to the greater number of them. -/
theorem given_lt {x : Worker × ℕ} (hx : x ∈ s.workers) : x.2 = s.replaced ∧
    ∀ i, given x.1 = some i → i < s.threads.size := by
  rcases List.mem_append.mp hx with hx | hx <;> obtain ⟨j, hj, rfl⟩ := List.mem_map.mp hx
  · refine ⟨rfl, fun i hi => ?_⟩
    cases hi
    exact (List.mem_range.mp hj).trans_le (le_max_left ..)
  · refine ⟨rfl, fun i hi => ?_⟩
    cases hi
    exact (List.mem_range.mp hj).trans_le (le_max_right ..)

theorem exists_given {i : ℕ} (hi : i < s.threads.size) : ∃ w, (w, s.replaced) ∈ s.workers ∧ given w = some i := by
  rcases lt_max_iff.mp hi with hi | hi
  · have hlt : i < s.upstreamThreads := hi
    exact ⟨.upstream i, by simp [State.workers, hlt], rfl⟩
  · have hlt : i < s.downstreamThreads := hi
    exact ⟨.downstream i, by simp [State.workers, hlt], rfl⟩

theorem mem_workers {i n : ℕ} (h : (.downstream i, n) ∈ s.workers) : i < s.downstreamThreads := by
  rcases List.mem_append.mp h with h | h <;> obtain ⟨j, hj, heq⟩ := List.mem_map.mp h <;> cases heq
  exact List.mem_range.mp hj

/-- The queues and threads of a pipeline that is started are those of `ParallelPipeline.Threads`. -/
theorem length_start (hs : s.start = some s') :
    s'.downstreamKernels.length = s.threads.numQueues ∧ s'.threads.size = s.threads.size := by
  unfold State.start at hs
  split_ifs at hs with hrests hd
  · cases hs
    simp [State.replaceQueues, State.threads, Threads.numQueues, Threads.size, hd]
  · cases hs
    simp [State.threads, Threads.numQueues, Threads.size, hd]

/-- What a thread does when it takes a kernel. -/
theorem take_eq {w : Worker} (h : s.take w = some s') : ∃ i k rest, s.downstreamKernels[i]? = some (k :: rest) ∧
    s' = { s with downstreamKernels := s.downstreamKernels.set i rest } := by
  unfold State.take at h
  split_ifs at h
  cases hqueue : w.queue s.threads with
  | none => simp [hqueue] at h
  | some i =>
    rw [hqueue] at h
    dsimp only at h
    split at h
    · exact ⟨i, _, _, ‹_›, (Option.some.inj h).symm⟩
    · cases h

namespace Kept

theorem initial (upstream downstream : ℕ) : Kept (.new upstream downstream : State P) where
  placed := by simp [Placed, State.new]
  lost := rfl
  rests := fun _ => rfl
  few := by simp [State.new]
  downstream := by simp [State.new]
  upstream := by simp [State.new]
  low := by
    intro _ i q hq _
    exact (List.mem_replicate.mp (List.mem_of_getElem? hq)).2
  semaphores := by simp [State.new]

variable (h : Kept s)

include h

theorem numDownstreamThreads {n : ℕ} (hs : s.numDownstreamThreads n = some s')
    (hproper : s.Proper (.numDownstreamThreads n)) : Kept s' := by
  obtain ⟨hempty, hrunning, hstate⟩ := hproper
  unfold State.numDownstreamThreads at hs
  split_ifs at hs
  cases hs
  exact {
    placed := by simp [Placed, State.replaceQueues, hrunning]
    lost := by simp [State.replaceQueues, h.lost, flatten_of_empty hempty]
    rests := fun _ => hrunning
    few := by simp [State.replaceQueues, hrunning]
    downstream := fun hstarted => absurd hstarted hstate
    upstream := fun hstarted => absurd hstarted hstate
    low := by
      intro _ i q hq _
      exact (List.mem_replicate.mp (List.mem_of_getElem? hq)).2
    semaphores := by simp [State.replaceQueues] }

theorem numUpstreamThreads {n : ℕ} (hs : s.numUpstreamThreads n = some s') : Kept s' := by
  unfold State.numUpstreamThreads at hs
  split_ifs at hs
  cases hs
  exact ⟨h.placed, h.lost, h.rests, h.few, h.downstream, h.upstream, h.low, h.semaphores⟩

theorem sendDownstream {memory : Memory P} {k : Kernel P} (hs : s.sendDownstream memory k = some s')
    (hproper : s.Proper (.sendDownstream memory k)) : Kept s' := by
  unfold State.sendDownstream at hs
  dsimp only at hs
  split_ifs at hs
  cases hs
  exact {
    placed := by simpa [Placed] using h.placed
    lost := h.lost
    rests := h.rests
    few := h.few
    downstream := h.downstream
    upstream := by simpa using h.upstream
    low := by
      intro hd i q hq hi
      have hne : s.index memory k ≠ i := ((index_lt_downstream hproper hd).trans_le hi).ne
      dsimp only at hq
      rw [List.getElem?_modify_ne _ _ hne] at hq
      exact h.low hd i q hq hi
    semaphores := by simpa using h.semaphores }

theorem start (hs : s.start = some s') (hproper : s.Proper .start) : Kept s' := by
  obtain ⟨hempty, hsize⟩ := hproper
  unfold State.start at hs
  split_ifs at hs with hrests hd
  · cases hs
    exact {
      placed := by
        intro x hx
        obtain ⟨hreplaced, hlt⟩ := given_lt hx
        refine ⟨hreplaced, fun i hi => ?_⟩
        simpa [State.threads, Threads.size, State.replaceQueues, hd] using hlt i hi
      lost := by simp [State.replaceQueues, h.lost, flatten_of_empty (hempty hd)]
      rests := by simp [States.rests]
      few := fun _ _ hi => mem_workers hi
      downstream := by simp [State.replaceQueues, hd]
      upstream := by simp [State.replaceQueues, State.workers]
      low := by simp [State.replaceQueues, hd]
      semaphores := by simp [State.replaceQueues, hd] }
  · cases hs
    exact {
      placed := by
        intro x hx
        obtain ⟨hreplaced, hlt⟩ := given_lt hx
        exact ⟨hreplaced, fun i hi => (hlt i hi).trans_le (hsize hd)⟩
      lost := h.lost
      rests := by simp [States.rests]
      few := fun _ _ hi => mem_workers hi
      downstream := by simp [State.workers]
      upstream := by simp [hd]
      low := h.low
      semaphores := h.semaphores }

theorem stop : Kept { s with state := .stopping } where
  placed := h.placed
  lost := h.lost
  rests := by simp [States.rests]
  few := h.few
  downstream := by simp
  upstream := by simp
  low := h.low
  semaphores := h.semaphores

theorem wait (hs : s.wait = some s') : Kept s' := by
  unfold State.wait at hs
  split_ifs at hs with hrunning
  cases hs
  exact {
    placed := h.placed
    lost := h.lost
    rests := fun _ => hrunning
    few := h.few
    downstream := by simp
    upstream := by simp
    low := h.low
    semaphores := h.semaphores }

theorem take {w : Worker} (hs : s.take w = some s') : Kept s' := by
  obtain ⟨i, k, rest, hqueue, rfl⟩ := take_eq hs
  exact {
    placed := by simpa [Placed] using h.placed
    lost := h.lost
    rests := h.rests
    few := h.few
    downstream := h.downstream
    upstream := by simpa using h.upstream
    low := by
      intro hd j q hq hj
      have hne : i ≠ j := by
        rintro rfl
        cases h.low hd i _ hqueue hj
      dsimp only at hq
      rw [List.getElem?_set_ne hne] at hq
      exact h.low hd j q hq hj
    semaphores := by simpa using h.semaphores }

theorem leave {w : Worker} (hs : s.leave w = some s') : Kept s' := by
  unfold State.leave at hs
  split_ifs at hs with hleave
  cases hs
  exact {
    placed := fun x hx => h.placed x (List.mem_of_mem_filter hx)
    lost := h.lost
    rests := fun hrests => by simp [h.rests hrests]
    few := fun i n hi => h.few i n (List.mem_of_mem_filter hi)
    downstream := by simp [hleave.1]
    upstream := by simp [hleave.1]
    low := h.low
    semaphores := h.semaphores }

omit h in
/-- It holds in every run whose steps meet the condition. -/
theorem of_reachable (h : (properSystem P).Reachable s) : Kept s := by
  refine h.invariant ?_ ?_
  · rintro _ ⟨upstream, downstream, -, rfl⟩
    exact initial upstream downstream
  · rintro s s' hs ⟨e, hstep, hproper⟩
    cases e with
    | numDownstreamThreads n => exact hs.numDownstreamThreads hstep hproper
    | numUpstreamThreads n => exact hs.numUpstreamThreads hstep
    | sendDownstream memory k => exact hs.sendDownstream hstep hproper
    | start => exact hs.start hstep hproper
    | stop =>
      cases hstep
      exact hs.stop
    | wait => exact hs.wait hstep
    | take w => exact hs.take hstep
    | leave w => exact hs.leave hstep

/-- A kernel that may be sent is sent. -/
theorem exists_send {memory : Memory P} {k : Kernel P} (hk : s.Proper (.sendDownstream memory k)) :
    ∃ s', s.sendDownstream memory k = some s' := by
  have hqueue := index_lt hk
  refine ⟨_, if_neg ?_⟩
  rintro (hsize | hle | ⟨hd, hle⟩)
  · exact hk.1.ne' hsize
  · exact absurd hqueue (Nat.not_lt.mpr hle)
  · rw [h.semaphores hd] at hle
    exact absurd hqueue (Nat.not_lt.mpr hle)

theorem drained : Drained s := by
  refine ⟨h.lost, fun hstarted i q hq hne => ?_⟩
  by_cases hd : s.downstreamThreads = 0
  · have hi : i < s.downstreamKernels.length := (List.getElem?_eq_some_iff.mp hq).1
    exact ⟨.upstream i, h.upstream hstarted hd i hi, if_pos hd⟩
  · have hi : i < s.downstreamThreads := by
      by_contra hle
      exact hne (h.low hd i q hq (Nat.not_lt.mp hle))
    exact ⟨.downstream i, h.downstream hstarted i hi, rfl⟩

end Kept

/-- **The queues suffice**: in every run whose steps meet the condition, a downstream kernel that is sent gets an index
that is less than the number of the queues, every thread has a queue that is there, and every downstream kernel is in
a queue that a thread goes through, once the pipeline is started. -/
theorem queues_suffice (h : (properSystem P).Reachable s) :
    (∀ memory k, s.Proper (.sendDownstream memory k) → s.index memory k < s.downstreamKernels.length ∧
      ∃ s', s.sendDownstream memory k = some s') ∧ Placed s ∧ Drained s := by
  have hkept := Kept.of_reachable h
  exact ⟨fun memory k hk => ⟨index_lt hk, hkept.exists_send hk⟩, hkept.placed, hkept.drained⟩

/-- A kernel with the given hash. -/
def hashed (n : ℕ) : Kernel P :=
  { Kernel.fresh 0 (.foreign []) with
    principalWord := UInt64.ofNat n, flags := KernelFlags.setf 0 .principalIsId }

theorem index_hashed {n : ℕ} (hn : n < s.threads.size) (hsize : s.threads.size ≤ 2 ^ 64) (memory : Memory P) :
    s.index memory (hashed n) = n := by
  have hhash : ParallelPipeline.hash memory (hashed n : Kernel P) = UInt64.ofNat n := by
    simp [ParallelPipeline.hash, hashed, Kernel.isset]
  rw [State.index, hhash, UInt64.toNat_ofNat', Nat.mod_eq_of_lt (hn.trans_le hsize), Nat.mod_eq_of_lt hn]

/-- Two upstream threads, and a kernel that is sent to them. -/
theorem queues_suffice_upstream : ∃ s : State Unit, (properSystem Unit).Reachable s ∧
    s.downstreamKernels = [[], [hashed 3]] ∧ Placed s ∧ Drained s := by
  have hstart : (properSystem Unit).Reachable (.new 2 0) := .initial ⟨2, 0, by decide, rfl⟩
  have hstarted := hstart.step ⟨.start, rfl, fun _ => by simp [State.Empty, State.new], fun hd => absurd rfl hd⟩
  have hsent := hstarted.step ⟨.sendDownstream Memory.blank (hashed 3), rfl, by decide, by decide,
    fun _ => Or.inl rfl, fun hd => absurd rfl hd⟩
  exact ⟨_, hsent, rfl, (queues_suffice hsent).2⟩

/-- **More upstream threads than downstream ones**: the second upstream thread is given a queue that is not there. -/
theorem more_upstream : ¬∀ s : State Unit, (system Unit).Reachable s → Placed s ∧ Drained s := by
  intro hall
  have hstart : (system Unit).Reachable (.new 2 1) := .initial ⟨2, 1, by decide, rfl⟩
  have hstarted := hstart.step ⟨.start, rfl⟩
  have hqueue := ((hall _ hstarted).1 (.upstream 1, 0) (by simp [State.new, State.workers])).2 1 rfl
  exact absurd hqueue (by decide)

/-! ### The steps that the condition leaves out -/

/-- After such a `start` a thread has no queue, or kernels are lost. -/
theorem not_proper_start (hs : s.start = some s') (h : ¬ s.Proper .start) : ¬(Placed s' ∧ Drained s') := by
  rintro ⟨hplaced, hlost, -⟩
  refine h ⟨fun hd q hq => ?_, fun hd => ?_⟩
  · unfold State.start at hs
    split_ifs at hs
    cases hs
    have hflatten : s.downstreamKernels.flatten = [] := (List.append_eq_nil_iff.mp hlost).2
    exact List.flatten_eq_nil_iff.mp hflatten q hq
  · unfold State.start at hs
    split_ifs at hs
    cases hs
    by_contra hle
    obtain ⟨w, hw, hgiven⟩ := exists_given (Nat.not_le.mp hle)
    exact absurd ((hplaced _ hw).2 _ hgiven) (lt_irrefl _)

/-- After such a call of the setter kernels are lost, or a thread has no queue. -/
theorem not_proper_numDownstreamThreads {n : ℕ} (hkept : Kept s) (hs : s.numDownstreamThreads n = some s')
    (h : ¬ s.Proper (.numDownstreamThreads n)) (hrunning : s.state = .started → s.running ≠ []) :
    ¬(Placed s' ∧ Drained s') := by
  rintro ⟨hplaced, hlost, -⟩
  unfold State.numDownstreamThreads at hs
  split_ifs at hs
  cases hs
  have hempty : s.Empty := List.flatten_eq_nil_iff.mp (List.append_eq_nil_iff.mp hlost).2
  have hnone : s.running = [] := by
    refine List.eq_nil_iff_forall_not_mem.mpr fun x hx => ?_
    have hreplaced : x.2 = s.replaced + 1 := (hplaced x hx).1
    have := (hkept.placed x hx).1
    omega
  exact h ⟨hempty, hnone, fun hstarted => hrunning hstarted hnone⟩

/-- If kernels may not be sent to a pipeline that is started, there is one that cannot be sent, or that no thread
takes. -/
theorem not_proper_sendDownstream (hkept : Kept s) (hstarted : s.state = .started) (hsize : s.threads.size ≤ 2 ^ 64)
    (memory : Memory P) (h : ∀ k, ¬ s.Proper (.sendDownstream memory k)) :
    ∃ k, ∀ s', s.sendDownstream memory k = some s' → ¬ Drained s' := by
  rcases Nat.eq_zero_or_pos s.threads.size with hzero | hpos
  · exact ⟨hashed 0, fun s' hs => by simp [State.sendDownstream, hzero] at hs⟩
  by_cases hle : s.threads.size ≤ s.downstreamKernels.length
  · -- the upstream threads are more than the downstream ones, which there are
    have hmore : s.downstreamThreads ≠ 0 ∧ s.downstreamThreads < s.upstreamThreads := by
      by_contra hfew
      refine h (hashed 0) ⟨hpos, hle, fun _ => Or.inl hstarted, fun hd => ?_⟩
      by_contra hlt
      exact hfew ⟨hd, Nat.not_le.mp hlt⟩
    obtain ⟨hd, hlt⟩ := hmore
    have hindex := index_hashed (hlt.trans_le (le_max_left ..)) hsize memory
    refine ⟨hashed s.downstreamThreads, fun s' hs hdrained => ?_⟩
    unfold State.sendDownstream at hs
    dsimp only at hs
    split_ifs at hs with hbad
    cases hs
    rw [hindex] at hbad hdrained
    have hqueue : s.downstreamThreads < s.downstreamKernels.length := by omega
    obtain ⟨w, hw, hgoes⟩ := hdrained.2 hstarted s.downstreamThreads
      (s.downstreamKernels[s.downstreamThreads] ++ [hashed s.downstreamThreads])
      (by simp [hqueue]) (by simp)
    cases w with
    | upstream i => simp [Worker.queue, State.threads, hd] at hgoes
    | downstream i =>
      cases hgoes
      exact absurd (hkept.few _ _ hw) (lt_irrefl _)
    | timer => cases hgoes
  · have hlt : s.downstreamKernels.length < s.threads.size := Nat.not_le.mp hle
    have hindex := index_hashed hlt hsize memory
    exact ⟨hashed s.downstreamKernels.length, fun s' hs => by simp [State.sendDownstream, hindex] at hs⟩

end DownstreamQueues

end Subordination.Core
