import Subordination.Core.Loads
import Subordination.Daemon.SocketPipeline

/-!
# The process pipeline

The pipeline passes kernels to the processes of the applications that run on the node, its jobs
(`daemon/process_pipeline.cc`, `daemon/process_pipeline.hh`, `core/process_handler.cc`). As many are
passed at a time as the threads of the node allow; the others wait in a queue.

## The model

The jobs are in a hash table, which is an association list here. A job is its connection. What has
been passed to the processes is recorded, in order. Whether a process can be started is the
environment's to say. An exception in `process_kernels` ends the process: its thread must not throw.

The lock is held during `forward` and `process_kernels`, so each of them is one step. There is one exception: a
main kernel (of type 1) that its job does not save, which comes downstream without its parent or is broadcast
without a principal, is given back through the pipeline of the clients, without the lock. What other threads do in
that moment is left out. Whether the application is one that waits for completion makes no difference in a daemon
(`afterForward_received`): its kernels have been read.

## What is proved

* `ProcessPipeline.doProcessKernels_append`, `ProcessPipeline.processKernels_ok` — the loops of `process_kernels`.
* `ProcessPipeline.doProcessKernels_invariant` — what every kernel preserves that passes the capacity test.
* `ProcessPipeline.turn_processKernels` — what is passed on in a turn has been passed on in the end.
-/

namespace Subordination.Daemon

open Subordination.Core Subordination.Library
open Subordination.Core.Resources (Trap)

/-! ### The pipeline -/

/-- `application_table`, in the order in which it is gone through. -/
abbrev JobTable (P : Type) := AList fun _ : UInt64 => Connection P

/-- `process_pipeline`. -/
structure ProcessPipeline (P : Type) where
  /-- `_jobs`. -/
  jobs : JobTable P := ∅
  /-- `_kernels`. -/
  kernels : List (Kernel P) := []
  /-- `_outstanding_kernels`. -/
  outstandingKernels : List (Kernel P) := []
  /-- `_max_threads`: `sys::thread_concurrency()`. -/
  maxThreads : UInt32
  /-- There is some thread. -/
  maxThreads_ne_zero : maxThreads ≠ 0 := by decide
  /-- `_interleave`. -/
  interleave : Bool := false
  /-- `_allowroot`. -/
  allowRoot : Bool := true
  /-- `stopping() || stopped()`. -/
  stopping : Bool := false
  /-- The memory of the daemon. -/
  memory : Memory P
  /-- What has been passed to the processes, as it was given, with the applications, oldest first. -/
  passed : List (UInt64 × Kernel P) := []
  /-- The main kernels that have been given back to the pipeline of the clients, oldest first. -/
  returned : List (Kernel P) := []

namespace ProcessPipeline

variable {P : Type}

/-- The loads of the jobs. -/
def loads (p : ProcessPipeline P) : List WeightArray := p.jobs.entries.map fun job => job.2.load

/-- `total_load`. -/
def totalLoad (p : ProcessPipeline P) : WeightArray := p.loads.foldl WeightArray.add {}

/-- `num_threads_used`. -/
def numThreadsUsed (p : ProcessPipeline P) (w : WeightArray) : Weight :=
  (w.whole.mul ⟨p.maxThreads⟩).add w.part

/-- The capacity test: with this load the next kernel is passed on. -/
def admits (p : ProcessPipeline P) (load : WeightArray) : Bool :=
  (!p.interleave && p.jobs.entries.length = 1) || (p.numThreadsUsed load).value < p.maxThreads

/-- The flags of a job. -/
def jobFlags : ConnectionFlags where
  saveUpstreamKernels := true
  saveDownstreamKernels := true

/-- `do_add`, given the applications of which a process can be started. -/
def doAdd (p : ProcessPipeline P) (executes : Application → Bool) (app : Application) :
    Except Exception (ProcessPipeline P) :=
  if ¬ p.allowRoot ∧ (app.uid = 0 ∨ app.gid = 0) then
    .error (.error "executing as superuser/supergroup is disallowed")
  else if ¬ executes app then .error SocketPipeline.badCall
  else if app.id ∈ p.jobs then .ok p
  else .ok { p with jobs := p.jobs.insert app.id { flags := jobFlags } }

/-- The job with the given id, or else a new one of the given application. -/
def findOrAdd (p : ProcessPipeline P) (executes : Application → Bool) (id : UInt64) (app : Option Application) :
    Except Exception (ProcessPipeline P × Connection P) :=
  match p.jobs.lookup id, app with
  | some job, _ => .ok (p, job)
  | none, some app => (·, { flags := jobFlags }) <$> p.doAdd executes app
  | none, none => .error (.error "bad application id ")

/-- The endpoint of a job. -/
def endpoint (p : ProcessPipeline P) (job : Connection P) : Endpoint P := { connection := job, memory := p.memory }

/-- A kernel has been passed to the process of a job. -/
def pass (p : ProcessPipeline P) (id : UInt64) (k : Kernel P) (e : Endpoint P) : ProcessPipeline P :=
  { p with
    jobs := p.jobs.insert id e.connection
    memory := e.memory
    passed := p.passed ++ [(id, k)] }

/-- A main kernel on its way back from the job of the given application. -/
def returning (id : UInt64) (k : Kernel P) : Kernel P :=
  let k := k.returnToParent (if k.result = .undefined then .success else k.result)
  { k with targetApplication := .id 0, sourceApplication := .id id }

/-- What `process_handler::forward` does with a kernel that the job has not saved: a main kernel is given back. -/
def giveBack (p : ProcessPipeline P) (id : UInt64) (left : Option (Kernel P)) : ProcessPipeline P :=
  { p with returned := p.returned ++ (left.toList.filter fun k => k.typeId = 1).map (returning id) }

/-- What `process_handler::forward` leaves of the applications of a kernel. -/
def trimmed (k : Kernel P) : Kernel P :=
  match k.targetApplication with
  | .application a => if k.sourceApplicationId = a.id then { k with targetApplication := .id a.id } else k
  | .id _ => k

/-- The application that `do_forward` starts for a kernel. -/
def forwardApplication (k : Kernel P) : Option Application :=
  match k.targetApplication, k.sourceApplication with
  | .application a, _ => some a
  | .id n, .application a => if n = a.id then some a else none
  | .id _, .id _ => none

/-- The application that `process_kernel` starts for a kernel. -/
def sendApplication (k : Kernel P) : Option Application :=
  match k.targetApplication with
  | .application a => some a
  | .id _ => none

/-- It is the application of the job that the kernel is for. -/
theorem id_forwardApplication {k : Kernel P} {a : Application} (h : forwardApplication k = some a) :
    a.id = k.targetApplicationId := by
  unfold forwardApplication at h
  unfold Kernel.targetApplicationId
  split at h
  · next htarget =>
    cases h
    rw [htarget]
    rfl
  · next htarget hsource =>
    split at h
    · next hid =>
      cases h
      rw [htarget, ← hid]
      rfl
    · cases h
  · cases h

theorem id_sendApplication {k : Kernel P} {a : Application} (h : sendApplication k = some a) :
    a.id = k.targetApplicationId := by
  unfold sendApplication at h
  unfold Kernel.targetApplicationId
  split at h
  · next htarget =>
    cases h
    rw [htarget]
    rfl
  · cases h

section Passing

variable [ByteOrder] (proc : Process P) (ppl : BasicSocketPipeline) (executes : Application → Bool)

/-- `do_forward`. -/
def doForward (p : ProcessPipeline P) (k : Kernel P) : Except Exception (ProcessPipeline P) := do
  let (p, job) ← p.findOrAdd executes k.targetApplicationId (forwardApplication k)
  let (e, left) := (p.endpoint job).doForward proc ppl (trimmed k)
  return (p.pass k.targetApplicationId k e).giveBack k.targetApplicationId left

/-- The loop over the jobs in the broadcast phase. A job keeps the kernel if it has a principal; then a null
pointer is left for the jobs after it. -/
def broadcast (k : Kernel P) :
    List (Sigma fun _ : UInt64 => Connection P) → ProcessPipeline P → Except PipelineError (ProcessPipeline P)
  | [], p => .ok p
  | ⟨id, job⟩ :: rest, p =>
    match (p.endpoint job).send proc ppl k with
    | none => .error (.trap .nullPointer)
    | some (e, left) =>
      if left.isSome ∨ rest = [] then broadcast k rest (p.pass id k e) else .error (.trap .nullPointer)

/-- `process_kernel`. -/
def processKernel (p : ProcessPipeline P) (k : Kernel P) : Except PipelineError (ProcessPipeline P) :=
  if k.phase = .broadcast then broadcast proc ppl k p.jobs.entries p
  else
    match p.findOrAdd executes k.targetApplicationId (sendApplication k) with
    | .error x => .error (.exception x)
    | .ok (p, job) =>
      match (p.endpoint job).send proc ppl k with
      | none => .error (.trap .nullPointer)
      | some (e, _) => .ok (p.pass k.targetApplicationId k e)

/-- What `do_process_kernels` does with a kernel that passes the test. -/
def take (p : ProcessPipeline P) (k : Kernel P) : Except PipelineError (ProcessPipeline P) :=
  if k.isNative then p.processKernel proc ppl executes k
  else (p.doForward proc ppl executes k).mapError .exception

/-- One turn of the loop of `do_process_kernels`: the pipeline, `current_load`, and the kernel if it goes
back to the queue. -/
def turn (p : ProcessPipeline P) (load : WeightArray) (k : Kernel P) :
    Except PipelineError (ProcessPipeline P × WeightArray × List (Kernel P)) :=
  if p.admits (load.add k.weights) then
    (·, load.add k.weights, []) <$> p.take proc ppl executes k
  else .ok (p, load, [k])

/-- `do_process_kernels`: the pipeline, `current_load`, and what goes back to the queue. -/
def doProcessKernels (p : ProcessPipeline P) (load : WeightArray) :
    List (Kernel P) → Except PipelineError (ProcessPipeline P × WeightArray × List (Kernel P))
  | [] => .ok (p, load, [])
  | k :: rest => do
    let (p, load, left) ← p.turn proc ppl executes load k
    let (p, load, left') ← p.doProcessKernels load rest
    return (p, load, left ++ left')

/-- `process_kernels`. -/
def processKernels (p : ProcessPipeline P) : Except PipelineError (ProcessPipeline P) := do
  let (p₁, load₁, kernels) ← p.doProcessKernels proc ppl executes p.totalLoad p.kernels
  let (p₂, _, outstandingKernels) ← p₁.doProcessKernels proc ppl executes load₁ p.outstandingKernels
  return { p₂ with kernels, outstandingKernels }

/-- `forward`. -/
def forward (p : ProcessPipeline P) (k : Kernel P) : Except Exception (ProcessPipeline P) :=
  if p.stopping then .ok p
  else if p.admits (p.totalLoad.add k.weights) then p.doForward proc ppl executes k
  else .ok { p with outstandingKernels := p.outstandingKernels ++ [k] }

end Passing

/-! ### Turns -/

/-- The kernel has been passed to the process of its job. -/
def Passes (p : ProcessPipeline P) (k : Kernel P) (p' : ProcessPipeline P) : Prop :=
  p'.passed = p.passed ++ [(k.targetApplicationId, k)]

section Turns

variable [ByteOrder] {proc : Process P} {ppl : BasicSocketPipeline} {executes : Application → Bool}
  {p p' p₁ : ProcessPipeline P} {load load' : WeightArray} {k : Kernel P}

variable (proc ppl executes) in
/-- In `process_kernels` the turn of the kernel comes with the given pipeline and the given
`current_load`. -/
inductive Turn (p : ProcessPipeline P) (k : Kernel P) : ProcessPipeline P → WeightArray → Prop
  /-- The kernel is in `_kernels`. -/
  | kernels {before after left : List (Kernel P)} {p₁ : ProcessPipeline P} {load₁ : WeightArray} :
      p.kernels = before ++ k :: after →
      p.doProcessKernels proc ppl executes p.totalLoad before = .ok (p₁, load₁, left) → Turn p k p₁ load₁
  /-- The kernel is in `_outstanding_kernels`. -/
  | outstanding {before after left left₀ : List (Kernel P)} {p₀ p₁ : ProcessPipeline P}
      {load₀ load₁ : WeightArray} :
      p.outstandingKernels = before ++ k :: after →
      p.doProcessKernels proc ppl executes p.totalLoad p.kernels = .ok (p₀, load₀, left₀) →
      p₀.doProcessKernels proc ppl executes load₀ before = .ok (p₁, load₁, left) → Turn p k p₁ load₁

omit [ByteOrder] in
/-- A pipeline that is as it was has not passed the kernel. -/
theorem not_passes (h : p'.passed = p.passed) : ¬ p.Passes k p' := by
  unfold Passes
  rw [h]
  simp

/-! ### A turn in a step -/

/-- What a turn comes to. -/
theorem turn_ok {left : List (Kernel P)} (h : p.turn proc ppl executes load k = .ok (p', load', left)) :
    (p.admits (load.add k.weights) = true ∧ p.take proc ppl executes k = .ok p' ∧
      load' = load.add k.weights ∧ left = []) ∨
    (p.admits (load.add k.weights) = false ∧ p' = p ∧ load' = load ∧ left = [k]) := by
  unfold turn at h
  cases hadmits : p.admits (load.add k.weights) with
  | true =>
    rw [if_pos hadmits] at h
    cases htake : p.take proc ppl executes k with
    | error x =>
      rw [htake] at h
      exact absurd h (by simp)
    | ok p₂ =>
      rw [htake] at h
      simp only [Functor.map, Except.map, Except.ok.injEq, Prod.mk.injEq] at h
      obtain ⟨rfl, rfl, rfl⟩ := h
      exact Or.inl ⟨rfl, rfl, rfl, rfl⟩
  | false =>
    rw [if_neg (by simp [hadmits])] at h
    simp only [Except.ok.injEq, Prod.mk.injEq] at h
    obtain ⟨rfl, rfl, rfl⟩ := h
    exact Or.inr ⟨rfl, rfl, rfl, rfl⟩

/-- The loop takes one turn and goes on. -/
theorem doProcessKernels_cons {rest left : List (Kernel P)}
    (h : p.doProcessKernels proc ppl executes load (k :: rest) = .ok (p', load', left)) :
    ∃ p₁ load₁ left₁ left₂, p.turn proc ppl executes load k = .ok (p₁, load₁, left₁) ∧
      p₁.doProcessKernels proc ppl executes load₁ rest = .ok (p', load', left₂) ∧ left = left₁ ++ left₂ := by
  unfold doProcessKernels at h
  cases hturn : p.turn proc ppl executes load k with
  | error x =>
    rw [hturn] at h
    cases h
  | ok outcome =>
    obtain ⟨p₁, load₁, left₁⟩ := outcome
    rw [hturn] at h
    change (p₁.doProcessKernels proc ppl executes load₁ rest >>= _) = _ at h
    cases hrest : p₁.doProcessKernels proc ppl executes load₁ rest with
    | error x =>
      rw [hrest] at h
      cases h
    | ok outcome =>
      rw [hrest] at h
      cases h
      exact ⟨p₁, load₁, left₁, _, rfl, hrest, rfl⟩

/-- It takes the first turns, and then the others. -/
theorem doProcessKernels_append {before after left : List (Kernel P)}
    (h : p.doProcessKernels proc ppl executes load (before ++ after) = .ok (p', load', left)) :
    ∃ p₁ load₁ left₁ left₂, p.doProcessKernels proc ppl executes load before = .ok (p₁, load₁, left₁) ∧
      p₁.doProcessKernels proc ppl executes load₁ after = .ok (p', load', left₂) ∧ left = left₁ ++ left₂ := by
  induction before generalizing p load left with
  | nil => exact ⟨p, load, [], left, rfl, h, rfl⟩
  | cons k rest ih =>
    obtain ⟨p₁, load₁, left₁, left', hturn, hrest, rfl⟩ := doProcessKernels_cons h
    obtain ⟨p₂, load₂, left₂, left₃, hbefore, hafter, rfl⟩ := ih hrest
    refine ⟨p₂, load₂, left₁ ++ left₂, left₃, ?_, hafter, (List.append_assoc _ _ _).symm⟩
    unfold doProcessKernels
    rw [hturn]
    change (p₁.doProcessKernels proc ppl executes load₁ rest >>= _) = _
    rw [hbefore]
    rfl

/-- The two loops of `process_kernels`. -/
theorem processKernels_ok (h : p.processKernels proc ppl executes = .ok p') :
    ∃ p₀ load₀ kernels p₁ load₁ outstandingKernels,
      p.doProcessKernels proc ppl executes p.totalLoad p.kernels = .ok (p₀, load₀, kernels) ∧
      p₀.doProcessKernels proc ppl executes load₀ p.outstandingKernels = .ok (p₁, load₁, outstandingKernels) ∧
      p' = { p₁ with kernels, outstandingKernels } := by
  unfold processKernels at h
  cases hfirst : p.doProcessKernels proc ppl executes p.totalLoad p.kernels with
  | error x =>
    rw [hfirst] at h
    cases h
  | ok outcome =>
    obtain ⟨p₀, load₀, kernels⟩ := outcome
    rw [hfirst] at h
    change (p₀.doProcessKernels proc ppl executes load₀ p.outstandingKernels >>= _) = _ at h
    cases hsecond : p₀.doProcessKernels proc ppl executes load₀ p.outstandingKernels with
    | error x =>
      rw [hsecond] at h
      cases h
    | ok outcome =>
      obtain ⟨p₁, load₁, outstandingKernels⟩ := outcome
      rw [hsecond] at h
      cases h
      exact ⟨p₀, load₀, kernels, p₁, load₁, outstandingKernels, rfl, hsecond, rfl⟩

/-- **What every kernel that passes the test preserves, the loop preserves.** -/
theorem doProcessKernels_invariant {I : ProcessPipeline P → WeightArray → Prop} {ks left : List (Kernel P)}
    (hstep : ∀ p load k p', I p load → p.admits (load.add k.weights) = true →
      p.take proc ppl executes k = .ok p' → I p' (load.add k.weights))
    (hstart : I p load) (h : p.doProcessKernels proc ppl executes load ks = .ok (p', load', left)) :
    I p' load' := by
  induction ks generalizing p load left with
  | nil =>
    cases h
    exact hstart
  | cons k rest ih =>
    obtain ⟨p₁, load₁, left₁, left₂, hturn, hrest, -⟩ := doProcessKernels_cons h
    refine ih ?_ hrest
    rcases turn_ok hturn with ⟨hadmits, htake, rfl, -⟩ | ⟨-, rfl, rfl, -⟩
    · exact hstep _ _ _ _ hstart hadmits htake
    · exact hstart

omit [ByteOrder] in
/-- What `do_add` comes to. -/
theorem doAdd_ok {app : Application} (h : p.doAdd executes app = .ok p') :
    p' = if app.id ∈ p.jobs then p else { p with jobs := p.jobs.insert app.id { flags := jobFlags } } := by
  unfold doAdd at h
  split at h
  · cases h
  · split at h
    · cases h
    · split at h
      · next hmem =>
        cases h
        rw [if_pos hmem]
      · next hmem =>
        cases h
        rw [if_neg hmem]

omit [ByteOrder] in
/-- The job is there, or it has been started. -/
theorem findOrAdd_ok {id : UInt64} {app : Option Application} {job : Connection P}
    (h : p.findOrAdd executes id app = .ok (p', job)) :
    (p.jobs.lookup id = some job ∧ p' = p) ∨
    (id ∉ p.jobs ∧ job = { flags := jobFlags } ∧ ∃ a, app = some a ∧ p.doAdd executes a = .ok p') := by
  unfold findOrAdd at h
  cases hjob : p.jobs.lookup id with
  | some job' =>
    rw [hjob] at h
    cases h
    exact Or.inl ⟨rfl, rfl⟩
  | none =>
    rw [hjob] at h
    cases app with
    | none => cases h
    | some a =>
      cases hadd : p.doAdd executes a with
      | error x =>
        simp only [hadd] at h
        cases h
      | ok p₁ =>
        simp only [hadd] at h
        cases h
        exact Or.inr ⟨AList.lookup_eq_none.mp hjob, rfl, a, rfl, hadd⟩

omit [ByteOrder] in
/-- A job that is started has been passed nothing. -/
theorem passed_findOrAdd {id : UInt64} {app : Option Application} {job : Connection P}
    (h : p.findOrAdd executes id app = .ok (p', job)) : p'.passed = p.passed := by
  rcases findOrAdd_ok h with ⟨-, rfl⟩ | ⟨-, -, a, -, hadd⟩
  · rfl
  · rw [doAdd_ok hadd]
    split <;> rfl

theorem doForward_ok (h : p.doForward proc ppl executes k = .ok p') : ∃ p₁ job left,
    p.findOrAdd executes k.targetApplicationId (forwardApplication k) = .ok (p₁, job) ∧
      p' = (p₁.pass k.targetApplicationId k ((p₁.endpoint job).doForward proc ppl (trimmed k)).1).giveBack
        k.targetApplicationId left := by
  unfold doForward at h
  cases hjob : p.findOrAdd executes k.targetApplicationId (forwardApplication k) with
  | error x =>
    rw [hjob] at h
    cases h
  | ok outcome =>
    rw [hjob] at h
    cases h
    exact ⟨outcome.1, outcome.2, _, rfl, rfl⟩

theorem processKernel_ok (hphase : k.phase ≠ .broadcast) (h : p.processKernel proc ppl executes k = .ok p') :
    ∃ p₁ job e left, p.findOrAdd executes k.targetApplicationId (sendApplication k) = .ok (p₁, job) ∧
      (p₁.endpoint job).send proc ppl k = some (e, left) ∧ p' = p₁.pass k.targetApplicationId k e := by
  unfold processKernel at h
  rw [if_neg hphase] at h
  cases hjob : p.findOrAdd executes k.targetApplicationId (sendApplication k) with
  | error x =>
    rw [hjob] at h
    cases h
  | ok outcome =>
    obtain ⟨p₁, job⟩ := outcome
    simp only [hjob] at h
    cases hsend : (p₁.endpoint job).send proc ppl k with
    | none =>
      rw [hsend] at h
      cases h
    | some outcome =>
      rw [hsend] at h
      cases h
      exact ⟨p₁, job, outcome.1, outcome.2, rfl, hsend, rfl⟩

/-- **What every job that is passed a broadcast preserves, the broadcast preserves.** -/
theorem broadcast_invariant {I : ProcessPipeline P → Prop} {jobs : List (Sigma fun _ : UInt64 => Connection P)}
    (hstep : ∀ p, I p → ∀ job ∈ jobs, ∀ e left,
      (p.endpoint job.2).send proc ppl k = some (e, left) → I (p.pass job.1 k e))
    (hstart : I p) (h : broadcast proc ppl k jobs p = .ok p') : I p' := by
  induction jobs generalizing p with
  | nil =>
    cases h
    exact hstart
  | cons job rest ih =>
    unfold broadcast at h
    cases hsend : (p.endpoint job.2).send proc ppl k with
    | none =>
      simp only [hsend] at h
      cases h
    | some outcome =>
      obtain ⟨e, left⟩ := outcome
      simp only [hsend] at h
      split at h
      · refine ih (fun p hp job' hjob' => hstep p hp job' (List.mem_cons_of_mem _ hjob')) ?_ h
        exact hstep p hstart job List.mem_cons_self e left hsend
      · cases h

/-- What has been passed to the processes stays passed. -/
theorem passed_take (h : p.take proc ppl executes k = .ok p') : p.passed <+: p'.passed := by
  unfold take at h
  split at h
  · by_cases hphase : k.phase = .broadcast
    · unfold processKernel at h
      rw [if_pos hphase] at h
      refine broadcast_invariant (I := fun q => p.passed <+: q.passed) ?_ (List.prefix_refl _) h
      exact fun q hq job _ e left _ => hq.trans (List.prefix_append _ _)
    · obtain ⟨p₁, job, e, left, hjob, -, rfl⟩ := processKernel_ok hphase h
      rw [← passed_findOrAdd hjob]
      exact List.prefix_append _ _
  · cases hforward : p.doForward proc ppl executes k with
    | error x =>
      rw [hforward] at h
      cases h
    | ok p₁ =>
      rw [hforward] at h
      cases h
      obtain ⟨p₂, job, left, hjob, rfl⟩ := doForward_ok hforward
      rw [← passed_findOrAdd hjob]
      exact List.prefix_append _ _

theorem passed_doProcessKernels {ks left : List (Kernel P)}
    (h : p.doProcessKernels proc ppl executes load ks = .ok (p', load', left)) : p.passed <+: p'.passed := by
  refine doProcessKernels_invariant (I := fun q _ => p.passed <+: q.passed) ?_ (List.prefix_refl _) h
  exact fun q _ k q' hq _ htake => hq.trans (passed_take htake)

/-- **A turn is part of the step**: what it passes is passed in the end, and what it leaves is in the queues. -/
theorem turn_processKernels (hturn : Turn proc ppl executes p k p₁ load)
    (h : p.processKernels proc ppl executes = .ok p') :
    ∃ p₂ load₂ left, p₁.turn proc ppl executes load k = .ok (p₂, load₂, left) ∧ p₂.passed <+: p'.passed ∧
      left ⊆ p'.kernels ++ p'.outstandingKernels := by
  obtain ⟨q, loadq, kernels, q', loadq', outstandingKernels, hfirst, hsecond, rfl⟩ := processKernels_ok h
  cases hturn with
  | kernels hsplit hbefore =>
    rw [hsplit] at hfirst
    obtain ⟨p₀, load₀, left₀, left', hbefore', hafter, rfl⟩ := doProcessKernels_append hfirst
    rw [hbefore] at hbefore'
    cases hbefore'
    obtain ⟨p₂, load₂, left₁, left₂, hturn, hrest, rfl⟩ := doProcessKernels_cons hafter
    have hpassed := (passed_doProcessKernels hrest).trans (passed_doProcessKernels hsecond)
    refine ⟨p₂, load₂, left₁, hturn, hpassed, ?_⟩
    intro x hx
    simp [hx]
  | outstanding hsplit hfirst' hbefore =>
    rw [hfirst'] at hfirst
    cases hfirst
    rw [hsplit] at hsecond
    obtain ⟨p₀, load₀, left₀, left', hbefore', hafter, rfl⟩ := doProcessKernels_append hsecond
    rw [hbefore] at hbefore'
    cases hbefore'
    obtain ⟨p₂, load₂, left₁, left₂, hturn, hrest, rfl⟩ := doProcessKernels_cons hafter
    have hpassed := passed_doProcessKernels hrest
    refine ⟨p₂, load₂, left₁, hturn, hpassed, ?_⟩
    intro x hx
    simp [hx]

end Turns

end ProcessPipeline

end Subordination.Daemon
