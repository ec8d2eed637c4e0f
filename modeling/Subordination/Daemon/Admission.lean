import Subordination.Daemon.QueuedKernels

/-!
# Admission

Which of the queued kernels are handed to their jobs, told from the queues and the jobs before `process_kernels` is
called (`daemon/process_pipeline.cc`).

## The model

An `Outlook` is what decides: the jobs that there are, the load, and which kernels in memory have ids. Of a job it has
the last id that has been given. `ProcessPipeline.ahead` goes through the kernels before a given one with it. No kernel
is written there, and nothing is sent.

## What is proved

* `ProcessPipeline.outlook_doProcessKernels` — the loop does what is foreseen.
* `ProcessPipeline.process_kernels_iff` — when `process_kernels` keeps or hands on all kernels.
* `ProcessPipeline.passes_iff` — when a result for a running job is passed to its process at once.
* `ProcessPipeline.result_waits` — a result that waits behind the kernels that wait for results.
-/

namespace Subordination.Daemon

open Subordination.Core Subordination.Library

variable {P : Type}

/-! ### What is foreseen -/

/-- What decides about the kernels in the queues. -/
structure Outlook (P : Type) where
  /-- The applications of the jobs. -/
  jobs : Finset UInt64
  /-- The last id that each job has given. -/
  counter : UInt64 → UInt64
  /-- The memory. -/
  memory : Memory P
  /-- `current_load`. -/
  load : WeightArray
  /-- `_max_threads`. -/
  maxThreads : UInt32
  /-- `_interleave`. -/
  interleave : Bool
  /-- `_allowroot`. -/
  allowRoot : Bool

namespace Outlook

/-- There is one job, and it need not share the node with others. -/
def Alone (o : Outlook P) : Prop := o.interleave = false ∧ o.jobs.card = 1

instance (o : Outlook P) : Decidable o.Alone := inferInstanceAs (Decidable (_ ∧ _))

/-- The number of threads that a load takes. -/
def threads (o : Outlook P) (w : WeightArray) : Weight := (w.whole.mul ⟨o.maxThreads⟩).add w.part

/-- The kernel passes the capacity test. -/
def Admits (o : Outlook P) (k : Kernel P) : Prop := o.Alone ∨ (o.threads (o.load.add k.weights)).value < o.maxThreads

instance (o : Outlook P) (k : Kernel P) : Decidable (o.Admits k) := inferInstanceAs (Decidable (_ ∨ _))

/-- The job with the given id runs, or it is that of the given application, which can be started. -/
def Available (o : Outlook P) (executes : Application → Bool) (id : UInt64) (app : Option Application) : Prop :=
  id ∈ o.jobs ∨ ∃ a, app = some a ∧ (o.allowRoot = true ∨ a.uid ≠ 0 ∧ a.gid ≠ 0) ∧ executes a = true

/-- What is done with a kernel that passes the test does not throw: its job is available, and there is a parent for a
kernel that is to come back; of several jobs none keeps a broadcast. -/
def Safe (o : Outlook P) (executes : Application → Bool) (k : Kernel P) : Prop :=
  if ProcessPipeline.ForAll k then k.principalId o.memory = 0 ∨ o.jobs.card ≤ 1
  else if k.isNative then
    o.Available executes k.targetApplicationId (ProcessPipeline.sendApplication k) ∧
      (k.phase = .upstream ∨ k.phase = .pointToPoint → k.parent ≠ 0)
  else o.Available executes k.targetApplicationId (ProcessPipeline.forwardApplication k)

/-- The kernel can be handed to its job, or to all jobs that there are. -/
def Takes (o : Outlook P) (executes : Application → Bool) (k : Kernel P) : Prop :=
  o.Safe executes k ∧ (ProcessPipeline.ForAll k → o.jobs.Nonempty)

/-- The job gives an id to the parent of the kernel, if that has none, and one to the kernel. -/
def giveIds (o : Outlook P) (k : Kernel P) : Outlook P :=
  let id := k.targetApplicationId
  if (o.memory k.parent).hasId then { o with counter := Function.update o.counter id (o.counter id + 1) }
  else
    { o with
      counter := Function.update o.counter id (o.counter id + 1 + 1)
      memory := Function.update o.memory k.parent { o.memory k.parent with id := o.counter id + 1 } }

/-- The kernel is handed to its job, which may be a new one, or to all jobs. -/
def hand (o : Outlook P) (k : Kernel P) : Outlook P :=
  let o := { o with load := o.load.add k.weights }
  if ProcessPipeline.ForAll k then o
  else
    let o := { o with jobs := insert k.targetApplicationId o.jobs }
    if k.isNative = true ∧ (k.phase = .upstream ∨ k.phase = .pointToPoint) then o.giveIds k else o

/-- The turn of a kernel. -/
def next (o : Outlook P) (k : Kernel P) : Outlook P := if o.Admits k then o.hand k else o

@[simp] theorem maxThreads_giveIds (o : Outlook P) (k : Kernel P) : (o.giveIds k).maxThreads = o.maxThreads := by
  unfold giveIds
  dsimp only
  split <;> rfl

@[simp] theorem maxThreads_hand (o : Outlook P) (k : Kernel P) : (o.hand k).maxThreads = o.maxThreads := by
  unfold hand
  dsimp only
  split
  · rfl
  · split
    · exact maxThreads_giveIds _ k
    · rfl

@[simp] theorem maxThreads_next (o : Outlook P) (k : Kernel P) : (o.next k).maxThreads = o.maxThreads := by
  unfold next
  split
  · exact o.maxThreads_hand k
  · rfl

end Outlook

namespace ProcessPipeline

/-- What decides about the kernels, given `current_load`. -/
def outlook (p : ProcessPipeline P) (load : WeightArray) : Outlook P where
  jobs := p.jobs.keys.toFinset
  counter id := (p.jobs.lookup id).elim 1 Connection.counter
  memory := p.memory
  load := load
  maxThreads := p.maxThreads
  interleave := p.interleave
  allowRoot := p.allowRoot

/-- The kernels in the order in which `process_kernels` goes through them. -/
def queue (p : ProcessPipeline P) : List (Kernel P) := p.kernels ++ p.outstandingKernels

/-- What there will be after the turns of the given kernels. -/
def ahead (p : ProcessPipeline P) (before : List (Kernel P)) : Outlook P :=
  before.foldl Outlook.next (p.outlook p.totalLoad)

/-- Nothing throws that is done with the queued kernels that are going to pass the capacity test. -/
def Safe (p : ProcessPipeline P) (executes : Application → Bool) : Prop :=
  ∀ before k after, p.queue = before ++ k :: after → (p.ahead before).Admits k → (p.ahead before).Safe executes k

/-- Every queued kernel that is going to pass the capacity test can be handed over then. -/
def Handable (p : ProcessPipeline P) (executes : Application → Bool) : Prop :=
  ∀ before k after, p.queue = before ++ k :: after → (p.ahead before).Admits k → (p.ahead before).Takes executes k

variable {p p' p₁ : ProcessPipeline P} {load load' load₁ : WeightArray} {k : Kernel P}
  {executes : Application → Bool}

/-! ### What is there -/

theorem card_jobs (p : ProcessPipeline P) (load : WeightArray) :
    (p.outlook load).jobs.card = p.jobs.entries.length := by
  have hnodup : p.jobs.keys.Nodup := p.jobs.nodupKeys
  rw [outlook, List.toFinset_card_of_nodup hnodup, AList.keys, List.keys, List.length_map]

theorem mem_jobs {id : UInt64} : id ∈ (p.outlook load).jobs ↔ id ∈ p.jobs := by
  rw [outlook, List.mem_toFinset, ← AList.mem_keys]

theorem nonempty_jobs : (p.outlook load).jobs.Nonempty ↔ p.jobs.entries ≠ [] := by
  rw [← Finset.card_pos, card_jobs, List.length_pos_iff]

theorem admits_iff_outlook : p.admits (load.add k.weights) = true ↔ (p.outlook load).Admits k := by
  have hthreads (w : WeightArray) : (p.outlook load).threads w = p.numThreadsUsed w := rfl
  have hload : (p.outlook load).load = load := rfl
  have hmax : (p.outlook load).maxThreads = p.maxThreads := rfl
  have hinterleave : (p.outlook load).interleave = p.interleave := rfl
  rw [Outlook.Admits, Outlook.Alone, card_jobs, hthreads, hload, hmax, hinterleave]
  simp [admits]

theorem available_iff_outlook (load : WeightArray) {id : UInt64} {app : Option Application} :
    p.Available executes id app ↔ (p.outlook load).Available executes id app := by
  rw [Available, Outlook.Available, mem_jobs]
  rfl

theorem takes_iff_outlook : p.Takes executes k ↔ (p.outlook load).Takes executes k := by
  rw [Takes, Outlook.Takes, Outlook.Safe, nonempty_jobs, card_jobs]
  by_cases hall : ForAll k
  · simp only [hall, if_true, true_implies]
    exact and_comm
  · simp only [hall, if_false, false_implies, and_true, available_iff_outlook load]

/-! ### What comes -/

/-- The outlook after a job has changed. -/
theorem outlook_insert (id : UInt64) (job : Connection P) (memory : Memory P) (passed : List (UInt64 × Kernel P)) :
    ({ p with jobs := p.jobs.insert id job, memory, passed } : ProcessPipeline P).outlook load =
      { p.outlook load with
        jobs := insert id (p.outlook load).jobs
        counter := Function.update (p.outlook load).counter id job.counter
        memory } := by
  have hjobs : (p.jobs.insert id job).keys.toFinset = insert id p.jobs.keys.toFinset := by
    ext id'
    rw [Finset.mem_insert, List.mem_toFinset, ← AList.mem_keys, AList.mem_insert, List.mem_toFinset, ← AList.mem_keys]
  have hcounter : (fun id' => ((p.jobs.insert id job).lookup id').elim 1 Connection.counter) =
      Function.update (p.outlook load).counter id job.counter := by
    funext id'
    by_cases hid : id' = id
    · subst hid
      rw [AList.lookup_insert, Function.update_self]
      rfl
    · rw [AList.lookup_insert_ne hid, Function.update_of_ne hid]
      rfl
  simp only [outlook, hjobs]
  rw [hcounter]
  rfl

/-- A job that is found is known with its counter. -/
theorem counter_lookup {id : UInt64} {job : Connection P} (h : p.jobs.lookup id = some job) :
    (p.outlook load).counter id = job.counter := by
  simp only [outlook, h, Option.elim_some]

/-- The job that has been found or started is the only one that is new. -/
theorem outlook_pass (load : WeightArray) {app : Option Application} {job : Connection P} {e : Endpoint P}
    (happ : ∀ a, app = some a → a.id = k.targetApplicationId)
    (h : p.findOrAdd executes k.targetApplicationId app = .ok (p₁, job)) :
    (p.outlook load).counter k.targetApplicationId = job.counter ∧ p₁.memory = p.memory ∧
      (p₁.pass k.targetApplicationId k e).outlook load =
        { p.outlook load with
          jobs := insert k.targetApplicationId (p.outlook load).jobs
          counter := Function.update (p.outlook load).counter k.targetApplicationId e.connection.counter
          memory := e.memory } := by
  rcases findOrAdd_ok h with ⟨hjob, rfl⟩ | ⟨hnew, rfl, a, ha, hadd⟩
  · exact ⟨counter_lookup hjob, rfl, outlook_insert _ _ _ _⟩
  · have hid := happ a ha
    have hnone : p.jobs.lookup k.targetApplicationId = none := AList.lookup_eq_none.mpr hnew
    rw [doAdd_ok hadd, hid, if_neg hnew]
    refine ⟨?_, rfl, ?_⟩
    · simp only [outlook, hnone, Option.elim_none]
    · unfold pass
      dsimp only
      rw [AList.insert_insert]
      exact outlook_insert _ _ _ _

section Foresight

variable [ByteOrder] {proc : Process P} {ppl : BasicSocketPipeline}

variable (proc ppl) in
/-- A job writes and saves a kernel, and gives no id. -/
theorem ids_doForward (e : Endpoint P) (k : Kernel P) :
    (e.doForward proc ppl k).1.connection.counter = e.connection.counter ∧
      (e.doForward proc ppl k).1.memory = e.memory := by
  obtain ⟨b, load, log, k', -, hforward⟩ := e.doForward_eq proc ppl k
  rw [hforward, Endpoint.counter_keep, Endpoint.memory_keep]
  exact ⟨rfl, rfl⟩

/-- A kernel that is to come back gets an id first. -/
theorem ids_send {e e' : Endpoint P} {left : Option (Kernel P)} (h : e.send proc ppl k = some (e', left)) :
    if k.phase = .upstream ∨ k.phase = .pointToPoint then
      e'.connection.counter = (e.ensureHasId k.parent).connection.counter + 1 ∧
        e'.memory = (e.ensureHasId k.parent).memory
    else e'.connection.counter = e.connection.counter ∧ e'.memory = e.memory := by
  unfold Endpoint.send at h
  split at h
  · cases h
  · next e₁ k₁ hprepare =>
    have hids : e'.connection.counter = e₁.connection.counter ∧ e'.memory = e₁.memory := by
      have hforward : e' = (e₁.doForward proc ppl k₁).1 := congrArg Prod.fst (Option.some.inj h).symm
      rw [hforward]
      exact ids_doForward proc ppl e₁ k₁
    unfold Endpoint.prepare at hprepare
    split_ifs at hprepare with hphase hparent
    · cases hprepare
      rw [if_pos hphase]
      exact hids
    · cases hprepare
      rw [if_neg hphase]
      exact hids

/-- A broadcast gives no ids. -/
theorem outlook_broadcast (hphase : k.phase = .broadcast) (h : broadcast proc ppl k p.jobs.entries p = .ok p') :
    p'.outlook load = p.outlook load := by
  refine broadcast_invariant (I := fun q => q.outlook load = p.outlook load) ?_ rfl h
  rintro q hq ⟨id, job⟩ hjob e left hsend
  have hids := ids_send hsend
  rw [if_neg (by rw [hphase]; decide)] at hids
  have hmemory : e.memory = (p.outlook load).memory := by
    rw [hids.2, ← hq]
    rfl
  have hknown : id ∈ (p.outlook load).jobs :=
    mem_jobs.mpr (AList.lookup_isSome.mp (Option.isSome_of_mem (AList.mem_lookup_iff.mpr hjob)))
  have hcounter : (p.outlook load).counter id = e.connection.counter :=
    (counter_lookup (AList.mem_lookup_iff.mpr hjob)).trans hids.1.symm
  unfold pass
  rw [outlook_insert, hq, Finset.insert_eq_of_mem hknown, hmemory, ← hcounter, Function.update_eq_self]

omit [ByteOrder] in
/-- What a kernel that goes to its job does to the outlook, given what the job does with it. -/
theorem outlook_hand {app : Option Application} {job : Connection P} {e : Endpoint P}
    (happ : ∀ a, app = some a → a.id = k.targetApplicationId) (hall : ¬ForAll k)
    (hjob : p.findOrAdd executes k.targetApplicationId app = .ok (p₁, job))
    (hids : if k.isNative = true ∧ (k.phase = .upstream ∨ k.phase = .pointToPoint) then
        e.connection.counter = ((p₁.endpoint job).ensureHasId k.parent).connection.counter + 1 ∧
          e.memory = ((p₁.endpoint job).ensureHasId k.parent).memory
      else e.connection.counter = job.counter ∧ e.memory = p₁.memory) :
    (p₁.pass k.targetApplicationId k e).outlook (load.add k.weights) = (p.outlook load).hand k := by
  have hload : p.outlook (load.add k.weights) = { p.outlook load with load := load.add k.weights } := rfl
  obtain ⟨hcounter, hmemory, houtlook⟩ := outlook_pass (load.add k.weights) (e := e) happ hjob
  rw [houtlook, Outlook.hand, if_neg hall]
  split at hids
  · next hcomes =>
    rw [if_pos hcomes, hids.1, hids.2, Endpoint.ensureHasId, Outlook.giveIds]
    change _ = if (p.memory k.parent).hasId = true then _ else _
    have hendpoint : (p₁.endpoint job).memory = p.memory := hmemory
    rw [hendpoint]
    split
    · simp only [hload] at hcounter ⊢
      rw [hcounter, hendpoint]
      rfl
    · simp only [hload] at hcounter ⊢
      rw [hcounter]
      rfl
  · next hcomes =>
    rw [if_neg hcomes, hids.1, hids.2, hmemory, ← hcounter, Function.update_eq_self]
    rfl

/-- **What a kernel that is handed over does to the outlook.** -/
theorem outlook_take (h : p.take proc ppl executes k = .ok p') :
    p'.outlook (load.add k.weights) = (p.outlook load).hand k := by
  unfold take at h
  split at h
  · next hnative =>
    by_cases hphase : k.phase = .broadcast
    · unfold processKernel at h
      rw [if_pos hphase] at h
      rw [outlook_broadcast hphase h, Outlook.hand, if_pos ⟨hnative, hphase⟩]
      rfl
    · obtain ⟨p₁, job, e, left, hjob, hsend, rfl⟩ := processKernel_ok hphase h
      have hall : ¬ForAll k := fun h => hphase h.2
      have hids := ids_send hsend
      refine outlook_hand (fun a => id_sendApplication) hall hjob ?_
      simp only [hnative, true_and]
      exact hids
  · next hforeign =>
    cases hforward : p.doForward proc ppl executes k with
    | error x =>
      rw [hforward] at h
      cases h
    | ok p₂ =>
      rw [hforward] at h
      cases h
      obtain ⟨p₁, job, left, hjob, rfl⟩ := doForward_ok hforward
      have hall : ¬ForAll k := fun h => hforeign h.1
      have hids := ids_doForward proc ppl (p₁.endpoint job) (trimmed k)
      have hcomes : ¬(k.isNative = true ∧ (k.phase = .upstream ∨ k.phase = .pointToPoint)) :=
        fun h => hforeign h.1
      exact outlook_hand (fun a => id_forwardApplication) hall hjob (by rw [if_neg hcomes]; exact hids)

variable (proc ppl) in
/-- **When nothing throws that is done with a kernel.** -/
theorem take_ok_iff (load : WeightArray) :
    (∃ p', p.take proc ppl executes k = .ok p') ↔ (p.outlook load).Safe executes k := by
  rw [Outlook.Safe, card_jobs]
  by_cases hall : ForAll k
  · rw [if_pos hall]
    unfold take
    rw [if_pos hall.1, processKernel, if_pos hall.2]
    have hbroadcast : (∃ p', broadcast proc ppl k p.jobs.entries p = .ok p' ∧ _) ↔ _ := broadcast_iff hall.2
    constructor
    · rintro ⟨p', h⟩
      exact hbroadcast.mp ⟨p', h, passed_broadcast h⟩
    · intro h
      exact (hbroadcast.mpr h).imp fun p' h => h.1
  · rw [if_neg hall]
    have htakes : (∃ p', p.take proc ppl executes k = .ok p' ∧ p.Hands k p') ↔ p.Takes executes k :=
      takes_iff proc ppl
    rw [Takes, if_neg hall] at htakes
    simp only [← available_iff_outlook, ← htakes]
    constructor
    · rintro ⟨p', h⟩
      refine ⟨p', h, passed_of_take h, ?_⟩
      rw [handings, if_neg hall]
      exact List.cons_ne_nil _ _
    · rintro ⟨p', h, -⟩
      exact ⟨p', h⟩

theorem outlook_turn {left : List (Kernel P)}
    (h : p.turn proc ppl executes load k = .ok (p₁, load₁, left)) :
    p₁.outlook load₁ = (p.outlook load).next k := by
  rw [Outlook.next]
  rcases turn_ok h with ⟨hadmits, htake, rfl, -⟩ | ⟨hnot, rfl, rfl, -⟩
  · rw [if_pos (admits_iff_outlook.mp hadmits)]
    exact outlook_take htake
  · rw [if_neg fun hadmits => by simp [admits_iff_outlook.mpr hadmits] at hnot]

/-- **The loop does what is foreseen.** -/
theorem outlook_doProcessKernels {ks left : List (Kernel P)}
    (h : p.doProcessKernels proc ppl executes load ks = .ok (p', load', left)) :
    p'.outlook load' = ks.foldl Outlook.next (p.outlook load) := by
  induction ks generalizing p load left with
  | nil =>
    cases h
    rfl
  | cons k rest ih =>
    obtain ⟨p₁, load₁, left₁, left₂, hturn, hrest, -⟩ := doProcessKernels_cons h
    rw [ih hrest, List.foldl_cons, outlook_turn hturn]

variable (proc ppl executes) in
/-- **When the loop does not throw.** -/
theorem doProcessKernels_ok_iff (p : ProcessPipeline P) (load : WeightArray) (ks : List (Kernel P)) :
    (∃ outcome, p.doProcessKernels proc ppl executes load ks = .ok outcome) ↔
      ∀ before k after, ks = before ++ k :: after → (before.foldl Outlook.next (p.outlook load)).Admits k →
        (before.foldl Outlook.next (p.outlook load)).Safe executes k := by
  induction ks generalizing p load with
  | nil => exact iff_of_true ⟨_, rfl⟩ fun before k after h => absurd h.symm (by simp)
  | cons k rest ih =>
    constructor
    · rintro ⟨⟨p', load', left⟩, h⟩ before k' after hsplit hadmits
      obtain ⟨p₁, load₁, left₁, left₂, hturn, hrest, -⟩ := doProcessKernels_cons h
      cases before with
      | nil =>
        obtain ⟨rfl, rfl⟩ := List.cons.inj hsplit
        rcases turn_ok hturn with ⟨-, htake, -⟩ | ⟨hnot, -⟩
        · exact (take_ok_iff proc ppl load).mp ⟨p₁, htake⟩
        · rw [List.foldl_nil, ← admits_iff_outlook] at hadmits
          exact absurd hadmits (by simp [hnot])
      | cons k₁ before =>
        obtain ⟨rfl, hbefore⟩ := List.cons.inj hsplit
        rw [List.foldl_cons, ← outlook_turn hturn] at hadmits ⊢
        exact (ih p₁ load₁).mp ⟨_, hrest⟩ before k' after hbefore hadmits
    · intro h
      have hfirst := h [] k rest rfl
      obtain ⟨p₁, load₁, left₁, hturn⟩ :
          ∃ p₁ load₁ left₁, p.turn proc ppl executes load k = .ok (p₁, load₁, left₁) := by
        unfold turn
        by_cases hadmits : p.admits (load.add k.weights) = true
        · obtain ⟨p₁, htake⟩ := (take_ok_iff proc ppl load).mpr (hfirst (admits_iff_outlook.mp hadmits))
          exact ⟨p₁, load.add k.weights, [], by rw [if_pos hadmits, htake]; rfl⟩
        · exact ⟨p, load, [k], if_neg hadmits⟩
      obtain ⟨⟨p', load', left⟩, hrest⟩ := (ih p₁ load₁).mpr fun before k' after hsplit hadmits => by
        have hlater := h (k :: before) k' after (by rw [hsplit, List.cons_append])
        rw [List.foldl_cons, ← outlook_turn hturn] at hlater
        exact hlater hadmits
      exact ⟨_, doProcessKernels_of_turn hturn hrest⟩

/-! ### The call -/

/-- The two loops are one over all queued kernels. -/
theorem ahead_of_loops {before left left₀ : List (Kernel P)}
    (hfirst : p.doProcessKernels proc ppl executes p.totalLoad p.kernels = .ok (p₁, load, left₀))
    (hsecond : p₁.doProcessKernels proc ppl executes load before = .ok (p', load', left)) :
    p'.outlook load' = p.ahead (p.kernels ++ before) := by
  rw [ahead, List.foldl_append, ← outlook_doProcessKernels hfirst, outlook_doProcessKernels hsecond]

/-- The turn of a kernel comes as foreseen. -/
theorem ahead_of_turn (h : Turn proc ppl executes p k p₁ load₁) :
    ∃ before after, p.queue = before ++ k :: after ∧ p₁.outlook load₁ = p.ahead before := by
  cases h with
  | @kernels before after left _ _ hsplit hbefore =>
    refine ⟨before, after ++ p.outstandingKernels, ?_, outlook_doProcessKernels hbefore⟩
    rw [queue, hsplit, List.append_assoc, List.cons_append]
  | @outstanding before after left left₀ p₀ _ load₀ _ hsplit hfirst hbefore =>
    refine ⟨p.kernels ++ before, after, ?_, ahead_of_loops hfirst hbefore⟩
    rw [queue, hsplit, List.append_assoc]

/-- As long as all kernels before it can be handed over, the turn of a kernel comes. -/
theorem exists_turn {before after : List (Kernel P)} (hsplit : p.queue = before ++ k :: after)
    (h : ∀ k p₁ load₁, Turn proc ppl executes p k p₁ load₁ → p₁.admits (load₁.add k.weights) = true →
      p₁.Takes executes k) :
    ∃ p₁ load₁, Turn proc ppl executes p k p₁ load₁ ∧ p₁.outlook load₁ = p.ahead before := by
  have hturnOf {ks : List (Kernel P)} {q : ProcessPipeline P} {load : WeightArray} (before after : List (Kernel P))
      (hks : ks = before ++ after)
      (hturn : ∀ k p₁ load₁, TurnOf proc ppl executes q load ks k p₁ load₁ →
        p₁.admits (load₁.add k.weights) = true → p₁.Takes executes k) :
      ∃ p₁ load₁ left, q.doProcessKernels proc ppl executes load before = .ok (p₁, load₁, left) := by
    obtain ⟨p', load', run, hrun, -⟩ := doProcessKernels_run hturn
    rw [hks] at hrun
    obtain ⟨p₁, load₁, left₁, left₂, hbefore, -⟩ := doProcessKernels_append hrun
    exact ⟨p₁, load₁, left₁, hbefore⟩
  have hkernels : ∀ k p₁ load₁, TurnOf proc ppl executes p p.totalLoad p.kernels k p₁ load₁ →
      p₁.admits (load₁.add k.weights) = true → p₁.Takes executes k :=
    fun k p₁ load₁ ⟨before, after, left, hks, hbefore⟩ => h k p₁ load₁ (.kernels hks hbefore)
  rcases List.append_eq_append_iff.mp hsplit with ⟨rest, rfl, hrest⟩ | ⟨rest, hrest, hafter⟩
  · -- the kernel is among the outstanding ones
    obtain ⟨p₀, load₀, left₀, hfirst⟩ := hturnOf p.kernels [] (List.append_nil _).symm hkernels
    obtain ⟨p₁, load₁, left, hbefore⟩ := hturnOf rest (k :: after) hrest
      fun k p₁ load₁ ⟨before, after, left, hks, hbefore⟩ => h k p₁ load₁ (.outstanding hks hfirst hbefore)
    exact ⟨p₁, load₁, .outstanding hrest hfirst hbefore, ahead_of_loops hfirst hbefore⟩
  · cases rest with
    | nil =>
      rw [List.append_nil] at hrest
      rw [List.nil_append] at hafter
      obtain ⟨p₀, load₀, left₀, hfirst⟩ := hturnOf p.kernels [] (List.append_nil _).symm hkernels
      have hnil : p.outstandingKernels = [] ++ k :: after := hafter.symm
      refine ⟨p₀, load₀, .outstanding hnil hfirst rfl, ?_⟩
      rw [← hrest, outlook_doProcessKernels hfirst]
      rfl
    | cons k' rest =>
      obtain ⟨rfl, hafter⟩ := List.cons.inj hafter
      obtain ⟨p₁, load₁, left, hbefore⟩ := hturnOf before (k :: rest) hrest hkernels
      exact ⟨p₁, load₁, .kernels hrest hbefore, outlook_doProcessKernels hbefore⟩

/-- **When the kernels can be handed over**, foreseen and as it comes. -/
theorem handable_iff_turns (proc : Process P) (ppl : BasicSocketPipeline) :
    p.Handable executes ↔ ∀ k p₁ load₁, Turn proc ppl executes p k p₁ load₁ →
      p₁.admits (load₁.add k.weights) = true → p₁.Takes executes k := by
  constructor
  · intro h k p₁ load₁ hturn hadmits
    obtain ⟨before, after, hsplit, hahead⟩ := ahead_of_turn hturn
    rw [admits_iff_outlook, hahead] at hadmits
    have htakes := h before k after hsplit hadmits
    rwa [← hahead, ← takes_iff_outlook] at htakes
  · intro h before k after hsplit hadmits
    obtain ⟨p₁, load₁, hturn, hahead⟩ := exists_turn hsplit h
    rw [← hahead, ← admits_iff_outlook] at hadmits
    rw [← hahead, ← takes_iff_outlook]
    exact h k p₁ load₁ hturn hadmits

/-- **When `process_kernels` does not throw, and keeps or hands on all kernels**: every kernel that is going to pass the
capacity test, after those before it, can be handed over then. -/
theorem process_kernels_iff (proc : Process P) (ppl : BasicSocketPipeline) (executes : Application → Bool)
    (p : ProcessPipeline P) :
    (∃ p', p.processKernels proc ppl executes = .ok p' ∧ p.Conserves proc ppl executes p') ↔
      ∀ before k after, p.kernels ++ p.outstandingKernels = before ++ k :: after →
        (p.ahead before).Admits k → (p.ahead before).Takes executes k :=
  (processKernels_conserves proc ppl executes p).trans (handable_iff_turns proc ppl).symm

/-! ### Kernels that are passed on -/

theorem doProcessKernels_append_of {ks ks' left left' : List (Kernel P)}
    (hfirst : p.doProcessKernels proc ppl executes load ks = .ok (p₁, load₁, left))
    (hsecond : p₁.doProcessKernels proc ppl executes load₁ ks' = .ok (p', load', left')) :
    p.doProcessKernels proc ppl executes load (ks ++ ks') = .ok (p', load', left ++ left') := by
  induction ks generalizing p load left with
  | nil =>
    cases hfirst
    exact hsecond
  | cons k rest ih =>
    obtain ⟨p₂, load₂, left₁, left₂, hturn, hrest, rfl⟩ := doProcessKernels_cons hfirst
    rw [List.append_assoc]
    exact doProcessKernels_of_turn hturn (ih hrest)

/-- The two loops of `process_kernels` are one over all queued kernels. -/
theorem processKernels_queue : (∃ q load left, p.doProcessKernels proc ppl executes p.totalLoad p.queue =
      .ok (q, load, left) ∧ q.passed = p₁.passed) ↔
    ∃ p', p.processKernels proc ppl executes = .ok p' ∧ p'.passed = p₁.passed := by
  constructor
  · rintro ⟨q, load, left, hqueue, hpassed⟩
    obtain ⟨q₁, load₁, left₁, left₂, hfirst, hsecond, -⟩ := doProcessKernels_append hqueue
    refine ⟨{ q with kernels := left₁, outstandingKernels := left₂ }, ?_, hpassed⟩
    unfold processKernels
    rw [hfirst]
    change (q₁.doProcessKernels proc ppl executes load₁ p.outstandingKernels >>= _) = _
    rw [hsecond]
    rfl
  · rintro ⟨p', h, hpassed⟩
    obtain ⟨q, load, kernels, q', load', outstandingKernels, hfirst, hsecond, rfl⟩ := processKernels_ok h
    exact ⟨q', load', _, doProcessKernels_append_of hfirst hsecond, hpassed⟩

variable (proc ppl) in
/-- **When `process_kernels` does not throw.** -/
theorem processKernels_safe_iff : (∃ p', p.processKernels proc ppl executes = .ok p') ↔ p.Safe executes := by
  refine Iff.trans ?_ (doProcessKernels_ok_iff executes proc ppl p p.totalLoad p.queue)
  constructor
  · rintro ⟨p', h⟩
    obtain ⟨q, load, left, hqueue, -⟩ := processKernels_queue.mpr ⟨p', h, rfl⟩
    exact ⟨_, hqueue⟩
  · rintro ⟨⟨q, load, left⟩, hqueue⟩
    exact (processKernels_queue.mp ⟨q, load, left, hqueue, rfl⟩).imp fun p' h => h.1

/-- `process_kernels` does not throw, and the kernel that is queued behind the given ones is passed to its process at
its turn. -/
def PassesQueued (proc : Process P) (ppl : BasicSocketPipeline) (executes : Application → Bool)
    (p : ProcessPipeline P) (before : List (Kernel P)) (k : Kernel P) : Prop :=
  ∃ p₁ load₁ left p₂ load₂ p', p.doProcessKernels proc ppl executes p.totalLoad before = .ok (p₁, load₁, left) ∧
    p₁.turn proc ppl executes load₁ k = .ok (p₂, load₂, []) ∧ p₁.Passes k p₂ ∧
    p.processKernels proc ppl executes = .ok p' ∧ p₂.passed <+: p'.passed

variable (proc ppl) in
/-- **When a queued kernel is passed on**, if it is not for all jobs. -/
theorem passesQueued_iff {before after : List (Kernel P)} (hall : ¬ForAll k)
    (hsplit : p.queue = before ++ k :: after) :
    p.PassesQueued proc ppl executes before k ↔ p.Safe executes ∧ (p.ahead before).Admits k := by
  rw [← processKernels_safe_iff proc ppl]
  constructor
  · rintro ⟨p₁, load₁, left, p₂, load₂, p', hbefore, hturn, -, h, -⟩
    refine ⟨⟨p', h⟩, ?_⟩
    rcases turn_ok hturn with ⟨hadmits, -⟩ | ⟨-, -, -, hnil⟩
    · rwa [admits_iff_outlook, outlook_doProcessKernels hbefore] at hadmits
    · exact absurd hnil.symm (List.cons_ne_nil k [])
  · rintro ⟨⟨p', h⟩, hadmits⟩
    obtain ⟨q, load, left, hqueue, hpassed⟩ := processKernels_queue.mpr ⟨p', h, rfl⟩
    rw [hsplit] at hqueue
    obtain ⟨p₁, load₁, left₁, left', hbefore, hrest, -⟩ := doProcessKernels_append hqueue
    obtain ⟨p₂, load₂, left₂, left₃, hturn, hafter, -⟩ := doProcessKernels_cons hrest
    have hadmits' : p₁.admits (load₁.add k.weights) = true := by
      rw [admits_iff_outlook, outlook_doProcessKernels hbefore]
      exact hadmits
    rcases turn_ok hturn with ⟨-, htake, rfl, rfl⟩ | ⟨hnot, -⟩
    · refine ⟨p₁, load₁, left₁, p₂, _, p', hbefore, hturn, ?_, h, hpassed ▸ passed_doProcessKernels hafter⟩
      rw [Passes, passed_of_take htake, handings, if_neg hall]
    · exact absurd hadmits' (by simp [hnot])

variable (proc ppl) in
/-- **When `forward` passes a kernel on**: the pipeline is not stopping, the job of the kernel is available, and the
kernel passes the capacity test. -/
theorem forward_passes_iff : (∃ p', p.forward proc ppl executes k = .ok p' ∧ p.Passes k p') ↔
    p.stopping = false ∧ p.Available executes k.targetApplicationId (forwardApplication k) ∧
      p.admits (p.totalLoad.add k.weights) = true := by
  rw [← doForward_iff proc ppl]
  unfold forward
  split_ifs with hstopping hadmits
  · refine iff_of_false ?_ fun h => by simp [h.1] at hstopping
    rintro ⟨p', hok, hpasses⟩
    cases hok
    exact not_passes rfl hpasses
  · simp [hstopping, hadmits]
  · refine iff_of_false ?_ fun h => hadmits h.2.2
    rintro ⟨p', hok, hpasses⟩
    cases hok
    exact not_passes rfl hpasses

/-- **When a result for a running job is passed to its process at once**: it passes the capacity test like any other
kernel, and in `process_kernels` no other kernel throws. -/
theorem passes_iff (proc : Process P) (ppl : BasicSocketPipeline) (executes : Application → Bool)
    (p : ProcessPipeline P) (k : Kernel P) (hphase : k.phase = .downstream) (hjob : k.targetApplicationId ∈ p.jobs) :
    ((∃ p', p.forward proc ppl executes k = .ok p' ∧ p.Passes k p') ↔
      p.stopping = false ∧ p.admits (p.totalLoad.add k.weights) = true) ∧
    ∀ before after, p.kernels ++ p.outstandingKernels = before ++ k :: after →
      (p.PassesQueued proc ppl executes before k ↔
        (∀ before k after, p.kernels ++ p.outstandingKernels = before ++ k :: after →
          (p.ahead before).Admits k → (p.ahead before).Safe executes k) ∧ (p.ahead before).Admits k) := by
  have hall : ¬ForAll k := fun h => by
    rw [ForAll, hphase] at h
    exact absurd h.2 (by decide)
  refine ⟨?_, fun before after hsplit => passesQueued_iff proc ppl hall hsplit⟩
  rw [forward_passes_iff proc ppl]
  exact ⟨fun h => ⟨h.1, h.2.2⟩, fun h => ⟨h.1, Or.inl hjob, h.2⟩⟩

end Foresight

/-! ### A node with two jobs -/

/-- A node with two threads and two jobs. One of them executes two kernels, which wait for results. -/
def busy : ProcessPipeline Unit where
  jobs := (AList.singleton 8 { flags := jobFlags }).insert 7 { flags := jobFlags, load := ⟨⟨0⟩, ⟨2⟩⟩ }
  maxThreads := 2
  memory := Memory.blank

/-- A result for one of the kernels. -/
def awaited : Kernel Unit :=
  { Kernel.fresh 0 (.foreign []) with targetApplication := .id 7, phase := .downstream }

theorem awaited_mem : awaited.targetApplicationId ∈ busy.jobs := by decide

/-- A node with three threads, on which no kernel is executed, with two results in the queue. -/
def lessBusy : ProcessPipeline Unit where
  jobs := (AList.singleton 8 { flags := jobFlags }).insert 7 { flags := jobFlags }
  maxThreads := 3
  memory := Memory.blank
  outstandingKernels := [awaited, awaited]

/-- The second result is passed on behind the first, since a third thread is left. -/
theorem passes_iff_awaited :
    letI := ByteOrder.littleEndian
    lessBusy.PassesQueued (Process.plain 0) {} (fun _ => false) [awaited] awaited := by
  let _ := ByteOrder.littleEndian
  have hjob : awaited.targetApplicationId ∈ lessBusy.jobs := by decide
  have hsafe (before : List (Kernel Unit)) (h : 7 ∈ (lessBusy.ahead before).jobs) :
      (lessBusy.ahead before).Safe (fun _ => false) awaited := Or.inl h
  refine ((passes_iff (Process.plain 0) {} (fun _ => false) lessBusy awaited rfl hjob).2 [awaited] [] rfl).mpr
    ⟨?_, by decide⟩
  intro before k after hsplit _
  change [awaited, awaited] = _ at hsplit
  rcases before with _ | ⟨k₁, _ | ⟨k₂, before⟩⟩
  · obtain ⟨rfl, -⟩ := List.cons.inj hsplit
    exact hsafe [] (by decide)
  · obtain ⟨rfl, hrest⟩ := List.cons.inj hsplit
    obtain ⟨rfl, -⟩ := List.cons.inj hrest
    exact hsafe [awaited] (by decide)
  · exact absurd (congrArg List.length hsplit) (by simp)

/-- **A result waits behind the kernels that wait for results**: it is not passed on when it comes, nor when its turn
comes in the queue. -/
theorem result_waits :
    letI := ByteOrder.littleEndian
    ∃ (p : ProcessPipeline Unit) (k : Kernel Unit), k.phase = .downstream ∧ k.targetApplicationId ∈ p.jobs ∧
      p.stopping = false ∧
      (¬ ∃ p', p.forward (Process.plain 0) {} (fun _ => false) k = .ok p' ∧ p.Passes k p') ∧
      ¬ ({ p with outstandingKernels := [k] } : ProcessPipeline Unit).PassesQueued (Process.plain 0) {}
        (fun _ => false) [] k := by
  let _ := ByteOrder.littleEndian
  have hfull : busy.admits (busy.totalLoad.add awaited.weights) = false := by decide
  refine ⟨busy, awaited, rfl, awaited_mem, rfl, ?_, ?_⟩
  · rw [forward_passes_iff, hfull]
    simp
  · rw [passesQueued_iff (Process.plain 0) {} (by decide) (show _ = [] ++ awaited :: [] from rfl)]
    exact fun h => absurd h.2 (by decide)

/-- A kernel of an application that does not run, which does not say how to start it. -/
def unknownApplication : Kernel Unit := { Kernel.fresh 0 (.foreign []) with targetApplication := .id 9 }

/-- It is queued on a node with two threads and one job, with a kernel of this job behind it. -/
def withUnknown : ProcessPipeline Unit :=
  { busy with
    jobs := AList.singleton 7 { flags := jobFlags }
    kernels := [unknownApplication, { unknownApplication with targetApplication := .id 7 }] }

/-- **A kernel of an unknown application ends the process**, whatever is behind it. -/
theorem unknown_application_thrown :
    letI := ByteOrder.littleEndian
    ¬∃ p', withUnknown.processKernels (Process.plain 0) {} (fun _ => true) = .ok p' ∧
      withUnknown.Conserves (Process.plain 0) {} (fun _ => true) p' := by
  let _ := ByteOrder.littleEndian
  have hthrown : withUnknown.processKernels (Process.plain 0) {} (fun _ => true) =
      .error (.exception (.error "bad application id ")) := rfl
  rintro ⟨p', hok, -⟩
  rw [hthrown] at hok
  cases hok

end ProcessPipeline

end Subordination.Daemon
