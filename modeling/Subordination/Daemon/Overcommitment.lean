import Subordination.Daemon.ProcessPipeline

/-!
# Threads in use

The process pipeline passes on as many kernels as the threads of the node allow, but for a single job it
makes no difference how many there are (`daemon/process_pipeline.cc`).

## The model

The jobs of a run have the loads that their connections count. Kernels are forwarded and taken from the
queues, results and other kernels arrive from the processes, jobs start and end, in any order.

A kernel crowds the node if its application has no job yet, the one that is there has a load, and more
threads than there are would be in use.

## What is proved

* `ProcessPipeline.commitment` — in a run in which no kernel that crowds the node is passed on, the threads
  in use are never more than there are while two jobs have a load.
* `ProcessPipeline.overcommitted` — a run with one that does.
-/

namespace Subordination.Daemon

open Subordination.Core Subordination.Library

namespace ProcessPipeline

variable {P : Type} {p p' : ProcessPipeline P} {v w : WeightArray} {k : Kernel P}

/-! ### The threads in use -/

theorem numThreadsUsed_mono (p : ProcessPipeline P) (h : v ≤ w) :
    (p.numThreadsUsed v).value ≤ (p.numThreadsUsed w).value := by
  have hwhole := Nat.mul_le_mul_right p.maxThreads.toNat h.1
  have hpart := h.2
  have hused : ∀ u : WeightArray, (p.numThreadsUsed u).toNat =
      min (min (u.whole.toNat * p.maxThreads.toNat) Weight.max.toNat + u.part.toNat) Weight.max.toNat := by
    intro u
    unfold numThreadsUsed
    rw [Weight.toNat_add, Weight.toNat_mul p.maxThreads_ne_zero]
    rfl
  rw [UInt32.le_iff_toNat_le]
  change (p.numThreadsUsed v).toNat ≤ (p.numThreadsUsed w).toNat
  rw [hused, hused]
  omega

/-- Two jobs have a load. -/
def Shared (p : ProcessPipeline P) : Prop := WeightArray.Shared p.loads

/-- While two jobs have a load, there are no more threads in use than there are. -/
def Committed (p : ProcessPipeline P) : Prop :=
  p.Shared → (p.numThreadsUsed p.totalLoad).value ≤ p.maxThreads

/-- The kernel crowds the node: its application has no job, the jobs that are there have a load, and with
the kernel more threads would be in use than there are. -/
def Crowds (p : ProcessPipeline P) (k : Kernel P) : Prop :=
  k.phase = .upstream ∧ k.targetApplicationId ∉ p.jobs ∧ p.totalLoad ≠ {} ∧
    p.maxThreads < (p.numThreadsUsed (p.totalLoad.add k.weights)).value

/-! ### What a kernel does to the loads -/

/-- The entry of a job, and the others. -/
theorem loads_insert {id : UInt64} {job : Connection P} (h : p.jobs.lookup id = some job) :
    ∃ rest, p.loads.Perm (job.load :: rest) ∧ ∀ (job' : Connection P) (memory : Memory P)
      (passed : List (UInt64 × Kernel P)),
      loads { p with jobs := p.jobs.insert id job', memory, passed } = job'.load :: rest := by
  have hmem : (⟨id, job⟩ : Sigma fun _ => Connection P) ∈ p.jobs.entries := AList.mem_lookup_iff.mp h
  obtain ⟨job₁, before, after, -, hsplit, herase⟩ := List.exists_of_kerase (List.mem_keys_of_mem hmem)
  have hjob : job₁ = job :=
    p.jobs.nodupKeys.eq_of_mk_mem (hsplit ▸ List.mem_append_right _ List.mem_cons_self) hmem
  refine ⟨(before ++ after).map fun job => job.2.load, ?_, ?_⟩
  · unfold loads
    rw [hsplit, hjob]
    exact (List.perm_middle).map _
  · intro job' memory passed
    unfold loads
    rw [AList.entries_insert, herase]
    rfl

/-- A job that starts has no load. -/
theorem loads_new {id : UInt64} (h : id ∉ p.jobs) (job : Connection P) (memory : Memory P)
    (passed : List (UInt64 × Kernel P)) :
    loads { p with jobs := p.jobs.insert id job, memory, passed } = job.load :: p.loads := by
  unfold loads
  rw [AList.entries_insert_of_notMem h]
  rfl

/-- What a kernel may do to the load of the job that it is passed to. -/
def Raises (k : Kernel P) (load load' : WeightArray) : Prop :=
  load' = load ∨ (k.phase = .upstream ∧ load' = load.add k.weights)

section Steps

variable [ByteOrder] {proc : Process P} {ppl : BasicSocketPipeline} {executes : Application → Bool}

variable (proc ppl) in
theorem raises_doForward (e : Endpoint P) (k : Kernel P) :
    Raises k e.connection.load (e.doForward proc ppl k).1.connection.load := by
  unfold Raises
  rw [Endpoint.load_doForward]
  split
  · next hup => exact Or.inr ⟨hup.1, rfl⟩
  · exact Or.inl rfl

variable (proc ppl) in
/-- What `process_handler::forward` takes off a kernel makes no difference. -/
theorem raises_trimmed (e : Endpoint P) (k : Kernel P) :
    Raises k e.connection.load (e.doForward proc ppl (trimmed k)).1.connection.load := by
  have htrimmed : (trimmed k).phase = k.phase ∧ (trimmed k).weights = k.weights := by
    unfold trimmed
    split
    · split <;> exact ⟨rfl, rfl⟩
    · exact ⟨rfl, rfl⟩
  have hraises := raises_doForward proc ppl e (trimmed k)
  unfold Raises at *
  rwa [htrimmed.1, htrimmed.2] at hraises

theorem raises_send {e e' : Endpoint P} {left : Option (Kernel P)}
    (h : e.send proc ppl k = some (e', left)) : Raises k e.connection.load e'.connection.load := by
  cases hprepare : e.prepare k with
  | none =>
    unfold Endpoint.send at h
    rw [hprepare] at h
    cases h
  | some prepared =>
    obtain ⟨e₁, k₁⟩ := prepared
    have hkernel : k₁.phase = k.phase ∧ k₁.weights = k.weights := by
      unfold Endpoint.prepare at hprepare
      split at hprepare
      · split at hprepare
        · cases hprepare
        · cases hprepare
          exact ⟨rfl, rfl⟩
      · cases hprepare
        exact ⟨rfl, rfl⟩
    have hraises := raises_doForward proc ppl e₁ k₁
    rw [Endpoint.load_prepare hprepare] at hraises
    rw [Endpoint.send_prepared hprepare h]
    unfold Raises at *
    rwa [hkernel.1, hkernel.2] at hraises

/-- What a kernel that is passed on does to the loads. -/
inductive LoadsAfter (p : ProcessPipeline P) (k : Kernel P) (p' : ProcessPipeline P) : Prop
  /-- Nothing. -/
  | same : p'.loads.Perm p.loads → LoadsAfter p k p'
  /-- It may raise the load of its job. -/
  | job {load load' : WeightArray} {rest : List WeightArray} : p.loads.Perm (load :: rest) →
      p'.loads = load' :: rest → Raises k load load' → LoadsAfter p k p'
  /-- It may raise the load of a job that is started for it. -/
  | new {load : WeightArray} : k.targetApplicationId ∉ p.jobs → p'.loads = load :: p.loads →
      Raises k {} load → LoadsAfter p k p'

omit [ByteOrder] in
/-- A kernel that is passed to the job that has been found or added. -/
theorem loadsAfter_pass {app : Option Application} {p₁ : ProcessPipeline P} {job : Connection P} {e : Endpoint P}
    (happ : ∀ a, app = some a → a.id = k.targetApplicationId)
    (h : p.findOrAdd executes k.targetApplicationId app = .ok (p₁, job))
    (hraises : Raises k job.load e.connection.load) :
    LoadsAfter p k (p₁.pass k.targetApplicationId k e) ∧
      (p₁.pass k.targetApplicationId k e).maxThreads = p.maxThreads := by
  rcases findOrAdd_ok h with ⟨hjob, rfl⟩ | ⟨hnew, rfl, a, happ', hadd⟩
  · obtain ⟨rest, hloads, hafter⟩ := loads_insert hjob
    exact ⟨.job hloads (hafter _ _ _) hraises, rfl⟩
  · have hid := happ a happ'
    rw [doAdd_ok hadd, hid, if_neg hnew]
    refine ⟨.new hnew ?_ hraises, rfl⟩
    unfold pass
    dsimp only
    rw [AList.insert_insert]
    exact loads_new hnew _ _ _

omit [ByteOrder] in
theorem lookup_insert_load {id : UInt64} {job job' : Connection P} {jobs : JobTable P} (h : jobs.lookup id = some job)
    (hload : job'.load = job.load) (id' : UInt64) :
    ((jobs.insert id job').lookup id').map Connection.load = (jobs.lookup id').map Connection.load := by
  by_cases hid : id' = id
  · subst hid
    rw [AList.lookup_insert, h, Option.map_some, Option.map_some, hload]
  · rw [AList.lookup_insert_ne hid]

/-- A broadcast leaves the loads as they are. -/
theorem loads_broadcast (hphase : k.phase = .broadcast) (h : broadcast proc ppl k p.jobs.entries p = .ok p') :
    p'.loads.Perm p.loads ∧ p'.maxThreads = p.maxThreads := by
  let Same (q : ProcessPipeline P) : Prop := q.loads.Perm p.loads ∧ q.maxThreads = p.maxThreads ∧
    ∀ id, (q.jobs.lookup id).map Connection.load = (p.jobs.lookup id).map Connection.load
  have hsame : Same p' := by
    refine broadcast_invariant (I := Same) ?_ ⟨List.Perm.refl _, rfl, fun _ => rfl⟩ h
    rintro q ⟨hloads, hthreads, hlookup⟩ ⟨id, job⟩ hjob e left hsend
    -- the job still has the load that it has had from the start
    have hstart : p.jobs.lookup id = some job := AList.mem_lookup_iff.mpr hjob
    obtain ⟨job₁, hjob₁⟩ : ∃ job₁, q.jobs.lookup id = some job₁ := by
      have hsome := hlookup id
      rw [hstart] at hsome
      cases hq : q.jobs.lookup id with
      | none =>
        rw [hq] at hsome
        cases hsome
      | some job₁ => exact ⟨job₁, rfl⟩
    have hload₁ : job₁.load = job.load := by
      have hsome := hlookup id
      rw [hstart, hjob₁] at hsome
      exact Option.some.inj hsome
    have hload : e.connection.load = job₁.load := by
      rcases raises_send hsend with hsend | ⟨hup, -⟩
      · rw [hload₁]
        exact hsend
      · rw [hphase] at hup
        exact absurd hup (by decide)
    obtain ⟨rest, hperm, hafter⟩ := loads_insert hjob₁
    refine ⟨?_, hthreads, fun id' => (lookup_insert_load hjob₁ hload id').trans (hlookup id')⟩
    have hpassed : (q.pass id k e).loads = e.connection.load :: rest := hafter _ _ _
    rw [hpassed, hload]
    exact hperm.symm.trans hloads
  exact ⟨hsame.1, hsame.2.1⟩

omit [ByteOrder] in
/-- A kernel that is given back leaves the loads as they are. -/
theorem LoadsAfter.giveBack (h : LoadsAfter p k p') (id : UInt64) (left : Option (Kernel P)) :
    LoadsAfter p k (p'.giveBack id left) := by
  cases h with
  | same hloads => exact .same hloads
  | job hloads hafter hraises => exact .job hloads hafter hraises
  | new hnew hloads hraises => exact .new hnew hloads hraises

theorem loads_doForward (h : p.doForward proc ppl executes k = .ok p') :
    LoadsAfter p k p' ∧ p'.maxThreads = p.maxThreads := by
  obtain ⟨p₁, job, left, hjob, rfl⟩ := doForward_ok h
  obtain ⟨hloads, hthreads⟩ :=
    loadsAfter_pass (fun a => id_forwardApplication) hjob (raises_trimmed proc ppl (p₁.endpoint job) k)
  exact ⟨hloads.giveBack _ _, hthreads⟩

/-- **What a kernel that is passed on does to the loads.** -/
theorem loads_take (h : p.take proc ppl executes k = .ok p') : LoadsAfter p k p' ∧ p'.maxThreads = p.maxThreads := by
  unfold take at h
  split at h
  · by_cases hphase : k.phase = .broadcast
    · unfold processKernel at h
      rw [if_pos hphase] at h
      obtain ⟨hloads, hthreads⟩ := loads_broadcast hphase h
      exact ⟨.same hloads, hthreads⟩
    · obtain ⟨p₁, job, e, left, hjob, hsend, rfl⟩ := processKernel_ok hphase h
      exact loadsAfter_pass (fun a => id_sendApplication) hjob (raises_send hsend)
  · cases hforward : p.doForward proc ppl executes k with
    | error x =>
      rw [hforward] at h
      cases h
    | ok p₁ =>
      rw [hforward] at h
      cases h
      exact loads_doForward hforward

end Steps

/-! ### What a step preserves -/

theorem numThreadsUsed_congr (h : p'.maxThreads = p.maxThreads) (w : WeightArray) :
    p'.numThreadsUsed w = p.numThreadsUsed w := by
  unfold numThreadsUsed
  rw [h]

theorem totalLoad_eq (p : ProcessPipeline P) : p.totalLoad = WeightArray.total p.loads := rfl

/-- The loads are no greater, and no more of them count. -/
theorem Committed.le (hc : p.Committed) (hthreads : p'.maxThreads = p.maxThreads)
    (hle : p'.totalLoad ≤ p.totalLoad) (hshared : p'.Shared → p.Shared) : p'.Committed := by
  intro hshared'
  rw [numThreadsUsed_congr hthreads, hthreads]
  exact UInt32.le_trans (p.numThreadsUsed_mono hle) (hc (hshared hshared'))

/-- The loads may be in another order. -/
theorem Committed.perm (hc : p.Committed) (hloads : p'.loads.Perm p.loads) (hthreads : p'.maxThreads = p.maxThreads) :
    p'.Committed :=
  hc.le hthreads (le_of_eq (WeightArray.total_perm hloads)) (WeightArray.shared_perm hloads).mp

/-- The threads in use are few enough. -/
theorem committed_of_le (hthreads : p'.maxThreads = p.maxThreads) (hle : p'.totalLoad ≤ w)
    (hused : (p.numThreadsUsed w).value ≤ p.maxThreads) : p'.Committed := by
  intro _
  rw [numThreadsUsed_congr hthreads, hthreads]
  exact UInt32.le_trans (p.numThreadsUsed_mono hle) hused

/-- The test has looked at the load, and there are no more jobs than before. -/
theorem committed_of_admits {load : WeightArray} (hthreads : p'.maxThreads = p.maxThreads)
    (hle : p'.totalLoad ≤ load) (hadmits : p.admits load = true) (hlength : p'.loads.length = p.loads.length) :
    p'.Committed := by
  unfold admits at hadmits
  rw [Bool.or_eq_true] at hadmits
  rcases hadmits with hbypass | htest
  · -- there is but one job
    intro hshared
    rw [Bool.and_eq_true, decide_eq_true_iff] at hbypass
    have hone : p.loads.length = 1 := (List.length_map _).trans hbypass.2
    refine absurd hshared (WeightArray.not_shared_of_length ?_)
    rw [hlength, hone]
  · exact committed_of_le hthreads hle (UInt32.le_of_lt (of_decide_eq_true htest))

/-- The load of a job that is there is raised. -/
theorem totalLoad_job {l : WeightArray} {rest : List WeightArray} (hbefore : p.loads.Perm (l :: rest))
    (hafter : p'.loads = l.add k.weights :: rest) : p'.totalLoad = p.totalLoad.add k.weights := by
  rw [totalLoad_eq, totalLoad_eq, hafter, WeightArray.total_perm hbefore, WeightArray.total_cons,
    WeightArray.total_cons, WeightArray.add_assoc]

/-- The load of a new job is raised. -/
theorem totalLoad_new (hafter : p'.loads = WeightArray.add {} k.weights :: p.loads) :
    p'.totalLoad = p.totalLoad.add k.weights := by
  rw [totalLoad_eq, totalLoad_eq, hafter, WeightArray.total_cons, WeightArray.add_comm {} k.weights,
    WeightArray.add_zero]

/-- A new job that has no load makes no difference. -/
theorem Committed.new (hc : p.Committed) (hthreads : p'.maxThreads = p.maxThreads)
    (hafter : p'.loads = {} :: p.loads) : p'.Committed ∧ p'.totalLoad = p.totalLoad := by
  have htotal : p'.totalLoad = p.totalLoad := by
    rw [totalLoad_eq, totalLoad_eq, hafter, WeightArray.total_cons, WeightArray.add_zero]
  refine ⟨hc.le hthreads (le_of_eq htotal) fun hshared => ?_, htotal⟩
  unfold Shared at hshared ⊢
  rwa [hafter, WeightArray.shared_zero] at hshared

/-- **A kernel that passes the test and does not crowd the node** keeps the threads in use few enough. The load
that the test has looked at is an upper bound. -/
theorem Committed.after {load : WeightArray} (hc : p.Committed) (hle : p.totalLoad ≤ load)
    (hadmits : p.admits (load.add k.weights) = true) (hcrowds : ¬ p.Crowds k) (hloads : LoadsAfter p k p')
    (hthreads : p'.maxThreads = p.maxThreads) :
    p'.Committed ∧ p'.totalLoad ≤ load.add k.weights := by
  have hraised : p.totalLoad.add k.weights ≤ load.add k.weights := WeightArray.add_le_add hle k.weights
  have hkept : p.totalLoad ≤ load.add k.weights := hle.trans (WeightArray.le_add load k.weights)
  cases hloads with
  | same hperm =>
    have htotal : p'.totalLoad = p.totalLoad := WeightArray.total_perm hperm
    exact ⟨hc.perm hperm hthreads, (le_of_eq htotal).trans hkept⟩
  | @job l l' rest hbefore hafter hraises =>
    rcases hraises with rfl | ⟨hup, rfl⟩
    · have hperm : p'.loads.Perm p.loads := hafter ▸ hbefore.symm
      have htotal : p'.totalLoad = p.totalLoad := WeightArray.total_perm hperm
      exact ⟨hc.perm hperm hthreads, (le_of_eq htotal).trans hkept⟩
    · have hbound : p'.totalLoad ≤ load.add k.weights := (le_of_eq (totalLoad_job hbefore hafter)).trans hraised
      refine ⟨committed_of_admits hthreads hbound hadmits ?_, hbound⟩
      rw [hafter, hbefore.length_eq, List.length_cons, List.length_cons]
  | @new l hnew hafter hraises =>
    rcases hraises with rfl | ⟨hup, rfl⟩
    · obtain ⟨hcommitted, htotal⟩ := hc.new hthreads hafter
      exact ⟨hcommitted, (le_of_eq htotal).trans hkept⟩
    · have htotal := totalLoad_new hafter
      refine ⟨?_, (le_of_eq htotal).trans hraised⟩
      by_cases hidle : p.totalLoad = {}
      · intro hshared
        unfold Shared at hshared
        rw [hafter] at hshared
        exact absurd hshared (WeightArray.not_shared_cons hidle)
      · refine committed_of_le hthreads (le_of_eq htotal) (UInt32.not_lt.mp fun hlt => ?_)
        exact hcrowds ⟨hup, hnew, hidle, hlt⟩

/-! ### Runs -/

section Runs

variable [ByteOrder] (proc : Process P) (ppl : BasicSocketPipeline) (executes : Application → Bool)

/-- What may happen. -/
inductive Event (P : Type) where
  /-- `forward`. -/
  | forward (k : Kernel P)
  /-- `process_kernels`. -/
  | processKernels
  /-- `send`. -/
  | send (k : Kernel P)
  /-- A kernel arrives from the process of a job. A parent that it carries is put at the given address. -/
  | arrive (id : UInt64) (address : UInt64) (r : Received P)
  /-- `add`. -/
  | add (app : Application)
  /-- A job ends, or is removed. -/
  | remove (id : UInt64)
  /-- The rest of the process goes on. -/
  | other (memory : Memory P) (stopping : Bool)

/-- What becomes of the pipeline. -/
inductive Step (p : ProcessPipeline P) : Event P → ProcessPipeline P → Prop
  /-- `forward`. -/
  | forward {k : Kernel P} {p' : ProcessPipeline P} :
      p.forward proc ppl executes k = .ok p' → Step p (.forward k) p'
  /-- `process_kernels`. -/
  | processKernels {p' : ProcessPipeline P} :
      p.processKernels proc ppl executes = .ok p' → Step p .processKernels p'
  /-- `send`. -/
  | send (k : Kernel P) : Step p (.send k) { p with kernels := p.kernels ++ [k] }
  /-- A kernel arrives. -/
  | arrive {id : UInt64} (address : UInt64) (r : Received P) {job : Connection P} {e : Endpoint P} :
      p.jobs.lookup id = some job → (Endpoint.receiver proc ppl address).receive r (p.endpoint job) = e →
      Step p (.arrive id address r) { p with jobs := p.jobs.insert id e.connection, memory := e.memory }
  /-- `add`. -/
  | add {app : Application} {p' : ProcessPipeline P} :
      p.doAdd executes app = .ok p' → Step p (.add app) p'
  /-- A job ends. -/
  | remove (id : UInt64) : Step p (.remove id) { p with jobs := p.jobs.erase id }
  /-- The rest of the process goes on. -/
  | other (memory : Memory P) (stopping : Bool) : Step p (.other memory stopping) { p with memory, stopping }

/-- No kernel that crowds the node is passed on. -/
def LeavesRoom (p : ProcessPipeline P) : Event P → Prop
  | .forward k => p.stopping = false → p.admits (p.totalLoad.add k.weights) = true → ¬ p.Crowds k
  | .processKernels => ∀ k p₁ load₁, Turn proc ppl executes p k p₁ load₁ →
      p₁.admits (load₁.add k.weights) = true → ¬ p₁.Crowds k
  | _ => True

/-- The runs of a pipeline, from when it is made. -/
def system : System (ProcessPipeline P) where
  Initial p := p.jobs = ∅
  Step p p' := ∃ event, Step proc ppl executes p event p'

/-- The runs in which no kernel that crowds the node is passed on. -/
def roomy : System (ProcessPipeline P) where
  Initial p := p.jobs = ∅
  Step p p' := ∃ event, p.LeavesRoom proc ppl executes event ∧ Step proc ppl executes p event p'

end Runs

section Preservation

variable [ByteOrder] {proc : Process P} {ppl : BasicSocketPipeline} {executes : Application → Bool}

/-- The loop of `do_process_kernels`. -/
theorem Committed.doProcessKernels {ks left : List (Kernel P)} {load load' : WeightArray} (hc : p.Committed)
    (hle : p.totalLoad ≤ load)
    (hroom : ∀ before k after p₁ load₁ left₁, ks = before ++ k :: after →
      p.doProcessKernels proc ppl executes load before = .ok (p₁, load₁, left₁) →
      p₁.admits (load₁.add k.weights) = true → ¬ p₁.Crowds k)
    (h : p.doProcessKernels proc ppl executes load ks = .ok (p', load', left)) :
    p'.Committed ∧ p'.totalLoad ≤ load' := by
  induction ks generalizing p load left with
  | nil =>
    cases h
    exact ⟨hc, hle⟩
  | cons k rest ih =>
    obtain ⟨p₁, load₁, left₁, left₂, hturn, hrest, -⟩ := doProcessKernels_cons h
    have hroom₁ : ∀ before k' after p₂ load₂ left₂, rest = before ++ k' :: after →
        p₁.doProcessKernels proc ppl executes load₁ before = .ok (p₂, load₂, left₂) →
        p₂.admits (load₂.add k'.weights) = true → ¬ p₂.Crowds k' := by
      intro before k' after p₂ load₂ left₂ hsplit hbefore
      refine hroom (k :: before) k' after p₂ load₂ (left₁ ++ left₂) (by rw [hsplit]; rfl) ?_
      unfold ProcessPipeline.doProcessKernels
      rw [hturn]
      change (p₁.doProcessKernels proc ppl executes load₁ before >>= _) = _
      rw [hbefore]
      rfl
    rcases turn_ok hturn with ⟨hadmits, htake, rfl, -⟩ | ⟨-, rfl, rfl, -⟩
    · have hcrowds := hroom [] k rest p load [] rfl rfl hadmits
      obtain ⟨hloads, hthreads⟩ := loads_take htake
      obtain ⟨hc₁, hle₁⟩ := hc.after hle hadmits hcrowds hloads hthreads
      exact ih hc₁ hle₁ hroom₁ hrest
    · exact ih hc hle hroom₁ hrest

/-- What is forwarded leaves room. -/
theorem Committed.forward (hc : p.Committed) (hroom : p.LeavesRoom proc ppl executes (.forward k))
    (h : p.forward proc ppl executes k = .ok p') : p'.Committed := by
  unfold ProcessPipeline.forward at h
  split at h
  · cases h
    exact hc
  · next hstopping =>
    split at h
    · next hadmits =>
      obtain ⟨hloads, hthreads⟩ := loads_doForward h
      have hcrowds := hroom (Bool.eq_false_iff.mpr hstopping) hadmits
      exact (hc.after le_rfl hadmits hcrowds hloads hthreads).1
    · cases h
      exact hc.perm (List.Perm.refl _) rfl

/-- So does what is taken from the queues. -/
theorem Committed.processKernels (hc : p.Committed) (hroom : p.LeavesRoom proc ppl executes .processKernels)
    (h : p.processKernels proc ppl executes = .ok p') : p'.Committed := by
  obtain ⟨p₀, load₀, kernels, p₁, load₁, outstandingKernels, hfirst, hsecond, rfl⟩ := processKernels_ok h
  obtain ⟨hc₀, hle₀⟩ := hc.doProcessKernels le_rfl
    (fun before k after q load left hsplit hbefore => hroom k q load (.kernels hsplit hbefore)) hfirst
  obtain ⟨hc₁, -⟩ := hc₀.doProcessKernels hle₀
    (fun before k after q load left hsplit hbefore => hroom k q load (.outstanding hsplit hfirst hbefore)) hsecond
  exact hc₁.perm (List.Perm.refl _) rfl

/-- A kernel that arrives may lower the load of its job. -/
theorem Committed.arrive (hc : p.Committed) {id address : UInt64} {r : Received P} {job : Connection P}
    (hjob : p.jobs.lookup id = some job) (memory : Memory P) :
    Committed { p with
      jobs := p.jobs.insert id ((Endpoint.receiver proc ppl address).receive r (p.endpoint job)).connection
      memory } := by
  obtain ⟨rest, hbefore, hafter⟩ := loads_insert hjob
  have hload := Endpoint.load_receive proc ppl (p.endpoint job) address r
  generalize ((Endpoint.receiver proc ppl address).receive r (p.endpoint job)).connection = job' at hload ⊢
  specialize hafter job' memory p.passed
  by_cases hphase : r.kernel.phase = .downstream
  · rw [if_pos hphase] at hload
    change job'.load = job.load.sub r.kernel.weights at hload
    refine hc.le rfl ?_ fun hshared => ?_
    · rw [totalLoad_eq, totalLoad_eq, hafter, hload, WeightArray.total_perm hbefore, WeightArray.total_cons,
        WeightArray.total_cons]
      exact WeightArray.add_mono_right _ (WeightArray.sub_le _ _)
    · unfold Shared at hshared ⊢
      rw [hafter, hload] at hshared
      exact (WeightArray.shared_perm hbefore).mpr hshared.of_sub
  · rw [if_neg hphase] at hload
    refine hc.perm ?_ rfl
    rw [hafter, hload]
    exact hbefore.symm

omit [ByteOrder] in
/-- A job that starts has no load. -/
theorem Committed.add (hc : p.Committed) {app : Application} (h : p.doAdd executes app = .ok p') :
    p'.Committed := by
  rw [doAdd_ok h]
  split
  · exact hc
  · next hnew =>
    have hafter : loads { p with jobs := p.jobs.insert app.id { flags := jobFlags } } = {} :: p.loads :=
      loads_new hnew _ p.memory p.passed
    have hadded : Committed { p with jobs := p.jobs.insert app.id { flags := jobFlags } } ∧ _ :=
      hc.new rfl hafter
    exact hadded.1

omit [ByteOrder] in
/-- A job that ends takes its load with it. -/
theorem Committed.remove (hc : p.Committed) (id : UInt64) : Committed { p with jobs := p.jobs.erase id } := by
  by_cases hmem : id ∈ p.jobs
  · obtain ⟨job, hjob⟩ := Option.isSome_iff_exists.mp (AList.lookup_isSome.mpr hmem)
    obtain ⟨rest, hbefore, hafter⟩ := loads_insert hjob
    have herase : loads { p with jobs := p.jobs.erase id } = rest := by
      have hinsert := hafter job p.memory p.passed
      unfold loads at hinsert ⊢
      rw [AList.entries_insert] at hinsert
      exact (List.cons.inj hinsert).2
    refine hc.le rfl ?_ fun hshared => ?_
    · rw [totalLoad_eq, totalLoad_eq, herase, WeightArray.total_perm hbefore, WeightArray.total_cons]
      exact WeightArray.le_add _ _
    · unfold Shared at hshared ⊢
      rw [herase] at hshared
      exact (WeightArray.shared_perm hbefore).mpr (hshared.cons job.load)
  · have herase : p.jobs.erase id = p.jobs := AList.ext (List.kerase_of_notMem_keys hmem)
    rw [herase]
    exact hc.perm (List.Perm.refl _) rfl

/-- **What every step preserves** that leaves room. -/
theorem Step.committed {event : Event P} (hstep : Step proc ppl executes p event p')
    (hroom : p.LeavesRoom proc ppl executes event) (hc : p.Committed) : p'.Committed := by
  cases hstep with
  | forward h => exact hc.forward hroom h
  | processKernels h => exact hc.processKernels hroom h
  | send k => exact hc.perm (List.Perm.refl _) rfl
  | arrive address r hjob he =>
    subst he
    exact hc.arrive hjob _
  | add h => exact hc.add h
  | remove id => exact hc.remove id
  | other memory stopping => exact hc.perm (List.Perm.refl _) rfl

/-- **There are never more threads in use than there are while two jobs have a load**, in a run in which no
kernel that crowds the node is passed on. -/
theorem commitment (h : (roomy proc ppl executes).Reachable p) (hshared : p.Shared) :
    (p.numThreadsUsed p.totalLoad).value ≤ p.maxThreads := by
  have hc : p.Committed := by
    refine h.invariant (p := Committed) ?_ ?_
    · intro p hinitial hshared
      unfold Shared loads at hshared
      rw [show p.jobs = ∅ from hinitial] at hshared
      exact absurd hshared (WeightArray.not_shared_of_length (by simp))
    · rintro p p' hc ⟨event, hroom, hstep⟩
      exact hstep.committed hroom hc
  exact hc hshared

end Preservation

/-! ### A crowded node -/

/-- A node with the given number of threads. -/
def idle (maxThreads : UInt32) (h : maxThreads ≠ 0) : ProcessPipeline Unit where
  maxThreads
  maxThreads_ne_zero := h
  memory := Memory.blank

/-- An application with the given id. -/
def plainApplication (id : UInt64) : Application where
  id
  uid := 1000
  gid := 1000
  args := []
  env := []
  workingDirectory := []

/-- A kernel for the application. -/
def kernelFor (id : UInt64) (weight : UInt32) : Kernel Unit :=
  { Kernel.fresh 0 (.foreign []) with targetApplication := .application (plainApplication id), weight }

/-- The application has been added. -/
def added (p : ProcessPipeline Unit) (id : UInt64) : ProcessPipeline Unit :=
  { p with jobs := p.jobs.insert id { flags := jobFlags } }

/-- The kernel has been forwarded. -/
def forwarded [ByteOrder] (p : ProcessPipeline Unit) (k : Kernel Unit) : ProcessPipeline Unit :=
  match p.forward (Process.plain 0) {} (fun _ => true) k with
  | .ok p' => p'
  | .error _ => p

theorem step_added [ByteOrder] {p : ProcessPipeline Unit} (id : UInt64) (hroot : p.allowRoot = true)
    (h : id ∉ p.jobs) :
    Step (Process.plain 0) {} (fun _ => true) p (.add (plainApplication id)) (p.added id) := by
  have hmem : (plainApplication id).id ∉ p.jobs := h
  refine .add ?_
  unfold doAdd
  rw [if_neg fun hdisallowed => hdisallowed.1 hroot, if_neg (by simp), if_neg hmem]
  rfl

theorem step_forwarded [ByteOrder] {p : ProcessPipeline Unit} {k : Kernel Unit}
    (h : (p.forward (Process.plain 0) {} (fun _ => true) k).isOk = true) :
    Step (Process.plain 0) {} (fun _ => true) p (.forward k) (p.forwarded k) := by
  refine .forward ?_
  unfold forwarded
  cases hforward : p.forward (Process.plain 0) {} (fun _ => true) k with
  | error x =>
    rw [hforward] at h
    cases h
  | ok p' => rfl

/-- Two applications share the four threads of a node. -/
theorem commitment_two :
    letI := ByteOrder.littleEndian
    let p := (((idle 4 (by decide)).added 7).forwarded (kernelFor 7 1)).forwarded (kernelFor 8 1)
    (p.numThreadsUsed p.totalLoad).value ≤ p.maxThreads := by
  let _ := ByteOrder.littleEndian
  intro p
  have hinitial : (roomy (Process.plain 0) {} fun _ => true).Reachable (idle 4 (by decide)) := .initial rfl
  have hadded := hinitial.step ⟨.add (plainApplication 7), trivial, step_added 7 rfl (by decide)⟩
  have hfirst := hadded.step ⟨.forward (kernelFor 7 1), fun _ _ hcrowds => absurd hcrowds.2.1 (by decide +kernel),
    step_forwarded (by decide +kernel)⟩
  have hsecond := hfirst.step ⟨.forward (kernelFor 8 1), fun _ _ hcrowds => absurd hcrowds.2.2.2 (by decide +kernel),
    step_forwarded (by decide +kernel)⟩
  exact commitment hsecond (by unfold Shared WeightArray.Shared; decide +kernel)

/-- **Two applications use more threads than there are**: the kernel of the second one is passed on because
there is but one job at that time. -/
theorem overcommitted :
    letI := ByteOrder.littleEndian
    ∃ p : ProcessPipeline Unit, (system (Process.plain 0) {} fun _ => true).Reachable p ∧ p.Shared ∧
      p.maxThreads < (p.numThreadsUsed p.totalLoad).value := by
  let _ := ByteOrder.littleEndian
  have hinitial : (system (Process.plain 0) {} fun _ => true).Reachable (idle 2 (by decide)) := .initial rfl
  have hadded := hinitial.step ⟨_, step_added 7 rfl (by decide)⟩
  have hfirst := hadded.step ⟨_, step_forwarded (k := kernelFor 7 3) (by decide +kernel)⟩
  have hsecond := hfirst.step ⟨_, step_forwarded (k := kernelFor 8 1) (by decide +kernel)⟩
  refine ⟨_, hsecond, ?_, ?_⟩
  · unfold Shared WeightArray.Shared
    decide +kernel
  · decide +kernel

end ProcessPipeline

end Subordination.Daemon
