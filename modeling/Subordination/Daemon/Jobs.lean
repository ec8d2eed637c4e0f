import Mathlib.Data.List.Nodup
import Mathlib.Data.List.Perm.Basic
import Mathlib.Logic.Function.Basic
import Subordination.Library.Splitting
import Subordination.Library.System

/-!
# The jobs of a cluster

A daemon starts a process for an application, waits for it, and tells the main kernel when it has ended
(`sbnd::process_pipeline`, `daemon/process_pipeline.cc`). The main kernel tells the other daemons, which terminate
their processes of the application and forget them (`Main::on_event`, `Main::report_job_status`, `daemon/main.cc`;
`Terminate_kernel::act`, `daemon/terminate_kernel.cc`). A process is also terminated when the main kernel of its
application comes back (`process_handler::receive_foreign_kernel`, `core/process_handler.cc`).

## The model

A process is known by the number of those that its daemon has started before it. The operating system may let a
process end at any time, with any status. An event, or a terminate kernel that has been sent, may be executed at any
time, any number of times; how terminate kernels are routed is the subject of `Daemon.TerminateKernel`. Which kernels
start a process is the subject of `Daemon.ProcessPipeline`. The end of a daemon is left out.

## What is proved

* **`processes_placed`**: every process has a job, or has been told to terminate, or has been waited for; there is an
  event for it exactly if it still had its job then, and one only.
* **`terminated_with_cause`**: nobody terminates a process unless its application has been cancelled, or a process of
  the application has exited on some daemon, or its main kernel has come back.
* **`terminated_for_good`**: a daemon that removes the jobs of some applications keeps the others, and has told all
  processes of these applications to terminate, or waited for them, as long as it starts no new ones.
-/

namespace Subordination.Daemon

open Subordination.Library

/-! ### Jobs -/

/-- `sys::process_status`. -/
inductive ProcessStatus where
  /-- The process has exited. -/
  | exited (code : ℕ)
  /-- A signal has ended it. -/
  | signaled (signal : ℕ)
  deriving DecidableEq

/-- `exited`. -/
def ProcessStatus.isExited : ProcessStatus → Bool
  | exited _ => true
  | signaled _ => false

/-- An entry of `_jobs`: an application, and the process of its connection. -/
structure Job where
  /-- The key. -/
  application : UInt64
  /-- `child_process_id()`. -/
  process : ℕ
  deriving DecidableEq

/-- `process_pipeline_kernel`, with the event `child_process_terminated`. -/
structure ProcessEvent where
  /-- The process. -/
  process : ℕ
  /-- `_application_id`. -/
  application : UInt64
  /-- `_status`. -/
  status : ProcessStatus
  deriving DecidableEq

/-- The jobs of a daemon, and what has become of its processes. -/
structure Jobs where
  /-- `_jobs`. -/
  jobs : List Job := []
  /-- `_child_processes`. -/
  children : List ℕ := []
  /-- The children that have ended. -/
  ended : List (ℕ × ProcessStatus) := []
  /-- The applications of the processes that have been started. -/
  started : List UInt64 := []
  /-- The processes that have been sent a signal. -/
  told : List ℕ := []
  /-- The children whose jobs have been removed. -/
  removed : List ℕ := []
  /-- The processes that have been waited for. -/
  waited : List ℕ := []
  /-- Those of them that had no job. -/
  silent : List ℕ := []
  /-- The events that have been sent to the main kernel. -/
  events : List ProcessEvent := []
  /-- The processes whose main kernels have come back. -/
  returned : List ℕ := []

namespace Jobs

/-- `do_add`: a process is started, and it becomes a job if its application has none. -/
def doAdd (s : Jobs) (a : UInt64) : Jobs :=
  { s with
    started := s.started ++ [a]
    children := s.children ++ [s.started.length]
    jobs := if s.jobs.any (·.application = a) then s.jobs else s.jobs ++ [⟨a, s.started.length⟩] }

/-- `process_pipeline::remove`. -/
def remove (s : Jobs) (a : UInt64) : Jobs :=
  match s.jobs.find? (·.application = a) with
  | none => s
  | some job =>
    { s with
      -- `terminate` looks for the process among the children
      told := if job.process ∈ s.children then s.told ++ [job.process] else s.told
      removed := s.removed ++ [job.process]
      jobs := s.jobs.eraseP (·.application = a) }

/-- The function that `wait_for_processes` calls for a child that has ended. -/
def wait (s : Jobs) (p : ℕ) (status : ProcessStatus) : Jobs :=
  let s := { s with children := s.children.erase p, ended := s.ended.erase (p, status), waited := s.waited ++ [p] }
  match s.jobs.find? (·.process = p) with
  | none => { s with removed := s.removed.erase p, silent := s.silent ++ [p] }
  | some job =>
    { s with
      jobs := s.jobs.eraseP (·.process = p)
      events := s.events ++ [⟨p, job.application, status⟩] }

/-- `Terminate_kernel::act` and `Main::report_job_status` remove some jobs. -/
def removeAll (s : Jobs) (ids : List UInt64) : Jobs := ids.foldl remove s

end Jobs

/-! ### The cluster -/

/-- Daemons, and the terminate kernels that they have sent. -/
structure JobCluster (ι : Type) where
  /-- The jobs of the daemons. -/
  daemons : ι → Jobs := fun _ => {}
  /-- The identifiers in the terminate kernels that have been sent. -/
  sent : List (List UInt64) := []
  /-- The applications that clients have cancelled. -/
  cancelled : List UInt64 := []

namespace JobCluster

variable {ι : Type} [DecidableEq ι]

/-- A daemon goes on. -/
def set (c : JobCluster ι) (i : ι) (s : Jobs) : JobCluster ι := { c with daemons := Function.update c.daemons i s }

/-- `Terminate_kernel::act`. The kernel is sent on. -/
def terminate (c : JobCluster ι) (i : ι) (ids : List UInt64) : JobCluster ι :=
  { c.set i ((c.daemons i).removeAll ids) with sent := c.sent ++ [ids] }

/-- `Main::report_job_status`, with the identifiers that a client has given. -/
def cancel (c : JobCluster ι) (i : ι) (ids : List UInt64) : JobCluster ι :=
  { c.terminate i ids with cancelled := c.cancelled ++ ids }

/-- What may happen. -/
inductive Step : JobCluster ι → JobCluster ι → Prop
  /-- A kernel comes to a daemon that has no job of its application. -/
  | start {c : JobCluster ι} (i : ι) {a : UInt64} : (∀ job ∈ (c.daemons i).jobs, job.application ≠ a) →
      Step c (c.set i ((c.daemons i).doAdd a))
  /-- A process ends. -/
  | finish {c : JobCluster ι} {i : ι} {p : ℕ} (status : ProcessStatus) : p ∈ (c.daemons i).children →
      p ∉ (c.daemons i).ended.map Prod.fst →
      Step c (c.set i { c.daemons i with ended := (c.daemons i).ended ++ [(p, status)] })
  /-- It is waited for. -/
  | wait {c : JobCluster ι} {i : ι} {p : ℕ} {status : ProcessStatus} : (p, status) ∈ (c.daemons i).ended →
      Step c (c.set i ((c.daemons i).wait p status))
  /-- `Main::on_event`: if the process has exited, the other daemons are told. -/
  | event {c : JobCluster ι} {i : ι} {e : ProcessEvent} : e ∈ (c.daemons i).events →
      Step c { c with sent := if e.status.isExited then c.sent ++ [[e.application]] else c.sent }
  /-- `process_handler::receive_foreign_kernel`, of the main kernel. -/
  | returned {c : JobCluster ι} {i : ι} {p : ℕ} : p < (c.daemons i).started.length →
      Step c
        (c.set i
          { c.daemons i with told := (c.daemons i).told ++ [p], returned := (c.daemons i).returned ++ [p] })
  /-- `Main::report_job_status`. -/
  | cancel {c : JobCluster ι} (i : ι) (ids : List UInt64) : Step c (c.cancel i ids)
  /-- `Terminate_kernel::act`. -/
  | terminate {c : JobCluster ι} (i : ι) {ids : List UInt64} : ids ∈ c.sent → Step c (c.terminate i ids)

/-- The runs of a cluster. -/
def system (ι : Type) [DecidableEq ι] : System (JobCluster ι) where
  Initial c := c = {}
  Step := Step

end JobCluster

/-! ### Where processes are -/

namespace Jobs

/-- What holds of the jobs of a daemon. -/
structure Sound (s : Jobs) : Prop where
  /-- An application has one job. -/
  nodup : (s.jobs.map Job.application).Nodup
  /-- Its process has been started for it. -/
  started : ∀ job ∈ s.jobs, s.started[job.process]? = some job.application
  /-- A child has a job, or its job has been removed. -/
  children : s.children.Perm (s.jobs.map Job.process ++ s.removed)
  /-- A process is a child or has been waited for. -/
  processes : (s.children ++ s.waited).Perm (List.range s.started.length)
  /-- A process whose job has been removed has been told to terminate. -/
  told : ∀ p ∈ s.removed, p ∈ s.told
  /-- What has ended is a child. -/
  ended : ∀ x ∈ s.ended, x.1 ∈ s.children
  /-- A process ends once. -/
  once : (s.ended.map Prod.fst).Nodup
  /-- There is an event for a process that had a job. -/
  events : (s.events.map ProcessEvent.process ++ s.silent).Perm s.waited
  /-- It is about its application. -/
  applications : ∀ e ∈ s.events, s.started[e.process]? = some e.application

variable {s : Jobs} {a b : UInt64} {p : ℕ} {status : ProcessStatus} {ids : List UInt64}

theorem sound_initial : ({} : Jobs).Sound where
  nodup := List.nodup_nil
  started _ h := absurd h List.not_mem_nil
  children := .refl []
  processes := .refl []
  told _ h := absurd h List.not_mem_nil
  ended _ h := absurd h List.not_mem_nil
  once := List.nodup_nil
  events := .refl []
  applications _ h := absurd h List.not_mem_nil

theorem Sound.nodup_children (hs : s.Sound) : s.children.Nodup := by
  have hnodup : (s.children ++ s.waited).Nodup := hs.processes.nodup_iff.2 List.nodup_range
  exact (List.nodup_append'.1 hnodup).1

theorem Sound.doAdd (hs : s.Sound) (ha : ∀ job ∈ s.jobs, job.application ≠ a) : (s.doAdd a).Sound := by
  have hnone : s.jobs.any (·.application = a) = false :=
    List.any_eq_false.2 fun job hjob => by simpa using ha job hjob
  have hkept {i : ℕ} {c : UInt64} (hc : s.started[i]? = some c) : (s.started ++ [a])[i]? = some c := by
    rw [List.getElem?_append_left (List.getElem?_eq_some_iff.1 hc).1, hc]
  rw [Jobs.doAdd, if_neg (by rw [hnone]; exact Bool.false_ne_true)]
  refine ⟨?_, fun job hjob => ?_, ?_, ?_, hs.told, fun x hx => List.mem_append_left _ (hs.ended x hx), hs.once,
    hs.events, fun e he => hkept (hs.applications e he)⟩
  · show ((s.jobs ++ [Job.mk a s.started.length]).map Job.application).Nodup
    rw [List.map_append]
    refine List.nodup_append_comm.1 (List.nodup_cons.2 ⟨fun hmem => ?_, hs.nodup⟩)
    obtain ⟨job, hjob, heq⟩ := List.mem_map.1 hmem
    exact ha job hjob heq
  · rcases List.mem_append.1 hjob with hjob | hjob
    · exact hkept (hs.started job hjob)
    · obtain rfl := List.mem_singleton.1 hjob
      exact List.getElem?_concat_length
  · show (s.children ++ [s.started.length]).Perm
      ((s.jobs ++ [Job.mk a s.started.length]).map Job.process ++ s.removed)
    rw [List.map_append, List.append_assoc]
    refine (hs.children.append_right _).trans ?_
    rw [List.append_assoc]
    exact List.Perm.append_left _ List.perm_append_comm
  · show (s.children ++ [s.started.length] ++ s.waited).Perm (List.range (s.started ++ [a]).length)
    rw [List.length_append, List.length_singleton, List.range_succ, List.append_assoc]
    refine (List.Perm.append_left _ List.perm_append_comm).trans ?_
    rw [← List.append_assoc]
    exact hs.processes.append_right _

theorem Sound.finish (hs : s.Sound) (hp : p ∈ s.children) (hnot : p ∉ s.ended.map Prod.fst) (status : ProcessStatus) :
    { s with ended := s.ended ++ [(p, status)] }.Sound := by
  refine ⟨hs.nodup, hs.started, hs.children, hs.processes, hs.told, fun x hx => ?_, ?_, hs.events, hs.applications⟩
  · rcases List.mem_append.1 hx with hx | hx
    · exact hs.ended x hx
    · obtain rfl := List.mem_singleton.1 hx
      exact hp
  · show ((s.ended ++ [(p, status)]).map Prod.fst).Nodup
    rw [List.map_append]
    exact List.nodup_append_comm.1 (List.nodup_cons.2 ⟨hnot, hs.once⟩)

theorem Sound.remove (hs : s.Sound) (a : UInt64) : (s.remove a).Sound := by
  rw [Jobs.remove]
  split
  · exact hs
  · next job hfind =>
    obtain ⟨-, before, after, hsplit, herase⟩ := split_of_find? hfind
    have hsub : (s.jobs.eraseP (·.application = a)).Sublist s.jobs := List.eraseP_sublist
    have hchild : job.process ∈ s.children := by
      refine hs.children.symm.subset (List.mem_append_left _ (List.mem_map_of_mem ?_))
      exact hsplit ▸ List.mem_append_right before List.mem_cons_self
    rw [if_pos hchild]
    refine ⟨hs.nodup.sublist (hsub.map _), fun job hjob => hs.started job (hsub.subset hjob), ?_, hs.processes,
      fun p hp => ?_, hs.ended, hs.once, hs.events, hs.applications⟩
    · -- the process of the job is one whose job has been removed
      show s.children.Perm ((s.jobs.eraseP (·.application = a)).map Job.process ++ (s.removed ++ [job.process]))
      refine hs.children.trans (List.perm_iff_count.2 fun x => ?_)
      rw [herase, hsplit]
      simp only [List.map_append, List.map_cons, List.count_append, List.count_cons, List.count_nil]
      omega
    · rcases List.mem_append.1 hp with hp | hp
      · exact List.mem_append_left _ (hs.told p hp)
      · exact List.mem_append_right _ hp

/-- What is left of the children that have ended is of other children. -/
theorem Sound.ended_erase (hs : s.Sound) (hended : (p, status) ∈ s.ended) :
    ∀ x ∈ s.ended.erase (p, status), x.1 ∈ s.children.erase p := by
  have hperm := List.perm_cons_erase hended
  have honce := (hperm.map Prod.fst).nodup_iff.1 hs.once
  rw [List.map_cons, List.nodup_cons] at honce
  intro x hx
  have hmem : x.1 ∈ (s.ended.erase (p, status)).map Prod.fst := List.mem_map_of_mem hx
  have hne : x.1 ≠ p := by
    intro heq
    rw [heq] at hmem
    exact honce.1 hmem
  exact (List.Nodup.mem_erase_iff hs.nodup_children).2 ⟨hne, hs.ended x (List.mem_of_mem_erase hx)⟩

/-- **A child is waited for.** There is an event if it has a job. -/
theorem Sound.wait (hs : s.Sound) (hended : (p, status) ∈ s.ended) : (s.wait p status).Sound := by
  have hchild : p ∈ s.children := hs.ended _ hended
  have hcount (x : ℕ) : s.children.count x = (p :: s.children.erase p).count x :=
    (List.perm_cons_erase hchild).count_eq x
  have hleft := hs.ended_erase hended
  have honce : ((s.ended.erase (p, status)).map Prod.fst).Nodup :=
    hs.once.sublist (List.erase_sublist.map _)
  have hprocesses : (s.children.erase p ++ (s.waited ++ [p])).Perm (List.range s.started.length) := by
    refine (List.perm_iff_count.2 fun x => ?_).trans hs.processes
    have hx := hcount x
    simp only [List.count_append, List.count_cons, List.count_nil] at hx ⊢
    omega
  rw [Jobs.wait]
  simp only
  split
  · next hfind =>
    have hremoved : p ∈ s.removed := by
      refine (List.mem_append.1 (hs.children.subset hchild)).resolve_left fun hmem => ?_
      obtain ⟨job, hjob, heq⟩ := List.mem_map.1 hmem
      exact absurd (List.find?_eq_none.1 hfind job hjob) (by simpa using heq)
    refine ⟨hs.nodup, hs.started, List.perm_iff_count.2 fun x => ?_, hprocesses,
      fun q hq => hs.told q (List.mem_of_mem_erase hq), hleft, honce, ?_, hs.applications⟩
    · have hx := hcount x
      have hx' := (List.perm_cons_erase hremoved).count_eq x
      have hall := hs.children.count_eq x
      simp only [List.count_append, List.count_cons] at hx hx' hall ⊢
      omega
    · show (s.events.map ProcessEvent.process ++ (s.silent ++ [p])).Perm (s.waited ++ [p])
      rw [← List.append_assoc]
      exact hs.events.append_right _
  · next job hfind =>
    obtain ⟨heq, before, after, hsplit, herase⟩ := split_of_find? hfind
    obtain rfl : job.process = p := by simpa using heq
    have hjob : job ∈ s.jobs := hsplit ▸ List.mem_append_right before List.mem_cons_self
    have hsub : (s.jobs.eraseP (·.process = job.process)).Sublist s.jobs := List.eraseP_sublist
    refine ⟨hs.nodup.sublist (hsub.map _), fun job hjob => hs.started job (hsub.subset hjob),
      List.perm_iff_count.2 fun x => ?_, hprocesses, hs.told, hleft, honce, List.perm_iff_count.2 fun x => ?_,
      fun e he => ?_⟩
    · have hx := hcount x
      have hall := hs.children.count_eq x
      rw [herase]
      rw [hsplit] at hall
      simp only [List.map_append, List.map_cons, List.count_append, List.count_cons] at hx hall ⊢
      omega
    · have hall := hs.events.count_eq x
      simp only [List.map_append, List.map_cons, List.map_nil, List.count_append] at hall ⊢
      omega
    · rcases List.mem_append.1 he with he | he
      · exact hs.applications e he
      · obtain rfl := List.mem_singleton.1 he
        exact hs.started job hjob

/-- What waiting for a child leaves as it is. -/
theorem wait_frame (s : Jobs) (p : ℕ) (status : ProcessStatus) :
    s.events ⊆ (s.wait p status).events ∧ (s.wait p status).told = s.told ∧
      (s.wait p status).started = s.started ∧ (s.wait p status).returned = s.returned := by
  rw [Jobs.wait]
  simp only
  split
  · exact ⟨List.Subset.refl _, rfl, rfl, rfl⟩
  · exact ⟨List.subset_append_left _ _, rfl, rfl, rfl⟩

theorem wait_jobs (s : Jobs) (p : ℕ) (status : ProcessStatus) : (s.wait p status).jobs ⊆ s.jobs := by
  rw [Jobs.wait]
  simp only
  split
  · exact List.Subset.refl _
  · exact List.eraseP_sublist.subset

/-! ### Removing jobs -/

/-- Removing a job changes nothing else but what its process is told. -/
theorem remove_eq (s : Jobs) (a : UInt64) : ∃ jobs removed told, s.remove a = { s with jobs, removed, told } := by
  rw [Jobs.remove]
  split
  · exact ⟨_, _, _, rfl⟩
  · exact ⟨_, _, _, rfl⟩

theorem Sound.mem_remove (hs : s.Sound) (a : UInt64) (job : Job) :
    job ∈ (s.remove a).jobs ↔ job ∈ s.jobs ∧ job.application ≠ a := by
  rw [Jobs.remove]
  split
  · next hfind =>
    refine ⟨fun hjob => ⟨hjob, ?_⟩, And.left⟩
    simpa using List.find?_eq_none.1 hfind job hjob
  · next job' hfind =>
    obtain ⟨heq, before, after, hsplit, herase⟩ := split_of_find? hfind
    obtain rfl : job'.application = a := by simpa using heq
    have hnodup := hs.nodup
    rw [hsplit, List.map_append, List.map_cons, List.nodup_middle, List.nodup_cons, ← List.map_append] at hnodup
    show job ∈ s.jobs.eraseP _ ↔ _
    rw [herase, hsplit]
    constructor
    · intro hjob
      refine ⟨?_, fun heq => hnodup.1 (heq ▸ List.mem_map_of_mem hjob)⟩
      exact (List.mem_append.1 hjob).elim (List.mem_append_left _) fun hjob =>
        List.mem_append_right _ (List.mem_cons_of_mem _ hjob)
    · rintro ⟨hjob, hne⟩
      rcases List.mem_append.1 hjob with hjob | hjob
      · exact List.mem_append_left _ hjob
      · exact List.mem_append_right _ ((List.mem_cons.1 hjob).resolve_left fun heq => hne (heq ▸ rfl))

/-- Who is told to terminate when a job is removed. -/
theorem Sound.told_remove (hs : s.Sound) (a : UInt64) :
    s.told ⊆ (s.remove a).told ∧
      (∀ p ∈ (s.remove a).told, p ∈ s.told ∨ s.started[p]? = some a) ∧
        ∀ job ∈ s.jobs, job.application = a → job.process ∈ (s.remove a).told := by
  rw [Jobs.remove]
  split
  · next hfind =>
    refine ⟨List.Subset.refl _, fun p hp => Or.inl hp, fun job hjob heq => ?_⟩
    exact absurd (List.find?_eq_none.1 hfind job hjob) (by simpa using heq)
  · next job' hfind =>
    obtain ⟨heq, before, after, hsplit, -⟩ := split_of_find? hfind
    obtain rfl : job'.application = a := by simpa using heq
    have hjob' : job' ∈ s.jobs := hsplit ▸ List.mem_append_right before List.mem_cons_self
    have hchild : job'.process ∈ s.children :=
      hs.children.symm.subset (List.mem_append_left _ (List.mem_map_of_mem hjob'))
    rw [if_pos hchild]
    refine ⟨fun p hp => List.mem_append_left _ hp, fun p hp => ?_, fun job hjob heq => ?_⟩
    · refine (List.mem_append.1 hp).imp id fun hp => ?_
      rw [List.mem_singleton.1 hp]
      exact hs.started job' hjob'
    · have hsame : job = job' := List.inj_on_of_nodup_map hs.nodup hjob hjob' heq
      exact List.mem_append_right _ (hsame ▸ List.mem_singleton_self _)

/-- **What removing some jobs does**: exactly the jobs of the applications are gone, and their processes and no others
have been told to terminate. -/
structure Removes (s : Jobs) (ids : List UInt64) (s' : Jobs) : Prop where
  /-- The jobs are fine. -/
  sound : s'.Sound
  /-- The jobs that are left. -/
  jobs : ∀ job, job ∈ s'.jobs ↔ job ∈ s.jobs ∧ job.application ∉ ids
  /-- Those who had been told are. -/
  told : s.told ⊆ s'.told
  /-- Those who have been told in addition. -/
  only : ∀ p ∈ s'.told, p ∈ s.told ∨ ∃ a ∈ ids, s.started[p]? = some a
  /-- They are the processes of the jobs. -/
  all : ∀ job ∈ s.jobs, job.application ∈ ids → job.process ∈ s'.told
  /-- No process is started. -/
  started : s'.started = s.started
  /-- There is no event. -/
  events : s'.events = s.events
  /-- No main kernel comes back. -/
  returned : s'.returned = s.returned

theorem Sound.removes (hs : s.Sound) (ids : List UInt64) : Removes s ids (s.removeAll ids) := by
  induction ids generalizing s with
  | nil =>
    refine ⟨hs, fun job => (and_iff_left List.not_mem_nil).symm, List.Subset.refl _, fun p hp => Or.inl hp,
      fun job _ h => absurd h List.not_mem_nil, rfl, rfl, rfl⟩
  | cons a ids ih =>
    have h := ih (hs.remove a)
    obtain ⟨htold, honly, hall⟩ := hs.told_remove a
    obtain ⟨jobs, removed, told, heq⟩ := remove_eq s a
    have hstarted : (s.remove a).started = s.started := by rw [heq]
    refine ⟨h.sound, fun job => ?_, fun p hp => h.told (htold hp), fun p hp => ?_, fun job hjob hmem => ?_,
      h.started.trans hstarted, h.events.trans (by rw [heq]), h.returned.trans (by rw [heq])⟩
    · rw [Jobs.removeAll, List.foldl_cons]
      refine (h.jobs job).trans ?_
      rw [hs.mem_remove, List.mem_cons, not_or, and_assoc]
    · rcases h.only p hp with hp | ⟨b, hb, hp⟩
      · exact (honly p hp).imp id fun hp => ⟨a, List.mem_cons_self, hp⟩
      · exact Or.inr ⟨b, List.mem_cons_of_mem a hb, hstarted ▸ hp⟩
    · by_cases hsame : job.application = a
      · exact h.told (hall job hjob hsame)
      · exact h.all job ((hs.mem_remove a job).2 ⟨hjob, hsame⟩) ((List.mem_cons.1 hmem).resolve_left hsame)

/-! ### Applications without jobs -/

/-- An application has no job as long as no more than some processes have been started for it. -/
def Gone (s : Jobs) (a : UInt64) (n : ℕ) : Prop :=
  n ≤ s.started.count a ∧ (s.started.count a = n → ∀ job ∈ s.jobs, job.application ≠ a)

theorem Gone.of_subset {s' : Jobs} {n : ℕ} (h : s.Gone a n) (hstarted : s'.started = s.started)
    (hjobs : s'.jobs ⊆ s.jobs) : s'.Gone a n := by
  rw [Gone, hstarted]
  exact ⟨h.1, fun hcount job hjob => h.2 hcount job (hjobs hjob)⟩

/-- A new job is of a process that has been started for it. -/
theorem Gone.doAdd {n : ℕ} (h : s.Gone a n) (b : UInt64) : (s.doAdd b).Gone a n := by
  have hcount : (s.doAdd b).started.count a = s.started.count a + if b = a then 1 else 0 := by
    show (s.started ++ [b]).count a = _
    rw [List.count_append, List.count_singleton]
    simp only [beq_iff_eq]
  rw [Gone, hcount]
  refine ⟨by have := h.1; omega, fun heq job hjob => ?_⟩
  have hne : b ≠ a := by
    intro hb
    rw [if_pos hb] at heq
    have := h.1
    omega
  rw [if_neg hne] at heq
  rw [Jobs.doAdd] at hjob
  simp only at hjob
  split at hjob
  · exact h.2 heq job hjob
  · rcases List.mem_append.1 hjob with hjob | hjob
    · exact h.2 heq job hjob
    · obtain rfl := List.mem_singleton.1 hjob
      exact hne

/-- The processes of an application without a job have been told to terminate or waited for. -/
theorem Sound.told_or_waited (hs : s.Sound) (hgone : ∀ job ∈ s.jobs, job.application ≠ a)
    (hp : s.started[p]? = some a) : p ∈ s.told ∨ p ∈ s.waited := by
  have hplace : p ∈ s.children ++ s.waited :=
    hs.processes.symm.subset (List.mem_range.2 (List.getElem?_eq_some_iff.1 hp).1)
  refine (List.mem_append.1 hplace).imp (fun hchild => hs.told p ?_) id
  refine (List.mem_append.1 (hs.children.subset hchild)).resolve_left fun hjob => ?_
  obtain ⟨job, hmem, rfl⟩ := List.mem_map.1 hjob
  have heq := hs.started job hmem
  rw [hp, Option.some.injEq] at heq
  exact hgone job hmem heq.symm

end Jobs

/-! ### Causes -/

namespace JobCluster

variable {ι : Type} [DecidableEq ι] {c c' : JobCluster ι} {i j : ι} {a : UInt64} {p : ℕ} {ids : List UInt64}

/-- There is a cause for an application to be terminated: a client has cancelled it, or one of its processes has
exited. -/
def HasCause (c : JobCluster ι) (a : UInt64) : Prop :=
  a ∈ c.cancelled ∨ ∃ j, ∃ e ∈ (c.daemons j).events, e.application = a ∧ e.status.isExited = true

/-- What holds of a cluster. -/
structure Sound (c : JobCluster ι) : Prop where
  /-- What holds of the jobs of every daemon. -/
  jobs : ∀ i, (c.daemons i).Sound
  /-- Terminate kernels have a cause. -/
  sent : ∀ ids ∈ c.sent, ∀ a ∈ ids, c.HasCause a
  /-- So have signals. -/
  told : ∀ i, ∀ p ∈ (c.daemons i).told, p ∈ (c.daemons i).returned ∨
    ∃ a, (c.daemons i).started[p]? = some a ∧ c.HasCause a

omit [DecidableEq ι] in
theorem sound_initial : ({} : JobCluster ι).Sound where
  jobs _ := Jobs.sound_initial
  sent _ h := absurd h List.not_mem_nil
  told _ _ h := absurd h List.not_mem_nil

omit [DecidableEq ι] in
/-- Causes stay. -/
theorem HasCause.mono (h : c.HasCause a) (hcancelled : c.cancelled ⊆ c'.cancelled)
    (hevents : ∀ j, (c.daemons j).events ⊆ (c'.daemons j).events) : c'.HasCause a := by
  rcases h with h | ⟨j, e, he, heq, hexited⟩
  · exact Or.inl (hcancelled h)
  · exact Or.inr ⟨j, e, hevents j he, heq, hexited⟩

/-- A cause stays when a daemon goes on and keeps its events. -/
theorem HasCause.set (h : c.HasCause a) {s : Jobs} {sent : List (List UInt64)}
    (hevents : s.events = (c.daemons i).events) : ({ c.set i s with sent } : JobCluster ι).HasCause a := by
  refine h.mono (List.Subset.refl _) fun j => ?_
  show _ ⊆ (Function.update c.daemons i s j).events
  rcases eq_or_ne j i with rfl | hne
  · rw [Function.update_self, hevents]
    exact List.Subset.refl _
  · rw [Function.update_of_ne hne]
    exact List.Subset.refl _

/-- **A daemon goes on**: what has to be known of the step. -/
theorem Sound.set (hc : c.Sound) {s : Jobs} {sent : List (List UInt64)} {cancelled : List UInt64} (hs : s.Sound)
    (hcancelled : c.cancelled ⊆ cancelled) (hevents : (c.daemons i).events ⊆ s.events)
    (hstarted : ∀ (p : ℕ) (a : UInt64), (c.daemons i).started[p]? = some a → s.started[p]? = some a)
    (hreturned : (c.daemons i).returned ⊆ s.returned)
    (hsent : ∀ ids ∈ sent, ids ∈ c.sent ∨ ∀ a ∈ ids, ({ c.set i s with sent, cancelled } : JobCluster ι).HasCause a)
    (htold : ∀ p ∈ s.told, p ∈ (c.daemons i).told ∨ p ∈ s.returned ∨
      ∃ a, s.started[p]? = some a ∧ ({ c.set i s with sent, cancelled } : JobCluster ι).HasCause a) :
    ({ c.set i s with sent, cancelled } : JobCluster ι).Sound := by
  have hmono {a : UInt64} (h : c.HasCause a) : ({ c.set i s with sent, cancelled } : JobCluster ι).HasCause a := by
    refine h.mono hcancelled fun j => ?_
    rcases eq_or_ne j i with rfl | hne
    · show _ ⊆ (Function.update c.daemons j s j).events
      rwa [Function.update_self]
    · show _ ⊆ (Function.update c.daemons i s j).events
      rw [Function.update_of_ne hne]
      exact List.Subset.refl _
  refine ⟨fun j => ?_, fun ids hids => ?_, fun j p hp => ?_⟩
  · show (Function.update c.daemons i s j).Sound
    rcases eq_or_ne j i with rfl | hne
    · rwa [Function.update_self]
    · rw [Function.update_of_ne hne]
      exact hc.jobs j
  · rcases hsent ids hids with hids | hcause
    · exact fun a ha => hmono (hc.sent ids hids a ha)
    · exact hcause
  · replace hp : p ∈ (Function.update c.daemons i s j).told := hp
    show p ∈ (Function.update c.daemons i s j).returned ∨ ∃ a, (Function.update c.daemons i s j).started[p]? = _ ∧ _
    rcases eq_or_ne j i with rfl | hne
    · rw [Function.update_self] at hp ⊢
      rcases htold p hp with hp | hp
      · rcases hc.told j p hp with hp | ⟨a, ha, hcause⟩
        · exact Or.inl (hreturned hp)
        · exact Or.inr ⟨a, hstarted p a ha, hmono hcause⟩
      · exact hp
    · rw [Function.update_of_ne hne] at hp ⊢
      exact (hc.told j p hp).imp id fun ⟨a, ha, hcause⟩ => ⟨a, ha, hmono hcause⟩

/-- Removing jobs for which there is a cause. -/
theorem Sound.removeAll (hc : c.Sound) {cancelled : List UInt64} (hcancelled : c.cancelled ⊆ cancelled)
    (hcause : ∀ a ∈ ids, ∀ s sent, s.events = (c.daemons i).events →
      ({ c.set i s with sent, cancelled } : JobCluster ι).HasCause a) :
    ({ c.set i ((c.daemons i).removeAll ids) with sent := c.sent ++ [ids], cancelled } : JobCluster ι).Sound := by
  have h := (hc.jobs i).removes ids
  refine hc.set h.sound hcancelled (h.events ▸ List.Subset.refl _) (fun p a ha => h.started ▸ ha)
    (h.returned ▸ List.Subset.refl _) (fun ids' hids' => ?_) fun p hp => ?_
  · refine (List.mem_append.1 hids').imp id fun hids' a ha => ?_
    obtain rfl := List.mem_singleton.1 hids'
    exact hcause a ha _ _ h.events
  · refine (h.only p hp).imp id fun ⟨a, ha, hp⟩ => Or.inr ⟨a, ?_, hcause a ha _ _ h.events⟩
    rwa [h.started]

theorem Sound.step (hc : c.Sound) (h : Step c c') : c'.Sound := by
  cases h with
  | @start i a ha =>
    have hs := (hc.jobs i).doAdd ha
    refine hc.set hs (List.Subset.refl _) (List.Subset.refl _) (fun p b hb => ?_)
      (List.Subset.refl _) (fun ids hids => Or.inl hids) fun p hp => Or.inl hp
    show ((c.daemons i).started ++ [a])[p]? = some b
    rw [List.getElem?_append_left (List.getElem?_eq_some_iff.1 hb).1, hb]
  | @finish i p status hp hnot =>
    exact hc.set ((hc.jobs i).finish hp hnot status) (List.Subset.refl _) (List.Subset.refl _) (fun _ _ ha => ha)
      (List.Subset.refl _) (fun ids hids => Or.inl hids) fun p hp => Or.inl hp
  | @wait i p status hended =>
    have hs := (hc.jobs i).wait hended
    obtain ⟨hevents, htold, hstarted, hreturned⟩ := Jobs.wait_frame (c.daemons i) p status
    exact hc.set hs (List.Subset.refl _) hevents (fun _ _ ha => hstarted ▸ ha) (hreturned ▸ List.Subset.refl _)
      (fun ids hids => Or.inl hids) fun p hp => Or.inl (htold ▸ hp)
  | @event i e he =>
    refine ⟨hc.jobs, fun ids hids => ?_, hc.told⟩
    replace hids : ids ∈ if e.status.isExited then c.sent ++ [[e.application]] else c.sent := hids
    split at hids
    · next hexited =>
      rcases List.mem_append.1 hids with hids | hids
      · exact hc.sent ids hids
      · intro a ha
        rw [List.mem_singleton.1 hids, List.mem_singleton] at ha
        exact Or.inr ⟨i, e, he, ha.symm, hexited⟩
    · exact hc.sent ids hids
  | @returned i p hp =>
    have hjobs := hc.jobs i
    refine hc.set ⟨hjobs.nodup, hjobs.started, hjobs.children, hjobs.processes,
      fun q hq => List.mem_append_left _ (hjobs.told q hq), hjobs.ended, hjobs.once, hjobs.events,
      hjobs.applications⟩ (List.Subset.refl _) (List.Subset.refl _) (fun _ _ ha => ha)
      (List.subset_append_left _ _) (fun ids hids => Or.inl hids) fun q hq => ?_
    exact (List.mem_append.1 hq).imp id fun hq => Or.inl (List.mem_append_right _ hq)
  | cancel i ids =>
    refine hc.removeAll (List.subset_append_left _ _) fun a ha s sent _ => ?_
    exact Or.inl (List.mem_append_right _ ha)
  | @terminate i ids hids =>
    refine hc.removeAll (List.Subset.refl _) fun a ha s sent hevents => ?_
    exact (hc.sent ids hids a ha).set hevents

theorem sound_of_reachable (h : (system ι).Reachable c) : c.Sound :=
  h.invariant (fun _ hc => hc ▸ sound_initial) fun _ _ hc hstep => hc.step hstep

/-- A daemon with a job. -/
def oneJob : JobCluster Unit := ({} : JobCluster Unit).set () (({} : Jobs).doAdd 7)

theorem reachable_oneJob : (system Unit).Reachable oneJob :=
  (System.Reachable.initial rfl).step (.start () fun _ h => absurd h List.not_mem_nil)

/-! ### What a cluster does with its processes -/

/-- **Every process is in one place**: it has the job of its application, or it has been told to terminate, or it has
been waited for. There is an event for a process exactly if it still had its job when it was waited for, one event for
each, and about its application. -/
theorem processes_placed (h : (system ι).Reachable c) (i : ι) :
    ((c.daemons i).jobs.map Job.application).Nodup ∧
    (∀ job ∈ (c.daemons i).jobs, (c.daemons i).started[job.process]? = some job.application) ∧
    ((c.daemons i).jobs.map Job.process ++ ((c.daemons i).removed ++ (c.daemons i).waited)).Perm
      (List.range (c.daemons i).started.length) ∧
    (c.daemons i).removed ⊆ (c.daemons i).told ∧
    ((c.daemons i).events.map ProcessEvent.process ++ (c.daemons i).silent).Perm (c.daemons i).waited ∧
    ∀ e ∈ (c.daemons i).events, (c.daemons i).started[e.process]? = some e.application := by
  have hs := (sound_of_reachable h).jobs i
  refine ⟨hs.nodup, hs.started, ?_, hs.told, hs.events, hs.applications⟩
  rw [← List.append_assoc]
  exact (hs.children.symm.append_right _).trans hs.processes

theorem processes_placed_oneJob : ((oneJob.cancel () [7]).daemons ()).removed = [0] ∧
    (((oneJob.cancel () [7]).daemons ()).jobs.map Job.process ++
      (((oneJob.cancel () [7]).daemons ()).removed ++ ((oneJob.cancel () [7]).daemons ()).waited)).Perm
      (List.range ((oneJob.cancel () [7]).daemons ()).started.length) :=
  ⟨by decide, (processes_placed (reachable_oneJob.step (.cancel () [7])) ()).2.2.1⟩

theorem gone_set {n : ℕ} {s : Jobs} (h : (c.daemons i).Gone a n) (hs : (c.daemons j).Gone a n → s.Gone a n) :
    ((c.set j s).daemons i).Gone a n := by
  show (Function.update c.daemons j s i).Gone a n
  rcases eq_or_ne i j with rfl | hne
  · rw [Function.update_self]
    exact hs h
  · rwa [Function.update_of_ne hne]

theorem gone_step {n : ℕ} (hc : c.Sound) (h : (c.daemons i).Gone a n) (hstep : Step c c') :
    (c'.daemons i).Gone a n := by
  have hremoves (j : ι) (ids : List UInt64) (hj : (c.daemons j).Gone a n) :
      ((c.daemons j).removeAll ids).Gone a n := by
    have hremoves := (hc.jobs j).removes ids
    exact hj.of_subset hremoves.started fun job hjob => ((hremoves.jobs job).1 hjob).1
  cases hstep with
  | @start j b _ => exact gone_set h fun hj => hj.doAdd b
  | @finish j p status _ _ => exact gone_set h fun hj => hj.of_subset rfl (List.Subset.refl _)
  | @wait j p status _ =>
    exact gone_set h fun hj => hj.of_subset (Jobs.wait_frame _ p status).2.2.1 (Jobs.wait_jobs _ p status)
  | event _ => exact h
  | @returned j p _ => exact gone_set h fun hj => hj.of_subset rfl (List.Subset.refl _)
  | cancel j ids => exact gone_set h (hremoves j ids)
  | @terminate j ids _ => exact gone_set h (hremoves j ids)

/-- **Exactly the jobs of the applications are removed** when a daemon executes a terminate kernel or a client cancels
them, at any time. From then on, whatever happens, all processes of such an application have been told to terminate or
waited for, until the daemon starts a new one. -/
theorem terminated_for_good {c₁ : JobCluster ι} (h : (system ι).Reachable c)
    (hstep : ids ∈ c.sent ∧ c₁ = c.terminate i ids ∨ c₁ = c.cancel i ids) :
    (∀ job, job ∈ (c₁.daemons i).jobs ↔ job ∈ (c.daemons i).jobs ∧ job.application ∉ ids) ∧
    ∀ c' a, Relation.ReflTransGen Step c₁ c' → a ∈ ids →
      (c'.daemons i).started.count a = (c.daemons i).started.count a →
      (∀ job ∈ (c'.daemons i).jobs, job.application ≠ a) ∧
      ∀ p, (c'.daemons i).started[p]? = some a → p ∈ (c'.daemons i).told ∨ p ∈ (c'.daemons i).waited := by
  have hremoves := ((sound_of_reachable h).jobs i).removes ids
  have hset : (c.set i ((c.daemons i).removeAll ids)).daemons i = (c.daemons i).removeAll ids :=
    Function.update_self ..
  have hdaemon : c₁.daemons i = (c.daemons i).removeAll ids := by
    rcases hstep with ⟨-, rfl⟩ | rfl
    · exact hset
    · exact hset
  have hreach : (system ι).Reachable c₁ := by
    rcases hstep with ⟨hids, rfl⟩ | rfl
    · exact h.step (.terminate i hids)
    · exact h.step (.cancel i ids)
  refine ⟨fun job => hdaemon ▸ hremoves.jobs job, fun c' a hrun ha hcount => ?_⟩
  have hgone : (c₁.daemons i).Gone a ((c.daemons i).started.count a) := by
    rw [hdaemon, Jobs.Gone, hremoves.started]
    exact ⟨le_rfl, fun _ job hjob heq => ((hremoves.jobs job).1 hjob).2 (heq ▸ ha)⟩
  -- by induction on the run
  have hall : (c'.daemons i).Gone a ((c.daemons i).started.count a) ∧ c'.Sound := by
    clear hcount
    induction hrun with
    | refl => exact ⟨hgone, sound_of_reachable hreach⟩
    | tail _ hstep ih => exact ⟨gone_step ih.2 ih.1 hstep, ih.2.step hstep⟩
  have hjobs := hall.1.2 hcount
  exact ⟨hjobs, fun p hp => (hall.2.jobs i).told_or_waited hjobs hp⟩

theorem terminated_for_good_oneJob : (∀ job ∈ ((oneJob.cancel () [7]).daemons ()).jobs, job.application ≠ 7) ∧
    ∀ p, ((oneJob.cancel () [7]).daemons ()).started[p]? = some 7 →
      p ∈ ((oneJob.cancel () [7]).daemons ()).told ∨ p ∈ ((oneJob.cancel () [7]).daemons ()).waited :=
  (terminated_for_good reachable_oneJob (.inr rfl)).2 _ 7 .refl (by decide) (by decide)

end JobCluster

end Subordination.Daemon
