import Subordination.Daemon.ProcessPipeline

/-!
# Queued kernels

What becomes of the kernels in the two queues of the process pipeline (`daemon/process_pipeline.cc`).

## The model

An exception that leaves `process_kernels` ends the process, since the thread that runs it must not throw. A kernel that
is broadcast is for all jobs that there are; it is lost if there are none. No kernel is returned to its parent.

## What is proved

* `ProcessPipeline.takes_iff` — when a kernel that passes the capacity test is handed to its job.
* `ProcessPipeline.processKernels_conserves` — `process_kernels` keeps or hands on all kernels as long as those that
  pass the test can be handed over at their turns.
-/

namespace Subordination.Daemon

open Subordination.Core Subordination.Library
open Subordination.Core.Resources (Trap)

namespace ProcessPipeline

variable {P : Type}

/-! ### Jobs -/

/-- The job with the given id runs, or it is that of the given application, which can be started. -/
def Available (p : ProcessPipeline P) (executes : Application → Bool) (id : UInt64) (app : Option Application) : Prop :=
  id ∈ p.jobs ∨ ∃ a, app = some a ∧ (p.allowRoot = true ∨ a.uid ≠ 0 ∧ a.gid ≠ 0) ∧ executes a = true

/-- The kernel is for all jobs. -/
def ForAll (k : Kernel P) : Prop := k.isNative = true ∧ k.phase = .broadcast

instance (k : Kernel P) : Decidable (ForAll k) := inferInstanceAs (Decidable (_ ∧ _))

/-- A kernel that passes the capacity test can be handed to its job: to all jobs, if it is broadcast, none of which but
the last one may keep it; and a kernel that goes to a job to come back needs a parent. -/
def Takes (p : ProcessPipeline P) (executes : Application → Bool) (k : Kernel P) : Prop :=
  if ForAll k then p.jobs.entries ≠ [] ∧ (k.principalId p.memory = 0 ∨ p.jobs.entries.length ≤ 1)
  else if k.isNative then
    p.Available executes k.targetApplicationId (sendApplication k) ∧
      (k.phase = .upstream ∨ k.phase = .pointToPoint → k.parent ≠ 0)
  else p.Available executes k.targetApplicationId (forwardApplication k)

/-- What is handed to the jobs with a kernel. -/
def handings (p : ProcessPipeline P) (k : Kernel P) : List (UInt64 × Kernel P) :=
  if ForAll k then p.jobs.entries.map fun job => (job.1, k) else [(k.targetApplicationId, k)]

/-- The kernel has been handed to its job, or to all jobs. -/
def Hands (p : ProcessPipeline P) (k : Kernel P) (p' : ProcessPipeline P) : Prop :=
  p'.passed = p.passed ++ p.handings k ∧ p.handings k ≠ []

section Taking

variable [ByteOrder] {proc : Process P} {ppl : BasicSocketPipeline} {executes : Application → Bool}
  {p p' p₁ : ProcessPipeline P} {load load' : WeightArray} {k : Kernel P}

omit [ByteOrder] in
theorem doAdd_iff {app : Application} : (∃ p', p.doAdd executes app = .ok p') ↔
    (p.allowRoot = true ∨ app.uid ≠ 0 ∧ app.gid ≠ 0) ∧ executes app = true := by
  have hroot : (p.allowRoot = true ∨ app.uid ≠ 0 ∧ app.gid ≠ 0) ↔
      ¬(¬p.allowRoot = true ∧ (app.uid = 0 ∨ app.gid = 0)) := by
    rw [not_and_or, not_not, not_or]
  rw [hroot]
  unfold doAdd
  split_ifs with hdisallowed hexecutes hmem
  · exact iff_of_false (by simp) fun h => h.1 hdisallowed
  · exact iff_of_true ⟨p, rfl⟩ ⟨hdisallowed, hexecutes⟩
  · exact iff_of_true ⟨_, rfl⟩ ⟨hdisallowed, hexecutes⟩
  · exact iff_of_false (by simp) fun h => hexecutes h.2

omit [ByteOrder] in
/-- A job is found or started if it is available, and nothing has been passed to it. -/
theorem findOrAdd_iff {id : UInt64} {app : Option Application} :
    (∃ outcome, p.findOrAdd executes id app = .ok outcome) ↔ p.Available executes id app := by
  unfold findOrAdd Available
  cases hjob : p.jobs.lookup id with
  | some job =>
    have hmem : id ∈ p.jobs := AList.lookup_isSome.mp (by simp [hjob])
    simp [hmem]
  | none =>
    have hmem : id ∉ p.jobs := AList.lookup_eq_none.mp hjob
    cases app with
    | none => simp [hmem]
    | some a =>
      simp only [hmem, false_or, Option.some.injEq, exists_eq_left', ← doAdd_iff]
      cases p.doAdd executes a with
      | error x => simp [Functor.map, Except.map]
      | ok p₁ => simp [Functor.map, Except.map]

variable (proc ppl) in
/-- What is forwarded is passed to its job if that is available. -/
theorem doForward_iff : (∃ p', p.doForward proc ppl executes k = .ok p' ∧ p.Passes k p') ↔
    p.Available executes k.targetApplicationId (forwardApplication k) := by
  rw [← findOrAdd_iff]
  constructor
  · rintro ⟨p', h, -⟩
    obtain ⟨p₁, job, left, hjob, -⟩ := doForward_ok h
    exact ⟨_, hjob⟩
  · rintro ⟨⟨p₁, job⟩, hjob⟩
    refine ⟨(p₁.pass k.targetApplicationId k ((p₁.endpoint job).doForward proc ppl (trimmed k)).1).giveBack
      k.targetApplicationId ((p₁.endpoint job).doForward proc ppl (trimmed k)).2, ?_, ?_⟩
    · unfold doForward
      rw [hjob]
      rfl
    · rw [Passes, ← passed_findOrAdd hjob]
      rfl

variable (proc ppl) in
/-- A kernel can be sent if it has a parent, or does not come back. -/
theorem send_iff (e : Endpoint P) : (∃ outcome, e.send proc ppl k = some outcome) ↔
    (k.phase = .upstream ∨ k.phase = .pointToPoint → k.parent ≠ 0) := by
  unfold Endpoint.send Endpoint.prepare
  split_ifs with hphase hparent
  · simp [hphase, hparent]
  · simp [hparent]
  · simp [hphase]

/-- What is sent is passed to its job if that is available and the kernel can be sent. -/
theorem processKernel_iff (hphase : k.phase ≠ .broadcast) :
    (∃ p', p.processKernel proc ppl executes k = .ok p' ∧ p.Passes k p') ↔
      p.Available executes k.targetApplicationId (sendApplication k) ∧
        (k.phase = .upstream ∨ k.phase = .pointToPoint → k.parent ≠ 0) := by
  rw [← findOrAdd_iff]
  constructor
  · rintro ⟨p', h, -⟩
    obtain ⟨p₁, job, e, left, hjob, hsend, -⟩ := processKernel_ok hphase h
    exact ⟨⟨_, hjob⟩, (send_iff proc ppl _).mp ⟨_, hsend⟩⟩
  · rintro ⟨⟨⟨p₁, job⟩, hjob⟩, hparent⟩
    obtain ⟨⟨e, left⟩, hsend⟩ := (send_iff proc ppl (p₁.endpoint job)).mpr hparent
    refine ⟨p₁.pass k.targetApplicationId k e, ?_, ?_⟩
    · unfold processKernel
      simp only [if_neg hphase, hjob, hsend]
    · rw [Passes, ← passed_findOrAdd hjob]
      rfl

variable (proc ppl) in
/-- A job leaves a broadcast kernel to the next one if the kernel has no principal; the memory stays as it is. -/
theorem send_broadcast (e : Endpoint P) (hphase : k.phase = .broadcast) : ∃ e' left,
    e.send proc ppl k = some (e', left) ∧ e'.memory = e.memory ∧
      (left.isSome = true ↔ k.principalId e.memory = 0) := by
  obtain ⟨b, load, log, k', houtcome, hforward⟩ := e.doForward_eq proc ppl k
  have hplan := Endpoint.plan_of_broadcast (e := e) hphase
  -- a broadcast is not recorded
  obtain rfl : k' = some k := by
    cases houtcome with
    | kept => rfl
    | lost status _ hstatus =>
      rw [hplan] at hstatus
      cases hstatus
  rw [e.send_of_broadcast proc ppl hphase, hforward, hplan]
  split_ifs with hprincipal
  · exact ⟨_, some k, rfl, rfl, by simpa using hprincipal⟩
  · exact ⟨_, none, rfl, rfl, by simp [hprincipal]⟩

/-- A broadcast ends if the kernel has no principal, or there is one job at most. -/
theorem broadcast_iff (hphase : k.phase = .broadcast) {jobs : List (Sigma fun _ : UInt64 => Connection P)} :
    (∃ p', broadcast proc ppl k jobs p = .ok p' ∧ p'.passed = p.passed ++ jobs.map fun job => (job.1, k)) ↔
      k.principalId p.memory = 0 ∨ jobs.length ≤ 1 := by
  induction jobs generalizing p with
  | nil => simp [broadcast]
  | cons job rest ih =>
    obtain ⟨e, left, hsend, hmemory, hleft⟩ := send_broadcast proc ppl (p.endpoint job.2) hphase
    have hmemory' : (p.pass job.1 k e).memory = p.memory := hmemory
    have hleft' : left.isSome = true ↔ k.principalId p.memory = 0 := hleft
    simp only [broadcast, hsend]
    by_cases hprincipal : k.principalId p.memory = 0
    · have hrest := (ih (p := p.pass job.1 k e)).mpr (Or.inl (hmemory' ▸ hprincipal))
      obtain ⟨p', hok, hpassed⟩ := hrest
      simp only [hprincipal, true_or, iff_true]
      refine ⟨p', by rw [if_pos (Or.inl (hleft'.mpr hprincipal)), hok], ?_⟩
      rw [hpassed]
      simp [pass]
    · cases rest with
      | nil => simp [broadcast, pass]
      | cons job' rest => simp [hleft', hprincipal]

theorem passed_broadcast {jobs : List (Sigma fun _ : UInt64 => Connection P)}
    (h : broadcast proc ppl k jobs p = .ok p') : p'.passed = p.passed ++ jobs.map fun job => (job.1, k) := by
  induction jobs generalizing p with
  | nil =>
    cases h
    exact (List.append_nil _).symm
  | cons job rest ih =>
    unfold broadcast at h
    split at h
    · cases h
    · split at h
      · rw [ih h, pass, List.map_cons, List.append_assoc]
        rfl
      · cases h

omit [ByteOrder] in
theorem hands_iff_passes (hall : ¬ForAll k) : p.Hands k p' ↔ p.Passes k p' := by
  simp [Hands, Passes, handings, hall]

variable (proc ppl) in
/-- **When a kernel that passes the capacity test is handed over**: to its job, or to all jobs. -/
theorem takes_iff : (∃ p', p.take proc ppl executes k = .ok p' ∧ p.Hands k p') ↔ p.Takes executes k := by
  unfold take Takes
  by_cases hall : ForAll k
  · rw [if_pos hall, if_pos hall.1]
    unfold processKernel Hands
    rw [if_pos hall.2, ← broadcast_iff (p := p) hall.2]
    simp only [handings, if_pos hall, ne_eq, List.map_eq_nil_iff]
    constructor
    · rintro ⟨p', hok, hpassed, hne⟩
      exact ⟨hne, p', hok, hpassed⟩
    · rintro ⟨hne, p', hok, hpassed⟩
      exact ⟨p', hok, hpassed, hne⟩
  · simp only [if_neg hall, hands_iff_passes hall]
    cases hnative : k.isNative with
    | true =>
      have hphase : k.phase ≠ .broadcast := fun h => hall ⟨hnative, h⟩
      exact processKernel_iff hphase
    | false =>
      simp only [Bool.false_eq_true, if_false, ← doForward_iff proc ppl]
      cases p.doForward proc ppl executes k <;> simp [Except.mapError]

/-- What is passed with a kernel that passes the test, if nothing throws. -/
theorem passed_of_take (h : p.take proc ppl executes k = .ok p') : p'.passed = p.passed ++ p.handings k := by
  unfold take at h
  unfold handings
  by_cases hall : ForAll k
  · rw [if_pos hall.1, processKernel, if_pos hall.2] at h
    rw [if_pos hall]
    exact passed_broadcast h
  · rw [if_neg hall]
    split at h
    · next hnative =>
      obtain ⟨p₁, job, e, left, hjob, -, rfl⟩ := processKernel_ok (fun hphase => hall ⟨hnative, hphase⟩) h
      rw [← passed_findOrAdd hjob]
      rfl
    · cases hforward : p.doForward proc ppl executes k with
      | error x =>
        rw [hforward] at h
        cases h
      | ok p₁ =>
        rw [hforward] at h
        cases h
        obtain ⟨p₂, job, left, hjob, rfl⟩ := doForward_ok hforward
        rw [← passed_findOrAdd hjob]
        rfl

/-! ### The loop -/

/-- In a loop over some kernels the turn of the kernel comes with the given pipeline and `current_load`. -/
def TurnOf (proc : Process P) (ppl : BasicSocketPipeline) (executes : Application → Bool) (p : ProcessPipeline P)
    (load : WeightArray) (ks : List (Kernel P)) (k : Kernel P) (p₁ : ProcessPipeline P) (load₁ : WeightArray) : Prop :=
  ∃ before after left, ks = before ++ k :: after ∧
    p.doProcessKernels proc ppl executes load before = .ok (p₁, load₁, left)

/-- The first turn, and then those of the others. -/
theorem turnOf_head (rest : List (Kernel P)) : TurnOf proc ppl executes p load (k :: rest) k p load :=
  ⟨[], rest, [], rfl, rfl⟩

theorem doProcessKernels_of_turn {rest left left' : List (Kernel P)} {p₂ : ProcessPipeline P} {load₂ : WeightArray}
    (hturn : p.turn proc ppl executes load k = .ok (p₁, load', left))
    (hrest : p₁.doProcessKernels proc ppl executes load' rest = .ok (p₂, load₂, left')) :
    p.doProcessKernels proc ppl executes load (k :: rest) = .ok (p₂, load₂, left ++ left') := by
  unfold doProcessKernels
  rw [hturn]
  change (p₁.doProcessKernels proc ppl executes load' rest >>= _) = _
  rw [hrest]
  rfl

theorem turnOf_tail {rest left : List (Kernel P)} {k' : Kernel P} {p₂ : ProcessPipeline P} {load₂ : WeightArray}
    (hturn : p.turn proc ppl executes load k = .ok (p₁, load', left))
    (h : TurnOf proc ppl executes p₁ load' rest k' p₂ load₂) :
    TurnOf proc ppl executes p load (k :: rest) k' p₂ load₂ := by
  obtain ⟨before, after, left', rfl, hbefore⟩ := h
  exact ⟨k :: before, after, _, rfl, doProcessKernels_of_turn hturn hbefore⟩

variable (proc ppl) in
/-- What a turn comes to if the kernel can be handed over in case it passes the test: it is kept, or handed over. -/
theorem turn_of_takes (h : p.admits (load.add k.weights) = true → p.Takes executes k) :
    p.turn proc ppl executes load k = .ok (p, load, [k]) ∨
      ∃ p₁, p.turn proc ppl executes load k = .ok (p₁, load.add k.weights, []) ∧ p.Hands k p₁ := by
  unfold turn
  cases hadmits : p.admits (load.add k.weights) with
  | true =>
    obtain ⟨p₁, htake, hhands⟩ := (takes_iff proc ppl).mpr (h hadmits)
    exact Or.inr ⟨p₁, by rw [if_pos rfl, htake]; rfl, hhands⟩
  | false => exact Or.inl (by rw [if_neg Bool.false_ne_true])

/-- What has become of a kernel: what has been handed to jobs with it, and nothing if it has been kept. -/
abbrev Fate (P : Type) := Kernel P × List (UInt64 × Kernel P)

/-- The kernels that have been kept. -/
def kept (run : List (Fate P)) : List (Kernel P) := (run.filter (·.2.isEmpty)).map Prod.fst

omit [ByteOrder] in
/-- They are in their order. -/
theorem kept_sublist (run : List (Fate P)) : (kept run).Sublist (run.map Prod.fst) :=
  List.filter_sublist.map Prod.fst

/-- **The loop keeps a kernel or hands it over**, one after another, if those that pass the test can be handed over. -/
theorem doProcessKernels_run {ks : List (Kernel P)} (h : ∀ k p₁ load₁, TurnOf proc ppl executes p load ks k p₁ load₁ →
      p₁.admits (load₁.add k.weights) = true → p₁.Takes executes k) :
    ∃ p' load' run, p.doProcessKernels proc ppl executes load ks = .ok (p', load', kept run) ∧
      run.map Prod.fst = ks ∧ p'.passed = p.passed ++ run.flatMap Prod.snd ∧
      ∀ fate ∈ run, fate.2 = [] ∨
        ∃ p₁ load₁, TurnOf proc ppl executes p load ks fate.1 p₁ load₁ ∧ fate.2 = p₁.handings fate.1 := by
  induction ks generalizing p load with
  | nil => exact ⟨p, load, [], rfl, rfl, by simp, by simp⟩
  | cons k rest ih =>
    rcases turn_of_takes proc ppl (h k p load (turnOf_head rest)) with hturn | ⟨p₁, hturn, hhands⟩
    · obtain ⟨p', load', run, hrest, hks, hpassed, hfates⟩ :=
        ih fun k' p₂ load₂ hk' => h k' p₂ load₂ (turnOf_tail hturn hk')
      refine ⟨p', load', (k, []) :: run, ?_, by simp [hks], by simp [hpassed], ?_⟩
      · exact (doProcessKernels_of_turn hturn hrest).trans (by simp [kept])
      · refine List.forall_mem_cons.mpr ⟨Or.inl rfl, fun fate hfate => (hfates fate hfate).imp_right ?_⟩
        rintro ⟨p₂, load₂, hk', hfate'⟩
        exact ⟨p₂, load₂, turnOf_tail hturn hk', hfate'⟩
    · obtain ⟨p', load', run, hrest, hks, hpassed, hfates⟩ :=
        ih fun k' p₂ load₂ hk' => h k' p₂ load₂ (turnOf_tail hturn hk')
      refine ⟨p', load', (k, p.handings k) :: run, ?_, by simp [hks], ?_, ?_⟩
      · exact (doProcessKernels_of_turn hturn hrest).trans (by simp [kept, hhands.2])
      · rw [hpassed, hhands.1]
        simp
      · refine List.forall_mem_cons.mpr ⟨Or.inr ⟨p, load, turnOf_head rest, rfl⟩, fun fate hfate => ?_⟩
        refine (hfates fate hfate).imp_right ?_
        rintro ⟨p₂, load₂, hk', hfate'⟩
        exact ⟨p₂, load₂, turnOf_tail hturn hk', hfate'⟩

/-! ### Conservation -/

variable (proc ppl executes) in
/-- Each kernel is kept in its queue or handed to its job, or to all jobs, at its turn; none is lost, and those that are
kept are in their order. -/
structure Conserves (p p' : ProcessPipeline P) : Prop where
  /-- A turn keeps the kernel and nothing else changes, or hands it over. -/
  turns : ∀ k p₁ load₁, Turn proc ppl executes p k p₁ load₁ →
    p₁.turn proc ppl executes load₁ k = .ok (p₁, load₁, [k]) ∨
      ∃ p₂ load₂, p₁.turn proc ppl executes load₁ k = .ok (p₂, load₂, []) ∧ p₁.Hands k p₂
  /-- The kernels that are kept are in their order. -/
  sublist : p'.kernels.Sublist p.kernels ∧ p'.outstandingKernels.Sublist p.outstandingKernels
  /-- Every kernel of the queues has been kept or handed over, and no other has. -/
  fates : ∃ run run' : List (Fate P), run.map Prod.fst = p.kernels ∧ run'.map Prod.fst = p.outstandingKernels ∧
    p'.kernels = kept run ∧ p'.outstandingKernels = kept run' ∧
    p'.passed = p.passed ++ (run ++ run').flatMap Prod.snd ∧
    ∀ fate ∈ run ++ run', fate.2 = [] ∨
      ∃ p₁ load₁, Turn proc ppl executes p fate.1 p₁ load₁ ∧ fate.2 = p₁.handings fate.1

/-- `process_kernels` does not throw, and keeps or hands on all kernels, if every kernel that passes the test at
its turn can be handed over then. -/
theorem processKernels_conserves (proc : Process P) (ppl : BasicSocketPipeline) (executes : Application → Bool)
    (p : ProcessPipeline P) :
    (∃ p', p.processKernels proc ppl executes = .ok p' ∧ p.Conserves proc ppl executes p') ↔
      ∀ k p₁ load₁, Turn proc ppl executes p k p₁ load₁ → p₁.admits (load₁.add k.weights) = true →
        p₁.Takes executes k := by
  constructor
  · rintro ⟨p', -, hconserves⟩ k p₁ load₁ hturn hadmits
    rcases hconserves.turns k p₁ load₁ hturn with hkept | ⟨p₂, load₂, hok, hhands⟩
    · rcases turn_ok hkept with ⟨-, -, -, hnil⟩ | ⟨hnot, -⟩
      · exact absurd hnil (List.cons_ne_nil k [])
      · exact absurd hadmits (by simp [hnot])
    · rcases turn_ok hok with ⟨-, htake, -, -⟩ | ⟨hnot, -⟩
      · exact (takes_iff proc ppl).mp ⟨p₂, htake, hhands⟩
      · exact absurd hadmits (by simp [hnot])
  · intro h
    obtain ⟨p₀, load₀, run, hfirst, hks, hpassed, hfates⟩ := doProcessKernels_run
      fun k p₁ load₁ ⟨before, after, left, hsplit, hbefore⟩ => h k p₁ load₁ (.kernels hsplit hbefore)
    obtain ⟨p₁, load₁, run', hsecond, hks', hpassed', hfates'⟩ := doProcessKernels_run
      fun k p₁ load₁ ⟨before, after, left, hsplit, hbefore⟩ => h k p₁ load₁ (.outstanding hsplit hfirst hbefore)
    refine ⟨{ p₁ with kernels := kept run, outstandingKernels := kept run' }, ?_, ?_, ?_, run, run', hks, hks', rfl,
      rfl, ?_, ?_⟩
    · unfold processKernels
      rw [hfirst]
      change (p₀.doProcessKernels proc ppl executes load₀ p.outstandingKernels >>= _) = _
      rw [hsecond]
      rfl
    · intro k q load hturn
      exact (turn_of_takes proc ppl (h k q load hturn)).imp_right fun ⟨q', hok, hhands⟩ => ⟨q', _, hok, hhands⟩
    · exact ⟨hks ▸ kept_sublist run, hks' ▸ kept_sublist run'⟩
    · simp [hpassed', hpassed]
    · intro fate hfate
      rcases List.mem_append.mp hfate with hfate | hfate
      · refine (hfates fate hfate).imp_right ?_
        rintro ⟨q, load, ⟨before, after, left, hsplit, hbefore⟩, hhandings⟩
        exact ⟨q, load, .kernels hsplit hbefore, hhandings⟩
      · refine (hfates' fate hfate).imp_right ?_
        rintro ⟨q, load, ⟨before, after, left, hsplit, hbefore⟩, hhandings⟩
        exact ⟨q, load, .outstanding hsplit hfirst hbefore, hhandings⟩

end Taking

end ProcessPipeline

end Subordination.Daemon
