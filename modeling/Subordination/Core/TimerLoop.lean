import Subordination.Core.Connection
import Subordination.Library.System
import Mathlib.Data.List.MinMax

/-!
# The timer loop

The thread of the parallel pipeline that executes kernels at their time (`core/parallel_pipeline.hh`,
`core/parallel_pipeline.cc`).

## The model

The loop is taken apart at its conditions: each reads the clock anew, and the clock may advance in between. The
lock is held from one wait to the next and while a kernel is taken; meanwhile no kernel is sent. A wait may end at
any time. Which of the kernels of the earliest time is on top of the queue is not known. The pointer on top is
moved out of the queue before `pop`, which takes the top away and compares the others only. What has been sent and
what has been executed is kept.

## What is proved

* `TimerLoop.timely` — no kernel is executed before its time, the one that is taken is one of the earliest, each is
  executed once or is still there, and the one that has been taken is executed next.
* `TimerLoop.exists_run` — the loop gets on until it ends.
-/

namespace Subordination.Core

open Library

namespace TimerLoop

variable {P : Type}

/-! ### The queue -/

/-- `at()`: the ticks since the epoch, or until then. -/
def timePoint (k : Kernel P) : ℤ := k.atTime.toBitVec.toInt

/-- `compare_time`. -/
def compareTime (a b : Kernel P) : Bool := timePoint a > timePoint b

/-- The kernel may be on top of the queue: no other one has to come before it. -/
def isTop (queue : List (Kernel P)) (k : Kernel P) : Bool := queue.all fun k' => !compareTime k k'

/-- `top()`, as far as its time is looked at. -/
def top (queue : List (Kernel P)) : Option (Kernel P) := queue.find? (isTop queue)

/-- `!queue.empty() && queue.top()->at() <= clock_type::now()`. -/
def due (queue : List (Kernel P)) (now : ℤ) : Bool :=
  match top queue with
  | none => false
  | some k => timePoint k ≤ now

variable {queue : List (Kernel P)} {k : Kernel P}

@[simp] theorem isTop_iff : isTop queue k = true ↔ ∀ k' ∈ queue, timePoint k ≤ timePoint k' := by
  simp [isTop, compareTime]

/-- A queue that is not empty has a top. -/
theorem exists_top (h : queue ≠ []) : ∃ k, top queue = some k := by
  obtain ⟨k, hk⟩ := Option.ne_none_iff_exists'.mp (mt (List.argmin_eq_none (f := timePoint)).mp h)
  have htop : isTop queue k = true := isTop_iff.mpr fun k' hk' => List.le_of_mem_argmin hk' hk
  exact Option.isSome_iff_exists.mp (List.find?_isSome.mpr ⟨k, List.argmin_mem hk, htop⟩)

/-- Whatever kernel is on top, it is due or not. -/
theorem due_of_isTop {now : ℤ} (hk : k ∈ queue) (htop : isTop queue k = true) :
    due queue now = true ↔ timePoint k ≤ now := by
  obtain ⟨k', hk'⟩ := exists_top (List.ne_nil_of_mem hk)
  have hle := isTop_iff.mp htop k' (List.mem_of_find?_eq_some hk')
  have hge := isTop_iff.mp (List.find?_some hk') k hk
  simp only [due, hk', decide_eq_true_eq]
  omega

/-- If something is due, there is something to take. -/
theorem exists_due {now : ℤ} (h : due queue now = true) :
    ∃ (i : ℕ) (k : Kernel P), queue[i]? = some k ∧ isTop queue k = true := by
  cases htop : top queue with
  | none => simp [due, htop] at h
  | some k =>
    obtain ⟨i, hi, rfl⟩ := List.mem_iff_getElem.mp (List.mem_of_find?_eq_some htop)
    exact ⟨i, _, List.getElem?_eq_getElem hi, List.find?_some htop⟩

/-! ### The loop -/

/-- A kernel that has been taken: what was left in the queue, and what the clock said. -/
structure Taking (P : Type) where
  /-- The kernel. -/
  k : Kernel P
  /-- The queue after `pop`. -/
  others : List (Kernel P)
  /-- `clock_type::now()`. -/
  now : ℤ

/-- A kernel that has been executed, and when. -/
structure Execution (P : Type) extends Taking P where
  /-- What the clock said when `process_kernel` was called. -/
  time : ℤ

/-- Where the thread is. -/
inductive Place (P : Type) where
  /-- It has not started yet. -/
  | unstarted
  /-- At the condition of the outer loop. -/
  | outer
  /-- At the condition of the inner loop. -/
  | inner
  /-- In `wait_until`. -/
  | waiting (t : Option ℤ)
  /-- At the condition after the inner loop. -/
  | check
  /-- Before `process_kernel`. -/
  | taken (t : Taking P)
  /-- In `process_kernel`. -/
  | executing
  /-- The loop has ended. -/
  | ended

/-- The thread holds the lock. -/
def Place.locks : Place P → Bool
  | outer | inner | check => true
  | _ => false

/-- The kernel that the thread has in its hands, if it has not executed it yet. -/
def Place.kernels : Place P → List (Kernel P)
  | taken t => [t.k]
  | _ => []

/-- The part of `parallel_pipeline` that the thread looks at, and what has happened. -/
structure State (P : Type) where
  /-- `_timer_kernels`. -/
  timerKernels : List (Kernel P) := []
  /-- `stopping()`. -/
  stopping : Bool := false
  /-- The clock. -/
  now : ℤ
  /-- The thread. -/
  thread : Place P := .unstarted
  /-- The kernels that have been sent. -/
  sent : List (Kernel P) := []
  /-- The kernels that have been executed. -/
  executed : List (Execution P) := []

/-- What happens. -/
inductive Event (P : Type) where
  /-- A kernel is sent. -/
  | sendTimer (k : Kernel P)
  /-- The clock advances. -/
  | advance (t : ℤ)
  /-- `stop`. -/
  | stop
  /-- The thread goes on; if it takes a kernel, then the one at the given place. -/
  | run (i : ℕ)

namespace State

/-- The thread takes the kernel at the given place of the queue, which has to be on top. -/
def take (s : State P) (i : ℕ) : Option (State P) :=
  match s.timerKernels[i]? with
  | none => none
  | some k =>
    if isTop s.timerKernels k then
      some { s with
        timerKernels := s.timerKernels.eraseIdx i
        thread := .taken ⟨k, s.timerKernels.eraseIdx i, s.now⟩ }
    else none

/-- `timer_loop`, from one condition to the next. -/
def run (s : State P) (i : ℕ) : Option (State P) :=
  match s.thread with
  | .unstarted => some { s with thread := .outer }
  | .outer => some { s with thread := if s.stopping then .ended else .inner }
  | .inner =>
    if !s.stopping && !due s.timerKernels s.now then
      some { s with thread := .waiting ((top s.timerKernels).map timePoint) }
    else some { s with thread := .check }
  | .waiting _ => some { s with thread := .inner }
  | .check => if due s.timerKernels s.now then s.take i else some { s with thread := .outer }
  | .taken t => some { s with thread := .executing, executed := s.executed ++ [⟨t, s.now⟩] }
  | .executing => some { s with thread := .outer }
  | .ended => none

/-- One step. Who sends or stops needs the lock. -/
def step (s : State P) : Event P → Option (State P)
  | .sendTimer k =>
    if s.thread.locks then none else some { s with timerKernels := s.timerKernels ++ [k], sent := s.sent ++ [k] }
  | .advance t => if s.now ≤ t then some { s with now := t } else none
  | .stop => if s.thread.locks then none else some { s with stopping := true }
  | .run i => s.run i

end State

/-- The timer thread and those who send kernels to it. It is at any time that they start. -/
def system (P : Type) : System (State P) where
  Initial s := ∃ now, s = { now }
  Step s s' := ∃ e, s.step e = some s'

/-! ### What is to hold -/

/-- The kernel has not been taken before its time, and no other one that was in the queue was to come before it. -/
structure Taking.Timely (t : Taking P) : Prop where
  /-- The clock has come to its time. -/
  due : timePoint t.k ≤ t.now
  /-- It was one of the earliest. -/
  first : ∀ k ∈ t.others, timePoint t.k ≤ timePoint k

/-- The invariant. -/
structure Kept (s : State P) : Prop where
  /-- What has been executed was taken in time, and has not been executed before. -/
  executed : ∀ e ∈ s.executed, e.Timely ∧ e.now ≤ e.time
  /-- So was what the thread has in its hands. -/
  taken : ∀ t, s.thread = .taken t → t.Timely ∧ t.now ≤ s.now
  /-- What has been sent is executed, in the hands of the thread, or in the queue. -/
  conserved : s.sent.Perm (s.executed.map (fun e => e.k) ++ s.thread.kernels ++ s.timerKernels)

/-! ### Steps -/

variable {s s' : State P} {i : ℕ}

/-- What taking a kernel does. -/
theorem take_eq (h : s.take i = some s') : ∃ k, s.timerKernels[i]? = some k ∧ isTop s.timerKernels k = true ∧
    s' = { s with
      timerKernels := s.timerKernels.eraseIdx i
      thread := .taken ⟨k, s.timerKernels.eraseIdx i, s.now⟩ } := by
  unfold State.take at h
  cases hk : s.timerKernels[i]? with
  | none => simp [hk] at h
  | some k =>
    rw [hk] at h
    dsimp only at h
    split_ifs at h with htop
    exact ⟨k, rfl, htop, (Option.some.inj h).symm⟩

/-- **What the thread does**: it goes to another place, with nothing in its hands before and after; or it takes a
kernel that is due; or it executes the kernel it has taken. -/
theorem run_cases (h : s.run i = some s') :
    (∃ place, place.kernels = [] ∧ s.thread.kernels = [] ∧ s' = { s with thread := place }) ∨
    (s.thread.kernels = [] ∧ ∃ k, s.timerKernels[i]? = some k ∧ isTop s.timerKernels k = true ∧
      timePoint k ≤ s.now ∧ s' = { s with
        timerKernels := s.timerKernels.eraseIdx i
        thread := .taken ⟨k, s.timerKernels.eraseIdx i, s.now⟩ }) ∨
    ∃ t, s.thread = .taken t ∧ s' = { s with thread := .executing, executed := s.executed ++ [⟨t, s.now⟩] } := by
  unfold State.run at h
  cases hthread : s.thread with
  | unstarted | waiting | executing =>
    rw [hthread] at h
    exact .inl ⟨_, rfl, rfl, (Option.some.inj h).symm⟩
  | outer =>
    rw [hthread] at h
    refine .inl ⟨_, ?_, rfl, (Option.some.inj h).symm⟩
    split_ifs <;> rfl
  | inner =>
    rw [hthread] at h
    dsimp only at h
    split_ifs at h <;> exact .inl ⟨_, rfl, rfl, (Option.some.inj h).symm⟩
  | check =>
    rw [hthread] at h
    dsimp only at h
    split_ifs at h with hdue
    · obtain ⟨k, hk, htop, heq⟩ := take_eq h
      exact .inr (.inl ⟨rfl, k, hk, htop, (due_of_isTop (List.mem_of_getElem? hk) htop).mp hdue, heq⟩)
    · exact .inl ⟨_, rfl, rfl, (Option.some.inj h).symm⟩
  | taken t =>
    rw [hthread] at h
    exact .inr (.inr ⟨t, rfl, (Option.some.inj h).symm⟩)
  | ended =>
    rw [hthread] at h
    cases h

/-- The loop gets on: until it has ended, the thread can do its next step. -/
theorem exists_run (h : s.thread ≠ .ended) : ∃ i s', s.run i = some s' := by
  unfold State.run
  cases hthread : s.thread with
  | check =>
    dsimp only
    split_ifs with hdue
    · obtain ⟨i, k, hk, htop⟩ := exists_due hdue
      exact ⟨i, _, by rw [State.take, hk]; exact if_pos htop⟩
    · exact ⟨0, _, rfl⟩
  | inner =>
    dsimp only
    split_ifs <;> exact ⟨0, _, rfl⟩
  | ended => exact absurd hthread h
  | _ => exact ⟨0, _, rfl⟩

namespace Kept

theorem initial (now : ℤ) : Kept ({ now } : State P) :=
  ⟨fun _ he => (nomatch he), fun _ ht => (nomatch ht), List.Perm.nil⟩

theorem run (h : Kept s) (hs : s.run i = some s') : Kept s' := by
  obtain ⟨hexecuted, htaken, hconserved⟩ := h
  rcases run_cases hs with ⟨place, hplace, hhands, rfl⟩ | ⟨hhands, k, hk, htop, hdue, rfl⟩ | ⟨t, ht, rfl⟩
  · refine ⟨hexecuted, fun t ht => ?_, ?_⟩
    · dsimp only at ht
      rw [ht] at hplace
      cases hplace
    · rw [hhands] at hconserved
      dsimp only
      rwa [hplace]
  · refine ⟨hexecuted, fun t ht => ?_, ?_⟩
    · cases ht
      exact ⟨⟨hdue, fun k' hk' => isTop_iff.mp htop k' (List.mem_of_mem_eraseIdx hk')⟩, le_rfl⟩
    · obtain ⟨hi, rfl⟩ := List.getElem?_eq_some_iff.mp hk
      rw [hhands, List.append_nil] at hconserved
      have htake := (List.getElem_cons_eraseIdx_perm hi).symm
      rw [List.append_assoc]
      exact hconserved.trans (htake.append_left _)
  · obtain ⟨htimely, hnow⟩ := htaken t ht
    refine ⟨fun e he => ?_, fun t ht => (nomatch ht), ?_⟩
    · rcases List.mem_append.mp he with he | he
      · exact hexecuted e he
      · cases List.mem_singleton.mp he
        exact ⟨htimely, hnow⟩
    · rw [ht] at hconserved
      simpa [Place.kernels] using hconserved

theorem step {e : Event P} (h : Kept s) (hs : s.step e = some s') : Kept s' := by
  cases e with
  | sendTimer k =>
    simp only [State.step] at hs
    split_ifs at hs
    cases hs
    refine ⟨h.executed, h.taken, ?_⟩
    rw [← List.append_assoc]
    exact h.conserved.append_right [k]
  | advance t =>
    simp only [State.step] at hs
    split_ifs at hs with hle
    cases hs
    exact ⟨h.executed, fun t' ht' => ⟨(h.taken t' ht').1, (h.taken t' ht').2.trans hle⟩, h.conserved⟩
  | stop =>
    simp only [State.step] at hs
    split_ifs at hs
    cases hs
    exact ⟨h.executed, h.taken, h.conserved⟩
  | run i => exact h.run hs

/-- It holds in every run. -/
theorem of_reachable (h : (system P).Reachable s) : Kept s := by
  refine h.invariant ?_ ?_
  · rintro _ ⟨now, rfl⟩
    exact initial now
  · rintro s s' hs ⟨e, he⟩
    exact hs.step he

end Kept

/-- What the thread has taken it executes with its next step. -/
theorem run_taken {t : Taking P} (h : s.thread = .taken t) (i : ℕ) :
    s.run i = some { s with thread := .executing, executed := s.executed ++ [⟨t, s.now⟩] } := by
  rw [State.run, h]

/-- Nothing else happens to it. -/
theorem step_taken {t : Taking P} (h : s.thread = .taken t) {e : Event P} (hs : s.step e = some s') :
    s'.thread = .taken t ∨ s'.executed = s.executed ++ [⟨t, s.now⟩] := by
  cases e with
  | sendTimer k =>
    simp only [State.step] at hs
    split_ifs at hs
    cases hs
    exact .inl h
  | advance time =>
    simp only [State.step] at hs
    split_ifs at hs
    cases hs
    exact .inl h
  | stop =>
    simp only [State.step] at hs
    split_ifs at hs
    cases hs
    exact .inl h
  | run i =>
    rw [State.step, run_taken h i] at hs
    cases hs
    exact .inr rfl

/-- **Kernels are executed at their time**: in every run of sends, clock advances and steps of the loop, no kernel
is executed before its time; the time of each that is executed was the least of those in the queue when it was taken;
what has been sent is executed once, in the hands of the thread, or in the queue; and what the thread has in its hands
stays there until its next step, which executes it. -/
theorem timely (h : (system P).Reachable s) :
    (∀ e ∈ s.executed, timePoint e.k ≤ e.time) ∧
    (∀ e ∈ s.executed, ∀ k ∈ e.others, timePoint e.k ≤ timePoint k) ∧
    s.sent.Perm (s.executed.map (fun e => e.k) ++ s.thread.kernels ++ s.timerKernels) ∧
    ∀ t, s.thread = .taken t →
      (∀ i, ∃ s', s.run i = some s' ∧ s'.executed = s.executed ++ [⟨t, s.now⟩]) ∧
      ∀ e s', s.step e = some s' → s'.thread = .taken t ∨ s'.executed = s.executed ++ [⟨t, s.now⟩] := by
  obtain ⟨hexecuted, -, hconserved⟩ := Kept.of_reachable h
  refine ⟨fun e he => ?_, fun e he => (hexecuted e he).1.first, hconserved, fun t ht => ?_⟩
  · exact (hexecuted e he).1.due.trans (hexecuted e he).2
  · exact ⟨fun i => ⟨_, run_taken ht i, rfl⟩, fun e s' hs => step_taken ht hs⟩

/-- A kernel with the given time. -/
def scheduledAt (atTime : UInt64) : Kernel Unit :=
  { Kernel.fresh 0 (.native KernelType.plain.index ()) with atTime }

/-- The loop waits for a kernel, and an earlier one is sent meanwhile and executed first. -/
theorem timely_earlier : ∃ s : State Unit, (system Unit).Reachable s ∧ s.timerKernels = [scheduledAt 9] ∧
    s.sent = [scheduledAt 9, scheduledAt 5] ∧ (s.executed.map fun e => e.k) = [scheduledAt 5] ∧
    ∀ e ∈ s.executed, timePoint e.k ≤ e.time ∧ ∀ k ∈ e.others, timePoint e.k ≤ timePoint k := by
  have hstart : (system Unit).Reachable { now := 0 } := .initial ⟨0, rfl⟩
  have hsent := hstart.step ⟨.sendTimer (scheduledAt 9), rfl⟩
  have houter := hsent.step ⟨.run 0, rfl⟩
  have hinner := houter.step ⟨.run 0, rfl⟩
  have hwaiting := (hinner.step ⟨.run 0, rfl⟩).step ⟨.sendTimer (scheduledAt 5), rfl⟩
  have hdue := hwaiting.step ⟨.advance 7, rfl⟩
  have hcheck := (hdue.step ⟨.run 0, rfl⟩).step ⟨.run 0, rfl⟩
  have hexecuted := (hcheck.step ⟨.run 1, rfl⟩).step ⟨.run 0, rfl⟩
  obtain ⟨htime, hfirst, -⟩ := timely hexecuted
  exact ⟨_, hexecuted, rfl, rfl, rfl, fun e he => ⟨htime e he, hfirst e he⟩⟩

end TimerLoop

end Subordination.Core
