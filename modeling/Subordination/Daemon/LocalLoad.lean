import Subordination.Core.Loads
import Subordination.Daemon.SocketPipeline

/-!
# The load of the node itself

The scheduler counts what it places on the node itself (`schedule` in `daemon/socket_pipeline.cc`).
Nothing calls `rebase_counters`, and nothing else lowers the counter.

## The model

A `Workload` is a pipeline with the kernels that it has placed on the node and that have not finished.
A kernel is placed there when it is handed to the local side upstream. That a kernel finishes is no
event of this pipeline. What else happens to the pipeline leaves the counter alone.

A leak is a step after which the counter is not what it should be. A run counts its leaks.

## What is proved

* `Workload.local_load_tracks` — in a run without leaks the counter is the sum of the weights of the kernels
  that have been placed on the node and have not finished.
* `Workload.schedule_iff`, `Workload.finish_iff` — the first leak ends that.
* `Workload.load_stays` — a run with one.
-/

namespace Subordination.Core

/-- A weight that is zero is nothing. -/
theorem Kernel.weights_eq_zero_iff {P : Type} {k : Kernel P} : k.weights = {} ↔ k.weight = 0 := by
  unfold weights
  split
  · rename_i hmax
    rw [hmax]
    decide
  · simp [WeightArray.mk.injEq, Weight.mk.injEq]

end Subordination.Core

namespace Subordination.Daemon

open Subordination.Core Subordination.Library
open Subordination.Core.Resources (Trap)

/-! ### Runs -/

/-- The kernel, if the call places it on the node itself. -/
def PipelineCall.placed {P : Type} : PipelineCall P → List (Kernel P)
  | .clientSend _ _ => []
  | .clientForward _ _ => []
  | .sendNative k => if k.phase = .upstream then [k] else []
  | .forwardForeign k => if k.phase = .upstream then [k] else []

/-- The kernel returns with `no_resources` to the local side: the node does not have the resources, there
is no client for the kernel, and none that it has come from. -/
def Scheduler.rejects {P : Type} (s : Scheduler) (k : Kernel P) (clients : ClientTable P)
    (servers : List SocketPipelineServer) : Bool :=
  match s.matchesLocally k, s.choose k false clients with
  | .ok false, .ok choice =>
    (s.prefer (s.fileIsLocal k servers) choice).isNone && !decide (k.source.isSet ∧ k.source ∈ clients)
  | _, _ => false

/-- The kernel stays on the node: the node has the resources, and no client is preferred to it. -/
def Scheduler.keeps {P : Type} (s : Scheduler) (k : Kernel P) (clients : ClientTable P)
    (servers : List SocketPipelineServer) : Bool :=
  match s.matchesLocally k, s.choose k true clients with
  | .ok true, .ok choice => (s.prefer (s.fileIsLocal k servers) choice).isNone
  | _, _ => false

/-- A pipeline in the middle of a run. -/
structure Workload (P : Type) where
  /-- The pipeline. -/
  pipeline : SocketPipeline P
  /-- The kernels that have been placed on the node and have not finished, oldest first. -/
  outstanding : List (Kernel P) := []
  /-- The number of leaks so far. -/
  leaks : ℕ := 0

namespace Workload

variable {P : Type}

/-- The weights of the kernels that have been placed on the node and have not finished. -/
def weights (w : Workload P) : List WeightArray := w.outstanding.map Kernel.weights

/-- The counter is the sum of the weights. -/
def Balanced (w : Workload P) : Prop := w.pipeline.scheduler.localLoad.Tracks w.weights

/-- Scheduling the kernel is a leak: it has a weight, and either there is no client that is started, or
it returns to the local side; or it stays, and the sum gets too great. -/
def leaksSchedule (w : Workload P) (k : Kernel P) : Bool :=
  (k.weight ≠ 0 ∧ (¬ w.pipeline.clients.AnyStarted ∨
    w.pipeline.scheduler.rejects k w.pipeline.clients w.pipeline.servers = true)) ∨
  (w.pipeline.clients.AnyStarted ∧ w.pipeline.scheduler.keeps k w.pipeline.clients w.pipeline.servers = true ∧
    ¬ WeightArray.Fits (w.weights ++ [k.weights]))

/-- Some calls of the pipeline have placed kernels on the node. -/
def place (w : Workload P) (leak : Bool) (outcome : SocketPipeline P × List (PipelineCall P)) : Workload P where
  pipeline := outcome.1
  outstanding := w.outstanding ++ outcome.2.flatMap PipelineCall.placed
  leaks := w.leaks + if leak then 1 else 0

/-- What may happen next. -/
inductive Step : Workload P → Workload P → Prop
  /-- `process_kernel`. -/
  | process {w : Workload P} (memory : Memory P) (connects : SocketAddress → Bool) (k : Kernel P)
      {outcome : SocketPipeline P × List (PipelineCall P)} :
      w.pipeline.processKernel memory connects k = .ok outcome →
      Step w (w.place (k.phase = .upstream ∧ k.destination = .unset ∧ w.leaksSchedule k) outcome)
  /-- `forward`. -/
  | forward {w : Workload P} (memory : Memory P) (connects : SocketAddress → Bool) (k : Kernel P)
      {outcome : SocketPipeline P × List (PipelineCall P)} :
      w.pipeline.forward memory connects k = .ok outcome →
      Step w (w.place (k.phase = .upstream ∧ w.leaksSchedule k) outcome)
  /-- A kernel that has been placed on the node finishes. -/
  | finish {w : Workload P} {before after : List (Kernel P)} {k : Kernel P} :
      w.outstanding = before ++ k :: after →
      Step w { w with outstanding := before ++ after, leaks := w.leaks + if k.weight ≠ 0 then 1 else 0 }
  /-- The clients, the servers and the resources change. -/
  | other {w : Workload P} (p : SocketPipeline P) :
      p.scheduler.localLoad = w.pipeline.scheduler.localLoad → Step w { w with pipeline := p }

/-- The runs of a pipeline, from when it is made. -/
def system : System (Workload P) where
  Initial w := w.pipeline.scheduler.localLoad = {} ∧ w.outstanding = [] ∧ w.leaks = 0
  Step := Step

end Workload

/-! ### What scheduling does to the load -/

/-- **What `schedule` does to the load**, if some client is started: a kernel that stays raises it, and so
does one that returns to the local side. -/
theorem Scheduler.load_schedule {P : Type} {s s' : Scheduler} {k k' : Kernel P} {clients : ClientTable P}
    {servers : List SocketPipelineServer} {address : Option SocketAddress} (hstarted : clients.AnyStarted)
    (h : s.schedule k clients servers = .ok (s', k', address)) :
    (address.isSome = true ∧ s' = s ∧ s.rejects k clients servers = false ∧ s.keeps k clients servers = false) ∨
    (address = none ∧ k' = k ∧ s'.localLoad = s.localLoad.add k.weights ∧ s.rejects k clients servers = false ∧
      s.keeps k clients servers = true) ∨
    (address = none ∧ k' = k.returnToParent .noResources ∧ s'.localLoad = s.localLoad.add k.weights ∧
      s.rejects k clients servers = true ∧ s.keeps k clients servers = false) := by
  obtain ⟨matchesLocally, choice, hlocal, hchoice, hsettle⟩ := schedule_started hstarted h
  unfold rejects keeps
  cases matchesLocally with
  | true =>
    rw [hlocal, hchoice]
    cases hprefer : s.prefer (s.fileIsLocal k servers) choice with
    | some a =>
      rw [hprefer] at hsettle
      cases hsettle
      exact Or.inl ⟨rfl, rfl, rfl, by simp [hprefer]⟩
    | none =>
      rw [hprefer, settle, if_pos rfl] at hsettle
      cases hsettle
      exact Or.inr (Or.inl ⟨rfl, rfl, rfl, rfl, by simp [hprefer]⟩)
  | false =>
    rw [hlocal, hchoice]
    cases hprefer : s.prefer (s.fileIsLocal k servers) choice with
    | some a =>
      rw [hprefer] at hsettle
      cases hsettle
      exact Or.inl ⟨rfl, rfl, by simp [hprefer], rfl⟩
    | none =>
      rw [hprefer, settle, if_neg Bool.false_ne_true] at hsettle
      split at hsettle
      · rename_i hsource
        cases hsettle
        exact Or.inl ⟨rfl, rfl, by simp [hsource], rfl⟩
      · rename_i hsource
        cases hsettle
        exact Or.inr (Or.inr ⟨rfl, rfl, rfl, by simp [hprefer, hsource], rfl⟩)

namespace Workload

variable {P : Type} {w w' : Workload P} {k : Kernel P}

theorem weights_place {leak : Bool} {outcome : SocketPipeline P × List (PipelineCall P)} {ks : List (Kernel P)}
    (h : outcome.2.flatMap PipelineCall.placed = ks) :
    (w.place leak outcome).weights = w.weights ++ ks.map Kernel.weights := by
  unfold weights place
  rw [h, List.map_append]

/-- What scheduling a kernel comes to, and what has become of the load. -/
theorem schedule_cases {p : SocketPipeline P} {stays : Kernel P → PipelineCall P}
    {goes : SocketAddress → Kernel P → PipelineCall P} {outcome : SocketPipeline P × List (PipelineCall P)}
    (h : p.schedule k stays goes = .ok outcome) :
    (¬ p.clients.AnyStarted ∧ outcome.1.scheduler.localLoad = p.scheduler.localLoad ∧ outcome.2 = [stays k]) ∨
    (p.clients.AnyStarted ∧ p.scheduler.rejects k p.clients p.servers = false ∧
      p.scheduler.keeps k p.clients p.servers = false ∧
      outcome.1.scheduler.localLoad = p.scheduler.localLoad ∧ ∃ address k', outcome.2 = [goes address k']) ∨
    (p.clients.AnyStarted ∧ p.scheduler.rejects k p.clients p.servers = false ∧
      p.scheduler.keeps k p.clients p.servers = true ∧
      outcome.1.scheduler.localLoad = p.scheduler.localLoad.add k.weights ∧ outcome.2 = [stays k]) ∨
    (p.clients.AnyStarted ∧ p.scheduler.rejects k p.clients p.servers = true ∧
      p.scheduler.keeps k p.clients p.servers = false ∧
      outcome.1.scheduler.localLoad = p.scheduler.localLoad.add k.weights ∧
      outcome.2 = [stays (k.returnToParent .noResources)]) := by
  unfold SocketPipeline.schedule at h
  by_cases hstarted : p.clients.AnyStarted
  · cases hschedule : p.scheduler.schedule k p.clients p.servers with
    | error t =>
      rw [hschedule] at h
      cases h
    | ok result =>
      obtain ⟨s, k', address⟩ := result
      rw [hschedule] at h
      rcases Scheduler.load_schedule hstarted hschedule with
        ⟨hsome, rfl, hrejects, hkeeps⟩ | ⟨rfl, rfl, hload, hrejects, hkeeps⟩ | ⟨rfl, rfl, hload, hrejects, hkeeps⟩
      · obtain ⟨a, rfl⟩ := Option.isSome_iff_exists.mp hsome
        cases h
        exact Or.inr (Or.inl ⟨hstarted, hrejects, hkeeps, rfl, a, k', rfl⟩)
      · cases h
        exact Or.inr (Or.inr (Or.inl ⟨hstarted, hrejects, hkeeps, hload, rfl⟩))
      · cases h
        exact Or.inr (Or.inr (Or.inr ⟨hstarted, hrejects, hkeeps, hload, rfl⟩))
  · rw [Scheduler.schedule_idle hstarted] at h
    cases h
    exact Or.inl ⟨hstarted, rfl, rfl⟩

/-- **The first leak ends the balance**, as far as kernels that are scheduled go. -/
theorem schedule_iff (hbalanced : w.Balanced) (hfits : WeightArray.Fits (w.weights ++ [k.weights]))
    {stays : Kernel P → PipelineCall P} {goes : SocketAddress → Kernel P → PipelineCall P}
    (hstays : ∀ k', (stays k').placed = if k'.phase = .upstream then [k'] else [])
    (hgoes : ∀ address k', (goes address k').placed = []) (hphase : k.phase = .upstream) {leak : Bool}
    {outcome : SocketPipeline P × List (PipelineCall P)}
    (h : w.pipeline.schedule k stays goes = .ok outcome) :
    (w.place leak outcome).Balanced ↔ w.leaksSchedule k = false := by
  have hplaced : (stays k).placed = [k] := by rw [hstays, if_pos hphase]
  have hreturned : (stays (k.returnToParent .noResources)).placed = [] := by
    rw [hstays, k.phase_returnToParent, if_neg (by decide)]
  have hadd := WeightArray.Tracks.add hbalanced hfits
  unfold Balanced at hbalanced
  unfold leaksSchedule
  rcases schedule_cases h with ⟨hstarted, hload, hcalls⟩ | ⟨hstarted, hrejects, hkeeps, hload, address, k', hcalls⟩ |
    ⟨hstarted, hrejects, hkeeps, hload, hcalls⟩ | ⟨hstarted, hrejects, hkeeps, hload, hcalls⟩
  · -- the kernel is placed, and the load stays
    have hks : outcome.2.flatMap PipelineCall.placed = [k] := by simp [hcalls, hplaced]
    rw [Balanced, weights_place hks, place, hload, List.map_singleton, hbalanced.append_iff,
      Kernel.weights_eq_zero_iff]
    simp [hstarted]
  · have hks : outcome.2.flatMap PipelineCall.placed = [] := by simp [hcalls, hgoes]
    rw [Balanced, weights_place hks, place, hload, List.map_nil, List.append_nil]
    simp [hstarted, hrejects, hkeeps, hbalanced]
  · have hks : outcome.2.flatMap PipelineCall.placed = [k] := by simp [hcalls, hplaced]
    rw [Balanced, weights_place hks, place, hload, List.map_singleton]
    simp [hstarted, hrejects, hfits, hadd]
  · -- the load is raised, and the kernel is not placed
    have hks : outcome.2.flatMap PipelineCall.placed = [] := by simp [hcalls, hreturned]
    rw [Balanced, weights_place hks, place, hload, List.map_nil, hadd.erase_iff, Kernel.weights_eq_zero_iff]
    simp [hrejects, hkeeps]

/-- A kernel that finishes is a leak if and only if it has a weight. -/
theorem finish_iff (hbalanced : w.Balanced) {before after : List (Kernel P)} {leaks : ℕ}
    (h : w.outstanding = before ++ k :: after) :
    Balanced { w with outstanding := before ++ after, leaks } ↔ k.weight = 0 := by
  unfold Balanced weights at *
  rw [h, List.map_append, List.map_cons] at hbalanced
  rw [List.map_append, hbalanced.erase_iff, Kernel.weights_eq_zero_iff]

/-! ### The load in a run -/

/-- Nothing is placed, and the load stays. -/
theorem Balanced.idle (hbalanced : w.Balanced) {outcome : SocketPipeline P × List (PipelineCall P)} {leak : Bool}
    (hload : outcome.1.scheduler.localLoad = w.pipeline.scheduler.localLoad)
    (hplaced : outcome.2.flatMap PipelineCall.placed = []) : (w.place leak outcome).Balanced := by
  unfold Balanced
  rw [weights_place hplaced, place, hload, List.map_nil, List.append_nil]
  exact hbalanced

/-- A kernel that is scheduled without a leak. If it stays or has no weight, the sum goes on to fit. -/
theorem Balanced.schedule (hbalanced : w.Balanced) (hleak : w.leaksSchedule k = false)
    {stays : Kernel P → PipelineCall P} {goes : SocketAddress → Kernel P → PipelineCall P}
    (hstays : ∀ k', (stays k').placed = if k'.phase = .upstream then [k'] else [])
    (hgoes : ∀ address k', (goes address k').placed = []) (hphase : k.phase = .upstream) {leak : Bool}
    {outcome : SocketPipeline P × List (PipelineCall P)}
    (h : w.pipeline.schedule k stays goes = .ok outcome) : (w.place leak outcome).Balanced := by
  have hnoLeak := hleak
  unfold leaksSchedule at hnoLeak
  rw [decide_eq_false_iff_not, not_or, not_and', not_and, not_and, not_not, not_not] at hnoLeak
  obtain ⟨hweight, hroom⟩ := hnoLeak
  have hzero (h : k.weight = 0) : WeightArray.Fits (w.weights ++ [k.weights]) :=
    (WeightArray.Tracks.append_iff hbalanced |>.mpr (Kernel.weights_eq_zero_iff.mpr h)).fits
  rcases schedule_cases h with ⟨hstarted, -, -⟩ | ⟨-, -, -, hload, address, k', hcalls⟩ |
    ⟨hstarted, -, hkeeps, -, -⟩ | ⟨-, hrejects, -, -, -⟩
  · exact (schedule_iff hbalanced (hzero (hweight (Or.inl hstarted))) hstays hgoes hphase h).mpr hleak
  · exact hbalanced.idle hload (by simp [hcalls, hgoes])
  · exact (schedule_iff hbalanced (hroom hstarted hkeeps) hstays hgoes hphase h).mpr hleak
  · exact (schedule_iff hbalanced (hzero (hweight (Or.inr hrejects))) hstays hgoes hphase h).mpr hleak

/-- Nothing is placed on the node by calls of clients alone. -/
theorem placed_broadcast {memory : Memory P} {call : SocketAddress → Kernel P → PipelineCall P}
    (hcall : ∀ address k', (call address k').placed = [])
    {clients : List (Sigma fun _ : SocketAddress => SocketPipelineClient P)} {calls : List (PipelineCall P)}
    (h : SocketPipeline.broadcast memory call k clients = .ok calls) :
    calls.flatMap PipelineCall.placed = [] := by
  induction clients generalizing calls with
  | nil =>
    cases h
    rfl
  | cons pair rest ih =>
    unfold SocketPipeline.broadcast at h
    split at h
    · exact ih h
    · split at h
      · split at h
        · cases h
          simp [hcall]
        · cases h
      · cases hrest : SocketPipeline.broadcast memory call k rest with
        | error x =>
          rw [hrest] at h
          cases h
        | ok calls' =>
          rw [hrest] at h
          cases h
          rw [List.flatMap_cons, hcall, ih hrest, List.append_nil]

/-- A kernel that goes to all clients. -/
theorem Balanced.broadcast (hbalanced : w.Balanced) {memory : Memory P}
    {call : SocketAddress → Kernel P → PipelineCall P} (hcall : ∀ address k', (call address k').placed = [])
    {leak : Bool} {outcome : SocketPipeline P × List (PipelineCall P)}
    (h : (w.pipeline, ·) <$> SocketPipeline.broadcast memory call k w.pipeline.clients.entries = .ok outcome) :
    (w.place leak outcome).Balanced := by
  cases hloop : SocketPipeline.broadcast memory call k w.pipeline.clients.entries with
  | error x =>
    rw [hloop] at h
    cases h
  | ok calls =>
    rw [hloop] at h
    cases h
    exact hbalanced.idle rfl (placed_broadcast hcall hloop)

/-- A kernel that goes to the client at its destination. -/
theorem Balanced.client (hbalanced : w.Balanced) {connects : SocketAddress → Bool} {address : SocketAddress}
    {call : PipelineCall P} (hcall : call.placed = []) {leak : Bool}
    {outcome : SocketPipeline P × List (PipelineCall P)}
    (h : (·, [call]) <$> w.pipeline.findOrCreateClient connects address = .ok outcome) :
    (w.place leak outcome).Balanced := by
  have hplaced : [call].flatMap PipelineCall.placed = [] := by simp [hcall]
  unfold SocketPipeline.findOrCreateClient SocketPipeline.doAddClient at h
  split at h
  · cases h
    exact hbalanced.idle rfl hplaced
  · split at h
    · cases h
    · split at h
      · cases h
      · cases h
        exact hbalanced.idle rfl hplaced

theorem Balanced.process (hbalanced : w.Balanced) {memory : Memory P} {connects : SocketAddress → Bool} {leak : Bool}
    (hleak : k.phase = .upstream → k.destination = .unset → w.leaksSchedule k = false)
    {outcome : SocketPipeline P × List (PipelineCall P)}
    (h : w.pipeline.processKernel memory connects k = .ok outcome) : (w.place leak outcome).Balanced := by
  unfold SocketPipeline.processKernel at h
  split at h
  · exact hbalanced.broadcast (fun _ _ => rfl) h
  · split at h
    · next hup => exact hbalanced.schedule (hleak hup.1 hup.2) (fun _ => rfl) (fun _ _ => rfl) hup.1 h
    · split at h
      · next hdown =>
        cases h
        have hup : ¬ k.phase = .upstream := by
          rw [hdown.1]
          decide
        exact hbalanced.idle rfl (by simp [PipelineCall.placed, hup])
      · exact hbalanced.client rfl h

theorem Balanced.forward (hbalanced : w.Balanced) {memory : Memory P} {connects : SocketAddress → Bool} {leak : Bool}
    (hleak : k.phase = .upstream → w.leaksSchedule k = false)
    {outcome : SocketPipeline P × List (PipelineCall P)}
    (h : w.pipeline.forward memory connects k = .ok outcome) : (w.place leak outcome).Balanced := by
  unfold SocketPipeline.forward at h
  split at h
  · next hup => exact hbalanced.schedule (hleak hup) (fun _ => rfl) (fun _ _ => rfl) hup h
  · split at h
    · split at h
      · cases h
      · exact hbalanced.client rfl h
    · split at h
      · exact hbalanced.broadcast (fun _ _ => rfl) h
      · cases h
        exact hbalanced.idle rfl rfl

/-- A step that is not a leak keeps the balance. -/
theorem Step.balanced (hstep : Step w w') (h : w.leaks = 0 → w.Balanced) : w'.leaks = 0 → w'.Balanced := by
  intro hleaks
  cases hstep with
  | process memory connects k hrun =>
    simp only [place, Nat.add_eq_zero_iff, ite_eq_right_iff, decide_eq_true_eq] at hleaks
    refine (h hleaks.1).process (fun hup hunset => ?_) hrun
    by_contra hleak
    exact absurd (hleaks.2 ⟨hup, hunset, by simpa using hleak⟩) one_ne_zero
  | forward memory connects k hrun =>
    simp only [place, Nat.add_eq_zero_iff, ite_eq_right_iff, decide_eq_true_eq] at hleaks
    refine (h hleaks.1).forward (fun hup => ?_) hrun
    by_contra hleak
    exact absurd (hleaks.2 ⟨hup, by simpa using hleak⟩) one_ne_zero
  | @finish before after k hout =>
    simp only [Nat.add_eq_zero_iff, ite_eq_right_iff] at hleaks
    refine (finish_iff (h hleaks.1) hout).mpr ?_
    by_contra hweight
    exact absurd (hleaks.2 hweight) one_ne_zero
  | other p hload =>
    have hbalanced := h hleaks
    unfold Balanced at hbalanced ⊢
    rw [hload]
    exact hbalanced

/-- **The load of the node itself is the sum of the weights of the kernels that have been placed there and
have not finished**, in a run without leaks. -/
theorem local_load_tracks (h : system.Reachable w) (hleaks : w.leaks = 0) :
    w.Balanced ∧ (w.outstanding = [] → w.pipeline.scheduler.localLoad = {}) := by
  have hbalanced : w.Balanced := by
    refine h.invariant (p := fun w => w.leaks = 0 → w.Balanced) ?_ (fun _ _ ih hstep => hstep.balanced ih) hleaks
    rintro w ⟨hload, hout, -⟩ -
    unfold Balanced weights
    rw [hload, hout]
    exact WeightArray.tracks_nil
  refine ⟨hbalanced, fun hout => ?_⟩
  unfold Balanced weights at hbalanced
  rw [hout] at hbalanced
  exact WeightArray.eq_zero_iff.mpr hbalanced

/-- A kernel that comes back from its only neighbour, 10.0.0.2. -/
def fromTwo : Kernel Unit :=
  { Kernel.fresh 1 (.foreign []) with source := ipv4SocketAddress 167772162 33333 }

/-- A node with that neighbour. -/
def twoNodes : SocketPipeline Unit where
  clients := AList.singleton (ipv4SocketAddress 167772162 33333) {
    connection := { socketAddress := ipv4SocketAddress 167772162 33333 }
    state := .started }

/-- The kernel has been placed on the node. -/
def placedHere : Workload Unit where
  pipeline := { twoNodes with scheduler := { localLoad := ⟨⟨0⟩, ⟨1⟩⟩ } }
  outstanding := [fromTwo]

theorem forward_fromTwo : twoNodes.forward (fun _ => fromTwo) (fun _ => true) fromTwo =
    .ok (placedHere.pipeline, [.forwardForeign fromTwo]) := rfl

theorem reachable_placedHere : system.Reachable placedHere := by
  have hinitial : system.Reachable ({ pipeline := twoNodes } : Workload Unit) := .initial ⟨rfl, rfl, rfl⟩
  have hstep := Step.forward (w := { pipeline := twoNodes }) (fun _ => fromTwo) (fun _ => true) fromTwo forward_fromTwo
  exact hinitial.step hstep

theorem local_load_tracks_placed :
    placedHere.Balanced ∧ (placedHere.outstanding = [] → placedHere.pipeline.scheduler.localLoad = {}) :=
  local_load_tracks reachable_placedHere rfl

/-- **The load stays when the kernel has finished.** -/
theorem load_stays : ∃ w : Workload Unit, system.Reachable w ∧ w.outstanding = [] ∧
    w.pipeline.scheduler.localLoad ≠ {} := by
  have hout : placedHere.outstanding = [] ++ fromTwo :: [] := rfl
  exact ⟨_, reachable_placedHere.step (Step.finish hout), rfl, by decide⟩

end Workload

end Subordination.Daemon
