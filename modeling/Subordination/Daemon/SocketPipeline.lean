import Subordination.Daemon.InterfaceAddress
import Subordination.Daemon.Scheduler

/-!
# The socket pipeline

The pipeline sends kernels to other nodes: those that are queued on the node itself
(`process_kernel`), and foreign ones on their way through it (`forward`).

## The model

What the pipeline does with a kernel is a list of `PipelineCall`s, in order. The kernel is gone from its
hands after the last of them. A client that is called keeps the kernel of a broadcast if it has a
principal; then a null pointer is left for the clients after it.

Whether a socket can be connected is the environment's to say.

## What is proved

* `SocketPipeline.honours_iff` — when the pipeline honours the node filter of a kernel.
* `SocketPipeline.executed_anyway` — it does not if none of its clients is started.
-/

namespace Subordination.Daemon

open Subordination.Core Subordination.Library
open Subordination.Core.Resources (Trap)

/-! ### The pipeline -/

/-- `socket_pipeline`. -/
structure SocketPipeline (P : Type) where
  /-- `_servers`. -/
  servers : List SocketPipelineServer := []
  /-- `_clients`. -/
  clients : ClientTable P := ∅
  /-- `_scheduler`. -/
  scheduler : Scheduler := {}

/-- Why the pipeline does not get to the end. -/
inductive PipelineError where
  /-- The process ends. -/
  | trap (t : Trap)
  /-- An exception is thrown. -/
  | exception (x : Exception)
  deriving DecidableEq

/-- What the pipeline does with a kernel. -/
inductive PipelineCall (P : Type) where
  /-- `send`, of the client with the given address. -/
  | clientSend (address : SocketAddress) (k : Kernel P)
  /-- `forward`, of the client with the given address. -/
  | clientForward (address : SocketAddress) (k : Kernel P)
  /-- `send_native`. -/
  | sendNative (k : Kernel P)
  /-- `forward_foreign`. -/
  | forwardForeign (k : Kernel P)

/-- A kernel that is handed to the local side is not executed there if it is on its way back: it has been
before, or it returns with `no_resources`. -/
def PipelineCall.Spares {P : Type} (k : Kernel P) : PipelineCall P → Prop
  | .clientSend _ _ => True
  | .clientForward _ _ => True
  | .sendNative k' => k'.phase = .downstream ∧ (k.phase = .downstream ∨ k'.result = .noResources)
  | .forwardForeign k' => k'.phase = .downstream ∧ (k.phase = .downstream ∨ k'.result = .noResources)

namespace SocketPipeline

variable {P : Type}

/-- What is thrown if a socket cannot be connected. -/
def badCall : Exception := .foreign "sys::bad_call"

/-- `do_add_client`, given the addresses to which a socket can be connected. -/
def doAddClient (p : SocketPipeline P) (connects : SocketAddress → Bool) (address : SocketAddress) :
    Except PipelineError (SocketPipeline P) :=
  -- a family other than `AF_UNIX` needs a server to bind to
  if address.bytes.take 2 ≠ [1, 0] ∧ ¬ p.servers.any (·.contains (ipv4Address address)) then
    .error (.exception (.invalidArgument "no matching server found"))
  else if ¬ connects address then .error (.exception badCall)
  else
    .ok { p with
      clients := p.clients.insert address
        { connection :=
            { flags := { saveUpstreamKernels := true, saveDownstreamKernels := true, writeTransactionLog := true }
              socketAddress := address }
          state := .starting } }

/-- `find_or_create_client`. -/
def findOrCreateClient (p : SocketPipeline P) (connects : SocketAddress → Bool) (address : SocketAddress) :
    Except PipelineError (SocketPipeline P) :=
  if address ∈ p.clients then .ok p else p.doAddClient connects address

/-- The client keeps a kernel that it is called with, and a null pointer is left to the caller. -/
def keeps (memory : Memory P) (client : SocketPipelineClient P) (k : Kernel P) : Bool :=
  (Endpoint.plan { connection := client.connection, memory } k).1.isSome

/-- The loop over the clients in the broadcast phase. -/
def broadcast (memory : Memory P) (call : SocketAddress → Kernel P → PipelineCall P) (k : Kernel P) :
    List (Sigma fun _ : SocketAddress => SocketPipelineClient P) → Except PipelineError (List (PipelineCall P))
  | [] => .ok []
  | ⟨address, client⟩ :: rest =>
    if k.source = client.connection.socketAddress then broadcast memory call k rest
    else if keeps memory client k then
      if rest.isEmpty then .ok [call address k] else .error (.trap .nullPointer)
    else (call address k :: ·) <$> broadcast memory call k rest

/-- `schedule`, with the given calls for a kernel that stays and for one that goes to a client. -/
def schedule (p : SocketPipeline P) (k : Kernel P) (stays : Kernel P → PipelineCall P)
    (goes : SocketAddress → Kernel P → PipelineCall P) :
    Except PipelineError (SocketPipeline P × List (PipelineCall P)) :=
  match p.scheduler.schedule k p.clients p.servers with
  | .error t => .error (.trap t)
  | .ok (scheduler, k, none) => .ok ({ p with scheduler }, [stays k])
  | .ok (scheduler, k, some address) => .ok ({ p with scheduler }, [goes address k])

/-- `process_kernel`. -/
def processKernel (p : SocketPipeline P) (memory : Memory P) (connects : SocketAddress → Bool) (k : Kernel P) :
    Except PipelineError (SocketPipeline P × List (PipelineCall P)) :=
  if k.phase = .broadcast then (p, ·) <$> broadcast memory .clientSend k p.clients.entries
  else if k.phase = .upstream ∧ k.destination = .unset then p.schedule k .sendNative .clientSend
  else if k.phase = .downstream ∧ ¬ k.source.isSet then .ok (p, [.sendNative k])
  else
    let k := if k.destination.isSet then k else { k with destination := k.source }
    (·, [.clientSend k.destination k]) <$> p.findOrCreateClient connects k.destination

/-- `forward`. -/
def forward (p : SocketPipeline P) (memory : Memory P) (connects : SocketAddress → Bool) (k : Kernel P) :
    Except PipelineError (SocketPipeline P × List (PipelineCall P)) :=
  if k.phase = .upstream then p.schedule k .forwardForeign .clientForward
  else if k.phase = .downstream ∨ k.phase = .pointToPoint then
    if ¬ k.destination.isSet then .error (.exception (.invalidArgument "kernel without destination"))
    else (·, [.clientForward k.destination k]) <$> p.findOrCreateClient connects k.destination
  else if k.phase = .broadcast then (p, ·) <$> broadcast memory .clientForward k p.clients.entries
  else .ok (p, [])

/-! ### Node filters -/

/-- **The node filter of the kernel is honoured**: if it is not true of the resources of the node, the kernel
is not executed there, but goes to a client or returns with `no_resources`. -/
def Honours (p : SocketPipeline P) (k : Kernel P)
    (outcome : Except PipelineError (SocketPipeline P × List (PipelineCall P))) : Prop :=
  ∀ p' calls, outcome = .ok (p', calls) → p.scheduler.Admits k ∨
    (∀ call ∈ calls, call.Spares k) ∧
      (k.phase = .upstream ∨ k.phase = .downstream ∨ k.phase = .pointToPoint → calls ≠ [])

variable {p : SocketPipeline P} {memory : Memory P} {connects : SocketAddress → Bool} {k : Kernel P}

/-- Nothing is handed over if there is no result. -/
theorem honours_error {x : PipelineError} : p.Honours k (.error x) := by
  intro p' calls h
  cases h

theorem honours_ok {p₁ : SocketPipeline P} {call : PipelineCall P} :
    p.Honours k (.ok (p₁, [call])) ↔ p.scheduler.Admits k ∨ call.Spares k := by
  constructor
  · intro h
    rcases h p₁ [call] rfl with hadmits | ⟨hspares, -⟩
    · exact Or.inl hadmits
    · exact Or.inr (hspares call List.mem_cons_self)
  · rintro (hadmits | hspares) p' calls h
    · exact Or.inl hadmits
    · cases h
      refine Or.inr ⟨?_, fun _ => List.cons_ne_nil _ _⟩
      simp only [List.mem_singleton, forall_eq]
      exact hspares

/-- Calls of clients alone. -/
theorem spares_broadcast {call : SocketAddress → Kernel P → PipelineCall P}
    (hcall : ∀ address k', (call address k').Spares k)
    {clients : List (Sigma fun _ : SocketAddress => SocketPipelineClient P)} {calls : List (PipelineCall P)}
    (h : broadcast memory call k clients = .ok calls) : ∀ c ∈ calls, c.Spares k := by
  induction clients generalizing calls with
  | nil =>
    cases h
    simp
  | cons pair rest ih =>
    unfold broadcast at h
    split at h
    · exact ih h
    · split at h
      · split at h
        · cases h
          simp only [List.mem_singleton, forall_eq]
          exact hcall _ _
        · cases h
      · cases hrest : broadcast memory call k rest with
        | error x =>
          rw [hrest] at h
          cases h
        | ok calls' =>
          rw [hrest] at h
          cases h
          intro c hc
          rcases List.mem_cons.mp hc with rfl | hc
          · exact hcall _ _
          · exact ih hrest c hc

/-- A kernel that is scheduled: the filter is honoured if and only if some client is started, or it is true
anyway. -/
theorem honours_schedule {stays : Kernel P → PipelineCall P} {goes : SocketAddress → Kernel P → PipelineCall P}
    (hstays : ∀ k', (stays k').Spares k ↔ k'.phase = .downstream ∧ (k.phase = .downstream ∨ k'.result = .noResources))
    (hgoes : ∀ address k', (goes address k').Spares k) (hphase : k.phase = .upstream) :
    p.Honours k (p.schedule k stays goes) ↔ p.clients.AnyStarted ∨ p.scheduler.Admits k := by
  unfold schedule
  by_cases hstarted : p.clients.AnyStarted
  · refine ⟨fun _ => Or.inl hstarted, fun _ => ?_⟩
    cases houtcome : p.scheduler.schedule k p.clients p.servers with
    | error t => exact honours_error
    | ok outcome =>
      obtain ⟨scheduler, k', address⟩ := outcome
      cases address with
      | none =>
        refine honours_ok.mpr ?_
        rcases Scheduler.schedule_local hstarted houtcome with hadmits | rfl
        · exact Or.inl hadmits
        · exact Or.inr ((hstays _).mpr ⟨k.phase_returnToParent _, Or.inr (k.result_returnToParent _)⟩)
      | some address => exact honours_ok.mpr (Or.inr (hgoes address k'))
  · -- the kernel stays as it is, which is upstream
    rw [Scheduler.schedule_idle hstarted]
    dsimp only
    rw [honours_ok, hstays, hphase]
    simp [hstarted, Phases.upstream, Phases.downstream]

/-- A kernel that goes to the client at its destination. -/
theorem honours_client {x : Except PipelineError (SocketPipeline P)} {call : PipelineCall P} (hcall : call.Spares k) :
    p.Honours k ((·, [call]) <$> x) := by
  cases x with
  | error e => exact honours_error
  | ok p₁ => exact honours_ok.mpr (Or.inr hcall)

/-- A kernel that goes to all clients. -/
theorem honours_broadcast {call : SocketAddress → Kernel P → PipelineCall P}
    (hcall : ∀ address k', (call address k').Spares k) (hphase : k.phase = .broadcast) :
    p.Honours k ((p, ·) <$> broadcast memory call k p.clients.entries) := by
  intro p' calls h
  cases hloop : broadcast memory call k p.clients.entries with
  | error e =>
    rw [hloop] at h
    cases h
  | ok calls' =>
    rw [hloop] at h
    cases h
    refine Or.inr ⟨spares_broadcast hcall hloop, ?_⟩
    simp [hphase, Phases.upstream, Phases.downstream, Phases.pointToPoint, Phases.broadcast]

theorem honours_processKernel : p.Honours k (p.processKernel memory connects k) ↔
    (k.phase = .upstream → k.destination = .unset → p.clients.AnyStarted ∨ p.scheduler.Admits k) := by
  unfold processKernel
  by_cases hbroadcast : k.phase = .broadcast
  · rw [if_pos hbroadcast]
    refine ⟨fun _ hup => ?_, fun _ => honours_broadcast (fun _ _ => trivial) hbroadcast⟩
    rw [hbroadcast] at hup
    exact absurd hup (by decide)
  · rw [if_neg hbroadcast]
    by_cases hscheduled : k.phase = .upstream ∧ k.destination = .unset
    · have hiff : p.Honours k (p.schedule k .sendNative .clientSend) ↔
          p.clients.AnyStarted ∨ p.scheduler.Admits k :=
        honours_schedule (fun _ => Iff.rfl) (fun _ _ => trivial) hscheduled.1
      rw [if_pos hscheduled, hiff]
      exact ⟨fun h _ _ => h, fun h => h hscheduled.1 hscheduled.2⟩
    · rw [if_neg hscheduled]
      refine ⟨fun _ hup hunset => absurd ⟨hup, hunset⟩ hscheduled, fun _ => ?_⟩
      split
      · next hdown => exact honours_ok.mpr (Or.inr ⟨hdown.1, Or.inl hdown.1⟩)
      · exact honours_client trivial

theorem honours_forward : p.Honours k (p.forward memory connects k) ↔
    (k.phase = .upstream → p.clients.AnyStarted ∨ p.scheduler.Admits k) := by
  unfold forward
  by_cases hup : k.phase = .upstream
  · have hiff : p.Honours k (p.schedule k .forwardForeign .clientForward) ↔
        p.clients.AnyStarted ∨ p.scheduler.Admits k :=
      honours_schedule (fun _ => Iff.rfl) (fun _ _ => trivial) hup
    rw [if_pos hup, hiff]
    exact ⟨fun h _ => h, fun h => h hup⟩
  · rw [if_neg hup]
    refine ⟨fun _ hup' => absurd hup' hup, fun _ => ?_⟩
    split
    · split
      · exact honours_error
      · exact honours_client trivial
    · next hother =>
      split
      · next hbroadcast => exact honours_broadcast (fun _ _ => trivial) hbroadcast
      · -- no other phase has a name, so there is nothing to show for the kernel
        intro p' calls h
        cases h
        exact Or.inr ⟨by simp, fun hphase => absurd hphase (not_or.mpr ⟨hup, hother⟩)⟩

/-- **The pipeline honours the node filter of a kernel** if and only if some client is started, the filter is
true of the resources of the node, or the kernel is not one that the pipeline schedules. -/
theorem honours_iff (p : SocketPipeline P) (memory : Memory P) (connects : SocketAddress → Bool) (k : Kernel P) :
    (p.Honours k (p.processKernel memory connects k) ↔
      (k.phase = .upstream → k.destination = .unset → p.clients.AnyStarted ∨ p.scheduler.Admits k)) ∧
    (p.Honours k (p.forward memory connects k) ↔
      (k.phase = .upstream → p.clients.AnyStarted ∨ p.scheduler.Admits k)) :=
  ⟨honours_processKernel, honours_forward⟩

/-- A new kernel that is to be executed on a node with at least eight threads. -/
def eightThreads : Kernel Unit :=
  { Kernel.fresh 1 (.native "kernel" ()) with
    nodeFilter := some (.binary .greaterOrEqual (.symbol 0) (.constant (.u64 8))) }

/-- **A kernel is executed where it must not be**: there is no client, and the only node has one thread. -/
theorem executed_anyway : ∃ p : SocketPipeline Unit,
    ¬ p.Honours eightThreads (p.processKernel (fun _ => eightThreads) (fun _ => false) eightThreads) ∧
      ¬ p.Honours eightThreads (p.forward (fun _ => eightThreads) (fun _ => false) eightThreads) := by
  have hidle : ¬ (∅ : ClientTable Unit).AnyStarted := by
    rintro ⟨pair, hpair, -⟩
    exact nomatch hpair
  have hadmits : ¬ ({} : Scheduler).Admits eightThreads := by
    intro h
    exact absurd (h _ rfl) (by decide)
  refine ⟨{}, fun h => ?_, fun h => ?_⟩
  · rcases honours_processKernel.mp h rfl rfl with h | h
    · exact hidle h
    · exact hadmits h
  · rcases honours_forward.mp h rfl with h | h
    · exact hidle h
    · exact hadmits h

end SocketPipeline

end Subordination.Daemon
