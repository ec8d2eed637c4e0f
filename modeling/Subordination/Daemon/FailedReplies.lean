import Subordination.Daemon.SocketPipeline

/-!
# Failed replies

A kernel that came from another node is answered through the socket pipeline. If the kernel cannot be
sent, the pipeline turns it around once more and gives it to the local pipeline, which knows it by its
principal (`process_kernels` in `daemon/socket_pipeline.cc`, `act` in `core/parallel_pipeline.cc`).

## The model

Whatever is thrown while a client is created is the environment's to say, and so is what the pipeline
looks like then: a client that fails to be added to the epoll is in the table already. The local
pipeline gives every downstream kernel to `act`, from whichever of its queues.

## What is proved

* `fromPeer_of_read` — the parent and the principal of a kernel that comes without its parent are ids.
* `SocketPipeline.turn_creation` — how a turn relates to `process_kernel`.
* `SocketPipeline.exits_iff` — the local side exits after a failed send if and only if the parent of the kernel is null.
* `SocketPipeline.reply_exits` — a kernel from another node has no other parent than an id: the daemon always exits.
* `SocketPipeline.unreachable_peer` — a kernel is answered when its node is gone.
-/

namespace Subordination.Daemon

open Subordination.Core Subordination.Library
open Subordination.Core.Resources (Trap)

variable {P : Type}

/-! ### Kernels from another node -/

/-- The parent and the principal of the kernel are ids, of kernels of the node that sent it. -/
structure FromPeer (k : Kernel P) : Prop where
  /-- `kernel_flag::parent_is_id`. -/
  parentIsId : k.isset .parentIsId = true
  /-- `kernel_flag::principal_is_id`. -/
  principalIsId : k.isset .principalIsId = true

theorem FromPeer.of_flags {k : Kernel P} {s : KernelFlags} (h : k.flags = s.received) : FromPeer k := by
  constructor <;> simp [Kernel.isset, h]

/-- `kernel::read` leaves ids. -/
theorem fromPeer_of_kernelRead [ByteOrder] {k k' : Kernel P} {hasFilter : Bool} {w w' : List UInt8}
    (h : k.read hasFilter w = .ok k' w') : FromPeer k' := by
  unfold Kernel.read at h
  refine Returns.after (p := FromPeer) ?_ _ _ _ h
  iterate 4 (intro; refine Returns.after ?_)
  intro flags
  iterate 6 (refine Returns.after ?_; intro)
  exact Returns.pure (FromPeer.of_flags (s := flags) rfl)

/-- **What comes off the wire without its parent** knows its parent and its principal by their ids. -/
theorem fromPeer_of_read [ByteOrder] {proc : Process P} {r : Received P} {w w' : List UInt8}
    (h : proc.read w = .ok r w') (hcarries : r.carried = none) : FromPeer r.kernel := by
  obtain ⟨k₀, hasFilter, k, w₁, w₂, payload, hself, rfl⟩ | ⟨type, k₀, hasFilter, k, w₁, w₂, hkernel, h⟩ :=
    Process.read_cases h
  · exact ⟨(fromPeer_of_kernelRead hself).parentIsId, (fromPeer_of_kernelRead hself).principalIsId⟩
  · obtain ⟨k', w₃, state, hself, rfl⟩ := Process.readKernel_cases hkernel
    obtain ⟨-, rfl⟩ | ⟨type, parent, w₄, -, rfl⟩ := Process.readParent_cases h
    · exact ⟨(fromPeer_of_kernelRead hself).parentIsId, (fromPeer_of_kernelRead hself).principalIsId⟩
    · cases hcarries

/-! ### The local pipeline -/

/-- What the local pipeline does with a kernel. -/
inductive LocalCall (P : Type) where
  /-- `k->act()`. -/
  | act (k : Kernel P)
  /-- `p->react(k)`, for the principal at the given address. -/
  | react (principal : UInt64) (k : Kernel P)
  /-- `sbn::exit`. -/
  | exit (code : ExitCode)
  /-- An exception, which `process_kernel` of the local pipeline catches. -/
  | throws (x : Exception)

/-- `act`. -/
def act (k : Kernel P) : LocalCall P :=
  if k.phase = .upstream then .act k
  else if k.phase = .downstream then
    if k.principal ≠ 0 then .react k.principal k else .exit k.result
  else if k.phase = .pointToPoint then
    if k.principal ≠ 0 then .react k.principal k
    else .throws (.invalidArgument "point-to-point kernel without target")
  else if k.phase = .broadcast then .act k
  else .throws (.invalidArgument "unknown phase")

/-- A kernel on its way back without a principal object ends the process. -/
theorem act_downstream {k : Kernel P} (hphase : k.phase = .downstream) (hprincipal : k.principal = 0) :
    act k = .exit k.result := by
  have hup : ¬ k.phase = .upstream := by
    rw [hphase]
    decide
  unfold act
  rw [if_neg hup, if_pos hphase, if_neg (not_not.mpr hprincipal)]

/-- One with a principal object goes to it. -/
theorem act_principal {k : Kernel P} (hphase : k.phase = .downstream) (hprincipal : k.principal ≠ 0) :
    act k = .react k.principal k := by
  have hup : ¬ k.phase = .upstream := by
    rw [hphase]
    decide
  unfold act
  rw [if_neg hup, if_pos hphase, if_pos hprincipal]

/-! ### Sending a kernel to its destination -/

/-- What `do_add_client` comes to. -/
structure Creation (P : Type) where
  /-- The pipeline as it is left. -/
  pipeline : SocketPipeline P
  /-- What is thrown, if anything. -/
  thrown : Option Exception := none

namespace SocketPipeline

/-- The kernel that `process_kernel` is about to send to its destination, or else to its source. -/
def addressed (k : Kernel P) : Kernel P :=
  if k.destination.isSet then k else { k with destination := k.source }

/-- The `catch` block of `process_kernels`. -/
def failed (k : Kernel P) : Kernel P :=
  Kernel.returnToParent { k with source := k.destination } .noUpstreamServersAvailable

/-- `find_or_create_client`, given what creating a client comes to. -/
def findOrCreate (p : SocketPipeline P) (creation : SocketAddress → Creation P) (address : SocketAddress) :
    Creation P :=
  if address ∈ p.clients then { pipeline := p } else creation address

/-- The last branch of `process_kernel`, and the `catch` block if it throws. -/
def sendOrReturn (p : SocketPipeline P) (creation : SocketAddress → Creation P) (k : Kernel P) :
    SocketPipeline P × List (PipelineCall P) :=
  let client := p.findOrCreate creation k.destination
  match client.thrown with
  | none => (client.pipeline, [.clientSend k.destination k])
  | some _ => (client.pipeline, [.sendNative (failed k)])

/-- One turn of `process_kernels`, given what creating a client comes to. -/
def turn (p : SocketPipeline P) (memory : Memory P) (creation : SocketAddress → Creation P) (k : Kernel P) :
    Except PipelineError (SocketPipeline P × List (PipelineCall P)) :=
  if k.phase = .broadcast then (p, ·) <$> broadcast memory .clientSend k p.clients.entries
  else if k.phase = .upstream ∧ k.destination = .unset then p.schedule k .sendNative .clientSend
  else if k.phase = .downstream ∧ ¬ k.source.isSet then .ok (p, [.sendNative k])
  else .ok (p.sendOrReturn creation (addressed k))

/-- The creation of clients by `do_add_client`, given the addresses to which a socket can be connected. -/
def creation (p : SocketPipeline P) (connects : SocketAddress → Bool) (address : SocketAddress) : Creation P :=
  match p.doAddClient connects address with
  | .ok pipeline => { pipeline }
  | .error (.exception x) => { pipeline := p, thrown := some x }
  | .error (.trap _) => { pipeline := p }

variable {p : SocketPipeline P} {memory : Memory P} {k : Kernel P}

/-- Creating a client does not end the process. -/
theorem doAddClient_ne_trap {connects : SocketAddress → Bool} {address : SocketAddress} {t : Trap} :
    p.doAddClient connects address ≠ .error (.trap t) := by
  unfold doAddClient
  split
  · simp
  · split <;> simp

/-- Scheduling a kernel throws nothing. -/
theorem schedule_ne_exception {stays : Kernel P → PipelineCall P} {goes : SocketAddress → Kernel P → PipelineCall P}
    {x : Exception} : p.schedule k stays goes ≠ .error (.exception x) := by
  unfold schedule
  split <;> simp

/-- Neither does sending it to all clients. -/
theorem broadcast_ne_exception {call : SocketAddress → Kernel P → PipelineCall P} {x : Exception}
    {clients : List (Sigma fun _ : SocketAddress => SocketPipelineClient P)} :
    broadcast memory call k clients ≠ .error (.exception x) := by
  induction clients with
  | nil => simp [broadcast]
  | cons pair rest ih =>
    unfold broadcast
    split
    · exact ih
    · split
      · split <;> simp
      · intro h
        cases hrest : broadcast memory call k rest with
        | error e =>
          rw [hrest] at h
          cases h
          exact ih hrest
        | ok calls =>
          rw [hrest] at h
          cases h

/-- The `catch` block of `process_kernels`, given what `process_kernel` has come to. -/
def caught (p : SocketPipeline P) (k : Kernel P) :
    Except PipelineError (SocketPipeline P × List (PipelineCall P)) →
      Except PipelineError (SocketPipeline P × List (PipelineCall P))
  | .error (.exception _) => .ok (p, [.sendNative (failed (addressed k))])
  | outcome => outcome

theorem caught_of_ne {outcome : Except PipelineError (SocketPipeline P × List (PipelineCall P))}
    (h : ∀ x, outcome ≠ .error (.exception x)) : p.caught k outcome = outcome := by
  unfold caught
  split
  · next x => exact absurd rfl (h x)
  · rfl

/-- **A turn is what `process_kernel` does, and the `catch` block** if that throws. -/
theorem turn_creation (p : SocketPipeline P) (memory : Memory P) (connects : SocketAddress → Bool) (k : Kernel P) :
    p.turn memory (p.creation connects) k = p.caught k (p.processKernel memory connects k) := by
  unfold turn processKernel
  split
  · refine (caught_of_ne fun x h => ?_).symm
    cases hloop : broadcast memory .clientSend k p.clients.entries with
    | error e =>
      rw [hloop] at h
      cases h
      exact broadcast_ne_exception hloop
    | ok calls =>
      rw [hloop] at h
      cases h
  · split
    · exact (caught_of_ne fun x => schedule_ne_exception).symm
    · split
      · rfl
      · change _ = p.caught k ((·, [.clientSend (addressed k).destination (addressed k)]) <$>
          p.findOrCreateClient connects (addressed k).destination)
        unfold sendOrReturn findOrCreate findOrCreateClient
        by_cases hmem : (addressed k).destination ∈ p.clients
        · rw [if_pos hmem, if_pos hmem]
          rfl
        · rw [if_neg hmem, if_neg hmem, creation]
          cases hadd : p.doAddClient connects (addressed k).destination with
          | ok pipeline => rfl
          | error e =>
            cases e with
            | exception x => rfl
            | trap t => exact absurd hadd doAddClient_ne_trap

/-! ### What becomes of a kernel that cannot be sent -/

/-- The local side goes on: of the kernels it is handed, none makes it exit. -/
def StaysUp (calls : List (PipelineCall P)) : Prop :=
  ∀ k code, .sendNative k ∈ calls → act k ≠ .exit code

/-- Whoever was the parent is the principal on the way back. -/
theorem principal_returnToParent (k : Kernel P) (code : ExitCode) : (k.returnToParent code).principal = k.parent := by
  unfold Kernel.returnToParent Kernel.parent
  by_cases hparent : k.isset .parentIsId = true
  · rw [if_pos hparent, if_pos hparent]
    simp [Kernel.principal, Kernel.setPrincipalId, Kernel.isset]
  · rw [if_neg hparent, if_neg hparent]
    simp [Kernel.principal, Kernel.setPrincipal, Kernel.isset]

/-- The parent stays who it was. -/
theorem parent_returnToParent (k : Kernel P) (code : ExitCode) : (k.returnToParent code).parent = k.parent := by
  unfold Kernel.returnToParent
  by_cases hparent : k.isset .parentIsId = true
  · have hflag : k.flags.isset .parentIsId = true := hparent
    rw [if_pos hparent]
    simp [Kernel.parent, Kernel.setPrincipalId, Kernel.isset, hflag]
  · rw [if_neg hparent]
    exact Kernel.parent_setPrincipal k k.parentWord

/-- The principal of a kernel that could not be sent is its parent. -/
theorem principal_failed (k : Kernel P) : (failed k).principal = k.parent := by
  unfold failed
  rw [principal_returnToParent]
  rfl

/-- **What a failed send does to the daemon**: it exits if and only if the parent of the kernel, as an
object of this process, is null. Otherwise the kernel goes back to its parent. -/
theorem exits_iff (k : Kernel P) :
    (act (failed k) = .exit .noUpstreamServersAvailable ↔ k.parent = 0) ∧
      (act (failed k) = .react k.parent (failed k) ↔ k.parent ≠ 0) := by
  have hphase : (failed k).phase = .downstream := rfl
  have hresult : (failed k).result = .noUpstreamServersAvailable := rfl
  by_cases hparent : k.parent = 0
  · have hact := act_downstream hphase ((principal_failed k).trans hparent)
    rw [hresult] at hact
    simp [hact, hparent]
  · have hprincipal : (failed k).principal ≠ 0 := by rwa [principal_failed]
    have hact := act_principal hphase hprincipal
    rw [principal_failed] at hact
    simp [hact, hparent]

/-- The answer to a kernel goes to the node it came from. -/
theorem turn_answer {creation : SocketAddress → Creation P} {code : ExitCode} {x : Exception}
    (hsource : k.source.isSet = true) (hthrown : (p.findOrCreate creation k.source).thrown = some x) :
    p.turn memory creation (k.returnToParent code) =
      .ok ((p.findOrCreate creation k.source).pipeline, [.sendNative (failed (k.returnToParent code))]) := by
  have hsource' : (k.returnToParent code).source = k.source := by
    unfold Kernel.returnToParent
    split <;> rfl
  have hdestination : (k.returnToParent code).destination = k.source := by
    unfold Kernel.returnToParent
    split <;> rfl
  have haddressed : addressed (k.returnToParent code) = k.returnToParent code := by
    unfold addressed
    rw [hdestination, if_pos hsource]
  have hphase : (k.returnToParent code).phase = .downstream := rfl
  have hbroadcast : ¬ (k.returnToParent code).phase = .broadcast := by
    rw [hphase]
    decide
  have hup : ¬ ((k.returnToParent code).phase = .upstream ∧ (k.returnToParent code).destination = .unset) := by
    rw [hphase]
    exact fun h => absurd h.1 (by decide)
  have hlocal : ¬ ((k.returnToParent code).phase = .downstream ∧ ¬ (k.returnToParent code).source.isSet) := by
    rw [hsource']
    exact fun h => h.2 hsource
  unfold turn
  rw [if_neg hbroadcast, if_neg hup, if_neg hlocal, haddressed, sendOrReturn, hdestination]
  simp only [hthrown]

/-- **A reply that cannot be sent shuts the daemon down**: whatever is thrown when a kernel from another
node is answered, the local side exits. -/
theorem reply_exits (p : SocketPipeline P) (memory : Memory P) (creation : SocketAddress → Creation P)
    (k : Kernel P) (code : ExitCode) (hpeer : FromPeer k) (hsource : k.source.isSet = true)
    (hthrown : (p.findOrCreate creation k.source).thrown.isSome = true) :
    ∃ p' calls, p.turn memory creation (k.returnToParent code) = .ok (p', calls) ∧ ¬ StaysUp calls := by
  obtain ⟨x, hx⟩ := Option.isSome_iff_exists.mp hthrown
  refine ⟨_, _, turn_answer hsource hx, fun hup => ?_⟩
  have hparent : (k.returnToParent code).parent = 0 := by
    rw [parent_returnToParent, Kernel.parent, if_pos hpeer.parentIsId]
  exact hup _ _ List.mem_cons_self ((exits_iff _).1.mpr hparent)

/-- The node 10.0.0.1, whose network has the addresses up to 10.0.0.255. No other node is left in it. -/
def lastNode : SocketPipeline Unit where
  servers := [{
    contains := fun a => 167772160 ≤ a ∧ a < 167772416
    socketAddress := ipv4SocketAddress 167772161 33333 }]

/-- A kernel that has come from 10.0.0.9. -/
def fromNine : Kernel Unit :=
  { Kernel.fresh 1 (.native "kernel" ()) with
    source := ipv4SocketAddress 167772169 33333
    id := 5
    parentWord := 7
    flags := KernelFlags.received 0 }

theorem reply_exits_nine :
    ∃ p' calls, lastNode.turn (fun _ => fromNine) (lastNode.creation fun _ => false)
      (fromNine.returnToParent .success) = .ok (p', calls) ∧ ¬ StaysUp calls :=
  reply_exits lastNode (fun _ => fromNine) (lastNode.creation fun _ => false) fromNine .success
    (.of_flags rfl) (by decide) (by decide)

/-- **A peer that is gone takes the daemon with it**: it answers a kernel of a node to which no socket
can be connected any more. -/
theorem unreachable_peer : ∃ (p : SocketPipeline Unit) (memory : Memory Unit) (k : Kernel Unit) (code : ExitCode),
    FromPeer k ∧ k.source.isSet = true ∧
      ∃ p' calls, p.turn memory (p.creation fun _ => false) (k.returnToParent code) = .ok (p', calls) ∧
        ¬ StaysUp calls := by
  have hanswer : lastNode.turn (fun _ => fromNine) (lastNode.creation fun _ => false)
      (fromNine.returnToParent .success) = .ok (lastNode, [.sendNative (failed (fromNine.returnToParent .success))]) :=
    turn_answer (x := badCall) (by decide) (by decide)
  refine ⟨lastNode, fun _ => fromNine, fromNine, .success, .of_flags rfl, by decide, _, _, hanswer, fun hup => ?_⟩
  exact hup _ _ List.mem_cons_self ((exits_iff _).1.mpr (by decide))

end SocketPipeline

end Subordination.Daemon
