import Subordination.Core.ConnectionTable
import Subordination.Daemon.Scheduler
import Subordination.Library.Slots

/-!
# Clients of the unix socket pipeline

`unix_socket_pipeline` has its clients in two tables: by their descriptors in the connection table of
`basic_socket_pipeline`, and by their addresses in a table of its own. `add_client` puts a client in both, but keeps
the client that the second table has under the address already; `remove` erases it from the first one only
(`daemon/unix_socket_pipeline.cc`, `core/basic_socket_pipeline.cc`).

## The model

Clients are objects, known by their numbers, and the two tables refer to them. The socket of a client is open as long
as a table refers to the client. The operating system gives every new socket the lowest descriptor that is free; other
parts of the process open and close descriptors of their own. What an event comes to, whether `flush` throws, and
whether the time of a client is up are the environment's to say. `removed` is there for the statements alone: the
clients that have been disconnected. What a client does with a kernel is left out.

## What is proved

* `Valid.step` — what every step keeps.
* `consistent_step_iff` — which steps keep the tables consistent.
* `consistent_iff_safe` — in which runs the tables are always consistent.
-/

namespace Subordination.Daemon

open Subordination.Core Subordination.Library

/-! ### The pipeline -/

/-- A connection in the connection table. -/
inductive UnixEntry where
  /-- The pipe of the poller. -/
  | pipe
  /-- `unix_socket_server`. -/
  | server
  /-- `unix_socket_client`. -/
  | client (r : ℕ)
  deriving DecidableEq

/-- `unix_socket_client`. -/
structure UnixSocketClient (P : Type) where
  /-- `socket_address()`. -/
  socketAddress : SocketAddress := .unset
  /-- `fd()`. -/
  fd : ℕ := 0
  /-- `state()`. -/
  state : ConnectionState := .starting
  /-- `_attempts`. -/
  attempts : ℕ := 1
  /-- The kernels that `send` and `forward` have been called with. -/
  sent : List (Kernel P) := []
  deriving DecidableEq

/-- `unix_socket_pipeline`. -/
structure UnixSocketPipeline (P : Type) where
  /-- `_max_connection_attempts`. -/
  maxConnectionAttempts : ℕ
  /-- The clients that there are, or have been. -/
  object : ℕ → UnixSocketClient P := fun _ => {}
  /-- The number of the next client. -/
  next : ℕ := 0
  /-- `_clients`. -/
  clients : SocketAddress → Option ℕ := fun _ => none
  /-- `_connections`. -/
  connections : ConnectionTable UnixEntry := {}
  /-- The descriptors that are open, but those of clients. -/
  others : List ℕ
  /-- The clients that `remove` has been called with. -/
  removed : List ℕ := []

namespace UnixSocketPipeline

variable {P : Type}

/-- Something happens to a client. -/
def modify (p : UnixSocketPipeline P) (r : ℕ) (c : UnixSocketClient P) : UnixSocketPipeline P :=
  { p with object := Function.update p.object r c }

/-- A connection is erased from the connection table. -/
def erase (p : UnixSocketPipeline P) (fd : ℕ) : UnixSocketPipeline P :=
  { p with connections := p.connections.erase fd }

/-- One of the tables refers to the client. -/
def Referenced (p : UnixSocketPipeline P) (r : ℕ) : Prop :=
  p.clients (p.object r).socketAddress = some r ∨ p.connections.get (p.object r).fd = some (.client r)

instance (p : UnixSocketPipeline P) : DecidablePred p.Referenced := fun r =>
  inferInstanceAs (Decidable (p.clients (p.object r).socketAddress = some r ∨
    p.connections.get (p.object r).fd = some (.client r)))

/-- The descriptors that are open. -/
def descriptors (p : UnixSocketPipeline P) : List ℕ :=
  p.others ++ ((List.range p.next).filter p.Referenced).map fun r => (p.object r).fd

/-- The descriptor of a new socket. -/
def newSocket (p : UnixSocketPipeline P) : ℕ := lowestFree p.descriptors

/-! ### Clients -/

/-- `add_client`, of a socket that has been accepted or connected; `emplace` keeps the client that is there. -/
def addClient (p : UnixSocketPipeline P) (address : SocketAddress) : UnixSocketPipeline P :=
  { p with
    object := Function.update p.object p.next { socketAddress := address, fd := p.newSocket }
    next := p.next + 1
    connections := p.connections.emplace p.newSocket (.client p.next)
    clients := Function.update p.clients address (p.clients address <|> some p.next) }

/-- `basic_socket_pipeline::remove`; `connection::remove` does nothing. -/
def remove (p : UnixSocketPipeline P) (fd r : ℕ) : UnixSocketPipeline P :=
  { p.erase fd with removed := r :: p.removed }

/-- `basic_socket_pipeline::deactivate`; `connection::deactivate` counts the attempt. -/
def deactivate (p : UnixSocketPipeline P) (fd r : ℕ) : UnixSocketPipeline P :=
  let c := p.object r
  if c.attempts ≥ p.maxConnectionAttempts then p.remove fd r
  else p.modify r { c with attempts := c.attempts + 1 }

/-! ### Kernels -/

/-- A client that has been found is given the kernel. -/
def give (p : UnixSocketPipeline P) (client : Option ℕ) (k : Kernel P) : UnixSocketPipeline P :=
  match client with
  | some r => p.modify r { p.object r with sent := (p.object r).sent ++ [k] }
  | none => p

/-- A kernel without a destination goes back to where it has come from. -/
def addressed (k : Kernel P) : Kernel P := if k.destination.isSet then k else { k with destination := k.source }

/-- `process_kernel`. -/
def processKernel (p : UnixSocketPipeline P) (k : Kernel P) : UnixSocketPipeline P :=
  if k.phase = .downstream then p.give (p.clients (addressed k).destination) (addressed k) else p

/-- `forward`. -/
def forward (p : UnixSocketPipeline P) (fk : Kernel P) : UnixSocketPipeline P := p.give (p.clients fk.destination) fk

/-! ### The loop of the pipeline -/

/-- What an event comes to. -/
inductive Handling where
  /-- It has been handled. -/
  | handled
  /-- It is a bad one, or a call fails. -/
  | bad
  /-- The connection is refused. -/
  | refused
  deriving DecidableEq

/-- What `handle_events` does with a client when `handle` has returned, or thrown. -/
def afterHandle (p : UnixSocketPipeline P) (fd r : ℕ) : Handling → UnixSocketPipeline P
  | .handled => p
  | .bad => p.remove fd r
  | .refused => p.deactivate fd r

/-- `handle_events`, for one event. -/
def handle (p : UnixSocketPipeline P) (fd : ℕ) (h : Handling) : UnixSocketPipeline P :=
  match p.connections.get fd with
  | some (.client r) =>
    let c := p.object r
    if c.state = .inactive then p
    else
      let p := if c.state = .starting then p.modify r { c with state := .started } else p
      p.afterHandle fd r h
  | _ => p

/-- What the environment says about a client to `flush_buffers`. -/
structure Flushing where
  /-- `flush` throws. -/
  throws : Bool
  /-- The connection timeout has passed since the client was started. -/
  expired : Bool

/-- `flush_buffers`, for one slot. A client that is activated leaves its slot: `connection::activate` does nothing. -/
def flush (p : UnixSocketPipeline P) (i : ℕ) (f : Flushing) : UnixSocketPipeline P :=
  match p.connections.get i with
  | some (.client r) =>
    if f.throws ∧ (p.object r).state = .started then p.deactivate i r
    else match (p.object r).state with
      | .stopped => p.remove i r
      | .starting => if f.expired then p.deactivate i r else p
      | .inactive =>
        if f.expired then
          let p := p.erase i
          if f.throws then p.deactivate (p.connections.indexOf (.client r)) r else p
        else p
      | _ => p
  | _ => p

/-- `add_server`. -/
def addServer (p : UnixSocketPipeline P) : UnixSocketPipeline P :=
  { p with others := p.newSocket :: p.others, connections := p.connections.emplace p.newSocket .server }

/-- `basic_socket_pipeline::remove`, of a connection that is no client. Nothing refers to a server any more, whose
socket is closed. -/
def removeOther (p : UnixSocketPipeline P) (fd : ℕ) : UnixSocketPipeline P :=
  match p.connections.get fd with
  | some .server => { p.erase fd with others := p.others.erase fd }
  | some .pipe => p.erase fd
  | _ => p

/-- `basic_socket_pipeline::stop`. -/
def stop (p : UnixSocketPipeline P) : UnixSocketPipeline P :=
  { p with
    object := fun r =>
      if p.connections.get (p.object r).fd = some (.client r) then { p.object r with state := .stopped }
      else p.object r }

/-- A descriptor is opened in another part of the process. -/
def openOther (p : UnixSocketPipeline P) : UnixSocketPipeline P := { p with others := p.newSocket :: p.others }

/-- A descriptor is closed in another part of the process. -/
def closeOther (p : UnixSocketPipeline P) (fd : ℕ) : UnixSocketPipeline P :=
  if p.connections.get fd = none then { p with others := p.others.erase fd } else p

/-- What happens to the pipeline. -/
inductive Event (P : Type) where
  /-- A client is added. -/
  | addClient (address : SocketAddress)
  /-- A server is added. -/
  | addServer
  /-- A connection is removed that is no client. -/
  | removeOther (fd : ℕ)
  /-- A descriptor is opened elsewhere. -/
  | openOther
  /-- A descriptor is closed elsewhere. -/
  | closeOther (fd : ℕ)
  /-- The poller has an event. -/
  | handle (fd : ℕ) (h : Handling)
  /-- `flush_buffers` comes to a slot. -/
  | flush (i : ℕ) (f : Flushing)
  /-- The pipeline is stopped. -/
  | stop
  /-- A kernel is sent to the pipeline. -/
  | processKernel (k : Kernel P)
  /-- A kernel is forwarded to the pipeline. -/
  | forward (fk : Kernel P)

/-- One step. -/
def step (p : UnixSocketPipeline P) : Event P → UnixSocketPipeline P
  | .addClient address => p.addClient address
  | .addServer => p.addServer
  | .removeOther fd => p.removeOther fd
  | .openOther => p.openOther
  | .closeOther fd => p.closeOther fd
  | .handle fd h => p.handle fd h
  | .flush i f => p.flush i f
  | .stop => p.stop
  | .processKernel k => p.processKernel k
  | .forward fk => p.forward fk

/-- `process_connections`: `handle_events`, and `flush_buffers` over the slots that there are then. -/
def processConnections (p : UnixSocketPipeline P) (events : List (ℕ × Handling)) (f : ℕ → Flushing) :
    UnixSocketPipeline P :=
  let p := events.foldl (fun p ev => p.handle ev.1 ev.2) p
  (List.range p.connections.size).foldl (fun p i => p.flush i (f i)) p

/-- The constructor: the pipe of the poller is in the connection table. -/
def construct (maxConnectionAttempts : ℕ) (others : List ℕ) (pipe : ℕ) : UnixSocketPipeline P where
  maxConnectionAttempts := maxConnectionAttempts
  connections := ({} : ConnectionTable UnixEntry).emplace pipe .pipe
  others := pipe :: others

/-! ### What must hold -/

/-- The client that is connected under an address: the last one, of those that have not been removed. -/
def current (p : UnixSocketPipeline P) (address : SocketAddress) : Option ℕ :=
  lastBelow (fun r => r ∉ p.removed ∧ (p.object r).socketAddress = address) p.next

/-- The two tables have the same clients, and kernels go to those that are connected. -/
structure Consistent (p : UnixSocketPipeline P) : Prop where
  /-- A client of the client table is in its slot of the connection table. -/
  slot : ∀ address r, p.clients address = some r → p.connections.get (p.object r).fd = some (.client r)
  /-- A client that has been disconnected is in neither table. -/
  removed : ∀ r ∈ p.removed, (∀ address, p.clients address ≠ some r) ∧ ∀ i, p.connections.get i ≠ some (.client r)
  /-- A downstream kernel is sent to the client that is connected under its address. -/
  sent : ∀ k, k.phase = .downstream →
    p.processKernel k = p.give (p.current (addressed k).destination) (addressed k)
  /-- And so is one that is forwarded. -/
  forwarded : ∀ fk, p.forward fk = p.give (p.current fk.destination) fk

/-- No client is removed, and none is added under an address that an earlier one has had. -/
def Safe (p : UnixSocketPipeline P) : Event P → Prop
  | .addClient address => p.clients address = none
  | .handle fd h => ∀ r, p.connections.get fd = some (.client r) →
    h = .handled ∨ h = .refused ∧ (p.object r).attempts < p.maxConnectionAttempts
  | .flush i f => ∀ r, p.connections.get i = some (.client r) → (p.object r).state ≠ .stopped ∧
    (f.throws = true ∧ (p.object r).state = .started ∨ f.expired = true ∧ (p.object r).state = .starting →
      (p.object r).attempts < p.maxConnectionAttempts)
  | _ => True

/-! ### What every step keeps -/

/-- What every step keeps: whatever has not been removed is in its slot, and the client table has the first client
of every address. -/
structure Valid (p : UnixSocketPipeline P) : Prop where
  /-- A client in the client table has the address it is found by. -/
  clients : ∀ address r, p.clients address = some r → r < p.next ∧ (p.object r).socketAddress = address
  /-- The client table has a client for every address there has been, and no later one. -/
  first : ∀ r < p.next, ∃ r' ≤ r, p.clients (p.object r).socketAddress = some r'
  /-- A client in a slot has the descriptor of the slot. -/
  slots : ∀ i r, p.connections.get i = some (.client r) → r < p.next ∧ r ∉ p.removed ∧ (p.object r).fd = i
  /-- A client that has not been removed is in its slot. -/
  connected : ∀ r < p.next, r ∉ p.removed → p.connections.get (p.object r).fd = some (.client r)
  /-- The descriptors of the other connections are open. -/
  others : ∀ i, p.connections.get i = some .pipe ∨ p.connections.get i = some .server → i ∈ p.others
  /-- Only clients are removed. -/
  removed : ∀ r ∈ p.removed, r < p.next
  /-- No client is inactive. -/
  state : ∀ r < p.next, (p.object r).state ≠ .inactive

/-- Nothing has happened to the tables. -/
structure Same (p p' : UnixSocketPipeline P) : Prop where
  next : p'.next = p.next
  clients : p'.clients = p.clients
  removed : p'.removed = p.removed
  slots : ∀ i r, p'.connections.get i = some (.client r) ↔ p.connections.get i = some (.client r)
  others : ∀ i, p'.connections.get i = some .pipe ∨ p'.connections.get i = some .server → i ∈ p'.others
  socketAddress : ∀ r, (p'.object r).socketAddress = (p.object r).socketAddress
  fd : ∀ r, (p'.object r).fd = (p.object r).fd
  state : ∀ r, (p.object r).state ≠ .inactive → (p'.object r).state ≠ .inactive

variable {p p' : UnixSocketPipeline P} {address : SocketAddress} {e : Event P} {fd i r : ℕ}

theorem Valid.of_same (hv : p.Valid) (h : Same p p') : p'.Valid where
  clients := by
    intro address r hr
    rw [h.clients] at hr
    rw [h.next, h.socketAddress]
    exact hv.clients address r hr
  first := by
    intro r hr
    rw [h.next] at hr
    rw [h.clients, h.socketAddress]
    exact hv.first r hr
  slots := by
    intro i r hr
    rw [h.next, h.removed, h.fd]
    exact hv.slots i r ((h.slots i r).1 hr)
  connected := by
    intro r hr hnot
    rw [h.next] at hr
    rw [h.removed] at hnot
    rw [h.fd, h.slots]
    exact hv.connected r hr hnot
  others := h.others
  removed := by
    rw [h.removed, h.next]
    exact hv.removed
  state := by
    intro r hr
    rw [h.next] at hr
    exact h.state r (hv.state r hr)

theorem Same.current (h : Same p p') (address : SocketAddress) : p'.current address = p.current address := by
  unfold UnixSocketPipeline.current
  rw [h.next]
  refine lastBelow_congr fun r _ => ?_
  rw [h.removed, h.socketAddress]

/-- A descriptor of a connection is not that of a new socket. -/
theorem Valid.get_newSocket (hv : p.Valid) : p.connections.get p.newSocket = none := by
  have hfree : p.newSocket ∉ p.descriptors := lowestFree_notMem _
  cases h : p.connections.get p.newSocket with
  | none => rfl
  | some x =>
    refine absurd ?_ hfree
    cases x with
    | pipe => exact List.mem_append_left _ (hv.others _ (.inl h))
    | server => exact List.mem_append_left _ (hv.others _ (.inr h))
    | client r =>
      obtain ⟨hr, -, hfd⟩ := hv.slots _ r h
      refine List.mem_append_right _ (List.mem_map.2 ⟨r, List.mem_filter.2 ⟨List.mem_range.2 hr, ?_⟩, hfd⟩)
      exact decide_eq_true (.inr (hfd.symm ▸ h))

/-! #### Clients that change -/

@[simp]
theorem object_modify_self (p : UnixSocketPipeline P) (r : ℕ) (c : UnixSocketClient P) :
    (p.modify r c).object r = c := Function.update_self ..

theorem object_modify_of_ne {r' : ℕ} (c : UnixSocketClient P) (h : r' ≠ r) :
    (p.modify r c).object r' = p.object r' := Function.update_of_ne h ..

/-- A client changes, but for its address and its descriptor. -/
theorem same_modify (hv : p.Valid) {c : UnixSocketClient P} (haddress : c.socketAddress = (p.object r).socketAddress)
    (hfd : c.fd = (p.object r).fd) (hstate : c.state ≠ .inactive) : Same p (p.modify r c) := by
  refine ⟨rfl, rfl, rfl, fun _ _ => Iff.rfl, hv.others, fun r' => ?_, fun r' => ?_, fun r' hr' => ?_⟩
  all_goals by_cases h : r' = r
  · rw [h, object_modify_self, haddress]
  · rw [object_modify_of_ne c h]
  · rw [h, object_modify_self, hfd]
  · rw [object_modify_of_ne c h]
  · rwa [h, object_modify_self]
  · rwa [object_modify_of_ne c h]

theorem Same.refl (hv : p.Valid) : Same p p :=
  ⟨rfl, rfl, rfl, fun _ _ => Iff.rfl, hv.others, fun _ => rfl, fun _ => rfl, fun _ => id⟩

theorem Same.trans {p'' : UnixSocketPipeline P} (h : Same p p') (h' : Same p' p'') : Same p p'' where
  next := h'.next.trans h.next
  clients := h'.clients.trans h.clients
  removed := h'.removed.trans h.removed
  slots := fun i r => (h'.slots i r).trans (h.slots i r)
  others := h'.others
  socketAddress := fun r => (h'.socketAddress r).trans (h.socketAddress r)
  fd := fun r => (h'.fd r).trans (h.fd r)
  state := fun r hr => h'.state r (h.state r hr)

theorem same_give (hv : p.Valid) (client : Option ℕ) (hc : ∀ r, client = some r → r < p.next) (k : Kernel P) :
    Same p (p.give client k) := by
  cases client with
  | none => exact Same.refl hv
  | some r => exact same_modify hv rfl rfl (hv.state r (hc r rfl))

theorem same_stop (hv : p.Valid) : Same p p.stop := by
  refine ⟨rfl, rfl, rfl, fun _ _ => Iff.rfl, hv.others, fun r => ?_, fun r => ?_, fun r hr => ?_⟩
  all_goals
    dsimp only [stop]
    by_cases h : p.connections.get (p.object r).fd = some (.client r)
  · rw [if_pos h]
  · rw [if_neg h]
  · rw [if_pos h]
  · rw [if_neg h]
  · rw [if_pos h]
    exact ConnectionState.noConfusion
  · rwa [if_neg h]

/-! #### Connections that are no clients -/

theorem same_addServer (hv : p.Valid) : Same p p.addServer := by
  have hnone := hv.get_newSocket
  refine ⟨rfl, rfl, rfl, fun i r => ?_, fun i hi => ?_, fun _ => rfl, fun _ => rfl, fun _ => id⟩
  all_goals
    simp only [addServer, ConnectionTable.get_emplace, Function.update_apply] at *
    by_cases h : i = p.newSocket
  · rw [if_pos h, h, hnone]
    simp
  · rw [if_neg h]
  · rw [h]
    exact List.mem_cons_self
  · rw [if_neg h] at hi
    exact List.mem_cons_of_mem _ (hv.others i hi)

/-- A slot that has no client in it becomes empty. -/
theorem same_erase (hv : p.Valid) (hfd : ∀ r, p.connections.get fd ≠ some (.client r)) {others : List ℕ}
    (hothers : ∀ i ≠ fd, i ∈ p.others → i ∈ others) : Same p { p.erase fd with others } := by
  refine ⟨rfl, rfl, rfl, fun i r => ?_, fun i hi => ?_, fun _ => rfl, fun _ => rfl, fun _ => id⟩
  all_goals
    simp only [erase, ConnectionTable.get_erase, Function.update_apply] at *
    by_cases h : i = fd
  · rw [if_pos h, h]
    exact ⟨fun hc => absurd hc.symm (Option.some_ne_none _), fun hc => absurd hc (hfd r)⟩
  · rw [if_neg h]
  · simp [h] at hi
  · rw [if_neg h] at hi
    exact hothers i h (hv.others i hi)

theorem same_removeOther (hv : p.Valid) (fd : ℕ) : Same p (p.removeOther fd) := by
  unfold removeOther
  split
  · next h => exact same_erase hv (by simp [h]) fun i hi hmem => (List.mem_erase_of_ne hi).2 hmem
  · next h => exact same_erase hv (by simp [h]) fun i _ hmem => hmem
  · exact Same.refl hv

theorem same_openOther (hv : p.Valid) : Same p p.openOther :=
  ⟨rfl, rfl, rfl, fun _ _ => Iff.rfl, fun i hi => List.mem_cons_of_mem _ (hv.others i hi), fun _ => rfl,
    fun _ => rfl, fun _ => id⟩

theorem same_closeOther (hv : p.Valid) (fd : ℕ) : Same p (p.closeOther fd) := by
  unfold closeOther
  split
  · next h =>
    refine ⟨rfl, rfl, rfl, fun _ _ => Iff.rfl, fun i hi => ?_, fun _ => rfl, fun _ => rfl, fun _ => id⟩
    refine (List.mem_erase_of_ne ?_).2 (hv.others i hi)
    rintro rfl
    change p.connections.get i = _ ∨ p.connections.get i = _ at hi
    simp [h] at hi
  · exact Same.refl hv

/-! #### What a step comes to -/

/-- What a step makes of the pipeline. -/
inductive Outcome (p : UnixSocketPipeline P) (e : Event P) : UnixSocketPipeline P → Prop
  /-- Nothing happens to the tables. -/
  | same {p' : UnixSocketPipeline P} : Same p p' → p.Safe e → Outcome p e p'
  /-- A client is added. -/
  | added {address : SocketAddress} : e = .addClient address → Outcome p e (p.addClient address)
  /-- A client is removed, if something else has happened to it. -/
  | removed {q : UnixSocketPipeline P} {fd r : ℕ} : Same p q → q.connections.get fd = some (.client r) →
      ¬ p.Safe e → Outcome p e (q.remove fd r)

/-- A client that has an attempt left is not removed when it is deactivated. -/
theorem same_deactivate (hv : p.Valid) (hr : r < p.next)
    (h : (p.object r).attempts < p.maxConnectionAttempts) : Same p (p.deactivate fd r) := by
  have hdeactivate : p.deactivate fd r = p.modify r { p.object r with attempts := (p.object r).attempts + 1 } :=
    if_neg (Nat.not_le_of_lt h)
  rw [hdeactivate]
  exact same_modify hv rfl rfl (hv.state r hr)

theorem outcome_deactivate {q : UnixSocketPipeline P} (hv : q.Valid) (h : Same p q)
    (hslot : q.connections.get fd = some (.client r))
    (hsafe : p.Safe e ↔ (q.object r).attempts < q.maxConnectionAttempts) : Outcome p e (q.deactivate fd r) := by
  by_cases hlt : (q.object r).attempts < q.maxConnectionAttempts
  · exact .same (h.trans (same_deactivate hv (hv.slots fd r hslot).1 hlt)) (hsafe.2 hlt)
  · have hremove : q.deactivate fd r = q.remove fd r := if_pos (Nat.le_of_not_lt hlt)
    rw [hremove]
    exact .removed h hslot fun hs => hlt (hsafe.1 hs)

theorem outcome_afterHandle {q : UnixSocketPipeline P} (hv : q.Valid) (hsame : Same p q) (h : Handling)
    (hslot : q.connections.get fd = some (.client r))
    (hsafe : p.Safe (.handle fd h) ↔
      h = .handled ∨ h = .refused ∧ (q.object r).attempts < q.maxConnectionAttempts) :
    Outcome p (.handle fd h) (q.afterHandle fd r h) := by
  cases h with
  | handled => exact .same hsame (hsafe.2 (.inl rfl))
  | bad =>
    refine .removed hsame hslot fun hs => ?_
    rcases hsafe.1 hs with h | ⟨h, -⟩ <;> cases h
  | refused =>
    refine outcome_deactivate hv hsame hslot (hsafe.trans ⟨fun hs => ?_, fun hlt => .inr ⟨rfl, hlt⟩⟩)
    rcases hs with h | ⟨-, hlt⟩
    · cases h
    · exact hlt

/-- There is one client in a slot. -/
theorem forall_slot_iff {q : ℕ → Prop} (hslot : p.connections.get fd = some (.client r)) :
    (∀ r', p.connections.get fd = some (.client r') → q r') ↔ q r := by
  refine ⟨fun h => h r hslot, fun h r' hr' => ?_⟩
  cases hslot.symm.trans hr'
  exact h

theorem outcome_handle (hv : p.Valid) (fd : ℕ) (h : Handling) : Outcome p (.handle fd h) (p.handle fd h) := by
  have hother (hnone : ∀ r, p.connections.get fd ≠ some (.client r)) : Outcome p (.handle fd h) p :=
    .same (Same.refl hv) fun r hr => absurd hr (hnone r)
  unfold handle
  split
  · next r hslot =>
    have hstate := hv.state r (hv.slots fd r hslot).1
    have hsafe : p.Safe (.handle fd h) ↔
        h = .handled ∨ h = .refused ∧ (p.object r).attempts < p.maxConnectionAttempts := forall_slot_iff hslot
    simp only [if_neg hstate]
    by_cases hstarting : (p.object r).state = .starting
    · rw [if_pos hstarting]
      have hsame : Same p (p.modify r { p.object r with state := .started }) :=
        same_modify hv rfl rfl ConnectionState.noConfusion
      refine outcome_afterHandle (hv.of_same hsame) hsame h hslot ?_
      rw [object_modify_self]
      exact hsafe
    · rw [if_neg hstarting]
      exact outcome_afterHandle hv (Same.refl hv) h hslot hsafe
  · next hnone => exact hother hnone

theorem outcome_flush (hv : p.Valid) (i : ℕ) (f : Flushing) : Outcome p (.flush i f) (p.flush i f) := by
  have hother (hnone : ∀ r, p.connections.get i ≠ some (.client r)) : Outcome p (.flush i f) p :=
    .same (Same.refl hv) fun r hr => absurd hr (hnone r)
  unfold flush
  split
  · next r hslot =>
    have hstate := hv.state r (hv.slots i r hslot).1
    have hsafe : p.Safe (.flush i f) ↔ (p.object r).state ≠ .stopped ∧
        (f.throws = true ∧ (p.object r).state = .started ∨ f.expired = true ∧ (p.object r).state = .starting →
          (p.object r).attempts < p.maxConnectionAttempts) := forall_slot_iff hslot
    by_cases hthrows : f.throws = true ∧ (p.object r).state = .started
    · rw [if_pos hthrows]
      refine outcome_deactivate hv (Same.refl hv) hslot (hsafe.trans ⟨fun hs => hs.2 (.inl hthrows), fun hlt => ?_⟩)
      refine ⟨?_, fun _ => hlt⟩
      rw [hthrows.2]
      exact ConnectionState.noConfusion
    · rw [if_neg hthrows]
      split
      · next hst => exact .removed (Same.refl hv) hslot fun hs => (hsafe.1 hs).1 hst
      · next hst =>
        by_cases hexpired : f.expired = true
        · rw [if_pos hexpired]
          refine outcome_deactivate hv (Same.refl hv) hslot
            (hsafe.trans ⟨fun hs => hs.2 (.inr ⟨hexpired, hst⟩), fun hlt => ⟨?_, fun _ => hlt⟩⟩)
          rw [hst]
          exact ConnectionState.noConfusion
        · rw [if_neg hexpired]
          refine .same (Same.refl hv) (hsafe.2 ⟨?_, fun hs => ?_⟩)
          · rw [hst]
            exact ConnectionState.noConfusion
          · exact absurd hs (not_or.2 ⟨hthrows, fun hs => hexpired hs.1⟩)
      · next hst => exact absurd hst hstate
      · next hstopped hstarting _ =>
        exact .same (Same.refl hv) (hsafe.2 ⟨hstopped, fun hs => absurd hs
          (not_or.2 ⟨hthrows, fun hs => hstarting hs.2⟩)⟩)
  · next hnone => exact hother hnone

/-- **A step removes a client, adds a client, or leaves the tables alone.** -/
theorem Valid.outcome (hv : p.Valid) (e : Event P) : Outcome p e (p.step e) := by
  cases e with
  | addClient address => exact .added rfl
  | addServer => exact .same (same_addServer hv) trivial
  | removeOther fd => exact .same (same_removeOther hv fd) trivial
  | openOther => exact .same (same_openOther hv) trivial
  | closeOther fd => exact .same (same_closeOther hv fd) trivial
  | handle fd h => exact outcome_handle hv fd h
  | flush i f => exact outcome_flush hv i f
  | stop => exact .same (same_stop hv) trivial
  | processKernel k =>
    refine .same ?_ trivial
    simp only [step, processKernel]
    split
    · exact same_give hv _ (fun r hr => (hv.clients _ r hr).1) _
    · exact Same.refl hv
  | forward fk => exact .same (same_give hv _ (fun r hr => (hv.clients _ r hr).1) _) trivial

/-! #### Clients that come and go -/

theorem object_addClient_next (p : UnixSocketPipeline P) (address : SocketAddress) :
    (p.addClient address).object p.next = { socketAddress := address, fd := p.newSocket } := Function.update_self ..

theorem object_addClient (address : SocketAddress) (h : r < p.next) :
    (p.addClient address).object r = p.object r := Function.update_of_ne (Nat.ne_of_lt h) ..

theorem clients_addClient {a : SocketAddress} (h : (p.addClient address).clients a = some r) :
    p.clients a = some r ∨ r = p.next ∧ a = address ∧ p.clients address = none := by
  simp only [addClient, Function.update_apply] at h
  by_cases ha : a = address
  · subst ha
    rw [if_pos rfl] at h
    cases hclient : p.clients a with
    | none =>
      rw [hclient] at h
      exact .inr ⟨(Option.some.inj h).symm, rfl, rfl⟩
    | some r' =>
      rw [hclient] at h
      exact .inl h
  · rw [if_neg ha] at h
    exact .inl h

/-- The client table keeps the clients that it has. -/
theorem clients_addClient_of_some {a : SocketAddress} (h : p.clients a = some r) :
    (p.addClient address).clients a = some r := by
  simp only [addClient, Function.update_apply]
  by_cases ha : a = address
  · subst ha
    rw [if_pos rfl, h]
    rfl
  · rw [if_neg ha, h]

theorem get_addClient (p : UnixSocketPipeline P) (address : SocketAddress) :
    (p.addClient address).connections.get =
      Function.update p.connections.get p.newSocket (some (.client p.next)) := ConnectionTable.get_emplace ..

/-- **Adding a client** takes nobody's slot: the new descriptor is that of no connection. -/
theorem Valid.addClient (hv : p.Valid) (address : SocketAddress) : (p.addClient address).Valid where
  clients := by
    intro a r hr
    rcases clients_addClient hr with hr | ⟨rfl, rfl, -⟩
    · obtain ⟨hlt, ha⟩ := hv.clients a r hr
      exact ⟨hlt.trans (Nat.lt_succ_self _), by rw [object_addClient _ hlt, ha]⟩
    · exact ⟨Nat.lt_succ_self _, by rw [object_addClient_next]⟩
  first := by
    intro r hr
    rcases Nat.lt_succ_iff_lt_or_eq.1 hr with hlt | rfl
    · obtain ⟨r', hle, hr'⟩ := hv.first r hlt
      exact ⟨r', hle, by rw [object_addClient _ hlt]; exact clients_addClient_of_some hr'⟩
    · rw [object_addClient_next]
      cases hclient : p.clients address with
      | none =>
        refine ⟨p.next, le_rfl, ?_⟩
        simp only [UnixSocketPipeline.addClient, Function.update_self, hclient]
        rfl
      | some r' => exact ⟨r', (hv.clients address r' hclient).1.le, clients_addClient_of_some hclient⟩
  slots := by
    intro i r hr
    rw [get_addClient, Function.update_apply] at hr
    by_cases hi : i = p.newSocket
    · rw [if_pos hi] at hr
      cases hr
      refine ⟨Nat.lt_succ_self _, fun hmem => Nat.lt_irrefl _ (hv.removed _ hmem), ?_⟩
      rw [object_addClient_next, hi]
    · rw [if_neg hi] at hr
      obtain ⟨hlt, hnot, hfd⟩ := hv.slots i r hr
      exact ⟨hlt.trans (Nat.lt_succ_self _), hnot, by rw [object_addClient _ hlt, hfd]⟩
  connected := by
    intro r hr hnot
    rw [get_addClient, Function.update_apply]
    rcases Nat.lt_succ_iff_lt_or_eq.1 hr with hlt | rfl
    · have hslot := hv.connected r hlt hnot
      have hne : (p.object r).fd ≠ p.newSocket := by
        intro h
        rw [h, hv.get_newSocket] at hslot
        cases hslot
      rw [object_addClient _ hlt, if_neg hne, hslot]
    · rw [object_addClient_next, if_pos rfl]
  others := by
    intro i hi
    rw [get_addClient, Function.update_apply] at hi
    by_cases h : i = p.newSocket
    · simp [h] at hi
    · rw [if_neg h] at hi
      exact hv.others i hi
  removed := fun r hr => (hv.removed r hr).trans (Nat.lt_succ_self _)
  state := by
    intro r hr
    rcases Nat.lt_succ_iff_lt_or_eq.1 hr with hlt | rfl
    · rw [object_addClient _ hlt]
      exact hv.state r hlt
    · rw [object_addClient_next]
      exact ConnectionState.noConfusion

theorem get_remove (p : UnixSocketPipeline P) (fd r : ℕ) :
    (p.remove fd r).connections.get = Function.update p.connections.get fd none := ConnectionTable.get_erase ..

/-- **Removing a client** leaves the slots of the others alone. -/
theorem Valid.remove (hv : p.Valid) (hslot : p.connections.get fd = some (.client r)) : (p.remove fd r).Valid where
  clients := hv.clients
  first := hv.first
  slots := by
    intro i r' hr'
    rw [get_remove, Function.update_apply] at hr'
    by_cases hi : i = fd
    · rw [if_pos hi] at hr'
      cases hr'
    · rw [if_neg hi] at hr'
      obtain ⟨hlt, hnot, hfd⟩ := hv.slots i r' hr'
      refine ⟨hlt, fun hmem => ?_, hfd⟩
      rcases List.mem_cons.1 hmem with rfl | hmem
      · exact hi (hfd.symm.trans (hv.slots fd r' hslot).2.2)
      · exact hnot hmem
  connected := by
    intro r' hr' hnot
    obtain ⟨hne, hnot⟩ := not_or.1 (mt List.mem_cons.2 hnot)
    have hslot' := hv.connected r' hr' hnot
    have hfd : (p.object r').fd ≠ fd := by
      intro h
      rw [h, hslot] at hslot'
      cases hslot'
      exact hne rfl
    rw [get_remove]
    exact (Function.update_of_ne hfd ..).trans hslot'
  others := by
    intro i hi
    rw [get_remove, Function.update_apply] at hi
    by_cases h : i = fd
    · simp [h] at hi
    · rw [if_neg h] at hi
      exact hv.others i hi
  removed := by
    intro r' hr'
    rcases List.mem_cons.1 hr' with rfl | hr'
    · exact (hv.slots fd r' hslot).1
    · exact hv.removed r' hr'
  state := hv.state

/-- **Whatever happens, it stays valid.** -/
theorem Valid.step (hv : p.Valid) (e : Event P) : (p.step e).Valid := by
  have houtcome := hv.outcome e
  generalize p.step e = p' at houtcome ⊢
  cases houtcome with
  | same h => exact hv.of_same h
  | added => exact hv.addClient _
  | removed h hslot => exact (hv.of_same h).remove hslot

theorem valid_construct (maxConnectionAttempts : ℕ) (others : List ℕ) (pipe : ℕ) :
    (construct (P := P) maxConnectionAttempts others pipe).Valid := by
  have hget : (construct (P := P) maxConnectionAttempts others pipe).connections.get =
      Function.update ({} : ConnectionTable UnixEntry).get pipe (some .pipe) := ConnectionTable.get_emplace ..
  have hempty (i : ℕ) : ({} : ConnectionTable UnixEntry).get i = none := rfl
  have hclient (i r : ℕ) : (construct (P := P) maxConnectionAttempts others pipe).connections.get i ≠
      some (.client r) := by
    rw [hget, Function.update_apply, hempty]
    split <;> simp
  refine ⟨fun a r h => ?_, fun r h => ?_, fun i r h => absurd h (hclient i r), fun r h => ?_, fun i h => ?_,
    fun r h => ?_, fun r h => ?_⟩
  · cases h
  · exact absurd h (Nat.not_lt_zero r)
  · exact absurd h (Nat.not_lt_zero r)
  · rw [hget, Function.update_apply, hempty] at h
    by_cases hi : i = pipe
    · rw [hi]
      exact List.mem_cons_self
    · simp [hi] at h
  · exact absurd h List.not_mem_nil
  · exact absurd h (Nat.not_lt_zero r)

/-! ### Which steps keep the tables consistent -/

/-- The client table has the clients that are connected. -/
def Aligned (p : UnixSocketPipeline P) : Prop := ∀ address, p.clients address = p.current address

theorem current_eq_some_iff : p.current address = some r ↔ r < p.next ∧
    (r ∉ p.removed ∧ (p.object r).socketAddress = address) ∧
      ∀ r' < p.next, r' ∉ p.removed ∧ (p.object r').socketAddress = address → r' ≤ r := lastBelow_eq_some_iff

/-- A kernel tells to whom it has been given. -/
theorem give_injective (k : Kernel P) {x y : Option ℕ} (h : p.give x k = p.give y k) : x = y := by
  have hsent (x : Option ℕ) (r : ℕ) : ((p.give x k).object r).sent.length =
      (p.object r).sent.length + if x = some r then 1 else 0 := by
    cases x with
    | none => rfl
    | some r' =>
      by_cases hr : r = r'
      · subst hr
        simp [give]
      · simp [give, object_modify_of_ne _ hr, Ne.symm hr]
  have hiff (r : ℕ) : x = some r ↔ y = some r := by
    have hlength := hsent x r
    rw [h, hsent y r, Nat.add_left_cancel_iff] at hlength
    by_cases hx : x = some r <;> by_cases hy : y = some r <;> simp_all
  exact Option.ext hiff

/-- **The tables are consistent if and only if the client table has the clients that are connected.** -/
theorem Valid.consistent_iff (hv : p.Valid) : p.Consistent ↔ p.Aligned := by
  constructor
  · intro h address
    -- whatever the address, there is a kernel for it
    let fk : Kernel P := { Kernel.fresh 0 (.foreign []) with destination := address }
    exact give_injective fk (h.forwarded fk)
  · intro h
    have hcurrent (address : SocketAddress) (r : ℕ) (hr : p.clients address = some r) :
        r < p.next ∧ r ∉ p.removed := by
      rw [h] at hr
      obtain ⟨hlt, ⟨hnot, -⟩, -⟩ := current_eq_some_iff.1 hr
      exact ⟨hlt, hnot⟩
    refine ⟨fun address r hr => ?_, fun r hr => ⟨fun address hclient => ?_, fun i hi => ?_⟩, fun k hk => ?_,
      fun fk => ?_⟩
    · obtain ⟨hlt, hnot⟩ := hcurrent address r hr
      exact hv.connected r hlt hnot
    · exact (hcurrent address r hclient).2 hr
    · exact (hv.slots i r hi).2.1 hr
    · rw [processKernel, if_pos hk, h]
    · rw [forward, h]

theorem Same.aligned_iff (h : Same p p') : p'.Aligned ↔ p.Aligned := by
  unfold Aligned
  simp only [h.clients, h.current]

/-- **A client that is added** is found under its address if there has been none before. -/
theorem Valid.aligned_addClient_iff (hv : p.Valid) (h : p.Aligned) :
    (p.addClient address).Aligned ↔ p.clients address = none := by
  have hcurrent (a : SocketAddress) : (p.addClient address).current a =
      if address = a then some p.next else p.current a := by
    have hnext : p.next ∉ p.removed := fun hmem => Nat.lt_irrefl _ (hv.removed _ hmem)
    have hcongr : lastBelow (fun r => r ∉ p.removed ∧ ((p.addClient address).object r).socketAddress = a) p.next =
        p.current a := lastBelow_congr fun r hr => by rw [object_addClient _ hr]
    unfold UnixSocketPipeline.current
    show lastBelow (fun r => r ∉ p.removed ∧ ((p.addClient address).object r).socketAddress = a) (p.next + 1) = _
    rw [lastBelow, hcongr, object_addClient_next]
    simp only [hnext, not_false_eq_true, true_and]
    rfl
  constructor
  · intro h'
    cases hclient : p.clients address with
    | none => rfl
    | some r =>
      have haligned := h' address
      rw [clients_addClient_of_some hclient, hcurrent, if_pos rfl] at haligned
      exact absurd (Option.some.inj haligned) (Nat.ne_of_lt (hv.clients address r hclient).1)
  · intro hnone a
    rw [hcurrent]
    simp only [UnixSocketPipeline.addClient, Function.update_apply]
    by_cases ha : a = address
    · rw [if_pos ha, if_pos ha.symm, hnone]
      rfl
    · rw [if_neg ha, if_neg (Ne.symm ha), h]

/-- **A client that is removed** stays in the client table. -/
theorem Valid.not_aligned_remove (hv : p.Valid) (h : p.Aligned) (hslot : p.connections.get fd = some (.client r)) :
    ¬ (p.remove fd r).Aligned := by
  intro h'
  obtain ⟨hlt, hnot, -⟩ := hv.slots fd r hslot
  obtain ⟨r', hle, hclient⟩ := hv.first r hlt
  obtain ⟨-, -, hlast⟩ := current_eq_some_iff.1 ((h _).symm.trans hclient)
  obtain rfl : r' = r := Nat.le_antisymm hle (hlast r hlt ⟨hnot, rfl⟩)
  obtain ⟨-, ⟨hremoved, -⟩, -⟩ := current_eq_some_iff.1 ((h' _).symm.trans hclient)
  exact hremoved List.mem_cons_self

/-- **A step keeps the tables consistent if and only if it is safe.** -/
theorem Valid.consistent_step_iff (hv : p.Valid) (h : p.Consistent) (e : Event P) :
    (p.step e).Consistent ↔ p.Safe e := by
  rw [(hv.step e).consistent_iff]
  have haligned := hv.consistent_iff.1 h
  have houtcome := hv.outcome e
  generalize p.step e = p' at houtcome ⊢
  cases houtcome with
  | same hsame hsafe => exact ⟨fun _ => hsafe, fun _ => hsame.aligned_iff.2 haligned⟩
  | added he =>
    subst he
    exact hv.aligned_addClient_iff haligned
  | removed hsame hslot hunsafe =>
    have hnot := (hv.of_same hsame).not_aligned_remove (hsame.aligned_iff.2 haligned) hslot
    exact ⟨fun h => absurd h hnot, fun h => absurd h hunsafe⟩

/-! ### Runs -/

/-- The loop of the pipeline takes one step after the other. -/
theorem processConnections_eq (p : UnixSocketPipeline P) (events : List (ℕ × Handling)) (f : ℕ → Flushing) :
    ∃ es : List (Event P), p.processConnections events f = es.foldl step p := by
  let p' := events.foldl (fun p ev => p.handle ev.1 ev.2) p
  refine ⟨events.map (fun ev => .handle ev.1 ev.2) ++
    (List.range p'.connections.size).map fun i => .flush i (f i), ?_⟩
  rw [List.foldl_append, List.foldl_map, List.foldl_map]
  rfl

/-- Something holds of every state of a run. -/
def Always (q : UnixSocketPipeline P → Prop) : UnixSocketPipeline P → List (Event P) → Prop
  | p, [] => q p
  | p, e :: es => q p ∧ Always q (p.step e) es

/-- Every step of a run is safe. -/
def AllSafe : UnixSocketPipeline P → List (Event P) → Prop
  | _, [] => True
  | p, e :: es => p.Safe e ∧ AllSafe (p.step e) es

theorem Valid.always_consistent_iff (hv : p.Valid) (h : p.Consistent) (es : List (Event P)) :
    Always Consistent p es ↔ AllSafe p es := by
  induction es generalizing p with
  | nil => exact ⟨fun _ => trivial, fun _ => h⟩
  | cons e es ih =>
    constructor
    · rintro ⟨-, hrest⟩
      have hnext : (p.step e).Consistent := by
        cases es with
        | nil => exact hrest
        | cons e' es => exact hrest.1
      exact ⟨(hv.consistent_step_iff h e).1 hnext, (ih (hv.step e) hnext).1 hrest⟩
    · rintro ⟨hsafe, hrest⟩
      have hnext := (hv.consistent_step_iff h e).2 hsafe
      exact ⟨h, (ih (hv.step e) hnext).2 hrest⟩

theorem consistent_construct (maxConnectionAttempts : ℕ) (others : List ℕ) (pipe : ℕ) :
    (construct (P := P) maxConnectionAttempts others pipe).Consistent :=
  (valid_construct maxConnectionAttempts others pipe).consistent_iff.2 fun _ => rfl

/-- **The tables are always consistent if and only if every step is safe**: no client is removed, and none is added
under an address that an earlier one has had. -/
theorem consistent_iff_safe (maxConnectionAttempts : ℕ) (others : List ℕ) (pipe : ℕ) (es : List (Event P)) :
    Always Consistent (construct maxConnectionAttempts others pipe) es ↔
      AllSafe (construct maxConnectionAttempts others pipe) es :=
  (valid_construct maxConnectionAttempts others pipe).always_consistent_iff
    (consistent_construct maxConnectionAttempts others pipe) es

/-! ### An address that is used again -/

/-- The address of the unix socket `/s`. -/
def socketAddress : SocketAddress := ⟨[1, 0, 47, 115], by decide⟩

/-- A client connects, sends something and disconnects, and another one connects from the same address. -/
def usedAgain : List (Event Unit) :=
  [.addClient socketAddress, .handle 4 .handled, .handle 4 .bad, .addClient socketAddress]

/-- A result for whoever is there. -/
def result : Kernel Unit := { Kernel.fresh 0 (.foreign []) with phase := .downstream, destination := socketAddress }

/-- **The result goes to the client that has been disconnected**, and the one that is connected gets nothing. -/
theorem sent_usedAgain :
    ((usedAgain.foldl step (construct 2 [0, 1, 2] 3)).processKernel result).object 0 =
        ⟨socketAddress, 4, .started, 1, [result]⟩ ∧
      ((usedAgain.foldl step (construct 2 [0, 1, 2] 3)).processKernel result).object 1 =
        ⟨socketAddress, 5, .starting, 1, []⟩ := ⟨by decide +kernel, by decide +kernel⟩

/-- The tables are not consistent from the moment the client disconnects. -/
theorem consistent_fails :
    ¬ ∀ es : List (Event Unit), Always Consistent (construct 2 [0, 1, 2] 3) es := by
  intro h
  have hsafe := ((valid_construct 2 [0, 1, 2] 3).always_consistent_iff (consistent_construct 2 [0, 1, 2] 3)
    usedAgain).1 (h usedAgain)
  obtain ⟨-, -, hbad, -⟩ := hsafe
  rcases hbad 0 (by decide +kernel) with h | ⟨h, -⟩ <;> cases h

end UnixSocketPipeline

end Subordination.Daemon
