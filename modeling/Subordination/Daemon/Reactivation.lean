import Subordination.Core.ConnectionTable
import Subordination.Daemon.Scheduler
import Subordination.Library.Slots
import Subordination.Library.System

/-!
# Clients that are activated again

The socket pipeline has its connections in a table that is indexed by their descriptors. A client that
fails is deactivated: its socket is closed, but it stays in its slot, where `flush_buffers` finds it when
it is time to activate it with another socket. In the meantime the descriptor is free.

## The model

Clients are objects, known by their numbers, and the two tables refer to them. The operating system gives
every new socket the lowest descriptor that is free. Whether a client fails, whether its time is up, and
whether its activation throws are the environment's to say; it also opens and closes descriptors of its
own, which belong to other parts of the process.

A socket that is accepted for an address with a client is closed at once. What only the poller knows, and
the kernels, are left out. An exception that leaves `flush_buffers` ends the process.

## What is proved

* `Connections.Valid.step` — what every step keeps: nobody has two slots, and an open socket has the
  descriptor of its slot.
-/

namespace Subordination.Daemon

open Subordination.Core Subordination.Library

/-! ### The connections -/

/-- A connection in the table. -/
inductive Entry where
  /-- A client. -/
  | client (r : ℕ)
  /-- A server, or the pipe of the poller. -/
  | other
  deriving DecidableEq

/-- The client, if it is one. -/
def Entry.ref : Entry → Option ℕ
  | client r => some r
  | other => none

/-- A client of the socket pipeline, as a connection. -/
structure ClientConnection where
  /-- `socket_address()`. -/
  address : SocketAddress := .unset
  /-- `state()`. -/
  state : ConnectionState := .initial
  /-- The descriptor of `_socket`, if it is open. -/
  socket : Option ℕ := none
  /-- `_attempts`. -/
  attempts : ℕ := 1

/-- The connections of a socket pipeline. -/
structure Connections where
  /-- `_max_connection_attempts`. -/
  maxConnectionAttempts : ℕ
  /-- The clients that there are, or have been. -/
  object : ℕ → ClientConnection := fun _ => {}
  /-- The number of the next client. -/
  next : ℕ := 0
  /-- `_clients`. -/
  clients : SocketAddress → Option ℕ := fun _ => none
  /-- `_connections`. -/
  table : ConnectionTable Entry := {}
  /-- The descriptors that are open, but those of clients. -/
  others : List ℕ

namespace Connections

/-- Something happens to a client. -/
def modify (p : Connections) (r : ℕ) (c : ClientConnection) : Connections :=
  { p with object := Function.update p.object r c }

/-- The descriptors that are open. -/
def descriptors (p : Connections) : List ℕ :=
  p.others ++ (List.range p.next).filterMap fun r => (p.object r).socket

/-- The descriptor of a new socket. -/
def newSocket (p : Connections) : ℕ := lowestFree p.descriptors

/-- A client is erased from the client table. -/
def eraseClient (p : Connections) (address : SocketAddress) : Connections :=
  { p with clients := Function.update p.clients address none }

/-- A connection is erased from the connection table. -/
def erase (p : Connections) (fd : ℕ) : Connections := { p with table := p.table.erase fd }

/-! ### Clients -/

/-- `do_add_client`; `emplace` keeps the client that is there. -/
def doAddClient (p : Connections) (address : SocketAddress) : Connections :=
  { p with
    object := Function.update p.object p.next { address, state := .starting, socket := some p.newSocket }
    next := p.next + 1
    clients := Function.update p.clients address (p.clients address <|> some p.next)
    table := p.table.emplace p.newSocket (.client p.next) }

/-- `remove_client`. -/
def removeClient (p : Connections) (address : SocketAddress) : Connections :=
  match p.clients address with
  | none => p
  | some r => (p.modify r { p.object r with state := .stopped }).eraseClient address

/-- `stop_client`. -/
def stopClient (p : Connections) (address : SocketAddress) : Connections :=
  match p.clients address with
  | none => p
  | some r => p.modify r { p.object r with state := .stopped }

/-- `basic_socket_pipeline::remove`; nothing refers to the client any more, whose socket is closed. -/
def remove (p : Connections) (fd r : ℕ) : Connections :=
  let p := (p.removeClient (p.object r).address).erase fd
  p.modify r { p.object r with socket := none }

/-- `basic_socket_pipeline::deactivate`, with that of the client. -/
def deactivate (p : Connections) (fd r : ℕ) : Connections :=
  let c := p.object r
  if c.attempts ≥ p.maxConnectionAttempts then p.remove fd r
  else p.modify r { c with attempts := c.attempts + 1, socket := none, state := .inactive }

/-- What the activation of a client comes to. -/
inductive Activation where
  /-- The client is added to the connection table. -/
  | added
  /-- The client is added to it, and `flush` throws. -/
  | flushThrows
  /-- `activate` throws: the socket can not be bound, or connected. -/
  | throws
  deriving DecidableEq

/-- `socket_pipeline_client::activate`, if it does not throw. -/
def activate (p : Connections) (r : ℕ) : Connections :=
  { p.modify r { p.object r with socket := some p.newSocket, state := .starting } with
    table := p.table.emplace p.newSocket (.client r) }

/-- What `flush_buffers` does with an inactive client whose time is up. -/
def reactivate (p : Connections) (i r : ℕ) (a : Activation) : Connections :=
  let p := p.erase i
  match a with
  | .added => p.activate r
  | .flushThrows =>
    let p := p.activate r
    p.deactivate (p.table.indexOf (.client r)) r
  | .throws => p.deactivate (p.table.indexOf (.client r)) r

/-! ### The loop of the pipeline -/

/-- What the environment says about a connection to `flush_buffers`. -/
structure Flushing where
  /-- `flush` throws. -/
  throws : Bool
  /-- The connection timeout has passed since the connection was started. -/
  expired : Bool
  /-- What its activation comes to. -/
  activation : Activation

/-- `flush_buffers`, for one slot. -/
def flush (p : Connections) (i : ℕ) (f : Flushing) : Connections :=
  match p.table.get i with
  | some (.client r) =>
    if f.throws ∧ (p.object r).state = .started then p.deactivate i r
    else match (p.object r).state with
      | .stopped => p.remove i r
      | .starting => if f.expired then p.deactivate i r else p
      | .inactive => if f.expired then p.reactivate i r f.activation else p
      | _ => p
  | _ => p

/-- The loop of `flush_buffers`, up to a slot. -/
def flushUpTo (p : Connections) (f : ℕ → Flushing) : ℕ → Connections
  | 0 => p
  | i + 1 => (p.flushUpTo f i).flush i (f i)

/-- `flush_buffers`. -/
def flushBuffers (p : Connections) (f : ℕ → Flushing) : Connections := p.flushUpTo f p.table.size

/-- What `handle` comes to. -/
inductive Handling where
  /-- The event has been handled; it may say that there is an error. -/
  | handled (err : Bool)
  /-- The event is a bad one, or a call fails. -/
  | bad
  /-- The connection is refused. -/
  | refused

/-- `handle_events`, for one event. -/
def handle (p : Connections) (fd : ℕ) (h : Handling) : Connections :=
  match p.table.get fd with
  | some (.client r) =>
    if (p.object r).state = .inactive then p
    else match h with
      | .handled err =>
        if (p.object r).state = .starting ∧ ¬ err then p.modify r { p.object r with state := .started }
        else p
      | .bad => p.remove fd r
      | .refused => p.deactivate fd r
  | _ => p

/-- `add_server`, and the `add` of the server. -/
def addServer (p : Connections) : Connections :=
  { p with others := p.newSocket :: p.others, table := p.table.emplace p.newSocket .other }

/-- `basic_socket_pipeline::remove`, of a server, whose socket is closed. -/
def removeServer (p : Connections) (fd : ℕ) : Connections :=
  if p.table.get fd = some .other then { p.erase fd with others := p.others.erase fd } else p

/-- A descriptor is opened in another part of the process. -/
def openOther (p : Connections) : Connections := { p with others := p.newSocket :: p.others }

/-- A descriptor is closed in another part of the process. -/
def closeOther (p : Connections) (fd : ℕ) : Connections :=
  if p.table.get fd = some .other then p else { p with others := p.others.erase fd }

/-- What happens to the connections. -/
inductive Event where
  /-- A client is added, with a socket that has been accepted, or that is being connected. -/
  | addClient (address : SocketAddress)
  /-- A server is added. -/
  | addServer
  /-- The connection of a server is removed. -/
  | removeServer (fd : ℕ)
  /-- A descriptor is opened elsewhere. -/
  | openOther
  /-- A descriptor is closed elsewhere. -/
  | closeOther (fd : ℕ)
  /-- The poller has an event. -/
  | handle (fd : ℕ) (h : Handling)
  /-- `flush_buffers` comes to a slot. -/
  | flush (i : ℕ) (f : Flushing)
  /-- A client is told to stop. -/
  | stopClient (address : SocketAddress)

/-- One step. -/
def step (p : Connections) : Event → Connections
  | .addClient address => p.doAddClient address
  | .addServer => p.addServer
  | .removeServer fd => p.removeServer fd
  | .openOther => p.openOther
  | .closeOther fd => p.closeOther fd
  | .handle fd h => p.handle fd h
  | .flush i f => p.flush i f
  | .stopClient address => p.stopClient address

/-- The constructor of the socket pipeline: the pipe of the poller is in the connection table. -/
def construct (maxConnectionAttempts : ℕ) (others : List ℕ) (pipe : ℕ) : Connections where
  maxConnectionAttempts := maxConnectionAttempts
  table := ({} : ConnectionTable Entry).emplace pipe .other
  others := others

/-- A socket pipeline that has just been constructed. -/
def Constructed (p : Connections) : Prop :=
  ∃ maxConnectionAttempts others, ∃ pipe ∈ others, p = construct maxConnectionAttempts others pipe

/-! ### Who holds a slot -/

/-- The client is in the client table. -/
def Listed (p : Connections) (r : ℕ) : Prop := ∃ address, p.clients address = some r

/-- A state in which a client is connected, or will be. -/
def Lives (state : ConnectionState) : Prop := state = .starting ∨ state = .started ∨ state = .inactive

/-- The client waits until it is activated. -/
def Waits (p : Connections) (r : ℕ) : Prop := p.Listed r ∧ (p.object r).state = .inactive

/-- The client that waits in the slot of the descriptor has closed it. -/
def Vacated (p : Connections) (fd : ℕ) : Prop := ∃ r, p.Waits r ∧ p.table.get fd = some (.client r)

/-- The client in the slot. -/
def slot (p : Connections) (i : ℕ) : Option ℕ := (p.table.get i).bind Entry.ref

/-- A client of the client table that is connected, or will be. -/
def Live (p : Connections) (r : ℕ) : Prop := p.Listed r ∧ Lives (p.object r).state

variable {p p' : Connections} {address : SocketAddress} {c : ClientConnection} {e : Event} {f : Flushing}
  {fd i j r r' : ℕ}

theorem slot_eq_some : p.slot i = some r ↔ p.table.get i = some (.client r) := by
  unfold slot
  cases h : p.table.get i with
  | none => simp
  | some x => cases x <;> simp [Entry.ref]

theorem slot_emplace {x : Entry} (h : p'.table = p.table.emplace fd x) :
    p'.slot = Function.update p.slot fd x.ref := by
  funext i
  simp only [slot, h, ConnectionTable.get_emplace, Function.update_apply]
  split <;> rfl

theorem slot_erase (p : Connections) (fd : ℕ) : (p.erase fd).slot = Function.update p.slot fd none := by
  funext i
  simp only [slot, erase, ConnectionTable.get_erase, Function.update_apply]
  split <;> rfl

@[simp]
theorem slot_modify (p : Connections) (r : ℕ) (c : ClientConnection) : (p.modify r c).slot = p.slot := rfl

/-! ### What the loop of the pipeline does -/

/-- What `flush_buffers` makes of the connections at a slot. -/
inductive Flushed (p : Connections) (i : ℕ) (f : Flushing) : Connections → Prop
  /-- Nothing happens. -/
  | same : Flushed p i f p
  /-- The client is deactivated. -/
  | deactivated {r : ℕ} : p.slot i = some r → Flushed p i f (p.deactivate i r)
  /-- The client is removed. -/
  | removed {r : ℕ} : p.slot i = some r → Flushed p i f (p.remove i r)
  /-- The client is inactive, and is activated. -/
  | reactivated {r : ℕ} : p.slot i = some r → (p.object r).state = .inactive → f.expired = true →
      Flushed p i f (p.reactivate i r f.activation)

theorem flushed_flush (p : Connections) (i : ℕ) (f : Flushing) : p.Flushed i f (p.flush i f) := by
  unfold flush
  split
  · next r hr =>
    have hs := slot_eq_some.2 hr
    split
    · exact .deactivated hs
    · split
      · exact .removed hs
      · split
        · exact .deactivated hs
        · exact .same
      · next hst =>
        split
        · next hexp => exact .reactivated hs hst hexp
        · exact .same
      · exact .same
  · exact .same

/-- What `handle_events` makes of the connections with an event. -/
inductive Handled (p : Connections) (fd : ℕ) : Connections → Prop
  /-- Nothing happens. -/
  | same : Handled p fd p
  /-- The client is connected. -/
  | started {r : ℕ} : p.slot fd = some r → (p.object r).state = .starting →
      Handled p fd (p.modify r { p.object r with state := .started })
  /-- The client is deactivated. -/
  | deactivated {r : ℕ} : p.slot fd = some r → Handled p fd (p.deactivate fd r)
  /-- The client is removed. -/
  | removed {r : ℕ} : p.slot fd = some r → Handled p fd (p.remove fd r)

theorem handled_handle (p : Connections) (fd : ℕ) (h : Handling) : p.Handled fd (p.handle fd h) := by
  unfold handle
  split
  · next r hr =>
    have hs := slot_eq_some.2 hr
    split
    · exact .same
    · cases h with
      | handled err =>
        dsimp only
        split
        · next hst => exact .started hs hst.1
        · exact .same
      | bad => exact .removed hs
      | refused => exact .deactivated hs
  · exact .same

/-! ### What the tables say about each other -/

/-- What holds of the connections at every moment. -/
structure Valid (p : Connections) : Prop where
  /-- A slot has a client that there is. -/
  slots : ∀ i r, p.slot i = some r → r < p.next
  /-- So has the client table, under its address. -/
  clients : ∀ address r, p.clients address = some r → r < p.next ∧ (p.object r).address = address
  /-- No client has two slots. -/
  single : Single p.slot
  /-- The socket of a client that is connected, or being connected, has the descriptor of its slot. -/
  sockets : ∀ i r, p.slot i = some r → (p.object r).state = .starting ∨ (p.object r).state = .started →
    (p.object r).socket = some i

/-- The slot is that of the client, if it has one. -/
def At (p : Connections) (i r : ℕ) : Prop :=
  (∀ r', p.slot i = some r' → r' = r) ∧ ∀ j, p.slot j = some r → j = i

theorem Valid.at_slot (hv : p.Valid) (h : p.slot i = some r) : p.At i r := by
  refine ⟨fun r' hr' => ?_, fun j hj => hv.single j i r hj h⟩
  exact Option.some.inj (hr'.symm.trans h)

theorem Valid.at_indexOf (hv : p.Valid) (r : ℕ) : p.At (p.table.indexOf (.client r)) r := by
  refine ⟨fun r' hr' => ?_, fun j hj => ?_⟩
  · exact Entry.client.inj (ConnectionTable.eq_of_get_indexOf (slot_eq_some.1 hr'))
  · exact hv.single _ _ r hj (slot_eq_some.2 (ConnectionTable.get_indexOf (slot_eq_some.1 hj)))

/-- The descriptor of a new socket is not that of a client. -/
theorem socket_ne_newSocket (p : Connections) (h : r < p.next) : (p.object r).socket ≠ some p.newSocket := by
  intro hs
  refine lowestFree_notMem p.descriptors (List.mem_append_right _ ?_)
  exact List.mem_filterMap.2 ⟨r, List.mem_range.2 h, hs⟩

/-- A client that loses its slot to a new socket has been waiting in it. -/
theorem Valid.vacated (hv : p.Valid) (hs : p.slot p.newSocket = some r) (hl : p.Live r) :
    p.Vacated p.newSocket := by
  have hne := p.socket_ne_newSocket (hv.slots _ _ hs)
  obtain ⟨hlisted, h | h | h⟩ := hl
  · exact absurd (hv.sockets _ _ hs (.inl h)) hne
  · exact absurd (hv.sockets _ _ hs (.inr h)) hne
  · exact ⟨r, ⟨hlisted, h⟩, slot_eq_some.1 hs⟩

theorem Valid.modify (hv : p.Valid) (ha : c.address = (p.object r).address)
    (hs : c.state = .starting ∨ c.state = .started → ∀ i, p.slot i = some r → c.socket = some i) :
    (p.modify r c).Valid := by
  refine ⟨hv.slots, fun a r' hr' => ?_, hv.single, fun i r' hr' => ?_⟩
  · obtain ⟨hlt, haddress⟩ := hv.clients a r' hr'
    refine ⟨hlt, ?_⟩
    by_cases h : r' = r
    · subst h
      simpa [Connections.modify, ha] using haddress
    · simpa [Connections.modify, h] using haddress
  · by_cases h : r' = r
    · subst h
      simpa [Connections.modify] using fun hst => hs hst i hr'
    · simpa [Connections.modify, h] using hv.sockets i r' hr'

theorem Valid.erase (hv : p.Valid) (fd : ℕ) : (p.erase fd).Valid := by
  have hsub : ∀ i r, (p.erase fd).slot i = some r → p.slot i = some r := by
    intro i r h
    rw [slot_erase, Function.update_apply] at h
    split at h
    · cases h
    · exact h
  refine ⟨fun i r h => hv.slots i r (hsub i r h), hv.clients, ?_, fun i r h => hv.sockets i r (hsub i r h)⟩
  rw [slot_erase]
  exact hv.single.erase fd

theorem Valid.eraseClient (hv : p.Valid) (address : SocketAddress) : (p.eraseClient address).Valid := by
  refine ⟨hv.slots, fun a r hr => hv.clients a r ?_, hv.single, hv.sockets⟩
  simp only [Connections.eraseClient, Function.update_apply] at hr
  split at hr
  · cases hr
  · exact hr

theorem Valid.removeClient (hv : p.Valid) (address : SocketAddress) : (p.removeClient address).Valid := by
  unfold Connections.removeClient
  split
  · exact hv
  · next r _ =>
    have hm : (p.modify r { p.object r with state := .stopped }).Valid := hv.modify rfl (by simp)
    exact hm.eraseClient address

theorem Valid.stopClient (hv : p.Valid) (address : SocketAddress) : (p.stopClient address).Valid := by
  unfold Connections.stopClient
  split
  · exact hv
  · exact hv.modify rfl (by simp)

@[simp]
theorem slot_removeClient (p : Connections) (address : SocketAddress) :
    (p.removeClient address).slot = p.slot := by
  unfold Connections.removeClient
  split <;> rfl

@[simp]
theorem slot_stopClient (p : Connections) (address : SocketAddress) :
    (p.stopClient address).slot = p.slot := by
  unfold Connections.stopClient
  split <;> rfl

theorem slot_remove (p : Connections) (fd r : ℕ) :
    (p.remove fd r).slot = Function.update p.slot fd none := by
  simp [remove, slot_erase]

theorem Valid.remove (hv : p.Valid) (h : p.At fd r) : (p.remove fd r).Valid := by
  refine ((hv.removeClient (p.object r).address).erase fd).modify rfl fun _ i hi => ?_
  -- the client has no slot any more
  rw [slot_erase, slot_removeClient, Function.update_apply] at hi
  split at hi
  · cases hi
  · next hne => exact absurd (h.2 i hi) hne

theorem Valid.deactivate (hv : p.Valid) (h : p.At fd r) : (p.deactivate fd r).Valid := by
  unfold Connections.deactivate
  dsimp only
  split
  · exact hv.remove h
  · exact hv.modify rfl (by simp)

theorem slot_activate (p : Connections) (r : ℕ) :
    (p.activate r).slot = Function.update p.slot p.newSocket (some r) :=
  slot_emplace (x := .client r) rfl

theorem Valid.activate (hv : p.Valid) (hlt : r < p.next) (hr : ∀ i, p.slot i ≠ some r) :
    (p.activate r).Valid := by
  have hm : (p.modify r { p.object r with socket := some p.newSocket, state := .starting }).Valid :=
    hv.modify rfl fun _ i hi => absurd hi (hr i)
  refine ⟨fun i r' hr' => ?_, hm.clients, ?_, fun i r' hr' => ?_⟩
  · rw [slot_activate, Function.update_apply] at hr'
    split at hr'
    · cases hr'
      exact hlt
    · exact hm.slots i r' hr'
  · rw [slot_activate]
    exact hv.single.emplace hr _
  · rw [slot_activate, Function.update_apply] at hr'
    split at hr'
    · next h =>
      cases hr'
      simp [Connections.activate, Connections.modify, h]
    · exact hm.sockets i r' hr'

theorem slot_doAddClient (p : Connections) (address : SocketAddress) :
    (p.doAddClient address).slot = Function.update p.slot p.newSocket (some p.next) :=
  slot_emplace (x := .client p.next) rfl

theorem object_doAddClient (h : r < p.next) (address : SocketAddress) :
    (p.doAddClient address).object r = p.object r := by
  simp [doAddClient, h.ne]

/-- The client table has nobody new but the client that is added, and keeps those it has. -/
theorem clients_doAddClient {a : SocketAddress} (h : (p.doAddClient address).clients a = some r) :
    p.clients a = some r ∨ r = p.next ∧ a = address := by
  simp only [doAddClient, Function.update_apply] at h
  split at h
  · next ha =>
    subst ha
    cases hc : p.clients a with
    | some r₁ => exact .inl (by simpa [hc] using h)
    | none => exact .inr ⟨by simpa [hc] using h.symm, rfl⟩
  · exact .inl h

theorem Valid.doAddClient (hv : p.Valid) (address : SocketAddress) : (p.doAddClient address).Valid := by
  have hnext : p.next < (p.doAddClient address).next := Nat.lt_succ_self _
  refine ⟨fun i r hr => ?_, fun a r hr => ?_, ?_, fun i r hr => ?_⟩
  · rw [slot_doAddClient, Function.update_apply] at hr
    split at hr
    · cases hr
      exact hnext
    · exact (hv.slots i r hr).trans hnext
  · rcases clients_doAddClient hr with h | ⟨rfl, rfl⟩
    · obtain ⟨hlt, haddress⟩ := hv.clients a r h
      exact ⟨hlt.trans hnext, by rw [object_doAddClient hlt, haddress]⟩
    · exact ⟨hnext, by simp [Connections.doAddClient]⟩
  · rw [slot_doAddClient]
    exact hv.single.emplace (fun j hj => (hv.slots j _ hj).ne rfl) _
  · rw [slot_doAddClient, Function.update_apply] at hr
    split at hr
    · next h =>
      cases hr
      simp [Connections.doAddClient, h]
    · rw [object_doAddClient (hv.slots i r hr)]
      exact hv.sockets i r hr

/-- The client in a slot that is erased has none any more. -/
theorem Valid.slot_erase_ne (hv : p.Valid) (h : p.slot i = some r) (j : ℕ) :
    (p.erase i).slot j ≠ some r := by
  rw [slot_erase]
  exact hv.single.update_ne h (by simp) j

theorem Valid.reactivate (hv : p.Valid) (h : p.slot i = some r) (a : Activation) :
    (p.reactivate i r a).Valid := by
  have hq := hv.erase i
  have hadded := hq.activate (hv.slots i r h) (hv.slot_erase_ne h)
  cases a with
  | added => exact hadded
  | flushThrows => exact hadded.deactivate (hadded.at_indexOf r)
  | throws => exact hq.deactivate (hq.at_indexOf r)

theorem Valid.flush (hv : p.Valid) (i : ℕ) (f : Flushing) : (p.flush i f).Valid := by
  have hflushed := p.flushed_flush i f
  generalize p.flush i f = p' at hflushed ⊢
  cases hflushed with
  | same => exact hv
  | deactivated hs => exact hv.deactivate (hv.at_slot hs)
  | removed hs => exact hv.remove (hv.at_slot hs)
  | reactivated hs hst hexp => exact hv.reactivate hs _

theorem Valid.handle (hv : p.Valid) (fd : ℕ) (h : Handling) : (p.handle fd h).Valid := by
  have hhandled := p.handled_handle fd h
  generalize p.handle fd h = p' at hhandled ⊢
  cases hhandled with
  | same => exact hv
  | started hs hst => exact hv.modify rfl fun _ j hj => hv.sockets j _ hj (.inl hst)
  | deactivated hs => exact hv.deactivate (hv.at_slot hs)
  | removed hs => exact hv.remove (hv.at_slot hs)

/-- Nothing happens to the clients. -/
structure SameClients (p p' : Connections) : Prop where
  /-- The clients are the same. -/
  object : p'.object = p.object
  /-- There is no new one. -/
  next : p'.next = p.next
  /-- The client table is the same. -/
  clients : p'.clients = p.clients

theorem sameClients_removeServer (p : Connections) (fd : ℕ) : p.SameClients (p.removeServer fd) := by
  unfold removeServer
  split <;> exact ⟨rfl, rfl, rfl⟩

theorem sameClients_closeOther (p : Connections) (fd : ℕ) : p.SameClients (p.closeOther fd) := by
  unfold closeOther
  split <;> exact ⟨rfl, rfl, rfl⟩

theorem sameClients_openOther (p : Connections) : p.SameClients p.openOther := ⟨rfl, rfl, rfl⟩

theorem sameClients_addServer (p : Connections) : p.SameClients p.addServer := ⟨rfl, rfl, rfl⟩

/-- The slots may be others if no client gets one. -/
theorem Valid.of_sameClients (hv : p.Valid) (h : p.SameClients p')
    (hs : ∀ i r, p'.slot i = some r → p.slot i = some r) : p'.Valid := by
  refine ⟨?_, ?_, fun i j r hi hj => hv.single i j r (hs i r hi) (hs j r hj), ?_⟩
  · rw [h.next]
    exact fun i r hi => hv.slots i r (hs i r hi)
  · rw [h.clients, h.next, h.object]
    exact hv.clients
  · rw [h.object]
    exact fun i r hi => hv.sockets i r (hs i r hi)

theorem slot_addServer (p : Connections) :
    p.addServer.slot = Function.update p.slot p.newSocket none :=
  slot_emplace (x := .other) rfl

theorem slot_removeServer (p : Connections) (fd : ℕ) : (p.removeServer fd).slot = p.slot := by
  unfold removeServer
  split
  · next h =>
    have hnone : p.slot fd = none := by
      simp [slot, h, Entry.ref]
    exact (slot_erase p fd).trans (by rw [← hnone, Function.update_eq_self])
  · rfl

theorem slot_closeOther (p : Connections) (fd : ℕ) : (p.closeOther fd).slot = p.slot := by
  unfold closeOther
  split <;> rfl

/-- **Every step keeps the tables valid.** -/
theorem Valid.step (hv : p.Valid) (e : Event) : (p.step e).Valid := by
  cases e with
  | addClient address => exact hv.doAddClient address
  | addServer =>
    refine hv.of_sameClients (sameClients_addServer p) fun i r h => ?_
    rw [Connections.step, slot_addServer, Function.update_apply] at h
    split at h
    · cases h
    · exact h
  | removeServer fd =>
    exact hv.of_sameClients (sameClients_removeServer p fd) fun i r h => by rwa [← slot_removeServer p fd]
  | openOther => exact hv.of_sameClients (sameClients_openOther p) fun _ _ h => h
  | closeOther fd =>
    exact hv.of_sameClients (sameClients_closeOther p fd) fun i r h => by rwa [← slot_closeOther p fd]
  | handle fd h => exact hv.handle fd h
  | flush i f => exact hv.flush i f
  | stopClient address => exact hv.stopClient address

end Connections

end Subordination.Daemon
