import Subordination.Daemon.Hierarchy
import Subordination.Daemon.TreeHierarchyIterator

/-!
# The discoverer

`discoverer` looks for the superior of a node: it probes the addresses that its iterator
gives it one by one, and the node that answers becomes the superior. The hierarchy goes
out to the nodes of the table whenever it changes.

## The model

A handler takes the discoverer to another one and to what it does besides: the kernels that
it sends, and its calls to the pipeline and the timer. A handler that never returns has no
result: that is what the loops of the iterator may do.
-/

namespace Subordination.Daemon

open Subordination.Core Subordination.Library
open Subordination.Core.Resources (Bindings)

/-! ### Kernels -/

/-- `probe`, with the fields of the kernel that the discoverer uses. -/
structure Probe where
  /-- `_ifaddr`. -/
  interfaceAddress : InterfaceAddress
  /-- `_old_superior`. -/
  oldSuperior : SocketAddress
  /-- `_new_superior`. -/
  newSuperior : SocketAddress
  /-- `_nodes`. -/
  nodes : List HierarchyNode
  /-- `source()`: the daemon that sent the probe. -/
  source : SocketAddress
  /-- `destination()`. -/
  destination : SocketAddress
  /-- `return_code()`. -/
  returnCode : ExitCode

/-- `return_to_parent(ret)`: the exit code is the one given, and the kernel goes downstream to
the daemon that it came from. -/
def Probe.returnToParent (p : Probe) (ret : ExitCode) : Probe :=
  { p with returnCode := ret, destination := p.source }

/-- `Hierarchy_kernel`, with the fields of the kernel that the discoverer uses. -/
structure HierarchyKernel where
  /-- `_interface_address`. -/
  interfaceAddress : InterfaceAddress
  /-- `_nodes`. -/
  nodes : List HierarchyNode
  /-- `source()`: the daemon that sent the kernel. -/
  source : SocketAddress
  /-- `destination()`. -/
  destination : SocketAddress
  /-- The phase is `downstream`: the kernel comes back to its sender. -/
  returned : Bool
  /-- `return_code()`. -/
  returnCode : ExitCode

/-- The kernels that daemons send each other. -/
inductive Message where
  /-- A probe in the point-to-point phase. -/
  | probe (p : Probe)
  /-- A probe in the downstream phase. -/
  | returned (p : Probe)
  /-- A hierarchy. -/
  | hierarchy (k : HierarchyKernel)

/-- What a handler does besides changing the discoverer. -/
inductive Action where
  /-- `factory.remote().send`. -/
  | send (m : Message)
  /-- `factory.remote().stop_client`. -/
  | stopClient (a : SocketAddress)
  /-- `factory.remote().update_clients`. -/
  | updateClients
  /-- `factory.remote().scheduler().local_resources`. -/
  | localResources (r : Bindings)
  /-- `factory.local().send` of a `discovery_timer`. -/
  | startTimer
  /-- `write_cache`. -/
  | writeCache

/-! ### The discoverer -/

/-- `discoverer::states`. -/
inductive States where
  /-- `initial`. -/
  | initial
  /-- `waiting`. -/
  | waiting
  /-- `probing`. -/
  | probing
  deriving DecidableEq, Repr

/-- `probe_result`. -/
inductive ProbeResult where
  /-- `add_subordinate`. -/
  | addSubordinate
  /-- `remove_subordinate`. -/
  | removeSubordinate
  /-- `reject_subordinate`. -/
  | rejectSubordinate
  /-- `retain`. -/
  | retain
  deriving DecidableEq, Repr

/-- `discoverer`. -/
structure Discoverer where
  /-- `_fanout`. -/
  fanout : ℕ
  /-- `_hierarchy`. -/
  hierarchy : Hierarchy
  /-- `_iterator`. -/
  iterator : TreeHierarchyIterator
  /-- `_state`. -/
  state : States
  /-- `_attempts`. -/
  attempts : ℕ
  /-- `_max_attempts`. -/
  maxAttempts : ℕ
  /-- `_max_radius`. -/
  maxRadius : ℕ

namespace Discoverer

/-- The outcome of a handler: the discoverer after it and what it has done besides. -/
abbrev Outcome := Discoverer × List Action

/-- `interface_address()`. -/
def interfaceAddress (d : Discoverer) : InterfaceAddress := d.hierarchy.interfaceAddress

/-- `reset_iterator`. -/
def resetIterator (d : Discoverer) : Option Discoverer := do
  let iterator ← TreeHierarchyIterator.construct d.interfaceAddress d.fanout 0 1
  pure { d with iterator }

/-- `discover_later`. -/
def discoverLater (d : Discoverer) : Outcome := ({ d with state := .waiting }, [.startTimer])

/-- The address that `*_iterator` makes with the port. -/
def candidate (d : Discoverer) : SocketAddress :=
  ipv4SocketAddress d.iterator.address d.hierarchy.port

/-- The probe that `discover` sends. -/
def newProbe (d : Discoverer) : Probe where
  interfaceAddress := d.interfaceAddress
  oldSuperior := d.hierarchy.superiorSocketAddress
  newSuperior := d.candidate
  nodes := [d.hierarchy.thisNode]
  source := d.hierarchy.socketAddress
  destination := d.candidate
  returnCode := .undefined

/-- `discover`. -/
def discover (d : Discoverer) : Option Outcome :=
  if d.iterator.atEnd then do
    let d ← d.resetIterator
    pure d.discoverLater
  else
    let attempts := d.attempts + 1
    if attempts ≥ d.maxAttempts then do
      let iterator ← d.iterator.next
      pure ({ d with attempts := 0, iterator }, [.send (.probe d.newProbe)])
    else pure ({ d with attempts }, [.send (.probe d.newProbe)])

/-- **What a search does**: it probes the next candidate, or it starts from the beginning later
when there is none. -/
theorem discover_cases (d : Discoverer) {o : Outcome} (h : d.discover = some o) :
    (d.iterator.atEnd = true ∧ ∃ d', d.resetIterator = some d' ∧ o = d'.discoverLater) ∨
      (¬ d.iterator.atEnd = true ∧ o.1.hierarchy = d.hierarchy ∧ o.1.state = d.state ∧
        o.2 = [.send (.probe d.newProbe)]) := by
  rw [discover] at h
  by_cases hend : d.iterator.atEnd = true
  · rw [if_pos hend] at h
    obtain ⟨d', hreset, heq⟩ := Option.bind_eq_some_iff.1 h
    exact Or.inl ⟨hend, d', hreset, (Option.some.inj heq).symm⟩
  · rw [if_neg hend] at h
    refine Or.inr ⟨hend, ?_⟩
    simp only at h
    split at h
    · obtain ⟨iterator, -, heq⟩ := Option.bind_eq_some_iff.1 h
      rw [← Option.some.inj heq]
      exact ⟨rfl, rfl, rfl⟩
    · rw [← Option.some.inj h]
      exact ⟨rfl, rfl, rfl⟩

/-- `on_timer`. -/
def onTimer (d : Discoverer) : Option Outcome :=
  if d.state ≠ .waiting then some (d, [])
  else
    (if d.hierarchy.hasSuperior then d.resetIterator else some d).bind fun d =>
      if d.hierarchy.superiorSocketAddress ≠ d.candidate then d.discover else some d.discoverLater

/-- `send_weight`. -/
def sendWeight (d : Discoverer) (destination : SocketAddress) (nodes : List HierarchyNode) : Action :=
  .send (.hierarchy
    { interfaceAddress := d.interfaceAddress, nodes, source := d.hierarchy.socketAddress,
      destination, returned := false, returnCode := .undefined })

/-- `broadcast_hierarchy`. -/
def broadcastHierarchy (d : Discoverer) (ignoredEndpoint : SocketAddress) : List Action :=
  let nodes := d.hierarchy.nodesWithin d.maxRadius
  (d.hierarchy.nodes.keys.filter (· ≠ ignoredEndpoint)).map (d.sendWeight · nodes) ++ [.writeCache]

/-- `process_probe`: what becomes of the node that has sent the probe, and the probe with the
exit code for it. -/
def processProbe (d : Discoverer) (p : Probe) : ProbeResult × Probe :=
  if p.source = d.hierarchy.superiorSocketAddress then
    (.rejectSubordinate, { p with returnCode := .error })
  else
    let result :=
      if p.oldSuperior ≠ p.newSuperior then
        if p.newSuperior = d.hierarchy.socketAddress then .addSubordinate
        else if p.oldSuperior = d.hierarchy.socketAddress then .removeSubordinate
        else .retain
      else .retain
    (result, { p with returnCode := .success })

/-- What `probe_received` does with the nodes of the probe, and whether that has changed the
hierarchy. -/
def mergeProbe (d : Discoverer) (result : ProbeResult) (nodes : List HierarchyNode) (now : TimePoint) :
    Hierarchy × Bool :=
  match nodes with
  | [] => (d.hierarchy, false)
  | front :: _ =>
    let (h, changed) := d.hierarchy.addNodes nodes now
    match result with
    | .addSubordinate =>
      let (h, changed') := h.addSubordinate front now
      (h, changed || changed')
    | .removeSubordinate =>
      let (h, changed') := h.removeNode front.socketAddress now
      (h, changed || changed')
    | .rejectSubordinate | .retain => (h, changed)

/-- What follows a change of the hierarchy. -/
def announce (d : Discoverer) (changed : Bool) (ignoredEndpoint : SocketAddress) : List Action :=
  if changed then .updateClients :: d.broadcastHierarchy ignoredEndpoint else []

/-- `probe_received`. -/
def probeReceived (d : Discoverer) (p : Probe) (now : TimePoint) : Outcome :=
  let src := p.source
  let (result, p) := d.processProbe p
  let (hierarchy, changed) := d.mergeProbe result p.nodes now
  let d := { d with hierarchy }
  let p := p.returnToParent .success
  let p := { p with nodes := d.hierarchy.nodesWithin d.maxRadius }
  (d, d.announce changed src ++ [.send (.returned p)])

/-- What `probe_returned` does with the nodes of the answer, and whether that has changed
the hierarchy. -/
def mergeAnswer (d : Discoverer) (p : Probe) (now : TimePoint) : Hierarchy × Bool :=
  match p.nodes with
  | [] => (d.hierarchy, false)
  | front :: _ =>
    let (h, changed) := d.hierarchy.addNodes p.nodes now
    let (h, changed') := h.addSuperior front now
    (h, changed || changed')

/-- The probe that tells the old superior of the new one. -/
def farewell (d : Discoverer) (p : Probe) : Probe where
  interfaceAddress := p.interfaceAddress
  oldSuperior := p.oldSuperior
  newSuperior := p.newSuperior
  nodes := []
  source := d.hierarchy.socketAddress
  destination := p.oldSuperior
  returnCode := .undefined

/-- The address of the first node, which is spared the broadcast. -/
def front (p : Probe) : SocketAddress := (p.nodes.head?.getD default).socketAddress

/-- `probe_returned`. -/
def probeReturned (d : Discoverer) (p : Probe) (now : TimePoint) : Option Outcome :=
  if p.returnCode ≠ .success then d.discover
  else if p.oldSuperior ≠ p.newSuperior then
    let stop := if p.oldSuperior.isSet then [.stopClient p.oldSuperior] else []
    let (hierarchy, changed) := d.mergeAnswer p now
    let d := { d with hierarchy }
    let farewell := if p.oldSuperior.isSet then [.send (.probe (d.farewell p))] else []
    let (d', later) := d.discoverLater
    pure (d', stop ++ (d.announce changed (front p) ++ (farewell ++ later)))
  else pure d.discoverLater

/-- `update_weights`. -/
def updateWeights (d : Discoverer) (k : HierarchyKernel) (now : TimePoint) : Outcome :=
  if k.returned ∧ k.returnCode ≠ .success then (d, [])
  else
    let (hierarchy, changed) := d.hierarchy.addNodes k.nodes now
    let d := { d with hierarchy }
    (d, d.announce changed k.source)

/-- `on_client_remove`. -/
def onClientRemove (d : Discoverer) (address : SocketAddress) (now : TimePoint) : Option Outcome := do
  let (hierarchy, removed) := d.hierarchy.removeNode address now
  let d := { d with hierarchy }
  let actions := if removed then d.broadcastHierarchy address else []
  if address = d.hierarchy.superiorSocketAddress then
    let (d, actions') ← d.discover
    pure (d, actions ++ actions')
  else pure (d, actions)

/-- `resources(rhs, now)`. -/
def setResources (d : Discoverer) (rhs : Bindings) (now : TimePoint) : Outcome :=
  let (hierarchy, changed) := d.hierarchy.setResources rhs now
  let d := { d with hierarchy }
  (d, if changed then .localResources rhs :: d.broadcastHierarchy .unset else [])

/-- `discoverer(interface_address, port, props)`. -/
def construct (a : InterfaceAddress) (netmask : ℕ) (port : UInt16) (fanout maxAttempts maxRadius : ℕ) :
    Option Discoverer := do
  let hierarchy := Hierarchy.construct a netmask port
  let iterator ← TreeHierarchyIterator.construct hierarchy.interfaceAddress fanout 0 1
  pure { fanout, hierarchy, iterator, state := .initial, attempts := 0, maxAttempts, maxRadius }

/-! ### Events -/

/-- What may happen to a discoverer. -/
inductive Event where
  /-- `on_start`. -/
  | start
  /-- A `discovery_timer`. -/
  | timer
  /-- A `probe` in the point-to-point phase. -/
  | probeReceived (p : Probe)
  /-- A `probe` in the downstream phase. -/
  | probeReturned (p : Probe)
  /-- A `Hierarchy_kernel`. -/
  | hierarchy (k : HierarchyKernel)
  /-- A `socket_pipeline_kernel` of the event `remove_client`. -/
  | removeClient (a : SocketAddress)
  /-- A `socket_pipeline_kernel` of another event, none of which has a handler that does
  anything. -/
  | otherPipelineEvent
  /-- `resources(rhs, now)`. -/
  | resources (rhs : Bindings)

/-- `on_start`, `on_kernel` and `resources`. -/
def handle (d : Discoverer) (e : Event) (now : TimePoint) : Option Outcome :=
  match e with
  | .start => d.discover
  | .timer => d.onTimer
  | .probeReceived p => some (d.probeReceived p now)
  | .probeReturned p => d.probeReturned p now
  | .hierarchy k => some (d.updateWeights k now)
  | .removeClient a => d.onClientRemove a now
  | .otherPipelineEvent => some (d, [])
  | .resources rhs => some (d.setResources rhs now)

end Discoverer

end Subordination.Daemon
