import Subordination.Core.Connection
import Subordination.Daemon.NodesBehind

/-!
# The scheduler

The scheduler decides where a kernel is executed: on the node itself, or on one of the nodes that are
behind its clients (`daemon/socket_pipeline.hh`, `daemon/socket_pipeline.cc`).

## The model

The clients are in a hash table. It is an association list here, in the order in which the table is
gone through, whatever that is. `schedule` changes the kernel that it is given, so the kernel is among
its results. An evaluation of the node filter that ends the process is an error.

## What is proved

* `Scheduler.schedule_idle` — without a client that is started, the kernel is for the node itself, and
  its filter is not looked at.
* `Scheduler.schedule_local` — otherwise, a kernel whose filter is false on the node itself does not stay
  there, unless it returns with `no_resources`.
-/

namespace Subordination.Daemon

open Subordination.Core Subordination.Library
open Subordination.Core.Resources (Bindings Expression Trap CString)

/-! ### Clients -/

/-- `connection::states`. -/
inductive ConnectionState where
  /-- `initial`. -/
  | initial
  /-- `starting`. -/
  | starting
  /-- `started`. -/
  | started
  /-- `stopping`. -/
  | stopping
  /-- `stopped`. -/
  | stopped
  /-- `inactive`. -/
  | inactive
  deriving DecidableEq, Repr

/-- `socket_pipeline_client`. -/
structure SocketPipelineClient (P : Type) where
  /-- The connection. -/
  connection : Connection P
  /-- `state()`. -/
  state : ConnectionState
  /-- `_nodes_behind`. -/
  nodesBehind : List HierarchyNode := []
  /-- `_sum_thread_concurrency`. -/
  sumThreadConcurrency : UInt32 := 1

namespace SocketPipelineClient

variable {P : Type}

/-- `nodes_behind(const hierarchy_node_array&)`. -/
def setNodesBehind (client : SocketPipelineClient P) (nodes : List HierarchyNode) : SocketPipelineClient P :=
  { client with nodesBehind := nodes, sumThreadConcurrency := threads nodes }

/-- `match`: one of the nodes behind the client matches the filter. -/
def matchFilter (client : SocketPipelineClient P) (nodeFilter : Expression) : Except Trap Bool :=
  client.nodesBehind.anyM fun n => Resources.Any.toBool <$> nodeFilter.evaluate n.resources

/-- `num_threads_behind()`, and `num_nodes_behind()`. -/
def numThreadsBehind (client : SocketPipelineClient P) : UInt32 := client.sumThreadConcurrency

/-- `load()`. -/
def load (client : SocketPipelineClient P) : WeightArray := client.connection.load

/-- `relative_load()`. Both numbers are divided by that of the threads. -/
def relativeLoad (client : SocketPipelineClient P) : ModularWeightArray :=
  let n : Weight := ⟨if client.numThreadsBehind = 0 then 1 else client.numThreadsBehind⟩
  { whole := ⟨client.load.whole.div n, client.load.whole.mod n⟩
    part := ⟨client.load.part.div n, client.load.part.mod n⟩ }

end SocketPipelineClient

/-- `client_table`, in the order in which it is gone through. -/
abbrev ClientTable (P : Type) := AList fun _ : SocketAddress => SocketPipelineClient P

/-- Some client is started. -/
def ClientTable.AnyStarted {P : Type} (clients : ClientTable P) : Prop :=
  ∃ pair ∈ clients.entries, pair.2.state = .started

instance {P : Type} (clients : ClientTable P) : Decidable clients.AnyStarted :=
  inferInstanceAs (Decidable (∃ pair ∈ clients.entries, pair.2.state = .started))

/-! ### The scheduler -/

/-- `file_system`. -/
structure FileSystem where
  /-- `name()`. -/
  name : CString
  /-- `locate`: the nodes where the file is. -/
  locate : CString → List SocketAddress

/-- `socket_pipeline_server`. -/
structure SocketPipelineServer where
  /-- `interface_address().contains`. -/
  contains : UInt32 → Bool
  /-- `socket_address()`. -/
  socketAddress : SocketAddress

/-- `socket_pipeline_scheduler`. -/
structure Scheduler where
  /-- `_file_systems`. -/
  fileSystems : List FileSystem := []
  /-- `_local_load`. -/
  localLoad : WeightArray := {}
  /-- `_local_resources`. -/
  localResources : Bindings := default
  /-- `_local`. -/
  isLocal : Bool := true

namespace Scheduler

variable {P : Type}

/-- `local_num_threads_behind()`. -/
def localNumThreadsBehind (s : Scheduler) : UInt32 :=
  (s.localResources.data Resources.totalThreads).toU64.toUInt32

/-- `local_relative_load()`. -/
def localRelativeLoad (s : Scheduler) : ModularWeightArray :=
  let n : Weight := ⟨if s.localNumThreadsBehind = 0 then 1 else s.localNumThreadsBehind⟩
  { whole := ⟨s.localLoad.whole, ⟨0⟩⟩
    part := ⟨s.localLoad.part.div n, s.localLoad.part.mod n⟩ }

/-- The file system of a path: the first one for an absolute path, or the one with the name in front of
the first colon. -/
def fileSystem (s : Scheduler) (path : List UInt8) : Option FileSystem :=
  if path.head? = some 47 then s.fileSystems.head?
  else match path.idxOf? 58 with
    | some i => s.fileSystems.find? fun f => f.name.1 = path.take i
    | none => none

/-- `_nodes`: the nodes where the file with the given path is. -/
def nodes (s : Scheduler) (path : List UInt8) : List SocketAddress :=
  match s.fileSystem path with
  | some fs => fs.locate (CString.ofBytes path)
  | none => []

/-- `node_filter_local_matches`. -/
def matchesLocally (s : Scheduler) (k : Kernel P) : Except Trap Bool :=
  match k.nodeFilter with
  | some nodeFilter => Resources.Any.toBool <$> nodeFilter.evaluate s.localResources
  | none => .ok true

/-- The clients that have been chosen so far. -/
structure Choice (P : Type) where
  /-- `result`. -/
  result : Option (SocketAddress × SocketPipelineClient P) := none
  /-- `result_with_nodes`. -/
  resultWithNodes : Option (SocketAddress × SocketPipelineClient P) := none

/-- What the loop over the clients does with one that is started and matches the filter. -/
def consider (s : Scheduler) (k : Kernel P) (matchesLocally : Bool) (choice : Choice P)
    (address : SocketAddress) (client : SocketPipelineClient P) : Choice P where
  result :=
    -- the kernel is not sent back
    if address = k.source then choice.result
    else match choice.result with
      | none =>
        if !s.isLocal || k.carriesParent || client.relativeLoad.le s.localRelativeLoad || !matchesLocally then
          some (address, client)
        else none
      | some previous =>
        if client.relativeLoad.lt previous.2.relativeLoad then some (address, client) else some previous
  resultWithNodes :=
    if client.connection.socketAddress ∈ s.nodes k.path then
      match choice.resultWithNodes with
      | none => some (address, client)
      | some previous =>
        if client.relativeLoad.lt previous.2.relativeLoad then some (address, client) else some previous
    else choice.resultWithNodes

/-- The loop over the clients. -/
def choose (s : Scheduler) (k : Kernel P) (matchesLocally : Bool) (clients : ClientTable P) :
    Except Trap (Choice P) :=
  clients.entries.foldlM (fun choice ⟨address, client⟩ =>
    if client.state ≠ .started then .ok choice
    else match k.nodeFilter with
      | none => .ok (s.consider k matchesLocally choice address client)
      | some nodeFilter => do
        if ← client.matchFilter nodeFilter then return s.consider k matchesLocally choice address client
        else return choice) {}

/-- `file_is_local`. -/
def fileIsLocal (s : Scheduler) (k : Kernel P) (servers : List SocketPipelineServer) : Bool :=
  (s.nodes k.path).any fun address => servers.any fun server => server.socketAddress = address

/-- Nodes where the file of the kernel is are preferred to others. -/
def prefer (s : Scheduler) (fileIsLocal : Bool) (choice : Choice P) : Option SocketAddress :=
  match choice.resultWithNodes with
  | some (address, client) =>
    if fileIsLocal && s.localRelativeLoad.lt client.relativeLoad then none else some address
  | none => if fileIsLocal then none else choice.result.map Prod.fst

/-- What becomes of the kernel when the client has been chosen. It returns if there is none and the node
does not have the resources either. -/
def settle (s : Scheduler) (k : Kernel P) (clients : ClientTable P) (matchesLocally : Bool) :
    Option SocketAddress → Scheduler × Kernel P × Option SocketAddress
  | some address => (s, k, some address)
  | none =>
    if matchesLocally then ({ s with localLoad := s.localLoad.add k.weights }, k, none)
    else if k.source.isSet ∧ k.source ∈ clients then (s, k.returnToParent .noResources, some k.source)
    else ({ s with localLoad := s.localLoad.add k.weights }, k.returnToParent .noResources, none)

/-- `schedule`. The address is that of the client the kernel is for. -/
def schedule (s : Scheduler) (k : Kernel P) (clients : ClientTable P) (servers : List SocketPipelineServer) :
    Except Trap (Scheduler × Kernel P × Option SocketAddress) :=
  if ¬ clients.AnyStarted then .ok (s, k, none)
  else do
    let matchesLocally ← s.matchesLocally k
    let choice ← s.choose k matchesLocally clients
    return s.settle k clients matchesLocally (s.prefer (s.fileIsLocal k servers) choice)

/-! ### Kernels that stay -/

/-- The kernel may be executed on the node: its filter is true of the resources there. -/
def Admits (s : Scheduler) (k : Kernel P) : Prop :=
  ∀ nodeFilter, k.nodeFilter = some nodeFilter → nodeFilter.Holds s.localResources

theorem admits_of_matchesLocally {s : Scheduler} {k : Kernel P} (h : s.matchesLocally k = .ok true) :
    s.Admits k := by
  intro nodeFilter hfilter
  simp only [matchesLocally, hfilter] at h
  cases hv : nodeFilter.evaluate s.localResources with
  | error t =>
    rw [hv] at h
    cases h
  | ok v =>
    rw [hv] at h
    exact ⟨v, hv, Except.ok.inj h⟩

variable {s s' : Scheduler} {k k' : Kernel P} {clients : ClientTable P} {servers : List SocketPipelineServer}

/-- The kernel is for the node itself if no client is started. -/
theorem schedule_idle (h : ¬ clients.AnyStarted) : s.schedule k clients servers = .ok (s, k, none) := by
  unfold schedule
  rw [if_pos h]

/-- If some client is started, the node and then the clients are looked at. -/
theorem schedule_started (hstarted : clients.AnyStarted) {outcome : Scheduler × Kernel P × Option SocketAddress}
    (h : s.schedule k clients servers = .ok outcome) : ∃ matchesLocally choice,
      s.matchesLocally k = .ok matchesLocally ∧ s.choose k matchesLocally clients = .ok choice ∧
        s.settle k clients matchesLocally (s.prefer (s.fileIsLocal k servers) choice) = outcome := by
  unfold schedule at h
  rw [if_neg (not_not.mpr hstarted)] at h
  cases hlocal : s.matchesLocally k with
  | error t =>
    rw [hlocal] at h
    cases h
  | ok matchesLocally =>
    simp only [bind, Except.bind, hlocal] at h
    cases hchoice : s.choose k matchesLocally clients with
    | error t =>
      rw [hchoice] at h
      cases h
    | ok choice =>
      rw [hchoice] at h
      exact ⟨matchesLocally, choice, rfl, hchoice, Except.ok.inj h⟩

/-- **A kernel that stays is admitted, or returns** with `no_resources`, if some client is started. -/
theorem schedule_local (hstarted : clients.AnyStarted)
    (h : s.schedule k clients servers = .ok (s', k', none)) :
    s.Admits k ∨ k' = k.returnToParent .noResources := by
  obtain ⟨matchesLocally, choice, hlocal, -, hsettle⟩ := schedule_started hstarted h
  cases matchesLocally with
  | true => exact Or.inl (admits_of_matchesLocally hlocal)
  | false =>
    refine Or.inr ?_
    cases hprefer : s.prefer (s.fileIsLocal k servers) choice with
    | some address =>
      rw [hprefer] at hsettle
      cases hsettle
    | none =>
      rw [hprefer, settle, if_neg Bool.false_ne_true] at hsettle
      split at hsettle
      · cases hsettle
      · cases hsettle
        rfl

end Scheduler

end Subordination.Daemon
