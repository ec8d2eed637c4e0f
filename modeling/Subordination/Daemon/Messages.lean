import Subordination.Core.ForeignKernel
import Subordination.Daemon.HierarchyCache
import Subordination.Daemon.PipelineStatus

/-!
# The kernels of the discoverer on the wire

The probes and the hierarchies that daemons send each other are laid down in a kernel buffer and
taken from it (`daemon/probe.cc`, `daemon/hierarchy_kernel.cc`, `daemon/hierarchy_node.cc`).
`discoverer::on_kernel` tells them apart by their class and their phase.

## The model

`Message.IsKernel` says which kernels stand for a message: whatever else is in them is not looked at by
the discoverer that gets them. Every record of the vector is read into a new `hierarchy_node`, and an
interface address is its address and its mask. The source of a kernel is set by the connection that
reads it.

## What is proved

* **`Message.decoded`**: a message whose records can be sent is the same message for the daemon that
  decodes its frame, whatever comes after it.
* **`messages_arrive`**: so it is with every kernel of the network, if the resources that daemons are
  given can be sent.
-/

namespace Subordination.Core.Resources

/-- Bindings that can be read into new ones, whatever is in the local variables of the reader: all values
are of known types and of a length that fits. The number of threads, which new bindings have already, has
no text, and neither has any name. -/
structure Bindings.IsSendable (b : Bindings) : Prop where
  /-- The resources. -/
  data : ∀ r, (b.data r).Known ∧ (b.data r).Fits
  /-- The number of threads. -/
  threads : (b.data totalThreads).isText = false
  /-- The number of names. -/
  length : b.symbols.entries.length < 2 ^ 32
  /-- The names. -/
  symbols : ∀ x ∈ b.symbols.entries, x.1.length < 2 ^ 64 ∧ x.2.Known ∧ x.2.Fits ∧ x.2.isText = false

theorem isSendable_default : (default : Bindings).IsSendable where
  data r := by
    show Any.Known (if r = totalThreads then _ else _) ∧ Any.Fits (if r = totalThreads then _ else _)
    split <;> exact ⟨trivial, trivial⟩
  threads := rfl
  length := by
    show ([] : List (Σ _ : List UInt8, Any)).length < 2 ^ 32
    decide
  symbols _ hx := absurd hx List.not_mem_nil

end Subordination.Core.Resources

namespace Subordination.Daemon

open Subordination.Core Subordination.Library
open Subordination.Core.Resources (Bindings BindingCells Cell numResources)

/-! ### Records -/

/-- A new record takes a record with resources that can be sent. -/
theorem NodeCells.takes_initial [ByteOrder] {n : HierarchyNode} (h : n.resources.IsSendable) (x : ReadContext) :
    NodeCells.initial.Takes x n where
  socketAddress hset := absurd hset Bool.false_ne_true
  superiorSocketAddress hset := absurd hset Bool.false_ne_true
  resources := by
    refine ⟨fun r => ⟨(h.data r).1, (h.data r).2, fun htext hword => ?_⟩, h.length, fun y hy => (h.symbols y hy).2.1,
      fun i y hy => ?_⟩
    · -- the only element of a new array that is not zero is the number of threads
      by_cases hr : r = Resources.totalThreads
      · rw [hr, h.threads] at htext
        exact absurd htext Bool.false_ne_true
      · have hgarbage : NodeCells.initial.resources.data r = Cell.garbage 0 := if_neg hr
        rw [hgarbage] at hword
        exact absurd rfl hword
    · obtain ⟨hname, -, hfits, htext⟩ := h.symbols y (List.mem_of_getElem? hy)
      exact ⟨hname, hfits, fun htext' => absurd (htext.symm.trans htext') Bool.false_ne_true⟩

section Wire

variable [ByteOrder]

/-- The loop of `kernel_buffer::read(std::vector<T>&)` over records, each read into a new one. -/
def readNodes (xs : ℕ → ReadContext) : ℕ → ℕ → ReadM (List HierarchyNode)
  | _, 0 => pure []
  | i, n + 1 => do
    let c ← NodeCells.initial.read (xs i)
    let nodes ← readNodes xs (i + 1) n
    pure (c.value :: nodes)

/-- `kernel_buffer::read(std::vector<hierarchy_node>&)`. -/
def readNodeVector (xs : ℕ → ReadContext) : ReadM (List HierarchyNode) := do
  let n ← readInt 4
  readNodes xs 0 n

/-- The records of some nodes can be sent. -/
def AreSendable (nodes : List HierarchyNode) : Prop := ∀ n ∈ nodes, n.resources.IsSendable

/-- **Records that can be sent are read one after another.** -/
theorem reads_nodes (xs : ℕ → ReadContext) {nodes : List HierarchyNode} (h : AreSendable nodes) (i : ℕ) :
    ∃ nodes', Reads (readNodes xs i nodes.length) (nodes.map HierarchyNode.bytes).flatten nodes' ∧
      List.Forall₂ HierarchyNode.Same nodes' nodes := by
  induction nodes generalizing i with
  | nil => exact ⟨[], Reads.pure [], .nil⟩
  | cons n nodes ih =>
    have htakes := NodeCells.takes_initial (h n List.mem_cons_self) (xs i)
    obtain ⟨nodes', hreads, hsame⟩ := ih (fun m hm => h m (List.mem_cons_of_mem n hm)) (i + 1)
    refine ⟨(NodeCells.initial.after (xs i) n).value :: nodes', ?_, .cons (NodeCells.same_after htakes) hsame⟩
    exact (NodeCells.reads htakes).bind (hreads.bindPure rfl)

theorem reads_nodeVector (xs : ℕ → ReadContext) {nodes : List HierarchyNode} (h : AreSendable nodes)
    (hlength : nodes.length < 2 ^ 32) :
    ∃ nodes', Reads (readNodeVector xs) (vectorOf HierarchyNode.bytes nodes) nodes' ∧
      List.Forall₂ HierarchyNode.Same nodes' nodes := by
  obtain ⟨nodes', hreads, hsame⟩ := reads_nodes xs h 0
  refine ⟨nodes', ?_, hsame⟩
  rw [vectorOf, Nat.mod_eq_of_lt hlength, List.take_length]
  exact (reads_int (w := 4) hlength).bind hreads

/-! ### Interface addresses -/

/-- An IPv4 address is written as it is. -/
def ipv4Bytes (a : UInt32) : List UInt8 := Endian.big.encode 4 a.toNat

/-- `kernel_buffer::read(sys::ipv4_address&)`. -/
def readIpv4 : ReadM UInt32 := do
  let bs ← readBytes 4
  pure (UInt32.ofNat (Endian.big.decode bs))

omit [ByteOrder] in
theorem reads_ipv4 (a : UInt32) : Reads readIpv4 (ipv4Bytes a) a := by
  refine (HierarchyCells.reads_netmask a).bindPure ?_
  have hlt : a.toNat < 256 ^ 4 := by simpa using a.toNat_lt
  rw [Endian.decode_encode_of_lt Endian.big hlt, UInt32.ofNat_toNat]

/-- `kernel_buffer::write(const sys::interface_address<T>&)`, given the number of bits in the mask. -/
def InterfaceAddress.bytes (bits : ℕ) (a : InterfaceAddress) : List UInt8 :=
  ipv4Bytes a.address ++ ipv4Bytes (maskOf bits)

/-- `kernel_buffer::read(sys::interface_address<T>&)`. -/
def InterfaceAddress.read : ReadM InterfaceAddress := do
  let address ← readIpv4
  let netmask ← readIpv4
  pure (.ofAddress address (bitsOf netmask))

/-- The interface address is one with a mask of the given number of bits. -/
def InterfaceAddress.HasBits (bits : ℕ) (a : InterfaceAddress) : Prop := .ofAddress a.address bits = a

omit [ByteOrder] in
theorem InterfaceAddress.hasBits_ofAddress (address : UInt32) (bits : ℕ) : (ofAddress address bits).HasBits bits := by
  rw [HasBits, address_ofAddress]

omit [ByteOrder] in
theorem InterfaceAddress.reads {bits : ℕ} (hbits : bits ≤ 32) {a : InterfaceAddress} (ha : a.HasBits bits) :
    Reads InterfaceAddress.read (a.bytes bits) a := by
  refine (reads_ipv4 a.address).bind ((reads_ipv4 (maskOf bits)).bindPure ?_)
  rw [bitsOf_maskOf hbits]
  exact congrArg pure ha

/-! ### The classes -/

/-- What the kernels of the discoverer add to the fields of a kernel. -/
inductive MessageState where
  /-- `probe`: `_ifaddr`, `_old_superior`, `_new_superior` and `_nodes`. -/
  | probe (interfaceAddress : InterfaceAddress) (oldSuperior newSuperior : SocketAddress)
      (nodes : List HierarchyNode)
  /-- `Hierarchy_kernel`: `_interface_address` and `_nodes`. -/
  | hierarchy (interfaceAddress : InterfaceAddress) (nodes : List HierarchyNode)

/-- What `probe::write` and `Hierarchy_kernel::write` write after `kernel::write`. -/
def MessageState.bytes (bits : ℕ) : MessageState → List UInt8
  | .probe interfaceAddress oldSuperior newSuperior nodes =>
    interfaceAddress.bytes bits ++ (oldSuperior.wire ++ (newSuperior.wire ++ vectorOf HierarchyNode.bytes nodes))
  | .hierarchy interfaceAddress nodes => interfaceAddress.bytes bits ++ vectorOf HierarchyNode.bytes nodes

/-- `probe`, on a subnet with a mask of the given number of bits. -/
def probeClass (bits : ℕ) (xs : ℕ → ReadContext) : KernelClass MessageState where
  initial := .probe (.ofAddress 0 0) .unset .unset []
  write state := writeBytes (state.bytes bits)
  read := do
    let interfaceAddress ← InterfaceAddress.read
    let oldSuperior ← SocketAddress.unset.readOver
    let newSuperior ← SocketAddress.unset.readOver
    let nodes ← readNodeVector xs
    pure (.probe interfaceAddress oldSuperior newSuperior nodes)

/-- `Hierarchy_kernel`. -/
def hierarchyClass (bits : ℕ) (xs : ℕ → ReadContext) : KernelClass MessageState where
  initial := .hierarchy (.ofAddress 0 0) []
  write state := writeBytes (state.bytes bits)
  read := do
    let interfaceAddress ← InterfaceAddress.read
    let nodes ← readNodeVector xs
    pure (.hierarchy interfaceAddress nodes)

/-- The type of a probe, as `sbnd` registers it. -/
def probeType : KernelType := ⟨2, "sbnd::probe"⟩

/-- The type of a hierarchy, as `sbnd` registers it. -/
def hierarchyType : KernelType := ⟨3, "sbnd::Hierarchy_kernel"⟩

/-- The class of a kernel of the discoverer: every other class is none of its. -/
def messageClass (bits : ℕ) (xs : ℕ → ReadContext) (index : String) : KernelClass MessageState :=
  if index = probeType.index then probeClass bits xs else hierarchyClass bits xs

/-- The types that `sbnd` registers, as far as the discoverer sends kernels of them. -/
def messageTypes : KernelTypeRegistry := { types := [probeType, hierarchyType] }

/-- A daemon, which has no application id of its own, reading in some context. -/
def daemonProcess (bits : ℕ) (xs : ℕ → ReadContext) : Process MessageState where
  thisApplication := 0
  types := some messageTypes
  classes := messageClass bits xs

/-! ### Messages and kernels -/

end Wire

namespace Message

/-- The address of the interface that a message names. -/
def interfaceAddress : Message → InterfaceAddress
  | .probe p => p.interfaceAddress
  | .returned p => p.interfaceAddress
  | .hierarchy k => k.interfaceAddress

/-- `source()`. -/
def source : Message → SocketAddress
  | .probe p => p.source
  | .returned p => p.source
  | .hierarchy k => k.source

/-- `destination()`. -/
def destination : Message → SocketAddress
  | .probe p => p.destination
  | .returned p => p.destination
  | .hierarchy k => k.destination

/-- `return_code()`. -/
def returnCode : Message → ExitCode
  | .probe p => p.returnCode
  | .returned p => p.returnCode
  | .hierarchy k => k.returnCode

/-- `phase()`. -/
def phase : Message → Phases
  | .probe _ => .pointToPoint
  | .returned _ => .downstream
  | .hierarchy k => if k.returned then .downstream else .pointToPoint

/-- The type of the kernel. -/
def type : Message → KernelType
  | .probe _ | .returned _ => probeType
  | .hierarchy _ => hierarchyType

/-- What the class of the kernel adds to it. -/
def state : Message → MessageState
  | .probe p | .returned p => .probe p.interfaceAddress p.oldSuperior p.newSuperior p.nodes
  | .hierarchy k => .hierarchy k.interfaceAddress k.nodes

/-- The message with other records. -/
def withNodes (nodes : List HierarchyNode) : Message → Message
  | .probe p => .probe { p with nodes }
  | .returned p => .returned { p with nodes }
  | .hierarchy k => .hierarchy { k with nodes }

/-- The messages are the same but for the times of the last changes of their records. -/
def Same (m' m : Message) : Prop := ∃ nodes, m' = m.withNodes nodes ∧ List.Forall₂ HierarchyNode.Same nodes m.nodes

/-- The kernel of a message, as a daemon writes it. Its parent and its principal do not matter to the
discoverer that gets it, nor do its ids. -/
structure IsKernel (m : Message) (k : Kernel MessageState) : Prop where
  /-- The class, and what it adds. -/
  payload : k.payload = .native m.type.index m.state
  /-- The destination. -/
  destination : k.destination = m.destination
  /-- The exit code. -/
  result : k.result = m.returnCode
  /-- The phase. -/
  phase : k.phase = m.phase
  /-- It is for a daemon. -/
  target : k.targetApplicationId = 0
  /-- No one sets a node filter. -/
  nodeFilter : k.nodeFilter = none
  /-- The parent, which is the discoverer, stays where it is. -/
  carriesParent : k.carriesParent = false

/-- A kernel of which nothing else is set. -/
def toKernel (m : Message) : Kernel MessageState :=
  { Kernel.fresh 0 (.native m.type.index m.state) with
    destination := m.destination, result := m.returnCode, phase := m.phase }

theorem isKernel_toKernel (m : Message) : m.IsKernel m.toKernel where
  payload := rfl
  destination := rfl
  result := rfl
  phase := rfl
  target := rfl
  nodeFilter := rfl
  carriesParent := BitVec.getLsbD_zero

/-- The message that `on_kernel` makes of a kernel from the given source. -/
def ofKernel (source : SocketAddress) (k : Kernel MessageState) : Option Message :=
  match k.payload with
  | .native _ (.probe interfaceAddress oldSuperior newSuperior nodes) =>
    let p : Probe := { interfaceAddress, oldSuperior, newSuperior, nodes, source, destination := k.destination,
                       returnCode := k.result }
    if k.phase = .downstream then some (.returned p)
    else if k.phase = .pointToPoint then some (.probe p)
    else none
  | .native _ (.hierarchy interfaceAddress nodes) =>
    some (.hierarchy { interfaceAddress, nodes, source, destination := k.destination,
                       returned := k.phase = .downstream, returnCode := k.result })
  | .foreign _ => none

theorem type_mem (m : Message) : m.type ∈ messageTypes.types := by
  cases m with
  | probe p => exact List.mem_cons_self
  | returned p => exact List.mem_cons_self
  | hierarchy k => exact List.mem_cons_of_mem _ List.mem_cons_self

/-- **A kernel is told apart by its class and its phase.** -/
theorem ofKernel_eq (m : Message) {nodes : List HierarchyNode} {k : Kernel MessageState} {index : String}
    (hpayload : k.payload = .native index (m.withNodes nodes).state) (hdestination : k.destination = m.destination)
    (hresult : k.result = m.returnCode) (hphase : k.phase = m.phase) :
    ofKernel m.source k = some (m.withNodes nodes) := by
  rw [ofKernel, hpayload, hdestination, hresult, hphase]
  cases m with
  | probe p => rfl
  | returned p => rfl
  | hierarchy k =>
    have hreturned : decide ((Message.hierarchy k).phase = Phases.downstream) = k.returned := by
      rw [phase]
      cases k.returned with
      | false => rfl
      | true => rfl
    simp only [withNodes, state, destination, returnCode, source, hreturned]

section Wire

variable [ByteOrder] {bits : ℕ} {xs : ℕ → ReadContext}

theorem writes_state (m : Message) :
    Writes (((daemonProcess bits xs).classes m.type.index).write m.state) (m.state.bytes bits) := by
  cases m with
  | probe p => exact writes_bytes _
  | returned p => exact writes_bytes _
  | hierarchy k => exact writes_bytes _

/-- A probe is read with records that say the same. -/
theorem reads_probe (hbits : bits ≤ 32) {a : InterfaceAddress} (ha : a.HasBits bits)
    (oldSuperior newSuperior : SocketAddress) {nodes nodes' : List HierarchyNode}
    (hnodes : Reads (readNodeVector xs) (vectorOf HierarchyNode.bytes nodes) nodes') :
    Reads (probeClass bits xs).read (MessageState.bytes bits (.probe a oldSuperior newSuperior nodes))
      (.probe a oldSuperior newSuperior nodes') := by
  have hover (b : SocketAddress) : SocketAddress.unset.overlay b = b :=
    SocketAddress.overlay_eq_iff.2 fun hset => absurd hset Bool.false_ne_true
  have hreads (b : SocketAddress) : Reads SocketAddress.unset.readOver b.wire b := by
    have := SocketAddress.reads_over .unset b
    rwa [hover] at this
  exact (InterfaceAddress.reads hbits ha).bind <| (hreads oldSuperior).bind <| (hreads newSuperior).bind <|
    hnodes.bindPure rfl

/-- **What the class of a message writes it reads**, but for the times of the last changes. -/
theorem reads_state (m : Message) (hbits : bits ≤ 32) (haddress : m.interfaceAddress.HasBits bits)
    (hnodes : AreSendable m.nodes) (hlength : m.nodes.length < 2 ^ 32) :
    ∃ nodes, Reads ((daemonProcess bits xs).classes m.type.index).read (m.state.bytes bits)
        (m.withNodes nodes).state ∧
      List.Forall₂ HierarchyNode.Same nodes m.nodes := by
  obtain ⟨nodes, hreads, hsame⟩ := reads_nodeVector xs hnodes hlength
  refine ⟨nodes, ?_, hsame⟩
  cases m with
  | probe p => exact reads_probe hbits haddress p.oldSuperior p.newSuperior hreads
  | returned p => exact reads_probe hbits haddress p.oldSuperior p.newSuperior hreads
  | hierarchy k => exact (InterfaceAddress.reads hbits haddress).bind (hreads.bindPure rfl)

/-- **A message is decoded as it was sent**, whatever comes after its frame, if its records can be sent and
its frame is shorter than `2 ^ 32` bytes. -/
theorem decoded (m : Message) (hbits : bits ≤ 32) (haddress : m.interfaceAddress.HasBits bits)
    (hnodes : AreSendable m.nodes) (hlength : m.nodes.length < 2 ^ 32) {k : Kernel MessageState} (hk : m.IsKernel k)
    (mem : Memory MessageState) (hsize : kernelFraming.Fits (k.packet mem m.type.id (m.state.bytes bits))) :
    ∃ frame k' m', (daemonProcess bits xs).encode mem k = some frame ∧
      (∀ rest, (daemonProcess bits xs).decode (frame ++ rest) =
        some { received := { kernel := k' }, unread := [], rest }) ∧
      ofKernel m.source k' = some m' ∧ m'.Same m := by
  obtain ⟨nodes, hreads, hsame⟩ := m.reads_state hbits haddress hnodes hlength
  have hlt : (k.packet mem m.type.id (m.state.bytes bits)).length < 2 ^ 64 := by
    have : 4 + (k.packet mem m.type.id (m.state.bytes bits)).length < 2 ^ 32 := hsize
    omega
  have henc : k.Encodable := Kernel.encodable_of_length hlt fun e he => absurd (hk.nodeFilter.symm.trans he) nofun
  have hwrites : Writes ((daemonProcess bits xs).write mem k) (k.packet mem m.type.id (m.state.bytes bits ++ [])) :=
    Process.writes_packet rfl m.type_mem hk.payload m.writes_state (Process.writes_no_parent hk.carriesParent)
  rw [List.append_nil] at hwrites
  have hreads : ReadsAll (daemonProcess bits xs).read (k.packet mem m.type.id (m.state.bytes bits))
      { kernel := k.asNative (daemonProcess bits xs) mem m.type (m.withNodes nodes).state } :=
    Process.read_native henc hk.target rfl m.type_mem hreads hk.carriesParent
  refine ⟨_, _, m.withNodes nodes, Process.encode_eq (writes_frame hwrites Kernel.packet_ne_nil hsize),
    fun rest => Process.decode_frame hreads hsize, ?_, nodes, rfl, hsame⟩
  exact m.ofKernel_eq rfl hk.destination hk.result hk.phase

end Wire

end Message

/-! ### Resources that can be sent -/

namespace Hierarchy

variable {h : Hierarchy} {now : TimePoint}

/-- All records of a hierarchy can be sent. -/
def IsSendable (h : Hierarchy) : Prop := ∀ r, h.Has r → r.resources.IsSendable

end Hierarchy

/-- What a call brings in can be sent. -/
def Mutator.IsSendable : Mutator → Prop
  | .addNodes nodes => AreSendable nodes
  | .resources rhs => rhs.IsSendable
  | .addSuperior _ | .addSubordinate _ | .removeNode _ => True

namespace Hierarchy

variable {h : Hierarchy} {now : TimePoint}

/-- The own resources after a call are those before it, or those that are set. -/
theorem resources_apply (h : Hierarchy) (m : Mutator) (now : TimePoint) :
    (h.apply m now).1.thisNode.resources = h.thisNode.resources ∨
      m = .resources (h.apply m now).1.thisNode.resources := by
  have hincrement (n : HierarchyNode) : n.incrementVersion.resources = n.resources := by
    rw [HierarchyNode.incrementVersion]
    split <;> rfl
  cases m with
  | addNodes nodes =>
    rw [apply, thisNode_addNodes]
    exact Or.inl rfl
  | addSuperior node =>
    rw [apply, addSuperior]
    split
    · exact Or.inl (hincrement _)
    · exact Or.inl rfl
  | addSubordinate node =>
    rw [apply, addSubordinate]
    split
    · exact Or.inl rfl
    · exact Or.inl rfl
  | removeNode sa =>
    rw [apply, (h.removeNode_spec sa now).1]
    exact Or.inl (h.unsetSuperior_spec sa now).2.2.2.1
  | resources rhs =>
    rw [apply, setResources]
    split
    · exact Or.inl rfl
    · exact Or.inr (congrArg Mutator.resources (hincrement { h.thisNode with resources := rhs }).symm)

theorem IsSendable.apply (hh : h.IsSendable) {m : Mutator} (hm : m.IsSendable) (hfinds : h.Finds m) :
    (h.apply m now).1.IsSendable := by
  intro r' hr'
  rcases has_apply hfinds hr' with ⟨r, hr, hcopy⟩ | ⟨rfl, -⟩
  · rw [hcopy.resources_eq]
    rcases hr with hr | hr
    · exact hh r hr
    · cases m with
      | addNodes nodes => exact hm r hr
      | addSuperior node => exact absurd hr List.not_mem_nil
      | addSubordinate node => exact absurd hr List.not_mem_nil
      | removeNode sa => exact absurd hr List.not_mem_nil
      | resources rhs => exact absurd hr List.not_mem_nil
  · rcases h.resources_apply m now with heq | heq
    · rw [heq]
      exact hh h.thisNode (Or.inl rfl)
    · rw [heq] at hm
      exact hm

theorem IsSendable.applyAll (hh : h.IsSendable) {calls : List Mutator} (hcalls : ∀ m ∈ calls, m.IsSendable)
    (hfinds : h.FindsAll now calls) : (h.applyAll calls now).IsSendable := by
  induction calls generalizing h with
  | nil => exact hh
  | cons m calls ih =>
    exact ih (hh.apply (hcalls m List.mem_cons_self) hfinds.1)
      (fun m' hm' => hcalls m' (List.mem_cons_of_mem m hm')) hfinds.2

end Hierarchy

/-! ### The addresses that messages name -/

namespace Discoverer

variable {d : Discoverer} {o : Outcome} {now : TimePoint} {P : InterfaceAddress → Prop}

/-- The addresses that the messages among some actions name have a property. -/
def Names (P : InterfaceAddress → Prop) (actions : List Action) : Prop := ∀ m ∈ sends actions, P m.interfaceAddress

theorem Names.append {xs ys : List Action} (hxs : Names P xs) (hys : Names P ys) : Names P (xs ++ ys) := by
  intro m hm
  rw [sends_append] at hm
  rcases List.mem_append.1 hm with hm | hm
  · exact hxs m hm
  · exact hys m hm

theorem Names.of_sends_eq_nil {actions : List Action} (hsends : sends actions = []) : Names P actions := by
  intro m hm
  rw [hsends] at hm
  exact absurd hm List.not_mem_nil

theorem names_send {m : Message} (hm : P m.interfaceAddress) : Names P [.send m] := by
  intro m' hm'
  obtain rfl := List.mem_singleton.1 hm'
  exact hm

theorem names_broadcastHierarchy (hd : P d.interfaceAddress) (ignoredEndpoint : SocketAddress) :
    Names P (d.broadcastHierarchy ignoredEndpoint) := by
  refine Names.append (fun m hm => ?_) (Names.of_sends_eq_nil rfl)
  rw [mem_sends] at hm
  obtain ⟨a, -, ha⟩ := List.mem_map.1 hm
  rw [sendWeight, Action.send.injEq] at ha
  subst ha
  exact hd

theorem names_announce (hd : P d.interfaceAddress) (changed : Bool) (ignoredEndpoint : SocketAddress) :
    Names P (d.announce changed ignoredEndpoint) := by
  cases changed with
  | false => exact Names.of_sends_eq_nil rfl
  | true => exact names_broadcastHierarchy hd ignoredEndpoint

theorem names_discover (hd : P d.interfaceAddress) (h : d.discover = some o) : Names P o.2 := by
  obtain ⟨-, d', -, rfl⟩ | ⟨-, -, -, hactions⟩ := d.discover_cases h
  · exact Names.of_sends_eq_nil rfl
  · rw [hactions]
    exact names_send hd

theorem names_takeSuperior {p : Probe} (hp : P p.interfaceAddress)
    (hd : P (d.mergeAnswer p now).1.interfaceAddress) : Names P (d.takeSuperior p now) := by
  refine Names.append ?_ (Names.append ?_ ?_)
  · split
    · exact Names.of_sends_eq_nil rfl
    · exact Names.of_sends_eq_nil rfl
  · exact names_announce (d := { d with hierarchy := (d.mergeAnswer p now).1 }) hd _ _
  · split
    · exact names_send hp
    · exact Names.of_sends_eq_nil rfl

/-- The address that a kernel which comes to a daemon names. -/
def Event.Names (P : InterfaceAddress → Prop) : Event → Prop
  | .probeReceived p | .probeReturned p => P p.interfaceAddress
  | _ => True

/-- **A message names the address of the daemon or that of the probe it is about.** -/
theorem names_handle {e : Event} (he : e.Names P) (hd : P d.interfaceAddress) (ho : P o.1.interfaceAddress)
    (h : d.handle e now = some o) : Names P o.2 := by
  cases e with
  | start => exact names_discover hd h
  | timer =>
    obtain ⟨-, rfl⟩ | ⟨-, d', hsame, -, hnext | rfl⟩ := onTimer_cases h
    · exact Names.of_sends_eq_nil rfl
    · refine names_discover ?_ hnext
      rwa [interfaceAddress, hsame]
    · exact Names.of_sends_eq_nil rfl
  | probeReceived p =>
    obtain rfl := Option.some.inj h
    refine (names_announce ho _ _).append (names_send ?_)
    have hkeeps : (d.processProbe p).2.interfaceAddress = p.interfaceAddress := by
      rw [processProbe]
      split <;> rfl
    show P (d.processProbe p).2.interfaceAddress
    rwa [hkeeps]
  | probeReturned p =>
    obtain ⟨-, hnext⟩ | ⟨-, -, rfl⟩ | ⟨-, -, hafter, hactions⟩ := probeReturned_cases h
    · exact names_discover hd hnext
    · exact Names.of_sends_eq_nil rfl
    · rw [hafter] at ho
      rw [hactions]
      exact (names_takeSuperior he ho).append (Names.of_sends_eq_nil rfl)
  | hierarchy k =>
    obtain rfl := Option.some.inj h
    revert ho
    rw [updateWeights]
    split
    · exact fun _ => Names.of_sends_eq_nil rfl
    · exact fun ho => names_announce ho _ _
  | removeClient a =>
    have hbroadcast (hafter : P (d.hierarchy.removeNode a now).1.interfaceAddress) :
        Names P (if (d.hierarchy.removeNode a now).2 then
          ({ d with hierarchy := (d.hierarchy.removeNode a now).1 } : Discoverer).broadcastHierarchy a else []) := by
      split
      · exact names_broadcastHierarchy (d := { d with hierarchy := (d.hierarchy.removeNode a now).1 }) hafter a
      · exact Names.of_sends_eq_nil rfl
    obtain ⟨-, o', hnext, rfl⟩ | ⟨-, rfl⟩ := onClientRemove_cases h
    · have hafter : P (d.hierarchy.removeNode a now).1.interfaceAddress := by
        rwa [interfaceAddress, hierarchy_discover hnext] at ho
      have hsearch : Names P o'.2 :=
        names_discover (d := { d with hierarchy := (d.hierarchy.removeNode a now).1 }) hafter hnext
      exact (hbroadcast hafter).append hsearch
    · exact hbroadcast ho
  | otherPipelineEvent =>
    obtain rfl := Option.some.inj h
    exact Names.of_sends_eq_nil rfl
  | resources rhs =>
    obtain rfl := Option.some.inj h
    show Names P (if _ then _ else _)
    split
    · exact fun m hm => names_broadcastHierarchy
        (d := { d with hierarchy := (d.hierarchy.setResources rhs now).1 }) ho .unset m hm
    · exact Names.of_sends_eq_nil rfl

end Discoverer

/-! ### Runs -/

namespace Network

variable {s : Subnet} {ι : Type} {daemons : ι → Member s} [DecidableEq ι]

/-- A step in which the resources that a daemon is given can be sent. -/
inductive SendableStep (daemons : ι → Member s) : Network ι → Network ι → Prop
  | handle {net : Network ι} {i : ι} {d d' : Discoverer} {e : Discoverer.Event} {now : TimePoint}
      {actions : List Action} : net.discoverer i = some d → MayHappen daemons net i e →
      (∀ rhs, e = .resources rhs → rhs.IsSendable) → d.handle e now = some (d', actions) →
      SendableStep daemons net ⟨Function.update net.discoverer i (some d'), net.sent ++ sends actions⟩

/-- The network, with such steps alone. -/
def sendableSystem (daemons : ι → Member s) : System (Network ι) where
  Initial := (system daemons).Initial
  Step := SendableStep daemons

theorem SendableStep.step {net net' : Network ι} (h : SendableStep daemons net net') : Step daemons net net' := by
  cases h with
  | handle hd he _ hhandle => exact .handle hd he hhandle

/-- What holds at any time. -/
structure Sendable (daemons : ι → Member s) (net : Network ι) : Prop where
  /-- The network is good. -/
  good : net.Good daemons
  /-- All records can be sent. -/
  records : ∀ i d, net.discoverer i = some d → d.hierarchy.IsSendable
  /-- So can those in kernels. -/
  nodes : ∀ m ∈ net.sent, AreSendable m.nodes
  /-- The kernels name addresses on the subnet. -/
  names : ∀ m ∈ net.sent, m.interfaceAddress.HasBits s.netmask

omit [DecidableEq ι] in
/-- The calls of an event bring in what can be sent, if all kernels do and the event does. -/
theorem isSendable_calls {net : Network ι} (hnodes : ∀ m ∈ net.sent, AreSendable m.nodes) {i : ι} {d : Discoverer}
    {e : Discoverer.Event} (he : MayHappen daemons net i e) (hresources : ∀ rhs, e = .resources rhs → rhs.IsSendable)
    {m : Mutator} (hm : m ∈ d.calls e) : m.IsSendable := by
  cases m with
  | addNodes nodes =>
    intro r hr
    obtain ⟨k, hk, hrk⟩ := Ledger.nodes_calls he hm (r := r) hr
    exact hnodes k hk r hrk
  | addSuperior node => exact trivial
  | addSubordinate node => exact trivial
  | removeNode sa => exact trivial
  | resources rhs =>
    refine hresources rhs ?_
    cases e with
    | start => exact absurd hm List.not_mem_nil
    | timer => exact absurd hm List.not_mem_nil
    | otherPipelineEvent => exact absurd hm List.not_mem_nil
    | probeReceived p =>
      -- no probe sets resources
      change Mutator.resources rhs ∈ d.probeCalls p at hm
      rw [Discoverer.probeCalls] at hm
      split at hm
      · exact absurd hm List.not_mem_nil
      · split at hm <;> simp at hm
    | probeReturned p =>
      change Mutator.resources rhs ∈ Discoverer.answerCalls p at hm
      rw [Discoverer.answerCalls] at hm
      split at hm
      · split at hm <;> simp at hm
      · exact absurd hm List.not_mem_nil
    | hierarchy k =>
      rw [Discoverer.calls] at hm
      split at hm <;> simp at hm
    | removeClient a => exact absurd (List.mem_singleton.1 hm) Mutator.noConfusion
    | resources rhs' => rw [Mutator.resources.inj (List.mem_singleton.1 hm)]

theorem sendable_initial {net : Network ι} (h : (system daemons).Initial net) : net.Sendable daemons := by
  have hgood := good_initial h
  obtain rfl : net = _ := h
  have hnone {Q : Message → Prop} (m : Message) (hm : m ∈ []) : Q m := absurd hm List.not_mem_nil
  refine ⟨hgood, fun i d hd r hr => ?_, hnone, hnone⟩
  obtain ⟨iterator, -, heq⟩ := Option.bind_eq_some_iff.1 (show (daemons i).discoverer = some d from hd)
  obtain rfl := Option.some.inj heq
  rcases hr with rfl | hr
  · exact Resources.isSendable_default
  · exact absurd hr List.not_mem_nil

omit [DecidableEq ι] in
/-- The address that a kernel names when it comes to a daemon. -/
theorem names_event {net : Network ι} (hnames : ∀ m ∈ net.sent, m.interfaceAddress.HasBits s.netmask) {i : ι}
    {e : Discoverer.Event} (he : MayHappen daemons net i e) :
    e.Names (InterfaceAddress.HasBits s.netmask) := by
  cases he with
  | probe hsent _ => exact hnames _ hsent
  | answer hsent _ => exact hnames _ hsent
  | undelivered hsent _ _ => exact hnames _ hsent
  | start => exact trivial
  | timer => exact trivial
  | removeClient a => exact trivial
  | otherPipelineEvent => exact trivial
  | resources rhs => exact trivial
  | hierarchy _ _ => exact trivial
  | undeliveredHierarchy _ _ _ => exact trivial

/-- **What can be sent is all that is sent.** -/
theorem Sendable.step {net net' : Network ι} (hnet : net.Sendable daemons) (h : SendableStep daemons net net') :
    net'.Sendable daemons := by
  have hgood := hnet.good.step h.step
  cases h with
  | @handle i d d' e now actions hd he hresources hhandle =>
    have hrecords : d'.hierarchy.IsSendable := by
      rw [show d'.hierarchy = _ from Discoverer.hierarchy_handle hhandle]
      exact (hnet.records i d hd).applyAll (fun m hm => isSendable_calls hnet.nodes he hresources hm)
        (Ledger.findsAll_calls hnet.good hd he now)
    have haddress (d : Discoverer) (hd : d.Good (daemons i)) : d.interfaceAddress.HasBits s.netmask := by
      rw [hd.interfaceAddress_eq]
      exact InterfaceAddress.hasBits_ofAddress _ _
    have hafter : d'.Good (daemons i) := hgood.discoverers i d' (Function.update_self ..)
    refine ⟨hgood, fun j d₁ hj => ?_, fun m hm => ?_, fun m hm => ?_⟩
    · obtain ⟨rfl, rfl⟩ | ⟨-, hj⟩ := update_eq_some hj
      · exact hrecords
      · exact hnet.records j d₁ hj
    · rcases List.mem_append.1 hm with hm | hm
      · exact hnet.nodes m hm
      · exact fun r hr => hrecords r (Discoverer.nodes_handle hhandle m hm r hr)
    · rcases List.mem_append.1 hm with hm | hm
      · exact hnet.names m hm
      · exact Discoverer.names_handle (o := (d', actions)) (names_event hnet.names he)
          (haddress d (hnet.good.discoverers i d hd)) (haddress d' hafter) hhandle m hm

theorem reachable_sendable {net : Network ι} (h : (sendableSystem daemons).Reachable net) : net.Sendable daemons :=
  h.invariant (fun _ => sendable_initial) fun _ _ => Sendable.step

/-- **Whatever daemons send each other comes to the one it is sent to as it was**: in a network whose daemons
are given only resources that can be sent, the frame of every kernel is decoded, whatever comes after it, to a
kernel of which the discoverer makes the same message, but for the times of the last changes. The frame must be
shorter than `2 ^ 32` bytes. -/
theorem messages_arrive [ByteOrder] (hbits : s.netmask ≤ 32) {net : Network ι}
    (h : (sendableSystem daemons).Reachable net) {m : Message} (hm : m ∈ net.sent) (hlength : m.nodes.length < 2 ^ 32)
    {k : Kernel MessageState} (hk : m.IsKernel k) (mem : Memory MessageState)
    (hsize : 4 + (k.packet mem m.type.id (m.state.bytes s.netmask)).length < 2 ^ 32) (xs : ℕ → ReadContext) :
    ∃ frame k' m', (daemonProcess s.netmask xs).encode mem k = some frame ∧
      (∀ rest, (daemonProcess s.netmask xs).decode (frame ++ rest) =
        some { received := { kernel := k' }, unread := [], rest }) ∧
      Message.ofKernel m.source k' = some m' ∧ m'.Same m := by
  have hnet := reachable_sendable h
  exact m.decoded hbits (hnet.names m hm) (hnet.nodes m hm) hlength hk mem hsize

/-- Some reader. -/
def someContext : ReadContext := ⟨fun _ => ⟨1, by decide⟩, fun _ => ⟨1, by decide⟩, fun _ => 0⟩

/-- The second daemon starts, and its probe is decoded. -/
theorem messages_arrive_two :
    letI := ByteOrder.littleEndian
    ∃ (p : Probe) (frame : List UInt8) (k' : Kernel MessageState) (m' : Message),
      (daemonProcess tenNet.netmask fun _ => someContext).encode (fun _ => (Message.probe p).toKernel)
        (Message.probe p).toKernel = some frame ∧
      Message.ofKernel p.source k' = some m' ∧ m'.Same (.probe p) := by
  let _ := ByteOrder.littleEndian
  obtain ⟨d, ⟨d', actions⟩, hd, hstart, -, hactions⟩ := starts_two
  have hactions : actions = [.send (.probe d.newProbe)] := hactions
  have hinitial : (sendableSystem twoDaemons).Reachable ⟨fun i => (twoDaemons i).discoverer, []⟩ := .initial rfl
  have hsteps := hinitial.step (.handle hd .start nofun hstart)
  have hm : Message.probe d.newProbe ∈ [] ++ sends actions := by
    rw [hactions]
    exact List.mem_singleton_self _
  have hlength : [d.hierarchy.thisNode].length < 2 ^ 32 := by
    rw [List.length_singleton]
    decide
  have hsize : (twoDaemons 1).discoverer.map (fun d => decide (4 + ((Message.probe d.newProbe).toKernel.packet
      (fun _ => (Message.probe d.newProbe).toKernel) 2
      ((Message.probe d.newProbe).state.bytes tenNet.netmask)).length < 2 ^ 32)) = some true := by
    decide +kernel
  rw [hd, Option.map_some] at hsize
  obtain ⟨frame, k', m', hencode, -, hmessage, hsame⟩ := messages_arrive (by decide) hsteps hm hlength
    (Message.isKernel_toKernel (.probe d.newProbe)) (fun _ => (Message.probe d.newProbe).toKernel)
    (of_decide_eq_true (Option.some.inj hsize)) fun _ => someContext
  exact ⟨d.newProbe, frame, k', m', hencode, hmessage, hsame⟩

end Network

end Subordination.Daemon
