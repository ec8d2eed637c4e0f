import Subordination.Daemon.Discoverer
import Subordination.Library.System

/-!
# Daemons on a subnet

Any number of daemons on one subnet, with one discoverer each.

## The model

The state of the network is the discoverer of every daemon and every kernel that has ever
been sent. A kernel that has been sent may arrive at any time, any number of times or
never; one that cannot be delivered may come back to its sender with an exit code that says
so. Timers, changes of resources and the loss of clients may happen at any time. A daemon
whose discoverer is never constructed, because the loop that searches for its position does
not end, takes no part.

## What is proved

**`superior_precedes`**: the superior of a node always has an address with a smaller
position in the subnet, in every record that a daemon holds or sends; so superior links
never form a cycle. **`handle_isSome`**: a discoverer that has been constructed handles
every event.
-/

namespace Subordination.Daemon

open Subordination.Core Subordination.Library
open Subordination.Core.Resources (Bindings)

/-! ### The subnet -/

/-- A subnet. -/
structure Subnet where
  /-- The address of the network. -/
  network : ℕ
  /-- The number of bits in the network mask. -/
  netmask : ℕ

namespace Subnet

variable (s : Subnet)

/-- The position of an address among those with the same network. -/
def position (a : SocketAddress) : ℕ := (InterfaceAddress.ofAddress (ipv4Address a) s.netmask).position

/-- The address is one of the subnet. -/
def Contains (a : SocketAddress) : Prop :=
  (InterfaceAddress.ofAddress (ipv4Address a) s.netmask).network = s.network

/-- The first address is one of the subnet, at a position before that of the second one. -/
def Precedes (a b : SocketAddress) : Prop := s.Contains a ∧ s.position a < s.position b

/-- A superior, if there is one, precedes its subordinate. -/
def Link (a superior : SocketAddress) : Prop := superior.isSet = true → s.Precedes superior a

theorem link_unset (a : SocketAddress) : s.Link a .unset := fun h => absurd h Bool.false_ne_true

variable {s} in
theorem Precedes.ne {a b : SocketAddress} (h : s.Precedes a b) : a ≠ b := by
  rintro rfl
  exact absurd h.2 (lt_irrefl _)

end Subnet

/-- A daemon on a subnet: where it is, and how it has been started. -/
structure Member (s : Subnet) where
  /-- The address. -/
  address : UInt32
  /-- The port. -/
  port : UInt16
  /-- `fanout`. -/
  fanout : ℕ
  /-- `max-attempts`. -/
  maxAttempts : ℕ
  /-- `max-radius`. -/
  maxRadius : ℕ
  /-- The address is one of the subnet. -/
  onSubnet : (InterfaceAddress.ofAddress address s.netmask).network = s.network

namespace Member

variable {s : Subnet} (c : Member s)

/-- The interface address. -/
def interfaceAddress : InterfaceAddress := .ofAddress c.address s.netmask

/-- The socket address. -/
def socketAddress : SocketAddress := ipv4SocketAddress c.address c.port

/-- The discoverer that the daemon starts with. -/
def discoverer : Option Discoverer :=
  Discoverer.construct c.interfaceAddress s.netmask c.port c.fanout c.maxAttempts c.maxRadius

/-- An address with a smaller index than the daemon's own precedes it. -/
theorem precedes_addressAt {i : ℕ} (hi : i < c.interfaceAddress.position) (port : UInt16) :
    s.Precedes (ipv4SocketAddress (c.interfaceAddress.addressAt i) port) c.socketAddress := by
  have hsize : 0 < 2 ^ (32 - s.netmask) := Nat.two_pow_pos _
  have hlt : i < 2 ^ (32 - s.netmask) := hi.trans (Nat.mod_lt _ hsize)
  have htoNat : (c.interfaceAddress.addressAt i).toNat =
      c.address.toNat / 2 ^ (32 - s.netmask) * 2 ^ (32 - s.netmask) + i :=
    InterfaceAddress.toNat_addressAt hi.le
  constructor
  · rw [Subnet.Contains, ipv4Address_socketAddress, ← c.onSubnet]
    show (c.interfaceAddress.addressAt i).toNat / _ * _ = c.address.toNat / _ * _
    rw [htoNat, Nat.add_comm _ i, Nat.add_mul_div_right _ _ hsize, Nat.div_eq_of_lt hlt, Nat.zero_add]
  · rw [Subnet.position, Subnet.position, ipv4Address_socketAddress, socketAddress,
      ipv4Address_socketAddress]
    show (c.interfaceAddress.addressAt i).toNat % _ < _
    rw [htoNat, Nat.mul_add_mod_of_lt hlt]
    exact hi

end Member

/-! ### The network -/

/-- The daemons' discoverers, and all that has been sent. -/
structure Network (ι : Type) where
  /-- The discoverers, of the daemons that have one. -/
  discoverer : ι → Option Discoverer
  /-- The kernels that have been sent. -/
  sent : List Message

/-- The kernels among what a handler does. -/
def sends (actions : List Action) : List Message :=
  actions.filterMap fun
    | .send m => some m
    | _ => none

namespace Network

variable {s : Subnet} {ι : Type} (daemons : ι → Member s)

/-- The events that may happen to a daemon. -/
inductive MayHappen (net : Network ι) (i : ι) : Discoverer.Event → Prop
  /-- The daemon starts. -/
  | start : MayHappen net i .start
  /-- Its timer goes off. -/
  | timer : MayHappen net i .timer
  /-- It loses a client. -/
  | removeClient (a : SocketAddress) : MayHappen net i (.removeClient a)
  /-- Something else happens to its clients. -/
  | otherPipelineEvent : MayHappen net i .otherPipelineEvent
  /-- Its resources are set. -/
  | resources (rhs : Bindings) : MayHappen net i (.resources rhs)
  /-- A probe arrives. -/
  | probe {p : Probe} : .probe p ∈ net.sent → p.destination = (daemons i).socketAddress →
      MayHappen net i (.probeReceived p)
  /-- The answer to a probe arrives. -/
  | answer {p : Probe} : .returned p ∈ net.sent → p.destination = (daemons i).socketAddress →
      MayHappen net i (.probeReturned p)
  /-- A probe of its own comes back undelivered. -/
  | undelivered {p : Probe} {code : ExitCode} : .probe p ∈ net.sent →
      p.source = (daemons i).socketAddress → code ≠ .success →
      MayHappen net i (.probeReturned (p.returnToParent code))
  /-- A hierarchy arrives. -/
  | hierarchy {k : HierarchyKernel} : .hierarchy k ∈ net.sent →
      k.destination = (daemons i).socketAddress → MayHappen net i (.hierarchy k)
  /-- A hierarchy of its own comes back undelivered. -/
  | undeliveredHierarchy {k : HierarchyKernel} {code : ExitCode} : .hierarchy k ∈ net.sent →
      k.source = (daemons i).socketAddress → code ≠ .success →
      MayHappen net i (.hierarchy { k with returned := true, returnCode := code })

variable [DecidableEq ι]

/-- A daemon handles an event. -/
inductive Step : Network ι → Network ι → Prop
  | handle {net : Network ι} {i : ι} {d d' : Discoverer} {e : Discoverer.Event} {now : TimePoint}
      {actions : List Action} : net.discoverer i = some d → MayHappen daemons net i e →
      d.handle e now = some (d', actions) →
      Step net ⟨Function.update net.discoverer i (some d'), net.sent ++ sends actions⟩

/-- The daemons start with empty tables, and nothing has been sent. -/
def system : System (Network ι) where
  Initial net := net = ⟨fun i => (daemons i).discoverer, []⟩
  Step := Step daemons

end Network

/-! ### What holds of kernels and discoverers -/

/-- The records that a kernel carries. -/
def Message.nodes : Message → List HierarchyNode
  | .probe p => p.nodes
  | .returned p => p.nodes
  | .hierarchy k => k.nodes

variable {s : Subnet}

/-- The superior links of some records. -/
def Subnet.Links (s : Subnet) (nodes : List HierarchyNode) : Prop :=
  ∀ r ∈ nodes, s.Link r.socketAddress r.superiorSocketAddress

/-- A probe goes to a daemon that precedes its sender, as does the old superior that it names,
and the first of its nodes is the sender. -/
structure Probe.Asks (s : Subnet) (p : Probe) : Prop where
  /-- It goes to a daemon that precedes the sender. -/
  destination : s.Precedes p.destination p.source
  /-- The old superior precedes the sender. -/
  oldSuperior : s.Link p.source p.oldSuperior
  /-- The first node is the sender. -/
  front : ∀ r ∈ p.nodes.head?, r.socketAddress = p.source

/-- An answer comes from a daemon that precedes the one that has asked, as does the old
superior that it names. -/
structure Probe.Answers (s : Subnet) (p : Probe) : Prop where
  /-- The first node is a daemon that precedes the one that has asked. -/
  front : ∀ r ∈ p.nodes.head?, s.Precedes r.socketAddress p.destination
  /-- The old superior precedes it. -/
  oldSuperior : s.Link p.destination p.oldSuperior

/-- What holds of every kernel that is sent. An exit code other than success is all that a
discoverer looks at in a probe that returns with one. -/
def Message.Good (s : Subnet) (m : Message) : Prop :=
  s.Links m.nodes ∧
    match m with
    | .probe p => p.Asks s
    | .returned p => p.returnCode = .success → p.Answers s
    | .hierarchy _ => True

/-- What holds of the discoverer of a daemon. -/
structure Discoverer.Good (c : Member s) (d : Discoverer) : Prop where
  /-- Superior links lead to daemons that precede. -/
  links : d.hierarchy.All s.Link c.socketAddress s.netmask
  /-- The fanout does not change. -/
  fanout_eq : d.fanout = c.fanout
  /-- The iterator walks. -/
  walks : Walks c.interfaceAddress d.iterator
  /-- The iterator can be constructed anew. -/
  constructs : TreeHierarchyIterator.construct c.interfaceAddress c.fanout 0 1 ≠ none

/-- What holds of the outcome of a handler. -/
def Discoverer.GoodOutcome (c : Member s) (o : Discoverer.Outcome) : Prop :=
  o.1.Good c ∧ ∀ m ∈ sends o.2, m.Good s

@[simp] theorem sends_nil : sends [] = [] := rfl

@[simp] theorem sends_append (xs ys : List Action) : sends (xs ++ ys) = sends xs ++ sends ys :=
  List.filterMap_append

theorem mem_sends {m : Message} {actions : List Action} : m ∈ sends actions ↔ .send m ∈ actions := by
  rw [sends, List.mem_filterMap]
  constructor
  · rintro ⟨a, ha, hm⟩
    cases a with
    | send m' =>
      obtain rfl : m' = m := Option.some.inj hm
      exact ha
    | _ => cases hm
  · intro h
    exact ⟨.send m, h, rfl⟩

namespace Discoverer

variable {c : Member s} {d : Discoverer}

/-! #### Sending -/

theorem Good.interfaceAddress_eq (hd : d.Good c) : d.interfaceAddress = c.interfaceAddress := by
  rw [interfaceAddress, Hierarchy.interfaceAddress, hd.links.address_eq, hd.links.netmask_eq,
    Member.socketAddress, ipv4Address_socketAddress]
  rfl

/-- The hierarchy may change as long as its links stay good. -/
theorem Good.setHierarchy (hd : d.Good c) {h : Hierarchy}
    (hlinks : h.All s.Link c.socketAddress s.netmask) : { d with hierarchy := h }.Good c where
  links := hlinks
  fanout_eq := hd.fanout_eq
  walks := hd.walks
  constructs := hd.constructs

theorem Good.links_nodesWithin (hd : d.Good c) (radius : ℕ) : s.Links (d.hierarchy.nodesWithin radius) :=
  fun _ hr => hd.links.nodesWithin hr

theorem Good.broadcastHierarchy (hd : d.Good c) (ignoredEndpoint : SocketAddress) :
    ∀ m ∈ sends (d.broadcastHierarchy ignoredEndpoint), m.Good s := by
  intro m hm
  rw [mem_sends, Discoverer.broadcastHierarchy] at hm
  rcases List.mem_append.1 hm with hm | hm
  · obtain ⟨a, -, ha⟩ := List.mem_map.1 hm
    rw [sendWeight, Action.send.injEq] at ha
    subst ha
    exact ⟨hd.links_nodesWithin _, trivial⟩
  · exact absurd (List.mem_singleton.1 hm) Action.noConfusion

theorem Good.announce (hd : d.Good c) (changed : Bool) (ignoredEndpoint : SocketAddress) :
    ∀ m ∈ sends (d.announce changed ignoredEndpoint), m.Good s := by
  intro m hm
  cases changed with
  | false => exact absurd hm List.not_mem_nil
  | true => exact hd.broadcastHierarchy ignoredEndpoint m hm

theorem Good.discoverLater (hd : d.Good c) : GoodOutcome c d.discoverLater :=
  ⟨⟨hd.links, hd.fanout_eq, hd.walks, hd.constructs⟩, fun _ hm => absurd hm List.not_mem_nil⟩

/-! #### Searching -/

theorem Good.resetIterator (hd : d.Good c) : ∃ d', d.resetIterator = some d' ∧ d'.Good c := by
  obtain ⟨iterator, hiterator⟩ := Option.ne_none_iff_exists'.1 hd.constructs
  refine ⟨{ d with iterator }, ?_, hd.links, hd.fanout_eq, walks_construct hiterator, hd.constructs⟩
  rw [Discoverer.resetIterator, hd.interfaceAddress_eq, hd.fanout_eq, hiterator]
  rfl

/-- **The address that is probed precedes the own one.** -/
theorem Good.newProbe (hd : d.Good c) (hend : ¬ d.iterator.atEnd = true) :
    (Message.probe d.newProbe).Good s := by
  obtain ⟨⟨i, -, hlt, haddress⟩, -⟩ := hd.walks.next hend
  have hown : d.hierarchy.socketAddress = c.socketAddress := hd.links.address_eq
  have hlink : s.Link d.hierarchy.socketAddress d.hierarchy.superiorSocketAddress := by
    rw [hown]
    exact hd.links.own
  refine ⟨fun r hr => ?_, ?_, hlink, fun r hr => ?_⟩
  · rw [List.mem_singleton.1 hr]
    exact hlink
  · show s.Precedes d.candidate d.hierarchy.socketAddress
    rw [hown, candidate, haddress]
    exact c.precedes_addressAt hlt _
  · rw [← Option.some.inj hr]
    rfl

theorem Good.discover (hd : d.Good c) : ∃ o, d.discover = some o ∧ GoodOutcome c o := by
  rw [Discoverer.discover]
  by_cases hend : d.iterator.atEnd = true
  · obtain ⟨d', hreset, hd'⟩ := hd.resetIterator
    rw [if_pos hend, hreset]
    exact ⟨d'.discoverLater, rfl, hd'.discoverLater⟩
  · have hsend : ∀ m ∈ sends [.send (.probe d.newProbe)], m.Good s := fun m hm =>
      (List.mem_singleton.1 hm) ▸ hd.newProbe hend
    rw [if_neg hend]
    by_cases hattempts : d.attempts + 1 ≥ d.maxAttempts
    · obtain ⟨-, iterator, hnext, hwalks⟩ := hd.walks.next hend
      rw [if_pos hattempts, hnext]
      exact ⟨_, rfl, ⟨hd.links, hd.fanout_eq, hwalks, hd.constructs⟩, hsend⟩
    · rw [if_neg hattempts]
      exact ⟨_, rfl, ⟨hd.links, hd.fanout_eq, hd.walks, hd.constructs⟩, hsend⟩

theorem Good.onTimer (hd : d.Good c) : ∃ o, d.onTimer = some o ∧ GoodOutcome c o := by
  rw [Discoverer.onTimer]
  by_cases hstate : d.state ≠ .waiting
  · rw [if_pos hstate]
    exact ⟨(d, []), rfl, hd, fun _ hm => absurd hm List.not_mem_nil⟩
  · have hreset : ∃ d', (if d.hierarchy.hasSuperior then d.resetIterator else some d) = some d' ∧
        d'.Good c := by
      by_cases hsuperior : d.hierarchy.hasSuperior = true
      · rw [if_pos hsuperior]
        exact hd.resetIterator
      · rw [if_neg hsuperior]
        exact ⟨d, rfl, hd⟩
    obtain ⟨d', hreset, hd'⟩ := hreset
    rw [if_neg hstate, hreset, Option.bind_some]
    split
    · exact hd'.discover
    · exact ⟨_, rfl, hd'.discoverLater⟩

/-! #### Answering -/

/-- **The links stay good when the nodes of a probe are merged**: the node that is made a
subordinate is the one that has sent the probe, and this daemon precedes it. -/
theorem Good.mergeProbe (hd : d.Good c) {p : Probe} (hp : (Message.probe p).Good s)
    (hdestination : p.destination = c.socketAddress) (result : ProbeResult) (now : TimePoint) :
    (d.mergeProbe result p.nodes now).1.All s.Link c.socketAddress s.netmask := by
  obtain ⟨hlinks, hasks⟩ := hp
  cases hnodes : p.nodes with
  | nil => exact hd.links
  | cons front rest =>
    have hfront : front.socketAddress = p.source := hasks.front front (by rw [hnodes]; rfl)
    have hprecedes : s.Precedes c.socketAddress front.socketAddress := by
      rw [hfront, ← hdestination]
      exact hasks.destination
    have hadded := hd.links.addNodes now fun a (ha : a ∈ front :: rest) =>
      hlinks a (by rw [Message.nodes, hnodes]; exact ha)
    cases result with
    | addSubordinate =>
      refine hadded.addSubordinate now ?_ fun _ => hprecedes
      refine Hierarchy.lookup_addNodes (front :: rest) now List.mem_cons_self ?_
      rw [hd.links.address_eq]
      exact hprecedes.ne.symm
    | removeSubordinate => exact hadded.removeNode front.socketAddress now s.link_unset
    | rejectSubordinate => exact hadded
    | retain => exact hadded

theorem nodes_processProbe (d : Discoverer) (p : Probe) :
    (d.processProbe p).2.nodes = p.nodes ∧ (d.processProbe p).2.source = p.source ∧
      (d.processProbe p).2.oldSuperior = p.oldSuperior := by
  rw [processProbe]
  split
  · exact ⟨rfl, rfl, rfl⟩
  · exact ⟨rfl, rfl, rfl⟩

theorem Good.probeReceived (hd : d.Good c) {p : Probe} (hp : (Message.probe p).Good s)
    (hdestination : p.destination = c.socketAddress) (now : TimePoint) :
    GoodOutcome c (d.probeReceived p now) := by
  obtain ⟨hnodes, hsource, hold⟩ := d.nodes_processProbe p
  have hd' := hd.setHierarchy (hd.mergeProbe hp hdestination (d.processProbe p).1 now)
  rw [Discoverer.probeReceived]
  simp only [hnodes]
  refine ⟨hd', fun m hm => ?_⟩
  rw [sends_append] at hm
  rcases List.mem_append.1 hm with hm | hm
  · exact hd'.announce _ _ m hm
  · rw [List.mem_singleton.1 hm]
    refine ⟨hd'.links_nodesWithin _, fun _ => ⟨fun r hr => ?_, ?_⟩⟩
    · obtain ⟨rest, hwithin, -⟩ := Hierarchy.nodesWithin_eq
        (d.mergeProbe (d.processProbe p).1 p.nodes now).1 d.maxRadius
      have hr : r ∈ ((d.mergeProbe (d.processProbe p).1 p.nodes now).1.nodesWithin d.maxRadius).head? := hr
      rw [hwithin] at hr
      obtain rfl := Option.some.inj hr
      show s.Precedes _ (d.processProbe p).2.source
      have hown : (d.mergeProbe (d.processProbe p).1 p.nodes now).1.thisNode.socketAddress = p.destination :=
        hd'.links.address_eq.trans hdestination.symm
      rw [hsource, hown]
      exact hp.2.destination
    · show s.Link (d.processProbe p).2.source (d.processProbe p).2.oldSuperior
      rw [hsource, hold]
      exact hp.2.oldSuperior

/-! #### Taking an answer -/

theorem Good.mergeAnswer (hd : d.Good c) {p : Probe} (hlinks : s.Links p.nodes) (hanswers : p.Answers s)
    (hdestination : p.destination = c.socketAddress) (now : TimePoint) :
    (d.mergeAnswer p now).1.All s.Link c.socketAddress s.netmask := by
  rw [Discoverer.mergeAnswer]
  cases hnodes : p.nodes with
  | nil => exact hd.links
  | cons front rest =>
    rw [hnodes] at hlinks
    refine (hd.links.addNodes now hlinks).addSuperior front now fun _ => ?_
    rw [← hdestination]
    exact hanswers.front front (by rw [hnodes]; rfl)

theorem Good.probeReturned (hd : d.Good c) {p : Probe} (hp : (Message.returned p).Good s)
    (hdestination : p.destination = c.socketAddress) (now : TimePoint) :
    ∃ o, d.probeReturned p now = some o ∧ GoodOutcome c o := by
  rw [Discoverer.probeReturned]
  by_cases hcode : p.returnCode = .success
  · have hanswers := hp.2 hcode
    rw [if_neg (not_not_intro hcode)]
    by_cases hsame : p.oldSuperior = p.newSuperior
    · rw [if_neg (not_not_intro hsame)]
      exact ⟨_, rfl, hd.discoverLater⟩
    · have hd' := hd.setHierarchy (hd.mergeAnswer hp.1 hanswers hdestination now)
      have hown : ({ d with hierarchy := (d.mergeAnswer p now).1 } : Discoverer).hierarchy.socketAddress =
          p.destination := hd'.links.address_eq.trans hdestination.symm
      rw [if_pos hsame]
      refine ⟨_, rfl, hd'.discoverLater.1, fun m hm => ?_⟩
      rw [sends_append, sends_append, sends_append] at hm
      rcases List.mem_append.1 hm with hm | hm
      · -- Stopping a client sends nothing.
        split at hm
        · exact absurd hm List.not_mem_nil
        · exact absurd hm List.not_mem_nil
      rcases List.mem_append.1 hm with hm | hm
      · exact hd'.announce _ _ m hm
      rcases List.mem_append.1 hm with hm | hm
      · split at hm
        · next hset =>
          rw [List.mem_singleton.1 hm]
          have hold := hanswers.oldSuperior
          rw [← hown] at hold
          exact ⟨fun r hr => absurd hr List.not_mem_nil, hold hset, hold,
            fun r hr => absurd hr.symm (Option.some_ne_none r)⟩
        · exact absurd hm List.not_mem_nil
      · exact hd'.discoverLater.2 m hm
  · rw [if_pos hcode]
    exact hd.discover

/-! #### The other events -/

theorem Good.updateWeights (hd : d.Good c) {k : HierarchyKernel} (hlinks : s.Links k.nodes)
    (now : TimePoint) : GoodOutcome c (d.updateWeights k now) := by
  rw [Discoverer.updateWeights]
  split
  · exact ⟨hd, fun _ hm => absurd hm List.not_mem_nil⟩
  · have hd' := hd.setHierarchy (hd.links.addNodes now hlinks)
    exact ⟨hd', hd'.announce _ _⟩

theorem Good.onClientRemove (hd : d.Good c) (address : SocketAddress) (now : TimePoint) :
    ∃ o, d.onClientRemove address now = some o ∧ GoodOutcome c o := by
  have hd' := hd.setHierarchy (hd.links.removeNode address now s.link_unset)
  have hactions : ∀ m ∈ sends (if (d.hierarchy.removeNode address now).2 then
      ({ d with hierarchy := (d.hierarchy.removeNode address now).1 } : Discoverer).broadcastHierarchy address
      else []), m.Good s := by
    split
    · exact hd'.broadcastHierarchy address
    · exact fun _ hm => absurd hm List.not_mem_nil
  rw [Discoverer.onClientRemove]
  simp only
  split
  · obtain ⟨o, ho, hgood⟩ := hd'.discover
    rw [ho]
    refine ⟨_, rfl, hgood.1, fun m hm => ?_⟩
    rw [sends_append] at hm
    rcases List.mem_append.1 hm with hm | hm
    · exact hactions m hm
    · exact hgood.2 m hm
  · exact ⟨_, rfl, hd', hactions⟩

theorem Good.setResources (hd : d.Good c) (rhs : Bindings) (now : TimePoint) :
    GoodOutcome c (d.setResources rhs now) := by
  have hd' := hd.setHierarchy (hd.links.setResources rhs now)
  refine ⟨hd', fun m hm => ?_⟩
  rw [Discoverer.setResources] at hm
  simp only at hm
  split at hm
  · exact hd'.broadcastHierarchy _ m hm
  · exact absurd hm List.not_mem_nil

end Discoverer

/-- A discoverer that is constructed is good. -/
theorem Member.discoverer_good {c : Member s} {d : Discoverer} (h : c.discoverer = some d) : d.Good c := by
  have haddress : c.interfaceAddress.address = c.address := InterfaceAddress.address_ofAddress _ _
  have hlinks : (Hierarchy.construct c.interfaceAddress s.netmask c.port).All s.Link c.socketAddress s.netmask := by
    have hall : (Hierarchy.construct c.interfaceAddress s.netmask c.port).All s.Link _ s.netmask :=
      Hierarchy.all_construct s.link_unset
    rwa [haddress] at hall
  have hinterface : (Hierarchy.construct c.interfaceAddress s.netmask c.port).interfaceAddress =
      c.interfaceAddress := by
    rw [Hierarchy.interfaceAddress, hlinks.address_eq, Member.socketAddress, ipv4Address_socketAddress]
    rfl
  obtain ⟨iterator, hiterator, heq⟩ := Option.bind_eq_some_iff.1 h
  rw [hinterface] at hiterator
  obtain rfl := Option.some.inj heq
  refine ⟨hlinks, rfl, walks_construct hiterator, ?_⟩
  rw [hiterator]
  exact Option.some_ne_none iterator

namespace Network

variable {ι : Type} {daemons : ι → Member s}

/-- What holds of the network at any time. -/
structure Good (daemons : ι → Member s) (net : Network ι) : Prop where
  /-- The discoverers are good. -/
  discoverers : ∀ i d, net.discoverer i = some d → d.Good (daemons i)
  /-- The kernels that have been sent are good. -/
  kernels : ∀ m ∈ net.sent, m.Good s

/-- **A good discoverer handles every event that may happen, and stays good.** -/
theorem Good.handle {net : Network ι} (hnet : net.Good daemons) {i : ι} {d : Discoverer}
    (hi : net.discoverer i = some d) {e : Discoverer.Event} (he : MayHappen daemons net i e) (now : TimePoint) :
    ∃ o, d.handle e now = some o ∧ Discoverer.GoodOutcome (daemons i) o := by
  have hd := hnet.discoverers i d hi
  cases he with
  | start => exact hd.discover
  | timer => exact hd.onTimer
  | removeClient a => exact hd.onClientRemove a now
  | otherPipelineEvent => exact ⟨_, rfl, hd, fun _ hm => absurd hm List.not_mem_nil⟩
  | resources rhs => exact ⟨_, rfl, hd.setResources rhs now⟩
  | probe hsent hdestination =>
    exact ⟨_, rfl, hd.probeReceived (hnet.kernels _ hsent) hdestination now⟩
  | answer hsent hdestination => exact hd.probeReturned (hnet.kernels _ hsent) hdestination now
  | @undelivered p code hsent hsource hcode =>
    have hgood : (Message.returned (p.returnToParent code)).Good s :=
      ⟨(hnet.kernels _ hsent).1, fun hsuccess => absurd hsuccess hcode⟩
    exact hd.probeReturned hgood hsource now
  | hierarchy hsent _ => exact ⟨_, rfl, hd.updateWeights (hnet.kernels _ hsent).1 now⟩
  | @undeliveredHierarchy k code hsent _ _ =>
    have hlinks : s.Links { k with returned := true, returnCode := code }.nodes := (hnet.kernels _ hsent).1
    exact ⟨_, rfl, hd.updateWeights hlinks now⟩

variable [DecidableEq ι]

/-- The discoverers after one of them has changed. -/
theorem update_eq_some {f : ι → Option Discoverer} {i j : ι} {d d' : Discoverer}
    (h : Function.update f i (some d') j = some d) : (j = i ∧ d = d') ∨ (j ≠ i ∧ f j = some d) := by
  by_cases hji : j = i
  · subst hji
    rw [Function.update_self] at h
    exact Or.inl ⟨rfl, (Option.some.inj h).symm⟩
  · rw [Function.update_of_ne hji] at h
    exact Or.inr ⟨hji, h⟩

theorem good_initial {net : Network ι} (h : (system daemons).Initial net) : net.Good daemons := by
  obtain rfl : net = _ := h
  exact ⟨fun i d hd => Member.discoverer_good hd, fun m hm => absurd hm List.not_mem_nil⟩

theorem Good.step {net net' : Network ι} (hnet : net.Good daemons) (h : Step daemons net net') :
    net'.Good daemons := by
  cases h with
  | @handle i _ _ _ _ _ hi he hhandle =>
    obtain ⟨o, ho, hd, hsends⟩ := hnet.handle hi he _
    obtain rfl := Option.some.inj (hhandle.symm.trans ho)
    constructor
    · intro j d' hj
      obtain ⟨rfl, rfl⟩ | ⟨-, hj⟩ := update_eq_some hj
      · exact hd
      · exact hnet.discoverers j d' hj
    · intro m hm
      rcases List.mem_append.1 hm with hm | hm
      · exact hnet.kernels m hm
      · exact hsends m hm

theorem reachable_good {net : Network ι} (h : (system daemons).Reachable net) : net.Good daemons :=
  h.invariant (fun _ => good_initial) (fun _ _ => Good.step)

/-- A discoverer that has been constructed handles every event that may happen. -/
theorem handle_isSome {net : Network ι} (h : (system daemons).Reachable net) {i : ι} {d : Discoverer}
    (hi : net.discoverer i = some d) {e : Discoverer.Event} (he : MayHappen daemons net i e) (now : TimePoint) :
    (d.handle e now).isSome = true := by
  obtain ⟨o, ho, -⟩ := (reachable_good h).handle hi he now
  rw [ho]
  rfl

end Network

/-! ### Superior links -/

/-- The superior links that a daemon knows of: its own and those of its table. -/
inductive Hierarchy.LinksTo (h : Hierarchy) : SocketAddress → SocketAddress → Prop
  /-- The own link. -/
  | own : h.superiorSocketAddress.isSet = true → LinksTo h h.socketAddress h.superiorSocketAddress
  /-- A link of the table. -/
  | table {a : SocketAddress} {r : HierarchyNode} : h.nodes.lookup a = some r →
      r.superiorSocketAddress.isSet = true → LinksTo h a r.superiorSocketAddress

theorem Hierarchy.All.precedes {h : Hierarchy} {address : SocketAddress} {netmask : ℕ}
    (hall : h.All s.Link address netmask) {a b : SocketAddress} (hab : h.LinksTo a b) : s.Precedes b a := by
  cases hab with
  | own hset =>
    rw [hall.address_eq]
    exact hall.own hset
  | table hr hset => exact (hall.table _ _ hr).2 hset

/-- Positions fall along superior links. -/
theorem Hierarchy.All.position_lt {h : Hierarchy} {address : SocketAddress} {netmask : ℕ}
    (hall : h.All s.Link address netmask) {a b : SocketAddress} (hab : Relation.TransGen h.LinksTo a b) :
    s.position b < s.position a := by
  induction hab with
  | single hab => exact (hall.precedes hab).2
  | tail _ hbc ih => exact (hall.precedes hbc).2.trans ih

/-- **A superior always precedes its subordinate**: in the own record of every daemon, in
every table and in every kernel that has been sent, whatever has happened to the daemons
and the kernels. So superior links form no cycle. -/
theorem superior_precedes {ι : Type} [DecidableEq ι] {daemons : ι → Member s} {net : Network ι}
    (h : (Network.system daemons).Reachable net) :
    (∀ i d, net.discoverer i = some d →
      s.Link d.hierarchy.thisNode.socketAddress d.hierarchy.thisNode.superiorSocketAddress ∧
      s.Links d.hierarchy.records ∧ ∀ a, ¬ Relation.TransGen d.hierarchy.LinksTo a a) ∧
    ∀ m ∈ net.sent, s.Links m.nodes := by
  have hnet := Network.reachable_good h
  constructor
  · intro i d hi
    have hall := (hnet.discoverers i d hi).links
    refine ⟨?_, fun r hr => ?_, fun a hcycle => absurd (hall.position_lt hcycle) (lt_irrefl _)⟩
    · have haddress : d.hierarchy.thisNode.socketAddress = (daemons i).socketAddress := hall.address_eq
      rw [haddress]
      exact hall.own
    · obtain ⟨a, ha⟩ := Hierarchy.mem_records.1 hr
      obtain ⟨rfl, hlink⟩ := hall.table a r ha
      exact hlink
  · intro m hm
    exact (hnet.kernels m hm).1

/-- The network 10.0.0.0/8. -/
def tenNet : Subnet := ⟨0x0a000000, 8⟩

/-- The daemons at 10.0.0.1 and 10.0.0.2. -/
def twoDaemons (i : Fin 2) : Member tenNet where
  address := 0x0a000001 + UInt32.ofNat i
  port := 33333
  fanout := 2
  maxAttempts := 1
  maxRadius := 100
  onSubnet := by
    revert i
    decide

/-- Two of every resource. -/
def twoOfEach : Bindings := ⟨fun _ => .u64 2, ∅⟩

/-- The second daemon has a discoverer with a candidate. -/
theorem discoverer_two : ∃ d, (twoDaemons 1).discoverer = some d ∧ ¬ d.iterator.atEnd = true := by
  have hcandidate : (twoDaemons 1).discoverer.map (fun d => d.iterator.atEnd) = some false := by decide
  obtain ⟨d, hd, hend⟩ := Option.map_eq_some_iff.1 hcandidate
  exact ⟨d, hd, by rw [hend]; exact Bool.false_ne_true⟩

/-- The second daemon starts with a probe. -/
theorem starts_two : ∃ d o, (twoDaemons 1).discoverer = some d ∧ d.handle .start 1 = some o ∧
    o.1.hierarchy = d.hierarchy ∧ o.2 = [.send (.probe d.newProbe)] := by
  obtain ⟨d, hd, hend⟩ := discoverer_two
  obtain ⟨o, hstart, -⟩ := (Member.discoverer_good hd).discover
  obtain ⟨hatEnd, -⟩ | ⟨-, hhierarchy, -, hactions⟩ := d.discover_cases hstart
  · exact absurd hatEnd hend
  · exact ⟨d, o, hd, hstart, hhierarchy, hactions⟩

/-! ### The second daemon joins the first one -/

/-- The discoverer of the first daemon. -/
def firstDaemon : Discoverer := (twoDaemons 0).discoverer.get (by decide)

/-- The discoverer of the second daemon. -/
def secondDaemon : Discoverer := (twoDaemons 1).discoverer.get (by decide)

/-- The second daemon starts, and probes the first one. -/
def secondStarts : Discoverer.Outcome := secondDaemon.discover.get (by decide)

/-- The first daemon takes the second one for its subordinate. -/
def firstAsked : Discoverer.Outcome := firstDaemon.probeReceived secondDaemon.newProbe 2

/-- It answers the probe. -/
def firstAnswer : Probe :=
  { (firstDaemon.processProbe secondDaemon.newProbe).2.returnToParent .success with
    nodes := firstAsked.1.hierarchy.nodesWithin firstDaemon.maxRadius }

/-- The second daemon takes the first one for its superior. -/
def secondJoins : Discoverer.Outcome := (secondStarts.1.probeReturned firstAnswer 3).get (by decide +kernel)

/-- The network then. -/
def joinedNetwork : Network (Fin 2) where
  discoverer := Function.update (Function.update (Function.update (fun i => (twoDaemons i).discoverer)
    1 (some secondStarts.1)) 0 (some firstAsked.1)) 1 (some secondJoins.1)
  sent := [] ++ sends secondStarts.2 ++ sends firstAsked.2 ++ sends secondJoins.2

theorem firstDaemon_eq : (twoDaemons 0).discoverer = some firstDaemon := (Option.some_get _).symm

theorem secondDaemon_eq : (twoDaemons 1).discoverer = some secondDaemon := (Option.some_get _).symm

theorem secondStarts_eq : secondDaemon.handle .start 1 = some (secondStarts.1, secondStarts.2) := by
  rw [Prod.mk.eta]
  exact (Option.some_get _).symm

theorem firstAsked_eq :
    firstDaemon.handle (.probeReceived secondDaemon.newProbe) 2 = some (firstAsked.1, firstAsked.2) := rfl

theorem secondJoins_eq :
    secondStarts.1.handle (.probeReturned firstAnswer) 3 = some (secondJoins.1, secondJoins.2) := by
  rw [Prod.mk.eta]
  exact (Option.some_get _).symm

/-- The probe of the second daemon goes to the first one. -/
theorem probe_mem : Message.probe secondDaemon.newProbe ∈ sends secondStarts.2 := by
  obtain ⟨d, o, hd, hstart, -, hactions⟩ := starts_two
  obtain rfl := Option.some.inj (hd.symm.trans secondDaemon_eq)
  obtain rfl := Option.some.inj (hstart.symm.trans secondStarts_eq)
  exact hactions ▸ List.mem_singleton_self _

/-- And is answered. -/
theorem answer_mem : Message.returned firstAnswer ∈ sends firstAsked.2 :=
  List.mem_filterMap.2 ⟨.send (.returned firstAnswer), List.mem_append_right _ (List.mem_singleton_self _), rfl⟩

theorem joinedNetwork_reachable : (Network.system twoDaemons).Reachable joinedNetwork := by
  have hinitial : (Network.system twoDaemons).Reachable ⟨fun i => (twoDaemons i).discoverer, []⟩ := .initial rfl
  have hstart := hinitial.step (Network.Step.handle secondDaemon_eq .start secondStarts_eq)
  have hasked := hstart.step (Network.Step.handle (i := 0) (d := firstDaemon) firstDaemon_eq
    (.probe (List.mem_append_right _ probe_mem) (by decide)) firstAsked_eq)
  exact hasked.step (Network.Step.handle (i := 1) (d := secondStarts.1) rfl
    (.answer (List.mem_append_right _ answer_mem) (by decide)) secondJoins_eq)

/-- The second daemon has a superior then. -/
theorem superior_precedes_two :
    secondJoins.1.hierarchy.thisNode.superiorSocketAddress = (twoDaemons 0).socketAddress ∧
      tenNet.Precedes (twoDaemons 0).socketAddress (twoDaemons 1).socketAddress := by
  have hsuperior : secondJoins.1.hierarchy.thisNode.superiorSocketAddress = (twoDaemons 0).socketAddress := by
    decide +kernel
  have hown : secondJoins.1.hierarchy.thisNode.socketAddress = (twoDaemons 1).socketAddress := by decide +kernel
  have hlink := ((superior_precedes joinedNetwork_reachable).1 1 secondJoins.1 rfl).1
  rw [hsuperior, hown] at hlink
  exact ⟨hsuperior, hlink rfl⟩

/-! ### The first daemon hears of the second one's resources -/

/-- The second daemon, which has a superior, learns of its resources. -/
def secondUpdates : Discoverer.Outcome := secondJoins.1.setResources twoOfEach 4

/-- It tells the first one. -/
def updateKernel : HierarchyKernel where
  interfaceAddress := secondJoins.1.interfaceAddress
  nodes := secondUpdates.1.hierarchy.nodesWithin secondJoins.1.maxRadius
  source := (twoDaemons 1).socketAddress
  destination := (twoDaemons 0).socketAddress
  returned := false
  returnCode := .undefined

/-- The first one takes the new record. -/
def firstUpdates : Discoverer.Outcome := firstAsked.1.updateWeights updateKernel 5

/-- The network then. -/
def updatedNetwork : Network (Fin 2) where
  discoverer := Function.update (Function.update joinedNetwork.discoverer 1 (some secondUpdates.1))
    0 (some firstUpdates.1)
  sent := joinedNetwork.sent ++ sends secondUpdates.2 ++ sends firstUpdates.2

theorem updateKernel_mem : Message.hierarchy updateKernel ∈ sends secondUpdates.2 := by
  refine List.mem_filterMap.2 ⟨.send (.hierarchy updateKernel), ?_, rfl⟩
  have hchanged : (secondJoins.1.hierarchy.setResources twoOfEach 4).2 = true := by decide +kernel
  have hactions : secondUpdates.2 = .localResources twoOfEach :: secondUpdates.1.broadcastHierarchy .unset := by
    simp only [secondUpdates, Discoverer.setResources, hchanged, if_true]
  have hkey : (twoDaemons 0).socketAddress ∈ secondUpdates.1.hierarchy.nodes.keys.filter (· ≠ .unset) := by
    decide +kernel
  have hsource : secondUpdates.1.hierarchy.socketAddress = (twoDaemons 1).socketAddress := by decide +kernel
  rw [hactions]
  refine List.mem_cons_of_mem _ (List.mem_append_left _ (List.mem_map.2 ⟨_, hkey, ?_⟩))
  rw [Discoverer.sendWeight, hsource]
  rfl

end Subordination.Daemon
