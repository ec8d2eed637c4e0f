import Subordination.Daemon.Handlers

/-!
# Losing, leaving and refusing a superior

What becomes of the superior of a node when the connection to it is lost, when a probe is
answered, when the node leaves it for another one, and when it probes its own subordinate.

## What is proved

* **`never_restarts`**: a node that loses its superior does not search for another one:
  `remove_node` has cleared the superior before `on_client_remove` looks at it.
* **`follows_iff`**: the answer to a probe makes the node that has been asked the superior,
  which is the new superior only if the probe has gone to a candidate. The answer of the old
  superior makes it the superior again.
* **`never_releases`**: the old superior keeps the node as its subordinate, because the probe
  that tells it of the new superior carries no nodes.
* **`never_refused`**: the superior gets the exit code `success` for the probe that is
  rejected.
-/

namespace Subordination.Daemon

open Subordination.Core Subordination.Library

/-- `tree_hierarchy_iterator()`: the end of every iteration. -/
def TreeHierarchyIterator.done (a : InterfaceAddress) : TreeHierarchyIterator :=
  ⟨a, 0, 0, 1, ⟨0, 0, 1⟩, ⟨0, 0, 1⟩, ⟨0, 0, 1⟩, 0, .finished, .initial⟩

/-- The address of a node of 10.0.0.0/8. -/
def nodeAddress (i : UInt32) : SocketAddress := ipv4SocketAddress (0x0a000000 + i) 33333

/-- The record of a node of 10.0.0.0/8. -/
def nodeRecord (i : UInt32) : HierarchyNode := { (default : HierarchyNode) with socketAddress := nodeAddress i }

/-- A node of 10.0.0.0/8 that has found its superior and has probed all addresses. -/
def waitingNode (i superior : UInt32) : Discoverer where
  fanout := 2
  hierarchy := ((Hierarchy.construct (.ofAddress (0x0a000000 + i) 8) 8 33333).addSuperior
    (nodeRecord superior) 1).1
  iterator := .done (.ofAddress (0x0a000000 + i) 8)
  state := .waiting
  attempts := 0
  maxAttempts := 1
  maxRadius := 100

namespace Discoverer

variable {d d₀ : Discoverer} {o o₀ : Outcome} {now t : TimePoint}

/-! ### Losing the superior -/

/-- The superior is cleared and a search starts when the client with an address is lost: the
next candidate is probed, or the iterator starts from the beginning and a timer is started. -/
def Restarts (d : Discoverer) (a : SocketAddress) (now : TimePoint) : Prop :=
  ∃ o, d.onClientRemove a now = some o ∧ o.1.hierarchy.superiorSocketAddress = .unset ∧
    ((¬ d.iterator.atEnd = true ∧ ∃ p, .send (.probe p) ∈ o.2 ∧ p.destination = d.candidate) ∨
      (d.iterator.atEnd = true ∧ (∃ d', d.resetIterator = some d' ∧ o.1.iterator = d'.iterator) ∧
        .startTimer ∈ o.2))

/-- The superior that is removed is no longer there when it is compared. -/
theorem superior_removeNode (h : Hierarchy) (now : TimePoint) :
    (h.removeNode h.superiorSocketAddress now).1.superiorSocketAddress = .unset := by
  obtain ⟨hthis, -⟩ := h.removeNode_spec h.superiorSocketAddress now
  obtain ⟨-, -, -, -, hsuperior, -⟩ := h.unsetSuperior_spec h.superiorSocketAddress now
  rw [Hierarchy.superiorSocketAddress, hthis]
  exact hsuperior.trans (if_pos rfl)

/-- **The loss of the superior starts no search.** -/
theorem quiet_onClientRemove (hset : d.hierarchy.hasSuperior = true)
    (h : d.onClientRemove d.hierarchy.superiorSocketAddress now = some o) : Quiet o.2 := by
  have hquiet := d.quiet_clientRemoved d.hierarchy.superiorSocketAddress now
  obtain ⟨hsame, -⟩ | ⟨-, rfl⟩ := onClientRemove_cases h
  · have hunset : d.hierarchy.superiorSocketAddress = .unset := hsame.trans (superior_removeNode _ _)
    rw [Hierarchy.hasSuperior, hunset] at hset
    exact absurd hset Bool.false_ne_true
  · exact hquiet

/-- **A node that loses its superior never searches for another one.** -/
theorem never_restarts (d : Discoverer) (now : TimePoint) (hset : d.hierarchy.hasSuperior = true) :
    ¬ d.Restarts d.hierarchy.superiorSocketAddress now := by
  rintro ⟨o, ho, -, ⟨-, p, hp, -⟩ | ⟨-, -, htimer⟩⟩
  · exact (quiet_onClientRemove hset ho).2 p hp
  · exact (quiet_onClientRemove hset ho).1 htimer

/-- The node at 10.0.0.2 loses its superior at 10.0.0.1. -/
theorem never_restarts_two : ¬ (waitingNode 2 1).Restarts (waitingNode 2 1).hierarchy.superiorSocketAddress 2 :=
  never_restarts _ 2 (by decide)

theorem two_does_not_restart :
    ¬ ∀ (d : Discoverer) (now : TimePoint), d.hierarchy.hasSuperior = true →
      d.Restarts d.hierarchy.superiorSocketAddress now := by
  intro hall
  have hset : (waitingNode 2 1).hierarchy.hasSuperior = true := by decide
  obtain ⟨o, ho, -, ⟨-, p, hp, -⟩ | ⟨-, -, htimer⟩⟩ := hall (waitingNode 2 1) 2 hset
  · exact (quiet_onClientRemove hset ho).2 p hp
  · exact (quiet_onClientRemove hset ho).1 htimer

/-! ### Answers -/

/-- The answer makes the new superior the superior if it is another one than the old, and
otherwise leaves the superior as it is. -/
def Follows (d : Discoverer) (m : Probe) (now : TimePoint) : Prop :=
  ∃ o, d.probeReturned m now = some o ∧
    o.1.hierarchy.superiorSocketAddress =
      if m.oldSuperior ≠ m.newSuperior then m.newSuperior else d.hierarchy.superiorSocketAddress

/-- The answer to a probe comes from the daemon that it goes to. -/
inductive Answer (p m : Probe) : Prop
  | mk {r : Discoverer} {now : TimePoint} : r.hierarchy.socketAddress = p.destination →
      .send (.returned m) ∈ (r.probeReceived p now).2 → Answer p m

/-- Announcing a change answers no probe. -/
theorem returned_not_mem_announce (d : Discoverer) (changed : Bool) (ignoredEndpoint : SocketAddress) (m : Probe) :
    .send (.returned m) ∉ d.announce changed ignoredEndpoint := by
  intro hm
  cases changed with
  | false => exact absurd hm List.not_mem_nil
  | true =>
    rcases List.mem_cons.1 hm with hm | hm
    · cases hm
    rcases List.mem_append.1 hm with hm | hm
    · obtain ⟨a, -, ha⟩ := List.mem_map.1 hm
      cases ha
    · exact absurd (List.mem_singleton.1 hm) Action.noConfusion

/-- **The answer of `probe_received`**: the exit code is `success`, whatever `process_probe`
has set, and the nodes start with the daemon that answers. -/
theorem answer_spec {r : Discoverer} {p m : Probe} (hm : .send (.returned m) ∈ (r.probeReceived p now).2) :
    m.returnCode = .success ∧ m.oldSuperior = p.oldSuperior ∧ m.newSuperior = p.newSuperior ∧
      ∃ front rest, m.nodes = front :: rest ∧ front.socketAddress = r.hierarchy.socketAddress := by
  have hfields : (r.processProbe p).2.oldSuperior = p.oldSuperior ∧
      (r.processProbe p).2.newSuperior = p.newSuperior := by
    rw [processProbe]
    split
    · exact ⟨rfl, rfl⟩
    · exact ⟨rfl, rfl⟩
  rcases List.mem_append.1 hm with hm | hm
  · exact absurd hm (returned_not_mem_announce _ _ _ m)
  · obtain rfl := Message.returned.inj (Action.send.inj (List.mem_singleton.1 hm))
    obtain ⟨rest, hwithin, -⟩ := Hierarchy.nodesWithin_eq
      (r.mergeProbe (r.processProbe p).1 (r.processProbe p).2.nodes now).1 r.maxRadius
    refine ⟨rfl, hfields.1, hfields.2, _, rest, hwithin, ?_⟩
    exact socketAddress_handle (e := .probeReceived p) rfl

theorem superior_addSuperior (h : Hierarchy) (node : HierarchyNode) (now : TimePoint) :
    (h.addSuperior node now).1.superiorSocketAddress = node.socketAddress := by
  rw [Hierarchy.addSuperior]
  by_cases hsame : h.thisNode.superiorSocketAddress = node.socketAddress
  · rw [if_neg (not_not_intro hsame)]
    exact hsame
  · rw [if_pos hsame]
    exact HierarchyNode.superiorSocketAddress_incrementVersion _

/-- Every probe is answered. -/
theorem answered (d : Discoverer) (p : Probe) (now : TimePoint) :
    ∃ m, .send (.returned m) ∈ (d.probeReceived p now).2 :=
  ⟨_, List.mem_append_right _ (List.mem_singleton_self _)⟩

/-- A successful answer that names a new superior makes the daemon that answers the superior. -/
theorem superior_answer (d : Discoverer) {p m : Probe} (hm : Answer p m)
    (hne : p.oldSuperior ≠ p.newSuperior) (now : TimePoint) :
    ∃ o, d.probeReturned m now = some o ∧ o.1.hierarchy.superiorSocketAddress = p.destination := by
  obtain ⟨haddress, hmem⟩ := hm
  obtain ⟨hcode, hold, hnew, front, rest, hnodes, hfront⟩ := answer_spec hmem
  have hne : m.oldSuperior ≠ m.newSuperior := by
    rw [hold, hnew]
    exact hne
  have hsuperior : (d.mergeAnswer m now).1.superiorSocketAddress = front.socketAddress := by
    rw [mergeAnswer, hnodes]
    exact superior_addSuperior _ front now
  rw [probeReturned, if_neg (not_not_intro hcode), if_pos hne]
  exact ⟨_, rfl, hsuperior.trans (hfront.trans haddress)⟩

/-- A successful answer that names a new superior is followed by a probe to the old one. -/
theorem farewell_sent (d : Discoverer) {m : Probe} (hcode : m.returnCode = .success)
    (hne : m.oldSuperior ≠ m.newSuperior) (hset : m.oldSuperior.isSet = true) (now : TimePoint) :
    ∃ o f, d.probeReturned m now = some o ∧ .send (.probe f) ∈ o.2 ∧ f.destination = m.oldSuperior ∧
      f.oldSuperior = m.oldSuperior ∧ f.newSuperior = m.newSuperior := by
  rw [probeReturned, if_neg (not_not_intro hcode), if_pos hne]
  refine ⟨_, farewell { d with hierarchy := (d.mergeAnswer m now).1 } m, rfl, ?_, rfl, rfl, rfl⟩
  refine List.mem_append_right _ (List.mem_append_right _ (List.mem_append_left _ ?_))
  rw [if_pos hset]
  exact List.mem_singleton_self _

/-- The only probe that follows a successful answer goes to the old superior, and it carries
no nodes. -/
theorem farewell_spec {m f : Probe} (h : d.probeReturned m now = some o) (hcode : m.returnCode = .success)
    (hf : .send (.probe f) ∈ o.2) : f.nodes = [] ∧ f.destination = m.oldSuperior := by
  obtain ⟨hfailed, -⟩ | ⟨-, -, rfl⟩ | ⟨-, -, -, hactions⟩ := probeReturned_cases h
  · exact absurd hcode hfailed
  · exact absurd (List.mem_singleton.1 hf) Action.noConfusion
  · obtain ⟨quiet, hquiet, htake⟩ := d.takeSuperior_eq m now
    rw [hactions, htake] at hf
    rcases List.mem_append.1 hf with hf | hf
    · rcases List.mem_append.1 hf with hf | hf
      · exact absurd hf (hquiet.2 f)
      · rw [farewells] at hf
        split at hf
        · obtain rfl := Message.probe.inj (Action.send.inj (List.mem_singleton.1 hf))
          exact ⟨rfl, rfl⟩
        · exact absurd hf List.not_mem_nil
    · exact absurd (List.mem_singleton.1 hf) Action.noConfusion

/-- **A node gets the superior that its probe names as the new one exactly if the probe has gone
to a candidate**, and not to the old superior. -/
theorem follows_iff {e : Event} (hsent : d₀.handle e t = some o₀) {p m : Probe}
    (hp : .send (.probe p) ∈ o₀.2) (hm : Answer p m) (d : Discoverer) (now : TimePoint) :
    d.Follows m now ↔ p.IsCandidate := by
  obtain ⟨hcode, hold, hnew, -⟩ : m.returnCode = .success ∧ m.oldSuperior = p.oldSuperior ∧
      m.newSuperior = p.newSuperior ∧ True := by
    obtain ⟨-, hmem⟩ := hm
    obtain ⟨hcode, hold, hnew, -⟩ := answer_spec hmem
    exact ⟨hcode, hold, hnew, trivial⟩
  rw [Follows, hold, hnew]
  by_cases hne : p.oldSuperior = p.newSuperior
  · have hcandidate : p.IsCandidate :=
      (probe_of_handle hsent hp).resolve_right fun hfollow => hfollow.2 hne
    refine iff_of_true ?_ hcandidate
    rw [probeReturned, if_neg (not_not_intro hcode), hold, hnew, if_neg (not_not_intro hne),
      if_neg (not_not_intro hne)]
    exact ⟨_, rfl, rfl⟩
  · obtain ⟨o, ho, hsuperior⟩ := d.superior_answer hm hne now
    rw [if_pos hne]
    constructor
    · rintro ⟨o', ho', hsuperior'⟩
      obtain rfl := Option.some.inj (ho.symm.trans ho')
      exact hsuperior.symm.trans hsuperior'
    · intro hcandidate
      exact ⟨o, ho, hsuperior.trans hcandidate⟩

/-- The answer that takes the node at 10.0.0.3 from its superior at 10.0.0.2 to the one at
10.0.0.1. -/
def promotion : Probe where
  interfaceAddress := .ofAddress 0x0a000003 8
  oldSuperior := nodeAddress 2
  newSuperior := nodeAddress 1
  nodes := [nodeRecord 1]
  source := nodeAddress 1
  destination := nodeAddress 3
  returnCode := .success

/-- The second daemon starts, and the first one answers its probe. -/
theorem follows_iff_two : ∃ p m, Answer p m ∧ ∀ d : Discoverer, d.Follows m 1 := by
  obtain ⟨d₀, o₀, -, hstart, -, hactions⟩ := starts_two
  have hsent : .send (.probe d₀.newProbe) ∈ o₀.2 := by
    rw [hactions]
    exact List.mem_singleton_self _
  let r : Discoverer :=
    { d₀ with
      hierarchy := { d₀.hierarchy with thisNode := { d₀.hierarchy.thisNode with socketAddress := d₀.candidate } } }
  obtain ⟨m, hm⟩ := r.answered d₀.newProbe 1
  have hanswer : Answer d₀.newProbe m := ⟨rfl, hm⟩
  exact ⟨d₀.newProbe, m, hanswer, fun d => (follows_iff hstart hsent hanswer d 1).2 rfl⟩

/-- The node that has been left answers too, and becomes the superior again. -/
theorem old_superior_again :
    ¬ ∀ (d₀ d : Discoverer) (e : Event) (t now : TimePoint) (o₀ : Outcome) (p m : Probe),
      d₀.handle e t = some o₀ → .send (.probe p) ∈ o₀.2 → Answer p m → d.Follows m now := by
  intro hall
  obtain ⟨o₀, f, hreturned, hf, hdestination, hold, hnew⟩ :=
    (waitingNode 3 2).farewell_sent (m := promotion) rfl (by decide) (by decide) 2
  obtain ⟨m, hm⟩ := (waitingNode 2 1).answered f 3
  have haddress : (waitingNode 2 1).hierarchy.socketAddress = nodeAddress 2 := by decide
  have hanswer : Answer f m := ⟨haddress.trans hdestination.symm, hm⟩
  have hne : f.oldSuperior ≠ f.newSuperior := by
    rw [hold, hnew]
    decide
  obtain ⟨o, ho, hsuperior⟩ := o₀.1.superior_answer hanswer hne 4
  obtain ⟨o', ho', hfollows⟩ := hall _ o₀.1 (.probeReturned promotion) 2 4 o₀ f m hreturned hf hanswer
  obtain rfl := Option.some.inj (ho.symm.trans ho')
  obtain ⟨-, hmold, hmnew, -⟩ := answer_spec hm
  rw [hmold, hmnew, if_pos hne, hsuperior, hdestination, hnew] at hfollows
  exact absurd hfollows (by decide)

/-! ### Leaving the old superior -/

/-- A probe without nodes leaves the hierarchy as it is. -/
theorem hierarchy_probeReceived_nil (d : Discoverer) {p : Probe} (hnodes : p.nodes = []) (now : TimePoint) :
    (d.probeReceived p now).1.hierarchy = d.hierarchy := by
  have hcalls : (d.probeReceived p now).1.hierarchy = d.hierarchy.applyAll (d.probeCalls p) now :=
    hierarchy_handle (e := .probeReceived p) rfl
  rw [hcalls, probeCalls, hnodes]
  rfl

/-- The record of the node at an address no longer names this node as its superior, once the
probe has been handled. -/
def Releases (a : Discoverer) (f : Probe) (address : SocketAddress) (now : TimePoint) : Prop :=
  ∀ r, (a.probeReceived f now).1.hierarchy.nodes.lookup address = some r →
    r.superiorSocketAddress ≠ a.hierarchy.socketAddress

theorem not_releases {n a : Discoverer} {m f : Probe} {r : HierarchyNode}
    (hreturned : n.probeReturned m t = some o) (hcode : m.returnCode = .success)
    (hf : .send (.probe f) ∈ o.2) (hr : a.hierarchy.nodes.lookup n.hierarchy.socketAddress = some r)
    (hsuperior : r.superiorSocketAddress = a.hierarchy.socketAddress) (now : TimePoint) :
    ¬ a.Releases f n.hierarchy.socketAddress now := by
  intro hreleases
  refine hreleases r ?_ hsuperior
  rw [a.hierarchy_probeReceived_nil (farewell_spec hreturned hcode hf).1]
  exact hr

/-- **The old superior never releases a node that has left it for another one**: the probe that
it gets from the node has no nodes in it. -/
theorem never_releases {n a : Discoverer} {m f : Probe} {r : HierarchyNode}
    (hreturned : n.probeReturned m t = some o) (hcode : m.returnCode = .success)
    (hf : .send (.probe f) ∈ o.2) (ha : a.hierarchy.socketAddress = m.oldSuperior)
    (hr : a.hierarchy.nodes.lookup n.hierarchy.socketAddress = some r)
    (hsuperior : r.superiorSocketAddress = a.hierarchy.socketAddress) (now : TimePoint) :
    f.destination = a.hierarchy.socketAddress ∧ ¬ a.Releases f n.hierarchy.socketAddress now :=
  ⟨(farewell_spec hreturned hcode hf).2.trans ha.symm, not_releases hreturned hcode hf hr hsuperior now⟩

/-- The node at 10.0.0.2, with the one at 10.0.0.3 as its subordinate. -/
def leftNode : Discoverer :=
  { waitingNode 2 1 with hierarchy := ((waitingNode 2 1).hierarchy.addSubordinate (nodeRecord 3) 1).1 }

theorem lookup_leftNode : ∃ r, leftNode.hierarchy.nodes.lookup (waitingNode 3 2).hierarchy.socketAddress = some r ∧
    r.superiorSocketAddress = leftNode.hierarchy.socketAddress := by
  have hlookup : (leftNode.hierarchy.nodes.lookup (waitingNode 3 2).hierarchy.socketAddress).map
      HierarchyNode.superiorSocketAddress = some leftNode.hierarchy.socketAddress := by decide
  exact Option.map_eq_some_iff.1 hlookup

/-- The node at 10.0.0.3 leaves the one at 10.0.0.2 for the one at 10.0.0.1. -/
theorem never_releases_three :
    ∃ (o : Outcome) (f : Probe), (waitingNode 3 2).probeReturned promotion 2 = some o ∧
      .send (.probe f) ∈ o.2 ∧ ¬ leftNode.Releases f (waitingNode 3 2).hierarchy.socketAddress 3 := by
  obtain ⟨o, f, hreturned, hf, -⟩ :=
    (waitingNode 3 2).farewell_sent (m := promotion) rfl (by decide) (by decide) 2
  obtain ⟨r, hr, hsuperior⟩ := lookup_leftNode
  exact ⟨o, f, hreturned, hf, (never_releases hreturned rfl hf (by decide) hr hsuperior 3).2⟩

theorem three_is_not_released :
    ¬ ∀ (n a : Discoverer) (m f : Probe) (o : Outcome) (t now : TimePoint) (r : HierarchyNode),
      n.probeReturned m t = some o → m.returnCode = .success → .send (.probe f) ∈ o.2 →
      a.hierarchy.socketAddress = m.oldSuperior →
      a.hierarchy.nodes.lookup n.hierarchy.socketAddress = some r →
      r.superiorSocketAddress = a.hierarchy.socketAddress → a.Releases f n.hierarchy.socketAddress now := by
  intro hall
  obtain ⟨o, f, hreturned, hf, -⟩ :=
    (waitingNode 3 2).farewell_sent (m := promotion) rfl (by decide) (by decide) 2
  obtain ⟨r, hr, hsuperior⟩ := lookup_leftNode
  exact not_releases hreturned rfl hf hr hsuperior 3
    (hall _ leftNode promotion f o 2 3 r hreturned rfl hf (by decide) hr hsuperior)

/-! ### Refusing the superior -/

/-- No answer to the probe has the exit code `success`. -/
def Refuses (d : Discoverer) (p : Probe) (now : TimePoint) : Prop :=
  ∀ m, .send (.returned m) ∈ (d.probeReceived p now).2 → m.returnCode ≠ .success

/-- **The superior is never refused**: `return_to_parent` overwrites the exit code that
`process_probe` has set. -/
theorem never_refused (d : Discoverer) (p : Probe) (now : TimePoint)
    (hrejected : p.source = d.hierarchy.superiorSocketAddress) :
    (d.processProbe p).1 = .rejectSubordinate ∧ ¬ d.Refuses p now := by
  constructor
  · rw [processProbe, if_pos hrejected]
  · intro hrefuses
    obtain ⟨m, hm⟩ := d.answered p now
    exact hrefuses m hm (answer_spec hm).1

/-- The node at 10.0.0.2 is probed by its superior at 10.0.0.1. -/
def superiorProbe : Probe where
  interfaceAddress := .ofAddress 0x0a000001 8
  oldSuperior := .unset
  newSuperior := nodeAddress 2
  nodes := [nodeRecord 1]
  source := nodeAddress 1
  destination := nodeAddress 2
  returnCode := .undefined

theorem never_refused_two : ¬ (waitingNode 2 1).Refuses superiorProbe 2 :=
  (never_refused (waitingNode 2 1) superiorProbe 2 (by decide)).2

theorem superior_is_not_refused :
    ¬ ∀ (d : Discoverer) (p : Probe) (now : TimePoint), p.source = d.hierarchy.superiorSocketAddress →
      d.Refuses p now := by
  intro hall
  obtain ⟨m, hm⟩ := (waitingNode 2 1).answered superiorProbe 2
  exact hall (waitingNode 2 1) superiorProbe 2 (by decide) m hm (answer_spec hm).1

end Discoverer

end Subordination.Daemon
