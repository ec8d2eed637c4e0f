import Subordination.Daemon.HierarchyVersions
import Subordination.Daemon.Network

/-!
# What the handlers do

The handlers of the discoverer share their effects: they change the hierarchy through its
own functions, they send kernels with records of that hierarchy, and they search for a
superior.

## What is proved

* **`hierarchy_handle`**: the hierarchy after an event is the one before it with the calls of
  `Discoverer.calls` made one after another.
* **`nodes_handle`**: a kernel that is sent carries the own record and records of the table.
* **`probe_of_handle`**: a probe that is sent goes to a candidate, or to the old superior when
  the node has found a new one.
-/

namespace Subordination.Daemon

open Subordination.Core Subordination.Library
open Subordination.Core.Resources (Bindings)

/-- The probe goes to the node that it names as the new superior: it is one of those that
`discover` sends. -/
def Probe.IsCandidate (p : Probe) : Prop := p.destination = p.newSuperior

instance (p : Probe) : Decidable p.IsCandidate := inferInstanceAs (Decidable (_ = _))

/-! ### Calls -/

namespace Hierarchy

/-- Calls one after another, without what they return. -/
def applyAll (h : Hierarchy) (calls : List Mutator) (now : TimePoint) : Hierarchy :=
  calls.foldl (fun h m => (h.apply m now).1) h

/-- No call changes the address of the node. -/
theorem socketAddress_apply (h : Hierarchy) (m : Mutator) (now : TimePoint) :
    (h.apply m now).1.socketAddress = h.socketAddress := by
  cases m with
  | addNodes nodes => exact congrArg HierarchyNode.socketAddress (h.thisNode_addNodes nodes now)
  | addSuperior node =>
    rw [apply, addSuperior]
    split
    · exact HierarchyNode.socketAddress_incrementVersion _
    · rfl
  | addSubordinate node =>
    rw [apply, addSubordinate]
    split
    · rfl
    · rfl
  | removeNode sa =>
    have haddress := (h.unsetSuperior_spec sa now).2.1
    rw [socketAddress, unsetSuperior] at haddress
    rw [apply, socketAddress, (h.removeNode_spec sa now).1, unsetSuperior]
    exact haddress
  | resources rhs =>
    rw [apply, setResources]
    split
    · rfl
    · exact HierarchyNode.socketAddress_incrementVersion _

theorem socketAddress_applyAll (h : Hierarchy) (calls : List Mutator) (now : TimePoint) :
    (h.applyAll calls now).socketAddress = h.socketAddress := by
  induction calls generalizing h with
  | nil => rfl
  | cons m calls ih => exact (ih _).trans (h.socketAddress_apply m now)

end Hierarchy

namespace Discoverer

variable {d : Discoverer} {o : Outcome} {now : TimePoint}

/-- The calls that `probe_received` makes on the hierarchy. -/
def probeCalls (d : Discoverer) (p : Probe) : List Mutator :=
  match p.nodes with
  | [] => []
  | front :: _ =>
    .addNodes p.nodes ::
      match (d.processProbe p).1 with
      | .addSubordinate => [.addSubordinate front]
      | .removeSubordinate => [.removeNode front.socketAddress]
      | .rejectSubordinate | .retain => []

/-- The calls that `probe_returned` makes on the hierarchy. -/
def answerCalls (p : Probe) : List Mutator :=
  if p.returnCode = .success ∧ p.oldSuperior ≠ p.newSuperior then
    match p.nodes with
    | [] => []
    | front :: _ => [.addNodes p.nodes, .addSuperior front]
  else []

/-- The calls that an event leads to. -/
def calls (d : Discoverer) : Event → List Mutator
  | .start | .timer | .otherPipelineEvent => []
  | .probeReceived p => d.probeCalls p
  | .probeReturned p => answerCalls p
  | .hierarchy k => if k.returned ∧ k.returnCode ≠ .success then [] else [.addNodes k.nodes]
  | .removeClient a => [.removeNode a]
  | .resources rhs => [.resources rhs]

/-! ### What each handler does -/

theorem resetIterator_spec {d' : Discoverer} (h : d.resetIterator = some d') :
    d'.hierarchy = d.hierarchy ∧ d'.state = d.state := by
  obtain ⟨iterator, -, heq⟩ := Option.bind_eq_some_iff.1 h
  rw [← Option.some.inj heq]
  exact ⟨rfl, rfl⟩

/-- A search leaves the hierarchy as it is. -/
theorem hierarchy_discover (h : d.discover = some o) : o.1.hierarchy = d.hierarchy := by
  obtain ⟨-, d', hreset, rfl⟩ | ⟨-, hhierarchy, -, -⟩ := d.discover_cases h
  · exact (resetIterator_spec hreset).1
  · exact hhierarchy

/-- What a timer does: nothing, a search, or another timer. -/
theorem onTimer_cases (h : d.onTimer = some o) :
    (d.state ≠ .waiting ∧ o = (d, [])) ∨
      (d.state = .waiting ∧ ∃ d' : Discoverer, d'.hierarchy = d.hierarchy ∧ d'.state = d.state ∧
        (d'.discover = some o ∨ o = d'.discoverLater)) := by
  rw [onTimer] at h
  by_cases hstate : d.state = .waiting
  · rw [if_neg (not_not_intro hstate)] at h
    obtain ⟨d', hreset, hnext⟩ := Option.bind_eq_some_iff.1 h
    have hsame : d'.hierarchy = d.hierarchy ∧ d'.state = d.state := by
      split at hreset
      · exact resetIterator_spec hreset
      · rw [Option.some.inj hreset]
        exact ⟨rfl, rfl⟩
    refine Or.inr ⟨hstate, d', hsame.1, hsame.2, ?_⟩
    split at hnext
    · exact Or.inl hnext
    · exact Or.inr (Option.some.inj hnext).symm
  · rw [if_pos hstate] at h
    exact Or.inl ⟨hstate, (Option.some.inj h).symm⟩

/-- The actions with which a node takes a new superior, before the timer is started. -/
def takeSuperior (d : Discoverer) (p : Probe) (now : TimePoint) : List Action :=
  let d' := { d with hierarchy := (d.mergeAnswer p now).1 }
  (if p.oldSuperior.isSet then [.stopClient p.oldSuperior] else []) ++
    (d'.announce (d.mergeAnswer p now).2 (front p) ++
      (if p.oldSuperior.isSet then [.send (.probe (d'.farewell p))] else []))

/-- **What an answer does**: a search, a timer, or a new superior and a timer. -/
theorem probeReturned_cases {p : Probe} (h : d.probeReturned p now = some o) :
    (p.returnCode ≠ .success ∧ d.discover = some o) ∨
      (p.returnCode = .success ∧ p.oldSuperior = p.newSuperior ∧ o = d.discoverLater) ∨
      (p.returnCode = .success ∧ p.oldSuperior ≠ p.newSuperior ∧
        o.1 = { d with hierarchy := (d.mergeAnswer p now).1, state := .waiting } ∧
        o.2 = d.takeSuperior p now ++ [.startTimer]) := by
  rw [probeReturned] at h
  by_cases hcode : p.returnCode = .success
  · rw [if_neg (not_not_intro hcode)] at h
    by_cases hsame : p.oldSuperior = p.newSuperior
    · rw [if_neg (not_not_intro hsame)] at h
      exact Or.inr (Or.inl ⟨hcode, hsame, (Option.some.inj h).symm⟩)
    · rw [if_pos hsame] at h
      refine Or.inr (Or.inr ⟨hcode, hsame, ?_⟩)
      rw [← Option.some.inj h]
      refine ⟨rfl, ?_⟩
      rw [takeSuperior, List.append_assoc, List.append_assoc]
      rfl
  · rw [if_pos hcode] at h
    exact Or.inl ⟨hcode, h⟩

/-- What the loss of a client does: the node is removed, and there is a search if it still is
the superior then. -/
theorem onClientRemove_cases {a : SocketAddress} (h : d.onClientRemove a now = some o) :
    let d' := { d with hierarchy := (d.hierarchy.removeNode a now).1 }
    let actions := if (d.hierarchy.removeNode a now).2 then d'.broadcastHierarchy a else []
    (a = d'.hierarchy.superiorSocketAddress ∧ ∃ o', d'.discover = some o' ∧ o = (o'.1, actions ++ o'.2)) ∨
      (a ≠ d'.hierarchy.superiorSocketAddress ∧ o = (d', actions)) := by
  rw [onClientRemove] at h
  simp only at h
  split at h
  · next hsuperior =>
    obtain ⟨o', hdiscover, heq⟩ := Option.bind_eq_some_iff.1 h
    exact Or.inl ⟨hsuperior, o', hdiscover, (Option.some.inj heq).symm⟩
  · next hsuperior => exact Or.inr ⟨hsuperior, (Option.some.inj h).symm⟩

/-! ### The hierarchy -/

theorem mergeProbe_fst (d : Discoverer) (p : Probe) (now : TimePoint) :
    (d.mergeProbe (d.processProbe p).1 p.nodes now).1 = d.hierarchy.applyAll (d.probeCalls p) now := by
  rw [probeCalls]
  cases p.nodes with
  | nil => rfl
  | cons front rest =>
    cases (d.processProbe p).1 with
    | addSubordinate => rfl
    | removeSubordinate => rfl
    | rejectSubordinate => rfl
    | retain => rfl

theorem mergeAnswer_fst (d : Discoverer) {p : Probe} (hcode : p.returnCode = .success)
    (hne : p.oldSuperior ≠ p.newSuperior) (now : TimePoint) :
    (d.mergeAnswer p now).1 = d.hierarchy.applyAll (answerCalls p) now := by
  rw [mergeAnswer, answerCalls, if_pos ⟨hcode, hne⟩]
  cases p.nodes with
  | nil => rfl
  | cons front rest => rfl

/-- **An event changes the hierarchy by its calls.** -/
theorem hierarchy_handle {e : Event} (h : d.handle e now = some o) :
    o.1.hierarchy = d.hierarchy.applyAll (d.calls e) now := by
  cases e with
  | start => exact hierarchy_discover h
  | timer =>
    obtain ⟨-, rfl⟩ | ⟨-, d', hsame, -, hnext | rfl⟩ := onTimer_cases h
    · rfl
    · exact (hierarchy_discover hnext).trans hsame
    · exact hsame
  | probeReceived p =>
    rw [← Option.some.inj h]
    have hnodes := (d.nodes_processProbe p).1
    show (d.mergeProbe (d.processProbe p).1 (d.processProbe p).2.nodes now).1 = _
    rw [hnodes]
    exact d.mergeProbe_fst p now
  | probeReturned p =>
    obtain ⟨hcode, hnext⟩ | ⟨-, hsame, rfl⟩ | ⟨hcode, hne, ho, -⟩ := probeReturned_cases h
    · rw [hierarchy_discover hnext, calls, answerCalls, if_neg fun hboth => hcode hboth.1]
      rfl
    · rw [calls, answerCalls, if_neg fun hboth => hboth.2 hsame]
      rfl
    · rw [ho]
      exact d.mergeAnswer_fst hcode hne now
  | hierarchy k =>
    rw [← Option.some.inj h, updateWeights, calls]
    split
    · rfl
    · rfl
  | removeClient a =>
    obtain ⟨-, o', hnext, rfl⟩ | ⟨-, rfl⟩ := onClientRemove_cases h
    · exact hierarchy_discover hnext
    · rfl
  | otherPipelineEvent =>
    rw [← Option.some.inj h]
    rfl
  | resources rhs =>
    rw [← Option.some.inj h]
    rfl

/-- No event changes the address of the node. -/
theorem socketAddress_handle {e : Event} (h : d.handle e now = some o) :
    o.1.hierarchy.socketAddress = d.hierarchy.socketAddress := by
  rw [hierarchy_handle h, Hierarchy.socketAddress_applyAll]

/-! ### The kernels -/

/-- The kernels among some actions carry records of a hierarchy. -/
def Carry (h : Hierarchy) (actions : List Action) : Prop :=
  ∀ m ∈ sends actions, ∀ r ∈ m.nodes, r = h.thisNode ∨ r ∈ h.records

theorem Carry.append {h : Hierarchy} {xs ys : List Action} (hxs : Carry h xs) (hys : Carry h ys) :
    Carry h (xs ++ ys) := by
  intro m hm
  rw [sends_append] at hm
  rcases List.mem_append.1 hm with hm | hm
  · exact hxs m hm
  · exact hys m hm

/-- Actions that send nothing. -/
theorem Carry.of_sends_eq_nil {h : Hierarchy} {actions : List Action} (hsends : sends actions = []) :
    Carry h actions := by
  intro m hm
  rw [hsends] at hm
  exact absurd hm List.not_mem_nil

/-- One kernel. -/
theorem carry_send {h : Hierarchy} {m : Message} (hm : ∀ r ∈ m.nodes, r = h.thisNode ∨ r ∈ h.records) :
    Carry h [.send m] := by
  intro m' hm'
  obtain rfl := List.mem_singleton.1 hm'
  exact hm

theorem carry_nodesWithin {h : Hierarchy} {radius : ℕ} {r : HierarchyNode} (hr : r ∈ h.nodesWithin radius) :
    r = h.thisNode ∨ r ∈ h.records := by
  obtain ⟨rest, heq, hrest⟩ := h.nodesWithin_eq radius
  rw [heq] at hr
  rcases List.mem_cons.1 hr with rfl | hr
  · exact Or.inl rfl
  · exact Or.inr (hrest r hr)

theorem carry_broadcastHierarchy (d : Discoverer) (ignoredEndpoint : SocketAddress) :
    Carry d.hierarchy (d.broadcastHierarchy ignoredEndpoint) := by
  refine Carry.append (fun m hm r hr => ?_) (Carry.of_sends_eq_nil rfl)
  rw [mem_sends] at hm
  obtain ⟨a, -, ha⟩ := List.mem_map.1 hm
  rw [sendWeight, Action.send.injEq] at ha
  subst ha
  exact carry_nodesWithin hr

theorem carry_announce (d : Discoverer) (changed : Bool) (ignoredEndpoint : SocketAddress) :
    Carry d.hierarchy (d.announce changed ignoredEndpoint) := by
  cases changed with
  | false => exact Carry.of_sends_eq_nil rfl
  | true => exact d.carry_broadcastHierarchy ignoredEndpoint

theorem carry_discover (h : d.discover = some o) : Carry d.hierarchy o.2 := by
  obtain ⟨-, d', -, rfl⟩ | ⟨-, -, -, hactions⟩ := d.discover_cases h
  · exact Carry.of_sends_eq_nil rfl
  · rw [hactions]
    exact carry_send fun r hr => Or.inl (List.mem_singleton.1 hr)

theorem carry_takeSuperior (d : Discoverer) (p : Probe) (now : TimePoint) :
    Carry (d.mergeAnswer p now).1 (d.takeSuperior p now) := by
  refine Carry.append ?_ (Carry.append ?_ ?_)
  · split
    · exact Carry.of_sends_eq_nil rfl
    · exact Carry.of_sends_eq_nil rfl
  · exact carry_announce { d with hierarchy := (d.mergeAnswer p now).1 } _ _
  · split
    · exact carry_send fun r hr => absurd hr List.not_mem_nil
    · exact Carry.of_sends_eq_nil rfl

/-- **A kernel that is sent carries records of the hierarchy.** -/
theorem nodes_handle {e : Event} (h : d.handle e now = some o) : Carry o.1.hierarchy o.2 := by
  cases e with
  | start =>
    rw [hierarchy_discover h]
    exact carry_discover h
  | timer =>
    obtain ⟨-, rfl⟩ | ⟨-, d', -, -, hnext | rfl⟩ := onTimer_cases h
    · exact Carry.of_sends_eq_nil rfl
    · rw [hierarchy_discover hnext]
      exact carry_discover hnext
    · exact Carry.of_sends_eq_nil rfl
  | probeReceived p =>
    rw [← Option.some.inj h]
    exact (carry_announce _ _ _).append (carry_send fun r hr => carry_nodesWithin hr)
  | probeReturned p =>
    obtain ⟨-, hnext⟩ | ⟨-, -, rfl⟩ | ⟨-, -, ho, hactions⟩ := probeReturned_cases h
    · rw [hierarchy_discover hnext]
      exact carry_discover hnext
    · exact Carry.of_sends_eq_nil rfl
    · rw [ho, hactions]
      exact (d.carry_takeSuperior p now).append (Carry.of_sends_eq_nil rfl)
  | hierarchy k =>
    rw [← Option.some.inj h, updateWeights]
    split
    · exact Carry.of_sends_eq_nil rfl
    · exact carry_announce { d with hierarchy := (d.hierarchy.addNodes k.nodes now).1 } _ _
  | removeClient a =>
    have hbroadcast : Carry (d.hierarchy.removeNode a now).1 (if (d.hierarchy.removeNode a now).2 then
        ({ d with hierarchy := (d.hierarchy.removeNode a now).1 } : Discoverer).broadcastHierarchy a else []) := by
      split
      · exact carry_broadcastHierarchy _ a
      · exact Carry.of_sends_eq_nil rfl
    obtain ⟨-, o', hnext, rfl⟩ | ⟨-, rfl⟩ := onClientRemove_cases h
    · have hsearch := carry_discover hnext
      rw [hierarchy_discover hnext]
      exact hbroadcast.append hsearch
    · exact hbroadcast
  | otherPipelineEvent =>
    rw [← Option.some.inj h]
    exact Carry.of_sends_eq_nil rfl
  | resources rhs =>
    rw [← Option.some.inj h, setResources]
    show Carry (d.hierarchy.setResources rhs now).1 (if _ then _ else _)
    split
    · intro m hm
      exact carry_broadcastHierarchy { d with hierarchy := (d.hierarchy.setResources rhs now).1 } .unset m hm
    · exact Carry.of_sends_eq_nil rfl

/-! ### Probes and timers -/

/-- Actions that neither send a probe nor start a timer. -/
def Quiet (actions : List Action) : Prop := .startTimer ∉ actions ∧ ∀ p, .send (.probe p) ∉ actions

/-- The actions of a search: one probe, or a timer. -/
inductive Searching : List Action → Prop
  /-- The next candidate is probed. -/
  | probe (d : Discoverer) : Searching [.send (.probe d.newProbe)]
  /-- The search goes on later. -/
  | later : Searching [.startTimer]

theorem quiet_nil : Quiet [] := ⟨List.not_mem_nil, fun _ => List.not_mem_nil⟩

theorem Quiet.append {xs ys : List Action} (hxs : Quiet xs) (hys : Quiet ys) : Quiet (xs ++ ys) := by
  constructor
  · rw [List.mem_append, not_or]
    exact ⟨hxs.1, hys.1⟩
  · intro p
    rw [List.mem_append, not_or]
    exact ⟨hxs.2 p, hys.2 p⟩

/-- One action that is neither. -/
theorem quiet_singleton {a : Action} (htimer : .startTimer ≠ a) (hprobe : ∀ p, .send (.probe p) ≠ a) :
    Quiet [a] :=
  ⟨fun h => htimer (List.mem_singleton.1 h), fun p h => hprobe p (List.mem_singleton.1 h)⟩

theorem quiet_broadcastHierarchy (d : Discoverer) (ignoredEndpoint : SocketAddress) :
    Quiet (d.broadcastHierarchy ignoredEndpoint) := by
  refine Quiet.append ⟨fun h => ?_, fun p h => ?_⟩ (quiet_singleton Action.noConfusion fun _ => Action.noConfusion)
  · obtain ⟨a, -, ha⟩ := List.mem_map.1 h
    cases ha
  · obtain ⟨a, -, ha⟩ := List.mem_map.1 h
    cases ha

theorem quiet_announce (d : Discoverer) (changed : Bool) (ignoredEndpoint : SocketAddress) :
    Quiet (d.announce changed ignoredEndpoint) := by
  cases changed with
  | false => exact quiet_nil
  | true =>
    exact Quiet.append (quiet_singleton Action.noConfusion fun _ => Action.noConfusion)
      (d.quiet_broadcastHierarchy ignoredEndpoint)

theorem searching_discover (h : d.discover = some o) : Searching o.2 := by
  obtain ⟨-, d', -, rfl⟩ | ⟨-, -, -, hactions⟩ := d.discover_cases h
  · exact .later
  · rw [hactions]
    exact .probe d

/-- The probe to the old superior, if there is one. -/
def farewells (d : Discoverer) (p : Probe) : List Action :=
  if p.oldSuperior.isSet then [.send (.probe (d.farewell p))] else []

/-- A node that takes a new superior sends no probe but the one to the old superior. -/
theorem takeSuperior_eq (d : Discoverer) (p : Probe) (now : TimePoint) :
    ∃ quiet, Quiet quiet ∧
      d.takeSuperior p now = quiet ++ farewells { d with hierarchy := (d.mergeAnswer p now).1 } p := by
  refine ⟨_, Quiet.append ?_ (quiet_announce _ _ _), (List.append_assoc _ _ _).symm⟩
  split
  · exact quiet_singleton Action.noConfusion fun _ => Action.noConfusion
  · exact quiet_nil

theorem quiet_probeReceived (d : Discoverer) (p : Probe) (now : TimePoint) : Quiet (d.probeReceived p now).2 :=
  (quiet_announce _ _ _).append
    (quiet_singleton Action.noConfusion fun _ h => Message.noConfusion (Action.send.inj h))

theorem quiet_updateWeights (d : Discoverer) (k : HierarchyKernel) (now : TimePoint) :
    Quiet (d.updateWeights k now).2 := by
  rw [updateWeights]
  split
  · exact quiet_nil
  · exact quiet_announce _ _ _

theorem quiet_setResources (d : Discoverer) (rhs : Bindings) (now : TimePoint) :
    Quiet (d.setResources rhs now).2 := by
  show Quiet (if _ then _ else _)
  split
  · exact Quiet.append (quiet_singleton Action.noConfusion fun _ => Action.noConfusion)
      (quiet_broadcastHierarchy _ _)
  · exact quiet_nil

/-- What the loss of a client does besides searching. -/
theorem quiet_clientRemoved (d : Discoverer) (a : SocketAddress) (now : TimePoint) :
    Quiet (if (d.hierarchy.removeNode a now).2 then
      ({ d with hierarchy := (d.hierarchy.removeNode a now).1 } : Discoverer).broadcastHierarchy a else []) := by
  split
  · exact quiet_broadcastHierarchy _ a
  · exact quiet_nil

theorem Searching.isCandidate {actions : List Action} (h : Searching actions) {p : Probe}
    (hp : .send (.probe p) ∈ actions) : p.IsCandidate := by
  cases h with
  | probe d =>
    obtain rfl := Message.probe.inj (Action.send.inj (List.mem_singleton.1 hp))
    exact rfl
  | later => exact absurd (List.mem_singleton.1 hp) Action.noConfusion

/-- **A probe goes to a candidate, or to the old superior of a node that has a new one.** -/
theorem probe_of_handle {e : Event} (h : d.handle e now = some o) {p : Probe} (hp : .send (.probe p) ∈ o.2) :
    p.IsCandidate ∨ (p.destination = p.oldSuperior ∧ p.oldSuperior ≠ p.newSuperior) := by
  cases e with
  | start => exact Or.inl ((searching_discover h).isCandidate hp)
  | timer =>
    obtain ⟨-, rfl⟩ | ⟨-, d', -, -, hnext | rfl⟩ := onTimer_cases h
    · exact absurd hp List.not_mem_nil
    · exact Or.inl ((searching_discover hnext).isCandidate hp)
    · exact Or.inl (Searching.later.isCandidate hp)
  | probeReceived p' =>
    obtain rfl := Option.some.inj h
    exact absurd hp ((d.quiet_probeReceived p' now).2 p)
  | probeReturned m =>
    obtain ⟨-, hnext⟩ | ⟨-, -, rfl⟩ | ⟨-, hne, -, hactions⟩ := probeReturned_cases h
    · exact Or.inl ((searching_discover hnext).isCandidate hp)
    · exact Or.inl (Searching.later.isCandidate hp)
    · obtain ⟨quiet, hquiet, htake⟩ := d.takeSuperior_eq m now
      rw [hactions, htake] at hp
      rcases List.mem_append.1 hp with hp | hp
      · rcases List.mem_append.1 hp with hp | hp
        · exact absurd hp (hquiet.2 p)
        · rw [farewells] at hp
          split at hp
          · obtain rfl := Message.probe.inj (Action.send.inj (List.mem_singleton.1 hp))
            exact Or.inr ⟨rfl, hne⟩
          · exact absurd hp List.not_mem_nil
      · exact Or.inl (Searching.later.isCandidate hp)
  | hierarchy k =>
    obtain rfl := Option.some.inj h
    exact absurd hp ((d.quiet_updateWeights k now).2 p)
  | removeClient a =>
    obtain ⟨-, o', hnext, rfl⟩ | ⟨-, rfl⟩ := onClientRemove_cases h
    · rcases List.mem_append.1 hp with hp | hp
      · exact absurd hp ((d.quiet_clientRemoved a now).2 p)
      · exact Or.inl ((searching_discover hnext).isCandidate hp)
    · exact absurd hp ((d.quiet_clientRemoved a now).2 p)
  | otherPipelineEvent =>
    obtain rfl := Option.some.inj h
    exact absurd hp List.not_mem_nil
  | resources rhs =>
    obtain rfl := Option.some.inj h
    exact absurd hp ((d.quiet_setResources rhs now).2 p)

end Discoverer

end Subordination.Daemon
