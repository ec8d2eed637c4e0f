import Subordination.Daemon.Superiors

/-!
# Searches for a superior

A discoverer searches for a superior with a timer or with a probe to a candidate. The end of
one starts the next, so there should never be two of them.

## The model

A run of one discoverer: its timers go off in any order, its probes are answered in any
order, with any exit code and any nodes, and at most once each; clients are lost and kernels
of other daemons arrive at any time.

## What is proved

**`searches_eq`**: there is one search from the start on, and one more for every stray step:
an answer to the probe that goes to the old superior, and the removal of a client without an
address from a node without a superior. So **`searches_le_one`** holds of the runs without
stray steps, and of no other run once the discoverer has started.
-/

namespace Subordination.Daemon

open Subordination.Core Subordination.Library
open Subordination.Core.Resources (Bindings)

/-! ### Runs -/

/-- Whether an action starts a timer. -/
def Action.startsTimer : Action → Bool
  | .startTimer => true
  | _ => false

/-- The probe that an action sends. -/
def Action.toProbe : Action → Option Probe
  | .send (.probe p) => some p
  | _ => none

/-- A discoverer in the middle of a run. -/
structure Searches where
  /-- The discoverer. -/
  discoverer : Discoverer
  /-- The number of timers that have been started and have not gone off. -/
  timers : ℕ
  /-- The probes that have been sent and have not been answered. -/
  unanswered : List Probe
  /-- `on_start` has been called. -/
  started : Bool
  /-- The number of stray steps that have been taken. -/
  strays : ℕ

/-- What may happen next. -/
inductive Happening where
  /-- The discoverer starts. -/
  | start
  /-- A timer goes off. -/
  | timer
  /-- One of the probes is answered, or comes back undelivered. -/
  | answer (i : ℕ) (code : ExitCode) (nodes : List HierarchyNode)
  /-- A probe of another daemon arrives. -/
  | probe (p : Probe)
  /-- A hierarchy arrives or comes back. -/
  | hierarchy (k : HierarchyKernel)
  /-- A client is lost. -/
  | removeClient (a : SocketAddress)
  /-- Something else happens to the clients. -/
  | otherPipelineEvent
  /-- The resources are set. -/
  | resources (rhs : Bindings)

namespace Searches

/-- The searches that are under way: the timers and the unanswered probes to candidates. -/
def searches (s : Searches) : ℕ := s.timers + s.unanswered.countP (·.IsCandidate)

/-- The discoverer handles an event. -/
def act (s : Searches) (e : Discoverer.Event) (now : TimePoint) : Option Searches :=
  (s.discoverer.handle e now).map fun o =>
    { s with
      discoverer := o.1
      timers := s.timers + o.2.countP Action.startsTimer
      unanswered := s.unanswered ++ o.2.filterMap Action.toProbe }

/-- The step is stray: an answer comes to a probe that has not gone to a candidate, or a node
without a superior loses a client without an address. -/
def isStray (s : Searches) : Happening → Bool
  | .answer i _ _ => s.unanswered[i]?.any (¬ ·.IsCandidate)
  | .removeClient a => a = .unset ∧ s.discoverer.hierarchy.superiorSocketAddress = .unset
  | _ => false

/-- What happens next. -/
def next (s : Searches) (now : TimePoint) : Happening → Option Searches
  | .start => if s.started then none else { s with started := true }.act .start now
  | .timer => if s.timers = 0 then none else { s with timers := s.timers - 1 }.act .timer now
  | .answer i code nodes =>
    s.unanswered[i]?.bind fun p =>
      { s with unanswered := s.unanswered.eraseIdx i }.act
        (.probeReturned { p.returnToParent code with nodes }) now
  | .probe p => s.act (.probeReceived p) now
  | .hierarchy k => s.act (.hierarchy k) now
  | .removeClient a => s.act (.removeClient a) now
  | .otherPipelineEvent => s.act .otherPipelineEvent now
  | .resources rhs => s.act (.resources rhs) now

/-- One step, which may be a stray one. -/
def step (s : Searches) (now : TimePoint) (e : Happening) : Option Searches :=
  (s.next now e).map fun s' => { s' with strays := s.strays + if s.isStray e then 1 else 0 }

/-- A discoverer that has been constructed. -/
def initial (d : Discoverer) : Searches := ⟨d, 0, [], false, 0⟩

/-- The runs of one discoverer. -/
def system : System Searches where
  Initial s := ∃ a netmask port fanout maxAttempts maxRadius,
    (Discoverer.construct a netmask port fanout maxAttempts maxRadius).map initial = some s
  Step s s' := ∃ now e, s.step now e = some s'

end Searches

/-! ### What a handler adds -/

namespace Discoverer

variable {d : Discoverer} {o : Outcome} {now : TimePoint}

/-- The searches that some actions start. -/
def starting (actions : List Action) : ℕ :=
  actions.countP Action.startsTimer + (actions.filterMap Action.toProbe).countP (·.IsCandidate)

theorem starting_append (xs ys : List Action) : starting (xs ++ ys) = starting xs + starting ys := by
  rw [starting, starting, starting, List.countP_append, List.filterMap_append, List.countP_append]
  omega

/-- Actions that start no timer. -/
theorem countP_startsTimer {actions : List Action} (htimer : .startTimer ∉ actions) :
    actions.countP Action.startsTimer = 0 := by
  rw [List.countP_eq_zero]
  intro a ha hstarts
  cases a with
  | startTimer => exact htimer ha
  | _ => exact Bool.false_ne_true hstarts

theorem starting_eq_zero {actions : List Action} (htimer : .startTimer ∉ actions)
    (hprobe : ∀ p : Probe, .send (.probe p) ∈ actions → ¬ p.IsCandidate) : starting actions = 0 := by
  have hprobes : (actions.filterMap Action.toProbe).countP (·.IsCandidate) = 0 := by
    rw [List.countP_eq_zero]
    intro p hp hcandidate
    obtain ⟨a, ha, hap⟩ := List.mem_filterMap.1 hp
    cases a with
    | send m =>
      cases m with
      | probe p' =>
        obtain rfl : p' = p := Option.some.inj hap
        exact hprobe p' ha (of_decide_eq_true hcandidate)
      | _ => cases hap
    | _ => cases hap
  rw [starting, countP_startsTimer htimer, hprobes]

theorem Quiet.starting_eq {actions : List Action} (h : Quiet actions) : starting actions = 0 :=
  starting_eq_zero h.1 fun p hp => absurd hp (h.2 p)

theorem Searching.starting_eq {actions : List Action} (h : Searching actions) : starting actions = 1 := by
  cases h with
  | probe d =>
    have hcandidate : d.newProbe.IsCandidate := rfl
    show 0 + [d.newProbe].countP _ = 1
    rw [List.countP_singleton, if_pos (decide_eq_true hcandidate)]
  | later => rfl

/-- A node that takes a new superior starts no search by that. -/
theorem starting_takeSuperior {p : Probe} (hne : p.oldSuperior ≠ p.newSuperior) :
    starting (d.takeSuperior p now) = 0 := by
  obtain ⟨quiet, hquiet, heq⟩ := d.takeSuperior_eq p now
  rw [heq, starting_append, hquiet.starting_eq, Nat.zero_add, farewells]
  split
  · refine starting_eq_zero (fun h => absurd (List.mem_singleton.1 h) Action.noConfusion) fun f hf => ?_
    obtain rfl := Message.probe.inj (Action.send.inj (List.mem_singleton.1 hf))
    exact hne
  · rfl

/-- **An answer starts a search**, whichever probe it answers and whatever its exit code. -/
theorem starting_probeReturned {p : Probe} (h : d.probeReturned p now = some o) : starting o.2 = 1 := by
  obtain ⟨-, hnext⟩ | ⟨-, -, rfl⟩ | ⟨-, hne, -, hactions⟩ := probeReturned_cases h
  · exact (searching_discover hnext).starting_eq
  · exact Searching.later.starting_eq
  · rw [hactions, starting_append, starting_takeSuperior hne, Nat.zero_add]
    exact Searching.later.starting_eq

theorem starting_onTimer (h : d.onTimer = some o) : starting o.2 = if d.state = .waiting then 1 else 0 := by
  obtain ⟨hstate, rfl⟩ | ⟨hstate, d', -, -, hnext | rfl⟩ := onTimer_cases h
  · rw [if_neg hstate]
    rfl
  · rw [if_pos hstate]
    exact (searching_discover hnext).starting_eq
  · rw [if_pos hstate]
    exact Searching.later.starting_eq

/-- The loss of a client starts a search only if the client has no address and the node has no
superior. -/
theorem starting_onClientRemove {a : SocketAddress} (h : d.onClientRemove a now = some o) :
    starting o.2 = if a = .unset ∧ d.hierarchy.superiorSocketAddress = .unset then 1 else 0 := by
  obtain ⟨hthis, -⟩ := d.hierarchy.removeNode_spec a now
  obtain ⟨-, -, -, -, hsuperior, -⟩ := d.hierarchy.unsetSuperior_spec a now
  have hafter : (d.hierarchy.removeNode a now).1.superiorSocketAddress =
      if d.hierarchy.superiorSocketAddress = a then .unset else d.hierarchy.superiorSocketAddress := by
    rw [← hsuperior, Hierarchy.superiorSocketAddress, hthis, Hierarchy.superiorSocketAddress]
  have hcondition : a = (d.hierarchy.removeNode a now).1.superiorSocketAddress ↔
      a = .unset ∧ d.hierarchy.superiorSocketAddress = .unset := by
    rw [hafter]
    by_cases hsame : d.hierarchy.superiorSocketAddress = a
    · rw [if_pos hsame, hsame, and_self]
    · rw [if_neg hsame]
      exact iff_of_false (fun ha => hsame ha.symm) fun ha => hsame (ha.2.trans ha.1.symm)
  have hquiet := (d.quiet_clientRemoved a now).starting_eq
  obtain ⟨ha, o', hnext, rfl⟩ | ⟨ha, rfl⟩ := onClientRemove_cases h
  · rw [if_pos (hcondition.1 ha), starting_append, hquiet, (searching_discover hnext).starting_eq]
  · rw [if_neg fun hboth => ha (hcondition.2 hboth)]
    exact hquiet

/-! ### The state -/

/-- A search leaves the state as it is, or starts a timer and waits. -/
theorem state_discover (h : d.discover = some o) :
    o.1.state = .waiting ∨ (o.1.state = d.state ∧ .startTimer ∉ o.2) := by
  obtain ⟨-, d', -, rfl⟩ | ⟨-, -, hstate, hactions⟩ := d.discover_cases h
  · exact Or.inl rfl
  · rw [hactions]
    exact Or.inr ⟨hstate, fun htimer => absurd (List.mem_singleton.1 htimer) Action.noConfusion⟩

/-- **A discoverer that has started a timer waits for it.** -/
theorem state_handle {e : Event} (h : d.handle e now = some o) :
    o.1.state = .waiting ∨ (o.1.state = d.state ∧ .startTimer ∉ o.2) := by
  cases e with
  | start => exact state_discover h
  | timer =>
    obtain ⟨-, rfl⟩ | ⟨hwaiting, d', -, hstate, hnext | rfl⟩ := onTimer_cases h
    · exact Or.inr ⟨rfl, List.not_mem_nil⟩
    · rcases state_discover hnext with hnext | hnext
      · exact Or.inl hnext
      · exact Or.inl (hnext.1.trans (hstate.trans hwaiting))
    · exact Or.inl rfl
  | probeReceived p =>
    obtain rfl := Option.some.inj h
    exact Or.inr ⟨rfl, (d.quiet_probeReceived p now).1⟩
  | probeReturned m =>
    obtain ⟨-, hnext⟩ | ⟨-, -, rfl⟩ | ⟨-, -, ho, -⟩ := probeReturned_cases h
    · exact state_discover hnext
    · exact Or.inl rfl
    · rw [ho]
      exact Or.inl rfl
  | hierarchy k =>
    obtain rfl := Option.some.inj h
    refine Or.inr ⟨?_, (d.quiet_updateWeights k now).1⟩
    show (d.updateWeights k now).1.state = d.state
    rw [updateWeights]
    split
    · rfl
    · rfl
  | removeClient a =>
    have hquiet := (d.quiet_clientRemoved a now).1
    obtain ⟨-, o', hnext, rfl⟩ | ⟨-, rfl⟩ := onClientRemove_cases h
    · rcases state_discover hnext with hnext | ⟨hstate, htimer⟩
      · exact Or.inl hnext
      · refine Or.inr ⟨hstate, ?_⟩
        rw [List.mem_append, not_or]
        exact ⟨hquiet, htimer⟩
    · exact Or.inr ⟨rfl, hquiet⟩
  | otherPipelineEvent =>
    obtain rfl := Option.some.inj h
    exact Or.inr ⟨rfl, List.not_mem_nil⟩
  | resources rhs =>
    obtain rfl := Option.some.inj h
    exact Or.inr ⟨rfl, (d.quiet_setResources rhs now).1⟩

end Discoverer

/-! ### Counting -/

namespace Searches

variable {s s' : Searches} {now : TimePoint}

/-- What holds at any time: the searches are counted, and a discoverer with a timer waits. -/
structure Counted (s : Searches) : Prop where
  /-- The searches. -/
  searches_eq : s.searches = (if s.started then 1 else 0) + s.strays
  /-- A timer is waited for. -/
  waiting : 0 < s.timers → s.discoverer.state = .waiting

/-- The searches after an event are those before it and those that it starts. -/
theorem searches_act {e : Discoverer.Event} {o : Discoverer.Outcome} (h : s.act e now = some s')
    (ho : s.discoverer.handle e now = some o) :
    s'.searches = s.searches + Discoverer.starting o.2 ∧ s'.started = s.started := by
  rw [act, ho] at h
  obtain rfl := Option.some.inj h
  refine ⟨?_, rfl⟩
  show s.timers + o.2.countP Action.startsTimer + (s.unanswered ++ o.2.filterMap Action.toProbe).countP _ = _
  rw [searches, Discoverer.starting, List.countP_append]
  omega

theorem waiting_act {e : Discoverer.Event} (h : s.act e now = some s')
    (hs : 0 < s.timers → s.discoverer.state = .waiting) : 0 < s'.timers → s'.discoverer.state = .waiting := by
  obtain ⟨o, ho, rfl⟩ := Option.map_eq_some_iff.1 h
  intro htimers
  rcases Discoverer.state_handle ho with hwaiting | ⟨hstate, htimer⟩
  · exact hwaiting
  · have hbefore : 0 < s.timers := by
      change 0 < s.timers + o.2.countP Action.startsTimer at htimers
      rwa [Discoverer.countP_startsTimer htimer, Nat.add_zero] at htimers
    exact hstate.trans (hs hbefore)

/-- The answer to a probe takes the probe away. -/
theorem searches_eraseIdx {i : ℕ} {p : Probe} (hp : s.unanswered[i]? = some p) :
    s.searches = { s with unanswered := s.unanswered.eraseIdx i }.searches + if p.IsCandidate then 1 else 0 := by
  obtain ⟨hi, hget⟩ := List.getElem?_eq_some_iff.1 hp
  have hperm := (List.getElem_cons_eraseIdx_perm hi).countP_eq (fun p : Probe => decide p.IsCandidate)
  rw [hget, List.countP_cons] at hperm
  show s.timers + _ = s.timers + _ + _
  rw [← hperm]
  simp only [decide_eq_true_eq]
  omega

/-- A step whose handler starts no search and that is not stray. -/
theorem searches_act_of_starting {t : Searches} {e : Discoverer.Event} (h : t.act e now = some s') {n : ℕ}
    (hstarting : ∀ o, t.discoverer.handle e now = some o → Discoverer.starting o.2 = n) :
    s'.searches = t.searches + n ∧ s'.started = t.started := by
  obtain ⟨o, ho, -⟩ := Option.map_eq_some_iff.1 h
  rw [← hstarting o ho]
  exact searches_act h ho

/-- A kernel that starts no search leaves their number as it is. -/
theorem searches_quiet (hs : s.Counted) {e : Discoverer.Event} (h : s.act e now = some s')
    (hquiet : ∀ o, s.discoverer.handle e now = some o → Discoverer.Quiet o.2) :
    s'.searches = (if s'.started then 1 else 0) + s.strays + 0 := by
  obtain ⟨hsearches, hstart⟩ := searches_act_of_starting h fun o ho => (hquiet o ho).starting_eq
  rw [hsearches, hstart, hs.searches_eq]

/-- The start is the first search. -/
theorem searches_next_start (hs : s.Counted) (h : s.next now .start = some s') :
    s'.searches = (if s'.started then 1 else 0) + s.strays + 0 := by
  have hcount := hs.searches_eq
  rw [next] at h
  split at h
  · cases h
  · next hstarted =>
    obtain ⟨hsearches, hstart⟩ := searches_act_of_starting h fun o ho =>
      (Discoverer.searching_discover ho).starting_eq
    rw [if_neg hstarted] at hcount
    have hbefore : { s with started := true }.searches = s.searches := rfl
    rw [hsearches, hstart, hbefore, hcount]
    show 0 + s.strays + 1 = 1 + s.strays + 0
    omega

/-- A timer goes off, and the search that it stands for goes on. -/
theorem searches_next_timer (hs : s.Counted) (h : s.next now .timer = some s') :
    s'.searches = (if s'.started then 1 else 0) + s.strays + 0 := by
  rw [next] at h
  split at h
  · cases h
  · next htimers =>
    have hwaiting := hs.waiting (Nat.pos_of_ne_zero htimers)
    obtain ⟨hsearches, hstart⟩ := searches_act_of_starting h fun o ho =>
      (Discoverer.starting_onTimer ho).trans (if_pos hwaiting)
    have hbefore : { s with timers := s.timers - 1 }.searches + 1 = s.searches := by
      show s.timers - 1 + s.unanswered.countP _ + 1 = s.timers + s.unanswered.countP _
      omega
    rw [hsearches, hstart, hbefore, hs.searches_eq]
    rfl

/-- An answer comes, and the search goes on: it is another one if the probe has not gone to a candidate. -/
theorem searches_next_answer (hs : s.Counted) {i : ℕ} {code : ExitCode} {nodes : List HierarchyNode}
    (h : s.next now (.answer i code nodes) = some s') :
    s'.searches = (if s'.started then 1 else 0) + s.strays + (if s.isStray (.answer i code nodes) then 1 else 0) := by
  have hcount := hs.searches_eq
  obtain ⟨p, hp, hact⟩ := Option.bind_eq_some_iff.1 h
  obtain ⟨hsearches, hstart⟩ := searches_act_of_starting hact fun o ho => Discoverer.starting_probeReturned ho
  have hbefore := s.searches_eraseIdx hp
  have hstray : s.isStray (.answer i code nodes) = decide ¬ p.IsCandidate := by
    rw [isStray, hp]
    rfl
  rw [hsearches, hstart, hstray]
  by_cases hcandidate : p.IsCandidate
  · rw [if_pos hcandidate] at hbefore
    rw [decide_eq_false (not_not_intro hcandidate), ← hbefore, hcount]
    rfl
  · rw [if_neg hcandidate, Nat.add_zero] at hbefore
    rw [decide_eq_true hcandidate, ← hbefore, hcount]
    rfl

/-- **What a step does to the searches**: a stray step starts one more, as does the start. -/
theorem searches_next (hs : s.Counted) {e : Happening} (h : s.next now e = some s') :
    s'.searches = (if s'.started then 1 else 0) + s.strays + (if s.isStray e then 1 else 0) := by
  cases e with
  | start => exact searches_next_start hs h
  | timer => exact searches_next_timer hs h
  | answer i code nodes => exact searches_next_answer hs h
  | probe p =>
    exact searches_quiet hs h fun o ho => Option.some.inj ho ▸ s.discoverer.quiet_probeReceived p now
  | hierarchy k =>
    exact searches_quiet hs h fun o ho => Option.some.inj ho ▸ s.discoverer.quiet_updateWeights k now
  | removeClient a =>
    obtain ⟨hsearches, hstart⟩ := searches_act_of_starting h fun o ho => Discoverer.starting_onClientRemove ho
    rw [hsearches, hstart, hs.searches_eq, isStray]
    simp only [decide_eq_true_eq]
  | otherPipelineEvent =>
    exact searches_quiet hs h fun o ho => Option.some.inj ho ▸ Discoverer.quiet_nil
  | resources rhs =>
    exact searches_quiet hs h fun o ho => Option.some.inj ho ▸ s.discoverer.quiet_setResources rhs now

theorem waiting_next (hs : s.Counted) {e : Happening} (h : s.next now e = some s') :
    0 < s'.timers → s'.discoverer.state = .waiting := by
  cases e with
  | start =>
    rw [next] at h
    split at h
    · cases h
    · exact waiting_act h hs.waiting
  | timer =>
    rw [next] at h
    split at h
    · cases h
    · next htimers => exact waiting_act h fun _ => hs.waiting (Nat.pos_of_ne_zero htimers)
  | answer i code nodes =>
    obtain ⟨p, -, hact⟩ := Option.bind_eq_some_iff.1 h
    exact waiting_act hact hs.waiting
  | probe p => exact waiting_act h hs.waiting
  | hierarchy k => exact waiting_act h hs.waiting
  | removeClient a => exact waiting_act h hs.waiting
  | otherPipelineEvent => exact waiting_act h hs.waiting
  | resources rhs => exact waiting_act h hs.waiting

theorem Counted.step (hs : s.Counted) {e : Happening} (h : s.step now e = some s') : s'.Counted := by
  obtain ⟨t, ht, rfl⟩ := Option.map_eq_some_iff.1 h
  have hsearches := searches_next hs ht
  constructor
  · show t.searches = _ + (s.strays + _)
    rw [hsearches, Nat.add_assoc]
  · have hwaiting : 0 < t.timers → t.discoverer.state = .waiting := waiting_next hs ht
    exact hwaiting

/-- **The searches of a run**: one from the start on, and one for every stray step. -/
theorem searches_eq (h : system.Reachable s) : s.searches = (if s.started then 1 else 0) + s.strays := by
  have hcounted : s.Counted := by
    refine h.invariant (fun s hs => ?_) fun s s' hs hstep => ?_
    · obtain ⟨a, netmask, port, fanout, maxAttempts, maxRadius, hd⟩ := hs
      obtain ⟨d, -, rfl⟩ := Option.map_eq_some_iff.1 hd
      exact ⟨rfl, fun htimers => absurd htimers (lt_irrefl 0)⟩
    · obtain ⟨now, e, hstep⟩ := hstep
      exact hs.step hstep
  exact hcounted.searches_eq

/-- **There is at most one search at a time in the runs without stray steps**, and there is more
than one in all others once the discoverer has started. -/
theorem searches_le_one (h : system.Reachable s) :
    (s.strays = 0 → s.searches ≤ 1) ∧ (s.started = true → s.strays ≠ 0 → 1 < s.searches) := by
  have hcount := searches_eq h
  constructor
  · intro hstrays
    rw [hcount, hstrays]
    split
    · exact le_rfl
    · exact Nat.zero_le 1
  · intro hstarted hstrays
    rw [if_pos hstarted] at hcount
    omega

/-! ### A run -/

/-- Steps one after another. -/
def run (s : Searches) (es : List Happening) : Option Searches := es.foldlM (fun s e => s.step 1 e) s

theorem reachable_run {es : List Happening} (h : system.Reachable s) (hrun : s.run es = some s') :
    system.Reachable s' := by
  induction es generalizing s with
  | nil =>
    obtain rfl := Option.some.inj hrun
    exact h
  | cons e es ih =>
    obtain ⟨t, ht, hrest⟩ := Option.bind_eq_some_iff.1 hrun
    exact ih (h.step ⟨1, e, ht⟩) hrest

/-- The node at 10.0.0.3, whose candidates are 10.0.0.1 and 10.0.0.2. -/
def third : Option Searches := (Discoverer.construct (.ofAddress 0x0a000003 8) 8 33333 2 1 100).map initial

theorem reachable_third {es : List Happening} (h : third.bind (·.run es) = some s) : system.Reachable s := by
  obtain ⟨s₀, hs₀, hrun⟩ := Option.bind_eq_some_iff.1 h
  exact reachable_run (.initial ⟨_, _, _, _, _, _, hs₀⟩) hrun

/-- The third node finds the first one down and takes the second one for its superior. When the
timer goes off it finds the first one up. -/
def firstAnswers : List Happening :=
  [.start, .answer 0 .error [], .answer 0 .success [nodeRecord 2], .timer, .answer 0 .success [nodeRecord 1]]

/-- The second node answers the probe that tells it so, and this is the first stray step. -/
def secondAnswers : List Happening :=
  [.start, .answer 0 .error [], .answer 0 .success [nodeRecord 2], .timer,
    .answer 0 .success [nodeRecord 1], .answer 0 .success [nodeRecord 2]]

theorem searches_le_one_third :
    ∃ s s' : Searches, third.bind (·.run firstAnswers) = some s ∧ third.bind (·.run secondAnswers) = some s' ∧
      s.unanswered.length = 1 ∧ s.searches ≤ 1 ∧ 1 < s'.searches := by
  have hfirst : (third.bind (·.run firstAnswers)).map (fun s => (s.strays, s.unanswered.length)) = some (0, 1) := by
    decide +kernel
  have hsecond : (third.bind (·.run secondAnswers)).map (fun s => (s.started, s.strays)) = some (true, 1) := by
    decide +kernel
  obtain ⟨s, hs, heq⟩ := Option.map_eq_some_iff.1 hfirst
  obtain ⟨s', hs', heq'⟩ := Option.map_eq_some_iff.1 hsecond
  obtain ⟨hstrays, hlength⟩ := Prod.mk.inj heq
  obtain ⟨hstarted, hstray⟩ := Prod.mk.inj heq'
  have hmany := (searches_le_one (reachable_third hs')).2 hstarted (by rw [hstray]; exact Nat.one_ne_zero)
  exact ⟨s, s', hs, hs', hlength, (searches_le_one (reachable_third hs)).1 hstrays, hmany⟩

/-- It has two timers then. -/
theorem searches_multiply : ¬ ∀ s : Searches, system.Reachable s → s.searches ≤ 1 := by
  intro hall
  have htwo : (third.bind (·.run secondAnswers)).map searches = some 2 := by decide +kernel
  obtain ⟨s, hs, hsearches⟩ := Option.map_eq_some_iff.1 htwo
  have hle := hall s (reachable_third hs)
  rw [hsearches] at hle
  exact absurd hle (by decide)

end Searches

end Subordination.Daemon
