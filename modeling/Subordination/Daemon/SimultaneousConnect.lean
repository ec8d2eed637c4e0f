import Mathlib.Data.Nat.Notation
import Mathlib.Logic.Function.Basic
import Mathlib.Tactic.Tauto

/-!
# Two daemons connect to each other

A daemon connects to another one when it has a kernel for it, and the other one may do so at the same
time. A client table has one client for each address: on the side that accepts, a socket for whose
address there is a client is dropped.

## The model

A connection is known by the daemon that opened it, so there are at most two, and each has two ends. In
the client table of a daemon only the entry for the other one matters. The servers of both are listening;
nobody else closes a socket.

`remove_client` is given an address, and stops the client that it finds there, whichever that is.

## What is proved

* `Pair.joined_iff` — when the daemons are left with a connection, whatever the order of the events.
* `Pair.nothing_left` — they are left with none of them otherwise.
* `Pair.both_drop` — each of them can drop the connection of the other one.
-/

namespace Subordination.Daemon

/-! ### The daemons -/

/-- One of the two daemons. -/
inductive Party where
  /-- The daemon `A`. -/
  | a
  /-- The daemon `B`. -/
  | b
  deriving DecidableEq, Repr

namespace Party

/-- The other daemon. -/
def other : Party → Party
  | a => b
  | b => a

@[simp]
theorem other_other (p : Party) : p.other.other = p := by
  cases p <;> rfl

@[simp]
theorem other_ne (p : Party) : p.other ≠ p := by
  cases p <;> decide

@[simp]
theorem ne_other (p : Party) : p ≠ p.other := p.other_ne.symm

theorem eq_or_eq_other (p q : Party) : q = p ∨ q = p.other := by
  cases p <;> cases q <;> decide

theorem forall_iff {P : Party → Prop} (p : Party) : (∀ q, P q) ↔ P p ∧ P p.other := by
  constructor
  · exact fun h => ⟨h p, h p.other⟩
  · rintro ⟨hp, ho⟩ q
    rcases eq_or_eq_other p q with rfl | rfl
    · exact hp
    · exact ho

instance {P : Party → Prop} [DecidablePred P] : Decidable (∀ p, P p) :=
  decidable_of_iff _ (forall_iff .a).symm

instance {P : Party → Prop} [DecidablePred P] : Decidable (∃ p, P p) :=
  decidable_of_iff (¬ ∀ p, ¬ P p) not_forall_not

end Party

/-- An end of a connection. -/
inductive End where
  /-- There is no such connection. -/
  | absent
  /-- The connection has not been accepted yet. -/
  | waiting
  /-- A client has the socket, which is open. -/
  | opened
  /-- The client that has the socket is `stopped`. -/
  | stopped
  /-- The socket is closed. -/
  | closed
  deriving DecidableEq, Repr

/-- Two daemons. -/
structure Pair where
  /-- The daemons that have called `find_or_create_client`. -/
  called : Party → Bool
  /-- The client that a daemon has for the address of the other one, by its connection. -/
  clients : Party → Option Party
  /-- The ends of a connection. -/
  ends : Party → Party → End

namespace Pair

/-- Neither daemon is in the client table of the other one. -/
def start : Pair where
  called := fun _ => false
  clients := fun _ => none
  ends := fun _ _ => .absent

/-- The end of the connection `c` at `p` becomes `x`. -/
def setEnd (s : Pair) (c p : Party) (x : End) : Pair :=
  { s with ends := Function.update s.ends c (Function.update (s.ends c) p x) }

/-- The client for the address of the other daemon becomes `c`. -/
def setClient (s : Pair) (p : Party) (c : Option Party) : Pair :=
  { s with clients := Function.update s.clients p c }

/-- `do_add_client`, given a socket; `emplace` keeps the client that is there. -/
def doAddClient (s : Pair) (p c : Party) : Pair :=
  (s.setEnd c p .opened).setClient p (s.clients p <|> some c)

/-- `find_or_create_client`. -/
def findOrCreateClient (s : Pair) (p : Party) : Pair :=
  match s.clients p with
  | none => (s.setEnd p p.other .waiting).doAddClient p p
  | some _ => s

/-- `socket_pipeline_server::handle`. -/
def accept (s : Pair) (p : Party) : Pair :=
  match s.clients p with
  | none => s.doAddClient p p.other
  -- the socket goes out of scope
  | some _ => s.setEnd p.other p .closed

/-- `socket_pipeline::remove_client`. -/
def removeClient (s : Pair) (p : Party) : Pair :=
  match s.clients p with
  | none => s
  | some c => (s.setEnd c p .stopped).setClient p none

/-- `basic_socket_pipeline::remove`, of the client of the connection `c`. -/
def remove (s : Pair) (p c : Party) : Pair :=
  (s.removeClient p).setEnd c p .closed

end Pair

/-! ### The events -/

/-- What happens at a daemon. -/
inductive ConnectEvent where
  /-- It calls `find_or_create_client`. -/
  | call (p : Party)
  /-- It accepts the connection of the other one. -/
  | accept (p : Party)
  /-- It reads the end of file from the connection `c`. -/
  | endOfFile (p c : Party)
  /-- `flush_buffers` comes to a stopped client. -/
  | flush (p c : Party)

namespace Pair

/-- The next state, if the event can happen. -/
def step (s : Pair) : ConnectEvent → Option Pair
  | .call p =>
    if s.called p then none
    else some { s.findOrCreateClient p with called := Function.update s.called p true }
  | .accept p => if s.ends p.other p = .waiting then some (s.accept p) else none
  | .endOfFile p c =>
    if s.ends c p = .opened ∧ s.ends c p.other = .closed then some (s.remove p c) else none
  | .flush p c => if s.ends c p = .stopped then some (s.remove p c) else none

/-- What a sequence of events leads to. -/
def run (s : Pair) (es : List ConnectEvent) : Option Pair :=
  es.foldlM step s

/-- No event is left. -/
def Done (s : Pair) : Prop :=
  ∀ e, s.step e = none

/-- Both ends of a connection are open. -/
def Open (s : Pair) (c : Party) : Prop :=
  ∀ p, s.ends c p = .opened

/-- The daemons share an open connection, and each has its end of one in the client table. -/
def Joined (s : Pair) : Prop :=
  (∃ c, s.Open c) ∧ ∀ p, ∃ c, s.clients p = some c ∧ s.Open c

/-- A daemon that has a client drops the connection of the other one, which has dropped its own. -/
def Crosses (s : Pair) : ConnectEvent → Prop
  | .accept p => s.clients p ≠ none ∧ s.ends p p.other = .closed
  | _ => False

/-- No event of the sequence crosses another one. -/
def Uncrossed : Pair → List ConnectEvent → Prop
  | _, [] => True
  | s, e :: es => ¬ s.Crosses e ∧ ∀ s' ∈ s.step e, Uncrossed s' es

instance (s : Pair) : DecidablePred s.Open :=
  fun c => inferInstanceAs (Decidable (∀ p, s.ends c p = .opened))

instance (s : Pair) : Decidable s.Joined :=
  inferInstanceAs (Decidable ((∃ c, s.Open c) ∧ ∀ p, ∃ c, s.clients p = some c ∧ s.Open c))

instance (s : Pair) : DecidablePred s.Crosses
  | .call _ => instDecidableFalse
  | .accept p => inferInstanceAs (Decidable (s.clients p ≠ none ∧ s.ends p p.other = .closed))
  | .endOfFile _ _ => instDecidableFalse
  | .flush _ _ => instDecidableFalse

instance decidableUncrossed : (s : Pair) → (es : List ConnectEvent) → Decidable (s.Uncrossed es)
  | _, [] => instDecidableTrue
  | s, e :: es =>
    have := fun s' => decidableUncrossed s' es
    inferInstanceAs (Decidable (¬ s.Crosses e ∧ ∀ s' ∈ s.step e, Uncrossed s' es))

end Pair

/-! ### The stages of a connection -/

/-- How far a connection is. -/
inductive Stage where
  /-- It has not been opened. -/
  | absent
  /-- The other daemon has not accepted it. -/
  | pending
  /-- Both daemons have a client for it. -/
  | shared
  /-- The other daemon has dropped it. -/
  | dropped
  /-- The daemon that opened it has read the end of file. -/
  | gone

namespace Stage

/-- The end at the daemon that opened the connection. -/
def near : Stage → End
  | absent => .absent
  | pending => .opened
  | shared => .opened
  | dropped => .opened
  | gone => .closed

/-- The end at the other daemon. -/
def far : Stage → End
  | absent => .absent
  | pending => .waiting
  | shared => .opened
  | dropped => .closed
  | gone => .closed

/-- The events that the connection has gone through since it was opened. -/
def rank : Stage → ℕ
  | absent => 0
  | pending => 0
  | shared => 1
  | dropped => 1
  | gone => 2

theorem rank_le (x : Stage) : x.rank ≤ 2 := by
  cases x <;> decide

@[simp]
theorem near_eq : near absent = .absent ∧ near pending = .opened ∧ near shared = .opened ∧
    near dropped = .opened ∧ near gone = .closed := by
  decide

@[simp]
theorem far_eq : far absent = .absent ∧ far pending = .waiting ∧ far shared = .opened ∧
    far dropped = .closed ∧ far gone = .closed := by
  decide

end Stage

namespace Pair

variable {s s' : Pair} {g : Party → Stage} {x : Stage} {p c : Party} {e : ConnectEvent}
  {es : List ConnectEvent}

/-- The client of a daemon, by the stages of the connections. -/
def holder (g : Party → Stage) (p : Party) : Option Party :=
  if (g p).near = .opened then some p else if (g p.other).far = .opened then some p.other else none

/-- The state of the daemons, by the stages of the connections. -/
structure Staged (s : Pair) (g : Party → Stage) : Prop where
  /-- The ends at the daemons that opened the connections. -/
  near : ∀ p, s.ends p p = (g p).near
  /-- The other ends. -/
  far : ∀ p, s.ends p p.other = (g p).far
  /-- The client tables. -/
  clients : ∀ p, s.clients p = holder g p
  /-- A daemon that has not called has not opened a connection. -/
  uncalled : ∀ p, s.called p = false → g p = .absent
  /-- One that has called, but has not opened a connection, has found one. -/
  found : ∀ p, s.called p = true → g p = .absent → g p.other = .shared
  /-- At most one of the connections is shared. -/
  single : ∀ p, g p = .shared → g p.other = .absent ∨ g p.other = .gone
  /-- A daemon drops a connection only if it has opened one. -/
  opened : ∀ p, g p = .dropped ∨ g p = .gone → g p.other ≠ .absent

/-- Both connections have been dropped. -/
def Lost (g : Party → Stage) : Prop :=
  ∀ p, g p = .dropped ∨ g p = .gone

/-- The number of events, by the stages of the connections. -/
def progress (s : Pair) (g : Party → Stage) : ℕ :=
  (s.called .a).toNat + (g .a).rank + ((s.called .b).toNat + (g .b).rank)

theorem progress_eq (s : Pair) (g : Party → Stage) (p : Party) :
    s.progress g = (s.called p).toNat + (g p).rank + ((s.called p.other).toNat + (g p.other).rank) := by
  cases p
  · rfl
  · exact Nat.add_comm _ _

theorem progress_le (s : Pair) (g : Party → Stage) : s.progress g ≤ 6 := by
  have := Bool.toNat_le (s.called .a)
  have := Bool.toNat_le (s.called .b)
  have := (g .a).rank_le
  have := (g .b).rank_le
  unfold progress
  omega

theorem staged_start : start.Staged fun _ => .absent := by
  constructor <;> simp [start, holder]

theorem not_lost_absent : ¬ Lost fun _ => .absent := by
  simp [Lost, Party.forall_iff .a]

theorem lost_iff (g : Party → Stage) (p : Party) :
    Lost g ↔ (g p = .dropped ∨ g p = .gone) ∧ (g p.other = .dropped ∨ g p.other = .gone) :=
  Party.forall_iff p

theorem holder_eq_none_iff : holder g p = none ↔ (g p).near ≠ .opened ∧ (g p.other).far ≠ .opened := by
  unfold holder
  split <;> simp_all

theorem Staged.called_of_ne (hs : s.Staged g) (h : g p ≠ .absent) : s.called p = true := by
  by_contra hn
  exact h (hs.uncalled p (by simpa using hn))

/-- The connection `c` comes to the stage `x`, and the other one stays where it is. -/
theorem Staged.next (hs : s.Staged g) (hx : x ≠ .absent) (hnear : s'.ends c c = x.near)
    (hfar : s'.ends c c.other = x.far) (hends : s'.ends c.other = s.ends c.other)
    (hclients : ∀ p, s'.clients p = holder (Function.update g c x) p) (hcalled : s'.called c = true)
    (hother : s'.called c.other = s.called c.other)
    (hfound : g c.other = .absent → s.called c.other = true → x = .shared)
    (hsingle : x = .shared → g c.other = .absent ∨ g c.other = .gone)
    (hgone : g c.other = .shared → x = .gone)
    (hopened : x = .dropped ∨ x = .gone → g c.other ≠ .absent) : s'.Staged (Function.update g c x) := by
  refine ⟨?_, ?_, hclients, ?_, ?_, ?_, ?_⟩
  · simp [Party.forall_iff c, hnear, hends, hs.near]
  · have := hs.far c.other
    rw [Party.forall_iff c]
    simp_all
  · simpa [Party.forall_iff c, hcalled, hother] using hs.uncalled c.other
  · simp only [Party.forall_iff c, Party.other_other, hother]
    simp_all
  · simp_all [Party.forall_iff c]
  · simp_all [Party.forall_iff c]

/-- A daemon has a client as long as its end of a connection is open. -/
theorem Staged.clients_ne_none_iff (hs : s.Staged g) :
    s.clients p ≠ none ↔ (g p).near = .opened ∨ (g p.other).far = .opened := by
  rw [hs.clients, ne_eq, holder_eq_none_iff]
  tauto

/-- A connection that waits is pending. -/
theorem Staged.pending (hs : s.Staged g) (h : s.ends c c.other = .waiting) : g c = .pending := by
  have := hs.far c
  cases hc : g c <;> simp_all

/-- One more event, if a connection comes to the next stage. -/
theorem progress_update (h : s'.called = s.called) (hx : x.rank = (g c).rank + 1) :
    s'.progress (Function.update g c x) = s.progress g + 1 := by
  simp [progress_eq _ _ c, h, hx]
  omega

/-- A daemon that has no client opens a connection. -/
theorem Staged.opens (hs : s.Staged g) (hc : s.called p = false) (hp : s.clients p = none) :
    Staged { (s.setEnd p p.other .waiting).doAddClient p p with called := Function.update s.called p true }
      (Function.update g p .pending) := by
  have hg := hs.uncalled p hc
  have hn := holder_eq_none_iff.1 ((hs.clients p).symm.trans hp)
  refine hs.next (by simp) ?near ?far ?ends ?clients ?called ?other ?found ?single ?gone ?opened
  case near =>
    simp [setEnd, setClient, doAddClient]
  case far =>
    simp [setEnd, setClient, doAddClient]
  case ends =>
    simp [setEnd, setClient, doAddClient]
  case clients =>
    simp [Party.forall_iff p, setEnd, setClient, doAddClient, hp, holder, hs.clients, hg]
  case called =>
    simp
  case other =>
    simp
  case found =>
    intro ho hoc
    have := hs.found _ hoc ho
    simp [hg] at this
  case single =>
    simp
  case gone =>
    intro ho
    exact absurd (by simp [ho]) hn.2
  case opened =>
    simp

/-- A daemon that has a client calls, and finds it. -/
theorem Staged.finds (hs : s.Staged g) (hc : s.called p = false) (hp : s.clients p = some c) :
    Staged { s with called := Function.update s.called p true } g := by
  have hg := hs.uncalled p hc
  refine ⟨hs.near, hs.far, hs.clients, ?_, ?_, hs.single, hs.opened⟩
  · simpa [Party.forall_iff p] using hs.uncalled _
  · rw [Party.forall_iff p]
    refine ⟨fun _ _ => ?_, by simpa using hs.found p.other⟩
    -- the client is that of the connection of the other daemon
    have ho : (g p).near = .opened ∨ (g p.other).far = .opened := hs.clients_ne_none_iff.1 (by simp [hp])
    cases hx : g p.other <;> simp_all

theorem Staged.call (hs : s.Staged g) (hc : s.called p = false) :
    ∃ g', Staged { s.findOrCreateClient p with called := Function.update s.called p true } g' ∧
      (Lost g' ↔ Lost g) ∧
      progress { s.findOrCreateClient p with called := Function.update s.called p true } g' =
        s.progress g + 1 := by
  have hg := hs.uncalled p hc
  unfold findOrCreateClient
  cases hp : s.clients p with
  | none =>
    refine ⟨Function.update g p .pending, hs.opens hc hp, ?_, ?_⟩
    · simp [lost_iff _ p, hg]
    · simp [progress_eq _ _ p, hg, hc, Stage.rank]
      omega
  | some c =>
    refine ⟨g, hs.finds hc hp, Iff.rfl, ?_⟩
    simp [progress_eq _ _ p, hc]
    omega

/-- A daemon that has no client accepts the connection of the other one. -/
theorem Staged.shares (hs : s.Staged g) (hg : g p.other = .pending) (hp : s.clients p = none) :
    (s.doAddClient p p.other).Staged (Function.update g p.other .shared) := by
  have hfar := hs.far p
  have hn := holder_eq_none_iff.1 ((hs.clients p).symm.trans hp)
  refine hs.next (by simp) ?near ?far ?ends ?clients (hs.called_of_ne (by simp [hg])) rfl ?found ?single ?gone
    ?opened
  case near =>
    have := hs.near p.other
    simp_all [setEnd, setClient, doAddClient]
  case far =>
    simp [setEnd, setClient, doAddClient]
  case ends =>
    simp [setEnd, setClient, doAddClient]
  case clients =>
    have := hs.clients p.other
    rw [Party.forall_iff p]
    simp_all [setEnd, setClient, doAddClient, holder]
  case found =>
    simp
  case single =>
    intro _
    cases hx : g p <;> simp_all
  case gone =>
    intro h
    simp_all
  case opened =>
    simp

/-- A daemon that has a client drops the connection of the other one. -/
theorem Staged.drops (hs : s.Staged g) (hg : g p.other = .pending) (hp : s.clients p = some c) :
    (s.setEnd p.other p .closed).Staged (Function.update g p.other .dropped) := by
  have hcl := hs.clients_ne_none_iff (p := p)
  refine hs.next (by simp) ?near ?far ?ends ?clients (hs.called_of_ne (by simp [hg])) rfl ?found ?single ?gone
    ?opened
  case near =>
    have := hs.near p.other
    simp_all [setEnd]
  case far =>
    simp [setEnd]
  case ends =>
    simp [setEnd]
  case clients =>
    have := hs.clients p
    have := hs.clients p.other
    rw [Party.forall_iff p]
    simp_all [setEnd, holder]
  case found =>
    intro h
    simp_all
  case single =>
    simp
  case gone =>
    intro h
    have := hs.single p (by simpa using h)
    simp_all
  case opened =>
    intro _ h
    simp_all

theorem Staged.accept (hs : s.Staged g) (hw : s.ends p.other p = .waiting) :
    ∃ g', (s.accept p).Staged g' ∧ (Lost g' ↔ Lost g ∨ s.Crosses (.accept p)) ∧
      (s.accept p).progress g' = s.progress g + 1 := by
  have hg : g p.other = .pending := hs.pending (by simpa using hw)
  have hfar := hs.far p
  have hcl := hs.clients_ne_none_iff (p := p)
  unfold Pair.accept Crosses
  cases hp : s.clients p with
  | none =>
    refine ⟨Function.update g p.other .shared, hs.shares hg hp, ?_, ?_⟩
    · simp [lost_iff _ p, hg, hp]
    · exact progress_update rfl (by simp [hg, Stage.rank])
  | some c =>
    refine ⟨Function.update g p.other .dropped, hs.drops hg hp, ?_, ?_⟩
    · -- the own connection has been dropped, or is not lost
      cases hx : g p <;> simp_all [lost_iff _ p]
    · exact progress_update rfl (by simp [hg, Stage.rank])

/-- The end of file comes from a connection that the other daemon has dropped. -/
theorem Staged.dropped (hs : s.Staged g) (ho : s.ends c p = .opened) (hc : s.ends c p.other = .closed) :
    c = p ∧ g p = .dropped := by
  rcases Party.eq_or_eq_other p c with rfl | rfl
  · have hnear := hs.near c
    have hfar := hs.far c
    cases hx : g c <;> simp_all
  · have hnear := hs.near p.other
    have hfar := hs.far p.other
    cases hx : g p.other <;> simp_all

theorem Staged.endOfFile (hs : s.Staged g) (hg : g p = .dropped) :
    ∃ g', (s.remove p p).Staged g' ∧ (Lost g' ↔ Lost g) ∧
      (s.remove p p).progress g' = s.progress g + 1 := by
  have hc : s.called p = true := hs.called_of_ne (by simp [hg])
  have hcl : s.clients p = some p := by
    simp [hs.clients, holder, hg]
  have hne : g p.other ≠ .absent := hs.opened p (.inl hg)
  have hns : g p.other ≠ .shared := by
    intro h
    have := hs.single p.other h
    simp [hg] at this
  unfold remove removeClient
  rw [hcl]
  refine ⟨Function.update g p .gone, hs.next (by simp) ?near ?far ?ends ?clients
    hc rfl ?found ?single ?gone ?opened, ?lost, ?progress⟩
  case near =>
    simp [setEnd, setClient]
  case far =>
    have := hs.far p
    simp_all [setEnd, setClient]
  case ends =>
    simp [setEnd, setClient]
  case clients =>
    have := hs.clients p.other
    rw [Party.forall_iff p]
    cases hx : g p.other <;> simp_all [setEnd, setClient, holder]
  case found =>
    exact fun h => absurd h hne
  case single =>
    simp
  case gone =>
    exact fun h => absurd h hns
  case opened =>
    exact fun _ => hne
  case lost =>
    simp [lost_iff _ p, hg]
  case progress =>
    exact progress_update rfl (by simp [hg, Stage.rank])

/-- No client is ever stopped by the end of file of another connection. -/
theorem Staged.ne_stopped (hs : s.Staged g) : s.ends c p ≠ .stopped := by
  rcases Party.eq_or_eq_other c p with rfl | rfl
  · have := hs.near p
    cases hx : g p <;> simp_all
  · have := hs.far c
    cases hx : g c <;> simp_all

/-- **The stages of the connections go on with every event.** They are both lost with the event that
crosses another one, and only then. -/
theorem Staged.step (hs : s.Staged g) (h : s.step e = some s') :
    ∃ g', s'.Staged g' ∧ (Lost g' ↔ Lost g ∨ s.Crosses e) ∧ s'.progress g' = s.progress g + 1 := by
  cases e with
  | call p =>
    simp only [Pair.step, Option.ite_none_left_eq_some, Option.some.injEq] at h
    obtain ⟨hc, rfl⟩ := h
    obtain ⟨g', hs', hl, hn⟩ := hs.call (by simpa using hc)
    exact ⟨g', hs', by simp [hl, Crosses], hn⟩
  | accept p =>
    simp only [Pair.step, Option.ite_none_right_eq_some, Option.some.injEq] at h
    obtain ⟨hw, rfl⟩ := h
    exact hs.accept hw
  | endOfFile p c =>
    simp only [Pair.step, Option.ite_none_right_eq_some, Option.some.injEq] at h
    obtain ⟨⟨ho, hc⟩, rfl⟩ := h
    obtain ⟨rfl, hg⟩ := hs.dropped ho hc
    obtain ⟨g', hs', hl, hn⟩ := hs.endOfFile hg
    exact ⟨g', hs', by simp [hl, Crosses], hn⟩
  | flush p c =>
    simp only [Pair.step, Option.ite_none_right_eq_some] at h
    exact absurd h.1 hs.ne_stopped

/-- **Both connections are lost in the runs in which an event crosses another one.** -/
theorem Staged.run (hs : s.Staged g) (h : s.run es = some s') :
    ∃ g', s'.Staged g' ∧ (Lost g' ↔ Lost g ∨ ¬ s.Uncrossed es) ∧
      s'.progress g' = s.progress g + es.length := by
  induction es generalizing s g with
  | nil =>
    cases h
    exact ⟨g, hs, by simp [Uncrossed], rfl⟩
  | cons e es ih =>
    simp only [Pair.run, List.foldlM_cons, Option.bind_eq_bind, Option.bind_eq_some_iff] at h
    obtain ⟨s₁, h₁, h⟩ := h
    obtain ⟨g₁, hs₁, hl₁, hn₁⟩ := hs.step h₁
    obtain ⟨g', hs', hl, hn⟩ := ih hs₁ h
    refine ⟨g', hs', ?_, ?_⟩
    · rw [hl, hl₁, or_assoc]
      simp [Uncrossed, h₁, imp_iff_not_or]
    · rw [hn, hn₁, List.length_cons]
      omega

/-- **Every run comes to its end**, after six events at most. -/
theorem length_le (h : start.run es = some s) : es.length ≤ 6 := by
  obtain ⟨g, -, -, hn⟩ := staged_start.run h
  have := s.progress_le g
  omega

/-! ### The end of the run -/

/-- When no event is left, the connections are shared, gone, or have never been opened. -/
theorem Staged.settled (hs : s.Staged g) (hd : s.Done) (p : Party) :
    s.called p = true ∧ (g p = .absent ∨ g p = .shared ∨ g p = .gone) := by
  have hcall := hd (.call p)
  have haccept := hd (.accept p.other)
  have heof := hd (.endOfFile p p)
  have hnear := hs.near p
  have hfar := hs.far p
  cases hx : g p <;> simp_all [Pair.step]

/-- The daemons share one connection, or both have been dropped. -/
theorem Staged.shared_or_gone (hs : s.Staged g) (hd : s.Done) :
    (∃ c, g c = .shared ∧ (g c.other = .absent ∨ g c.other = .gone)) ∨ ∀ p, g p = .gone := by
  obtain ⟨hca, ha | ha | ha⟩ := hs.settled hd .a
  · have hb := hs.found .a hca ha
    exact .inl ⟨_, hb, hs.single _ hb⟩
  · exact .inl ⟨_, ha, hs.single _ ha⟩
  · obtain ⟨-, hb | hb | hb⟩ := hs.settled hd .b
    · exact absurd hb (hs.opened .a (.inr ha))
    · exact .inl ⟨_, hb, hs.single _ hb⟩
    · exact .inr ((Party.forall_iff .a).2 ⟨ha, hb⟩)

/-- A shared connection is in both client tables. -/
theorem Staged.joined (hs : s.Staged g) (h : g c = .shared) (ho : g c.other = .absent ∨ g c.other = .gone) :
    s.Joined := by
  have hopen : s.Open c := by
    have := hs.near c
    have := hs.far c
    simp_all [Open, Party.forall_iff c]
  have hnear : (g c.other).near ≠ .opened := by
    rcases ho with ho | ho <;> simp [ho]
  refine ⟨⟨c, hopen⟩, (Party.forall_iff c).2 ⟨⟨c, ?_, hopen⟩, ⟨c, ?_, hopen⟩⟩⟩
  · simp [hs.clients, holder, h]
  · simp [hs.clients, holder, h, hnear]

/-- **Simultaneous connect.** When no event is left, the daemons share an open connection, which is in
both client tables, if and only if no event of the run crossed another one: no daemon that had a client
for its own connection, dropped by the other one, dropped the connection of the other one. -/
theorem joined_iff (h : start.run es = some s) (hd : s.Done) : s.Joined ↔ start.Uncrossed es := by
  obtain ⟨g, hs, hl, -⟩ := staged_start.run h
  rw [or_iff_right not_lost_absent] at hl
  rw [← not_iff_not, ← hl]
  rcases hs.shared_or_gone hd with ⟨c, hc, ho⟩ | hgone
  · have := hs.joined hc ho
    simp [lost_iff g c, hc, this]
  · have hlost : Lost g := fun p => .inr (hgone p)
    have hclients : s.clients .a = none := by
      simp [hs.clients, holder, hgone]
    simp [hlost, Joined, Party.forall_iff .a, hclients]

/-- **Nothing is left of the two connections if an event of the run crossed another one.** -/
theorem nothing_left (h : start.run es = some s) (hd : s.Done) (hc : ¬ start.Uncrossed es) (p c : Party) :
    s.clients p = none ∧ s.ends c p = .closed := by
  obtain ⟨g, hs, hl, -⟩ := staged_start.run h
  have hlost : Lost g := hl.2 (.inr hc)
  obtain ⟨c', hc', -⟩ | hgone := hs.shared_or_gone hd
  · exact absurd (hlost c') (by simp [hc'])
  · refine ⟨by simp [hs.clients, holder, hgone], ?_⟩
    rcases Party.eq_or_eq_other c p with rfl | rfl
    · simp [hs.near, hgone]
    · simp [hs.far, hgone]

/-- Nothing is left to be done if both daemons have called, and each connection is at its end. -/
theorem done_iff (s : Pair) : s.Done ↔ ∀ p, s.called p = true ∧ s.ends p.other p ≠ .waiting ∧
    ∀ c, ¬ (s.ends c p = .opened ∧ s.ends c p.other = .closed) ∧ s.ends c p ≠ .stopped := by
  constructor
  · intro h p
    have hcall := h (.call p)
    have haccept := h (.accept p)
    refine ⟨?_, ?_, fun c => ?_⟩
    · simpa [step] using hcall
    · simpa [step] using haccept
    · have heof := h (.endOfFile p c)
      have hflush := h (.flush p c)
      simp_all [step]
  · intro h e
    cases e with
    | call p => simp [step, h p]
    | accept p => simp [step, h p]
    | endOfFile p c => simp [step, ((h p).2.2 c).1]
    | flush p c => simp [step, ((h p).2.2 c).2]

instance (s : Pair) : Decidable s.Done :=
  decidable_of_iff _ (done_iff s).symm

/-- `B` finds the client of the connection that it has accepted. -/
theorem joined_in_turn : ∃ s, start.run [.call .a, .accept .b, .call .b] = some s ∧ s.Joined := by
  have hrun : start.run [.call .a, .accept .b, .call .b] = some _ := rfl
  exact ⟨_, hrun, (joined_iff hrun (by decide)).2 (by decide)⟩

/-- **Each daemon can drop the connection of the other one.** -/
theorem both_drop : ∃ s, start.run [.call .a, .call .b, .accept .a, .accept .b, .endOfFile .a .a,
    .endOfFile .b .b] = some s ∧ s.Done ∧ ¬ s.Joined ∧ ∀ p, s.clients p = none := by
  refine ⟨_, rfl, ?_⟩
  decide

end Pair

end Subordination.Daemon
