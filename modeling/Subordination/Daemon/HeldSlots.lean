import Subordination.Daemon.Reactivation

/-!
# Who keeps a slot

A client that has been deactivated has closed the descriptor of its slot. Another socket may be opened on
it, and then the slot is that of another connection; or the client leaves its slot to be activated, and
does not get to another one.

## What is proved

* `Connections.held_step_iff` — which steps leave every client its slot.
* `Connections.occupied` — so does every run of such steps.
* `Connections.slot_lost` — otherwise a new socket takes the slot of an inactive client.
-/

namespace Subordination.Daemon

open Subordination.Core Subordination.Library

namespace Connections

/-! ### What must not happen -/

/-- Every client of the client table that is connected, or will be, has a slot of the connection table. -/
def Held (p : Connections) : Prop :=
  ∀ address r, p.clients address = some r → Lives (p.object r).state → ∃ i, p.table.get i = some (.client r)

/-- The slot of a client of the client table gets another connection. -/
def Replaces (p p' : Connections) : Prop :=
  ∃ i r x, p.Listed r ∧ Lives (p.object r).state ∧ p.table.get i = some (.client r) ∧
    p'.table.get i = some x ∧ x ≠ .client r

/-- The client is not activated with a descriptor that another waiting client has closed, and if its
activation throws before it is added, it has no attempt left. -/
def SafeActivation (p : Connections) (i r : ℕ) : Activation → Prop
  | .added => p.newSocket ≠ i → ¬ p.Vacated p.newSocket
  | .flushThrows => p.newSocket ≠ i → ¬ p.Vacated p.newSocket
  | .throws => p.Listed r → (p.object r).attempts ≥ p.maxConnectionAttempts

/-- No socket is opened on a descriptor that a waiting client has closed, but by the client itself, and no
activation throws before the client is added that has an attempt left. -/
def Safe (p : Connections) : Event → Prop
  | .addClient _ => ¬ p.Vacated p.newSocket
  | .addServer => ¬ p.Vacated p.newSocket
  | .flush i f => ∀ r, p.table.get i = some (.client r) → (p.object r).state = .inactive → f.expired = true →
    p.SafeActivation i r f.activation
  | _ => True

variable {p p' : Connections} {address : SocketAddress} {c : ClientConnection} {e : Event} {f : Flushing}
  {fd i j r r' : ℕ}

theorem held_iff : p.Held ↔ Occupied p.Live p.slot := by
  simp only [Held, Occupied, Live, Listed, slot_eq_some]
  exact ⟨fun h r ⟨⟨a, ha⟩, hl⟩ => h a r ha hl, fun h a r ha hl => h r ⟨⟨a, ha⟩, hl⟩⟩

/-! ### Who keeps a slot -/

theorem SameClients.live_iff (h : p.SameClients p') : p'.Live r ↔ p.Live r := by
  unfold Live Listed
  rw [h.object, h.clients]

theorem live_modify_of_ne (h : r' ≠ r) : (p.modify r c).Live r' ↔ p.Live r' := by
  simp [Live, Listed, modify, h]

theorem live_modify_self : (p.modify r c).Live r ↔ p.Listed r ∧ Lives c.state := by
  simp [Live, Listed, modify]

/-- The clients that live are the same if the client that changes lives on. -/
theorem live_modify_iff (h : Lives c.state ↔ Lives (p.object r).state) :
    (p.modify r c).Live r' ↔ p.Live r' := by
  by_cases hr : r' = r
  · subst hr
    exact live_modify_self.trans (and_congr_right fun _ => h)
  · exact live_modify_of_ne hr

theorem not_lives_stopped : ¬ Lives .stopped := by
  simp [Lives]

/-- A client that is stopped does not live, and the others live on. -/
theorem Live.of_stop (h : (p.modify r { p.object r with state := .stopped }).Live r') :
    p.Live r' ∧ r' ≠ r := by
  by_cases hr : r' = r
  · subst hr
    exact absurd (live_modify_self.1 h).2 not_lives_stopped
  · exact ⟨(live_modify_of_ne hr).1 h, hr⟩

theorem Live.of_eraseClient (h : (p.eraseClient address).Live r) :
    p.Live r ∧ ∃ a, a ≠ address ∧ p.clients a = some r := by
  obtain ⟨⟨a, ha⟩, hl⟩ := h
  simp only [eraseClient, Function.update_apply] at ha
  split at ha
  · cases ha
  · next hne => exact ⟨⟨⟨a, ha⟩, hl⟩, a, hne, ha⟩

theorem Live.of_stopClient (h : (p.stopClient address).Live r) : p.Live r := by
  unfold stopClient at h
  split at h
  · exact h
  · exact h.of_stop.1

/-- The client of the address is not in the client table any more. -/
theorem Valid.of_removeClient (hv : p.Valid) (h : (p.removeClient address).Live r) :
    p.Live r ∧ (p.object r).address ≠ address := by
  unfold Connections.removeClient at h
  split at h
  · next hnone =>
    obtain ⟨⟨a, ha⟩, -⟩ := id h
    refine ⟨h, fun e => ?_⟩
    rw [← e, (hv.clients a r ha).2, ha] at hnone
    cases hnone
  · obtain ⟨hstop, a, hne, ha⟩ := h.of_eraseClient
    refine ⟨hstop.of_stop.1, ?_⟩
    rwa [(hv.clients a r ha).2]

theorem Valid.of_remove (hv : p.Valid) (h : (p.remove fd r).Live r') : p.Live r' ∧ r' ≠ r := by
  let q := (p.removeClient (p.object r).address).erase fd
  have hq : (p.removeClient (p.object r).address).Live r' :=
    (live_modify_iff (p := q) (c := { q.object r with socket := none }) Iff.rfl).1 h
  obtain ⟨hl, hne⟩ := hv.of_removeClient hq
  exact ⟨hl, fun e => hne (by rw [e])⟩

/-- A client that is removed leaves the slots of the others alone. -/
theorem Valid.held_remove (hv : p.Valid) (hat : p.At fd r)
    (hh : Occupied (fun r' => p.Live r' ∧ r' ≠ r) p.slot) : (p.remove fd r).Held := by
  rw [held_iff, slot_remove]
  refine (hh.mono fun r' h => hv.of_remove h).erase fun r' hr' h => ?_
  exact (hv.of_remove h).2 (hat.1 r' hr')

/-- A client that is deactivated keeps its slot, if it has one. -/
theorem Valid.held_deactivate (hv : p.Valid) (hat : p.At fd r)
    (hh : Occupied (fun r' => p.Live r' ∧ r' ≠ r) p.slot)
    (hr : p.Listed r → (p.object r).attempts < p.maxConnectionAttempts → ∃ i, p.slot i = some r) :
    (p.deactivate fd r).Held := by
  unfold Connections.deactivate
  dsimp only
  split
  · exact hv.held_remove hat hh
  · next hlt =>
    rw [held_iff]
    intro r' hr'
    by_cases h : r' = r
    · subst h
      exact hr hr'.1 (Nat.lt_of_not_le hlt)
    · exact hh r' ⟨(live_modify_of_ne h).1 hr', h⟩

/-- A client that is activated takes nobody's slot. -/
theorem Valid.held_activate (hv : p.Valid) (hh : Occupied (fun r' => p.Live r' ∧ r' ≠ r) p.slot)
    (hf : ¬ p.Vacated p.newSocket) : (p.activate r).Held := by
  rw [held_iff, slot_activate]
  refine hh.emplace fun r' hr' => ?_
  by_cases h : r' = r
  · exact .inl h
  · have hl : p.Live r' := (live_modify_of_ne
      (c := { p.object r with socket := some p.newSocket, state := .starting }) h).1 hr'
    exact .inr ⟨⟨hl, h⟩, fun hs => hf (hv.vacated hs hl)⟩

theorem Held.others (h : p.Held) (r : ℕ) : Occupied (fun r' => p.Live r' ∧ r' ≠ r) p.slot :=
  (held_iff.1 h).mono fun _ h => h.1

/-- The others keep their slots when one is erased. -/
theorem Held.others_erase (h : p.Held) (hs : p.slot i = some r) :
    Occupied (fun r' => (p.erase i).Live r' ∧ r' ≠ r) (p.erase i).slot := by
  rw [slot_erase]
  refine (h.others r).erase fun r' hr' hl => hl.2 ?_
  exact Option.some.inj (hr'.symm.trans hs)

theorem vacated_erase (h : (p.erase i).Vacated fd) : fd ≠ i ∧ p.Vacated fd := by
  obtain ⟨r, hw, hr⟩ := h
  rw [← slot_eq_some, slot_erase, Function.update_apply] at hr
  split at hr
  · cases hr
  · next hne => exact ⟨hne, r, hw, slot_eq_some.1 hr⟩

/-- **An activation leaves every client its slot**, if the new socket has not been that of a waiting
client. -/
theorem Valid.held_reactivate (hv : p.Valid) (hh : p.Held) (hs : p.slot i = some r) {a : Activation}
    (h : p.SafeActivation i r a) : (p.reactivate i r a).Held := by
  have hq := hv.erase i
  have hothers := hh.others_erase hs
  have hadded := hq.activate (hv.slots i r hs) (hv.slot_erase_ne hs)
  have hvacated : (p.newSocket ≠ i → ¬ p.Vacated p.newSocket) → ¬ (p.erase i).Vacated p.newSocket := by
    intro h hvac
    obtain ⟨hne, hvac⟩ := vacated_erase hvac
    exact h hne hvac
  cases a with
  | added => exact hq.held_activate hothers (hvacated h)
  | flushThrows =>
    have hheld := hq.held_activate hothers (hvacated h)
    refine hadded.held_deactivate (hadded.at_indexOf r) (hheld.others r) fun _ _ => ⟨p.newSocket, ?_⟩
    rw [slot_activate]
    exact Function.update_self ..
  | throws =>
    refine hq.held_deactivate (hq.at_indexOf r) hothers fun hl hlt => ?_
    exact absurd (h hl) (Nat.not_le_of_lt hlt)

theorem Valid.held_flush (hv : p.Valid) (hh : p.Held) (h : p.Safe (.flush i f)) : (p.flush i f).Held := by
  have hflushed := p.flushed_flush i f
  generalize p.flush i f = p' at hflushed ⊢
  cases hflushed with
  | same => exact hh
  | deactivated hs => exact hv.held_deactivate (hv.at_slot hs) (hh.others _) fun _ _ => ⟨i, hs⟩
  | removed hs => exact hv.held_remove (hv.at_slot hs) (hh.others _)
  | reactivated hs hst hexp => exact hv.held_reactivate hh hs (h _ (slot_eq_some.1 hs) hst hexp)

theorem Valid.held_handle (hv : p.Valid) (hh : p.Held) (fd : ℕ) (h : Handling) : (p.handle fd h).Held := by
  have hhandled := p.handled_handle fd h
  generalize p.handle fd h = p' at hhandled ⊢
  cases hhandled with
  | same => exact hh
  | started hs hst =>
    rw [held_iff]
    refine (held_iff.1 hh).mono fun r' => (live_modify_iff ?_).1
    simp [Lives, hst]
  | deactivated hs => exact hv.held_deactivate (hv.at_slot hs) (hh.others _) fun _ _ => ⟨fd, hs⟩
  | removed hs => exact hv.held_remove (hv.at_slot hs) (hh.others _)

theorem Valid.of_doAddClient (hv : p.Valid) (h : (p.doAddClient address).Live r) :
    r = p.next ∨ p.Live r := by
  obtain ⟨⟨a, ha⟩, hl⟩ := h
  rcases clients_doAddClient ha with ha | ⟨rfl, -⟩
  · rw [object_doAddClient (hv.clients a r ha).1] at hl
    exact .inr ⟨⟨a, ha⟩, hl⟩
  · exact .inl rfl

theorem SameClients.held (h : p.SameClients p') (hs : p'.slot = p.slot) (hh : p.Held) : p'.Held := by
  rw [held_iff, hs]
  exact (held_iff.1 hh).mono fun r => h.live_iff.1

/-- **A safe step leaves every client its slot.** -/
theorem Valid.held_step (hv : p.Valid) (hh : p.Held) (h : p.Safe e) : (p.step e).Held := by
  cases e with
  | addClient address =>
    rw [held_iff]
    simp only [Connections.step, slot_doAddClient]
    refine (held_iff.1 hh).emplace fun r hr => ?_
    refine (hv.of_doAddClient hr).imp_right fun hl => ⟨hl, fun hs => h (hv.vacated hs hl)⟩
  | addServer =>
    rw [held_iff]
    simp only [Connections.step, slot_addServer]
    refine ((held_iff.1 hh).mono fun r => (sameClients_addServer p).live_iff.1).erase fun r hr hl => ?_
    exact h (hv.vacated hr ((sameClients_addServer p).live_iff.1 hl))
  | removeServer fd => exact (sameClients_removeServer p fd).held (slot_removeServer p fd) hh
  | openOther => exact (sameClients_openOther p).held rfl hh
  | closeOther fd => exact (sameClients_closeOther p fd).held (slot_closeOther p fd) hh
  | handle fd h => exact hv.held_handle hh fd _
  | flush i f => exact hv.held_flush hh h
  | stopClient address =>
    rw [held_iff]
    simp only [Connections.step, slot_stopClient]
    exact (held_iff.1 hh).mono fun r hr => hr.of_stopClient

/-! ### Who loses a slot -/

theorem not_held (hl : p.Live r) (hs : ∀ i, p.slot i ≠ some r) : ¬ p.Held := fun h => by
  obtain ⟨i, hi⟩ := held_iff.1 h r hl
  exact hs i hi

theorem Vacated.live (h : p.Vacated fd) : ∃ r, p.Live r ∧ p.slot fd = some r := by
  obtain ⟨r, ⟨hl, hst⟩, hr⟩ := h
  exact ⟨r, ⟨hl, .inr (.inr hst)⟩, slot_eq_some.2 hr⟩

/-- The client table keeps the clients that it has. -/
theorem Valid.live_doAddClient (hv : p.Valid) (h : p.Live r) (address : SocketAddress) :
    (p.doAddClient address).Live r := by
  obtain ⟨⟨a, ha⟩, hl⟩ := h
  refine ⟨⟨a, ?_⟩, by rwa [object_doAddClient (hv.clients a r ha).1]⟩
  simp only [Connections.doAddClient, Function.update_apply]
  split
  · next h =>
    subst h
    rw [ha]
    rfl
  · exact ha

/-- A client lives on when the client of another address is removed. -/
theorem Valid.live_removeClient (hv : p.Valid) (h : p.Live r) (ha : (p.object r).address ≠ address) :
    (p.removeClient address).Live r := by
  obtain ⟨⟨a, hr⟩, hl⟩ := id h
  have haddress : a ≠ address := by rwa [← (hv.clients a r hr).2]
  unfold Connections.removeClient
  split
  · exact h
  · next r₁ h₁ =>
    have hne : r ≠ r₁ := by
      rintro rfl
      exact ha (hv.clients address r h₁).2
    refine ⟨⟨a, ?_⟩, ?_⟩
    · simpa [Connections.eraseClient, Connections.modify, haddress] using hr
    · simpa [Connections.eraseClient, Connections.modify, hne] using hl

theorem deactivate_of_lt (h : (p.object r).attempts < p.maxConnectionAttempts) :
    p.deactivate fd r = p.modify r
      { p.object r with attempts := (p.object r).attempts + 1, socket := none, state := .inactive } :=
  if_neg (Nat.not_le_of_lt h)

/-- A client that has no slot does not get one when another one is deactivated. -/
theorem Valid.not_held_deactivate (hv : p.Valid) (hl : p.Live r') (hs : ∀ i, p.slot i ≠ some r')
    (hne : r' ≠ r) (ha : (p.object r').address ≠ (p.object r).address) : ¬ (p.deactivate fd r).Held := by
  unfold Connections.deactivate
  dsimp only
  split
  · let q := (p.removeClient (p.object r).address).erase fd
    have hq : (p.remove fd r).Live r' :=
      (live_modify_iff (p := q) (c := { q.object r with socket := none }) Iff.rfl).2
        (hv.live_removeClient hl ha)
    refine not_held hq fun i => ?_
    rw [slot_remove, Function.update_apply]
    split
    · simp
    · exact hs i
  · exact not_held ((live_modify_of_ne hne).2 hl) hs

/-- Two clients of the client table have different addresses. -/
theorem Valid.address_ne (hv : p.Valid) (hr : p.Listed r) (hr' : p.Listed r') (hne : r' ≠ r) :
    (p.object r').address ≠ (p.object r).address := by
  obtain ⟨a, ha⟩ := hr
  obtain ⟨a', ha'⟩ := hr'
  intro h
  rw [(hv.clients a r ha).2, (hv.clients a' r' ha').2] at h
  subst h
  exact hne (Option.some.inj (ha'.symm.trans ha))

/-- A client loses its slot by an activation that is not safe. -/
theorem Valid.not_held_reactivate (hv : p.Valid) (hs : p.slot i = some r) (hr : p.Listed r) {a : Activation}
    (h : ¬ p.SafeActivation i r a) : ¬ (p.reactivate i r a).Held := by
  have hq := hv.erase i
  have hadded := hq.activate (hv.slots i r hs) (hv.slot_erase_ne hs)
  have hlost : (¬ (p.newSocket ≠ i → ¬ p.Vacated p.newSocket)) →
      ∃ r', r' ≠ r ∧ ((p.erase i).activate r).Live r' ∧ p.Listed r' ∧
        ∀ j, ((p.erase i).activate r).slot j ≠ some r' := by
    intro h
    push Not at h
    obtain ⟨hne, hvac⟩ := h
    obtain ⟨r', hl, hr'⟩ := hvac.live
    have hrr : r' ≠ r := by
      rintro rfl
      exact hne (hv.single _ _ _ hr' hs)
    refine ⟨r', hrr, (live_modify_of_ne (p := p.erase i)
      (c := { p.object r with socket := some p.newSocket, state := .starting }) hrr).2 hl, hl.1, fun j => ?_⟩
    rw [slot_activate]
    refine hq.single.update_ne ?_ (by simpa using Ne.symm hrr) j
    rw [slot_erase]
    exact (Function.update_of_ne hne ..).trans hr'
  cases a with
  | added =>
    obtain ⟨r', -, hl, -, hno⟩ := hlost h
    exact not_held hl hno
  | flushThrows =>
    obtain ⟨r', hne, hl, hlisted, hno⟩ := hlost h
    refine hadded.not_held_deactivate hl hno hne ?_
    exact hadded.address_ne hr hlisted hne
  | throws =>
    have hlt : (p.object r).attempts < p.maxConnectionAttempts := by
      by_contra hn
      exact h fun _ => Nat.le_of_not_lt hn
    simp only [Connections.reactivate]
    rw [deactivate_of_lt (p := p.erase i) hlt]
    exact not_held (live_modify_self.2 ⟨hr, .inr (.inr rfl)⟩) (hv.slot_erase_ne hs)

/-- **A step that is not safe takes the slot of a client**, if no connection is flushed that the client
table does not know. -/
theorem Valid.not_held_step (hv : p.Valid) (hl : ∀ i r, p.slot i = some r → p.Listed r) (h : ¬ p.Safe e) :
    ¬ (p.step e).Held := by
  cases e with
  | addClient address =>
    obtain ⟨r, hr, hs⟩ := (not_not.1 h : p.Vacated p.newSocket).live
    refine not_held (hv.live_doAddClient hr address) fun j => ?_
    simp only [Connections.step, slot_doAddClient]
    exact hv.single.update_ne hs (by simpa using (hv.slots _ _ hs).ne') j
  | addServer =>
    obtain ⟨r, hr, hs⟩ := (not_not.1 h : p.Vacated p.newSocket).live
    refine not_held ((sameClients_addServer p).live_iff.2 hr) fun j => ?_
    simp only [Connections.step, slot_addServer]
    exact hv.single.update_ne hs (by simp) j
  | flush i f =>
    simp only [Safe, not_forall] at h
    obtain ⟨r, hr, hst, hexp, h⟩ := h
    have hs := slot_eq_some.2 hr
    have hflush : p.flush i f = p.reactivate i r f.activation := by
      simp [Connections.flush, hr, hst, hexp]
    simp only [Connections.step, hflush]
    exact hv.not_held_reactivate hs (hl i r hs) h
  | removeServer fd => exact absurd trivial h
  | openOther => exact absurd trivial h
  | closeOther fd => exact absurd trivial h
  | handle fd _ => exact absurd trivial h
  | stopClient address => exact absurd trivial h

/-- **The steps that leave every client its slot are the safe ones.** -/
theorem held_step_iff (hv : p.Valid) (hh : p.Held) (hl : ∀ i r, p.slot i = some r → p.Listed r) :
    (p.step e).Held ↔ p.Safe e :=
  ⟨fun h => by_contra fun hn => hv.not_held_step hl hn h, hv.held_step hh⟩

/-! ### No slot is given to another connection -/

/-- No slot gets a connection. -/
def Keeps (p p' : Connections) : Prop := ∀ i x, p'.table.get i = some x → p.table.get i = some x

theorem keeps_of_eq (h : p'.table = p.table) : p.Keeps p' := fun i x hx => by rwa [← h]

theorem keeps_erase (p : Connections) (fd : ℕ) : p.Keeps (p.erase fd) := by
  intro i x h
  simp only [erase, ConnectionTable.get_erase, Function.update_apply] at h
  split at h
  · cases h
  · exact h

theorem table_removeClient (p : Connections) (address : SocketAddress) :
    (p.removeClient address).table = p.table := by
  unfold removeClient
  split <;> rfl

theorem keeps_remove (p : Connections) (fd r : ℕ) : p.Keeps (p.remove fd r) := fun i x h =>
  keeps_of_eq (table_removeClient p _) i x (keeps_erase _ fd i x h)

theorem keeps_deactivate (p : Connections) (fd r : ℕ) : p.Keeps (p.deactivate fd r) := by
  unfold deactivate
  dsimp only
  split
  · exact keeps_remove p fd r
  · exact keeps_of_eq rfl

theorem keeps_handle (p : Connections) (fd : ℕ) (h : Handling) : p.Keeps (p.handle fd h) := by
  have hhandled := p.handled_handle fd h
  generalize p.handle fd h = p' at hhandled ⊢
  cases hhandled with
  | same => exact keeps_of_eq rfl
  | started hs hst => exact keeps_of_eq rfl
  | deactivated hs => exact keeps_deactivate p fd _
  | removed hs => exact keeps_remove p fd _

theorem Keeps.not_replaces (h : p.Keeps p') : ¬ p.Replaces p' := by
  rintro ⟨i, r, x, -, -, hr, hx, hne⟩
  exact hne (Option.some.inj ((h i x hx).symm.trans hr))

/-- A new socket replaces no client if none has waited in its slot. -/
theorem Valid.not_replaces_emplace (hv : p.Valid) {x : Entry} (h : ¬ p.Vacated p.newSocket)
    (ht : p'.table = p.table.emplace p.newSocket x) : ¬ p.Replaces p' := by
  rintro ⟨i, r, y, hlisted, hlives, hr, hy, hne⟩
  rw [ht, ConnectionTable.get_emplace, Function.update_apply] at hy
  split at hy
  · next hi =>
    subst hi
    exact h (hv.vacated (slot_eq_some.2 hr) ⟨hlisted, hlives⟩)
  · exact hne (Option.some.inj (hy.symm.trans hr))

/-- So does a client that is activated, but in its own slot. -/
theorem Valid.not_replaces_activate (hv : p.Valid) (hr : p.table.get i = some (.client r))
    (h : p.newSocket ≠ i → ¬ p.Vacated p.newSocket) (hk : ((p.erase i).activate r).Keeps p') :
    ¬ p.Replaces p' := by
  rintro ⟨j, r', x, hlisted, hlives, hr', hx, hne⟩
  have hj := hk j x hx
  have hnew : (p.erase i).newSocket = p.newSocket := rfl
  simp only [Connections.activate, ConnectionTable.get_emplace, hnew, Function.update_apply] at hj
  split at hj
  · next hfd =>
    subst hfd
    by_cases hi : p.newSocket = i
    · rw [hi, hr] at hr'
      exact hne ((Option.some.inj hj).symm.trans (Option.some.inj hr'))
    · exact h hi (hv.vacated (slot_eq_some.2 hr') ⟨hlisted, hlives⟩)
  · have := keeps_erase p i j x hj
    exact hne (Option.some.inj (this.symm.trans hr'))

theorem Valid.not_replaces_flush (hv : p.Valid) (h : p.Safe (.flush i f)) : ¬ p.Replaces (p.flush i f) := by
  have hflushed := p.flushed_flush i f
  generalize p.flush i f = p' at hflushed ⊢
  cases hflushed with
  | same => exact (keeps_of_eq rfl).not_replaces
  | deactivated hs => exact (keeps_deactivate p i _).not_replaces
  | removed hs => exact (keeps_remove p i _).not_replaces
  | reactivated hs hst hexp =>
    have hr := slot_eq_some.1 hs
    have h := h _ hr hst hexp
    cases ha : f.activation with
    | added =>
      rw [ha] at h
      exact hv.not_replaces_activate hr h (keeps_of_eq rfl)
    | flushThrows =>
      rw [ha] at h
      exact hv.not_replaces_activate hr h (keeps_deactivate _ _ _)
    | throws =>
      refine Keeps.not_replaces fun j x hx => ?_
      exact keeps_erase p i j x (keeps_deactivate _ _ _ j x hx)

/-- **A safe step gives no slot of a client to another connection.** -/
theorem Valid.not_replaces_step (hv : p.Valid) (h : p.Safe e) : ¬ p.Replaces (p.step e) := by
  cases e with
  | addClient address => exact hv.not_replaces_emplace (x := .client p.next) h rfl
  | addServer => exact hv.not_replaces_emplace (x := .other) h rfl
  | removeServer fd =>
    refine Keeps.not_replaces fun i x hx => ?_
    simp only [Connections.step, removeServer] at hx
    split at hx
    · exact keeps_erase p fd i x hx
    · exact hx
  | openOther => exact (keeps_of_eq rfl).not_replaces
  | closeOther fd =>
    refine (keeps_of_eq ?_).not_replaces
    simp only [Connections.step, closeOther]
    split <;> rfl
  | handle fd h => exact (keeps_handle p fd _).not_replaces
  | flush i f => exact hv.not_replaces_flush h
  | stopClient address =>
    refine (keeps_of_eq ?_).not_replaces
    simp only [Connections.step, Connections.stopClient]
    split <;> rfl

/-! ### The next turn of `flush_buffers` -/

/-- The slot of another client stays what it is. -/
theorem At.slot_remove (hat : p.At fd r) (h : p.slot i = some r') (hne : r' ≠ r) :
    (p.remove fd r).slot i = some r' := by
  have hi : i ≠ fd := fun e => hne (hat.1 r' (e ▸ h))
  rw [Connections.slot_remove, Function.update_of_ne hi, h]

theorem At.slot_deactivate (hat : p.At fd r) (h : p.slot i = some r') (hne : r' ≠ r) :
    (p.deactivate fd r).slot i = some r' := by
  unfold Connections.deactivate
  dsimp only
  split
  · exact hat.slot_remove h hne
  · exact h

/-- A client that waits keeps its slot when another one is activated. -/
theorem Valid.slot_reactivate (hv : p.Valid) (hr : p.slot j = some r) (hw : p.Waits r')
    (hs : p.slot i = some r') (hij : i ≠ j) {a : Activation} (h : p.SafeActivation j r a) :
    (p.reactivate j r a).slot i = some r' := by
  have hne : r' ≠ r := fun e => hij (hv.single i j r (e ▸ hs) hr)
  have hq := hv.erase j
  have hadded := hq.activate (hv.slots j r hr) (hv.slot_erase_ne hr)
  have herase : (p.erase j).slot i = some r' := by
    rw [slot_erase, Function.update_of_ne hij, hs]
  have hactivate : (p.newSocket ≠ j → ¬ p.Vacated p.newSocket) →
      ((p.erase j).activate r).slot i = some r' := by
    intro h
    have hi : i ≠ (p.erase j).newSocket := by
      rintro rfl
      exact h hij ⟨r', hw, slot_eq_some.1 hs⟩
    rw [slot_activate, Function.update_of_ne hi, herase]
  cases a with
  | added => exact hactivate h
  | flushThrows => exact (hadded.at_indexOf r).slot_deactivate (hactivate h) hne
  | throws => exact (hq.at_indexOf r).slot_deactivate herase hne

/-- A client that waits keeps its slot when `flush_buffers` is at another one. -/
theorem Valid.slot_flush (hv : p.Valid) (h : p.Safe (.flush j f)) (hw : p.Waits r') (hs : p.slot i = some r')
    (hij : i ≠ j) : (p.flush j f).slot i = some r' := by
  have hne : ∀ r, p.slot j = some r → r' ≠ r := fun r hr e => hij (hv.single i j r (e ▸ hs) hr)
  have hflushed := p.flushed_flush j f
  generalize p.flush j f = p' at hflushed ⊢
  cases hflushed with
  | same => exact hs
  | deactivated hr => exact (hv.at_slot hr).slot_deactivate hs (hne _ hr)
  | removed hr => exact (hv.at_slot hr).slot_remove hs (hne _ hr)
  | reactivated hr hst hexp => exact hv.slot_reactivate hr hw hs hij (h _ (slot_eq_some.1 hr) hst hexp)

theorem Valid.flushUpTo (hv : p.Valid) (f : ℕ → Flushing) (n : ℕ) : (p.flushUpTo f n).Valid := by
  induction n with
  | zero => exact hv
  | succ n ih => exact ih.flush n (f n)

/-- **A turn of `flush_buffers` leaves every client its slot** if all of its steps are safe. -/
theorem Valid.held_flushBuffers (hv : p.Valid) (hh : p.Held) {f : ℕ → Flushing}
    (hf : ∀ n < p.table.size, (p.flushUpTo f n).Safe (.flush n (f n))) : (p.flushBuffers f).Held := by
  have hheld : ∀ n ≤ p.table.size, (p.flushUpTo f n).Held := by
    intro n hn
    induction n with
    | zero => exact hh
    | succ n ih => exact (hv.flushUpTo f n).held_flush (ih (by omega)) (hf n (by omega))
  exact hheld _ (Nat.le_refl _)

/-- **A client that waits is examined** in the next turn of `flush_buffers`, if it waits until its slot is
reached. -/
theorem Valid.examined (hv : p.Valid) (hh : p.Held) (hw : p.Waits r) {f : ℕ → Flushing}
    (hf : ∀ n < p.table.size, (p.flushUpTo f n).Safe (.flush n (f n))) :
    ∃ n < p.table.size, (p.flushUpTo f n).table.get n = some (.client r) ∨ ¬ (p.flushUpTo f n).Waits r := by
  obtain ⟨i, hi⟩ := held_iff.1 hh r ⟨hw.1, .inr (.inr hw.2)⟩
  have hlt := ConnectionTable.lt_size (slot_eq_some.1 hi)
  by_contra hn
  push Not at hn
  -- the slot is the client's own until the loop comes to it
  have hslot : ∀ n ≤ i, (p.flushUpTo f n).slot i = some r := by
    intro n hni
    induction n with
    | zero => exact hi
    | succ n ih =>
      have hnlt : n < p.table.size := by omega
      exact (hv.flushUpTo f n).slot_flush (hf n hnlt) (hn n hnlt).2 (ih (by omega)) (by omega)
  exact (hn i hlt).1 (slot_eq_some.1 (hslot i (Nat.le_refl i)))

/-! ### Runs -/

/-- The runs of safe steps. -/
def safe : System Connections where
  Initial := Constructed
  Step := fun p p' => ∃ e, p.Safe e ∧ p' = p.step e

theorem slot_construct (m : ℕ) (others : List ℕ) (pipe i r : ℕ) :
    (construct m others pipe).slot i ≠ some r := by
  simp only [slot, construct, ConnectionTable.get_emplace, Function.update_apply]
  split <;> simp [ConnectionTable.get, Entry.ref]

theorem Constructed.valid (h : p.Constructed) : p.Valid ∧ p.Held := by
  obtain ⟨m, others, pipe, -, rfl⟩ := h
  have hslot := slot_construct m others pipe
  refine ⟨⟨fun i r h => absurd h (hslot i r), ?_, fun i j r h => absurd h (hslot i r),
    fun i r h => absurd h (hslot i r)⟩, ?_⟩
  · simp [construct]
  · intro a r h
    cases h

/-- **Clients keep their slots.** In every run in which no socket is opened on a descriptor that a waiting
client has closed, and no activation throws before the client is added that has an attempt left: every
client of the client table that is connected, or will be, has a slot, which is given to nobody else, and
one that waits is examined in the next turn of `flush_buffers`. -/
theorem occupied (h : safe.Reachable p) :
    p.Held ∧ (∀ e, p.Safe e → ¬ p.Replaces (p.step e)) ∧
      ∀ r f, p.Waits r → (∀ n < p.table.size, (p.flushUpTo f n).Safe (.flush n (f n))) →
        ∃ n < p.table.size,
          (p.flushUpTo f n).table.get n = some (.client r) ∨ ¬ (p.flushUpTo f n).Waits r := by
  have hp : p.Valid ∧ p.Held := by
    refine h.invariant (fun p hp => hp.valid) fun p p' hp hs => ?_
    obtain ⟨e, he, rfl⟩ := hs
    exact ⟨hp.1.step e, hp.1.held_step hp.2 he⟩
  exact ⟨hp.2, fun e he => hp.1.not_replaces_step he, fun r f hw hf => hp.1.examined hp.2 hw hf⟩

/-! ### A slot that is lost -/

/-- A pipeline that tries to connect twice. The pipe of its poller has the descriptor 3. -/
def tries : Connections := construct 2 [0, 1, 2, 3] 3

/-- The connection to the node at 10.0.0.1 is refused. -/
def refusedOnce : Connections :=
  (tries.step (.addClient (ipv4SocketAddress 0x0A000001 33333))).step (.handle 4 .refused)

theorem constructed_tries : tries.Constructed := ⟨2, [0, 1, 2, 3], 3, by decide, rfl⟩

theorem safe_tries (address : SocketAddress) : tries.Safe (.addClient address) := by
  rintro ⟨r, ⟨⟨a, ha⟩, -⟩, -⟩
  cases ha

theorem waits_refusedOnce : refusedOnce.Waits 0 :=
  ⟨⟨ipv4SocketAddress 0x0A000001 33333, by decide +kernel⟩, by decide +kernel⟩

theorem occupied_refusedOnce : refusedOnce.Held ∧ refusedOnce.Waits 0 := by
  have hadded : safe.Reachable (tries.step (.addClient (ipv4SocketAddress 0x0A000001 33333))) :=
    (System.Reachable.initial constructed_tries).step ⟨_, safe_tries _, rfl⟩
  have hrefused : safe.Reachable refusedOnce := hadded.step ⟨.handle 4 .refused, trivial, rfl⟩
  exact ⟨(occupied hrefused).1, waits_refusedOnce⟩

/-- **A new socket takes the slot of an inactive client.** The client of the node at 10.0.0.2 gets the
descriptor that the client of the one at 10.0.0.1 has closed. -/
theorem slot_lost : tries.Constructed ∧
    ¬ (refusedOnce.step (.addClient (ipv4SocketAddress 0x0A000002 33333))).Held := by
  have hv : refusedOnce.Valid := (constructed_tries.valid.1.step _).step _
  refine ⟨constructed_tries, not_held (r := 0) ?_ fun i => ?_⟩
  · exact hv.live_doAddClient ⟨waits_refusedOnce.1, .inr (.inr waits_refusedOnce.2)⟩ _
  · simp only [step, slot_doAddClient]
    refine hv.single.update_ne ?_ (by decide +kernel) i
    decide +kernel

end Connections

end Subordination.Daemon
