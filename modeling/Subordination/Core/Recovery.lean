import Subordination.Core.Connection
import Subordination.Library.Refusals
import Subordination.Library.System

/-!
# Recovery

What becomes of the kernels that a connection keeps when it fails
(`connection::recover_kernels`, `connection::recover_kernel`).

## The model

`recoverKernel` gives the hand-offs that one kernel leads to, `recoverKernels` takes the kernels
out of their queues one after another. A pipeline may throw: `forward` of the process pipeline starts
the application of a kernel. `Throws` says which of the hand-offs fail, given those before them; the
exception is caught, and the kernel is gone. A null pointer in a queue ends the process.

`queues` is what can be in the queues: kernels and null pointers that `save_kernel` has put there,
some of which have been taken out since.

## What is proved

* `recovered_iff` — every kernel goes to exactly one pipeline if and only if there are no broadcasts
  and no null pointers in the queues, and no pipeline throws.
* `broadcast_lost` — `save_kernel` keeps a broadcast that has a principal, `recover_kernel` does not
  know what to do with it.
-/

namespace Subordination.Core

open Library

section Recovery

variable {P : Type}

/-! ### Recovering -/

/-- `recover_kernel`. -/
def recoverKernel (ppl : BasicSocketPipeline) (k : Kernel P) : List (HandOff P) :=
  if ppl.stopping || ppl.stopped then [.trash k]
  else if k.phase = .upstream ∧ !k.destination.isSet then
    if k.isNative then ppl.sendRemote k else ppl.forwardRemote k
  else if k.phase = .pointToPoint ∨ (k.phase = .upstream ∧ k.destination.isSet) then
    let k' := { k with source := k.destination }
    let k' := k'.returnToParent .endpointNotConnected
    if k.isNative then ppl.sendNative k' else ppl.forwardForeign k'
  else if k.phase = .downstream ∧ k.carriesParent then
    if k.isNative then ppl.sendNative k else ppl.forwardForeign k
  else []

/-- Which hand-offs fail, given those that have been made before. -/
abbrev Throws (P : Type) := List (HandOff P) → HandOff P → Bool

/-- The loop of `recover_kernels` over one queue: what has been handed off in the end. A kernel is
dropped if the pipeline throws. -/
def recoverQueue (ppl : BasicSocketPipeline) (throws : Throws P) :
    List (HandOff P) → List (Kernel P) → List (HandOff P)
  | handedOff, [] => handedOff
  | handedOff, k :: queue =>
    recoverQueue ppl throws (handedOff ++ (recoverKernel ppl k).filter fun h => !throws handedOff h) queue

/-- `recover_kernels`. A null pointer is put with the trash if the pipeline is stopping, and is
dereferenced otherwise. -/
def Endpoint.recoverKernels (ppl : BasicSocketPipeline) (throws : Throws P) (down : Bool) (e : Endpoint P) :
    Option (Endpoint P) :=
  if !(ppl.stopping || ppl.stopped) ∧ (e.connection.upstreamNulls ≠ 0 ∨ down ∧ e.connection.downstreamNulls ≠ 0) then
    none
  else
    let e :=
      { e with
        connection.upstream := []
        connection.upstreamNulls := 0
        handedOff := recoverQueue ppl throws e.handedOff e.connection.upstream }
    if down then
      some { e with
        connection.downstream := []
        connection.downstreamNulls := 0
        handedOff := recoverQueue ppl throws e.handedOff e.connection.downstream }
    else some e

/-! ### What recovering is for -/

/-- The kernel as it returns from a node that cannot be reached. -/
def Kernel.unreachable (k : Kernel P) : Kernel P :=
  Kernel.returnToParent { k with source := k.destination } .endpointNotConnected

/-- The hand-off recovers the kernel. -/
inductive Recovers : Kernel P → HandOff P → Prop
  /-- The kernel is sent to another node. -/
  | resent {k : Kernel P} : k.phase = .upstream → k.destination.isSet = false → k.isNative = true →
      Recovers k (.sendRemote k)
  /-- The same of a foreign kernel. -/
  | reforwarded {k : Kernel P} : k.phase = .upstream → k.destination.isSet = false →
      k.isNative = false → Recovers k (.forwardRemote k)
  /-- The kernel goes to a given node and returns to its parent. -/
  | returned {k : Kernel P} :
      k.phase = .pointToPoint ∨ (k.phase = .upstream ∧ k.destination.isSet = true) →
      k.isNative = true → Recovers k (.sendNative k.unreachable)
  /-- The same of a foreign kernel. -/
  | returnedForeign {k : Kernel P} :
      k.phase = .pointToPoint ∨ (k.phase = .upstream ∧ k.destination.isSet = true) →
      k.isNative = false → Recovers k (.forwardForeign k.unreachable)
  /-- The parent that the kernel carries takes the place of the one that is lost. -/
  | restored {k : Kernel P} : k.phase = .downstream → k.carriesParent = true → k.isNative = true →
      Recovers k (.sendNative k)
  /-- The same of a foreign kernel. -/
  | restoredForeign {k : Kernel P} : k.phase = .downstream → k.carriesParent = true →
      k.isNative = false → Recovers k (.forwardForeign k)

/-- The hand-off that recovers a kernel. -/
def Kernel.recovery (k : Kernel P) : HandOff P :=
  if k.phase = .upstream ∧ k.destination.isSet = false then
    if k.isNative then .sendRemote k else .forwardRemote k
  else if k.phase = .downstream then
    if k.isNative then .sendNative k else .forwardForeign k
  else
    if k.isNative then .sendNative k.unreachable else .forwardForeign k.unreachable

/-- Every kernel in the queues is handed to exactly one pipeline, in order, and none stays behind. -/
def Endpoint.AllRecovered (ppl : BasicSocketPipeline) (throws : Throws P) (e : Endpoint P) : Prop :=
  ∃ e' hs, e.recoverKernels ppl throws true = some e' ∧ e'.connection.upstream = [] ∧
    e'.connection.downstream = [] ∧ e'.handedOff = e.handedOff ++ hs ∧
    List.Forall₂ Recovers (e.connection.upstream ++ e.connection.downstream) hs

/-- The pipeline is running, and knows the others. -/
structure BasicSocketPipeline.Ready (ppl : BasicSocketPipeline) : Prop where
  /-- It is not stopping. -/
  stopping : ppl.stopping = false
  /-- It has not stopped. -/
  stopped : ppl.stopped = false
  /-- The pipeline for native kernels. -/
  nativePipeline : ppl.nativePipeline = true
  /-- The pipeline to other nodes. -/
  remotePipeline : ppl.remotePipeline = true
  /-- The pipeline for foreign kernels. -/
  foreignPipeline : ppl.foreignPipeline = true

variable {ppl : BasicSocketPipeline} {throws : Throws P} {e : Endpoint P} {k : Kernel P} {queue : List (Kernel P)}
  {handedOff : List (HandOff P)}

/-! ### One kernel -/

/-- A kernel that is sent to another node, or returns from one. -/
theorem recoverKernel_upstream (hppl : ppl.Ready) (hphase : k.phase = .upstream ∨ k.phase = .pointToPoint) :
    ∃ h, recoverKernel ppl k = [h] ∧ Recovers k h := by
  by_cases hup : k.phase = .upstream ∧ (!k.destination.isSet) = true
  · have hdestination : k.destination.isSet = false := by simpa using hup.2
    cases hnative : k.isNative with
    | true =>
      refine ⟨.sendRemote k, ?_, .resent hup.1 hdestination hnative⟩
      simp [recoverKernel, hppl.stopping, hppl.stopped, hup.1, hdestination, hnative,
        BasicSocketPipeline.sendRemote, hppl.remotePipeline]
    | false =>
      refine ⟨.forwardRemote k, ?_, .reforwarded hup.1 hdestination hnative⟩
      simp [recoverKernel, hppl.stopping, hppl.stopped, hup.1, hdestination, hnative,
        BasicSocketPipeline.forwardRemote, hppl.remotePipeline]
  · have hback : k.phase = .pointToPoint ∨ (k.phase = .upstream ∧ k.destination.isSet = true) := by
      rcases hphase with hphase | hphase
      · exact Or.inr ⟨hphase, by simpa [hphase] using hup⟩
      · exact Or.inl hphase
    have hrecover : recoverKernel ppl k =
        if k.isNative then ppl.sendNative k.unreachable else ppl.forwardForeign k.unreachable := by
      rw [recoverKernel, hppl.stopping, hppl.stopped, if_neg (by decide), if_neg hup, if_pos hback]
      rfl
    rw [hrecover]
    cases hnative : k.isNative with
    | true =>
      refine ⟨.sendNative k.unreachable, ?_, .returned hback hnative⟩
      rw [if_pos rfl, BasicSocketPipeline.sendNative, if_pos hppl.nativePipeline]
    | false =>
      refine ⟨.forwardForeign k.unreachable, ?_, .returnedForeign hback hnative⟩
      rw [if_neg Bool.false_ne_true, BasicSocketPipeline.forwardForeign, if_pos hppl.foreignPipeline]

/-- A kernel that carries its parent. -/
theorem recoverKernel_downstream (hppl : ppl.Ready) (hphase : k.phase = .downstream)
    (hcarries : k.carriesParent = true) : ∃ h, recoverKernel ppl k = [h] ∧ Recovers k h := by
  have hne : k.phase ≠ .upstream ∧ k.phase ≠ .pointToPoint := by
    rw [hphase]
    decide
  have hrecover : recoverKernel ppl k = if k.isNative then ppl.sendNative k else ppl.forwardForeign k := by
    rw [recoverKernel, hppl.stopping, hppl.stopped, if_neg (by decide), if_neg (by simp [hne]),
      if_neg (by simp [hne]), if_pos ⟨hphase, hcarries⟩]
  rw [hrecover]
  cases hnative : k.isNative with
  | true =>
    refine ⟨.sendNative k, ?_, .restored hphase hcarries hnative⟩
    rw [if_pos rfl, BasicSocketPipeline.sendNative, if_pos hppl.nativePipeline]
  | false =>
    refine ⟨.forwardForeign k, ?_, .restoredForeign hphase hcarries hnative⟩
    rw [if_neg Bool.false_ne_true, BasicSocketPipeline.forwardForeign, if_pos hppl.foreignPipeline]

/-- Nothing is done about a broadcast. -/
theorem recoverKernel_broadcast (hppl : ppl.Ready) (hphase : k.phase = .broadcast) :
    recoverKernel ppl k = [] := by
  have hne : k.phase ≠ .upstream ∧ k.phase ≠ .pointToPoint ∧ k.phase ≠ .downstream := by
    rw [hphase]
    decide
  simp [recoverKernel, hppl.stopping, hppl.stopped, hne]

/-- There is one hand-off that recovers a kernel. -/
theorem Recovers.eq_recovery {h : HandOff P} (hrecovers : Recovers k h) : h = k.recovery := by
  have hback (hphase : k.phase = .pointToPoint ∨ (k.phase = .upstream ∧ k.destination.isSet = true)) :
      ¬(k.phase = .upstream ∧ k.destination.isSet = false) ∧ k.phase ≠ .downstream := by
    rcases hphase with hphase | ⟨hphase, hdestination⟩
    · rw [hphase]
      exact ⟨fun h => absurd h.1 (by decide), by decide⟩
    · rw [hphase, hdestination]
      decide
  have hdown (hphase : k.phase = .downstream) : ¬(k.phase = .upstream ∧ k.destination.isSet = false) := by
    rw [hphase]
    exact fun h => absurd h.1 (by decide)
  cases hrecovers with
  | resent hphase hdestination hnative => rw [Kernel.recovery, if_pos ⟨hphase, hdestination⟩, if_pos hnative]
  | reforwarded hphase hdestination hnative =>
    rw [Kernel.recovery, if_pos ⟨hphase, hdestination⟩, hnative, if_neg Bool.false_ne_true]
  | returned hphase hnative =>
    rw [Kernel.recovery, if_neg (hback hphase).1, if_neg (hback hphase).2, if_pos hnative]
  | returnedForeign hphase hnative =>
    rw [Kernel.recovery, if_neg (hback hphase).1, if_neg (hback hphase).2, hnative, if_neg Bool.false_ne_true]
  | restored hphase hcarries hnative => rw [Kernel.recovery, if_neg (hdown hphase), if_pos hphase, if_pos hnative]
  | restoredForeign hphase hcarries hnative =>
    rw [Kernel.recovery, if_neg (hdown hphase), if_pos hphase, hnative, if_neg Bool.false_ne_true]

/-- What `save_kernel` may have put in a queue. -/
def Kernel.Saved (k : Kernel P) : Prop :=
  (k.phase = .upstream ∨ k.phase = .pointToPoint ∨ k.phase = .broadcast) ∨
    (k.phase = .downstream ∧ k.carriesParent = true)

/-- A kernel that is not a broadcast is recovered. -/
theorem recoverKernel_eq (hppl : ppl.Ready) (hsaved : k.Saved) (hphase : k.phase ≠ .broadcast) :
    recoverKernel ppl k = [k.recovery] ∧ Recovers k k.recovery := by
  have hone : ∃ h, recoverKernel ppl k = [h] ∧ Recovers k h := by
    rcases hsaved with (hup | hptp | hbroadcast) | ⟨hdown, hcarries⟩
    · exact recoverKernel_upstream hppl (Or.inl hup)
    · exact recoverKernel_upstream hppl (Or.inr hptp)
    · exact absurd hbroadcast hphase
    · exact recoverKernel_downstream hppl hdown hcarries
  obtain ⟨h, hrecover, hrecovers⟩ := hone
  obtain rfl := hrecovers.eq_recovery
  exact ⟨hrecover, hrecovers⟩

/-- A kernel leads to one hand-off at most. -/
theorem length_recoverKernel_le (ppl : BasicSocketPipeline) (k : Kernel P) : (recoverKernel ppl k).length ≤ 1 := by
  unfold recoverKernel BasicSocketPipeline.sendRemote BasicSocketPipeline.forwardRemote
    BasicSocketPipeline.sendNative BasicSocketPipeline.forwardForeign
  split_ifs <;> simp

/-! ### All of them -/

/-- What has been handed off stays so, and there is no more than one hand-off for each kernel. -/
theorem exists_recoverQueue (ppl : BasicSocketPipeline) (throws : Throws P) (handedOff : List (HandOff P))
    (queue : List (Kernel P)) :
    ∃ hs, recoverQueue ppl throws handedOff queue = handedOff ++ hs ∧ hs.length ≤ queue.length := by
  induction queue generalizing handedOff with
  | nil => exact ⟨[], (List.append_nil _).symm, le_rfl⟩
  | cons k queue ih =>
    obtain ⟨hs, hqueue, hlength⟩ := ih (handedOff ++ (recoverKernel ppl k).filter fun h => !throws handedOff h)
    refine ⟨_, by rw [recoverQueue, hqueue, List.append_assoc], ?_⟩
    have hone := (List.length_filter_le (fun h => !throws handedOff h) (recoverKernel ppl k)).trans
      (length_recoverKernel_le ppl k)
    rw [List.length_append, List.length_cons]
    omega

/-- **A queue**: every kernel is recovered if and only if there are no broadcasts and no pipeline throws. -/
theorem recoverQueue_iff (hppl : ppl.Ready) (hqueue : ∀ k ∈ queue, k.Saved) :
    (∃ hs, recoverQueue ppl throws handedOff queue = handedOff ++ hs ∧ List.Forall₂ Recovers queue hs) ↔
      (∀ k ∈ queue, k.phase ≠ .broadcast) ∧ Accepted throws handedOff (queue.map Kernel.recovery) := by
  induction queue generalizing handedOff with
  | nil => exact iff_of_true ⟨[], (List.append_nil _).symm, .nil⟩ ⟨fun _ hk => absurd hk List.not_mem_nil, accepted_nil⟩
  | cons k queue ih =>
    obtain ⟨hsaved, hrest⟩ := List.forall_mem_cons.mp hqueue
    rw [List.forall_mem_cons, List.map_cons, accepted_cons, recoverQueue]
    by_cases hgone : k.phase = .broadcast ∨ throws handedOff k.recovery = true
    · -- the kernel is dropped, and there are too few hand-offs
      refine iff_of_false ?_ fun h => ?_
      · rintro ⟨hs, hqueue, hall⟩
        have hnone : (recoverKernel ppl k).filter (fun h => !throws handedOff h) = [] := by
          rcases hgone with hphase | hthrows
          · rw [recoverKernel_broadcast hppl hphase, List.filter_nil]
          · by_cases hphase : k.phase = .broadcast
            · rw [recoverKernel_broadcast hppl hphase, List.filter_nil]
            · rw [(recoverKernel_eq hppl hsaved hphase).1]
              simp [hthrows]
        obtain ⟨hs', hqueue', hlength⟩ := exists_recoverQueue ppl throws handedOff queue
        rw [hnone, List.append_nil, hqueue'] at hqueue
        rw [List.append_cancel_left hqueue, ← hall.length_eq, List.length_cons] at hlength
        omega
      · rcases hgone with hphase | hthrows
        · exact h.1.1 hphase
        · exact absurd (hthrows.symm.trans h.2.1) (by decide)
    · obtain ⟨hphase, hthrows⟩ := not_or.mp hgone
      obtain ⟨hrecover, hrecovers⟩ := recoverKernel_eq hppl hsaved hphase
      rw [Bool.not_eq_true] at hthrows
      have htaken : (recoverKernel ppl k).filter (fun h => !throws handedOff h) = [k.recovery] := by
        rw [hrecover]
        simp [hthrows]
      rw [htaken]
      have htail := @ih (handedOff ++ [k.recovery]) hrest
      constructor
      · rintro ⟨hs, hqueue, hall⟩
        cases hall with
        | @cons _ h _ hs hhead hall =>
          rw [hhead.eq_recovery, List.append_cons handedOff _ hs] at hqueue
          obtain ⟨hnone, haccepted⟩ := htail.mp ⟨hs, hqueue, hall⟩
          exact ⟨⟨hphase, hnone⟩, hthrows, haccepted⟩
      · rintro ⟨⟨-, hnone⟩, -, haccepted⟩
        obtain ⟨hs, hqueue, hall⟩ := htail.mpr ⟨hnone, haccepted⟩
        exact ⟨k.recovery :: hs, by rw [hqueue, List.append_assoc, List.singleton_append], .cons hrecovers hall⟩

theorem recoverQueue_append (handedOff : List (HandOff P)) (queue queue' : List (Kernel P)) :
    recoverQueue ppl throws handedOff (queue ++ queue') =
      recoverQueue ppl throws (recoverQueue ppl throws handedOff queue) queue' := by
  induction queue generalizing handedOff with
  | nil => rfl
  | cons k queue ih => rw [List.cons_append, recoverQueue, recoverQueue, ih]

/-- Without null pointers both queues are gone through. -/
theorem recoverKernels_eq (ppl : BasicSocketPipeline) (throws : Throws P)
    (hup : e.connection.upstreamNulls = 0) (hdown : e.connection.downstreamNulls = 0) :
    ∃ e', e.recoverKernels ppl throws true = some e' ∧
      e'.connection.upstream = [] ∧ e'.connection.downstream = [] ∧
      e'.handedOff = recoverQueue ppl throws e.handedOff (e.connection.upstream ++ e.connection.downstream) := by
  rw [Endpoint.recoverKernels, if_neg (by simp [hup, hdown])]
  exact ⟨_, rfl, rfl, rfl, (recoverQueue_append _ _ _).symm⟩

/-- A null pointer is dereferenced. -/
theorem recoverKernels_eq_none (hppl : ppl.Ready)
    (h : e.connection.upstreamNulls ≠ 0 ∨ e.connection.downstreamNulls ≠ 0) :
    e.recoverKernels ppl throws true = none := by
  rw [Endpoint.recoverKernels, if_pos]
  simpa [hppl.stopping, hppl.stopped] using h

/-! ### What is in the queues -/

/-- What the queues may hold. -/
structure Endpoint.Kept (e : Endpoint P) : Prop where
  /-- The upstream queue. -/
  upstream : ∀ k ∈ e.connection.upstream,
    k.phase = .upstream ∨ k.phase = .pointToPoint ∨ k.phase = .broadcast
  /-- The downstream queue. -/
  downstream : ∀ k ∈ e.connection.downstream, k.phase = .downstream ∧ k.carriesParent = true

/-- A kernel goes to the queue of its phase. -/
theorem Endpoint.plan_upstream (h : (e.plan k).1 = some .upstream) :
    k.phase = .upstream ∨ k.phase = .pointToPoint ∨ k.phase = .broadcast := by
  rw [plan] at h
  split at h
  · rename_i hphase
    exact hphase.imp_right Or.inl
  · split at h
    · split at h <;> cases h
    · split at h
      · rename_i hphase
        exact Or.inr (Or.inr hphase)
      · cases h

theorem Endpoint.plan_downstream (h : (e.plan k).1 = some .downstream) :
    k.phase = .downstream ∧ k.carriesParent = true := by
  rw [plan] at h
  split at h
  · split at h <;> cases h
  · split at h
    · rename_i hphase
      split at h
      · rename_i hflags
        exact ⟨hphase, (Bool.and_eq_true_iff.mp hflags).2⟩
      · cases h
    · split at h
      · split at h <;> cases h
      · cases h

variable [ByteOrder] {proc : Process P}

/-- The queues of a connection, from when they are empty. -/
def queues (proc : Process P) (ppl : BasicSocketPipeline) : System (Endpoint P) where
  Initial e := e.connection.upstream = [] ∧ e.connection.downstream = [] ∧
    e.connection.upstreamNulls = 0 ∧ e.connection.downstreamNulls = 0
  Step e e' :=
    (∃ k, e' = (e.saveKernel proc ppl k).1) ∨
      (e'.connection.upstream.Sublist e.connection.upstream ∧
        e'.connection.downstream.Sublist e.connection.downstream ∧
        e'.connection.upstreamNulls = e.connection.upstreamNulls ∧
        e'.connection.downstreamNulls = e.connection.downstreamNulls)

/-- Saving a kernel puts it where it belongs. -/
theorem Endpoint.Kept.saveKernel (h : e.Kept) (k : Kernel P) : (e.saveKernel proc ppl k).1.Kept := by
  obtain ⟨log, k', houtcome, hsave⟩ := Endpoint.saveKernel_eq proc ppl e k
  rw [hsave]
  cases houtcome with
  | lost status hcarries hstatus => rcases (e.plan k).1 with _ | _ | _ <;> exact ⟨h.upstream, h.downstream⟩
  | kept =>
    rcases hplan : (e.plan k).1 with _ | _ | _
    · exact ⟨h.upstream, h.downstream⟩
    · refine ⟨?_, h.downstream⟩
      intro k' hk'
      rcases List.mem_append.mp hk' with hk' | hk'
      · exact h.upstream k' hk'
      · rw [List.mem_singleton.mp hk']
        exact Endpoint.plan_upstream hplan
    · refine ⟨h.upstream, ?_⟩
      intro k' hk'
      rcases List.mem_append.mp hk' with hk' | hk'
      · exact h.downstream k' hk'
      · rw [List.mem_singleton.mp hk']
        exact Endpoint.plan_downstream hplan

/-- **What can be in the queues.** -/
theorem Endpoint.kept_of_reachable (h : (queues proc ppl).Reachable e) : e.Kept := by
  refine h.invariant ?_ ?_
  · rintro e ⟨hup, hdown, -, -⟩
    refine ⟨?_, ?_⟩
    · rw [hup]
      exact fun k hk => nomatch hk
    · rw [hdown]
      exact fun k hk => nomatch hk
  · rintro e e' hkept (⟨k, rfl⟩ | ⟨hup, hdown, -, -⟩)
    · exact hkept.saveKernel k
    · exact ⟨fun k hk => hkept.upstream k (hup.subset hk), fun k hk => hkept.downstream k (hdown.subset hk)⟩

/-- **No kernel is lost with the connection** if and only if none of those that it keeps is a
broadcast, there are no null pointers among them, and no pipeline throws. -/
theorem recovered_iff (throws : Throws P) (hppl : ppl.Ready) (hreach : (queues proc ppl).Reachable e) :
    e.AllRecovered ppl throws ↔
      e.connection.upstreamNulls = 0 ∧ e.connection.downstreamNulls = 0 ∧
        (∀ k ∈ e.connection.upstream ++ e.connection.downstream, k.phase ≠ .broadcast) ∧
        Accepted throws e.handedOff
          ((e.connection.upstream ++ e.connection.downstream).map Kernel.recovery) := by
  have hkept := Endpoint.kept_of_reachable hreach
  have hsaved : ∀ k ∈ e.connection.upstream ++ e.connection.downstream, k.Saved := fun k hk =>
    (List.mem_append.mp hk).imp (hkept.upstream k) (hkept.downstream k)
  by_cases hnulls : e.connection.upstreamNulls ≠ 0 ∨ e.connection.downstreamNulls ≠ 0
  · refine iff_of_false ?_ fun h => hnulls.elim (· h.1) (· h.2.1)
    rintro ⟨e', hs, hrecover, -⟩
    rw [recoverKernels_eq_none hppl hnulls] at hrecover
    cases hrecover
  · obtain ⟨hup, hdown⟩ := not_or.mp hnulls
    rw [not_not] at hup hdown
    obtain ⟨e', hrecover, hupstream, hdownstream, hhanded⟩ := recoverKernels_eq ppl throws hup hdown
    rw [and_iff_right hup, and_iff_right hdown, ← recoverQueue_iff hppl hsaved]
    constructor
    · rintro ⟨e₁, hs, hrecover₁, -, -, hhanded₁, hall⟩
      obtain rfl := Option.some.inj (hrecover.symm.trans hrecover₁)
      exact ⟨hs, hhanded.symm.trans hhanded₁, hall⟩
    · rintro ⟨hs, hqueue, hall⟩
      exact ⟨e', hs, hrecover, hupstream, hdownstream, hhanded.trans hqueue, hall⟩

/-! ### A kernel that is lost -/

/-- A broadcast to the kernel with the id 9. -/
def Kernel.broadcast : Kernel Unit := { (Kernel.plain []).setPrincipalId 9 with phase := .broadcast }

/-- A connection that saves the kernels it sends, and has not sent any yet. -/
def Endpoint.idle : Endpoint Unit where
  connection := { flags := { saveUpstreamKernels := true } }
  memory := Memory.blank

theorem reachable_save (k : Kernel Unit) :
    (queues (Process.plain 0) {}).Reachable (Endpoint.idle.saveKernel (Process.plain 0) {} k).1 :=
  have hidle : (queues (Process.plain 0) {}).Reachable Endpoint.idle := System.Reachable.initial ⟨rfl, rfl, rfl, rfl⟩
  hidle.step (Or.inl ⟨k, rfl⟩)

end Recovery

/-- A kernel on its way to a subordinate is recovered. -/
theorem recovered_iff_plain :
    ∃ e : Endpoint Unit, e.connection.upstream = [Kernel.plain []] ∧ e.AllRecovered {} fun _ _ => false := by
  let _ := ByteOrder.littleEndian
  have hreach := reachable_save (Kernel.plain [])
  refine ⟨_, rfl, (recovered_iff (fun _ _ => false) ⟨rfl, rfl, rfl, rfl, rfl⟩ hreach).mpr ⟨rfl, rfl, ?_, ?_⟩⟩
  · intro k hk
    rw [List.mem_singleton.mp hk]
    decide
  · exact fun before k after _ => rfl

/-- **A broadcast with a principal is lost**: it is saved, and nobody is given it back. -/
theorem broadcast_lost :
    letI := ByteOrder.littleEndian
    ∃ e : Endpoint Unit, (queues (Process.plain 0) {}).Reachable e ∧
      e.connection.upstream = [Kernel.broadcast] ∧ e.connection.downstream = [] ∧
      ∀ throws, ¬ e.AllRecovered {} throws := by
  let _ := ByteOrder.littleEndian
  refine ⟨_, reachable_save Kernel.broadcast, rfl, rfl, fun throws hrecovered => ?_⟩
  obtain ⟨e', hs, hrecover, -, -, hhanded, hall⟩ := hrecovered
  cases hrecover
  obtain rfl : [] = hs := hhanded
  cases hall

end Subordination.Core
