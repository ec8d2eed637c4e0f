import Subordination.Core.Connection
import Subordination.Library.System

/-!
# Results

How a connection finds the parents of the kernels that come back (`connection::send`,
`connection::plug_parent`).

## The model

A `History` is an endpoint with what has happened so far: how many ids have been drawn from the
counter of the connection, and which kernels have been sent with them. In a step of it a kernel
is sent, a foreign kernel is forwarded, a kernel arrives on its way back, or the rest of the
process does something to the memory.

## What is proved

* `Inv.step` — the ids in the queue are pairwise different as long as the counter has not gone
  round, and what is in the queue and what has come back is what was sent.
* `plugged_once` — so a result is accepted only when the kernel it belongs to is in the queue,
  gets its parent, and takes it out.
* `queue_repeats` — the counter is shared by the kernels and their parents, so it goes round
  before `2 ^ 64` kernels have been sent.
-/

namespace Subordination.Core

open Library

/-- The native kernels of a queue. -/
def natives {P : Type} (queue : List (Kernel P)) : List (Kernel P) := queue.filter Kernel.isNative

/-- An endpoint with its past. -/
structure History (P : Type) extends Endpoint P where
  /-- How many ids have been drawn. -/
  drawn : ℕ := 0
  /-- The kernels that have been sent, with their ids, oldest first. -/
  sent : List (Kernel P) := []

/-- A native kernel that leaves without its parent. -/
structure Kernel.Departs {P : Type} (k : Kernel P) : Prop where
  /-- The kernel is native. -/
  native : k.isNative = true
  /-- It goes to a subordinate or to a principal. -/
  phase : k.phase = .upstream ∨ k.phase = .pointToPoint
  /-- Its parent stays. -/
  carriesParent : k.carriesParent = false

/-- How many ids are drawn when a kernel with the parent `p` is sent. -/
def Endpoint.draws {P : Type} (e : Endpoint P) (p : UInt64) : ℕ := if (e.memory p).hasId then 1 else 2

section Steps

variable {P : Type} [ByteOrder] (proc : Process P) (ppl : BasicSocketPipeline)

/-- What may happen next. -/
inductive History.Step : History P → History P → Prop
  /-- A kernel is sent. -/
  | send {h : History P} {k : Kernel P} {e : Endpoint P} {left : Option (Kernel P)} :
      k.Departs → h.toEndpoint.send proc ppl k = some (e, left) →
      Step h
        { toEndpoint := e
          drawn := h.drawn + h.draws k.parent
          sent := h.sent ++ [{ k with id := e.connection.counter }] }
  /-- A foreign kernel is forwarded. -/
  | forward {h : History P} {k : Kernel P} :
      k.isNative = false → Step h { h with toEndpoint := (h.toEndpoint.doForward proc ppl k).1 }
  /-- A kernel arrives on its way back. -/
  | receive {h : History P} (address : UInt64) {r : Received P} :
      r.kernel.phase = .downstream →
      Step h { h with toEndpoint := (Endpoint.receiver proc ppl address).receive r h.toEndpoint }
  /-- The rest of the process goes on. -/
  | other {h : History P} (memory : Memory P) : Step h { h with memory }

/-- A connection that saves the kernels it sends, from when it is made. -/
def History.system : System (History P) where
  Initial h := h.connection.flags.saveUpstreamKernels = true ∧ h.connection.upstream = [] ∧
    h.connection.counter = 1 ∧ h.plugged = [] ∧ h.drawn = 0 ∧ h.sent = []
  Step := History.Step proc ppl

end Steps

/-! ### What a step does to the queue -/

namespace Endpoint

variable {P : Type} [ByteOrder] {proc : Process P} {ppl : BasicSocketPipeline} {e e' : Endpoint P}
  {k : Kernel P}

omit [ByteOrder] in
/-- The parent of a kernel takes an id if it has none. -/
theorem ensureHasId_eq (e : Endpoint P) (p : UInt64) :
    ∃ memory, (∀ q, q ≠ p → memory q = e.memory q) ∧ e.ensureHasId p =
      { e with connection.counter := e.connection.counter + UInt64.ofNat (e.draws p - 1), memory } := by
  by_cases hid : (e.memory p).hasId
  · refine ⟨e.memory, fun q _ => rfl, ?_⟩
    rw [ensureHasId, if_pos hid, draws, if_pos hid]
    simp
  · refine ⟨Function.update e.memory p { e.memory p with id := e.connection.counter + 1 }, ?_, ?_⟩
    · intro q hq
      exact Function.update_of_ne hq _ _
    · rw [ensureHasId, if_neg hid, draws, if_neg hid]
      rfl

omit [ByteOrder] in
theorem draws_eq (e : Endpoint P) (p : UInt64) : e.draws p = e.draws p - 1 + 1 := by
  rw [draws]
  split <;> rfl

/-- A kernel that is sent gets a new id and is put in the queue. No other kernel than its parent
changes. -/
theorem send_eq (hk : k.Departs) (hflag : e.connection.flags.saveUpstreamKernels = true)
    {left : Option (Kernel P)} (h : e.send proc ppl k = some (e', left)) :
    e'.connection.flags = e.connection.flags ∧ e'.plugged = e.plugged ∧
      e'.connection.counter = e.connection.counter + UInt64.ofNat (e.draws k.parent) ∧
      e'.connection.upstream = e.connection.upstream ++ [{ k with id := e'.connection.counter }] ∧
      ∀ p, p ≠ k.parent → e'.memory p = e.memory p := by
  obtain ⟨memory, hmemory, hensure⟩ := e.ensureHasId_eq k.parent
  have hcounter : e.connection.counter + UInt64.ofNat (e.draws k.parent) =
      e.connection.counter + UInt64.ofNat (e.draws k.parent - 1) + 1 := by
    conv_lhs => rw [draws_eq, UInt64.ofNat_add]
    rw [← UInt64.add_assoc]
    rfl
  rw [send, prepare, if_pos hk.phase] at h
  by_cases hparent : k.parent = 0
  · rw [if_pos hparent] at h
    cases h
  · rw [if_neg hparent, hensure, generateNewId] at h
    obtain ⟨b, load, log, k', houtcome, hforward⟩ := doForward_eq proc ppl
      ({ e with connection.counter := e.connection.counter + UInt64.ofNat (e.draws k.parent), memory } :
        Endpoint P) { k with id := e.connection.counter + UInt64.ofNat (e.draws k.parent) }
    obtain rfl := houtcome.eq_some hk.carriesParent
    rw [plan, if_pos hk.phase, if_pos hflag, doForward] at hforward
    simp only [← hcounter, hforward, Option.some.injEq] at h
    cases h
    exact ⟨rfl, rfl, rfl, rfl, hmemory⟩

/-- A kernel with a parent can be sent. -/
theorem exists_send (proc : Process P) (ppl : BasicSocketPipeline) (e : Endpoint P) (hparent : k.parent ≠ 0) :
    ∃ e' left, e.send proc ppl k = some (e', left) := by
  by_cases hphase : k.phase = .upstream ∨ k.phase = .pointToPoint
  · rw [send, prepare, if_pos hphase, if_neg hparent]
    exact ⟨_, _, rfl⟩
  · rw [send, prepare, if_neg hphase]
    exact ⟨_, _, rfl⟩

/-- A kernel that is forwarded is put in the queue or not. -/
theorem doForward_fields (proc : Process P) (ppl : BasicSocketPipeline) (e : Endpoint P) (k : Kernel P) :
    let e' := (e.doForward proc ppl k).1
    e'.connection.flags = e.connection.flags ∧ e'.plugged = e.plugged ∧
      e'.connection.counter = e.connection.counter ∧
      (e'.connection.upstream = e.connection.upstream ∨
        e'.connection.upstream = e.connection.upstream ++ [k]) := by
  obtain ⟨b, load, log, k', houtcome, hforward⟩ := e.doForward_eq proc ppl k
  rw [hforward]
  cases houtcome with
  | kept =>
    rcases (e.plan k).1 with _ | _ | _
    · exact ⟨rfl, rfl, rfl, Or.inl rfl⟩
    · exact ⟨rfl, rfl, rfl, Or.inr rfl⟩
    · exact ⟨rfl, rfl, rfl, Or.inl rfl⟩
  | lost status hcarries hstatus =>
    rcases (e.plan k).1 with _ | _ | _
    · exact ⟨rfl, rfl, rfl, Or.inl rfl⟩
    · exact ⟨rfl, rfl, rfl, Or.inl rfl⟩
    · exact ⟨rfl, rfl, rfl, Or.inl rfl⟩

/-! ### What an arrival does to the queue -/

omit [ByteOrder] in
/-- A foreign result does not belong to a native kernel. -/
theorem natives_eraseKernel (hk : k.isNative = false) (queue : List (Kernel P)) :
    natives (eraseKernel k queue) = natives queue := by
  cases hfind : findKernel k queue with
  | none => rw [eraseKernel_of_none hfind]
  | some q =>
    have hq : q.isNative = false := by
      have hresult := Kernel.isResultOf_iff.mp (findKernel_eq_some hfind).2
      rw [← hresult.2.2.2, hk]
    obtain ⟨before, after, hqueue, herase⟩ := eraseKernel_of_some hfind
    rw [herase, hqueue]
    simp [natives, hq]

/-- A foreign kernel on its way back leaves the native ones alone. -/
theorem receive_foreign (proc : Process P) (ppl : BasicSocketPipeline) (address : UInt64) {r : Received P}
    (hphase : r.kernel.phase = .downstream)
    (hforeign : r.kernel.isNative = false) (e : Endpoint P) :
    let e' := (receiver proc ppl address).receive r e
    e'.connection.flags = e.connection.flags ∧ e'.plugged = e.plugged ∧
      e'.connection.counter = e.connection.counter ∧
      natives e'.connection.upstream = natives e.connection.upstream := by
  obtain ⟨b, load, handedOff, hreceive⟩ := Receiver.receive_foreign proc ppl address hphase hforeign e
  rw [hreceive]
  exact ⟨rfl, rfl, rfl, natives_eraseKernel hforeign e.connection.upstream⟩

/-- The native kernel `k` that has arrived is taken for the result of the kernel `q` in the queue. It
gets the parent of that, as `k'`, and takes it out. -/
structure Plugs (ppl : BasicSocketPipeline) (e e' : Endpoint P) (k q k' : Kernel P) : Prop where
  /-- It belongs to the kernel in the queue. -/
  isResult : k.isResultOf q = true
  /-- The kernel in the queue is taken out, and no other. -/
  queue : ∃ before after, e.connection.upstream = before ++ q :: after ∧
    e'.connection.upstream = before ++ after
  /-- The parent is that of the kernel in the queue. -/
  parent : k'.parent = q.parent
  /-- So is the principal. -/
  principal : k'.principal = q.parent
  /-- Nothing but the parent and the principal changes. -/
  same : k'.id = k.id ∧ k'.oldId = k.oldId ∧ k'.toHeader = k.toHeader ∧ k'.result = k.result ∧
    k'.payload = k.payload
  /-- It goes on to its principal. -/
  handedOff : e'.handedOff = e.handedOff ++ ppl.sendNative k'
  /-- This is remembered. -/
  plugged : e'.plugged = e.plugged ++ [(q, k')]

omit [ByteOrder] in
theorem Plugs.isResult' {q k' : Kernel P} (h : Plugs ppl e e' k q k') : k'.isResultOf q = true := by
  obtain ⟨hid, holdId, hheader, -, hpayload⟩ := h.same
  have hk := h.isResult
  rw [Kernel.isResultOf, Kernel.isNative, Kernel.sourceApplicationId] at hk ⊢
  rw [hid, holdId, hheader, hpayload]
  exact hk

omit [ByteOrder] in
/-- The kernel that is taken out of the queue goes over to those that have come back. -/
theorem Plugs.perm {q k' : Kernel P} (h : Plugs ppl e e' k q k') (hk : k.isNative = true)
    (back : List (Kernel P)) :
    (natives e'.connection.upstream ++ (back ++ [q])).Perm (natives e.connection.upstream ++ back) := by
  have hq : q.isNative = true := by
    rw [← (Kernel.isResultOf_iff.mp h.isResult).2.2.2, hk]
  obtain ⟨before, after, hqueue, hqueue'⟩ := h.queue
  rw [hqueue, hqueue']
  simp only [natives, List.filter_append, List.filter_cons_of_pos hq, List.append_assoc]
  refine List.Perm.append_left _ ?_
  rw [← List.append_assoc]
  exact List.perm_append_singleton q _

/-- **What becomes of a native kernel on its way back**: it is dropped, it is taken for the result
of a kernel in the queue, or there is no such kernel and it is let through because it
carries its parent or is of type 1. -/
theorem receive_native (proc : Process P) (ppl : BasicSocketPipeline) (address : UInt64) {r : Received P}
    (hphase : r.kernel.phase = .downstream)
    (hnative : r.kernel.isNative = true) (e : Endpoint P) :
    let e' := (receiver proc ppl address).receive r e
    e'.connection.flags = e.connection.flags ∧ e'.connection.counter = e.connection.counter ∧
      ((∃ q k', Plugs ppl e e' r.kernel q k') ∨
        (e'.connection.upstream = e.connection.upstream ∧ e'.plugged = e.plugged ∧
          (e'.handedOff = e.handedOff ∨ r.kernel.carriesParent = true ∨ r.kernel.typeId = 1))) := by
  obtain ⟨memory, word, hplace⟩ := place_eq
    ({ e with connection.load := e.connection.load.sub r.kernel.weights } : Endpoint P) address r
  simp only [Receiver.receive, receiver, if_pos hphase, hnative, if_true, receiveKernel, hplace]
  cases hplug : plugParent
    ({ e with connection.load := e.connection.load.sub r.kernel.weights, memory } : Endpoint P)
    { r.kernel with parentWord := word } with
  | error x => exact ⟨rfl, rfl, Or.inr ⟨rfl, rfl, Or.inl rfl⟩⟩
  | ok result =>
    obtain ⟨e', k'⟩ := result
    rcases plugParent_ok hplug with ⟨q, hfind, hk', rfl⟩ | ⟨-, hlet, downstream, rfl⟩
    · refine ⟨rfl, rfl, Or.inl ⟨q, k', ?_⟩⟩
      subst hk'
      have hresult := (findKernel_eq_some hfind).2
      exact {
        isResult := hresult
        queue := eraseKernel_of_some hfind
        parent := Kernel.parent_plugged _ q
        principal := Kernel.principal_plugged _ q
        same := ⟨(Kernel.isResultOf_iff.mp hresult).1.symm, rfl, rfl, rfl, rfl⟩
        handedOff := rfl
        plugged := rfl }
    · exact ⟨rfl, rfl, Or.inr ⟨rfl, rfl, Or.inr hlet⟩⟩

end Endpoint

/-! ### Runs -/

namespace History

variable {P : Type} [ByteOrder] {proc : Process P} {ppl : BasicSocketPipeline} {h h' : History P}

/-- When an id was drawn. -/
def draw (k : Kernel P) : ℕ := (k.id - 1).toNat

/-- What holds in every state that a run reaches. -/
structure Inv (h : History P) : Prop where
  /-- The connection saves the kernels it sends. -/
  flag : h.connection.flags.saveUpstreamKernels = true
  /-- The counter says how many ids have been drawn. -/
  counter : h.connection.counter = 1 + UInt64.ofNat h.drawn
  /-- Until the counter has gone round, the ids were drawn one after another. -/
  draws : h.drawn < 2 ^ 64 →
    (h.sent.map draw).Pairwise (· < ·) ∧ ∀ k ∈ h.sent, draw k ≤ h.drawn
  /-- What was sent is in the queue or has come back. -/
  perm : (natives h.connection.upstream ++ h.plugged.map Prod.fst).Perm h.sent
  /-- What has come back has the parent of what was sent. -/
  returned : ∀ x ∈ h.plugged, x.2.isResultOf x.1 = true ∧ x.2.parent = x.1.parent ∧
    x.2.principal = x.1.parent

omit [ByteOrder] in
theorem Inv.nodup (hinv : h.Inv) (hdrawn : h.drawn < 2 ^ 64) : (h.sent.map Kernel.id).Nodup := by
  have hlt := (hinv.draws hdrawn).1
  have hne : (h.sent.map draw).Nodup := hlt.imp fun hab => Nat.ne_of_lt hab
  rw [show draw (P := P) = (fun n : UInt64 => (n - 1).toNat) ∘ Kernel.id from rfl, ← List.map_map] at hne
  exact hne.of_map _

theorem Inv.initial (h₀ : (system proc ppl).Initial h) : h.Inv := by
  obtain ⟨hflag, hupstream, hcounter, hplugged, hdrawn, hsent⟩ := h₀
  refine ⟨hflag, ?_, ?_, ?_, ?_⟩
  · rw [hcounter, hdrawn]
    rfl
  · intro _
    rw [hsent]
    exact ⟨List.Pairwise.nil, fun k hk => nomatch hk⟩
  · rw [hupstream, hplugged, hsent]
    exact List.Perm.nil
  · rw [hplugged]
    exact fun x hx => nomatch hx

omit [ByteOrder] in
/-- What comes after a kernel has been sent was drawn later. -/
theorem draws_send {sent : List (Kernel P)} {drawn n : ℕ} (hn : 0 < n) (k : Kernel P)
    (hdraws : drawn < 2 ^ 64 → (sent.map draw).Pairwise (· < ·) ∧ ∀ k ∈ sent, draw k ≤ drawn)
    (hid : k.id = 1 + UInt64.ofNat (drawn + n)) (hlt : drawn + n < 2 ^ 64) :
    ((sent ++ [k]).map draw).Pairwise (· < ·) ∧ ∀ k' ∈ sent ++ [k], draw k' ≤ drawn + n := by
  obtain ⟨hpairwise, hle⟩ := hdraws (by omega)
  have hdraw : draw k = drawn + n := by
    rw [draw, hid, UInt64.add_comm, UInt64.add_sub_cancel, UInt64.toNat_ofNat_of_lt' hlt]
  constructor
  · rw [List.map_append, List.pairwise_append]
    refine ⟨hpairwise, List.pairwise_singleton _ _, ?_⟩
    intro a ha b hb
    obtain ⟨k', hk', rfl⟩ := List.mem_map.mp ha
    rw [List.map_singleton, List.mem_singleton] at hb
    have := hle k' hk'
    omega
  · intro k' hk'
    rcases List.mem_append.mp hk' with hk' | hk'
    · have := hle k' hk'
      omega
    · rw [List.mem_singleton.mp hk', hdraw]

omit [ByteOrder] in
/-- The invariant does not depend on the rest of the connection. -/
theorem Inv.of_same (hinv : h.Inv) {e : Endpoint P} (hflags : e.connection.flags = h.connection.flags)
    (hcounter : e.connection.counter = h.connection.counter) (hplugged : e.plugged = h.plugged)
    (hnatives : natives e.connection.upstream = natives h.connection.upstream) :
    History.Inv { h with toEndpoint := e } := by
  refine ⟨hflags ▸ hinv.flag, hcounter ▸ hinv.counter, hinv.draws, ?_, hplugged ▸ hinv.returned⟩
  rw [hnatives, hplugged]
  exact hinv.perm

/-- What is sent is put in the queue under an id that no other kernel has. -/
theorem Inv.send (hinv : h.Inv) {k : Kernel P} (hk : k.Departs) {e : Endpoint P} {left : Option (Kernel P)}
    (hsend : h.toEndpoint.send proc ppl k = some (e, left)) :
    History.Inv
      { toEndpoint := e
        drawn := h.drawn + h.draws k.parent
        sent := h.sent ++ [{ k with id := e.connection.counter }] } := by
  obtain ⟨hflags, hplugged, hcounter, hupstream, -⟩ := Endpoint.send_eq hk hinv.flag hsend
  have hdrawn : e.connection.counter = 1 + UInt64.ofNat (h.drawn + h.draws k.parent) := by
    rw [hcounter, hinv.counter, UInt64.ofNat_add, UInt64.add_assoc]
  refine ⟨hflags ▸ hinv.flag, hdrawn, ?_, ?_, hplugged ▸ hinv.returned⟩
  · have hpos : 0 < h.draws k.parent := by
      rw [Endpoint.draws_eq]
      exact Nat.succ_pos _
    exact fun hlt => draws_send hpos _ hinv.draws hdrawn hlt
  · have hnatives : natives e.connection.upstream =
        natives h.connection.upstream ++ [{ k with id := e.connection.counter }] := by
      have hnative : Kernel.isNative { k with id := e.connection.counter } = true := hk.native
      rw [hupstream, natives, List.filter_append, List.filter_cons_of_pos hnative]
      rfl
    change (natives e.connection.upstream ++ e.plugged.map Prod.fst).Perm _
    rw [hnatives, hplugged, List.append_assoc]
    refine (List.perm_append_comm.append_left _).trans ?_
    rw [← List.append_assoc]
    exact hinv.perm.append_right _

/-- A foreign kernel does not join the native ones. -/
theorem Inv.forward (hinv : h.Inv) {k : Kernel P} (hforeign : k.isNative = false) :
    History.Inv { h with toEndpoint := (h.toEndpoint.doForward proc ppl k).1 } := by
  obtain ⟨hflags, hplugged, hcounter, hupstream⟩ := Endpoint.doForward_fields proc ppl h.toEndpoint k
  refine hinv.of_same hflags hcounter hplugged ?_
  rcases hupstream with hsame | hmore
  · rw [hsame]
  · rw [hmore, natives, List.filter_append]
    simp [natives, hforeign]

/-- What comes back takes one of the kernels out of the queue, or leaves all of them there. -/
theorem Inv.receive (hinv : h.Inv) (address : UInt64) {r : Received P} (hphase : r.kernel.phase = .downstream) :
    History.Inv { h with toEndpoint := (Endpoint.receiver proc ppl address).receive r h.toEndpoint } := by
  cases hnative : r.kernel.isNative with
  | false =>
    obtain ⟨hflags, hplugged, hcounter, hnatives⟩ :=
      h.toEndpoint.receive_foreign proc ppl address hphase hnative
    exact hinv.of_same hflags hcounter hplugged hnatives
  | true =>
    obtain ⟨hflags, hcounter, hcases⟩ := h.toEndpoint.receive_native proc ppl address hphase hnative
    rcases hcases with ⟨q, k', hplugs⟩ | ⟨hupstream, hplugged, -⟩
    · refine ⟨hflags ▸ hinv.flag, hcounter ▸ hinv.counter, hinv.draws, ?_, ?_⟩
      · rw [hplugs.plugged, List.map_append]
        exact (hplugs.perm hnative _).trans hinv.perm
      · rw [hplugs.plugged]
        intro x hx
        rcases List.mem_append.mp hx with hx | hx
        · exact hinv.returned x hx
        · rw [List.mem_singleton.mp hx]
          exact ⟨hplugs.isResult', hplugs.parent, hplugs.principal⟩
    · exact hinv.of_same hflags hcounter hplugged (congrArg natives hupstream)

/-- **Every step preserves the invariant.** -/
theorem Inv.step (hinv : h.Inv) (hs : (system proc ppl).Step h h') : h'.Inv := by
  cases hs with
  | send hk hsend => exact hinv.send hk hsend
  | forward hforeign => exact hinv.forward hforeign
  | receive address hphase => exact hinv.receive address hphase
  | other memory => exact hinv.of_same rfl rfl rfl rfl

/-- **A kernel that is sent comes back to its parent at most once**, whatever arrives and in whatever
order: until the counter has gone round, the native kernels in the queue have pairwise different
ids, and together with those that have come back to their parents they are the kernels that were
sent. A native kernel that neither is of type 1 nor carries its parent is accepted only
as the result of a kernel in the queue. -/
theorem plugged_once (hreach : (system proc ppl).Reachable h) (hdrawn : h.drawn < 2 ^ 64) :
    (natives h.connection.upstream).Pairwise (fun a b => a.id ≠ b.id) ∧
    (h.sent.map Kernel.id).Nodup ∧
    (natives h.connection.upstream ++ h.plugged.map Prod.fst).Perm h.sent ∧
    (∀ x ∈ h.plugged, x.2.isResultOf x.1 = true ∧ x.2.parent = x.1.parent ∧ x.2.principal = x.1.parent) ∧
    ∀ address r, r.kernel.phase = .downstream → r.kernel.isNative = true → r.kernel.typeId ≠ 1 →
      r.kernel.carriesParent = false →
      let e' := (Endpoint.receiver proc ppl address).receive r h.toEndpoint
      (e'.handedOff = h.handedOff ∧ e'.connection.upstream = h.connection.upstream) ∨
        ∃ q k', Endpoint.Plugs ppl h.toEndpoint e' r.kernel q k' := by
  have hinv : h.Inv := hreach.invariant (fun _ => Inv.initial) (fun _ _ => Inv.step)
  have hnodup := hinv.nodup hdrawn
  refine ⟨?_, hnodup, hinv.perm, hinv.returned, ?_⟩
  · have hall : ((natives h.connection.upstream ++ h.plugged.map Prod.fst).map Kernel.id).Nodup :=
      (hinv.perm.map Kernel.id).nodup_iff.mpr hnodup
    rw [List.map_append] at hall
    exact List.pairwise_map.mp hall.of_append_left
  · intro address r hphase hnative htype hcarries
    obtain ⟨-, -, hcases⟩ := h.toEndpoint.receive_native proc ppl address hphase hnative
    rcases hcases with hplugs | ⟨hupstream, -, hsame | hcarried | hmain⟩
    · exact Or.inr hplugs
    · exact Or.inl ⟨hsame, hupstream⟩
    · rw [hcarries] at hcarried
      cases hcarried
    · exact absurd hmain htype

end History

/-! ### The counter goes round -/

section Wrap

variable [ByteOrder]

/-- A connection that saves the kernels it sends, when it is made. -/
def History.start : History Unit where
  connection := { flags := { saveUpstreamKernels := true } }
  memory := Memory.blank

/-- A kernel with the given parent. -/
def Kernel.child (p : UInt64) : Kernel Unit := { Kernel.plain [] with parentWord := p }

theorem History.reachable_start : (History.system (Process.plain 0) {}).Reachable History.start :=
  System.Reachable.initial ⟨rfl, rfl, rfl, rfl, rfl, rfl⟩

omit [ByteOrder] in
theorem departs_child (p : UInt64) : (Kernel.child p).Departs :=
  ⟨rfl, Or.inl rfl, carriesParent_plain []⟩

omit [ByteOrder] in
theorem parent_child (p : UInt64) : (Kernel.child p).parent = p := by
  have hflag : (Kernel.plain []).isset .parentIsId = false := by decide
  change (if (Kernel.plain []).isset .parentIsId then 0 else p) = p
  rw [hflag, if_neg Bool.false_ne_true]

/-- The id that the kernel gets that is sent after `i` others, when no parent has an id. -/
def nthId (i : ℕ) : UInt64 := 1 + UInt64.ofNat (2 * (i + 1))

/-- So many kernels can be sent, each with a parent that has no id. -/
theorem exists_sends {n : ℕ} (hn : n < 2 ^ 64) : ∃ h : History Unit,
    (History.system (Process.plain 0) {}).Reachable h ∧ h.sent.length = n ∧
      h.connection.counter = 1 + UInt64.ofNat (2 * n) ∧
      (natives h.connection.upstream).map Kernel.id = (List.range n).map nthId ∧
      ∀ p, n < p.toNat → (h.memory p).hasId = false := by
  induction n with
  | zero => exact ⟨History.start, History.reachable_start, rfl, rfl, rfl, fun p _ => rfl⟩
  | succ n ih =>
    obtain ⟨h, hreach, hsent, hcounter, hids, hmemory⟩ := ih (by omega)
    have htoNat : (UInt64.ofNat (n + 1)).toNat = n + 1 := UInt64.toNat_ofNat_of_lt' hn
    have hnull : (Kernel.child (UInt64.ofNat (n + 1))).parent ≠ 0 := by
      intro hzero
      rw [parent_child] at hzero
      rw [hzero] at htoNat
      cases htoNat
    obtain ⟨e, left, hsend⟩ := h.toEndpoint.exists_send (Process.plain 0) {} hnull
    have hflag : h.connection.flags.saveUpstreamKernels = true :=
      (hreach.invariant (fun _ => History.Inv.initial) (fun _ _ => History.Inv.step)).flag
    obtain ⟨-, -, hcounter', hupstream, hmemory'⟩ := Endpoint.send_eq (departs_child _) hflag hsend
    have hdraws : h.draws (Kernel.child (UInt64.ofNat (n + 1))).parent = 2 := by
      rw [Endpoint.draws, parent_child, hmemory _ (by omega)]
      rfl
    have hid : e.connection.counter = nthId n := by
      rw [hcounter', hdraws, hcounter, UInt64.add_assoc, nthId, Nat.mul_add, UInt64.ofNat_add]
    refine ⟨_, hreach.step (History.Step.send (departs_child _) hsend), ?_, hid, ?_, ?_⟩
    · rw [List.length_append, hsent]
      rfl
    · rw [hupstream, natives, List.filter_append, List.map_append, ← natives, hids, List.range_succ,
        List.map_append, List.map_singleton, ← hid]
      rfl
    · intro p hp
      rw [hmemory' p ?_]
      · exact hmemory p (by omega)
      · rintro rfl
        rw [parent_child] at hp
        omega

/-- A native kernel on its way back that carries its parent. -/
def Received.carrier : Received Unit where
  kernel := { Kernel.carrier with phase := .downstream, typeId := 2 }
  carried := some (Kernel.plain [])

end Wrap

/-- One kernel is sent, and the state that this leads to is one that the theorem is about. -/
theorem plugged_once_child :
    letI := ByteOrder.littleEndian
    ∃ h : History Unit, h.sent.length = 1 ∧
      (natives h.connection.upstream).Pairwise (fun a b => a.id ≠ b.id) ∧
      (h.sent.map Kernel.id).Nodup ∧
      (natives h.connection.upstream ++ h.plugged.map Prod.fst).Perm h.sent ∧
      (∀ x ∈ h.plugged, x.2.isResultOf x.1 = true ∧ x.2.parent = x.1.parent ∧
        x.2.principal = x.1.parent) ∧
      ∀ address r, r.kernel.phase = .downstream → r.kernel.isNative = true → r.kernel.typeId ≠ 1 →
        r.kernel.carriesParent = false →
        let e' := (Endpoint.receiver (Process.plain 0) {} address).receive r h.toEndpoint
        (e'.handedOff = h.handedOff ∧ e'.connection.upstream = h.connection.upstream) ∨
          ∃ q k', Endpoint.Plugs {} h.toEndpoint e' r.kernel q k' := by
  let _ := ByteOrder.littleEndian
  obtain ⟨e, left, hsend⟩ := History.start.toEndpoint.exists_send (Process.plain 0) {}
    (k := Kernel.child 1) (by decide)
  have hstep := History.Step.send (departs_child 1) hsend
  have hdrawn : History.start.drawn + History.start.draws (Kernel.child 1).parent < 2 ^ 64 := by
    rw [parent_child]
    decide
  exact ⟨_, rfl, History.plugged_once (History.reachable_start.step hstep) hdrawn⟩

/-- **The ids in the queue repeat** before `2 ^ 64` kernels have been sent, because their parents
take ids from the same counter, and a kernel that carries its parent is accepted whether or
not anything was sent. -/
theorem queue_repeats :
    letI := ByteOrder.littleEndian
    (∃ h : History Unit, (History.system (Process.plain 0) {}).Reachable h ∧ h.sent.length < 2 ^ 64 ∧
      ¬ ((natives h.connection.upstream).map Kernel.id).Nodup) ∧
    ∃ h : History Unit, (History.system (Process.plain 0) {}).Reachable h ∧ h.connection.upstream = [] ∧
      Received.carrier.kernel.phase = .downstream ∧ Received.carrier.kernel.typeId ≠ 1 ∧
      ∃ k', ((Endpoint.receiver (Process.plain 0) {} 1).receive Received.carrier h.toEndpoint).handedOff =
        [.sendNative k'] := by
  let _ := ByteOrder.littleEndian
  constructor
  · obtain ⟨h, hreach, hsent, -, hids, -⟩ := exists_sends (n := 2 ^ 63 + 1) (by omega)
    refine ⟨h, hreach, by rw [hsent]; omega, ?_⟩
    intro hnodup
    rw [hids] at hnodup
    have hsame : nthId 0 = nthId (2 ^ 63) := by decide
    have hfirst : 0 ∈ List.range (2 ^ 63 + 1) := List.mem_range.mpr (by omega)
    have hlast : 2 ^ 63 ∈ List.range (2 ^ 63 + 1) := List.mem_range.mpr (by omega)
    have := List.inj_on_of_nodup_map hnodup hfirst hlast hsame
    omega
  · exact ⟨History.start, History.reachable_start, rfl, rfl, by decide, _, rfl⟩

end Subordination.Core
