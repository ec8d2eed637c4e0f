import Subordination.Core.Rewriting
import Subordination.Core.Connection
import Subordination.Core.WeightSums
import Subordination.Library.System

/-!
# The load of a connection

`connection::load` is raised by the kernels that are sent and lowered by those that come back
(`core/connection.cc`, `core/weights.hh`).

## The model

A `Traffic` is an endpoint with the kernels that have been sent upstream or point-to-point and have
not returned. A kernel has been sent when it is written without an exception. Kernels of any phase are
sent; a kernel that arrives downstream answers one of those that have not returned, with the same
weight; any other kernels arrive too. What else the process does leaves the load alone.

A stray step is an answer to a point-to-point kernel that takes something from the load. A run counts
its stray steps.

## What is proved

* `Traffic.load_tracks` — in a run without stray steps the load is the sum of the weights of the
  kernels that have been sent upstream and have not returned.
* `Traffic.answer_iff` — the first stray step ends that.
* `Traffic.load_lost` — a run with one.
-/

namespace Subordination.Core

open Library

/-! ### Runs -/

/-- An endpoint in the middle of a run. -/
structure Traffic (P : Type) extends Endpoint P where
  /-- The kernels that have been sent upstream or point-to-point and have not returned, oldest first. -/
  outstanding : List (Kernel P) := []
  /-- The number of stray steps that have been taken. -/
  strays : ℕ := 0

/-- The weights of the kernels that have been sent upstream. -/
def upstreamWeights {P : Type} (ks : List (Kernel P)) : List WeightArray :=
  (ks.filter fun k => k.phase = .upstream).map Kernel.weights

section Steps

variable {P : Type} [ByteOrder]

/-- `write_kernel` writes the kernel without an exception. -/
def Endpoint.writes (proc : Process P) (e : Endpoint P) (k : Kernel P) : Bool :=
  match writeFrame (proc.write e.memory k) e.connection.outputBuffer with
  | .error _ _ => false
  | .ok _ _ => true

/-- The kernel, if it is sent and is going to return. -/
def Endpoint.departing (proc : Process P) (e : Endpoint P) (k : Kernel P) : List (Kernel P) :=
  if (k.phase = .upstream ∨ k.phase = .pointToPoint) ∧ e.writes proc k then [k] else []

omit [ByteOrder] in
/-- The step in which the kernel `k` returns is stray: it has not been counted when it was sent, and
something is taken from the load. -/
def Traffic.isStray (t : Traffic P) (k : Kernel P) : Bool :=
  k.phase ≠ .upstream ∧ ¬ t.connection.load.untouched k.weights

variable (proc : Process P) (ppl : BasicSocketPipeline)

/-- What may happen next. The sum of the weights never gets too great. -/
inductive Traffic.Step : Traffic P → Traffic P → Prop
  /-- A kernel is sent. -/
  | send {t : Traffic P} {k k' : Kernel P} {e e' : Endpoint P} {left : Option (Kernel P)} :
      t.prepare k = some (e, k') → t.send proc ppl k = some (e', left) →
      WeightArray.Fits (upstreamWeights (t.outstanding ++ e.departing proc k')) →
      Step t { t with toEndpoint := e', outstanding := t.outstanding ++ e.departing proc k' }
  /-- A kernel is forwarded. -/
  | forward {t : Traffic P} {k : Kernel P} :
      WeightArray.Fits (upstreamWeights (t.outstanding ++ t.departing proc k)) →
      Step t
        { t with
          toEndpoint := (t.doForward proc ppl k).1
          outstanding := t.outstanding ++ t.departing proc k }
  /-- A kernel arrives that answers one that has been sent. -/
  | answer {t : Traffic P} (address : UInt64) {r : Received P} {before after : List (Kernel P)}
      {k : Kernel P} :
      r.kernel.phase = .downstream → t.outstanding = before ++ k :: after → r.kernel.weight = k.weight →
      Step t
        { toEndpoint := (Endpoint.receiver proc ppl address).receive r t.toEndpoint
          outstanding := before ++ after
          strays := t.strays + if t.isStray k then 1 else 0 }
  /-- A kernel arrives in another phase. -/
  | receive {t : Traffic P} (address : UInt64) {r : Received P} :
      r.kernel.phase ≠ .downstream →
      Step t { t with toEndpoint := (Endpoint.receiver proc ppl address).receive r t.toEndpoint }
  /-- The rest of the process goes on. -/
  | other {t : Traffic P} (e : Endpoint P) :
      e.connection.load = t.connection.load → Step t { t with toEndpoint := e }

/-- The runs of a connection, from when it is made. -/
def Traffic.system : System (Traffic P) where
  Initial t := t.connection.load = {} ∧ t.outstanding = [] ∧ t.strays = 0
  Step := Traffic.Step proc ppl

end Steps

/-! ### What a step does to the load -/

section Load

variable {P : Type} [ByteOrder] {proc : Process P} {ppl : BasicSocketPipeline}

namespace Endpoint

variable {e e' : Endpoint P} {k : Kernel P}

/-- A kernel raises the load if it goes upstream and is written. -/
theorem load_writeKernel (e : Endpoint P) (k : Kernel P) : (e.writeKernel proc k).connection.load =
    if k.phase = .upstream ∧ e.writes proc k then e.connection.load.add k.weights else e.connection.load := by
  unfold writeKernel writes
  cases writeFrame (proc.write e.memory k) e.connection.outputBuffer with
  | error x b => simp
  | ok u b => simp

/-- What is saved and recorded leaves the load as it is. -/
theorem load_saveKernel (e : Endpoint P) (k : Kernel P) :
    (e.saveKernel proc ppl k).1.connection.load = e.connection.load := by
  obtain ⟨log, k', -, hsave⟩ := saveKernel_eq proc ppl e k
  rw [hsave]
  rcases k' with _ | k' <;> rcases (e.plan k).1 with _ | (_ | _) <;> rfl

theorem load_doForward (e : Endpoint P) (k : Kernel P) : (e.doForward proc ppl k).1.connection.load =
    if k.phase = .upstream ∧ e.writes proc k then e.connection.load.add k.weights else e.connection.load := by
  unfold doForward
  rw [load_saveKernel, load_writeKernel]

omit [ByteOrder] in
/-- The ids are drawn without a change to the load. -/
theorem load_prepare {k' : Kernel P} (h : e.prepare k = some (e', k')) :
    e'.connection.load = e.connection.load := by
  unfold prepare at h
  split at h
  · split at h
    · cases h
    · cases h
      change (e.ensureHasId k.parent).connection.load = _
      unfold ensureHasId
      split <;> rfl
  · cases h
    rfl

/-- A kernel that is sent is forwarded, once it has its id. -/
theorem send_prepared {k' : Kernel P} {sent : Endpoint P} {left : Option (Kernel P)}
    (hprepare : e.prepare k = some (e', k')) (h : e.send proc ppl k = some (sent, left)) :
    sent = (e'.doForward proc ppl k').1 := by
  unfold send at h
  rw [hprepare] at h
  exact congrArg Prod.fst (Option.some.inj h).symm

omit [ByteOrder] in
/-- Plugging the parent in leaves the load as it is. -/
theorem load_plugParent {k' : Kernel P} (h : e.plugParent k = .ok (e', k')) :
    e'.connection.load = e.connection.load := by
  rcases plugParent_ok h with ⟨q, -, -, rfl⟩ | ⟨-, -, downstream, rfl⟩
  · rfl
  · rfl

omit [ByteOrder] in
/-- Receiving a native kernel leaves the load as it is, and so does an exception. -/
theorem load_receiveKernel (ppl : BasicSocketPipeline) (address : UInt64) (r : Received P) (e : Endpoint P) :
    match receiveKernel ppl address r e with
    | .ok _ e' => e'.connection.load = e.connection.load
    | .error _ e' => e'.connection.load = e.connection.load := by
  obtain ⟨memory, word, hplace⟩ := e.place_eq address r
  unfold receiveKernel
  simp only [hplace]
  by_cases hphase : r.kernel.phase = .downstream
  · simp only [if_pos hphase]
    cases hplug : plugParent ({ e with memory } : Endpoint P) { r.kernel with parentWord := word } with
    | error x => rfl
    | ok result =>
      have hload : result.1.connection.load = ({ e with memory } : Endpoint P).connection.load :=
        load_plugParent hplug
      exact hload
  · simp only [if_neg hphase]
    cases ppl.instances with
    | none => rfl
    | some instances =>
      by_cases hprincipal : Kernel.principalId memory { r.kernel with parentWord := word } = 0
      · simp only [if_pos hprincipal]
        rfl
      · simp only [if_neg hprincipal]
        cases instances (Kernel.principalId memory { r.kernel with parentWord := word }) with
        | none => rfl
        | some principal => rfl

/-- So does receiving a foreign kernel: one that is sent back at once goes downstream. -/
theorem load_receiveForeignKernel (proc : Process P) (ppl : BasicSocketPipeline) (r : Received P)
    (e : Endpoint P) :
    match receiveForeignKernel proc ppl r e with
    | .ok _ e' => e'.connection.load = e.connection.load
    | .error _ e' => e'.connection.load = e.connection.load := by
  unfold receiveForeignKernel
  by_cases hback : r.kernel.phase = .downstream ∧ (!r.kernel.destination.isSet) = true
  · have hphase : ¬ (r.kernel.phase = .upstream ∧ Endpoint.writes proc
        { e with connection.upstream := eraseKernel r.kernel e.connection.upstream } r.kernel = true) := by
      rw [hback.1]
      exact fun h => nomatch h.1
    simp only [if_pos hback, if_pos hback.1]
    rw [load_writeKernel, if_neg hphase]
  · simp only [if_neg hback]
    by_cases hphase : r.kernel.phase = .downstream
    · simp only [if_pos hphase]
      rfl
    · simp only [if_neg hphase]
      rfl

variable (proc ppl) in
/-- **What a kernel that arrives does to the load.** -/
theorem load_receive (e : Endpoint P) (address : UInt64) (r : Received P) :
    ((receiver proc ppl address).receive r e).connection.load =
      if r.kernel.phase = .downstream then e.connection.load.sub r.kernel.weights else e.connection.load := by
  have hunload : ∀ e' : Endpoint P, e' =
      (if r.kernel.phase = .downstream then
        { e with connection.load := e.connection.load.sub r.kernel.weights }
      else e) → e'.connection.load =
        if r.kernel.phase = .downstream then e.connection.load.sub r.kernel.weights else e.connection.load := by
    rintro e' rfl
    split <;> rfl
  unfold Receiver.receive receiver
  dsimp only
  generalize hstart : (if r.kernel.phase = .downstream then
    ({ e with connection.load := e.connection.load.sub r.kernel.weights } : Endpoint P) else e) = start
  rw [← hunload start hstart.symm]
  by_cases hnative : r.kernel.isNative = true
  · have hload := load_receiveKernel ppl address r start
    rw [if_pos hnative]
    revert hload
    cases receiveKernel ppl address r start with
    | ok u e' => exact id
    | error x e' => exact id
  · have hload := load_receiveForeignKernel proc ppl r start
    rw [if_neg hnative]
    revert hload
    cases receiveForeignKernel proc ppl r start with
    | ok u e' => exact id
    | error x e' => exact id

end Endpoint

end Load

/-! ### The load in a run -/

namespace Traffic

variable {P : Type}

theorem upstreamWeights_append (xs ys : List (Kernel P)) :
    upstreamWeights (xs ++ ys) = upstreamWeights xs ++ upstreamWeights ys := by
  unfold upstreamWeights
  rw [List.filter_append, List.map_append]

/-- A kernel that has gone upstream is counted. -/
theorem upstreamWeights_upstream {k : Kernel P} (hk : k.phase = .upstream) (before after : List (Kernel P)) :
    upstreamWeights (before ++ k :: after) = upstreamWeights before ++ k.weights :: upstreamWeights after := by
  rw [upstreamWeights_append]
  simp [upstreamWeights, hk]

/-- Any other kernel is not. -/
theorem upstreamWeights_other {k : Kernel P} (hk : k.phase ≠ .upstream) (before after : List (Kernel P)) :
    upstreamWeights (before ++ k :: after) = upstreamWeights (before ++ after) := by
  rw [upstreamWeights_append, upstreamWeights_append]
  simp [upstreamWeights, hk]

/-- The load is the sum of the weights of the kernels that have been sent upstream and have not
returned. -/
def Balanced (t : Traffic P) : Prop := t.connection.load.Tracks (upstreamWeights t.outstanding)

variable [ByteOrder] {proc : Process P} {ppl : BasicSocketPipeline} {t t' : Traffic P}

/-- A kernel that is sent raises the load by what it adds to the sum. -/
theorem Balanced.depart {e : Endpoint P} {k : Kernel P} (h : e.connection.load.Tracks (upstreamWeights t.outstanding))
    (hfits : WeightArray.Fits (upstreamWeights (t.outstanding ++ e.departing proc k))) :
    (e.doForward proc ppl k).1.connection.load.Tracks (upstreamWeights (t.outstanding ++ e.departing proc k)) := by
  rw [Endpoint.load_doForward]
  rw [upstreamWeights_append] at hfits ⊢
  by_cases hsent : k.phase = .upstream ∧ e.writes proc k
  · have hdeparting : upstreamWeights (e.departing proc k) = [k.weights] := by
      unfold Endpoint.departing
      rw [if_pos ⟨Or.inl hsent.1, hsent.2⟩]
      exact upstreamWeights_upstream hsent.1 [] []
    rw [hdeparting] at hfits ⊢
    rw [if_pos hsent]
    exact h.add hfits
  · have hdeparting : upstreamWeights (e.departing proc k) = [] := by
      unfold Endpoint.departing
      split
      · rename_i hdeparts
        exact upstreamWeights_other (fun hup => hsent ⟨hup, hdeparts.2⟩) [] []
      · rfl
    rw [hdeparting, List.append_nil, if_neg hsent]
    exact h

/-- **The first stray step ends the balance**, and no other step does. -/
theorem answer_iff (h : t.Balanced) {address : UInt64} {r : Received P} {before after : List (Kernel P)}
    {k : Kernel P} (hphase : r.kernel.phase = .downstream) (hout : t.outstanding = before ++ k :: after)
    (hweight : r.kernel.weight = k.weight) :
    ((Endpoint.receiver proc ppl address).receive r t.toEndpoint).connection.load.Tracks
      (upstreamWeights (before ++ after)) ↔ t.isStray k = false := by
  have hweights : r.kernel.weights = k.weights := by
    unfold Kernel.weights
    rw [hweight]
  unfold Balanced at h
  rw [Endpoint.load_receive, if_pos hphase, hweights]
  rw [hout] at h
  unfold isStray
  by_cases hup : k.phase = .upstream
  · rw [upstreamWeights_upstream hup] at h
    rw [upstreamWeights_append]
    simpa [hup] using h.sub
  · rw [upstreamWeights_other hup] at h
    simpa [hup] using h.sub_iff

/-- A step that is not stray keeps the balance. -/
theorem Step.balanced (hstep : Step proc ppl t t') (h : t.strays = 0 → t.Balanced) :
    t'.strays = 0 → t'.Balanced := by
  intro hstrays
  cases hstep with
  | send hprepare hsend hfits =>
    unfold Balanced
    rw [Endpoint.send_prepared hprepare hsend]
    have hbalanced := h hstrays
    unfold Balanced at hbalanced
    rw [← Endpoint.load_prepare hprepare] at hbalanced
    exact Balanced.depart hbalanced hfits
  | forward hfits => exact Balanced.depart (h hstrays) hfits
  | @answer address r before after k hphase hout hweight =>
    have hzero : t.strays = 0 := Nat.eq_zero_of_add_eq_zero_right hstrays
    have hstray : t.isStray k = false := by
      by_contra hstray
      rw [Bool.not_eq_false] at hstray
      simp [hstray] at hstrays
    exact (answer_iff (h hzero) hphase hout hweight).mpr hstray
  | receive address hphase =>
    unfold Balanced
    rw [Endpoint.load_receive, if_neg hphase]
    exact h hstrays
  | other e hload =>
    unfold Balanced
    rw [hload]
    exact h hstrays

/-- **The load is the sum of the weights of the upstream kernels that have not returned**, in every
run without stray steps. -/
theorem load_tracks (h : (system proc ppl).Reachable t) :
    t.strays = 0 → t.connection.load.Tracks (upstreamWeights t.outstanding) := by
  refine h.invariant (p := fun t => t.strays = 0 → t.Balanced) ?_ fun s s' hs hstep => hstep.balanced hs
  rintro s ⟨hload, hout, -⟩ -
  unfold Balanced
  rw [hload, hout]
  exact WeightArray.tracks_nil

/-! ### A stray step -/

/-- A connection when it is made. -/
def start : Traffic Unit where
  connection := {}
  memory := Memory.blank

/-- The kernel is forwarded. -/
def forwarded (t : Traffic Unit) (k : Kernel Unit) : Traffic Unit :=
  { t with
    toEndpoint := (t.doForward (Process.plain 0) {} k).1
    outstanding := t.outstanding ++ t.departing (Process.plain 0) k }

theorem reachable_start : (system (Process.plain 0) {}).Reachable start := .initial ⟨rfl, rfl, rfl⟩

theorem reachable_forwarded {t : Traffic Unit} (h : (system (Process.plain 0) {}).Reachable t) {k : Kernel Unit}
    (hfits : WeightArray.Fits (upstreamWeights (t.forwarded k).outstanding)) :
    (system (Process.plain 0) {}).Reachable (t.forwarded k) :=
  h.step (.forward hfits)

end Traffic

/-- The answer to the first of two kernels. -/
def Traffic.firstAnswered [ByteOrder] (t : Traffic Unit) (k : Kernel Unit) (after : List (Kernel Unit)) :
    Traffic Unit where
  toEndpoint := (Endpoint.receiver (Process.plain 0) {} 1).receive { kernel := k.returnToParent .success } t.toEndpoint
  outstanding := after
  strays := t.strays + if t.isStray k then 1 else 0

/-- Two kernels are sent upstream, and one of them is answered: the load is that of the other one. -/
theorem Traffic.load_tracks_upstream :
    letI := ByteOrder.littleEndian
    let t := (Traffic.start.forwarded (Kernel.stranger 5 [])).forwarded (Kernel.stranger 6 [])
    let t' := t.firstAnswered (Kernel.stranger 5 []) [Kernel.stranger 6 []]
    t.connection.load = ⟨⟨0⟩, ⟨2⟩⟩ ∧ t'.connection.load = ⟨⟨0⟩, ⟨1⟩⟩ ∧
      t'.connection.load.Tracks (upstreamWeights t'.outstanding) := by
  let _ := ByteOrder.littleEndian
  intro t t'
  have hreachable : (system (Process.plain 0) {}).Reachable t := by
    refine reachable_forwarded (reachable_forwarded reachable_start ?_) ?_
    · decide +kernel
    · decide +kernel
  have hout : t.outstanding = [] ++ Kernel.stranger 5 [] :: [Kernel.stranger 6 []] := by decide +kernel
  have hanswer : (system (Process.plain 0) {}).Reachable t' :=
    hreachable.step (.answer (t := t) 1 (r := { kernel := (Kernel.stranger 5 []).returnToParent .success }) rfl hout
      (by decide))
  exact ⟨by decide +kernel, by decide +kernel, load_tracks hanswer (by decide +kernel)⟩

/-- **The load of a kernel is taken for that of another**: a kernel that has been sent upstream has not
returned, and the load is zero, because a point-to-point kernel has been answered. -/
theorem Traffic.load_lost :
    letI := ByteOrder.littleEndian
    ¬ ∀ t : Traffic Unit, (Traffic.system (Process.plain 0) {}).Reachable t →
      t.connection.load.Tracks (upstreamWeights t.outstanding) := by
  let _ := ByteOrder.littleEndian
  intro hall
  let pointToPoint : Kernel Unit := { Kernel.stranger 6 [] with phase := .pointToPoint }
  let t := (Traffic.start.forwarded (Kernel.stranger 5 [])).forwarded pointToPoint
  have hreachable : (system (Process.plain 0) {}).Reachable t := by
    refine reachable_forwarded (reachable_forwarded reachable_start ?_) ?_
    · decide +kernel
    · decide +kernel
  have hout : t.outstanding = [Kernel.stranger 5 []] ++ pointToPoint :: [] := by decide +kernel
  let r : Received Unit := { kernel := pointToPoint.returnToParent .success }
  have hweight : r.kernel.weight = pointToPoint.weight := by decide
  have hstep : Step (Process.plain 0) {} t _ := .answer 1 (r := r) rfl hout hweight
  have hlost := hall _ (hreachable.step hstep)
  revert hlost
  decide +kernel

end Subordination.Core
