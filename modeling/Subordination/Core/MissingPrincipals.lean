import Subordination.Core.Connection
import Subordination.Core.ForeignKernel

/-!
# Missing principals

A kernel that goes to a principal names it by its id, and `receive_kernel` looks the id up among
the instances. When it is not there the branch that sets the return code is left, and the
iterator, which is behind the last instance, is read all the same. The kernel is then returned to
its parent, which writes over the principal that was read.

## What is proved

* **`answers_iff`**: the kernel is dealt with as it should be exactly if its principal is among
  the instances. Otherwise the reply is the right one, whatever has been read.
* `receiveKernelOrReply_eq`: where no principal is missing, `receive_kernel` is what it is without
  the reply.
-/

namespace Subordination.Core

variable {P : Type}

/-! ### Returning a kernel -/

namespace Kernel

/-- `return_to_parent()`. -/
def returnToParentUndefined (k : Kernel P) : Kernel P :=
  k.returnToParent (if k.result = .undefined then .success else k.result)

/-- A kernel that is returned to its parent does not depend on its principal and its result. -/
theorem returnToParent_setPrincipal (k : Kernel P) (p : UInt64) (code ret : ExitCode) :
    (setPrincipal { k with result := code } p).returnToParent ret = k.returnToParent ret := by
  have hisset : (setPrincipal { k with result := code } p).isset .parentIsId = k.isset .parentIsId := by
    simp [setPrincipal, isset]
  unfold returnToParent
  rw [hisset]
  cases k.isset .parentIsId with
  | true => simp [setPrincipal, setPrincipalId]
  | false => simp [setPrincipal]

/-- The principal of a kernel that is returned is its parent. -/
theorem principalId_returnToParent (mem : Memory P) (k : Kernel P) (ret : ExitCode) :
    (k.returnToParent ret).principalId mem = k.parentId mem := by
  unfold returnToParent parentId principalId
  by_cases hparent : k.isset .parentIsId = true
  · rw [if_pos hparent, if_pos hparent]
    simp [setPrincipalId, isset]
  · have hflag : (k.setPrincipal k.parentWord).isset .principalIsId = false := by
      simp [setPrincipal, isset]
    rw [if_neg hparent, if_neg hparent]
    exact if_neg (ne_true_of_eq_false hflag)

end Kernel

/-! ### Receiving a kernel -/

/-- What is left when `receive_kernel` returns. -/
structure Reception (P : Type) where
  /-- The connection. -/
  endpoint : Endpoint P
  /-- The iterator behind the last instance has been read. -/
  strayed : Bool

namespace Endpoint

variable [ByteOrder] (proc : Process P) (ppl : BasicSocketPipeline) (address stray : UInt64) (r : Received P)

/-- `receive_kernel`, with the reply to a kernel whose principal is missing: `stray` is what is
read behind the last instance. -/
def receiveKernelOrReply (e : Endpoint P) : Option (Except Exception (Reception P)) :=
  let (e, k) := e.place address r
  if k.phase = .downstream then
    match e.plugParent k with
    | .error x => some (.error x)
    | .ok (e, k) => some (.ok ⟨e.handOff (ppl.sendNative k), false⟩)
  else if k.principalId e.memory = 0 then some (.ok ⟨e.handOff (ppl.sendNative k), false⟩)
  else
    match ppl.instances with
    | none => some (.ok ⟨e.handOff (ppl.sendNative k), false⟩)
    | some instances =>
      let result := instances (k.principalId e.memory)
      let ok := result.isSome
      let k := if ok then k else { k with result := .noPrincipalFound }
      let k := k.setPrincipal (result.getD stray)
      if ok then some (.ok ⟨e.handOff (ppl.sendNative k), result.isNone⟩)
      else (e.send proc ppl k.returnToParentUndefined).map fun sent => .ok ⟨sent.1, result.isNone⟩

/-- A native kernel on its way to a principal, received where there are instances. -/
structure NamesPrincipal (e : Endpoint P) (instances : UInt64 → Option UInt64) : Prop where
  /-- The kernel is native. -/
  native : r.kernel.isNative = true
  /-- It is not a result. -/
  phase : r.kernel.phase ≠ .downstream
  /-- The instances of the pipeline. -/
  registry : ppl.instances = some instances
  /-- It has a principal. -/
  principal : (e.place address r).2.principalId (e.place address r).1.memory ≠ 0

/-- The id of the principal. -/
def namedPrincipal (e : Endpoint P) : UInt64 := (e.place address r).2.principalId (e.place address r).1.memory

/-- The reply says that the principal was not found, and goes to the parent of the kernel, to where it came from. -/
structure IsReply (e : Endpoint P) (k reply : Kernel P) : Prop where
  /-- The exit code. -/
  result : reply.result = .noPrincipalFound
  /-- It is a result. -/
  phase : reply.phase = .downstream
  /-- It is for the parent. -/
  principal : reply.principalId e.memory = k.parentId e.memory
  /-- It goes back. -/
  destination : reply.destination = k.source
  /-- To the application that has sent the kernel. -/
  application : reply.targetApplication = k.sourceApplication

/-- The reply is sent over the connection. -/
def Replies (e e' : Endpoint P) (k : Kernel P) : Prop :=
  ∃ reply left, IsReply e k reply ∧ e.send proc ppl reply = some (e', left)

/-- The kernel is dealt with: it is given to its principal, or else there is a reply. The
iterator behind the last instance is not read. -/
def Answers (e : Endpoint P) (instances : UInt64 → Option UInt64) : Prop :=
  ∃ received, receiveKernelOrReply proc ppl address stray r e = some (.ok received) ∧ received.strayed = false ∧
    match instances (namedPrincipal address r e) with
    | some principal =>
      received.endpoint =
        (e.place address r).1.handOff [.sendNative ((e.place address r).2.setPrincipal principal)]
    | none => Replies proc ppl (e.place address r).1 received.endpoint (e.place address r).2

variable {proc ppl address stray r} {e : Endpoint P} {instances : UInt64 → Option UInt64} {p : UInt64}

omit [ByteOrder] in
theorem phase_place (e : Endpoint P) : (e.place address r).2.phase = r.kernel.phase := by
  obtain ⟨memory, word, hplace⟩ := e.place_eq address r
  rw [hplace]

omit [ByteOrder] in
/-- The kernel that is returned to its parent is the reply. -/
theorem isReply_returnToParent (e : Endpoint P) (k : Kernel P) : IsReply e k (k.returnToParent .noPrincipalFound) where
  result := k.result_returnToParent .noPrincipalFound
  phase := k.phase_returnToParent .noPrincipalFound
  principal := k.principalId_returnToParent e.memory .noPrincipalFound
  destination := by
    unfold Kernel.returnToParent
    split <;> rfl
  application := by
    unfold Kernel.returnToParent
    split <;> rfl

variable (proc stray)

/-- A result is sent without further ado. -/
theorem send_downstream (ppl : BasicSocketPipeline) (e : Endpoint P) {k : Kernel P} (hphase : k.phase = .downstream) :
    e.send proc ppl k = some ((e.writeKernel proc k).saveKernel proc ppl k) := by
  rw [send, prepare, if_neg (by rw [hphase]; decide)]

/-- What is left once the lookup is made. -/
theorem receiveKernelOrReply_of_names (h : NamesPrincipal ppl address r e instances) :
    receiveKernelOrReply proc ppl address stray r e =
      match instances (namedPrincipal address r e) with
      | some principal =>
        some (.ok ⟨(e.place address r).1.handOff
          (ppl.sendNative ((e.place address r).2.setPrincipal principal)), false⟩)
      | none =>
        ((e.place address r).1.send proc ppl ((e.place address r).2.returnToParent .noPrincipalFound)).map
          fun sent => .ok ⟨sent.1, true⟩ := by
  have hphase : (e.place address r).2.phase ≠ .downstream := by
    rw [phase_place]
    exact h.phase
  have hprincipal : ¬ (e.place address r).2.principalId (e.place address r).1.memory = 0 := h.principal
  rw [receiveKernelOrReply]
  simp only [if_neg hphase, if_neg hprincipal, h.registry]
  cases hp : instances (namedPrincipal address r e) with
  | some principal =>
    have hp' : instances ((e.place address r).2.principalId (e.place address r).1.memory) = some principal := hp
    simp [hp']
  | none =>
    have hp' : instances ((e.place address r).2.principalId (e.place address r).1.memory) = none := hp
    have hreply : (Kernel.setPrincipal { (e.place address r).2 with result := .noPrincipalFound }
        stray).returnToParentUndefined = (e.place address r).2.returnToParent .noPrincipalFound :=
      Kernel.returnToParent_setPrincipal _ _ _ _
    simp [hp', hreply]

/-- **Without the principal** the end of the instances is read, and the reply is sent. -/
theorem receiveKernelOrReply_of_missing (h : NamesPrincipal ppl address r e instances)
    (hmissing : instances (namedPrincipal address r e) = none) :
    ∃ e', receiveKernelOrReply proc ppl address stray r e = some (.ok ⟨e', true⟩) ∧
      Replies proc ppl (e.place address r).1 e' (e.place address r).2 := by
  rw [receiveKernelOrReply_of_names proc stray h, hmissing]
  have hreply := isReply_returnToParent (e.place address r).1 (e.place address r).2
  have hsend := send_downstream proc ppl (e.place address r).1 hreply.phase
  refine ⟨_, ?_, _, _, hreply, hsend⟩
  rw [hsend]
  rfl

/-- **A kernel is dealt with exactly if its principal is among the instances** (and there is a
native pipeline to give it to). Otherwise the reply is sent as it should be, after the iterator
behind the last instance has been read. -/
theorem answers_iff (h : NamesPrincipal ppl address r e instances) :
    (Answers proc ppl address stray r e instances ↔
      ppl.nativePipeline = true ∧ ∃ p, instances (namedPrincipal address r e) = some p) ∧
    (instances (namedPrincipal address r e) = none → ∃ received,
      receiveKernelOrReply proc ppl address stray r e = some (.ok received) ∧ received.strayed = true ∧
        Replies proc ppl (e.place address r).1 received.endpoint (e.place address r).2) := by
  cases hp : instances (namedPrincipal address r e) with
  | some principal =>
    refine ⟨?_, fun hnone => nomatch hnone⟩
    rw [Answers, receiveKernelOrReply_of_names proc stray h, hp]
    dsimp only
    constructor
    · rintro ⟨received, hreceived, -, hgiven⟩
      cases hreceived
      refine ⟨?_, principal, rfl⟩
      by_contra hpipeline
      rw [BasicSocketPipeline.sendNative, if_neg hpipeline] at hgiven
      have hlength := congrArg (fun e : Endpoint P => e.handedOff.length) hgiven
      simp [handOff] at hlength
    · rintro ⟨hpipeline, -⟩
      refine ⟨_, rfl, rfl, ?_⟩
      rw [BasicSocketPipeline.sendNative, if_pos hpipeline]
  | none =>
    obtain ⟨e', hreceive, hreplies⟩ := receiveKernelOrReply_of_missing proc stray h hp
    refine ⟨iff_of_false ?_ (fun hfound => nomatch hfound.2.choose_spec), fun _ => ⟨_, hreceive, rfl, hreplies⟩⟩
    rintro ⟨received, hreceived, hstrayed, -⟩
    rw [hreceive] at hreceived
    cases hreceived
    cases hstrayed

/-- Where no principal is missing, `receive_kernel` is what it is without the reply. -/
theorem receiveKernelOrReply_eq (h : ∀ instances, ppl.instances = some instances →
    namedPrincipal address r e ≠ 0 → instances (namedPrincipal address r e) ≠ none) :
    receiveKernelOrReply proc ppl address stray r e =
      match receiveKernel ppl address r e with
      | .ok _ e' => some (.ok ⟨e', false⟩)
      | .error x _ => some (.error x) := by
  rw [receiveKernelOrReply, receiveKernel]
  by_cases hphase : (e.place address r).2.phase = .downstream
  · simp only [if_pos hphase]
    cases (e.place address r).1.plugParent (e.place address r).2 with
    | error x => rfl
    | ok result => rfl
  · simp only [if_neg hphase]
    cases hregistry : ppl.instances with
    | none => simp
    | some instances =>
      by_cases hprincipal : (e.place address r).2.principalId (e.place address r).1.memory = 0
      · simp only [if_pos hprincipal]
      · simp only [if_neg hprincipal]
        obtain ⟨principal, hp⟩ := Option.ne_none_iff_exists'.1 (h instances hregistry hprincipal)
        have hp' : instances ((e.place address r).2.principalId (e.place address r).1.memory) = some principal := hp
        simp [hp']

end Endpoint

/-! ### A kernel for the principal 7 -/

/-- The kernel of another process, which names its parent and its principal by their ids. -/
def Kernel.forSeven : Kernel Unit :=
  { Kernel.plain [] with
    phase := .pointToPoint
    parentWord := 5
    principalWord := 7
    flags := (KernelFlags.setf 0 .parentIsId).setf .principalIsId }

/-- A connection that has just been made. -/
def Endpoint.blank : Endpoint Unit := ⟨{}, Memory.blank, [], {}, []⟩

/-- A pipeline with one instance at most. -/
def BasicSocketPipeline.withInstance (p : Option UInt64) : BasicSocketPipeline :=
  { instances := some fun n => if n = 7 then p else none }

namespace Endpoint

theorem namesPrincipal_forSeven (p : Option UInt64) :
    NamesPrincipal (.withInstance p) 0 ⟨Kernel.forSeven, none⟩ blank fun n => if n = 7 then p else none where
  native := rfl
  phase := by decide
  registry := rfl
  principal := by decide

/-- The principal is among the instances. -/
theorem answers_forSeven :
    letI := ByteOrder.littleEndian
    Answers (Process.plain 0) (.withInstance (some 4096)) 0 0 ⟨Kernel.forSeven, none⟩ blank
      fun n => if n = 7 then some 4096 else none :=
  let _ := ByteOrder.littleEndian
  (answers_iff (Process.plain 0) 0 (namesPrincipal_forSeven (some 4096))).1.2 ⟨rfl, 4096, by decide⟩

/-- There are no instances, and the end of them is read. -/
theorem answers_fails :
    letI := ByteOrder.littleEndian
    ¬ Answers (Process.plain 0) (.withInstance none) 0 0 ⟨Kernel.forSeven, none⟩ blank
      fun n => if n = 7 then none else none := by
  let _ := ByteOrder.littleEndian
  rintro ⟨received, hreceived, hstrayed, -⟩
  obtain ⟨e', hreceive, -⟩ :=
    receiveKernelOrReply_of_missing (Process.plain 0) 0 (namesPrincipal_forSeven none) (by decide)
  rw [hreceive] at hreceived
  cases hreceived
  cases hstrayed

end Endpoint

end Subordination.Core
