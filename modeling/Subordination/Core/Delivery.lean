import Subordination.Core.Connection

/-!
# Delivery

What comes out of one end of a connection when kernels have been written at the other end
(`connection::write_kernel`, `connection::receive_kernels`).

## The model

`Endpoint.writeAll` writes kernels one after another, whatever happens to the memory of the
process in between. The stream is what a `flush` makes of the output buffer, and arrives in
whatever pieces the network cuts it into, one for every call of `handle`.

## What is proved

* `given_receiveKernels` — the kernels are given to the receiver once each and in order, however
  the stream is cut and whatever the receiver does with them; only the frames that cannot be
  decoded are missing.
* `received_of_copy` — what the receiver is given is the kernel that was written.
* `huge_dropped` — a kernel that does not fit in a frame is not in the stream at all, though no
  exception is thrown.
-/

namespace Subordination.Core

open Library

section Delivery

variable {P : Type} [ByteOrder]

/-! ### Writing -/

namespace Endpoint

variable {writer : Process P}

/-- Write the kernels one after another. -/
def writeAll (e : Endpoint P) : List (Packet writer) → Endpoint P
  | [] => e
  | p :: packets => (({ e with memory := p.mem }).writeKernel writer p.k).writeAll packets

/-- `flush`: what the network gets. -/
def stream (e : Endpoint P) : List UInt8 := e.connection.outputBuffer.flip.flush.1

/-- The frames of the kernels, one after another. -/
def streamOf (packets : List (Packet writer)) : List UInt8 :=
  ((packets.map Packet.wire).map kernelFraming.frame).flatten

omit [ByteOrder] in
theorem stream_eq (e : Endpoint P) : e.stream = e.connection.outputBuffer.content :=
  e.connection.outputBuffer.window_flip

/-- A kernel that fits in a frame is written at the end of the output buffer. -/
theorem writeKernel_packet (p : Packet writer) {e : Endpoint P}
    (he : e.connection.outputBuffer.position ≤ e.connection.outputBuffer.data.length) :
    let e' := ({ e with memory := p.mem }).writeKernel writer p.k
    e'.connection.outputBuffer.position ≤ e'.connection.outputBuffer.data.length ∧
      e'.stream = e.stream ++ kernelFraming.frame p.wire := by
  intro e'
  have hframe : Writes (writeFrame (writer.write p.mem p.k)) (kernelFraming.frame p.wire) :=
    writes_frame p.writes Kernel.packet_ne_nil p.fits
  obtain ⟨b, hb, -, hvalid, hcontent⟩ := hframe e.connection.outputBuffer he
  have hbuffer : e'.connection.outputBuffer = b := by
    simp only [e', writeKernel, hb]
  constructor
  · rw [hbuffer]
    exact hvalid
  · rw [stream_eq, stream_eq, hbuffer]
    exact hcontent

/-- The stream is made of the frames of the kernels. -/
theorem stream_writeAll (packets : List (Packet writer)) {e : Endpoint P}
    (he : e.connection.outputBuffer.position ≤ e.connection.outputBuffer.data.length) :
    (e.writeAll packets).stream = e.stream ++ streamOf packets := by
  induction packets generalizing e with
  | nil => exact (List.append_nil _).symm
  | cons p packets ih =>
    obtain ⟨hvalid, hstream⟩ := writeKernel_packet p he
    rw [writeAll, ih hvalid, hstream, List.append_assoc]
    rfl

end Endpoint

/-! ### Reading -/

namespace Receiver

variable {σ : Type} (rcv : Receiver σ P) (reader : Process P) (address : SocketAddress)

/-- What a frame does to the receiver, and to what it has been given. -/
def frameStep (s : Receiving σ P) (body : List UInt8) : Receiving σ P :=
  match reader.read body with
  | .error _ _ => s
  | .ok r _ =>
    { state := rcv.receive (comesFrom address r) s.state, given := s.given ++ [comesFrom address r] }

/-- No exception leaves a frame. -/
theorem receiveFrame_eq (body : List UInt8) (s : Receiving σ P) :
    rcv.receiveFrame reader address body s = .ok () (rcv.frameStep reader address s body) := by
  rw [receiveFrame, frameStep]
  cases reader.read body with
  | error x w => rfl
  | ok r w => rfl

theorem forM_receiveFrame (bodies : List (List UInt8)) (s : Receiving σ P) :
    bodies.forM (rcv.receiveFrame reader address) s =
      .ok () (bodies.foldl (rcv.frameStep reader address) s) := by
  induction bodies generalizing s with
  | nil => rfl
  | cons body bodies ih =>
    change EStateM.bind (rcv.receiveFrame reader address body)
      (fun _ => bodies.forM (rcv.receiveFrame reader address)) s = _
    rw [EStateM.bind, receiveFrame_eq]
    exact ih _

/-- What is given does not depend on what the receiver does with it. -/
theorem given_foldl {writer : Process P} (packets : List (Packet writer)) (s : Receiving σ P) :
    ((packets.map Packet.wire).foldl (rcv.frameStep reader address) s).given =
      s.given ++ packets.filterMap fun p => (p.received reader).map (comesFrom address) := by
  induction packets generalizing s with
  | nil => exact (List.append_nil _).symm
  | cons p packets ih =>
    rw [List.map_cons, List.foldl_cons, ih, frameStep, List.filterMap_cons, Packet.received]
    cases reader.read p.wire with
    | error x w => rfl
    | ok r w => exact List.append_assoc _ _ _

end Receiver

/-! ### Copies -/

namespace Packet

variable {writer : Process P}

/-- The reader `reader` can make a copy of the kernel of the packet, and this is the copy: a
kernel for another application stays foreign, the target knows the type of the kernel, and of
the parent it carries. -/
inductive Copy (reader : Process P) (p : Packet writer) : Received P → Prop
  /-- The reader is not the target. -/
  | foreign : p.k.targetApplicationId ≠ reader.thisApplication →
      Copy reader p { kernel := p.k.asForeign p.mem p.typeId p.bytes }
  /-- The reader is the target. -/
  | native {types : KernelTypeRegistry} {type : KernelType} {state : P} :
      p.k.targetApplicationId = reader.thisApplication → reader.types = some types →
      type ∈ types.types → p.k.payload = .native type.index state → p.typeId = type.id →
      Reads (reader.classes type.index).read p.bytes state → p.k.carriesParent = false →
      Copy reader p { kernel := p.k.asNative reader p.mem type state }
  /-- The reader is the target, and the kernel carries its parent. -/
  | carrier {types : KernelTypeRegistry} {type type' : KernelType} {state state' : P}
      {bs bs' : List UInt8} :
      p.k.targetApplicationId = reader.thisApplication → reader.types = some types →
      type ∈ types.types → p.k.payload = .native type.index state → p.typeId = type.id →
      Reads (reader.classes type.index).read bs state → p.k.carriesParent = true →
      p.bytes = bs ++ (u16Bytes type'.id ++ ((p.mem p.k.parent).bytes p.mem ++ bs')) →
      type' ∈ types.types → (p.mem p.k.parent).payload = .native type'.index state' →
      Reads (reader.classes type'.index).read bs' state' → (p.mem p.k.parent).Encodable →
      (p.mem p.k.parent).nodeFilter = none →
      Copy reader p (Process.asCarrier reader p.mem p.k type type' state state')

/-- **The copy is what is read.** -/
theorem received_of_copy {reader : Process P} {p : Packet writer} {r : Received P}
    (h : p.Copy reader r) (hf : ∀ x, p.k.nodeFilter = some x → x.Survives) :
    p.received reader = some r := by
  cases h with
  | foreign htarget => exact received_foreign hf htarget
  | native htarget htypes htype _ hid hread hcarries =>
    exact received_native hf htarget htypes htype hid hread hcarries
  | @carrier types type type' state state' bs bs' htarget htypes htype _ hid hread hcarries hbytes htype' _
      hread' hparent hfilter =>
    have hall : ReadsAll reader.read
        (p.k.packet p.mem type.id
          (bs ++ (u16Bytes type'.id ++ ((p.mem p.k.parent).bytes p.mem ++ bs'))))
        (Process.asCarrier reader p.mem p.k type type' state state') :=
      Process.read_native_carried (p.encodable hf) htarget htypes htype hread hcarries hparent hfilter
        htype' hread'
    rw [← hid, ← hbytes] at hall
    exact received_of_readsAll hall

end Packet

/-! ### Delivery -/

/-- **What is written at one end is received at the other end**: once each, in order, however
the stream is cut, and whatever the receiver does with it. What cannot be decoded is skipped,
and what can be decoded is a copy of what was written. -/
theorem given_receiveKernels {σ : Type} {writer : Process P} (e : Endpoint P)
    (packets : List (Packet writer)) (reader : Process P) (address : SocketAddress)
    (rcv : Receiver σ P) (s : σ) :
    ∃ stream, (({ e with connection.outputBuffer := .empty }).writeAll packets).stream = stream ∧
      (∀ chunks, chunks.flatten = stream → ∃ b s',
        rcv.receiveKernels reader address .empty chunks { state := s } = some (.ok b s') ∧
          b.content = [] ∧
          s'.given = packets.filterMap fun p => (p.received reader).map (Receiver.comesFrom address)) ∧
      ∀ p ∈ packets, (∀ x, p.k.nodeFilter = some x → x.Survives) → ∀ r, p.Copy reader r →
        p.received reader = some r := by
  refine ⟨Endpoint.streamOf packets, ?_, ?_, ?_⟩
  · rw [Endpoint.stream_writeAll packets le_rfl]
    rfl
  · intro chunks hchunks
    have hfits : ∀ body ∈ packets.map Packet.wire, kernelFraming.Fits body := by
      intro body hbody
      obtain ⟨p, -, rfl⟩ := List.mem_map.mp hbody
      exact p.fits
    have hloop := rcv.forM_receiveFrame reader address (packets.map Packet.wire) { state := s }
    obtain ⟨b, hb, hnil⟩ := receiveChunks_eq (b := ByteBuffer.empty) le_rfl kernelFraming.partial_nil hfits
      hchunks hloop
    refine ⟨b, _, hb, hnil, ?_⟩
    rw [rcv.given_foldl reader address packets]
    rfl
  · intro p _ hf r hr
    exact Packet.received_of_copy hr hf

end Delivery

/-- **A kernel that does not fit in a frame is not delivered**: it is written without an
exception, and what is written of it is nothing. -/
theorem huge_dropped :
    letI := ByteOrder.littleEndian
    ∃ b b', writeFrame ((Process.plain 0).write Memory.blank (Kernel.plain hugePath)) .empty = .ok () b ∧
      b.flip.flush.1 = [] ∧
      ∀ rcv : Receiver Unit Unit,
        rcv.receiveKernels (Process.plain 0) .unset .empty [b.flip.flush.1] { state := () } =
          some (.ok b' { state := (), given := [] }) := by
  let _ := ByteOrder.littleEndian
  have hwraps : (4 + ((Kernel.plain hugePath).packet Memory.blank 2 []).length) % 2 ^ 32 ≤ 4 := by
    rw [length_packet_plain, hugePath, List.length_replicate]
    decide
  obtain ⟨b, hb, -, -, hcontent⟩ :=
    writes_frame_wrapped (writes_plain hugePath Memory.blank) hwraps ByteBuffer.empty le_rfl
  have hnil : b.flip.flush.1 = [] := b.window_flip.trans hcontent
  refine ⟨b, ByteBuffer.empty, hb, hnil, ?_⟩
  intro rcv
  rw [hnil]
  rfl

end Subordination.Core
