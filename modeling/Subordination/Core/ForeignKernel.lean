import Subordination.Core.KernelBuffer

/-!
# Kernels on their way

A kernel that leaves its application, passes through daemons that hold it as a
`foreign_kernel`, and arrives in its target application.

## The model

`Process.encode` writes one frame into an empty buffer, and `Process.decode` reads the
frame at the front of a stream, with what it leaves unread of the frame and what
comes after it. `Relay` is the way through a list of daemons, each with memory of its
own.

## What is proved

* `arrives` — a native kernel that does not carry its parent arrives as it was sent,
  through any number of daemons, if its frame is shorter than what fits in a frame
  header.
* `huge_lost` — a longer one need not: `kernel_frame` keeps the size in 32 bits.
-/

namespace Subordination.Core

open Library

section Wire

variable {P : Type} [ByteOrder]

/-! ### Frames one by one -/

/-- A buffer with the given bytes to read. -/
def ByteBuffer.ofBytes (bs : List UInt8) : ByteBuffer := ⟨bs, 0, bs.length⟩

/-- What is made of the frame at the front of a stream. -/
structure Decoded (P : Type) where
  /-- The kernel. -/
  received : Received P
  /-- What is left unread of the frame. -/
  unread : List UInt8
  /-- What comes after the frame. -/
  rest : List UInt8

namespace Process

/-- Write a kernel as a frame. -/
def encode (proc : Process P) (mem : Memory P) (k : Kernel P) : Option (List UInt8) :=
  match writeFrame (proc.write mem k) ByteBuffer.empty with
  | .ok _ b => some b.content
  | .error _ _ => none

/-- Read the kernel in the frame at the front of the stream. -/
def decode (proc : Process P) (stream : List UInt8) : Option (Decoded P) := do
  let b := ByteBuffer.ofBytes stream
  let opened ← openFrame b
  match proc.read opened.readable with
  | .ok received unread => some { received, unread, rest := (skipFrame b opened).window }
  | .error _ _ => none

theorem encode_eq {proc : Process P} {mem : Memory P} {k : Kernel P} {frame : List UInt8}
    (h : Writes (writeFrame (proc.write mem k)) frame) : proc.encode mem k = some frame := by
  obtain ⟨b, e, -, -, hc⟩ := h ByteBuffer.empty le_rfl
  rw [encode, e]
  exact congrArg some hc

theorem decode_frame {proc : Process P} {body rest : List UInt8} {r : Received P}
    (h : ReadsAll proc.read body r) (hfits : kernelFraming.Fits body) :
    proc.decode (kernelFraming.frame body ++ rest) = some { received := r, unread := [], rest } := by
  have hv : (ByteBuffer.ofBytes (kernelFraming.frame body ++ rest)).Valid := ⟨Nat.zero_le _, le_rfl⟩
  have hw : (ByteBuffer.ofBytes (kernelFraming.frame body ++ rest)).window =
      kernelFraming.frame body ++ rest := by
    simp only [ByteBuffer.ofBytes, ByteBuffer.window, List.take_length, List.drop_zero]
  have hsize := kernelFraming.size_frame hfits rest
  have hns : ¬ kernelFraming.Stuck (ByteBuffer.ofBytes (kernelFraming.frame body ++ rest)).window := by
    rw [hw]
    exact kernelFraming.not_stuck_frame hfits rest
  obtain ⟨opened, ho, hread, -, hrest⟩ := openFrame_of_not_stuck hv hns
  rw [hw, hsize] at hread hrest
  rw [List.take_left, kernelFraming.drop_width_frame] at hread
  rw [List.drop_left] at hrest
  simp only [decode, ho, hread, hrest, Option.bind_eq_bind, Option.bind_some]
  rw [h]

end Process

/-! ### The way through the daemons -/

/-- The daemons pass the kernel in the frame `frame` on, one to the next, and the last
sends the frame `frame'`. Each takes exactly its frame off whatever stream it is in. -/
inductive Relay : List (Process P × Memory P) → List UInt8 → List UInt8 → Prop
  /-- No daemon, the same frame. -/
  | nil {frame : List UInt8} : Relay [] frame frame
  /-- The first daemon decodes the kernel as a foreign one, and encodes it again. -/
  | cons {d : Process P × Memory P} {ds : List (Process P × Memory P)} {k : Kernel P}
      {frame frame' frame'' : List UInt8} :
      (∀ rest, d.1.decode (frame ++ rest) = some { received := { kernel := k }, unread := [], rest }) →
      k.isNative = false → d.1.encode d.2 k = some frame' → Relay ds frame' frame'' →
      Relay (d :: ds) frame frame''

/-- The kernel `k'` is the kernel `k` as it is to arrive. -/
structure Kernel.Arrived (mem : Memory P) (typeId : UInt16) (k k' : Kernel P) : Prop where
  /-- The type. -/
  typeId : k'.typeId = typeId
  /-- The result. -/
  result : k'.result = k.result
  /-- The id. -/
  id : k'.id = k.id
  /-- The old id. -/
  oldId : k'.oldId = k.oldId
  /-- The time. -/
  atTime : k'.atTime = k.atTime
  /-- The flags, with those set that say that the parent and the principal are ids. -/
  flags : k'.flags = k.flags.received
  /-- The id of the parent. -/
  parentId : ∀ mem', k'.parentId mem' = k.parentId mem
  /-- The id of the principal. -/
  principalId : ∀ mem', k'.principalId mem' = k.principalId mem
  /-- The phase. -/
  phase : k'.phase = k.phase
  /-- The path. -/
  path : k'.path = k.path
  /-- The weight. -/
  weight : k'.weight = k.weight
  /-- The node filter. -/
  nodeFilter : k'.nodeFilter = k.nodeFilter
  /-- What the class of the kernel adds. -/
  payload : k'.payload = k.payload

namespace Kernel

variable {k : Kernel P} {mem : Memory P} {typeId : UInt16} {payload : List UInt8}

/-- A kernel that takes few bytes is encodable, if its node filter is. -/
theorem encodable_of_length (h : (k.packet mem typeId payload).length < 2 ^ 64)
    (hf : ∀ e, k.nodeFilter = some e → e.Survives) : k.Encodable := by
  simp only [packet, Header.bytes, bytes, stringBytes, List.length_append] at h
  exact ⟨ApplicationSlot.fits_of_length (by omega), ApplicationSlot.fits_of_length (by omega),
    by omega, hf⟩

theorem packet_ne_nil : k.packet mem typeId payload ≠ [] := by
  intro h
  have := congrArg List.length h
  simp [packet, Header.bytes] at this

section Foreign

variable (mem' : Memory P)

omit [ByteOrder] in
@[simp] theorem parentId_asForeign : (k.asForeign mem typeId payload).parentId mem' = k.parentId mem := by
  simp [asForeign, copyOf, parentId, isset]

omit [ByteOrder] in
@[simp] theorem principalId_asForeign :
    (k.asForeign mem typeId payload).principalId mem' = k.principalId mem := by
  simp [asForeign, copyOf, principalId, isset]

/-- A foreign kernel is encodable when the kernel it came from is. -/
theorem Encodable.asForeign (h : k.Encodable) : (k.asForeign mem typeId payload).Encodable :=
  ⟨h.sourceApplication.sent, h.targetApplication.sent, h.path, h.nodeFilter⟩

/-- A foreign kernel is laid down in as many bytes as the kernel it came from. -/
theorem length_packet_asForeign :
    ((k.asForeign mem typeId payload).packet mem' typeId payload).length =
      (k.packet mem typeId payload).length := by
  have hheader : (k.asForeign mem typeId payload).toHeader.bytes
      (k.asForeign mem typeId payload).nodeFilter.isSome = k.toHeader.bytes k.nodeFilter.isSome :=
    k.toHeader.bytes_sent _
  have hself : ((k.asForeign mem typeId payload).bytes mem').length = (k.bytes mem).length := by
    simp only [bytes, List.length_append, length_u16Bytes, length_u64Bytes, length_flagBytes,
      length_u8Bytes, length_u32Bytes]
    rfl
  rw [packet, packet, hheader]
  simp only [List.length_append, hself]

/-- The ids of a foreign kernel are in it, whatever memory it is encoded with. -/
theorem packet_asForeign (mem'' : Memory P) :
    (k.asForeign mem typeId payload).packet mem' typeId payload =
      (k.asForeign mem typeId payload).packet mem'' typeId payload := by
  simp only [packet, bytes, parentId_asForeign, principalId_asForeign]

omit [ByteOrder] in
theorem sent_asForeign : (k.asForeign mem typeId payload).sent = k.sent :=
  k.toHeader.sent_sent

omit [ByteOrder] in
theorem carriesParent_asForeign : (k.asForeign mem typeId payload).carriesParent = k.carriesParent := by
  simp [asForeign, copyOf, carriesParent, isset]

omit [ByteOrder] in
theorem copyOf_asForeign (k₀ : Kernel P) :
    copyOf mem' k₀ (k.asForeign mem typeId payload) = copyOf mem k₀ k := by
  have hflags : (k.asForeign mem typeId payload).flags.received = k.flags.received :=
    k.flags.received_received
  rw [copyOf, hflags, parentId_asForeign, principalId_asForeign]
  rfl

omit [ByteOrder] in
/-- A foreign kernel that is passed on stays the same. -/
theorem asForeign_asForeign :
    (k.asForeign mem typeId payload).asForeign mem' typeId payload =
      k.asForeign mem typeId payload := by
  conv_lhs => rw [asForeign]
  simp only [sent_asForeign, copyOf_asForeign]
  rfl

omit [ByteOrder] in
/-- The target does not see whether a kernel came through daemons. -/
theorem asNative_asForeign (proc : Process P) (type : KernelType) (state : P) :
    (k.asForeign mem typeId payload).asNative proc mem' type state =
      k.asNative proc mem type state := by
  rw [asNative, sent_asForeign, copyOf_asForeign]
  rfl

omit [ByteOrder] in
/-- What the target makes of a kernel is the kernel as it is to arrive. -/
theorem arrived_asNative (proc : Process P) {type : KernelType} {state : P}
    (hk : k.payload = .native type.index state) :
    Arrived mem type.id k (k.asNative proc mem type state) where
  typeId := rfl
  result := rfl
  id := rfl
  oldId := rfl
  atTime := rfl
  flags := rfl
  parentId _ := by simp [asNative, copyOf, parentId, isset]
  principalId _ := by simp [asNative, copyOf, principalId, isset]
  phase := rfl
  path := rfl
  weight := rfl
  nodeFilter := rfl
  payload := hk.symm

end Foreign

end Kernel

/-! ### Packets -/

/-- A kernel that a process lays down without an exception, in a frame. -/
structure Packet (writer : Process P) where
  /-- The memory at the call of `kernel_buffer::write`. -/
  mem : Memory P
  /-- The kernel. -/
  k : Kernel P
  /-- The id of its type. -/
  typeId : UInt16
  /-- What is laid down after the fields of the kernel. -/
  bytes : List UInt8
  /-- This is what is laid down. -/
  writes : Writes (writer.write mem k) (k.packet mem typeId bytes)
  /-- The size of the frame fits in its header. -/
  fits : kernelFraming.Fits (k.packet mem typeId bytes)

namespace Packet

variable {writer reader : Process P}

/-- What is laid down. -/
def wire (p : Packet writer) : List UInt8 := p.k.packet p.mem p.typeId p.bytes

/-- What a reader makes of it, if it can be decoded. -/
def received (reader : Process P) (p : Packet writer) : Option (Received P) :=
  match reader.read p.wire with
  | .ok r _ => some r
  | .error _ _ => none

theorem length_wire (p : Packet writer) : 4 + p.wire.length < 2 ^ 32 := p.fits

theorem application_fits (p : Packet writer) :
    p.k.sourceApplication.Fits ∧ p.k.targetApplication.Fits := by
  have h := p.length_wire
  simp only [wire, Kernel.packet, Header.bytes, List.length_append] at h
  exact ⟨ApplicationSlot.fits_of_length (by omega), ApplicationSlot.fits_of_length (by omega)⟩

theorem encodable (p : Packet writer) (hf : ∀ e, p.k.nodeFilter = some e → e.Survives) :
    p.k.Encodable := by
  have h : (p.k.packet p.mem p.typeId p.bytes).length < 2 ^ 64 := by
    have := p.length_wire
    rw [wire] at this
    omega
  exact Kernel.encodable_of_length h hf

theorem received_of_readsAll {p : Packet writer} {r : Received P} (h : ReadsAll reader.read p.wire r) :
    p.received reader = some r := by
  have hread : reader.read p.wire = .ok r [] := h
  rw [received, hread]

/-- The reader gets the id and the header of the kernel. -/
theorem received_eq {p : Packet writer} {r : Received P} (h : p.received reader = some r) :
    r.kernel.id = p.k.id ∧ r.kernel.toHeader = p.k.sent := by
  rw [received] at h
  split at h
  · rename_i r' w hread
    cases h
    exact Process.read_ok p.application_fits.1 p.application_fits.2 hread
  · cases h

/-- A reader that is not the target gets the kernel as a foreign one. -/
theorem received_foreign {p : Packet writer} (hf : ∀ e, p.k.nodeFilter = some e → e.Survives)
    (htarget : p.k.targetApplicationId ≠ reader.thisApplication) :
    p.received reader = some { kernel := p.k.asForeign p.mem p.typeId p.bytes } := by
  have hlen : p.bytes.length < 2 ^ 32 := by
    have h := p.length_wire
    simp only [wire, Kernel.packet, List.length_append] at h
    omega
  exact received_of_readsAll (Process.read_foreign (p.encodable hf) htarget hlen)

/-- The target gets a native kernel, if it knows its type. -/
theorem received_native {p : Packet writer} (hf : ∀ e, p.k.nodeFilter = some e → e.Survives)
    (htarget : p.k.targetApplicationId = reader.thisApplication) {types : KernelTypeRegistry}
    {type : KernelType} {state : P} (htypes : reader.types = some types) (htype : type ∈ types.types)
    (hid : p.typeId = type.id) (hr : Reads (reader.classes type.index).read p.bytes state)
    (hcarries : p.k.carriesParent = false) :
    p.received reader = some { kernel := p.k.asNative reader p.mem type state } := by
  have hread : ReadsAll reader.read (p.k.packet p.mem type.id p.bytes)
      { kernel := p.k.asNative reader p.mem type state } :=
    Process.read_native (p.encodable hf) htarget htypes htype hr hcarries
  rw [← hid] at hread
  exact received_of_readsAll hread

end Packet

/-! ### Arrival -/

section Arrival

variable {k : Kernel P} {mem : Memory P} {typeId : UInt16} {bs : List UInt8}

/-- A daemon takes a kernel for another application as a foreign kernel, and passes that
on. -/
theorem hop (hk : k.Encodable) (hfits : kernelFraming.Fits (k.packet mem typeId bs))
    {d : Process P × Memory P} (hd : k.targetApplicationId ≠ d.1.thisApplication) :
    (∀ rest, d.1.decode (kernelFraming.frame (k.packet mem typeId bs) ++ rest) =
      some { received := { kernel := k.asForeign mem typeId bs }, unread := [], rest }) ∧
    d.1.encode d.2 (k.asForeign mem typeId bs) =
      some (kernelFraming.frame ((k.asForeign mem typeId bs).packet mem typeId bs)) := by
  have hfits' : kernelFraming.Fits ((k.asForeign mem typeId bs).packet mem typeId bs) := by
    rwa [Framing.Fits, Kernel.length_packet_asForeign]
  have hrest : bs.length < 2 ^ 32 := by
    have : 4 + (k.packet mem typeId bs).length < 2 ^ 32 := hfits
    simp only [Kernel.packet, List.length_append] at this
    omega
  have hread : ReadsAll d.1.read (k.packet mem typeId bs) { kernel := k.asForeign mem typeId bs } :=
    Process.read_foreign hk hd hrest
  have hwrite : Writes (d.1.write d.2 (k.asForeign mem typeId bs))
      ((k.asForeign mem typeId bs).packet d.2 typeId bs) := Process.writes_foreign rfl
  rw [Kernel.packet_asForeign d.2 mem] at hwrite
  exact ⟨fun rest => Process.decode_frame hread hfits,
    Process.encode_eq (writes_frame hwrite Kernel.packet_ne_nil hfits')⟩

/-- Daemons pass a foreign kernel on as it came. -/
theorem relay_foreign (hk : k.Encodable) (hfits : kernelFraming.Fits (k.packet mem typeId bs))
    {ds : List (Process P × Memory P)} (hds : ∀ d ∈ ds, k.targetApplicationId ≠ d.1.thisApplication) :
    Relay ds (kernelFraming.frame ((k.asForeign mem typeId bs).packet mem typeId bs))
      (kernelFraming.frame ((k.asForeign mem typeId bs).packet mem typeId bs)) := by
  induction ds with
  | nil => exact Relay.nil
  | cons d ds ih =>
    have hfits' : kernelFraming.Fits ((k.asForeign mem typeId bs).packet mem typeId bs) := by
      rwa [Framing.Fits, Kernel.length_packet_asForeign]
    have hd := hds d List.mem_cons_self
    rw [← Kernel.targetApplicationId_sent] at hd
    obtain ⟨hdecode, hencode⟩ := hop hk.asForeign hfits' hd
    rw [Kernel.asForeign_asForeign] at hdecode hencode
    exact Relay.cons hdecode rfl hencode (ih fun d' hd' => hds d' (List.mem_cons_of_mem d hd'))

/-- The kernel that leaves the last of the daemons, if there are any, is the one that the
first of them made. -/
theorem relay_packet (hk : k.Encodable) (hfits : kernelFraming.Fits (k.packet mem typeId bs))
    {ds : List (Process P × Memory P)} (hds : ∀ d ∈ ds, k.targetApplicationId ≠ d.1.thisApplication) :
    ∃ k' ∈ [k, k.asForeign mem typeId bs], Relay ds (kernelFraming.frame (k.packet mem typeId bs))
      (kernelFraming.frame (k'.packet mem typeId bs)) := by
  cases ds with
  | nil => exact ⟨k, by simp, Relay.nil⟩
  | cons d ds =>
    obtain ⟨hdecode, hencode⟩ := hop hk hfits (hds d List.mem_cons_self)
    exact ⟨k.asForeign mem typeId bs, by simp, Relay.cons hdecode rfl hencode
      (relay_foreign hk hfits fun d' hd' => hds d' (List.mem_cons_of_mem d hd'))⟩

/-- **A kernel arrives as it was sent**: a native kernel that does not carry its parent, of
a type that the target knows under the same id, through any number of daemons that are
not its target. Its class must read back what it writes, its node filter must come
through its binary form, and its frame must be shorter than `2 ^ 32` bytes. -/
theorem arrives {sender target : Process P} {types types' : KernelTypeRegistry} {type : KernelType}
    {state : P} (hk : k.payload = .native type.index state) (hcarries : k.carriesParent = false)
    (htypes : sender.types = some types) (htype : type ∈ types.types)
    (htypes' : target.types = some types') (htype' : type ∈ types'.types)
    (hfilter : ∀ e, k.nodeFilter = some e → e.Survives)
    (hwrite : Writes ((sender.classes type.index).write state) bs)
    (hread : Reads (target.classes type.index).read bs state)
    (hsize : 4 + (k.packet mem type.id bs).length < 2 ^ 32)
    (htarget : k.targetApplicationId = target.thisApplication) {ds : List (Process P × Memory P)}
    (hds : ∀ d ∈ ds, k.targetApplicationId ≠ d.1.thisApplication) :
    ∃ sent arrived k', sender.encode mem k = some sent ∧ Relay ds sent arrived ∧
      (∀ rest, target.decode (arrived ++ rest) = some { received := { kernel := k' }, unread := [], rest }) ∧
      Kernel.Arrived mem type.id k k' := by
  have hfits : kernelFraming.Fits (k.packet mem type.id bs) := hsize
  have hlength : (k.packet mem type.id bs).length < 2 ^ 64 := by omega
  have henc : k.Encodable := Kernel.encodable_of_length hlength hfilter
  have hsent : Writes (sender.write mem k) (k.packet mem type.id (bs ++ [])) :=
    Process.writes_packet htypes htype hk hwrite (Process.writes_no_parent hcarries)
  rw [List.append_nil] at hsent
  -- The target reads the same kernel out of either packet.
  have hread' : ∀ k' ∈ [k, k.asForeign mem type.id bs], kernelFraming.Fits (k'.packet mem type.id bs) ∧
      ReadsAll target.read (k'.packet mem type.id bs) { kernel := k.asNative target mem type state } := by
    intro k' hk'
    rcases List.mem_pair.mp hk' with rfl | rfl
    · exact ⟨hfits, Process.read_native henc htarget htypes' htype' hread hcarries⟩
    · refine ⟨by rwa [Framing.Fits, Kernel.length_packet_asForeign], ?_⟩
      have hsame : (k.asForeign mem type.id bs).asNative target mem type state =
          k.asNative target mem type state := Kernel.asNative_asForeign mem target type state
      rw [← hsame]
      refine Process.read_native henc.asForeign ?_ htypes' htype' hread ?_
      · rwa [← Kernel.targetApplicationId_sent] at htarget
      · rwa [Kernel.carriesParent_asForeign]
  obtain ⟨k', hk', hrelay⟩ := relay_packet henc hfits hds
  obtain ⟨hfits', hreads⟩ := hread' k' hk'
  exact ⟨_, _, _, Process.encode_eq (writes_frame hsent Kernel.packet_ne_nil hfits), hrelay,
    fun rest => Process.decode_frame hreads hfits', Kernel.arrived_asNative target hk⟩

end Arrival

/-! ### A class without a state -/

/-- A class that adds nothing to a kernel. -/
def KernelClass.plain : KernelClass Unit where
  initial := ()
  write _ := pure ()
  read := pure ()

/-- The type under which every process knows the class. -/
def KernelType.plain : KernelType := ⟨2, "plain"⟩

/-- The registry with this type alone. -/
def KernelTypeRegistry.plain : KernelTypeRegistry := { types := [KernelType.plain] }

/-- A process that knows only this class. -/
def Process.plain (thisApplication : UInt64) : Process Unit where
  thisApplication
  types := some KernelTypeRegistry.plain
  classes _ := KernelClass.plain

/-- A kernel of this class. -/
def Kernel.plain (path : List UInt8) : Kernel Unit :=
  { Kernel.fresh 0 (.native KernelType.plain.index ()) with path }

/-- A memory in which there is nothing of interest. -/
def Memory.blank : Memory Unit := fun _ => Kernel.plain []

theorem length_packet_plain (path : List UInt8) (mem : Memory Unit) :
    ((Kernel.plain path).packet mem 2 []).length = path.length + 78 := by
  simp [Kernel.packet, Kernel.plain, Kernel.fresh, Header.fresh, Header.bytes, Header.addressBytes,
    Header.written, ApplicationSlot.bytes, Kernel.bytes, stringBytes]
  omega

omit [ByteOrder] in
theorem carriesParent_plain (path : List UInt8) : (Kernel.plain path).carriesParent = false := by
  simp [Kernel.carriesParent, Kernel.isset, Kernel.plain, Kernel.fresh, KernelFlags.isset]

omit [ByteOrder] in
theorem mem_plain : KernelType.plain ∈ KernelTypeRegistry.plain.types := List.mem_singleton.mpr rfl

omit [ByteOrder] in
theorem writes_plain_state : Writes (((Process.plain 0).classes KernelType.plain.index).write ()) [] :=
  writes_pure

theorem writes_plain (path : List UInt8) (mem : Memory Unit) :
    Writes ((Process.plain 0).write mem (Kernel.plain path)) ((Kernel.plain path).packet mem 2 []) := by
  have h : Writes ((Process.plain 0).write mem (Kernel.plain path))
      ((Kernel.plain path).packet mem KernelType.plain.id ([] ++ [])) :=
    Process.writes_packet rfl mem_plain rfl writes_plain_state
      (Process.writes_no_parent (carriesParent_plain path))
  exact h

/-- A path that makes the frame of a kernel exactly `2 ^ 32` bytes long. -/
def hugePath : List UInt8 := List.replicate (2 ^ 32 - 82) 47

/-- The frame of a kernel with this path is taken back. -/
theorem encode_huge (mem : Memory Unit) :
    (Process.plain 0).encode mem (Kernel.plain hugePath) = some [] := by
  refine Process.encode_eq (writes_frame_wrapped (writes_plain hugePath mem) ?_)
  rw [length_packet_plain, hugePath, List.length_replicate]
  decide

end Wire

/-- A kernel without a path arrives, by way of two daemons. -/
theorem arrives_plain :
    letI := ByteOrder.littleEndian
    ∃ sent arrived k', (Process.plain 0).encode Memory.blank (Kernel.plain []) = some sent ∧
      Relay [(Process.plain 7, Memory.blank), (Process.plain 8, Memory.blank)] sent arrived ∧
      (∀ rest, (Process.plain 0).decode (arrived ++ rest) =
        some { received := { kernel := k' }, unread := [], rest }) ∧
      Kernel.Arrived Memory.blank 2 (Kernel.plain []) k' := by
  let _ := ByteOrder.littleEndian
  refine arrives rfl (carriesParent_plain []) rfl mem_plain rfl mem_plain
    (fun e he => absurd he (Option.some_ne_none e).symm) writes_plain_state (Reads.pure ()) ?_ rfl ?_
  · rw [show KernelType.plain.id = 2 from rfl, length_packet_plain]
    decide
  · intro d hd
    rcases List.mem_pair.mp hd with rfl | rfl <;> decide

/-- **A longer frame is lost**: nothing is written, so nothing arrives. -/
theorem huge_lost :
    letI := ByteOrder.littleEndian
    ¬ ∃ sent arrived k', (Process.plain 0).encode Memory.blank (Kernel.plain hugePath) = some sent ∧
      Relay (P := Unit) [] sent arrived ∧
      (∀ rest, (Process.plain 0).decode (arrived ++ rest) =
        some { received := { kernel := k' }, unread := [], rest }) ∧
      Kernel.Arrived Memory.blank 2 (Kernel.plain hugePath) k' := by
  let _ := ByteOrder.littleEndian
  rintro ⟨sent, arrived, k', hsent, hrelay, hdecode, -⟩
  rw [encode_huge] at hsent
  cases hsent
  cases hrelay
  have hnone : (Process.plain 0).decode [] = none := rfl
  have := hdecode []
  rw [List.append_nil, hnone] at this
  cases this

end Subordination.Core
