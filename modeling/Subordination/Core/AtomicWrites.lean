import Subordination.Core.Recovery

/-!
# Writes that fail

What `connection::write_kernel` leaves in the output buffer when a kernel cannot be encoded
(`core/connection.cc`, `core/kernel_buffer.cc`).

## The model

What an encoder lays down before it throws is in the buffer when the guard of the frame closes it. A
`Laid` is what an encoder lays down: the bytes, and the exception that it throws after them, if it throws
one. `Process.laid` puts together what is laid down for a kernel: its header, the id of its type, its own
fields, what its class writes, and the parent it carries. What a class writes is a parameter, with the
hypothesis that the class appends to the buffer, and may throw then.

## What is proved

* `Process.lays_write` — the encoder of `Core.KernelBuffer` lays this down.
* `Process.encodes_iff` — when it does not throw.
* `Endpoint.writeKernel_atomic_iff` — when a kernel that cannot be encoded leaves the output buffer as it
  is.
-/

namespace Subordination.Core

open Library

/-! ### What an encoder lays down -/

/-- What an encoder lays down: the bytes, and then the exception that it throws, if it throws one. -/
structure Laid where
  /-- The bytes. -/
  bytes : List UInt8 := []
  /-- The exception. -/
  thrown : Option Exception := none
  deriving DecidableEq

namespace Laid

/-- How an encoder ends in the given buffer. -/
def outcome (l : Laid) (b : ByteBuffer) : EStateM.Result Exception ByteBuffer Unit :=
  match l.thrown with
  | none => .ok () b
  | some x => .error x b

/-- What two encoders lay down one after the other. -/
def seq (l l' : Laid) : Laid :=
  match l.thrown with
  | none => ⟨l.bytes ++ l'.bytes, l'.thrown⟩
  | some _ => l

@[simp] theorem thrown_seq (l l' : Laid) : (l.seq l').thrown = none ↔ l.thrown = none ∧ l'.thrown = none := by
  unfold seq
  cases h : l.thrown <;> simp [h]

/-- What has been laid down first is there in any case. -/
theorem length_le_seq (l l' : Laid) : l.bytes.length ≤ (l.seq l').bytes.length := by
  unfold seq
  cases h : l.thrown <;> simp

end Laid

/-- The encoder lays this down, whatever the buffer. -/
def Lays (m : PutM Unit) (l : Laid) : Prop :=
  ∀ b : ByteBuffer, b.position ≤ b.data.length →
    ∃ b', m b = l.outcome b' ∧ b'.position = b.position + l.bytes.length ∧
      b'.position ≤ b'.data.length ∧ b'.content = b.content ++ l.bytes

theorem Writes.lays {m : PutM Unit} {bs : List UInt8} (h : Writes m bs) : Lays m { bytes := bs } := h

theorem lays_throw (x : Exception) : Lays (throw x) { thrown := some x } := fun b hb =>
  ⟨b, rfl, rfl, hb, (List.append_nil _).symm⟩

theorem Lays.seq {m : PutM Unit} {n : Unit → PutM Unit} {l l' : Laid} (h : Lays m l) (hn : Lays (n ()) l') :
    Lays (m >>= n) (l.seq l') := by
  intro b hb
  obtain ⟨b₁, e₁, p₁, v₁, c₁⟩ := h b hb
  have hbind : (m >>= n) b = EStateM.bind m n b := rfl
  rw [hbind, EStateM.bind, e₁]
  unfold Laid.seq Laid.outcome
  cases hthrown : l.thrown with
  | some x => exact ⟨b₁, by simp [hthrown], p₁, v₁, c₁⟩
  | none =>
    obtain ⟨b₂, e₂, p₂, v₂, c₂⟩ := hn b₁ v₁
    refine ⟨b₂, e₂, ?_, v₂, ?_⟩
    · simp [p₂, p₁, Nat.add_assoc]
    · simp [c₂, c₁]

/-! ### The guard of the frame -/

/-- The size that the guard of a frame finds, when the given bytes have been laid down in it. -/
def frameSize (bs : List UInt8) : ℕ := (4 + bs.length) % 2 ^ 32

/-- The guard closes the frame over what has been laid down, or takes it back if its size is not greater
than that of a header. -/
theorem closeFrame_lays [ByteOrder] {m : PutM Unit} {l : Laid} (h : Lays m l) {b : ByteBuffer}
    (hb : b.position ≤ b.data.length) :
    ∃ b', writeFrame m b = l.outcome b' ∧
      (4 < frameSize l.bytes → b'.position = b.position + (4 + l.bytes.length)) ∧
      (frameSize l.bytes ≤ 4 → b'.position = b.position ∧ b'.content = b.content) := by
  obtain ⟨junk, -, hbump⟩ := b.content_bump hb 4
  obtain ⟨b', e, hp, -, hc⟩ := h (b.bump 4) (b.position_le_bump 4)
  have hpos : b'.position = b.position + (4 + l.bytes.length) := by rw [hp]; exact Nat.add_assoc _ _ _
  have hsize : (b'.position + 2 ^ 64 - b.position) % 2 ^ 32 = frameSize l.bytes := by
    rw [hpos, frameSize, show b.position + (4 + l.bytes.length) + 2 ^ 64 - b.position =
      4 + l.bytes.length + 2 ^ 32 * 2 ^ 32 by omega, Nat.add_mul_mod_self_left]
  refine ⟨closeFrame b.position b', ?_, fun hlarge => ?_, fun hsmall => ?_⟩
  · unfold writeFrame
    unfold Laid.outcome at e ⊢
    cases hthrown : l.thrown <;> simp [hthrown] at e ⊢ <;> simp [e]
  · rw [closeFrame, hsize, if_pos hlarge]
    exact hpos
  · rw [closeFrame, hsize, if_neg (Nat.not_lt.mpr hsmall)]
    refine ⟨rfl, ?_⟩
    -- what was there before has not been touched
    have hcut := congrArg (List.take b.position) hc
    rw [hbump, List.append_assoc, ByteBuffer.content, List.take_take,
      min_eq_left (hpos ▸ Nat.le_add_right _ _), List.take_left' (b.length_content hb)] at hcut
    exact hcut

/-- The guard makes a frame of what has been laid down, also if an exception follows. -/
theorem Lays.frame [ByteOrder] {m : PutM Unit} {l : Laid} (h : Lays m l) (hne : l.bytes ≠ [])
    (hfits : kernelFraming.Fits l.bytes) :
    Lays (writeFrame m) { bytes := kernelFraming.frame l.bytes, thrown := l.thrown } := by
  intro b hb
  obtain ⟨junk, hjunk, hbump⟩ := b.content_bump hb 4
  obtain ⟨b', e, hp, hv, hc⟩ := h (b.bump 4) (b.position_le_bump 4)
  have hc' : b'.content = b.content ++ (junk ++ l.bytes) := by rw [hc, hbump, List.append_assoc]
  obtain ⟨h1, h2, h3⟩ := content_closeFrame hjunk hc' hv hne hfits
  rw [b.length_content hb] at h1 h2 h3
  refine ⟨closeFrame b.position b', ?_, ?_, h2 ▸ h3, h1⟩
  · unfold writeFrame
    unfold Laid.outcome at e ⊢
    cases hthrown : l.thrown <;> simp [hthrown] at e ⊢ <;> simp [e]
  · rw [h2, hp, Framing.length_frame]
    exact Nat.add_assoc _ _ _

/-! ### What is laid down for a kernel -/

section Kernels

variable {P : Type} [ByteOrder]

/-- What is laid down for a kernel by `k->write(out)`, given what the classes lay down. -/
def Kernel.laid (writes : String → P → Laid) (mem : Memory P) (k : Kernel P) : Laid :=
  match k.payload with
  | .native index state => Laid.seq { bytes := k.bytes mem } (writes index state)
  | .foreign payload => { bytes := u16Bytes k.typeId ++ (k.bytes mem ++ payload) }

namespace Process

variable (proc : Process P) (writes : String → P → Laid) (mem : Memory P) (k : Kernel P)

/-- What is laid down by `write_native`. -/
def laidNative : Laid :=
  match proc.types with
  | none => { thrown := some (.error "no kernel types") }
  | some types =>
    match types.findIndex k.typeName with
    | none => { thrown := some (.error ("no kernel type for " ++ k.typeName)) }
    | some type => Laid.seq { bytes := u16Bytes type.id } (k.laid writes mem)

/-- What is laid down for the parent. -/
def laidParent : Laid :=
  if k.carriesParent then
    if k.parent = 0 then { thrown := some (.invalidArgument "parent is null") }
    else proc.laidNative writes mem (mem k.parent)
  else {}

/-- What is laid down for a kernel. -/
def laid : Laid :=
  Laid.seq { bytes := k.toHeader.bytes k.nodeFilter.isSome }
    (if k.isNative then (proc.laidNative writes mem k).seq (proc.laidParent writes mem k)
    else k.laid writes mem)

/-- A class writes the state of the kernel to the end. -/
def ClassWrites (k : Kernel P) : Prop :=
  ∀ index state, k.payload = .native index state → (writes index state).thrown = none

/-- `write_native` can encode the kernel: its type is registered, and its class writes its state. -/
def EncodesNative (k : Kernel P) : Prop :=
  (∃ types, proc.types = some types ∧ (types.findIndex k.typeName).isSome) ∧ ClassWrites writes k

/-- The kernel can be encoded: it is foreign, or it is native and so is the parent that it carries, which is
there. -/
def Encodes : Prop :=
  k.isNative = true → proc.EncodesNative writes k ∧
    (k.carriesParent = true → k.parent ≠ 0 ∧ proc.EncodesNative writes (mem k.parent))

variable {proc writes mem k}

theorem lays_kernel (hwrites : ∀ index state, Lays ((proc.classes index).write state) (writes index state)) :
    Lays (k.write proc mem) (k.laid writes mem) := by
  unfold Kernel.write Kernel.laid
  cases k.payload with
  | native index state => exact (writes_bytes _).lays.seq (hwrites index state)
  | foreign payload => exact (writes_bytes _).lays

theorem lays_writeNative
    (hwrites : ∀ index state, Lays ((proc.classes index).write state) (writes index state)) :
    Lays (proc.writeNative mem k) (proc.laidNative writes mem k) := by
  unfold writeNative laidNative
  cases proc.types with
  | none => exact lays_throw _
  | some types =>
    dsimp only
    cases types.findIndex k.typeName with
    | none => exact lays_throw _
    | some type => exact (writes_bytes _).lays.seq (lays_kernel hwrites)

theorem lays_writeParent
    (hwrites : ∀ index state, Lays ((proc.classes index).write state) (writes index state)) :
    Lays (proc.writeParent mem k) (proc.laidParent writes mem k) := by
  unfold writeParent laidParent
  split_ifs
  · exact lays_throw _
  · exact lays_writeNative hwrites
  · exact writes_pure.lays

/-- **What `kernel_buffer::write` lays down**, up to where it throws. -/
theorem lays_write (hwrites : ∀ index state, Lays ((proc.classes index).write state) (writes index state)) :
    Lays (proc.write mem k) (proc.laid writes mem k) := by
  refine (writes_bytes _).lays.seq ?_
  split_ifs
  · exact (lays_writeNative hwrites).seq (lays_writeParent hwrites)
  · exact lays_kernel hwrites

omit [ByteOrder] in
theorem classWrites_of_native {index : String} {state : P} (hk : k.payload = .native index state) :
    ClassWrites writes k ↔ (writes index state).thrown = none := by
  simp [ClassWrites, hk]

theorem thrown_kernel : (k.laid writes mem).thrown = none ↔ ClassWrites writes k := by
  unfold Kernel.laid
  cases hk : k.payload with
  | native index state => simp [classWrites_of_native hk]
  | foreign payload => simp [ClassWrites, hk]

theorem thrown_native : (proc.laidNative writes mem k).thrown = none ↔ proc.EncodesNative writes k := by
  unfold laidNative EncodesNative
  cases htypes : proc.types with
  | none => simp
  | some types =>
    dsimp only
    cases hfind : types.findIndex k.typeName with
    | none => simp [hfind]
    | some type => simp [hfind, thrown_kernel]

theorem thrown_parent : (proc.laidParent writes mem k).thrown = none ↔
    (k.carriesParent = true → k.parent ≠ 0 ∧ proc.EncodesNative writes (mem k.parent)) := by
  unfold laidParent
  split_ifs with hcarries hparent
  · simp [hcarries, hparent]
  · simp [hcarries, hparent, thrown_native]
  · simp [hcarries]

/-- **When a kernel is encoded without an exception.** -/
theorem encodes_iff : (proc.laid writes mem k).thrown = none ↔ proc.Encodes writes mem k := by
  unfold laid Encodes
  split_ifs with hnative
  · simp [hnative, thrown_native, thrown_parent]
  · have hclass : ClassWrites writes k := by
      intro index state hk
      exact absurd (Kernel.isNative_of_native hk) hnative
    simp [hnative, thrown_kernel, hclass]

/-- What is laid down makes a frame that is greater than its header, as long as its size fits in 32 bits: the
first byte of a kernel is always written. -/
theorem frameSize_laid (h : 4 + (proc.laid writes mem k).bytes.length < 2 ^ 32) :
    4 < frameSize (proc.laid writes mem k).bytes := by
  have hheader : 0 < (k.toHeader.bytes k.nodeFilter.isSome).length := by
    simp only [Header.bytes, List.length_append, length_flagBytes]
    omega
  have hle : (k.toHeader.bytes k.nodeFilter.isSome).length ≤ (proc.laid writes mem k).bytes.length :=
    Laid.length_le_seq { bytes := k.toHeader.bytes k.nodeFilter.isSome } _
  rw [frameSize, Nat.mod_eq_of_lt h]
  omega

end Process

/-! ### Sending a kernel that cannot be encoded -/

namespace Endpoint

variable {proc : Process P} {writes : String → P → Laid} {k : Kernel P}

/-- **Writing the kernel is atomic**: if it cannot be encoded, the content of the output buffer and its
position are the same afterwards, and so is the load. -/
def WritesAtomically (proc : Process P) (e : Endpoint P) (k : Kernel P) : Prop :=
  (∃ x b, proc.write e.memory k (e.connection.outputBuffer.bump 4) = .error x b) →
    (e.writeKernel proc k).connection.outputBuffer.content = e.connection.outputBuffer.content ∧
      (e.writeKernel proc k).connection.outputBuffer.position = e.connection.outputBuffer.position ∧
      (e.writeKernel proc k).connection.load = e.connection.load

theorem throws_iff (hwrites : ∀ index state, Lays ((proc.classes index).write state) (writes index state))
    (e : Endpoint P) :
    (∃ x b, proc.write e.memory k (e.connection.outputBuffer.bump 4) = .error x b) ↔
      ¬ proc.Encodes writes e.memory k := by
  have hlays : Lays (proc.write e.memory k) (proc.laid writes e.memory k) := Process.lays_write hwrites
  obtain ⟨b, hb, -⟩ := hlays (e.connection.outputBuffer.bump 4) (e.connection.outputBuffer.position_le_bump 4)
  rw [hb, ← Process.encodes_iff, Laid.outcome]
  cases (proc.laid writes e.memory k).thrown <;> simp

/-- An exception leaves what the guard leaves in the output buffer, and the load. -/
theorem writeKernel_thrown {e : Endpoint P} {b : ByteBuffer} (hk : ¬ proc.Encodes writes e.memory k)
    (hframe : writeFrame (proc.write e.memory k) e.connection.outputBuffer =
      (proc.laid writes e.memory k).outcome b) :
    e.writeKernel proc k = { e with connection.outputBuffer := b } := by
  have hthrown : (proc.laid writes e.memory k).thrown ≠ none := fun h => hk (Process.encodes_iff.mp h)
  obtain ⟨x, hx⟩ := Option.ne_none_iff_exists'.mp hthrown
  simp [writeKernel, hframe, Laid.outcome, hx]

/-- **Writing a kernel is atomic** if and only if the kernel can be encoded, or what is laid down before the
exception makes a frame whose size, in 32 bits, is not greater than that of its header. -/
theorem writeKernel_atomic_iff
    (hwrites : ∀ index state, Lays ((proc.classes index).write state) (writes index state)) (e : Endpoint P)
    (hb : e.connection.outputBuffer.position ≤ e.connection.outputBuffer.data.length) (k : Kernel P) :
    e.WritesAtomically proc k ↔
      proc.Encodes writes e.memory k ∨ frameSize (proc.laid writes e.memory k).bytes ≤ 4 := by
  unfold WritesAtomically
  rw [throws_iff hwrites]
  by_cases hencodes : proc.Encodes writes e.memory k
  · simp [hencodes]
  have hlays : Lays (proc.write e.memory k) (proc.laid writes e.memory k) := Process.lays_write hwrites
  obtain ⟨b, hframe, hlarge, hsmall⟩ := closeFrame_lays hlays hb
  have hwrite := writeKernel_thrown hencodes hframe
  simp only [hencodes, not_false_eq_true, true_implies, false_or, hwrite, and_true]
  constructor
  · rintro ⟨-, hposition⟩
    by_contra hsize
    have := hlarge (Nat.lt_of_not_le hsize)
    omega
  · intro hsize
    exact ⟨(hsmall hsize).2, (hsmall hsize).1⟩

/-- A kernel that cannot be encoded is never written atomically, unless it is as long as a frame can be. -/
theorem not_writesAtomically
    (hwrites : ∀ index state, Lays ((proc.classes index).write state) (writes index state)) {e : Endpoint P}
    (hb : e.connection.outputBuffer.position ≤ e.connection.outputBuffer.data.length)
    (hk : ¬ proc.Encodes writes e.memory k) (hlength : 4 + (proc.laid writes e.memory k).bytes.length < 2 ^ 32) :
    ¬ e.WritesAtomically proc k := by
  intro h
  have hlays : Lays (proc.write e.memory k) (proc.laid writes e.memory k) := Process.lays_write hwrites
  obtain ⟨b, hframe, hlarge, -⟩ := closeFrame_lays hlays hb
  have hposition := (h ((throws_iff hwrites e).mpr hk)).2.1
  rw [writeKernel_thrown hk hframe, hlarge (Process.frameSize_laid hlength)] at hposition
  simp at hposition

end Endpoint

end Kernels

/-! ### A frame that is not one -/

/-- A class whose `write` writes a byte and throws. -/
def KernelClass.failing : KernelClass Unit :=
  { KernelClass.plain with
    write := fun _ => do
      writeBytes [1]
      throw (.foreign "write") }

/-- What it lays down. -/
def KernelClass.failingWrites (_ : String) (_ : Unit) : Laid := ⟨[1], some (.foreign "write")⟩

theorem KernelClass.lays_failing (index : String) : Lays (failing.write ()) (failingWrites index ()) := by
  have h : Lays (KernelClass.failing.write ()) (Laid.seq { bytes := [1] } { thrown := some (.foreign "write") }) :=
    (writes_bytes [1]).lays.seq (lays_throw _)
  exact h

/-- A process whose only class is this one. -/
def Process.failing : Process Unit := { Process.plain 0 with classes := fun _ => KernelClass.failing }

/-- A kernel whose class throws is not written atomically. -/
theorem Endpoint.writeKernel_atomic_failing :
    letI := ByteOrder.littleEndian
    ¬ Endpoint.idle.WritesAtomically Process.failing (Kernel.plain []) := by
  let _ := ByteOrder.littleEndian
  have hwrites : ∀ index state, Lays ((Process.failing.classes index).write state)
      (KernelClass.failingWrites index state) := fun index _ => KernelClass.lays_failing index
  rw [Endpoint.writeKernel_atomic_iff hwrites Endpoint.idle le_rfl (Kernel.plain [])]
  rintro (hencodes | hsize)
  · have hclass := (hencodes rfl).1.2 KernelType.plain.index () rfl
    cases hclass
  · revert hsize
    decide

/-- A kernel of a class that is not registered. -/
def Kernel.unregistered : Kernel Unit := { Kernel.plain [] with payload := .native "unregistered" () }

/-- **A part of a frame is sent**: the type of the kernel is not registered, and its header stays in the output
buffer. -/
theorem Endpoint.part_written :
    letI := ByteOrder.littleEndian
    ¬ Endpoint.idle.WritesAtomically (Process.plain 0) Kernel.unregistered := by
  let _ := ByteOrder.littleEndian
  intro h
  have hposition := (h ⟨_, _, rfl⟩).2.1
  revert hposition
  decide

end Subordination.Core
