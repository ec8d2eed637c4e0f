import Subordination.Core.Resources
import Subordination.Core.Weights

/-!
# Kernels

The unit of work that the daemons pass around (`core/kernel_base.hh`, `core/kernel.hh`,
`core/kernel.cc`), the addresses and applications in its header, and the binary
form of its header and of its own fields.

## The model

A kernel is a value. Its parent and its principal are raw pointers, or ids when a
flag says so; what a pointer points to is looked up in a `Memory`. The state that a
subclass adds is a `Payload`: a value of a type `P` for a native kernel, the bytes as
they came for a foreign one. The application bits of `_fields` say which member of
a union is in use; here the union is an `ApplicationSlot` and the bits are derived
from it, as the node filter bit is from the presence of the filter.
-/

namespace Subordination.Core

open Library

/-! ### Addresses -/

/-- `sys::socket_address`: the bytes of the address. An address that is not set has none. -/
structure SocketAddress where
  /-- `get()`, of which there are `size()`. -/
  bytes : List UInt8
  /-- The size fits in the 16 bits that are written for it. -/
  size_lt : bytes.length < 2 ^ 16
  deriving DecidableEq

namespace SocketAddress

/-- The address made of the given bytes. -/
def ofBytes (bs : List UInt8) : SocketAddress :=
  ⟨bs.take (2 ^ 16 - 1), by rw [List.length_take]; omega⟩

/-- The default address. -/
def unset : SocketAddress := ⟨[], by decide⟩

instance : Inhabited SocketAddress := ⟨unset⟩

/-- `explicit operator bool`. -/
def isSet (a : SocketAddress) : Bool := !a.bytes.isEmpty

@[simp] theorem isSet_unset : unset.isSet = false := rfl

theorem eq_unset_of_isSet {a : SocketAddress} (h : a.isSet = false) : a = unset := by
  rcases a with ⟨bs, hbs⟩
  cases bs with
  | nil => rfl
  | cons b bs => cases h

theorem ofBytes_bytes (a : SocketAddress) : ofBytes a.bytes = a := by
  have := a.size_lt
  rcases a with ⟨bs, hbs⟩
  simp only [ofBytes, mk.injEq]
  exact List.take_of_length_le (by omega)

variable [ByteOrder]

/-- `kernel_buffer::write(const sys::socket_address&)`. -/
def wire (a : SocketAddress) : List UInt8 := intBytes 2 a.bytes.length ++ a.bytes

/-- `kernel_buffer::read(sys::socket_address&)`. -/
def read : ReadM SocketAddress := do
  let n ← readInt 2
  ofBytes <$> readBytes n

theorem reads (a : SocketAddress) : Reads read a.wire a := by
  have := (reads_bytes a.bytes).map ofBytes
  rw [ofBytes_bytes] at this
  exact (reads_int (w := 2) a.size_lt).bind this

/-- `kernel_buffer::read(sys::socket_address&)`, over the address that is there: as many bytes are
overwritten as were written, and the size of an address is found in its first bytes. -/
def readOver (a : SocketAddress) : ReadM SocketAddress := do
  let n ← readInt 2
  if n = 0 then pure a else ofBytes <$> readBytes n

/-- What is there after an address was read. -/
def overlay (a b : SocketAddress) : SocketAddress := if b.isSet then b else a

omit [ByteOrder] in
theorem overlay_eq_iff {a b : SocketAddress} : a.overlay b = b ↔ (a.isSet = true → b.isSet = true) := by
  rw [overlay]
  cases hb : b.isSet with
  | true => simp
  | false =>
    obtain rfl := eq_unset_of_isSet hb
    constructor
    · rintro rfl
      exact id
    · intro ha
      exact eq_unset_of_isSet (Bool.eq_false_iff.2 fun hset => Bool.false_ne_true (ha hset))

theorem reads_over (a b : SocketAddress) : Reads a.readOver b.wire (a.overlay b) := by
  refine (reads_int (w := 2) b.size_lt).bind ?_
  rw [overlay]
  cases hb : b.isSet with
  | true =>
    have hne : b.bytes.length ≠ 0 := by
      rintro heq
      rw [isSet, List.eq_nil_of_length_eq_zero heq] at hb
      cases hb
    have hread := (reads_bytes b.bytes).map ofBytes
    rw [ofBytes_bytes] at hread
    rw [if_neg hne]
    exact hread
  | false =>
    obtain rfl := eq_unset_of_isSet hb
    exact Reads.pure a

/-- An address that is set stays set. -/
theorem isSet_of_readOver {a b : SocketAddress} {w w' : List UInt8} (h : a.readOver w = .ok b w')
    (ha : a.isSet = true) : b.isSet = true := by
  obtain ⟨n, w₁, -, h⟩ := bind_ok h
  split at h
  · cases h
    exact ha
  · next hn =>
    rw [map_eq_pure_bind] at h
    obtain ⟨bs, w₂, hbs, h⟩ := bind_ok h
    cases h
    have hlength := length_readBytes hbs
    cases bs with
    | nil => exact absurd hlength.symm hn
    | cons b bs => rfl

end SocketAddress

/-! ### Applications -/

/-- `application`. Whether it waits for completion is not part of its binary form. -/
structure Application where
  /-- `_id`. -/
  id : UInt64
  /-- `_uid`. -/
  uid : UInt32
  /-- `_gid`. -/
  gid : UInt32
  /-- `_args`. -/
  args : List (List UInt8)
  /-- `_env`. -/
  env : List (List UInt8)
  /-- `_working_directory`. -/
  workingDirectory : List UInt8
  deriving DecidableEq

section Strings

variable [ByteOrder]

/-- The strings that `write_vector` writes: as many as their number says in 32 bits. -/
def counted (ss : List (List UInt8)) : List (List UInt8) := ss.take (ss.length % 2 ^ 32)

/-- `write_vector`. -/
def vectorBytes (ss : List (List UInt8)) : List UInt8 :=
  intBytes 4 (ss.length % 2 ^ 32) ++ ((counted ss).map stringBytes).flatten

/-- Read the given number of strings. -/
def readStrings : ℕ → ReadM (List (List UInt8))
  | 0 => pure []
  | n + 1 => do
    let s ← readString
    let ss ← readStrings n
    pure (s :: ss)

/-- `read_vector`. -/
def readVector : ReadM (List (List UInt8)) := do
  let n ← readInt 4
  readStrings n

omit [ByteOrder] in
theorem length_counted (ss : List (List UInt8)) : (counted ss).length = ss.length % 2 ^ 32 := by
  rw [counted, List.length_take, min_eq_left (Nat.mod_le _ _)]

omit [ByteOrder] in
@[simp] theorem counted_counted (ss : List (List UInt8)) : counted (counted ss) = counted ss := by
  conv_lhs => rw [counted]
  rw [length_counted, Nat.mod_mod, ← length_counted, List.take_length]

theorem vectorBytes_counted (ss : List (List UInt8)) : vectorBytes (counted ss) = vectorBytes ss := by
  rw [vectorBytes, counted_counted, length_counted, Nat.mod_mod, vectorBytes]

theorem reads_strings {ss : List (List UInt8)} (h : ∀ s ∈ ss, s.length < 2 ^ 64) :
    Reads (readStrings ss.length) (ss.map stringBytes).flatten ss := by
  induction ss with
  | nil => exact Reads.pure []
  | cons s ss ih =>
    have htail := (ih fun t ht => h t (List.mem_cons_of_mem s ht)).bindPure
      (f := fun ss => pure (s :: ss)) rfl
    exact (reads_string (h s List.mem_cons_self)).bind htail

theorem reads_vector {ss : List (List UInt8)} (h : ∀ s ∈ counted ss, s.length < 2 ^ 64) :
    Reads readVector (vectorBytes ss) (counted ss) := by
  have hs := reads_strings h
  rw [length_counted] at hs
  exact (reads_int (w := 4) (Nat.mod_lt _ (by decide))).bind hs

/-- A string is no longer than what is written of its vector. -/
theorem length_le_vectorBytes {ss : List (List UInt8)} {s : List UInt8} (h : s ∈ counted ss) :
    s.length ≤ (vectorBytes ss).length := by
  have hflat : (stringBytes s).length ≤ ((counted ss).map stringBytes).flatten.length :=
    (List.sublist_flatten_of_mem (List.mem_map_of_mem h)).length_le
  simp only [vectorBytes, stringBytes, List.length_append, length_intBytes] at hflat ⊢
  omega

end Strings

namespace Application

/-- The strings that are written are no longer than their lengths can say. -/
structure Fits (a : Application) : Prop where
  /-- The arguments. -/
  args : ∀ s ∈ counted a.args, s.length < 2 ^ 64
  /-- The environment variables. -/
  env : ∀ s ∈ counted a.env, s.length < 2 ^ 64
  /-- The working directory. -/
  workingDirectory : a.workingDirectory.length < 2 ^ 64

/-- The application as it is read back. -/
def sent (a : Application) : Application := { a with args := counted a.args, env := counted a.env }

@[simp] theorem sent_sent (a : Application) : a.sent.sent = a.sent := by simp [sent]

theorem Fits.sent {a : Application} (h : a.Fits) : a.sent.Fits :=
  ⟨by simpa [Application.sent] using h.args, by simpa [Application.sent] using h.env, h.workingDirectory⟩

variable [ByteOrder]

/-- `application::write`. -/
def bytes (a : Application) : List UInt8 :=
  u64Bytes a.id ++ (u32Bytes a.uid ++ (u32Bytes a.gid ++ (vectorBytes a.args ++
    (vectorBytes a.env ++ stringBytes a.workingDirectory))))

/-- `application::read`. -/
def read : ReadM Application := do
  let id ← readU64
  let uid ← readU32
  let gid ← readU32
  let args ← readVector
  let env ← readVector
  let workingDirectory ← readString
  pure { id, uid, gid, args, env, workingDirectory }

theorem reads {a : Application} (h : a.Fits) : Reads read a.bytes a.sent :=
  (reads_u64 a.id).bind <| (reads_u32 a.uid).bind <| (reads_u32 a.gid).bind <|
    (reads_vector h.args).bind <| (reads_vector h.env).bind <|
    (reads_string h.workingDirectory).bindPure rfl

theorem bytes_sent (a : Application) : a.sent.bytes = a.bytes := by
  simp only [bytes, sent, vectorBytes_counted]

/-- An application that takes few bytes has short strings. -/
theorem fits_of_length {a : Application} (h : a.bytes.length < 2 ^ 64) : a.Fits := by
  simp only [bytes, List.length_append, stringBytes] at h
  refine ⟨fun s hs => ?_, fun s hs => ?_, by omega⟩
  · have := length_le_vectorBytes hs
    omega
  · have := length_le_vectorBytes hs
    omega

end Application

/-- The union of an application id and an application in a kernel's header. -/
inductive ApplicationSlot where
  /-- The id alone. -/
  | id (n : UInt64)
  /-- The whole application. -/
  | application (a : Application)
  deriving DecidableEq

namespace ApplicationSlot

/-- `source_application_id()` and `target_application_id()`. -/
def toId : ApplicationSlot → UInt64
  | .id n => n
  | .application a => a.id

/-- The field bit that says which member of the union is in use. -/
def isApplication : ApplicationSlot → Bool
  | .id _ => false
  | .application _ => true

/-- An application, if there is one, can be read back. -/
def Fits : ApplicationSlot → Prop
  | .id _ => True
  | .application a => a.Fits

/-- The slot as it is read back. -/
def sent : ApplicationSlot → ApplicationSlot
  | .id n => .id n
  | .application a => .application a.sent

@[simp] theorem sent_sent (s : ApplicationSlot) : s.sent.sent = s.sent := by
  cases s <;> simp [sent]

@[simp] theorem toId_sent (s : ApplicationSlot) : s.sent.toId = s.toId := by
  cases s <;> rfl

@[simp] theorem isApplication_sent (s : ApplicationSlot) : s.sent.isApplication = s.isApplication := by
  cases s <;> rfl

theorem Fits.sent {s : ApplicationSlot} (h : s.Fits) : s.sent.Fits := by
  cases s with
  | id n => trivial
  | application a => exact Application.Fits.sent h

variable [ByteOrder]

/-- What `write_header` lays down for a slot. -/
def bytes : ApplicationSlot → List UInt8
  | .id n => u64Bytes n
  | .application a => a.bytes

/-- What `read_header` reads for a slot, given its field bit. -/
def read (isApplication : Bool) : ReadM ApplicationSlot :=
  if isApplication then .application <$> Application.read else .id <$> readU64

theorem reads {s : ApplicationSlot} (h : s.Fits) : Reads (read s.isApplication) s.bytes s.sent := by
  cases s with
  | id n => exact (reads_u64 n).map ApplicationSlot.id
  | application a => exact (Application.reads h).map ApplicationSlot.application

@[simp] theorem bytes_sent (s : ApplicationSlot) : s.sent.bytes = s.bytes := by
  cases s with
  | id n => rfl
  | application a => exact a.bytes_sent

theorem fits_of_length {s : ApplicationSlot} (h : s.bytes.length < 2 ^ 64) : s.Fits := by
  cases s with
  | id n => trivial
  | application a => exact Application.fits_of_length h

/-- Whichever member is in use, what is laid down starts with the id. -/
theorem bytes_eq (s : ApplicationSlot) : ∃ rest, s.bytes = u64Bytes s.toId ++ rest := by
  cases s with
  | id n => exact ⟨[], (List.append_nil _).symm⟩
  | application a => exact ⟨_, rfl⟩

end ApplicationSlot

/-! ### Headers -/

/-- The bits of `kernel_field` that no other field determines. -/
structure Fields where
  /-- `kernel_field::source` is set, whether or not the kernel has a source. -/
  source : Bool := false
  /-- `kernel_field::destination` is set, whether or not the kernel has a destination. -/
  destination : Bool := false
  /-- The bits without a name. -/
  rest : BitVec 3 := 0
  deriving DecidableEq

/-- `kernel_field` as a byte, from the most significant bit to the least. -/
def kernelFields (rest : BitVec 3)
    (nodeFilter targetApplication sourceApplication destination source : Bool) : BitVec 8 :=
  rest ++ BitVec.ofBool nodeFilter ++ BitVec.ofBool targetApplication ++
    BitVec.ofBool sourceApplication ++ BitVec.ofBool destination ++ BitVec.ofBool source

/-- Every bit of the fields is where the enumeration puts it. -/
theorem kernelFields_bits : ∀ (rest : BitVec 3)
    (nodeFilter targetApplication sourceApplication destination source : Bool),
    let f := kernelFields rest nodeFilter targetApplication sourceApplication destination source
    f.getLsbD 0 = source ∧ f.getLsbD 1 = destination ∧ f.getLsbD 2 = sourceApplication ∧
      f.getLsbD 3 = targetApplication ∧ f.getLsbD 4 = nodeFilter ∧ f.extractLsb' 5 3 = rest := by
  decide

/-- The part of a kernel that `read_header` reads and `swap_header` swaps. -/
structure Header where
  /-- `_fields`, as far as no other field determines it. -/
  fields : Fields
  /-- `_source_application`. -/
  sourceApplication : ApplicationSlot
  /-- `_target_application`. -/
  targetApplication : ApplicationSlot
  /-- `_source`. -/
  source : SocketAddress
  /-- `_destination`. -/
  destination : SocketAddress
  deriving DecidableEq

namespace Header

/-- The fields that `write_header` writes: those of the header, and those of the
addresses that are set. -/
def written (h : Header) : Fields where
  source := h.fields.source || h.source.isSet
  destination := h.fields.destination || h.destination.isSet
  rest := h.fields.rest

/-- The header as it is read back: the bits of its addresses are set now. -/
def sent (h : Header) : Header :=
  { h with
    fields := h.written
    sourceApplication := h.sourceApplication.sent
    targetApplication := h.targetApplication.sent }

@[simp] theorem written_sent (h : Header) : h.sent.written = h.written := by
  simp [sent, written]

@[simp] theorem sent_sent (h : Header) : h.sent.sent = h.sent := by
  simp [sent, written]

/-- The fields as `_fields` that `write_header` writes. `nodeFilter` is
`kernel_field::node_filter`. -/
def byte (h : Header) (nodeFilter : Bool) : BitVec 8 :=
  kernelFields h.written.rest nodeFilter h.targetApplication.isApplication
    h.sourceApplication.isApplication h.written.destination h.written.source

variable [ByteOrder]

/-- An address is written when its bit is set. -/
def addressBytes (present : Bool) (a : SocketAddress) : List UInt8 := if present then a.wire else []

/-- `write_header`. -/
def bytes (h : Header) (nodeFilter : Bool) : List UInt8 :=
  flagBytes (w := 1) (h.byte nodeFilter) ++ (h.sourceApplication.bytes ++ (h.targetApplication.bytes ++
    (addressBytes h.written.source h.source ++ addressBytes h.written.destination h.destination)))

theorem bytes_sent (h : Header) (nodeFilter : Bool) : h.sent.bytes nodeFilter = h.bytes nodeFilter := by
  rw [bytes, byte, written_sent]
  simp only [sent, ApplicationSlot.bytes_sent, ApplicationSlot.isApplication_sent]
  rfl

/-- An address is read when its bit is set. -/
def readAddress (present : Bool) : ReadM SocketAddress :=
  if present then SocketAddress.read else pure SocketAddress.unset

/-- `read_header`: the header and the node filter bit. -/
def read : ReadM (Header × Bool) := do
  let f ← readFlags 1
  let sourceApplication ← ApplicationSlot.read (f.getLsbD 2)
  let targetApplication ← ApplicationSlot.read (f.getLsbD 3)
  let source ← readAddress (f.getLsbD 0)
  let destination ← readAddress (f.getLsbD 1)
  let fields := ⟨f.getLsbD 0, f.getLsbD 1, f.extractLsb' 5 3⟩
  pure ({ fields, sourceApplication, targetApplication, source, destination }, f.getLsbD 4)

theorem reads_address {present : Bool} {a : SocketAddress} (h : a.isSet → present) :
    Reads (readAddress present) (addressBytes present a) a := by
  cases present with
  | true => exact SocketAddress.reads a
  | false =>
    have ha : a.isSet = false := by simpa using h
    rw [SocketAddress.eq_unset_of_isSet ha]
    exact Reads.pure SocketAddress.unset

/-- **A header is read back** with the bits of its addresses set. -/
theorem reads {h : Header} (hs : h.sourceApplication.Fits) (ht : h.targetApplication.Fits)
    (nodeFilter : Bool) : Reads read (h.bytes nodeFilter) (h.sent, nodeFilter) := by
  obtain ⟨h0, h1, h2, h3, h4, h5⟩ := kernelFields_bits h.written.rest nodeFilter
    h.targetApplication.isApplication h.sourceApplication.isApplication h.written.destination
    h.written.source
  refine (reads_flags (w := 1) (h.byte nodeFilter)).bind ?_
  simp only [byte, h0, h1, h2, h3, h4, h5]
  have hsource : h.source.isSet → h.written.source := fun ha => by simp [written, ha]
  have hdestination : h.destination.isSet → h.written.destination := fun ha => by simp [written, ha]
  exact (ApplicationSlot.reads hs).bind <| (ApplicationSlot.reads ht).bind <|
    (reads_address hsource).bind <| (reads_address hdestination).bindPure rfl

end Header

/-! ### Phases, flags and exit codes -/

/-- `kernel::phases`. Any byte may come off the wire. -/
structure Phases where
  /-- The underlying `sys::u8`. -/
  byte : UInt8
  deriving DecidableEq, Repr

namespace Phases

/-- On the way to a subordinate. -/
def upstream : Phases := ⟨1⟩
/-- On the way back to the parent. -/
def downstream : Phases := ⟨2⟩
/-- On the way to the principal at a given node. -/
def pointToPoint : Phases := ⟨3⟩
/-- On the way to every node. -/
def broadcast : Phases := ⟨4⟩

end Phases

/-- `kernel_flag`, as far as the modelled code looks at it. -/
inductive KernelFlag where
  /-- The kernel carries a copy of its parent. -/
  | carriesParent
  /-- `_parent_id` of the union is in use. -/
  | parentIsId
  /-- `_principal_id` of the union is in use. -/
  | principalIsId
  /-- The kernel is logged even if it does not carry its parent. -/
  | transactional
  deriving DecidableEq, Repr

/-- The position of the flag's bit. -/
def KernelFlag.bit : KernelFlag → ℕ
  | .carriesParent => 1
  | .parentIsId => 2
  | .principalIsId => 3
  | .transactional => 4

/-- A set of flags. -/
abbrev KernelFlags := BitVec 32

namespace KernelFlags

/-- `isset`. -/
def isset (s : KernelFlags) (f : KernelFlag) : Bool := s.getLsbD f.bit

/-- `setf`. -/
def setf (s : KernelFlags) (f : KernelFlag) : KernelFlags := s ||| BitVec.twoPow 32 f.bit

/-- `unsetf`. -/
def unsetf (s : KernelFlags) (f : KernelFlag) : KernelFlags := s &&& ~~~ BitVec.twoPow 32 f.bit

@[simp] theorem isset_setf (s : KernelFlags) (f g : KernelFlag) :
    (s.setf f).isset g = (s.isset g || decide (f = g)) := by
  cases f <;> cases g <;> simp [isset, setf, KernelFlag.bit]

@[simp] theorem isset_unsetf (s : KernelFlags) (f g : KernelFlag) :
    (s.unsetf f).isset g = (s.isset g && decide (f ≠ g)) := by
  cases f <;> cases g <;> simp [isset, unsetf, KernelFlag.bit]

@[simp] theorem setf_setf (s : KernelFlags) (f : KernelFlag) : (s.setf f).setf f = s.setf f := by
  rw [setf, setf, BitVec.or_assoc, BitVec.or_self]

@[simp] theorem unsetf_unsetf (s : KernelFlags) (f : KernelFlag) : (s.unsetf f).unsetf f = s.unsetf f := by
  rw [unsetf, unsetf, BitVec.and_assoc, BitVec.and_self]

@[simp] theorem setf_unsetf (s : KernelFlags) (f : KernelFlag) : (s.unsetf f).setf f = s.setf f := by
  rw [setf, unsetf, setf]
  ext i
  cases h : (BitVec.twoPow 32 f.bit).getLsbD i <;> simp_all

theorem setf_comm (s : KernelFlags) (f g : KernelFlag) : (s.setf f).setf g = (s.setf g).setf f := by
  rw [setf, setf, BitVec.or_assoc, BitVec.or_comm (BitVec.twoPow 32 f.bit), ← BitVec.or_assoc]
  rfl

/-- The flags that `kernel::read` leaves: whatever came, the parent and the principal are
ids. -/
def received (s : KernelFlags) : KernelFlags := (s.setf .parentIsId).setf .principalIsId

/-- Nothing more changes the second time. -/
@[simp] theorem received_received (s : KernelFlags) : s.received.received = s.received := by
  rw [received, received, setf_comm (s.setf .parentIsId), setf_setf, setf_setf]

@[simp] theorem received_unsetf (s : KernelFlags) : (s.unsetf .parentIsId).received = s.received := by
  rw [received, setf_unsetf, received]

@[simp] theorem isset_received (s : KernelFlags) (f : KernelFlag) :
    s.received.isset f = (s.isset f || decide (.parentIsId = f) || decide (.principalIsId = f)) := by
  rw [received, isset_setf, isset_setf]

end KernelFlags

/-- `exit_code`. Any value may come off the wire. -/
structure ExitCode where
  /-- The underlying `sys::u16`. -/
  code : UInt16
  deriving DecidableEq, Repr

namespace ExitCode

/-- `success`. -/
def success : ExitCode := ⟨0⟩
/-- `undefined`: the kernel has not returned yet. -/
def undefined : ExitCode := ⟨1⟩
/-- `error`. -/
def error : ExitCode := ⟨2⟩
/-- `endpoint_not_connected`. -/
def endpointNotConnected : ExitCode := ⟨3⟩
/-- `no_principal_found`. -/
def noPrincipalFound : ExitCode := ⟨4⟩
/-- `no_upstream_servers_available`. -/
def noUpstreamServersAvailable : ExitCode := ⟨5⟩
/-- `no_resources`. -/
def noResources : ExitCode := ⟨6⟩

end ExitCode

/-! ### Kernels -/

/-- What a kernel adds to the fields of `sbn::kernel`. -/
inductive Payload (P : Type) where
  /-- A kernel of the class with the given type name, and the state of the class. -/
  | native (index : String) (state : P)
  /-- A `foreign_kernel`, and the bytes it has not looked into. -/
  | foreign (bytes : List UInt8)
  deriving DecidableEq

/-- `kernel`. -/
structure Kernel (P : Type) extends Header where
  /-- `_id`. -/
  id : UInt64 := 0
  /-- `_old_id`. -/
  oldId : UInt64 := 0
  /-- `_phase`. -/
  phase : Phases := .upstream
  /-- The union of `_parent` and `_parent_id`. -/
  parentWord : UInt64 := 0
  /-- The union of `_principal` and `_principal_id`. -/
  principalWord : UInt64 := 0
  /-- `_path`. -/
  path : List UInt8 := []
  /-- `_weight`. -/
  weight : UInt32 := 1
  /-- `_node_filter`. -/
  nodeFilter : Option Resources.Expression := none
  /-- `_type_id`. -/
  typeId : UInt16 := 0
  /-- `_result`. -/
  result : ExitCode := .undefined
  /-- `_at`. -/
  atTime : UInt64 := 0
  /-- `_flags`. -/
  flags : KernelFlags := 0
  /-- What the class of the kernel adds. -/
  payload : Payload P
  deriving DecidableEq

/-- What the raw pointers to kernels point to. The null pointer is zero. -/
abbrev Memory (P : Type) := UInt64 → Kernel P

/-- The header of a new kernel: both applications are this one. -/
def Header.fresh (thisApplication : UInt64) : Header where
  fields := {}
  sourceApplication := .id thisApplication
  targetApplication := .id thisApplication
  source := .unset
  destination := .unset

namespace Kernel

variable {P : Type}

/-- A new kernel. -/
def fresh (thisApplication : UInt64) (payload : Payload P) : Kernel P :=
  { Header.fresh thisApplication with payload }

/-- `swap_header`, as far as this kernel goes. -/
def swapHeader (k : Kernel P) (header : Header) : Kernel P := { k with toHeader := header }

/-- `is_native()`. -/
def isNative (k : Kernel P) : Bool :=
  match k.payload with
  | .native _ _ => true
  | .foreign _ => false

/-- `isset`. -/
def isset (k : Kernel P) (f : KernelFlag) : Bool := k.flags.isset f

/-- `carries_parent()`. -/
def carriesParent (k : Kernel P) : Bool := k.isset .carriesParent

/-- `has_id()`. -/
def hasId (k : Kernel P) : Bool := k.id ≠ 0

/-- `source_application_id()`. -/
def sourceApplicationId (k : Kernel P) : UInt64 := k.sourceApplication.toId

/-- `target_application_id()`. -/
def targetApplicationId (k : Kernel P) : UInt64 := k.targetApplication.toId

theorem targetApplicationId_sent (k : Kernel P) : k.sent.targetApplication.toId = k.targetApplicationId :=
  k.targetApplication.toId_sent

/-- `parent()`: the null pointer when the union holds an id. -/
def parent (k : Kernel P) : UInt64 := if k.isset .parentIsId then 0 else k.parentWord

/-- `principal()`. -/
def principal (k : Kernel P) : UInt64 := if k.isset .principalIsId then 0 else k.principalWord

/-- `parent_id()`. -/
def parentId (mem : Memory P) (k : Kernel P) : UInt64 :=
  if k.isset .parentIsId then k.parentWord
  else if k.parentWord = 0 then 0 else (mem k.parentWord).id

/-- `principal_id()`. -/
def principalId (mem : Memory P) (k : Kernel P) : UInt64 :=
  if k.isset .principalIsId then k.principalWord
  else if k.principalWord = 0 then 0 else (mem k.principalWord).id

/-- `weights()`: a kernel of the greatest weight takes a whole node. -/
def weights (k : Kernel P) : WeightArray :=
  if k.weight = Weight.max then ⟨⟨1⟩, ⟨0⟩⟩ else ⟨⟨0⟩, ⟨k.weight⟩⟩

/-- `parent(kernel*)`. -/
def setParent (k : Kernel P) (p : UInt64) : Kernel P :=
  { k with parentWord := p, flags := k.flags.unsetf .parentIsId }

/-- `principal(kernel*)`. -/
def setPrincipal (k : Kernel P) (p : UInt64) : Kernel P :=
  { k with principalWord := p, flags := k.flags.unsetf .principalIsId }

/-- `principal_id(id_type)`. -/
def setPrincipalId (k : Kernel P) (n : UInt64) : Kernel P :=
  { k with principalWord := n, flags := k.flags.setf .principalIsId }

/-- `return_to_parent(exit_code)`: the parent becomes the principal, the source the
destination, and the applications change places. -/
def returnToParent (k : Kernel P) (ret : ExitCode) : Kernel P :=
  let k := if k.isset .parentIsId then k.setPrincipalId k.parentWord else k.setPrincipal k.parentWord
  { k with
    result := ret
    destination := k.source
    phase := .downstream
    sourceApplication := k.targetApplication
    targetApplication := k.sourceApplication }

theorem isNative_of_native {k : Kernel P} {index : String} {state : P}
    (hk : k.payload = .native index state) : k.isNative = true := by
  rw [isNative, hk]

theorem isNative_of_foreign {k : Kernel P} {bs : List UInt8} (hk : k.payload = .foreign bs) :
    k.isNative = false := by
  rw [isNative, hk]

@[simp] theorem parent_setParent (k : Kernel P) (p : UInt64) : (k.setParent p).parent = p := by
  simp [parent, setParent, isset]

@[simp] theorem principal_setPrincipal (k : Kernel P) (p : UInt64) :
    (k.setPrincipal p).principal = p := by
  simp [principal, setPrincipal, isset]

@[simp] theorem parent_setPrincipal (k : Kernel P) (p : UInt64) :
    (k.setPrincipal p).parent = k.parent := by
  cases h : k.flags.isset .parentIsId <;> simp [parent, setPrincipal, isset, h]

@[simp] theorem phase_returnToParent (k : Kernel P) (ret : ExitCode) :
    (k.returnToParent ret).phase = .downstream := rfl

@[simp] theorem result_returnToParent (k : Kernel P) (ret : ExitCode) :
    (k.returnToParent ret).result = ret := rfl

/-! ### The binary form -/

variable [ByteOrder]

/-- `kernel::write`. -/
def bytes (mem : Memory P) (k : Kernel P) : List UInt8 :=
  u16Bytes k.result.code ++ (u64Bytes k.id ++ (u64Bytes k.oldId ++ (u64Bytes k.atTime ++
    (flagBytes (w := 4) k.flags ++ (u64Bytes (k.parentId mem) ++ (u64Bytes (k.principalId mem) ++
    (u8Bytes k.phase.byte ++ (stringBytes k.path ++ (u32Bytes k.weight ++
    (match k.nodeFilter with
      | none => []
      | some e => e.bytes))))))))))

/-- The node filter is read when its bit is set. -/
def readFilter (k : Kernel P) (hasFilter : Bool) : ReadM (Option Resources.Expression) :=
  if hasFilter then some <$> Resources.Expression.read else pure k.nodeFilter

/-- `kernel::read`, given the node filter bit. -/
def read (k : Kernel P) (hasFilter : Bool) : ReadM (Kernel P) := do
  let code ← readU16
  let id ← readU64
  let oldId ← readU64
  let atTime ← readU64
  let flags ← readFlags 4
  let parentWord ← readU64
  let principalWord ← readU64
  let byte ← readU8
  let path ← readString
  let weight ← readU32
  let nodeFilter ← k.readFilter hasFilter
  pure { k with
    result := ⟨code⟩, id, oldId, atTime, parentWord, principalWord, phase := ⟨byte⟩, path, weight,
    nodeFilter, flags := KernelFlags.received flags }

/-- What becomes of the kernel `k₀`, which has no filter, when it reads what `k` wrote. -/
def copyOf (mem : Memory P) (k₀ k : Kernel P) : Kernel P :=
  { k₀ with
    result := k.result, id := k.id, oldId := k.oldId, atTime := k.atTime,
    parentWord := k.parentId mem, principalWord := k.principalId mem, phase := k.phase, path := k.path,
    weight := k.weight, nodeFilter := k.nodeFilter,
    flags := k.flags.received }

/-- The parts of the kernel whose binary form depends on their value can be read back. -/
structure Encodable (k : Kernel P) : Prop where
  /-- The source application. -/
  sourceApplication : k.sourceApplication.Fits
  /-- The target application. -/
  targetApplication : k.targetApplication.Fits
  /-- The length of the path. -/
  path : k.path.length < 2 ^ 64
  /-- The node filter, if there is one. -/
  nodeFilter : ∀ e, k.nodeFilter = some e → e.Survives

/-- **What `kernel::write` wrote, `kernel::read` reads.** -/
theorem reads {k₀ k : Kernel P} (h : k.Encodable) (h₀ : k₀.nodeFilter = none) (mem : Memory P) :
    Reads (k₀.read k.nodeFilter.isSome) (k.bytes mem) (copyOf mem k₀ k) := by
  refine (reads_u16 k.result.code).bind <| (reads_u64 k.id).bind <| (reads_u64 k.oldId).bind <|
    (reads_u64 k.atTime).bind <| (reads_flags (w := 4) k.flags).bind <|
    (reads_u64 (k.parentId mem)).bind <| (reads_u64 (k.principalId mem)).bind <|
    (reads_u8 k.phase.byte).bind <| (reads_string h.path).bind <| (reads_u32 k.weight).bind ?_
  cases he : k.nodeFilter with
  | none =>
    refine Reads.bindNil (Reads.pure k₀.nodeFilter) ?_
    rw [copyOf, he, h₀]
    exact Reads.pure _
  | some e =>
    refine Reads.bindPure ((h.nodeFilter e he).map some) ?_
    rw [copyOf, he]

/-- Whatever comes after them, the id is read and the header stays. -/
theorem read_ok {k₀ k k' : Kernel P} {hasFilter : Bool} {mem : Memory P} {rest w : List UInt8}
    (h : k₀.read hasFilter (k.bytes mem ++ rest) = .ok k' w) :
    k'.id = k.id ∧ k'.toHeader = k₀.toHeader := by
  rw [read, bytes, List.append_assoc, (reads_u16 k.result.code).bind_apply, List.append_assoc,
    (reads_u64 k.id).bind_apply] at h
  refine Returns.after (p := fun k' => k'.id = k.id ∧ k'.toHeader = k₀.toHeader) ?_ _ _ _ h
  iterate 8 (intro; refine Returns.after ?_)
  intro nodeFilter
  exact Returns.pure ⟨rfl, rfl⟩

end Kernel

end Subordination.Core
