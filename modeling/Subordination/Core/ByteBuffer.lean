import Subordination.Library.Bytes

/-!
# Byte buffers

`sys::byte_buffer` is not part of the repository; this module gives it the
semantics the repository relies on: a store with a position and a limit, where
`write` puts bytes at the position and moves it on (growing the store as needed),
`read` takes bytes between the position and the limit and throws
`std::range_error` when there are too few, `flip` turns what was written into what
can be read, and `compact` carries what was not read over to the next writing.
Integers are written in a fixed byte order, and a `std::string` as its 64-bit
length followed by its bytes.

## The model

A decoder is a `ReadM`: a computation over the bytes between the position and the
limit that may throw, leaving the bytes it has not taken. An encoder is a `PutM`:
a computation over the whole buffer that may throw, leaving what it has written.
In both an exception keeps the state at the throw, as in the source, where the
frame guards run their destructors on it.

* `Reads m bs a` — from any buffer that starts with `bs`, the decoder `m` takes
  exactly `bs` and returns `a`.
* `ReadsAll m bs a` — the same where `bs` is all there is up to the limit.
* `Writes m bs` — the encoder `m` appends exactly `bs`.
-/

namespace Subordination.Core

open Library

/-- What the modelled code throws. -/
inductive Exception where
  /-- `std::range_error`: a read past the limit. -/
  | rangeError
  /-- `std::invalid_argument`. -/
  | invalidArgument (what : String)
  /-- `sbn::error`. -/
  | error (what : String)
  /-- An exception from outside the repository: a user's `read`, `write` or handler. -/
  | foreign (what : String)
  deriving DecidableEq, Repr

/-- The byte orders: frame headers are copied as they are in memory, everything else
goes through `sys::byte_buffer`. -/
class ByteOrder where
  /-- The order of an integer in memory. -/
  host : Endian
  /-- The order in which `sys::byte_buffer` writes an integer. -/
  wire : Endian

/-- A little-endian machine that writes integers in network order. -/
@[reducible] def ByteOrder.littleEndian : ByteOrder := ⟨.little, .big⟩

/-- `sys::byte_buffer`: the store, the position and the limit. The model keeps no
spare capacity, a write grows the store by what it needs. -/
structure ByteBuffer where
  /-- The bytes in store. -/
  data : List UInt8
  /-- Where the next byte is read or written. -/
  position : ℕ
  /-- Where reading stops. -/
  limit : ℕ
  deriving DecidableEq, Repr

namespace ByteBuffer

/-- A fresh buffer. -/
def empty : ByteBuffer := ⟨[], 0, 0⟩

/-- `remaining()`: a `size_t` difference, which wraps when the position is past the limit. -/
def remaining (b : ByteBuffer) : ℕ :=
  if b.position ≤ b.limit then b.limit - b.position else b.limit + 2 ^ 64 - b.position

/-- The bytes between the position and the limit. -/
def window (b : ByteBuffer) : List UInt8 := (b.data.take b.limit).drop b.position

/-- The bytes before the position: what has been written. -/
def content (b : ByteBuffer) : List UInt8 := b.data.take b.position

/-- `write(src, n)`: the bytes are put at the position, over what is there. -/
def put (b : ByteBuffer) (bs : List UInt8) : ByteBuffer where
  data := b.data.take b.position ++ bs ++ b.data.drop (b.position + bs.length)
  position := b.position + bs.length
  limit := max b.limit (b.position + bs.length)

/-- `bump(n)`: move the position without writing. -/
def bump (b : ByteBuffer) (n : ℕ) : ByteBuffer :=
  { b with
    data := b.data ++ List.replicate (b.position + n - b.data.length) 0
    position := b.position + n }

/-- `flip()`: from writing to reading. -/
def flip (b : ByteBuffer) : ByteBuffer := { b with position := 0, limit := b.position }

/-- `compact()`: from reading back to writing, after what has not been read. -/
def compact (b : ByteBuffer) : ByteBuffer := ⟨b.window, b.window.length, b.window.length⟩

/-- `fill(source)`: append what the source delivers. -/
def fill (b : ByteBuffer) (chunk : List UInt8) : ByteBuffer := b.put chunk

/-- `flush(sink)`: hand everything up to the limit to the sink. -/
def flush (b : ByteBuffer) : List UInt8 × ByteBuffer := (b.window, { b with position := b.limit })

/-- The position and the limit lie inside the store, in this order. -/
structure Valid (b : ByteBuffer) : Prop where
  /-- The position is at most the limit. -/
  position_le : b.position ≤ b.limit
  /-- The limit is at most the size of the store. -/
  limit_le : b.limit ≤ b.data.length

theorem Valid.length_window {b : ByteBuffer} (h : b.Valid) : b.window.length = b.limit - b.position := by
  rw [window, List.length_drop, List.length_take, min_eq_left h.limit_le]

theorem Valid.remaining_eq {b : ByteBuffer} (h : b.Valid) : b.remaining = b.window.length := by
  rw [remaining, if_pos h.position_le, h.length_window]

theorem Valid.take_drop_data {b : ByteBuffer} (h : b.Valid) {n : ℕ} (hn : n ≤ b.window.length) :
    (b.data.drop b.position).take n = b.window.take n := by
  rw [h.length_window] at hn
  rw [window, List.drop_take, List.take_take, min_eq_left hn]

theorem content_empty : empty.content = [] := rfl

theorem length_content {b : ByteBuffer} (h : b.position ≤ b.data.length) :
    b.content.length = b.position := by
  rw [content, List.length_take, min_eq_left h]

theorem content_put {b : ByteBuffer} (h : b.position ≤ b.data.length) (bs : List UInt8) :
    (b.put bs).content = b.content ++ bs := by
  have hc := length_content h
  have hlen : (b.data.take b.position ++ bs).length = b.position + bs.length := by
    rw [List.length_append, ← content, hc]
  simp only [content, put]
  rw [List.take_left' hlen]

theorem position_le_put {b : ByteBuffer} (h : b.position ≤ b.data.length) (bs : List UInt8) :
    (b.put bs).position ≤ (b.put bs).data.length := by
  simp only [put, List.length_append, List.length_take, min_eq_left h]
  omega

theorem content_bump {b : ByteBuffer} (h : b.position ≤ b.data.length) (n : ℕ) :
    ∃ junk, junk.length = n ∧ (b.bump n).content = b.content ++ junk := by
  let all := b.data ++ List.replicate (b.position + n - b.data.length) 0
  have hlen : b.position + n ≤ all.length := by
    simp only [all, List.length_append, List.length_replicate]
    omega
  refine ⟨(all.drop b.position).take n, ?_, ?_⟩
  · rw [List.length_take, List.length_drop]
    omega
  · change all.take (b.position + n) = b.data.take b.position ++ _
    rw [List.take_add, List.take_append_of_le_length h]

theorem position_le_bump (b : ByteBuffer) (n : ℕ) : (b.bump n).position ≤ (b.bump n).data.length := by
  simp only [bump, List.length_append, List.length_replicate]
  omega

/-- What was written can be read after `flip`. -/
theorem window_flip (b : ByteBuffer) : b.flip.window = b.content := by
  simp [flip, window, content]

theorem valid_flip {b : ByteBuffer} (h : b.position ≤ b.data.length) : b.flip.Valid :=
  ⟨Nat.zero_le _, h⟩

/-- What is read from a buffer to which a chunk has come. -/
theorem window_flip_fill {b : ByteBuffer} (h : b.position ≤ b.data.length) (chunk : List UInt8) :
    (b.fill chunk).flip.window = b.content ++ chunk :=
  (window_flip _).trans (content_put h chunk)

/-- What was not read is what has been written after `compact`. -/
theorem content_compact (b : ByteBuffer) : b.compact.content = b.window := by
  simp [compact, content]

/-- Nothing is left after a `flush`. -/
theorem compact_flush (b : ByteBuffer) : b.flush.2.compact = empty := by
  have hw : b.flush.2.window = [] :=
    List.drop_eq_nil_of_le (by rw [List.length_take]; exact Nat.min_le_left _ _)
  rw [compact, hw]
  rfl

theorem position_le_compact (b : ByteBuffer) : b.compact.position ≤ b.compact.data.length := le_rfl

end ByteBuffer

/-! ### Decoders -/

/-- A decoder, over the bytes between the position and the limit. -/
abbrev ReadM := EStateM Exception (List UInt8)

/-- `read(dst, n)`. -/
def readBytes (n : ℕ) : ReadM (List UInt8) := fun w =>
  if w.length < n then .error .rangeError w else .ok (w.take n) (w.drop n)

/-- The decoder takes exactly the given bytes and returns the given value. -/
def Reads {α : Type} (m : ReadM α) (bs : List UInt8) (a : α) : Prop :=
  ∀ rest, m (bs ++ rest) = .ok a rest

/-- The decoder takes the given bytes, when they are all there is, and returns the
given value. -/
def ReadsAll {α : Type} (m : ReadM α) (bs : List UInt8) (a : α) : Prop := m bs = .ok a []

section Reads

variable {α β : Type} {m : ReadM α} {f : α → ReadM β} {bs cs : List UInt8} {a : α} {c : β}

theorem Reads.readsAll (h : Reads m bs a) : ReadsAll m bs a := by
  have := h []
  rwa [List.append_nil] at this

/-- What two decoders do one after the other. -/
theorem bind_eq_ok {w w₁ w' : List UInt8} (h : m w = .ok a w₁) (hf : f a w₁ = .ok c w') :
    (m >>= f) w = .ok c w' := by
  change EStateM.bind m f w = _
  rw [EStateM.bind, h]
  exact hf

theorem Reads.pure (a : α) : Reads (Pure.pure a) [] a := fun _ => rfl

theorem Reads.bind (h : Reads m bs a) (hf : Reads (f a) cs c) : Reads (m >>= f) (bs ++ cs) c := by
  intro rest
  rw [List.append_assoc]
  exact bind_eq_ok (h _) (hf rest)

theorem Reads.bindAll (h : Reads m bs a) (hf : ReadsAll (f a) cs c) :
    ReadsAll (m >>= f) (bs ++ cs) c :=
  bind_eq_ok (h cs) hf

/-- The last step of a decoder that takes all there is. -/
theorem ReadsAll.bindPure (h : ReadsAll m bs a) (hf : f a = Pure.pure c) : ReadsAll (m >>= f) bs c :=
  bind_eq_ok h (congrFun hf [])

theorem Reads.map (h : Reads m bs a) (g : α → β) : Reads (g <$> m) bs (g a) := by
  intro rest
  change EStateM.map g m _ = _
  rw [EStateM.map, h]

/-- A decoder that takes nothing may be run before another. -/
theorem Reads.bindNil (h : Reads m [] a) (hf : Reads (f a) cs c) : Reads (m >>= f) cs c :=
  h.bind hf

/-- The last step of a decoder that ends by returning a value. -/
theorem Reads.bindPure (h : Reads m bs a) (hf : f a = Pure.pure c) : Reads (m >>= f) bs c := by
  have := h.bind (hf ▸ Reads.pure c)
  rwa [List.append_nil] at this

/-- What a sequence of two decoders did, one after the other. -/
theorem bind_ok {w w' : List UInt8} (h : (m >>= f) w = .ok c w') :
    ∃ a w₁, m w = .ok a w₁ ∧ f a w₁ = .ok c w' := by
  change EStateM.bind m f w = _ at h
  rw [EStateM.bind] at h
  split at h
  · exact ⟨_, _, ‹_›, h⟩
  · cases h

/-- What a decoder did whose value is changed. -/
theorem map_ok {g : α → β} {w w' : List UInt8} (h : (g <$> m) w = .ok c w') :
    ∃ a, m w = .ok a w' ∧ g a = c := by
  change EStateM.map g m w = _ at h
  rw [EStateM.map] at h
  split at h
  · next a _ hok =>
    cases h
    exact ⟨a, hok, rfl⟩
  · cases h

/-- Whatever the decoder returns satisfies `p`. -/
def Returns (m : ReadM α) (p : α → Prop) : Prop := ∀ w a w', m w = .ok a w' → p a

theorem Returns.pure {p : α → Prop} (h : p a) : Returns (Pure.pure a) p := by
  intro w b w' e
  cases e
  exact h

/-- What the second of two decoders returns does not depend on the first. -/
theorem Returns.after {p : β → Prop} (hf : ∀ a, Returns (f a) p) : Returns (m >>= f) p := by
  intro w c w' e
  obtain ⟨a, w₁, -, e⟩ := bind_ok e
  exact hf a _ _ _ e

/-- A decoder that has returned is followed by the next. -/
theorem bind_of_ok {w w₁ : List UInt8} (h : m w = .ok a w₁) : (m >>= f) w = f a w₁ := by
  change EStateM.bind m f _ = _
  rw [EStateM.bind, h]

/-- A decoder that starts with bytes it knows goes on with the next. -/
theorem Reads.bind_apply (h : Reads m bs a) (rest : List UInt8) :
    (m >>= f) (bs ++ rest) = f a rest :=
  bind_of_ok (h rest)

end Reads

theorem reads_bytes (bs : List UInt8) : Reads (readBytes bs.length) bs bs := by
  intro rest
  rw [readBytes, if_neg (by rw [List.length_append]; omega), List.take_left, List.drop_left]

/-- As many bytes are read as there should be. -/
theorem length_readBytes {n : ℕ} {w bs w' : List UInt8} (h : readBytes n w = .ok bs w') : bs.length = n := by
  rw [readBytes] at h
  split at h
  · cases h
  · next hlength =>
    cases h
    rw [List.length_take]
    omega

/-! ### Encoders -/

/-- An encoder, over the whole buffer. -/
abbrev PutM := EStateM Exception ByteBuffer

/-- `write(src, n)` of the given bytes. -/
def writeBytes (bs : List UInt8) : PutM Unit := fun b => .ok () (b.put bs)

/-- The encoder appends exactly the given bytes. -/
def Writes (m : PutM Unit) (bs : List UInt8) : Prop :=
  ∀ b : ByteBuffer, b.position ≤ b.data.length →
    ∃ b', m b = .ok () b' ∧ b'.position = b.position + bs.length ∧
      b'.position ≤ b'.data.length ∧ b'.content = b.content ++ bs

theorem writes_bytes (bs : List UInt8) : Writes (writeBytes bs) bs := fun b hb =>
  ⟨b.put bs, rfl, rfl, b.position_le_put hb bs, b.content_put hb bs⟩

theorem Writes.seq {m : PutM Unit} {n : Unit → PutM Unit} {bs cs : List UInt8} (h : Writes m bs)
    (hn : Writes (n ()) cs) : Writes (m >>= n) (bs ++ cs) := by
  intro b hb
  obtain ⟨b₁, e₁, p₁, v₁, c₁⟩ := h b hb
  obtain ⟨b₂, e₂, p₂, v₂, c₂⟩ := hn b₁ v₁
  refine ⟨b₂, ?_, ?_, v₂, ?_⟩
  · change EStateM.bind m n _ = _
    rw [EStateM.bind, e₁]
    exact e₂
  · rw [p₂, p₁, List.length_append, Nat.add_assoc]
  · rw [c₂, c₁, List.append_assoc]

/-- What an encoder appends is determined. -/
theorem Writes.unique {m : PutM Unit} {bs cs : List UInt8} (h : Writes m bs) (h' : Writes m cs) : bs = cs := by
  obtain ⟨b, e, -, -, hc⟩ := h ByteBuffer.empty le_rfl
  obtain ⟨b', e', -, -, hc'⟩ := h' ByteBuffer.empty le_rfl
  cases e.symm.trans e'
  exact List.append_cancel_left (hc.symm.trans hc')

theorem writes_pure : Writes (pure ()) [] := fun b hb =>
  ⟨b, rfl, rfl, hb, (List.append_nil _).symm⟩

/-! ### Integers and strings -/

section Integers

variable [ByteOrder]

/-- An unsigned integer of `w` bytes. -/
def intBytes (w n : ℕ) : List UInt8 := ByteOrder.wire.encode w n

@[simp] theorem length_intBytes (w n : ℕ) : (intBytes w n).length = w := Endian.length_encode _ w n

/-- Read an unsigned integer of `w` bytes. -/
def readInt (w : ℕ) : ReadM ℕ := ByteOrder.wire.decode <$> readBytes w

/-- An integer is read modulo its width. -/
theorem reads_int_mod (w n : ℕ) : Reads (readInt w) (intBytes w n) (n % 256 ^ w) := by
  have hread := (reads_bytes (intBytes w n)).map ByteOrder.wire.decode
  rw [length_intBytes] at hread
  rwa [intBytes, Endian.decode_encode] at hread

theorem reads_int {w n : ℕ} (h : n < 256 ^ w) : Reads (readInt w) (intBytes w n) n := by
  have hread := reads_int_mod w n
  rwa [Nat.mod_eq_of_lt h] at hread

/-- A `sys::u8`. -/
def u8Bytes (n : UInt8) : List UInt8 := intBytes 1 n.toNat
/-- A `sys::u16`. -/
def u16Bytes (n : UInt16) : List UInt8 := intBytes 2 n.toNat
/-- A `sys::u32`. -/
def u32Bytes (n : UInt32) : List UInt8 := intBytes 4 n.toNat
/-- A `sys::u64`. -/
def u64Bytes (n : UInt64) : List UInt8 := intBytes 8 n.toNat
/-- A set of flags, eight to the byte. -/
def flagBytes {w : ℕ} (n : BitVec (8 * w)) : List UInt8 := intBytes w n.toNat

/-- Read a `sys::u8`. -/
def readU8 : ReadM UInt8 := UInt8.ofNat <$> readInt 1
/-- Read a `sys::u16`. -/
def readU16 : ReadM UInt16 := UInt16.ofNat <$> readInt 2
/-- Read a `sys::u32`. -/
def readU32 : ReadM UInt32 := UInt32.ofNat <$> readInt 4
/-- Read a `sys::u64`. -/
def readU64 : ReadM UInt64 := UInt64.ofNat <$> readInt 8
/-- Read a set of flags. -/
def readFlags (w : ℕ) : ReadM (BitVec (8 * w)) := BitVec.ofNat (8 * w) <$> readInt w

@[simp] theorem length_u8Bytes (n : UInt8) : (u8Bytes n).length = 1 := length_intBytes 1 _
@[simp] theorem length_u16Bytes (n : UInt16) : (u16Bytes n).length = 2 := length_intBytes 2 _
@[simp] theorem length_u32Bytes (n : UInt32) : (u32Bytes n).length = 4 := length_intBytes 4 _
@[simp] theorem length_u64Bytes (n : UInt64) : (u64Bytes n).length = 8 := length_intBytes 8 _
@[simp] theorem length_flagBytes {w : ℕ} (n : BitVec (8 * w)) : (flagBytes n).length = w :=
  length_intBytes w _

theorem reads_u8 (n : UInt8) : Reads readU8 (u8Bytes n) n := by
  have := (reads_int (w := 1) n.toNat_lt).map UInt8.ofNat
  rwa [UInt8.ofNat_toNat] at this

theorem reads_u16 (n : UInt16) : Reads readU16 (u16Bytes n) n := by
  have := (reads_int (w := 2) n.toNat_lt).map UInt16.ofNat
  rwa [UInt16.ofNat_toNat] at this

theorem reads_u32 (n : UInt32) : Reads readU32 (u32Bytes n) n := by
  have := (reads_int (w := 4) n.toNat_lt).map UInt32.ofNat
  rwa [UInt32.ofNat_toNat] at this

theorem reads_u64 (n : UInt64) : Reads readU64 (u64Bytes n) n := by
  have := (reads_int (w := 8) n.toNat_lt).map UInt64.ofNat
  rwa [UInt64.ofNat_toNat] at this

theorem reads_flags {w : ℕ} (n : BitVec (8 * w)) : Reads (readFlags w) (flagBytes n) n := by
  have hlt : n.toNat < 256 ^ w := by
    have := n.isLt
    rwa [pow_mul] at this
  have := (reads_int hlt).map (BitVec.ofNat (8 * w))
  rwa [BitVec.ofNat_toNat, BitVec.setWidth_eq] at this

/-- A `std::string`. -/
def stringBytes (s : List UInt8) : List UInt8 := intBytes 8 s.length ++ s

/-- Read a `std::string`. -/
def readString : ReadM (List UInt8) := do
  let n ← readInt 8
  readBytes n

theorem reads_string {s : List UInt8} (h : s.length < 2 ^ 64) :
    Reads readString (stringBytes s) s :=
  (reads_int (w := 8) h).bind (reads_bytes s)

/-- An integer that is read has the width. -/
theorem lt_of_readInt {w n : ℕ} {b b' : List UInt8} (h : readInt w b = .ok n b') : n < 256 ^ w := by
  obtain ⟨bs, hbs, rfl⟩ := map_ok h
  rw [← length_readBytes hbs]
  exact Endian.decode_lt _ bs

/-- A string that is read is not longer than its length can say. -/
theorem length_of_readString {s w w' : List UInt8} (h : readString w = .ok s w') : s.length < 2 ^ 64 := by
  obtain ⟨n, w₁, hn, hbytes⟩ := bind_ok h
  rw [length_readBytes hbytes]
  exact lt_of_readInt hn

end Integers

end Subordination.Core
