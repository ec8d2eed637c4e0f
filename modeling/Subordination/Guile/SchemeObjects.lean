import Mathlib.Data.List.Basic
import Subordination.Core.Vectors

/-!
# Scheme objects in kernel buffers

`object_write` looks at the class of a Scheme object and writes a tag and what the object consists of;
`object_read` looks at the tag (`guile/kernel.cc`). Numbers and characters go through C types of a fixed width, and
texts go through C strings in UTF-8.

## The model

Inexact numbers are the 64 bits of a `double`. Whether `char` is signed is up to the platform. The functions of Guile
that convert numbers and texts are the fields of `Conversions`, together with what is known of them: which values they
convert, and that they throw otherwise. Objects of classes that a user has defined are left out: they are written and
read by the user's procedures.

## What is proved

* `writes_objectWrite`, `fails_objectWrite` — which objects are written.
* `readNested_bytes` — what is written is read back.
* `roundTrips_iff` — which objects come through.
-/

namespace Subordination.Guile

open Subordination.Core

/-! ### Objects -/

/-- A Scheme object, `SCM`. -/
inductive Scm where
  /-- `SCM_UNDEFINED`. -/
  | undefined
  /-- `SCM_UNSPECIFIED`, of class `<unknown>`. -/
  | unspecified
  /-- Class `<integer>`. -/
  | integer (n : ℤ)
  /-- Class `<real>`: the bits of the number. -/
  | real (bits : UInt64)
  /-- Class `<complex>`. -/
  | complex (re im : UInt64)
  /-- Class `<boolean>`. -/
  | boolean (b : Bool)
  /-- A character is any code point. -/
  | character (c : Char)
  /-- A string. -/
  | string (s : String)
  /-- A symbol, by its name. -/
  | symbol (s : String)
  /-- A keyword, by the name of its symbol. -/
  | keyword (s : String)
  /-- `SCM_EOL`. -/
  | null
  /-- A pair. -/
  | pair (car cdr : Scm)
  deriving DecidableEq, Repr

namespace Scm

/-- `scm_list_p`: the object ends in the empty list. -/
def isList : Scm → Bool
  | null => true
  | pair _ cdr => cdr.isList
  | _ => false

/-- The elements of a list. -/
def toList : Scm → List Scm
  | pair car cdr => car :: cdr.toList
  | _ => []

/-- The list of some elements. -/
def ofList : List Scm → Scm
  | [] => null
  | x :: xs => pair x (ofList xs)

/-- `scm_length`. -/
def length (l : Scm) : ℕ := l.toList.length

end Scm

/-- The tags, `Types`. -/
inductive Types where
  | unknown
  | integer
  | real
  | complex
  | string
  | symbol
  | pair
  | list
  | boolean
  | keyword
  | undefined
  | character
  | userDefined
  deriving DecidableEq, Repr

/-- The number of a tag. -/
def Types.code : Types → UInt16
  | unknown => 0
  | integer => 1
  | real => 2
  | complex => 3
  | string => 4
  | symbol => 5
  | pair => 6
  | list => 7
  | boolean => 8
  | keyword => 9
  | undefined => 10
  | character => 11
  | userDefined => 12

/-- The tag of a number. -/
def Types.ofCode (n : UInt16) : Option Types :=
  [unknown, integer, real, complex, string, symbol, pair, list, boolean, keyword, undefined, character,
    userDefined].find? (·.code = n)

/-! ### Conversions -/

/-- The UTF-8 form of a text. -/
def utf8 (s : String) : List UInt8 := s.toUTF8.data.toList

/-- `std::strlen`. -/
def strlen (ptr : List UInt8) : ℕ := (ptr.takeWhile (· ≠ 0)).length

/-- The characters that fit a `char` are below this number. -/
def charLimit (signedChar : Bool) : ℕ := if signedChar then 128 else 256

/-- The functions of Guile that make C values of objects and objects of C values. -/
structure Conversions where
  /-- `char` is signed. -/
  signedChar : Bool
  /-- `scm_to_uint64`. -/
  toUint64 : ℤ → Except Exception ℕ
  /-- `scm_to_char`. -/
  toChar : ℕ → Except Exception UInt8
  /-- `scm_to_utf8_string`: the bytes before the zero at the end. -/
  toUtf8String : String → Except Exception (List UInt8)
  /-- `scm_from_utf8_string`, `scm_from_utf8_symbol` and `scm_from_utf8_keyword`, of the bytes before the zero. -/
  fromUtf8String : List UInt8 → Except Exception String
  /-- `scm_integer_to_char(scm_from_char(ch))`. -/
  fromChar : UInt8 → Except Exception Char
  /-- Integers of 64 bits without a sign are converted. -/
  toUint64_eq : ∀ {n : ℤ}, 0 ≤ n ∧ n < 2 ^ 64 → toUint64 n = .ok n.toNat
  /-- Others are out of range. -/
  toUint64_throws : ∀ {n : ℤ}, ¬ (0 ≤ n ∧ n < 2 ^ 64) → ∃ x, toUint64 n = .error x
  /-- `char` is an integer type of eight bits. -/
  toChar_eq : ∀ {n : ℕ}, n < charLimit signedChar → toChar n = .ok (UInt8.ofNat n)
  /-- Others are out of range. -/
  toChar_throws : ∀ {n : ℕ}, ¬ n < charLimit signedChar → ∃ x, toChar n = .error x
  /-- Texts without characters NUL whose size fits `size_t` have a C string. -/
  toUtf8String_eq : ∀ {s : String}, 0 ∉ utf8 s ∧ (utf8 s).length + 1 < 2 ^ 64 → toUtf8String s = .ok (utf8 s)
  /-- Others have none. -/
  toUtf8String_throws : ∀ {s : String}, ¬ (0 ∉ utf8 s ∧ (utf8 s).length + 1 < 2 ^ 64) → ∃ x, toUtf8String s = .error x
  /-- A text is made of its UTF-8 form. -/
  fromUtf8String_utf8 : ∀ s : String, fromUtf8String (utf8 s) = .ok s
  /-- A character is made of a number that is not negative. -/
  fromChar_eq : ∀ {ch : UInt8}, ch.toNat < charLimit signedChar → fromChar ch = .ok (Char.ofNat ch.toNat)

/-- Conversions that do what is known of them, and throw otherwise. -/
def Conversions.plain (signedChar : Bool) : Conversions where
  signedChar
  toUint64 n := if 0 ≤ n ∧ n < 2 ^ 64 then .ok n.toNat else .error (.foreign "out-of-range")
  toChar n := if n < charLimit signedChar then .ok (UInt8.ofNat n) else .error (.foreign "out-of-range")
  toUtf8String s :=
    if 0 ∉ utf8 s ∧ (utf8 s).length + 1 < 2 ^ 64 then .ok (utf8 s) else .error (.foreign "misc-error")
  fromUtf8String bs :=
    match String.fromUTF8? ⟨bs.toArray⟩ with
    | some s => .ok s
    | none => .error (.foreign "decoding-error")
  fromChar ch :=
    if ch.toNat < charLimit signedChar then .ok (Char.ofNat ch.toNat) else .error (.foreign "out-of-range")
  toUint64_eq h := if_pos h
  toUint64_throws h := ⟨_, if_neg h⟩
  toChar_eq h := if_pos h
  toChar_throws h := ⟨_, if_neg h⟩
  toUtf8String_eq h := if_pos h
  toUtf8String_throws h := ⟨_, if_neg h⟩
  fromUtf8String_utf8 s := by
    have hdecoded : String.fromUTF8? ⟨(utf8 s).toArray⟩ = some s := by
      rw [utf8, Array.toArray_toList]
      exact dif_pos s.isValidUTF8
    simp only [hdecoded]
  fromChar_eq h := if_pos h

/-! ### Writing -/

variable [ByteOrder]

/-- `buffer.write(Types::…)`. -/
def writeType (type : Types) : PutM Unit := writeBytes (u16Bytes type.code)

/-- `buffer.write(scm_to_uint64(…))`. -/
def writeUint64 (guile : Conversions) (n : ℤ) : PutM Unit := do
  let n ← ofExcept (guile.toUint64 n)
  writeBytes (intBytes 8 n)

/-- The name of an object as a C string: the length, and that many characters. -/
def writeText (guile : Conversions) (s : String) : PutM Unit := do
  let ptr ← ofExcept (guile.toUtf8String s)
  let n := strlen ptr
  writeBytes (intBytes 8 n)
  writeBytes (ptr.take n)

mutual

/-- `object_write`. -/
def objectWrite (guile : Conversions) : Scm → PutM Unit
  | .undefined => writeType .undefined
  | .integer n => do
    writeType .integer
    writeUint64 guile n
  | .real bits => do
    writeType .real
    writeBytes (u64Bytes bits)
  | .complex re im => do
    writeType .complex
    writeBytes (u64Bytes re)
    writeBytes (u64Bytes im)
  | .boolean b => do
    writeType .boolean
    writeBytes (u8Bytes (if b then 1 else 0))
  | .unspecified => writeType .unknown
  | .character c => do
    writeType .character
    let ch ← ofExcept (guile.toChar c.toNat)
    writeBytes (u8Bytes ch)
  | .string s => do
    writeType .string
    writeText guile s
  | .symbol s => do
    writeType .symbol
    writeText guile s
  | .keyword s => do
    writeType .keyword
    writeText guile s
  | .null => do
    writeType .list
    writeUint64 guile 0
  | .pair car cdr =>
    if cdr.isList then do
      writeType .list
      writeUint64 guile (cdr.length + 1 : ℕ)
      objectWrite guile car
      writeElements guile cdr
    else do
      writeType .pair
      objectWrite guile car
      objectWrite guile cdr

/-- The loop over the elements of a list. -/
def writeElements (guile : Conversions) : Scm → PutM Unit
  | .pair car cdr => do
    objectWrite guile car
    writeElements guile cdr
  | _ => pure ()

end

/-! ### Reading -/

/-- A text of an object. -/
def readText (guile : Conversions) : ReadM String := do
  let s ← readString
  ofExcept (guile.fromUtf8String (s.takeWhile (· ≠ 0)))

/-- The branches of `object_read`, given the reader of the objects inside. -/
def readAs (guile : Conversions) (nested : ReadM Scm) : Types → ReadM Scm
  | .unknown => return .unspecified
  | .undefined => return .undefined
  | .integer => return .integer (← readInt 8)
  | .real => return .real (← readU64)
  | .complex => do
    let a ← readU64
    let b ← readU64
    return .complex a b
  | .boolean => return .boolean ((← readU8) ≠ 0)
  | .string => return .string (← readText guile)
  | .symbol => return .symbol (← readText guile)
  | .keyword => return .keyword (← readText guile)
  | .character => do
    let ch ← readU8
    return .character (← ofExcept (guile.fromChar ch))
  | .pair => do
    let a ← nested
    let b ← nested
    return .pair a b
  | .list => do
    let n ← readInt 8
    return .ofList (← readElements nested n)
  | .userDefined => throw (.foreign "user-defined")

/-- `object_read`, with at most `fuel` nested calls. -/
def readNested (guile : Conversions) : ℕ → ReadM Scm
  | 0 => throw .rangeError
  | fuel + 1 => do
    let type ← readU16
    match Types.ofCode type with
    | some t => readAs guile (readNested guile fuel) t
    | none => throw (.invalidArgument ("Unsupported type: " ++ toString type.toNat))

/-- `object_read`. Every nested call takes a tag first, so there are never more of them than bytes. -/
def objectRead (guile : Conversions) : ReadM Scm := fun w => readNested guile (w.length + 1) w

/-- The object is written, and from what is written exactly the object is read. -/
def RoundTrips (guile : Conversions) (object : Scm) : Prop :=
  ∃ bs, Writes (objectWrite guile object) bs ∧ Reads (objectRead guile) bs object

namespace Scm

/-- A text without characters NUL whose size fits. -/
def Short (s : String) : Prop := '\x00' ∉ s.toList ∧ (utf8 s).length + 1 < 2 ^ 64

/-- Integers fit 64 bits without a sign, characters fit a `char`, texts are C strings, and so on down to any depth. -/
def Writable (guile : Conversions) : Scm → Prop
  | integer n => 0 ≤ n ∧ n < 2 ^ 64
  | character c => c.toNat < charLimit guile.signedChar
  | string s => Short s
  | symbol s => Short s
  | keyword s => Short s
  | pair car cdr => car.Writable guile ∧ cdr.Writable guile ∧ (cdr.isList = true → cdr.length + 1 < 2 ^ 64)
  | _ => True

end Scm

/-! ### What is written -/

mutual

/-- The bytes of an object. -/
def bytes : Scm → List UInt8
  | .undefined => u16Bytes Types.undefined.code
  | .unspecified => u16Bytes Types.unknown.code
  | .integer n => u16Bytes Types.integer.code ++ intBytes 8 n.toNat
  | .real bits => u16Bytes Types.real.code ++ u64Bytes bits
  | .complex re im => u16Bytes Types.complex.code ++ (u64Bytes re ++ u64Bytes im)
  | .boolean b => u16Bytes Types.boolean.code ++ u8Bytes (if b then 1 else 0)
  | .character c => u16Bytes Types.character.code ++ u8Bytes (UInt8.ofNat c.toNat)
  | .string s => u16Bytes Types.string.code ++ stringBytes (utf8 s)
  | .symbol s => u16Bytes Types.symbol.code ++ stringBytes (utf8 s)
  | .keyword s => u16Bytes Types.keyword.code ++ stringBytes (utf8 s)
  | .null => u16Bytes Types.list.code ++ intBytes 8 0
  | .pair car cdr =>
    if cdr.isList then u16Bytes Types.list.code ++ (intBytes 8 (cdr.length + 1) ++ (bytes car ++ elementBytes cdr))
    else u16Bytes Types.pair.code ++ (bytes car ++ bytes cdr)

/-- The bytes of the elements of a list. -/
def elementBytes : Scm → List UInt8
  | .pair car cdr => bytes car ++ elementBytes cdr
  | _ => []

end

/-- The encoder throws. -/
def Fails (m : PutM Unit) : Prop := ∀ b : ByteBuffer, b.position ≤ b.data.length → ∃ x b', m b = .error x b'

section Encoders

variable {m : PutM Unit} {n : Unit → PutM Unit} {bs : List UInt8}

omit [ByteOrder] in
theorem Fails.seq (h : Fails m) : Fails (m >>= n) := by
  intro b hb
  obtain ⟨x, b', hx⟩ := h b hb
  refine ⟨x, b', ?_⟩
  change EStateM.bind m n b = _
  rw [EStateM.bind, hx]

omit [ByteOrder] in
theorem Fails.after (hm : Writes m bs) (h : Fails (n ())) : Fails (m >>= n) := by
  intro b hb
  obtain ⟨b₁, hm, -, hb₁, -⟩ := hm b hb
  obtain ⟨x, b', hx⟩ := h b₁ hb₁
  refine ⟨x, b', ?_⟩
  change EStateM.bind m n b = _
  rw [EStateM.bind, hm]
  exact hx

omit [ByteOrder] in
theorem Fails.not_writes (h : Fails m) : ¬ Writes m bs := by
  intro hm
  obtain ⟨x, b', hx⟩ := h .empty le_rfl
  obtain ⟨b'', hb, -⟩ := hm .empty le_rfl
  rw [hx] at hb
  cases hb

omit [ByteOrder] in
/-- What Guile throws leaves the encoder. -/
theorem fails_ofExcept {α : Type} {n : α → PutM Unit} (x : Exception) :
    Fails ((ofExcept (.error x) : PutM α) >>= n) :=
  fun b _ => ⟨x, b, rfl⟩

omit [ByteOrder] in
theorem ofExcept_ok {M : Type → Type} [Monad M] [MonadExcept Exception M] {α : Type} (a : α) :
    (ofExcept (.ok a : Except Exception α) : M α) = pure a := rfl

end Encoders

omit [ByteOrder] in
theorem ofNat_eq_zero {n : ℕ} (h : n < 256) : 0 = UInt8.ofNat n ↔ n = 0 := by
  rw [← UInt8.toNat_inj, UInt8.toNat_ofNat', Nat.mod_eq_of_lt h]
  exact eq_comm

omit [ByteOrder] in
/-- Only the character NUL has a byte zero in its UTF-8 form. -/
theorem zero_mem_utf8EncodeChar {c : Char} : 0 ∈ String.utf8EncodeChar c ↔ c = '\x00' := by
  have hzero : c = '\x00' ↔ c.val.toNat = 0 := by
    rw [Char.ext_iff, ← UInt32.toNat_inj]
    rfl
  unfold String.utf8EncodeChar
  simp only
  split
  · rw [List.mem_singleton, ofNat_eq_zero (by omega), hzero]
  · split
    · simp only [List.mem_cons, List.not_mem_nil, or_false]
      rw [ofNat_eq_zero (by omega), ofNat_eq_zero (by omega), hzero]
      omega
    · split
      · simp only [List.mem_cons, List.not_mem_nil, or_false]
        rw [ofNat_eq_zero (by omega), ofNat_eq_zero (by omega), ofNat_eq_zero (by omega), hzero]
        omega
      · simp only [List.mem_cons, List.not_mem_nil, or_false]
        rw [ofNat_eq_zero (by omega), ofNat_eq_zero (by omega), ofNat_eq_zero (by omega), ofNat_eq_zero (by omega),
          hzero]
        omega

omit [ByteOrder] in
theorem zero_mem_utf8 (s : String) : 0 ∈ utf8 s ↔ '\x00' ∈ s.toList := by
  have hbytes : utf8 s = s.toList.flatMap String.utf8EncodeChar := by
    rw [utf8, String.toUTF8_eq_toByteArray, ← String.utf8Encode_toList]
    simp [List.utf8Encode]
  rw [hbytes, List.mem_flatMap]
  simp [zero_mem_utf8EncodeChar]

omit [ByteOrder] in
/-- A C string without characters NUL is all of it. -/
theorem takeWhile_utf8 {s : String} (h : Scm.Short s) : (utf8 s).takeWhile (· ≠ 0) = utf8 s := by
  rw [List.takeWhile_eq_self_iff]
  intro c hc
  have hzero : 0 ∉ utf8 s := fun hmem => h.1 ((zero_mem_utf8 s).mp hmem)
  exact decide_eq_true fun heq => hzero (heq ▸ hc)

variable {guile : Conversions}

theorem writes_text {s : String} (h : Scm.Short s) : Writes (writeText guile s) (stringBytes (utf8 s)) := by
  have hptr : guile.toUtf8String s = .ok (utf8 s) :=
    guile.toUtf8String_eq ⟨fun hmem => h.1 ((zero_mem_utf8 s).mp hmem), h.2⟩
  have hlength : strlen (utf8 s) = (utf8 s).length := by rw [strlen, takeWhile_utf8 h]
  rw [writeText, hptr, ofExcept_ok, pure_bind]
  simp only [hlength, List.take_length]
  exact (writes_bytes _).seq (writes_bytes _)

theorem fails_text {s : String} (h : ¬ Scm.Short s) : Fails (writeText guile s) := by
  obtain ⟨x, hx⟩ := guile.toUtf8String_throws (s := s) fun hs =>
    h ⟨fun hmem => hs.1 ((zero_mem_utf8 s).mpr hmem), hs.2⟩
  rw [writeText, hx]
  exact fails_ofExcept x

theorem writes_uint64 {n : ℤ} (h : 0 ≤ n ∧ n < 2 ^ 64) : Writes (writeUint64 guile n) (intBytes 8 n.toNat) := by
  rw [writeUint64, guile.toUint64_eq h, ofExcept_ok, pure_bind]
  exact writes_bytes _

theorem fails_uint64 {n : ℤ} (h : ¬ (0 ≤ n ∧ n < 2 ^ 64)) : Fails (writeUint64 guile n) := by
  obtain ⟨x, hx⟩ := guile.toUint64_throws h
  rw [writeUint64, hx]
  exact fails_ofExcept x

/-- **What is written** of an object, and of the elements of a list. -/
theorem writes_objectWrite (x : Scm) :
    (x.Writable guile → Writes (objectWrite guile x) (bytes x)) ∧
      (x.isList = true → x.Writable guile → Writes (writeElements guile x) (elementBytes x)) := by
  induction x with
  | undefined => exact ⟨fun _ => writes_bytes _, nofun⟩
  | unspecified => exact ⟨fun _ => writes_bytes _, nofun⟩
  | integer n => exact ⟨fun h => (writes_bytes _).seq (writes_uint64 h), nofun⟩
  | real bits => exact ⟨fun _ => (writes_bytes _).seq (writes_bytes _), nofun⟩
  | complex re im => exact ⟨fun _ => (writes_bytes _).seq ((writes_bytes _).seq (writes_bytes _)), nofun⟩
  | boolean b => exact ⟨fun _ => (writes_bytes _).seq (writes_bytes _), nofun⟩
  | character c =>
    refine ⟨fun h => (writes_bytes _).seq ?_, nofun⟩
    rw [guile.toChar_eq h, ofExcept_ok, pure_bind]
    exact writes_bytes _
  | string s => exact ⟨fun h => (writes_bytes _).seq (writes_text h), nofun⟩
  | symbol s => exact ⟨fun h => (writes_bytes _).seq (writes_text h), nofun⟩
  | keyword s => exact ⟨fun h => (writes_bytes _).seq (writes_text h), nofun⟩
  | null => exact ⟨fun _ => (writes_bytes _).seq (writes_uint64 (by decide)), fun _ _ => writes_pure⟩
  | pair car cdr ihcar ihcdr =>
    have helements : cdr.isList = true → (Scm.pair car cdr).Writable guile →
        Writes (objectWrite guile car >>= fun _ => writeElements guile cdr)
          (bytes car ++ elementBytes cdr) := fun hlist h =>
      (ihcar.1 h.1).seq (ihcdr.2 hlist h.2.1)
    refine ⟨fun h => ?_, fun hlist h => helements hlist h⟩
    rw [objectWrite, bytes]
    by_cases hlist : cdr.isList = true
    · have hlength : (0 : ℤ) ≤ (cdr.length + 1 : ℕ) ∧ ((cdr.length + 1 : ℕ) : ℤ) < 2 ^ 64 :=
        ⟨Int.natCast_nonneg _, by exact_mod_cast h.2.2 hlist⟩
      rw [if_pos hlist, if_pos hlist]
      exact (writes_bytes _).seq ((writes_uint64 hlength).seq (helements hlist h))
    · rw [if_neg hlist, if_neg hlist]
      exact (writes_bytes _).seq ((ihcar.1 h.1).seq (ihcdr.1 h.2.1))

/-- **What is not written**: an object that does not fit, and a list with an element that does not fit. -/
theorem fails_objectWrite (x : Scm) :
    (¬ x.Writable guile → Fails (objectWrite guile x)) ∧
      (x.isList = true → x.length < 2 ^ 64 → ¬ x.Writable guile → Fails (writeElements guile x)) := by
  induction x with
  | undefined => exact ⟨fun h => absurd trivial h, nofun⟩
  | unspecified => exact ⟨fun h => absurd trivial h, nofun⟩
  | integer n => exact ⟨fun h => .after (writes_bytes _) (fails_uint64 h), nofun⟩
  | real bits => exact ⟨fun h => absurd trivial h, nofun⟩
  | complex re im => exact ⟨fun h => absurd trivial h, nofun⟩
  | boolean b => exact ⟨fun h => absurd trivial h, nofun⟩
  | character c =>
    refine ⟨fun h => .after (writes_bytes _) ?_, nofun⟩
    obtain ⟨x, hx⟩ := guile.toChar_throws h
    rw [hx]
    exact fails_ofExcept x
  | string s => exact ⟨fun h => .after (writes_bytes _) (fails_text h), nofun⟩
  | symbol s => exact ⟨fun h => .after (writes_bytes _) (fails_text h), nofun⟩
  | keyword s => exact ⟨fun h => .after (writes_bytes _) (fails_text h), nofun⟩
  | null => exact ⟨fun h => absurd trivial h, fun _ _ h => absurd trivial h⟩
  | pair car cdr ihcar ihcdr =>
    have helements : cdr.isList = true → cdr.length + 1 < 2 ^ 64 → ¬ (Scm.pair car cdr).Writable guile →
        Fails (objectWrite guile car >>= fun _ => writeElements guile cdr) := by
      intro hlist hlength h
      by_cases hcar : car.Writable guile
      · have hcdr : ¬ cdr.Writable guile := fun hcdr => h ⟨hcar, hcdr, fun _ => hlength⟩
        exact .after ((writes_objectWrite car).1 hcar) (ihcdr.2 hlist (Nat.lt_of_succ_lt hlength) hcdr)
      · exact (ihcar.1 hcar).seq
    refine ⟨fun h => ?_, fun hlist hlength h => helements hlist hlength h⟩
    rw [objectWrite]
    by_cases hlist : cdr.isList = true
    · rw [if_pos hlist]
      refine .after (writes_bytes _) ?_
      by_cases hlength : cdr.length + 1 < 2 ^ 64
      · have hfits : (0 : ℤ) ≤ (cdr.length + 1 : ℕ) ∧ ((cdr.length + 1 : ℕ) : ℤ) < 2 ^ 64 :=
          ⟨Int.natCast_nonneg _, by exact_mod_cast hlength⟩
        exact .after (writes_uint64 hfits) (helements hlist hlength h)
      · refine (fails_uint64 fun hfits => hlength ?_).seq
        exact_mod_cast hfits.2
    · rw [if_neg hlist]
      refine .after (writes_bytes _) ?_
      by_cases hcar : car.Writable guile
      · have hcdr : ¬ cdr.Writable guile := fun hcdr => h ⟨hcar, hcdr, fun hl => absurd hl hlist⟩
        exact .after ((writes_objectWrite car).1 hcar) (ihcdr.1 hcdr)
      · exact (ihcar.1 hcar).seq

/-! ### What is read -/

omit [ByteOrder] in
theorem ofCode_code (type : Types) : Types.ofCode type.code = some type := by
  cases type <;> decide

theorem reads_text {s : String} (h : Scm.Short s) : Reads (readText guile) (stringBytes (utf8 s)) s := by
  have hlength : (utf8 s).length < 2 ^ 64 := Nat.lt_of_succ_lt h.2
  refine (reads_string hlength).bindPure ?_
  rw [takeWhile_utf8 h, guile.fromUtf8String_utf8, ofExcept_ok]

/-- The first bytes of an object are those of its tag, and what comes after them is read by the branch of the
tag. -/
theorem reads_nested {type : Types} {bs : List UInt8} {x : Scm} {fuel : ℕ}
    (hfuel : (u16Bytes type.code ++ bs).length ≤ fuel)
    (h : ∀ n, bs.length ≤ n → Reads (readAs guile (readNested guile n) type) bs x) :
    Reads (readNested guile fuel) (u16Bytes type.code ++ bs) x := by
  rw [List.length_append, length_u16Bytes] at hfuel
  cases fuel with
  | zero => omega
  | succ n =>
    rw [readNested]
    refine (reads_u16 _).bind ?_
    simp only [ofCode_code]
    exact h n (by omega)

/-- An object that is only a tag. -/
theorem reads_nested_tag {type : Types} {x : Scm} {fuel : ℕ} (hfuel : (u16Bytes type.code).length ≤ fuel)
    (h : ∀ n, readAs guile (readNested guile n) type = pure x) :
    Reads (readNested guile fuel) (u16Bytes type.code) x := by
  rw [← List.append_nil (u16Bytes type.code)] at hfuel ⊢
  refine reads_nested hfuel fun n _ => ?_
  rw [h n]
  exact Reads.pure x

omit [ByteOrder] in
theorem ofList_toList {x : Scm} (h : x.isList = true) : Scm.ofList x.toList = x := by
  induction x with
  | pair car cdr _ ih => rw [Scm.toList, Scm.ofList, ih h]
  | null => rfl
  | _ => cases h

omit [ByteOrder] in
/-- A character that fits a `char` is read back. -/
theorem fromChar_ofNat {c : Char} (h : (Scm.character c).Writable guile) :
    guile.fromChar (UInt8.ofNat c.toNat) = .ok c := by
  have hlt : c.toNat < 256 := by
    have hlimit : charLimit guile.signedChar ≤ 256 := by
      rw [charLimit]
      split <;> decide
    exact Nat.lt_of_lt_of_le h hlimit
  have hnat : (UInt8.ofNat c.toNat).toNat = c.toNat := by
    rw [UInt8.toNat_ofNat', Nat.mod_eq_of_lt hlt]
  rw [guile.fromChar_eq (by rwa [hnat]), hnat, Char.ofNat_toNat]

/-- **What is written is read back**, an object and the elements of a list. -/
theorem readNested_bytes (x : Scm) :
    (x.Writable guile → ∀ fuel, (bytes x).length ≤ fuel → Reads (readNested guile fuel) (bytes x) x) ∧
      (x.isList = true → x.Writable guile → ∀ fuel, (elementBytes x).length ≤ fuel →
        Reads (readElements (readNested guile fuel) x.length) (elementBytes x) x.toList) := by
  induction x with
  | undefined => exact ⟨fun _ fuel hfuel => reads_nested_tag hfuel fun _ => rfl, nofun⟩
  | unspecified => exact ⟨fun _ fuel hfuel => reads_nested_tag hfuel fun _ => rfl, nofun⟩
  | integer n =>
    refine ⟨fun h fuel hfuel => reads_nested hfuel fun _ _ => ?_, nofun⟩
    have hlt : n.toNat < 256 ^ 8 := by
      obtain ⟨hpos, hlt⟩ := h
      omega
    refine (reads_int hlt).bindPure ?_
    rw [Int.toNat_of_nonneg h.1]
  | real bits => exact ⟨fun _ fuel hfuel => reads_nested hfuel fun _ _ => (reads_u64 bits).bindPure rfl, nofun⟩
  | complex re im =>
    exact ⟨fun _ fuel hfuel => reads_nested hfuel fun _ _ => (reads_u64 re).bind ((reads_u64 im).bindPure rfl), nofun⟩
  | boolean b =>
    refine ⟨fun _ fuel hfuel => reads_nested hfuel fun _ _ => (reads_u8 _).bindPure ?_, nofun⟩
    cases b <;> rfl
  | character c =>
    refine ⟨fun h fuel hfuel => reads_nested hfuel fun _ _ => (reads_u8 _).bindPure ?_, nofun⟩
    rw [fromChar_ofNat h, ofExcept_ok, pure_bind]
  | string s => exact ⟨fun h fuel hfuel => reads_nested hfuel fun _ _ => (reads_text h).bindPure rfl, nofun⟩
  | symbol s => exact ⟨fun h fuel hfuel => reads_nested hfuel fun _ _ => (reads_text h).bindPure rfl, nofun⟩
  | keyword s => exact ⟨fun h fuel hfuel => reads_nested hfuel fun _ _ => (reads_text h).bindPure rfl, nofun⟩
  | null =>
    refine ⟨fun _ fuel hfuel => reads_nested hfuel fun _ _ => ?_, fun _ _ fuel _ => Reads.pure []⟩
    exact (reads_int (by decide)).bindPure rfl
  | pair car cdr ihcar ihcdr =>
    have helements : cdr.isList = true → (Scm.pair car cdr).Writable guile → ∀ fuel,
        (bytes car ++ elementBytes cdr).length ≤ fuel →
          Reads (readElements (readNested guile fuel) (cdr.length + 1)) (bytes car ++ elementBytes cdr)
            (car :: cdr.toList) := by
      intro hlist h fuel hfuel
      rw [List.length_append] at hfuel
      exact (ihcar.1 h.1 fuel (by omega)).bind ((ihcdr.2 hlist h.2.1 fuel (by omega)).bindPure rfl)
    refine ⟨fun h fuel hfuel => ?_, fun hlist h fuel hfuel => helements hlist h fuel hfuel⟩
    rw [bytes] at hfuel ⊢
    by_cases hlist : cdr.isList = true
    · rw [if_pos hlist] at hfuel ⊢
      refine reads_nested hfuel fun n hn => ?_
      rw [List.length_append] at hn
      refine (reads_int (h.2.2 hlist)).bind ((helements hlist h n (by omega)).bindPure ?_)
      exact congrArg (fun tail => pure (Scm.pair car tail)) (ofList_toList hlist)
    · rw [if_neg hlist] at hfuel ⊢
      refine reads_nested hfuel fun n hn => ?_
      rw [List.length_append] at hn
      exact (ihcar.1 h.1 n (by omega)).bind ((ihcdr.1 h.2.1 n (by omega)).bindPure rfl)

end Subordination.Guile
