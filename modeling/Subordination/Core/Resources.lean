import Subordination.Core.ByteBuffer
import Mathlib.Data.List.AList
import Mathlib.Data.List.TakeWhile

/-!
# The resource expression language

The mini-language in which a kernel says which nodes it can run on
(`core/resources.hh`, `core/resources.cc`): values, bindings, expressions, their
evaluation, and their binary form, in which a node filter travels with its kernel.

A dereferenced null pointer, a division by zero and an index past the bindings are
not results in the source but the end of the process; here they are `Trap`s.
-/

namespace Subordination.Core.Resources

open Library

/-! ### Values -/

/-- The characters of a C string: everything before the terminating NUL. -/
abbrev CString := { s : List UInt8 // (0 : UInt8) ∉ s }

/-- The C string that starts at the given bytes. -/
def CString.ofBytes (s : List UInt8) : CString :=
  ⟨s.takeWhile (· ≠ 0), fun h => by simpa using List.mem_takeWhile_imp h⟩

/-- `Any`: a value of one of the known types, or what is left of reading an unknown
type byte. -/
inductive Any where
  /-- `Type::Boolean`. -/
  | boolean (b : Bool)
  /-- `Type::U64`. -/
  | u64 (n : UInt64)
  /-- `Type::String`, a null pointer or a C string. -/
  | string (s : Option CString)
  /-- A type byte that names no type. -/
  | unknown (type : UInt8)
  deriving DecidableEq

namespace Any

/-- `boolean()`: any other type counts as false. -/
def toBool : Any → Bool
  | .boolean b => b
  | _ => false

/-- `unsigned_integer()`: any other type counts as zero. -/
def toU64 : Any → UInt64
  | .u64 n => n
  | _ => 0

/-- `operator==`. Two values of an unknown type are never equal. -/
def eq : Any → Any → Bool
  | .boolean a, .boolean b => a == b
  | .u64 a, .u64 b => a == b
  | .string a, .string b => a == b
  | _, _ => false

/-- The type is one of the three. -/
def Known : Any → Prop
  | .unknown _ => False
  | _ => True

/-- `operator==` is equality of values of the known types. -/
theorem eq_iff {a b : Any} : a.eq b = true ↔ a = b ∧ b.Known := by
  cases a <;> cases b <;> simp [eq, Known]

variable [ByteOrder]

/-- `Any::write(byte_buffer&)`. -/
def bytes : Any → List UInt8
  | .boolean b => u8Bytes 0 ++ u8Bytes (if b then 1 else 0)
  | .u64 n => u8Bytes 4 ++ u64Bytes n
  | .string (some s) => u8Bytes 5 ++ intBytes 4 s.1.length ++ s.1.take (s.1.length % 2 ^ 32)
  | .string none => u8Bytes 5 ++ u32Bytes 0xFFFFFFFF
  | .unknown t => u8Bytes t

/-- `Any::read`, into a value without a buffer of its own. -/
def read : ReadM Any := do
  let type ← readU8
  if type = 0 then
    let b ← readU8
    pure (.boolean (b ≠ 0))
  else if type = 4 then
    let n ← readU64
    pure (.u64 n)
  else if type = 5 then
    let n ← readInt 4
    if n = 2 ^ 32 - 1 then pure (.string none)
    else
      let s ← readBytes n
      pure (.string (some (CString.ofBytes s)))
  else pure (.unknown type)

end Any

/-! ### Bindings -/

/-- The number of resources every node has: `total_threads`, `total_memory` and
`hostname`. -/
abbrev numResources : ℕ := 3

/-- `resources::total_threads`. -/
def totalThreads : Fin numResources := 0

/-- `Bindings`: the values of the resources and of further names. -/
structure Bindings where
  /-- The resources. -/
  data : Fin numResources → Any
  /-- The other names. -/
  symbols : AList fun _ : List UInt8 => Any

/-- `Bindings::operator[](const std::string&)`: a missing name is a false value. -/
def Bindings.name (b : Bindings) (s : List UInt8) : Any := (b.symbols.lookup s).getD (.boolean false)

/-- Fresh bindings: one thread, and nothing else known. -/
instance : Inhabited Bindings :=
  ⟨⟨fun r => if r = totalThreads then .u64 1 else .boolean false, ∅⟩⟩

/-- `operator==` on bindings: the resources agree, and so do the names. -/
def Bindings.eq (a b : Bindings) : Bool :=
  (List.finRange numResources).all (fun r => (a.data r).eq (b.data r)) &&
    (a.symbols.keys.isPerm b.symbols.keys &&
      a.symbols.keys.all fun s => (a.name s).eq (b.name s))

/-! ### Expressions -/

/-- The operations with one argument. -/
inductive UnaryOp where
  /-- `not`. -/
  | not
  /-- `negate`. -/
  | negate
  deriving DecidableEq, Repr

/-- The operations with two arguments. -/
inductive BinaryOp where
  /-- `and`. -/
  | and
  /-- `or`. -/
  | or
  /-- `xor`. -/
  | xor
  /-- `<`. -/
  | lessThan
  /-- `<=`. -/
  | lessOrEqual
  /-- `=`. -/
  | equal
  /-- `>`. -/
  | greaterThan
  /-- `>=`. -/
  | greaterOrEqual
  /-- `+`. -/
  | add
  /-- `-`. -/
  | subtract
  /-- `*`. -/
  | multiply
  /-- `quotient`. -/
  | quotient
  /-- `remainder`. -/
  | remainder
  deriving DecidableEq, Repr

/-- `expression_ptr`: a pointer to an expression tree. -/
inductive Expression where
  /-- A null pointer. -/
  | null
  /-- A resource, by its number. -/
  | symbol (name : UInt32)
  /-- A constant. -/
  | constant (value : Any)
  /-- Another name. -/
  | name (name : List UInt8)
  /-- An operation with one argument. -/
  | unary (op : UnaryOp) (arg : Expression)
  /-- An operation with two arguments. -/
  | binary (op : BinaryOp) (a b : Expression)
  deriving DecidableEq

/-- How an evaluation ends the process. -/
inductive Trap where
  /-- A null pointer is dereferenced: a child, or the characters of a string. -/
  | nullPointer
  /-- A resource number past the end of the bindings. -/
  | outOfBounds
  /-- An integer division by zero. -/
  | divideByZero
  deriving DecidableEq, Repr

/-- `Any(const Any&)`: it looks for the end of a string, also of a null string. -/
def Any.copy : Any → Except Trap Any
  | .string none => .error .nullPointer
  | v => .ok v

/-- The value of an operation with two arguments, given the values of both. -/
def BinaryOp.apply : BinaryOp → Any → Any → Except Trap Any
  | .and, a, b => .ok (.boolean (a.toBool && b.toBool))
  | .or, a, b => .ok (.boolean (a.toBool || b.toBool))
  | .xor, a, b => .ok (.boolean (a.toBool ^^ b.toBool))
  | .lessThan, a, b => .ok (.boolean (a.toU64 < b.toU64))
  | .lessOrEqual, a, b => .ok (.boolean (a.toU64 ≤ b.toU64))
  | .equal, a, b => .ok (.boolean (a.eq b))
  | .greaterThan, a, b => .ok (.boolean (b.toU64 < a.toU64))
  | .greaterOrEqual, a, b => .ok (.boolean (b.toU64 ≤ a.toU64))
  | .add, a, b => .ok (.u64 (a.toU64 + b.toU64))
  | .subtract, a, b => .ok (.u64 (a.toU64 - b.toU64))
  | .multiply, a, b => .ok (.u64 (a.toU64 * b.toU64))
  | .quotient, a, b => if b.toU64 = 0 then .error .divideByZero else .ok (.u64 (a.toU64 / b.toU64))
  | .remainder, a, b => if b.toU64 = 0 then .error .divideByZero else .ok (.u64 (a.toU64 % b.toU64))

/-- `and` and `or` do not evaluate their second argument when the first decides. -/
def BinaryOp.decidedBy : BinaryOp → Any → Bool
  | .and, a => !a.toBool
  | .or, a => a.toBool
  | _, _ => false

namespace Expression

/-- `evaluate` of all node kinds. -/
def evaluate (context : Bindings) : Expression → Except Trap Any
  | .null => .error .nullPointer
  | .symbol r => if h : r.toNat < numResources then (context.data ⟨r.toNat, h⟩).copy else .error .outOfBounds
  | .constant v => v.copy
  | .name s => (context.name s).copy
  | .unary .not arg => do return .boolean !(← arg.evaluate context).toBool
  | .unary .negate arg => do return .u64 (-(← arg.evaluate context).toU64)
  | .binary op a b => do
    let x ← a.evaluate context
    if op.decidedBy x then return .boolean x.toBool
    op.apply x (← b.evaluate context)

/-- Does the expression evaluate to true? A node filter that does lets its kernel run. -/
def Holds (e : Expression) (context : Bindings) : Prop :=
  ∃ v, e.evaluate context = .ok v ∧ v.toBool = true

instance (e : Expression) (context : Bindings) : Decidable (e.Holds context) :=
  match h : e.evaluate context with
  | .error _ => .isFalse fun ⟨_, hv, _⟩ => by rw [h] at hv; cases hv
  | .ok v => decidable_of_iff (v.toBool = true)
      ⟨fun hv => ⟨v, h, hv⟩, fun ⟨w, hw, hb⟩ => by rw [h] at hw; cases hw; exact hb⟩

end Expression

/-! ### The binary form -/

/-- The type byte of an operation with one argument. -/
def UnaryOp.code : UnaryOp → UInt8
  | .not => 4 | .negate => 18

/-- The type byte of an operation with two arguments. -/
def BinaryOp.code : BinaryOp → UInt8
  | .and => 5 | .or => 6 | .xor => 7 | .lessThan => 8 | .lessOrEqual => 9 | .equal => 10
  | .greaterThan => 11 | .greaterOrEqual => 12 | .add => 13 | .subtract => 14 | .multiply => 15
  | .quotient => 16 | .remainder => 17

/-- What `make_expression` makes for a type byte: a leaf, an operation, or an
exception. There is no case for `negate`. -/
inductive Shape where
  /-- `Symbol`. -/
  | symbol
  /-- `Constant`. -/
  | constant
  /-- `Name`. -/
  | name
  /-- An operation with one argument. -/
  | unary (op : UnaryOp)
  /-- An operation with two arguments. -/
  | binary (op : BinaryOp)

/-- `make_expression`. -/
def makeExpression (type : UInt8) : Option Shape :=
  match type.toNat with
  | 1 => some .symbol
  | 2 => some .constant
  | 3 => some .name
  | 4 => some (.unary .not)
  | 5 => some (.binary .and)
  | 6 => some (.binary .or)
  | 7 => some (.binary .xor)
  | 8 => some (.binary .lessThan)
  | 9 => some (.binary .lessOrEqual)
  | 10 => some (.binary .equal)
  | 11 => some (.binary .greaterThan)
  | 12 => some (.binary .greaterOrEqual)
  | 13 => some (.binary .add)
  | 14 => some (.binary .subtract)
  | 15 => some (.binary .multiply)
  | 16 => some (.binary .quotient)
  | 17 => some (.binary .remainder)
  | _ => none

namespace Expression

variable [ByteOrder]

/-- `write(byte_buffer&)` of all node kinds. -/
def bytes : Expression → List UInt8
  | .null => []
  | .symbol r => u8Bytes 1 ++ u32Bytes r
  | .constant v => u8Bytes 2 ++ v.bytes
  | .name s => u8Bytes 3 ++ stringBytes s
  | .unary op arg => u8Bytes op.code ++ arg.bytes
  | .binary op a b => u8Bytes op.code ++ a.bytes ++ b.bytes

/-- `sbn::resources::read(byte_buffer&)` with at most `fuel` nested calls. -/
def readNested : ℕ → ReadM Expression
  | 0 => throw .rangeError
  | fuel + 1 => do
    let type ← readU8
    match makeExpression type with
    | none => throw (.invalidArgument "bad expression type")
    | some .symbol => return .symbol (← readU32)
    | some .constant => return .constant (← Any.read)
    | some .name => return .name (← readString)
    | some (.unary op) => return .unary op (← readNested fuel)
    | some (.binary op) => do
      let a ← readNested fuel
      let b ← readNested fuel
      return .binary op a b

/-- `sbn::resources::read(byte_buffer&)`. Every nested call takes a byte first, so
there are never more of them than bytes. -/
def read : ReadM Expression := fun w => readNested (w.length + 1) w

/-- The expression comes through its binary form unchanged. -/
def Survives (e : Expression) : Prop := Reads read e.bytes e

end Expression

end Subordination.Core.Resources
