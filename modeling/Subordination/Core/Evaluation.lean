import Subordination.Core.AnyCells
import Subordination.Core.TextualExpressions
import Subordination.Library.PowersOfTwo

/-!
# Evaluating filters

A filter comes from a user, as text, or from another node, as bytes, and the daemon evaluates it with whatever
bindings it has. Evaluation has no way to fail but to end the process: the functions are `noexcept`.

## The model

`meaning` gives every tree a value, also where the source has none. It is a value for the statements here, and
the source knows nothing of it. Whether a divisor is zero is told without it, by how often two divides the leaves,
as far as that goes. `checkNested` goes over the bytes of a tree as the decoder does, and looks at the
numbers that the decoder copies without looking.

## What is proved

* `Expression.evaluate_defined` — where evaluation returns a value, by how often two divides the divisors.
* `Expression.inRange_iff` — for which bytes the decoder returns a tree whose resources and constants exist, so
  that its evaluation stays inside the bindings.
-/

namespace Subordination.Core.Resources

open Library

/-! ### What has succeeded -/

section Except

variable {ε α β : Type} {x : Except ε α} {c : β}

theorem except_bind_ok {f : α → Except ε β} (h : x >>= f = .ok c) : ∃ a, x = .ok a ∧ f a = .ok c := by
  cases x with
  | error e => cases h
  | ok a => exact ⟨a, rfl, h⟩

theorem except_map_ok {f : α → β} (h : f <$> x = .ok c) : ∃ a, x = .ok a ∧ f a = c := by
  cases x with
  | error e => cases h
  | ok a => exact ⟨a, rfl, Except.ok.inj h⟩

end Except

/-! ### What an expression means -/

/-- The operation divides. -/
def BinaryOp.divides (op : BinaryOp) : Bool := op = .quotient || op = .remainder

/-- The value of an operation with two arguments, where a quotient by zero is zero. -/
def BinaryOp.result : BinaryOp → Any → Any → Any
  | .and, a, b => .boolean (a.toBool && b.toBool)
  | .or, a, b => .boolean (a.toBool || b.toBool)
  | .xor, a, b => .boolean (a.toBool ^^ b.toBool)
  | .lessThan, a, b => .boolean (a.toU64 < b.toU64)
  | .lessOrEqual, a, b => .boolean (a.toU64 ≤ b.toU64)
  | .equal, a, b => .boolean (a.eq b)
  | .greaterThan, a, b => .boolean (b.toU64 < a.toU64)
  | .greaterOrEqual, a, b => .boolean (b.toU64 ≤ a.toU64)
  | .add, a, b => .u64 (a.toU64 + b.toU64)
  | .subtract, a, b => .u64 (a.toU64 - b.toU64)
  | .multiply, a, b => .u64 (a.toU64 * b.toU64)
  | .quotient, a, b => .u64 (a.toU64 / b.toU64)
  | .remainder, a, b => .u64 (a.toU64 % b.toU64)

/-- Only a division by zero has no value. -/
theorem BinaryOp.apply_eq (op : BinaryOp) (a b : Any) : op.apply a b =
    if op.divides = true ∧ b.toU64 = 0 then .error .divideByZero else .ok (op.result a b) := by
  cases op <;> simp [apply, result, divides]

/-- An argument that decides the operation decides it alone. -/
theorem BinaryOp.result_of_decidedBy {op : BinaryOp} {a : Any} (h : op.decidedBy a = true) (b : Any) :
    op.result a b = .boolean a.toBool := by
  cases op <;> simp_all [decidedBy, result]

/-- A null pointer has no characters to copy. -/
theorem Any.copy_eq (v : Any) : v.copy = if v = .string none then .error .nullPointer else .ok v := by
  rcases v with b | n | (_ | s) | t <;> rfl

/-! ### Powers of two in numbers -/

/-- A negation is divided as often as its argument. -/
theorem twos_toNat_neg (a : UInt64) : twos 64 (-a).toNat = twos 64 a.toNat := by
  have hword : UInt64.size = 2 ^ 64 := rfl
  rw [UInt64.toNat_neg, hword, twos_mod, twos_sub a.toNat_lt.le]

theorem twos_toNat_mul (a b : UInt64) :
    twos 64 (a * b).toNat = min 64 (twos 64 a.toNat + twos 64 b.toNat) := by
  rw [UInt64.toNat_mul, twos_mod, twos_mul]

theorem twos_toNat_add {a b : UInt64} (h : twos 64 a.toNat ≠ twos 64 b.toNat) :
    twos 64 (a + b).toNat = min (twos 64 a.toNat) (twos 64 b.toNat) := by
  rw [UInt64.toNat_add, twos_mod, twos_add h]

theorem twos_toNat_sub {a b : UInt64} (h : twos 64 a.toNat ≠ twos 64 b.toNat) :
    twos 64 (a - b).toNat = min (twos 64 a.toNat) (twos 64 b.toNat) := by
  rw [← twos_toNat_neg b] at h ⊢
  rw [UInt64.sub_eq_add_neg, twos_toNat_add h]

namespace Expression

/-- The value of a tree. -/
def meaning (context : Bindings) : Expression → Any
  | .null => .boolean false
  | .symbol r => if h : r.toNat < numResources then context.data ⟨r.toNat, h⟩ else .boolean false
  | .constant v => v
  | .name s => context.name s
  | .unary .not arg => .boolean !(arg.meaning context).toBool
  | .unary .negate arg => .u64 (-(arg.meaning context).toU64)
  | .binary op a b => op.result (a.meaning context) (b.meaning context)

/-- No null pointer and no resource past the end is met, and no divisor is zero, in the parts of the tree that
`and` and `or` do not skip. -/
def Safe (context : Bindings) : Expression → Prop
  | .null => False
  | .symbol r => ∃ h : r.toNat < numResources, context.data ⟨r.toNat, h⟩ ≠ .string none
  | .constant v => v ≠ .string none
  | .name s => context.name s ≠ .string none
  | .unary _ arg => arg.Safe context
  | .binary op a b => a.Safe context ∧ (op.decidedBy (a.meaning context) = true ∨
      b.Safe context ∧ (op.divides = true → (b.meaning context).toU64 ≠ 0))

/-- What evaluating an operation with two arguments does. -/
theorem evaluate_binary (context : Bindings) (op : BinaryOp) (a b : Expression) :
    (binary op a b).evaluate context = a.evaluate context >>= fun x =>
      if op.decidedBy x = true then .ok (.boolean x.toBool) else b.evaluate context >>= op.apply x := by
  rw [evaluate]
  refine congrArg (a.evaluate context >>= ·) (funext fun x => ?_)
  split <;> rfl

/-- A safe tree has its meaning for a value. -/
theorem evaluate_of_safe {context : Bindings} {e : Expression} (h : e.Safe context) :
    e.evaluate context = .ok (e.meaning context) := by
  induction e with
  | null => exact h.elim
  | symbol r =>
    obtain ⟨hr, hne⟩ := h
    rw [evaluate, meaning, dif_pos hr, dif_pos hr, Any.copy_eq, if_neg hne]
  | constant v => rw [evaluate, meaning, Any.copy_eq, if_neg h]
  | name s => rw [evaluate, meaning, Any.copy_eq, if_neg h]
  | unary op arg ih =>
    have harg := ih h
    cases op <;> rw [evaluate, harg, meaning] <;> rfl
  | binary op a b iha ihb =>
    obtain ⟨ha, hb⟩ := h
    rw [evaluate_binary, iha ha, meaning]
    show (if _ then _ else _) = _
    split
    · next hdecided => rw [op.result_of_decidedBy hdecided]
    · next hdecided =>
      obtain ⟨hb, hdivisor⟩ := hb.resolve_left hdecided
      rw [ihb hb]
      show op.apply _ _ = _
      rw [op.apply_eq, if_neg fun hzero => hdivisor hzero.1 hzero.2]

/-- A tree that has a value is safe. -/
theorem safe_of_evaluate {context : Bindings} {e : Expression} {v : Any} (h : e.evaluate context = .ok v) :
    e.Safe context := by
  induction e generalizing v with
  | null => cases h
  | symbol r =>
    rw [evaluate] at h
    split at h
    · next hr =>
      refine ⟨hr, fun hnull => ?_⟩
      rw [hnull] at h
      cases h
    · cases h
  | constant w =>
    rintro rfl
    cases h
  | name s =>
    intro hnull
    rw [evaluate, hnull] at h
    cases h
  | unary op arg ih =>
    cases harg : arg.evaluate context with
    | ok x => exact ih harg
    | error trap => cases op <;> rw [evaluate, harg] at h <;> cases h
  | binary op a b iha ihb =>
    rw [evaluate_binary] at h
    obtain ⟨x, ha, h⟩ := except_bind_ok h
    have hsafe := iha ha
    obtain rfl : a.meaning context = x := Except.ok.inj ((evaluate_of_safe hsafe).symm.trans ha)
    refine ⟨hsafe, ?_⟩
    split at h
    · next hdecided => exact Or.inl hdecided
    · obtain ⟨y, hb, h⟩ := except_bind_ok h
      have hsafe' := ihb hb
      obtain rfl : b.meaning context = y := Except.ok.inj ((evaluate_of_safe hsafe').symm.trans hb)
      refine Or.inr ⟨hsafe', fun hdivides hzero => ?_⟩
      rw [op.apply_eq, if_pos ⟨hdivides, hzero⟩] at h
      cases h

/-- Evaluation returns a value if and only if the tree is safe. What is safe takes evaluating: a divisor may be any
tree. -/
theorem evaluate_iff_safe {context : Bindings} {e : Expression} :
    (∃ v, e.evaluate context = .ok v) ↔ e.Safe context :=
  ⟨fun ⟨_, h⟩ => safe_of_evaluate h, fun h => ⟨_, evaluate_of_safe h⟩⟩

/-! ### Divisors -/

/-- How often two divides the value of the tree, up to 64 times, as told from the leaves. What is no number counts as
zero. -/
def twos (context : Bindings) : Expression → ℕ
  | .symbol r => if h : r.toNat < numResources then Library.twos 64 (context.data ⟨r.toNat, h⟩).toU64.toNat else 64
  | .constant v => Library.twos 64 v.toU64.toNat
  | .name s => Library.twos 64 (context.name s).toU64.toNat
  | .unary .negate arg => arg.twos context
  | .binary .multiply a b => min 64 (a.twos context + b.twos context)
  | .binary .add a b => min (a.twos context) (b.twos context)
  | .binary .subtract a b => min (a.twos context) (b.twos context)
  | _ => 64

/-- That can be told: the arguments of sums and differences are divided differently often, and there is no quotient
or remainder. -/
def Told (context : Bindings) : Expression → Prop
  | .unary .negate arg => arg.Told context
  | .binary .multiply a b => a.Told context ∧ b.Told context
  | .binary .add a b => a.Told context ∧ b.Told context ∧ a.twos context ≠ b.twos context
  | .binary .subtract a b => a.Told context ∧ b.Told context ∧ a.twos context ≠ b.twos context
  | .binary .quotient _ _ => False
  | .binary .remainder _ _ => False
  | _ => True

/-- The tree can be told not to be zero. -/
def NonZero (context : Bindings) (e : Expression) : Prop := e.Told context ∧ e.twos context < 64

/-- There are no null pointers, no null strings and no resources past the end in the tree, and every divisor can be
told not to be zero. -/
def Defined (context : Bindings) : Expression → Prop
  | .null => False
  | .symbol r => ∃ h : r.toNat < numResources, context.data ⟨r.toNat, h⟩ ≠ .string none
  | .constant v => v ≠ .string none
  | .name s => context.name s ≠ .string none
  | .unary _ arg => arg.Defined context
  | .binary op a b => a.Defined context ∧ b.Defined context ∧ (op.divides = true → b.NonZero context)

/-- Every divisor can be told, and there are no faults in what `and` and `or` may skip. -/
def Direct (context : Bindings) : Expression → Prop
  | .unary _ arg => arg.Direct context
  | .binary op a b => a.Direct context ∧ b.Direct context ∧ (op.divides = true → b.Told context) ∧
      (op = .and ∨ op = .or → b.Defined context)
  | _ => True

/-- **What is told is so.** -/
theorem twos_meaning {context : Bindings} {e : Expression} (h : e.Told context) :
    Library.twos 64 (e.meaning context).toU64.toNat = e.twos context := by
  have hzero : Library.twos 64 (0 : UInt64).toNat = 64 := twos_zero
  induction e with
  | null => exact hzero
  | symbol r =>
    rw [meaning, twos]
    split
    · rfl
    · exact hzero
  | constant v => rfl
  | name s => rfl
  | unary op arg ih =>
    cases op with
    | not => exact hzero
    | negate => exact (twos_toNat_neg _).trans (ih h)
  | binary op a b iha ihb =>
    cases op with
    | multiply =>
      refine (twos_toNat_mul _ _).trans ?_
      rw [iha h.1, ihb h.2, twos]
    | add =>
      obtain ⟨ha, hb, hne⟩ := h
      rw [← iha ha, ← ihb hb] at hne
      refine (twos_toNat_add hne).trans ?_
      rw [iha ha, ihb hb, twos]
    | subtract =>
      obtain ⟨ha, hb, hne⟩ := h
      rw [← iha ha, ← ihb hb] at hne
      refine (twos_toNat_sub hne).trans ?_
      rw [iha ha, ihb hb, twos]
    | quotient => exact h.elim
    | remainder => exact h.elim
    | _ => exact hzero

/-- **Zero can be told** where it can be told how often two divides the value. -/
theorem nonZero_iff {context : Bindings} {e : Expression} (h : e.Told context) :
    e.NonZero context ↔ (e.meaning context).toU64 ≠ 0 := by
  rw [NonZero, and_iff_right h, ← twos_meaning h, twos_lt_iff (UInt64.toNat_lt _), ← UInt64.toNat_zero]
  exact not_congr UInt64.toNat_inj

theorem safe_of_defined {context : Bindings} {e : Expression} (h : e.Defined context) : e.Safe context := by
  induction e with
  | null => exact h
  | symbol r => exact h
  | constant v => exact h
  | name s => exact h
  | unary op arg ih => exact ih h
  | binary op a b iha ihb =>
    obtain ⟨ha, hb, hdivisor⟩ := h
    refine ⟨iha ha, Or.inr ⟨ihb hb, fun hdivides => ?_⟩⟩
    have hne := hdivisor hdivides
    exact (nonZero_iff hne.1).mp hne

theorem skips_of_decidedBy {op : BinaryOp} {x : Any} (h : op.decidedBy x = true) : op = .and ∨ op = .or := by
  cases op with
  | and => exact Or.inl rfl
  | or => exact Or.inr rfl
  | _ => cases h

theorem defined_of_safe {context : Bindings} {e : Expression} (hdirect : e.Direct context) (h : e.Safe context) :
    e.Defined context := by
  induction e with
  | null => exact h
  | symbol r => exact h
  | constant v => exact h
  | name s => exact h
  | unary op arg ih => exact ih hdirect h
  | binary op a b iha ihb =>
    obtain ⟨hda, hdb, htold, hskipped⟩ := hdirect
    obtain ⟨ha, hb⟩ := h
    refine ⟨iha hda ha, ?_⟩
    rcases hb with hdecided | ⟨hb, hdivisor⟩
    · -- the second argument is skipped, so the operation does not divide
      have hskips := skips_of_decidedBy hdecided
      refine ⟨hskipped hskips, fun hdivides => ?_⟩
      rcases hskips with rfl | rfl
      · cases hdivides
      · cases hdivides
    · exact ⟨ihb hdb hb, fun hdivides => (nonZero_iff (htold hdivides)).mpr (hdivisor hdivides)⟩

example : (binary .add (.constant (.u64 1)) (.constant (.u64 2))).NonZero default :=
  ⟨⟨trivial, trivial, by decide⟩, by decide⟩

/-- Every resource in the tree is one, and every constant has a known type. -/
def InRange : Expression → Prop
  | .symbol r => r.toNat < numResources
  | .constant v => v.Known
  | .unary _ arg => arg.InRange
  | .binary _ a b => a.InRange ∧ b.InRange
  | _ => True

/-- Evaluation stays inside the bindings, and a value that it returns is the meaning of the tree. -/
def StaysInside (e : Expression) : Prop := ∀ context,
  e.evaluate context = .ok (e.meaning context) ∨ e.evaluate context = .error .divideByZero ∨
    e.evaluate context = .error .nullPointer

/-- **A trap that is not a division comes from a leaf**: it does not occur in a tree if it does not occur in the
leaves that the tree can have. -/
theorem evaluate_ne_of {context : Bindings} {trap : Trap} {p : Expression → Prop} (htrap : trap ≠ .divideByZero)
    (hunary : ∀ op arg, p (.unary op arg) → p arg) (hbinary : ∀ op a b, p (.binary op a b) → p a ∧ p b)
    (hnull : p .null → trap ≠ .nullPointer)
    (hsymbol : ∀ r, p (.symbol r) → (symbol r).evaluate context ≠ .error trap)
    (hconstant : ∀ v, p (.constant v) → v.copy ≠ .error trap) (hname : ∀ s, (context.name s).copy ≠ .error trap)
    {e : Expression} (h : p e) : e.evaluate context ≠ .error trap := by
  induction e with
  | null => exact fun heq => hnull h (by cases heq; rfl)
  | symbol r => exact hsymbol r h
  | constant v => exact hconstant v h
  | name s => exact hname s
  | unary op arg ih =>
    have harg := ih (hunary op arg h)
    cases hv : arg.evaluate context with
    | ok x => cases op <;> rw [evaluate, hv] <;> exact fun heq => by cases heq
    | error trap' =>
      rw [hv] at harg
      cases op <;> rw [evaluate, hv] <;> exact fun heq => harg heq
  | binary op a b iha ihb =>
    obtain ⟨ha, hb⟩ := hbinary op a b h
    have hane := iha ha
    have hbne := ihb hb
    rw [evaluate_binary]
    cases hx : a.evaluate context with
    | error trap' =>
      rw [hx] at hane
      exact fun heq => hane heq
    | ok x =>
      show (if _ then _ else _) ≠ _
      split
      · exact fun heq => by cases heq
      · cases hy : b.evaluate context with
        | error trap' =>
          rw [hy] at hbne
          exact fun heq => hbne heq
        | ok y =>
          show op.apply x y ≠ _
          rw [op.apply_eq]
          split
          · exact fun heq => htrap (Except.error.inj heq).symm
          · exact fun heq => by cases heq

theorem copy_ne_outOfBounds (v : Any) : v.copy ≠ .error .outOfBounds := by
  rw [Any.copy_eq]
  split
  · exact fun h => by cases h
  · exact fun h => by cases h

/-- No resource past the end is met if there is none. -/
theorem ne_outOfBounds {e : Expression} (h : e.InRange) (context : Bindings) :
    e.evaluate context ≠ .error .outOfBounds := by
  refine evaluate_ne_of (p := InRange) (fun heq => by cases heq) (fun _ _ => id) (fun _ _ _ => id)
    (fun _ heq => by cases heq) (fun r hr => ?_) (fun v _ => copy_ne_outOfBounds v)
    (fun s => copy_ne_outOfBounds _) h
  have hlt : r.toNat < numResources := hr
  rw [evaluate, dif_pos hlt]
  exact copy_ne_outOfBounds _

theorem staysInside_of_inRange {e : Expression} (h : e.InRange) : e.StaysInside := by
  intro context
  cases hv : e.evaluate context with
  | ok v => exact Or.inl (hv.symm.trans (evaluate_of_safe (safe_of_evaluate hv)))
  | error trap =>
    have hne := ne_outOfBounds h context
    rw [hv] at hne
    cases trap with
    | nullPointer => exact Or.inr (Or.inr rfl)
    | outOfBounds => exact absurd rfl hne
    | divideByZero => exact Or.inr (Or.inl rfl)

section Decoder

variable [ByteOrder]

/-- The bytes of a tree, as the decoder takes them, with a look at the numbers of its resources and the types of
its constants. -/
def checkNested : ℕ → ReadM Unit
  | 0 => throw .rangeError
  | fuel + 1 => do
    let type ← readU8
    match makeExpression type with
    | none => throw (.invalidArgument "bad expression type")
    | some .symbol => do
      let r ← readU32
      if r.toNat < numResources then pure () else throw (.invalidArgument "bad resource")
    | some .constant => do
      let v ← Any.read
      match v with
      | .unknown _ => throw (.invalidArgument "bad type")
      | _ => pure ()
    | some .name => do
      let _ ← readString
      pure ()
    | some (.unary _) => checkNested fuel
    | some (.binary _) => do
      checkNested fuel
      checkNested fuel

/-- The bytes of a tree with all its numbers in their ranges. -/
def check : ReadM Unit := fun w => checkNested (w.length + 1) w

/-- The bytes of a tree pass, up to where the decoder has stopped, if its numbers are in their ranges. -/
theorem checkNested_iff {fuel : ℕ} {w w₁ w₂ : List UInt8} {e : Expression} (h : readNested fuel w = .ok e w₁) :
    checkNested fuel w = .ok () w₂ ↔ e.InRange ∧ w₂ = w₁ := by
  induction fuel generalizing w w₁ w₂ e with
  | zero => cases h
  | succ fuel ih =>
    obtain ⟨type, v, htype, h⟩ := bind_ok h
    rw [checkNested, bind_of_ok htype]
    generalize makeExpression type = shape at h
    rcases shape with _ | _ | _ | _ | op | op
    · cases h
    · -- a resource
      obtain ⟨r, v', hr, h⟩ := bind_ok h
      cases h
      simp only [bind_of_ok hr, InRange]
      split
      · next hlt => exact ⟨fun heq => ⟨hlt, by cases heq; rfl⟩, fun heq => by rw [heq.2]; rfl⟩
      · next hle => exact ⟨fun heq => (by cases heq), fun heq => absurd heq.1 hle⟩
    · -- a constant
      obtain ⟨x, v', hx, h⟩ := bind_ok h
      cases h
      simp only [bind_of_ok hx, InRange]
      cases x with
      | unknown t => exact ⟨fun heq => (by cases heq), fun heq => heq.1.elim⟩
      | _ => exact ⟨fun heq => ⟨trivial, by cases heq; rfl⟩, fun heq => by rw [heq.2]; rfl⟩
    · -- a name
      obtain ⟨s, v', hs, h⟩ := bind_ok h
      cases h
      simp only [bind_of_ok hs, InRange]
      exact ⟨fun heq => ⟨trivial, by cases heq; rfl⟩, fun heq => by rw [heq.2]; rfl⟩
    · obtain ⟨arg, v', harg, h⟩ := bind_ok h
      cases h
      have hchecked : checkNested fuel v = .ok () w₂ ↔ arg.InRange ∧ w₂ = w₁ := ih harg
      exact hchecked
    · obtain ⟨x, v', hx, h⟩ := bind_ok h
      obtain ⟨y, v'', hy, h⟩ := bind_ok h
      cases h
      constructor
      · intro hcheck
        obtain ⟨u, w₃, hu, hcheck⟩ := bind_ok hcheck
        obtain ⟨hxrange, rfl⟩ := (ih hx).1 hu
        obtain ⟨hyrange, rfl⟩ := (ih hy).1 hcheck
        exact ⟨⟨hxrange, hyrange⟩, rfl⟩
      · rintro ⟨⟨hxrange, hyrange⟩, rfl⟩
        exact bind_eq_ok ((ih hx).2 ⟨hxrange, rfl⟩) ((ih hy).2 ⟨hyrange, rfl⟩)

/-- **What is decoded is in range**, and its evaluation stays inside the bindings, if and only if every number of
a resource in the bytes is below the number of resources and every type of a constant is known. -/
theorem inRange_iff {w w' : List UInt8} {e : Expression} (h : read w = .ok e w') :
    (e.InRange ∧ e.StaysInside) ↔ check w = .ok () w' := by
  have hcheck : check w = .ok () w' ↔ e.InRange ∧ w' = w' := checkNested_iff h
  rw [hcheck]
  exact ⟨fun he => ⟨he.1, rfl⟩, fun he => ⟨he.1, staysInside_of_inRange he.1⟩⟩

end Decoder

/-- A filter on the number of threads, in a network byte order. -/
theorem inRange_filter :
    letI := ByteOrder.littleEndian
    read [11, 1, 0, 0, 0, 0, 2, 4, 0, 0, 0, 0, 0, 0, 0, 8] =
        .ok (.binary .greaterThan (.symbol 0) (.constant (.u64 8))) [] ∧
      ((binary .greaterThan (.symbol 0) (.constant (.u64 8))).InRange ∧
          (binary .greaterThan (.symbol 0) (.constant (.u64 8))).StaysInside ↔
        check [11, 1, 0, 0, 0, 0, 2, 4, 0, 0, 0, 0, 0, 0, 0, 8] = .ok () []) := by
  let _ := ByteOrder.littleEndian
  exact ⟨rfl, inRange_iff rfl⟩

/-- **A resource past the end is decoded**, and evaluated by every node with every bindings. -/
theorem outOfRange_decoded :
    letI := ByteOrder.littleEndian
    read [1, 0, 0, 0, 3] = .ok (.symbol 3) [] ∧ ¬ (symbol 3).InRange ∧
      (∀ context, (symbol 3).evaluate context = .error .outOfBounds) ∧
      read [2, 9] = .ok (.constant (.unknown 9)) [] ∧ ¬ (constant (.unknown 9)).InRange := by
  let _ := ByteOrder.littleEndian
  exact ⟨rfl, fun h => absurd (show (3 : UInt32).toNat < 3 from h) (by decide), fun _ => rfl, rfl, id⟩

end Expression

end Subordination.Core.Resources
