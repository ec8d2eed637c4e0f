import Subordination.Core.Resources

/-!
# Expressions on the wire

A node filter travels with its kernel in the binary form of `core/resources.cc`: a type byte for each
node, the value of a leaf, and the children of an operation.

## The model

The encoders, the decoders, the factory and the type bytes are those of `Core.Resources`: four lists that
have to agree. `make_expression` has no case for `Negate`. The length of a string constant is written in 32
bits, of which the greatest value says that there is no string.

## What is proved

* `Expression.survives_iff` — which expressions come through their binary form unchanged, whatever follows.
* `Expression.negate_lost` — one that does not.
-/

namespace Subordination.Core.Resources

open Library

section Binary

variable [ByteOrder]

/-! ### Values -/

namespace Any

/-- The value can be told from all others by its bytes. A type byte that names a type is not unknown. -/
def Fits : Any → Prop
  | .string (some s) => s.1.length < 2 ^ 32 - 1
  | .unknown t => t ≠ 0 ∧ t ≠ 4 ∧ t ≠ 5
  | _ => True

omit [ByteOrder] in
/-- A C string is cut off at its end. -/
theorem ofBytes_eq (s : CString) : CString.ofBytes s.1 = s := by
  refine Subtype.ext (List.takeWhile_eq_self_iff.mpr fun c hc => ?_)
  have hne : c ≠ 0 := fun h => s.2 (h ▸ hc)
  simpa using hne

omit [ByteOrder] in
theorem length_ofBytes_le (s : List UInt8) : (CString.ofBytes s).1.length ≤ s.length :=
  (List.takeWhile_prefix _).length_le

/-- What is read after the type byte of a string. -/
theorem read_string (n : ℕ) (rest : List UInt8) : read (u8Bytes 5 ++ (intBytes 4 n ++ rest)) =
    (if n % 256 ^ 4 = 2 ^ 32 - 1 then pure (.string none)
      else readBytes (n % 256 ^ 4) >>= fun s => pure (.string (some (CString.ofBytes s)))) rest := by
  unfold read
  rw [(reads_u8 5).bind_apply]
  exact (reads_int_mod 4 n).bind_apply rest

/-- What is read after a type byte that names no type. -/
theorem read_unknown {t : UInt8} (h : t ≠ 0 ∧ t ≠ 4 ∧ t ≠ 5) (rest : List UInt8) :
    read (u8Bytes t ++ rest) = .ok (.unknown t) rest := by
  unfold read
  rw [(reads_u8 t).bind_apply, if_neg h.1, if_neg h.2.1, if_neg h.2.2]
  rfl

theorem reads_boolean (b : Bool) : Reads read (u8Bytes 0 ++ u8Bytes (if b then 1 else 0)) (.boolean b) := by
  refine (reads_u8 0).bind ((reads_u8 _).bindPure ?_)
  cases b <;> rfl

theorem reads_u64 (n : UInt64) : Reads read (u8Bytes 4 ++ u64Bytes n) (.u64 n) :=
  (reads_u8 4).bind ((Core.reads_u64 n).bindPure rfl)

/-- **A value is read back** if it fits. -/
theorem reads : ∀ {v : Any}, v.Fits → Reads read v.bytes v
  | .boolean b, _ => reads_boolean b
  | .u64 n, _ => reads_u64 n
  | .string none, _ => by
    intro rest
    have hread := read_string (2 ^ 32 - 1) rest
    rw [if_pos (by decide)] at hread
    rw [bytes, List.append_assoc]
    exact hread
  | .string (some s), hfits => by
    intro rest
    have hlt : s.1.length < 2 ^ 32 - 1 := hfits
    rw [bytes, Nat.mod_eq_of_lt (by omega), List.take_length, List.append_assoc, List.append_assoc, read_string,
      Nat.mod_eq_of_lt (by omega), if_neg (by omega), (reads_bytes s.1).bind_apply, ofBytes_eq]
    rfl
  | .unknown t, hfits => fun rest => read_unknown hfits rest

/-- A value that is read back fits. -/
theorem fits_of_read {v : Any} {rest w : List UInt8} (h : read (v.bytes ++ rest) = .ok v w) : v.Fits := by
  cases v with
  | boolean b => trivial
  | u64 n => trivial
  | string s =>
    cases s with
    | none => trivial
    | some s =>
      rw [bytes, List.append_assoc, List.append_assoc, read_string] at h
      split at h
      · cases h
      · next hne =>
        obtain ⟨t, w', ht, hs⟩ := bind_ok h
        have hlength := length_readBytes ht
        have hle := length_ofBytes_le t
        -- the string is no longer than what has been read for it
        obtain rfl : CString.ofBytes t = s := by
          cases hs
          rfl
        change (CString.ofBytes t).1.length < 2 ^ 32 - 1
        omega
  | unknown t =>
    by_contra hnames
    have hcases : t = 0 ∨ t = 4 ∨ t = 5 := by
      simp only [Fits] at hnames
      tauto
    unfold read bytes at h
    rw [(reads_u8 t).bind_apply] at h
    rcases hcases with rfl | rfl | rfl
    · obtain ⟨b, w', -, hb⟩ := bind_ok h
      cases hb
    · obtain ⟨n, w', -, hn⟩ := bind_ok h
      cases hn
    · obtain ⟨n, w', -, hn⟩ := bind_ok h
      split at hn
      · cases hn
      · obtain ⟨s, w', -, hs⟩ := bind_ok hn
        cases hs

end Any

/-! ### Trees -/

namespace Expression

/-- The tree can be told from all others by its bytes: every node has a value that fits, and a decoder. -/
def Encodable : Expression → Prop
  | .null => False
  | .symbol _ => True
  | .constant v => v.Fits
  | .name s => s.length < 2 ^ 64
  | .unary op arg => op ≠ .negate ∧ arg.Encodable
  | .binary _ a b => a.Encodable ∧ b.Encodable

omit [ByteOrder] in
theorem makeExpression_unary {op : UnaryOp} (h : op ≠ .negate) : makeExpression op.code = some (.unary op) := by
  cases op with
  | not => rfl
  | negate => exact absurd rfl h

omit [ByteOrder] in
theorem makeExpression_binary (op : BinaryOp) : makeExpression op.code = some (.binary op) := by
  cases op <;> rfl

/-- What is read after a type byte. -/
theorem readNested_succ (fuel : ℕ) (type : UInt8) (rest : List UInt8) :
    readNested (fuel + 1) (u8Bytes type ++ rest) =
      (match makeExpression type with
      | none => throw (.invalidArgument "bad expression type")
      | some .symbol => .symbol <$> readU32
      | some .constant => .constant <$> Any.read
      | some .name => .name <$> readString
      | some (.unary op) => .unary op <$> readNested fuel
      | some (.binary op) => readNested fuel >>= fun a => .binary op a <$> readNested fuel :
        ReadM Expression) rest := by
  rw [readNested, (reads_u8 type).bind_apply]
  cases makeExpression type with
  | none => rfl
  | some shape => cases shape <;> rfl

theorem bytes_length_pos {e : Expression} (h : e.Encodable) : 0 < e.bytes.length := by
  cases e with
  | null => exact h.elim
  | _ =>
    simp only [bytes, List.length_append, length_u8Bytes]
    omega

/-- There is fuel for a node. -/
theorem exists_fuel {e : Expression} {fuel : ℕ} (h : e.Encodable) (hfuel : e.bytes.length ≤ fuel) :
    ∃ n, fuel = n + 1 :=
  Nat.exists_eq_add_one_of_ne_zero (Nat.ne_of_gt ((bytes_length_pos h).trans_le hfuel))

theorem exists_fuel_of_ok {fuel : ℕ} {w w' : List UInt8} {e : Expression} (h : readNested fuel w = .ok e w') :
    ∃ n, fuel = n + 1 := by
  cases fuel with
  | zero => cases h
  | succ n => exact ⟨n, rfl⟩

/-- **An encodable tree is read back**, with as many nested calls as it has bytes. -/
theorem reads_nested {e : Expression} (h : e.Encodable) {fuel : ℕ} (hfuel : e.bytes.length ≤ fuel) :
    Reads (readNested fuel) e.bytes e := by
  induction e generalizing fuel with
  | null => exact h.elim
  | symbol r =>
    obtain ⟨fuel, rfl⟩ := exists_fuel h hfuel
    intro rest
    rw [bytes, List.append_assoc, readNested_succ]
    exact (reads_u32 r).map Expression.symbol rest
  | constant v =>
    obtain ⟨fuel, rfl⟩ := exists_fuel h hfuel
    intro rest
    rw [bytes, List.append_assoc, readNested_succ]
    exact (Any.reads h).map Expression.constant rest
  | name s =>
    obtain ⟨fuel, rfl⟩ := exists_fuel h hfuel
    intro rest
    rw [bytes, List.append_assoc, readNested_succ]
    exact (reads_string h).map Expression.name rest
  | unary op arg ih =>
    obtain ⟨fuel, rfl⟩ := exists_fuel h hfuel
    obtain ⟨hop, harg⟩ := h
    rw [bytes, List.length_append, length_u8Bytes] at hfuel
    have hread : Reads (readNested fuel) arg.bytes arg := ih harg (by omega)
    intro rest
    rw [bytes, List.append_assoc, readNested_succ, makeExpression_unary hop]
    exact hread.map (Expression.unary op) rest
  | binary op a b iha ihb =>
    obtain ⟨fuel, rfl⟩ := exists_fuel h hfuel
    obtain ⟨ha, hb⟩ := h
    rw [bytes, List.length_append, List.length_append, length_u8Bytes] at hfuel
    have hreada : Reads (readNested fuel) a.bytes a := iha ha (by omega)
    have hreadb : Reads (readNested fuel) b.bytes b := ihb hb (by omega)
    intro rest
    rw [bytes, List.append_assoc, List.append_assoc, readNested_succ, makeExpression_binary, ← List.append_assoc]
    exact hreada.bind (hreadb.map (Expression.binary op a)) rest

/-- No null pointer is read. -/
theorem readNested_ne_null {fuel : ℕ} {w w' : List UInt8} {e : Expression} (h : readNested fuel w = .ok e w') :
    e ≠ .null := by
  cases fuel with
  | zero => cases h
  | succ fuel =>
    obtain ⟨type, w₁, -, hshape⟩ := bind_ok h
    generalize makeExpression type = shape at hshape
    cases shape with
    | none => cases hshape
    | some shape =>
      cases shape with
      | binary op =>
        obtain ⟨a, w₂, -, ha⟩ := bind_ok hshape
        obtain ⟨b, w₃, -, hb⟩ := bind_ok ha
        cases hb
        exact Expression.noConfusion
      | _ =>
        obtain ⟨x, w₂, -, hx⟩ := bind_ok hshape
        cases hx
        exact Expression.noConfusion

/-- More nested calls than needed change nothing. -/
theorem readNested_mono {n m : ℕ} (hle : n ≤ m) {w w' : List UInt8} {e : Expression}
    (h : readNested n w = .ok e w') : readNested m w = .ok e w' := by
  induction n generalizing m w w' e with
  | zero => cases h
  | succ n ih =>
    obtain ⟨m, rfl⟩ : ∃ k, m = k + 1 := ⟨m - 1, by omega⟩
    have hnm : n ≤ m := by omega
    obtain ⟨type, w₁, htype, hshape⟩ := bind_ok h
    refine bind_eq_ok htype ?_
    generalize makeExpression type = shape at hshape
    cases shape with
    | none => cases hshape
    | some shape =>
      cases shape with
      | unary op =>
        obtain ⟨a, w₂, ha, heq⟩ := bind_ok hshape
        exact bind_eq_ok (ih hnm ha) heq
      | binary op =>
        obtain ⟨a, w₂, ha, hrest⟩ := bind_ok hshape
        obtain ⟨b, w₃, hb, heq⟩ := bind_ok hrest
        exact bind_eq_ok (ih hnm ha) (bind_eq_ok (ih hnm hb) heq)
      | _ => exact hshape

/-- An encodable tree that is read takes its own bytes. -/
theorem rest_of_read {e : Expression} {fuel : ℕ} {rest w : List UInt8} (he : e.Encodable)
    (h : readNested fuel (e.bytes ++ rest) = .ok e w) : rest = w := by
  have hmore := readNested_mono (Nat.le_max_left fuel e.bytes.length) h
  rw [reads_nested he (Nat.le_max_right fuel _) rest] at hmore
  cases hmore
  rfl

/-- A tree that is read back is encodable, and so are its subtrees. -/
theorem encodable_of_read {e : Expression} {fuel : ℕ} {rest w : List UInt8}
    (h : readNested fuel (e.bytes ++ rest) = .ok e w) : e.Encodable := by
  induction e generalizing fuel rest w with
  | null => exact absurd rfl (readNested_ne_null h)
  | symbol r => trivial
  | constant v =>
    obtain ⟨fuel, rfl⟩ := exists_fuel_of_ok h
    rw [bytes, List.append_assoc, readNested_succ] at h
    obtain ⟨v', hv, heq⟩ := map_ok h
    cases heq
    exact Any.fits_of_read hv
  | name s =>
    obtain ⟨fuel, rfl⟩ := exists_fuel_of_ok h
    rw [bytes, List.append_assoc, readNested_succ] at h
    obtain ⟨s', hs, heq⟩ := map_ok h
    cases heq
    exact length_of_readString hs
  | unary op arg ih =>
    obtain ⟨fuel, rfl⟩ := exists_fuel_of_ok h
    rw [bytes, List.append_assoc, readNested_succ] at h
    cases op with
    | negate => cases h
    | not =>
      obtain ⟨arg', harg, heq⟩ := map_ok h
      cases heq
      exact ⟨UnaryOp.noConfusion, ih harg⟩
  | binary op a b iha ihb =>
    obtain ⟨fuel, rfl⟩ := exists_fuel_of_ok h
    rw [bytes, List.append_assoc, List.append_assoc, readNested_succ, makeExpression_binary] at h
    obtain ⟨a', w', ha, hrest⟩ := bind_ok h
    obtain ⟨b', hb, heq⟩ := map_ok hrest
    cases heq
    -- the bytes of the first child are taken, so the second one starts where it was written
    have hfirst := iha ha
    obtain rfl := rest_of_read hfirst ha
    exact ⟨hfirst, ihb hb⟩

/-- An encodable tree comes through its binary form unchanged. -/
theorem survives_of_encodable {e : Expression} (he : e.Encodable) : e.Survives := by
  intro rest
  have hfuel : e.bytes.length ≤ (e.bytes ++ rest).length + 1 := by
    rw [List.length_append]
    omega
  exact reads_nested he hfuel rest

/-- **An expression comes through its binary form unchanged**, whatever follows, and has the same value on
every node, if and only if there is no `Negate` in it, no null pointer, and its strings are short enough for
their lengths. -/
theorem survives_iff (e : Expression) :
    (e.Survives ↔ e.Encodable) ∧
      (e.Encodable → ∀ rest, ∃ e', read (e.bytes ++ rest) = .ok e' rest ∧
        ∀ context, e'.evaluate context = e.evaluate context) := by
  exact ⟨⟨fun h => encodable_of_read (h []), survives_of_encodable⟩,
    fun he rest => ⟨e, survives_of_encodable he rest, fun _ => rfl⟩⟩

end Expression

end Binary

/-- **A `Negate` node does not come through**: its type byte is written, and nothing is made of it. -/
theorem Expression.negate_lost :
    letI := ByteOrder.littleEndian
    (Expression.unary .negate (.symbol 0)).bytes = [18, 1, 0, 0, 0, 0] ∧
      Expression.read [18, 1, 0, 0, 0, 0] = .error (.invalidArgument "bad expression type") [1, 0, 0, 0, 0] ∧
      ¬ (Expression.unary .negate (.symbol 0)).Survives := by
  let _ := ByteOrder.littleEndian
  refine ⟨rfl, rfl, fun h => ?_⟩
  have hread := h []
  cases hread

end Subordination.Core.Resources
