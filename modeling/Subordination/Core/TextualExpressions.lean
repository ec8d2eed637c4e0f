import Subordination.Core.Resources
import Subordination.Library.Brackets

/-!
# Expressions as text

A node filter is written by hand in a language of bracketed words, in which expressions are also printed
(`core/resources.cc`).

## The model

A text is a list of bytes in the C locale. A null pointer that is printed ends the process. The depth of the
reader is an `int` in the source; from zero down it makes no difference.

## What is proved

* `Expression.read_print` — what is printed is read back, if its leaves are and the reader is deep enough.
-/

namespace Subordination.Core.Resources

open Library

/-! ### Characters -/

/-- The bytes of some characters. -/
def ascii (s : List Char) : List UInt8 := s.map fun c => UInt8.ofNat c.toNat

/-- `std::isspace`. -/
def isSpace (c : UInt8) : Bool := c = 32 || (9 ≤ c && c ≤ 13)

/-- `std::isdigit`. -/
def isDigit (c : UInt8) : Bool := 48 ≤ c && c ≤ 57

/-- `std::isalnum`. -/
def isAlnum (c : UInt8) : Bool := isDigit c || (65 ≤ c && c ≤ 90) || (97 ≤ c && c ≤ 122)

/-- `is_valid_name`. -/
def isValidName (s : List UInt8) : Bool :=
  !(s.head?.any isDigit) && s.all fun c => isAlnum c || c ∈ ascii ['-', '%', '.']

/-- What a character does to the count of brackets. -/
def bracket (c : UInt8) : ℤ := if c = 40 then 1 else if c = 41 then -1 else 0

/-! ### Names -/

/-- `HUMAN_NAME`, of an operation with one argument. -/
def UnaryOp.humanName : UnaryOp → List UInt8
  | .not => ascii ['n', 'o', 't']
  | .negate => ascii ['n', 'e', 'g', 'a', 't', 'e']

/-- `HUMAN_NAME`, of an operation with two arguments. -/
def BinaryOp.humanName : BinaryOp → List UInt8
  | .and => ascii ['a', 'n', 'd']
  | .or => ascii ['o', 'r']
  | .xor => ascii ['x', 'o', 'r']
  | .lessThan => ascii ['<']
  | .lessOrEqual => ascii ['<', '=']
  | .equal => ascii ['=']
  | .greaterThan => ascii ['>']
  | .greaterOrEqual => ascii ['>', '=']
  | .add => ascii ['+']
  | .subtract => ascii ['-']
  | .multiply => ascii ['*']
  | .quotient => ascii ['q', 'u', 'o', 't', 'i', 'e', 'n', 't']
  | .remainder => ascii ['r', 'e', 'm', 'a', 'i', 'n', 'd', 'e', 'r']

/-- The operation with two arguments that `read_expression` makes for a name. -/
def BinaryOp.ofName (name : List UInt8) : Option BinaryOp :=
  [and, or, xor, equal, lessThan, lessOrEqual, greaterThan, greaterOrEqual, add, subtract, multiply, quotient,
    remainder].find? fun op => op.humanName = name

theorem BinaryOp.ofName_humanName (op : BinaryOp) : ofName op.humanName = some op := by
  cases op <;> rfl

/-- `resource_to_string`. -/
def resourceToString (r : UInt32) : Option (List UInt8) :=
  if r = 0 then some (ascii ['t', 'o', 't', 'a', 'l', '-', 't', 'h', 'r', 'e', 'a', 'd', 's'])
  else if r = 1 then some (ascii ['t', 'o', 't', 'a', 'l', '-', 'm', 'e', 'm', 'o', 'r', 'y'])
  else if r = 2 then some (ascii ['h', 'o', 's', 't', 'n', 'a', 'm', 'e'])
  else none

/-- `string_to_resource`; nothing stands for `bad_resource`. -/
def stringToResource (s : List UInt8) : Option UInt32 :=
  [0, 1, 2].find? fun r => resourceToString r = some s

/-! ### Printing -/

namespace Any

/-- `write_string`. -/
def writeString (s : List UInt8) : List UInt8 :=
  [34] ++ (s.flatMap fun c => if c = 34 then [92, 34] else [c]) ++ [34]

/-- `Any::write(std::ostream&)`. -/
def print : Any → Except Trap (List UInt8)
  | .boolean b => .ok [if b then 49 else 48]
  | .u64 n => .ok (ascii (Nat.toDigits 10 n.toNat))
  | .string (some s) => .ok (writeString s.1)
  | .string none => .error .nullPointer
  | .unknown _ => .ok []

end Any

namespace Expression

/-- `write(std::ostream&)` of all node kinds. -/
def print : Expression → Except Trap (List UInt8)
  | .null => .error .nullPointer
  | .symbol r => .ok ((resourceToString r).getD (ascii ['u', 'n', 'k', 'n', 'o', 'w', 'n']))
  | .constant v => v.print
  | .name s => .ok s
  | .unary op arg => do
    let a ← arg.print
    return [40] ++ op.humanName ++ [32] ++ a ++ [41]
  | .binary op a b => do
    let a ← a.print
    let b ← b.print
    return [40] ++ op.humanName ++ [32] ++ a ++ [32] ++ b ++ [41]

end Expression

/-! ### Reading -/

/-- `read_string`. -/
def Any.readString : List UInt8 → List UInt8
  | [] => []
  | [c] => if c = 92 then [] else [c]
  | c :: d :: s => if c = 92 then d :: readString s else c :: readString (d :: s)

/-- The integer whose decimal digits are given. -/
def ofDigits (ds : List UInt8) : ℤ := ds.foldl (fun n c => n * 10 + (c.toNat - 48 : ℤ)) 0

/-- `std::stol`, and the number of characters it has taken. -/
def stol (s : List UInt8) : Except Exception (ℤ × ℕ) :=
  let unspaced := s.dropWhile isSpace
  let negative := unspaced.head? = some 45
  let unsigned := if negative ∨ unspaced.head? = some 43 then unspaced.tail else unspaced
  let digits := unsigned.takeWhile isDigit
  let value := if negative then -ofDigits digits else ofDigits digits
  if digits = [] then .error (.invalidArgument "stol")
  else if value < -2 ^ 63 ∨ 2 ^ 63 ≤ value then .error (.foreign "std::out_of_range")
  else .ok (value, s.length - unsigned.length + digits.length)

/-- `string_to_unsigned_integer`: only `std::invalid_argument` is caught. -/
def stringToUnsignedInteger (s : List UInt8) : Except Exception (Option UInt64) :=
  match stol s with
  | .ok (v, pos) => .ok (if v < 0 ∨ pos ≠ s.length then none else some (UInt64.ofNat v.toNat))
  | .error (.invalidArgument _) => .ok none
  | .error x => .error x

namespace Expression

/-- What a word is read as. -/
def readWord (s : List UInt8) : Except Exception Expression :=
  match stringToResource s with
  | some r => .ok (.symbol r)
  | none => do
    match ← stringToUnsignedInteger s with
    | some v => .ok (.constant (.u64 v))
    | none => if isValidName s then .ok (.name s) else .error (.invalidArgument "bad symbol name")

/-- `read_expression`, given the reader of the arguments. -/
def readExpression (readArgument : List UInt8 → Except Exception Expression) (s : List UInt8) :
    Except Exception Expression :=
  let s := trim isSpace s
  let name := s.takeWhile (!isSpace ·)
  let rest := (s.dropWhile (!isSpace ·)).dropWhile isSpace
  if name = UnaryOp.not.humanName then .unary .not <$> readArgument rest
  else if name = UnaryOp.negate.humanName then .unary .negate <$> readArgument rest
  else
    match scan bracket isSpace 0 rest with
    | none => .ok .null
    | some (_, []) => .ok .null
    | some (first, second) => do
      let a ← readArgument first
      let b ← readArgument second
      match BinaryOp.ofName name with
      | some op => .ok (.binary op a b)
      | none => .ok .null

/-- `sbn::resources::read(const char*, const char*, int)`. -/
def readText : ℕ → List UInt8 → Except Exception Expression
  | 0, _ => .ok .null
  | depth + 1, s =>
    match trim isSpace s with
    | [] => .ok .null
    | c :: s =>
      let last := (c :: s).getLast?
      if c = 40 ∧ last = some 41 then readExpression (readText depth) s.dropLast
      else if c = 34 ∧ last = some 34 then
        -- a quote that is alone has a length below zero between its quotes
        if s = [] then .error (.foreign "std::length_error")
        else .ok (.constant (.string (some (CString.ofBytes (Any.readString s.dropLast)))))
      else readWord (c :: s)

example : readText 2 (ascii ['(', '>', '=', ' ', 't', 'o', 't', 'a', 'l', '-', 't', 'h', 'r', 'e', 'a', 'd', 's',
    ' ', '8', ')']) = .ok (.binary .greaterOrEqual (.symbol 0) (.constant (.u64 8))) := by decide

/-! ### Round trips -/

/-- The number of levels of a tree: a leaf is one. -/
def height : Expression → ℕ
  | .unary _ arg => arg.height + 1
  | .binary _ a b => max a.height b.height + 1
  | _ => 1

/-- The nodes without arguments. -/
def leaves : Expression → List Expression
  | .unary _ arg => arg.leaves
  | .binary _ a b => a.leaves ++ b.leaves
  | e => [e]

/-- A character that is not white space, a bracket, or a double quote. -/
def IsPlain (c : UInt8) : Prop := isSpace c = false ∧ c ≠ 40 ∧ c ≠ 41 ∧ c ≠ 34

instance : DecidablePred IsPlain := fun c =>
  inferInstanceAs (Decidable (isSpace c = false ∧ c ≠ 40 ∧ c ≠ 41 ∧ c ≠ 34))

/-- The leaf is printed without white space, brackets and double quotes, and read back by a reader of the
given depth. -/
def ReadsBack (depth : ℕ) (leaf : Expression) : Prop :=
  ∃ s, leaf.print = .ok s ∧ readText depth s = .ok leaf ∧ ∀ c ∈ s, IsPlain c

/-- A text that a reader takes for one argument. -/
structure IsArgument (s : List UInt8) : Prop where
  /-- There is something in it. -/
  ne_nil : s ≠ []
  /-- It does not begin with a space. -/
  first : ∀ c ∈ s.head?, isSpace c = false
  /-- It does not end with one. -/
  last : ∀ c ∈ s.getLast?, isSpace c = false
  /-- Its spaces are in brackets. -/
  runs : Runs bracket isSpace 0 s 0

theorem IsArgument.trim_eq {s : List UInt8} (h : IsArgument s) : trim isSpace s = s := trim_eq_self h.first h.last

theorem bracket_of_isPlain {c : UInt8} (h : IsPlain c) : bracket c = 0 := by
  simp [bracket, h.2.1, h.2.2.1]

theorem isArgument_of_isPlain {s : List UInt8} (hne : s ≠ []) (h : ∀ c ∈ s, IsPlain c) : IsArgument s where
  ne_nil := hne
  first := fun c hc => (h c (List.mem_of_mem_head? hc)).1
  last := fun c hc => (h c (List.mem_of_getLast? hc)).1
  runs := Runs.plain le_rfl (fun c hc => bracket_of_isPlain (h c hc)) (Or.inr fun c hc => (h c hc).1)

/-- A text in brackets is an argument. -/
theorem isArgument_bracketed {s : List UInt8} (h : Runs bracket isSpace 1 s 1) :
    IsArgument (40 :: (s ++ [41])) where
  ne_nil := List.cons_ne_nil _ _
  first := by
    rintro c hc
    cases hc
    rfl
  last := by
    intro c hc
    rw [← List.cons_append, List.getLast?_concat] at hc
    cases hc
    rfl
  runs := Runs.bracketed rfl rfl rfl h

-- A decision for all characters of a text, instead of one for all bytes.
theorem isPlain_of_all {s : List UInt8} (h : (s.all fun c => IsPlain c) = true) : ∀ c ∈ s, IsPlain c := by
  simpa using h

theorem isPlain_unary (op : UnaryOp) : ∀ c ∈ op.humanName, IsPlain c := by
  cases op <;> exact isPlain_of_all (by decide)

theorem isPlain_binary (op : BinaryOp) : ∀ c ∈ op.humanName, IsPlain c := by
  cases op <;> exact isPlain_of_all (by decide)

theorem unary_ne_nil (op : UnaryOp) : op.humanName ≠ [] := by
  cases op <;> decide

theorem binary_ne_nil (op : BinaryOp) : op.humanName ≠ [] := by
  cases op <;> decide

/-- The name of an operation, a space, and something in which brackets are closed, in brackets. -/
theorem isArgument_operation {name s : List UInt8} (hname : ∀ c ∈ name, IsPlain c)
    (h : Runs bracket isSpace 1 s 1) : IsArgument ([40] ++ name ++ [32] ++ s ++ [41]) := by
  have hplain : Runs bracket isSpace 1 (name ++ [32]) 1 := by
    refine Runs.plain zero_le_one (fun c hc => ?_) (Or.inl one_ne_zero)
    rcases List.mem_append.mp hc with hc | hc
    · exact bracket_of_isPlain (hname c hc)
    · rw [List.mem_singleton.mp hc]
      rfl
  have hbracketed := isArgument_bracketed (hplain.append h)
  simpa using hbracketed

/-- A word and the argument after it are told apart by the space between them. -/
theorem word_eq {name s : List UInt8} (hname : ∀ c ∈ name, IsPlain c) (hne : name ≠ []) (hs : s ≠ [])
    (hfirst : ∀ c ∈ s.head?, isSpace c = false) (hlast : ∀ c ∈ s.getLast?, isSpace c = false) :
    trim isSpace (name ++ [32] ++ s) = name ++ [32] ++ s ∧
      (name ++ [32] ++ s).takeWhile (!isSpace ·) = name ∧
      ((name ++ [32] ++ s).dropWhile (!isSpace ·)).dropWhile isSpace = s := by
  have hword : ∀ c ∈ name, (!isSpace c) = true := fun c hc => by simp [(hname c hc).1]
  have hspace : isSpace 32 = true := rfl
  refine ⟨trim_eq_self (fun c hc => ?_) (fun c hc => ?_), ?_, ?_⟩
  · cases name with
    | nil => exact absurd rfl hne
    | cons d ds =>
      have hd : d = c := by simpa using hc
      exact hd ▸ (hname d List.mem_cons_self).1
  · rw [List.getLast?_append_of_ne_nil _ hs] at hc
    exact hlast c hc
  · rw [List.append_assoc, List.takeWhile_append_of_pos hword]
    simp [hspace]
  · rw [List.append_assoc, List.dropWhile_append_of_pos hword]
    cases s with
    | nil => exact absurd rfl hs
    | cons d ds => simp [hspace, hfirst d rfl]

variable {read : List UInt8 → Except Exception Expression} {depth : ℕ} {s t : List UInt8} {e e' : Expression}

/-- An operation with one argument is read if its argument is. -/
theorem readExpression_unary (op : UnaryOp) (hs : IsArgument s) (hread : read s = .ok e) :
    readExpression read (op.humanName ++ [32] ++ s) = .ok (.unary op e) := by
  obtain ⟨htrim, htake, hdrop⟩ := word_eq (isPlain_unary op) (unary_ne_nil op) hs.ne_nil hs.first hs.last
  unfold readExpression
  simp only [htrim, htake, hdrop, hread]
  cases op <;> rfl

/-- So is an operation with two arguments: the brackets of the first one tell where it ends. -/
theorem readExpression_binary (op : BinaryOp) (hs : IsArgument s) (ht : IsArgument t) (hread : read s = .ok e)
    (hread' : read (32 :: t) = .ok e') :
    readExpression read (op.humanName ++ [32] ++ (s ++ [32] ++ t)) = .ok (.binary op e e') := by
  have hscan : scan bracket isSpace 0 (s ++ [32] ++ t) = some (s, 32 :: t) := by
    rw [List.append_assoc]
    exact scan_append hs.runs rfl t
  have hfirst : ∀ c ∈ (s ++ [32] ++ t).head?, isSpace c = false := by
    intro c hc
    rw [List.append_assoc, List.head?_append_of_ne_nil _ hs.ne_nil] at hc
    exact hs.first c hc
  have hlast : ∀ c ∈ (s ++ [32] ++ t).getLast?, isSpace c = false := by
    intro c hc
    rw [List.getLast?_append_of_ne_nil _ ht.ne_nil] at hc
    exact ht.last c hc
  have hne : s ++ [32] ++ t ≠ [] := by simp
  obtain ⟨htrim, htake, hdrop⟩ := word_eq (isPlain_binary op) (binary_ne_nil op) hne hfirst hlast
  have hnot : op.humanName ≠ UnaryOp.not.humanName ∧ op.humanName ≠ UnaryOp.negate.humanName := by
    cases op <;> decide
  unfold readExpression
  simp only [htrim, htake, hdrop, if_neg hnot.1, if_neg hnot.2, hscan, hread, hread', op.ofName_humanName]
  rfl

/-- What stands in brackets is read as an operation. -/
theorem readText_bracketed (h : IsArgument (40 :: (s ++ [41]))) :
    readText (depth + 1) (40 :: (s ++ [41])) = readExpression (readText depth) s := by
  have hlast : (40 :: (s ++ [41])).getLast? = some 41 := by
    rw [← List.cons_append, List.getLast?_concat]
  rw [readText, h.trim_eq]
  simp [hlast]

/-- A reader does not mind a space before an argument. -/
theorem readText_cons_space (depth : ℕ) (s : List UInt8) : readText depth (32 :: s) = readText depth s := by
  cases depth with
  | zero => rfl
  | succ depth => rw [readText, readText, trim_cons (show isSpace 32 = true from rfl)]

/-- A word is read alike at all depths. -/
theorem readText_plain (hs : ∀ c ∈ s, IsPlain c) (n m : ℕ) : readText (n + 1) s = readText (m + 1) s := by
  cases s with
  | nil => rfl
  | cons c s =>
    have hc := hs c List.mem_cons_self
    have htrim : trim isSpace (c :: s) = c :: s := (isArgument_of_isPlain (List.cons_ne_nil c s) hs).trim_eq
    rw [readText, readText, htrim]
    simp [hc.2.1, hc.2.2.2]

/-- A leaf that is read back is printed as an argument, which is read at any depth. -/
theorem ReadsBack.isArgument (h : ReadsBack depth e) : ∃ s, e.print = .ok s ∧ IsArgument s ∧
    ∀ n, readText (n + 1) s = .ok e := by
  obtain ⟨s, hprint, hread, hplain⟩ := h
  have hnull : e ≠ .null := by
    rintro rfl
    cases hprint
  cases depth with
  | zero =>
    cases hread
    exact absurd rfl hnull
  | succ depth =>
    refine ⟨s, hprint, isArgument_of_isPlain ?_ hplain, fun n => (readText_plain hplain n depth).trans hread⟩
    rintro rfl
    cases hread
    exact hnull rfl

/-- An argument is read within brackets as it is outside of them. -/
theorem IsArgument.runs_one (h : IsArgument s) : Runs bracket isSpace 1 s 1 := by
  simpa using h.runs.shift le_rfl zero_le_one

/-- What is printed is an argument, which is read by every reader that is deep enough. -/
theorem isArgument_print {maxDepth : ℕ} (h : ∀ leaf ∈ e.leaves, leaf.ReadsBack maxDepth) :
    ∃ s, e.print = .ok s ∧ IsArgument s ∧ ∀ n, e.height ≤ n → readText n s = .ok e := by
  induction e with
  | unary op arg ih =>
    obtain ⟨s, hprint, hs, hread⟩ := ih h
    have hargument := isArgument_operation (isPlain_unary op) hs.runs_one
    have heq : [40] ++ op.humanName ++ [32] ++ s ++ [41] = 40 :: (op.humanName ++ [32] ++ s ++ [41]) := by simp
    refine ⟨_, by simp only [print, hprint]; rfl, hargument, fun n hn => ?_⟩
    cases n with
    | zero => simp [height] at hn
    | succ n =>
      rw [heq] at hargument ⊢
      rw [readText_bracketed hargument]
      exact readExpression_unary op hs (hread n (by simpa [height] using hn))
  | binary op a b iha ihb =>
    obtain ⟨s, hprint, hs, hread⟩ := iha fun leaf hleaf => h leaf (List.mem_append_left _ hleaf)
    obtain ⟨t, hprint', ht, hread'⟩ := ihb fun leaf hleaf => h leaf (List.mem_append_right _ hleaf)
    have hspace : Runs bracket isSpace 1 [32] 1 :=
      Runs.plain zero_le_one (fun c hc => by rw [List.mem_singleton.mp hc]; rfl) (Or.inl one_ne_zero)
    have hruns : Runs bracket isSpace 1 (s ++ [32] ++ t) 1 :=
      (hs.runs_one.append hspace).append ht.runs_one
    have hargument := isArgument_operation (isPlain_binary op) hruns
    have heq : [40] ++ op.humanName ++ [32] ++ (s ++ [32] ++ t) ++ [41] =
        40 :: (op.humanName ++ [32] ++ (s ++ [32] ++ t) ++ [41]) := by simp
    refine ⟨_, ?_, hargument, fun n hn => ?_⟩
    · simp only [print, hprint, hprint', ← List.append_assoc]
      rfl
    · cases n with
      | zero => simp [height] at hn
      | succ n =>
        have hheight : a.height ≤ n ∧ b.height ≤ n := by simpa [height] using hn
        rw [heq] at hargument ⊢
        rw [readText_bracketed hargument]
        exact readExpression_binary op hs ht (hread n hheight.1)
          ((readText_cons_space n t).trans (hread' n hheight.2))
  | _ =>
    obtain ⟨s, hprint, hs, hread⟩ := (h _ (List.mem_singleton_self _)).isArgument
    refine ⟨s, hprint, hs, fun n hn => ?_⟩
    cases n with
    | zero => simp [height] at hn
    | succ n => exact hread n

/-- A tree with no more levels than the reader has is read back as it was printed, if its leaves are. -/
theorem read_print {maxDepth : ℕ} (hheight : e.height ≤ maxDepth)
    (hleaves : ∀ leaf ∈ e.leaves, leaf.ReadsBack maxDepth) :
    ∃ s, e.print = .ok s ∧ readText maxDepth s = .ok e := by
  obtain ⟨s, hprint, -, hread⟩ := isArgument_print hleaves
  exact ⟨s, hprint, hread maxDepth hheight⟩

/-- A filter on the number of threads. -/
theorem read_print_filter : ∃ s, (binary .greaterOrEqual (.symbol 0) (.constant (.u64 8))).print = .ok s ∧
    readText 2 s = .ok (binary .greaterOrEqual (.symbol 0) (.constant (.u64 8))) := by
  refine read_print (by decide) fun leaf hleaf => ?_
  rcases List.mem_pair.mp hleaf with rfl | rfl
  · exact ⟨_, rfl, by decide, isPlain_of_all (by decide)⟩
  · exact ⟨_, rfl, by decide, isPlain_of_all (by decide)⟩

end Expression

end Subordination.Core.Resources
