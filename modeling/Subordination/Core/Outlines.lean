import Subordination.Core.Evaluation

/-!
# What is read from a text

The reader of expressions reports malformed input in two ways, by an exception and by a null pointer, and hands
a null pointer on as an argument like any other tree. Two programs call it: the daemon, for the `resources.*`
properties, and `sbnc`, for its option `-r`.

## The model

The `outline` of a text is how its brackets divide it: nothing has been read yet, and nothing is wrong yet.

## What is proved

* `readText_eq` — the reader reads the outline.
* `Outline.read_cases` — what it returns: the exception of the first word that is at fault, or a tree.
* `accepts_iff` — for which texts the tree has no null pointers in it.
-/

namespace Subordination.Core.Resources

open Library

/-! ### Outlines -/

/-- How brackets divide a text. -/
inductive Outline where
  /-- Nothing, or nothing at this depth, or brackets that do not hold two arguments. -/
  | blank
  /-- A word. -/
  | word (s : List UInt8)
  /-- What stands between two quotes. -/
  | quoted (s : List UInt8)
  /-- A quote that is alone. -/
  | loneQuote
  /-- An operation with one argument. -/
  | unary (op : UnaryOp) (arg : Outline)
  /-- Two arguments, and the operation, if there is one of that name. -/
  | binary (op : Option BinaryOp) (a b : Outline)

/-- The outline of what stands in brackets, given the outlines of the arguments. -/
def outlineExpression (outlineArgument : List UInt8 → Outline) (s : List UInt8) : Outline :=
  let s := trim isSpace s
  let name := s.takeWhile (!isSpace ·)
  let rest := (s.dropWhile (!isSpace ·)).dropWhile isSpace
  if name = UnaryOp.not.humanName then .unary .not (outlineArgument rest)
  else if name = UnaryOp.negate.humanName then .unary .negate (outlineArgument rest)
  else
    match scan bracket isSpace 0 rest with
    | none => .blank
    | some (_, []) => .blank
    | some (first, second) => .binary (BinaryOp.ofName name) (outlineArgument first) (outlineArgument second)

/-- The outline of a text, down to a depth. -/
def outline : ℕ → List UInt8 → Outline
  | 0, _ => .blank
  | depth + 1, s =>
    match trim isSpace s with
    | [] => .blank
    | c :: s =>
      let last := (c :: s).getLast?
      if c = 40 ∧ last = some 41 then outlineExpression (outline depth) s.dropLast
      else if c = 34 ∧ last = some 34 then if s = [] then .loneQuote else .quoted s.dropLast
      else .word (c :: s)

/-- What is wrong with a word. -/
def wordFault (s : List UInt8) : Option Exception :=
  match stringToResource s with
  | some _ => none
  | none =>
    match stringToUnsignedInteger s with
    | .error x => some x
    | .ok (some _) => none
    | .ok none => if isValidName s then none else some (.invalidArgument "bad symbol name")

namespace Outline

/-- What is wrong with the words of an outline, in the order in which they are read. -/
def faults : Outline → List Exception
  | .word s => (wordFault s).toList
  | .loneQuote => [.foreign "std::length_error"]
  | .unary _ arg => arg.faults
  | .binary _ a b => a.faults ++ b.faults
  | _ => []

/-- There is nothing in it, or two arguments of no operation. -/
def IsBlank : Outline → Prop
  | .blank => True
  | .binary none _ _ => True
  | _ => False

/-- Nothing in it is missing. -/
def Whole : Outline → Prop
  | .word _ => True
  | .quoted _ => True
  | .unary _ arg => arg.Whole
  | .binary (some _) a b => a.Whole ∧ b.Whole
  | _ => False

/-- The first word that is at fault is a bad name, or no word is at fault and the outline is blank or whole. -/
def Acceptable (o : Outline) : Prop :=
  match o.faults with
  | x :: _ => ∃ what, x = .invalidArgument what
  | [] => o.IsBlank ∨ o.Whole

/-- Reading the words of an outline. -/
def read : Outline → Except Exception Expression
  | .blank => .ok .null
  | .word s => Expression.readWord s
  | .quoted s => .ok (.constant (.string (some (CString.ofBytes (Any.readString s)))))
  | .loneQuote => .error (.foreign "std::length_error")
  | .unary op arg => .unary op <$> arg.read
  | .binary op a b => do
    let a ← a.read
    let b ← b.read
    match op with
    | some op => .ok (.binary op a b)
    | none => .ok .null

end Outline

namespace Expression

/-- No child is a null pointer, at any level. -/
def Complete : Expression → Prop
  | .null => False
  | .unary _ arg => arg.Complete
  | .binary _ a b => a.Complete ∧ b.Complete
  | _ => True

/-- No constant of the tree is a null string. -/
def NoNullString : Expression → Prop
  | .constant v => v ≠ .string none
  | .unary _ arg => NoNullString arg
  | .binary _ a b => NoNullString a ∧ NoNullString b
  | _ => True

theorem readExpression_eq {readArgument : List UInt8 → Except Exception Expression}
    {outlineArgument : List UInt8 → Outline} (h : ∀ s, readArgument s = (outlineArgument s).read) (s : List UInt8) :
    readExpression readArgument s = (outlineExpression outlineArgument s).read := by
  unfold readExpression outlineExpression
  simp only
  split
  · rw [h]
    rfl
  split
  · rw [h]
    rfl
  rcases scan bracket isSpace 0 (((trim isSpace s).dropWhile (!isSpace ·)).dropWhile isSpace) with
    _ | ⟨first, _ | ⟨c, second⟩⟩
  · rfl
  · rfl
  · simp only [h]
    rfl

/-- **The reader reads the outline of the text.** -/
theorem readText_eq (depth : ℕ) (s : List UInt8) : readText depth s = (outline depth s).read := by
  induction depth generalizing s with
  | zero => rfl
  | succ depth ih =>
    rw [readText, outline]
    cases trim isSpace s with
    | nil => rfl
    | cons c s =>
      simp only
      split
      · exact readExpression_eq ih s.dropLast
      split
      · split <;> rfl
      · rfl

/-- What words are read as. -/
inductive IsWord : Expression → Prop where
  /-- The name of a resource. -/
  | symbol (r : UInt32) : IsWord (.symbol r)
  /-- A number. -/
  | number (n : UInt64) : IsWord (.constant (.u64 n))
  /-- Another name. -/
  | name (s : List UInt8) : IsWord (.name s)

theorem IsWord.ne_null {e : Expression} (h : e.IsWord) : e ≠ .null := by
  rintro rfl
  cases h

theorem IsWord.complete {e : Expression} (h : e.IsWord) : e.Complete := by
  cases h <;> trivial

theorem IsWord.noNullString {e : Expression} (h : e.IsWord) : e.NoNullString := by
  cases h
  · trivial
  · exact nofun
  · trivial

theorem IsWord.ne_string {e : Expression} (h : e.IsWord) (s : Option CString) : e ≠ .constant (.string s) := by
  rintro rfl
  cases h

/-- A word that is not at fault is read as a leaf. -/
theorem readWord_cases (s : List UInt8) :
    (∃ x, wordFault s = some x ∧ readWord s = .error x) ∨
      (wordFault s = none ∧ ∃ e, readWord s = .ok e ∧ e.IsWord) := by
  unfold wordFault readWord
  cases stringToResource s with
  | some r => exact Or.inr ⟨rfl, _, rfl, .symbol _⟩
  | none =>
    cases stringToUnsignedInteger s with
    | error x => exact Or.inl ⟨x, rfl, rfl⟩
    | ok v =>
      cases v with
      | some n => exact Or.inr ⟨rfl, _, rfl, .number n⟩
      | none =>
        by_cases hname : isValidName s = true
        · exact Or.inr ⟨if_pos hname, .name s, if_pos hname, .name s⟩
        · exact Or.inl ⟨_, if_neg hname, if_neg hname⟩

theorem isWord_of_readWord {s : List UInt8} {e : Expression} (h : readWord s = .ok e) : e.IsWord := by
  rcases readWord_cases s with ⟨x, -, hread⟩ | ⟨-, e', hread, hword⟩
  · rw [hread] at h
    cases h
  · rw [hread] at h
    cases h
    exact hword

end Expression

open Expression

/-- **What is read from an outline**: the exception of the first word at fault, or else a tree, which is null if
the outline is blank, and complete if it is whole. -/
theorem Outline.read_cases (o : Outline) :
    (∃ x xs, o.faults = x :: xs ∧ o.read = .error x) ∨
      (o.faults = [] ∧ ∃ e, o.read = .ok e ∧ (e = .null ↔ o.IsBlank) ∧ (e.Complete ↔ o.Whole)) := by
  induction o with
  | blank => exact Or.inr ⟨rfl, _, rfl, iff_of_true rfl trivial, Iff.rfl⟩
  | word s =>
    rcases readWord_cases s with ⟨x, hfault, hread⟩ | ⟨hfault, e, hread, hword⟩
    · exact Or.inl ⟨x, [], by rw [faults, hfault]; rfl, hread⟩
    · exact Or.inr ⟨by rw [faults, hfault]; rfl, e, hread, iff_of_false hword.ne_null id,
        iff_of_true hword.complete trivial⟩
  | quoted s => exact Or.inr ⟨rfl, _, rfl, iff_of_false nofun id, Iff.rfl⟩
  | loneQuote => exact Or.inl ⟨_, [], rfl, rfl⟩
  | unary op arg ih =>
    rcases ih with ⟨x, xs, hfaults, hread⟩ | ⟨hfaults, e, hread, -, hcomplete⟩
    · exact Or.inl ⟨x, xs, hfaults, by rw [read, hread]; rfl⟩
    · exact Or.inr ⟨hfaults, .unary op e, by rw [read, hread]; rfl, iff_of_false nofun id, hcomplete⟩
  | binary op a b iha ihb =>
    rcases iha with ⟨x, xs, hfaults, hread⟩ | ⟨hfaults, e, hread, -, hcomplete⟩
    · exact Or.inl ⟨x, xs ++ b.faults, by rw [faults, hfaults]; rfl, by rw [read, hread]; rfl⟩
    · rcases ihb with ⟨x, xs, hfaults', hread'⟩ | ⟨hfaults', e', hread', -, hcomplete'⟩
      · exact Or.inl ⟨x, xs, by rw [faults, hfaults, hfaults']; rfl, by rw [read, hread, hread']; rfl⟩
      · refine Or.inr ⟨by rw [faults, hfaults, hfaults']; rfl, ?_⟩
        cases op with
        | none => exact ⟨_, by rw [read, hread, hread']; rfl, iff_of_true rfl trivial, Iff.rfl⟩
        | some op =>
          exact ⟨.binary op e e', by rw [read, hread, hread']; rfl, iff_of_false nofun id,
            and_congr hcomplete hcomplete'⟩

/-! ### What the callers get -/

/-- The reader throws `std::invalid_argument`, or returns a null pointer or a tree without null pointers. -/
def Accepts (depth : ℕ) (s : List UInt8) : Prop :=
  (∃ what, readText depth s = .error (.invalidArgument what)) ∨
    ∃ e, readText depth s = .ok e ∧ (e = .null ∨ e.Complete)

/-- `Properties::property`, for the key `resources.*`: the expression that is stored under the name. -/
def resourceProperty (key value : List UInt8) : Except Exception Expression :=
  if isValidName key then readText 10 value else .error (.invalidArgument "bad symbol name")

/-- The loop of `Main::Main`: every stored expression is evaluated, and its value is put under its name. -/
def evaluateResources : List (List UInt8 × Expression) → Bindings → Except Trap Bindings
  | [], context => .ok context
  | (key, e) :: expressions, context => do
    let v ← e.evaluate context
    evaluateResources expressions { context with symbols := context.symbols.insert key v }

/-- The option `-r` of `sbnc`: the filter of the kernel that is sent. A null pointer is no filter. -/
def submitFilter (argument : List UInt8) : Except Exception (Option Expression) := do
  let e ← readText 10 argument
  return if e = .null then none else some e

/-- Whatever is stored for a `resources.*` property has no null pointers. -/
def EvaluatesTrees (value : List UInt8) : Prop :=
  ∀ key e, resourceProperty key value = .ok e → e.Complete

/-- Whatever `sbnc` sends with a kernel has no null pointers. -/
def EncodesTrees (argument : List UInt8) : Prop := ∀ e, submitFilter argument = .ok (some e) → e.Complete

theorem accepts_iff_acceptable (depth : ℕ) (s : List UInt8) : Accepts depth s ↔ (outline depth s).Acceptable := by
  rw [Accepts, readText_eq, Outline.Acceptable]
  rcases (outline depth s).read_cases with ⟨x, xs, hfaults, hread⟩ | ⟨hfaults, e, hread, hnull, hcomplete⟩
  · rw [hfaults, hread]
    constructor
    · rintro (⟨what, heq⟩ | ⟨e, heq, -⟩)
      · exact ⟨what, Except.error.inj heq⟩
      · cases heq
    · rintro ⟨what, rfl⟩
      exact Or.inl ⟨what, rfl⟩
  · rw [hfaults, hread]
    constructor
    · rintro (⟨what, heq⟩ | ⟨e', heq, he'⟩)
      · cases heq
      · cases heq
        exact he'.imp hnull.1 hcomplete.1
    · exact fun h => Or.inr ⟨e, rfl, h.imp hnull.2 hcomplete.2⟩

/-- A text is read as a complete tree, or not at all. -/
theorem complete_iff (depth : ℕ) (s : List UInt8) : (∀ e, readText depth s = .ok e → e.Complete) ↔
    ((outline depth s).faults = [] → (outline depth s).Whole) := by
  rw [readText_eq]
  rcases (outline depth s).read_cases with ⟨x, xs, hfaults, hread⟩ | ⟨hfaults, e, hread, -, hcomplete⟩
  · rw [hfaults, hread]
    exact iff_of_true nofun nofun
  · rw [hread]
    constructor
    · exact fun h _ => hcomplete.1 (h e rfl)
    · intro h e' heq
      cases heq
      exact hcomplete.2 (h hfaults)

/-- No string in the bindings is a null string. -/
def Bindings.NoNullString (context : Bindings) : Prop :=
  (∀ r, context.data r ≠ .string none) ∧ ∀ s, context.name s ≠ .string none

theorem copy_ne_nullPointer {v : Any} (h : v ≠ .string none) : v.copy ≠ .error .nullPointer := by
  rw [Any.copy_eq, if_neg h]
  exact fun heq => by cases heq

/-- A complete tree is evaluated without a null pointer. -/
theorem ne_nullPointer {e : Expression} {context : Bindings} (he : e.Complete) (hstrings : NoNullString e)
    (hcontext : context.NoNullString) : e.evaluate context ≠ .error .nullPointer := by
  refine evaluate_ne_of (p := fun e => e.Complete ∧ NoNullString e) (fun heq => by cases heq) (fun _ _ => id)
    (fun _ _ _ h => ⟨⟨h.1.1, h.2.1⟩, ⟨h.1.2, h.2.2⟩⟩) (fun h _ => h.1) (fun r _ => ?_)
    (fun v h => copy_ne_nullPointer h.2) (fun s => copy_ne_nullPointer (hcontext.2 s)) ⟨he, hstrings⟩
  rw [evaluate]
  split
  · exact copy_ne_nullPointer (hcontext.1 _)
  · exact fun heq => by cases heq

/-- The words of a text are no null strings. -/
theorem noNullString_of_readText {depth : ℕ} {s : List UInt8} {e : Expression} (h : readText depth s = .ok e) :
    NoNullString e := by
  rw [readText_eq] at h
  generalize outline depth s = o at h
  induction o generalizing e with
  | blank =>
    cases h
    trivial
  | word s =>
    rw [Outline.read] at h
    exact (isWord_of_readWord h).noNullString
  | quoted s =>
    cases h
    exact fun heq => by cases heq
  | loneQuote => cases h
  | unary op arg ih =>
    obtain ⟨x, hx, rfl⟩ := except_map_ok h
    have harg : NoNullString x := ih hx
    exact harg
  | binary op a b iha ihb =>
    obtain ⟨x, hx, h⟩ := except_bind_ok h
    obtain ⟨y, hy, h⟩ := except_bind_ok h
    cases op with
    | none =>
      cases h
      trivial
    | some op =>
      cases h
      exact ⟨iha hx, ihb hy⟩

/-- No evaluation returns a null string. -/
theorem evaluate_ne_nullString {e : Expression} {context : Bindings} {v : Any} (h : e.evaluate context = .ok v) :
    v ≠ .string none := by
  have hsafe := safe_of_evaluate h
  obtain rfl : e.meaning context = v := Except.ok.inj ((evaluate_of_safe hsafe).symm.trans h)
  cases e with
  | null => exact hsafe.elim
  | symbol r =>
    obtain ⟨hr, hne⟩ := hsafe
    rwa [meaning, dif_pos hr]
  | constant v => exact hsafe
  | name s => exact hsafe
  | unary op arg => cases op <;> exact fun heq => by cases heq
  | binary op a b => cases op <;> exact fun heq => by cases heq

/-- **Properties that were read as complete trees are evaluated without a null pointer.** -/
theorem evaluateResources_ne_nullPointer {expressions : List (List UInt8 × Expression)} {context : Bindings}
    (h : ∀ x ∈ expressions, x.2.Complete ∧ NoNullString x.2) (hcontext : context.NoNullString) :
    evaluateResources expressions context ≠ .error .nullPointer := by
  induction expressions generalizing context with
  | nil => exact fun heq => by cases heq
  | cons x expressions ih =>
    obtain ⟨key, e⟩ := x
    obtain ⟨hcomplete, hstrings⟩ := h (key, e) List.mem_cons_self
    have hne := ne_nullPointer hcomplete hstrings hcontext
    rw [evaluateResources]
    cases hv : e.evaluate context with
    | error trap =>
      rw [hv] at hne
      exact fun heq => hne (by cases heq; rfl)
    | ok v =>
      refine ih (fun x hx => h x (List.mem_cons_of_mem _ hx)) ⟨hcontext.1, fun s => ?_⟩
      have hv' := evaluate_ne_nullString hv
      show ((context.symbols.insert key v).lookup s).getD (.boolean false) ≠ .string none
      by_cases hs : s = key
      · rw [hs, AList.lookup_insert]
        exact hv'
      · rw [AList.lookup_insert_ne hs]
        exact hcontext.2 s

/-- Properties whose values are read as complete trees make the daemon start without a null pointer. -/
theorem properties_ne_nullPointer {expressions : List (List UInt8 × Expression)} {context : Bindings}
    (h : ∀ x ∈ expressions, ∃ value, resourceProperty x.1 value = .ok x.2 ∧ EvaluatesTrees value)
    (hcontext : context.NoNullString) : evaluateResources expressions context ≠ .error .nullPointer := by
  refine evaluateResources_ne_nullPointer (fun x hx => ?_) hcontext
  obtain ⟨value, hread, htrees⟩ := h x hx
  refine ⟨htrees x.1 x.2 hread, ?_⟩
  rw [resourceProperty] at hread
  split at hread
  · exact noNullString_of_readText hread
  · cases hread

/-- **The reader returns no tree with null pointers in it** if and only if the first word that is at fault is a bad
name, or no word is, and the outline is blank or whole. The properties want it whole, and so does `sbnc` unless it
is blank. -/
theorem accepts_iff (depth : ℕ) (s : List UInt8) :
    (Accepts depth s ↔ (outline depth s).Acceptable) ∧
      (EvaluatesTrees s ↔ ((outline 10 s).faults = [] → (outline 10 s).Whole)) ∧
      (EncodesTrees s ↔ ((outline 10 s).faults = [] → (outline 10 s).IsBlank ∨ (outline 10 s).Whole)) := by
  refine ⟨accepts_iff_acceptable depth s, ?_, ?_⟩
  · rw [← complete_iff]
    constructor
    · exact fun h e he => h [97] e he
    · intro h key e he
      rw [resourceProperty] at he
      split at he
      · exact h e he
      · cases he
  · rw [EncodesTrees, submitFilter, readText_eq]
    rcases (outline 10 s).read_cases with ⟨x, xs, hfaults, hread⟩ | ⟨hfaults, e, hread, hnull, hcomplete⟩
    · rw [hfaults, hread]
      exact iff_of_true nofun nofun
    · rw [hread]
      by_cases he : e = .null
      · subst he
        exact iff_of_true nofun fun _ => Or.inl (hnull.1 rfl)
      · constructor
        · exact fun h _ => Or.inr (hcomplete.1 (h e (by simp [he])))
        · intro h e' heq
          have hsame : e = e' := by simpa [he] using heq
          exact hsame ▸ hcomplete.2 ((h hfaults).resolve_left fun hblank => he (hnull.2 hblank))

/-- **Texts without arguments** are read as trees with null pointers, a number that is too great ends in another
exception, and an empty property is stored as a null pointer. -/
theorem accepts_fails :
    ¬ Accepts 10 (ascii ['(', 'n', 'o', 't', ')']) ∧ ¬ Accepts 10 (ascii ['"']) ∧
      ¬ EvaluatesTrees [] ∧ ¬ EncodesTrees (ascii ['(', 'a', 'n', 'd', ' ', '(', ')', ' ', 'x', ')']) := by
  refine ⟨?_, ?_, fun h => h [97] .null (by decide), fun h => ?_⟩
  · have hread : readText 10 (ascii ['(', 'n', 'o', 't', ')']) = .ok (.unary .not .null) := by decide
    rintro (⟨what, h⟩ | ⟨e, h, he⟩)
    · rw [hread] at h
      cases h
    · rw [hread] at h
      cases h
      exact he.elim nofun id
  · have hread : readText 10 (ascii ['"']) = .error (.foreign "std::length_error") := by decide
    rintro (⟨what, h⟩ | ⟨e, h, he⟩) <;> rw [hread] at h <;> cases h
  · exact (h (.binary .and .null (.name [120])) (by decide)).1

end Subordination.Core.Resources
