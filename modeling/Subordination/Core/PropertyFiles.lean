import Mathlib.Data.List.DropRight
import Subordination.Core.TextualExpressions
import Subordination.Library.Brackets
import Subordination.Library.Splitting

/-!
# Files of properties

The configuration is read character by character from a stream (`properties::read(std::istream&)`,
`core/properties.cc`): a machine with four states puts a key and a value together, and what is there at the end
of a line is given to `property`.

## The model

A stream gives some characters, and then the end of the file or a read error; after that it gives nothing. The
object that has `property` is any state, and `property` may throw. The loops have fuel.

The reference grammar says what a line is, before any of this: nothing, a pair, or a fault.

## What is proved

* `read_follows_grammar` — the machine does what the grammar says, for every file without NUL characters.
* `read_terminates_iff` — the loop ends, unless a read error comes when there is neither a key nor a value.
-/

namespace Subordination.Core

open Library Resources

namespace Properties

/-! ### The machine -/

/-- `State`. -/
inductive LineState where
  | key
  | value
  | comment
  | finished
  deriving DecidableEq, Repr

/-- The variables of a line: `key`, `value`, `state` and `success`. -/
structure Line where
  /-- `key`. -/
  key : List UInt8 := []
  /-- `value`. -/
  value : List UInt8 := []
  /-- `state`. -/
  state : LineState := .key
  /-- `success`. -/
  success : Bool := true
  deriving DecidableEq, Repr

/-- `line_delimiter`. -/
def lineDelimiter : UInt8 := 10

/-- `word_delimiter`. -/
def wordDelimiter : UInt8 := 61

/-- `comment_character`. -/
def commentCharacter : UInt8 := 35

/-- `if (!(s.empty() && std::isspace(ch))) { s += ch; }`. -/
def grow (s : List UInt8) (ch : UInt8) : List UInt8 := if s.isEmpty && isSpace ch then s else s ++ [ch]

/-- `parse`: the line after a character, and whether the loop is left. -/
def parse (ch : UInt8) (line : Line) : Line × Bool :=
  match line.state with
  | .key =>
    if ch = 0 ∨ ch = lineDelimiter then ({ line with success := false }, true)
    else if ch = commentCharacter then ({ line with state := .comment, success := false }, false)
    else if ch = wordDelimiter then ({ line with state := .value }, false)
    else ({ line with key := grow line.key ch }, false)
  | .value =>
    if ch = 0 ∨ ch = lineDelimiter then ({ line with state := .finished }, true)
    else if ch = commentCharacter then ({ line with state := .comment }, false)
    else ({ line with value := grow line.value ch }, false)
  | .comment =>
    if ch = 0 ∨ ch = lineDelimiter then ({ line with state := .finished }, true) else (line, false)
  | .finished => (line, false)

/-! ### Streams -/

/-- What comes after the characters of a stream. -/
inductive Ending where
  | endOfFile
  | readError
  deriving DecidableEq, Repr

/-- `std::istream`: what it still gives, and its state bits. -/
structure InputStream where
  /-- The characters. -/
  rest : List UInt8
  /-- What comes after them. -/
  ending : Ending
  /-- `std::ios::eofbit`. -/
  eofbit : Bool := false
  /-- `std::ios::failbit`. -/
  failbit : Bool := false
  /-- `std::ios::badbit`. -/
  badbit : Bool := false
  deriving DecidableEq, Repr

/-- `in.get(ch)`: no character is taken once a bit is set. -/
def InputStream.get (s : InputStream) : Option UInt8 × InputStream :=
  if s.eofbit || s.failbit || s.badbit then (none, { s with failbit := true })
  else
    match s.rest with
    | c :: cs => (some c, { s with rest := cs })
    | [] =>
      match s.ending with
      | .endOfFile => (none, { s with eofbit := true, failbit := true })
      | .readError => (none, { s with badbit := true, failbit := true })

/-- The inner loop. -/
def lineLoop : ℕ → Line → InputStream → Option (Line × InputStream)
  | 0, _, _ => none
  | fuel + 1, line, s =>
    let (ch, s) := s.get
    if !s.eofbit && (s.failbit || s.badbit) then some ({ line with success := false }, s)
    else
      let (line, stop) := parse (if s.eofbit then 0 else ch.getD 0) line
      if stop then some (line, s) else lineLoop fuel line s

/-! ### Reading -/

/-- The `std::runtime_error` that `read` throws. -/
inductive ReadError where
  /-- `property` has thrown. -/
  | invalid (lineNumber : ℕ) (key what : List UInt8)
  /-- A line that is no pair. -/
  | invalidLine (lineNumber : ℕ) (key value : List UInt8)
  /-- The file has not been opened. -/
  | failedToOpen
  deriving DecidableEq, Repr

/-- `what()`, of an error in a file. -/
def ReadError.text (filename : List UInt8) : ReadError → List UInt8
  | .invalid n key what =>
    filename ++ ascii [':'] ++ ascii (Nat.toDigits 10 n) ++ ascii ": invalid \"".toList ++ key ++
      ascii "\": ".toList ++ what
  | .invalidLine n key value =>
    filename ++ ascii [':'] ++ ascii (Nat.toDigits 10 n) ++ ascii ": invalid line, key=\"".toList ++ key ++
      ascii "\", value=\"".toList ++ value ++ ascii ['"']
  | .failedToOpen => ascii "failed to open \"".toList ++ filename ++ ascii ['"']

variable {σ : Type}

/-- The virtual function `property` of an object: the object afterwards, and `what()` of the exception, if there
is one. -/
abbrev Property (σ : Type) := σ → List UInt8 → List UInt8 → σ × Option (List UInt8)

/-- `property(key, value)`, in the `try` block of `read`. -/
def call (property : Property σ) (lineNumber : ℕ) (object : σ) (key value : List UInt8) : σ × Option ReadError :=
  match property object key value with
  | (object, none) => (object, none)
  | (object, some what) => (object, some (.invalid lineNumber key what))

/-- What `read` does with a line when the inner loop has been left. -/
def handle (property : Property σ) (lineNumber : ℕ) (object : σ) (line : Line) : σ × Option ReadError :=
  if line.success && line.state = .finished then
    call property lineNumber object (line.key.rdropWhile isSpace) (line.value.rdropWhile isSpace)
  else if line.key ≠ [] ∨ line.value ≠ [] then (object, some (.invalidLine lineNumber line.key line.value))
  else (object, none)

/-- The outer loop. -/
def readLoop (property : Property σ) : ℕ → ℕ → σ → InputStream → Option (σ × Option ReadError)
  | 0, _, _, _ => none
  | fuel + 1, lineNumber, object, s =>
    if s.eofbit then some (object, none)
    else
      match lineLoop (s.rest.length + 1) {} s with
      | none => none
      | some (line, s) =>
        match handle property lineNumber object line with
        | (object, some e) => some (object, some e)
        | (object, none) => readLoop property fuel (lineNumber + 1) object s

/-- `properties::read(std::istream&, const char*)`, within some turns of its loop. -/
def read (property : Property σ) (fuel : ℕ) (object : σ) (s : InputStream) : Option (σ × Option ReadError) :=
  readLoop property fuel 0 object s

/-- `properties::open`: the stream of the file, if it can be opened. -/
def openFile (property : Property σ) (fuel : ℕ) (object : σ) (file : Option InputStream) :
    Option (σ × Option ReadError) :=
  match file with
  | none => some (object, some .failedToOpen)
  | some s => read property fuel object s

/-! ### The grammar -/

/-- `#`. -/
def isComment (c : UInt8) : Bool := c = commentCharacter

/-- `=`. -/
def isWord (c : UInt8) : Bool := c = wordDelimiter

/-- The end of a line, for the machine. -/
def isLine (c : UInt8) : Bool := c = 0 || c = lineDelimiter

/-- What a line says. -/
inductive Item where
  | blank
  | pair (key value : List UInt8)
  | fault (text : List UInt8)
  deriving DecidableEq, Repr

/-- A line without its comment is blank, or a pair that is split at the first `=`, or a fault. -/
def item (line : List UInt8) : Item :=
  let text := before isComment line
  if text.all isSpace then .blank
  else if text.any isWord then .pair (trim isSpace (before isWord text)) (trim isSpace (after isWord text))
  else .fault (text.dropWhile isSpace)

/-- What is done with what a line says. -/
def perform (property : Property σ) (lineNumber : ℕ) (object : σ) : Item → σ × Option ReadError
  | .blank => (object, none)
  | .pair key value => call property lineNumber object key value
  | .fault text => (object, some (.invalidLine lineNumber text []))

/-- What is done with some lines: one after the other, until there is an error. -/
def performAll (property : Property σ) : ℕ → σ → List (List UInt8) → σ × Option ReadError
  | _, object, [] => (object, none)
  | n, object, line :: lines =>
    match perform property n object (item line) with
    | (object, some e) => (object, some e)
    | (object, none) => performAll property (n + 1) object lines

/-! ### The machine on a line -/

/-- The line after some characters that do not end it. -/
def run (line : Line) (p : List UInt8) : Line := p.foldl (fun line ch => (parse ch line).1) line

/-- The characters do not end a line. -/
def Within (p : List UInt8) : Prop := ∀ c ∈ p, isLine c = false

variable {c : UInt8} {p : List UInt8}

theorem run_cons (line : Line) (c : UInt8) (p : List UInt8) : run line (c :: p) = run (parse c line).1 p := rfl

theorem not_isLine_iff : isLine c = false ↔ ¬ (c = 0 ∨ c = lineDelimiter) := by
  simp [isLine]

theorem Within.head (h : Within (c :: p)) : ¬ (c = 0 ∨ c = lineDelimiter) :=
  not_isLine_iff.mp (h c List.mem_cons_self)

theorem Within.tail (h : Within (c :: p)) : Within p := fun d hd => h d (List.mem_cons_of_mem c hd)

theorem isComment_iff : isComment c = true ↔ c = commentCharacter := by simp [isComment]

theorem isWord_iff : isWord c = true ↔ c = wordDelimiter := by simp [isWord]

/-- What has been kept of a text grows as the text does. -/
theorem grow_dropWhile (text : List UInt8) (c : UInt8) :
    grow (text.dropWhile isSpace) c = (text ++ [c]).dropWhile isSpace := (dropWhile_concat isSpace text c).symm

theorem run_comment {line : Line} (h : line.state = .comment) (hp : Within p) : run line p = line := by
  induction p with
  | nil => rfl
  | cons c p ih =>
    have hstep : (parse c line).1 = line := by
      simp only [parse, h, if_neg hp.head]
    rw [run_cons, hstep]
    exact ih hp.tail

theorem run_value (key text : List UInt8) (hp : Within p) :
    run ⟨key, text.dropWhile isSpace, .value, true⟩ p =
      ⟨key, (text ++ before isComment p).dropWhile isSpace, if p.any isComment then .comment else .value, true⟩ := by
  induction p generalizing text with
  | nil =>
    rw [show before isComment ([] : List UInt8) = [] from rfl, List.append_nil]
    rfl
  | cons c p ih =>
    rw [run_cons, List.any_cons]
    cases hc : isComment c with
    | true =>
      have hstep : (parse c ⟨key, text.dropWhile isSpace, .value, true⟩).1 =
          ⟨key, text.dropWhile isSpace, .comment, true⟩ := by
        simp only [parse, if_neg hp.head, if_pos (isComment_iff.mp hc)]
      rw [hstep, run_comment rfl hp.tail, before_cons_of_pos hc, List.append_nil, Bool.true_or, if_pos rfl]
    | false =>
      have hstep : (parse c ⟨key, text.dropWhile isSpace, .value, true⟩).1 =
          ⟨key, (text ++ [c]).dropWhile isSpace, .value, true⟩ := by
        have hne : ¬ c = commentCharacter := fun h => Bool.false_ne_true (hc.symm.trans (isComment_iff.mpr h))
        simp only [parse, if_neg hp.head, if_neg hne, grow_dropWhile]
      rw [hstep, ih (text ++ [c]) hp.tail, before_cons_of_neg hc, Bool.false_or, List.append_assoc,
        List.singleton_append]

/-- **The machine on a line**: the key is what stands before the first `=` and the value is what stands after it,
without the comment and without the spaces that they begin with. -/
theorem run_key (text : List UInt8) (hp : Within p) :
    run ⟨text.dropWhile isSpace, [], .key, true⟩ p =
      ⟨(text ++ before isWord (before isComment p)).dropWhile isSpace,
        (after isWord (before isComment p)).dropWhile isSpace,
        if p.any isComment then .comment else if (before isComment p).any isWord then .value else .key,
        !p.any isComment || (before isComment p).any isWord⟩ := by
  induction p generalizing text with
  | nil => simp [run, before, after]
  | cons c p ih =>
    rw [run_cons, List.any_cons]
    cases hc : isComment c with
    | true =>
      have hstep : (parse c ⟨text.dropWhile isSpace, [], .key, true⟩).1 =
          ⟨text.dropWhile isSpace, [], .comment, false⟩ := by
        simp only [parse, if_neg hp.head, if_pos (isComment_iff.mp hc)]
      rw [hstep, run_comment rfl hp.tail, before_cons_of_pos hc]
      simp [before, after]
    | false =>
      have hne : ¬ c = commentCharacter := fun h => Bool.false_ne_true (hc.symm.trans (isComment_iff.mpr h))
      rw [before_cons_of_neg hc, Bool.false_or, List.any_cons]
      cases hw : isWord c with
      | true =>
        have hstep : (parse c ⟨text.dropWhile isSpace, [], .key, true⟩).1 =
            ⟨text.dropWhile isSpace, List.dropWhile isSpace [], .value, true⟩ := by
          simp only [parse, if_neg hp.head, if_neg hne, if_pos (isWord_iff.mp hw), List.dropWhile_nil]
        rw [hstep, run_value _ [] hp.tail, before_cons_of_pos hw, after_cons_of_pos hw, List.append_nil,
          List.nil_append, Bool.true_or, Bool.or_true, if_pos rfl]
      | false =>
        have hstep : (parse c ⟨text.dropWhile isSpace, [], .key, true⟩).1 =
            ⟨(text ++ [c]).dropWhile isSpace, [], .key, true⟩ := by
          have hnotWord : ¬ c = wordDelimiter := fun h => Bool.false_ne_true (hw.symm.trans (isWord_iff.mpr h))
          simp only [parse, if_neg hp.head, if_neg hne, if_neg hnotWord, grow_dropWhile]
        rw [hstep, ih (text ++ [c]) hp.tail, before_cons_of_neg hw, after_cons_of_neg hw, Bool.false_or,
          List.append_assoc, List.singleton_append]

/-- The line once the machine has read it, up to its end. -/
def lineOf (p : List UInt8) : Line := run {} p

theorem lineOf_eq (hp : Within p) :
    lineOf p = ⟨(before isWord (before isComment p)).dropWhile isSpace,
      (after isWord (before isComment p)).dropWhile isSpace,
      if p.any isComment then .comment else if (before isComment p).any isWord then .value else .key,
      !p.any isComment || (before isComment p).any isWord⟩ := by
  rw [lineOf, ← List.nil_append (before isWord (before isComment p))]
  exact run_key [] hp

theorem space_of_isWord : isWord c = true → isSpace c = false := by
  intro h
  rw [isWord_iff.mp h]
  decide

/-- A line ends at a delimiter: the machine is left, and a pair is complete. -/
theorem parse_delimiter {d : UInt8} (hd : isLine d = true) {line : Line} (hline : line.state ≠ .finished) :
    parse d line = (if line.state = .key then { line with success := false } else { line with state := .finished },
      true) := by
  have hdelimiter : d = 0 ∨ d = lineDelimiter := by simpa [isLine] using hd
  cases hstate : line.state with
  | key => simp only [parse, hstate, if_pos hdelimiter, if_true]
  | value => simp [parse, hstate, hdelimiter]
  | comment => simp [parse, hstate, hdelimiter]
  | finished => exact absurd hstate hline

theorem lineOf_state_ne (hp : Within p) : (lineOf p).state ≠ .finished := by
  rw [lineOf_eq hp]
  simp only
  split
  · exact nofun
  · split
    · exact nofun
    · exact nofun

/-- **The end of a line**: what is done with what the machine has put together is what the grammar says. -/
theorem handle_parse {d : UInt8} (hd : isLine d = true) (hp : Within p) (property : Property σ) (n : ℕ) (object : σ) :
    handle property n object (parse d (lineOf p)).1 = perform property n object (item p) := by
  rw [parse_delimiter hd (lineOf_state_ne hp), lineOf_eq hp]
  cases hw : (before isComment p).any isWord with
  | true =>
    -- there is a pair, since `=` is not a space
    have hnotBlank : (before isComment p).all isSpace = false := by
      obtain ⟨c, hc, hword⟩ := List.any_eq_true.mp hw
      exact List.all_eq_false.mpr ⟨c, hc, by simp [space_of_isWord hword]⟩
    cases hcomment : p.any isComment with
    | true => simp [handle, item, hw, hnotBlank, perform, trim]
    | false => simp [handle, item, hw, hnotBlank, perform, trim]
  | false =>
    -- the machine has not been successful, whether it has seen a comment or not
    rw [before_eq_self hw, after_eq_nil hw]
    have hblank := dropWhile_isEmpty isSpace (before isComment p)
    cases hall : (before isComment p).all isSpace with
    | true =>
      rw [hall, List.isEmpty_iff] at hblank
      cases hcomment : p.any isComment with
      | true => simp [handle, item, hall, perform, hblank]
      | false => simp [handle, item, hall, perform, hblank]
    | false =>
      rw [hall, List.isEmpty_eq_false_iff] at hblank
      cases hcomment : p.any isComment with
      | true => simp [handle, item, hall, hw, perform, hblank]
      | false => simp [handle, item, hall, hw, perform, hblank]

/-! ### The loops -/

variable {rest : List UInt8} {ending : Ending} {fuel : ℕ} {line : Line}

/-- A stream of which nothing has been read. -/
def InputStream.ofFile (content : List UInt8) (ending : Ending) : InputStream := { rest := content, ending }

/-- A stream after its end: the characters are gone and a bit is set. -/
def InputStream.after (ending : Ending) : InputStream :=
  { rest := [], ending, eofbit := ending = .endOfFile, failbit := true, badbit := ending = .readError }

theorem parse_within (hc : ¬ (c = 0 ∨ c = lineDelimiter)) (line : Line) : (parse c line).2 = false := by
  unfold parse
  split
  · rw [if_neg hc]
    split
    · rfl
    · split <;> rfl
  · rw [if_neg hc]
    split <;> rfl
  · rw [if_neg hc]
  · rfl

/-- The inner loop goes on over the characters that do not end a line. -/
theorem lineLoop_append (hp : Within p) :
    lineLoop (p.length + fuel) line (.ofFile (p ++ rest) ending) =
      lineLoop fuel (run line p) (.ofFile rest ending) := by
  induction p generalizing line with
  | nil => rw [List.length_nil, Nat.zero_add, List.nil_append, run, List.foldl_nil]
  | cons c p ih =>
    have hget : (InputStream.ofFile (c :: p ++ rest) ending).get = (some c, .ofFile (p ++ rest) ending) := rfl
    rw [List.length_cons, Nat.add_right_comm, run_cons, ← ih hp.tail, lineLoop, hget]
    simp only [InputStream.ofFile, Bool.or_self, Bool.and_false, Bool.false_eq_true, if_false, Option.getD_some,
      parse_within hp.head]

theorem lineLoop_delimiter {d : UInt8} (hd : isLine d = true) (hline : line.state ≠ .finished) :
    lineLoop (fuel + 1) line (.ofFile (d :: rest) ending) = some ((parse d line).1, .ofFile rest ending) := by
  have hget : (InputStream.ofFile (d :: rest) ending).get = (some d, .ofFile rest ending) := rfl
  rw [lineLoop, hget, parse_delimiter hd hline]
  simp [InputStream.ofFile, parse_delimiter hd hline]

/-- The end of the file is read as the character zero. -/
theorem lineLoop_endOfFile (hline : line.state ≠ .finished) :
    lineLoop (fuel + 1) line (.ofFile [] .endOfFile) = some ((parse 0 line).1, .after .endOfFile) := by
  have hget : (InputStream.ofFile [] .endOfFile).get = (none, .after .endOfFile) := rfl
  rw [lineLoop, hget, parse_delimiter rfl hline]
  simp [InputStream.after, parse_delimiter (d := 0) rfl hline]

/-- The loop is left at a read error, and again each time that it is entered afterwards. -/
theorem lineLoop_readError {s : InputStream} (hs : s = .ofFile [] .readError ∨ s = .after .readError) :
    lineLoop (fuel + 1) line s = some ({ line with success := false }, .after .readError) := by
  have hget : s.get = (none, .after .readError) := by
    rcases hs with rfl | rfl
    · rfl
    · rfl
  rw [lineLoop, hget]
  simp [InputStream.after]

/-- The fuel of the inner loop lets it come to the end of the line. -/
theorem lineLoop_line {d : UInt8} (hd : isLine d = true) (hp : Within p) :
    lineLoop ((p ++ d :: rest).length + 1) {} (.ofFile (p ++ d :: rest) ending) =
      some ((parse d (lineOf p)).1, .ofFile rest ending) := by
  rw [List.length_append, List.length_cons, Nat.add_assoc, lineLoop_append hp]
  exact lineLoop_delimiter hd (lineOf_state_ne hp)

theorem lineLoop_lastLine (hp : Within p) :
    lineLoop (p.length + 1) {} (.ofFile p .endOfFile) = some ((parse 0 (lineOf p)).1, .after .endOfFile) := by
  have happend : lineLoop (p.length + 1) {} (.ofFile (p ++ []) .endOfFile) =
      lineLoop 1 (run {} p) (.ofFile [] .endOfFile) := lineLoop_append hp
  rw [List.append_nil] at happend
  rw [happend]
  exact lineLoop_endOfFile (lineOf_state_ne hp)

theorem lineLoop_brokenLine (hp : Within p) :
    lineLoop (p.length + 1) {} (.ofFile p .readError) =
      some ({ lineOf p with success := false }, .after .readError) := by
  have happend : lineLoop (p.length + 1) {} (.ofFile (p ++ []) .readError) =
      lineLoop 1 (run {} p) (.ofFile [] .readError) := lineLoop_append hp
  rw [List.append_nil] at happend
  rw [happend]
  exact lineLoop_readError (Or.inl rfl)

variable {property : Property σ} {n : ℕ} {object object' : σ} {e : ReadError}

/-- A turn of the outer loop that goes on. -/
theorem readLoop_of_handle {s s' : InputStream} (hs : s.eofbit = false)
    (hline : lineLoop (s.rest.length + 1) {} s = some (line, s'))
    (h : handle property n object line = (object', none)) :
    readLoop property (fuel + 1) n object s = readLoop property fuel (n + 1) object' s' := by
  rw [readLoop, hs, hline]
  simp only [Bool.false_eq_true, if_false, h]

/-- A turn of the outer loop that ends in an error. -/
theorem readLoop_of_error {s s' : InputStream} (hs : s.eofbit = false)
    (hline : lineLoop (s.rest.length + 1) {} s = some (line, s'))
    (h : handle property n object line = (object', some e)) :
    readLoop property (fuel + 1) n object s = some (object', some e) := by
  rw [readLoop, hs, hline]
  simp only [Bool.false_eq_true, if_false, h]

/-- **To the end of a file** the loop does what the grammar says, line by line. -/
theorem readLoop_endOfFile (property : Property σ) (content : List UInt8) (n : ℕ) (object : σ) :
    ∃ fuel, readLoop property fuel n object (.ofFile content .endOfFile) =
      some (performAll property n object (content.splitOnP isLine)) := by
  induction content using parts_induction (p := isLine) generalizing n object with
  | last p hp =>
    rw [List.splitOnP_eq_singleton hp, performAll]
    have hline := lineLoop_lastLine hp
    have hhandle := handle_parse (d := 0) rfl hp property n object
    rcases hperform : perform property n object (item p) with ⟨object', _ | e⟩
    · refine ⟨2, (readLoop_of_handle rfl hline (hhandle.trans hperform)).trans ?_⟩
      rfl
    · exact ⟨1, readLoop_of_error rfl hline (hhandle.trans hperform)⟩
  | part p d rest hp hd ih =>
    rw [List.splitOnP_append_cons_of_forall_mem hp d hd, performAll]
    have hline : lineLoop ((p ++ d :: rest).length + 1) {} (.ofFile (p ++ d :: rest) .endOfFile) =
        some ((parse d (lineOf p)).1, .ofFile rest .endOfFile) := lineLoop_line hd hp
    have hhandle := handle_parse hd hp property n object
    rcases hperform : perform property n object (item p) with ⟨object', _ | e⟩
    · obtain ⟨fuel, hfuel⟩ := ih (n + 1) object'
      exact ⟨fuel + 1, (readLoop_of_handle rfl hline (hhandle.trans hperform)).trans hfuel⟩
    · exact ⟨1, readLoop_of_error rfl hline (hhandle.trans hperform)⟩

/-! ### Files without NUL characters -/

theorem splitOnP_isLine {content : List UInt8} (h : 0 ∉ content) :
    content.splitOnP isLine = content.splitOn lineDelimiter := by
  rw [List.splitOn_eq_splitOnP]
  induction content with
  | nil => rfl
  | cons c content ih =>
    obtain ⟨hc, hcontent⟩ := List.ne_and_not_mem_of_not_mem_cons h
    have hsame : isLine c = (c == lineDelimiter) := by
      rw [isLine, decide_eq_false (Ne.symm hc), Bool.false_or]
      rfl
    rw [List.splitOnP_cons_eq_if_modifyHead, List.splitOnP_cons_eq_if_modifyHead, hsame, ih hcontent]

/-- The line has no `=`, although it is not blank. -/
def Item.isFault : Item → Bool
  | .fault _ => true
  | _ => false

/-- The pair of a line. -/
def Item.pair? : Item → Option (List UInt8 × List UInt8)
  | .pair key value => some (key, value)
  | _ => none

/-- The pairs of some lines, up to the first fault. -/
def pairs (lines : List (List UInt8)) : List (List UInt8 × List UInt8) :=
  ((lines.map item).takeWhile (!·.isFault)).filterMap Item.pair?

/-- A `property` that keeps the calls, and never throws. -/
def record : Property (List (List UInt8 × List UInt8)) := fun calls key value => (calls ++ [(key, value)], none)

/-- The calls are those for the pairs, and there is an error if there is a fault. -/
theorem performAll_record (lines : List (List UInt8)) (n : ℕ) (calls : List (List UInt8 × List UInt8)) :
    (performAll record n calls lines).1 = calls ++ pairs lines ∧
      ((performAll record n calls lines).2 = none ↔ ∀ line ∈ lines, (item line).isFault = false) := by
  induction lines generalizing n calls with
  | nil => simp [performAll, pairs]
  | cons line lines ih =>
    rw [performAll, pairs, List.map_cons]
    cases hitem : item line with
    | blank =>
      obtain ⟨hcalls, hnone⟩ := ih (n + 1) calls
      simp only [perform]
      refine ⟨hcalls.trans ?_, hnone.trans ?_⟩
      · rw [pairs, List.takeWhile_cons_of_pos rfl, List.filterMap_cons_none rfl]
      · simp [hitem, Item.isFault]
    | pair key value =>
      obtain ⟨hcalls, hnone⟩ := ih (n + 1) (calls ++ [(key, value)])
      simp only [perform, call, record]
      refine ⟨hcalls.trans ?_, hnone.trans ?_⟩
      · have hpair : Item.pair? (.pair key value) = some (key, value) := rfl
        rw [pairs, List.takeWhile_cons_of_pos rfl, List.filterMap_cons_some hpair, List.append_assoc,
          List.singleton_append]
      · simp [hitem, Item.isFault]
    | fault text => simp [perform, hitem, Item.isFault]

/-- **Files are read by the grammar**: the machine does with a file what the grammar says about its lines, and so
`property` is called for the pairs before the first fault. -/
theorem read_follows_grammar (content : List UInt8) (h : 0 ∉ content) :
    (∀ (σ : Type) (property : Property σ) (object : σ), ∃ fuel,
      read property fuel object (.ofFile content .endOfFile) =
        some (performAll property 0 object (content.splitOn lineDelimiter))) ∧
      ∃ fuel e, read record fuel [] (.ofFile content .endOfFile) =
          some (pairs (content.splitOn lineDelimiter), e) ∧
        (e = none ↔ ∀ line ∈ content.splitOn lineDelimiter, (item line).isFault = false) := by
  rw [← splitOnP_isLine h]
  refine ⟨fun σ property object => readLoop_endOfFile property content 0 object, ?_⟩
  obtain ⟨fuel, hfuel⟩ := readLoop_endOfFile record content 0 []
  obtain ⟨hcalls, hnone⟩ := performAll_record (content.splitOnP isLine) 0 []
  refine ⟨fuel, (performAll record 0 [] (content.splitOnP isLine)).2, hfuel.trans ?_, hnone⟩
  rw [← List.nil_append (pairs _), ← hcalls]

/-- A file of two lines, with a comment and no end of the last line. -/
theorem read_follows_grammar_twoLines : ∃ fuel e,
    read record fuel [] (.ofFile (ascii "a = 1\nc=3 # b".toList) .endOfFile) =
      some ([(ascii ['a'], ascii ['1']), (ascii ['c'], ascii ['3'])], e) ∧ e = none := by
  obtain ⟨fuel, e, hread, he⟩ := (read_follows_grammar (ascii "a = 1\nc=3 # b".toList) (by decide)).2
  have hpairs : pairs ((ascii "a = 1\nc=3 # b".toList).splitOn lineDelimiter) =
      [(ascii ['a'], ascii ['1']), (ascii ['c'], ascii ['3'])] := by decide
  rw [hpairs] at hread
  exact ⟨fuel, e, hread, he.mpr (by decide)⟩

/-- A file with an empty key, a comment in place of a value, and a carriage return. -/
example : pairs ((ascii "=1\na = #2\r\n #\n".toList).splitOn lineDelimiter) =
    [([], ascii ['1']), (ascii ['a'], [])] := by decide

/-! ### Read errors -/

/-- There is neither a key nor a value in what has been read of a line. -/
def Empty (p : List UInt8) : Prop :=
  (before isWord (before isComment p)).all isSpace = true ∧ (after isWord (before isComment p)).all isSpace = true

instance (p : List UInt8) : Decidable (Empty p) := inferInstanceAs (Decidable (_ ∧ _))

theorem empty_iff (hp : Within p) : Empty p ↔ (lineOf p).key = [] ∧ (lineOf p).value = [] := by
  rw [lineOf_eq hp, Empty, ← dropWhile_isEmpty, ← dropWhile_isEmpty, List.isEmpty_iff, List.isEmpty_iff]

/-- What is done with a line that a read error has cut off. -/
theorem handle_broken (hp : Within p) :
    handle property n object { lineOf p with success := false } =
      (object, if Empty p then none else some (.invalidLine n (lineOf p).key (lineOf p).value)) := by
  by_cases hempty : Empty p
  · obtain ⟨hkey, hvalue⟩ := (empty_iff hp).mp hempty
    simp [handle, hkey, hvalue, hempty]
  · have hne : (lineOf p).key ≠ [] ∨ (lineOf p).value ≠ [] := by
      rw [empty_iff hp, not_and_or] at hempty
      exact hempty
    simp only [handle, Bool.false_and, Bool.false_eq_true, if_false, if_pos hne, if_neg hempty]

/-- **After a read error** the loop goes on for ever: the end of the file never comes. -/
theorem readLoop_after_readError (fuel n : ℕ) (object : σ) :
    readLoop property fuel n object (.after .readError) = none := by
  induction fuel generalizing n object with
  | zero => rfl
  | succ fuel ih =>
    have hline : lineLoop ((InputStream.after .readError).rest.length + 1) {} (.after .readError) =
        some ({ success := false }, .after .readError) := lineLoop_readError (Or.inr rfl)
    have hhandle : handle property n object { success := false } = (object, none) := by simp [handle]
    rw [readLoop_of_handle rfl hline hhandle]
    exact ih (n + 1) object

/-- The last line of a text. -/
def lastLine (content : List UInt8) : List UInt8 := (content.splitOnP isLine).getLastD []

/-- The outer loop is left. -/
def Ends (property : Property σ) (n : ℕ) (object : σ) (s : InputStream) : Prop :=
  ∃ fuel r, readLoop property fuel n object s = some r

theorem ends_iff_of_handle {s s' : InputStream} (hs : s.eofbit = false)
    (hline : lineLoop (s.rest.length + 1) {} s = some (line, s'))
    (h : handle property n object line = (object', none)) :
    Ends property n object s ↔ Ends property (n + 1) object' s' := by
  constructor
  · rintro ⟨fuel, r, hfuel⟩
    cases fuel with
    | zero => cases hfuel
    | succ fuel => exact ⟨fuel, r, (readLoop_of_handle hs hline h).symm.trans hfuel⟩
  · rintro ⟨fuel, r, hfuel⟩
    exact ⟨fuel + 1, r, (readLoop_of_handle hs hline h).trans hfuel⟩

/-- The loop ends at a read error if there has been an error in a line before, or there is one in the line that the
read error cuts off. -/
theorem ends_readError_iff (property : Property σ) (content : List UInt8) (n : ℕ) (object : σ) :
    Ends property n object (.ofFile content .readError) ↔
      (performAll property n object (content.splitOnP isLine).dropLast).2 ≠ none ∨ ¬ Empty (lastLine content) := by
  induction content using parts_induction (p := isLine) generalizing n object with
  | last p hp =>
    have hline := lineLoop_brokenLine hp
    have hhandle : handle property n object { lineOf p with success := false } =
        (object, if Empty p then none else some (.invalidLine n (lineOf p).key (lineOf p).value)) := handle_broken hp
    rw [lastLine, List.splitOnP_eq_singleton hp, List.dropLast_singleton, List.getLastD_cons, List.getLastD_nil,
      performAll]
    by_cases hempty : Empty p
    · rw [if_pos hempty] at hhandle
      rw [ends_iff_of_handle rfl hline hhandle]
      refine iff_of_false ?_ ?_
      · rintro ⟨fuel, r, hfuel⟩
        rw [readLoop_after_readError] at hfuel
        cases hfuel
      · rintro (hne | hne)
        · exact hne rfl
        · exact hne hempty
    · rw [if_neg hempty] at hhandle
      exact iff_of_true ⟨1, _, readLoop_of_error rfl hline hhandle⟩ (Or.inr hempty)
  | part p d rest hp hd ih =>
    have hline : lineLoop ((p ++ d :: rest).length + 1) {} (.ofFile (p ++ d :: rest) .readError) =
        some ((parse d (lineOf p)).1, .ofFile rest .readError) := lineLoop_line hd hp
    have hhandle := handle_parse hd hp property n object
    have hlast : lastLine (p ++ d :: rest) = lastLine rest := by
      rw [lastLine, List.splitOnP_append_cons_of_forall_mem hp d hd, List.getLastD_cons, lastLine,
        List.getLastD_eq_getLast?, List.getLastD_eq_getLast?,
        List.getLast?_eq_getLast_of_ne_nil (List.splitOnP_ne_nil isLine rest), Option.getD_some, Option.getD_some]
    rw [hlast, List.splitOnP_append_cons_of_forall_mem hp d hd, List.dropLast_cons_of_ne_nil
      (List.splitOnP_ne_nil isLine rest), performAll]
    rcases hperform : perform property n object (item p) with ⟨object', _ | e⟩
    · rw [ends_iff_of_handle rfl hline (hhandle.trans hperform)]
      exact ih (n + 1) object'
    · exact iff_of_true ⟨1, _, readLoop_of_error rfl hline (hhandle.trans hperform)⟩ (Or.inl nofun)

/-- **When `read` ends**: at the end of a file, and at a read error if there has been an error in a line before or
there is a key or a value when it comes. -/
theorem read_terminates_iff (property : Property σ) (object : σ) (content : List UInt8) (ending : Ending) :
    (∃ fuel r, read property fuel object (.ofFile content ending) = some r) ↔
      (ending = .readError →
        (performAll property 0 object (content.splitOnP isLine).dropLast).2 ≠ none ∨ ¬ Empty (lastLine content)) := by
  cases ending with
  | endOfFile =>
    obtain ⟨fuel, hfuel⟩ := readLoop_endOfFile property content 0 object
    exact iff_of_true ⟨fuel, _, hfuel⟩ nofun
  | readError => exact (ends_readError_iff property content 0 object).trans ⟨fun h _ => h, fun h => h rfl⟩

/-- A directory is opened as a file is, and cannot be read. -/
theorem read_goes_on_for_ever : ¬ ∀ (σ : Type) (property : Property σ) (object : σ) (file : Option InputStream),
    ∃ fuel r, openFile property fuel object file = some r := by
  intro h
  have hends : Ends record 0 [] (.ofFile [] .readError) := h _ record [] (some (.ofFile [] .readError))
  rcases (ends_readError_iff record [] 0 []).mp hends with hne | hne
  · exact hne rfl
  · exact hne (by decide)

end Properties

end Subordination.Core
