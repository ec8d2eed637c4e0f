import Subordination.Core.PropertyFiles

/-!
# Properties on a command line

The properties may be given as arguments of the program (`properties::read(int, const char**)`,
`core/properties.cc`). The machine is that of files, with the space in place of the end of a line and without a
comment character: the NUL that is given for it ends the line before it can begin a comment.

## The model

An argument is the list of its characters, which are not NUL, and the NUL after them. The loops have fuel where they
go on until a NUL has been read.

## What is proved

* `arguments_follow_grammar` — reading arguments ends, and it does what the grammar says about their words.
* `arguments_agree_with_file` — the arguments are read as the file is that has a word on each line, if there is no
  `#` and no end of a line in them.
-/

namespace Subordination.Core.Properties

open Library Resources

/-! ### The machine -/

/-- `parse`, with its delimiters as arguments. -/
def parseWith (lineDelimiter commentCharacter ch : UInt8) (line : Line) : Line × Bool :=
  match line.state with
  | .key =>
    if ch = 0 ∨ ch = lineDelimiter then ({ line with success := false }, true)
    else if ch = commentCharacter then ({ line with state := .comment, success := false }, false)
    else if ch = wordDelimiter then ({ line with state := .value }, false)
    else ({ line with key := grow line.key ch }, false)
  | .value =>
    if ch = 0 ∨ ch = lineDelimiter then ({ line with state := .finished }, true)
    else if ch = commentCharacter then ({ line with state := .comment }, false)
    else ({ line with value := grow line.value ch }, false)
  | .comment =>
    if ch = 0 ∨ ch = lineDelimiter then ({ line with state := .finished }, true) else (line, false)
  | .finished => (line, false)

/-- The machine of files. -/
theorem parse_eq (ch : UInt8) (line : Line) : parse ch line = parseWith lineDelimiter commentCharacter ch line := rfl

/-- `' '`. -/
def blank : UInt8 := 32

/-- The machine of arguments. -/
def parseArgument (ch : UInt8) (line : Line) : Line × Bool := parseWith blank 0 ch line

/-- The inner loop, on what is left of an argument: the line, the character that was read last, and what is left then.
There is nothing to read after the NUL. -/
def argumentLine (line : Line) : List UInt8 → Option (Line × UInt8 × List UInt8)
  | [] =>
    let (line, stop) := parseArgument 0 line
    if stop then some (line, 0, []) else none
  | ch :: s =>
    let (line, stop) := parseArgument ch line
    if stop then some (line, ch, s) else argumentLine line s

/-- The `std::runtime_error` that reading arguments throws. -/
inductive ArgumentError where
  /-- `property` has thrown. -/
  | invalid (key value what : List UInt8)
  /-- A word that is no pair. -/
  | invalidProperty (key value : List UInt8)
  deriving DecidableEq, Repr

/-- `what()`. -/
def ArgumentError.text : ArgumentError → List UInt8
  | .invalid key value what =>
    ascii "invalid property: key=\"".toList ++ key ++ ascii "\", value=\"".toList ++ value ++ ascii "\": ".toList ++
      what
  | .invalidProperty key value =>
    ascii "invalid property: key=\"".toList ++ key ++ ascii "\", value=\"".toList ++ value ++ ascii ['"']

variable {σ : Type}

/-- `property(key, value)`, in the `try` block. -/
def callArgument (property : Property σ) (object : σ) (key value : List UInt8) : σ × Option ArgumentError :=
  match property object key value with
  | (object, none) => (object, none)
  | (object, some what) => (object, some (.invalid key value what))

/-- What is done with a line when the inner loop has been left. -/
def handleArgument (property : Property σ) (object : σ) (line : Line) : σ × Option ArgumentError :=
  if line.success && line.state = .finished then
    callArgument property object (line.key.rdropWhile isSpace) (line.value.rdropWhile isSpace)
  else if line.key ≠ [] ∨ line.value ≠ [] then (object, some (.invalidProperty line.key line.value))
  else (object, none)

/-- The `do` loop, on what is left of an argument. -/
def argumentLoop (property : Property σ) : ℕ → σ → List UInt8 → Option (σ × Option ArgumentError)
  | 0, _, _ => none
  | fuel + 1, object, s =>
    match argumentLine {} s with
    | none => none
    | some (line, ch, s) =>
      match handleArgument property object line with
      | (object, some e) => some (object, some e)
      | (object, none) => if ch = 0 then some (object, none) else argumentLoop property fuel object s

/-- The `for` loop. -/
def argumentsLoop (property : Property σ) (object : σ) : List (List UInt8) → Option (σ × Option ArgumentError)
  | [] => some (object, none)
  | s :: argv =>
    match argumentLoop property (s.length + 1) object s with
    | none => none
    | some (object, some e) => some (object, some e)
    | some (object, none) => argumentsLoop property object argv

/-- `properties::read(int, const char**)`: the first argument is the name of the program. -/
def readArguments (property : Property σ) (object : σ) (argv : List (List UInt8)) :
    Option (σ × Option ArgumentError) :=
  argumentsLoop property object argv.tail

/-! ### The grammar -/

/-- A word is blank, or a pair that is split at the first `=`, or a fault. -/
def wordItem (word : List UInt8) : Item :=
  if word.all isSpace then .blank
  else if word.any isWord then .pair (trim isSpace (before isWord word)) (trim isSpace (after isWord word))
  else .fault (word.dropWhile isSpace)

/-- What is done with what a word says. -/
def performWord (property : Property σ) (object : σ) : Item → σ × Option ArgumentError
  | .blank => (object, none)
  | .pair key value => callArgument property object key value
  | .fault text => (object, some (.invalidProperty text []))

/-- What is done with some words: one after the other, until there is an error. -/
def performWords (property : Property σ) (object : σ) : List (List UInt8) → σ × Option ArgumentError
  | [] => (object, none)
  | word :: words =>
    match performWord property object (wordItem word) with
    | (object, some e) => (object, some e)
    | (object, none) => performWords property object words

/-- The words of some arguments. -/
def wordsOf (arguments : List (List UInt8)) : List (List UInt8) := arguments.flatMap fun s => s.splitOn blank

/-! ### The machine on a word -/

/-- The end of a word. -/
def isBlank (c : UInt8) : Bool := c == blank

variable {c : UInt8} {word rest : List UInt8}

/-- The line after some characters of a word. -/
def runWord (line : Line) (word : List UInt8) : Line := word.foldl (fun line ch => (parseArgument ch line).1) line

theorem runWord_cons (line : Line) (c : UInt8) (word : List UInt8) :
    runWord line (c :: word) = runWord (parseArgument c line).1 word := rfl

/-- Characters of a word: neither spaces nor NUL. -/
def InWord (word : List UInt8) : Prop := ∀ c ∈ word, c ≠ 0 ∧ c ≠ blank

theorem InWord.head (h : InWord (c :: word)) : ¬ (c = 0 ∨ c = blank) :=
  not_or.mpr (h c List.mem_cons_self)

theorem InWord.tail (h : InWord (c :: word)) : InWord word := fun d hd => h d (List.mem_cons_of_mem c hd)

theorem runWord_value (key text : List UInt8) (hword : InWord word) :
    runWord ⟨key, text.dropWhile isSpace, .value, true⟩ word =
      ⟨key, (text ++ word).dropWhile isSpace, .value, true⟩ := by
  induction word generalizing text with
  | nil =>
    rw [List.append_nil]
    rfl
  | cons c word ih =>
    have hstep : (parseArgument c ⟨key, text.dropWhile isSpace, .value, true⟩).1 =
        ⟨key, (text ++ [c]).dropWhile isSpace, .value, true⟩ := by
      simp only [parseArgument, parseWith, if_neg hword.head, if_neg (hword c List.mem_cons_self).1, grow_dropWhile]
    rw [runWord_cons, hstep, ih (text ++ [c]) hword.tail, List.append_assoc, List.singleton_append]

/-- **The machine on a word**: the key is what stands before the first `=`, and the value is what stands after it. -/
theorem runWord_key (text : List UInt8) (hword : InWord word) :
    runWord ⟨text.dropWhile isSpace, [], .key, true⟩ word =
      ⟨(text ++ before isWord word).dropWhile isSpace, (after isWord word).dropWhile isSpace,
        if word.any isWord then .value else .key, true⟩ := by
  induction word generalizing text with
  | nil => simp [runWord, before, after]
  | cons c word ih =>
    have hnotComment := (hword c List.mem_cons_self).1
    rw [runWord_cons, List.any_cons]
    cases hw : isWord c with
    | true =>
      have hstep : (parseArgument c ⟨text.dropWhile isSpace, [], .key, true⟩).1 =
          ⟨text.dropWhile isSpace, List.dropWhile isSpace [], .value, true⟩ := by
        simp only [parseArgument, parseWith, if_neg hword.head, if_neg hnotComment, if_pos (isWord_iff.mp hw),
          List.dropWhile_nil]
      rw [hstep, runWord_value _ [] hword.tail, before_cons_of_pos hw, after_cons_of_pos hw, List.append_nil,
        List.nil_append, Bool.true_or, if_pos rfl]
    | false =>
      have hstep : (parseArgument c ⟨text.dropWhile isSpace, [], .key, true⟩).1 =
          ⟨(text ++ [c]).dropWhile isSpace, [], .key, true⟩ := by
        have hnotWord : ¬ c = wordDelimiter := fun h => Bool.false_ne_true (hw.symm.trans (isWord_iff.mpr h))
        simp only [parseArgument, parseWith, if_neg hword.head, if_neg hnotComment, if_neg hnotWord, grow_dropWhile]
      rw [hstep, ih (text ++ [c]) hword.tail, before_cons_of_neg hw, after_cons_of_neg hw, Bool.false_or,
        List.append_assoc, List.singleton_append]

/-- The line once the machine has read a word, up to its end. -/
def lineOfWord (word : List UInt8) : Line := runWord {} word

theorem lineOfWord_eq (hword : InWord word) :
    lineOfWord word = ⟨(before isWord word).dropWhile isSpace, (after isWord word).dropWhile isSpace,
      if word.any isWord then .value else .key, true⟩ := by
  rw [lineOfWord, ← List.nil_append (before isWord word)]
  exact runWord_key [] hword

/-- A word ends at a space, and at the end of its argument. -/
theorem parseArgument_end {d : UInt8} (hd : d = 0 ∨ d = blank) (hword : InWord word) :
    parseArgument d (lineOfWord word) =
      (if word.any isWord then { lineOfWord word with state := .finished } else
        { lineOfWord word with success := false }, true) := by
  rw [lineOfWord_eq hword]
  cases hw : word.any isWord with
  | true => simp [parseArgument, parseWith, hd]
  | false => simp [parseArgument, parseWith, hd]

/-- **The end of a word**: what is done with what the machine has put together is what the grammar says. -/
theorem handleArgument_end {d : UInt8} (hd : d = 0 ∨ d = blank) (hword : InWord word) (property : Property σ)
    (object : σ) :
    handleArgument property object (parseArgument d (lineOfWord word)).1 =
      performWord property object (wordItem word) := by
  rw [parseArgument_end hd hword, lineOfWord_eq hword]
  cases hw : word.any isWord with
  | true =>
    have hnotBlank : word.all isSpace = false := by
      obtain ⟨c, hc, hword⟩ := List.any_eq_true.mp hw
      exact List.all_eq_false.mpr ⟨c, hc, by simp [space_of_isWord hword]⟩
    simp [handleArgument, wordItem, hw, hnotBlank, performWord, trim]
  | false =>
    rw [before_eq_self hw, after_eq_nil hw]
    have hblank := dropWhile_isEmpty isSpace word
    cases hall : word.all isSpace with
    | true =>
      rw [hall, List.isEmpty_iff] at hblank
      simp [handleArgument, wordItem, hall, performWord, hblank]
    | false =>
      rw [hall, List.isEmpty_eq_false_iff] at hblank
      simp [handleArgument, wordItem, hall, hw, performWord, hblank]

/-! ### The loops -/

/-- The inner loop goes on over the characters of a word. -/
theorem argumentLine_append (hword : InWord word) (line : Line) (rest : List UInt8) :
    argumentLine line (word ++ rest) = argumentLine (runWord line word) rest := by
  induction word generalizing line with
  | nil => rfl
  | cons c word ih =>
    have hgo : (parseArgument c line).2 = false := by
      rw [parseArgument, parseWith]
      have hhead := hword.head
      cases line.state with
      | key => simp only [if_neg hhead, if_neg (hword c List.mem_cons_self).1]; split <;> rfl
      | value => simp only [if_neg hhead, if_neg (hword c List.mem_cons_self).1]
      | comment => simp only [if_neg hhead]
      | finished => rfl
    rw [List.cons_append, argumentLine, runWord_cons, ← ih hword.tail]
    simp only [hgo, Bool.false_eq_true, if_false]

theorem argumentLine_word (hword : InWord word) (hc : c = blank) :
    argumentLine {} (word ++ c :: rest) = some ((parseArgument c (lineOfWord word)).1, c, rest) := by
  rw [argumentLine_append hword, ← lineOfWord, argumentLine, parseArgument_end (Or.inr hc) hword]
  simp

theorem argumentLine_lastWord (hword : InWord word) :
    argumentLine {} word = some ((parseArgument 0 (lineOfWord word)).1, 0, []) := by
  have happend := argumentLine_append hword {} []
  rw [List.append_nil] at happend
  rw [happend, ← lineOfWord, argumentLine, parseArgument_end (Or.inl rfl) hword]
  simp

/-- The words of two texts. -/
theorem performWords_append (property : Property σ) (object : σ) (words words' : List (List UInt8)) :
    performWords property object (words ++ words') =
      match performWords property object words with
      | (object, some e) => (object, some e)
      | (object, none) => performWords property object words' := by
  induction words generalizing object with
  | nil => rfl
  | cons word words ih =>
    rw [List.cons_append, performWords, performWords]
    rcases performWord property object (wordItem word) with ⟨object', _ | e⟩
    · exact ih object'
    · rfl

theorem inWord_of_isBlank (hnul : 0 ∉ word) (hword : ∀ c ∈ word, isBlank c = false) : InWord word := by
  intro c hc
  exact ⟨fun h => hnul (h ▸ hc), fun h => by simpa [isBlank, h] using hword c hc⟩

/-- **An argument is read word by word**, and the fuel is enough. -/
theorem argumentLoop_eq (property : Property σ) {s : List UInt8} {fuel : ℕ} (hfuel : s.length < fuel) (object : σ)
    (hnul : 0 ∉ s) : argumentLoop property fuel object s = some (performWords property object (s.splitOn blank)) := by
  have hsplit : s.splitOn blank = s.splitOnP isBlank := List.splitOn_eq_splitOnP
  rw [hsplit]
  clear hsplit
  induction s using parts_induction (p := isBlank) generalizing fuel object with
  | last word hword =>
    obtain ⟨fuel, rfl⟩ := Nat.exists_eq_add_one_of_ne_zero (Nat.ne_zero_of_lt hfuel)
    have hword' := inWord_of_isBlank hnul hword
    rw [List.splitOnP_eq_singleton (p := isBlank) hword, argumentLoop, argumentLine_lastWord hword', performWords]
    simp only [handleArgument_end (Or.inl rfl) hword']
    rcases performWord property object (wordItem word) with ⟨object', _ | e⟩
    · rfl
    · rfl
  | part word c rest hword hc ih =>
    obtain ⟨fuel, rfl⟩ := Nat.exists_eq_add_one_of_ne_zero (Nat.ne_zero_of_lt hfuel)
    have hblank : c = blank := by simpa [isBlank] using hc
    have hword' := inWord_of_isBlank (fun hmem => hnul (List.mem_append_left _ hmem)) hword
    have hrest : 0 ∉ rest := fun hmem => hnul (List.mem_append_right _ (List.mem_cons_of_mem c hmem))
    have hlength : rest.length < fuel := by
      rw [List.length_append, List.length_cons] at hfuel
      omega
    rw [List.splitOnP_append_cons_of_forall_mem (p := isBlank) hword c hc, argumentLoop,
      argumentLine_word hword' hblank, performWords]
    simp only [handleArgument_end (Or.inr hblank) hword']
    rcases performWord property object (wordItem word) with ⟨object', _ | e⟩
    · have hne : c ≠ 0 := hblank ▸ by decide
      simp only [if_neg hne]
      exact ih hlength object' hrest
    · rfl

/-- The loop over the arguments does with their words what the grammar says. -/
theorem readArguments_eq (property : Property σ) (object : σ) {argv : List (List UInt8)}
    (h : ∀ s ∈ argv.tail, 0 ∉ s) :
    readArguments property object argv = some (performWords property object (wordsOf argv.tail)) := by
  rw [readArguments]
  generalize argv.tail = arguments at h
  induction arguments generalizing object with
  | nil => rfl
  | cons s arguments ih =>
    rw [argumentsLoop, argumentLoop_eq property (Nat.lt_succ_self _) object (h s List.mem_cons_self), wordsOf,
      List.flatMap_cons, performWords_append]
    rcases performWords property object (s.splitOn blank) with ⟨object', _ | e⟩
    · exact ih object' fun t ht => h t (List.mem_cons_of_mem s ht)
    · rfl

/-- The errors for a word, and for a line that is that word. -/
inductive ArgumentError.Corresponds : ArgumentError → ReadError → Prop
  /-- `property` has thrown. -/
  | invalid (n : ℕ) (key value what : List UInt8) : Corresponds (.invalid key value what) (.invalid n key what)
  /-- There is no pair. -/
  | invalidProperty (n : ℕ) (key value : List UInt8) :
      Corresponds (.invalidProperty key value) (.invalidLine n key value)

/-- A file with a word on each line. -/
def fileOf (words : List (List UInt8)) : List UInt8 := words.flatMap fun word => word ++ [lineDelimiter]

/-- Neither NUL nor the end of a line is in a text, and no comment begins there. -/
def InFile (text : List UInt8) : Prop := ∀ c ∈ text, c ≠ 0 ∧ c ≠ lineDelimiter ∧ c ≠ commentCharacter

instance (text : List UInt8) : Decidable (InFile text) :=
  decidable_of_iff (text.all (fun c => c ≠ 0 && c ≠ lineDelimiter && c ≠ commentCharacter) = true)
    (by simp [InFile, and_assoc])

theorem item_eq_wordItem (h : InFile word) : item word = wordItem word := by
  have hnone : word.any isComment = false := by
    rw [List.any_eq_false]
    exact fun c hc hcomment => (h c hc).2.2 (isComment_iff.mp hcomment)
  rw [item, before_eq_self hnone, wordItem]

/-- What is done with an item is the same, and so are the errors. -/
theorem perform_corresponds (property : Property σ) (n : ℕ) (object : σ) (i : Item) :
    (performWord property object i).1 = (perform property n object i).1 ∧
      Option.Rel ArgumentError.Corresponds (performWord property object i).2 (perform property n object i).2 := by
  cases i with
  | blank => exact ⟨rfl, .none⟩
  | pair key value =>
    simp only [performWord, perform, callArgument, call]
    rcases property object key value with ⟨object', _ | what⟩
    · exact ⟨rfl, .none⟩
    · exact ⟨rfl, .some (.invalid n key value what)⟩
  | fault text => exact ⟨rfl, .some (.invalidProperty n text [])⟩

theorem performAll_fileOf (property : Property σ) {words : List (List UInt8)} (h : ∀ word ∈ words, InFile word)
    (n : ℕ) (object : σ) :
    (performWords property object words).1 = (performAll property n object ((fileOf words).splitOn lineDelimiter)).1 ∧
      Option.Rel ArgumentError.Corresponds (performWords property object words).2
        (performAll property n object ((fileOf words).splitOn lineDelimiter)).2 := by
  induction words generalizing n object with
  | nil => exact ⟨rfl, .none⟩
  | cons word words ih =>
    have hword := h word List.mem_cons_self
    have hline : ∀ c ∈ word, (c == lineDelimiter) = false := fun c hc => beq_eq_false_iff_ne.mpr (hword c hc).2.1
    have hsplit : (fileOf (word :: words)).splitOn lineDelimiter =
        word :: (fileOf words).splitOn lineDelimiter := by
      rw [fileOf, List.flatMap_cons, List.append_assoc, List.singleton_append, List.splitOn_eq_splitOnP,
        List.splitOnP_append_cons_of_forall_mem hline lineDelimiter (beq_self_eq_true _), List.splitOn_eq_splitOnP]
      rfl
    obtain ⟨hobject, herror⟩ := perform_corresponds property n object (wordItem word)
    rw [hsplit, performWords, performAll, item_eq_wordItem hword]
    rcases hperform : performWord property object (wordItem word) with ⟨object', _ | e⟩
    · rcases hline : perform property n object (wordItem word) with ⟨object'', _ | e'⟩
      · rw [hperform, hline] at hobject
        obtain rfl : object' = object'' := hobject
        exact ih (fun w hw => h w (List.mem_cons_of_mem word hw)) (n + 1) object'
      · rw [hperform, hline] at herror
        cases herror
    · rcases hline : perform property n object (wordItem word) with ⟨object'', _ | e'⟩
      · rw [hperform, hline] at herror
        cases herror
      · rw [hperform, hline] at hobject herror
        exact ⟨hobject, herror⟩

/-- The words of a text have its characters. -/
theorem mem_of_mem_splitOn {text : List UInt8} (hword : word ∈ text.splitOn blank) (hc : c ∈ word) : c ∈ text := by
  have hsplit : text.splitOn blank = text.splitOnP isBlank := List.splitOn_eq_splitOnP
  rw [hsplit] at hword
  clear hsplit
  induction text using parts_induction (p := isBlank) with
  | last first hfirst =>
    rw [List.splitOnP_eq_singleton hfirst, List.mem_singleton] at hword
    exact hword ▸ hc
  | part first d rest hfirst hd ih =>
    rw [List.splitOnP_append_cons_of_forall_mem hfirst d hd, List.mem_cons] at hword
    rcases hword with rfl | hword
    · exact List.mem_append_left _ hc
    · exact List.mem_append_right _ (List.mem_cons_of_mem d (ih hword))

/-- **Arguments are read as a file is** that has each of their words on a line, with the same calls and an error for
the same pair, if there is neither a `#` nor the end of a line in them. -/
theorem arguments_agree_with_file (property : Property σ) (object : σ) (argv : List (List UInt8))
    (h : ∀ s ∈ argv.tail, InFile s) :
    ∃ fuel object' e e', readArguments property object argv = some (object', e) ∧
      read property fuel object (.ofFile (fileOf (wordsOf argv.tail)) .endOfFile) = some (object', e') ∧
        Option.Rel ArgumentError.Corresponds e e' := by
  have hwords : ∀ word ∈ wordsOf argv.tail, InFile word := by
    intro word hword c hc
    obtain ⟨s, hs, hword⟩ := List.mem_flatMap.mp hword
    exact h s hs c (mem_of_mem_splitOn hword hc)
  have hnul : 0 ∉ fileOf (wordsOf argv.tail) := by
    intro hmem
    obtain ⟨word, hword, hmem⟩ := List.mem_flatMap.mp hmem
    rcases List.mem_append.mp hmem with hmem | hmem
    · exact (hwords word hword 0 hmem).1 rfl
    · exact absurd (List.mem_singleton.mp hmem) (by decide)
  obtain ⟨fuel, hfuel⟩ := readLoop_endOfFile property (fileOf (wordsOf argv.tail)) 0 object
  rw [splitOnP_isLine hnul] at hfuel
  obtain ⟨hobject, herror⟩ := performAll_fileOf property hwords 0 object
  refine ⟨fuel, _, _, _, readArguments_eq property object fun s hs hmem => (h s hs 0 hmem).1 rfl, ?_, herror⟩
  rw [hobject]
  exact hfuel

theorem arguments_agree_with_file_two :
    ∃ fuel, read record fuel [] (.ofFile (ascii "a=1\nb=2\n\nc=3\n".toList) .endOfFile) =
      some ([(ascii ['a'], ascii ['1']), (ascii ['b'], ascii ['2']), (ascii ['c'], ascii ['3'])], none) := by
  obtain ⟨fuel, object, e, e', harguments, hfile, herror⟩ :=
    arguments_agree_with_file record [] [ascii "sbnd".toList, ascii "a=1".toList, ascii "b=2  c=3".toList]
      (by decide)
  have hall : readArguments record [] [ascii "sbnd".toList, ascii "a=1".toList, ascii "b=2  c=3".toList] =
      some ([(ascii ['a'], ascii ['1']), (ascii ['b'], ascii ['2']), (ascii ['c'], ascii ['3'])], none) := by decide
  obtain ⟨rfl, rfl⟩ := Prod.mk.inj (Option.some.inj (hall.symm.trans harguments))
  cases herror
  exact ⟨fuel, hfile⟩

end Subordination.Core.Properties
