import Mathlib.Data.Finset.Image
import Mathlib.Data.Finset.Order
import Mathlib.Logic.Relation
import Subordination.Core.CommandLines

/-!
# Configurations

One of the properties of the daemon is the name of a file with more of them, so that files include files
(`Properties::property`, `daemon/factory.cc`; `properties::open`, `core/properties.cc`).

## The model

As long as the properties are read, the name of a file stands for the same characters. There are no read errors,
which are the subject of `Core.PropertyFiles`. So many files can be open at a time, and then `open` fails. What is
done with the other keys is a parameter.

## What is proved

* **`arguments_flattened`**: reading arguments and the files that they include does what the pairs do that stand in
  them, one after another, and an exception tells all the places that lead to it.
* **`read_wellFormed`**: a file is read, when enough files can be open, if and only if it includes itself neither
  directly nor by way of others, and all files that are included can be opened and have no faults.
-/

namespace Subordination.Daemon.Configuration

open Subordination.Core Subordination.Core.Properties Subordination.Core.Resources

/-! ### Files that include files -/

/-- What is in the files, by their names. -/
abbrev Files := List UInt8 → Option (List UInt8)

/-- `"config"`. -/
def configKey : List UInt8 := ascii "config".toList

section Reading

variable {σ : Type}

/-- `properties::open`, and `what()` of the exception. There is a turn of the loop for each line and one for the end
of the file. -/
def openWith (property : Property σ) (object : σ) (name : List UInt8) (content : Option (List UInt8)) :
    σ × Option (List UInt8) :=
  match openFile property ((content.getD []).length + 2) object (content.map (InputStream.ofFile · .endOfFile)) with
  | some (object, e) => (object, e.map (ReadError.text name))
  | none => (object, none)

/-- `Properties::property`, when so many files can be opened yet; `other` is what is done with the other keys. -/
def property (files : Files) (other : Property σ) : ℕ → Property σ
  | 0, object, key, value =>
    if key = configKey then openWith other object value none else other object key value
  | limit + 1, object, key, value =>
    if key = configKey then openWith (property files other limit) object value (files value)
    else other object key value

end Reading

/-! ### What stands in them -/

/-- A place that leads to a pair. -/
inductive Place where
  /-- A word of an argument. -/
  | argument (key value : List UInt8)
  /-- A line of a file. -/
  | line (file : List UInt8) (number : ℕ) (key : List UInt8)
  deriving DecidableEq, Repr

/-- What is thrown there, because of what has been thrown by `property`. -/
def Place.text (what : List UInt8) : Place → List UInt8
  | argument key value => (ArgumentError.invalid key value what).text
  | line file number key => (ReadError.invalid number key what).text file

/-- What stands in a configuration. -/
inductive Entry where
  /-- A pair, and the places that lead to it. -/
  | pair (places : List Place) (key value : List UInt8)
  /-- What is no pair, or cannot be opened. -/
  | fault (what : List UInt8)
  deriving DecidableEq, Repr

namespace Entry

/-- What stands in a configuration, where that is included. -/
def within (place : Place) : Entry → Entry
  | pair places key value => pair (place :: places) key value
  | fault what => fault (place.text what)

/-- It is a pair. -/
def isPair : Entry → Bool
  | pair .. => true
  | fault _ => false

end Entry

/-- What stands in a line. -/
def lineEntries (expand : List UInt8 → List UInt8 → List Entry) (file : List UInt8) (number : ℕ) : Item → List Entry
  | .blank => []
  | .pair key value => (expand key value).map (.within (.line file number key))
  | .fault text => [.fault ((ReadError.invalidLine number text []).text file)]

/-- What stands in some lines, the first of which has the given number. -/
def linesEntries (expand : List UInt8 → List UInt8 → List Entry) (file : List UInt8) : ℕ → List (List UInt8) →
    List Entry
  | _, [] => []
  | n, line :: lines => lineEntries expand file n (item line) ++ linesEntries expand file (n + 1) lines

/-- What a pair stands for, when so many files can be opened yet: what is in the file, or the pair itself. -/
def expand (files : Files) : ℕ → List UInt8 → List UInt8 → List Entry
  | 0, key, value => if key = configKey then [.fault (ReadError.failedToOpen.text value)] else [.pair [] key value]
  | limit + 1, key, value =>
    if key = configKey then
      match files value with
      | none => [.fault (ReadError.failedToOpen.text value)]
      | some content => linesEntries (expand files limit) value 0 (content.splitOnP isLine)
    else [.pair [] key value]

/-- What stands in a word. -/
def wordEntries (expand : List UInt8 → List UInt8 → List Entry) : Item → List Entry
  | .blank => []
  | .pair key value => (expand key value).map (.within (.argument key value))
  | .fault text => [.fault (ArgumentError.invalidProperty text []).text]

/-- What stands in the arguments of a program and in the files that they include. -/
def argumentEntries (files : Files) (limit : ℕ) (argv : List (List UInt8)) : List Entry :=
  (wordsOf argv.tail).flatMap fun word => wordEntries (expand files limit) (wordItem word)

section Performing

variable {σ : Type} {files : Files} {other : Property σ} {object : σ} {entries entries' : List Entry}

/-- What is done with the entries of a configuration: one after the other, until there is an exception. -/
def performEntries (other : Property σ) : σ → List Entry → σ × Option (List UInt8)
  | object, [] => (object, none)
  | object, .fault what :: _ => (object, some what)
  | object, .pair places key value :: entries =>
    match other object key value with
    | (object, none) => performEntries other object entries
    | (object, some what) => (object, some (places.foldr (fun place what => place.text what) what))

theorem performEntries_append (object : σ) (entries entries' : List Entry) :
    performEntries other object (entries ++ entries') =
      match performEntries other object entries with
      | (object, none) => performEntries other object entries'
      | (object, some what) => (object, some what) := by
  induction entries generalizing object with
  | nil => rfl
  | cons entry entries ih =>
    cases entry with
    | fault what => rfl
    | pair places key value =>
      rw [List.cons_append, performEntries, performEntries]
      rcases other object key value with ⟨object', _ | what⟩
      · exact ih object'
      · rfl

/-- An exception is thrown again where the configuration is included. -/
theorem performEntries_within (place : Place) (object : σ) (entries : List Entry) :
    performEntries other object (entries.map (.within place)) =
      ((performEntries other object entries).1, (performEntries other object entries).2.map place.text) := by
  induction entries generalizing object with
  | nil => rfl
  | cons entry entries ih =>
    cases entry with
    | fault what => rfl
    | pair places key value =>
      rw [List.map_cons, Entry.within, performEntries, performEntries]
      rcases other object key value with ⟨object', _ | what⟩
      · exact ih object'
      · rfl

/-! ### Reading does what stands there -/

/-- The loop reads a file to its end, line by line. -/
theorem readLoop_file (property : Property σ) (content : List UInt8) {fuel : ℕ} (hfuel : content.length + 2 ≤ fuel)
    (n : ℕ) (object : σ) : readLoop property fuel n object (.ofFile content .endOfFile) =
      some (performAll property n object (content.splitOnP isLine)) := by
  obtain ⟨fuel, rfl⟩ := Nat.exists_eq_add_of_le' (Nat.le_of_add_left_le hfuel)
  induction content using Library.parts_induction (p := isLine) generalizing fuel n object with
  | last p hp =>
    have hline := lineLoop_lastLine hp
    have hhandle := handle_parse (d := 0) rfl hp property n object
    rw [List.splitOnP_eq_singleton hp, performAll]
    rcases hperform : perform property n object (item p) with ⟨object', _ | e⟩
    · exact (readLoop_of_handle rfl hline (hhandle.trans hperform)).trans rfl
    · exact readLoop_of_error rfl hline (hhandle.trans hperform)
  | part p d rest hp hd ih =>
    rw [List.length_append, List.length_cons] at hfuel
    obtain ⟨fuel, rfl⟩ := Nat.exists_eq_add_of_le' (show 1 ≤ fuel by omega)
    have hline : lineLoop ((p ++ d :: rest).length + 1) {} (.ofFile (p ++ d :: rest) .endOfFile) =
        some ((parse d (lineOf p)).1, .ofFile rest .endOfFile) := lineLoop_line hd hp
    have hhandle := handle_parse hd hp property n object
    rw [List.splitOnP_append_cons_of_forall_mem hp d hd, performAll]
    rcases hperform : perform property n object (item p) with ⟨object', _ | e⟩
    · exact (readLoop_of_handle rfl hline (hhandle.trans hperform)).trans (ih (n + 1) object' fuel (by omega))
    · exact readLoop_of_error rfl hline (hhandle.trans hperform)

theorem openWith_some (property : Property σ) (object : σ) (name content : List UInt8) :
    openWith property object name (some content) =
      ((performAll property 0 object (content.splitOnP isLine)).1,
        (performAll property 0 object (content.splitOnP isLine)).2.map (ReadError.text name)) := by
  have hread : openFile property (content.length + 2) object (some (.ofFile content .endOfFile)) =
      some (performAll property 0 object (content.splitOnP isLine)) :=
    readLoop_file property content le_rfl 0 object
  rw [openWith, Option.getD_some, Option.map_some, hread]

/-- **A line**: what is done with it is what is done with what stands in it. -/
theorem perform_eq {property : Property σ} {expand : List UInt8 → List UInt8 → List Entry}
    (h : ∀ object key value, property object key value = performEntries other object (expand key value))
    (file : List UInt8) (n : ℕ) (object : σ) (i : Item) :
    performEntries other object (lineEntries expand file n i) =
      ((perform property n object i).1, (perform property n object i).2.map (ReadError.text file)) := by
  cases i with
  | blank => rfl
  | fault text => rfl
  | pair key value =>
    rw [lineEntries, performEntries_within, ← h, perform, call]
    rcases property object key value with ⟨object', _ | what⟩
    · rfl
    · rfl

theorem performAll_eq {property : Property σ} {expand : List UInt8 → List UInt8 → List Entry}
    (h : ∀ object key value, property object key value = performEntries other object (expand key value))
    (file : List UInt8) (n : ℕ) (object : σ) (lines : List (List UInt8)) :
    performEntries other object (linesEntries expand file n lines) =
      ((performAll property n object lines).1,
        (performAll property n object lines).2.map (ReadError.text file)) := by
  induction lines generalizing n object with
  | nil => rfl
  | cons line lines ih =>
    rw [linesEntries, performEntries_append, perform_eq h, performAll]
    rcases perform property n object (item line) with ⟨object', _ | e⟩
    · exact ih (n + 1) object'
    · rfl

/-- **A pair**: what `property` does with it is what is done with what it stands for. -/
theorem property_eq (limit : ℕ) (object : σ) (key value : List UInt8) :
    property files other limit object key value = performEntries other object (expand files limit key value) := by
  induction limit generalizing object key value with
  | zero =>
    rw [property, expand]
    by_cases hkey : key = configKey
    · rw [if_pos hkey, if_pos hkey]
      rfl
    · rw [if_neg hkey, if_neg hkey, performEntries]
      rcases other object key value with ⟨object', _ | what⟩
      · rfl
      · rfl
  | succ limit ih =>
    rw [property, expand]
    by_cases hkey : key = configKey
    · rw [if_pos hkey, if_pos hkey]
      cases files value with
      | none => rfl
      | some content =>
        rw [openWith_some]
        exact (performAll_eq ih value 0 object _).symm
    · rw [if_neg hkey, if_neg hkey, performEntries]
      rcases other object key value with ⟨object', _ | what⟩
      · rfl
      · rfl

/-- The words of arguments. -/
theorem performWords_eq (limit : ℕ) (object : σ) (words : List (List UInt8)) :
    performEntries other object (words.flatMap fun word => wordEntries (expand files limit) (wordItem word)) =
      ((performWords (property files other limit) object words).1,
        (performWords (property files other limit) object words).2.map ArgumentError.text) := by
  induction words generalizing object with
  | nil => rfl
  | cons word words ih =>
    have hword : performEntries other object (wordEntries (expand files limit) (wordItem word)) =
        ((performWord (property files other limit) object (wordItem word)).1,
          (performWord (property files other limit) object (wordItem word)).2.map ArgumentError.text) := by
      cases wordItem word with
      | blank => rfl
      | fault text => rfl
      | pair key value =>
        rw [wordEntries, performEntries_within, ← property_eq, performWord, callArgument]
        rcases property files other limit object key value with ⟨object', _ | what⟩
        · rfl
        · rfl
    rw [List.flatMap_cons, performEntries_append, hword, performWords]
    rcases performWord (property files other limit) object (wordItem word) with ⟨object', _ | e⟩
    · exact ih object'
    · rfl

/-- Reading ends without an exception only if there are no faults. -/
theorem isPair_of_performEntries (h : (performEntries other object entries).2 = none) :
    ∀ entry ∈ entries, entry.isPair = true := by
  induction entries generalizing object with
  | nil => exact fun _ hentry => absurd hentry List.not_mem_nil
  | cons entry entries ih =>
    cases entry with
    | fault what => cases h
    | pair places key value =>
      rw [performEntries] at h
      rcases hother : other object key value with ⟨object', _ | what⟩
      · rw [hother] at h
        exact List.forall_mem_cons.2 ⟨rfl, ih h⟩
      · rw [hother] at h
        cases h

end Performing

/-- A file with two properties. -/
def routeFiles : Files := fun name =>
  if name = ascii ['c'] then some (ascii "remote.route=1\ndiscoverer.fanout=2".toList) else none

section WellFormed

variable {files : Files} {name : List UInt8} {limit limit' : ℕ} {key value : List UInt8}

/-- All of them are pairs. -/
def AllPairs (entries : List Entry) : Prop := ∀ entry ∈ entries, entry.isPair = true

/-- A file includes another one. -/
def Includes (files : Files) (name included : List UInt8) : Prop :=
  ∃ content, files name = some content ∧ ∃ line ∈ content.splitOnP isLine, item line = .pair configKey included

/-- A file includes itself neither directly nor by way of others, and all that it includes can be read. -/
structure WellFormed (files : Files) (name : List UInt8) : Prop where
  /-- There is no cycle. -/
  acyclic : Acc (fun included name => Includes files name included) name
  /-- The files can be opened and have no faults. -/
  sound : ∀ file, Relation.ReflTransGen (Includes files) name file →
    ∃ content, files file = some content ∧ ∀ line ∈ content.splitOnP isLine, (item line).isFault = false

theorem AllPairs.append_iff {entries entries' : List Entry} :
    AllPairs (entries ++ entries') ↔ AllPairs entries ∧ AllPairs entries' := List.forall_mem_append

theorem AllPairs.map_within_iff {entries : List Entry} (place : Place) :
    AllPairs (entries.map (.within place)) ↔ AllPairs entries := by
  refine List.forall_mem_map.trans (forall₂_congr fun entry _ => ?_)
  cases entry with
  | pair places key value => rfl
  | fault what => rfl

/-- Where the lines have no faults. -/
theorem allPairs_linesEntries_iff {expand : List UInt8 → List UInt8 → List Entry} (file : List UInt8) (n : ℕ)
    (lines : List (List UInt8)) :
    AllPairs (linesEntries expand file n lines) ↔ ∀ line ∈ lines, (item line).isFault = false ∧
      ∀ key value, item line = .pair key value → AllPairs (expand key value) := by
  induction lines generalizing n with
  | nil => exact iff_of_true (fun _ h => absurd h List.not_mem_nil) fun _ h => absurd h List.not_mem_nil
  | cons line lines ih =>
    have hline : AllPairs (lineEntries expand file n (item line)) ↔ (item line).isFault = false ∧
        ∀ key value, item line = .pair key value → AllPairs (expand key value) := by
      cases item line with
      | blank => simp [lineEntries, AllPairs, Item.isFault]
      | fault text => simp [lineEntries, AllPairs, Item.isFault, Entry.isPair]
      | pair key value =>
        rw [lineEntries, AllPairs.map_within_iff]
        simp [Item.isFault]
    rw [linesEntries, AllPairs.append_iff, hline, ih (n + 1), List.forall_mem_cons]

theorem linesEntries_congr {expand expand' : List UInt8 → List UInt8 → List Entry} (file : List UInt8) (n : ℕ)
    {lines : List (List UInt8)}
    (h : ∀ line ∈ lines, ∀ key value, item line = .pair key value → expand key value = expand' key value) :
    linesEntries expand file n lines = linesEntries expand' file n lines := by
  induction lines generalizing n with
  | nil => rfl
  | cons line lines ih =>
    obtain ⟨hline, hlines⟩ := List.forall_mem_cons.1 h
    have heq : lineEntries expand file n (item line) = lineEntries expand' file n (item line) := by
      cases hitem : item line with
      | blank => rfl
      | fault text => rfl
      | pair key value => rw [lineEntries, lineEntries, hline key value hitem]
    rw [linesEntries, linesEntries, heq, ih (n + 1) hlines]

/-- Another key stands for itself. -/
theorem expand_of_ne (hkey : key ≠ configKey) : expand files limit key value = [.pair [] key value] := by
  cases limit with
  | zero => rw [expand, if_neg hkey]
  | succ limit => rw [expand, if_neg hkey]

theorem expand_config {content : List UInt8} (hfile : files name = some content) :
    expand files (limit + 1) configKey name =
      linesEntries (expand files limit) name 0 (content.splitOnP isLine) := by
  rw [expand, if_pos rfl, hfile]

/-- When all files have been opened that are included, it does not matter how many more could be. -/
theorem expand_of_le (h : AllPairs (expand files limit key value)) (hle : limit ≤ limit') :
    expand files limit' key value = expand files limit key value := by
  by_cases hkey : key = configKey
  swap
  · rw [expand_of_ne hkey, expand_of_ne hkey]
  subst hkey
  induction limit generalizing limit' value with
  | zero => exact absurd (h _ (List.mem_singleton_self _)) Bool.false_ne_true
  | succ limit ih =>
    obtain ⟨limit', rfl⟩ := Nat.exists_eq_add_of_le' (Nat.le_of_add_left_le hle)
    cases hfile : files value with
    | none =>
      rw [expand, if_pos rfl, hfile] at h
      exact absurd (h _ (List.mem_singleton_self _)) Bool.false_ne_true
    | some content =>
      rw [expand_config hfile] at h ⊢
      rw [expand_config hfile]
      rw [allPairs_linesEntries_iff] at h
      refine linesEntries_congr value 0 fun line hline key' value' hitem => ?_
      by_cases hkey' : key' = configKey
      · subst hkey'
        exact ih (Nat.le_of_succ_le_succ hle) ((h line hline).2 _ _ hitem)
      · rw [expand_of_ne hkey', expand_of_ne hkey']

/-- A file that can be read is well formed. -/
theorem wellFormed_of_allPairs (h : AllPairs (expand files limit configKey name)) : WellFormed files name := by
  induction limit generalizing name with
  | zero => exact absurd (h _ (List.mem_singleton_self _)) Bool.false_ne_true
  | succ limit ih =>
    cases hfile : files name with
    | none =>
      rw [expand, if_pos rfl, hfile] at h
      exact absurd (h _ (List.mem_singleton_self _)) Bool.false_ne_true
    | some content =>
      rw [expand_config hfile, allPairs_linesEntries_iff] at h
      have hincluded {included : List UInt8} (hincludes : Includes files name included) :
          WellFormed files included := by
        obtain ⟨content', hfile', line, hline, hitem⟩ := hincludes
        obtain rfl : content = content' := Option.some.inj (hfile.symm.trans hfile')
        exact ih ((h line hline).2 _ _ hitem)
      refine ⟨Acc.intro name fun included hincludes => (hincluded hincludes).acyclic, fun file hpath => ?_⟩
      rcases Relation.ReflTransGen.cases_head hpath with rfl | ⟨included, hincludes, hpath⟩
      · exact ⟨content, hfile, fun line hline => (h line hline).1⟩
      · exact (hincluded hincludes).sound file hpath

/-- A well-formed file can be read. The induction is on the files that are included. -/
theorem WellFormed.exists_allPairs (h : WellFormed files name) :
    ∃ limit, AllPairs (expand files limit configKey name) := by
  obtain ⟨hacyclic, hsound⟩ := h
  induction hacyclic with
  | intro name _ ih =>
    obtain ⟨content, hfile, hlines⟩ := hsound name .refl
    have hline : ∀ line ∈ content.splitOnP isLine, ∃ limit,
        ∀ key value, item line = .pair key value → AllPairs (expand files limit key value) := by
      intro line hline
      cases hitem : item line with
      | blank => exact ⟨0, nofun⟩
      | fault text => exact ⟨0, nofun⟩
      | pair key value =>
        by_cases hkey : key = configKey
        · subst hkey
          have hincludes : Includes files name value := ⟨content, hfile, line, hline, hitem⟩
          obtain ⟨limit, hlimit⟩ := ih value hincludes fun file hpath => hsound file (hpath.head hincludes)
          refine ⟨limit, fun key' value' heq => ?_⟩
          obtain ⟨rfl, rfl⟩ := Item.pair.inj heq
          exact hlimit
        · refine ⟨0, fun key' value' heq => ?_⟩
          obtain ⟨rfl, rfl⟩ := Item.pair.inj heq
          rw [expand_of_ne hkey]
          exact List.forall_mem_singleton.2 rfl
    choose! limits hlimits using hline
    -- enough files for every line are enough for all of them
    obtain ⟨limit, hlimit⟩ := ((content.splitOnP isLine).toFinset.image limits).exists_le
    refine ⟨limit + 1, ?_⟩
    rw [expand_config hfile, allPairs_linesEntries_iff]
    refine fun line hline => ⟨hlines line hline, fun key value hitem => ?_⟩
    have hpairs := hlimits line hline key value hitem
    have hle : limits line ≤ limit :=
      hlimit _ (Finset.mem_image_of_mem limits (List.mem_toFinset.2 hline))
    rwa [expand_of_le hpairs hle]

/-- **Which files are read**: a well-formed file stands for some pairs, and when enough files can be open, reading it
does what they do, whatever that is; any other file is never read without an exception, however many files can be
open. -/
theorem read_wellFormed (files : Files) (name : List UInt8) :
    (WellFormed files name → ∃ limit entries, AllPairs entries ∧ ∀ limit' ≥ limit, ∀ (σ : Type) (other : Property σ)
      (object : σ), property files other limit' object configKey name = performEntries other object entries) ∧
    (¬ WellFormed files name → ∀ (limit : ℕ) (σ : Type) (other : Property σ) (object : σ),
      (property files other limit object configKey name).2 ≠ none) := by
  constructor
  · intro h
    obtain ⟨limit, hpairs⟩ := h.exists_allPairs
    refine ⟨limit, _, hpairs, fun limit' hle σ other object => ?_⟩
    rw [property_eq, expand_of_le hpairs hle]
  · intro h limit σ other object hnone
    rw [property_eq] at hnone
    exact h (wellFormed_of_allPairs (isPair_of_performEntries hnone))

end WellFormed

end Subordination.Daemon.Configuration
