import Mathlib.Data.List.Basic
import Subordination.Core.ByteBuffer
import Subordination.Core.TextualExpressions
import Subordination.Library.Splitting

/-!
# Flags of the factory

Which pipelines the daemon starts is configured as names of flags with signs before them
(`string_to_factory_flags` and `operator>>`, `daemon/factory.cc`).

## The model

The reader is a machine that takes one character in a turn; the end of the text is a turn of its own, with the
character -1. A text is spelled as items, each with a gap of spaces and signs after it.

## What is proved

* `stringToFactoryFlags_ok_iff` — the reader takes the texts in which each gap is one character, which is dropped
  whatever it is, and spaces.
* `readsFlags_iff` — that is right for a text if its gaps are such exactly when they consist of spaces.
-/

namespace Subordination.Daemon

open Subordination.Core Subordination.Core.Resources Subordination.Library

/-! ### The reader -/

/-- The names of the flags, `factory_flags`. -/
inductive FactoryFlag where
  | local
  | remote
  | process
  | unix
  | transactions
  | all
  deriving DecidableEq, Repr

namespace FactoryFlag

/-- The value of the flag. -/
def value : FactoryFlag → UInt32
  | .local => 1
  | .remote => 2
  | .process => 4
  | .unix => 8
  | .transactions => 16
  | .all => 0xFFFFFFFF

/-- The name of the flag. -/
def name : FactoryFlag → List UInt8
  | .local => ascii ['l', 'o', 'c', 'a', 'l']
  | .remote => ascii ['r', 'e', 'm', 'o', 't', 'e']
  | .process => ascii ['p', 'r', 'o', 'c', 'e', 's', 's']
  | .unix => ascii ['u', 'n', 'i', 'x']
  | .transactions => ascii ['t', 'r', 'a', 'n', 's', 'a', 'c', 't', 'i', 'o', 'n', 's']
  | .all => ascii ['a', 'l', 'l']

/-- The flag of a name. -/
def ofName (s : List UInt8) : Option FactoryFlag :=
  [FactoryFlag.local, remote, process, unix, transactions, all].find? (·.name = s)

end FactoryFlag

/-- `state`. -/
inductive FlagState where
  | initial
  | negative
  | positive
  deriving DecidableEq, Repr

/-- The variables of `operator>>`; `rhs` is the flags. -/
structure FlagReader where
  /-- `state`, but for `finished`. -/
  state : FlagState
  /-- `name`. -/
  name : List UInt8
  /-- `rhs`. -/
  rhs : UInt32
  deriving DecidableEq, Repr

/-- `-`. -/
def minus : UInt8 := 45

/-- `+`. -/
def plus : UInt8 := 43

/-- ` `. -/
def space : UInt8 := 32

/-- `throw std::invalid_argument("bad factory flags")`. -/
def badFactoryFlags : Exception := .invalidArgument "bad factory flags"

/-- A turn of the loop, with the character that has been taken, and whether there was none. -/
def FlagReader.turn (ch : UInt8) (eof : Bool) (r : FlagReader) : Except Exception FlagReader :=
  match r.state with
  | .initial =>
    if ch = minus then .ok { r with state := .negative }
    else if ch = plus then .ok { r with state := .positive }
    else if ch = space then .ok r
    else .error badFactoryFlags
  | _ =>
    if ch = plus ∨ ch = minus ∨ ch = space ∨ eof then
      match FactoryFlag.ofName r.name with
      | none => .error badFactoryFlags
      | some f =>
        .ok ⟨.initial, [], if r.state = .positive then r.rhs ||| f.value else r.rhs &&& ~~~f.value⟩
    else .ok { r with name := r.name ++ [ch] }

/-- The loop of `operator>>`. At the end of the text `char(in.get())` is -1. -/
def FlagReader.run : List UInt8 → FlagReader → Except Exception UInt32
  | [], r => do
    let r ← r.turn 0xFF true
    return r.rhs
  | ch :: s, r => do
    let r ← r.turn ch false
    r.run s

/-- `string_to_factory_flags`. -/
def stringToFactoryFlags (s : List UInt8) : Except Exception UInt32 :=
  FlagReader.run s ⟨.initial, [], FactoryFlag.all.value⟩

/-! ### Spellings -/

/-- A name with a sign before it. -/
structure FlagItem where
  /-- The sign is `+`. -/
  sets : Bool
  /-- The flag. -/
  flag : FactoryFlag
  deriving DecidableEq, Repr

/-- The sign of an item. -/
def FlagItem.sign (i : FlagItem) : UInt8 := if i.sets then plus else minus

/-- What an item does to the flags. -/
def FlagItem.apply (rhs : UInt32) (i : FlagItem) : UInt32 :=
  if i.sets then rhs ||| i.flag.value else rhs &&& ~~~i.flag.value

/-- Some items, each with the gap after it. -/
abbrev Spelling := List (FlagItem × List UInt8)

namespace Spelling

/-- The text of the items and their gaps. -/
def text : Spelling → List UInt8
  | [] => []
  | (i, gap) :: items => i.sign :: (i.flag.name ++ (gap ++ text items))

/-- The items set and clear flags one after the other, from all. -/
def flags (items : Spelling) : UInt32 := (items.map Prod.fst).foldl FlagItem.apply FactoryFlag.all.value

/-- A character that no name has: it is a sign or a space. -/
def isGap (c : UInt8) : Bool := c = plus || c = minus || c = space

/-- There is nothing but signs and spaces in the gaps. -/
def HasGaps (items : Spelling) : Prop := ∀ x ∈ items, ∀ c ∈ x.2, isGap c = true

/-- There is an item, and nothing but spaces in the gaps. -/
def IsListed (items : Spelling) : Prop := items ≠ [] ∧ ∀ x ∈ items, ∀ c ∈ x.2, c = space

/-- Each gap is a sign or a space, and spaces, and there is nothing after the last item. -/
inductive IsChained : Spelling → Prop where
  | last (i : FlagItem) : IsChained [(i, [])]
  | more {i : FlagItem} {c : UInt8} {n : ℕ} {items : Spelling} (hc : isGap c = true) (h : IsChained items) :
    IsChained ((i, c :: List.replicate n space) :: items)

/-- The text is spelled so, with some spaces before it. -/
def Spells (n : ℕ) (items : Spelling) (s : List UInt8) : Prop := s = List.replicate n space ++ items.text

end Spelling

open Spelling

/-- A text is read as it should be: the flags of its items, if they can be told apart as items with spaces, and
otherwise `std::invalid_argument`. -/
def ReadsFlags (s : List UInt8) : Prop :=
  (∀ n items, Spells n items s → IsListed items → stringToFactoryFlags s = .ok (flags items)) ∧
    ((∀ n items, Spells n items s → ¬ IsListed items) →
      ∃ what, stringToFactoryFlags s = .error (.invalidArgument what))

/-! ### What the reader takes -/

variable {r : FlagReader} {s rest : List UInt8} {rhs : UInt32} {i : FlagItem} {items : Spelling}

theorem isGap_iff {c : UInt8} : isGap c = true ↔ c = plus ∨ c = minus ∨ c = space := by
  simp [isGap, or_assoc]

theorem not_isGap_name (f : FactoryFlag) : ∀ c ∈ f.name, isGap c = false := by
  cases f <;> decide +kernel

theorem name_ne_nil (f : FactoryFlag) : f.name ≠ [] := by
  cases f <;> decide

theorem ofName_name (f : FactoryFlag) : FactoryFlag.ofName f.name = some f := by
  cases f <;> decide

theorem ofName_eq_some_iff {f : FactoryFlag} : FactoryFlag.ofName s = some f ↔ f.name = s := by
  constructor
  · intro h
    simpa using List.find?_some h
  · rintro rfl
    exact ofName_name f

/-- The only error is that of the flags. -/
theorem run_error {x : Exception} (h : r.run s = .error x) : x = badFactoryFlags := by
  have hturn : ∀ (r : FlagReader) ch eof, r.turn ch eof = .error x → x = badFactoryFlags := by
    intro r ch eof h
    unfold FlagReader.turn at h
    split at h
    · split_ifs at h
      cases h
      rfl
    · split at h
      · split at h
        · cases h
          rfl
        · cases h
      · cases h
  induction s generalizing r with
  | nil =>
    cases hr : r.turn 0xFF true with
    | error y =>
      simp only [FlagReader.run, hr] at h
      cases h
      exact hturn r _ _ hr
    | ok r' =>
      simp only [FlagReader.run, hr] at h
      cases h
  | cons ch s ih =>
    cases hr : r.turn ch false with
    | error y =>
      simp only [FlagReader.run, hr] at h
      cases h
      exact hturn r _ _ hr
    | ok r' =>
      simp only [FlagReader.run, hr] at h
      exact ih h

/-- The reader after the sign of an item. -/
def afterSign (i : FlagItem) (rhs : UInt32) : FlagReader := ⟨if i.sets then .positive else .negative, [], rhs⟩

theorem run_sign (i : FlagItem) (s : List UInt8) (rhs : UInt32) :
    FlagReader.run (i.sign :: s) ⟨.initial, [], rhs⟩ = (afterSign i rhs).run s := by
  rcases i with ⟨_ | _, f⟩
  · rfl
  · rfl

theorem run_space (s : List UInt8) (rhs : UInt32) :
    FlagReader.run (space :: s) ⟨.initial, [], rhs⟩ = FlagReader.run s ⟨.initial, [], rhs⟩ := rfl

/-- After a sign, characters that are no signs and no spaces go into the name. -/
theorem run_word (hr : r.state ≠ .initial) {w : List UInt8} (hw : ∀ c ∈ w, isGap c = false) :
    r.run (w ++ s) = ({ r with name := r.name ++ w } : FlagReader).run s := by
  induction w generalizing r with
  | nil => rw [List.nil_append, List.append_nil]
  | cons c w ih =>
    have hc : ¬ (c = plus ∨ c = minus ∨ c = space) := by
      rw [← isGap_iff, hw c List.mem_cons_self]
      exact Bool.false_ne_true
    have hturn : r.turn c false = .ok { r with name := r.name ++ [c] } := by
      unfold FlagReader.turn
      split
      · rename_i hinitial
        exact absurd hinitial hr
      · rw [if_neg]
        simpa using hc
    have hmore := ih (r := { r with name := r.name ++ [c] }) hr fun d hd => hw d (List.mem_cons_of_mem c hd)
    rw [List.append_assoc, List.singleton_append] at hmore
    rw [List.cons_append, FlagReader.run, hturn]
    exact hmore

/-- The turn that ends a name. -/
theorem turn_end {c : UInt8} {eof : Bool} (h : isGap c = true ∨ eof = true) (i : FlagItem) (w : List UInt8)
    (rhs : UInt32) :
    ({ afterSign i rhs with name := w } : FlagReader).turn c eof =
      match FactoryFlag.ofName w with
      | none => .error badFactoryFlags
      | some f => .ok ⟨.initial, [], FlagItem.apply rhs ⟨i.sets, f⟩⟩ := by
  have hends : c = plus ∨ c = minus ∨ c = space ∨ eof = true := by
    rw [isGap_iff] at h
    tauto
  rcases i with ⟨_ | _, f⟩
  · simp only [FlagReader.turn, afterSign, if_pos hends]
    rfl
  · simp only [FlagReader.turn, afterSign, if_pos hends]
    rfl

theorem afterSign_state_ne (i : FlagItem) (rhs : UInt32) : (afterSign i rhs).state ≠ .initial := by
  rcases i with ⟨_ | _, f⟩
  · exact nofun
  · exact nofun

/-- A word before a sign or a space, which is dropped. -/
theorem run_word_gap {w : List UInt8} (hw : ∀ c ∈ w, isGap c = false) {c : UInt8} (hc : isGap c = true)
    (i : FlagItem) (s : List UInt8) (rhs : UInt32) :
    (afterSign i rhs).run (w ++ c :: s) =
      match FactoryFlag.ofName w with
      | none => .error badFactoryFlags
      | some f => FlagReader.run s ⟨.initial, [], FlagItem.apply rhs ⟨i.sets, f⟩⟩ := by
  have hname : (afterSign i rhs).name ++ w = w := rfl
  rw [run_word (afterSign_state_ne i rhs) hw, hname, FlagReader.run, turn_end (Or.inl hc)]
  cases FactoryFlag.ofName w with
  | none => rfl
  | some f => rfl

/-- A word at the end of the text. -/
theorem run_word_end {w : List UInt8} (hw : ∀ c ∈ w, isGap c = false) (i : FlagItem) (rhs : UInt32) :
    (afterSign i rhs).run w =
      match FactoryFlag.ofName w with
      | none => .error badFactoryFlags
      | some f => .ok (FlagItem.apply rhs ⟨i.sets, f⟩) := by
  have hname : (afterSign i rhs).name ++ w = w := rfl
  rw [← List.append_nil w, run_word (afterSign_state_ne i rhs) hw, List.append_nil, hname, FlagReader.run,
    turn_end (Or.inr rfl)]
  cases FactoryFlag.ofName w with
  | none => rfl
  | some f => rfl

theorem run_spaces (n : ℕ) (s : List UInt8) (rhs : UInt32) :
    FlagReader.run (List.replicate n space ++ s) ⟨.initial, [], rhs⟩ = FlagReader.run s ⟨.initial, [], rhs⟩ := by
  induction n with
  | zero => rfl
  | succ n ih =>
    rw [List.replicate_succ, List.cons_append, run_space]
    exact ih

/-- The items of a chain are read. -/
theorem run_of_isChained (h : IsChained items) (n : ℕ) (rhs : UInt32) :
    FlagReader.run (List.replicate n space ++ items.text) ⟨.initial, [], rhs⟩ =
      .ok ((items.map Prod.fst).foldl FlagItem.apply rhs) := by
  induction h generalizing n rhs with
  | last i =>
    rw [run_spaces, text, run_sign, text, List.append_nil, List.append_nil,
      run_word_end (not_isGap_name i.flag), ofName_name]
    rfl
  | @more i c m items hc _ ih =>
    rw [run_spaces, text, run_sign, List.cons_append, run_word_gap (not_isGap_name i.flag) hc, ofName_name]
    exact ih m _

/-- What is read is a chain. -/
theorem isChained_of_run {f : UInt32} (h : FlagReader.run s ⟨.initial, [], rhs⟩ = .ok f) :
    ∃ n items, Spells n items s ∧ IsChained items ∧ f = (items.map Prod.fst).foldl FlagItem.apply rhs := by
  -- by induction on the length of the text: a turn takes a space, or an item and the character after it
  induction hlength : s.length using Nat.strong_induction_on generalizing s rhs with
  | _ k ih =>
    subst hlength
    cases s with
    | nil => cases h
    | cons c s =>
      by_cases hspace : c = space
      · subst hspace
        rw [run_space] at h
        obtain ⟨n, items, hspells, hchained, hf⟩ := ih s.length (Nat.lt_succ_self _) h rfl
        refine ⟨n + 1, items, ?_, hchained, hf⟩
        rw [Spells, hspells]
        rfl
      by_cases hsign : ∃ i : FlagItem, c = i.sign
      · obtain ⟨i, rfl⟩ := hsign
        rw [run_sign] at h
        rcases exists_part isGap s with hword | ⟨w, c, rest, rfl, hword, hc⟩
        · -- the name ends with the text
          rw [run_word_end hword] at h
          cases hname : FactoryFlag.ofName s with
          | none =>
            rw [hname] at h
            cases h
          | some g =>
            rw [hname] at h
            refine ⟨0, [(⟨i.sets, g⟩, [])], ?_, .last _, (Except.ok.inj h).symm⟩
            rw [Spells, ← ofName_eq_some_iff.mp hname]
            simp [text, FlagItem.sign]
        · -- the name ends with a character that is dropped
          rw [run_word_gap hword hc] at h
          have hlt : rest.length < (i.sign :: (w ++ c :: rest)).length := by
            simp only [List.length_cons, List.length_append]
            omega
          cases hname : FactoryFlag.ofName w with
          | none =>
            rw [hname] at h
            cases h
          | some g =>
            rw [hname] at h
            obtain ⟨n, items, hspells, hchained, hf⟩ := ih rest.length hlt h rfl
            refine ⟨0, (⟨i.sets, g⟩, c :: List.replicate n space) :: items, ?_, .more hc hchained, hf⟩
            rw [Spells, ← ofName_eq_some_iff.mp hname, hspells]
            simp [text, FlagItem.sign]
      · have hturn : FlagReader.turn c false ⟨.initial, [], rhs⟩ = .error badFactoryFlags := by
          have hminus : c ≠ minus := fun hc => hsign ⟨⟨false, .all⟩, hc⟩
          have hplus : c ≠ plus := fun hc => hsign ⟨⟨true, .all⟩, hc⟩
          simp only [FlagReader.turn, if_neg hminus, if_neg hplus, if_neg hspace]
        rw [FlagReader.run, hturn] at h
        cases h

/-- **What the reader takes**: chains, with the flags of their items. -/
theorem stringToFactoryFlags_ok_iff {f : UInt32} :
    stringToFactoryFlags s = .ok f ↔ ∃ n items, Spells n items s ∧ IsChained items ∧ f = flags items := by
  constructor
  · exact isChained_of_run
  · rintro ⟨n, items, hspells, hchained, rfl⟩
    rw [Spells] at hspells
    rw [hspells]
    exact run_of_isChained hchained n _

/-- What the reader does not take, it rejects. -/
theorem stringToFactoryFlags_error (h : ∀ n items, Spells n items s → ¬ IsChained items) :
    stringToFactoryFlags s = .error badFactoryFlags := by
  cases hs : stringToFactoryFlags s with
  | error x => rw [run_error hs]
  | ok f =>
    obtain ⟨n, items, hspells, hchained, -⟩ := stringToFactoryFlags_ok_iff.mp hs
    exact absurd hchained (h n items hspells)

/-! ### A text is spelled in one way -/

variable {items' : Spelling} {i' : FlagItem} {gap gap' : List UInt8}

theorem isGap_sign (i : FlagItem) : isGap i.sign = true := by
  rcases i with ⟨_ | _, f⟩
  · rfl
  · rfl

theorem name_inj {f g : FactoryFlag} (h : f.name = g.name) : f = g := by
  have hname := ofName_name f
  rw [h, ofName_name] at hname
  exact (Option.some.inj hname).symm

theorem item_eq (hsign : i.sign = i'.sign) (hname : i.flag.name = i'.flag.name) : i = i' := by
  have hflag : i.flag = i'.flag := name_inj hname
  rcases i with ⟨_ | _, f⟩
  · rcases i' with ⟨_ | _, g⟩
    · exact congrArg _ hflag
    · exact absurd hsign (show minus ≠ plus by decide)
  · rcases i' with ⟨_ | _, g⟩
    · exact absurd hsign (show plus ≠ minus by decide)
    · exact congrArg _ hflag

theorem Spelling.IsListed.hasGaps (h : IsListed items) : HasGaps items := fun x hx c hc =>
  isGap_iff.mpr (Or.inr (Or.inr (h.2 x hx c hc)))

theorem Spelling.IsChained.hasGaps (h : IsChained items) : HasGaps items := by
  induction h with
  | last i =>
    intro x hx c hc
    rw [List.mem_singleton.mp hx] at hc
    cases hc
  | @more i c n items hc _ ih =>
    intro x hx d hd
    rcases List.mem_cons.mp hx with rfl | hx
    · rcases List.mem_cons.mp hd with rfl | hd
      · exact hc
      · rw [List.eq_of_mem_replicate hd]
        rfl
    · exact ih x hx d hd

/-- After a name there is a sign, or a space, or nothing. -/
theorem head_gap (hgap : ∀ c ∈ gap, isGap c = true) (items : Spelling) :
    ∀ c ∈ (gap ++ items.text).head?, isGap c = true := by
  intro c hc
  cases gap with
  | nil =>
    cases items with
    | nil => cases hc
    | cons x items =>
      cases hc
      exact isGap_sign x.1
  | cons d gap =>
    cases hc
    exact hgap _ List.mem_cons_self

/-- The head of a name is neither a sign nor a space. -/
theorem head_name (f : FactoryFlag) (s : List UInt8) : ∀ c ∈ (f.name ++ s).head?, (!isGap c) = true := by
  intro c hc
  rw [List.head?_append_of_ne_nil _ (name_ne_nil f)] at hc
  rw [not_isGap_name f c (List.mem_of_mem_head? hc)]
  rfl

/-- A gap ends before the sign of the next item. -/
theorem gap_inj (hgap : ∀ c ∈ gap, isGap c = true) (hgap' : ∀ c ∈ gap', isGap c = true)
    (h : gap ++ items.text = gap' ++ items'.text) : gap = gap' ∧ items.text = items'.text := by
  have hnotGap : ∀ (gap gap' : List UInt8) (x : FlagItem × List UInt8) (items : Spelling),
      (∀ c ∈ gap, isGap c = true) → gap ≠ gap' ++ text (x :: items) := by
    rintro gap gap' x items hgap rfl
    obtain ⟨c, hc⟩ := List.exists_mem_of_ne_nil _ (name_ne_nil x.1.flag)
    have htrue := hgap c (by simp [text, hc])
    rw [not_isGap_name x.1.flag c hc] at htrue
    cases htrue
  cases items with
  | nil =>
    cases items' with
    | nil =>
      rw [text, List.append_nil, List.append_nil] at h
      exact ⟨h, rfl⟩
    | cons x' items' =>
      rw [text, List.append_nil] at h
      exact absurd h (hnotGap gap gap' x' items' hgap)
  | cons x items =>
    cases items' with
    | nil =>
      rw [text.eq_1, List.append_nil] at h
      exact absurd h.symm (hnotGap gap' gap x items hgap')
    | cons x' items' =>
      have hends : ∀ (gap : List UInt8) (i : FlagItem), (∀ c ∈ gap, isGap c = true) →
          ∀ c ∈ gap ++ [i.sign], (!isGap c) = false := by
        intro gap i hgap c hc
        rcases List.mem_append.mp hc with hc | hc
        · rw [hgap c hc]
          rfl
        · rw [List.mem_singleton.mp hc, isGap_sign]
          rfl
      have hword : (gap ++ [x.1.sign]) ++ (x.1.flag.name ++ (x.2 ++ text items)) =
          (gap' ++ [x'.1.sign]) ++ (x'.1.flag.name ++ (x'.2 ++ text items')) := by
        simpa [text] using h
      obtain ⟨hsigned, htail⟩ := append_inj_of_separated hword (hends gap x.1 hgap) (head_name _ _)
        (hends gap' x'.1 hgap') (head_name _ _)
      obtain ⟨hgaps, hsign⟩ := List.append_inj' hsigned rfl
      refine ⟨hgaps, ?_⟩
      rw [text, text, htail, List.singleton_inj.mp hsign]

theorem text_inj (h : HasGaps items) (h' : HasGaps items') (htext : items.text = items'.text) : items = items' := by
  induction items generalizing items' with
  | nil =>
    cases items' with
    | nil => rfl
    | cons x' items' => cases htext
  | cons x items ih =>
    cases items' with
    | nil => cases htext
    | cons x' items' =>
      obtain ⟨hsign, htail⟩ := List.cons.inj htext
      have hgap := h x List.mem_cons_self
      have hgap' := h' x' List.mem_cons_self
      obtain ⟨hname, hrest⟩ := append_inj_of_separated htail (not_isGap_name x.1.flag) (head_gap hgap items)
        (not_isGap_name x'.1.flag) (head_gap hgap' items')
      obtain ⟨hgaps, hitems⟩ := gap_inj hgap hgap' hrest
      rw [ih (fun y hy => h y (List.mem_cons_of_mem x hy)) (fun y hy => h' y (List.mem_cons_of_mem x' hy)) hitems,
        Prod.ext (item_eq hsign hname) hgaps]

/-- **A text is spelled in one way.** -/
theorem spells_inj {n n' : ℕ} (hspells : Spells n items s) (hspells' : Spells n' items' s) (h : HasGaps items)
    (h' : HasGaps items') : items = items' := by
  have hspaces : ∀ n, ∀ c ∈ List.replicate n space, (c != space) = false := fun n c hc => by
    rw [List.eq_of_mem_replicate hc]
    rfl
  have hhead : ∀ items : Spelling, ∀ c ∈ items.text.head?, (c != space) = true := by
    intro items c hc
    cases items with
    | nil => cases hc
    | cons x items =>
      cases hc
      rcases x with ⟨⟨_ | _, f⟩, gap⟩
      · rfl
      · rfl
  obtain ⟨-, htext⟩ := append_inj_of_separated (hspells.symm.trans hspells') (hspaces n) (hhead items) (hspaces n')
    (hhead items')
  exact text_inj h h' htext

/-- **When flags are read as they should be**: however the text is spelled, its gaps consist of spaces if and only
if each of them is one sign or space, and spaces, and there is nothing after the last item. -/
theorem readsFlags_iff (s : List UInt8) :
    ReadsFlags s ↔ ∀ n items, Spells n items s → (IsListed items ↔ IsChained items) := by
  constructor
  · rintro ⟨hlisted, hother⟩ n items hspells
    constructor
    · intro h
      obtain ⟨n', items', hspells', hchained, -⟩ := stringToFactoryFlags_ok_iff.mp (hlisted n items hspells h)
      rw [spells_inj hspells hspells' (Spelling.IsListed.hasGaps h) hchained.hasGaps]
      exact hchained
    · intro h
      by_contra hnot
      have hok := stringToFactoryFlags_ok_iff.mpr ⟨n, items, hspells, h, rfl⟩
      obtain ⟨what, herror⟩ := hother fun n' items' hspells' hlisted' => by
        rw [spells_inj hspells hspells' h.hasGaps (Spelling.IsListed.hasGaps hlisted')] at hnot
        exact hnot hlisted'
      rw [hok] at herror
      cases herror
  · intro h
    refine ⟨fun n items hspells hlisted => ?_, fun hnot => ⟨_, stringToFactoryFlags_error fun n items hspells hc => ?_⟩⟩
    · exact stringToFactoryFlags_ok_iff.mpr ⟨n, items, hspells, (h n items hspells).mp hlisted, rfl⟩
    · exact hnot n items hspells ((h n items hspells).mpr hc)

/-- `+local-remote`: the sign of the second item ends the first one, and is lost. -/
theorem readsFlags_fails : ¬ ∀ s, ReadsFlags s := by
  intro h
  have hread := (h (ascii "+local-remote".toList)).1 0 [(⟨true, .local⟩, []), (⟨false, .remote⟩, [])]
    (by unfold Spells; decide +kernel) ⟨nofun, by decide +kernel⟩
  exact absurd hread (by decide +kernel)

/-- A lost sign makes no difference where there is another one. -/
example : stringToFactoryFlags (ascii "-all+-unix+local +remote".toList) = .error badFactoryFlags ∧
    stringToFactoryFlags (ascii "-all++local +remote".toList) = .ok 3 := by decide +kernel

end Subordination.Daemon
