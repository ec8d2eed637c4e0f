import Subordination.Core.Outlines
import Mathlib.Tactic.IntervalCases

/-!
# Constants in a text

An expression that is printed and read again should have its constants where they were. A number is printed in
digits and a Boolean as a number; a string is put in quotes, with a backslash before every quote of its own. The
reader finds the end of a first argument by counting brackets, also those in quotes.

## What is proved

* `Any.readString_escaped_iff` — which strings keep their characters.
* `Expression.nests_iff` — which texts the reader takes for one argument.
* `Expression.not_keeps` — an argument whose end the reader misses loses a constant.
* `Expression.readsConstants_iff` — which expressions come back with all their constants.
-/

namespace Subordination.Core.Resources

open Library

/-! ### Strings in quotes -/

namespace Any

/-- What `write_string` puts between the quotes. -/
def escaped (s : List UInt8) : List UInt8 := s.flatMap fun c => if c = 34 then [92, 34] else [c]

/-- Every backslash is followed by a quote. -/
def Escapes : List UInt8 → Prop
  | [] => True
  | c :: s => (c = 92 → s.head? = some 34) ∧ Escapes s

theorem writeString_eq (s : List UInt8) : writeString s = 34 :: (escaped s ++ [34]) := rfl

theorem escaped_cons_quote (s : List UInt8) : escaped (34 :: s) = 92 :: 34 :: escaped s := rfl

theorem escaped_cons {c : UInt8} (h : c ≠ 34) (s : List UInt8) : escaped (c :: s) = c :: escaped s := by
  rw [escaped, List.flatMap_cons, if_neg h]
  rfl

theorem readString_cons {c : UInt8} (h : c ≠ 92) (s : List UInt8) : readString (c :: s) = c :: readString s := by
  cases s with
  | nil => simp [readString, h]
  | cons d s => rw [readString, if_neg h]

theorem readString_escape (c : UInt8) (s : List UInt8) : readString (92 :: c :: s) = c :: readString s := rfl

/-- No quote is lost between the quotes, and none is added. -/
theorem count_readString (s : List UInt8) : (readString s).count 34 = s.count 34 := by
  induction s using readString.induct with
  | case1 => rfl
  | case2 => rfl
  | case3 c h => rw [readString, if_neg h]
  | case4 d s ih =>
    rw [readString_escape, List.count_cons, List.count_cons, List.count_cons, ih]
    rfl
  | case5 c d s h ih => rw [readString_cons h, List.count_cons, List.count_cons, ih]

theorem count_escaped (s : List UInt8) : (escaped s).count 34 = s.count 34 := by
  induction s with
  | nil => rfl
  | cons c s ih =>
    by_cases hc : c = 34
    · rw [hc, escaped_cons_quote, List.count_cons, List.count_cons, List.count_cons, ih]
      rfl
    · rw [escaped_cons hc, List.count_cons, List.count_cons, ih]

/-- A quote is read as itself, whatever is before it. -/
theorem readString_append_quote (s t : List UInt8) :
    readString (s ++ 34 :: t) = readString s ++ 34 :: readString t := by
  induction s using readString.induct with
  | case1 => exact readString_cons (by decide) t
  | case2 => rfl
  | case3 c h =>
    rw [List.singleton_append, readString_cons h, readString_cons (by decide), readString_cons h]
    rfl
  | case4 d s ih => rw [List.cons_append, List.cons_append, readString_escape, readString_escape, ih, List.cons_append]
  | case5 c d s h ih => rw [List.cons_append, readString_cons h, ih, readString_cons h, List.cons_append]

/-- What is read for a backslash: the next character alone, unless it is a quote. -/
theorem readString_escaped_backslash (s : List UInt8) : readString (escaped (92 :: s)) =
    match s with
    | [] => []
    | d :: t => if d = 34 then 92 :: 34 :: readString (escaped t) else d :: readString (escaped t) := by
  rw [escaped_cons (by decide)]
  cases s with
  | nil => rfl
  | cons d t =>
    simp only
    split
    · next hd => rw [hd, escaped_cons_quote, readString_escape, readString_cons (by decide)]
    · next hd => rw [escaped_cons hd, readString_escape]

/-- What is read for any other character: itself. -/
theorem readString_escaped_cons {c : UInt8} (h : c ≠ 92) (s : List UInt8) :
    readString (escaped (c :: s)) = c :: readString (escaped s) := by
  by_cases hc : c = 34
  · rw [hc, escaped_cons_quote, readString_escape]
  · rw [escaped_cons hc, readString_cons h]

/-- What is read is no longer than what was written. -/
theorem length_readString_escaped_le (s : List UInt8) : (readString (escaped s)).length ≤ s.length := by
  induction hn : s.length using Nat.strong_induction_on generalizing s with
  | _ n ih =>
    subst hn
    cases s with
    | nil => exact le_rfl
    | cons c s =>
      by_cases hc : c = 92
      · subst hc
        rw [readString_escaped_backslash]
        cases s with
        | nil => exact Nat.zero_le _
        | cons d t =>
          have ht := ih t.length (by simp only [List.length_cons]; omega) t rfl
          simp only
          split
          · simp only [List.length_cons]
            omega
          · simp only [List.length_cons]
            omega
      · have hs := ih s.length (by simp) s rfl
        rw [readString_escaped_cons hc]
        simp only [List.length_cons]
        omega

/-- **A string keeps its characters** if and only if every backslash in it is followed by a quote. -/
theorem readString_escaped_iff (s : List UInt8) : readString (escaped s) = s ↔ Escapes s := by
  induction hn : s.length using Nat.strong_induction_on generalizing s with
  | _ n ih =>
    subst hn
    cases s with
    | nil => exact iff_of_true rfl trivial
    | cons c s =>
      by_cases hc : c = 92
      · subst hc
        rw [readString_escaped_backslash, Escapes]
        cases s with
        | nil => simp
        | cons d t =>
          have ht := ih t.length (by simp only [List.length_cons]; omega) t rfl
          by_cases hd : d = 34
          · subst hd
            simp [Escapes, ht]
          · -- one character is missing
            have hle := length_readString_escaped_le t
            refine iff_of_false (fun heq => ?_) fun h => hd (by simpa using h.1 rfl)
            have hlength := congrArg List.length heq
            simp only [if_neg hd, List.length_cons] at hlength
            omega
      · have hs := ih s.length (by simp) s rfl
        rw [readString_escaped_cons hc, Escapes, List.cons_inj_right, hs]
        exact (and_iff_right fun heq => absurd heq hc).symm

/-- Reading adds no character. -/
theorem mem_of_mem_readString {s : List UInt8} {c : UInt8} (h : c ∈ readString s) : c ∈ s := by
  induction s using readString.induct with
  | case1 => exact h
  | case2 => cases h
  | case3 d hd => simpa [readString, hd] using h
  | case4 d s ih =>
    rw [readString_escape] at h
    rcases List.mem_cons.1 h with rfl | h
    · simp
    · exact List.mem_cons_of_mem _ (List.mem_cons_of_mem _ (ih h))
  | case5 d e s hd ih =>
    rw [readString_cons hd] at h
    rcases List.mem_cons.1 h with rfl | h
    · exact List.mem_cons_self
    · exact List.mem_cons_of_mem _ (ih h)

theorem zero_notMem_escaped (s : CString) : (0 : UInt8) ∉ escaped s.1 := by
  intro h
  obtain ⟨c, hc, hmem⟩ := List.mem_flatMap.1 h
  split at hmem
  · simp at hmem
  · rw [List.mem_singleton] at hmem
    exact s.2 (hmem ▸ hc)

/-- No NUL byte is read for the end of a string. -/
theorem ne_zero_of_mem (s : CString) : ∀ c ∈ readString (escaped s.1), (decide (c ≠ 0)) = true := by
  intro c hc
  have hne : c ≠ 0 := by
    rintro rfl
    exact zero_notMem_escaped s (mem_of_mem_readString hc)
  simpa using hne

/-- **A text that is not all of a string in quotes, or more than that, is not read as the string**: it has fewer
quotes, or more. -/
theorem ofBytes_ne {s : CString} {q : List UInt8} (h : Alongside (q ++ [34]) (escaped s.1 ++ [34]))
    (hne : q ≠ escaped s.1) : CString.ofBytes (readString q) ≠ s := by
  intro heq
  have hcount : ((readString q).takeWhile (· ≠ 0)).count 34 = s.1.count 34 := congrArg (fun t => t.1.count 34) heq
  rcases h with h | h
  · -- less than all of it
    rcases List.prefix_concat_iff.1 h with h | h
    · exact hne (List.append_cancel_right h)
    · have hle := h.sublist.count_le 34
      have hle' := (List.takeWhile_prefix (fun c : UInt8 => decide (c ≠ 0)) (l := readString q)).sublist.count_le 34
      rw [List.count_append, count_escaped] at hle
      rw [count_readString] at hle'
      simp at hle
      omega
  · -- more
    rcases List.prefix_concat_iff.1 h with h | h
    · exact hne (List.append_cancel_right h).symm
    · obtain ⟨m, rfl⟩ := h
      rw [List.append_assoc, List.singleton_append, readString_append_quote,
        List.takeWhile_append_of_pos (ne_zero_of_mem s), List.count_append, count_readString, count_escaped] at hcount
      simp at hcount

end Any

/-! ### Numbers in digits -/

/-- The digits of a number. -/
def digits (n : ℕ) : List UInt8 := ascii (Nat.toDigits 10 n)

theorem digits_of_lt {n : ℕ} (h : n < 10) : digits n = [UInt8.ofNat (48 + n)] := by
  rw [digits, Nat.toDigits_of_lt_base h]
  interval_cases n <;> rfl

theorem digits_of_le {n : ℕ} (h : 10 ≤ n) : digits n = digits (n / 10) ++ [UInt8.ofNat (48 + n % 10)] := by
  have hlt : n % 10 < 10 := Nat.mod_lt n (by decide)
  have hlast := digits_of_lt hlt
  rw [digits, Nat.toDigits_of_lt_base hlt] at hlast
  rw [digits, Nat.toDigits_of_base_le (by decide) h, ascii, List.map_append]
  exact congrArg (_ ++ ·) hlast

theorem isDigit_digits (n : ℕ) : ∀ c ∈ digits n, isDigit c = true := by
  induction n using Nat.strong_induction_on with
  | _ n ih =>
    have hdigit : ∀ k, k < 10 → isDigit (UInt8.ofNat (48 + k)) = true := by
      intro k hk
      interval_cases k <;> rfl
    by_cases hlt : n < 10
    · rw [digits_of_lt hlt]
      simpa using hdigit n hlt
    · rw [digits_of_le (by omega)]
      intro c hc
      rcases List.mem_append.1 hc with hc | hc
      · exact ih (n / 10) (by omega) c hc
      · rw [List.mem_singleton.1 hc]
        exact hdigit _ (Nat.mod_lt n (by decide))

theorem ofDigits_digits (n : ℕ) : ofDigits (digits n) = n := by
  induction n using Nat.strong_induction_on with
  | _ n ih =>
    by_cases hlt : n < 10
    · rw [digits_of_lt hlt]
      interval_cases n <;> rfl
    · have hn := ih (n / 10) (by omega)
      have hdigit : ((UInt8.ofNat (48 + n % 10)).toNat : ℤ) = 48 + (n % 10 : ℕ) := by
        rw [UInt8.toNat_ofNat', Nat.mod_eq_of_lt (by omega)]
        push_cast
        rfl
      rw [ofDigits] at hn ⊢
      rw [digits_of_le (by omega), List.foldl_append, hn, List.foldl_cons, List.foldl_nil, hdigit]
      omega

/-- A digit is no space, bracket, quote or sign. -/
theorem isPlain_of_isDigit {c : UInt8} (h : isDigit c = true) : Expression.IsPlain c ∧ c ≠ 45 ∧ c ≠ 43 := by
  have hrange : 48 ≤ c.toNat ∧ c.toNat ≤ 57 := by
    simpa [isDigit, UInt8.le_iff_toNat_le] using h
  have hne : ∀ d : UInt8, d.toNat < 48 → c ≠ d := by
    rintro d hd rfl
    omega
  refine ⟨⟨?_, hne 40 (by decide), hne 41 (by decide), hne 34 (by decide)⟩, hne 45 (by decide), hne 43 (by decide)⟩
  have hhigh : ¬ c ≤ 13 := by
    rw [UInt8.le_iff_toNat_le]
    exact fun hle => absurd (hle.trans (show (13 : UInt8).toNat ≤ 13 from le_rfl)) (by omega)
  simp [isSpace, hne 32 (by decide), hhigh]

theorem digits_ne_nil (n : ℕ) : digits n ≠ [] := by
  by_cases hlt : n < 10
  · rw [digits_of_lt hlt]
    exact List.cons_ne_nil _ _
  · rw [digits_of_le (by omega)]
    simp

/-- No resource has a name of digits. -/
theorem stringToResource_digits (n : ℕ) : stringToResource (digits n) = none := by
  rw [stringToResource, List.find?_eq_none]
  intro r hr heq
  have heq : resourceToString r = some (digits n) := by simpa using heq
  have hall : (digits n).all isDigit = true := List.all_eq_true.2 (isDigit_digits n)
  have hcases : r = 0 ∨ r = 1 ∨ r = 2 := by simpa using hr
  rcases hcases with rfl | rfl | rfl
  all_goals
    rw [← Option.some.inj heq] at hall
    revert hall
    decide

/-- A number is taken from its digits, if it is a `long`. -/
theorem stol_digits (n : ℕ) : stol (digits n) =
    if n < 2 ^ 63 then .ok (n, (digits n).length) else .error (.foreign "std::out_of_range") := by
  have hspace : (digits n).dropWhile isSpace = digits n := by
    cases hd : digits n with
    | nil => rfl
    | cons c cs =>
      have hc := (isPlain_of_isDigit (isDigit_digits n c (by simp [hd]))).1.1
      exact List.dropWhile_cons_of_neg (by simp [hc])
  have hsign : (digits n).head? ≠ some 45 ∧ (digits n).head? ≠ some 43 := by
    constructor
    · intro h
      exact (isPlain_of_isDigit (isDigit_digits n _ (List.mem_of_mem_head? h))).2.1 rfl
    · intro h
      exact (isPlain_of_isDigit (isDigit_digits n _ (List.mem_of_mem_head? h))).2.2 rfl
  have htake : (digits n).takeWhile isDigit = digits n :=
    List.takeWhile_eq_self_iff.2 (isDigit_digits n)
  unfold stol
  simp only [hspace, hsign.1, hsign.2, or_self, if_false, htake, digits_ne_nil, ofDigits_digits, Nat.sub_self,
    Nat.zero_add]
  by_cases hn : n < 2 ^ 63
  · rw [if_pos hn, if_neg (by omega)]
  · rw [if_neg hn, if_pos (by omega)]

theorem readWord_digits (n : UInt64) : Expression.readWord (digits n.toNat) =
    if n.toNat < 2 ^ 63 then .ok (.constant (.u64 n)) else .error (.foreign "std::out_of_range") := by
  rw [Expression.readWord, stringToResource_digits, stringToUnsignedInteger, stol_digits]
  by_cases hn : n.toNat < 2 ^ 63
  · rw [if_pos hn, if_pos hn]
    have hneg : ¬ ((n.toNat : ℤ) < 0) := by omega
    simp [bind, Except.bind, hneg]
  · rw [if_neg hn, if_neg hn]
    rfl

/-! ### One constant -/

/-- The value is read back from what is printed for it. -/
def Any.Readable : Any → Prop
  | .u64 n => n.toNat < 2 ^ 63
  | .string (some s) => Any.Escapes s.1
  | _ => False

namespace Expression

variable {e e' : Expression} {s t : List UInt8}

/-- A text that neither begins nor ends with a space. -/
structure HasEdges (s : List UInt8) : Prop where
  /-- There is something in it. -/
  ne_nil : s ≠ []
  /-- It does not begin with a space. -/
  first : ∀ c ∈ s.head?, isSpace c = false
  /-- It does not end with one. -/
  last : ∀ c ∈ s.getLast?, isSpace c = false

theorem HasEdges.trim_eq (h : HasEdges s) : trim isSpace s = s := trim_eq_self h.first h.last

theorem IsArgument.hasEdges (h : IsArgument s) : HasEdges s := ⟨h.ne_nil, h.first, h.last⟩

theorem hasEdges_writeString (s : List UInt8) : HasEdges (Any.writeString s) := by
  rw [Any.writeString_eq]
  refine ⟨List.cons_ne_nil _ _, fun c hc => ?_, fun c hc => ?_⟩
  · cases hc
    rfl
  · rw [← List.cons_append, List.getLast?_concat] at hc
    cases hc
    rfl

/-- A text that is not in brackets or quotes is a word. -/
theorem readText_word {c : UInt8} (htrim : trim isSpace (c :: s) = c :: s) (hbracket : c ≠ 40) (hquote : c ≠ 34)
    (n : ℕ) : readText (n + 1) (c :: s) = readWord (c :: s) := by
  rw [readText, htrim]
  simp [hbracket, hquote]

/-- What is between two quotes is read as a string. -/
theorem readText_quoted (q : List UInt8) (n : ℕ) : readText (n + 1) (34 :: (q ++ [34])) =
    .ok (.constant (.string (some (CString.ofBytes (Any.readString q))))) := by
  have hlast : (34 :: (q ++ [34])).getLast? = some 34 := by
    rw [← List.cons_append, List.getLast?_concat]
  have htrim : trim isSpace (34 :: (q ++ [34])) = 34 :: (q ++ [34]) := by
    refine trim_eq_self (fun c hc => ?_) fun c hc => ?_
    · cases hc
      rfl
    · rw [hlast] at hc
      cases hc
      rfl
  rw [readText, htrim]
  simp [hlast]

theorem plain_digits (n : ℕ) : ∀ c ∈ digits n, IsPlain c := fun c hc => (isPlain_of_isDigit (isDigit_digits n c hc)).1

/-- **A constant is read back** if and only if it is readable. -/
theorem readText_constant_iff {v : Any} (hv : v.print = .ok t) (n : ℕ) :
    readText (n + 1) t = .ok (.constant v) ↔ v.Readable := by
  cases v with
  | boolean b =>
    refine iff_of_false (fun h => ?_) id
    cases hv
    cases b <;> cases h
  | u64 m =>
    obtain rfl : digits m.toNat = t := Except.ok.inj hv
    have hplain := plain_digits m.toNat
    have hread : readText (n + 1) (digits m.toNat) = readWord (digits m.toNat) := by
      cases hd : digits m.toNat with
      | nil => exact absurd hd (digits_ne_nil _)
      | cons c cs =>
        rw [hd] at hplain
        have hc := hplain c List.mem_cons_self
        exact readText_word (isArgument_of_isPlain (List.cons_ne_nil _ _) hplain).trim_eq hc.2.1 hc.2.2.2 n
    rw [hread, readWord_digits]
    split
    · next hlt => exact iff_of_true rfl hlt
    · next hge => exact iff_of_false nofun hge
  | string s =>
    cases s with
    | none => cases hv
    | some s =>
      obtain rfl : Any.writeString s.1 = t := Except.ok.inj hv
      rw [Any.writeString_eq, readText_quoted, Any.Readable, ← Any.readString_escaped_iff]
      have hcut : (Any.readString (Any.escaped s.1)).takeWhile (· ≠ 0) = Any.readString (Any.escaped s.1) :=
        List.takeWhile_eq_self_iff.2 (Any.ne_zero_of_mem s)
      rw [Except.ok.injEq, constant.injEq, Any.string.injEq, Option.some.injEq, Subtype.ext_iff]
      exact iff_of_eq (congrArg (· = s.1) hcut)
  | unknown u =>
    obtain rfl : [] = t := Except.ok.inj hv
    exact iff_of_false nofun id

/-! ### Positions -/

/-- The subtree at a position: for each level, whether to go to the second argument. -/
def subtree : Expression → List Bool → Option Expression
  | e, [] => some e
  | .unary _ arg, false :: p => arg.subtree p
  | .binary _ a _, false :: p => a.subtree p
  | .binary _ _ b, true :: p => b.subtree p
  | _, _ :: _ => none

/-- Every constant of the one tree is in the same position of the other. -/
def Keeps (e e' : Expression) : Prop :=
  ∀ p v, e.subtree p = some (.constant v) → e'.subtree p = some (.constant v)

theorem Keeps.unary {op op' : UnaryOp} {arg arg' : Expression}
    (h : (Expression.unary op arg).Keeps (Expression.unary op' arg')) : arg.Keeps arg' := by
  intro p v hp
  have hp' := h (false :: p) v (by rw [subtree]; exact hp)
  rwa [subtree] at hp'

theorem Keeps.first {op op' : BinaryOp} {a b a' b' : Expression}
    (h : (Expression.binary op a b).Keeps (Expression.binary op' a' b')) : a.Keeps a' := by
  intro p v hp
  have hp' := h (false :: p) v (by rw [subtree]; exact hp)
  rwa [subtree] at hp'

theorem Keeps.second {op op' : BinaryOp} {a b a' b' : Expression}
    (h : (Expression.binary op a b).Keeps (Expression.binary op' a' b')) : b.Keeps b' := by
  intro p v hp
  have hp' := h (true :: p) v (by rw [subtree]; exact hp)
  rwa [subtree] at hp'

theorem Keeps.root {v : Any} (h : (Expression.constant v).Keeps e) : e = .constant v := by
  have hroot := h [] v (by rw [subtree])
  rw [subtree] at hroot
  exact Option.some.inj hroot

/-- The leaves are constants of known types, or names and resources that the reader makes itself. -/
def LeavesReadBack (e : Expression) : Prop :=
  ∀ leaf ∈ e.leaves, (∃ v, leaf = .constant v ∧ v.Known) ∨ leaf.ReadsBack 1

theorem LeavesReadBack.unary {op : UnaryOp} (h : (Expression.unary op e).LeavesReadBack) : e.LeavesReadBack := h

theorem leavesReadBack_constant {v : Any} (hv : v.Known) : (constant v).LeavesReadBack :=
  fun _ hleaf => Or.inl ⟨v, List.mem_singleton.1 hleaf, hv⟩

theorem LeavesReadBack.first {op : BinaryOp} (h : (Expression.binary op e e').LeavesReadBack) : e.LeavesReadBack :=
  fun leaf hleaf => h leaf (List.mem_append_left _ hleaf)

theorem LeavesReadBack.second {op : BinaryOp} (h : (Expression.binary op e e').LeavesReadBack) : e'.LeavesReadBack :=
  fun leaf hleaf => h leaf (List.mem_append_right _ hleaf)

theorem print_unary_ok {op : UnaryOp} {arg : Expression} (h : (unary op arg).print = .ok t) :
    ∃ x, arg.print = .ok x ∧ t = 40 :: (op.humanName ++ [32] ++ x ++ [41]) := by
  obtain ⟨x, hx, h⟩ := except_bind_ok (show _ >>= _ = _ from h)
  refine ⟨x, hx, ?_⟩
  cases h
  simp

theorem print_binary_ok {op : BinaryOp} {a b : Expression} (h : (binary op a b).print = .ok t) :
    ∃ x y, a.print = .ok x ∧ b.print = .ok y ∧ t = 40 :: (op.humanName ++ [32] ++ (x ++ [32] ++ y) ++ [41]) := by
  obtain ⟨x, hx, h⟩ := except_bind_ok (show _ >>= _ = _ from h)
  obtain ⟨y, hy, h⟩ := except_bind_ok h
  refine ⟨x, y, hx, hy, ?_⟩
  cases h
  simp

theorem hasEdges_bracketed (w : List UInt8) : HasEdges (40 :: (w ++ [41])) := by
  refine ⟨List.cons_ne_nil _ _, fun c hc => ?_, fun c hc => ?_⟩
  · cases hc
    rfl
  · rw [← List.cons_append, List.getLast?_concat] at hc
    cases hc
    rfl

/-- What is printed for a constant is a string in quotes, or plain. -/
theorem print_constant_cases {v : Any} (hv : v.Known) (h : v.print = .ok t) :
    (∃ s, v = .string (some s) ∧ t = Any.writeString s.1) ∨ (t ≠ [] ∧ ∀ c ∈ t, IsPlain c) := by
  cases v with
  | boolean b =>
    cases h
    exact Or.inr ⟨List.cons_ne_nil _ _, by cases b <;> exact isPlain_of_all (by decide)⟩
  | u64 n =>
    obtain rfl : digits n.toNat = t := Except.ok.inj h
    exact Or.inr ⟨digits_ne_nil _, plain_digits _⟩
  | string s =>
    cases s with
    | none => cases h
    | some s => exact Or.inl ⟨s, rfl, (Except.ok.inj h).symm⟩
  | unknown u => exact hv.elim

/-- What is printed for a leaf is a string in quotes, or plain. -/
theorem print_leaf_cases (hleaf : (∃ v, e = .constant v ∧ v.Known) ∨ e.ReadsBack 1) (h : e.print = .ok t) :
    (∃ s, e = .constant (.string (some s)) ∧ t = Any.writeString s.1) ∨ (t ≠ [] ∧ ∀ c ∈ t, IsPlain c) := by
  rcases hleaf with ⟨v, rfl, hv⟩ | ⟨s, hprint, hread, hplain⟩
  · rcases print_constant_cases hv h with ⟨s, rfl, ht⟩ | hplain
    · exact Or.inl ⟨s, rfl, ht⟩
    · exact Or.inr hplain
  · obtain rfl : s = t := Except.ok.inj (hprint.symm.trans h)
    refine Or.inr ⟨?_, hplain⟩
    rintro rfl
    cases hread
    cases hprint

theorem hasEdges_print (hleaves : e.LeavesReadBack) (h : e.print = .ok t) : HasEdges t := by
  cases e with
  | unary op arg =>
    obtain ⟨x, -, rfl⟩ := print_unary_ok h
    exact hasEdges_bracketed _
  | binary op a b =>
    obtain ⟨x, y, -, -, rfl⟩ := print_binary_ok h
    exact hasEdges_bracketed _
  | _ =>
    rcases print_leaf_cases (hleaves _ (List.mem_singleton_self _)) h with ⟨s, -, rfl⟩ | ⟨hne, hplain⟩
    · exact hasEdges_writeString _
    · exact (isArgument_of_isPlain hne hplain).hasEdges

/-! ### What is in brackets -/

theorem readText_brackets (w : List UInt8) (n : ℕ) :
    readText (n + 1) (40 :: (w ++ [41])) = readExpression (readText n) w := by
  have hlast : (40 :: (w ++ [41])).getLast? = some 41 := by
    rw [← List.cons_append, List.getLast?_concat]
  rw [readText, (hasEdges_bracketed w).trim_eq]
  simp [hlast]

theorem readText_nil (n : ℕ) : readText n [] = .ok .null := by
  cases n <;> rfl

/-- A name and an argument. -/
theorem readExpression_words_unary {read : List UInt8 → Except Exception Expression} (op : UnaryOp) {w r : List UInt8}
    (hw : trim isSpace w = op.humanName ++ [32] ++ r) (hr : HasEdges r) :
    readExpression read w = .unary op <$> read r := by
  obtain ⟨-, htake, hdrop⟩ := word_eq (isPlain_unary op) (unary_ne_nil op) hr.ne_nil hr.first hr.last
  unfold readExpression
  simp only [hw, htake, hdrop]
  cases op <;> rfl

/-- A name and the text of two arguments. -/
theorem readExpression_words_binary {read : List UInt8 → Except Exception Expression} (op : BinaryOp)
    {w r : List UInt8} (hw : trim isSpace w = op.humanName ++ [32] ++ r) (hr : HasEdges r) :
    readExpression read w = match scan bracket isSpace 0 r with
      | none => .ok .null
      | some (_, []) => .ok .null
      | some (first, second) => (do
        let a ← read first
        let b ← read second
        return .binary op a b) := by
  obtain ⟨-, htake, hdrop⟩ := word_eq (isPlain_binary op) (binary_ne_nil op) hr.ne_nil hr.first hr.last
  have hnot : op.humanName ≠ UnaryOp.not.humanName ∧ op.humanName ≠ UnaryOp.negate.humanName := by
    cases op <;> decide
  unfold readExpression
  simp only [hw, htake, hdrop, if_neg hnot.1, if_neg hnot.2, op.ofName_humanName]
  rcases scan bracket isSpace 0 r with _ | ⟨first, _ | ⟨c, second⟩⟩
  · rfl
  · rfl
  · rfl

/-- A name alone is read as nothing, or as an operation on nothing. -/
theorem readExpression_word {w : List UInt8} (hw : ∀ c ∈ trim isSpace w, isSpace c = false) {n : ℕ}
    (h : readExpression (readText n) w = .ok e) : e = .null ∨ ∃ op, e = .unary op .null := by
  have hdrop : (trim isSpace w).dropWhile (!isSpace ·) = [] :=
    List.dropWhile_eq_nil_iff.2 fun c hc => by simp [hw c hc]
  unfold readExpression at h
  simp only [hdrop, List.dropWhile_nil, readText_nil] at h
  split at h
  · cases h
    exact Or.inr ⟨_, rfl⟩
  split at h
  · cases h
    exact Or.inr ⟨_, rfl⟩
  · cases h
    exact Or.inl rfl

/-! ### Texts that are cut off in the wrong place -/

/-- The scan of an operation is the scan of what is in it, one level deeper. -/
theorem runs_operation_iff {name x : List UInt8} {depth : ℤ} (hname : ∀ c ∈ name, IsPlain c) (hdepth : 0 ≤ depth) :
    Runs bracket isSpace depth (40 :: (name ++ [32] ++ x ++ [41])) depth ↔
      Runs bracket isSpace (depth + 1) x (depth + 1) := by
  have hopen : Runs bracket isSpace depth [40] (depth + 1) := ⟨by simp [isSpace], by simp [bracket]; omega, rfl⟩
  have hclose : Runs bracket isSpace (depth + 1) [41] depth :=
    ⟨by omega, by simp [bracket]; omega, by simp [Runs, bracket]⟩
  have hplain : Runs bracket isSpace (depth + 1) (name ++ [32]) (depth + 1) := by
    refine Runs.plain (by omega) (fun c hc => ?_) (Or.inl (by omega))
    rcases List.mem_append.1 hc with hc | hc
    · exact bracket_of_isPlain (hname c hc)
    · rw [List.mem_singleton.1 hc]
      rfl
  have heq : 40 :: (name ++ [32] ++ x ++ [41]) = [40] ++ ((name ++ [32]) ++ (x ++ [41])) := by simp
  rw [heq]
  constructor
  · intro h
    obtain ⟨d₁, h₁, h⟩ := runs_append_iff.1 h
    obtain rfl := h₁.eq_add.trans hopen.eq_add.symm
    obtain ⟨d₂, h₂, h⟩ := runs_append_iff.1 h
    obtain rfl := h₂.eq_add.trans hplain.eq_add.symm
    obtain ⟨d₃, h₃, h⟩ := runs_append_iff.1 h
    have hend := h.eq_add
    simp [bracket] at hend
    obtain rfl : d₃ = depth + 1 := by omega
    exact h₃
  · exact fun h => hopen.append (hplain.append (h.append hclose))

/-- Of two arguments that are not scanned together, the first is not scanned, or the second is not. -/
theorem runs_arguments {x y : List UInt8} {depth : ℤ} (hdepth : 0 < depth) (hx : Runs bracket isSpace depth x depth)
    (hy : Runs bracket isSpace depth y depth) : Runs bracket isSpace depth (x ++ [32] ++ y) depth :=
  (hx.append (Runs.plain hdepth.le (fun c hc => by rw [List.mem_singleton.1 hc]; rfl) (Or.inl hdepth.ne'))).append hy

/-- What is scanned on its own is scanned inside of brackets. -/
theorem runs_one_of_runs_zero {x : List UInt8} (h : Runs bracket isSpace 0 x 0) : Runs bracket isSpace 1 x 1 := by
  simpa using h.shift le_rfl zero_le_one

/-- A tree whose text is not scanned has a constant. -/
theorem exists_constant (hleaves : e.LeavesReadBack) (hprint : e.print = .ok t)
    (hopen : ¬ Runs bracket isSpace 0 t 0) : ∃ p v, e.subtree p = some (.constant v) := by
  induction e generalizing t with
  | unary op arg ih =>
    obtain ⟨x, hx, rfl⟩ := print_unary_ok hprint
    rw [runs_operation_iff (isPlain_unary op) le_rfl] at hopen
    obtain ⟨p, v, hp⟩ := ih hleaves hx fun h => hopen (runs_one_of_runs_zero h)
    exact ⟨false :: p, v, hp⟩
  | binary op a b iha ihb =>
    obtain ⟨x, y, hx, hy, rfl⟩ := print_binary_ok hprint
    rw [runs_operation_iff (isPlain_binary op) le_rfl] at hopen
    by_cases hrunsx : Runs bracket isSpace 0 x 0
    · obtain ⟨p, v, hp⟩ := ihb (fun leaf hleaf => hleaves leaf (List.mem_append_right _ hleaf)) hy fun h =>
        hopen (runs_arguments zero_lt_one (runs_one_of_runs_zero hrunsx) (runs_one_of_runs_zero h))
      exact ⟨true :: p, v, hp⟩
    · obtain ⟨p, v, hp⟩ := iha (fun leaf hleaf => hleaves leaf (List.mem_append_left _ hleaf)) hx hrunsx
      exact ⟨false :: p, v, hp⟩
  | constant v => exact ⟨[], v, rfl⟩
  | _ =>
    rcases print_leaf_cases (hleaves _ (List.mem_singleton_self _)) hprint with ⟨s, heq, -⟩ | ⟨hne, hplain⟩
    · cases heq
    · exact absurd (isArgument_of_isPlain hne hplain).runs hopen

/-- What is left of an operation when it is cut off, or goes on, is left of what is in it. -/
theorem alongside_trim {w u : List UInt8} (h : Alongside (40 :: (w ++ [41])) (40 :: (u ++ [41])))
    (hne : 40 :: (w ++ [41]) ≠ 40 :: (u ++ [41])) (hu : HasEdges u) :
    Alongside (trim isSpace w) u ∧ trim isSpace w ≠ u := by
  have hcons : Alongside (w ++ [41]) (u ++ [41]) :=
    alongside_append_iff.1 (show Alongside ([40] ++ (w ++ [41])) ([40] ++ (u ++ [41])) from h)
  have hwu : w ≠ u := by
    rintro rfl
    exact hne rfl
  have halong : Alongside w u := by
    have hleft := hcons.of_prefix (List.prefix_append w [41])
    exact (hleft.symm.of_prefix (List.prefix_append u [41])).symm
  have hfirst : ∀ c ∈ w.head?, isSpace c = false := by
    intro c hc
    have hwne : w ≠ [] := by
      rintro rfl
      cases hc
    rw [halong.head_eq hwne hu.ne_nil] at hc
    exact hu.first c hc
  obtain ⟨spaces, hw, hspaces⟩ := trim_prefix hfirst
  refine ⟨halong.of_prefix ⟨spaces, hw.symm⟩, fun htrim => ?_⟩
  rw [htrim] at hw
  subst hw
  have hspaces' : spaces ≠ [] := by
    rintro rfl
    exact hwu (List.append_nil u)
  -- after the same text there is a bracket in the one and a space in the other
  rw [List.append_assoc, alongside_append_iff] at hcons
  have hhead := hcons.head_eq (by simp) (by simp)
  cases spaces with
  | nil => exact hspaces' rfl
  | cons c cs =>
    have hc : c = 41 := by simpa using hhead
    have hspace := hspaces c List.mem_cons_self
    rw [hc] at hspace
    cases hspace

/-- A name is cut off, or is followed by a part of what follows it. -/
theorem word_or_argument {name x w : List UInt8} (h : Alongside w (name ++ [32] ++ x))
    (hlast : ∀ c ∈ w.getLast?, isSpace c = false) :
    w <+: name ∨ ∃ r, w = name ++ [32] ++ r ∧ r ≠ [] ∧ Alongside r x := by
  rw [List.append_assoc] at h
  rcases (h.symm.of_prefix (List.prefix_append name _)).symm with hpre | ⟨r, rfl⟩
  · exact Or.inl hpre
  · rw [alongside_append_iff] at h
    cases r with
    | nil => exact Or.inl (by simp)
    | cons c r =>
      have hc : c = 32 := by simpa using h.head_eq (by simp) (by simp)
      subst hc
      refine Or.inr ⟨r, by simp, ?_, alongside_append_iff.1 (show Alongside ([32] ++ r) ([32] ++ x) from h)⟩
      rintro rfl
      have hspace := hlast 32 (by simp)
      cases hspace

/-- No constant is below the root of the tree. -/
def Shallow (e : Expression) : Prop := ∀ b p v, e.subtree (b :: p) ≠ some (.constant v)

theorem shallow_unary_null (op : UnaryOp) : Shallow (.unary op .null) := by
  rintro (_ | _) (_ | ⟨b, p⟩) v <;> simp [subtree]

theorem IsWord.shallow (h : e.IsWord) : e.Shallow := by
  cases h <;> exact fun b p v => by simp [subtree]

/-- What is read from a text without spaces at its ends: nothing, what is in brackets, a string in quotes, or a
word. -/
theorem readText_cases {n : ℕ} (htrim : trim isSpace s = s) (h : readText n s = .ok e) :
    e = .null ∨ (∃ w m, n = m + 1 ∧ s = 40 :: (w ++ [41]) ∧ readExpression (readText m) w = .ok e) ∨
      (∃ q, s = 34 :: (q ++ [34]) ∧ e = .constant (.string (some (CString.ofBytes (Any.readString q))))) ∨
      readWord s = .ok e := by
  cases n with
  | zero =>
    cases h
    exact Or.inl rfl
  | succ n =>
    rw [readText, htrim] at h
    cases s with
    | nil =>
      cases h
      exact Or.inl rfl
    | cons c s =>
      simp only at h
      split at h
      · next hbracket =>
        obtain ⟨rfl, hlast⟩ := hbracket
        obtain ⟨w, hw⟩ := List.getLast?_eq_some_iff.1 hlast
        cases w with
        | nil => cases hw
        | cons d w =>
          rw [List.cons_append, List.cons.injEq] at hw
          obtain ⟨-, rfl⟩ := hw
          rw [List.dropLast_concat] at h
          exact Or.inr (Or.inl ⟨w, n, rfl, rfl, h⟩)
      split at h
      · next hquote =>
        obtain ⟨rfl, hlast⟩ := hquote
        split at h
        · cases h
        · next hne =>
          obtain ⟨w, hw⟩ := List.getLast?_eq_some_iff.1 hlast
          cases w with
          | nil =>
            rw [List.nil_append, List.cons.injEq] at hw
            exact absurd hw.2 hne
          | cons d q =>
            rw [List.cons_append, List.cons.injEq] at hw
            obtain ⟨-, rfl⟩ := hw
            rw [List.dropLast_concat] at h
            exact Or.inr (Or.inr (Or.inl ⟨q, rfl, (Except.ok.inj h).symm⟩))
      · exact Or.inr (Or.inr (Or.inr h))

/-- **A string that is cut off in the wrong place is lost.** -/
theorem string_ne {text : List UInt8} {s : CString} (halong : Alongside text (Any.writeString s.1))
    (hne : text ≠ Any.writeString s.1) (htrim : trim isSpace text = text) {n : ℕ}
    (hread : readText n text = .ok e') : e' ≠ .constant (.string (some s)) := by
  rintro rfl
  rw [Any.writeString_eq] at halong hne
  rcases readText_cases htrim hread with heq | ⟨w, m, -, rfl, -⟩ | ⟨q, rfl, heq⟩ | hword
  · cases heq
  · have hhead := halong.head_eq (List.cons_ne_nil _ _) (List.cons_ne_nil _ _)
    cases hhead
  · have hquotes : Alongside (q ++ [34]) (Any.escaped s.1 ++ [34]) :=
      alongside_append_iff.1 (show Alongside ([34] ++ (q ++ [34])) ([34] ++ (Any.escaped s.1 ++ [34])) from halong)
    refine Any.ofBytes_ne hquotes ?_ (by simpa using heq.symm)
    rintro rfl
    exact hne rfl
  · exact (isWord_of_readWord hword).ne_string _ rfl

theorem HasEdges.append {x y : List UInt8} (hx : HasEdges x) (hy : HasEdges y) : HasEdges (x ++ [32] ++ y) := by
  refine ⟨by simp, fun c hc => ?_, fun c hc => ?_⟩
  · rw [List.append_assoc, List.head?_append_of_ne_nil _ hx.ne_nil] at hc
    exact hx.first c hc
  · rw [List.getLast?_append_of_ne_nil _ hy.ne_nil] at hc
    exact hy.last c hc

theorem hasEdges_words {name x : List UInt8} (hname : ∀ c ∈ name, IsPlain c) (hne : name ≠ []) (hx : HasEdges x) :
    HasEdges (name ++ [32] ++ x) :=
  (isArgument_of_isPlain hne hname).hasEdges.append hx

/-- An operation whose text is cut off, or goes on, is read as a leaf, as an operation on nothing, or from its name
and a part of what follows the name, or more. -/
theorem operation_cases {text name x : List UInt8} (hname : ∀ c ∈ name, IsPlain c) (hne' : name ≠ []) (hx : HasEdges x)
    (halong : Alongside text (40 :: (name ++ [32] ++ x ++ [41]))) (hne : text ≠ 40 :: (name ++ [32] ++ x ++ [41]))
    (htrim : trim isSpace text = text) {n : ℕ} (hread : readText n text = .ok e') :
    e'.Shallow ∨ ∃ w m r, readExpression (readText m) w = .ok e' ∧ trim isSpace w = name ++ [32] ++ r ∧ HasEdges r ∧
      Alongside r x ∧ r ≠ x := by
  rcases readText_cases htrim hread with rfl | ⟨w, m, -, rfl, h⟩ | ⟨q, -, rfl⟩ | hword
  · exact Or.inl fun b p v => by simp [subtree]
  · obtain ⟨hwords, hwordsne⟩ := alongside_trim halong hne (hasEdges_words hname hne' hx)
    rcases word_or_argument hwords (getLast_trim w) with hpre | ⟨r, hr, hrne, hrx⟩
    · rcases readExpression_word (fun c hc => (hname c (hpre.subset hc)).1) h with rfl | ⟨op, rfl⟩
      · exact Or.inl fun b p v => by simp [subtree]
      · exact Or.inl (shallow_unary_null op)
    · refine Or.inr ⟨w, m, r, h, hr, ⟨hrne, fun c hc => ?_, fun c hc => ?_⟩, hrx, ?_⟩
      · rw [hrx.head_eq hrne hx.ne_nil] at hc
        exact hx.first c hc
      · refine getLast_trim w c ?_
        rw [hr, List.getLast?_append_of_ne_nil _ hrne]
        exact hc
      · rintro rfl
        exact hwordsne hr
  · exact Or.inl fun b p v => by simp [subtree]
  · exact Or.inl (isWord_of_readWord hword).shallow

/-- The first argument of an operation ends where it was printed to, or the reader takes something else for it. -/
theorem scan_arguments {r x y first second : List UInt8} (hr : HasEdges r) (hy : HasEdges y)
    (halong : Alongside r (x ++ [32] ++ y)) (hscan : scan bracket isSpace 0 r = some (first, second))
    (hsecond : second ≠ []) :
    Runs bracket isSpace 0 first 0 ∧ Alongside first x ∧ trim isSpace first = first ∧
      (Runs bracket isSpace 0 x 0 → first = x ∧ ∃ y', second = 32 :: y' ∧ r = x ++ [32] ++ y' ∧ HasEdges y') := by
  obtain ⟨rfl, hruns⟩ := scan_some hscan
  obtain ⟨hruns, -⟩ := hruns hsecond
  have halongx : Alongside (first ++ second) x := by
    rw [List.append_assoc] at halong
    exact (halong.symm.of_prefix (List.prefix_append x _)).symm
  have hspace : ∀ c, isSpace c = true → bracket c = 0 := by
    intro c hc
    have hne : c ≠ 40 ∧ c ≠ 41 := by
      constructor <;> rintro rfl <;> cases hc
    simp [bracket, hne.1, hne.2]
  refine ⟨hruns, halongx.of_prefix (List.prefix_append first second),
    trim_eq_self (fun c hc => ?_) (hruns.getLast hspace),
    fun hx => ?_⟩
  · refine hr.first c ?_
    rw [List.head?_append_of_ne_nil]
    · exact hc
    · rintro rfl
      cases hc
  · rcases halongx with ⟨z, hz⟩ | ⟨z, hz⟩
    · -- the text ends inside of the argument
      rw [← hz] at hx
      obtain ⟨d, hd, -⟩ := runs_append_iff.1 hx
      rw [scan_of_runs hd] at hscan
      exact absurd (congrArg Prod.snd (Option.some.inj hscan)).symm hsecond
    · cases z with
      | nil =>
        rw [List.append_nil] at hz
        rw [← hz, scan_of_runs hx] at hscan
        exact absurd (congrArg Prod.snd (Option.some.inj hscan)).symm hsecond
      | cons c y' =>
        rw [← hz] at hscan halong hr
        rw [List.append_assoc, alongside_append_iff] at halong
        obtain rfl : c = 32 := by simpa using halong.head_eq (List.cons_ne_nil _ _) (by simp)
        rw [scan_append hx rfl] at hscan
        cases hscan
        have hne : y' ≠ [] := by
          rintro rfl
          have hlast := hr.last 32 (by simp)
          cases hlast
        have hyy : Alongside y' y := alongside_append_iff.1 (show Alongside ([32] ++ y') ([32] ++ y) from halong)
        refine ⟨rfl, y', rfl, by simp, hne, fun c hc => ?_, fun c hc => hr.last c ?_⟩
        · rw [hyy.head_eq hne hy.ne_nil] at hc
          exact hy.first c hc
        · rw [List.getLast?_append_of_ne_nil _ (List.cons_ne_nil _ _), List.getLast?_cons_of_ne_nil hne]
          exact hc

/-- A tree without operations has no constant where an operation has one. -/
theorem not_keeps_shallow (hroot : ∀ v, e ≠ .constant v) (hleaves : e.LeavesReadBack) (hprint : e.print = .ok t)
    (hopen : ¬ Runs bracket isSpace 0 t 0) (he' : e'.Shallow) : ¬ e.Keeps e' := by
  intro hkeeps
  obtain ⟨p, v, hp⟩ := exists_constant hleaves hprint hopen
  cases p with
  | nil =>
    rw [subtree] at hp
    exact hroot v (Option.some.inj hp)
  | cons b p => exact he' b p v (hkeeps _ _ hp)

/-- **An argument that is cut off in the wrong place loses a constant.** -/
theorem not_keeps {text : List UInt8} (hleaves : e.LeavesReadBack) (hprint : e.print = .ok t)
    (hopen : ¬ Runs bracket isSpace 0 t 0) (halong : Alongside text t) (hne : text ≠ t)
    (htrim : trim isSpace text = text) {n : ℕ} (hread : readText n text = .ok e') : ¬ e.Keeps e' := by
  induction e generalizing t text n e' with
  | unary op arg ih =>
    obtain ⟨x, hx, rfl⟩ := print_unary_ok hprint
    have hopenx : ¬ Runs bracket isSpace 0 x 0 := fun h =>
      hopen ((runs_operation_iff (isPlain_unary op) le_rfl).2 (runs_one_of_runs_zero h))
    rcases operation_cases (isPlain_unary op) (unary_ne_nil op) (hasEdges_print hleaves.unary hx) halong hne htrim
      hread with hshallow | ⟨w, m, r, h, hw, hr, hrx, hrne⟩
    · exact not_keeps_shallow (fun v heq => by cases heq) hleaves hprint hopen hshallow
    · rw [readExpression_words_unary op hw hr] at h
      obtain ⟨arg', harg, rfl⟩ := except_map_ok h
      exact fun hkeeps => ih hleaves.unary hx hopenx hrx hrne hr.trim_eq harg hkeeps.unary
  | binary op a b iha ihb =>
    obtain ⟨x, y, hx, hy, rfl⟩ := print_binary_ok hprint
    have hedgesx := hasEdges_print hleaves.first hx
    have hedgesy := hasEdges_print hleaves.second hy
    have hshallow : e'.Shallow → ¬ (binary op a b).Keeps e' :=
      not_keeps_shallow (fun v heq => by cases heq) hleaves hprint hopen
    rcases operation_cases (isPlain_binary op) (binary_ne_nil op) (hedgesx.append hedgesy) halong hne htrim hread with
      hleaf | ⟨w, m, r, h, hw, hr, hrx, hrne⟩
    · exact hshallow hleaf
    · rw [readExpression_words_binary op hw hr] at h
      rcases hscan : scan bracket isSpace 0 r with _ | ⟨first, _ | ⟨c, second⟩⟩
      · rw [hscan] at h
        cases h
        exact hshallow fun b p v => by simp [subtree]
      · rw [hscan] at h
        cases h
        exact hshallow fun b p v => by simp [subtree]
      · rw [hscan] at h
        obtain ⟨hrunsf, halongf, htrimf, hexact⟩ := scan_arguments hr hedgesy hrx hscan (List.cons_ne_nil _ _)
        obtain ⟨a', ha, h⟩ := except_bind_ok h
        obtain ⟨b', hb, h⟩ := except_bind_ok h
        cases h
        intro hkeeps
        by_cases hrunsx : Runs bracket isSpace 0 x 0
        · -- the first argument is read, and the second is not what was printed
          obtain ⟨rfl, y', hy', rfl, hedges⟩ := hexact hrunsx
          rw [hy', readText_cons_space] at hb
          have hopeny : ¬ Runs bracket isSpace 0 y 0 := fun hrunsy =>
            hopen ((runs_operation_iff (isPlain_binary op) le_rfl).2
              (runs_arguments zero_lt_one (runs_one_of_runs_zero hrunsx) (runs_one_of_runs_zero hrunsy)))
          refine ihb hleaves.second hy hopeny (alongside_append_iff.1 hrx) ?_ hedges.trim_eq hb hkeeps.second
          rintro rfl
          exact hrne rfl
        · refine iha hleaves.first hx hrunsx halongf ?_ htrimf ha hkeeps.first
          rintro rfl
          exact hrunsx hrunsf
  | constant v =>
    intro hkeeps
    rcases print_leaf_cases (hleaves _ (List.mem_singleton_self _)) hprint with ⟨s, heq, rfl⟩ | ⟨hne, hplain⟩
    · cases heq
      exact string_ne halong hne htrim hread hkeeps.root
    · exact absurd (isArgument_of_isPlain hne hplain).runs hopen
  | _ =>
    rcases print_leaf_cases (hleaves _ (List.mem_singleton_self _)) hprint with ⟨s, heq, -⟩ | ⟨hne, hplain⟩
    · cases heq
    · exact absurd (isArgument_of_isPlain hne hplain).runs hopen

/-! ### Expressions that come back -/

/-- The brackets in every string are opened and closed in the string, or the string closes no more of the brackets
around it than it opens again; and where there are none around it, its spaces are in brackets of its own. -/
def Nests : ℤ → Expression → Prop
  | depth, .constant (.string (some s)) => Runs bracket isSpace depth s.1 depth
  | depth, .unary _ arg => arg.Nests (depth + 1)
  | depth, .binary _ a b => a.Nests (depth + 1) ∧ b.Nests (depth + 1)
  | _, _ => True

/-- Every constant is read back on its own, and the reader finds the end of every first argument. -/
def Restorable : Expression → Prop
  | .constant v => v.Readable
  | .unary _ arg => arg.Restorable
  | .binary _ a b => a.Restorable ∧ b.Restorable ∧ a.Nests 0
  | _ => True

/-- What is printed for the expression is read as an expression that has all its constants, by every reader that is
deep enough. -/
def ReadsConstants (e : Expression) : Prop :=
  ∃ t, e.print = .ok t ∧ ∀ n, e.height ≤ n → ∃ e', readText n t = .ok e' ∧ e.Keeps e'

/-- Quotes and backslashes are no brackets and no spaces. -/
theorem runs_escaped_iff {depth depth' : ℤ} : Runs bracket isSpace depth (Any.escaped s) depth' ↔
    Runs bracket isSpace depth s depth' := by
  induction s generalizing depth with
  | nil => exact Iff.rfl
  | cons c s ih =>
    by_cases hc : c = 34
    · subst hc
      rw [Any.escaped_cons_quote]
      simp only [Runs, show bracket 92 = 0 from rfl, show bracket 34 = 0 from rfl, show isSpace 92 = false from rfl,
        show isSpace 34 = false from rfl, add_zero, ih]
      simp
    · rw [Any.escaped_cons hc]
      exact and_congr_right fun _ => and_congr_right fun _ => ih

theorem runs_writeString_iff {depth : ℤ} (hdepth : 0 ≤ depth) :
    Runs bracket isSpace depth (Any.writeString s) depth ↔ Runs bracket isSpace depth s depth := by
  have hquote : Runs bracket isSpace depth [34] depth :=
    Runs.plain hdepth (fun c hc => by rw [List.mem_singleton.1 hc]; rfl)
      (Or.inr fun c hc => by rw [List.mem_singleton.1 hc]; rfl)
  have heq : Any.writeString s = [34] ++ (Any.escaped s ++ [34]) := rfl
  rw [heq, ← runs_escaped_iff (s := s)]
  constructor
  · intro h
    obtain ⟨d₁, h₁, h⟩ := runs_append_iff.1 h
    obtain rfl := h₁.eq_add.trans hquote.eq_add.symm
    obtain ⟨d₂, h₂, h⟩ := runs_append_iff.1 h
    have hend := h.eq_add
    simp [bracket] at hend
    rwa [← hend] at h₂
  · exact fun h => hquote.append (h.append hquote)

theorem runs_of_isPlain {depth : ℤ} (hdepth : 0 ≤ depth) (h : ∀ c ∈ s, IsPlain c) :
    Runs bracket isSpace depth s depth :=
  Runs.plain hdepth (fun c hc => bracket_of_isPlain (h c hc)) (Or.inr fun c hc => (h c hc).1)

/-- **The reader takes the text for one argument** if and only if the strings in it nest. -/
theorem runs_print_iff (hleaves : e.LeavesReadBack) (hprint : e.print = .ok t) (he : e.Restorable) {depth : ℤ}
    (hdepth : 0 ≤ depth) : Runs bracket isSpace depth t depth ↔ e.Nests depth := by
  induction e generalizing t depth with
  | unary op arg ih =>
    obtain ⟨x, hx, rfl⟩ := print_unary_ok hprint
    rw [runs_operation_iff (isPlain_unary op) hdepth, Nests]
    exact ih hleaves.unary hx he (by omega)
  | binary op a b iha ihb =>
    obtain ⟨x, y, hx, hy, rfl⟩ := print_binary_ok hprint
    obtain ⟨ha, hb, hnests⟩ := he
    have hzero := (iha hleaves.first hx ha le_rfl).2 hnests
    have hrunsx : Runs bracket isSpace (depth + 1) x (depth + 1) := by
      simpa using hzero.shift le_rfl (show 0 ≤ depth + 1 by omega)
    rw [runs_operation_iff (isPlain_binary op) hdepth, Nests, ← iha hleaves.first hx ha (by omega),
      ← ihb hleaves.second hy hb (by omega)]
    constructor
    · intro h
      obtain ⟨d₁, h₁, hrunsy⟩ := runs_append_iff.1 h
      have hspace : Runs bracket isSpace (depth + 1) (x ++ [32]) (depth + 1) :=
        hrunsx.append (Runs.plain (by omega) (fun c hc => by rw [List.mem_singleton.1 hc]; rfl) (Or.inl (by omega)))
      obtain rfl := h₁.eq_add.trans hspace.eq_add.symm
      exact ⟨hrunsx, hrunsy⟩
    · exact fun h => runs_arguments (by omega) h.1 h.2
  | constant v =>
    rcases print_leaf_cases (hleaves _ (List.mem_singleton_self _)) hprint with ⟨s, heq, rfl⟩ | ⟨hne, hplain⟩
    · cases heq
      rw [Nests]
      exact runs_writeString_iff hdepth
    · refine iff_of_true (runs_of_isPlain hdepth hplain) ?_
      rcases v with b | n | (_ | s) | u
      · simp [Nests]
      · simp [Nests]
      · simp [Nests]
      · obtain rfl : Any.writeString s.1 = t := Except.ok.inj hprint
        exact absurd rfl (hplain 34 List.mem_cons_self).2.2.2
      · simp [Nests]
  | _ =>
    rcases print_leaf_cases (hleaves _ (List.mem_singleton_self _)) hprint with ⟨s, heq, -⟩ | ⟨hne, hplain⟩
    · cases heq
    · exact iff_of_true (runs_of_isPlain hdepth hplain) (by simp [Nests])

/-- The text of an operation with one argument is read as one. -/
theorem readText_unary (op : UnaryOp) {x : List UInt8} (hx : HasEdges x) (n : ℕ) :
    readText (n + 1) (40 :: (op.humanName ++ [32] ++ x ++ [41])) = .unary op <$> readText n x := by
  rw [readText_brackets]
  exact readExpression_words_unary op (hasEdges_words (isPlain_unary op) (unary_ne_nil op) hx).trim_eq hx

/-- The text of an operation with two arguments is read as the scan divides it. -/
theorem readText_binary (op : BinaryOp) {x y : List UInt8} (hx : HasEdges x) (hy : HasEdges y) (n : ℕ) :
    readText (n + 1) (40 :: (op.humanName ++ [32] ++ (x ++ [32] ++ y) ++ [41])) =
      match scan bracket isSpace 0 (x ++ [32] ++ y) with
      | none => .ok .null
      | some (_, []) => .ok .null
      | some (first, second) => (do
        let a ← readText n first
        let b ← readText n second
        return .binary op a b) := by
  rw [readText_brackets]
  exact readExpression_words_binary op
    (hasEdges_words (isPlain_binary op) (binary_ne_nil op) (hx.append hy)).trim_eq (hx.append hy)

theorem scan_first {x : List UInt8} (h : Runs bracket isSpace 0 x 0) (y : List UInt8) :
    scan bracket isSpace 0 (x ++ [32] ++ y) = some (x, 32 :: y) := by
  rw [List.append_assoc]
  exact scan_append h rfl y

/-- A restorable expression is printed, and read back by every reader that is deep enough. -/
theorem reads_of_restorable (hleaves : e.LeavesReadBack) (he : e.Restorable) :
    ∃ t, e.print = .ok t ∧ ∀ n, e.height ≤ n → readText n t = .ok e := by
  induction e with
  | unary op arg ih =>
    obtain ⟨x, hx, hread⟩ := ih hleaves.unary he
    have hedges := hasEdges_print hleaves.unary hx
    refine ⟨40 :: (op.humanName ++ [32] ++ x ++ [41]), by rw [print, hx]; simp [bind, Except.bind]; rfl, fun n hn => ?_⟩
    cases n with
    | zero => simp [height] at hn
    | succ n =>
      rw [readText_unary op hedges, hread n (by simpa [height] using hn)]
      rfl
  | binary op a b iha ihb =>
    obtain ⟨ha, hb, hnests⟩ := he
    obtain ⟨x, hx, hread⟩ := iha hleaves.first ha
    obtain ⟨y, hy, hread'⟩ := ihb hleaves.second hb
    have hedgesx := hasEdges_print hleaves.first hx
    have hedgesy := hasEdges_print hleaves.second hy
    have hruns := (runs_print_iff hleaves.first hx ha le_rfl).2 hnests
    have hprint : print (.binary op a b) = .ok (40 :: (op.humanName ++ [32] ++ (x ++ [32] ++ y) ++ [41])) := by
      rw [print, hx, hy]
      simp [bind, Except.bind]
      rfl
    refine ⟨_, hprint, fun n hn => ?_⟩
    cases n with
    | zero => simp [height] at hn
    | succ n =>
      have hheight : a.height ≤ n ∧ b.height ≤ n := by simpa [height] using hn
      rw [readText_binary op hedgesx hedgesy, scan_first hruns]
      simp only [hread n hheight.1, readText_cons_space, hread' n hheight.2]
      rfl
  | constant v =>
    have hprint : ∃ t, v.print = .ok t := by
      rcases v with b | n | (_ | s) | u
      · exact ⟨_, rfl⟩
      · exact ⟨_, rfl⟩
      · exact he.elim
      · exact ⟨_, rfl⟩
      · exact ⟨_, rfl⟩
    obtain ⟨t, ht⟩ := hprint
    refine ⟨t, ht, fun n hn => ?_⟩
    cases n with
    | zero => simp [height] at hn
    | succ n => exact (readText_constant_iff ht n).2 he
  | _ =>
    rcases hleaves _ (List.mem_singleton_self _) with ⟨v, heq, -⟩ | hback
    · cases heq
    · obtain ⟨s, hprint, -, hread⟩ := hback.isArgument
      refine ⟨s, hprint, fun n hn => ?_⟩
      cases n with
      | zero => simp [height] at hn
      | succ n => exact hread n

/-- The first argument of an operation that comes back with its constants is where it was printed to: otherwise it
is not what was printed, and one of its constants is lost. -/
theorem runs_of_keeps {op : BinaryOp} {a b : Expression} {x y : List UInt8} (hleaves : a.LeavesReadBack)
    (hx : a.print = .ok x) (hy : HasEdges y) {n : ℕ}
    (hread : readText (n + 1) (40 :: (op.humanName ++ [32] ++ (x ++ [32] ++ y) ++ [41])) = .ok e')
    (hkeeps : (binary op a b).Keeps e') : Runs bracket isSpace 0 x 0 := by
  by_contra hruns
  have hedges := hasEdges_print hleaves hx
  obtain ⟨p, v, hp⟩ := exists_constant hleaves hx hruns
  have hnull : e' ≠ .null := by
    rintro rfl
    have hp' := hkeeps (false :: p) v (by rw [subtree]; exact hp)
    simp [subtree] at hp'
  rw [readText_binary op hedges hy] at hread
  rcases hscan : scan bracket isSpace 0 (x ++ [32] ++ y) with _ | ⟨first, _ | ⟨c, second⟩⟩
  · rw [hscan] at hread
    exact hnull (Except.ok.inj hread).symm
  · rw [hscan] at hread
    exact hnull (Except.ok.inj hread).symm
  · rw [hscan] at hread
    obtain ⟨hrunsf, halongf, htrimf, -⟩ :=
      scan_arguments (hedges.append hy) hy (Or.inl (List.prefix_refl _)) hscan (List.cons_ne_nil _ _)
    obtain ⟨a', ha, hread⟩ := except_bind_ok hread
    obtain ⟨b', -, hread⟩ := except_bind_ok hread
    cases hread
    refine not_keeps hleaves hx hruns halongf ?_ htrimf ha hkeeps.first
    rintro rfl
    exact hruns hrunsf

/-- An expression that comes back with its constants is restorable. -/
theorem restorable_of_keeps (hleaves : e.LeavesReadBack) (hprint : e.print = .ok t) {n : ℕ} (hn : e.height ≤ n)
    (hread : readText n t = .ok e') (hkeeps : e.Keeps e') : e.Restorable := by
  induction e generalizing t n e' with
  | unary op arg ih =>
    obtain ⟨x, hx, rfl⟩ := print_unary_ok hprint
    cases n with
    | zero => simp [height] at hn
    | succ n =>
      rw [readText_unary op (hasEdges_print hleaves.unary hx)] at hread
      obtain ⟨arg', harg, rfl⟩ := except_map_ok hread
      exact ih hleaves.unary hx (by simpa [height] using hn) harg hkeeps.unary
  | binary op a b iha ihb =>
    obtain ⟨x, y, hx, hy, rfl⟩ := print_binary_ok hprint
    have hedgesx := hasEdges_print hleaves.first hx
    have hedgesy := hasEdges_print hleaves.second hy
    cases n with
    | zero => simp [height] at hn
    | succ n =>
      have hheight : a.height ≤ n ∧ b.height ≤ n := by simpa [height] using hn
      have hruns := runs_of_keeps hleaves.first hx hedgesy hread hkeeps
      rw [readText_binary op hedgesx hedgesy, scan_first hruns] at hread
      obtain ⟨a', ha, hread⟩ := except_bind_ok hread
      obtain ⟨b', hb, hread⟩ := except_bind_ok hread
      cases hread
      rw [readText_cons_space] at hb
      have ha' := iha hleaves.first hx hheight.1 ha hkeeps.first
      exact ⟨ha', ihb hleaves.second hy hheight.2 hb hkeeps.second,
        (runs_print_iff hleaves.first hx ha' le_rfl).1 hruns⟩
  | constant v =>
    cases n with
    | zero => simp [height] at hn
    | succ n =>
      rw [hkeeps.root] at hread
      exact (readText_constant_iff hprint n).1 hread
  | _ => trivial

theorem restorable_of_readsConstants (hleaves : e.LeavesReadBack) (h : e.ReadsConstants) : e.Restorable := by
  obtain ⟨t, hprint, hread⟩ := h
  obtain ⟨e', hread, hkeeps⟩ := hread e.height le_rfl
  exact restorable_of_keeps hleaves hprint le_rfl hread hkeeps

/-- **An expression comes back with all its constants** if and only if every constant in it is readable and the
strings in every first argument nest; then it comes back as it was. -/
theorem readsConstants_iff (hleaves : e.LeavesReadBack) : (e.ReadsConstants ↔ e.Restorable) ∧
    (e.Restorable → ∃ t, e.print = .ok t ∧ ∀ n, e.height ≤ n → readText n t = .ok e) := by
  refine ⟨⟨restorable_of_readsConstants hleaves, fun he => ?_⟩, reads_of_restorable hleaves⟩
  obtain ⟨t, hprint, hread⟩ := reads_of_restorable hleaves he
  exact ⟨t, hprint, fun n hn => ⟨e, hread n hn, fun _ _ => id⟩⟩

/-- A filter on the name of the host, with a bracket, a space and a quote in it. -/
theorem readsConstants_filter :
    (binary .equal (.symbol 2) (.constant (.string (some ⟨[40, 32, 34], by decide⟩)))).ReadsConstants := by
  refine (readsConstants_iff fun leaf hleaf => ?_).1.2 ⟨trivial, by simp [Restorable, Any.Readable, Any.Escapes], ?_⟩
  · rcases List.mem_pair.1 hleaf with rfl | rfl
    · exact Or.inr ⟨_, rfl, by decide, isPlain_of_all (by decide)⟩
    · exact Or.inl ⟨_, rfl, trivial⟩
  · simp [Nests]

/-- **Constants that do not come back**: a Boolean, a number that is no `long`, a backslash, and a string with a space
that is a first argument. -/
theorem readsConstants_fails :
    ¬ (unary .not (.constant (.boolean true))).ReadsConstants ∧
      ¬ (unary .negate (.constant (.u64 0x8000000000000000))).ReadsConstants ∧
      ¬ (unary .not (.constant (.string (some ⟨[92, 97], by decide⟩)))).ReadsConstants ∧
      ¬ (binary .equal (.constant (.string (some ⟨[97, 32, 98], by decide⟩))) (.symbol 2)).ReadsConstants := by
  refine ⟨fun h => ?_, fun h => ?_, fun h => ?_, fun h => ?_⟩
  · exact restorable_of_readsConstants (e := unary .not (.constant (.boolean true)))
      (leavesReadBack_constant trivial) h
  · have hreadable := restorable_of_readsConstants (e := unary .negate (.constant (.u64 0x8000000000000000)))
      (leavesReadBack_constant trivial) h
    exact absurd (show (0x8000000000000000 : UInt64).toNat < 2 ^ 63 from hreadable) (by decide)
  · have hreadable := restorable_of_readsConstants
      (e := unary .not (.constant (.string (some ⟨[92, 97], by decide⟩)))) (leavesReadBack_constant trivial) h
    simp [Restorable, Any.Readable, Any.Escapes] at hreadable
  · have hleaves :
        (binary .equal (.constant (.string (some ⟨[97, 32, 98], by decide⟩))) (.symbol 2)).LeavesReadBack := by
      intro leaf hleaf
      rcases List.mem_pair.1 hleaf with rfl | rfl
      · exact Or.inl ⟨_, rfl, trivial⟩
      · exact Or.inr ⟨_, rfl, by decide, isPlain_of_all (by decide)⟩
    have hnests := (restorable_of_readsConstants hleaves h).2.2
    simp [Nests, Runs, bracket, isSpace] at hnests

end Expression

end Subordination.Core.Resources
