import Mathlib.Algebra.Order.Group.Int
import Mathlib.Data.List.DropRight
import Mathlib.Tactic.Linarith

/-!
# Words and brackets

A text in which arguments are separated by spaces, and an argument that has spaces of its own is put in
brackets. A reader that counts brackets finds the end of an argument: it is the first space outside of them.
-/

namespace Subordination.Library

universe u

section Brackets

variable {α : Type u} (nest : α → ℤ) (space : α → Bool)

/-! ### Scanning -/

/-- The text up to the first space that is outside of brackets, and the rest. There is nothing if more
brackets are closed than have been opened. -/
def scan : ℤ → List α → Option (List α × List α)
  | _, [] => some ([], [])
  | depth, c :: cs =>
    if depth = 0 ∧ space c = true then some ([], c :: cs)
    else if depth + nest c < 0 then none
    else (scan (depth + nest c) cs).map fun p => (c :: p.1, p.2)

/-- The scan goes over the whole text, from one depth to another one. -/
def Runs : ℤ → List α → ℤ → Prop
  | depth, [], depth' => depth = depth'
  | depth, c :: cs, depth' =>
    ¬ (depth = 0 ∧ space c = true) ∧ 0 ≤ depth + nest c ∧ Runs (depth + nest c) cs depth'

variable {nest space} {depth depth' depth'' : ℤ} {xs ys : List α} {c : α}

theorem Runs.append (h : Runs nest space depth xs depth') (h' : Runs nest space depth' ys depth'') :
    Runs nest space depth (xs ++ ys) depth'' := by
  induction xs generalizing depth with
  | nil =>
    cases h
    exact h'
  | cons c cs ih => exact ⟨h.1, h.2.1, ih h.2.2⟩

/-- Inside of further brackets the text is scanned like on its own. -/
theorem Runs.shift (h : Runs nest space depth xs depth') (hdepth : 0 ≤ depth) {n : ℤ} (hn : 0 ≤ n) :
    Runs nest space (depth + n) xs (depth' + n) := by
  induction xs generalizing depth with
  | nil =>
    cases h
    rfl
  | cons c cs ih =>
    obtain ⟨hgoes, hle, hrest⟩ := h
    have hcomm : depth + n + nest c = depth + nest c + n := by omega
    refine ⟨fun hstop => hgoes ⟨by omega, hstop.2⟩, by omega, ?_⟩
    rw [hcomm]
    exact ih hrest hle

/-- A text without brackets, and without spaces if it is not inside of some. -/
theorem Runs.plain (hdepth : 0 ≤ depth) (hnest : ∀ c ∈ xs, nest c = 0)
    (hspace : depth ≠ 0 ∨ ∀ c ∈ xs, space c = false) : Runs nest space depth xs depth := by
  induction xs with
  | nil => rfl
  | cons c cs ih =>
    have hc : nest c = 0 := hnest c List.mem_cons_self
    refine ⟨?_, by omega, ?_⟩
    · rintro ⟨hzero, hspacec⟩
      rcases hspace with hne | hall
      · exact hne hzero
      · rw [hall c List.mem_cons_self] at hspacec
        exact Bool.false_ne_true hspacec
    · rw [hc, add_zero]
      exact ih (fun c hc => hnest c (List.mem_cons_of_mem _ hc))
        (hspace.imp_right fun h c hc => h c (List.mem_cons_of_mem _ hc))

/-- A text in brackets. -/
theorem Runs.bracketed {o e : α} (ho : nest o = 1) (hspace : space o = false) (he : nest e = -1)
    (h : Runs nest space 1 xs 1) : Runs nest space 0 (o :: (xs ++ [e])) 0 := by
  refine ⟨by simp [hspace], by omega, ?_⟩
  rw [ho, zero_add]
  refine h.append ⟨by simp, by omega, ?_⟩
  simp [Runs, he]

/-- **The scan stops at the space after an argument.** -/
theorem scan_append (h : Runs nest space depth xs 0) (hc : space c = true) (rest : List α) :
    scan nest space depth (xs ++ c :: rest) = some (xs, c :: rest) := by
  induction xs generalizing depth with
  | nil =>
    cases h
    simp [scan, hc]
  | cons x xs ih =>
    obtain ⟨hgoes, hle, hrest⟩ := h
    rw [List.cons_append, scan, if_neg hgoes, if_neg (by omega), ih hrest]
    rfl

/-- The scan of a text in two parts. -/
theorem runs_append_iff :
    Runs nest space depth (xs ++ ys) depth'' ↔ ∃ depth', Runs nest space depth xs depth' ∧
      Runs nest space depth' ys depth'' := by
  constructor
  · intro h
    induction xs generalizing depth with
    | nil => exact ⟨depth, rfl, h⟩
    | cons c cs ih =>
      obtain ⟨hgoes, hle, hrest⟩ := h
      obtain ⟨depth', h', hys⟩ := ih hrest
      exact ⟨depth', ⟨hgoes, hle, h'⟩, hys⟩
  · rintro ⟨depth', h, h'⟩
    exact h.append h'

/-- Where a scan ends is how many brackets more are opened than closed. -/
theorem Runs.eq_add (h : Runs nest space depth xs depth') : depth' = depth + (xs.map nest).sum := by
  induction xs generalizing depth with
  | nil =>
    cases h
    simp
  | cons c cs ih =>
    rw [ih h.2.2, List.map_cons, List.sum_cons]
    omega

/-- A text that the scan goes over is scanned to its end. -/
theorem scan_of_runs (h : Runs nest space depth xs depth') : scan nest space depth xs = some (xs, []) := by
  induction xs generalizing depth with
  | nil => rfl
  | cons c cs ih =>
    obtain ⟨hgoes, hle, hrest⟩ := h
    rw [scan, if_neg hgoes, if_neg (by omega), ih hrest]
    rfl

/-- What the scan returns: the text is divided at its end, or at a space outside of all brackets. -/
theorem scan_some {zs : List α} (h : scan nest space depth xs = some (ys, zs)) :
    xs = ys ++ zs ∧ (zs ≠ [] → Runs nest space depth ys 0 ∧ ∀ c ∈ zs.head?, space c = true) := by
  induction xs generalizing depth ys with
  | nil =>
    cases h
    exact ⟨rfl, fun hne => absurd rfl hne⟩
  | cons c cs ih =>
    rw [scan] at h
    split at h
    · next hstop =>
      cases h
      refine ⟨rfl, fun _ => ⟨hstop.1, fun d hd => ?_⟩⟩
      cases hd
      exact hstop.2
    · next hgoes =>
      split at h
      · cases h
      · next hle =>
        obtain ⟨⟨ys', zs'⟩, hscan, heq⟩ := Option.map_eq_some_iff.1 h
        cases heq
        obtain ⟨rfl, hruns⟩ := ih hscan
        exact ⟨rfl, fun hne => ⟨⟨hgoes, by omega, (hruns hne).1⟩, (hruns hne).2⟩⟩

/-- The last character before a space outside of all brackets is not a space. -/
theorem Runs.getLast (h : Runs nest space depth xs 0) (hspace : ∀ c, space c = true → nest c = 0) :
    ∀ c ∈ xs.getLast?, space c = false := by
  intro c hc
  obtain ⟨ys, rfl⟩ := List.getLast?_eq_some_iff.1 hc
  obtain ⟨depth', -, hgoes, -, hend⟩ := runs_append_iff.1 h
  by_contra hc'
  have hc'' : space c = true := by simpa using hc'
  have hzero : depth' + nest c = 0 := hend
  rw [hspace c hc'', add_zero] at hzero
  exact hgoes ⟨hzero, hc''⟩

end Brackets

/-! ### Trimming -/

section Trim

variable {α : Type u} {space : α → Bool} {xs : List α} {c : α}

/-- The text without the spaces at both ends. -/
def trim (space : α → Bool) (xs : List α) : List α := (xs.dropWhile space).rdropWhile space

theorem trim_cons (h : space c = true) : trim space (c :: xs) = trim space xs := by
  rw [trim, List.dropWhile_cons_of_pos h, trim]

/-- A text that neither begins nor ends with a space. -/
theorem trim_eq_self (hfirst : ∀ c ∈ xs.head?, space c = false) (hlast : ∀ c ∈ xs.getLast?, space c = false) :
    trim space xs = xs := by
  have hbegin : xs.dropWhile space = xs := by
    cases xs with
    | nil => rfl
    | cons c cs => exact List.dropWhile_cons_of_neg (by simp [hfirst c rfl])
  rw [trim, hbegin, List.rdropWhile_eq_self_iff]
  intro hne hspace
  have hfalse := hlast (xs.getLast hne) (List.getLast?_eq_getLast_of_ne_nil hne)
  rw [hfalse] at hspace
  exact Bool.false_ne_true hspace

theorem getLast_trim (xs : List α) : ∀ c ∈ (trim space xs).getLast?, space c = false := by
  intro c hc
  have hne : trim space xs ≠ [] := by
    rintro hnil
    rw [hnil] at hc
    cases hc
  have hlast := List.rdropWhile_last_not space (xs.dropWhile space) hne
  rw [List.getLast?_eq_getLast_of_ne_nil hne] at hc
  cases hc
  exact Bool.eq_false_iff.2 hlast

/-- A text that does not begin with a space loses only spaces at its end. -/
theorem trim_prefix (hfirst : ∀ c ∈ xs.head?, space c = false) :
    ∃ ys, xs = trim space xs ++ ys ∧ ∀ c ∈ ys, space c = true := by
  have hbegin : xs.dropWhile space = xs := by
    cases xs with
    | nil => rfl
    | cons c cs => exact List.dropWhile_cons_of_neg (by simp [hfirst c rfl])
  refine ⟨xs.rtakeWhile space, ?_, fun c hc => List.mem_rtakeWhile_imp hc⟩
  rw [trim, hbegin]
  exact (List.rdropWhile_append_rtakeWhile).symm

end Trim

/-! ### Texts of which one begins with the other -/

section Alongside

variable {α : Type u} {xs ys zs : List α}

/-- One of the texts begins with the other. -/
def Alongside (xs ys : List α) : Prop := xs <+: ys ∨ ys <+: xs

theorem alongside_append_iff : Alongside (xs ++ ys) (xs ++ zs) ↔ Alongside ys zs :=
  or_congr (List.prefix_append_right_inj xs) (List.prefix_append_right_inj xs)

/-- What a text begins with is alongside of what the text is alongside of. -/
theorem Alongside.of_prefix (h : Alongside ys zs) (hxs : xs <+: ys) : Alongside xs zs := by
  rcases h with h | h
  · exact Or.inl (hxs.trans h)
  · exact List.prefix_or_prefix_of_prefix hxs h

theorem Alongside.symm (h : Alongside xs ys) : Alongside ys xs := Or.symm h

theorem Alongside.head_eq (h : Alongside xs ys) (hx : xs ≠ []) (hy : ys ≠ []) : xs.head? = ys.head? := by
  rcases h with ⟨t, rfl⟩ | ⟨t, rfl⟩
  · exact (List.head?_append_of_ne_nil xs hx).symm
  · exact List.head?_append_of_ne_nil ys hy

end Alongside

end Subordination.Library
