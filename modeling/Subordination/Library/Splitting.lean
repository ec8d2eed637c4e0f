import Mathlib.Data.List.Basic
import Mathlib.Data.List.TakeWhile

/-!
# Splitting

Texts that are split at the first separator, or at every separator.

## What is proved

* `append_inj_of_separated` — where a word ends.
* `dropWhile_concat` — leaving out what a text begins with, as the text is read.
* `parts_induction` — a text is the last part, or a part and a separator before another text.
-/

namespace Subordination.Library

universe u

variable {α : Type u} {p : α → Bool} {xs : List α}

/-- What stands before the first separator. -/
def before (p : α → Bool) (xs : List α) : List α := xs.takeWhile (!p ·)

/-- What stands after the first separator. -/
def after (p : α → Bool) (xs : List α) : List α := (xs.dropWhile (!p ·)).tail

theorem before_cons_of_pos {c : α} (h : p c = true) : before p (c :: xs) = [] := by
  simp [before, h]

theorem before_cons_of_neg {c : α} (h : p c = false) : before p (c :: xs) = c :: before p xs := by
  simp [before, h]

theorem after_cons_of_pos {c : α} (h : p c = true) : after p (c :: xs) = xs := by
  simp [after, h]

theorem after_cons_of_neg {c : α} (h : p c = false) : after p (c :: xs) = after p xs := by
  simp [after, h]

/-- A text without a separator is all before it. -/
theorem before_eq_self (h : xs.any p = false) : before p xs = xs := by
  rw [before, List.takeWhile_eq_self_iff]
  intro c hc
  rw [Bool.not_eq_true']
  exact Bool.eq_false_iff.mpr (List.any_eq_false.mp h c hc)

theorem after_eq_nil (h : xs.any p = false) : after p xs = [] := by
  rw [after, List.dropWhile_eq_nil_iff.mpr fun c hc => ?_, List.tail_nil]
  rw [Bool.not_eq_true']
  exact Bool.eq_false_iff.mpr (List.any_eq_false.mp h c hc)

/-- Where a word ends is known from what comes after it: a separator, or nothing. -/
theorem append_inj_of_separated {xs ys xs' ys' : List α} (h : xs ++ ys = xs' ++ ys')
    (hxs : ∀ c ∈ xs, p c = false) (hys : ∀ c ∈ ys.head?, p c = true) (hxs' : ∀ c ∈ xs', p c = false)
    (hys' : ∀ c ∈ ys'.head?, p c = true) : xs = xs' ∧ ys = ys' := by
  induction xs generalizing xs' with
  | nil =>
    cases xs' with
    | nil => exact ⟨rfl, h⟩
    | cons c xs' =>
      rw [List.nil_append] at h
      have hc := hys c (by rw [h]; rfl)
      rw [hxs' c List.mem_cons_self] at hc
      cases hc
  | cons c xs ih =>
    cases xs' with
    | nil =>
      rw [List.nil_append] at h
      have hc := hys' c (by rw [← h]; rfl)
      rw [hxs c List.mem_cons_self] at hc
      cases hc
    | cons c' xs' =>
      obtain ⟨rfl, htail⟩ := List.cons.inj h
      obtain ⟨rfl, rfl⟩ := ih htail (fun d hd => hxs d (List.mem_cons_of_mem c hd))
        (fun d hd => hxs' d (List.mem_cons_of_mem c hd))
      exact ⟨rfl, rfl⟩

/-- **What a text begins with is left out as it is read**: an element is dropped as long as nothing has been
kept. -/
theorem dropWhile_concat (p : α → Bool) (xs : List α) (c : α) :
    (xs ++ [c]).dropWhile p = if (xs.dropWhile p).isEmpty && p c then xs.dropWhile p else xs.dropWhile p ++ [c] := by
  rw [List.dropWhile_append]
  cases hxs : xs.dropWhile p with
  | nil =>
    cases hc : p c with
    | false => simp [hc]
    | true => simp [hc]
  | cons d ds => simp

/-- Nothing is kept of a text of which everything is left out. -/
theorem dropWhile_isEmpty (p : α → Bool) (xs : List α) : (xs.dropWhile p).isEmpty = xs.all p := by
  induction xs with
  | nil => rfl
  | cons c xs ih =>
    cases hc : p c with
    | false => simp [hc]
    | true => simp [hc, ih]

/-- A text is the last part of what has been split, or a part and a separator before another text. -/
theorem parts_induction {motive : List α → Prop} (last : ∀ xs, (∀ c ∈ xs, p c = false) → motive xs)
    (part : ∀ xs c rest, (∀ d ∈ xs, p d = false) → p c = true → motive rest → motive (xs ++ c :: rest))
    (xs : List α) : motive xs := by
  -- by induction on the text, with the beginning of a part before it
  suffices h : ∀ ys : List α, (∀ c ∈ ys, p c = false) → motive (ys ++ xs) by
    exact h [] (fun c hc => absurd hc List.not_mem_nil)
  induction xs with
  | nil =>
    intro ys hys
    rw [List.append_nil]
    exact last ys hys
  | cons c xs ih =>
    intro ys hys
    cases hc : p c with
    | true => exact part ys c xs hys hc (ih [] fun d hd => absurd hd List.not_mem_nil)
    | false =>
      have hmore : ∀ d ∈ ys ++ [c], p d = false := by
        intro d hd
        rcases List.mem_append.mp hd with hd | hd
        · exact hys d hd
        · rw [List.mem_singleton.mp hd, hc]
      have hmotive := ih (ys ++ [c]) hmore
      rwa [List.append_assoc] at hmotive

/-- The first part of a text. -/
theorem exists_part (p : α → Bool) (xs : List α) :
    (∀ c ∈ xs, p c = false) ∨ ∃ ys c rest, xs = ys ++ c :: rest ∧ (∀ d ∈ ys, p d = false) ∧ p c = true := by
  induction xs using parts_induction (p := p) with
  | last xs h => exact Or.inl h
  | part ys c rest hys hc _ => exact Or.inr ⟨ys, c, rest, rfl, hys, hc⟩

/-- Where the first one is that has a property, and what is left without it. -/
theorem split_of_find? {a : α} (h : xs.find? p = some a) :
    p a = true ∧ ∃ ys zs, xs = ys ++ a :: zs ∧ xs.eraseP p = ys ++ zs := by
  obtain ⟨ha, ys, zs, hsplit, hys⟩ := List.find?_eq_some_iff_append.mp h
  refine ⟨ha, ys, zs, hsplit, ?_⟩
  rw [hsplit, List.eraseP_append_right _ (by simpa using hys), List.eraseP_cons_of_pos ha]

end Subordination.Library
