import Mathlib.Data.List.Basic

/-!
# Journals

A journal of entries that open something and entries that close what was opened
before. Replaying it keeps a list of what is open: an opening entry is added at the
end, a closing entry takes out whatever it closes.

## What is proved

* `replay_eq` — what is open in the end is what no later entry closes, in the order in
  which it was opened.
* `survivors_eq_iff` — two readings of the closing entries leave the same list open if
  and only if they agree, for every opening entry, on whether a later entry closes it.
-/

namespace Subordination.Library.Journal

variable {α ε : Type}

/-- An entry of a journal. -/
inductive Entry (α ε : Type) where
  /-- Opens `a`. -/
  | opened (a : α)
  /-- Closes what `e` closes. -/
  | closed (e : ε)

variable (closes closes' : ε → α → Bool)

/-- One of the entries closes `a`. -/
def isClosed : List (Entry α ε) → α → Bool
  | [], _ => false
  | .opened _ :: es, a => isClosed es a
  | .closed e :: es, a => closes e a || isClosed es a

/-- Replay the entries, given what is open already. -/
def replay : List α → List (Entry α ε) → List α
  | before, [] => before
  | before, .opened a :: es => replay (before ++ [a]) es
  | before, .closed e :: es => replay (before.filter fun a => !closes e a) es

/-- What no later entry closes. -/
def survivors : List (Entry α ε) → List α
  | [] => []
  | .opened a :: es => if isClosed closes es a then survivors es else a :: survivors es
  | .closed _ :: es => survivors es

/-- **Replaying a journal** leaves open what no later entry closes. -/
theorem replay_eq (before : List α) (es : List (Entry α ε)) :
    replay closes before es = before.filter (fun a => !isClosed closes es a) ++ survivors closes es := by
  induction es generalizing before with
  | nil => simp [replay, isClosed, survivors]
  | cons entry es ih =>
    cases entry with
    | opened a =>
      rw [replay, ih, List.filter_append, List.append_assoc, survivors]
      cases ha : isClosed closes es a <;> simp [isClosed, ha]
    | closed e =>
      rw [replay, ih, List.filter_filter, survivors]
      simp only [isClosed, Bool.not_or, Bool.and_comm]

theorem replay_nil (es : List (Entry α ε)) : replay closes [] es = survivors closes es := by
  rw [replay_eq, List.filter_nil, List.nil_append]

/-- Everything that is opened, in order. -/
def openings : List (Entry α ε) → List α
  | [] => []
  | .opened a :: es => a :: openings es
  | .closed _ :: es => openings es

theorem survivors_sublist (es : List (Entry α ε)) : (survivors closes es).Sublist (openings es) := by
  induction es with
  | nil => exact List.Sublist.slnil
  | cons entry es ih =>
    cases entry with
    | opened a =>
      rw [survivors, openings]
      split
      · exact ih.cons a
      · exact ih.cons_cons a
    | closed e => exact ih

/-- What no entry closes is open as often as it is opened. -/
theorem count_survivors [DecidableEq α] {a : α} {es : List (Entry α ε)}
    (h : isClosed closes es a = false) : (survivors closes es).count a = (openings es).count a := by
  induction es with
  | nil => rfl
  | cons entry es ih =>
    cases entry with
    | opened b =>
      rw [isClosed] at h
      rw [survivors, openings, List.count_cons]
      split
      · have hne : b ≠ a := fun hb => by simp_all
        rw [ih h]
        simp [hne]
      · rw [List.count_cons, ih h]
    | closed e =>
      rw [isClosed, Bool.or_eq_false_iff] at h
      exact ih h.2

/-- The two readings agree on whether a later entry closes what an entry opens. -/
def Agree : List (Entry α ε) → Prop
  | [] => True
  | .opened a :: es => isClosed closes es a = isClosed closes' es a ∧ Agree es
  | .closed _ :: es => Agree es

variable {closes closes'}

/-- Less cannot be closed now than later: where one reading closes `a` and the other does
not, the first leaves fewer open. -/
theorem survivors_ne {a : α} {es : List (Entry α ε)} (h : isClosed closes' es a = false) :
    survivors closes es ≠ a :: survivors closes' es := by
  classical
  intro he
  have hle := (survivors_sublist closes es).count_le a
  have hcount := count_survivors closes' h
  rw [he, List.count_cons_self, hcount] at hle
  omega

/-- **Two readings leave the same open** if and only if they agree. -/
theorem survivors_eq_iff (es : List (Entry α ε)) :
    survivors closes es = survivors closes' es ↔ Agree closes closes' es := by
  induction es with
  | nil => simp [survivors, Agree]
  | cons entry es ih =>
    cases entry with
    | closed e => exact ih
    | opened a =>
      rw [survivors, survivors, Agree]
      cases h : isClosed closes es a <;> cases h' : isClosed closes' es a
      · simpa using ih
      · simpa using (survivors_ne h).symm
      · simpa using survivors_ne h'
      · simpa using ih

end Subordination.Library.Journal
