import Mathlib.Data.List.Basic

/-!
# The first of each kind

Values come one after another, and each is put at the end of a list unless there is one of its kind already. Which
value of a kind is kept depends on the order in which they come; of which kinds there are values, and how many there
are, does not.
-/

namespace Subordination.Library

variable {α : Type*} (same : α → α → Bool)

/-- Put a value at the end of a list, unless there is one of its kind. -/
def putNew (l : List α) (a : α) : List α := if l.any (same a) then l else l ++ [a]

/-- Put values there one after another. -/
def putAll (l xs : List α) : List α := xs.foldl (putNew same) l

/-- As many values, of the same kinds. -/
structure Alike (l l' : List α) : Prop where
  /-- There are as many. -/
  length : l.length = l'.length
  /-- They are of the same kinds. -/
  any : ∀ x, l.any (same x) = l'.any (same x)

variable {same} {l l' l'' xs xs' : List α} {a b : α}

@[simp] theorem putAll_nil (l : List α) : putAll same l [] = l := rfl

@[simp] theorem putAll_cons (l : List α) (x : α) (xs : List α) :
    putAll same l (x :: xs) = putAll same (putNew same l x) xs := rfl

theorem putAll_append (l xs ys : List α) : putAll same l (xs ++ ys) = putAll same (putAll same l xs) ys :=
  List.foldl_append

/-! ### What is kept -/

theorem mem_putNew (h : b ∈ putNew same l a) : b ∈ l ∨ b = a := by
  rw [putNew] at h
  split at h
  · exact Or.inl h
  · rw [List.mem_append, List.mem_singleton] at h
    exact h

/-- What is kept has come. -/
theorem mem_putAll (h : b ∈ putAll same l xs) : b ∈ l ∨ b ∈ xs := by
  induction xs generalizing l with
  | nil => exact Or.inl h
  | cons x xs ih =>
    rcases ih h with h | h
    · rcases mem_putNew h with h | rfl
      · exact Or.inl h
      · exact Or.inr List.mem_cons_self
    · exact Or.inr (List.mem_cons_of_mem x h)

theorem mem_putNew_of_mem (h : b ∈ l) : b ∈ putNew same l a := by
  rw [putNew]
  split
  · exact h
  · exact List.mem_append_left _ h

/-- What has been kept stays. -/
theorem mem_putAll_of_mem (h : b ∈ l) : b ∈ putAll same l xs := by
  induction xs generalizing l with
  | nil => exact h
  | cons x xs ih => exact ih (mem_putNew_of_mem h)

/-- **Of everything that comes there is one of its kind**, or it is there itself. -/
theorem exists_mem_putAll (h : a ∈ xs) : a ∈ putAll same l xs ∨ ∃ b ∈ putAll same l xs, same a b = true := by
  induction xs generalizing l with
  | nil => exact absurd h List.not_mem_nil
  | cons x xs ih =>
    rw [putAll_cons]
    rcases List.mem_cons.1 h with rfl | h
    · by_cases hany : l.any (same a) = true
      · obtain ⟨b, hb, hsame⟩ := List.any_eq_true.1 hany
        exact Or.inr ⟨b, mem_putAll_of_mem (mem_putNew_of_mem hb), hsame⟩
      · refine Or.inl (mem_putAll_of_mem ?_)
        rw [putNew, if_neg hany]
        exact List.mem_append_right _ (List.mem_singleton_self a)
    · exact ih h

/-- **No two of the values that are kept are of one kind.** -/
theorem pairwise_putAll (h : l.Pairwise fun b a => same a b = false) :
    (putAll same l xs).Pairwise fun b a => same a b = false := by
  induction xs generalizing l with
  | nil => exact h
  | cons x xs ih =>
    refine ih ?_
    rw [putNew]
    split
    · exact h
    · next hany =>
      refine List.pairwise_append.2 ⟨h, List.pairwise_singleton _ _, fun b hb a ha => ?_⟩
      obtain rfl := List.mem_singleton.1 ha
      exact Bool.eq_false_iff.2 fun hsame => hany (List.any_eq_true.2 ⟨b, hb, hsame⟩)

/-! ### The order does not matter -/

theorem Alike.refl (l : List α) : Alike same l l := ⟨rfl, fun _ => rfl⟩

theorem Alike.trans (h : Alike same l l') (h' : Alike same l' l'') : Alike same l l'' :=
  ⟨h.length.trans h'.length, fun x => (h.any x).trans (h'.any x)⟩

theorem Alike.putNew (h : Alike same l l') (a : α) : Alike same (putNew same l a) (putNew same l' a) := by
  unfold Library.putNew
  rw [h.any a]
  split
  · exact h
  · refine ⟨?_, fun x => ?_⟩
    · rw [List.length_append, List.length_append, h.length]
    · rw [List.any_append, List.any_append, h.any x]

theorem Alike.putAll (h : Alike same l l') (xs : List α) : Alike same (putAll same l xs) (putAll same l' xs) := by
  induction xs generalizing l l' with
  | nil => exact h
  | cons x xs ih => exact ih (h.putNew x)

/-- To be of one kind is symmetric and transitive. A value need not be of a kind. -/
structure IsKind (same : α → α → Bool) : Prop where
  /-- It is symmetric. -/
  symm : ∀ a b, same a b = true → same b a = true
  /-- It is transitive. -/
  trans : ∀ a b c, same a b = true → same b c = true → same a c = true

theorem IsKind.comm (h : IsKind same) (a b : α) : same a b = same b a :=
  Bool.eq_iff_iff.2 ⟨h.symm a b, h.symm b a⟩

/-- Values of one kind are of the kinds of the same others. -/
theorem IsKind.congr (h : IsKind same) (hab : same a b = true) (x : α) : same x a = same x b :=
  Bool.eq_iff_iff.2 ⟨fun hx => h.trans x a b hx hab, fun hx => h.trans x b a hx (h.symm a b hab)⟩

theorem any_append_singleton (l : List α) (a x : α) : (l ++ [a]).any (same x) = (l.any (same x) || same x a) := by
  rw [List.any_append, List.any_cons, List.any_nil, Bool.or_false]

/-- Two values may come the other way round. -/
theorem IsKind.alike_swap (h : IsKind same) (l : List α) (a b : α) :
    Alike same (putNew same (putNew same l a) b) (putNew same (putNew same l b) a) := by
  by_cases hab : same a b = true
  · -- one of them is kept at most, and it is of the kind of the other
    have hany : l.any (same a) = l.any (same b) := by
      refine Bool.eq_iff_iff.2 ?_
      simp only [List.any_eq_true]
      refine exists_congr fun x => and_congr_right fun _ => ?_
      rw [h.comm a x, h.comm b x, h.congr hab x]
    have hsecond {c d : α} (hcd : same d c = true) : putNew same (l ++ [c]) d = l ++ [c] := by
      rw [putNew, if_pos]
      rw [any_append_singleton, hcd, Bool.or_true]
    by_cases hl : l.any (same a) = true
    · have ha : putNew same l a = l := if_pos hl
      have hb : putNew same l b = l := if_pos (hany ▸ hl)
      rw [ha, hb, ha]
      exact .refl l
    · have ha : putNew same l a = l ++ [a] := if_neg hl
      have hb : putNew same l b = l ++ [b] := if_neg (hany ▸ hl)
      rw [ha, hb, hsecond (h.symm a b hab), hsecond hab]
      refine ⟨?_, fun x => ?_⟩
      · rw [List.length_append, List.length_append]
        rfl
      · rw [any_append_singleton, any_append_singleton, h.congr hab x]
  · -- neither stands in the way of the other
    have hother {c d : α} (hcd : ¬ same d c = true) :
        (putNew same l c).any (same d) = l.any (same d) := by
      rw [putNew]
      split
      · rfl
      · rw [any_append_singleton, Bool.eq_false_iff.2 hcd, Bool.or_false]
    have hba : ¬ same b a = true := fun hba => hab (h.symm b a hba)
    have hleft : putNew same (putNew same l a) b =
        if l.any (same b) then putNew same l a else putNew same l a ++ [b] := by
      rw [putNew, hother hba]
    have hright : putNew same (putNew same l b) a =
        if l.any (same a) then putNew same l b else putNew same l b ++ [a] := by
      rw [putNew, hother hab]
    rw [hleft, hright]
    unfold putNew
    split <;> split
    · exact .refl l
    · exact .refl _
    · exact .refl _
    · refine ⟨?_, fun x => ?_⟩
      · simp only [List.length_append, List.length_singleton]
      · rw [any_append_singleton, any_append_singleton, any_append_singleton, any_append_singleton, Bool.or_assoc,
          Bool.or_assoc, Bool.or_comm (same x a)]

/-- **In whatever order the values come**, as many are kept, of the same kinds. -/
theorem IsKind.alike_of_perm (h : IsKind same) (hperm : xs.Perm xs') (l : List α) :
    Alike same (putAll same l xs) (putAll same l xs') := by
  induction hperm generalizing l with
  | nil => exact .refl l
  | cons x _ ih => exact ih _
  | swap a b xs => exact (h.alike_swap l b a).putAll xs
  | trans _ _ ih ih' => exact (ih l).trans (ih' l)

end Subordination.Library
