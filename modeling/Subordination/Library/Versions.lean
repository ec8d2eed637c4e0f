import Mathlib.Data.Finset.Card
import Mathlib.Data.Finset.Prod
import Mathlib.Logic.Function.Basic

/-!
# Tables of versions

Tables that hold a value for each of some keys. Every value has a key and a version, and a
table that absorbs a value keeps it if it has no value with that key or only an older one.

Absorbing is a join: **`foldl_absorb_congr`** says that what a table has absorbed in the
end depends on which values there were, not on their order, their grouping or their
repetition, provided that two values with one key and one version are one value;
**`highest_of_foldl_absorb`** says that it is the value with the highest version.

A table only goes up, in the order `Below`, and it goes up only so far: `known` are the
versions among a finite set that a table has reached, and there are more of them after
every change (`known_card_lt`).
-/

namespace Subordination.Library

/-- The key and the version of a value. -/
structure Versions (κ ν : Type*) where
  /-- The key. -/
  key : ν → κ
  /-- The version. -/
  version : ν → ℕ

namespace Versions

variable {κ ν : Type*} (V : Versions κ ν)

/-! ### One key -/

/-- The value that is kept: the one that is there, unless the other one is newer. -/
def newer (o : Option ν) (a : ν) : Option ν :=
  match o with
  | none => some a
  | some b => if V.version b < V.version a then some a else some b

/-- The value `r` is the one with the highest version among what was there and `xs`. -/
structure Highest (o : Option ν) (xs : List ν) (r : ν) : Prop where
  /-- It is one of them. -/
  mem : o = some r ∨ r ∈ xs
  /-- What was there is not newer, and gives way to newer values only. -/
  kept : ∀ b, o = some b → V.version b < V.version r ∨ b = r
  /-- None of the others is newer. -/
  le : ∀ x ∈ xs, V.version x ≤ V.version r

variable {V}

theorem newer_ne_none (o : Option ν) (a : ν) : V.newer o a ≠ none := by
  cases o with
  | none => exact Option.some_ne_none a
  | some b =>
    rw [newer]
    split
    · exact Option.some_ne_none a
    · exact Option.some_ne_none b

theorem highest_newer {o : Option ν} {a c : ν} (h : V.newer o a = some c) : V.Highest o [a] c := by
  cases o with
  | none =>
    obtain rfl : a = c := Option.some.inj h
    exact ⟨Or.inr (List.mem_singleton_self a), fun _ hb => absurd hb (Option.some_ne_none _).symm,
      fun x hx => (congrArg V.version (List.mem_singleton.1 hx)).le⟩
  | some b =>
    rw [newer] at h
    by_cases hlt : V.version b < V.version a
    · rw [if_pos hlt] at h
      obtain rfl : a = c := Option.some.inj h
      refine ⟨Or.inr (List.mem_singleton_self a), fun b' hb => ?_, fun x hx => ?_⟩
      · obtain rfl : b = b' := Option.some.inj hb
        exact Or.inl hlt
      · exact (congrArg V.version (List.mem_singleton.1 hx)).le
    · rw [if_neg hlt] at h
      obtain rfl : b = c := Option.some.inj h
      refine ⟨Or.inl rfl, fun b' hb => Or.inr (Option.some.inj hb).symm, fun x hx => ?_⟩
      rw [List.mem_singleton.1 hx]
      exact not_lt.1 hlt

theorem Highest.cons {o : Option ν} {a c r : ν} {xs : List ν} (hc : V.Highest o [a] c)
    (hr : V.Highest (some c) xs r) : V.Highest o (a :: xs) r := by
  have hcr : V.version c ≤ V.version r := by
    rcases hr.kept c rfl with hlt | rfl
    · exact hlt.le
    · exact le_rfl
  refine ⟨?_, fun b hb => ?_, fun x hx => ?_⟩
  · rcases hr.mem with hrc | hmem
    · obtain rfl : c = r := Option.some.inj hrc
      rcases hc.mem with ho | ha
      · exact Or.inl ho
      · exact Or.inr (List.mem_cons.2 (Or.inl (List.mem_singleton.1 ha)))
    · exact Or.inr (List.mem_cons_of_mem a hmem)
  · rcases hc.kept b hb with hlt | rfl
    · exact Or.inl (hlt.trans_le hcr)
    · exact hr.kept b rfl
  · rcases List.mem_cons.1 hx with rfl | hx
    · exact (hc.le x (List.mem_singleton_self x)).trans hcr
    · exact hr.le x hx

/-- **The value that is left has the highest version.** -/
theorem highest_of_foldl_newer {xs : List ν} {o : Option ν} {r : ν}
    (h : xs.foldl V.newer o = some r) : V.Highest o xs r := by
  induction xs generalizing o with
  | nil =>
    have ho : o = some r := h
    exact ⟨Or.inl ho, fun b hb => Or.inr (Option.some.inj (hb.symm.trans ho)), fun x hx => absurd hx List.not_mem_nil⟩
  | cons a xs ih =>
    obtain ⟨c, hc⟩ := Option.ne_none_iff_exists'.1 (V.newer_ne_none o a)
    rw [List.foldl_cons, hc] at h
    exact (highest_newer hc).cons (ih h)

theorem foldl_newer_eq_none {xs : List ν} {o : Option ν} :
    xs.foldl V.newer o = none ↔ o = none ∧ xs = [] := by
  induction xs generalizing o with
  | nil => simp
  | cons a xs ih =>
    rw [List.foldl_cons, ih]
    constructor
    · rintro ⟨hnone, -⟩
      exact absurd hnone (newer_ne_none o a)
    · rintro ⟨-, hcons⟩
      exact absurd hcons (List.cons_ne_nil a xs)

/-- Only one value has the highest version, if values of one version are one value. -/
theorem Highest.unique {o : Option ν} {xs ys : List ν} {r s : ν} (hr : V.Highest o xs r)
    (hs : V.Highest o ys s) (hmem : ∀ x, x ∈ xs ↔ x ∈ ys)
    (hsame : ∀ a ∈ xs, ∀ b ∈ xs, V.version a = V.version b → a = b) : r = s := by
  rcases hr.mem with ho | hrx
  · rcases hs.kept r ho with hlt | rfl
    · rcases hs.mem with ho' | hsy
      · exact Option.some.inj (ho.symm.trans ho')
      · have hle := hr.le s ((hmem s).2 hsy)
        omega
    · rfl
  · rcases hs.mem with ho' | hsy
    · rcases hr.kept s ho' with hlt | rfl
      · have hle := hs.le r ((hmem r).1 hrx)
        omega
      · rfl
    · have hle := hr.le s ((hmem s).2 hsy)
      have hge := hs.le r ((hmem r).1 hrx)
      exact hsame r hrx s ((hmem s).2 hsy) (by omega)

/-! ### Tables only go up -/

variable (V) in
/-- What the one table holds the other one holds too, or a newer value instead. -/
def Below (t u : κ → Option ν) : Prop :=
  ∀ k b, t k = some b → ∃ c, u k = some c ∧ (b = c ∨ V.version b < V.version c)

theorem Below.refl (t : κ → Option ν) : V.Below t t := fun _ b hb => ⟨b, hb, Or.inl rfl⟩

theorem Below.trans {t u v : κ → Option ν} (htu : V.Below t u) (huv : V.Below u v) : V.Below t v := by
  intro k b hb
  obtain ⟨c, hc, hbc⟩ := htu k b hb
  obtain ⟨d, hd, hcd⟩ := huv k c hc
  refine ⟨d, hd, ?_⟩
  rcases hbc with rfl | hbc
  · exact hcd
  · rcases hcd with rfl | hcd
    · exact Or.inr hbc
    · exact Or.inr (hbc.trans hcd)

theorem Below.antisymm {t u : κ → Option ν} (htu : V.Below t u) (hut : V.Below u t) : t = u := by
  funext k
  cases ht : t k with
  | none =>
    cases hu : u k with
    | none => rfl
    | some c =>
      obtain ⟨b, hb, -⟩ := hut k c hu
      rw [ht] at hb
      exact absurd hb.symm (Option.some_ne_none b)
  | some b =>
    obtain ⟨c, hc, hbc⟩ := htu k b ht
    obtain ⟨b', hb', hcb⟩ := hut k c hc
    obtain rfl : b = b' := Option.some.inj (ht.symm.trans hb')
    rw [hc]
    rcases hbc with rfl | hlt
    · rfl
    · rcases hcb with rfl | hgt
      · rfl
      · omega

/-! ### How far a table can go up -/

variable (V) in
/-- The versions among `P` that the table has reached. -/
def known (P : Finset (κ × ℕ)) (t : κ → Option ν) : Finset (κ × ℕ) :=
  P.filter fun p => (t p.1).any fun b => p.2 ≤ V.version b

theorem mem_known {P : Finset (κ × ℕ)} {t : κ → Option ν} {p : κ × ℕ} :
    p ∈ V.known P t ↔ p ∈ P ∧ ∃ b, t p.1 = some b ∧ p.2 ≤ V.version b := by
  rw [known, Finset.mem_filter, Option.any_eq_true]
  simp only [decide_eq_true_eq]

theorem known_card_le (P : Finset (κ × ℕ)) (t : κ → Option ν) : (V.known P t).card ≤ P.card :=
  Finset.card_le_card (Finset.filter_subset _ P)

theorem known_subset {P : Finset (κ × ℕ)} {t u : κ → Option ν} (h : V.Below t u) :
    V.known P t ⊆ V.known P u := by
  intro p hp
  obtain ⟨hP, b, hb, hle⟩ := mem_known.1 hp
  obtain ⟨c, hc, hbc⟩ := h p.1 b hb
  refine mem_known.2 ⟨hP, c, hc, ?_⟩
  rcases hbc with rfl | hlt
  · exact hle
  · omega

/-- **A table that changes has reached another version.** -/
theorem known_card_lt {P : Finset (κ × ℕ)} {t u : κ → Option ν} (h : V.Below t u) (hne : t ≠ u)
    (hP : ∀ k c, u k = some c → (k, V.version c) ∈ P) : (V.known P t).card < (V.known P u).card := by
  obtain ⟨k, hk⟩ := Function.ne_iff.1 hne
  cases hu : u k with
  | none =>
    cases ht : t k with
    | none => exact absurd (ht.trans hu.symm) hk
    | some b =>
      obtain ⟨c, hc, -⟩ := h k b ht
      rw [hu] at hc
      exact absurd hc.symm (Option.some_ne_none c)
  | some c =>
    refine Finset.card_lt_card ((Finset.ssubset_iff_of_subset (known_subset h)).2
      ⟨(k, V.version c), mem_known.2 ⟨hP k c hu, c, hu, le_rfl⟩, fun hmem => ?_⟩)
    obtain ⟨-, b, hb, hle⟩ := mem_known.1 hmem
    obtain ⟨c', hc', hbc⟩ := h k b hb
    obtain rfl : c = c' := Option.some.inj (hu.symm.trans hc')
    rcases hbc with rfl | hlt
    · exact hk (hb.trans hu.symm)
    · omega

/-! ### Absorbing a value -/

variable (V) [DecidableEq κ]

/-- The table after it has absorbed a value. -/
def absorb (t : κ → Option ν) (a : ν) : κ → Option ν :=
  Function.update t (V.key a) (V.newer (t (V.key a)) a)

/-- Two values with one key and one version are one value. -/
def Consistent (xs : List ν) : Prop :=
  ∀ a ∈ xs, ∀ b ∈ xs, V.key a = V.key b → V.version a = V.version b → a = b

variable {V}

theorem foldl_absorb_apply (xs : List ν) (t : κ → Option ν) (k : κ) :
    (xs.foldl V.absorb t) k = (xs.filter (V.key · = k)).foldl V.newer (t k) := by
  induction xs generalizing t with
  | nil => rfl
  | cons a xs ih =>
    rw [List.foldl_cons, ih, absorb]
    by_cases hk : V.key a = k
    · rw [List.filter_cons, if_pos (decide_eq_true hk), List.foldl_cons, ← hk, Function.update_self]
    · rw [List.filter_cons, if_neg (by simpa using hk), Function.update_of_ne (Ne.symm hk)]

/-- **The table keeps the highest version of each key.** -/
theorem highest_of_foldl_absorb {xs : List ν} {t : κ → Option ν} {k : κ} {r : ν}
    (h : (xs.foldl V.absorb t) k = some r) : V.Highest (t k) (xs.filter (V.key · = k)) r := by
  rw [foldl_absorb_apply] at h
  exact highest_of_foldl_newer h

/-- **Neither order nor repetition matters.** -/
theorem foldl_absorb_congr {xs ys : List ν} (hsame : V.Consistent xs) (hmem : ∀ x, x ∈ xs ↔ x ∈ ys)
    (t : κ → Option ν) : xs.foldl V.absorb t = ys.foldl V.absorb t := by
  funext k
  rw [foldl_absorb_apply, foldl_absorb_apply]
  have hfilter (x : ν) : x ∈ xs.filter (V.key · = k) ↔ x ∈ ys.filter (V.key · = k) := by
    rw [List.mem_filter, List.mem_filter, hmem x]
  cases hx : (xs.filter (V.key · = k)).foldl V.newer (t k) with
  | none =>
    obtain ⟨ht, hnil⟩ := foldl_newer_eq_none.1 hx
    have hys : ys.filter (V.key · = k) = [] :=
      List.eq_nil_iff_forall_not_mem.2 fun x hmemx => by
        have := (hfilter x).2 hmemx
        rw [hnil] at this
        exact List.not_mem_nil this
    rw [hys, ht]
    rfl
  | some r =>
    cases hy : (ys.filter (V.key · = k)).foldl V.newer (t k) with
    | none =>
      obtain ⟨ht, hnil⟩ := foldl_newer_eq_none.1 hy
      rcases (highest_of_foldl_newer hx).mem with ho | hr
      · rw [ht] at ho
        exact absurd ho.symm (Option.some_ne_none r)
      · have := (hfilter r).1 hr
        rw [hnil] at this
        exact absurd this List.not_mem_nil
    | some s =>
      refine congrArg some ((highest_of_foldl_newer hx).unique (highest_of_foldl_newer hy) hfilter ?_)
      intro a ha b hb hversion
      obtain ⟨ha, hka⟩ := List.mem_filter.1 ha
      obtain ⟨hb, hkb⟩ := List.mem_filter.1 hb
      exact hsame a ha b hb ((of_decide_eq_true hka).trans (of_decide_eq_true hkb).symm) hversion

theorem below_absorb (t : κ → Option ν) (a : ν) : V.Below t (V.absorb t a) := by
  intro k b hb
  by_cases hk : k = V.key a
  · subst hk
    rw [absorb, Function.update_self, hb, newer]
    by_cases hlt : V.version b < V.version a
    · exact ⟨a, if_pos hlt, Or.inr hlt⟩
    · exact ⟨b, if_neg hlt, Or.inl rfl⟩
  · exact ⟨b, by rw [absorb, Function.update_of_ne hk, hb], Or.inl rfl⟩

/-- A value changes a table that has none with its key or only an older one. -/
theorem absorb_eq_self_iff {t : κ → Option ν} {a : ν} :
    V.absorb t a = t ↔ ∃ b, t (V.key a) = some b ∧ V.version a ≤ V.version b := by
  rw [absorb, Function.update_eq_self_iff]
  cases ht : t (V.key a) with
  | none => simp [newer]
  | some b =>
    rw [newer]
    by_cases hlt : V.version b < V.version a
    · rw [if_pos hlt]
      constructor
      · intro hab
        obtain rfl : a = b := Option.some.inj hab
        exact absurd hlt (lt_irrefl _)
      · rintro ⟨c, hc, hle⟩
        obtain rfl : b = c := Option.some.inj hc
        omega
    · rw [if_neg hlt]
      exact iff_of_true rfl ⟨b, rfl, not_lt.1 hlt⟩

end Versions

end Subordination.Library
