import Mathlib.Data.List.Perm.Basic
import Mathlib.Data.List.Nodup

/-!
# Assignments in any order

Names are given values one after the other, and each value is computed from the values that names have by then.
The order is arbitrary.

## What is proved

* `confluent_iff` — every order gives the same values, and each name has the value that the final values give it,
  if and only if there are values that each computation gives whichever of the other names are set to them.
-/

namespace Subordination.Library

universe u v w x

/-- A store of values under names, and of what is never set. -/
structure Store (E : Type u) (κ : Type v) (ν : Type u) (δ : Type w) [DecidableEq κ] where
  /-- The value of a name. -/
  get : E → κ → Option ν
  /-- The store with a value under a name. -/
  set : E → κ → ν → E
  /-- What is never set. -/
  rest : E → δ
  /-- A name has the value that it was set to last. -/
  get_set : ∀ e k v s, get (set e k v) s = if s = k then some v else get e s
  /-- Nothing else is set. -/
  rest_set : ∀ e k v, rest (set e k v) = rest e

namespace Store

variable {E : Type u} {κ : Type v} {ν : Type u} {δ : Type w} {ε : Type x} [DecidableEq κ] (M : Store E κ ν δ)

/-- There is the same in two stores. -/
structure Same (e e' : E) : Prop where
  /-- Under the names. -/
  get : ∀ s, M.get e s = M.get e' s
  /-- Apart from the names. -/
  rest : M.rest e = M.rest e'

/-- A computation of a value from what there is in a store. -/
structure Rule (ε : Type x) where
  /-- The computation. -/
  compute : E → Except ε ν
  /-- It depends on nothing else. -/
  congr : ∀ e e', M.Same e e' → compute e = compute e'

/-- Each name is set to what its rule gives. -/
def run : List (κ × M.Rule ε) → E → Except ε E
  | [], e => .ok e
  | (k, r) :: rules, e => do
    let v ← r.compute e
    run rules (M.set e k v)

/-- The names are set to values that are given. -/
def setAll (V : κ → ν) (e : E) (ks : List κ) : E := ks.foldl (fun e k => M.set e k (V k)) e

/-- The names of some rules. -/
def names (rules : List (κ × M.Rule ε)) : List κ := rules.map Prod.fst

/-- Every order of the rules gives the same, and each name has the value that its rule gives in the end. -/
def Confluent (rules : List (κ × M.Rule ε)) (e : E) : Prop :=
  ∃ final, ∀ order : List (κ × M.Rule ε), order.Perm rules → ∃ e', M.run order e = .ok e' ∧ M.Same e' final ∧
    ∀ x ∈ rules, ∃ v, x.2.compute e' = .ok v ∧ M.get e' x.1 = some v

/-- Each rule gives the value of its name, whichever other names are set to their values, and when all are. -/
def Settled (rules : List (κ × M.Rule ε)) (e : E) (V : κ → ν) : Prop :=
  ∀ x ∈ rules, ∀ ks : List κ, ks ⊆ M.names rules → x.1 ∉ ks ∨ M.names rules ⊆ ks →
    x.2.compute (M.setAll V e ks) = .ok (V x.1)

variable {M} {e e' e'' : E} {V : κ → ν} {ks : List κ} {rules : List (κ × M.Rule ε)} {k s : κ}

theorem get_setAll : M.get (M.setAll V e ks) s = if s ∈ ks then some (V s) else M.get e s := by
  induction ks generalizing e with
  | nil => rfl
  | cons k ks ih =>
    rw [setAll, List.foldl_cons, ← setAll, ih, M.get_set]
    by_cases hs : s = k
    · subst hs
      simp
    · simp [hs]

theorem rest_setAll : M.rest (M.setAll V e ks) = M.rest e := by
  induction ks generalizing e with
  | nil => rfl
  | cons k ks ih =>
    rw [setAll, List.foldl_cons, ← setAll, ih, M.rest_set]

/-- Names that are set to the same values make the same store, in any order. -/
theorem same_setAll {ks' : List κ} (h : ∀ s, s ∈ ks ↔ s ∈ ks') : M.Same (M.setAll V e ks) (M.setAll V e ks') where
  get s := by
    rw [get_setAll, get_setAll]
    exact if_congr (h s) rfl rfl
  rest := rest_setAll.trans rest_setAll.symm

/-- A run leaves alone what it does not set. -/
theorem run_frame (h : M.run rules e = .ok e') :
    M.rest e' = M.rest e ∧ ∀ s ∉ M.names rules, M.get e' s = M.get e s := by
  induction rules generalizing e with
  | nil =>
    cases h
    exact ⟨rfl, fun s _ => rfl⟩
  | cons x rules ih =>
    obtain ⟨k, r⟩ := x
    cases hv : r.compute e with
    | error _ =>
      rw [run, hv] at h
      cases h
    | ok v =>
      rw [run, hv] at h
      obtain ⟨hrest, hget⟩ := ih h
      refine ⟨hrest.trans (M.rest_set e k v), fun s hs => ?_⟩
      obtain ⟨hk, hs⟩ := List.ne_and_not_mem_of_not_mem_cons hs
      rw [hget s hs, M.get_set, if_neg hk]

theorem run_append (rules rules' : List (κ × M.Rule ε)) (e : E) :
    M.run (rules ++ rules') e = M.run rules e >>= M.run rules' := by
  induction rules generalizing e with
  | nil => rfl
  | cons x rules ih =>
    obtain ⟨k, r⟩ := x
    rw [List.cons_append, run, run]
    cases r.compute e with
    | error _ => rfl
    | ok v => exact ih (M.set e k v)

/-- Rules that give the values that are given set the names to them. -/
theorem run_eq_setAll (h : ∀ before x after, rules = before ++ x :: after →
      x.2.compute (M.setAll V e (M.names before)) = .ok (V x.1)) :
    M.run rules e = .ok (M.setAll V e (M.names rules)) := by
  induction rules generalizing e with
  | nil => rfl
  | cons x rules ih =>
    have hfirst : x.2.compute e = .ok (V x.1) := h [] x rules rfl
    rw [run, hfirst]
    exact ih fun before y after hrules => h (x :: before) y after (by rw [hrules]; rfl)

/-- In every order the names are set to values that are settled. -/
theorem Settled.run_eq (h : M.Settled rules e V) (hnodup : (M.names rules).Nodup)
    {order : List (κ × M.Rule ε)} (horder : order.Perm rules) :
    M.run order e = .ok (M.setAll V e (M.names order)) := by
  have hnames : (M.names order).Perm (M.names rules) := horder.map Prod.fst
  refine run_eq_setAll fun before x after heq => ?_
  have hx : x ∈ rules := horder.mem_iff.mp (by rw [heq]; simp)
  have hsplit : M.names order = M.names before ++ x.1 :: M.names after := by rw [heq]; simp [names]
  refine h x hx _ (fun s hs => hnames.mem_iff.mp ?_) (Or.inl fun hmem => ?_)
  · rw [hsplit]
    exact List.mem_append_left _ hs
  · have hdistinct := hnames.nodup_iff.mpr hnodup
    rw [hsplit] at hdistinct
    exact (List.disjoint_of_nodup_append hdistinct) hmem List.mem_cons_self

theorem Settled.confluent (h : M.Settled rules e V) (hnodup : (M.names rules).Nodup) : M.Confluent rules e := by
  refine ⟨M.setAll V e (M.names rules), fun order horder => ⟨_, h.run_eq hnodup horder, ?_, fun x hx => ?_⟩⟩
  · exact same_setAll fun s => (horder.map Prod.fst).mem_iff
  · have hnames : (M.names order).Perm (M.names rules) := horder.map Prod.fst
    refine ⟨V x.1, h x hx _ hnames.subset (Or.inr hnames.symm.subset), ?_⟩
    rw [get_setAll, if_pos (hnames.mem_iff.mpr (List.mem_map_of_mem hx))]

/-- What a run gives before the turn of a rule, and after it. -/
theorem run_middle {before after : List (κ × M.Rule ε)} {y : κ × M.Rule ε}
    (hnodup : (M.names (before ++ y :: after)).Nodup) (h : M.run (before ++ y :: after) e = .ok e') :
    ∃ middle v, y.2.compute middle = .ok v ∧ M.get e' y.1 = some v ∧ M.rest middle = M.rest e ∧
      (∀ s ∈ M.names before, M.get middle s = M.get e' s) ∧ ∀ s ∉ M.names before, M.get middle s = M.get e s := by
  obtain ⟨k, r⟩ := y
  rw [run_append] at h
  cases hbefore : M.run before e with
  | error _ =>
    rw [hbefore] at h
    cases h
  | ok middle =>
    rw [hbefore] at h
    change M.run ((k, r) :: after) middle = .ok e' at h
    cases hv : r.compute middle with
    | error _ =>
      rw [run, hv] at h
      cases h
    | ok v =>
      rw [run, hv] at h
      have hnames : M.names (before ++ (k, r) :: after) = M.names before ++ k :: M.names after := by simp [names]
      rw [hnames] at hnodup
      obtain ⟨hrest, hget⟩ := run_frame hbefore
      obtain ⟨-, hlater⟩ := run_frame h
      obtain ⟨hk, hafter⟩ := List.nodup_cons.mp (List.Nodup.of_append_right hnodup)
      have hdisjoint := List.disjoint_of_nodup_append hnodup
      refine ⟨middle, v, hv, ?_, hrest, fun s hs => ?_, hget⟩
      · rw [hlater k hk, M.get_set, if_pos rfl]
      · have hne : s ≠ k := fun heq => hdisjoint hs (heq ▸ List.mem_cons_self)
        rw [hlater s fun hmem => hdisjoint hs (List.mem_cons_of_mem k hmem), M.get_set, if_neg hne]

/-- There is an order in which some of the other names come before a rule, and the rest after it. -/
theorem exists_order {y : κ × M.Rule ε} (hy : y ∈ rules) (hk : y.1 ∉ ks) (hks : ks ⊆ M.names rules) :
    ∃ before after, (before ++ y :: after).Perm rules ∧ ∀ s, s ∈ M.names before ↔ s ∈ ks := by
  have hmem : y ∈ rules.filter fun z => !decide (z.1 ∈ ks) := List.mem_filter.mpr ⟨hy, by simpa using hk⟩
  obtain ⟨l, l', hl⟩ := List.append_of_mem hmem
  refine ⟨rules.filter fun z => decide (z.1 ∈ ks), l ++ l', ?_, fun s => ?_⟩
  · refine List.Perm.trans (List.Perm.append_left _ ?_)
      (List.filter_append_perm (fun z : κ × M.Rule ε => decide (z.1 ∈ ks)) rules)
    rw [hl]
    exact List.perm_middle.symm
  · rw [names, List.mem_map]
    constructor
    · rintro ⟨z, hz, rfl⟩
      simpa using (List.mem_filter.mp hz).2
    · intro hs
      obtain ⟨z, hz, rfl⟩ := List.mem_map.mp (hks hs)
      exact ⟨z, List.mem_filter.mpr ⟨hz, by simpa using hs⟩, rfl⟩

/-- The values that every order gives are settled. -/
theorem Confluent.exists_settled [Nonempty ν] (h : M.Confluent rules e) (hnodup : (M.names rules).Nodup) :
    ∃ V, M.Settled rules e V := by
  obtain ⟨final, hfinal⟩ := h
  obtain ⟨e', hrun, hsame, hvalues⟩ := hfinal rules (List.Perm.refl rules)
  obtain ⟨hrest, hframe⟩ := run_frame hrun
  let V : κ → ν := fun s => (M.get final s).getD (Classical.arbitrary ν)
  have hV : ∀ s v, M.get final s = some v → V s = v := fun s v hs => by simp [V, hs]
  have hnamed : ∀ s ∈ M.names rules, M.get final s = some (V s) := by
    intro s hs
    obtain ⟨y, hy, rfl⟩ := List.mem_map.mp hs
    obtain ⟨v, -, hv⟩ := hvalues y hy
    have hsome := (hsame.get y.1).symm.trans hv
    rw [hsome, hV _ _ hsome]
  refine ⟨V, fun y hy ks hks hcase => ?_⟩
  rcases hcase with hk | hall
  · -- the rule after the other names that are set
    obtain ⟨before, after, horder, hbefore⟩ := exists_order hy hk hks
    obtain ⟨e'', hrun', hsame', -⟩ := hfinal _ horder
    obtain ⟨middle, v, hv, hget, hmiddle, hset, hunset⟩ :=
      run_middle ((horder.map Prod.fst).nodup_iff.mpr hnodup) hrun'
    have hstore : M.Same middle (M.setAll V e ks) := by
      refine ⟨fun s => ?_, hmiddle.trans rest_setAll.symm⟩
      rw [get_setAll]
      by_cases hs : s ∈ ks
      · rw [if_pos hs, hset s ((hbefore s).mpr hs), hsame'.get, hnamed s (hks hs)]
      · rw [if_neg hs, hunset s fun hmem => hs ((hbefore s).mp hmem)]
    rw [← y.2.congr _ _ hstore, hv, hV y.1 v ((hsame'.get y.1).symm.trans hget)]
  · -- the rule in the end
    obtain ⟨v, hv, hget⟩ := hvalues y hy
    have hstore : M.Same e' (M.setAll V e ks) := by
      refine ⟨fun s => ?_, hrest.trans rest_setAll.symm⟩
      rw [get_setAll]
      by_cases hs : s ∈ ks
      · rw [if_pos hs, hsame.get, hnamed s (hks hs)]
      · rw [if_neg hs, hframe s fun hmem => hs (hall hmem)]
    rw [← y.2.congr _ _ hstore, hv, hV y.1 v ((hsame.get y.1).symm.trans hget)]

/-- **Every order gives the same** if and only if there are values that are settled. -/
theorem confluent_iff [Nonempty ν] (hnodup : (M.names rules).Nodup) : M.Confluent rules e ↔ ∃ V, M.Settled rules e V :=
  ⟨fun h => h.exists_settled hnodup, fun ⟨_, h⟩ => h.confluent hnodup⟩

end Store

end Subordination.Library
