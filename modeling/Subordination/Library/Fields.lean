import Mathlib.Data.List.Nodup
import Mathlib.Data.List.Perm.Basic

/-!
# Fields of records

A field of a record can be read and set. Fields that are set under keys, one after another, are in the end what they
were set to last, in whatever order the keys come.

## What is proved

* `foldl_eq_of_lastOf` — changes that overwrite each other under one key and commute under two are determined by the
  last value of each key.
-/

namespace Subordination.Library

universe u v w

variable {S : Type u} {A B C : Type v}

/-! ### Fields -/

/-- A field of a record. -/
structure Field (S : Type u) (A : Type v) where
  /-- The value. -/
  get : S → A
  /-- The record with another value. -/
  set : S → A → S
  /-- The value is the one that was set. -/
  get_set : ∀ s a, get (set s a) = a := by intros; rfl
  /-- Nothing else is set. -/
  set_get : ∀ s, set s (get s) = s := by intros; rfl
  /-- It is set once. -/
  set_set : ∀ s a b, set (set s a) b = set s b := by intros; rfl

namespace Field

/-- Two fields have nothing in common. -/
def Apart (f : Field S A) (g : Field S B) : Prop := ∀ s a b, f.set (g.set s b) a = g.set (f.set s a) b

/-- A field of a field. -/
def comp {S : Type u} {A B : Type v} (f : Field S A) (g : Field A B) : Field S B where
  get s := g.get (f.get s)
  set s b := f.set s (g.set (f.get s) b)
  get_set s b := by rw [f.get_set, g.get_set]
  set_get s := by rw [g.set_get, f.set_get]
  set_set s a b := by rw [f.get_set, f.set_set, g.set_set]

/-- The value under a key of a map. -/
def atKey {K : Type u} {A : Type v} [DecidableEq K] (k : K) : Field (K → A) A where
  get m := m k
  set m a := Function.update m k a
  get_set m a := Function.update_self k a m
  set_get m := Function.update_eq_self k m
  set_set m a b := Function.update_idem a b m

section

variable {f : Field S A} {g : Field S B}

theorem Apart.symm (h : f.Apart g) : g.Apart f := fun s b a => (h s a b).symm

/-- A field is not changed when another one is set. -/
theorem Apart.get_set (h : f.Apart g) (s : S) (b : B) : f.get (g.set s b) = f.get s := by
  have heq : g.set s b = f.set (g.set s b) (f.get s) := by
    rw [h s (f.get s) b, f.set_get]
  rw [heq, f.get_set]

end

theorem apart_atKey {K : Type u} {A : Type v} [DecidableEq K] {k k' : K} (h : k ≠ k') :
    (atKey k : Field (K → A) A).Apart (atKey k') := by
  intro m a b
  show Function.update (Function.update m k' b) k a = Function.update (Function.update m k a) k' b
  exact Function.update_comm h.symm b a m

section

variable {S : Type u} {A B A' B' : Type u} {f : Field S A} {g : Field S B}

/-- Fields of fields that have nothing in common. -/
theorem Apart.comp (h : f.Apart g) (f' : Field A A') (g' : Field B B') : (f.comp f').Apart (g.comp g') := by
  intro s a b
  show f.set (g.set s _) (f'.set (f.get (g.set s _)) a) = g.set (f.set s _) (g'.set (g.get (f.set s _)) b)
  rw [h.get_set, h.symm.get_set, h]

/-- Fields of one field that have nothing in common. -/
theorem Apart.within {f' : Field A A'} {g' : Field A B'} (h : f'.Apart g') (f : Field S A) :
    (f.comp f').Apart (f.comp g') := by
  intro s a b
  show f.set (f.set s _) (f'.set (f.get (f.set s _)) a) = f.set (f.set s _) (g'.set (f.get (f.set s _)) b)
  rw [f.get_set, f.get_set, f.set_set, f.set_set, h]

end

end Field

/-! ### The last value of each key -/

variable {κ : Type u} {ν : Type v} {σ : Type w} [DecidableEq κ]

/-- The last value of a key. -/
def lastOf (k : κ) : List (κ × ν) → Option ν
  | [] => none
  | (k', v) :: l => (lastOf k l).or (if k' = k then some v else none)

/-- The last value of each key. -/
def lasts : List (κ × ν) → List (κ × ν)
  | [] => []
  | (k, v) :: l => if k ∈ l.map Prod.fst then lasts l else (k, v) :: lasts l

variable {k k' : κ} {v v' : ν} {l l' : List (κ × ν)}

theorem lastOf_eq_none_iff : lastOf k l = none ↔ k ∉ l.map Prod.fst := by
  induction l with
  | nil => exact iff_of_true rfl List.not_mem_nil
  | cons x l ih =>
    obtain ⟨k', v⟩ := x
    rw [lastOf, Option.or_eq_none_iff, ih, List.map_cons, List.mem_cons, not_or, and_comm]
    refine and_congr_left fun _ => ?_
    split
    · next h => exact iff_of_false nofun fun hne => hne h.symm
    · next h => exact iff_of_true rfl fun heq => h heq.symm

theorem lasts_sublist : (lasts l).Sublist l := by
  induction l with
  | nil => exact .slnil
  | cons x l ih =>
    obtain ⟨k, v⟩ := x
    rw [lasts]
    split
    · exact ih.cons _
    · exact ih.cons_cons _

theorem nodup_lasts : ((lasts l).map Prod.fst).Nodup := by
  induction l with
  | nil => exact List.nodup_nil
  | cons x l ih =>
    obtain ⟨k, v⟩ := x
    rw [lasts]
    split
    · exact ih
    · next h => exact List.nodup_cons.2 ⟨fun hmem => h ((lasts_sublist.map _).subset hmem), ih⟩

theorem mem_lasts_iff : (k, v) ∈ lasts l ↔ lastOf k l = some v := by
  induction l with
  | nil => exact iff_of_false List.not_mem_nil nofun
  | cons x l ih =>
    obtain ⟨k', v'⟩ := x
    rw [lasts, lastOf]
    by_cases hk : k ∈ l.map Prod.fst
    · -- there is a later value of the key
      obtain ⟨w, hw⟩ := Option.ne_none_iff_exists'.1 fun h => lastOf_eq_none_iff.1 h hk
      rw [hw, Option.some_or, ← hw, ← ih]
      split
      · rfl
      · next h =>
        refine List.mem_cons.trans (or_iff_right fun heq => h ?_)
        exact (Prod.mk.inj heq).1 ▸ hk
    · have hnone : lastOf k l = none := lastOf_eq_none_iff.2 hk
      have hnot : (k, v) ∉ lasts l := fun h => Option.some_ne_none _ ((ih.1 h).symm.trans hnone)
      rw [hnone, Option.none_or]
      by_cases heq : k' = k
      · subst heq
        rw [if_neg hk, if_pos rfl, List.mem_cons, or_iff_left hnot, Prod.mk.injEq, Option.some.injEq,
          and_iff_right rfl, eq_comm]
      · rw [if_neg heq]
        refine iff_of_false (fun h => ?_) nofun
        split at h
        · exact hnot h
        · rcases List.mem_cons.1 h with h | h
          · exact heq (Prod.mk.inj h).1.symm
          · exact hnot h

section Changes

variable {change : κ → ν → σ → σ} {accepted : κ → ν → Prop}

/-- A change has no effect if there is a later one under the same key. -/
theorem foldl_absorb (hsame : ∀ k v v' s, accepted k v → accepted k v' → change k v' (change k v s) = change k v' s)
    (hcomm : ∀ k k' v v' s, accepted k v → accepted k' v' → k ≠ k' →
      change k v (change k' v' s) = change k' v' (change k v s))
    (hl : ∀ x ∈ l, accepted x.1 x.2) (hv : accepted k v) (hk : k ∈ l.map Prod.fst) (s : σ) :
    l.foldl (fun s x => change x.1 x.2 s) (change k v s) = l.foldl (fun s x => change x.1 x.2 s) s := by
  induction l generalizing s with
  | nil => exact absurd hk List.not_mem_nil
  | cons x l ih =>
    obtain ⟨k', v'⟩ := x
    obtain ⟨hx, hl⟩ := List.forall_mem_cons.1 hl
    rw [List.foldl_cons, List.foldl_cons]
    by_cases heq : k' = k
    · subst heq
      rw [hsame _ _ _ _ hv hx]
    · rw [hcomm _ _ _ _ _ hx hv heq]
      exact ih hl ((List.mem_cons.1 hk).resolve_left fun h => heq h.symm) _

/-- **The last value of each key** is all that matters, for changes that overwrite each other under one key and commute
under two. -/
theorem foldl_eq_of_lastOf
    (hsame : ∀ k v v' s, accepted k v → accepted k v' → change k v' (change k v s) = change k v' s)
    (hcomm : ∀ k k' v v' s, accepted k v → accepted k' v' → k ≠ k' →
      change k v (change k' v' s) = change k' v' (change k v s))
    (hl : ∀ x ∈ l, accepted x.1 x.2) (hl' : ∀ x ∈ l', accepted x.1 x.2) (h : ∀ k, lastOf k l = lastOf k l')
    (s : σ) : l.foldl (fun s x => change x.1 x.2 s) s = l'.foldl (fun s x => change x.1 x.2 s) s := by
  have hlasts {l : List (κ × ν)} (hl : ∀ x ∈ l, accepted x.1 x.2) (s : σ) :
      l.foldl (fun s x => change x.1 x.2 s) s = (lasts l).foldl (fun s x => change x.1 x.2 s) s := by
    induction l generalizing s with
    | nil => rfl
    | cons x l ih =>
      obtain ⟨k, v⟩ := x
      obtain ⟨hx, hl⟩ := List.forall_mem_cons.1 hl
      rw [lasts, List.foldl_cons]
      split
      · next hk => exact (foldl_absorb hsame hcomm hl hx hk s).trans (ih hl s)
      · exact ih hl _
  have hperm : (lasts l).Perm (lasts l') := by
    refine (List.perm_ext_iff_of_nodup nodup_lasts.of_map nodup_lasts.of_map).2 fun x => ?_
    rw [mem_lasts_iff, mem_lasts_iff, h]
  have haccepted : ∀ x ∈ lasts l, accepted x.1 x.2 := fun x hx => hl x (lasts_sublist.subset hx)
  rw [hlasts hl, hlasts hl']
  refine hperm.foldl_eq' (fun x hx y hy s => ?_) s
  by_cases heq : x = y
  · rw [heq]
  · refine hcomm _ _ _ _ _ (haccepted y hy) (haccepted x hx) fun hkey => heq ?_
    exact (List.inj_on_of_nodup_map nodup_lasts hy hx hkey).symm

end Changes

end Subordination.Library
