import Subordination.Core.Outlines
import Subordination.Library.Assignments

/-!
# Resources that refer to each other

The daemon evaluates the configured expressions in the order of a hash table, against the bindings that it fills
in the same loop (`Main::Main`, `daemon/main.cc`). A name that is not bound yet is a false value.

## The model

The table has one expression for each name, and its entries come in any order.

## What is proved

* `sameInEveryOrder_iff` — when every order gives the same bindings.
* `sameInEveryOrder_of_apart` — expressions that refer to none of the configured names are bound in any order.
-/

namespace Subordination.Core.Resources

open Library

/-- `Properties::Resources::expressions`: one expression for each name. -/
structure ResourceExpressions where
  /-- The entries of the table. -/
  entries : List (List UInt8 × Expression)
  /-- No two of them have the same name. -/
  nodup : (entries.map Prod.fst).Nodup

/-! ### Names in expressions -/

/-- The names that an expression refers to. -/
def Expression.names : Expression → List (List UInt8)
  | .name s => [s]
  | .unary _ arg => arg.names
  | .binary _ a b => a.names ++ b.names
  | _ => []

/-- The value of an expression depends on the resources and on the names that it refers to. -/
theorem Expression.evaluate_congr {b b' : Bindings} {e : Expression} (hdata : b.data = b'.data)
    (hnames : ∀ s ∈ e.names, b.name s = b'.name s) : e.evaluate b = e.evaluate b' := by
  induction e with
  | null => rfl
  | symbol r => rw [evaluate, evaluate, hdata]
  | constant v => rfl
  | name s => rw [evaluate, evaluate, hnames s List.mem_cons_self]
  | unary op arg ih =>
    cases op with
    | not => rw [evaluate, evaluate, ih hnames]
    | negate => rw [evaluate, evaluate, ih hnames]
  | binary op x y ihx ihy =>
    rw [evaluate, evaluate, ihx fun s hs => hnames s (List.mem_append_left _ hs),
      ihy fun s hs => hnames s (List.mem_append_right _ hs)]

namespace ResourceExpressions

/-- No expression refers to its own name, directly or through other expressions. -/
def Acyclic (t : ResourceExpressions) : Prop :=
  ∃ rank : List UInt8 → ℕ, ∀ x ∈ t.entries, ∀ y ∈ t.entries, y.1 ∈ x.2.names → rank y.1 < rank x.1

/-- Every order of the table gives the same bindings, in which each name has the value of its expression under
these bindings. -/
def SameInEveryOrder (t : ResourceExpressions) (context : Bindings) : Prop :=
  ∃ final : Bindings, ∀ order : List (List UInt8 × Expression), order.Perm t.entries →
    ∃ b, evaluateResources order context = .ok b ∧
      (b.data = final.data ∧ ∀ s, b.symbols.lookup s = final.symbols.lookup s) ∧
      ∀ x ∈ t.entries, ∃ v, x.2.evaluate b = .ok v ∧ b.symbols.lookup x.1 = some v

/-- The bindings with some names bound to values that are given. -/
def bind (V : List UInt8 → Any) (context : Bindings) (ks : List (List UInt8)) : Bindings :=
  ks.foldl (fun b k => { b with symbols := b.symbols.insert k (V k) }) context

/-- The expressions have the values, whichever other names of the table are bound to their values, and when all
are. -/
def HaveValues (t : ResourceExpressions) (context : Bindings) (V : List UInt8 → Any) : Prop :=
  ∀ x ∈ t.entries, ∀ ks : List (List UInt8), ks ⊆ t.entries.map Prod.fst →
    x.1 ∉ ks ∨ t.entries.map Prod.fst ⊆ ks → x.2.evaluate (bind V context ks) = .ok (V x.1)

/-! ### The bindings as a store -/

/-- The names of bindings are set, and the resources are not. -/
def store : Store Bindings (List UInt8) Any (Fin numResources → Any) where
  get b s := b.symbols.lookup s
  set b k v := { b with symbols := b.symbols.insert k v }
  rest b := b.data
  get_set b k v s := by
    by_cases hs : s = k
    · subst hs
      rw [if_pos rfl, AList.lookup_insert]
    · rw [if_neg hs, AList.lookup_insert_ne hs]
  rest_set _ _ _ := rfl

/-- The rule of an expression. -/
def rule (e : Expression) : store.Rule Trap where
  compute := e.evaluate
  congr b b' h := Expression.evaluate_congr h.rest fun s _ => by
    have hget : b.symbols.lookup s = b'.symbols.lookup s := h.get s
    rw [Bindings.name, Bindings.name, hget]

/-- The rules of the entries of a table. -/
def rules (es : List (List UInt8 × Expression)) : List (List UInt8 × store.Rule Trap) :=
  es.map fun x => (x.1, rule x.2)

/-- The loop of the daemon is a run of the rules. -/
theorem run_rules (es : List (List UInt8 × Expression)) (context : Bindings) :
    store.run (rules es) context = evaluateResources es context := by
  induction es generalizing context with
  | nil => rfl
  | cons x es ih =>
    obtain ⟨k, e⟩ := x
    rw [evaluateResources, rules, List.map_cons, Store.run]
    change (e.evaluate context >>= fun v => _) = _
    cases e.evaluate context with
    | error _ => rfl
    | ok v => exact ih _

theorem names_rules (es : List (List UInt8 × Expression)) : store.names (rules es) = es.map Prod.fst := by
  rw [Store.names, rules, List.map_map]
  rfl

variable {t : ResourceExpressions} {context : Bindings}

/-- An order of the rules is one of the entries. -/
theorem exists_order_of_rules {order : List (List UInt8 × store.Rule Trap)} {es : List (List UInt8 × Expression)}
    (h : order.Perm (rules es)) : ∃ es', order = rules es' ∧ es'.Perm es := by
  have hcomp := congrFun₂ (List.eq_map_comp_perm fun x : List UInt8 × Expression => (x.1, rule x.2)) order es
  exact hcomp.mpr h

theorem confluent_rules_iff : store.Confluent (rules t.entries) context ↔ t.SameInEveryOrder context := by
  constructor
  · rintro ⟨final, hfinal⟩
    refine ⟨final, fun order horder => ?_⟩
    obtain ⟨b, hrun, hsame, hvalues⟩ := hfinal (rules order) (horder.map _)
    rw [run_rules] at hrun
    exact ⟨b, hrun, ⟨hsame.rest, hsame.get⟩, fun x hx => hvalues (x.1, rule x.2) (List.mem_map_of_mem hx)⟩
  · rintro ⟨final, hfinal⟩
    refine ⟨final, fun order horder => ?_⟩
    obtain ⟨es, rfl, hes⟩ := exists_order_of_rules horder
    obtain ⟨b, hrun, ⟨hdata, hlookup⟩, hvalues⟩ := hfinal es hes
    refine ⟨b, (run_rules es context).trans hrun, ⟨hlookup, hdata⟩, fun y hy => ?_⟩
    obtain ⟨x, hx, rfl⟩ := List.mem_map.mp hy
    exact hvalues x hx

theorem settled_rules_iff {V : List UInt8 → Any} :
    store.Settled (rules t.entries) context V ↔ t.HaveValues context V := by
  rw [Store.Settled, HaveValues, names_rules, rules, List.forall_mem_map]
  rfl

theorem nodup_names_rules (t : ResourceExpressions) : (store.names (rules t.entries)).Nodup :=
  (names_rules t.entries).symm ▸ t.nodup

theorem HaveValues.sameInEveryOrder {V : List UInt8 → Any} (h : t.HaveValues context V) :
    t.SameInEveryOrder context :=
  confluent_rules_iff.mp ((settled_rules_iff.mpr h).confluent (nodup_names_rules t))

/-- **Every order gives the same bindings** if and only if there are values that each expression has, whichever of
the other names are bound to theirs by then. -/
theorem sameInEveryOrder_iff (t : ResourceExpressions) (context : Bindings) :
    t.SameInEveryOrder context ↔ ∃ V, t.HaveValues context V := by
  have : Nonempty Any := ⟨.boolean false⟩
  rw [← confluent_rules_iff, Store.confluent_iff (nodup_names_rules t)]
  exact exists_congr fun V => settled_rules_iff

/-- `a` is `b`, and `b` is 2. -/
def aliased : ResourceExpressions where
  entries := [(ascii ['a'], .name (ascii ['b'])), (ascii ['b'], .constant (.u64 2))]
  nodup := by decide

/-- If `a` comes before `b`, it is bound to a false value. -/
theorem sameInEveryOrder_fails :
    ¬ ∀ (t : ResourceExpressions) (context : Bindings), t.Acyclic → t.SameInEveryOrder context := by
  intro h
  obtain ⟨final, hfinal⟩ := h aliased default
    ⟨fun s => if s = ascii ['a'] then 1 else 0, by simp [aliased, Expression.names, ascii]⟩
  obtain ⟨b, hrun, -, hvalues⟩ := hfinal aliased.entries (List.Perm.refl _)
  obtain ⟨v, hv, hbound⟩ := hvalues (ascii ['a'], .name (ascii ['b'])) List.mem_cons_self
  cases hrun
  cases hv
  exact absurd hbound (by decide)

/-! ### Expressions that are apart -/

/-- The resources and the names that are not in the list stay as they are. -/
theorem bind_frame (V : List UInt8 → Any) (context : Bindings) (ks : List (List UInt8)) :
    (bind V context ks).data = context.data ∧ ∀ s ∉ ks, (bind V context ks).name s = context.name s := by
  have hrest : store.rest (store.setAll V context ks) = store.rest context := Store.rest_setAll
  refine ⟨hrest, fun s hs => ?_⟩
  have hset : store.get (store.setAll V context ks) s = store.get context s := by
    rw [Store.get_setAll, if_neg hs]
  have hget : (bind V context ks).symbols.lookup s = context.symbols.lookup s := hset
  rw [Bindings.name, Bindings.name, hget]

/-- **Expressions that are apart** are bound in any order: none refers to a name of the table, and each has a
value. -/
theorem sameInEveryOrder_of_apart (hapart : ∀ x ∈ t.entries, ∀ y ∈ t.entries, y.1 ∉ x.2.names)
    (hvalues : ∀ x ∈ t.entries, x.2.Safe context) : t.SameInEveryOrder context := by
  let V : List UInt8 → Any := fun s => ((t.entries.find? (·.1 = s)).map (·.2.meaning context)).getD (.boolean false)
  have hV : ∀ x ∈ t.entries, V x.1 = x.2.meaning context := by
    intro x hx
    have hfound : (t.entries.find? (·.1 = x.1)).isSome = true := List.find?_isSome.mpr ⟨x, hx, by simp⟩
    obtain ⟨y, hy⟩ := Option.isSome_iff_exists.mp hfound
    have hname : y.1 = x.1 := by simpa using List.find?_some hy
    have hsame : y = x := List.inj_on_of_nodup_map t.nodup (List.mem_of_find?_eq_some hy) hx hname
    simp only [V, hy, hsame, Option.map_some, Option.getD_some]
  have hsettled : t.HaveValues context V := by
    intro x hx ks hks _
    obtain ⟨hdata, hframe⟩ := bind_frame V context ks
    have hnames : ∀ s ∈ x.2.names, (bind V context ks).name s = context.name s := by
      intro s hs
      refine hframe s fun hmem => ?_
      obtain ⟨y, hy, rfl⟩ := List.mem_map.mp (hks hmem)
      exact hapart x hx y hy hs
    rw [Expression.evaluate_congr hdata hnames, Expression.evaluate_of_safe (hvalues x hx), hV x hx]
  exact hsettled.sameInEveryOrder

end ResourceExpressions

end Subordination.Core.Resources
