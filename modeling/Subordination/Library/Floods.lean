import Mathlib.Combinatorics.SimpleGraph.Acyclic
import Mathlib.Data.Fintype.Card
import Subordination.Library.System

/-!
# Floods

A message spreads through a graph: a node that gets it handles it, and passes it on to all of its
neighbours but the one it has come from. Nobody remembers what has been handled.

A message that is on its way has left a trail of nodes behind it, a walk that never goes back over the
edge that it has just come by. Where nothing goes round there is one such walk to a node, so the node
handles one message; a cycle is gone round for ever.
-/

namespace Subordination.Library

universe u

/-! ### Messages -/

/-- A flood: the messages on their way, each with the node it comes from and the one it goes to, and the
nodes that have handled one, oldest first. -/
structure Flood (V : Type u) where
  /-- The messages that are on their way. -/
  pending : List (V × V)
  /-- The nodes that have handled a message. -/
  handled : List V := []

namespace Flood

variable {V : Type u} [DecidableEq V]

/-- What the node `v` passes on of a message that has come from `u`. -/
def relay (next : V → List V) (u v : V) : List (V × V) := ((next v).filter (· ≠ u)).map (v, ·)

/-- A flood that starts at `s`. -/
def system (next : V → List V) (s : V) : System (Flood V) where
  Initial f := f = { pending := (next s).map (s, ·) }
  Step f f' := ∃ before u v after, f.pending = before ++ (u, v) :: after ∧
    f' = { pending := before ++ after ++ relay next u v, handled := f.handled ++ [v] }

/-- No cycle can be reached from the node. -/
def NoCycleFrom (G : SimpleGraph V) (s : V) : Prop :=
  ∀ v, G.Reachable s v → ∀ c : G.Walk v v, ¬ c.IsCycle

/-! ### Trails -/

/-- The nodes that a message has been at, and the one that it goes to. -/
structure Trail (V : Type u) where
  /-- Where it goes. -/
  node : V
  /-- Where it comes from. -/
  origin : V
  /-- The nodes before that one, latest first. -/
  past : List V
  deriving DecidableEq

namespace Trail

/-- All nodes, latest first. -/
def nodes (t : Trail V) : List V := t.node :: t.origin :: t.past

/-- The message. -/
def message (t : Trail V) : V × V := (t.origin, t.node)

/-- The message goes on to `w`. -/
def goOn (t : Trail V) (w : V) : Trail V := ⟨w, t.node, t.origin :: t.past⟩

/-- What becomes of a message when it is passed on. -/
def relayed (next : V → List V) (t : Trail V) : List (Trail V) :=
  ((next t.node).filter (· ≠ t.origin)).map t.goOn

/-- The trails of the messages of a flood. -/
inductive Valid (next : V → List V) (s : V) : Trail V → Prop
  /-- The flood starts. -/
  | first {v : V} : v ∈ next s → Valid next s ⟨v, s, []⟩
  /-- A message is passed on. -/
  | relay {t : Trail V} {w : V} : Valid next s t → w ∈ next t.node → w ≠ t.origin → Valid next s (t.goOn w)

omit [DecidableEq V] in
theorem nodes_injective : Function.Injective (nodes : Trail V → List V) := by
  rintro ⟨v, u, past⟩ ⟨v', u', past'⟩ h
  cases h
  rfl

omit [DecidableEq V] in
theorem goOn_injective (t : Trail V) : Function.Injective t.goOn := fun _ _ h => congrArg node h

omit [DecidableEq V] in
theorem goOn_inj {t t' : Trail V} {w w' : V} (h : t.goOn w = t'.goOn w') : t = t' := by
  cases t
  cases t'
  cases h
  rfl

theorem mem_relayed {next : V → List V} {t x : Trail V} :
    x ∈ t.relayed next ↔ ∃ w ∈ next t.node, w ≠ t.origin ∧ x = t.goOn w := by
  unfold relayed
  rw [List.mem_map]
  constructor
  · rintro ⟨w, hw, rfl⟩
    obtain ⟨hw, hne⟩ := List.mem_filter.mp hw
    exact ⟨w, hw, of_decide_eq_true hne, rfl⟩
  · rintro ⟨w, hw, hne, rfl⟩
    exact ⟨w, List.mem_filter.mpr ⟨hw, decide_eq_true hne⟩, rfl⟩

theorem nodup_relayed {next : V → List V} {t : Trail V} (h : (next t.node).Nodup) : (t.relayed next).Nodup :=
  (h.filter _).map t.goOn_injective

theorem message_relayed (next : V → List V) (t : Trail V) :
    (t.relayed next).map message = Flood.relay next t.origin t.node := by
  unfold relayed Flood.relay
  rw [List.map_map]
  rfl

end Trail

/-! ### What has been handled -/

/-- The messages of a flood with their trails. -/
structure Traced (next : V → List V) (s : V) (f : Flood V) (pending handled : List (Trail V)) : Prop where
  /-- The messages that are on their way. -/
  pending_eq : f.pending = pending.map Trail.message
  /-- The messages that have been handled. -/
  handled_eq : f.handled = handled.map Trail.node
  /-- No trail comes twice. -/
  nodup : (pending ++ handled).Nodup
  /-- The trails are those of messages. -/
  valid : ∀ t ∈ pending ++ handled, Trail.Valid next s t
  /-- A message that has been passed on has been handled. -/
  passed : ∀ t w, t.goOn w ∈ pending ++ handled → t ∈ handled

variable {next : V → List V} {s : V} {f f' : Flood V}

omit [DecidableEq V] in
theorem Traced.initial (hnodup : (next s).Nodup) :
    Traced next s { pending := (next s).map (s, ·) } ((next s).map (⟨·, s, []⟩)) [] where
  pending_eq := by
    rw [List.map_map]
    rfl
  handled_eq := rfl
  nodup := by
    rw [List.append_nil]
    exact hnodup.map fun _ _ h => congrArg Trail.node h
  valid := by
    intro t ht
    rw [List.append_nil] at ht
    obtain ⟨v, hv, rfl⟩ := List.mem_map.mp ht
    exact .first hv
  passed := by
    intro t w ht
    rw [List.append_nil] at ht
    obtain ⟨v, -, hv⟩ := List.mem_map.mp ht
    exact absurd (congrArg Trail.past hv) (List.cons_ne_nil _ _).symm

/-- What a message is passed on as has not been sent before the message is handled. -/
theorem Traced.fresh {pending handled : List (Trail V)} {t : Trail V} (h : Traced next s f pending handled)
    (ht : t ∉ handled) : ∀ x ∈ t.relayed next, x ∉ pending ++ handled := by
  intro x hx hold
  obtain ⟨w, -, -, rfl⟩ := Trail.mem_relayed.mp hx
  exact ht (h.passed t w hold)

/-- **One message is handled** and passed on along trails that are new. -/
theorem Traced.deliver (hnodup : ∀ v, (next v).Nodup) {before after handled : List (Trail V)} {t : Trail V}
    (h : Traced next s f (before ++ t :: after) handled) :
    Traced next s
      { pending := (before ++ after).map Trail.message ++ relay next t.origin t.node
        handled := f.handled ++ [t.node] }
      (before ++ after ++ t.relayed next) (handled ++ [t]) := by
  have hperm : (before ++ t :: after ++ handled).Perm (t :: (before ++ after ++ handled)) := by
    rw [List.append_assoc, List.cons_append, List.append_assoc]
    exact List.perm_middle
  -- the message moves from those on their way to those handled
  have hall : (before ++ after ++ t.relayed next ++ (handled ++ [t])).Perm
      (t.relayed next ++ (before ++ t :: after ++ handled)) := by
    rw [List.perm_iff_count]
    intro x
    simp only [List.count_append, List.count_cons, List.count_nil]
    omega
  have hmem : ∀ x, x ∈ before ++ after ++ t.relayed next ++ (handled ++ [t]) ↔
      x ∈ t.relayed next ∨ x ∈ before ++ t :: after ++ handled := fun x =>
    hall.mem_iff.trans List.mem_append
  refine ⟨?_, ?_, ?_, ?_, ?_⟩
  · simp only [List.map_append, Trail.message_relayed]
  · simp [h.handled_eq]
  · have hnew : t ∉ before ++ after ++ handled := (List.nodup_cons.mp (hperm.nodup_iff.mp h.nodup)).1
    have hfresh := h.fresh fun ht => hnew (List.mem_append_right _ ht)
    refine hall.nodup_iff.mpr (List.nodup_append.mpr ⟨Trail.nodup_relayed (hnodup t.node), h.nodup, ?_⟩)
    rintro x hx y hy rfl
    exact hfresh x hx hy
  · intro x hx
    rcases (hmem x).mp hx with hx | hx
    · obtain ⟨w, hw, hne, rfl⟩ := Trail.mem_relayed.mp hx
      exact .relay (h.valid t (hperm.mem_iff.mpr List.mem_cons_self)) hw hne
    · exact h.valid x hx
  · intro x w hx
    rcases (hmem _).mp hx with hx | hx
    · obtain ⟨w', -, -, heq⟩ := Trail.mem_relayed.mp hx
      obtain rfl := Trail.goOn_inj heq
      exact List.mem_append_right _ (List.mem_singleton.mpr rfl)
    · exact List.mem_append_left _ (h.passed x w hx)

/-- Every message of a flood has a trail. -/
theorem exists_traced (hnodup : ∀ v, (next v).Nodup) (h : (system next s).Reachable f) :
    ∃ pending handled, Traced next s f pending handled := by
  refine h.invariant (p := fun f => ∃ pending handled, Traced next s f pending handled) ?_ ?_
  · rintro f rfl
    exact ⟨_, _, Traced.initial (hnodup s)⟩
  · rintro f f' ⟨pending, handled, htraced⟩ ⟨before, u, v, after, hpending, rfl⟩
    rw [htraced.pending_eq] at hpending
    obtain ⟨before', after', rfl, hbefore, hafter⟩ := List.map_eq_append_iff.mp hpending
    obtain ⟨t, after', rfl, ht, rfl⟩ := List.map_eq_cons_iff.mp hafter
    cases ht
    have hdelivered := htraced.deliver hnodup
    rw [List.map_append, hbefore] at hdelivered
    exact ⟨_, _, hdelivered⟩

/-! ### Trails are walks -/

section Graph

variable {G : SimpleGraph V} (hnext : ∀ u v, v ∈ next u ↔ G.Adj u v)

/-- The part of a graph that can be reached from a node. -/
def reachedFrom (G : SimpleGraph V) (s : V) : SimpleGraph V where
  Adj u v := G.Adj u v ∧ G.Reachable s u
  symm := ⟨fun _ _ h => ⟨h.1.symm, h.2.trans h.1.reachable⟩⟩
  loopless := ⟨fun _ h => h.1.ne rfl⟩

omit [DecidableEq V] in
theorem reachedFrom_le (G : SimpleGraph V) (s : V) : reachedFrom G s ≤ G := fun _ _ h => h.1

omit [DecidableEq V] in
theorem NoCycleFrom.isAcyclic (h : NoCycleFrom G s) : (reachedFrom G s).IsAcyclic := by
  intro v c hc
  have hreachable : G.Reachable s v := by
    cases c with
    | nil => exact absurd rfl hc.ne_nil
    | cons hadj c => exact hadj.2
  exact h v hreachable _ (hc.mapLe (reachedFrom_le G s))

include hnext

omit [DecidableEq V] in
/-- A trail is a walk that does not go back over the edge it has just come by. -/
theorem Trail.Valid.exists_walk {t : Trail V} (h : t.Valid next s) :
    G.Reachable s t.node ∧ ∃ p : (reachedFrom G s).Walk t.node s, p.support = t.nodes ∧
      p.edges.IsChain (· ≠ ·) ∧ p.edges.head? = some s(t.node, t.origin) := by
  induction h with
  | @first v hv =>
    have hadj : G.Adj s v := (hnext s v).mp hv
    have hreached : (reachedFrom G s).Adj v s := ⟨hadj.symm, hadj.reachable⟩
    refine ⟨hadj.reachable, hreached.toWalk, rfl, ?_, rfl⟩
    exact List.isChain_singleton _
  | @relay t w _ hw hne ih =>
    obtain ⟨hreachable, p, hsupport, hchain, hhead⟩ := ih
    have hadj : G.Adj t.node w := (hnext t.node w).mp hw
    have hreached : (reachedFrom G s).Adj w t.node := ⟨hadj.symm, hreachable.trans hadj.reachable⟩
    refine ⟨hreachable.trans hadj.reachable, .cons hreached p, ?_, ?_, rfl⟩
    · exact congrArg (w :: ·) hsupport
    · have hedges : (s(w, t.node) :: p.edges).IsChain (· ≠ ·) := by
        refine List.isChain_cons.mpr ⟨?_, hchain⟩
        intro e he
        rw [hhead] at he
        obtain rfl := Option.some.inj he
        intro heq
        rcases Sym2.eq_iff.mp heq with ⟨hwt, -⟩ | ⟨hwo, -⟩
        · exact hadj.ne hwt.symm
        · exact hne hwo
      exact hedges

omit [DecidableEq V] in
/-- Where nothing goes round, there is one trail to a node. -/
theorem Trail.Valid.eq_of_node (hacyclic : NoCycleFrom G s) {t t' : Trail V} (h : t.Valid next s)
    (h' : t'.Valid next s) (hnode : t.node = t'.node) : t = t' := by
  obtain ⟨-, p, hsupport, hchain, -⟩ := h.exists_walk hnext
  obtain ⟨-, q, hsupport', hchain', -⟩ := h'.exists_walk hnext
  have hp : p.IsPath := (hacyclic.isAcyclic.isPath_iff_isChain p).mpr hchain
  have hq : q.IsPath := (hacyclic.isAcyclic.isPath_iff_isChain q).mpr hchain'
  apply nodes_injective
  rw [← hsupport, ← hsupport']
  generalize t'.node = v at q hq hnode
  subst hnode
  have heq := (hacyclic.isAcyclic.subsingleton_path t.node s).elim ⟨p, hp⟩ ⟨q, hq⟩
  rw [congrArg (fun r => r.1.support) heq]

/-- **Where nothing goes round, a node handles at most one message**, and at most one has been sent to it. -/
theorem nodup_of_noCycleFrom (hnodup : ∀ v, (next v).Nodup) (hacyclic : NoCycleFrom G s)
    (h : (system next s).Reachable f) : (f.pending.map Prod.snd ++ f.handled).Nodup := by
  obtain ⟨ps, hs, htraced⟩ := exists_traced hnodup h
  have hnodes : f.pending.map Prod.snd ++ f.handled = (ps ++ hs).map Trail.node := by
    rw [htraced.pending_eq, htraced.handled_eq, List.map_map, List.map_append]
    rfl
  rw [hnodes]
  refine htraced.nodup.map_on ?_
  intro t ht t' ht' hnode
  exact (htraced.valid t ht).eq_of_node hnext hacyclic (htraced.valid t' ht') hnode

/-! ### Round a cycle -/

omit [DecidableEq V] in
/-- A walk that does not go back over the edge it has just come by is a trail. -/
theorem exists_trail {x : V} (p : G.Walk x s) (hp : ¬ p.Nil) (hchain : p.edges.IsChain (· ≠ ·)) :
    ∃ t : Trail V, t.Valid next s ∧ t.nodes = p.support := by
  induction p with
  | nil => exact absurd .nil hp
  | @cons x y s hadj p ih =>
    cases p with
    | nil => exact ⟨⟨x, y, []⟩, .first ((hnext y x).mpr hadj.symm), rfl⟩
    | @cons y z s hadj' p =>
      rw [SimpleGraph.Walk.edges_cons, List.isChain_cons] at hchain
      obtain ⟨t, ht, hnodes⟩ := ih SimpleGraph.Walk.not_nil_cons hchain.2
      obtain ⟨hnode, horigin⟩ : t.node = y ∧ t.origin = z := by
        rw [Trail.nodes, SimpleGraph.Walk.support_cons] at hnodes
        obtain ⟨hnode, hrest⟩ := List.cons.inj hnodes
        cases p with
        | nil => exact ⟨hnode, (List.cons.inj hrest).1⟩
        | cons hadj'' p => exact ⟨hnode, (List.cons.inj hrest).1⟩
      have hne : x ≠ t.origin := by
        rintro rfl
        have hedge := hchain.1 s(y, z) rfl
        rw [horigin] at hedge
        exact hedge Sym2.eq_swap
      refine ⟨t.goOn x, .relay ht ((hnext t.node x).mpr (hnode ▸ hadj.symm)) hne, ?_⟩
      exact congrArg (x :: ·) hnodes

omit hnext in
/-- A message can follow every trail to its end. -/
theorem reachable_trail {t : Trail V} (h : t.Valid next s) : ∃ f, (system next s).Reachable f ∧
    t.message ∈ f.pending ∧ f.handled = (t.origin :: t.past).dropLast.reverse := by
  induction h with
  | @first v hv => exact ⟨_, .initial rfl, List.mem_map.mpr ⟨v, hv, rfl⟩, rfl⟩
  | @relay t w _ hw hne ih =>
    obtain ⟨f, hreachable, hpending, hhandled⟩ := ih
    obtain ⟨before, after, hpending⟩ := List.append_of_mem hpending
    refine ⟨_, hreachable.step ⟨before, t.origin, t.node, after, hpending, rfl⟩, ?_, ?_⟩
    · exact List.mem_append_right _ (List.mem_map.mpr ⟨w, List.mem_filter.mpr ⟨hw, decide_eq_true hne⟩, rfl⟩)
    · change f.handled ++ [t.node] = (t.node :: t.origin :: t.past).dropLast.reverse
      rw [List.dropLast_cons_cons, List.reverse_cons, hhandled]

/-- Where every node handles at most one message, a walk that does not go back comes to a node once. -/
theorem nodup_support (honce : ∀ f, (system next s).Reachable f → f.handled.Nodup) {x : V} (p : G.Walk x s)
    (hp : ¬ p.Nil) (hchain : p.edges.IsChain (· ≠ ·)) : p.support.dropLast.Nodup := by
  obtain ⟨t, ht, hnodes⟩ := exists_trail hnext p hp hchain
  obtain ⟨f, hreachable, hpending, hhandled⟩ := reachable_trail ht
  obtain ⟨before, after, hpending⟩ := List.append_of_mem hpending
  have hlast := honce _ (hreachable.step ⟨before, t.origin, t.node, after, hpending, rfl⟩)
  have hall : f.handled ++ [t.node] = p.support.dropLast.reverse := by
    rw [← hnodes, hhandled]
    exact (List.reverse_cons).symm
  rw [hall] at hlast
  exact List.nodup_reverse.mp hlast

omit hnext [DecidableEq V] in
/-- The edge by which one leaves a cycle is not the one by which one comes back. -/
theorem getLast_ne_head {v : V} {c : G.Walk v v} (hc : c.IsCycle) :
    ∀ x ∈ c.edges.getLast?, ∀ y ∈ c.edges.head?, x ≠ y := by
  have hnodup : c.edges.Nodup := hc.edges_nodup
  have hlength : 3 ≤ c.edges.length := c.length_edges ▸ hc.three_le_length
  intro x hx y hy hxy
  cases hedges : c.edges with
  | nil =>
    rw [hedges] at hlength
    exact absurd hlength (by decide : ¬ 3 ≤ 0)
  | cons a l =>
    rw [hedges] at hnodup hlength hx hy
    obtain rfl : a = y := Option.some.inj hy
    cases l with
    | nil => exact absurd hlength (by decide : ¬ 3 ≤ 1)
    | cons b l =>
      rw [List.getLast?_cons_cons] at hx
      exact (List.nodup_cons.mp hnodup).1 (hxy ▸ List.mem_of_getLast? hx)

omit hnext [DecidableEq V] in
/-- A cycle can be gone round so that one comes back by another edge than the given one. -/
theorem exists_cycle_avoiding {v : V} {c : G.Walk v v} (hc : c.IsCycle) (e : Option (Sym2 V)) :
    ∃ c' : G.Walk v v, c'.IsCycle ∧ ∀ x ∈ c'.edges.getLast?, ∀ y ∈ e, x ≠ y := by
  by_cases hlast : ∀ x ∈ c.edges.getLast?, ∀ y ∈ e, x ≠ y
  · exact ⟨c, hc, hlast⟩
  · refine ⟨c.reverse, hc.reverse, ?_⟩
    intro x hx y hy hxy
    rw [SimpleGraph.Walk.edges_reverse, List.getLast?_reverse] at hx
    refine hlast ?_
    intro z hz y' hy' hzy
    have hyy : y = y' := Option.some.inj (hy.symm.trans hy')
    exact getLast_ne_head hc z hz x hx (hzy.trans (hyy.symm.trans hxy.symm))

/-- **A cycle is gone round for ever.** -/
theorem noCycleFrom_of_once (honce : ∀ f, (system next s).Reachable f → f.handled.Nodup) : NoCycleFrom G s := by
  intro v hreachable c hc
  obtain ⟨p, hpath⟩ := hreachable.symm.exists_isPath
  obtain ⟨c, hc, hjoin⟩ := exists_cycle_avoiding hc p.edges.head?
  -- from the start to the cycle, and twice round it
  let q := c.append (c.append p)
  have hp : p.edges.IsChain (· ≠ ·) := hpath.isTrail.edges_nodup.isChain
  have hround : c.edges.IsChain (· ≠ ·) := hc.edges_nodup.isChain
  have hpos : 3 ≤ c.edges.length := c.length_edges ▸ hc.three_le_length
  have hchain : q.edges.IsChain (· ≠ ·) := by
    rw [SimpleGraph.Walk.edges_append, SimpleGraph.Walk.edges_append]
    refine List.isChain_append.mpr ⟨hround, List.isChain_append.mpr ⟨hround, hp, hjoin⟩, ?_⟩
    intro x hx y hy
    refine getLast_ne_head hc x hx y ?_
    cases hedges : c.edges with
    | nil =>
      rw [hedges] at hpos
      exact absurd hpos (by decide : ¬ 3 ≤ 0)
    | cons a l =>
      rw [hedges] at hy
      exact hy
  have hnil : ¬ q.Nil := by
    rw [← SimpleGraph.Walk.length_eq_zero_iff, SimpleGraph.Walk.length_append]
    rw [SimpleGraph.Walk.length_edges] at hpos
    omega
  have hnodup := nodup_support hnext honce q hnil hchain
  have hagain : v ∈ c.support.tail := SimpleGraph.Walk.end_mem_tail_support hc.not_nil
  have hgoes : (c.append p).support.tail ≠ [] := by
    rw [SimpleGraph.Walk.tail_support_append]
    exact List.append_ne_nil_of_left_ne_nil (List.ne_nil_of_mem hagain) _
  have hsupport : q.support.dropLast = v :: (c.support.tail ++ (c.append p).support.tail.dropLast) := by
    have hq : q.support = v :: q.support.tail := q.cons_tail_support.symm
    rw [hq, SimpleGraph.Walk.tail_support_append, List.dropLast_cons_of_ne_nil,
      List.dropLast_append_of_ne_nil hgoes]
    exact List.append_ne_nil_of_right_ne_nil _ hgoes
  rw [hsupport] at hnodup
  exact (List.nodup_cons.mp hnodup).1 (List.mem_append_left _ hagain)

/-- **A flood comes to every node at most once, and stops, if and only if no cycle can be reached** from the
node where it starts: then there are at most as many messages as there are nodes. -/
theorem once_iff [Fintype V] (hnodup : ∀ v, (next v).Nodup) :
    (∀ f, (system next s).Reachable f →
      f.handled.Nodup ∧ f.pending.length + f.handled.length ≤ Fintype.card V) ↔ NoCycleFrom G s := by
  constructor
  · intro honce
    exact noCycleFrom_of_once hnext fun f hf => (honce f hf).1
  · intro hacyclic f hf
    have hall := nodup_of_noCycleFrom hnext hnodup hacyclic hf
    refine ⟨(List.nodup_append.mp hall).2.1, ?_⟩
    have hcard := hall.length_le_card
    rw [List.length_append, List.length_map] at hcard
    exact hcard

end Graph

end Flood

end Subordination.Library
