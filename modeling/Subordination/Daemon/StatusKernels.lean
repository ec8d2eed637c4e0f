import Subordination.Daemon.PipelineStatus
import Subordination.Daemon.ReceivedHierarchies

/-!
# What a client is shown

A client of the daemon asks for the hierarchies of its interfaces and for its jobs (`sbnd::Status_kernel`,
`daemon/status_kernel.cc`; `sbnd::Job_status_kernel`, `daemon/job_status_kernel.cc`). The hierarchies are read with
the vectors of `daemon/byte_buffers.hh`, one after another into the same variable, of which copies are made; jobs are
read with those of `core/kernel_buffer.hh`, each into a new element.

## The model

Of the variable only the own record matters: the netmask and the table of the hierarchy before are gone when those of
the next one are read. Copying a null string is an error.

## What is proved

* `shown_iff` — which hierarchies a client is shown as they are.
* `status_shown_iff` — a client is shown the status of a daemon, in whatever order it comes, exactly if all interfaces
  have a superior or none has, and the tables are read back.
* `JobStatus.readsExactly` — which jobs a client is shown.
-/

namespace Subordination.Core

/-! ### Vectors that are read into one variable -/

section Through

variable {α β σ : Type} {entry : σ → ReadM (α × σ)} {bytes : β → List UInt8} {same : α → β → Prop}
  {takes : σ → β → Prop} {after : σ → β → σ}

/-- The loop of `operator>>(kernel_buffer&, std::vector<T>&)`: an element is read into the variable, and a copy is
kept. -/
def readThrough (entry : σ → ReadM (α × σ)) : ℕ → σ → ReadM (List α)
  | 0, _ => pure []
  | n + 1, s => do
    let (a, s) ← entry s
    let l ← readThrough entry n s
    pure (a :: l)

/-- An element is read into a variable exactly if that can take it. -/
structure ReadsThrough (entry : σ → ReadM (α × σ)) (bytes : β → List UInt8) (same : α → β → Prop)
    (takes : σ → β → Prop) (after : σ → β → σ) : Prop where
  /-- It is read. -/
  reads : ∀ {s : σ} {b : β}, takes s b → ∀ rest, ∃ a, entry s (bytes b ++ rest) = .ok (a, after s b) rest ∧ same a b
  /-- It could be taken if it was. -/
  only : ∀ {s s' : σ} {a : α} {b : β} {rest w : List UInt8}, entry s (bytes b ++ rest) = .ok (a, s') w → same a b →
    takes s b

/-- The elements can be taken one after another. -/
def TakesAll (takes : σ → β → Prop) (after : σ → β → σ) : σ → List β → Prop
  | _, [] => True
  | s, b :: bs => takes s b ∧ TakesAll takes after (after s b) bs

theorem length_readThrough {n : ℕ} {s : σ} {l : List α} {w w' : List UInt8}
    (h : readThrough entry n s w = .ok l w') : l.length = n := by
  induction n generalizing s l w with
  | zero =>
    cases h
    rfl
  | succ n ih =>
    obtain ⟨⟨a, s'⟩, w₁, -, h⟩ := bind_ok h
    obtain ⟨l, w₂, hl, h⟩ := bind_ok h
    cases h
    rw [List.length_cons, ih hl]

namespace ReadsThrough

variable (h : ReadsThrough entry bytes same takes after)
include h

theorem reads_all {s : σ} {bs : List β} (hbs : TakesAll takes after s bs) (rest : List UInt8) :
    ∃ l, readThrough entry bs.length s (bs.flatMap bytes ++ rest) = .ok l rest ∧ List.Forall₂ same l bs := by
  induction bs generalizing s with
  | nil => exact ⟨[], rfl, .nil⟩
  | cons b bs ih =>
    obtain ⟨a, ha, hsame⟩ := h.reads hbs.1 (bs.flatMap bytes ++ rest)
    obtain ⟨l, hl, hall⟩ := ih hbs.2
    rw [List.flatMap_cons, List.append_assoc]
    exact ⟨a :: l, bind_eq_ok ha (bind_eq_ok hl rfl), .cons hsame hall⟩

theorem takes_all {s : σ} {bs : List β} {l : List α} {rest w : List UInt8}
    (hok : readThrough entry bs.length s (bs.flatMap bytes ++ rest) = .ok l w) (hall : List.Forall₂ same l bs) :
    TakesAll takes after s bs := by
  induction bs generalizing s l with
  | nil => trivial
  | cons b bs ih =>
    rw [List.flatMap_cons, List.append_assoc] at hok
    obtain ⟨⟨a, s'⟩, w₁, ha, hok⟩ := bind_ok hok
    obtain ⟨l', w₂, hl, hok⟩ := bind_ok hok
    cases hok
    obtain ⟨hsame, hall⟩ := List.forall₂_cons.1 hall
    have htakes := h.only ha hsame
    obtain ⟨a', ha', -⟩ := h.reads htakes (bs.flatMap bytes ++ rest)
    -- the elements after this one are read from where they were written
    have heq := ha.symm.trans ha'
    injection heq with heq hw
    obtain rfl : s' = after s b := congrArg Prod.snd heq
    subst hw
    exact ⟨htakes, ih hl hall⟩

variable [ByteOrder]

/-- **A vector is read through a variable** exactly if its length fits 32 bits and the variable can take the elements
one after another. -/
theorem vector_iff (s : σ) (bs : List β) :
    (∀ rest, ∃ l, (readInt 4 >>= fun n => readThrough entry n s)
        (intBytes 4 (bs.length % 2 ^ 32) ++ bs.flatMap bytes ++ rest) = .ok l rest ∧ List.Forall₂ same l bs) ↔
      bs.length < 2 ^ 32 ∧ TakesAll takes after s bs := by
  have hmod : bs.length % 2 ^ 32 < 256 ^ 4 := Nat.mod_lt _ (by decide)
  simp only [List.append_assoc, (reads_int hmod).bind_apply]
  constructor
  · intro hreads
    obtain ⟨l, hl, hall⟩ := hreads []
    have hlength : bs.length < 2 ^ 32 := by
      rw [← hall.length_eq, length_readThrough hl]
      exact Nat.mod_lt _ (by decide)
    rw [Nat.mod_eq_of_lt hlength] at hl
    exact ⟨hlength, h.takes_all hl hall⟩
  · rintro ⟨hlength, htakes⟩ rest
    rw [Nat.mod_eq_of_lt hlength]
    exact h.reads_all htakes rest

end ReadsThrough

end Through

end Subordination.Core

namespace Subordination.Daemon

open Subordination.Core Subordination.Library
open Subordination.Core.Resources (Bindings BindingCells Cell)

/-! ### Hierarchies -/

/-- Where `new` finds room while a hierarchy is read, for its own record and for its table. -/
structure HierarchyContext where
  /-- For the own record. -/
  own : ReadContext
  /-- For the records of the table. -/
  table : ℕ → ReadContext

/-- A netmask and a hierarchy, as they are written. -/
abbrev ShownHierarchy := UInt32 × Hierarchy

/-- `T tmp`, of which the own record matters, and the number of hierarchies that were read. -/
structure StatusVariable where
  /-- `_this_node`. -/
  thisNode : NodeCells
  /-- How many hierarchies were read. -/
  round : ℕ

namespace StatusVariable

/-- `Hierarchy()`. -/
def initial : StatusVariable := ⟨.initial, 0⟩

/-- The variable as a hierarchy, before the next one is read. -/
def cells (t : StatusVariable) : HierarchyCells := ⟨0, t.thisNode, ∅⟩

section Wire

variable [ByteOrder]

/-- The hierarchy can be copied. -/
def isCopyable (c : HierarchyCells) : Bool :=
  c.thisNode.value.resources.copy.isOk && c.nodes.entries.all fun x => x.2.resources.copy.isOk

/-- A round of the loop: a hierarchy is read into the variable, and `emplace_back` makes a copy. -/
def readHierarchy (ctx : ℕ → HierarchyContext) (t : StatusVariable) : ReadM (HierarchyCells × StatusVariable) := do
  let c ← t.cells.read (ctx t.round).own (ctx t.round).table
  if isCopyable c then pure (c, ⟨c.thisNode, t.round + 1⟩)
  else throw (.foreign "the length of a null string")

/-- The hierarchy can be read into the variable and copied. -/
structure Takes (ctx : ℕ → HierarchyContext) (t : StatusVariable) (x : ShownHierarchy) : Prop where
  /-- It can be read. -/
  suits : t.cells.Suits (ctx t.round).own (ctx t.round).table x.2
  /-- And copied. -/
  copyable : x.2.thisNode.resources.IsCopyable

/-- The variable after the hierarchy was read. -/
def after (ctx : ℕ → HierarchyContext) (t : StatusVariable) (x : ShownHierarchy) : StatusVariable :=
  ⟨t.thisNode.after (ctx t.round).own x.2.thisNode, t.round + 1⟩

/-- The bytes of a hierarchy. -/
def bytes (x : ShownHierarchy) : List UInt8 := x.2.bytes x.1

/-- The copy is equal to the hierarchy. -/
def Same (c : HierarchyCells) (x : ShownHierarchy) : Prop := c.IsEqual x.1 x.2

variable {ctx : ℕ → HierarchyContext} {t : StatusVariable} {x : ShownHierarchy} {c : HierarchyCells}

omit [ByteOrder] in
theorem isOk_copy_iff {b : Bindings} : b.copy.isOk = true ↔ b.IsCopyable := by
  cases hcopy : b.copy with
  | error e =>
    refine iff_of_false Bool.false_ne_true fun hb => ?_
    have hok := Bindings.copy_eq_ok_iff.2 ⟨hb, rfl⟩
    rw [hcopy] at hok
    cases hok
  | ok b' => exact iff_of_true rfl (Bindings.copy_eq_ok_iff.1 hcopy).1

/-- Every record that was taken can be copied. -/
theorem copyable_of_takesAll {xs : ℕ → ReadContext} {t : Temporary}
    {entries : List (Σ _ : SocketAddress, HierarchyNode)} (h : Temporary.TakesAll xs t entries) :
    ∀ x ∈ entries, x.2.resources.IsCopyable := by
  induction entries generalizing t with
  | nil => exact fun _ hx => absurd hx List.not_mem_nil
  | cons e entries ih =>
    intro x hx
    rcases List.mem_cons.1 hx with rfl | hx
    · exact h.1.copyable
    · exact ih h.2 x hx

/-- What is equal to a hierarchy that can be copied can be copied. -/
theorem isCopyable_of_same (hsame : Same c x) (hown : x.2.thisNode.resources.IsCopyable)
    (htable : ∀ e ∈ x.2.nodes.entries, e.2.resources.IsCopyable) : isCopyable c = true := by
  rw [isCopyable, Bool.and_eq_true, List.all_eq_true]
  refine ⟨isOk_copy_iff.2 ((Bindings.isCopyable_of_eq hsame.thisNode.resources).2 hown), fun e he => ?_⟩
  have hlookup : c.nodes.lookup e.1 = some e.2 := AList.mem_lookup_iff.2 he
  have hmem : e.1 ∈ x.2.nodes := (hsame.keys e.1).1 (AList.lookup_isSome.1 (by rw [hlookup]; rfl))
  obtain ⟨r, hr⟩ := Option.isSome_iff_exists.1 (AList.lookup_isSome.2 hmem)
  obtain ⟨r', hr', hr''⟩ := hsame.nodes ⟨e.1, r⟩ (AList.mem_lookup_iff.1 hr)
  obtain rfl : e.2 = r' := Option.some.inj (hlookup.symm.trans hr')
  exact isOk_copy_iff.2 ((Bindings.isCopyable_of_eq hr''.resources).2 (htable ⟨e.1, r⟩ (AList.mem_lookup_iff.1 hr)))

/-- A hierarchy that was read back, whatever came next, suited the variable. -/
theorem suits_of_ok {own : ReadContext} {xs : ℕ → ReadContext} {c c' : HierarchyCells} {rest w : List UInt8}
    (hok : c.read own xs (bytes x ++ rest) = .ok c' w) (hsame : Same c' x) : c.Suits own xs x.2 := by
  rw [bytes, Hierarchy.bytes, List.append_assoc, List.append_assoc, List.append_assoc] at hok
  obtain ⟨bs, w₁, hbs, hok⟩ := bind_ok hok
  obtain ⟨thisNode, w₂, hthis, hok⟩ := bind_ok hok
  obtain ⟨n, w₃, hn, hok⟩ := bind_ok hok
  obtain ⟨nodes, w₄, hnodes, hok⟩ := bind_ok hok
  cases hok
  rw [HierarchyCells.reads_netmask x.1] at hbs
  cases hbs
  obtain ⟨htakes, -, rfl⟩ := NodeCells.takes_of_ok hthis hsame.thisNode
  rw [reads_int_mod] at hn
  cases hn
  have hlength : x.2.nodes.entries.length < 2 ^ 32 := length_lt_of_readEntries hnodes hsame.keys
  rw [Nat.mod_eq_of_lt (show x.2.nodes.entries.length < 256 ^ 4 from hlength)] at hnodes
  have hentries : ReadsEntries (Temporary.readEntry xs) entryBytes HierarchyNode.Same .initial x.2.nodes.entries := by
    refine readsEntries_of_ok Temporary.Lost (fun ha hok => Temporary.lost_of_ok ha hok)
      (fun hok hne => Temporary.lost_of_ne hok hne) (fun hok hsame => ?_)
      x.2.nodes.nodupKeys (fun _ _ => AList.notMem_empty _) hnodes hsame.nodes
    obtain ⟨htakes, rfl⟩ := Temporary.takes_of_ok hok hsame
    exact Temporary.readsEntry htakes
  exact ⟨htakes, hlength, Temporary.readsEntries_iff.1 hentries⟩

/-- The own record is read over the one before. -/
theorem thisNode_of_ok {own : ReadContext} {xs : ℕ → ReadContext} {c c' : HierarchyCells} {rest w : List UInt8}
    (hok : c.read own xs (bytes x ++ rest) = .ok c' w) (hsame : Same c' x) :
    c'.thisNode = c.thisNode.after own x.2.thisNode := by
  rw [bytes, Hierarchy.bytes, List.append_assoc, List.append_assoc, List.append_assoc] at hok
  obtain ⟨bs, w₁, hbs, hok⟩ := bind_ok hok
  obtain ⟨thisNode, w₂, hthis, hok⟩ := bind_ok hok
  obtain ⟨n, w₃, hn, hok⟩ := bind_ok hok
  obtain ⟨nodes, w₄, hnodes, hok⟩ := bind_ok hok
  cases hok
  rw [HierarchyCells.reads_netmask x.1] at hbs
  cases hbs
  exact (NodeCells.takes_of_ok hthis hsame.thisNode).2.1

/-- **A hierarchy is read through the variable** exactly if that can take it. -/
theorem readsThrough (ctx : ℕ → HierarchyContext) :
    ReadsThrough (readHierarchy ctx) bytes Same (Takes ctx) (after ctx) where
  reads := by
    intro t x htakes rest
    obtain ⟨c, hc, hequal⟩ := HierarchyCells.restores_of_suits htakes.suits rest
    refine ⟨c, bind_eq_ok hc ?_, hequal⟩
    rw [if_pos (isCopyable_of_same hequal htakes.copyable (copyable_of_takesAll htakes.suits.nodes)),
      thisNode_of_ok (x := x) hc hequal]
    rfl
  only := by
    intro t t' c x rest w hok hsame
    obtain ⟨c', w₁, hc, hok⟩ := bind_ok hok
    split at hok
    · next hcopyable =>
      cases hok
      rw [isCopyable, Bool.and_eq_true] at hcopyable
      exact ⟨suits_of_ok hc hsame,
        (Bindings.isCopyable_of_eq hsame.thisNode.resources).1 (isOk_copy_iff.1 hcopyable.1)⟩
    · cases hok

end Wire

end StatusVariable

/-! ### The status of a daemon -/

section Status

open StatusVariable

variable [ByteOrder]

/-- `Status_kernel::write`. -/
def statusBytes (hs : List ShownHierarchy) : List UInt8 := intBytes 4 (hs.length % 2 ^ 32) ++ hs.flatMap bytes

/-- `Status_kernel::read`. -/
def readStatus (ctx : ℕ → HierarchyContext) : ReadM (List HierarchyCells) := do
  let n ← readInt 4
  readThrough (readHierarchy ctx) n .initial

/-- The client is shown the hierarchies as they are. -/
def Shown (ctx : ℕ → HierarchyContext) (hs : List ShownHierarchy) : Prop :=
  ∀ rest, ∃ cs, readStatus ctx (statusBytes hs ++ rest) = .ok cs rest ∧ List.Forall₂ Same cs hs

variable {ctx : ℕ → HierarchyContext} {hs hs' : List ShownHierarchy} {b : Bindings}

/-- **Which hierarchies are shown**: those that can be read one after another into the variable. -/
theorem shown_iff : Shown ctx hs ↔ hs.length < 2 ^ 32 ∧ TakesAll (Takes ctx) (StatusVariable.after ctx) .initial hs :=
  (StatusVariable.readsThrough ctx).vector_iff .initial hs

/-- The interface has a superior. -/
def HasSuperior (x : ShownHierarchy) : Prop := x.2.thisNode.superiorSocketAddress.isSet = true

/-- The table of the hierarchy is read back. -/
def TableReads (xs : ℕ → ReadContext) (x : ShownHierarchy) : Prop :=
  x.2.nodes.entries.length < 2 ^ 32 ∧ Temporary.initial.TakesAll xs x.2.nodes.entries

/-- So are those of hierarchies that are read one after another, from some round on. -/
def TablesRead (ctx : ℕ → HierarchyContext) (n : ℕ) (hs : List ShownHierarchy) : Prop :=
  ∀ i x, hs[i]? = some x → TableReads (ctx (n + i)).table x

theorem tablesRead_cons {x : ShownHierarchy} {n : ℕ} :
    TablesRead ctx n (x :: hs) ↔ TableReads (ctx n).table x ∧ TablesRead ctx (n + 1) hs := by
  constructor
  · intro h
    refine ⟨h 0 x rfl, fun i y hy => ?_⟩
    have hy' := h (i + 1) y hy
    rwa [Nat.add_comm i 1, ← Nat.add_assoc] at hy'
  · rintro ⟨hx, hs'⟩ i y hy
    cases i with
    | zero =>
      obtain rfl := Option.some.inj hy
      exact hx
    | succ i =>
      rw [Nat.add_comm i 1, ← Nat.add_assoc]
      exact hs' i y hy

/-- The hierarchies of one daemon, whose interfaces all have its resources. -/
structure OfOneDaemon (ctx : ℕ → HierarchyContext) (b : Bindings) (hs : List ShownHierarchy) : Prop where
  /-- The number of interfaces fits 32 bits. -/
  length : hs.length < 2 ^ 32
  /-- An interface has an address. -/
  address : ∀ x ∈ hs, x.2.thisNode.socketAddress.isSet = true
  /-- The main kernel gives its resources to all discoverers. -/
  resources : ∀ x ∈ hs, x.2.thisNode.resources = b
  /-- They can be read into a new record. -/
  readable : ∀ i, NodeCells.initial.resources.Takes (ctx i).own.rubbish b
  /-- And copied. -/
  copyable : b.IsCopyable

omit [ByteOrder] in
theorem OfOneDaemon.perm (h : OfOneDaemon ctx b hs) (hperm : hs'.Perm hs) : OfOneDaemon ctx b hs' where
  length := hperm.length_eq ▸ h.length
  address x hx := h.address x (hperm.subset hx)
  resources x hx := h.resources x (hperm.subset hx)
  readable := h.readable
  copyable := h.copyable

/-- Bindings can be read over themselves. -/
theorem takes_again {c : BindingCells} {rubbish rubbish' : ℕ → UInt64} {alloc : Fin Resources.numResources → _}
    (h : c.Takes rubbish b) (h' : c.Takes rubbish' b) : (c.after alloc b).Takes rubbish' b where
  data r := by
    refine ⟨(h.data r).1, (h.data r).2.1, fun htext _ => ?_⟩
    show ((c.data r).after (alloc r) (b.data r)).buffer.isSome = true
    generalize b.data r = v at htext
    match v, htext with
    | .string (some s), _ => rfl
  length := h'.length
  known := h'.known
  symbols := h'.symbols

/-- The hierarchies of a daemon can be read one after another if their tables can and none without a superior comes
after one that has a superior. -/
theorem OfOneDaemon.takesAll_iff (h : OfOneDaemon ctx b hs) {t : StatusVariable}
    (ht : ∀ i, t.thisNode.resources.Takes (ctx i).own.rubbish b) :
    TakesAll (Takes ctx) (StatusVariable.after ctx) t hs ↔ TablesRead ctx t.round hs ∧
      (t.thisNode.superiorSocketAddress.isSet = true → ∀ x ∈ hs, HasSuperior x) ∧
        hs.Pairwise fun x y => HasSuperior x → HasSuperior y := by
  induction hs generalizing t with
  | nil =>
    refine iff_of_true trivial ⟨fun i x hx => ?_, fun _ _ hx => absurd hx List.not_mem_nil, .nil⟩
    rw [List.getElem?_nil] at hx
    cases hx
  | cons x hs ih =>
    have htail : OfOneDaemon ctx b hs :=
      ⟨(Nat.lt_succ_self _).trans h.length, fun y hy => h.address y (List.mem_cons_of_mem x hy),
        fun y hy => h.resources y (List.mem_cons_of_mem x hy), h.readable, h.copyable⟩
    have hresources := h.resources x List.mem_cons_self
    have hhead : Takes ctx t x ↔ TableReads (ctx t.round).table x ∧
        (t.thisNode.superiorSocketAddress.isSet = true → HasSuperior x) := by
      constructor
      · exact fun htakes => ⟨⟨htakes.suits.length, htakes.suits.nodes⟩, htakes.suits.thisNode.superiorSocketAddress⟩
      · rintro ⟨⟨hlength, htable⟩, hsuperior⟩
        exact ⟨⟨⟨fun _ => h.address x List.mem_cons_self, hsuperior, hresources ▸ ht t.round⟩, hlength, htable⟩,
          hresources ▸ h.copyable⟩
    have hafter : ∀ i, (StatusVariable.after ctx t x).thisNode.resources.Takes (ctx i).own.rubbish b := by
      intro i
      show (t.thisNode.resources.after _ x.2.thisNode.resources).Takes _ b
      rw [hresources]
      exact takes_again (ht i) (ht i)
    have hround : (StatusVariable.after ctx t x).round = t.round + 1 := rfl
    rw [TakesAll, hhead, ih htail hafter, hround, tablesRead_cons, List.pairwise_cons]
    constructor
    · rintro ⟨⟨htable, hset⟩, htables, hall, hpairs⟩
      refine ⟨⟨htable, htables⟩, fun hsuperior y hy => ?_, fun y hy hx => hall hx y hy, hpairs⟩
      rcases List.mem_cons.1 hy with rfl | hy
      · exact hset hsuperior
      · exact hall (hset hsuperior) y hy
    · rintro ⟨⟨htable, htables⟩, hset, hall, hpairs⟩
      exact ⟨⟨htable, fun hsuperior => hset hsuperior x List.mem_cons_self⟩, htables, fun hx y hy => hall y hy hx,
        hpairs⟩

/-- **A client is shown the status of a daemon** exactly if the tables are read back and no interface without a superior
comes after one that has a superior; and it is shown the status in every order of the interfaces exactly if the tables
are read back in every order and all interfaces have superiors or none has. -/
theorem status_shown_iff (h : OfOneDaemon ctx b hs) :
    (Shown ctx hs ↔ TablesRead ctx 0 hs ∧ hs.Pairwise fun x y => HasSuperior x → HasSuperior y) ∧
      ((∀ hs', hs'.Perm hs → Shown ctx hs') ↔ (∀ hs', hs'.Perm hs → TablesRead ctx 0 hs') ∧
        ((∀ x ∈ hs, HasSuperior x) ∨ ∀ x ∈ hs, ¬ HasSuperior x)) := by
  have hshown {hs' : List ShownHierarchy} (hperm : hs'.Perm hs) : Shown ctx hs' ↔
      TablesRead ctx 0 hs' ∧ hs'.Pairwise fun x y => HasSuperior x → HasSuperior y := by
    rw [shown_iff, and_iff_right (h.perm hperm).length, (h.perm hperm).takesAll_iff h.readable]
    exact and_congr_right fun _ => and_iff_right fun hset => absurd hset Bool.false_ne_true
  refine ⟨hshown (.refl hs), ?_, ?_⟩
  · intro hall
    refine ⟨fun hs' hperm => ((hshown hperm).1 (hall hs' hperm)).1, ?_⟩
    by_contra hmixed
    rw [not_or] at hmixed
    push Not at hmixed
    obtain ⟨⟨y, hy, hnone⟩, x, hx, hsome⟩ := hmixed
    -- an order in which the one with a superior comes first
    obtain ⟨before, after, rfl⟩ := List.append_of_mem hx
    have hy' : y ∈ before ++ after := by
      rcases List.mem_append.1 hy with hy | hy
      · exact List.mem_append_left _ hy
      · exact List.mem_append_right _ ((List.mem_cons.1 hy).resolve_left fun heq => hnone (heq ▸ hsome))
    have hpairs := ((hshown List.perm_middle.symm).1 (hall _ List.perm_middle.symm)).2
    exact hnone ((List.pairwise_cons.1 hpairs).1 y hy' hsome)
  · rintro ⟨htables, hall⟩ hs' hperm
    refine (hshown hperm).2 ⟨htables hs' hperm, List.pairwise_of_forall_mem_list fun x hx y hy hsome => ?_⟩
    rcases hall with hall | hall
    · exact hall y (hperm.subset hy)
    · exact absurd hsome (hall x (hperm.subset hx))

omit [ByteOrder] in
/-- One of every resource. -/
def oneOfEach : Bindings := ⟨fun _ => .u64 1, ∅⟩

/-- The hierarchy of an interface of 10.0.0.0/8 that knows no nodes. -/
def interfaceOf (i : UInt32) (superior : SocketAddress) : ShownHierarchy :=
  (0xFF000000,
    { netmask := 8
      thisNode := { nodeRecord i with superiorSocketAddress := superior, resources := oneOfEach }
      nodes := ∅ })

/-- There is room for them. -/
def blankContext : ℕ → HierarchyContext := fun _ => ⟨.blank, fun _ => .blank⟩

omit [ByteOrder] in
theorem readable_oneOfEach : NodeCells.initial.resources.Takes ReadContext.blank.rubbish oneOfEach where
  data _ := ⟨trivial, trivial, fun htext => absurd htext Bool.false_ne_true⟩
  length := by
    show ([] : List (Σ _ : List UInt8, Resources.Any)).length < 2 ^ 32
    decide
  known x hx := absurd hx List.not_mem_nil
  symbols _ x hx := absurd hx.symm (Option.some_ne_none x)

omit [ByteOrder] in
theorem ofOneDaemon_two (superior : SocketAddress) :
    OfOneDaemon blankContext oneOfEach [interfaceOf 1 superior, interfaceOf 2 .unset] where
  length := by
    rw [List.length_cons, List.length_singleton]
    decide
  address x hx := by
    rcases List.mem_pair.1 hx with rfl | rfl
    · rfl
    · rfl
  resources x hx := by
    rcases List.mem_pair.1 hx with rfl | rfl
    · rfl
    · rfl
  readable _ := readable_oneOfEach
  copyable := ⟨fun _ => Resources.Any.noConfusion, fun s v hv => by cases hv⟩

/-- Empty tables are read back. -/
theorem tablesRead_two (superior : SocketAddress) :
    TablesRead blankContext 0 [interfaceOf 1 superior, interfaceOf 2 .unset] := by
  refine fun i x hx => ?_
  rcases List.mem_pair.1 (List.mem_of_getElem? hx) with rfl | rfl
  · exact ⟨Nat.two_pow_pos 32, trivial⟩
  · exact ⟨Nat.two_pow_pos 32, trivial⟩

end Status

/-- Two interfaces without superiors are shown; but not if the first one has a superior. -/
theorem status_shown_iff_two :
    letI := ByteOrder.littleEndian
    Shown blankContext [interfaceOf 1 .unset, interfaceOf 2 .unset] ∧
      ¬ Shown blankContext [interfaceOf 1 (nodeAddress 3), interfaceOf 2 .unset] := by
  let _ := ByteOrder.littleEndian
  refine ⟨(status_shown_iff (ofOneDaemon_two .unset)).1.2 ⟨tablesRead_two .unset, ?_⟩, fun hshown => ?_⟩
  · exact List.pairwise_pair.2 fun hnone => absurd hnone Bool.false_ne_true
  · obtain ⟨-, hpairs⟩ := (status_shown_iff (ofOneDaemon_two (nodeAddress 3))).1.1 hshown
    exact absurd (List.pairwise_pair.1 hpairs rfl) Bool.false_ne_true

/-! ### Jobs -/

/-- `Job_status_kernel`. -/
structure JobStatus where
  /-- `_jobs`. -/
  jobs : List FullApplication
  /-- `_job_ids`. -/
  jobIds : List UInt64
  deriving DecidableEq

namespace JobStatus

variable [ByteOrder]

/-- `Job_status_kernel::write`. -/
def bytes (s : JobStatus) : List UInt8 := vectorOf FullApplication.bytes s.jobs ++ vectorOf u64Bytes s.jobIds

/-- `Job_status_kernel::read`. -/
def read : ReadM JobStatus := do
  let jobs ← readVectorOf FullApplication.initial.read
  let jobIds ← readVectorOf readU64
  pure ⟨jobs, jobIds⟩

/-- The jobs and the identifiers fit their lengths, and no job waits for completion. -/
structure IsShown (s : JobStatus) : Prop where
  /-- The number of jobs. -/
  length_jobs : s.jobs.length < 2 ^ 32
  /-- The jobs. -/
  jobs : ∀ a ∈ s.jobs, a.Fits ∧ a.waitForCompletion = false
  /-- The number of identifiers. -/
  length_jobIds : s.jobIds.length < 2 ^ 32

/-- **Which jobs are shown.** -/
theorem readsExactly : ReadsExactly read bytes IsShown where
  reads := by
    rintro ⟨jobs, jobIds⟩ ⟨hlengthJobs, hjobs, hlengthIds⟩
    exact ((FullApplication.readsExactly .initial).vector.reads jobs ⟨hlengthJobs, hjobs⟩).bind
      (((ReadsExactly.of_reads reads_u64).vector.reads jobIds ⟨hlengthIds, fun _ _ => trivial⟩).bindPure rfl)
  only := by
    intro s rest w hok
    rw [bytes, List.append_assoc] at hok
    obtain ⟨jobs, w₁, hjobs, hok⟩ := bind_ok hok
    obtain ⟨jobIds, w₂, hjobIds, hok⟩ := bind_ok hok
    injection hok with heq _
    obtain rfl : jobs = s.jobs := congrArg JobStatus.jobs heq
    obtain rfl : jobIds = s.jobIds := congrArg JobStatus.jobIds heq
    obtain rfl := (FullApplication.readsExactly .initial).vector.rest_eq hjobs
    obtain ⟨hlength, hall⟩ := (FullApplication.readsExactly .initial).vector.only hjobs
    exact ⟨hlength, hall, ((ReadsExactly.of_reads reads_u64).vector.only hjobIds).1⟩

end JobStatus

end Subordination.Daemon
