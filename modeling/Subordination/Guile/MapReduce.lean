import Mathlib.Algebra.BigOperators.Group.List.Basic
import Subordination.Guile.ParallelMap
import Subordination.Library.System

/-!
# Scripts that map and fold

The main kernel runs a script: each `kernel-map` makes a map kernel, and `kernel-react` sends the map kernels that
have been made and says how their results are folded (`Kernel_base`, `Main` and `Map_kernel`, `guile/kernel.cc`).

## The model

The script is the list of its calls. A kernel that is sent arrives once, and at any time: a run takes the kernels of
all maps in any order, so children of different maps run and come back as they please. The procedures of the script
are functions that send no kernels of their own.

## What is proved

* `invariant_of_reachable` — what holds of every map, and of the counter of the main kernel, in every run.
* **`folds_results`**: the main kernel is done at most once, after all maps, and with the fold of their results, in
  some order.
* **`ends_done_iff`**: every run ends, and the main kernel is done then if and only if every map has a full block.
-/

namespace Subordination.Guile

open Library

/-! ### The kernels -/

variable {α γ β : Type}

/-- A call of `kernel-map`: what `map` gives a child with the procedure, the lists, and the size of a block. -/
structure MapCall (α γ : Type) where
  /-- `map` with the procedure. -/
  map : List (List α) → γ
  /-- `_lists`. -/
  lists : List (List α)
  /-- `_block_size`. -/
  blockSize : Option ℕ

/-- `Kernel_base`, as far as the main kernel uses it. -/
structure KernelBase (α γ β : Type) where
  /-- `_children`: the map kernels that have not been sent. -/
  children : List (MapCall α γ) := []
  /-- `_num_children`. -/
  numChildren : UInt32 := 0
  /-- `_no_children`. -/
  noChildren : Bool := false
  /-- `_result`. -/
  result : β
  /-- `_react`, which `kernel-react` sets before anything can come back. -/
  reactProc : List γ → β → β := fun _ result => result

namespace KernelBase

/-- `Kernel_base::upstream`. -/
def upstream (k : KernelBase α γ β) (child : MapCall α γ) : KernelBase α γ β :=
  { k with children := k.children ++ [child] }

/-- `Kernel_base::upstream_children`: the kernel, and the children that it sends. -/
def upstreamChildren (k : KernelBase α γ β) : KernelBase α γ β × List (MapCall α γ) :=
  ({ k with numChildren := UInt32.ofNat k.children.length, noChildren := k.children.isEmpty, children := [] },
    k.children)

/-- `Kernel_base::react`: the kernel, and whether the postamble is called and the kernel is sent to its parent. -/
def react (k : KernelBase α γ β) (child : List γ) : KernelBase α γ β × Bool :=
  let k := { k with numChildren := k.numChildren - 1, result := k.reactProc child k.result }
  (k, k.numChildren = 0)

end KernelBase

/-- A call that a script makes. -/
inductive Call (α γ β : Type) where
  /-- `kernel-map`. -/
  | map (call : MapCall α γ)
  /-- `kernel-react`, without the postamble. -/
  | react (proc : List γ → β → β) (initial : β)

/-- `kernel_map` and `kernel_react`: the current kernel, and the kernels that it sends. -/
def Call.run (k : KernelBase α γ β) : Call α γ β → KernelBase α γ β × List (MapCall α γ)
  | .map call => (k.upstream call, [])
  | .react proc initial => { k with reactProc := proc, result := initial : KernelBase α γ β }.upstreamChildren

/-- `scm_c_primitive_load`: the calls of a script, one after another. -/
def runScript : KernelBase α γ β → List (Call α γ β) → KernelBase α γ β × List (MapCall α γ)
  | k, [] => (k, [])
  | k, call :: script =>
    let (k, sent) := call.run k
    let (k, sents) := runScript k script
    (k, sent ++ sents)

/-! ### Runs -/

/-- Where a map kernel is. -/
inductive Phase (γ : Type) where
  /-- It is on its way to be executed. -/
  | queued
  /-- It has been executed, and waits for its children. -/
  | running (kernel : MapKernel γ)
  /-- It is on its way to its parent. -/
  | returned (result : List γ)
  /-- Its parent has taken it. -/
  | received

/-- A map kernel that has been sent, and the children of it that are on their way. -/
structure MapRun (α γ : Type) where
  /-- What the kernel was made of. -/
  call : MapCall α γ
  /-- Where it is. -/
  phase : Phase γ := .queued
  /-- The children that have not been executed. -/
  children : List (List (List α)) := []
  /-- The results of the children that are coming back. -/
  back : List γ := []

/-- What can happen to a map kernel and its children. -/
inductive MapRun.Step : MapRun α γ → MapRun α γ → Prop
  /-- `Map_kernel::act`. -/
  | act {r : MapRun α γ} {k : MapKernel γ} {children : List (List (List α))} : r.phase = .queued →
      act r.call.lists r.call.blockSize = some (k, children) →
      Step r { r with phase := .running k, children := r.children ++ children }
  /-- `Map_child_kernel::act`. -/
  | child {r : MapRun α γ} {before after : List (List (List α))} {lists : List (List α)} :
      r.children = before ++ lists :: after →
      Step r { r with children := before ++ after, back := r.back ++ [childAct r.call.map lists] }
  /-- `Map_kernel::react`. -/
  | react {r : MapRun α γ} {k : MapKernel γ} {before after : List γ} {child : γ} : r.phase = .running k →
      r.back = before ++ child :: after →
      Step r { r with
        phase := if (k.react child).2 then .returned (k.react child).1.result else .running (k.react child).1
        back := before ++ after }

/-- What becomes of the main kernel. -/
inductive Outcome (β : Type) where
  /-- `sbn::exit(0)`. -/
  | exit (result : β)
  /-- It is sent to its parent. -/
  | sent (result : β)

/-- The result that the main kernel has in the end. -/
def Outcome.result : Outcome β → β
  | exit result => result
  | sent result => result

/-- A run of a script. -/
structure Run (α γ β : Type) where
  /-- The main kernel. -/
  main : KernelBase α γ β
  /-- The map kernels that it has sent. -/
  maps : List (MapRun α γ)
  /-- What has become of the main kernel, once it is done. -/
  outcome : Option (Outcome β) := none
  /-- The results with which the postamble has been called. -/
  postambles : List β := []

namespace Run

/-- `Main::act`: the kernel is done at once if `kernel-react` has found no children. -/
def start (unspecified : β) (hasParent : Bool) (script : List (Call α γ β)) : Run α γ β :=
  let (k, sent) := runScript { result := unspecified } script
  { main := k
    maps := sent.map fun call => { call }
    outcome := if k.noChildren then some (if hasParent then .sent k.result else .exit k.result) else none }

/-- The main kernel takes a map kernel that has come back. -/
def receive (s : Run α γ β) (result : List γ) (maps : List (MapRun α γ)) : Run α γ β :=
  let (k, last) := s.main.react result
  { main := k
    maps
    outcome := if last then some (.sent k.result) else s.outcome
    postambles := if last then s.postambles ++ [k.result] else s.postambles }

/-- A step of a run: one of the kernels that are on their way arrives. -/
inductive Step : Run α γ β → Run α γ β → Prop
  /-- A map kernel, or a child of one. -/
  | map {s : Run α γ β} {before after : List (MapRun α γ)} {r r' : MapRun α γ} : s.maps = before ++ r :: after →
      r.Step r' → Step s { s with maps := before ++ r' :: after }
  /-- A map kernel that comes back, while the main kernel is there. -/
  | react {s : Run α γ β} {before after : List (MapRun α γ)} {r : MapRun α γ} {result : List γ} :
      s.outcome = none → s.maps = before ++ r :: after → r.phase = .returned result →
      Step s (s.receive result (before ++ { r with phase := .received } :: after))

/-- The runs of a script. -/
def system (unspecified : β) (hasParent : Bool) (script : List (Call α γ β)) : System (Run α γ β) where
  Initial s := s = start unspecified hasParent script
  Step := Step

end Run

/-! ### Maps -/

namespace MapCall

/-- What the children of the map kernel get. -/
def blocks (call : MapCall α γ) : List (List (List α)) :=
  ((act call.lists call.blockSize : Option (MapKernel γ × List (List (List α)))).map Prod.snd).getD []

/-- What the children give back. -/
def results (call : MapCall α γ) : List γ := call.blocks.map (childAct call.map)

/-- The map kernel does not throw. -/
def Acts (call : MapCall α γ) : Prop :=
  (∀ lst ∈ call.lists, lst.length ≤ intMax) ∧ 0 < call.blockSize.getD 1 ∧ call.blockSize.getD 1 ≤ intMax

/-- There is a block for each child. -/
def HasFullBlock (call : MapCall α γ) : Prop := call.blockSize.getD 1 ≤ shortest call.lists

end MapCall

theorem length_sendChildren {m l b more i : ℕ} {lists : List (List α)} {children : List (List (List α))}
    (h : sendChildren m l b more i lists = some children) : children.length = more := by
  induction more generalizing i lists children with
  | zero =>
    cases h
    rfl
  | succ more ih =>
    rw [sendChildren] at h
    obtain ⟨⟨child, rest⟩, -, h⟩ := Option.bind_eq_some_iff.mp h
    obtain ⟨children', hsend, h⟩ := Option.bind_eq_some_iff.mp h
    cases h
    rw [List.length_cons, ih hsend]

namespace MapCall

variable {call : MapCall α γ} {k : MapKernel γ} {children : List (List (List α))}

/-- What `Map_kernel::act` does: it waits for the children that it sends. -/
theorem act_spec (h : act call.lists call.blockSize = some (k, children)) :
    children = call.blocks ∧ k.result = [] ∧ k.numKernels = children.length := by
  obtain ⟨-, -, hsend, rfl⟩ := act_eq_some_iff.mp h
  refine ⟨?_, rfl, ?_⟩
  · rw [blocks, h]
    rfl
  · rw [length_sendChildren hsend]

/-- The children get no more than there is in the shortest list. -/
theorem sum_sizes_shortest (b : ℕ) (lists : List (List α)) :
    (sizes (shortest lists / b) (b + shortest lists % b) b (shortest lists / b) 0).sum ≤ shortest lists := by
  rcases Nat.eq_zero_or_pos (shortest lists / b) with hzero | hmore
  · rw [hzero, sizes, List.sum_nil]
    exact Nat.zero_le _
  · have hdivision := Nat.div_add_mod' (shortest lists) b
    have hproduct := Nat.sub_one_mul (shortest lists / b) b
    have hone := Nat.le_mul_of_pos_left b hmore
    rw [sum_sizes (Nat.zero_add _) hmore, hproduct]
    omega

theorem Acts.isSome (h : call.Acts) :
    ∃ (k : MapKernel γ) (children : List (List (List α))), act call.lists call.blockSize = some (k, children) := by
  obtain ⟨hlists, hpos, hmax⟩ := h
  obtain ⟨-, hle⟩ := foldl_min_le call.lists intMax
  have hsum := sum_sizes_shortest (call.blockSize.getD 1) call.lists
  obtain ⟨children, hsend, -, -⟩ := sendChildren_eq fun lst hlst => hsum.trans (hle lst hlst)
  exact ⟨_, children, act_eq_some_iff.mpr ⟨hlists, ⟨hpos, hmax⟩, hsend, rfl⟩⟩

/-- There are no results if there is no full block. -/
theorem Acts.results_eq_nil_iff (h : call.Acts) : call.results = [] ↔ ¬ call.HasFullBlock := by
  obtain ⟨k, children, hact⟩ := h.isSome
  obtain ⟨-, -, hsend, -⟩ := act_eq_some_iff.mp hact
  rw [results, List.map_eq_nil_iff, ← (act_spec hact).1, ← List.length_eq_zero_iff, length_sendChildren hsend,
    Nat.div_eq_zero_iff, HasFullBlock]
  have hpos := h.2.1
  omega

end MapCall

/-! ### A map kernel and its children -/

/-- The map kernel is still to be taken. -/
def Phase.isPending : Phase γ → Bool
  | .received => false
  | _ => true

namespace MapRun

/-- What holds of a map kernel in every run: while it waits, it counts the children that are on their way, and what
it has and what they bring are the results. Otherwise no child is on its way. -/
def Good (r : MapRun α γ) : Prop :=
  match r.phase with
  | .queued => r.children = [] ∧ r.back = []
  | .running k =>
    k.numKernels = (r.children.length + r.back.length : ℕ) ∧
      (k.result ++ (r.back ++ r.children.map (childAct r.call.map))).Perm r.call.results ∧
      (r.children = [] → r.back = [] → r.call.results = [])
  | .returned result => r.children = [] ∧ r.back = [] ∧ result.Perm r.call.results ∧ r.call.results ≠ []
  | .received => r.children = [] ∧ r.back = [] ∧ r.call.results ≠ []

/-- How many steps are left, at most. -/
def work (r : MapRun α γ) : ℕ :=
  2 * r.children.length + r.back.length +
    match r.phase with
    | .queued => 2 * r.call.blocks.length + 3
    | .running _ => 2
    | .returned _ => 1
    | .received => 0

variable {r r' : MapRun α γ}

/-- No kernel is on its way to a map kernel that is gone. -/
theorem Good.running (h : r.Good) (hback : r.children ≠ [] ∨ r.back ≠ []) : ∃ k, r.phase = .running k := by
  unfold Good at h
  split at h
  · exact absurd hback (by simp [h])
  · exact ⟨_, ‹_›⟩
  · exact absurd hback (by simp [h])
  · exact absurd hback (by simp [h])

/-- **One step of a map.** The kernel has still to be taken. -/
theorem Step.spec (h : r.Step r') (hr : r.Good) :
    r'.Good ∧ r'.call = r.call ∧ r.phase.isPending = true ∧ r'.phase.isPending = true ∧ r'.work < r.work := by
  cases h with
  | @act k children hphase hact =>
    obtain ⟨hchildren, hresult, hnum⟩ := MapCall.act_spec hact
    simp only [Good, hphase] at hr
    obtain ⟨hnone, hback⟩ := hr
    refine ⟨?_, rfl, by rw [hphase]; rfl, rfl, ?_⟩
    · simp only [Good, hnone, hback, List.nil_append, List.length_nil, Nat.add_zero]
      refine ⟨hnum, ?_, fun hempty _ => ?_⟩
      · rw [hresult, List.nil_append, hchildren]
        exact List.Perm.refl _
      · rw [MapCall.results, ← hchildren, hempty, List.map_nil]
    · simp only [work, hphase, hnone, hback, List.nil_append, List.length_nil, hchildren]
      omega
  | @child before after lists hmem =>
    have hphase : ∃ k, r.phase = .running k := hr.running (Or.inl (by rw [hmem]; simp))
    obtain ⟨k, hphase⟩ := hphase
    simp only [Good, hphase, hmem] at hr
    obtain ⟨hnum, hperm, -⟩ := hr
    refine ⟨?_, rfl, by rw [hphase]; rfl, by rw [hphase]; rfl, ?_⟩
    · simp only [Good, hphase]
      refine ⟨?_, ?_, fun _ hnil => absurd hnil (by simp)⟩
      · rw [hnum]
        simp only [List.length_append, List.length_cons, List.length_nil]
        omega
      · -- the child's result is on the way instead of the child
        refine (List.Perm.append_left _ ?_).trans hperm
        rw [List.append_assoc]
        refine List.Perm.append_left _ ?_
        simp only [List.map_append, List.map_cons, List.singleton_append]
        exact List.perm_middle.symm
    · simp only [work, hphase, hmem, List.length_append, List.length_cons, List.length_nil]
      omega
  | @react k before after child hphase hmem =>
    simp only [Good, hphase, hmem] at hr
    obtain ⟨hnum, hperm, -⟩ := hr
    have hresult : (k.react child).1.result = child :: k.result := rfl
    have hleft : (k.react child).1.numKernels = (r.children.length + (before ++ after).length : ℕ) := by
      simp only [MapKernel.react, hnum, List.length_append, List.length_cons]
      omega
    have hlast : (k.react child).2 = decide ((k.react child).1.numKernels = 0) := rfl
    -- the result that has come is one that the kernel has
    have hperm' : ((k.react child).1.result ++ ((before ++ after) ++ r.children.map (childAct r.call.map))).Perm
        r.call.results := by
      refine List.Perm.trans ?_ hperm
      rw [hresult, List.cons_append]
      refine (List.perm_middle.symm).trans (List.Perm.append_left _ ?_)
      simp only [List.append_assoc, List.cons_append]
      exact List.perm_middle.symm
    have hsome : r.call.results ≠ [] := by
      intro hnil
      rw [hnil, hresult] at hperm'
      exact absurd hperm'.eq_nil (List.cons_ne_nil _ _)
    refine ⟨?_, rfl, by rw [hphase]; rfl, ?_, ?_⟩
    · by_cases hzero : (k.react child).1.numKernels = 0
      · have hnone : r.children.length + (before ++ after).length = 0 := by
          rw [hleft] at hzero
          exact_mod_cast hzero
        have hchildren : r.children = [] := List.length_eq_zero_iff.mp (by omega)
        have hback : before ++ after = [] := List.length_eq_zero_iff.mp (by omega)
        rw [hchildren, hback, List.map_nil, List.append_nil, List.append_nil] at hperm'
        rw [hlast, decide_eq_true hzero]
        simp only [Good, if_true]
        exact ⟨hchildren, hback, hperm', hsome⟩
      · rw [hlast, decide_eq_false hzero]
        simp only [Good, Bool.false_eq_true, if_false]
        refine ⟨hleft, hperm', fun hchildren hback => ?_⟩
        rw [hchildren, hback] at hleft
        exact absurd hleft hzero
    · cases (k.react child).2 <;> rfl
    · simp only [work, hphase, hmem, List.length_append, List.length_cons]
      cases (k.react child).2
      · simp only [Bool.false_eq_true, if_false]
        omega
      · simp only [if_true]
        omega

end MapRun

/-! ### The whole run -/

/-- The script that makes the given maps and folds their results. -/
def mapsAndReact (calls : List (MapCall α γ)) (proc : List γ → β → β) (initial : β) : List (Call α γ β) :=
  calls.map .map ++ [.react proc initial]

/-- The results of maps that have come back, each with the map it is of, folded as they have come. -/
def foldArrivals (proc : List γ → β → β) (initial : β) (arrivals : List (MapCall α γ × List γ)) : β :=
  arrivals.foldl (fun result a => proc a.2 result) initial

theorem runScript_map (k : KernelBase α γ β) (calls : List (MapCall α γ)) (script : List (Call α γ β)) :
    runScript k (calls.map .map ++ script) = runScript { k with children := k.children ++ calls } script := by
  induction calls generalizing k with
  | nil => rw [List.map_nil, List.nil_append, List.append_nil]
  | cons call calls ih =>
    rw [List.map_cons, List.cons_append, runScript]
    simp only [Call.run, ih, KernelBase.upstream, List.append_assoc, List.singleton_append, List.nil_append]

namespace Run

/-- The maps that have still to be taken. -/
def pending (maps : List (MapRun α γ)) : List (MapRun α γ) := maps.filter (·.phase.isPending)

/-- How many steps are left, at most. -/
def work (s : Run α γ β) : ℕ := (s.maps.map MapRun.work).sum

/-- What holds in every run. -/
structure Invariant (calls : List (MapCall α γ)) (proc : List γ → β → β) (initial : β) (s : Run α γ β) : Prop where
  /-- Of the maps. -/
  good : ∀ r ∈ s.maps, r.Good
  /-- The procedure. -/
  proc_eq : s.main.reactProc = proc
  /-- Each map has been folded or is still to be taken. -/
  arrived : ∃ arrivals : List (MapCall α γ × List γ),
    (arrivals.map Prod.fst ++ (pending s.maps).map MapRun.call).Perm calls ∧
      (∀ a ∈ arrivals, a.2.Perm a.1.results ∧ a.1.results ≠ []) ∧
      s.main.result = foldArrivals proc initial arrivals
  /-- The main kernel counts the maps that it waits for. -/
  waiting : s.outcome = none →
    pending s.maps ≠ [] ∧ s.main.numChildren.toNat = (pending s.maps).length ∧ s.postambles = []
  /-- It is done when there are none. -/
  done : ∀ o, s.outcome = some o → pending s.maps = [] ∧ o.result = s.main.result ∧
    s.postambles = if calls.isEmpty then [] else [s.main.result]

variable {calls : List (MapCall α γ)} {proc : List γ → β → β} {initial unspecified : β} {hasParent : Bool}
  {s s' : Run α γ β}

theorem start_eq : (start unspecified hasParent (mapsAndReact calls proc initial) : Run α γ β) =
    { main :=
        { numChildren := UInt32.ofNat calls.length, noChildren := calls.isEmpty, result := initial,
          reactProc := proc }
      maps := calls.map fun call => { call }
      outcome := if calls.isEmpty then some (if hasParent then .sent initial else .exit initial) else none } := by
  rw [start, mapsAndReact, runScript_map]
  simp only [runScript, Call.run, KernelBase.upstreamChildren, List.nil_append, List.append_nil]

theorem pending_middle {before after : List (MapRun α γ)} {r : MapRun α γ} :
    pending (before ++ r :: after) =
      pending before ++ ((if r.phase.isPending then [r] else []) ++ pending after) := by
  simp only [pending, List.filter_append, List.filter_cons]
  split
  · rfl
  · rw [List.nil_append]

theorem pending_start (calls : List (MapCall α γ)) :
    pending (calls.map fun call => ({ call } : MapRun α γ)) = calls.map fun call => { call } := by
  refine List.filter_eq_self.mpr fun r hr => ?_
  obtain ⟨call, -, rfl⟩ := List.mem_map.mp hr
  rfl

theorem invariant_start (hcalls : calls.length < 2 ^ 32) :
    Invariant calls proc initial (start unspecified hasParent (mapsAndReact calls proc initial)) := by
  have hcall : (calls.map fun call => ({ call } : MapRun α γ)).map MapRun.call = calls := by
    rw [List.map_map]
    exact List.map_id calls
  rw [start_eq]
  constructor
  · intro r hr
    obtain ⟨call, -, rfl⟩ := List.mem_map.mp hr
    exact ⟨rfl, rfl⟩
  · rfl
  · refine ⟨[], ?_, fun a ha => absurd ha List.not_mem_nil, rfl⟩
    rw [List.map_nil, List.nil_append, pending_start, hcall]
  · intro hnone
    cases calls with
    | nil => exact absurd hnone (by simp)
    | cons call calls =>
      rw [pending_start, List.length_map]
      refine ⟨by simp, ?_, rfl⟩
      rw [UInt32.toNat_ofNat']
      exact Nat.mod_eq_of_lt hcalls
  · intro o ho
    cases calls with
    | nil =>
      cases hasParent
      · cases ho
        exact ⟨rfl, rfl, rfl⟩
      · cases ho
        exact ⟨rfl, rfl, rfl⟩
    | cons call calls => exact absurd ho (by simp)

/-- What is left after a step is less. -/
theorem sum_work_middle {before after : List (MapRun α γ)} {r : MapRun α γ} :
    ((before ++ r :: after).map MapRun.work).sum =
      r.work + ((before.map MapRun.work).sum + (after.map MapRun.work).sum) := by
  rw [List.map_append, List.sum_append, List.map_cons, List.sum_cons]
  omega

theorem Invariant.map {before after : List (MapRun α γ)} {r r' : MapRun α γ} (h : Invariant calls proc initial s)
    (hmaps : s.maps = before ++ r :: after) (hstep : r.Step r') :
    Invariant calls proc initial { s with maps := before ++ r' :: after } := by
  have hr : r ∈ s.maps := hmaps ▸ List.mem_append_right before List.mem_cons_self
  obtain ⟨hgood, hcall, hpending, hpending', -⟩ := hstep.spec (h.good r hr)
  have hcalls : (pending (before ++ r' :: after)).map MapRun.call = (pending s.maps).map MapRun.call := by
    rw [hmaps, pending_middle, pending_middle, if_pos hpending, if_pos hpending']
    simp only [List.map_append, List.map_cons, hcall]
  have hlength : (pending (before ++ r' :: after)).length = (pending s.maps).length := by
    rw [← List.length_map (f := MapRun.call), hcalls, List.length_map]
  refine ⟨?_, h.proc_eq, ?_, fun hnone => ?_, fun o ho => ?_⟩
  · intro r₁ hr₁
    rcases List.mem_append.mp hr₁ with hr₁ | hr₁
    · exact h.good r₁ (hmaps ▸ List.mem_append_left _ hr₁)
    · rcases List.mem_cons.mp hr₁ with rfl | hr₁
      · exact hgood
      · exact h.good r₁ (hmaps ▸ List.mem_append_right _ (List.mem_cons_of_mem _ hr₁))
  · obtain ⟨arrivals, hperm, hresults, hresult⟩ := h.arrived
    exact ⟨arrivals, hcalls ▸ hperm, hresults, hresult⟩
  · obtain ⟨hne, hnum, hpost⟩ := h.waiting hnone
    refine ⟨fun hnil => hne ?_, hnum.trans hlength.symm, hpost⟩
    rw [hnil, List.length_nil] at hlength
    exact List.length_eq_zero_iff.mp hlength.symm
  · -- a map that steps is still to be taken
    obtain ⟨hnil, -, -⟩ := h.done o ho
    rw [hmaps, pending_middle, if_pos hpending] at hnil
    simp at hnil

theorem Invariant.react {before after : List (MapRun α γ)} {r : MapRun α γ} {result : List γ}
    (h : Invariant calls proc initial s) (hnone : s.outcome = none) (hmaps : s.maps = before ++ r :: after)
    (hphase : r.phase = .returned result) :
    Invariant calls proc initial (s.receive result (before ++ { r with phase := .received } :: after)) := by
  have hr := h.good r (hmaps ▸ List.mem_append_right before List.mem_cons_self)
  simp only [MapRun.Good, hphase] at hr
  obtain ⟨hchildren, hback, hperm, hsome⟩ := hr
  obtain ⟨-, hnum, hpost⟩ := h.waiting hnone
  obtain ⟨arrivals, harrivals, hresults, hresult⟩ := h.arrived
  have hpending : pending s.maps = pending before ++ r :: pending after := by
    rw [hmaps, pending_middle, if_pos (by rw [hphase]; rfl)]
    rfl
  have hpending' : pending (s.receive result (before ++ { r with phase := .received } :: after)).maps =
      pending before ++ pending after := by
    change pending (before ++ { r with phase := .received } :: after) = _
    rw [pending_middle]
    rfl
  have hleft : (s.main.numChildren - 1).toNat = (pending before ++ pending after).length := by
    rw [hpending, List.length_append, List.length_cons] at hnum
    rw [UInt32.toNat_sub_of_le, List.length_append, hnum]
    · rw [UInt32.toNat_one]
      omega
    · rw [UInt32.le_iff_toNat_le, UInt32.toNat_one]
      omega
  have hlast : s.main.numChildren - 1 = 0 ↔ pending before ++ pending after = [] := by
    rw [← UInt32.toNat_inj, hleft, UInt32.toNat_zero, List.length_eq_zero_iff]
  have hfold : (s.main.react result).1.result = foldArrivals proc initial (arrivals ++ [(r.call, result)]) := by
    rw [foldArrivals, List.foldl_append, List.foldl_cons, List.foldl_nil]
    change s.main.reactProc result s.main.result = _
    rw [h.proc_eq, hresult, foldArrivals]
  have hcalls : calls.isEmpty = false := by
    cases calls with
    | nil =>
      rw [hpending, List.map_append, List.map_cons] at harrivals
      exact absurd harrivals.eq_nil (by simp)
    | cons call calls => rfl
  refine ⟨?_, h.proc_eq, ⟨arrivals ++ [(r.call, result)], ?_, ?_, hfold⟩, fun hnone' => ?_, fun o ho => ?_⟩
  · intro r₁ hr₁
    rcases List.mem_append.mp hr₁ with hr₁ | hr₁
    · exact h.good r₁ (hmaps ▸ List.mem_append_left _ hr₁)
    · rcases List.mem_cons.mp hr₁ with rfl | hr₁
      · exact ⟨hchildren, hback, hsome⟩
      · exact h.good r₁ (hmaps ▸ List.mem_append_right _ (List.mem_cons_of_mem _ hr₁))
  · -- the map has been folded instead of being on its way
    refine List.Perm.trans ?_ harrivals
    rw [hpending', hpending]
    simp only [List.map_append, List.map_cons, List.map_nil, List.append_assoc, List.singleton_append]
    exact List.Perm.append_left _ List.perm_middle.symm
  · intro a ha
    rcases List.mem_append.mp ha with ha | ha
    · exact hresults a ha
    · obtain rfl := List.mem_singleton.mp ha
      exact ⟨hperm, hsome⟩
  · have hmore : ¬ s.main.numChildren - 1 = 0 := by
      intro hzero
      simp [receive, KernelBase.react, hzero] at hnone'
    rw [hpending']
    refine ⟨fun hnil => hmore (hlast.mpr hnil), hleft, ?_⟩
    simp only [receive, KernelBase.react, hmore, decide_false, Bool.false_eq_true, if_false]
    exact hpost
  · have hzero : s.main.numChildren - 1 = 0 := by
      by_contra hmore
      simp [receive, KernelBase.react, hmore, hnone] at ho
    simp only [receive, KernelBase.react, hzero, decide_true, if_true, Option.some.injEq] at ho ⊢
    rw [← ho, hpost, hcalls]
    exact ⟨hpending'.trans (hlast.mp hzero), rfl, rfl⟩

theorem Invariant.step (hs : Invariant calls proc initial s) (h : Step s s') : Invariant calls proc initial s' := by
  cases h with
  | map hmaps hstep => exact hs.map hmaps hstep
  | react hnone hmaps hphase => exact hs.react hnone hmaps hphase

theorem invariant_of_reachable (hcalls : calls.length < 2 ^ 32)
    (h : (system unspecified hasParent (mapsAndReact calls proc initial)).Reachable s) :
    Invariant calls proc initial s := by
  refine h.invariant ?_ ?_
  · rintro _ rfl
    exact invariant_start hcalls
  · exact fun s s' hs hstep => hs.step hstep

/-- **Every step leaves less to do.** -/
theorem work_step (hs : Invariant calls proc initial s) (h : Step s s') : s'.work < s.work := by
  cases h with
  | @map before after r r' hmaps hstep =>
    obtain ⟨-, -, -, -, hlt⟩ := hstep.spec (hs.good r (hmaps ▸ List.mem_append_right before List.mem_cons_self))
    rw [work, work, hmaps, sum_work_middle, sum_work_middle]
    omega
  | @react before after r result hnone hmaps hphase =>
    rw [work, work, hmaps, sum_work_middle, receive, sum_work_middle]
    simp only [MapRun.work, hphase]
    omega

theorem work_start : (start unspecified hasParent (mapsAndReact calls proc initial) : Run α γ β).work =
    (calls.map fun call => 2 * call.blocks.length + 3).sum := by
  rw [start_eq, work, List.map_map]
  refine congrArg List.sum (List.map_congr_left fun call _ => ?_)
  simp only [Function.comp_apply, MapRun.work, List.length_nil]
  omega

/-- In a run that cannot go on every map is taken, or has no block. -/
theorem stopped (hacts : ∀ call ∈ calls, call.Acts) (hs : Invariant calls proc initial s)
    (hstop : ∀ s', ¬ Step s s') {r : MapRun α γ} (hr : r ∈ pending s.maps) (hnone : s.outcome = none) :
    r.call.results = [] := by
  obtain ⟨hmem, hpending⟩ := List.mem_filter.mp hr
  obtain ⟨before, after, hmaps⟩ := List.append_of_mem hmem
  obtain ⟨arrivals, hperm, -, -⟩ := hs.arrived
  have hcall : r.call ∈ calls :=
    hperm.subset (List.mem_append_right _ (List.mem_map_of_mem hr))
  have hmap : ∀ r', ¬ r.Step r' := fun r' hstep => hstop _ (.map hmaps hstep)
  have hgood := hs.good r hmem
  cases hphase : r.phase with
  | queued =>
    obtain ⟨k, children, hact⟩ := (hacts r.call hcall).isSome (γ := γ)
    exact absurd (.act hphase hact) (hmap _)
  | running k =>
    simp only [MapRun.Good, hphase] at hgood
    refine hgood.2.2 ?_ ?_
    · cases hchildren : r.children with
      | nil => rfl
      | cons lists children =>
        have hsplit : r.children = [] ++ lists :: children := hchildren
        exact absurd (.child hsplit) (hmap _)
    · cases hback : r.back with
      | nil => rfl
      | cons child back =>
        have hsplit : r.back = [] ++ child :: back := hback
        exact absurd (.react hphase hsplit) (hmap _)
  | returned result => exact absurd (.react hnone hmaps hphase) (hstop _)
  | received =>
    rw [hphase] at hpending
    cases hpending

end Run

section MainResults

variable {calls : List (MapCall α γ)} {proc : List γ → β → β} {initial unspecified : β} {hasParent : Bool}
  {s : Run α γ β}

/-- **The fold of all results.** No kernel comes back to one that is gone; and when the main kernel is done, every
map has come back once, with all of its results, and the maps have been folded one after another. -/
theorem folds_results (hcalls : calls.length < 2 ^ 32)
    (h : (Run.system unspecified hasParent (mapsAndReact calls proc initial)).Reachable s) :
    (∀ r ∈ s.maps, r.children ≠ [] ∨ r.back ≠ [] → ∃ k, r.phase = .running k) ∧
      (∀ r ∈ s.maps, r.phase.isPending = true → s.outcome = none) ∧
      ∀ o, s.outcome = some o → ∃ arrivals : List (MapCall α γ × List γ),
        (arrivals.map Prod.fst).Perm calls ∧ (∀ a ∈ arrivals, a.2.Perm a.1.results) ∧
          o.result = foldArrivals proc initial arrivals ∧
          s.postambles = if calls.isEmpty then [] else [o.result] := by
  have hs := Run.invariant_of_reachable hcalls h
  refine ⟨fun r hr => (hs.good r hr).running, fun r hr hpending => ?_, fun o ho => ?_⟩
  · by_contra hdone
    obtain ⟨o, ho⟩ := Option.ne_none_iff_exists'.mp hdone
    obtain ⟨hnil, -, -⟩ := hs.done o ho
    exact List.ne_nil_of_mem (List.mem_filter.mpr ⟨hr, hpending⟩) hnil
  · obtain ⟨hnil, hresult, hpost⟩ := hs.done o ho
    obtain ⟨arrivals, hperm, hresults, hfold⟩ := hs.arrived
    rw [hnil, List.map_nil, List.append_nil] at hperm
    refine ⟨arrivals, hperm, fun a ha => (hresults a ha).1, hresult.trans hfold, ?_⟩
    rw [hpost, hresult]

/-- What one process would compute that does the maps one after the other. -/
def sequentially (calls : List (MapCall α γ)) (proc : List γ → β → β) (initial : β) : β :=
  calls.foldl (fun result call => proc call.results result) initial

/-- **A run in parallel agrees with a sequential one** if the order in which results are folded makes no
difference. -/
theorem agrees_with_sequential (hcalls : calls.length < 2 ^ 32) (hperm : ∀ xs ys, xs.Perm ys → proc xs = proc ys)
    (hcomm : ∀ xs ys result, proc xs (proc ys result) = proc ys (proc xs result))
    (h : (Run.system unspecified hasParent (mapsAndReact calls proc initial)).Reachable s) {o : Outcome β}
    (ho : s.outcome = some o) : o.result = sequentially calls proc initial := by
  have hs := Run.invariant_of_reachable hcalls h
  obtain ⟨hnil, hresult, -⟩ := hs.done o ho
  obtain ⟨arrivals, harrivals, hresults, hfold⟩ := hs.arrived
  rw [hnil, List.map_nil, List.append_nil] at harrivals
  have hall : foldArrivals proc initial arrivals = sequentially (arrivals.map Prod.fst) proc initial := by
    rw [foldArrivals, sequentially, List.foldl_map]
    refine List.foldl_ext _ _ _ fun result a ha => ?_
    rw [hperm _ _ (hresults a ha).1]
  rw [hresult, hfold, hall]
  exact harrivals.foldl_eq' (fun x _ y _ result => hcomm _ _ _) initial

/-- A map of a list of two elements, each of which gets a child. -/
def twoElements : MapCall ℕ ℕ := { map := fun lists => lists.flatten.sum, lists := [[5, 6]], blockSize := none }

/-- A map of a list of one element. -/
def oneElement : MapCall ℕ ℕ := { map := fun lists => lists.flatten.sum, lists := [[3]], blockSize := none }

/-- The run of a script that makes both maps, while the main kernel waits. -/
def twoMapsRun (proc : List ℕ → β → β) (result : β) (numChildren : UInt32) (two one : MapRun ℕ ℕ) : Run ℕ ℕ β where
  main := { numChildren, noChildren := false, result, reactProc := proc }
  maps := [two, one]

/-- The run in which both maps have come back, the second one first. -/
def twoMapsDone (proc : List ℕ → β → β) (initial : β) : Run ℕ ℕ β where
  main := { numChildren := 0, noChildren := false, result := proc [5, 6] (proc [3] initial), reactProc := proc }
  maps := [⟨twoElements, .received, [], []⟩, ⟨oneElement, .received, [], []⟩]
  outcome := some (.sent (proc [5, 6] (proc [3] initial)))
  postambles := [proc [5, 6] (proc [3] initial)]

theorem twoMapsRun_receive (proc : List ℕ → β → β) (result : β) (two one : MapRun ℕ ℕ) (child : List ℕ)
    (one' : MapRun ℕ ℕ) :
    (twoMapsRun proc result 2 two one).receive child [two, one'] = twoMapsRun proc (proc child result) 1 two one' := by
  have hmore : (2 : UInt32) - 1 = 1 := by decide
  simp [twoMapsRun, Run.receive, KernelBase.react, hmore]

theorem twoMapsRun_receive_last (proc : List ℕ → β → β) (initial : β) (two one : MapRun ℕ ℕ) :
    (twoMapsRun proc (proc [3] initial) 1 two one).receive [5, 6]
        [⟨twoElements, .received, [], []⟩, ⟨oneElement, .received, [], []⟩] = twoMapsDone proc initial := by
  simp [twoMapsRun, twoMapsDone, Run.receive, KernelBase.react]

theorem twoMapsDone_reachable (proc : List ℕ → β → β) (initial : β) :
    (Run.system initial true (mapsAndReact [twoElements, oneElement] proc initial)).Reachable
      (twoMapsDone proc initial) := by
  let S := Run.system initial true (mapsAndReact [twoElements, oneElement] proc initial)
  have stepTwo {result : β} {n : UInt32} {two two' one : MapRun ℕ ℕ} (h : two.Step two')
      (hs : S.Reachable (twoMapsRun proc result n two one)) : S.Reachable (twoMapsRun proc result n two' one) :=
    hs.step (@Run.Step.map _ _ _ _ [] [one] two two' rfl h)
  have stepOne {result : β} {n : UInt32} {two one one' : MapRun ℕ ℕ} (h : one.Step one')
      (hs : S.Reachable (twoMapsRun proc result n two one)) : S.Reachable (twoMapsRun proc result n two one') :=
    hs.step (@Run.Step.map _ _ _ _ [two] [] one one' rfl h)
  have hstart : S.Reachable
      (twoMapsRun proc initial 2 ⟨twoElements, .queued, [], []⟩ ⟨oneElement, .queued, [], []⟩) := .initial rfl
  have hact : S.Reachable
      (twoMapsRun proc initial 2 ⟨twoElements, .running ⟨[], 2⟩, [[[5]], [[6]]], []⟩
        ⟨oneElement, .running ⟨[], 1⟩, [[[3]]], []⟩) :=
    stepOne (.act rfl rfl) (stepTwo (.act rfl rfl) hstart)
  -- the second child of the first map is executed before the first one
  have hchild : S.Reachable
      (twoMapsRun proc initial 2 ⟨twoElements, .running ⟨[], 2⟩, [[[5]]], [6]⟩
        ⟨oneElement, .running ⟨[], 1⟩, [], [3]⟩) :=
    stepOne (@MapRun.Step.child _ _ ⟨oneElement, .running ⟨[], 1⟩, [[[3]]], []⟩ [] [] [[3]] rfl)
      (stepTwo (@MapRun.Step.child _ _ ⟨twoElements, .running ⟨[], 2⟩, [[[5]], [[6]]], []⟩ [[[5]]] [] [[6]] rfl) hact)
  have hone : S.Reachable
      (twoMapsRun proc initial 2 ⟨twoElements, .running ⟨[], 2⟩, [[[5]]], [6]⟩ ⟨oneElement, .returned [3], [], []⟩) :=
    stepOne (@MapRun.Step.react _ _ ⟨oneElement, .running ⟨[], 1⟩, [], [3]⟩ ⟨[], 1⟩ [] [] 3 rfl rfl) hchild
  have hback : S.Reachable
      (twoMapsRun proc (proc [3] initial) 1 ⟨twoElements, .running ⟨[], 2⟩, [[[5]]], [6]⟩
        ⟨oneElement, .received, [], []⟩) :=
    twoMapsRun_receive proc initial _ _ [3] _ ▸ hone.step (@Run.Step.react _ _ _
      (twoMapsRun proc initial 2 ⟨twoElements, .running ⟨[], 2⟩, [[[5]]], [6]⟩ ⟨oneElement, .returned [3], [], []⟩)
      [⟨twoElements, .running ⟨[], 2⟩, [[[5]]], [6]⟩] [] ⟨oneElement, .returned [3], [], []⟩ [3] rfl rfl rfl)
  have hsix : S.Reachable
      (twoMapsRun proc (proc [3] initial) 1 ⟨twoElements, .running ⟨[6], 1⟩, [], [5]⟩
        ⟨oneElement, .received, [], []⟩) :=
    stepTwo (@MapRun.Step.child _ _ ⟨twoElements, .running ⟨[6], 1⟩, [[[5]]], []⟩ [] [] [[5]] rfl)
      (stepTwo (@MapRun.Step.react _ _ ⟨twoElements, .running ⟨[], 2⟩, [[[5]]], [6]⟩ ⟨[], 2⟩ [] [] 6 rfl rfl) hback)
  have htwo : S.Reachable
      (twoMapsRun proc (proc [3] initial) 1 ⟨twoElements, .returned [5, 6], [], []⟩
        ⟨oneElement, .received, [], []⟩) :=
    stepTwo (@MapRun.Step.react _ _ ⟨twoElements, .running ⟨[6], 1⟩, [], [5]⟩ ⟨[6], 1⟩ [] [] 5 rfl rfl) hsix
  exact twoMapsRun_receive_last proc initial _ _ ▸ htwo.step (@Run.Step.react _ _ _
    (twoMapsRun proc (proc [3] initial) 1 ⟨twoElements, .returned [5, 6], [], []⟩ ⟨oneElement, .received, [], []⟩)
    [] [⟨oneElement, .received, [], []⟩] ⟨twoElements, .returned [5, 6], [], []⟩ [5, 6] rfl rfl rfl)

/-- Here the results are put behind each other, so that the order in which they are folded can be seen. -/
theorem folds_results_secondFirst : ∃ arrivals : List (MapCall ℕ ℕ × List ℕ),
    (arrivals.map Prod.fst).Perm [twoElements, oneElement] ∧ (∀ a ∈ arrivals, a.2.Perm a.1.results) ∧
      [3, 5, 6] = foldArrivals (fun results all => all ++ results) [] arrivals := by
  obtain ⟨-, -, hdone⟩ := folds_results (by decide) (twoMapsDone_reachable (fun results all => all ++ results) [])
  obtain ⟨arrivals, hperm, hresults, hresult, -⟩ := hdone _ rfl
  exact ⟨arrivals, hperm, hresults, hresult⟩

/-- The results of a map are added to what there is. -/
def addUp (results : List ℕ) (sum : ℕ) : ℕ := results.sum + sum

theorem agrees_with_sequential_secondFirst : 21 = sequentially [twoElements, oneElement] addUp 7 :=
  agrees_with_sequential (by decide) (fun _ _ hperm => funext fun sum => congrArg (· + sum) hperm.sum_eq)
    (fun xs ys sum => Nat.add_left_comm xs.sum ys.sum sum) (twoMapsDone_reachable addUp 7) rfl

/-- **Every run ends**, after as many steps as there are kernels to execute and to take, and the main kernel is done
then if and only if every map has a full block. -/
theorem ends_done_iff (hcalls : calls.length < 2 ^ 32) (hacts : ∀ call ∈ calls, call.Acts) :
    (∀ (f : ℕ → Run α γ β) (n : ℕ), f 0 = Run.start unspecified hasParent (mapsAndReact calls proc initial) →
        (∀ i < n, Run.Step (f i) (f (i + 1))) → n ≤ (calls.map fun call => 2 * call.blocks.length + 3).sum) ∧
      ∀ s, (Run.system unspecified hasParent (mapsAndReact calls proc initial)).Reachable s →
        (∀ s', ¬ Run.Step s s') → (s.outcome.isSome = true ↔ ∀ call ∈ calls, call.HasFullBlock) := by
  refine ⟨fun f n hstart hsteps => ?_, fun s h hstop => ?_⟩
  · have hle := System.length_le (S := Run.system unspecified hasParent (mapsAndReact calls proc initial)) Run.work
      (hstart ▸ Run.invariant_start hcalls) (fun _ _ hinv hstep => ⟨hinv.step hstep, Run.work_step hinv hstep⟩) hsteps
    rw [hstart, Run.work_start] at hle
    exact hle
  · have hs := Run.invariant_of_reachable hcalls h
    obtain ⟨arrivals, harrivals, hresults, -⟩ := hs.arrived
    constructor
    · intro hsome call hcall
      obtain ⟨o, ho⟩ := Option.isSome_iff_exists.mp hsome
      obtain ⟨hnil, -, -⟩ := hs.done o ho
      rw [hnil, List.map_nil, List.append_nil] at harrivals
      obtain ⟨a, ha, rfl⟩ := List.mem_map.mp (harrivals.symm.subset hcall)
      by_contra hblock
      exact (hresults a ha).2 ((hacts a.1 hcall).results_eq_nil_iff.mpr hblock)
    · intro hfull
      by_contra hdone
      rw [Option.not_isSome_iff_eq_none] at hdone
      obtain ⟨hne, -, -⟩ := hs.waiting hdone
      obtain ⟨r, hr⟩ := List.exists_mem_of_ne_nil _ hne
      have hcall : r.call ∈ calls := harrivals.subset (List.mem_append_right _ (List.mem_map_of_mem hr))
      exact (hacts r.call hcall).results_eq_nil_iff.mp (Run.stopped hacts hs hstop hr hdone) (hfull r.call hcall)

theorem twoMapsDone_stopped (s : Run ℕ ℕ ℕ) : ¬ Run.Step (twoMapsDone addUp 7) s := by
  intro h
  have hs := Run.invariant_of_reachable (by decide) (twoMapsDone_reachable addUp 7)
  obtain ⟨hpending, -, -⟩ := hs.done _ rfl
  cases h with
  | @map before after r r' hmaps hstep =>
    have hr : r ∈ (twoMapsDone addUp 7).maps := hmaps ▸ List.mem_append_right before List.mem_cons_self
    obtain ⟨-, -, hwaits, -, -⟩ := hstep.spec (hs.good r hr)
    exact List.ne_nil_of_mem (List.mem_filter.mpr ⟨hr, hwaits⟩) hpending
  | react hnone => cases hnone

theorem ends_done_iff_secondFirst :
    (twoMapsDone addUp 7).outcome.isSome = true ↔ ∀ call ∈ [twoElements, oneElement], call.HasFullBlock := by
  have hacts : ∀ call ∈ [twoElements, oneElement], call.Acts := by
    intro call hcall
    rcases List.mem_cons.mp hcall with rfl | hcall
    · exact ⟨by decide, by decide, by decide⟩
    · obtain rfl := List.mem_singleton.mp hcall
      exact ⟨by decide, by decide, by decide⟩
  exact (ends_done_iff (by decide) hacts).2 (twoMapsDone addUp 7) (twoMapsDone_reachable addUp 7) twoMapsDone_stopped

end MainResults

end Subordination.Guile
