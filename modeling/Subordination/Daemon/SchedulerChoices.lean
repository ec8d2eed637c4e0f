import Subordination.Core.LoadOrder
import Subordination.Daemon.Scheduler
import Subordination.Library.Selections

/-!
# The choices of the scheduler

Which client the scheduler chooses for a kernel (`daemon/socket_pipeline.cc`).

## The model

`Scheduler.schedule` goes through the clients in the order of the table. Here its loop is replaced by two selections
from lists of clients: the first least loaded one of those that may get the kernel, and the first least loaded one of
those that have the file of the kernel.

## What is proved

* `Scheduler.schedule_eq` — what `schedule` does, without the loop.
* `Scheduler.schedule_without_path` — for a kernel without a file, the client is a least loaded one, in whatever order
  the clients are.
* `Scheduler.schedule_cases` — what becomes of a kernel, with or without a file.
* `Scheduler.goes_on_iff` — when a kernel is not sent back to where it has come from.
* `Scheduler.gives_up_iff` — when a kernel turns back only if it matches nowhere.
-/

namespace Subordination.Daemon

open Subordination.Core Subordination.Library
open Subordination.Core.Resources (CString Trap)

namespace Scheduler

variable {P : Type}

/-- A client and its address in the table. -/
abbrev Entry (P : Type) := SocketAddress × SocketPipelineClient P

/-- The entries of the table. -/
def table (clients : ClientTable P) : List (Entry P) := clients.entries.map fun entry => (entry.1, entry.2)

/-- What the filter of the kernel says of a client. -/
def matchesClient (k : Kernel P) (client : SocketPipelineClient P) : Except Trap Bool :=
  match k.nodeFilter with
  | none => .ok true
  | some nodeFilter => client.matchFilter nodeFilter

/-- The client is started and matches the filter of the kernel. -/
def Matching (k : Kernel P) (entry : Entry P) : Prop :=
  entry.2.state = .started ∧ matchesClient k entry.2 = .ok true

instance (k : Kernel P) (entry : Entry P) : Decidable (Matching k entry) :=
  inferInstanceAs (Decidable (_ ∧ _))

/-- The clients that are started and match the filter of the kernel. -/
def matching (k : Kernel P) (clients : ClientTable P) : List (Entry P) := (table clients).filter (Matching k ·)

/-- Those among them that the kernel has not come from. -/
def eligible (k : Kernel P) (clients : ClientTable P) : List (Entry P) :=
  (matching k clients).filter (·.1 ≠ k.source)

/-- Those among them that have the file of the kernel. -/
def hosting (s : Scheduler) (k : Kernel P) (clients : ClientTable P) : List (Entry P) :=
  (matching k clients).filter (·.2.connection.socketAddress ∈ s.nodes k.path)

/-- The filter can be evaluated on the node itself and for all clients that are started. -/
def Evaluates (s : Scheduler) (k : Kernel P) (clients : ClientTable P) : Prop :=
  (∃ b, s.matchesLocally k = .ok b) ∧
    ∀ entry ∈ table clients, entry.2.state = .started → ∃ b, matchesClient k entry.2 = .ok b

/-- The load of the client in an entry. -/
def entryLoad (entry : Entry P) : ModularWeightArray := entry.2.relativeLoad

/-- The kernel may go to the client rather than stay. -/
def Accepts (s : Scheduler) (k : Kernel P) (matchesLocally : Bool) (entry : Entry P) : Prop :=
  s.isLocal = false ∨ k.carriesParent = true ∨ entryLoad entry ≤ s.localRelativeLoad ∨ matchesLocally = false

instance (s : Scheduler) (k : Kernel P) (b : Bool) (entry : Entry P) : Decidable (s.Accepts k b entry) :=
  inferInstanceAs (Decidable (_ ∨ _))

variable {s s' : Scheduler} {k k' : Kernel P} {clients : ClientTable P} {servers : List SocketPipelineServer}
  {b : Bool} {entry : Entry P} {result : Option SocketAddress}

/-! ### The loop -/

/-- One round of the loop. -/
def round (s : Scheduler) (k : Kernel P) (b : Bool) (choice : Choice P) (entry : Entry P) : Except Trap (Choice P) :=
  if entry.2.state ≠ .started then .ok choice
  else do
    if ← matchesClient k entry.2 then return s.consider k b choice entry.1 entry.2
    else return choice

theorem choose_eq_foldlM : s.choose k b clients = (table clients).foldlM (s.round k b) {} := by
  rw [choose, table, List.foldlM_map]
  congr
  funext choice ⟨address, client⟩
  cases hfilter : k.nodeFilter with
  | none =>
    simp only [round, matchesClient, hfilter]
    rfl
  | some nodeFilter => simp only [round, matchesClient, hfilter]

/-- A round ends when the filter can be evaluated for its client, and leaves out the others. -/
theorem round_eq_ok_iff {choice choice' : Choice P} : s.round k b choice entry = .ok choice' ↔
    (entry.2.state = .started → ∃ b, matchesClient k entry.2 = .ok b) ∧
      choice' = if Matching k entry then s.consider k b choice entry.1 entry.2 else choice := by
  unfold round Matching
  by_cases hstate : entry.2.state = .started
  · have houtcome : (∃ t, matchesClient k entry.2 = .error t) ∨ ∃ m, matchesClient k entry.2 = .ok m := by
      cases matchesClient k entry.2 <;> simp
    rcases houtcome with ⟨t, hmatch⟩ | ⟨m, hmatch⟩
    · simp [hstate, hmatch, bind, Except.bind]
    · cases m <;> simp [hstate, hmatch, bind, Except.bind, pure, Except.pure, eq_comm]
  · simp [hstate, eq_comm]

/-- The loop ends when the filter can be evaluated for all clients that are started, and considers those that match. -/
theorem choose_eq_ok_iff {choice : Choice P} : s.choose k b clients = .ok choice ↔
    (∀ entry ∈ table clients, entry.2.state = .started → ∃ b, matchesClient k entry.2 = .ok b) ∧
      choice = (matching k clients).foldl (fun choice entry => s.consider k b choice entry.1 entry.2) {} := by
  rw [choose_eq_foldlM, matching, List.foldl_filter]
  generalize table clients = entries
  generalize ({} : Choice P) = start
  induction entries generalizing start with
  | nil => simp [pure, Except.pure, eq_comm]
  | cons entry entries ih =>
    rw [List.foldlM_cons, List.foldl_cons, List.forall_mem_cons]
    constructor
    · intro h
      cases hround : s.round k b start entry with
      | error t =>
        rw [hround] at h
        cases h
      | ok next =>
        rw [hround] at h
        obtain ⟨hentry, hnext⟩ := round_eq_ok_iff.mp hround
        obtain ⟨hentries, hchoice⟩ := (ih next).mp h
        exact ⟨⟨hentry, hentries⟩, by simpa [hnext] using hchoice⟩
    · rintro ⟨⟨hentry, hentries⟩, hchoice⟩
      rw [round_eq_ok_iff.mpr ⟨hentry, rfl⟩]
      exact (ih _).mpr ⟨hentries, by simpa using hchoice⟩

/-- Whether the kernel may go to a client only depends on how much the client is loaded. -/
theorem accepts_mono {entry' : Entry P} (h : s.Accepts k b entry) (hlt : entryLoad entry' < entryLoad entry) :
    s.Accepts k b entry' :=
  h.imp_right (Or.imp_right (Or.imp_left fun hle => hlt.le.trans hle))

/-- By its load the loop chooses a least loaded client among those that may get the kernel. -/
theorem result_foldl (entries : List (Entry P)) :
    (entries.foldl (fun choice entry => s.consider k b choice entry.1 entry.2) {}).result =
      ((entries.filter (·.1 ≠ k.source)).filter (s.Accepts k b ·)).argmin entryLoad := by
  have hfold : ∀ start : Choice P,
      (entries.foldl (fun choice entry => s.consider k b choice entry.1 entry.2) start).result =
        entries.foldl (fun best entry => (s.consider k b { result := best } entry.1 entry.2).result) start.result := by
    intro start
    induction entries generalizing start with
    | nil => rfl
    | cons entry entries ih => exact ih _
  have hsource : (fun best entry => (s.consider k b { result := best } entry.1 entry.2).result) =
      fun best (entry : Entry P) => if decide (entry.1 ≠ k.source) = true then
        chooseFirst (fun entry => decide (s.Accepts k b entry)) entryLoad best entry else best := by
    funext best entry
    by_cases hsource : entry.1 = k.source
    · simp [consider, hsource]
    · cases best with
      | none =>
        simp only [consider, hsource, chooseFirst, Accepts, entryLoad, Bool.or_eq_true, Bool.not_eq_true',
          ModularWeightArray.le_iff, or_assoc, if_false, ne_eq, not_false_eq_true, decide_true, if_true]
        exact if_congr decide_eq_true_iff.symm rfl rfl
      | some previous =>
        simp only [consider, hsource, chooseFirst, entryLoad, ModularWeightArray.lt_iff, if_false, ne_eq,
          not_false_eq_true, decide_true, if_true]
        congr
  rw [hfold, hsource, ← List.foldl_filter]
  exact foldl_argmin_first fun x y hx hlt => by simpa using accepts_mono (by simpa using hx) hlt

/-- By its file it chooses a least loaded client among those that have the file. -/
theorem resultWithNodes_foldl (entries : List (Entry P)) :
    (entries.foldl (fun choice entry => s.consider k b choice entry.1 entry.2) {}).resultWithNodes =
      (entries.filter (·.2.connection.socketAddress ∈ s.nodes k.path)).argmin entryLoad := by
  have hfold : ∀ start : Choice P,
      (entries.foldl (fun choice entry => s.consider k b choice entry.1 entry.2) start).resultWithNodes =
        entries.foldl (fun best entry => (s.consider k b { resultWithNodes := best } entry.1 entry.2).resultWithNodes)
          start.resultWithNodes := by
    intro start
    induction entries generalizing start with
    | nil => rfl
    | cons entry entries ih => exact ih _
  rw [hfold]
  refine foldl_argmin_filter (fun best entry h => ?_) (fun best entry h => ?_)
  · have hmem : entry.2.connection.socketAddress ∈ s.nodes k.path := by simpa using h
    cases best with
    | none => simp [consider, hmem, List.argAux]
    | some previous =>
      simp only [consider, hmem, if_true, ModularWeightArray.lt_iff, List.argAux, entryLoad]
      congr
  · have hmem : entry.2.connection.socketAddress ∉ s.nodes k.path := by simpa using h
    simp [consider, hmem]

/-- What the loop comes to. -/
def choices (s : Scheduler) (k : Kernel P) (b : Bool) (clients : ClientTable P) : Choice P where
  result := ((eligible k clients).filter (s.Accepts k b ·)).argmin entryLoad
  resultWithNodes := (s.hosting k clients).argmin entryLoad

/-- **The scheduler without its loop.** It returns if the filter can be evaluated. -/
theorem schedule_eq (hstarted : clients.AnyStarted) {outcome : Scheduler × Kernel P × Option SocketAddress} :
    s.schedule k clients servers = .ok outcome ↔ s.Evaluates k clients ∧ ∃ b, s.matchesLocally k = .ok b ∧
      outcome = s.settle k clients b (s.prefer (s.fileIsLocal k servers) (s.choices k b clients)) := by
  have hchoices : ∀ b, (matching k clients).foldl (fun choice entry => s.consider k b choice entry.1 entry.2) {} =
      s.choices k b clients := fun b => by
    have hresult := result_foldl (s := s) (k := k) (b := b) (matching k clients)
    have hnodes := resultWithNodes_foldl (s := s) (k := k) (b := b) (matching k clients)
    generalize (matching k clients).foldl _ _ = choice at hresult hnodes ⊢
    cases choice
    simp only [choices, eligible, hosting] at hresult hnodes ⊢
    rw [hresult, hnodes]
  constructor
  · intro h
    obtain ⟨b, choice, hlocal, hchoice, hsettle⟩ := schedule_started hstarted h
    obtain ⟨hclients, rfl⟩ := choose_eq_ok_iff.mp hchoice
    exact ⟨⟨⟨b, hlocal⟩, hclients⟩, b, hlocal, by rw [← hsettle, hchoices]⟩
  · rintro ⟨⟨-, hclients⟩, b, hlocal, rfl⟩
    have hchoice := choose_eq_ok_iff.mpr ⟨hclients, (hchoices b).symm⟩
    unfold schedule
    rw [if_neg (not_not.mpr hstarted), hlocal]
    simp only [bind, Except.bind, hchoice]
    rfl

/-- The kernel stays if the client does not get it. -/
theorem not_accepts_iff : ¬s.Accepts k b entry ↔ s.isLocal = true ∧ k.carriesParent = false ∧
    s.localRelativeLoad < entryLoad entry ∧ b = true := by
  simp [Accepts]

/-- If the loop does not choose a client by its load, there is none or the node itself is better than all of them. -/
theorem result_choices_eq_none : (s.choices k b clients).result = none ↔
    eligible k clients = [] ∨ s.isLocal = true ∧ k.carriesParent = false ∧ b = true ∧
      ∀ entry ∈ eligible k clients, s.localRelativeLoad < entryLoad entry := by
  rw [choices, List.argmin_eq_none, List.filter_eq_nil_iff]
  simp only [decide_eq_true_eq, not_accepts_iff]
  constructor
  · intro h
    rcases List.eq_nil_or_concat (eligible k clients) with hnil | ⟨entries, entry, hconcat⟩
    · exact Or.inl hnil
    · obtain ⟨hlocal, hcarries, -, hb⟩ := h entry (by simp [hconcat])
      exact Or.inr ⟨hlocal, hcarries, hb, fun entry hmem => (h entry hmem).2.2.1⟩
  · rintro (hnil | ⟨hlocal, hcarries, hb, hload⟩) entry hmem
    · simp [hnil] at hmem
    · exact ⟨hlocal, hcarries, hload entry hmem, hb⟩

/-- If it chooses one, that client is least loaded. -/
theorem le_of_result_choices {best : Entry P} (h : (s.choices k b clients).result = some best) :
    best ∈ eligible k clients ∧ ∀ entry ∈ eligible k clients, entryLoad best ≤ entryLoad entry := by
  obtain ⟨hmem, haccepts⟩ := List.mem_filter.mp (List.argmin_mem h)
  refine ⟨hmem, fun entry hentry => ?_⟩
  by_cases hentry' : s.Accepts k b entry
  · exact List.le_of_mem_argmin (List.mem_filter.mpr ⟨hentry, by simpa using hentry'⟩) h
  · -- a client that does not get the kernel is more loaded than the node, and the node than the chosen one
    obtain ⟨hlocal, hcarries, hload, hb⟩ := not_accepts_iff.mp hentry'
    have hbest : entryLoad best ≤ s.localRelativeLoad := by simpa [Accepts, hlocal, hcarries, hb] using haccepts
    exact hbest.trans hload.le

/-! ### The order of the clients -/

/-- The kernel stays in both cases, or goes to clients that are equally loaded. -/
def SameLoad (clients clients' : ClientTable P) (result result' : Option SocketAddress) : Prop :=
  result = none ∧ result' = none ∨ ∃ entry ∈ table clients, ∃ entry' ∈ table clients',
    result = some entry.1 ∧ result' = some entry'.1 ∧ entry.2.relativeLoad = entry'.2.relativeLoad

/-- Two selections from clients that are the same up to their order. -/
theorem argmin_table_perm {entries entries' : List (Entry P)} (h : entries.Perm entries') :
    entries.argmin entryLoad = none ∧ entries'.argmin entryLoad = none ∨ ∃ entry ∈ entries, ∃ entry' ∈ entries',
      entries.argmin entryLoad = some entry ∧ entries'.argmin entryLoad = some entry' ∧
        entryLoad entry = entryLoad entry' := by
  have hmap := argmin_perm (f := entryLoad) h
  cases hx : entries.argmin entryLoad with
  | none =>
    rw [hx, Option.map_none, eq_comm, Option.map_eq_none_iff] at hmap
    exact Or.inl ⟨rfl, hmap⟩
  | some entry =>
    rw [hx, Option.map_some, eq_comm, Option.map_eq_some_iff] at hmap
    obtain ⟨entry', hy, heq⟩ := hmap
    exact Or.inr ⟨entry, List.argmin_mem hx, entry', List.argmin_mem hy, rfl, hy, heq.symm⟩

variable {clients' : ClientTable P}

theorem table_perm (h : clients'.entries.Perm clients.entries) : (table clients').Perm (table clients) := h.map _

/-- The order does not matter to the loop but among clients that are equally loaded. -/
theorem prefer_perm (h : clients'.entries.Perm clients.entries) (fileIsLocal : Bool) :
    SameLoad clients clients' (s.prefer fileIsLocal (s.choices k b clients))
      (s.prefer fileIsLocal (s.choices k b clients')) := by
  have hmatching : (matching k clients).Perm (matching k clients') := ((table_perm h).filter _).symm
  have hresult := argmin_table_perm ((hmatching.filter (·.1 ≠ k.source)).filter (s.Accepts k b ·))
  have hnodes := argmin_table_perm (hmatching.filter (·.2.connection.socketAddress ∈ s.nodes k.path))
  have htable : ∀ {clients : ClientTable P} {entry : Entry P}, entry ∈ matching k clients → entry ∈ table clients :=
    fun hmem => List.mem_of_mem_filter hmem
  rcases hnodes with ⟨hx, hy⟩ | ⟨entry, hmem, entry', hmem', hx, hy, heq⟩
  · simp only [prefer, choices, hosting, hx, hy, eligible]
    cases fileIsLocal with
    | true => exact Or.inl ⟨rfl, rfl⟩
    | false =>
      rcases hresult with ⟨hx, hy⟩ | ⟨entry, hmem, entry', hmem', hx, hy, heq⟩
      · exact Or.inl ⟨congrArg (Option.map Prod.fst) hx, congrArg (Option.map Prod.fst) hy⟩
      · refine Or.inr ⟨entry, ?_, entry', ?_, congrArg (Option.map Prod.fst) hx, congrArg (Option.map Prod.fst) hy, heq⟩
        · exact htable (List.mem_of_mem_filter (List.mem_of_mem_filter hmem))
        · exact htable (List.mem_of_mem_filter (List.mem_of_mem_filter hmem'))
  · simp only [prefer, choices, hosting, hx, hy]
    have hload : entry.2.relativeLoad = entry'.2.relativeLoad := heq
    rw [hload]
    split_ifs with hbetter
    · exact Or.inl ⟨rfl, rfl⟩
    · exact Or.inr ⟨entry, htable (List.mem_of_mem_filter hmem), entry', htable (List.mem_of_mem_filter hmem'),
        rfl, rfl, hload⟩

/-- **The order of the clients does not matter** but among clients that are equally loaded. -/
theorem schedule_perm (hstarted : clients.AnyStarted) (h : clients'.entries.Perm clients.entries)
    (hschedule : s.schedule k clients servers = .ok (s', k', result)) : ∃ result',
      s.schedule k clients' servers = .ok (s', k', result') ∧ SameLoad clients clients' result result' := by
  obtain ⟨⟨hlocal, hclients⟩, b, hb, houtcome⟩ := (schedule_eq hstarted).mp hschedule
  have hstarted' : clients'.AnyStarted := by
    obtain ⟨entry, hmem, hstate⟩ := hstarted
    exact ⟨entry, h.mem_iff.mpr hmem, hstate⟩
  have hevaluates : s.Evaluates k clients' :=
    ⟨hlocal, fun entry hmem => hclients entry ((table_perm h).mem_iff.mp hmem)⟩
  have hsource : k.source ∈ clients' ↔ k.source ∈ clients := (h.map Sigma.fst).mem_iff
  have hprefer := prefer_perm (s := s) (k := k) (b := b) h (s.fileIsLocal k servers)
  generalize s.prefer (s.fileIsLocal k servers) (s.choices k b clients) = choice at hprefer houtcome
  generalize hchoice : s.prefer (s.fileIsLocal k servers) (s.choices k b clients') = choice' at hprefer
  have hsettle : ∃ result', s.settle k clients' b choice' = (s', k', result') ∧
      SameLoad clients clients' result result' := by
    rcases hprefer with ⟨rfl, rfl⟩ | ⟨entry, hmem, entry', hmem', rfl, rfl, heq⟩
    · unfold settle at houtcome ⊢
      simp only [hsource]
      split_ifs at houtcome ⊢ with hb' hback
      · cases houtcome
        exact ⟨none, rfl, Or.inl ⟨rfl, rfl⟩⟩
      · cases houtcome
        refine ⟨some k.source, rfl, Or.inr ?_⟩
        obtain ⟨entry, hmem, hkey⟩ := List.mem_map.mp (show k.source ∈ clients.keys from hback.2)
        have hentry : (entry.1, entry.2) ∈ table clients := List.mem_map_of_mem hmem
        exact ⟨_, hentry, _, (table_perm h).mem_iff.mpr hentry, by rw [hkey], by rw [hkey], rfl⟩
      · cases houtcome
        exact ⟨none, rfl, Or.inl ⟨rfl, rfl⟩⟩
    · cases houtcome
      exact ⟨some entry'.1, rfl, Or.inr ⟨entry, hmem, entry', hmem', rfl, rfl, heq⟩⟩
  obtain ⟨result', hresult, hsame⟩ := hsettle
  exact ⟨result', (schedule_eq hstarted').mpr ⟨hevaluates, b, hb, by rw [hchoice, hresult]⟩, hsame⟩

theorem settle_some (address : SocketAddress) : s.settle k clients b (some address) = (s, k, some address) := rfl

theorem settle_none_true :
    s.settle k clients true none = ({ s with localLoad := s.localLoad.add k.weights }, k, none) := rfl

/-- A kernel for which there is nothing turns back. -/
theorem settle_none_false : ∃ s' result, s.settle k clients false none = (s', k.returnToParent .noResources, result) ∧
    ∀ address, result = some address → address = k.source := by
  rw [settle, if_neg Bool.false_ne_true]
  split_ifs with hback
  · exact ⟨s, some k.source, rfl, fun address h => (Option.some.inj h).symm⟩
  · exact ⟨_, none, rfl, fun address h => by cases h⟩

/-! ### Kernels without a file -/

/-- A kernel without a file goes to the client that has been chosen by its load. -/
theorem prefer_without_path (hpath : k.path = []) (servers : List SocketPipelineServer) :
    s.prefer (s.fileIsLocal k servers) (s.choices k b clients) = (s.choices k b clients).result.map Prod.fst := by
  have hnodes : s.nodes k.path = [] := by
    rw [hpath]
    rfl
  simp [prefer, choices, hosting, fileIsLocal, hnodes]

/-- **The scheduler chooses a least loaded client** for a kernel without a file, or keeps the kernel if the node itself
is better; it returns if the filter can be evaluated. -/
theorem schedule_without_path (hstarted : clients.AnyStarted) (hpath : k.path = []) :
    ((∃ outcome, s.schedule k clients servers = .ok outcome) ↔ s.Evaluates k clients) ∧
      ∀ s' k' result, s.schedule k clients servers = .ok (s', k', result) →
        (eligible k clients = [] → s.matchesLocally k = .ok true → result = none) ∧
        (eligible k clients ≠ [] →
          (result = none ↔ s.isLocal = true ∧ k.carriesParent = false ∧ s.matchesLocally k = .ok true ∧
            ∀ entry ∈ eligible k clients, s.localRelativeLoad.lt entry.2.relativeLoad = true) ∧
          ∀ address, result = some address → ∃ client, (address, client) ∈ eligible k clients ∧
            ∀ entry ∈ eligible k clients, client.relativeLoad.le entry.2.relativeLoad = true) ∧
        ∀ clients' : ClientTable P, clients'.entries.Perm clients.entries → ∃ result',
          s.schedule k clients' servers = .ok (s', k', result') ∧ SameLoad clients clients' result result' := by
  refine ⟨⟨fun ⟨_, h⟩ => ((schedule_eq hstarted).mp h).1, fun h => ?_⟩, fun s' k' result h => ⟨?_, ?_, ?_⟩⟩
  · obtain ⟨b, hb⟩ := h.1
    exact ⟨_, (schedule_eq hstarted).mpr ⟨h, b, hb, rfl⟩⟩
  all_goals
    obtain ⟨-, b, hb, houtcome⟩ := (schedule_eq hstarted).mp h
    rw [prefer_without_path hpath] at houtcome
  · intro hnil hlocal
    have hb' : b = true := Except.ok.inj (hb.symm.trans hlocal)
    rw [result_choices_eq_none.mpr (Or.inl hnil), Option.map_none, hb', settle_none_true] at houtcome
    cases houtcome
    rfl
  · intro hne
    simp only [ModularWeightArray.lt_iff, ModularWeightArray.le_iff]
    cases hbest : (s.choices k b clients).result with
    | none =>
      obtain ⟨hlocal, hcarries, rfl, hload⟩ := (result_choices_eq_none.mp hbest).resolve_left hne
      rw [hbest, Option.map_none, settle_none_true] at houtcome
      cases houtcome
      exact ⟨⟨fun _ => ⟨hlocal, hcarries, hb, hload⟩, fun _ => rfl⟩, fun _ h => by cases h⟩
    | some best =>
      rw [hbest, Option.map_some, settle_some] at houtcome
      cases houtcome
      refine ⟨⟨fun h => (by cases h), ?_⟩, fun address h => ?_⟩
      · rintro ⟨hlocal, hcarries, hmatches, hload⟩
        have hb' : b = true := Except.ok.inj (hb.symm.trans hmatches)
        have hnone := result_choices_eq_none.mpr (Or.inr ⟨hlocal, hcarries, hb', hload⟩)
        rw [hbest] at hnone
        cases hnone
      · cases h
        exact ⟨best.2, le_of_result_choices hbest⟩
  · exact fun clients' hperm => schedule_perm hstarted hperm h

/-- A client that is started, and to which nothing has been sent. -/
def idleClient (address : SocketAddress) : SocketPipelineClient Unit :=
  { connection := { flags := {}, socketAddress := address }, state := .started }

/-- The only client is idle. -/
def oneClient : ClientTable Unit := AList.singleton (.ofBytes [1]) (idleClient (.ofBytes [1]))

/-- A kernel goes to the only client, which is not more loaded than the node. -/
theorem schedule_without_path_idle : ∃ s' k' result,
    ({} : Scheduler).schedule (Kernel.plain []) oneClient [] = .ok (s', k', result) ∧ result ≠ none := by
  obtain ⟨hreturns, hchoice⟩ :=
    @schedule_without_path Unit {} (Kernel.plain []) oneClient [] (by decide) rfl
  obtain ⟨⟨s', k', result⟩, h⟩ := hreturns.mpr ⟨⟨true, rfl⟩, fun entry _ _ => ⟨true, rfl⟩⟩
  refine ⟨s', k', result, h, fun hnone => ?_⟩
  obtain ⟨-, -, -, hload⟩ := ((hchoice s' k' result h).2.1 (by decide)).1.mp hnone
  have hmem : (.ofBytes [1], idleClient (.ofBytes [1])) ∈ eligible (Kernel.plain []) oneClient :=
    List.mem_singleton_self _
  exact absurd (hload _ hmem) (by decide)

/-! ### The way back -/

/-- The kernel goes to a client that is started, matches its filter and is not its source; or it turns back, and goes
to its source. -/
def GoesOn (k : Kernel P) (clients : ClientTable P) (k' : Kernel P) (address : SocketAddress) : Prop :=
  (k'.phase ≠ .downstream → ∃ client, (address, client) ∈ eligible k clients) ∧
    (k'.phase = .downstream → address = k.source)

/-- Of the clients that have the file of the kernel, the first least loaded one is the source of the kernel, and the
node itself does not have the file or is not better. -/
def SourceHosts (s : Scheduler) (k : Kernel P) (clients : ClientTable P) (servers : List SocketPipelineServer) : Prop :=
  ∃ before client after, s.hosting k clients = before ++ (k.source, client) :: after ∧
    (∀ entry ∈ before, client.relativeLoad.lt entry.2.relativeLoad = true) ∧
    (∀ entry ∈ after, client.relativeLoad.le entry.2.relativeLoad = true) ∧
    (s.fileIsLocal k servers = true → s.localRelativeLoad.lt client.relativeLoad = false)

/-- The source of the kernel has been chosen by its file. -/
theorem sourceHosts_iff : s.SourceHosts k clients servers ↔ ∃ client,
    (s.choices k b clients).resultWithNodes = some (k.source, client) ∧
      (s.fileIsLocal k servers = true → s.localRelativeLoad.lt client.relativeLoad = false) := by
  simp only [SourceHosts, choices, argmin_eq_some_iff_append, ModularWeightArray.lt_iff, ModularWeightArray.le_iff]
  constructor
  · rintro ⟨before, client, after, happ, hbefore, hafter, hlocal⟩
    exact ⟨client, ⟨before, after, happ, hbefore, hafter⟩, hlocal⟩
  · rintro ⟨client, ⟨before, after, happ, hbefore, hafter⟩, hlocal⟩
    exact ⟨before, client, after, happ, hbefore, hafter, hlocal⟩

/-- Which client is chosen in the end. -/
theorem prefer_eq_some {fileIsLocal : Bool} {choice : Choice P} {address : SocketAddress} :
    s.prefer fileIsLocal choice = some address ↔
      (∃ client, choice.resultWithNodes = some (address, client) ∧
        (fileIsLocal = true → s.localRelativeLoad.lt client.relativeLoad = false)) ∨
      choice.resultWithNodes = none ∧ fileIsLocal = false ∧ ∃ client, choice.result = some (address, client) := by
  unfold prefer
  cases hnodes : choice.resultWithNodes with
  | none => cases fileIsLocal <;> simp
  | some best =>
    obtain ⟨address', client⟩ := best
    simp only [Option.some.injEq, Prod.mk.injEq, reduceCtorEq, false_and, or_false]
    constructor
    · intro h
      split_ifs at h with hbetter
      exact ⟨client, ⟨Option.some.inj h, rfl⟩, by simpa using hbetter⟩
    · rintro ⟨client', ⟨rfl, rfl⟩, hlocal⟩
      rw [if_neg (by simpa using hlocal)]

theorem anyStarted_of_mem_matching (h : entry ∈ matching k clients) : clients.AnyStarted := by
  obtain ⟨hmem, hmatching⟩ := List.mem_filter.mp h
  obtain ⟨pair, hpair, rfl⟩ := List.mem_map.mp hmem
  exact ⟨pair, hpair, (by simpa using hmatching : Matching k _).1⟩

/-- What becomes of a kernel: it stays as it is, and goes to the client that has been chosen if there is one; or it
turns back, since none has been chosen and the node does not match. -/
theorem schedule_cases (h : s.schedule k clients servers = .ok (s', k', result)) :
    (k' = k ∧ ∀ address, result = some address → s.Evaluates k clients ∧
      ∃ b, s.prefer (s.fileIsLocal k servers) (s.choices k b clients) = some address) ∨
    (k' = k.returnToParent .noResources ∧ (∀ address, result = some address → address = k.source) ∧
      s.Evaluates k clients ∧ s.matchesLocally k = .ok false ∧
        s.prefer (s.fileIsLocal k servers) (s.choices k false clients) = none) := by
  by_cases hstarted : clients.AnyStarted
  · obtain ⟨hevaluates, b, hb, houtcome⟩ := (schedule_eq hstarted).mp h
    cases hprefer : s.prefer (s.fileIsLocal k servers) (s.choices k b clients) with
    | some address =>
      rw [hprefer, settle_some] at houtcome
      cases houtcome
      exact Or.inl ⟨rfl, fun address' heq => ⟨hevaluates, b, hprefer.trans heq⟩⟩
    | none =>
      rw [hprefer] at houtcome
      cases b with
      | true =>
        rw [settle_none_true] at houtcome
        cases houtcome
        exact Or.inl ⟨rfl, fun address heq => by cases heq⟩
      | false =>
        obtain ⟨t, result', hsettle, hsource⟩ := @settle_none_false _ s k clients
        rw [hsettle] at houtcome
        cases houtcome
        exact Or.inr ⟨rfl, hsource, hevaluates, hb, hprefer⟩
  · rw [schedule_idle hstarted] at h
    cases h
    exact Or.inl ⟨rfl, fun address heq => by cases heq⟩

/-- **A kernel that is sent goes on, and a kernel that turns back goes to its source**, if and only if its source
has not been chosen by the file. -/
theorem goes_on_iff (hphase : k.phase = .upstream) :
    (∀ s' k' address, s.schedule k clients servers = .ok (s', k', some address) → GoesOn k clients k' address) ↔
      ¬(s.Evaluates k clients ∧ s.SourceHosts k clients servers) := by
  constructor
  · rintro h ⟨hevaluates, hhosts⟩
    obtain ⟨b, hb⟩ := hevaluates.1
    obtain ⟨client, hbest, hlocal⟩ := (sourceHosts_iff (b := b)).mp hhosts
    have hstarted : clients.AnyStarted :=
      anyStarted_of_mem_matching (List.mem_of_mem_filter (List.argmin_mem hbest))
    have hprefer := (prefer_eq_some (s := s)).mpr (Or.inl ⟨client, hbest, hlocal⟩)
    have hschedule := (schedule_eq hstarted).mpr ⟨hevaluates, b, hb, by rw [hprefer, settle_some]⟩
    obtain ⟨client', hmem⟩ := (h s k k.source hschedule).1 (by rw [hphase]; decide)
    simp [eligible] at hmem
  · intro h s' k' address hschedule
    rcases schedule_cases hschedule with ⟨rfl, hchosen⟩ | ⟨rfl, hsource, -⟩
    · obtain ⟨hevaluates, b, hprefer⟩ := hchosen address rfl
      refine ⟨fun _ => ?_, fun hdown => by rw [hphase] at hdown; cases hdown⟩
      rcases prefer_eq_some.mp hprefer with ⟨client, hbest, hlocal⟩ | ⟨-, -, client, hbest⟩
      · have hne : address ≠ k'.source := by
          rintro rfl
          exact h ⟨hevaluates, sourceHosts_iff.mpr ⟨client, hbest, hlocal⟩⟩
        have hmem := List.mem_of_mem_filter (List.argmin_mem hbest)
        exact ⟨client, List.mem_filter.mpr ⟨hmem, by simpa using hne⟩⟩
      · exact ⟨client, (le_of_result_choices hbest).1⟩
    · exact ⟨fun hne => absurd rfl hne, fun _ => hsource address rfl⟩

/-- Every file is on the neighbour. -/
def fileOnNeighbour : Scheduler := { fileSystems := [⟨CString.ofBytes [110], fun _ => [.ofBytes [1]]⟩] }

/-- A kernel that has come from the neighbour, and reads a file. -/
def fromNeighbour : Kernel Unit := { Kernel.plain [47] with source := .ofBytes [1] }

/-- A kernel of the node itself goes on to the neighbour. -/
theorem goes_on_from_node : ∃ s', fileOnNeighbour.schedule (Kernel.plain [47]) oneClient [] =
    .ok (s', Kernel.plain [47], some (.ofBytes [1])) ∧
      GoesOn (Kernel.plain [47]) oneClient (Kernel.plain [47]) (.ofBytes [1]) := by
  have hsource : ¬(fileOnNeighbour.Evaluates (Kernel.plain [47]) oneClient ∧
      fileOnNeighbour.SourceHosts (Kernel.plain [47]) oneClient []) := by
    rintro ⟨-, before, client, after, happ, -⟩
    have hmem : (SocketAddress.unset, client) ∈ fileOnNeighbour.hosting (Kernel.plain [47]) oneClient := by
      rw [happ]
      exact List.mem_append_right _ List.mem_cons_self
    have hunset : SocketAddress.unset = .ofBytes [1] := congrArg Prod.fst (List.mem_singleton.mp hmem)
    exact absurd hunset (by decide)
  exact ⟨_, rfl, (goes_on_iff rfl).mpr hsource _ _ _ rfl⟩

/-- **A kernel is sent back to where it has come from.** -/
theorem sent_back : ¬∀ s' k' address, fileOnNeighbour.schedule fromNeighbour oneClient [] = .ok (s', k', some address) →
    GoesOn fromNeighbour oneClient k' address := by
  intro h
  obtain ⟨client, hmem⟩ := (h _ _ (.ofBytes [1]) rfl).1 (by decide)
  simp [eligible, fromNeighbour] at hmem

/-! ### Giving up -/

/-- Some client could get the kernel, but the node has its file, and all clients that have it are more loaded. -/
def PrefersItself (s : Scheduler) (k : Kernel P) (clients : ClientTable P) (servers : List SocketPipelineServer) :
    Prop :=
  eligible k clients ≠ [] ∧ s.fileIsLocal k servers = true ∧
    ∀ entry ∈ s.hosting k clients, s.localRelativeLoad.lt entry.2.relativeLoad = true

/-- The clients that have the file are all more loaded than the node if the first least loaded one is. -/
theorem prefer_eq_none (hlocal : s.fileIsLocal k servers = true) :
    s.prefer (s.fileIsLocal k servers) (s.choices k b clients) = none ↔
      ∀ entry ∈ s.hosting k clients, s.localRelativeLoad.lt entry.2.relativeLoad = true := by
  rw [prefer, hlocal]
  cases hbest : (s.choices k b clients).resultWithNodes with
  | none =>
    have hnil : s.hosting k clients = [] := List.argmin_eq_none.mp hbest
    simp [hnil]
  | some best =>
    have hmem : best ∈ s.hosting k clients := List.argmin_mem hbest
    simp only [Bool.true_and, ite_eq_left_iff, reduceCtorEq, imp_false, not_not]
    refine ⟨fun hless entry hentry => ?_, fun h => h best hmem⟩
    rw [ModularWeightArray.lt_iff] at hless ⊢
    have hle : entryLoad best ≤ entryLoad entry := List.le_of_mem_argmin hentry hbest
    exact lt_of_lt_of_le hless hle

/-- **A kernel turns back with `no_resources` only if it matches nowhere**, if and only if the node does not prefer
itself while it does not match. -/
theorem gives_up_iff (hphase : k.phase = .upstream) :
    (∀ s' k' result, s.schedule k clients servers = .ok (s', k', result) →
      k'.phase = .downstream → k'.result = .noResources →
      s.matchesLocally k = .ok false ∧ eligible k clients = []) ↔
      ¬(s.Evaluates k clients ∧ s.matchesLocally k = .ok false ∧ s.PrefersItself k clients servers) := by
  constructor
  · rintro h ⟨hevaluates, hlocal, hne, hfile, hload⟩
    obtain ⟨entry, hmem⟩ := List.exists_mem_of_ne_nil _ hne
    have hstarted : clients.AnyStarted := anyStarted_of_mem_matching (List.mem_of_mem_filter hmem)
    have hprefer := (prefer_eq_none (b := false) hfile).mpr hload
    obtain ⟨s', result, hsettle, -⟩ := @settle_none_false _ s k clients
    have hschedule := (schedule_eq hstarted).mpr ⟨hevaluates, false, hlocal, by rw [hprefer, hsettle]⟩
    exact hne (h s' (k.returnToParent .noResources) result hschedule rfl rfl).2
  · intro h s' k' result hschedule hdown hcode
    rcases schedule_cases hschedule with ⟨rfl, -⟩ | ⟨rfl, -, hevaluates, hlocal, hprefer⟩
    · rw [hphase] at hdown
      cases hdown
    · refine ⟨hlocal, by_contra fun hne => h ⟨hevaluates, hlocal, hne, ?_⟩⟩
      have hfile : s.fileIsLocal k servers = true := by
        by_contra hfile
        -- away from the file only a client that has it, or no client at all, keeps the loop's choice from going
        rw [Bool.not_eq_true] at hfile
        have hresult : (s.choices k false clients).result = none := by
          cases hresult : (s.choices k false clients).result with
          | none => rfl
          | some best =>
            rw [hfile, prefer] at hprefer
            cases hnodes : (s.choices k false clients).resultWithNodes <;> simp [hnodes, hresult] at hprefer
        exact absurd (result_choices_eq_none.mp hresult) (by simp [hne])
      exact ⟨hfile, (prefer_eq_none hfile).mp hprefer⟩

/-- Every file is on the node itself, which has one thread. -/
def fileOnNode : Scheduler := { fileSystems := [⟨CString.ofBytes [110], fun _ => [.ofBytes [2]]⟩] }

/-- The node listens on the address of the file. -/
def nodeServer : SocketPipelineServer := ⟨fun _ => true, .ofBytes [2]⟩

/-- A kernel that reads a file, and needs eight threads. -/
def needsThreads : Kernel Unit :=
  { Kernel.plain [47] with nodeFilter := some (.binary .greaterOrEqual (.symbol 0) (.constant (.u64 8))) }

/-- The only client, with a node of eight threads behind it. -/
def largeClient : ClientTable Unit :=
  AList.singleton (.ofBytes [1])
    ((idleClient (.ofBytes [1])).setNodesBehind [{ (default : HierarchyNode) with resources := ⟨fun _ => .u64 8, ∅⟩ }])

/-- A kernel that needs more than the node and its client have turns back. -/
theorem gives_up_small_client : ∃ s', fileOnNode.schedule needsThreads oneClient [nodeServer] =
    .ok (s', needsThreads.returnToParent .noResources, none) ∧
      fileOnNode.matchesLocally needsThreads = .ok false ∧ eligible needsThreads oneClient = [] := by
  have hprefers : ¬(fileOnNode.Evaluates needsThreads oneClient ∧ fileOnNode.matchesLocally needsThreads = .ok false ∧
      fileOnNode.PrefersItself needsThreads oneClient [nodeServer]) := by
    rintro ⟨-, -, hne, -⟩
    exact hne rfl
  exact ⟨_, rfl, (gives_up_iff rfl).mpr hprefers _ _ none rfl rfl rfl⟩

/-- **A kernel turns back although the client has the threads it needs.** -/
theorem given_up : ¬∀ s' k' result,
    fileOnNode.schedule needsThreads largeClient [nodeServer] = .ok (s', k', result) →
      k'.phase = .downstream → k'.result = .noResources →
      fileOnNode.matchesLocally needsThreads = .ok false ∧ eligible needsThreads largeClient = [] := by
  intro h
  exact absurd (h _ _ none rfl rfl rfl).2 (by decide)

end Scheduler

end Subordination.Daemon
