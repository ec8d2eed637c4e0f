import Mathlib.Data.List.Nodup
import Mathlib.Data.List.Perm.Basic
import Subordination.Daemon.InterfaceAddress
import Subordination.Library.Splitting
import Subordination.Library.System

/-!
# The main kernel of a daemon

The main kernel keeps a discoverer for every interface of the node, and hands the kernels of the discoverers over to
the one whose interface they are about (`sbnd::Main`, `daemon/main.cc`; `resident_kernel::stop`,
`daemon/resident_kernel.cc`).

## The model

A discoverer is known by the number of those that have been constructed before it. The kernels that the main kernel
puts into the local pipeline are taken by its threads in order, and so is a discoverer that is sent: with several
threads a kernel may be executed while those before it have been taken, but not executed. A discoverer returns when it
is told to stop, and the main kernel lets go of it. What a discoverer has sent itself, a timer or a probe with the
discoverer as its parent, may come back at any time. The sets and the table are not ordered, so an update goes through
them in any order. The kernels of the main kernel itself are executed one at a time. A server that cannot be bound
ends the run.

## What is proved

* **`interfaces_match`**: after every update there is a discoverer for every allowed interface that has been found and
  for no other; every discoverer that has been constructed is in the table, or told to stop, or gone, once.
* **`forwards_alive`**: what the main kernel hands over is about an interface of the discoverer that gets it. With one
  thread it is executed before the discoverer is gone, so that only what the discoverer has sent itself may come later.
* **`server_stays_lost`**: a server that is lost is not restored while its interface stays.
-/

namespace Subordination.Daemon

open Subordination.Library

/-! ### Interfaces -/

/-- `sys::interface_address<sys::ipv4_address>`: an address and the number of bits in its mask. -/
structure Interface where
  /-- `address()`. -/
  address : UInt32
  /-- `netmask()`. -/
  netmask : ℕ
  deriving DecidableEq, Repr

/-- `contains`. -/
def Interface.contains (a : Interface) (address : UInt32) : Bool :=
  (InterfaceAddress.ofAddress address a.netmask).network = (InterfaceAddress.ofAddress a.address a.netmask).network

/-- `is_allowed`, if the set of allowed interfaces is not empty. -/
def isAllowed (allowed : List Interface) (a : Interface) : Bool :=
  allowed.isEmpty || allowed.any fun b => b.contains a.address

/-! ### The main kernel -/

/-- A kernel in the local pipeline, for the discoverer with the given number. -/
inductive LocalKernel where
  /-- The discoverer itself, which is to act. -/
  | act (d : ℕ)
  /-- `stop_message`. -/
  | stop (d : ℕ)
  /-- A kernel about a node with an address, which the main kernel has handed over. -/
  | forward (d : ℕ) (address : UInt32)
  deriving DecidableEq

/-- The discoverer that a kernel is for. -/
def LocalKernel.discoverer : LocalKernel → ℕ
  | act d | stop d | forward d _ => d

/-- A kernel has been executed by a discoverer. -/
structure Execution where
  /-- The discoverer. -/
  discoverer : ℕ
  /-- The discoverer has sent the kernel itself. -/
  own : Bool
  /-- The discoverer was gone by then. -/
  gone : Bool
  deriving DecidableEq

/-- The main kernel, and what it works on. -/
structure MainKernel where
  /-- `_discoverers`. -/
  discoverers : List (Interface × ℕ) := []
  /-- The servers of the remote pipeline. -/
  servers : List Interface := []
  /-- The interfaces that have been found last. -/
  found : List Interface := []
  /-- The interfaces of all discoverers that have been constructed. -/
  constructed : List Interface := []
  /-- The kernels in the local pipeline. -/
  queue : List LocalKernel := []
  /-- The kernels that are coming back to discoverers that have sent them. -/
  own : List ℕ := []
  /-- The discoverers that are gone. -/
  gone : List ℕ := []
  /-- The network timers that are on their way. -/
  timers : ℕ := 1
  /-- The addresses of the kernels that have been returned with an error. -/
  returned : List UInt32 := []
  /-- What discoverers have executed. -/
  executed : List Execution := []

namespace MainKernel

/-- `add_discoverer`. -/
def addDiscoverer (s : MainKernel) (a : Interface) : MainKernel :=
  let s := { s with servers := if a ∈ s.servers then s.servers else s.servers ++ [a] }
  if s.discoverers.any (·.1 = a) then s
  else
    { s with
      constructed := s.constructed ++ [a]
      discoverers := s.discoverers ++ [(a, s.constructed.length)]
      queue := s.queue ++ [.act s.constructed.length] }

/-- `remove_discoverer`. -/
def removeDiscoverer (s : MainKernel) (a : Interface) : MainKernel :=
  let s := { s with servers := s.servers.erase a }
  match s.discoverers.find? (·.1 = a) with
  | none => s
  | some (_, d) => { s with queue := s.queue ++ [.stop d], discoverers := s.discoverers.eraseP (·.1 = a) }

/-- The interfaces of the discoverers. -/
def interfaces (s : MainKernel) : List Interface := s.discoverers.map Prod.fst

/-- `set_difference_copy(new_ifaddrs, _discoverers)`, without the interfaces that are not allowed. -/
def toAdd (s : MainKernel) (allowed found : List Interface) : List Interface :=
  (found.filter (· ∉ s.interfaces)).filter (isAllowed allowed)

/-- `set_difference_copy(_discoverers, new_ifaddrs)`. -/
def toRemove (s : MainKernel) (found : List Interface) : List Interface := s.interfaces.filter (· ∉ found)

/-- The loops of `update_discoverers`, which go through both differences in some order. -/
def updateDiscoverers (s : MainKernel) (found removed added : List Interface) : MainKernel :=
  { added.foldl addDiscoverer (removed.foldl removeDiscoverer s) with found }

/-- `find_discoverer`. -/
def findDiscoverer (s : MainKernel) (address : UInt32) : Option (Interface × ℕ) :=
  s.discoverers.find? fun x => x.1.contains address

/-- `forward_probe`, `forward_hierarchy_kernel` and `on_event`, of a kernel about a node with an address. An event
about a node that is on no interface is dropped. -/
def forward (s : MainKernel) (event : Bool) (address : UInt32) : MainKernel :=
  match s.findDiscoverer address with
  | none => if event then s else { s with returned := s.returned ++ [address] }
  | some (_, d) => { s with queue := s.queue ++ [.forward d address] }

/-- A discoverer executes a kernel, and sends some kernels that come back to it. -/
def execute (s : MainKernel) (d : ℕ) (own : Bool) (sent : ℕ) : MainKernel :=
  { s with own := s.own ++ List.replicate sent d, executed := s.executed ++ [⟨d, own, d ∈ s.gone⟩] }

/-- A thread of the local pipeline executes a kernel; the rest stays. A discoverer that has been told to stop returns
to the main kernel, which lets go of it. -/
def take (s : MainKernel) (k : LocalKernel) (rest : List LocalKernel) (sent : ℕ) : MainKernel :=
  let s := { s with queue := rest }.execute k.discoverer false sent
  match k with
  | .stop d => { s with gone := s.gone ++ [d] }
  | .act _ | .forward _ _ => s

/-- What may happen where the local pipeline has some number of threads. -/
inductive Step (threads : ℕ) (allowed : List Interface) : MainKernel → MainKernel → Prop
  /-- A network timer: `update_discoverers`. The table may be in another order afterwards. -/
  | update {s : MainKernel} {found removed added : List Interface} {discoverers : List (Interface × ℕ)} :
      0 < s.timers → removed.Perm (s.toRemove found) → added.Perm (s.toAdd allowed found) → found.Nodup →
      discoverers.Perm (s.updateDiscoverers found removed added).discoverers →
      Step threads allowed s { s.updateDiscoverers found removed added with discoverers, timers := s.timers - 1 + 1 }
  /-- A kernel of a discoverer, or an event. -/
  | forward {s : MainKernel} (event : Bool) (address : UInt32) : Step threads allowed s (s.forward event address)
  /-- The local pipeline goes on. The kernels before have been taken by other threads. -/
  | take {s : MainKernel} {k : LocalKernel} {before rest : List LocalKernel} (sent : ℕ) :
      s.queue = before ++ k :: rest → before.length < threads →
      Step threads allowed s (s.take k (before ++ rest) sent)
  /-- A kernel comes back to the discoverer that has sent it. -/
  | own {s : MainKernel} {d : ℕ} (sent : ℕ) : d ∈ s.own →
      Step threads allowed s ({ s with own := s.own.erase d }.execute d true sent)
  /-- `socket_pipeline_server::remove`, after an error. -/
  | loseServer {s : MainKernel} (a : Interface) : Step threads allowed s { s with servers := s.servers.erase a }

/-- The runs after `Main::act`, which sends the first timer. -/
def system (threads : ℕ) (allowed : List Interface) : System MainKernel where
  Initial s := s = {}
  Step := Step threads allowed

/-! ### Where discoverers are -/

/-- The discoverer that is told to stop. -/
def stopped : LocalKernel → Option ℕ
  | .stop d => some d
  | .act _ | .forward _ _ => none

/-- The discoverers in the table, those that are told to stop, and those that are gone. -/
def places (s : MainKernel) : List ℕ := s.discoverers.map Prod.snd ++ (s.queue.filterMap stopped ++ s.gone)

/-- What holds of a main kernel, also in an update. -/
structure Sound (threads : ℕ) (s : MainKernel) : Prop where
  /-- An interface has one discoverer. -/
  nodup : s.interfaces.Nodup
  /-- It has been constructed for this interface. -/
  constructed : ∀ x ∈ s.discoverers, s.constructed[x.2]? = some x.1
  /-- Every discoverer is in one place. -/
  places : s.places.Perm (List.range s.constructed.length)
  /-- Nothing comes for a discoverer after it is told to stop. -/
  ordered : s.queue.Pairwise fun k k' => ∀ d, k = .stop d → k'.discoverer ≠ d
  /-- What one thread is to execute is for discoverers that are there. -/
  alive : threads = 1 → ∀ k ∈ s.queue, k.discoverer ∉ s.gone
  /-- What has been handed over is about the interface of the discoverer. -/
  about : ∀ d address, .forward d address ∈ s.queue → ∃ a, s.constructed[d]? = some a ∧ a.contains address = true
  /-- With one thread a discoverer that is gone executes nothing but what it has sent. -/
  executed : threads = 1 → ∀ x ∈ s.executed, x.gone = true → x.own = true
  /-- There is one server for an interface. -/
  servers : s.servers.Nodup
  /-- It is one that has a discoverer. -/
  listening : ∀ a ∈ s.servers, a ∈ s.interfaces

variable {s s' : MainKernel} {a b : Interface} {d threads : ℕ} {allowed found removed added : List Interface}

theorem sound_initial (threads : ℕ) : ({} : MainKernel).Sound threads where
  nodup := List.nodup_nil
  constructed _ h := absurd h List.not_mem_nil
  places := .refl []
  ordered := List.Pairwise.nil
  alive _ _ h := absurd h List.not_mem_nil
  about _ _ h := absurd h List.not_mem_nil
  executed _ _ h := absurd h List.not_mem_nil
  servers := List.nodup_nil
  listening _ h := absurd h List.not_mem_nil

/-- A discoverer that is in the table is neither told to stop nor gone. -/
theorem Sound.inTable (hs : s.Sound threads) {x : Interface × ℕ} (hx : x ∈ s.discoverers) :
    x.2 ∉ s.queue.filterMap stopped ∧ x.2 ∉ s.gone := by
  have hnodup : s.places.Nodup := hs.places.nodup_iff.2 List.nodup_range
  have hdisjoint := (List.nodup_append'.1 hnodup).2.2 (List.mem_map_of_mem hx)
  rw [List.mem_append] at hdisjoint
  exact not_or.1 hdisjoint

/-- It is not told to stop after that. -/
theorem Sound.ordered_append (hs : s.Sound threads) {k : LocalKernel} (hk : k.discoverer ∉ s.queue.filterMap stopped) :
    (s.queue ++ [k]).Pairwise fun k k' => ∀ d, k = .stop d → k'.discoverer ≠ d := by
  refine List.pairwise_append.2 ⟨hs.ordered, List.pairwise_singleton _ _, fun k₁ hk₁ k₂ hk₂ d hstop heq => hk ?_⟩
  obtain rfl := List.mem_singleton.1 hk₂
  exact List.mem_filterMap.2 ⟨k₁, hk₁, hstop ▸ heq ▸ rfl⟩

/-! ### Adding and removing -/

theorem mem_interfaces : a ∈ s.interfaces ↔ ∃ d, (a, d) ∈ s.discoverers := by
  simp [interfaces]

theorem interfaces_addDiscoverer (s : MainKernel) (a : Interface) :
    (s.addDiscoverer a).interfaces = if a ∈ s.interfaces then s.interfaces else s.interfaces ++ [a] := by
  have hany : s.discoverers.any (·.1 = a) = true ↔ a ∈ s.interfaces := by
    simp [interfaces]
  rw [addDiscoverer]
  simp only [hany]
  split
  · rfl
  · exact List.map_append

/-- The entry of an interface in the table. -/
theorem find_split {d : ℕ} (h : s.discoverers.find? (·.1 = a) = some (b, d)) : b = a ∧ ∃ before after,
    s.discoverers = before ++ (a, d) :: after ∧ s.discoverers.eraseP (·.1 = a) = before ++ after := by
  obtain ⟨hb, before, after, hsplit, herase⟩ := split_of_find? h
  obtain rfl : b = a := by simpa using hb
  exact ⟨rfl, before, after, hsplit, herase⟩

/-- The discoverers that have been constructed are those that have a number. -/
theorem Sound.lt_of_place (hs : s.Sound threads) (hd : d ∈ s.places) : d < s.constructed.length :=
  List.mem_range.1 (hs.places.subset hd)

/-- The next number is that of no discoverer. -/
theorem Sound.next_fresh (hs : s.Sound threads) :
    s.constructed.length ∉ s.queue.filterMap stopped ∧ s.constructed.length ∉ s.gone := by
  constructor
  · intro hd
    exact lt_irrefl _ (hs.lt_of_place (List.mem_append_right _ (List.mem_append_left _ hd)))
  · intro hd
    exact lt_irrefl _ (hs.lt_of_place (List.mem_append_right _ (List.mem_append_right _ hd)))

/-- A new discoverer is in the table. -/
theorem Sound.places_append (hs : s.Sound threads) (a : Interface) :
    ((s.discoverers ++ [(a, s.constructed.length)]).map Prod.snd ++
      ((s.queue ++ [LocalKernel.act s.constructed.length]).filterMap stopped ++ s.gone)).Perm
        (List.range (s.constructed ++ [a]).length) := by
  have hqueue : (s.queue ++ [LocalKernel.act s.constructed.length]).filterMap stopped =
      s.queue.filterMap stopped := by
    rw [List.filterMap_append]
    exact List.append_nil _
  rw [hqueue, List.map_append, List.length_append, List.length_singleton, List.range_succ, List.append_assoc]
  refine (List.Perm.append_left _ List.perm_append_comm).trans ?_
  rw [← List.append_assoc]
  exact hs.places.append_right _

theorem Sound.addDiscoverer (hs : s.Sound threads) (a : Interface) : (s.addDiscoverer a).Sound threads := by
  have hservers : (if a ∈ s.servers then s.servers else s.servers ++ [a]).Nodup := by
    split
    · exact hs.servers
    · next ha => exact List.nodup_append_comm.1 (List.nodup_cons.2 ⟨ha, hs.servers⟩)
  have hlistening : ∀ b ∈ (if a ∈ s.servers then s.servers else s.servers ++ [a]), b ∈ s.interfaces ∨ b = a := by
    intro b hb
    split at hb
    · exact Or.inl (hs.listening b hb)
    · exact (List.mem_append.1 hb).imp (hs.listening b) List.mem_singleton.1
  rw [MainKernel.addDiscoverer]
  simp only
  split
  · next hany =>
    have ha : a ∈ s.interfaces := by simpa [interfaces] using hany
    refine ⟨hs.nodup, hs.constructed, hs.places, hs.ordered, hs.alive, hs.about, hs.executed, hservers,
      fun b hb => ?_⟩
    rcases hlistening b hb with hb | rfl
    · exact hb
    · exact ha
  · next hany =>
    have ha : a ∉ s.interfaces := by simpa [interfaces] using hany
    obtain ⟨hstopped, hgone⟩ := hs.next_fresh
    have hkept {i : ℕ} {c : Interface} (hc : s.constructed[i]? = some c) : (s.constructed ++ [a])[i]? = some c := by
      rw [List.getElem?_append_left (List.getElem?_eq_some_iff.1 hc).1, hc]
    refine ⟨?_, fun x hx => ?_, ?_, hs.ordered_append hstopped, fun hone k hk => ?_, fun d address hk => ?_,
      hs.executed, hservers, fun b hb => ?_⟩
    · show ((s.discoverers ++ [(a, s.constructed.length)]).map Prod.fst).Nodup
      rw [List.map_append]
      exact List.nodup_append_comm.1 (List.nodup_cons.2 ⟨ha, hs.nodup⟩)
    · rcases List.mem_append.1 hx with hx | hx
      · exact hkept (hs.constructed x hx)
      · obtain rfl := List.mem_singleton.1 hx
        exact List.getElem?_concat_length
    · exact hs.places_append a
    · rcases List.mem_append.1 hk with hk | hk
      · exact hs.alive hone k hk
      · obtain rfl := List.mem_singleton.1 hk
        exact hgone
    · rcases List.mem_append.1 hk with hk | hk
      · obtain ⟨c, hc, hcontains⟩ := hs.about d address hk
        exact ⟨c, hkept hc, hcontains⟩
      · exact absurd (List.mem_singleton.1 hk) LocalKernel.noConfusion
    · show b ∈ (s.discoverers ++ [(a, s.constructed.length)]).map Prod.fst
      rw [List.map_append, List.mem_append]
      exact (hlistening b hb).imp id List.mem_singleton.2

theorem Sound.removeDiscoverer (hs : s.Sound threads) (a : Interface) : (s.removeDiscoverer a).Sound threads := by
  rw [MainKernel.removeDiscoverer]
  simp only
  split
  · exact ⟨hs.nodup, hs.constructed, hs.places, hs.ordered, hs.alive, hs.about, hs.executed, hs.servers.erase a,
      fun b hb => hs.listening b (List.mem_of_mem_erase hb)⟩
  · next b d hfind =>
    obtain ⟨rfl, before, after, hsplit, herase⟩ := find_split hfind
    have hx : (b, d) ∈ s.discoverers := hsplit ▸ List.mem_append_right before List.mem_cons_self
    obtain ⟨hstopped, hgone⟩ := hs.inTable hx
    have hsub : (s.discoverers.eraseP (·.1 = b)).Sublist s.discoverers := List.eraseP_sublist
    refine ⟨hs.nodup.sublist (hsub.map _), fun x hx => hs.constructed x (hsub.subset hx), ?_,
      hs.ordered_append hstopped, fun hone k hk => ?_, fun d' address hk => ?_, hs.executed, hs.servers.erase b,
      fun c hc => ?_⟩
    · -- the discoverer is told to stop
      have hqueue : (s.queue ++ [LocalKernel.stop d]).filterMap stopped = s.queue.filterMap stopped ++ [d] := by
        rw [List.filterMap_append]
        rfl
      show ((s.discoverers.eraseP (·.1 = b)).map Prod.snd ++
        ((s.queue ++ [LocalKernel.stop d]).filterMap stopped ++ s.gone)).Perm (List.range s.constructed.length)
      refine (List.perm_iff_count.2 fun x => ?_).trans hs.places
      rw [hqueue, herase, MainKernel.places, hsplit]
      simp only [List.map_append, List.map_cons, List.count_append, List.count_cons, List.count_nil]
      omega
    · rcases List.mem_append.1 hk with hk | hk
      · exact hs.alive hone k hk
      · obtain rfl := List.mem_singleton.1 hk
        exact hgone
    · rcases List.mem_append.1 hk with hk | hk
      · exact hs.about d' address hk
      · exact absurd (List.mem_singleton.1 hk) LocalKernel.noConfusion
    · -- the server of the interface has been removed
      obtain ⟨hne, hc⟩ := (List.Nodup.mem_erase_iff hs.servers).1 hc
      have hin : c ∈ (before ++ (b, d) :: after).map Prod.fst := hsplit ▸ hs.listening c hc
      show c ∈ (s.discoverers.eraseP (·.1 = b)).map Prod.fst
      rw [herase]
      rw [List.map_append, List.map_cons, List.mem_append, List.mem_cons] at hin
      rw [List.map_append, List.mem_append]
      exact hin.imp id fun hin => hin.resolve_left hne

theorem mem_interfaces_addDiscoverer : b ∈ (s.addDiscoverer a).interfaces ↔ b ∈ s.interfaces ∨ b = a := by
  rw [interfaces_addDiscoverer]
  split
  · next ha => exact ⟨Or.inl, fun hb => hb.elim id fun heq => heq ▸ ha⟩
  · rw [List.mem_append, List.mem_singleton]

theorem Sound.mem_interfaces_removeDiscoverer (hs : s.Sound threads) :
    b ∈ (s.removeDiscoverer a).interfaces ↔ b ∈ s.interfaces ∧ b ≠ a := by
  rw [MainKernel.removeDiscoverer]
  simp only
  split
  · next hfind =>
    have ha : a ∉ s.interfaces := by
      intro ha
      obtain ⟨d, hd⟩ := mem_interfaces.1 ha
      exact absurd (List.find?_eq_none.1 hfind (a, d) hd) (by simp)
    exact ⟨fun hb => ⟨hb, fun heq => ha (heq ▸ hb)⟩, And.left⟩
  · next c d hfind =>
    obtain ⟨rfl, before, after, hsplit, herase⟩ := find_split hfind
    have hnodup : ((before ++ (c, d) :: after).map Prod.fst).Nodup := hsplit ▸ hs.nodup
    rw [List.map_append, List.map_cons, List.nodup_middle, List.nodup_cons, List.mem_append, not_or] at hnodup
    show b ∈ (s.discoverers.eraseP (·.1 = c)).map Prod.fst ↔ b ∈ s.discoverers.map Prod.fst ∧ b ≠ c
    rw [herase, hsplit, List.map_append, List.map_append, List.map_cons, List.mem_append, List.mem_append,
      List.mem_cons]
    constructor
    · rintro (hb | hb)
      · exact ⟨Or.inl hb, fun heq => hnodup.1.1 (heq ▸ hb)⟩
      · exact ⟨Or.inr (Or.inr hb), fun heq => hnodup.1.2 (heq ▸ hb)⟩
    · rintro ⟨hb | rfl | hb, hne⟩
      · exact Or.inl hb
      · exact absurd rfl hne
      · exact Or.inr hb

theorem Sound.foldl_addDiscoverer (hs : s.Sound threads) (added : List Interface) :
    (added.foldl MainKernel.addDiscoverer s).Sound threads ∧
      ∀ b, b ∈ (added.foldl MainKernel.addDiscoverer s).interfaces ↔ b ∈ s.interfaces ∨ b ∈ added := by
  induction added generalizing s with
  | nil => exact ⟨hs, fun b => by simp⟩
  | cons a added ih =>
    obtain ⟨hsound, hmem⟩ := ih (hs.addDiscoverer a)
    refine ⟨hsound, fun b => ?_⟩
    rw [List.foldl_cons, hmem b, mem_interfaces_addDiscoverer, List.mem_cons, or_assoc]

theorem Sound.foldl_removeDiscoverer (hs : s.Sound threads) (removed : List Interface) :
    (removed.foldl MainKernel.removeDiscoverer s).Sound threads ∧
      ∀ b, b ∈ (removed.foldl MainKernel.removeDiscoverer s).interfaces ↔ b ∈ s.interfaces ∧ b ∉ removed := by
  induction removed generalizing s with
  | nil => exact ⟨hs, fun b => by simp⟩
  | cons a removed ih =>
    obtain ⟨hsound, hmem⟩ := ih (hs.removeDiscoverer a)
    refine ⟨hsound, fun b => ?_⟩
    rw [List.foldl_cons, hmem b, hs.mem_interfaces_removeDiscoverer, List.mem_cons, not_or, and_assoc]

/-- The order of the table does not matter. -/
theorem Sound.reorder (hs : s.Sound threads) {discoverers : List (Interface × ℕ)}
    (hperm : discoverers.Perm s.discoverers) (found : List Interface) (timers : ℕ) :
    { s with discoverers, found, timers : MainKernel }.Sound threads where
  nodup := (hperm.map _).nodup_iff.2 hs.nodup
  constructed x hx := hs.constructed x (hperm.subset hx)
  places := ((hperm.map _).append_right _).trans hs.places
  ordered := hs.ordered
  alive := hs.alive
  about := hs.about
  executed := hs.executed
  servers := hs.servers
  listening a ha := (hperm.map _).symm.subset (hs.listening a ha)

/-! ### Kernels -/

theorem Sound.forward (hs : s.Sound threads) (event : Bool) (address : UInt32) :
    (s.forward event address).Sound threads := by
  rw [MainKernel.forward]
  split
  · split
    · exact hs
    · exact ⟨hs.nodup, hs.constructed, hs.places, hs.ordered, hs.alive, hs.about, hs.executed, hs.servers,
        hs.listening⟩
  · next a d hfind =>
    have hx : (a, d) ∈ s.discoverers := List.mem_of_find?_eq_some hfind
    have hcontains : a.contains address = true := by simpa using List.find?_some hfind
    obtain ⟨hstopped, hgone⟩ := hs.inTable hx
    refine ⟨hs.nodup, hs.constructed, ?_, hs.ordered_append hstopped, fun hone k hk => ?_, fun d' address' hk => ?_,
      hs.executed, hs.servers, hs.listening⟩
    · have hqueue : (s.queue ++ [LocalKernel.forward d address]).filterMap stopped = s.queue.filterMap stopped := by
        rw [List.filterMap_append]
        exact List.append_nil _
      show (_ ++ ((s.queue ++ [LocalKernel.forward d address]).filterMap stopped ++ _)).Perm _
      rw [hqueue]
      exact hs.places
    · rcases List.mem_append.1 hk with hk | hk
      · exact hs.alive hone k hk
      · obtain rfl := List.mem_singleton.1 hk
        exact hgone
    · rcases List.mem_append.1 hk with hk | hk
      · exact hs.about d' address' hk
      · obtain ⟨rfl, rfl⟩ := LocalKernel.forward.inj (List.mem_singleton.1 hk)
        exact ⟨a, hs.constructed _ hx, hcontains⟩

/-- **A thread that executes a kernel.** If it is the only one, what the main kernel has handed over is executed before
the discoverer is gone. -/
theorem Sound.take (hs : s.Sound threads) {k : LocalKernel} {before rest : List LocalKernel}
    (hqueue : s.queue = before ++ k :: rest) (hlength : before.length < threads) (sent : ℕ) :
    (s.take k (before ++ rest) sent).Sound threads := by
  have hsub : (before ++ rest).Sublist s.queue := hqueue ▸ (List.sublist_cons_self k rest).append_left before
  have hordered := hs.ordered.sublist hsub
  have hrest {k' : LocalKernel} (hk' : k' ∈ before ++ rest) : k' ∈ s.queue := hsub.subset hk'
  have hk : k ∈ s.queue := hqueue ▸ List.mem_append_right before List.mem_cons_self
  have hexecuted : threads = 1 → ∀ x ∈ s.executed ++ [⟨k.discoverer, false, k.discoverer ∈ s.gone⟩],
      x.gone = true → x.own = true := by
    intro hone x hx hgone
    rcases List.mem_append.1 hx with hx | hx
    · exact hs.executed hone x hx hgone
    · rw [List.mem_singleton.1 hx] at hgone
      exact absurd (of_decide_eq_true hgone) (hs.alive hone k hk)
  have hplaces := hs.places
  rw [MainKernel.places, hqueue, List.filterMap_append] at hplaces
  cases k with
  | act d =>
    rw [List.filterMap_cons_none rfl, ← List.filterMap_append] at hplaces
    exact ⟨hs.nodup, hs.constructed, hplaces, hordered, fun hone k' hk' => hs.alive hone k' (hrest hk'),
      fun d' address hk' => hs.about d' address (hrest hk'), hexecuted, hs.servers, hs.listening⟩
  | forward d address =>
    rw [List.filterMap_cons_none rfl, ← List.filterMap_append] at hplaces
    exact ⟨hs.nodup, hs.constructed, hplaces, hordered, fun hone k' hk' => hs.alive hone k' (hrest hk'),
      fun d' address hk' => hs.about d' address (hrest hk'), hexecuted, hs.servers, hs.listening⟩
  | stop d =>
    refine ⟨hs.nodup, hs.constructed, ?_, hordered, fun hone k' hk' hgone => ?_,
      fun d' address hk' => hs.about d' address (hrest hk'), hexecuted, hs.servers, hs.listening⟩
    · refine (List.perm_iff_count.2 fun x => ?_).trans hplaces
      show List.count x (s.discoverers.map Prod.snd ++ ((before ++ rest).filterMap stopped ++ (s.gone ++ [d]))) = _
      rw [List.filterMap_append, List.filterMap_cons_some (show stopped (.stop d) = some d from rfl)]
      simp only [List.count_append, List.count_cons, List.count_nil]
      omega
    · -- the only thread has executed all kernels before
      have hfirst : before = [] := List.length_eq_zero_iff.1 (Nat.lt_one_iff.1 (hone ▸ hlength))
      subst hfirst
      rcases List.mem_append.1 hgone with hgone | hgone
      · exact hs.alive hone k' (hrest hk') hgone
      · have hpairs := hs.ordered
        rw [hqueue] at hpairs
        exact (List.pairwise_cons.1 hpairs).1 k' hk' d rfl (List.mem_singleton.1 hgone)

theorem Sound.own (hs : s.Sound threads) (d sent : ℕ) :
    ({ s with own := s.own.erase d }.execute d true sent).Sound threads := by
  refine ⟨hs.nodup, hs.constructed, hs.places, hs.ordered, hs.alive, hs.about, fun hone x hx hgone => ?_, hs.servers,
    hs.listening⟩
  rcases List.mem_append.1 hx with hx | hx
  · exact hs.executed hone x hx hgone
  · rw [List.mem_singleton.1 hx]

theorem Sound.loseServer (hs : s.Sound threads) (a : Interface) :
    { s with servers := s.servers.erase a }.Sound threads :=
  ⟨hs.nodup, hs.constructed, hs.places, hs.ordered, hs.alive, hs.about, hs.executed, hs.servers.erase a,
    fun b hb => hs.listening b (List.mem_of_mem_erase hb)⟩

/-- Forwarding is about kernels only. -/
theorem forward_eq (s : MainKernel) (event : Bool) (address : UInt32) :
    ∃ queue returned, s.forward event address = { s with queue, returned } := by
  rw [MainKernel.forward]
  split
  · cases event
    · exact ⟨s.queue, s.returned ++ [address], rfl⟩
    · exact ⟨s.queue, s.returned, rfl⟩
  · next a d _ => exact ⟨s.queue ++ [.forward d address], s.returned, rfl⟩

/-- So is the local pipeline. -/
theorem take_eq (s : MainKernel) (k : LocalKernel) (rest : List LocalKernel) (sent : ℕ) :
    ∃ queue own gone executed, s.take k rest sent = { s with queue, own, gone, executed } := by
  cases k with
  | act d => exact ⟨_, _, _, _, rfl⟩
  | stop d => exact ⟨_, _, _, _, rfl⟩
  | forward d address => exact ⟨_, _, _, _, rfl⟩

/-! ### Runs -/

/-- What holds of a main kernel after every step. -/
structure Valid (threads : ℕ) (allowed : List Interface) (s : MainKernel) : Prop extends Sound threads s where
  /-- The discoverers are those of the interfaces that have been found and are allowed. -/
  matching : ∀ a, a ∈ s.interfaces ↔ a ∈ s.found ∧ isAllowed allowed a = true
  /-- A timer is on its way. -/
  timer : s.timers = 1

theorem valid_initial (threads : ℕ) (allowed : List Interface) : Valid threads allowed {} :=
  ⟨sound_initial threads, fun _ => ⟨fun ha => absurd ha List.not_mem_nil, fun ha => absurd ha.1 List.not_mem_nil⟩, rfl⟩

/-- **An update keeps the discoverers of the interfaces that are still there, and adds those of new ones.** -/
theorem Valid.updateDiscoverers (hs : Valid threads allowed s) (hremoved : removed.Perm (s.toRemove found))
    (hadded : added.Perm (s.toAdd allowed found)) :
    (s.updateDiscoverers found removed added).Sound threads ∧
      ∀ a, a ∈ (s.updateDiscoverers found removed added).interfaces ↔ a ∈ found ∧ isAllowed allowed a = true := by
  obtain ⟨hsound, hmem⟩ := hs.toSound.foldl_removeDiscoverer removed
  obtain ⟨hsound', hmem'⟩ := hsound.foldl_addDiscoverer added
  refine ⟨hsound'.reorder (.refl _) found _, fun a => (hmem' a).trans ?_⟩
  rw [hmem a, hremoved.mem_iff, hadded.mem_iff, toRemove, toAdd, List.mem_filter, List.mem_filter, List.mem_filter,
    decide_eq_true_iff, decide_eq_true_iff]
  have hmatching := hs.matching a
  tauto

theorem Valid.step (hs : Valid threads allowed s) (h : Step threads allowed s s') : Valid threads allowed s' := by
  cases h with
  | @update found removed added discoverers htimer hremoved hadded hfound hperm =>
    obtain ⟨hsound, hmem⟩ := hs.updateDiscoverers hremoved hadded
    refine ⟨hsound.reorder hperm found _, fun a => ?_, ?_⟩
    · exact (hperm.map Prod.fst).mem_iff.trans (hmem a)
    · show s.timers - 1 + 1 = 1
      rw [hs.timer]
  | forward event address =>
    have hsound := hs.toSound.forward event address
    obtain ⟨queue, returned, heq⟩ := forward_eq s event address
    rw [heq] at hsound ⊢
    exact ⟨hsound, hs.matching, hs.timer⟩
  | @take k before rest sent hqueue hlength =>
    have hsound := hs.toSound.take hqueue hlength sent
    obtain ⟨queue, own, gone, executed, heq⟩ := take_eq s k (before ++ rest) sent
    rw [heq] at hsound ⊢
    exact ⟨hsound, hs.matching, hs.timer⟩
  | own sent _ => exact ⟨hs.toSound.own _ sent, hs.matching, hs.timer⟩
  | loseServer a => exact ⟨hs.toSound.loseServer a, hs.matching, hs.timer⟩

theorem valid_of_reachable (h : (system threads allowed).Reachable s) : Valid threads allowed s :=
  h.invariant (fun _ hs => hs ▸ valid_initial threads allowed) fun _ _ hs hstep => hs.step hstep

/-- **The discoverers are those of the allowed interfaces that have been found last**, one for each. Those that have
been constructed are in the table, told to stop or gone, each in one of these places and once. No interface has two
servers, none has a server and no discoverer, and there is one timer for the next update. -/
theorem interfaces_match (h : (system threads allowed).Reachable s) :
    (∀ a, a ∈ s.interfaces ↔ a ∈ s.found ∧ isAllowed allowed a = true) ∧ s.interfaces.Nodup ∧
      (∀ x ∈ s.discoverers, s.constructed[x.2]? = some x.1) ∧
        (s.discoverers.map Prod.snd ++ (s.queue.filterMap stopped ++ s.gone)).Perm
          (List.range s.constructed.length) ∧
        s.servers.Nodup ∧ s.servers ⊆ s.interfaces ∧ s.timers = 1 := by
  have hs := valid_of_reachable h
  exact ⟨hs.matching, hs.nodup, hs.constructed, hs.places, hs.servers, hs.listening, hs.timer⟩

theorem Step.takeFirst {k : LocalKernel} {rest : List LocalKernel} (sent : ℕ) (hqueue : s.queue = k :: rest)
    (hthreads : 0 < threads) : Step threads allowed s (s.take k rest sent) :=
  @Step.take threads allowed s k [] rest sent hqueue hthreads

/-- An interface of a node. -/
def oneInterface : Interface := ⟨0x0a000001, 8⟩

/-- Another one. -/
def otherInterface : Interface := ⟨0xc0a80001, 24⟩

/-- The first one has been found, and its discoverer has sent a timer. -/
def oneFound : MainKernel :=
  (({} : MainKernel).updateDiscoverers [oneInterface] [] [oneInterface]).take (.act 0) [] 1

/-- A kernel about a neighbour has come. -/
def oneForwarded : MainKernel := oneFound.forward false 0x0a000002

/-- Then the other interface has been found in its place. -/
def otherFound : MainKernel := oneForwarded.updateDiscoverers [otherInterface] [oneInterface] [otherInterface]

theorem reachable_oneForwarded (h : 0 < threads) : (system threads []).Reachable oneForwarded := by
  have hfound : (system threads []).Reachable (({} : MainKernel).updateDiscoverers [oneInterface] [] [oneInterface]) :=
    .step (.initial rfl) (.update Nat.one_pos (.refl _) (.refl _) (List.nodup_singleton oneInterface) (.refl _))
  exact (hfound.step (.takeFirst 1 rfl h)).step (.forward false 0x0a000002)

theorem reachable_otherFound (h : 0 < threads) : (system threads []).Reachable otherFound :=
  (reachable_oneForwarded h).step
    (.update Nat.one_pos (.refl _) (.refl _) (List.nodup_singleton otherInterface) (.refl _))

/-- The other interface has a discoverer and a server. The first discoverer is told to stop. -/
theorem interfaces_match_otherFound :
    otherInterface ∈ otherFound.interfaces ∧ oneInterface ∉ otherFound.interfaces ∧
      (otherFound.discoverers.map Prod.snd ++ (otherFound.queue.filterMap stopped ++ otherFound.gone)).Perm [0, 1] ∧
        otherFound.servers = [otherInterface] ∧ otherFound.timers = 1 := by
  obtain ⟨hmatching, -, -, hplaces, -, -, htimers⟩ := interfaces_match (reachable_otherFound (show 0 < 4 by decide))
  exact ⟨(hmatching _).2 (by decide), fun hmem => absurd ((hmatching _).1 hmem).1 (by decide), hplaces, rfl, htimers⟩

/-- A discoverer is found for the addresses on the interfaces. -/
theorem findDiscoverer_isSome {address : UInt32} :
    (s.findDiscoverer address).isSome = true ↔ ∃ a ∈ s.interfaces, a.contains address = true := by
  rw [findDiscoverer, List.find?_isSome]
  constructor
  · rintro ⟨x, hx, hcontains⟩
    exact ⟨x.1, List.mem_map_of_mem hx, hcontains⟩
  · rintro ⟨a, ha, hcontains⟩
    obtain ⟨x, hx, rfl⟩ := List.mem_map.1 ha
    exact ⟨x, hx, hcontains⟩

/-- The first discoverer has executed the kernel and has stopped, and then its timer has come. -/
def lateTimer : MainKernel :=
  let s := (otherFound.take (.forward 0 0x0a000002) [.stop 0, .act 1] 0).take (.stop 0) [.act 1] 0
  { s with own := s.own.erase 0 }.execute 0 true 0

/-- One of two threads takes the kernel, and the other one the message to stop, which it executes first. -/
example : ∃ s, (system 2 []).Reachable s ∧ ⟨0, false, true⟩ ∈ s.executed :=
  ⟨_, ((reachable_otherFound Nat.two_pos).step
    (@Step.take 2 [] otherFound (.stop 0) [.forward 0 0x0a000002] [.act 1] 0 rfl Nat.one_lt_two)).step
      (.takeFirst 0 rfl Nat.two_pos), by decide⟩

/-! ### Servers -/

/-- An interface that is neither removed nor added keeps what it has. -/
theorem servers_foldl_removeDiscoverer (s : MainKernel) (removed : List Interface) (ha : a ∉ s.servers) :
    a ∉ (removed.foldl MainKernel.removeDiscoverer s).servers := by
  induction removed generalizing s with
  | nil => exact ha
  | cons b removed ih =>
    refine ih (s.removeDiscoverer b) fun hmem => ha ?_
    rw [MainKernel.removeDiscoverer] at hmem
    simp only at hmem
    split at hmem
    · exact List.mem_of_mem_erase hmem
    · exact List.mem_of_mem_erase hmem

theorem servers_foldl_addDiscoverer (s : MainKernel) (added : List Interface) (ha : a ∉ s.servers)
    (hadded : a ∉ added) : a ∉ (added.foldl MainKernel.addDiscoverer s).servers := by
  induction added generalizing s with
  | nil => exact ha
  | cons b added ih =>
    rw [List.mem_cons, not_or] at hadded
    refine ih (s.addDiscoverer b) (fun hmem => ?_) hadded.2
    have hmem' : a ∈ (if b ∈ s.servers then s.servers else s.servers ++ [b]) := by
      rw [MainKernel.addDiscoverer] at hmem
      simp only at hmem
      split at hmem
      · exact hmem
      · exact hmem
    split at hmem'
    · exact ha hmem'
    · exact (List.mem_append.1 hmem').elim ha fun hb => hadded.1 (List.mem_singleton.1 hb)

/-- **A server that is lost is not restored while its interface stays**, whatever the daemon does and however often it
looks for interfaces: its discoverer stays as well, so that the interface is never added. -/
theorem server_stays_lost (h : (system threads allowed).Reachable s) (ha : a ∈ s.interfaces) (hlost : a ∉ s.servers)
    (hsteps : Relation.ReflTransGen (fun s s' => Step threads allowed s s' ∧ a ∈ s'.found) s s') :
    a ∈ s'.interfaces ∧ a ∉ s'.servers := by
  have hallowed : isAllowed allowed a = true := (((valid_of_reachable h).matching a).1 ha).2
  have hrun : Valid threads allowed s' ∧ a ∈ s'.interfaces ∧ a ∉ s'.servers := by
    induction hsteps with
    | refl => exact ⟨valid_of_reachable h, ha, hlost⟩
    | @tail t t' _ hstep ih =>
      obtain ⟨ht, ha, hlost⟩ := ih
      have ht' := ht.step hstep.1
      refine ⟨ht', (ht'.matching a).2 ⟨hstep.2, hallowed⟩, ?_⟩
      cases hstep.1 with
      | update _ _ hadded _ _ =>
        refine servers_foldl_addDiscoverer _ _ (servers_foldl_removeDiscoverer t _ hlost) fun hmem => ?_
        -- an interface is added only if it has no discoverer
        have hmem := (List.mem_filter.1 (hadded.subset hmem)).1
        exact of_decide_eq_true (List.mem_filter.1 hmem).2 ha
      | forward event address =>
        obtain ⟨queue, returned, heq⟩ := forward_eq t event address
        rw [heq]
        exact hlost
      | @take k before rest sent _ _ =>
        obtain ⟨queue, own, gone, executed, heq⟩ := take_eq t k (before ++ rest) sent
        rw [heq]
        exact hlost
      | own sent _ => exact hlost
      | loseServer b => exact fun hmem => hlost (List.mem_of_mem_erase hmem)
  exact hrun.2

/-- The server of the interface is lost. -/
def oneLost : MainKernel := { oneForwarded with servers := oneForwarded.servers.erase oneInterface }

/-- The next timer comes. -/
def oneUpdated : MainKernel :=
  { oneLost.updateDiscoverers [oneInterface] [] [] with timers := oneLost.timers - 1 + 1 }

theorem server_stays_lost_oneUpdated : oneInterface ∈ oneUpdated.interfaces ∧ oneInterface ∉ oneUpdated.servers :=
  server_stays_lost ((reachable_oneForwarded (show 0 < 4 by decide)).step (.loseServer oneInterface)) (by decide)
    (by decide)
    (.single ⟨.update Nat.one_pos (.refl _) (.refl _) (List.nodup_singleton oneInterface) (.refl _), by decide⟩)

end MainKernel

end Subordination.Daemon
