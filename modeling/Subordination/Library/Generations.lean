import Mathlib.Data.List.Nodup
import Mathlib.Data.List.Pairwise

/-!
# Generations

A search that starts from some elements and goes from generation to generation: the next
generation of an element is a list. The search ends after a number of rounds, or with a
generation that is empty.

## What is proved

* **`mem_within`**: the search finds what is reached in as many steps as there are rounds.
* **`nodup_within`**: it finds nothing twice if the generations are disjoint. They are in a
  forest, from the root down (`disjoint_generation_of_injective`) and from a leaf up
  (`disjoint_generation_of_functional`).
* **`nodup_map_within_iff`**: where elements link to keys, it finds no key twice exactly if it
  never comes back to the first key and the elements that it finds have different keys.
-/

namespace Subordination.Library

variable {α : Type*} {next next' : α → List α} {p : α → Prop} {a b c x : α} {front : List α} {m n : ℕ}

/-! ### Steps -/

/-- `b` is reached from `a` in `n` steps. -/
def Reaches (next : α → List α) : ℕ → α → α → Prop
  | 0, a, b => a = b
  | n + 1, a, c => ∃ b ∈ next a, Reaches next n b c

theorem Reaches.add (hab : Reaches next m a b) (hbc : Reaches next n b c) : Reaches next (m + n) a c := by
  induction m generalizing a with
  | zero =>
    obtain rfl : a = b := hab
    rwa [Nat.zero_add]
  | succ m ih =>
    obtain ⟨a', ha', hab⟩ := hab
    rw [Nat.succ_add]
    exact ⟨a', ha', ih hab⟩

theorem Reaches.split (h : Reaches next (m + n) a c) : ∃ b, Reaches next m a b ∧ Reaches next n b c := by
  induction m generalizing a with
  | zero =>
    rw [Nat.zero_add] at h
    exact ⟨a, rfl, h⟩
  | succ m ih =>
    rw [Nat.succ_add] at h
    obtain ⟨a', ha', h⟩ := h
    obtain ⟨b, hab, hbc⟩ := ih h
    exact ⟨b, ⟨a', ha', hab⟩, hbc⟩

theorem Reaches.single (h : b ∈ next a) : Reaches next 1 a b := ⟨b, h, rfl⟩

/-- The last of the steps. -/
theorem Reaches.last (h : Reaches next (n + 1) a c) : ∃ b, Reaches next n a b ∧ c ∈ next b := by
  obtain ⟨b, hab, c', hc', heq⟩ := h.split
  obtain rfl : c' = c := heq
  exact ⟨b, hab, hc'⟩

/-- What steps keep holds at their end. -/
theorem Reaches.keep (hkeep : ∀ a b, p a → b ∈ next a → p b) (h : Reaches next n a b) (ha : p a) : p b := by
  induction n generalizing a with
  | zero =>
    obtain rfl : a = b := h
    exact ha
  | succ n ih =>
    obtain ⟨a', ha', h⟩ := h
    exact ih h (hkeep a a' ha ha')

/-- Steps the other way round. -/
theorem Reaches.reverse (hkeep : ∀ a b, p a → b ∈ next a → p b) (hnext : ∀ a b, p a → b ∈ next a → a ∈ next' b)
    (h : Reaches next n a b) (ha : p a) : Reaches next' n b a := by
  induction n generalizing a with
  | zero => exact Eq.symm h
  | succ n ih =>
    obtain ⟨a', ha', h⟩ := h
    exact (ih h (hkeep a a' ha ha')).add (.single (hnext a a' ha ha'))

/-- Steps that can be taken elsewhere. -/
theorem Reaches.transfer (hnext : ∀ j b c, Reaches next j a b → c ∈ next b → c ∈ next' b)
    (h : Reaches next n a x) : Reaches next' n a x := by
  induction n generalizing x with
  | zero => exact h
  | succ n ih =>
    obtain ⟨b, hab, hx⟩ := h.last
    exact (ih hab).add (.single (hnext n b x hab hx))

theorem Reaches.left_unique (hkeep : ∀ a b, p a → b ∈ next a → p b)
    (hinjective : ∀ a b x, p a → p b → x ∈ next a → x ∈ next b → a = b) (hpa : p a) (hpb : p b)
    (ha : Reaches next n a x) (hb : Reaches next n b x) : a = b := by
  induction n generalizing a b with
  | zero => exact Eq.trans ha (Eq.symm hb)
  | succ n ih =>
    obtain ⟨a', ha', ha⟩ := ha
    obtain ⟨b', hb', hb⟩ := hb
    obtain rfl := ih (hkeep a a' hpa ha') (hkeep b b' hpb hb') ha hb
    exact hinjective a b a' hpa hpb ha' hb'

/-- Where every element is next to one at most, the way back is the only one. -/
theorem Reaches.cancel_right (hkeep : ∀ a b, p a → b ∈ next a → p b)
    (hinjective : ∀ a b x, p a → p b → x ∈ next a → x ∈ next b → a = b) (hpa : p a) (hpb : p b)
    (hbx : Reaches next n b x) (hax : Reaches next (m + n) a x) : Reaches next m a b := by
  obtain ⟨c, hac, hcx⟩ := hax.split
  rwa [← hcx.left_unique hkeep hinjective (hac.keep hkeep hpa) hpb hbx]

/-- Where one element at most is next, the way on is the only one. -/
theorem Reaches.cancel_left (hfunctional : ∀ a x y, x ∈ next a → y ∈ next a → x = y)
    (hab : Reaches next m a b) (hac : Reaches next (m + n) a c) : Reaches next n b c := by
  induction m generalizing a with
  | zero =>
    obtain rfl : a = b := hab
    rwa [Nat.zero_add] at hac
  | succ m ih =>
    rw [Nat.succ_add] at hac
    obtain ⟨b', hb', hab⟩ := hab
    obtain ⟨c', hc', hac⟩ := hac
    obtain rfl := hfunctional a b' c' hb' hc'
    exact ih hab hac

/-- No element is reached from itself. -/
def Acyclic (next : α → List α) : Prop := ∀ n a, ¬ Reaches next (n + 1) a a

/-- A way back to the start can be taken again and again. -/
theorem Reaches.mul (h : Reaches next n a a) (m : ℕ) : Reaches next (n * m) a a := by
  induction m with
  | zero => exact rfl
  | succ m ih => exact ih.add h

/-- **Where every way comes to an end**, and one element at most is next, nothing is reached from
itself. -/
theorem acyclic_of_ends (hfunctional : ∀ a x y, x ∈ next a → y ∈ next a → x = y)
    (hends : ∀ a b, b ∈ next a → ∃ n x, Reaches next n b x ∧ next x = []) : Acyclic next := by
  intro k a hcycle
  obtain ⟨b, -, ha⟩ := hcycle.last
  obtain ⟨n, x, hx, hlast⟩ := hends b a ha
  have hround := hcycle.mul (n + 1)
  have hlong : (k + 1) * (n + 1) = n + (k * (n + 1) + 1) := by
    rw [Nat.succ_mul]
    omega
  rw [hlong] at hround
  obtain ⟨c, hc, -⟩ := (show Reaches next (k * (n + 1) + 1) x a from hx.cancel_left hfunctional hround)
  rw [hlast] at hc
  exact List.not_mem_nil hc

/-- **Where every step goes down in rank**, nothing is reached from itself. -/
theorem acyclic_of_rank (rank : α → ℕ) (hkeep : ∀ a b, b ∈ next a → p b)
    (hrank : ∀ a b, p a → b ∈ next a → rank b < rank a) : Acyclic next := by
  intro n a hcycle
  obtain ⟨b, -, ha⟩ := hcycle.last
  have hdown : ∀ n c, p a → Reaches next (n + 1) a c → rank c < rank a := by
    intro n
    induction n with
    | zero =>
      rintro c hpa ⟨d, hd, rfl⟩
      exact hrank a d hpa hd
    | succ n ih =>
      intro c hpa hc
      obtain ⟨d, hd, hc⟩ := hc.last
      obtain ⟨e, -, hed⟩ := hd.last
      exact Nat.lt_trans (hrank d c (hkeep e d hed) hc) (ih d hpa hd)
  exact Nat.lt_irrefl _ (hdown n a (hkeep b a ha) hcycle)

/-- What is reached from an element next to another one is reached from no other such element. -/
theorem Reaches.siblings (hacyclic : Acyclic next) (hkeep : ∀ a b, p a → b ∈ next a → p b)
    (hinjective : ∀ a b x, p a → p b → x ∈ next a → x ∈ next b → a = b) (hc : p c) (ha : a ∈ next c)
    (hb : b ∈ next c) (hax : Reaches next m a x) (hbx : Reaches next n b x) : a = b := by
  -- One of them would be reached from the other, and then from itself.
  have hlevel {a b : α} {m k : ℕ} (ha : a ∈ next c) (hb : b ∈ next c) (hax : Reaches next m a x)
      (hbx : Reaches next (k + m) b x) : a = b := by
    have hpa := hkeep c a hc ha
    have hpb := hkeep c b hc hb
    have hba := hax.cancel_right hkeep hinjective hpb hpa hbx
    cases k with
    | zero => exact Eq.symm hba
    | succ k =>
      obtain ⟨d, hbd, hda⟩ := hba.last
      obtain rfl := hinjective d c a (hbd.keep hkeep hpb) hc hda ha
      exact absurd ((Reaches.single hb).add hbd) (by rw [Nat.add_comm]; exact hacyclic k d)
  rcases Nat.le_total m n with hle | hle
  · obtain ⟨k, rfl⟩ := Nat.exists_eq_add_of_le' hle
    exact hlevel ha hb hax hbx
  · obtain ⟨k, rfl⟩ := Nat.exists_eq_add_of_le' hle
    exact (hlevel hb ha hbx hax).symm

/-! ### Generations -/

/-- The generation after `n` rounds. -/
def generation (next : α → List α) : ℕ → List α → List α
  | 0, front => front
  | n + 1, front => generation next n (front.flatMap next)

/-- All generations of `n` rounds, or up to the first one that is empty. -/
def within (next : α → List α) : ℕ → List α → List α
  | 0, front => front
  | n + 1, front =>
    if (front.flatMap next).isEmpty then front else front ++ within next n (front.flatMap next)

/-- The search starts with its front. -/
theorem within_eq_append (next : α → List α) (n : ℕ) (front : List α) :
    ∃ rest, within next n front = front ++ rest := by
  cases n with
  | zero => exact ⟨[], (List.append_nil front).symm⟩
  | succ n =>
    rw [within]
    split
    · exact ⟨[], (List.append_nil front).symm⟩
    · exact ⟨_, rfl⟩

theorem within_singleton (next : α → List α) (n : ℕ) (a : α) : within next n [a] = a :: (within next n [a]).tail := by
  obtain ⟨rest, hrest⟩ := within_eq_append next n [a]
  rw [hrest]
  rfl

theorem mem_generation : x ∈ generation next n front ↔ ∃ a ∈ front, Reaches next n a x := by
  induction n generalizing front with
  | zero =>
    constructor
    · intro hx
      exact ⟨x, hx, rfl⟩
    · rintro ⟨a, ha, rfl⟩
      exact ha
  | succ n ih =>
    rw [generation, ih]
    constructor
    · rintro ⟨b, hb, hbx⟩
      obtain ⟨a, ha, hab⟩ := List.mem_flatMap.1 hb
      exact ⟨a, ha, b, hab, hbx⟩
    · rintro ⟨a, ha, b, hab, hbx⟩
      exact ⟨b, List.mem_flatMap.2 ⟨a, ha, hab⟩, hbx⟩

theorem mem_generation_singleton : x ∈ generation next n [a] ↔ Reaches next n a x := by
  rw [mem_generation]
  simp only [List.mem_singleton, exists_eq_left]

theorem generation_nil : generation next n [] = [] := by
  induction n with
  | zero => rfl
  | succ n ih => exact ih

theorem mem_within_iff : x ∈ within next n front ↔ ∃ k ≤ n, x ∈ generation next k front := by
  induction n generalizing front with
  | zero =>
    constructor
    · intro hx
      exact ⟨0, Nat.le_refl 0, hx⟩
    · rintro ⟨k, hk, hx⟩
      obtain rfl : k = 0 := by omega
      exact hx
  | succ n ih =>
    rw [within]
    split
    · next hempty =>
      rw [List.isEmpty_iff] at hempty
      constructor
      · intro hx
        exact ⟨0, Nat.zero_le _, hx⟩
      · rintro ⟨k, -, hx⟩
        cases k with
        | zero => exact hx
        | succ k =>
          rw [generation, hempty, generation_nil] at hx
          exact absurd hx List.not_mem_nil
    · rw [List.mem_append, ih]
      constructor
      · rintro (hx | ⟨k, hk, hx⟩)
        · exact ⟨0, Nat.zero_le _, hx⟩
        · exact ⟨k + 1, by omega, hx⟩
      · rintro ⟨k, hk, hx⟩
        cases k with
        | zero => exact Or.inl hx
        | succ k => exact Or.inr ⟨k, by omega, hx⟩

/-- **The search finds what is reached** in as many steps as there are rounds. -/
theorem mem_within : x ∈ within next n [a] ↔ ∃ k ≤ n, Reaches next k a x := by
  rw [mem_within_iff]
  exact exists_congr fun k => and_congr_right fun _ => mem_generation_singleton

/-- Without ways back to it, what is found from an element but the element itself is what is
reached in one step or more. -/
theorem mem_tail_within (hback : ∀ k, ¬ Reaches next (k + 1) a a) (hnodup : (within next n [a]).Nodup) :
    x ∈ (within next n [a]).tail ↔ ∃ k < n, Reaches next (k + 1) a x := by
  have hmem : x ∈ within next n [a] ↔ _ := mem_within
  rw [within_singleton] at hnodup hmem
  constructor
  · intro hx
    obtain ⟨k, hk, hreaches⟩ := hmem.1 (List.mem_cons_of_mem _ hx)
    cases k with
    | zero =>
      obtain rfl : a = x := hreaches
      exact absurd hx (List.nodup_cons.1 hnodup).1
    | succ k => exact ⟨k, hk, hreaches⟩
  · rintro ⟨k, hk, hx⟩
    rcases List.mem_cons.1 (hmem.2 ⟨k + 1, hk, hx⟩) with rfl | hx'
    · exact absurd hx (hback k)
    · exact hx'

/-- No generation before one with an element is empty. -/
theorem lt_length_within (hx : x ∈ generation next n front) : n < (within next n front).length := by
  induction n generalizing front with
  | zero => exact List.length_pos_of_mem hx
  | succ n ih =>
    have hnonempty : ¬ (front.flatMap next).isEmpty = true := by
      intro hempty
      rw [List.isEmpty_iff] at hempty
      rw [generation, hempty, generation_nil] at hx
      exact List.not_mem_nil hx
    have hfront : 0 < front.length := by
      obtain ⟨a, ha, -⟩ := mem_generation.1 hx
      exact List.length_pos_of_mem ha
    have hrest := ih hx
    rw [within, if_neg hnonempty, List.length_append]
    omega

/-- **Where one element at most is next**, the search ends with the last element that is reached. -/
theorem exists_last_within (hlength : ∀ a, (next a).length ≤ 1) (n : ℕ) (a : α) :
    ∃ k x, k ≤ n ∧ Reaches next k a x ∧ (within next n [a]).getLast? = some x ∧
      (within next n [a]).length = k + 1 ∧ ∀ j y, k < j → j ≤ n → ¬ Reaches next j a y := by
  induction n generalizing a with
  | zero => exact ⟨0, a, Nat.le_refl 0, rfl, rfl, rfl, fun j y hj hle => by omega⟩
  | succ n ih =>
    match hnext : next a with
    | [] =>
      have hwithin : within next (n + 1) [a] = [a] := by
        rw [within, List.flatMap_singleton, hnext]
        rfl
      refine ⟨0, a, Nat.zero_le _, rfl, by rw [hwithin]; rfl, by rw [hwithin]; rfl, fun j y hj _ hreaches => ?_⟩
      cases j with
      | zero => exact absurd hj (Nat.lt_irrefl 0)
      | succ j =>
        obtain ⟨b, hb, -⟩ := hreaches
        rw [hnext] at hb
        exact List.not_mem_nil hb
    | [b] =>
      obtain ⟨k, x, hk, hreaches, hlast, hcount, hend⟩ := ih b
      have hwithin : within next (n + 1) [a] = a :: within next n [b] := by
        rw [within, List.flatMap_singleton, hnext]
        rfl
      refine ⟨k + 1, x, by omega, ⟨b, by rw [hnext]; exact List.mem_singleton_self b, hreaches⟩, ?_, ?_, ?_⟩
      · rw [hwithin, List.getLast?_cons, hlast]
        rfl
      · rw [hwithin, List.length_cons, hcount]
      · intro j y hj hle hfar
        cases j with
        | zero => exact absurd hj (Nat.not_lt_zero _)
        | succ j =>
          obtain ⟨c, hc, hfar⟩ := hfar
          rw [hnext] at hc
          obtain rfl := List.mem_singleton.1 hc
          exact hend j y (by omega) (by omega) hfar
    | b :: c :: rest =>
      have hle := hlength a
      rw [hnext] at hle
      exact absurd hle (by simp)

/-- The last step of a search. -/
theorem generation_succ (n : ℕ) (front : List α) :
    generation next (n + 1) front = (generation next n front).flatMap next := by
  induction n generalizing front with
  | zero => rfl
  | succ n ih => exact ih (front.flatMap next)

/-- The generations are parts of the search. -/
theorem generation_sublist_within (hle : m ≤ n) : (generation next m front).Sublist (within next n front) := by
  induction n generalizing m front with
  | zero =>
    obtain rfl : m = 0 := by omega
    exact List.Sublist.refl front
  | succ n ih =>
    rw [within]
    split
    · next hempty =>
      cases m with
      | zero => exact List.Sublist.refl front
      | succ m =>
        rw [generation, List.isEmpty_iff.1 hempty, generation_nil]
        exact List.nil_sublist front
    · cases m with
      | zero => exact List.sublist_append_left front _
      | succ m => exact (ih (Nat.le_of_succ_le_succ hle)).trans (List.sublist_append_right front _)

/-! ### Nothing twice -/

section Keys

variable {κ : Type*} {key up : α → κ} {xs : List α}

/-- The search finds no key twice if no generation does and the generations have different keys. -/
theorem nodup_map_within (hnodup : ∀ k ≤ n, ((generation next k front).map key).Nodup)
    (hdisjoint : ∀ i j, i < j → j ≤ n → ∀ x ∈ generation next i front, ∀ y ∈ generation next j front,
      key x ≠ key y) : ((within next n front).map key).Nodup := by
  induction n generalizing front with
  | zero => exact hnodup 0 (Nat.le_refl 0)
  | succ n ih =>
    rw [within]
    split
    · exact hnodup 0 (Nat.zero_le _)
    · rw [List.map_append]
      refine List.Nodup.append (hnodup 0 (Nat.zero_le _)) (ih (fun k hk => hnodup (k + 1) (by omega))
        fun i j hij hj => hdisjoint (i + 1) (j + 1) (by omega) (by omega)) ?_
      intro c hc hrest
      obtain ⟨x, hx, rfl⟩ := List.mem_map.1 hc
      obtain ⟨y, hy, hsame⟩ := List.mem_map.1 hrest
      obtain ⟨k, hk, hy⟩ := mem_within_iff.1 hy
      exact hdisjoint 0 (k + 1) (Nat.succ_pos k) (by omega) x hx y hy hsame.symm

/-- **The search finds nothing twice** if the generations are disjoint. -/
theorem nodup_within (hnodup : ∀ k, (generation next k front).Nodup)
    (hdisjoint : ∀ i j, i < j → List.Disjoint (generation next i front) (generation next j front)) :
    (within next n front).Nodup := by
  rw [← List.map_id (within next n front)]
  refine nodup_map_within (fun k _ => by rw [List.map_id]; exact hnodup k) fun i j hij _ x hx y hy hxy => ?_
  obtain rfl : x = y := hxy
  exact hdisjoint i j hij hx hy

/-- `x` is found by a search of `n` rounds from `a`. -/
def Found (next : α → List α) (n : ℕ) (a x : α) : Prop := ∃ k < n, Reaches next (k + 1) a x

/-- The search never comes back to the key it starts from, and the elements that it finds have different keys. -/
structure IsClear (next : α → List α) (key : α → κ) (xs : List α) (n : ℕ) (a : α) : Prop where
  /-- No element found has the first key. -/
  own : ∀ x, Found next n a x → key x ≠ key a
  /-- The elements found have different keys. -/
  distinct : xs.Pairwise fun x y => Found next n a x → Found next n a y → key x ≠ key y

section Links

variable [DecidableEq κ]

theorem mem_of_links (hnext : ∀ a, next a = xs.filter fun x => up x = key a) {p x : α} :
    x ∈ next p ↔ x ∈ xs ∧ up x = key p := by
  rw [hnext, List.mem_filter, decide_eq_true_eq]

theorem isClear_of_nodup (hnext : ∀ a, next a = xs.filter fun x => up x = key a)
    (hnodup : ((within next n [a]).map key).Nodup) : IsClear next key xs n a := by
  have hgeneration {k : ℕ} (hk : k < n) : (((generation next k [a]).flatMap next).map key).Nodup := by
    rw [← generation_succ]
    exact hnodup.sublist ((generation_sublist_within hk).map key)
  constructor
  · rintro x ⟨k, hk, hx⟩ heq
    obtain ⟨n, rfl⟩ : ∃ m, n = m + 1 := ⟨n - 1, by omega⟩
    have hgen : x ∈ generation next k ([a].flatMap next) := (mem_generation_singleton (n := k + 1)).2 hx
    rw [within, if_neg fun hempty => ?_] at hnodup
    · have hrest := (generation_sublist_within (n := n) (by omega)).subset hgen
      exact (List.nodup_cons.1 hnodup).1 (List.mem_map.2 ⟨x, hrest, heq⟩)
    · rw [List.isEmpty_iff.1 hempty, generation_nil] at hgen
      exact List.not_mem_nil hgen
  · rw [List.pairwise_iff_getElem]
    rintro i j hi hj hij ⟨k, hk, hx⟩ ⟨l, hl, hy⟩ heq
    -- the two are one element, which is then twice below the same one
    have hsame : xs[i] = xs[j] :=
      List.inj_on_of_nodup_map hnodup (mem_within.2 ⟨k + 1, hk, hx⟩) (mem_within.2 ⟨l + 1, hl, hy⟩) heq
    obtain ⟨p, hp, hxp⟩ := hx.last
    have hnodup' := (List.nodup_flatMap.1 (List.map_flatMap ▸ hgeneration hk)).1 p (mem_generation_singleton.2 hp)
    have hpairwise := hnodup'.of_map
    rw [hnext, List.Nodup, List.pairwise_filter] at hpairwise
    have hup := ((mem_of_links hnext).1 hxp).2
    exact List.pairwise_iff_getElem.1 hpairwise i j hi hj hij (decide_eq_true hup)
      (decide_eq_true (hsame ▸ hup)) hsame

namespace IsClear

variable (hnext : ∀ a, next a = xs.filter fun x => up x = key a) (hclear : IsClear next key xs n a)

include hnext hclear

/-- Elements that are found and have one key are the same. -/
theorem eq_of_key_eq {x y : α} (hx : Found next n a x) (hy : Found next n a y) (hxy : key x = key y) : x = y := by
  by_contra hne
  have hmem {z : α} (hz : Found next n a z) : z ∈ xs := by
    obtain ⟨k, -, hz⟩ := hz
    obtain ⟨p, -, hz⟩ := hz.last
    exact ((mem_of_links hnext).1 hz).1
  have : Std.Symm fun x y => Found next n a x → Found next n a y → key x ≠ key y :=
    ⟨fun _ _ huv hv hu h => huv hu hv h.symm⟩
  exact hclear.distinct.forall (hmem hx) (hmem hy) hne hx hy hxy

theorem nodup_generation {k : ℕ} (hk : k ≤ n) : ((generation next k [a]).map key).Nodup := by
  induction k with
  | zero => exact List.nodup_singleton _
  | succ k ih =>
    rw [generation_succ, List.map_flatMap, List.nodup_flatMap]
    constructor
    · intro p hp
      rw [List.Nodup, List.pairwise_map, hnext, List.pairwise_filter]
      refine hclear.distinct.imp_of_mem fun {x y} hx hy hxy hpx hpy => ?_
      have hfound {z : α} (hz : z ∈ xs) (hpz : decide (up z = key p) = true) : Found next n a z :=
        ⟨k, hk, (mem_generation_singleton.1 hp).add (.single ((mem_of_links hnext).2 ⟨hz, of_decide_eq_true hpz⟩))⟩
      exact hxy (hfound hx hpx) (hfound hy hpy)
    · refine (List.pairwise_map.1 (ih (by omega))).imp_of_mem fun {p q} hp hq hne => ?_
      intro c hcp hcq
      obtain ⟨x, hx, rfl⟩ := List.mem_map.1 hcp
      obtain ⟨y, hy, hxy⟩ := List.mem_map.1 hcq
      have hsame := hclear.eq_of_key_eq hnext ⟨k, hk, (mem_generation_singleton.1 hq).add (.single hy)⟩
        ⟨k, hk, (mem_generation_singleton.1 hp).add (.single hx)⟩ hxy
      subst hsame
      exact hne (((mem_of_links hnext).1 hx).2.symm.trans ((mem_of_links hnext).1 hy).2)

/-- Elements that are found after different numbers of steps have different keys. -/
theorem key_ne {i j : ℕ} (hij : i < j) (hj : j ≤ n) {x y : α} (hx : Reaches next i a x) (hy : Reaches next j a y) :
    key x ≠ key y := by
  induction i generalizing j x y with
  | zero =>
    obtain rfl : a = x := hx
    obtain ⟨j, rfl⟩ : ∃ l, j = l + 1 := ⟨j - 1, by omega⟩
    exact (hclear.own y ⟨j, hj, hy⟩).symm
  | succ i ih =>
    intro hxy
    obtain ⟨j, rfl⟩ : ∃ l, j = l + 1 := ⟨j - 1, by omega⟩
    -- one element, and its two ways come through elements with one key
    have hsame := hclear.eq_of_key_eq hnext ⟨i, by omega, hx⟩ ⟨j, hj, hy⟩ hxy
    subst hsame
    obtain ⟨p, hp, hxp⟩ := hx.last
    obtain ⟨q, hq, hxq⟩ := hy.last
    exact ih (by omega) (by omega) hp hq (((mem_of_links hnext).1 hxp).2.symm.trans ((mem_of_links hnext).1 hxq).2)

end IsClear

/-- **A search along links finds every key once** exactly if it never comes back and the elements
found have different keys. -/
theorem nodup_map_within_iff (hnext : ∀ a, next a = xs.filter fun x => up x = key a) :
    ((within next n [a]).map key).Nodup ↔ IsClear next key xs n a := by
  refine ⟨isClear_of_nodup hnext, fun hclear => ?_⟩
  refine nodup_map_within (fun k hk => hclear.nodup_generation hnext hk) fun i j hij hj x hx y hy => ?_
  exact hclear.key_ne hnext hij hj (mem_generation_singleton.1 hx) (mem_generation_singleton.1 hy)

end Links

end Keys

/-- The generations of a forest, from the roots down. -/
theorem nodup_generation_of_injective (hnodup : ∀ a, (next a).Nodup) (hkeep : ∀ a b, p a → b ∈ next a → p b)
    (hinjective : ∀ a b x, p a → p b → x ∈ next a → x ∈ next b → a = b) (hp : ∀ a ∈ front, p a)
    (hfront : front.Nodup) (n : ℕ) : (generation next n front).Nodup := by
  induction n generalizing front with
  | zero => exact hfront
  | succ n ih =>
    have hflat : ∀ b ∈ front.flatMap next, p b := by
      intro b hb
      obtain ⟨a, ha, hb⟩ := List.mem_flatMap.1 hb
      exact hkeep a b (hp a ha) hb
    refine ih hflat (List.nodup_flatMap.2 ⟨fun a _ => hnodup a, ?_⟩)
    refine hfront.imp_of_mem fun {a b} ha hb hne => ?_
    intro x hxa hxb
    exact hne (hinjective a b x (hp a ha) (hp b hb) hxa hxb)

theorem disjoint_generation_of_injective (hacyclic : Acyclic next) (hkeep : ∀ a b, p a → b ∈ next a → p b)
    (hinjective : ∀ a b x, p a → p b → x ∈ next a → x ∈ next b → a = b) (ha : p a) (i j : ℕ) (hij : i < j) :
    List.Disjoint (generation next i [a]) (generation next j [a]) := by
  intro x hi hj
  rw [mem_generation_singleton] at hi hj
  rw [show j = (j - i - 1 + 1) + i by omega] at hj
  exact hacyclic _ a (hi.cancel_right hkeep hinjective ha ha hj)

/-- The generations of a forest, from a leaf up. -/
theorem nodup_generation_of_length (hlength : ∀ a, (next a).length ≤ 1) (hfront : front.length ≤ 1) (n : ℕ) :
    (generation next n front).Nodup := by
  induction n generalizing front with
  | zero =>
    match front with
    | [] => exact List.nodup_nil
    | [a] => exact List.nodup_singleton a
  | succ n ih =>
    refine ih ?_
    match front with
    | [] => exact Nat.zero_le 1
    | [a] =>
      rw [List.flatMap_singleton]
      exact hlength a

theorem disjoint_generation_of_functional (hacyclic : Acyclic next)
    (hfunctional : ∀ a x y, x ∈ next a → y ∈ next a → x = y) (i j : ℕ) (hij : i < j) :
    List.Disjoint (generation next i [a]) (generation next j [a]) := by
  intro x hi hj
  rw [mem_generation_singleton] at hi hj
  rw [show j = i + (j - i - 1 + 1) by omega] at hj
  exact hacyclic _ x (hi.cancel_left hfunctional hj)

end Subordination.Library
