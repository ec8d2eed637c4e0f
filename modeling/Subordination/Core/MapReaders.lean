import Subordination.Core.ByteBuffer
import Mathlib.Data.List.AList

/-!
# Maps on the wire

A map is written as its number of entries and the entries one after another, and read by a loop that reads an
entry and adds it to the map unless its key is there. The loop may carry a state from entry to entry, such as a
variable that is read into again and again.

## The model

`readEntries` is the loop, over any decoder of an entry. What an entry is read as may depend on the state, and
two values may be the `same` without being equal.

## What is proved

* `reads_entries` — a map is read back if its entries are, each from the state that the ones before it leave.
* `readsEntries_of_ok` — and only then, if a key that was not read as itself is lost for good.
-/

namespace Subordination.Core

variable {α β σ : Type} [DecidableEq α]

/-! ### Adding entries -/

/-- `emplace`: the entry is added unless its key is there. -/
def emplace (m : AList fun _ : α => β) (k : α) (v : β) : AList fun _ : α => β :=
  if k ∈ m then m else m.insert k v

theorem lookup_emplace_of_some {m : AList fun _ : α => β} {a : α} {b : β} (h : m.lookup a = some b) (k : α)
    (v : β) : (emplace m k v).lookup a = some b := by
  rw [emplace]
  split
  · exact h
  · next hnot =>
    have hne : a ≠ k := by
      rintro rfl
      exact hnot (AList.lookup_isSome.1 (by rw [h]; rfl))
    rw [AList.lookup_insert_ne hne, h]

theorem lookup_emplace_self {m : AList fun _ : α => β} {k : α} (h : k ∉ m) (v : β) :
    (emplace m k v).lookup k = some v := by
  rw [emplace, if_neg h, AList.lookup_insert]

theorem lookup_emplace_ne {m : AList fun _ : α => β} {a k : α} (h : a ≠ k) (v : β) :
    (emplace m k v).lookup a = m.lookup a := by
  rw [emplace]
  split
  · rfl
  · exact AList.lookup_insert_ne h

theorem mem_emplace {m : AList fun _ : α => β} {a k : α} {v : β} : a ∈ emplace m k v ↔ a = k ∨ a ∈ m := by
  rw [emplace]
  split
  · next hmem =>
    refine ⟨Or.inr, ?_⟩
    rintro (rfl | h)
    · exact hmem
    · exact h
  · exact AList.mem_insert m

theorem length_emplace_le (m : AList fun _ : α => β) (k : α) (v : β) :
    (emplace m k v).entries.length ≤ m.entries.length + 1 := by
  rw [emplace]
  split
  · omega
  · next hnot => rw [AList.entries_insert_of_notMem hnot, List.length_cons]

/-! ### The loop -/

/-- The loop that reads the entries of a map. -/
def readEntries (entry : σ → ReadM (α × β × σ)) :
    ℕ → σ → (AList fun _ : α => β) → ReadM (AList fun _ : α => β)
  | 0, _, m => pure m
  | n + 1, s, m => do
    let (k, v, s) ← entry s
    readEntries entry n s (emplace m k v)

section Loop

variable {entry : σ → ReadM (α × β × σ)} {bytes : (Σ _ : α, β) → List UInt8} {same : β → β → Prop}

/-- What a round of the loop has done. -/
theorem readEntries_succ_ok {n : ℕ} {s : σ} {m m' : AList fun _ : α => β} {w w' : List UInt8}
    (h : readEntries entry (n + 1) s m w = .ok m' w') :
    ∃ k v s' w₁, entry s w = .ok (k, v, s') w₁ ∧ readEntries entry n s' (emplace m k v) w₁ = .ok m' w' := by
  obtain ⟨⟨k, v, s'⟩, w₁, hentry, hrest⟩ := bind_ok h
  exact ⟨k, v, s', w₁, hentry, hrest⟩

/-- An entry that is there stays. -/
theorem lookup_readEntries {n : ℕ} {s : σ} {m m' : AList fun _ : α => β} {w w' : List UInt8}
    (h : readEntries entry n s m w = .ok m' w') {a : α} {b : β} (hb : m.lookup a = some b) :
    m'.lookup a = some b := by
  induction n generalizing s m w with
  | zero =>
    cases h
    exact hb
  | succ n ih =>
    obtain ⟨k, v, s', w₁, -, hrest⟩ := readEntries_succ_ok h
    exact ih hrest (lookup_emplace_of_some hb k v)

/-- There are no more entries than rounds. -/
theorem length_readEntries_le {n : ℕ} {s : σ} {m m' : AList fun _ : α => β} {w w' : List UInt8}
    (h : readEntries entry n s m w = .ok m' w') : m'.entries.length ≤ m.entries.length + n := by
  induction n generalizing s m w with
  | zero =>
    cases h
    omega
  | succ n ih =>
    obtain ⟨k, v, s', w₁, -, hrest⟩ := readEntries_succ_ok h
    have hround := length_emplace_le m k v
    have hle := ih hrest
    omega

/-- From the state `s` the entry is read as what it was written from, and `s'` is left. -/
def ReadsEntry (entry : σ → ReadM (α × β × σ)) (bytes : (Σ _ : α, β) → List UInt8) (same : β → β → Prop)
    (s : σ) (x : Σ _ : α, β) (s' : σ) : Prop :=
  ∀ rest, ∃ v, entry s (bytes x ++ rest) = .ok (x.1, v, s') rest ∧ same v x.2

/-- Every entry is read as what it was written from, from the state that the one before it leaves. -/
inductive ReadsEntries (entry : σ → ReadM (α × β × σ)) (bytes : (Σ _ : α, β) → List UInt8)
    (same : β → β → Prop) : σ → List (Σ _ : α, β) → Prop where
  /-- There are no entries. -/
  | nil {s : σ} : ReadsEntries entry bytes same s []
  /-- The first entry is read, and then the others. -/
  | cons {s s' : σ} {x : Σ _ : α, β} {xs : List (Σ _ : α, β)} : ReadsEntry entry bytes same s x s' →
      ReadsEntries entry bytes same s' xs → ReadsEntries entry bytes same s (x :: xs)

/-- The map has the given entries, and otherwise those of `m`. -/
def Extends (same : β → β → Prop) (m m' : AList fun _ : α => β) (xs : List (Σ _ : α, β)) : Prop :=
  (∀ x ∈ xs, ∃ v, m'.lookup x.1 = some v ∧ same v x.2) ∧ ∀ a, a ∉ xs.keys → m'.lookup a = m.lookup a

/-- The entries of a map, added to nothing, make the map. -/
theorem Extends.lookup_eq {s m' : AList fun _ : α => β} (h : Extends Eq ∅ m' s.entries) (a : α) :
    m'.lookup a = s.lookup a := by
  cases hb : s.lookup a with
  | some b =>
    obtain ⟨v, hv, rfl⟩ := h.1 ⟨a, b⟩ (AList.mem_lookup_iff.1 hb)
    exact hv
  | none =>
    rw [h.2 a (AList.lookup_eq_none.1 hb), AList.lookup_empty]

omit [DecidableEq α] in
/-- Maps with the same keys have as many entries. -/
theorem length_entries_eq {s t : AList fun _ : α => β} (h : ∀ a, a ∈ s ↔ a ∈ t) :
    s.entries.length = t.entries.length := by
  have hperm := (List.perm_ext_iff_of_nodup s.keys_nodup t.keys_nodup).2 h
  have hlength : (s.entries.map Sigma.fst).length = (t.entries.map Sigma.fst).length := hperm.length_eq
  rwa [List.length_map, List.length_map] at hlength

/-- All the keys of a map are read only if their number fits its 32 bits. -/
theorem length_lt_of_readEntries {s : σ} {m m' : AList fun _ : α => β} {w w' : List UInt8}
    (h : readEntries entry (m.entries.length % 256 ^ 4) s ∅ w = .ok m' w') (hkeys : ∀ a, a ∈ m' ↔ a ∈ m) :
    m.entries.length < 2 ^ 32 := by
  have hle := length_readEntries_le h
  rw [length_entries_eq hkeys, AList.empty_entries, List.length_nil] at hle
  have hmod := Nat.mod_lt m.entries.length (show 0 < 256 ^ 4 by decide)
  omega

/-- **Entries that are read one by one make the map.** -/
theorem reads_entries {s : σ} {xs : List (Σ _ : α, β)} (h : ReadsEntries entry bytes same s xs)
    (hkeys : xs.NodupKeys) {m : AList fun _ : α => β} (hnew : ∀ a ∈ xs.keys, a ∉ m) (rest : List UInt8) :
    ∃ m', readEntries entry xs.length s m (xs.flatMap bytes ++ rest) = .ok m' rest ∧ Extends same m m' xs := by
  induction h generalizing m with
  | nil => exact ⟨m, rfl, by simp, fun a _ => rfl⟩
  | @cons s s' x xs hentry hrest ih =>
    obtain ⟨hx, hxs⟩ := List.nodupKeys_cons.1 hkeys
    obtain ⟨v, hv, hsame⟩ := hentry (xs.flatMap bytes ++ rest)
    have hxm : x.1 ∉ m := hnew x.1 (by simp)
    have hnew' : ∀ a ∈ xs.keys, a ∉ emplace m x.1 v := by
      intro a ha hmem
      rcases mem_emplace.1 hmem with rfl | hmem
      · exact hx ha
      · exact hnew a (by simp [ha]) hmem
    obtain ⟨m', hm', hin, hout⟩ := ih hxs hnew'
    refine ⟨m', ?_, fun y hy => ?_, fun a ha => ?_⟩
    · rw [List.flatMap_cons, List.append_assoc, List.length_cons]
      exact bind_eq_ok hv hm'
    · rcases List.mem_cons.1 hy with rfl | hy
      · exact ⟨v, (hout y.1 hx).trans (lookup_emplace_self hxm v), hsame⟩
      · exact hin y hy
    · rw [List.keys_cons, List.mem_cons, not_or] at ha
      rw [hout a ha.2, lookup_emplace_ne ha.1]

/-- Entries with values that are equal to what was written are added as they are. -/
theorem reads_entries_eq {s : σ} {xs : List (Σ _ : α, β)} (h : ReadsEntries entry bytes Eq s xs)
    (m : AList fun _ : α => β) :
    Reads (readEntries entry xs.length s m) (xs.flatMap bytes) (xs.foldl (fun m x => emplace m x.1 x.2) m) := by
  intro rest
  induction h generalizing m with
  | nil => rfl
  | @cons s s' x xs hentry hrest ih =>
    obtain ⟨v, hv, rfl⟩ := hentry (xs.flatMap bytes ++ rest)
    rw [List.flatMap_cons, List.append_assoc, List.length_cons]
    exact bind_eq_ok hv (ih _)

/-- The entries of a map that are read so make the map. -/
theorem ReadsEntries.lookup_foldl {s : σ} {t : AList fun _ : α => β} (h : ReadsEntries entry bytes Eq s t.entries)
    (a : α) : (t.entries.foldl (fun m x => emplace m x.1 x.2) ∅).lookup a = t.lookup a := by
  obtain ⟨m', hm', hextends⟩ := reads_entries h t.nodupKeys (m := ∅) (fun _ _ => AList.notMem_empty _) []
  have hsame := (reads_entries_eq h ∅ []).symm.trans hm'
  cases hsame
  exact hextends.lookup_eq a

/-- A key that is lost is not read any more. -/
theorem not_mem_readEntries {lost : α → σ → Prop}
    (hlost : ∀ {a s w k v s' w'}, lost a s → entry s w = .ok (k, v, s') w' → k ≠ a ∧ lost a s') {n : ℕ}
    {a : α} {s : σ} (ha : lost a s) {m m' : AList fun _ : α => β} {w w' : List UInt8}
    (h : readEntries entry n s m w = .ok m' w') (hm : a ∉ m) : a ∉ m' := by
  induction n generalizing s m w with
  | zero =>
    cases h
    exact hm
  | succ n ih =>
    obtain ⟨k, v, s', w₁, hentry, hrest⟩ := readEntries_succ_ok h
    obtain ⟨hne, ha'⟩ := hlost ha hentry
    refine ih ha' hrest fun hmem => ?_
    rcases mem_emplace.1 hmem with rfl | hmem
    · exact hne rfl
    · exact hm hmem

/-- **If the map has the entries that were written, they were read one by one.** -/
theorem readsEntries_of_ok (lost : α → σ → Prop)
    (hlost : ∀ {a s w k v s' w'}, lost a s → entry s w = .ok (k, v, s') w' → k ≠ a ∧ lost a s')
    (hmiss : ∀ {s x rest k v s' w'}, entry s (bytes x ++ rest) = .ok (k, v, s') w' → k ≠ x.1 → lost x.1 s')
    (hread : ∀ {s x rest v s' w'}, entry s (bytes x ++ rest) = .ok (x.1, v, s') w' → same v x.2 →
      ReadsEntry entry bytes same s x s')
    {xs : List (Σ _ : α, β)} (hkeys : xs.NodupKeys) {s : σ} {m m' : AList fun _ : α => β}
    (hnew : ∀ a ∈ xs.keys, a ∉ m) {rest w : List UInt8}
    (h : readEntries entry xs.length s m (xs.flatMap bytes ++ rest) = .ok m' w)
    (hm' : ∀ x ∈ xs, ∃ v, m'.lookup x.1 = some v ∧ same v x.2) : ReadsEntries entry bytes same s xs := by
  induction xs generalizing s m with
  | nil => exact .nil
  | cons x xs ih =>
    obtain ⟨hx, hxs⟩ := List.nodupKeys_cons.1 hkeys
    rw [List.flatMap_cons, List.append_assoc, List.length_cons] at h
    obtain ⟨k, v, s', w₁, hentry, hrest⟩ := readEntries_succ_ok h
    have hxm : x.1 ∉ m := hnew x.1 (by simp)
    obtain ⟨u, hu, husame⟩ := hm' x List.mem_cons_self
    -- the key was read as itself: otherwise it would not be in the map
    obtain rfl : k = x.1 := by
      by_contra hne
      refine not_mem_readEntries hlost (hmiss hentry hne) hrest (fun hmem => ?_)
        (AList.lookup_isSome.1 (by rw [hu]; rfl))
      rcases mem_emplace.1 hmem with heq | hmem
      · exact hne heq.symm
      · exact hxm hmem
    -- and the value that was read with it is the one in the map
    have hv := lookup_readEntries hrest (lookup_emplace_self hxm v)
    obtain rfl : v = u := Option.some.inj (hv.symm.trans hu)
    have hgood := hread hentry husame
    obtain ⟨v', hv', -⟩ := hgood (xs.flatMap bytes ++ rest)
    have hw := hv'.symm.trans hentry
    cases hw
    refine .cons hgood (ih hxs (fun a ha hmem => ?_) hrest fun y hy => hm' y (List.mem_cons_of_mem x hy))
    rcases mem_emplace.1 hmem with rfl | hmem
    · exact hx ha
    · exact hnew a (by simp [ha]) hmem

end Loop

end Subordination.Core
