import Mathlib.Data.List.Basic

/-!
# Framed streams

A stream of frames, each a fixed-width header that announces the length of the
whole frame followed by a body, cut into chunks at arbitrary places.

`Framing.split` takes the complete frames off the front of what has arrived and
leaves the rest; `Framing.feed` does so chunk by chunk, carrying the rest over.

## What is proved

* `split_append` — splitting may be interrupted anywhere: what is left over of a
  prefix, put in front of the suffix, gives the frames of the whole.
* `feed_eq_split` — so the frames a receiver sees do not depend on the cut.
* `split_flatten` — splitting a concatenation of frames gives their bodies back,
  with nothing left over.
-/

namespace Subordination.Library

universe u

/-- A frame format over the symbols `α`. -/
structure Framing (α : Type u) where
  /-- The width of a header. -/
  width : ℕ
  /-- A header takes some room, so every frame advances the stream. -/
  width_pos : 0 < width
  /-- The header of a frame that is `n` symbols long, header included. -/
  header : ℕ → List α
  /-- The length a header announces. -/
  size : List α → ℕ
  /-- A header has the width of a header. -/
  length_header : ∀ n, (header n).length = width
  /-- The lengths from here on do not fit in a header. -/
  bound : ℕ
  /-- A length that fits is announced as it is. -/
  size_header : ∀ n, n < bound → size (header n) = n

namespace Framing

variable {α : Type u} (F : Framing α)

/-- The frame around a body. -/
def frame (body : List α) : List α := F.header (F.width + body.length) ++ body

/-- The body is short enough for its frame's length to fit in the header. -/
def Fits (body : List α) : Prop := F.width + body.length < F.bound

theorem length_frame (body : List α) : (F.frame body).length = F.width + body.length := by
  rw [frame, List.length_append, F.length_header]

theorem take_frame (body rest : List α) :
    (F.frame body ++ rest).take F.width = F.header (F.width + body.length) := by
  rw [frame, List.append_assoc, List.take_left' (F.length_header _)]

theorem size_frame {body : List α} (h : F.Fits body) (rest : List α) :
    F.size ((F.frame body ++ rest).take F.width) = (F.frame body).length := by
  rw [F.take_frame, F.size_header _ h, F.length_frame]

/-- The frame at the front of the stream is not all there, or its header announces
less than a header. -/
def Stuck (bs : List α) : Prop :=
  bs.length < F.width ∨ F.size (bs.take F.width) < F.width ∨ bs.length < F.size (bs.take F.width)

instance (bs : List α) : Decidable (F.Stuck bs) := by unfold Stuck; infer_instance

theorem length_drop_lt {bs : List α} (h : ¬ F.Stuck bs) :
    (bs.drop (F.size (bs.take F.width))).length < bs.length := by
  simp only [Stuck, not_or, Nat.not_lt] at h
  have := F.width_pos
  rw [List.length_drop]
  omega

/-- The bodies of the complete frames at the front of the stream, and what is left. -/
def split (bs : List α) : List (List α) × List α :=
  if _h : F.Stuck bs then ([], bs)
  else
    let n := F.size (bs.take F.width)
    let rest := split (bs.drop n)
    ((bs.take n).drop F.width :: rest.1, rest.2)
termination_by bs.length
decreasing_by exact F.length_drop_lt _h

theorem split_of_stuck {bs : List α} (h : F.Stuck bs) : F.split bs = ([], bs) := by
  rw [split, dif_pos h]

theorem split_of_not_stuck {bs : List α} (h : ¬ F.Stuck bs) :
    F.split bs = ((bs.take (F.size (bs.take F.width))).drop F.width ::
      (F.split (bs.drop (F.size (bs.take F.width)))).1,
      (F.split (bs.drop (F.size (bs.take F.width)))).2) := by
  rw [split, dif_neg h]

/-- An empty stream has no frames. -/
theorem split_nil : F.split [] = ([], []) :=
  F.split_of_stuck (Or.inl F.width_pos)

theorem not_stuck_frame {body : List α} (h : F.Fits body) (rest : List α) :
    ¬ F.Stuck (F.frame body ++ rest) := by
  have hlen := F.length_frame body
  simp only [Stuck, F.size_frame h rest, List.length_append, not_or]
  omega

theorem drop_width_frame (body : List α) : (F.frame body).drop F.width = body :=
  List.drop_left' (F.length_header _)

/-- A complete frame at the front comes off the front. -/
theorem split_frame_append {body : List α} (h : F.Fits body) (rest : List α) :
    F.split (F.frame body ++ rest) = (body :: (F.split rest).1, (F.split rest).2) := by
  rw [F.split_of_not_stuck (F.not_stuck_frame h rest), F.size_frame h rest, List.take_left,
    List.drop_left, F.drop_width_frame]

/-- The front frame of a prefix is the front frame of the whole. -/
theorem take_width_append {a : List α} (h : ¬ F.Stuck a) (b : List α) :
    (a ++ b).take F.width = a.take F.width := by
  simp only [Stuck, not_or, Nat.not_lt] at h
  rw [List.take_append_of_le_length h.1]

theorem not_stuck_append {a : List α} (h : ¬ F.Stuck a) (b : List α) : ¬ F.Stuck (a ++ b) := by
  have htake := F.take_width_append h b
  simp only [Stuck, not_or, Nat.not_lt] at h ⊢
  rw [htake, List.length_append]
  exact ⟨Nat.le_add_right_of_le h.1, h.2.1, Nat.le_add_right_of_le h.2.2⟩

/-- **Splitting may be interrupted anywhere**: the frames of a stream are those of a
prefix followed by those of the prefix's rest and the suffix. -/
theorem split_append (a b : List α) :
    F.split (a ++ b) = ((F.split a).1 ++ (F.split ((F.split a).2 ++ b)).1,
      (F.split ((F.split a).2 ++ b)).2) := by
  by_cases h : F.Stuck a
  · rw [F.split_of_stuck h]
    rfl
  · have hn : F.size (a.take F.width) ≤ a.length := by
      simp only [Stuck, not_or, Nat.not_lt] at h
      exact h.2.2
    have ih := split_append (a.drop (F.size (a.take F.width))) b
    rw [F.split_of_not_stuck h, F.split_of_not_stuck (F.not_stuck_append h b), F.take_width_append h b,
      List.take_append_of_le_length hn, List.drop_append_of_le_length hn, ih]
    rfl
termination_by a.length
decreasing_by exact F.length_drop_lt h

/-- **Splitting undoes framing.** -/
theorem split_flatten {bodies : List (List α)} (h : ∀ body ∈ bodies, F.Fits body) :
    F.split (bodies.map F.frame).flatten = (bodies, []) := by
  induction bodies with
  | nil => exact F.split_nil
  | cons body bodies ih =>
    rw [List.map_cons, List.flatten_cons, F.split_frame_append (h body List.mem_cons_self),
      ih fun b hb => h b (List.mem_cons_of_mem body hb)]

/-- Receive the chunks one after another: the frames completed by each, in order, and
what is left at the end. `rest` is what is left from before. -/
def feed (rest : List α) : List (List α) → List (List α) × List α
  | [] => ([], rest)
  | chunk :: chunks =>
    let now := F.split (rest ++ chunk)
    let later := feed now.2 chunks
    (now.1 ++ later.1, later.2)

/-- What is left after splitting has no complete frame at its front. -/
theorem stuck_split_snd (bs : List α) : F.Stuck (F.split bs).2 := by
  by_cases h : F.Stuck bs
  · rwa [F.split_of_stuck h]
  · rw [F.split_of_not_stuck h]
    exact stuck_split_snd (bs.drop (F.size (bs.take F.width)))
termination_by bs.length
decreasing_by exact F.length_drop_lt h

/-- **The cut does not matter**: receiving chunk by chunk gives the frames of the
whole stream. -/
theorem feed_eq_split {rest : List α} (hrest : F.Stuck rest) (chunks : List (List α)) :
    F.feed rest chunks = F.split (rest ++ chunks.flatten) := by
  induction chunks generalizing rest with
  | nil => rw [feed, List.flatten_nil, List.append_nil, F.split_of_stuck hrest]
  | cons chunk chunks ih =>
    rw [feed, List.flatten_cons, ← List.append_assoc, F.split_append (rest ++ chunk),
      ih (F.stuck_split_snd (rest ++ chunk))]

/-- The frame at the front of the stream is not all there. -/
def Partial (bs : List α) : Prop := bs.length < F.width ∨ bs.length < F.size (bs.take F.width)

theorem Partial.stuck {bs : List α} (h : F.Partial bs) : F.Stuck bs :=
  h.elim Or.inl fun h => Or.inr (Or.inr h)

theorem partial_nil : F.Partial [] := Or.inl F.width_pos

/-- What is short of a frame is a part of it. -/
theorem partial_of_prefix {body w rest rest' : List α} (hb : F.Fits body)
    (h : w ++ rest = F.frame body ++ rest') (hlen : w.length < (F.frame body).length) :
    F.Partial w := by
  rcases Nat.lt_or_ge w.length F.width with hw | hw
  · exact Or.inl hw
  · right
    have hsize := F.size_frame hb rest'
    rw [← h, List.take_append_of_le_length hw] at hsize
    rwa [hsize]

/-- **Splitting a prefix of a stream of frames** takes off the first of them; what is left
is a part of the next, and the rest of the stream completes it. -/
theorem split_prefix {bodies : List (List α)} (hb : ∀ body ∈ bodies, F.Fits body)
    {a b : List α} (h : a ++ b = (bodies.map F.frame).flatten) :
    ∃ later, bodies = (F.split a).1 ++ later ∧ (F.split a).2 ++ b = (later.map F.frame).flatten ∧
      F.Partial (F.split a).2 := by
  induction bodies generalizing a with
  | nil =>
    have ha : a = [] := by
      rw [List.map_nil, List.flatten_nil] at h
      exact (List.append_eq_nil_iff.mp h).1
    subst ha
    rw [F.split_nil]
    exact ⟨[], rfl, h, F.partial_nil⟩
  | cons body bodies ih =>
    have hbody := hb body List.mem_cons_self
    have h' : a ++ b = F.frame body ++ (bodies.map F.frame).flatten := h
    rcases Nat.lt_or_ge a.length (F.frame body).length with hlen | hlen
    · have hpart := F.partial_of_prefix hbody h' hlen
      rw [F.split_of_stuck hpart.stuck]
      exact ⟨body :: bodies, rfl, h, hpart⟩
    · obtain ⟨a', rfl⟩ := List.prefix_of_prefix_length_le
        (h' ▸ List.prefix_append (F.frame body) _) (List.prefix_append a b) hlen
      rw [List.append_assoc, List.append_cancel_left_eq] at h'
      obtain ⟨later, hbodies, hrest, hpart⟩ := ih (fun b hb' => hb b (List.mem_cons_of_mem body hb')) h'
      rw [F.split_frame_append hbody]
      exact ⟨later, congrArg (body :: ·) hbodies, hrest, hpart⟩

/-- A part of a frame is not a stream of frames, unless it is empty. -/
theorem eq_nil_of_partial {bodies : List (List α)} (hb : ∀ body ∈ bodies, F.Fits body)
    {a : List α} (h : a = (bodies.map F.frame).flatten) (hp : F.Partial a) : bodies = [] ∧ a = [] := by
  have hsplit := F.split_flatten hb
  rw [← h, F.split_of_stuck hp.stuck, Prod.mk.injEq] at hsplit
  exact ⟨hsplit.1.symm, hsplit.2⟩

end Framing

end Subordination.Library
