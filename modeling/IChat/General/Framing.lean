import Mathlib.Data.List.Basic

/-!
# Incremental framing

A decoder that receives a text in pieces keeps what it has not used in a buffer, and cuts frames off
the buffer as long as it finds some. If a frame that is found stays found when more text arrives,
then the frames do not depend on the pieces: they are those of the whole text (`feed_eq_drain`).

The search for a text in another one (`indexOf`) is stable in this sense.
-/

namespace Framing

variable {α β : Type}

/-! ### Cutting frames -/

/-- A way to cut the first frame off a text. -/
structure Cutter (α β : Type) where
  cut : List α → Option (β × List α)
  length_lt : ∀ {text frame rest}, cut text = some (frame, rest) → rest.length < text.length
  /-- What is found is found still when more text arrives. -/
  stable : ∀ {text frame rest} more, cut text = some (frame, rest) →
    cut (text ++ more) = some (frame, rest ++ more)

namespace Cutter

variable (c : Cutter α β)

/-- The frames of a text, at most a given number of them, and what is left. -/
def drainUpTo : ℕ → List α → List β × List α
  | 0, text => ([], text)
  | n + 1, text =>
    match c.cut text with
    | none => ([], text)
    | some (frame, rest) => (frame :: (drainUpTo n rest).1, (drainUpTo n rest).2)

/-- All frames of a text, and what is left. -/
def drain (text : List α) : List β × List α := c.drainUpTo text.length text

/-- A text arrives: the frames that it completes, and the new buffer. -/
def push (buffer chunk : List α) : List β × List α := c.drain (buffer ++ chunk)

/-- Texts arrive one by one. -/
def feed (buffer : List α) : List (List α) → List β × List α
  | [] => ([], buffer)
  | chunk :: chunks =>
    let (frames, buffer) := c.push buffer chunk
    (frames ++ (feed buffer chunks).1, (feed buffer chunks).2)

variable {c} {text rest : List α} {frame : β}

/-- There are not more frames than there is text. -/
theorem drainUpTo_of_length_le {m n : ℕ} (hm : text.length ≤ m) (hn : text.length ≤ n) :
    c.drainUpTo m text = c.drainUpTo n text := by
  induction m generalizing n text with
  | zero =>
    obtain rfl : text = [] := List.length_eq_zero_iff.mp (by omega)
    cases n with
    | zero => rfl
    | succ =>
      have hnone : c.cut [] = none := by
        cases hcut : c.cut [] with
        | none => rfl
        | some =>
          have hlt := c.length_lt hcut
          exact absurd hlt (Nat.not_lt_zero _)
      rw [drainUpTo, drainUpTo, hnone]
  | succ m ih =>
    cases n with
    | zero =>
      obtain rfl : text = [] := List.length_eq_zero_iff.mp (by omega)
      cases hcut : c.cut [] with
      | none => rw [drainUpTo, drainUpTo, hcut]
      | some =>
        have hlt := c.length_lt hcut
        exact absurd hlt (Nat.not_lt_zero _)
    | succ n =>
      rw [drainUpTo, drainUpTo]
      cases hcut : c.cut text with
      | none => rfl
      | some found =>
        obtain ⟨frame, rest⟩ := found
        have hlt := c.length_lt hcut
        dsimp only
        rw [ih (by omega) (by omega : rest.length ≤ n)]

theorem drain_of_none (h : c.cut text = none) : c.drain text = ([], text) := by
  rw [drain]
  cases text with
  | nil => rfl
  | cons => rw [List.length_cons, drainUpTo, h]

theorem drain_of_some (h : c.cut text = some (frame, rest)) :
    c.drain text = (frame :: (c.drain rest).1, (c.drain rest).2) := by
  have hlt := c.length_lt h
  have hstep : c.drain text =
      (frame :: (c.drainUpTo (text.length - 1) rest).1,
        (c.drainUpTo (text.length - 1) rest).2) := by
    rw [drain, show text.length = text.length - 1 + 1 by omega, drainUpTo, h]
    rfl
  rw [hstep, drainUpTo_of_length_le (by omega : rest.length ≤ text.length - 1) (Nat.le_refl _)]
  rfl

/-- More text completes more frames; those that were there stay. -/
theorem drain_append (text more : List α) :
    c.drain (text ++ more) =
      ((c.drain text).1 ++ (c.drain ((c.drain text).2 ++ more)).1,
        (c.drain ((c.drain text).2 ++ more)).2) := by
  induction hn : text.length using Nat.strongRecOn generalizing text with
  | ind n ih =>
    cases hcut : c.cut text with
    | none => rw [drain_of_none hcut, List.nil_append]
    | some found =>
      obtain ⟨frame, rest⟩ := found
      have hlt := c.length_lt hcut
      rw [drain_of_some hcut, drain_of_some (c.stable more hcut),
        ih rest.length (by omega) rest rfl]
      rfl

/-- **Chunk invariance.** Fed piece by piece, a text gives the frames that it has as a whole. -/
theorem feed_eq_drain (buffer : List α) (chunks : List (List α))
    (h : c.drain buffer = ([], buffer)) :
    c.feed buffer chunks = c.drain (buffer ++ chunks.flatten) := by
  induction chunks generalizing buffer with
  | nil => rw [feed, List.flatten_nil, List.append_nil, h]
  | cons chunk chunks ih =>
    have hleft : c.drain (c.push buffer chunk).2 = ([], (c.push buffer chunk).2) := by
      have hagain := drain_append (c := c) (buffer ++ chunk) []
      rw [List.append_nil, List.append_nil] at hagain
      have hfirst := congrArg Prod.fst hagain
      have hsecond := congrArg Prod.snd hagain
      refine Prod.ext ?_ hsecond.symm
      exact List.append_right_eq_self.mp hfirst.symm
    have hpush : c.push buffer chunk = c.drain (buffer ++ chunk) := rfl
    rw [List.flatten_cons, ← List.append_assoc, drain_append (buffer ++ chunk), ← hpush, feed]
    dsimp only
    rw [ih _ hleft]

end Cutter

/-! ### Searching -/

section search

variable [DecidableEq α]

/-- Where a text begins in another one, for the first time. -/
def indexOf (pattern : List α) : List α → Option ℕ
  | [] => if pattern = [] then some 0 else none
  | a :: text =>
    if pattern <+: a :: text then some 0 else (indexOf pattern text).map (· + 1)

variable {pattern text more : List α} {i : ℕ}

theorem indexOf_prefix (h : indexOf pattern text = some i) : pattern <+: text.drop i := by
  induction text generalizing i with
  | nil =>
    rw [indexOf] at h
    split_ifs at h with hempty
    cases h
    rw [hempty]
    exact List.nil_prefix
  | cons a text ih =>
    rw [indexOf] at h
    split_ifs at h with hfirst
    · cases h
      exact hfirst
    · obtain ⟨j, hj, rfl⟩ := Option.map_eq_some_iff.mp h
      exact ih hj

/-- What begins there ends within the text. -/
theorem indexOf_add_length_le (h : indexOf pattern text = some i) :
    i + pattern.length ≤ text.length := by
  induction text generalizing i with
  | nil =>
    rw [indexOf] at h
    split_ifs at h with hempty
    cases h
    simp [hempty]
  | cons a text ih =>
    rw [indexOf] at h
    split_ifs at h with hfirst
    · cases h
      simpa using hfirst.length_le
    · obtain ⟨j, hj, rfl⟩ := Option.map_eq_some_iff.mp h
      have hle := ih hj
      rw [List.length_cons]
      omega

/-- The characters of the text that is found. -/
theorem indexOf_getElem? (h : indexOf pattern text = some i) {k : ℕ} (hk : k < pattern.length) :
    text[i + k]? = pattern[k]? := by
  obtain ⟨rest, hrest⟩ := indexOf_prefix h
  rw [← List.getElem?_drop, ← hrest, List.getElem?_append_left hk]

omit [DecidableEq α] in
theorem prefix_append_iff (hle : pattern.length ≤ text.length) :
    pattern <+: text ++ more ↔ pattern <+: text :=
  ⟨fun h => List.prefix_of_prefix_length_le h (List.prefix_append _ _) hle,
    fun h => h.trans (List.prefix_append _ _)⟩

/-- What is found stays where it is when more text arrives. -/
theorem indexOf_append (h : indexOf pattern text = some i) :
    indexOf pattern (text ++ more) = some i := by
  induction text generalizing i with
  | nil =>
    rw [indexOf] at h
    split_ifs at h with hempty
    cases h
    subst hempty
    cases more with
    | nil => rfl
    | cons => exact if_pos List.nil_prefix
  | cons a text ih =>
    have hwhole := indexOf_add_length_le h
    rw [indexOf] at h
    rw [List.cons_append, indexOf]
    split_ifs at h with hfirst
    · cases h
      exact if_pos (hfirst.trans (List.prefix_append (a :: text) more))
    · obtain ⟨j, hj, rfl⟩ := Option.map_eq_some_iff.mp h
      have hnot : ¬pattern <+: a :: (text ++ more) := by
        rw [← List.cons_append, prefix_append_iff (by omega)]
        exact hfirst
      rw [if_neg hnot, ih hj, Option.map_some]

/-- What is found only when more text arrives ends in the new part. -/
theorem length_lt_of_indexOf_none (h : indexOf pattern text = none)
    (hmore : indexOf pattern (text ++ more) = some i) : text.length < i + pattern.length := by
  induction text generalizing i with
  | nil =>
    rw [indexOf] at h
    split_ifs at h with hempty
    have hpos := List.length_pos_of_ne_nil hempty
    rw [List.length_nil]
    omega
  | cons a text ih =>
    rw [indexOf] at h
    rw [List.cons_append, indexOf] at hmore
    split_ifs at h with hfirst
    have hrest : indexOf pattern text = none := Option.map_eq_none_iff.mp h
    split_ifs at hmore with hnow
    · cases hmore
      by_contra hle
      refine hfirst ((prefix_append_iff ?_).mp (hnow : pattern <+: a :: text ++ more))
      omega
    · obtain ⟨j, hj, rfl⟩ := Option.map_eq_some_iff.mp hmore
      have hlt := ih hrest hj
      rw [List.length_cons]
      omega

/-- A text is not found before its first character is. -/
theorem indexOf_append_of_notMem {a : α} {before : List α} (h : a ∉ before) :
    indexOf (a :: pattern) (before ++ text) =
      (indexOf (a :: pattern) text).map (· + before.length) := by
  induction before with
  | nil => cases hfound : indexOf (a :: pattern) text <;> simp [hfound]
  | cons b before ih =>
    obtain ⟨hne, hrest⟩ := not_or.mp (mt List.mem_cons.mpr h)
    have hfirst : ¬a :: pattern <+: b :: (before ++ text) := fun hprefix =>
      hne (List.cons_prefix_cons.mp hprefix).1
    rw [List.cons_append, indexOf, if_neg hfirst, ih hrest, Option.map_map]
    rfl

theorem indexOf_self_append : indexOf pattern (pattern ++ text) = some 0 := by
  cases hwhole : pattern ++ text with
  | nil => exact if_pos (List.append_eq_nil_iff.mp hwhole).1
  | cons => exact if_pos (hwhole ▸ List.prefix_append pattern text)

end search

end Framing
