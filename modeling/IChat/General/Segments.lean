import IChat.General.Lists
import Mathlib.Data.Int.Notation

/-!
# Segments of a list

A list is cut at some indices into segments, and segments are dropped from the front as long as the
rest costs more than a budget. What is left starts at one of the indices.

- `isLeft_trimSegments`: it is the longest such rest that fits the budget, or the last segment;
- `IsLeft.le_of_le`: with a higher budget no more is dropped.
-/

namespace List

variable {α : Type*}

/-- The parts of a list between neighbouring bounds. -/
def slices (l : List α) (bounds : List ℕ) : List (List α) :=
  (bounds.zip bounds.tail).map fun bound => (l.take bound.2).drop bound.1

theorem slices_cons_cons (l : List α) (a b : ℕ) (bounds : List ℕ) :
    l.slices (a :: b :: bounds) = (l.take b).drop a :: l.slices (b :: bounds) := rfl

/-- The last segment. -/
theorem slices_pair (l : List α) (a : ℕ) : l.slices [a, l.length] = [l.drop a] := by
  rw [slices_cons_cons, take_length]
  rfl

/-- The segments from an index on make up the list from there on. -/
theorem flatten_slices {l : List α} {a : ℕ} {starts : List ℕ}
    (hsorted : (a :: starts).Pairwise (· ≤ ·)) (hlast : ∀ i ∈ a :: starts, i ≤ l.length) :
    (l.slices (a :: starts ++ [l.length])).flatten = l.drop a := by
  induction starts generalizing a with
  | nil => rw [cons_append, nil_append, slices_pair, flatten_singleton]
  | cons b starts ih =>
    have hab : a ≤ b := rel_of_pairwise_cons hsorted mem_cons_self
    have hrest := ih hsorted.of_cons fun i hi => hlast i (mem_cons_of_mem a hi)
    rw [cons_append, cons_append, slices_cons_cons, flatten_cons, ← cons_append, hrest,
      drop_take_append_drop_of_le hab]

/-- Drop segments from the front while more than one is left and they cost more than the budget.
The total is carried along. -/
def trimSegments (budget : ℤ) : List (List α) → List ℤ → ℤ → List (List α)
  | segment :: segments, cost :: costs, total =>
    if segments ≠ [] ∧ budget < total then trimSegments budget segments costs (total - cost)
    else segment :: segments
  | segments, _, _ => segments

/-- What is left of a list that may be cut at some indices: the longest rest within the budget, or
the last one when none is. -/
def IsLeft (cost : List α → ℤ) (budget : ℤ) (l : List α) (starts : List ℕ) (k : ℕ) : Prop :=
  k ∈ starts ∧
    ((cost (l.drop k) ≤ budget ∧ ∀ j ∈ starts, j < k → budget < cost (l.drop j)) ∨
      ∀ j ∈ starts, budget < cost (l.drop j) ∧ j ≤ k)

/-- What is left when segments are dropped is a rest of the list. -/
theorem isLeft_trimSegments {cost : List α → ℤ}
    (hadd : ∀ s t, cost (s ++ t) = cost s + cost t) {budget : ℤ} {l : List α} {a : ℕ}
    {starts : List ℕ} (hsorted : (a :: starts).Pairwise (· < ·))
    (hlast : ∀ i ∈ a :: starts, i ≤ l.length) :
    ∃ k, IsLeft cost budget l (a :: starts) k ∧
      (trimSegments budget (l.slices (a :: starts ++ [l.length]))
        ((l.slices (a :: starts ++ [l.length])).map cost) (cost (l.drop a))).flatten =
          l.drop k := by
  -- on the starts: the first segment goes while what is left costs too much
  induction starts generalizing a with
  | nil =>
    refine ⟨a, ⟨mem_cons_self, ?_⟩, ?_⟩
    · rcases Int.lt_or_le budget (cost (l.drop a)) with hover | hfits
      · right
        intro j hj
        rw [mem_singleton.mp hj]
        exact ⟨hover, Nat.le_refl a⟩
      · left
        refine ⟨hfits, fun j hj hlt => ?_⟩
        rw [mem_singleton.mp hj] at hlt
        exact absurd hlt (Nat.lt_irrefl a)
    · rw [cons_append, nil_append, slices_pair, map_singleton, trimSegments,
        if_neg fun h => h.1 rfl, flatten_singleton]
  | cons b starts ih =>
    have hab : a < b := rel_of_pairwise_cons hsorted mem_cons_self
    have hflatten := flatten_slices (hsorted.imp Nat.le_of_lt) hlast
    obtain ⟨k, hk, hleft⟩ := ih hsorted.of_cons fun i hi => hlast i (mem_cons_of_mem a hi)
    have hcost : cost (l.drop a) - cost ((l.take b).drop a) = cost (l.drop b) := by
      rw [← drop_take_append_drop_of_le (Nat.le_of_lt hab) l, hadd]
      omega
    have hmore : l.slices (b :: starts ++ [l.length]) ≠ [] := by
      cases starts <;> exact cons_ne_nil _ _
    rw [cons_append, cons_append, slices_cons_cons, ← cons_append] at hflatten ⊢
    rw [map_cons, trimSegments]
    by_cases hover : budget < cost (l.drop a)
    · rw [if_pos ⟨hmore, hover⟩, hcost]
      refine ⟨k, ⟨mem_cons_of_mem a hk.1, ?_⟩, hleft⟩
      have hlt : a < k := rel_of_pairwise_cons hsorted hk.1
      rcases hk.2 with ⟨hfits, hbefore⟩ | hnone
      · refine Or.inl ⟨hfits, fun j hj hjk => ?_⟩
        rcases mem_cons.mp hj with rfl | hj
        · exact hover
        · exact hbefore j hj hjk
      · refine Or.inr fun j hj => ?_
        rcases mem_cons.mp hj with rfl | hj
        · exact ⟨hover, Nat.le_of_lt hlt⟩
        · exact hnone j hj
    · rw [if_neg fun h => hover h.2]
      refine ⟨a, ⟨mem_cons_self, Or.inl ⟨by omega, fun j hj hja => ?_⟩⟩, hflatten⟩
      rcases mem_cons.mp hj with rfl | hj
      · exact absurd hja (Nat.lt_irrefl j)
      · have hgt := rel_of_pairwise_cons hsorted hj
        omega

/-- With a higher budget no more is dropped. -/
theorem IsLeft.le_of_le {cost : List α → ℤ} {budget higher : ℤ} {l : List α} {starts : List ℕ}
    {k m : ℕ} (hk : IsLeft cost budget l starts k) (hm : IsLeft cost higher l starts m)
    (hle : budget ≤ higher) : m ≤ k := by
  rcases hk.2 with ⟨hfits, -⟩ | hnone
  · by_contra hlt
    rcases hm.2 with ⟨-, hbefore⟩ | hnone
    · have hover := hbefore k hk.1 (by omega)
      omega
    · have hover := (hnone k hk.1).1
      omega
  · exact (hnone m hm.1).2

end List
