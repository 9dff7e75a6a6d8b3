import Mathlib.Data.List.Dedup
import Mathlib.Data.List.Sort

/-!
# Grouping by a key

A sequence of pieces is collected in a dictionary by their keys, and the dictionary is read out in
the order of the keys, possibly several times along the sequence.

- `Holds.insertionSort_eq`: reading out gives every key once, with its pieces in their order;
- `flatMap_readOut_eq_iff`: reading out several times and not at the end is reading out once, of all
  pieces, exactly if the keys ascend over all groups and the last pieces add nothing.
-/

namespace Grouping

variable {α β γ κ : Type*} [LinearOrder κ]

/-- The keys, in order and each once. -/
def sortedKeys (key : α → κ) (l : List α) : List κ := (l.map key).dedup.insertionSort (· ≤ ·)

theorem mem_sortedKeys {key : α → κ} {l : List α} {k : κ} :
    k ∈ sortedKeys key l ↔ ∃ a ∈ l, key a = k := by
  rw [sortedKeys, List.mem_insertionSort, List.mem_dedup, List.mem_map]

theorem pairwise_sortedKeys (key : α → κ) (l : List α) :
    (sortedKeys key l).Pairwise (· < ·) := by
  have hle : (sortedKeys key l).Pairwise (· ≤ ·) := List.pairwise_insertionSort _ _
  have hne : (sortedKeys key l).Nodup :=
    (List.perm_insertionSort _ _).nodup_iff.mpr (List.nodup_dedup _)
  exact hle.imp₂ (fun _ _ hle hne => lt_of_le_of_ne hle hne) hne

/-- A strictly ascending list with these keys is the list of them. -/
theorem eq_sortedKeys {key : α → κ} {l : List α} {ks : List κ} (hsorted : ks.Pairwise (· < ·))
    (hmem : ∀ k, k ∈ ks ↔ ∃ a ∈ l, key a = k) : ks = sortedKeys key l := by
  refine hsorted.eq_of_mem_iff (pairwise_sortedKeys key l) fun k => ?_
  rw [hmem, mem_sortedKeys]

/-! ### The dictionary -/

section

variable (key : α → κ) (initial : β) (add : β → α → β)

/-- Add a piece to the entry of its key, which is created where it is missing. -/
def collect (entries : List (κ × β)) (a : α) : List (κ × β) :=
  if key a ∈ entries.map Prod.fst then
    entries.map fun entry => if entry.1 = key a then (entry.1, add entry.2 a) else entry
  else entries ++ [(key a, add initial a)]

/-- The entry of a key, made of its pieces. -/
def entryOf (l : List α) (k : κ) : β := (l.filter fun a => key a = k).foldl add initial

/-- The dictionary holds the pieces of a list. -/
structure Holds (l : List α) (entries : List (κ × β)) : Prop where
  nodup : (entries.map Prod.fst).Nodup
  keys : ∀ k, k ∈ entries.map Prod.fst ↔ ∃ a ∈ l, key a = k
  values : ∀ entry ∈ entries, entry.2 = entryOf key initial add l entry.1

variable {key initial add}

theorem entryOf_append_singleton (l : List α) (a : α) (k : κ) :
    entryOf key initial add (l ++ [a]) k =
      if key a = k then add (entryOf key initial add l k) a else entryOf key initial add l k := by
  rw [entryOf, List.filter_append, List.foldl_append]
  by_cases hk : key a = k
  · rw [if_pos hk, List.filter_cons_of_pos (by simpa using hk)]
    rfl
  · rw [if_neg hk, List.filter_cons_of_neg (by simpa using hk)]
    rfl

theorem entryOf_of_notMem {l : List α} {k : κ} (h : ∀ a ∈ l, key a ≠ k) :
    entryOf key initial add l k = initial := by
  rw [entryOf, List.filter_eq_nil_iff.mpr (fun a ha => by simpa using h a ha)]
  rfl

theorem Holds.collect {l : List α} {entries : List (κ × β)}
    (h : Holds key initial add l entries) (a : α) :
    Holds key initial add (l ++ [a]) (Grouping.collect key initial add entries a) := by
  have hkeys : ∀ k, (∃ b ∈ l ++ [a], key b = k) ↔ k ∈ entries.map Prod.fst ∨ k = key a := by
    intro k
    rw [h.keys]
    constructor
    · rintro ⟨b, hb, hk⟩
      rcases List.mem_append.mp hb with hold | hnew
      · exact Or.inl ⟨b, hold, hk⟩
      · rw [List.mem_singleton.mp hnew] at hk
        exact Or.inr hk.symm
    · rintro (⟨b, hb, hk⟩ | rfl)
      · exact ⟨b, List.mem_append_left _ hb, hk⟩
      · exact ⟨a, List.mem_append_right _ (List.mem_singleton_self a), rfl⟩
  rw [Grouping.collect]
  split
  · rename_i hin
    have hfst : (entries.map fun entry =>
        if entry.1 = key a then (entry.1, add entry.2 a) else entry).map Prod.fst =
          entries.map Prod.fst := by
      rw [List.map_map]
      refine List.map_congr_left fun entry _ => ?_
      rw [Function.comp_apply]
      split <;> rfl
    refine ⟨hfst ▸ h.nodup, fun k => ?_, fun entry hentry => ?_⟩
    · rw [hfst, hkeys]
      refine ⟨Or.inl, fun hk => hk.elim id fun heq => heq ▸ hin⟩
    · obtain ⟨old, hold, rfl⟩ := List.mem_map.mp hentry
      have hvalue := h.values old hold
      rw [entryOf_append_singleton]
      by_cases hk : old.1 = key a
      · rw [if_pos hk, if_pos hk.symm, hvalue]
      · rw [if_neg hk, if_neg (Ne.symm hk), hvalue]
  · rename_i hnew
    refine ⟨?_, fun k => ?_, fun entry hentry => ?_⟩
    · rw [List.map_append, List.map_singleton]
      exact List.nodup_append'.mpr
        ⟨h.nodup, List.nodup_singleton _, by simpa using hnew⟩
    · rw [hkeys, List.map_append, List.mem_append, List.map_singleton, List.mem_singleton]
    · rw [entryOf_append_singleton]
      rcases List.mem_append.mp hentry with hold | hself
      · have hne : key a ≠ entry.1 := by
          intro heq
          exact hnew (heq ▸ List.mem_map_of_mem hold)
        rw [if_neg hne]
        exact h.values entry hold
      · rw [List.mem_singleton.mp hself, if_pos rfl, entryOf_of_notMem fun b hb heq =>
          hnew ((h.keys (key a)).mpr ⟨b, hb, heq⟩)]

theorem Holds.foldl_collect {l : List α} {entries : List (κ × β)}
    (h : Holds key initial add l entries) (new : List α) :
    Holds key initial add (l ++ new) (new.foldl (Grouping.collect key initial add) entries) := by
  induction new generalizing l entries with
  | nil => rwa [List.append_nil]
  | cons a new ih =>
    rw [List.append_cons, List.foldl_cons]
    exact ih (h.collect a)

theorem holds_nil : Holds key initial add [] [] where
  nodup := List.nodup_nil
  keys k := by simp
  values _ h := by cases h

/-- Read out in the order of the keys, the dictionary gives every key once. -/
theorem Holds.insertionSort_eq {l : List α} {entries : List (κ × β)}
    (h : Holds key initial add l entries) :
    entries.insertionSort (fun a b => a.1 ≤ b.1) =
      (sortedKeys key l).map fun k => (k, entryOf key initial add l k) := by
  have hperm := List.perm_insertionSort (fun a b : κ × β => a.1 ≤ b.1) entries
  have hle : ((entries.insertionSort fun a b => a.1 ≤ b.1).map Prod.fst).Pairwise (· ≤ ·) := by
    have htotal : Std.Total fun a b : κ × β => a.1 ≤ b.1 := ⟨fun a b => le_total a.1 b.1⟩
    have htrans : IsTrans (κ × β) fun a b => a.1 ≤ b.1 := ⟨fun a b c hab hbc => le_trans hab hbc⟩
    rw [List.pairwise_map]
    exact List.pairwise_insertionSort _ _
  have hfst : (entries.insertionSort fun a b => a.1 ≤ b.1).map Prod.fst = sortedKeys key l := by
    refine eq_sortedKeys ?_ fun k => ?_
    · have hne := (hperm.map Prod.fst).nodup_iff.mpr h.nodup
      exact hle.imp₂ (fun _ _ hle hne => lt_of_le_of_ne hle hne) hne
    · rw [(hperm.map Prod.fst).mem_iff, h.keys]
  rw [← hfst, List.map_map]
  refine (List.map_id _).symm.trans (List.map_congr_left fun entry hentry => ?_)
  have hvalue := h.values entry (hperm.mem_iff.mp hentry)
  exact Prod.ext rfl hvalue

end

/-! ### Reading out several times -/

section

variable {key : α → κ} {value : κ → List α → γ}

theorem mem_flatMap_sortedKeys {groups : List (List α)} {k : κ} :
    k ∈ groups.flatMap (sortedKeys key) ↔ ∃ a ∈ groups.flatten, key a = k := by
  rw [List.mem_flatMap]
  constructor
  · rintro ⟨group, hgroup, hk⟩
    obtain ⟨a, ha, hak⟩ := mem_sortedKeys.mp hk
    exact ⟨a, List.mem_flatten_of_mem hgroup ha, hak⟩
  · rintro ⟨a, ha, hak⟩
    obtain ⟨group, hgroup, hmem⟩ := List.mem_flatten.mp ha
    exact ⟨group, hgroup, mem_sortedKeys.mpr ⟨a, hmem, hak⟩⟩

/-- Where the keys ascend, the pieces of a key stand in one group. -/
theorem filter_flatten_eq {groups : List (List α)}
    (hsorted : (groups.flatMap (sortedKeys key)).Pairwise (· < ·)) {group : List α}
    (hgroup : group ∈ groups) {k : κ} (hk : k ∈ sortedKeys key group) :
    (groups.flatten.filter fun a => key a = k) = group.filter fun a => key a = k := by
  have hempty : ∀ l : List α, k ∉ sortedKeys key l → (l.filter fun a => key a = k) = [] := by
    intro l hnot
    rw [List.filter_eq_nil_iff]
    intro a ha heq
    exact hnot (mem_sortedKeys.mpr ⟨a, ha, of_decide_eq_true heq⟩)
  induction groups with
  | nil => cases hgroup
  | cons first groups ih =>
    rw [List.flatMap_cons, List.pairwise_append] at hsorted
    obtain ⟨-, hrest, hacross⟩ := hsorted
    rw [List.flatten_cons, List.filter_append]
    by_cases hfirst : k ∈ sortedKeys key first
    · have hlater : (groups.flatten.filter fun a => key a = k) = [] := by
        refine List.filter_eq_nil_iff.mpr fun a ha heq => ?_
        have hin := mem_flatMap_sortedKeys.mpr ⟨a, ha, of_decide_eq_true heq⟩
        exact lt_irrefl k (hacross k hfirst k hin)
      rcases List.mem_cons.mp hgroup with rfl | hlate
      · rw [hlater, List.append_nil]
      · exact absurd (hacross k hfirst k (List.mem_flatMap.mpr ⟨group, hlate, hk⟩)) (lt_irrefl k)
    · rcases List.mem_cons.mp hgroup with rfl | hlate
      · exact absurd hk hfirst
      · rw [hempty first hfirst, List.nil_append, ih hrest hlate]

/-- What is read out of some groups is what is read out of all pieces at once, exactly if the keys
ascend over the groups and the pieces after the last group change no value. -/
theorem flatMap_readOut_eq_iff
    (hlocal : ∀ k l l', (l.filter fun a => key a = k) = (l'.filter fun a => key a = k) →
      value k l = value k l') (groups : List (List α)) (rest : List α) :
    (groups.flatMap fun group => (sortedKeys key group).map fun k => (k, value k group)) =
        ((sortedKeys key (groups.flatten ++ rest)).map
          fun k => (k, value k (groups.flatten ++ rest))) ↔
      (groups.flatMap (sortedKeys key)).Pairwise (· < ·) ∧
        (∀ a ∈ rest, key a ∈ groups.flatMap (sortedKeys key)) ∧
        ∀ k ∈ groups.flatMap (sortedKeys key),
          value k (groups.flatten ++ rest) = value k groups.flatten := by
  have hkeys : (groups.flatMap fun group =>
      (sortedKeys key group).map fun k => (k, value k group)).map Prod.fst =
        groups.flatMap (sortedKeys key) := by
    rw [List.map_flatMap]
    refine List.flatMap_congr fun group _ => ?_
    rw [List.map_map]
    exact List.map_id _
  have hone : ∀ l : List α, ((sortedKeys key l).map fun k => (k, value k l)).map Prod.fst =
      sortedKeys key l := by
    intro l
    rw [List.map_map]
    exact List.map_id _
  constructor
  · intro heq
    have hfst := congrArg (List.map Prod.fst) heq
    rw [hkeys, hone] at hfst
    have hsorted : (groups.flatMap (sortedKeys key)).Pairwise (· < ·) := by
      rw [hfst]
      exact pairwise_sortedKeys key _
    refine ⟨hsorted, fun a ha => ?_, fun k hk => ?_⟩
    · rw [hfst]
      exact mem_sortedKeys.mpr ⟨a, List.mem_append_right _ ha, rfl⟩
    · obtain ⟨group, hgroup, hin⟩ := List.mem_flatMap.mp hk
      have hread : (k, value k group) ∈ groups.flatMap fun group =>
          (sortedKeys key group).map fun k => (k, value k group) :=
        List.mem_flatMap.mpr ⟨group, hgroup, List.mem_map.mpr ⟨k, hin, rfl⟩⟩
      rw [heq] at hread
      obtain ⟨k', -, hpair⟩ := List.mem_map.mp hread
      obtain ⟨rfl, hvalue⟩ := Prod.mk.inj hpair
      rw [hvalue]
      exact hlocal _ _ _ (filter_flatten_eq hsorted hgroup hin).symm
  · rintro ⟨hsorted, hrest, hvalues⟩
    -- the groups' keys, which ascend, are the keys of the whole list
    have hfst : groups.flatMap (sortedKeys key) = sortedKeys key (groups.flatten ++ rest) := by
      refine eq_sortedKeys hsorted fun k => ?_
      rw [mem_flatMap_sortedKeys]
      constructor
      · rintro ⟨a, ha, hk⟩
        exact ⟨a, List.mem_append_left _ ha, hk⟩
      · rintro ⟨a, ha, rfl⟩
        rcases List.mem_append.mp ha with hgroup | htail
        · exact ⟨a, hgroup, rfl⟩
        · exact mem_flatMap_sortedKeys.mp (hrest a htail)
    rw [← hfst, List.map_flatMap]
    refine List.flatMap_congr fun group hgroup => List.map_congr_left fun k hk => ?_
    have hin : k ∈ groups.flatMap (sortedKeys key) := List.mem_flatMap.mpr ⟨group, hgroup, hk⟩
    rw [hvalues k hin, hlocal _ _ _ (filter_flatten_eq hsorted hgroup hk)]

end

end Grouping
