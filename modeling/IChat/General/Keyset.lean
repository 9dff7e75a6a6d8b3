import IChat.General.Lists
import Mathlib.Data.List.Sort
import Mathlib.Order.Lattice
import Mathlib.Order.WellFounded

/-!
# Paging by keys

A list that changes between requests is read page by page, the greatest key first. A page begins
behind the last key of the page before it, its boundary, and one row more than a page holds tells
whether there is another.

* `Walk.lt`, `Walk.pairwise`: the keys of a walk decrease strictly;
* `Walk.complete`: a row that is there at every page of a finished walk is on one of them;
* `next?_lt`: a boundary lies below the one before it, so that no walk goes on forever.
-/

namespace Keyset

variable {α κ : Type*} [LinearOrder κ] (key : α → κ)

/-- The rows behind a boundary, in the order of the pages. -/
def rowsAfter (bound : Option κ) (rows : List α) : List α :=
  (rows.filter fun row => bound.all fun k => decide (key row < k)).insertionSort
    fun a b => key b ≤ key a

/-- A page of `n` rows. -/
def items (n : ℕ) (bound : Option κ) (rows : List α) : List α := (rowsAfter key bound rows).take n

/-- The boundary of the next page, if the list goes on. -/
def next? (n : ℕ) (bound : Option κ) (rows : List α) : Option κ :=
  if n < (rowsAfter key bound rows).length then (items key n bound rows).getLast?.map key else none

/-- The pages that are read from a boundary on, from the request `i`, and whether they reach the end
of the list. -/
inductive Walk (n : ℕ) (rows : ℕ → List α) : ℕ → Option κ → List (List α) → Bool → Prop
  | stopped (i : ℕ) (bound : Option κ) : Walk n rows i bound [] false
  | last {i : ℕ} {bound : Option κ} (hlast : next? key n bound (rows i) = none) :
    Walk n rows i bound [items key n bound (rows i)] true
  | more {i : ℕ} {bound : Option κ} {k : κ} {pages : List (List α)} {finished : Bool}
    (hnext : next? key n bound (rows i) = some k)
    (hrest : Walk n rows (i + 1) (some k) pages finished) :
    Walk n rows i bound (items key n bound (rows i) :: pages) finished

/-- The key lies behind the boundary. -/
def Behind (k : κ) (bound : Option κ) : Prop := ∀ b ∈ bound, k < b

variable {key} {n : ℕ}

theorem mem_rowsAfter {bound : Option κ} {rows : List α} {row : α} :
    row ∈ rowsAfter key bound rows ↔ row ∈ rows ∧ Behind (key row) bound := by
  rw [rowsAfter, List.mem_insertionSort, List.mem_filter]
  refine and_congr_right fun _ => ?_
  cases bound with
  | none => exact iff_of_true rfl fun b hb => nomatch hb
  | some b =>
    rw [Option.all_some, decide_eq_true_iff]
    constructor
    · rintro hlt c hc
      rwa [← Option.some.inj hc]
    · exact fun h => h b rfl

theorem mem_items {bound : Option κ} {rows : List α} {row : α} (h : row ∈ items key n bound rows) :
    row ∈ rows ∧ Behind (key row) bound :=
  mem_rowsAfter.mp (List.mem_of_mem_take h)

/-- The rows of a page stand in strictly decreasing order. -/
theorem pairwise_rowsAfter {bound : Option κ} {rows : List α} (hrows : (rows.map key).Nodup) :
    (rowsAfter key bound rows).Pairwise fun a b => key b < key a := by
  have htotal : Std.Total fun a b : α => key b ≤ key a := ⟨fun a b => le_total (key b) (key a)⟩
  have htrans : IsTrans α fun a b => key b ≤ key a := ⟨fun _ _ _ hab hbc => hbc.trans hab⟩
  have hle : (rowsAfter key bound rows).Pairwise fun a b => key b ≤ key a :=
    List.pairwise_insertionSort _ _
  have hne : (rowsAfter key bound rows).Pairwise fun a b => key a ≠ key b := by
    rw [← List.pairwise_map]
    have hperm := (List.perm_insertionSort (fun a b => key b ≤ key a)
      (rows.filter fun row => bound.all fun k => decide (key row < k))).map key
    exact hperm.nodup_iff.mpr (hrows.sublist (List.filter_sublist.map key))
  exact (hle.and hne).imp fun ⟨hle, hne⟩ => lt_of_le_of_ne hle (Ne.symm hne)

/-- The boundary of the next page is the key of the last row. -/
theorem next?_eq_some {bound : Option κ} {rows : List α} {k : κ}
    (h : next? key n bound rows = some k) :
    n < (rowsAfter key bound rows).length ∧
      ∃ row, (items key n bound rows).getLast? = some row ∧ key row = k := by
  rw [next?] at h
  split at h
  · rename_i hmore
    obtain ⟨row, hlast, hkey⟩ := Option.map_eq_some_iff.mp h
    exact ⟨hmore, row, hlast, hkey⟩
  · cases h

/-- A boundary lies behind the one before it. -/
theorem next?_lt {bound : Option κ} {rows : List α} {k : κ}
    (h : next? key n bound rows = some k) : Behind k bound := by
  obtain ⟨-, row, hlast, rfl⟩ := next?_eq_some h
  exact (mem_items (List.mem_of_getLast? hlast)).2

/-- A list whose pages have room for a row is on the page in front of its end. -/
theorem items_eq_rowsAfter (hn : 0 < n) {bound : Option κ} {rows : List α}
    (h : next? key n bound rows = none) : items key n bound rows = rowsAfter key bound rows := by
  refine List.take_of_length_le (not_lt.mp fun hmore => ?_)
  rw [next?, if_pos hmore, Option.map_eq_none_iff, List.getLast?_eq_none_iff, items,
    List.take_eq_nil_iff] at h
  obtain hzero | hnil := h
  · omega
  · rw [hnil] at hmore
    cases hmore

/-- The rows of a page do not lie behind its last one. -/
theorem le_of_mem_items {bound : Option κ} {rows : List α} {k : κ} (hrows : (rows.map key).Nodup)
    (h : next? key n bound rows = some k) {row : α} (hrow : row ∈ items key n bound rows) :
    k ≤ key row := by
  obtain ⟨-, last, hlast, rfl⟩ := next?_eq_some h
  have hsorted : (items key n bound rows).Pairwise fun a b => key b < key a :=
    (pairwise_rowsAfter hrows).sublist (List.take_sublist _ _)
  rw [← List.dropLast_append_getLast? last hlast] at hsorted hrow
  obtain hfront | hself := List.mem_append.mp hrow
  · exact ((List.pairwise_append.mp hsorted).2.2 _ hfront _ (List.mem_singleton_self last)).le
  · rw [List.mem_singleton.mp hself]

/-- What is not on a page lies behind its last row. -/
theorem behind_of_notMem {bound : Option κ} {rows : List α} {k : κ} (hrows : (rows.map key).Nodup)
    (h : next? key n bound rows = some k) {row : α} (hrow : row ∈ rowsAfter key bound rows)
    (hnot : row ∉ items key n bound rows) : key row < k := by
  obtain ⟨-, last, hlast, rfl⟩ := next?_eq_some h
  have hsorted : (rowsAfter key bound rows).Pairwise fun a b => key b < key a :=
    pairwise_rowsAfter hrows
  have hparts : items key n bound rows ++ (rowsAfter key bound rows).drop n =
      rowsAfter key bound rows := List.take_append_drop _ _
  rw [← hparts] at hsorted hrow
  have hbehind := (List.mem_append.mp hrow).resolve_left hnot
  exact (List.pairwise_append.mp hsorted).2.2 _ (List.mem_of_getLast? hlast) _ hbehind

/-! ### Walks -/

variable {rows : ℕ → List α} {i : ℕ} {bound : Option κ} {pages : List (List α)} {finished : Bool}

/-- A row of a walk has been there when its page was read. -/
theorem Walk.exists_mem (h : Walk key n rows i bound pages finished) {row : α}
    (hrow : row ∈ pages.flatten) : ∃ j, i ≤ j ∧ j < i + pages.length ∧ row ∈ rows j := by
  induction h with
  | stopped => cases hrow
  | @last i bound hlast =>
    rw [List.flatten_singleton] at hrow
    exact ⟨i, le_refl i, Nat.lt_succ_self i, (mem_items hrow).1⟩
  | @more i bound k pages finished hnext hrest ih =>
    rw [List.flatten_cons, List.mem_append] at hrow
    obtain hfirst | hlater := hrow
    · exact ⟨i, le_refl i, Nat.lt_add_of_pos_right (Nat.succ_pos _), (mem_items hfirst).1⟩
    · obtain ⟨j, hij, hjn, hmem⟩ := ih hlater
      refine ⟨j, by omega, ?_, hmem⟩
      rw [List.length_cons]
      omega

/-- **Order.** The rows of a walk lie behind its boundary. -/
theorem Walk.lt (h : Walk key n rows i bound pages finished) :
    ∀ row ∈ pages.flatten, Behind (key row) bound := by
  induction h with
  | stopped => exact fun row hrow => nomatch hrow
  | @last i bound hlast =>
    intro row hrow
    rw [List.flatten_singleton] at hrow
    exact (mem_items hrow).2
  | @more i bound k pages finished hnext hrest ih =>
    intro row hrow
    rw [List.flatten_cons, List.mem_append] at hrow
    obtain hfirst | hlater := hrow
    · exact (mem_items hfirst).2
    · exact fun b hb => (ih row hlater k rfl).trans (next?_lt hnext b hb)

/-- **Order.** The keys of a walk decrease strictly, from page to page as well. -/
theorem Walk.pairwise (hrows : ∀ j, ((rows j).map key).Nodup)
    (h : Walk key n rows i bound pages finished) :
    pages.flatten.Pairwise fun a b => key b < key a := by
  have hpage : ∀ i bound, (items key n bound (rows i)).Pairwise fun a b => key b < key a :=
    fun i bound => (pairwise_rowsAfter (hrows i)).sublist (List.take_sublist _ _)
  induction h with
  | stopped => exact List.Pairwise.nil
  | @last i bound hlast =>
    rw [List.flatten_singleton]
    exact hpage i bound
  | @more i bound k pages finished hnext hrest ih =>
    rw [List.flatten_cons, List.pairwise_append]
    refine ⟨hpage i bound, ih, fun a ha b hb => ?_⟩
    calc key b < k := hrest.lt b hb k rfl
      _ ≤ key a := le_of_mem_items (hrows i) hnext ha

/-- **Completeness.** A row that is in the list at every page of a finished walk is on one. -/
theorem Walk.complete (hn : 0 < n) (hrows : ∀ j, ((rows j).map key).Nodup)
    (h : Walk key n rows i bound pages finished) (hfinished : finished = true) {row : α}
    (hthere : ∀ j, i ≤ j → j < i + pages.length → row ∈ rows j)
    (hbehind : Behind (key row) bound) : row ∈ pages.flatten := by
  induction h with
  | stopped => cases hfinished
  | @last i bound hlast =>
    rw [List.flatten_singleton, items_eq_rowsAfter hn hlast]
    exact mem_rowsAfter.mpr ⟨hthere i (le_refl i) (Nat.lt_succ_self i), hbehind⟩
  | @more i bound k pages finished hnext hrest ih =>
    rw [List.length_cons] at hthere
    have hself := mem_rowsAfter.mpr ⟨hthere i (le_refl i) (by omega), hbehind⟩
    rw [List.flatten_cons, List.mem_append]
    by_cases hfirst : row ∈ items key n bound (rows i)
    · exact .inl hfirst
    · refine .inr (ih hfinished (fun j hij hjn => hthere j (by omega) (by omega)) ?_)
      rintro b hb
      rw [← Option.some.inj hb]
      exact behind_of_notMem (hrows i) hnext hself hfirst

end Keyset
