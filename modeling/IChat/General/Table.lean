import Mathlib.Algebra.BigOperators.Group.List.Basic
import Mathlib.Algebra.Order.BigOperators.Group.List
import Mathlib.Algebra.Order.Group.Int
import Mathlib.Algebra.Ring.Int.Defs
import Mathlib.Data.List.Nodup

/-!
# Tables with a numbered primary key

A `Table` holds rows that know their own key; keys are distinct and below the next one the table
will assign, so an inserted row never meets an old one, and a key of a deleted row is not used
again. `set` writes a row back under its key.

Three views of a table suffice for what follows. Membership says which rows there are (`mem_set`,
`mem_insert`, `mem_erase`), `get?` looks a row up by its key, and `sum` adds up a weight over all
rows, with one equation for each operation.
-/

universe u

/-- Rows with distinct keys, all below the next key. -/
structure Table (α : Type u) (key : α → ℕ) where
  rows : List α
  next : ℕ
  nodup : (rows.map key).Nodup
  lt_next : ∀ a ∈ rows, key a < next

namespace Table

variable {α : Type u} {key : α → ℕ}

instance : Membership α (Table α key) := ⟨fun t a => a ∈ t.rows⟩

theorem mem_iff {t : Table α key} {a : α} : a ∈ t ↔ a ∈ t.rows := Iff.rfl

instance (t : Table α key) (p : α → Prop) [DecidablePred p] : Decidable (∃ a ∈ t, p a) :=
  inferInstanceAs (Decidable (∃ a ∈ t.rows, p a))

instance (t : Table α key) (p : α → Prop) [DecidablePred p] : Decidable (∀ a ∈ t, p a) :=
  inferInstanceAs (Decidable (∀ a ∈ t.rows, p a))

/-- No rows. -/
def empty : Table α key := ⟨[], 0, List.nodup_nil, fun a ha => by cases ha⟩

/-- The row with a given key. -/
def get? (t : Table α key) (k : ℕ) : Option α := t.rows.find? fun a => key a = k

/-- Write a row back under its key. -/
def set (t : Table α key) (a : α) : Table α key where
  rows := t.rows.map fun b => if key b = key a then a else b
  next := t.next
  nodup := by
    have hkeys : (t.rows.map fun b => if key b = key a then a else b).map key = t.rows.map key := by
      rw [List.map_map]
      refine List.map_congr_left fun b _ => ?_
      by_cases h : key b = key a <;> simp [h]
    rw [hkeys]
    exact t.nodup
  lt_next := by
    intro b hb
    obtain ⟨c, hc, rfl⟩ := List.mem_map.mp hb
    have hlt := t.lt_next c hc
    by_cases h : key c = key a
    · rw [if_pos h, ← h]
      exact hlt
    · rw [if_neg h]
      exact hlt

/-- Add a row under the next key. -/
def insert (t : Table α key) (mk : ℕ → α) (hmk : ∀ n, key (mk n) = n) : Table α key where
  rows := t.rows ++ [mk t.next]
  next := t.next + 1
  nodup := by
    rw [List.map_append, List.map_singleton, hmk]
    refine List.nodup_append'.mpr ⟨t.nodup, List.nodup_singleton _, ?_⟩
    intro k hk hk'
    obtain ⟨a, ha, rfl⟩ := List.mem_map.mp hk
    have hlt := t.lt_next a ha
    have heq := List.mem_singleton.mp hk'
    omega
  lt_next := by
    intro a ha
    rcases List.mem_append.mp ha with hold | hnew
    · have hlt := t.lt_next a hold
      omega
    · rw [List.mem_singleton.mp hnew, hmk]
      omega

/-- Keep the rows that satisfy a test. -/
def filter (t : Table α key) (p : α → Bool) : Table α key where
  rows := t.rows.filter p
  next := t.next
  nodup := t.nodup.sublist (List.filter_sublist.map key)
  lt_next a ha := t.lt_next a (List.mem_filter.mp ha).1

/-- Delete the row with a given key. -/
def erase (t : Table α key) (k : ℕ) : Table α key := t.filter fun a => key a ≠ k

/-- Rewrite every row, under its own key. -/
def map (t : Table α key) (f : α → α) (hf : ∀ a, key (f a) = key a) : Table α key where
  rows := t.rows.map f
  next := t.next
  nodup := by
    rw [List.map_map, show key ∘ f = key from funext hf]
    exact t.nodup
  lt_next := by
    intro b hb
    obtain ⟨a, ha, rfl⟩ := List.mem_map.mp hb
    rw [hf]
    exact t.lt_next a ha

/-- The sum of a weight over the rows. -/
def sum (t : Table α key) (w : α → ℤ) : ℤ := (t.rows.map w).sum

variable {t : Table α key} {a b : α} {k : ℕ} {mk : ℕ → α} {hmk : ∀ n, key (mk n) = n}

/-! ### Rows -/

theorem eq_of_key_eq (ha : a ∈ t) (hb : b ∈ t) (h : key a = key b) : a = b :=
  List.inj_on_of_nodup_map t.nodup ha hb h

theorem get?_eq_some_iff : t.get? k = some a ↔ a ∈ t ∧ key a = k := by
  constructor
  · intro h
    exact ⟨List.mem_of_find?_eq_some h, by simpa using List.find?_some h⟩
  · rintro ⟨ha, rfl⟩
    cases h : t.get? (key a) with
    | none =>
      have hne := List.find?_eq_none.mp h a ha
      simp at hne
    | some b =>
      have hb : b ∈ t := List.mem_of_find?_eq_some h
      have hkey : key b = key a := by simpa using List.find?_some h
      rw [eq_of_key_eq hb ha hkey]

theorem get?_eq_none_iff : t.get? k = none ↔ ∀ a ∈ t, key a ≠ k := by
  simp [get?, mem_iff]

@[simp] theorem not_mem_empty : a ∉ (empty : Table α key) := List.not_mem_nil

theorem mem_set (ha : ∃ b ∈ t, key b = key a) :
    b ∈ t.set a ↔ b = a ∨ b ∈ t ∧ key b ≠ key a := by
  rw [mem_iff, set, List.mem_map]
  constructor
  · rintro ⟨c, hc, rfl⟩
    by_cases h : key c = key a
    · exact .inl (if_pos h)
    · rw [if_neg h]
      exact .inr ⟨hc, h⟩
  · rintro (rfl | ⟨hb, hne⟩)
    · obtain ⟨c, hc, hkey⟩ := ha
      exact ⟨c, hc, if_pos hkey⟩
    · exact ⟨b, hb, if_neg hne⟩

theorem mem_insert : b ∈ t.insert mk hmk ↔ b ∈ t ∨ b = mk t.next := by
  rw [mem_iff, insert, List.mem_append, List.mem_singleton, mem_iff]

theorem mem_filter {p : α → Bool} : b ∈ t.filter p ↔ b ∈ t ∧ p b = true := List.mem_filter

/-- Every row of a table is there after a write, if it is not the one written. -/
theorem mem_set_of_ne (hb : b ∈ t) (hne : key b ≠ key a) : b ∈ t.set a := by
  rw [mem_iff, set, List.mem_map]
  exact ⟨b, hb, if_neg hne⟩

/-- A row after a write is the one written or was there before. -/
theorem of_mem_set (hb : b ∈ t.set a) : b = a ∨ b ∈ t ∧ key b ≠ key a := by
  obtain ⟨c, hc, rfl⟩ := List.mem_map.mp hb
  by_cases h : key c = key a
  · exact .inl (if_pos h)
  · rw [if_neg h]
    exact .inr ⟨hc, h⟩

/-- What holds of every row and of the one written holds of every row after the write. -/
theorem forall_mem_set {P : α → Prop} (h : ∀ b ∈ t, P b) (ha : P a) : ∀ b ∈ t.set a, P b := by
  intro b hb
  rcases of_mem_set hb with rfl | ⟨hb, -⟩
  · exact ha
  · exact h b hb

theorem forall_mem_insert {P : α → Prop} (h : ∀ b ∈ t, P b) (hnew : P (mk t.next)) :
    ∀ b ∈ t.insert mk hmk, P b := by
  intro b hb
  rcases mem_insert.mp hb with hb | rfl
  · exact h b hb
  · exact hnew

theorem mem_map {f : α → α} {hf : ∀ a, key (f a) = key a} : b ∈ t.map f hf ↔ ∃ a ∈ t, f a = b :=
  List.mem_map

/-! ### Lookups -/

theorem key_of_get? (h : t.get? k = some a) : key a = k := (get?_eq_some_iff.mp h).2

theorem mem_of_get? (h : t.get? k = some a) : a ∈ t := (get?_eq_some_iff.mp h).1

/-- Every row is found under its key. -/
theorem get?_key (h : a ∈ t) : t.get? (key a) = some a := get?_eq_some_iff.mpr ⟨h, rfl⟩

/-- Two tables have the same row under a key when they have the same rows with it. -/
private theorem get?_eq_of_mem_iff {t' : Table α key} {o : Option α}
    (h : ∀ a, (a ∈ t' ∧ key a = k) ↔ o = some a) : t'.get? k = o := by
  refine Option.ext fun a => ?_
  rw [get?_eq_some_iff, h]

theorem get?_set (ha : ∃ b ∈ t, key b = key a) :
    (t.set a).get? k = if k = key a then some a else t.get? k := by
  refine get?_eq_of_mem_iff fun b => ?_
  rw [mem_set ha]
  by_cases hk : k = key a
  · subst hk
    rw [if_pos rfl, Option.some.injEq]
    constructor
    · rintro ⟨rfl | ⟨-, hne⟩, hkey⟩
      · rfl
      · exact absurd hkey hne
    · rintro rfl
      exact ⟨.inl rfl, rfl⟩
  · rw [if_neg hk, get?_eq_some_iff]
    constructor
    · rintro ⟨rfl | ⟨hb, -⟩, hkey⟩
      · exact absurd hkey.symm hk
      · exact ⟨hb, hkey⟩
    · rintro ⟨hb, hkey⟩
      exact ⟨.inr ⟨hb, fun h => hk (hkey.symm.trans h)⟩, hkey⟩

theorem get?_insert :
    (t.insert mk hmk).get? k = if k = t.next then some (mk t.next) else t.get? k := by
  refine get?_eq_of_mem_iff fun b => ?_
  rw [mem_insert]
  by_cases hk : k = t.next
  · rw [if_pos hk, Option.some.injEq]
    constructor
    · rintro ⟨hb | rfl, hkey⟩
      · have hlt := t.lt_next b hb
        omega
      · rfl
    · rintro rfl
      exact ⟨.inr rfl, (hmk _).trans hk.symm⟩
  · rw [if_neg hk, get?_eq_some_iff]
    constructor
    · rintro ⟨hb | rfl, hkey⟩
      · exact ⟨hb, hkey⟩
      · exact absurd (hkey.symm.trans (hmk _)) hk
    · rintro ⟨hb, hkey⟩
      exact ⟨.inl hb, hkey⟩

theorem get?_map {f : α → α} {hf : ∀ a, key (f a) = key a} :
    (t.map f hf).get? k = (t.get? k).map f := by
  refine get?_eq_of_mem_iff fun b => ?_
  rw [mem_map, Option.map_eq_some_iff]
  constructor
  · rintro ⟨⟨a, ha, rfl⟩, hkey⟩
    exact ⟨a, get?_eq_some_iff.mpr ⟨ha, (hf a).symm.trans hkey⟩, rfl⟩
  · rintro ⟨a, ha, rfl⟩
    exact ⟨⟨a, mem_of_get? ha, rfl⟩, (hf a).trans (key_of_get? ha)⟩

theorem get?_filter {p : α → Bool} : (t.filter p).get? k = (t.get? k).filter p := by
  refine get?_eq_of_mem_iff fun b => ?_
  rw [mem_filter, Option.filter_eq_some_iff, get?_eq_some_iff]
  tauto

theorem get?_erase {l : ℕ} : (t.erase k).get? l = if l = k then none else t.get? l := by
  rw [erase, get?_filter]
  cases hget : t.get? l with
  | none => simp
  | some a =>
    have hkey : key a = l := key_of_get? hget
    by_cases h : l = k <;> simp [Option.filter, hkey, h]

/-- A key that is not handed out yet has no row. -/
theorem get?_of_next_le (h : t.next ≤ k) : t.get? k = none := by
  refine get?_eq_none_iff.mpr fun a ha hkey => ?_
  have hlt := t.lt_next a ha
  omega

@[simp] theorem next_map {f : α → α} {hf : ∀ a, key (f a) = key a} : (t.map f hf).next = t.next :=
  rfl

@[simp] theorem next_set : (t.set a).next = t.next := rfl

@[simp] theorem next_insert : (t.insert mk hmk).next = t.next + 1 := rfl

@[simp] theorem next_filter {p : α → Bool} : (t.filter p).next = t.next := rfl

@[simp] theorem next_erase : (t.erase k).next = t.next := rfl

/-! ### Sums -/

variable {w w' : α → ℤ}

@[simp] theorem sum_empty : (empty : Table α key).sum w = 0 := rfl

theorem sum_insert : (t.insert mk hmk).sum w = t.sum w + w (mk t.next) := by
  simp [sum, insert]

theorem sum_map {f : α → α} {hf : ∀ a, key (f a) = key a} :
    (t.map f hf).sum w = t.sum fun a => w (f a) := by
  simp [sum, map, Function.comp_def]

private theorem sum_map_set {rows : List α} (hnodup : (rows.map key).Nodup) (hb : b ∈ rows)
    (hkey : key b = key a) :
    ((rows.map fun c => if key c = key a then a else c).map w).sum =
      (rows.map w).sum + (w a - w b) := by
  induction rows with
  | nil => cases hb
  | cons c rows ih =>
    obtain ⟨hfresh, hnodup⟩ := List.nodup_cons.mp hnodup
    rcases List.mem_cons.mp hb with rfl | hb
    · -- no other row has this key
      have hrest : (rows.map fun d => if key d = key a then a else d) = rows := by
        refine (List.map_congr_left fun d hd => ?_).trans (List.map_id rows)
        refine if_neg fun h => hfresh ?_
        rw [hkey, ← h]
        exact List.mem_map_of_mem hd
      rw [List.map_cons, if_pos hkey, hrest]
      simp only [List.map_cons, List.sum_cons]
      omega
    · have hne : key c ≠ key a := by
        intro h
        refine hfresh ?_
        rw [h, ← hkey]
        exact List.mem_map_of_mem hb
      rw [List.map_cons, if_neg hne]
      simp only [List.map_cons, List.sum_cons, ih hnodup hb]
      omega

/-- A write changes a sum by the difference of the weights. -/
theorem sum_set (hb : b ∈ t) (hkey : key b = key a) :
    (t.set a).sum w = t.sum w + (w a - w b) :=
  sum_map_set t.nodup hb hkey

private theorem sum_map_filter {rows : List α} (h : ∀ a ∈ rows, key a = k → w a = 0) :
    ((rows.filter fun a => key a ≠ k).map w).sum = (rows.map w).sum := by
  induction rows with
  | nil => rfl
  | cons a rows ih =>
    have htail := ih fun b hb => h b (List.mem_cons_of_mem _ hb)
    by_cases hkey : key a = k
    · rw [List.filter_cons_of_neg (by simpa using hkey), htail, List.map_cons, List.sum_cons,
        h a List.mem_cons_self hkey, zero_add]
    · rw [List.filter_cons_of_pos (by simpa using hkey), List.map_cons, List.map_cons,
        List.sum_cons, List.sum_cons, htail]

/-- A row without weight can be deleted. -/
theorem sum_erase (h : ∀ a ∈ t, key a = k → w a = 0) : (t.erase k).sum w = t.sum w :=
  sum_map_filter h

/-- The sum over some of the rows. -/
theorem sum_filter {p : α → Bool} :
    (t.filter p).sum w = t.sum fun a => if p a then w a else 0 := by
  rw [sum, sum, filter]
  dsimp only
  induction t.rows with
  | nil => rfl
  | cons a rows ih =>
    by_cases h : p a = true
    · rw [List.filter_cons_of_pos h, List.map_cons, List.map_cons, List.sum_cons, List.sum_cons, ih,
        if_pos h]
    · rw [List.filter_cons_of_neg h, List.map_cons, List.sum_cons, ih, if_neg h, zero_add]

theorem sum_add : (t.sum fun a => w a + w' a) = t.sum w + t.sum w' := by
  rw [sum, sum, sum]
  induction t.rows with
  | nil => rfl
  | cons a rows ih =>
    rw [List.map_cons, List.map_cons, List.map_cons, List.sum_cons, List.sum_cons,
      List.sum_cons, ih]
    omega

theorem sum_congr (h : ∀ a ∈ t, w a = w' a) : t.sum w = t.sum w' := by
  unfold sum
  rw [List.map_congr_left h]

theorem sum_eq_zero (h : ∀ a ∈ t, w a = 0) : t.sum w = 0 := by
  refine List.sum_eq_zero fun x hx => ?_
  obtain ⟨a, ha, rfl⟩ := List.mem_map.mp hx
  exact h a ha

theorem sum_le_sum (h : ∀ a ∈ t, w a ≤ w' a) : t.sum w ≤ t.sum w' :=
  List.sum_le_sum h

theorem sum_nonneg (h : ∀ a ∈ t, 0 ≤ w a) : 0 ≤ t.sum w := by
  refine List.sum_nonneg fun x hx => ?_
  obtain ⟨a, ha, rfl⟩ := List.mem_map.mp hx
  exact h a ha

/-- One row contributes at most the whole sum. -/
theorem le_sum (h : ∀ a ∈ t, 0 ≤ w a) (ha : a ∈ t) : w a ≤ t.sum w := by
  refine List.single_le_sum (fun x hx => ?_) _ (List.mem_map_of_mem ha)
  obtain ⟨b, hb, rfl⟩ := List.mem_map.mp hx
  exact h b hb

/-- A weight that is nowhere larger has the same sum exactly if it is the same everywhere. -/
theorem sum_eq_sum_iff (h : ∀ a ∈ t, w a ≤ w' a) : t.sum w = t.sum w' ↔ ∀ a ∈ t, w a = w' a := by
  refine ⟨fun heq a ha => ?_, sum_congr⟩
  have hsplit : t.sum w' = t.sum w + t.sum fun b => w' b - w b := by
    rw [← sum_add]
    refine sum_congr fun b _ => ?_
    omega
  have hle := le_sum (fun b hb => Int.sub_nonneg_of_le (h b hb)) ha
  have hself := h a ha
  omega

/-- The sums of two tables agree when their rows agree under every key. -/
theorem sum_eq_of_get? {t' : Table α key} {γ : Type*} {c : α → γ} {v : γ → ℤ}
    (h : ∀ k, (t'.get? k).map c = (t.get? k).map c) :
    (t'.sum fun a => v (c a)) = t.sum fun a => v (c a) := by
  have hmem {s : Table α key} {p : ℕ × γ} :
      p ∈ s.rows.map (fun a => (key a, c a)) ↔ (s.get? p.1).map c = some p.2 := by
    rw [List.mem_map, Option.map_eq_some_iff]
    constructor
    · rintro ⟨a, ha, rfl⟩
      exact ⟨a, get?_key ha, rfl⟩
    · rintro ⟨a, hget, hc⟩
      obtain ⟨ha, hkey⟩ := get?_eq_some_iff.mp hget
      exact ⟨a, ha, Prod.ext hkey hc⟩
  have hnodup (s : Table α key) : (s.rows.map fun a => (key a, c a)).Nodup := by
    refine List.Nodup.of_map Prod.fst ?_
    rw [List.map_map]
    exact s.nodup
  have hperm : (t'.rows.map fun a => (key a, c a)).Perm (t.rows.map fun a => (key a, c a)) :=
    (List.perm_ext_iff_of_nodup (hnodup t') (hnodup t)).mpr fun p => by rw [hmem, hmem, h]
  have hsum := (hperm.map fun p => v p.2).sum_eq
  rw [List.map_map, List.map_map] at hsum
  exact hsum

/-- Rows that are written back with the same weight leave the sum as it is. -/
theorem sum_foldl_set {f : α → α} (hf : ∀ a, key (f a) = key a) {l : List α}
    (hnodup : (l.map key).Nodup) (hrows : ∀ a ∈ l, a ∈ t) (hw : ∀ a ∈ l, w (f a) = w a) :
    (l.foldl (fun t a => t.set (f a)) t).sum w = t.sum w := by
  induction l generalizing t with
  | nil => rfl
  | cons a l ih =>
    obtain ⟨hfresh, hnodup⟩ := List.nodup_cons.mp hnodup
    have hrest : ∀ b ∈ l, b ∈ t.set (f a) := fun b hb => by
      refine mem_set_of_ne (hrows b (List.mem_cons_of_mem _ hb)) ?_
      rw [hf]
      exact fun heq => hfresh (heq ▸ List.mem_map_of_mem hb)
    rw [List.foldl_cons, ih hnodup hrest fun b hb => hw b (List.mem_cons_of_mem _ hb),
      sum_set (hrows a List.mem_cons_self) (hf a).symm, hw a List.mem_cons_self, sub_self, add_zero]

end Table
