import Mathlib.Data.List.DropRight
import Mathlib.Data.List.Forall2
import Mathlib.Data.List.Nodup

/-!
# Lists

Removing duplicates leaves none, neighbouring parts make one part, the longest suffix that satisfies
a test ends where an element fails it, and association lists with distinct keys are looked up by
membership.
-/

namespace List

universe u

variable {α : Type u}

theorem nodup_eraseDups [BEq α] [LawfulBEq α] : ∀ l : List α, l.eraseDups.Nodup
  | [] => by simp
  | a :: l => by
    rw [eraseDups_cons, nodup_cons]
    refine ⟨fun hmem => ?_, nodup_eraseDups _⟩
    have hne := (mem_filter.mp (mem_eraseDups.mp hmem)).2
    simp at hne
termination_by l => l.length
decreasing_by
  have := length_filter_le (fun b => !b == a) l
  simp only [length_cons]
  omega

/-- The longest suffix: what stands before it ends with an element that fails the test. -/
theorem not_of_mem_getLast?_rdropWhile {p : α → Bool} {l : List α} {a : α}
    (h : a ∈ (l.rdropWhile p).getLast?) : p a = false := by
  have hne : l.rdropWhile p ≠ [] := by
    intro hnil
    rw [hnil] at h
    cases h
  rw [getLast?_eq_getLast_of_ne_nil hne, Option.mem_some] at h
  have hlast := rdropWhile_last_not p l hne
  rw [h] at hlast
  simpa using hlast

/-- What stands before an element outside a suffix is outside the suffix. -/
theorem notMem_of_before {older full before after : List α} {mid a : α}
    (hnodup : (older ++ full).Nodup) (h : older ++ full = before ++ mid :: after)
    (hmid : mid ∉ full) (ha : a ∈ before) : a ∉ full := by
  intro hfull
  rcases append_eq_append_iff.mp h with ⟨middle, rfl, hrest⟩ | ⟨middle, rfl, hrest⟩
  · refine hmid ?_
    rw [hrest]
    exact mem_append_right _ mem_cons_self
  · exact (nodup_append.mp hnodup).2.2 a (mem_append_left _ ha) a hfull rfl

/-- What a map makes of nothing can be filtered out before. -/
theorem flatMap_filter_of_eq_nil {β : Type*} {l : List α} {p : α → Bool} {f : α → List β}
    (h : ∀ a ∈ l, p a = false → f a = []) : (l.filter p).flatMap f = l.flatMap f := by
  induction l with
  | nil => rfl
  | cons a l ih =>
    have hrest := ih fun b hb => h b (mem_cons_of_mem _ hb)
    rw [flatMap_cons]
    cases hp : p a with
    | true => rw [filter_cons_of_pos hp, flatMap_cons, hrest]
    | false =>
      rw [filter_cons_of_neg (by rw [hp]; exact Bool.false_ne_true), hrest, h a mem_cons_self hp,
        nil_append]

/-- The first occurrence of a separator cuts a list in one way. -/
theorem append_cons_inj_left {l l' r r' : List α} {sep : α} (hl : sep ∉ l) (hl' : sep ∉ l')
    (h : l ++ sep :: r = l' ++ sep :: r') : l = l' ∧ r = r' := by
  induction l generalizing l' with
  | nil =>
    cases l' with
    | nil => exact ⟨rfl, (cons.inj h).2⟩
    | cons => exact absurd ((cons.inj h).1 ▸ mem_cons_self) hl'
  | cons b l ih =>
    cases l' with
    | nil => exact absurd ((cons.inj h).1 ▸ mem_cons_self) hl
    | cons =>
      obtain ⟨hfirst, hrest⟩ := cons.inj h
      obtain ⟨rfl, rfl⟩ :=
        ih (fun hin => hl (mem_cons_of_mem _ hin)) (fun hin => hl' (mem_cons_of_mem _ hin)) hrest
      exact ⟨by rw [hfirst], rfl⟩

/-- In an association list with distinct keys, a key is looked up to the value it stands with. -/
theorem lookup_eq_some_iff_mem {κ : Type*} [BEq κ] [LawfulBEq κ] {l : List (κ × α)}
    (h : (l.map Prod.fst).Nodup) {k : κ} {a : α} : l.lookup k = some a ↔ (k, a) ∈ l := by
  induction l with
  | nil => simp
  | cons entry l ih =>
    obtain ⟨key, value⟩ := entry
    obtain ⟨hfresh, hnodup⟩ := nodup_cons.mp h
    rw [lookup_cons, mem_cons]
    by_cases hk : k = key
    · subst hk
      have hnot : (k, a) ∉ l := fun hmem => hfresh (mem_map.mpr ⟨_, hmem, rfl⟩)
      simp [hnot, eq_comm]
    · have hbeq : (k == key) = false := by simpa using hk
      rw [hbeq, ih hnodup]
      simp [hk]

/-- A key that is not bound is not looked up. -/
theorem lookup_eq_none_iff_notMem {κ : Type*} [BEq κ] [LawfulBEq κ] {l : List (κ × α)} {k : κ} :
    l.lookup k = none ↔ k ∉ l.map Prod.fst := by
  rw [lookup_eq_none_iff, mem_map, not_exists]
  refine forall_congr' fun entry => ?_
  rw [bne_iff_ne, not_and, ne_comm]

/-- Updating one key of an association list. -/
theorem lookup_map_update {κ : Type*} [DecidableEq κ] (l : List (κ × α)) (key other : κ)
    (f : α → α) :
    (l.map fun entry => if entry.1 = key then (key, f entry.2) else entry).lookup other =
      if other = key then (l.lookup key).map f else l.lookup other := by
  induction l with
  | nil => simp
  | cons entry l ih =>
    obtain ⟨k, value⟩ := entry
    rw [map_cons]
    by_cases hk : k = key
    · subst hk
      rw [if_pos rfl]
      by_cases hother : other = k
      · rw [if_pos hother, hother, lookup_cons_self, lookup_cons_self, Option.map_some]
      · have hbeq : (other == k) = false := by simpa using hother
        rw [if_neg hother, lookup_cons, hbeq, ih, if_neg hother, lookup_cons, hbeq]
    · rw [if_neg hk]
      by_cases hself : other = k
      · have hother : other ≠ key := fun h => hk (hself.symm.trans h)
        rw [if_neg hother, hself, lookup_cons_self, lookup_cons_self]
      · have hbeq : (other == k) = false := by simpa using hself
        have hkey : (key == k) = false := by simpa using Ne.symm hk
        rw [lookup_cons, hbeq, ih, lookup_cons, hkey, lookup_cons, hbeq]

/-- Every element on the right of a pairing has its partner. -/
theorem Forall₂.exists_left {β : Type*} {R : α → β → Prop} {as : List α} {bs : List β}
    (h : Forall₂ R as bs) {b : β} (hb : b ∈ bs) : ∃ a ∈ as, R a b := by
  induction h with
  | nil => cases hb
  | cons hfirst _ ih =>
    rcases mem_cons.mp hb with rfl | hb
    · exact ⟨_, mem_cons_self, hfirst⟩
    · obtain ⟨a, ha, hR⟩ := ih hb
      exact ⟨a, mem_cons_of_mem _ ha, hR⟩

/-- A list is cut where a test begins to hold, when it goes on to hold behind that. -/
theorem filter_not_append_filter {p : α → Bool} {l : List α}
    (h : l.Pairwise fun a b => p a = true → p b = true) :
    (l.filter fun a => !p a) ++ l.filter p = l := by
  induction l with
  | nil => rfl
  | cons a l ih =>
    obtain ⟨hfirst, hrest⟩ := pairwise_cons.mp h
    by_cases ha : p a = true
    · have hall : ∀ b ∈ l, p b = true := fun b hb => hfirst b hb ha
      have hnone : (l.filter fun b => !p b) = [] := by
        rw [filter_eq_nil_iff]
        intro b hb
        simp [hall b hb]
      rw [filter_cons_of_neg (by simp [ha]), hnone, nil_append, filter_cons_of_pos ha,
        filter_eq_self.mpr hall]
    · rw [filter_cons_of_pos (by simpa using ha), filter_cons_of_neg ha, cons_append, ih hrest]

/-- Two elements of a sorted list that have none between them are neighbours. -/
theorem exists_neighbours {key : α → ℕ} {l : List α} {a b : α}
    (hsorted : l.Pairwise fun x y => key x < key y) (ha : a ∈ l) (hb : b ∈ l) (hlt : key a < key b)
    (hbetween : ∀ x ∈ l, key x ≤ key a ∨ key b ≤ key x) :
    ∃ before after, l = before ++ a :: b :: after := by
  obtain ⟨before, rest, rfl⟩ := mem_iff_append.mp ha
  obtain ⟨-, htail, hbefore⟩ := pairwise_append.mp hsorted
  obtain ⟨hafter, hrest⟩ := pairwise_cons.mp htail
  have hin : b ∈ rest := by
    rcases mem_append.mp hb with hold | hnew
    · have hgt := hbefore b hold a mem_cons_self
      omega
    · rcases mem_cons.mp hnew with rfl | hin
      · omega
      · exact hin
  cases rest with
  | nil => cases hin
  | cons x after =>
    have hgt := hafter x mem_cons_self
    rcases mem_cons.mp hin with rfl | hlater
    · exact ⟨before, after, rfl⟩
    · -- the next element would be between the two
      have hless := (pairwise_cons.mp hrest).1 b hlater
      rcases hbetween x (mem_append_right _ (mem_cons_of_mem _ mem_cons_self)) with hle | hle
      · omega
      · omega

/-- A sum over the elements with the key of `a`, where the keys are distinct, is the summand of
`a`. -/
theorem flatMap_ite_key_eq {β κ : Type*} [DecidableEq κ] {key : α → κ} {l : List α} {a : α}
    (hnodup : (l.map key).Nodup) (ha : a ∈ l) (f : α → List β) :
    l.flatMap (fun b => if key b = key a then f b else []) = f a := by
  induction l with
  | nil => cases ha
  | cons c l ih =>
    obtain ⟨hfresh, hnodup⟩ := nodup_cons.mp hnodup
    rw [flatMap_cons]
    rcases mem_cons.mp ha with rfl | ha
    · have hrest : l.flatMap (fun b => if key b = key a then f b else []) = [] := by
        refine flatMap_eq_nil_iff.mpr fun b hb => if_neg fun h => hfresh ?_
        rw [← h]
        exact mem_map_of_mem hb
      rw [if_pos rfl, hrest, append_nil]
    · have hne : key c ≠ key a := by
        intro h
        refine hfresh ?_
        rw [h]
        exact mem_map_of_mem ha
      rw [if_neg hne, nil_append, ih hnodup ha]

/-- A part of a list and what follows it. -/
theorem drop_take_append_drop_of_le {a b : ℕ} (h : a ≤ b) (l : List α) :
    (l.take b).drop a ++ l.drop b = l.drop a := by
  have hcut : l.drop a = (l.take b).drop a ++ (l.drop b).drop (a - (l.take b).length) := by
    rw [← drop_append, take_append_drop]
  rw [hcut]
  rcases Nat.le_total b l.length with hle | hle
  · rw [length_take, Nat.min_eq_left hle, Nat.sub_eq_zero_of_le h, drop_zero]
  · rw [drop_eq_nil_of_le hle, drop_nil]

/-- Two neighbouring parts of a list are one part. -/
theorem drop_take_append_drop_take {a b c : ℕ} (hab : a ≤ b) (hbc : b ≤ c) (l : List α) :
    (l.take b).drop a ++ (l.take c).drop b = (l.take c).drop a := by
  have htake : l.take b = (l.take c).take b := by rw [take_take, Nat.min_eq_left hbc]
  rw [htake]
  exact drop_take_append_drop_of_le hab (l.take c)

/-- Two relations in a row. -/
theorem Forall₂.comp {β γ : Type*} {R : α → β → Prop} {S : β → γ → Prop} {T : α → γ → Prop}
    {as : List α} {bs : List β} {cs : List γ} (h : Forall₂ R as bs)
    (hcomp : ∀ a b c, R a b → S b c → T a c) (h' : Forall₂ S bs cs) : Forall₂ T as cs := by
  induction h generalizing cs with
  | nil =>
    cases h'
    exact .nil
  | cons hab _ ih =>
    cases h' with
    | cons hbc hrest => exact .cons (hcomp _ _ _ hab hbc) (ih hrest)

/-- Of distinct elements, two tests pick the same exactly if they agree. -/
theorem map_filter_eq_iff {β : Type*} {l : List α} {f : α → β} {p q : α → Bool}
    (h : (l.map f).Nodup) :
    (l.filter p).map f = (l.filter q).map f ↔ ∀ a ∈ l, p a = q a := by
  refine ⟨fun heq a ha => ?_, fun hpq => by rw [filter_congr hpq]⟩
  have hmem : ∀ r : α → Bool, f a ∈ (l.filter r).map f ↔ r a = true := by
    intro r
    rw [mem_map]
    refine ⟨fun ⟨b, hb, hfb⟩ => ?_, fun hr => ⟨a, mem_filter.mpr ⟨ha, hr⟩, rfl⟩⟩
    rw [inj_on_of_nodup_map h ha (mem_of_mem_filter hb) hfb.symm]
    exact (mem_filter.mp hb).2
  rw [Bool.eq_iff_iff, ← hmem p, ← hmem q, heq]

/-- What replacing one element changes in a count. -/
theorem countP_set_add {p : α → Bool} {l : List α} {i : ℕ} {a : α} (h : l[i]? = some a) (b : α) :
    (l.set i b).countP p + (if p a then 1 else 0) = l.countP p + (if p b then 1 else 0) := by
  induction l generalizing i with
  | nil => cases h
  | cons c l ih =>
    cases i with
    | zero =>
      cases h
      simp only [List.set_cons_zero, List.countP_cons]
      omega
    | succ =>
      have hrest := ih h
      simp only [List.set_cons_succ, List.countP_cons]
      omega

end List
