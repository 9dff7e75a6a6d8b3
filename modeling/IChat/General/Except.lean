import Mathlib.Data.List.Basic
import Mathlib.Data.List.Forall2

/-!
# Computations that may fail

Inversion rules for `Except`: a `do` block succeeds exactly when its parts do, and what every step
of a monadic fold preserves is preserved by the fold.
-/

universe u v w

variable {ε : Type u} {α β σ : Type v}

theorem ok_bind {ε : Type*} {α β : Type} (a : α) (f : α → Except ε β) :
    (Except.ok a >>= f) = f a := rfl

theorem bind_eq_ok_iff {ε : Type*} {α β : Type} {x : Except ε α} {f : α → Except ε β} {b : β} :
    (x >>= f) = .ok b ↔ ∃ a, x = .ok a ∧ f a = .ok b := by
  cases x <;> simp [bind, Except.bind]

theorem map_eq_ok_iff {ε : Type*} {α β : Type*} {x : Except ε α} {f : α → β} {b : β} :
    x.map f = .ok b ↔ ∃ a, x = .ok a ∧ f a = b := by
  cases x <;> simp [Except.map]

/-- A guard that raises lets only the other branch succeed. -/
theorem ite_error_eq_ok_iff {ε : Type*} {α : Type*} {p : Prop} [Decidable p] {e : ε}
    {x : Except ε α} {a : α} : (if p then .error e else x) = .ok a ↔ ¬p ∧ x = .ok a := by
  by_cases hp : p <;> simp [hp]

namespace Except

theorem toOption_eq_some_iff {x : Except ε α} {a : α} : x.toOption = some a ↔ x = .ok a := by
  cases x <;> simp [Except.toOption]

/-- **Fold rule.** A relation between the items that are left and the state, which every successful
step preserves, holds at the end with no item left. -/
theorem foldlM_induction {f : σ → α → Except ε σ} {P : List α → σ → Prop}
    (hstep : ∀ a as s s', P (a :: as) s → f s a = .ok s' → P as s') {as : List α} {s s' : σ}
    (hs : P as s) (h : as.foldlM f s = .ok s') : P [] s' := by
  induction as generalizing s with
  | nil =>
    cases h
    exact hs
  | cons a as ih =>
    rw [List.foldlM_cons] at h
    cases hfirst : f s a with
    | error =>
      rw [hfirst] at h
      cases h
    | ok m =>
      rw [hfirst] at h
      exact ih (hstep a as s m hs hfirst) h

/-- **Progress rule.** A fold succeeds when every step does that keeps a relation between the items
that are left and the state. -/
theorem foldlM_progress {f : σ → α → Except ε σ} {P : List α → σ → Prop}
    (hstep : ∀ a as s, P (a :: as) s → ∃ s', f s a = .ok s' ∧ P as s') {as : List α} {s : σ}
    (hs : P as s) : ∃ s', as.foldlM f s = .ok s' ∧ P [] s' := by
  induction as generalizing s with
  | nil => exact ⟨s, rfl, hs⟩
  | cons a as ih =>
    obtain ⟨m, hfirst, hm⟩ := hstep a as s hs
    obtain ⟨s', hrest, hs'⟩ := ih hm
    refine ⟨s', ?_, hs'⟩
    rw [List.foldlM_cons, hfirst]
    exact hrest

/-- **Fold rule, without a trace.** What every step preserves, at an item of the list, holds at the
end. -/
theorem foldlM_invariant {f : σ → α → Except ε σ} {P : σ → Prop} {as : List α} {s s' : σ}
    (hstep : ∀ a ∈ as, ∀ s s', P s → f s a = .ok s' → P s') (hs : P s)
    (h : as.foldlM f s = .ok s') : P s' := by
  let Q (left : List α) (s : σ) : Prop := P s ∧ ∀ a ∈ left, a ∈ as
  have hQ : ∀ a left s s', Q (a :: left) s → f s a = .ok s' → Q left s' :=
    fun a left s s' hs hstep' => ⟨hstep a (hs.2 a List.mem_cons_self) s s' hs.1 hstep',
      fun b hb => hs.2 b (List.mem_cons_of_mem _ hb)⟩
  have hinit : Q as s := ⟨hs, fun _ ha => ha⟩
  exact (foldlM_induction hQ hinit h).1

/-- A map succeeds when it does on every item. -/
theorem mapM_eq_ok_map {f : α → Except ε β} {g : α → β} {as : List α}
    (h : ∀ a ∈ as, f a = .ok (g a)) : as.mapM f = .ok (as.map g) := by
  induction as with
  | nil => rfl
  | cons a as ih =>
    rw [List.mapM_cons, h a List.mem_cons_self, ih fun a' ha' => h a' (List.mem_cons_of_mem _ ha')]
    rfl

/-- The results of a map that succeeds are those of the items, in order. -/
theorem forall₂_of_mapM_eq_ok {f : α → Except ε β} {as : List α} {bs : List β}
    (h : as.mapM f = .ok bs) : List.Forall₂ (fun a b => f a = .ok b) as bs := by
  induction as generalizing bs with
  | nil =>
    cases h
    exact .nil
  | cons a as ih =>
    rw [List.mapM_cons] at h
    cases hfirst : f a with
    | error =>
      rw [hfirst] at h
      cases h
    | ok =>
      cases hrest : as.mapM f with
      | error =>
        rw [hfirst, hrest] at h
        cases h
      | ok =>
        rw [hfirst, hrest] at h
        cases h
        exact .cons hfirst (ih hrest)

theorem mapM_eq_ok_iff {f : α → Except ε β} {as : List α} {bs : List β} :
    as.mapM f = .ok bs ↔ List.Forall₂ (fun a b => f a = .ok b) as bs := by
  refine ⟨forall₂_of_mapM_eq_ok, fun h => ?_⟩
  induction h with
  | nil => rfl
  | cons hfirst _ ih =>
    rw [List.mapM_cons, hfirst, ih]
    rfl

/-- A map succeeds when it does on every item. -/
theorem exists_mapM_eq_ok {f : α → Except ε β} {as : List α} (h : ∀ a ∈ as, ∃ b, f a = .ok b) :
    ∃ bs, as.mapM f = .ok bs := by
  induction as with
  | nil => exact ⟨[], rfl⟩
  | cons a as ih =>
    obtain ⟨b, hb⟩ := h a List.mem_cons_self
    obtain ⟨bs, hbs⟩ := ih fun a' ha' => h a' (List.mem_cons_of_mem _ ha')
    rw [mapM_eq_ok_iff] at hbs
    exact ⟨b :: bs, mapM_eq_ok_iff.mpr (.cons hb hbs)⟩

/-- A map succeeds when it does on every item, and its results are then known. -/
theorem mapM_eq_ok_of_forall {f : α → Except ε β} {g : β → α} {bs : List β}
    (h : ∀ b ∈ bs, f (g b) = .ok b) : (bs.map g).mapM f = .ok bs := by
  induction bs with
  | nil => rfl
  | cons b bs ih =>
    rw [List.map_cons, List.mapM_cons, h b List.mem_cons_self,
      ih fun b' hb' => h b' (List.mem_cons_of_mem _ hb')]
    rfl

/-- A map that succeeds gives what is known of the results of its items. -/
theorem eq_map_of_mapM_eq_ok {f : α → Except ε β} {g : α → β} {as : List α} {bs : List β}
    (h : as.mapM f = .ok bs) (hg : ∀ a ∈ as, ∀ b, f a = .ok b → b = g a) : bs = as.map g := by
  induction forall₂_of_mapM_eq_ok h with
  | nil => rfl
  | @cons a b as bs hfirst hrest ih =>
    rw [List.map_cons, ← hg a List.mem_cons_self b hfirst, ← ih (mapM_eq_ok_iff.mpr hrest)
      fun a' ha' => hg a' (List.mem_cons_of_mem _ ha')]

/-- Every item of a map that succeeds has a result. -/
theorem exists_ok_of_mapM_eq_ok {f : α → Except ε β} {as : List α} {bs : List β}
    (h : as.mapM f = .ok bs) : ∀ a ∈ as, ∃ b ∈ bs, f a = .ok b := by
  induction forall₂_of_mapM_eq_ok h with
  | nil => exact nofun
  | @cons a b as bs hfirst hrest ih =>
    intro a' ha'
    rcases List.mem_cons.mp ha' with rfl | ha'
    · exact ⟨b, List.mem_cons_self, hfirst⟩
    · obtain ⟨b', hb', heq⟩ := ih (mapM_eq_ok_iff.mpr hrest) a' ha'
      exact ⟨b', List.mem_cons_of_mem _ hb', heq⟩

/-- Every result of a map that succeeds is the result of an item. -/
theorem exists_of_mapM_eq_ok {f : α → Except ε β} {as : List α} {bs : List β}
    (h : as.mapM f = .ok bs) : ∀ b ∈ bs, ∃ a ∈ as, f a = .ok b := by
  induction forall₂_of_mapM_eq_ok h with
  | nil => exact nofun
  | @cons a b as bs hfirst hrest ih =>
    intro c hc
    rcases List.mem_cons.mp hc with rfl | hc
    · exact ⟨a, List.mem_cons_self, hfirst⟩
    · obtain ⟨a', ha', heq⟩ := ih (mapM_eq_ok_iff.mpr hrest) c hc
      exact ⟨a', List.mem_cons_of_mem _ ha', heq⟩

end Except

/-- The results of a search that finds every item, in order. -/
theorem Option.forall₂_of_mapM_eq_some {f : α → Option β} {as : List α} {bs : List β}
    (h : as.mapM f = some bs) : List.Forall₂ (fun a b => f a = some b) as bs := by
  induction as generalizing bs with
  | nil =>
    cases h
    exact .nil
  | cons a as ih =>
    rw [List.mapM_cons] at h
    obtain ⟨b, hfirst, hrest⟩ := Option.bind_eq_some_iff.mp h
    obtain ⟨rest, hmap, hcons⟩ := Option.bind_eq_some_iff.mp hrest
    cases hcons
    exact .cons hfirst (ih hmap)
