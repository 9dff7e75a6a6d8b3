import Mathlib.Data.List.Basic
import Mathlib.Data.List.Induction
import Mathlib.Logic.Function.Basic

/-!
# Guarded step systems

A system of several parties is given by one partial step function `step : σ → α → Option σ`:
an action is enabled in a state when the step returns a successor. An interleaving is a list of
actions, and `run` executes it, failing at the first action that is not enabled.

The rules proved here are the only inductions over executions that the rest of the development
uses:

* `run_invariant` carries a predicate over states along every execution;
* `run_invariant_along` does the same when the predicate is only preserved by steps that meet a
  condition, and the execution is known to meet it (`Along`); `along_of_invariant` concludes
  something about every step, and `throughout_iff_along` says when a property holds in all states;
* `run_append` and `along_append` cut an execution at any point, and `exists_last_change` at the
  step from which on a predicate holds to the end.

The sessions of the parties are a partial map; `of_update_some` reads one after a step of a party.
-/

namespace StepSystem

universe u v

variable {σ : Type u} {α : Type v}

/-- Execute a list of actions from a state; `none` as soon as one of them is not enabled. -/
def run (step : σ → α → Option σ) : σ → List α → Option σ
  | s, [] => some s
  | s, a :: as =>
    match step s a with
    | none => none
    | some s' => run step s' as

/-- `Along step P s as`: in the execution of `as` from `s`, every action is taken in a state that
meets `P` together with it. Nothing is asked beyond the point where the execution stops. -/
def Along (step : σ → α → Option σ) (P : σ → α → Prop) : σ → List α → Prop
  | _, [] => True
  | s, a :: as =>
    P s a ∧
      match step s a with
      | none => True
      | some s' => Along step P s' as

/-- The condition of an execution can be evaluated when the condition of a step can. -/
def decideAlong (step : σ → α → Option σ) (P : σ → α → Prop) [∀ s a, Decidable (P s a)] :
    ∀ (s : σ) (as : List α), Decidable (Along step P s as)
  | _, [] => isTrue trivial
  | s, a :: as =>
    match h : step s a with
    | none => decidable_of_iff (P s a) (by simp [Along, h])
    | some s' =>
      have := decideAlong step P s' as
      decidable_of_iff (P s a ∧ Along step P s' as) (by simp [Along, h])

instance (step : σ → α → Option σ) (P : σ → α → Prop) [∀ s a, Decidable (P s a)]
    (s : σ) (as : List α) : Decidable (Along step P s as) :=
  decideAlong step P s as

variable {step : σ → α → Option σ} {P Q : σ → α → Prop} {s s' t : σ} {a : α} {as bs : List α}

@[simp] theorem run_nil : run step s [] = some s := rfl

theorem run_cons_iff :
    run step s (a :: as) = some t ↔ ∃ s', step s a = some s' ∧ run step s' as = some t := by
  have hrun : run step s (a :: as) = (step s a).bind fun s' => run step s' as := by
    change (match step s a with | none => none | some s' => run step s' as) = _
    cases step s a <;> rfl
  rw [hrun, Option.bind_eq_some_iff]

/-- An execution that can be evaluated exists, and its last state has every property that can be
evaluated there. -/
theorem exists_run {Q : σ → Prop} [∀ t, Decidable (Q t)]
    (h : ((run step s as).any fun t => decide (Q t)) = true) :
    ∃ t, run step s as = some t ∧ Q t := by
  cases hrun : run step s as with
  | none =>
    rw [hrun] at h
    cases h
  | some t =>
    rw [hrun] at h
    exact ⟨t, rfl, of_decide_eq_true h⟩

@[simp] theorem along_nil : Along step P s [] := trivial

theorem along_cons_of_step (h : step s a = some s') :
    Along step P s (a :: as) ↔ P s a ∧ Along step P s' as := by
  simp [Along, h]

/-- An execution of `as ++ bs` is an execution of `as` followed by one of `bs`. -/
theorem run_append :
    run step s (as ++ bs) = some t ↔ ∃ s', run step s as = some s' ∧ run step s' bs = some t := by
  induction as generalizing s with
  | nil => simp
  | cons a as ih =>
    simp only [List.cons_append, run_cons_iff, ih]
    constructor
    · rintro ⟨m, hm, m', hm', ht⟩
      exact ⟨m', ⟨m, hm, hm'⟩, ht⟩
    · rintro ⟨m', ⟨m, hm, hm'⟩, ht⟩
      exact ⟨m, hm, m', hm', ht⟩

/-- A condition holds along `as ++ bs` exactly when it holds along `as` and, from the state
reached, along `bs`. -/
theorem along_append (h : run step s as = some s') :
    Along step P s (as ++ bs) ↔ Along step P s as ∧ Along step P s' bs := by
  induction as generalizing s with
  | nil =>
    cases h
    simp
  | cons a as ih =>
    obtain ⟨m, hm, hrun⟩ := run_cons_iff.mp h
    rw [List.cons_append, along_cons_of_step hm, along_cons_of_step hm, ih hrun, and_assoc]

theorem Along.last (hrun : run step s as = some s') (h : Along step P s (as ++ [a])) : P s' a :=
  ((along_append hrun).mp h).2.1

/-- A condition holds along an execution exactly when it holds at each of its steps. -/
theorem along_iff_forall_split (hrun : run step s as = some t) :
    Along step P s as ↔
      ∀ as₁ a as₂ m, as = as₁ ++ a :: as₂ → run step s as₁ = some m → P m a := by
  induction as generalizing s with
  | nil => simp
  | cons b as ih =>
    obtain ⟨n, hn, hrest⟩ := run_cons_iff.mp hrun
    rw [along_cons_of_step hn, ih hrest]
    constructor
    · rintro ⟨hb, htail⟩ as₁ a as₂ m hsplit hm
      cases as₁ with
      | nil =>
        obtain ⟨rfl, rfl⟩ := List.cons.inj hsplit
        cases hm
        exact hb
      | cons c as₁ =>
        obtain ⟨rfl, rfl⟩ := List.cons.inj hsplit
        obtain ⟨n', hn', hm'⟩ := run_cons_iff.mp hm
        obtain rfl : n = n' := Option.eq_some_unique hn hn'
        exact htail as₁ a as₂ m rfl hm'
    · intro hall
      refine ⟨hall [] b as s rfl rfl, fun as₁ a as₂ m hsplit hm => ?_⟩
      exact hall (b :: as₁) a as₂ m (by rw [hsplit]; rfl) (run_cons_iff.mpr ⟨n, hn, hm⟩)

theorem Along.mono (hPQ : ∀ s a, P s a → Q s a) (h : Along step P s as) :
    Along step Q s as := by
  induction as generalizing s with
  | nil => trivial
  | cons a as ih =>
    refine ⟨hPQ _ _ h.1, ?_⟩
    have htail := h.2
    cases hstep : step s a with
    | none => trivial
    | some =>
      simp only [hstep] at htail
      exact ih htail

/-- **Invariant rule.** A predicate preserved by every step holds at the end of every execution
that starts in it. -/
theorem run_invariant {Inv : σ → Prop} (hstep : ∀ s a s', Inv s → step s a = some s' → Inv s')
    (hs : Inv s) (hrun : run step s as = some t) : Inv t := by
  induction as generalizing s with
  | nil =>
    cases hrun
    exact hs
  | cons a as ih =>
    obtain ⟨m, hm, hrun⟩ := run_cons_iff.mp hrun
    exact ih (hstep _ _ _ hs hm) hrun

/-- **Conditional invariant rule.** A predicate preserved by the steps that meet `P` holds at the
end of every execution that meets `P` throughout. -/
theorem run_invariant_along {Inv : σ → Prop}
    (hstep : ∀ s a s', Inv s → P s a → step s a = some s' → Inv s')
    (hs : Inv s) (halong : Along step P s as) (hrun : run step s as = some t) : Inv t := by
  induction as generalizing s with
  | nil =>
    cases hrun
    exact hs
  | cons a as ih =>
    obtain ⟨m, hm, hrun⟩ := run_cons_iff.mp hrun
    obtain ⟨hP, halong⟩ := (along_cons_of_step hm).mp halong
    exact ih (hstep _ _ _ hs hP hm) halong hrun

/-- **Conditional step rule.** What an invariant and the condition of a step imply about the step
holds along every execution that meets the condition. -/
theorem along_of_invariant {Inv : σ → Prop}
    (hstep : ∀ s a s', Inv s → P s a → step s a = some s' → Inv s')
    (hQ : ∀ s a, Inv s → P s a → Q s a) (hs : Inv s) (halong : Along step P s as) :
    Along step Q s as := by
  induction as generalizing s with
  | nil => trivial
  | cons a as ih =>
    refine ⟨hQ _ _ hs halong.1, ?_⟩
    have htail := halong.2
    cases hnext : step s a with
    | none => trivial
    | some =>
      simp only [hnext] at htail
      exact ih (hstep _ _ _ hs halong.1 hnext) htail

/-- A condition on the actions alone. -/
theorem along_of_forall {C : α → Prop} (h : ∀ a ∈ as, C a) : Along step (fun _ a => C a) s as := by
  induction as generalizing s with
  | nil => trivial
  | cons a as ih =>
    refine ⟨h a List.mem_cons_self, ?_⟩
    cases step s a with
    | none => trivial
    | some => exact ih fun b hb => h b (List.mem_cons_of_mem _ hb)

/-- `Throughout step P s as`: every state of the execution of `as` from `s` has the property. -/
def Throughout (step : σ → α → Option σ) (P : σ → Prop) (s : σ) (as : List α) : Prop :=
  ∀ bs cs n, as = bs ++ cs → run step s bs = some n → P n

/-- A state of the execution of `as` from `s`. -/
def Visited (step : σ → α → Option σ) (s : σ) (as : List α) (t : σ) : Prop :=
  ∃ bs cs, as = bs ++ cs ∧ run step s bs = some t

theorem throughout_visited : Throughout step (Visited step s as) s as :=
  fun bs cs _ hsplit hrun => ⟨bs, cs, hsplit, hrun⟩

theorem Throughout.head {P : σ → Prop} (h : Throughout step P s as) : P s := h [] as s rfl rfl

theorem Throughout.tail {P : σ → Prop} (h : Throughout step P s (a :: as))
    (hstep : step s a = some s') : Throughout step P s' as := by
  intro bs cs n hsplit hrun
  exact h (a :: bs) cs n (by rw [hsplit, List.cons_append]) (run_cons_iff.mpr ⟨s', hstep, hrun⟩)

/-- **Invariant rule, while a property lasts.** -/
theorem run_invariant_throughout {P Inv : σ → Prop}
    (hinv : ∀ s a s', Inv s → P s → P s' → step s a = some s' → Inv s') (hs : Inv s)
    (hthroughout : Throughout step P s as) (hrun : run step s as = some t) : Inv t := by
  induction as generalizing s with
  | nil =>
    cases hrun
    exact hs
  | cons a as ih =>
    obtain ⟨m, hm, hrest⟩ := run_cons_iff.mp hrun
    have htail := hthroughout.tail hm
    exact ih (hinv s a m hs hthroughout.head htail.head hm) htail hrest

theorem Throughout.cons {P : σ → Prop} (hs : P s) (hstep : step s a = some s')
    (h : Throughout step P s' as) : Throughout step P s (a :: as) := by
  intro bs cs n hsplit hrun
  cases bs with
  | nil =>
    cases hrun
    exact hs
  | cons b bs =>
    obtain ⟨rfl, hrest⟩ := List.cons.inj hsplit
    obtain ⟨m, hm, hrun⟩ := run_cons_iff.mp hrun
    obtain rfl : s' = m := Option.eq_some_unique hstep hm
    exact h bs cs n hrest hrun

/-- **Exact condition.** When a step keeps a property exactly under a condition, an execution keeps
it in all its states exactly when all its steps meet the condition. -/
theorem throughout_iff_along {C : σ → α → Prop} {Q Inv : σ → Prop}
    (hinv : ∀ s a s', Inv s → step s a = some s' → Inv s')
    (hiff : ∀ s a s', Inv s → Q s → step s a = some s' → (Q s' ↔ C s a))
    (hs : Inv s) (hQ : Q s) (hrun : run step s as = some t) :
    Throughout step Q s as ↔ Along step C s as := by
  induction as generalizing s with
  | nil =>
    refine ⟨fun _ => trivial, fun _ bs cs n hsplit hrun => ?_⟩
    obtain ⟨rfl, -⟩ := List.append_eq_nil_iff.mp hsplit.symm
    cases hrun
    exact hQ
  | cons a as ih =>
    obtain ⟨m, hm, hrest⟩ := run_cons_iff.mp hrun
    rw [along_cons_of_step hm]
    constructor
    · intro h
      have hnext := (h.tail hm).head
      exact ⟨(hiff s a m hs hQ hm).mp hnext, (ih (hinv s a m hs hm) hnext hrest).mp (h.tail hm)⟩
    · rintro ⟨hcond, halong⟩
      have hnext := (hiff s a m hs hQ hm).mpr hcond
      exact ((ih (hinv s a m hs hm) hnext hrest).mpr halong).cons hQ hm

/-- **Last change.** An execution at whose end a predicate holds that did not hold at its start has
a last step that establishes the predicate: it holds from there on. -/
theorem exists_last_change {P : σ → Prop} (hs : ¬P s) (ht : P t) (hrun : run step s as = some t) :
    ∃ as₁ a as₂ m m', as = as₁ ++ a :: as₂ ∧ run step s as₁ = some m ∧ step m a = some m' ∧
      run step m' as₂ = some t ∧ ¬P m ∧ Throughout step P m' as₂ := by
  induction as using List.reverseRecOn generalizing t with
  | nil =>
    cases hrun
    exact absurd ht hs
  | append_singleton as a ih =>
    obtain ⟨m, hm, hlast⟩ := run_append.mp hrun
    obtain ⟨m', hstep, hend⟩ := run_cons_iff.mp hlast
    cases hend
    by_cases hPm : P m
    · obtain ⟨as₁, b, as₂, n, n', rfl, hn, hnstep, hrest, hPn, hsince⟩ := ih hPm hm
      refine ⟨as₁, b, as₂ ++ [a], n, n', by simp, hn, hnstep, run_append.mpr ⟨m, hrest, hlast⟩,
        hPn, ?_⟩
      intro bs cs k hsplit hk
      rcases List.eq_nil_or_concat cs with rfl | ⟨cs, c, rfl⟩
      · rw [List.append_nil] at hsplit
        subst hsplit
        obtain ⟨l, hl, hkl⟩ := run_append.mp hk
        obtain rfl : m = l := Option.eq_some_unique hrest hl
        obtain rfl : t = k := Option.eq_some_unique hlast hkl
        exact ht
      · rw [List.concat_eq_append, ← List.append_assoc] at hsplit
        exact hsince bs cs k (List.append_inj' hsplit rfl).1 hk
    · refine ⟨as, a, [], m, t, rfl, hm, hstep, rfl, hPm, ?_⟩
      intro bs cs k hsplit hk
      obtain ⟨rfl, rfl⟩ := List.append_eq_nil_iff.mp hsplit.symm
      cases hk
      exact ht

/-- After a step of one party, a session is the new one of that party, or an old one of another. -/
theorem of_update_some {β : Type v} {sessions : ℕ → Option β} {t u : ℕ} {new session : β}
    (h : Function.update sessions t (some new) u = some session) :
    u = t ∧ session = new ∨ u ≠ t ∧ sessions u = some session := by
  by_cases hu : u = t
  · subst hu
    rw [Function.update_self] at h
    exact .inl ⟨rfl, (Option.some.inj h).symm⟩
  · rw [Function.update_of_ne hu] at h
    exact .inr ⟨hu, h⟩

end StepSystem
