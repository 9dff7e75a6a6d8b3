import IChat.General.StepSystem

/-!
# Machines that answer

A machine takes inputs one after another and answers each: `answer s a` is its next state and what
it says. `outputs` is everything it says to a list of inputs.

`outputs_eq_iff` compares two machines on the same inputs. The states are kept in a relation as
long as the condition `P` of the steps holds, and in related states the two answers agree exactly
under `P`; then the outputs agree exactly when `P` holds along the whole run of the first machine.
Nothing is asked of the relation after the first step that breaks `P`.
-/

namespace StepSystem

universe u v w x

variable {σ : Type u} {τ : Type v} {α : Type w} {β : Type x}

/-- What a machine says to a list of inputs. -/
def outputs (answer : σ → α → σ × β) : σ → List α → List β
  | _, [] => []
  | s, a :: as => (answer s a).2 :: outputs answer (answer s a).1 as

/-- A machine as a step system: every input is enabled. -/
def moves (answer : σ → α → σ × β) (s : σ) (a : α) : Option σ := some (answer s a).1

variable {answer : σ → α → σ × β} {reply : τ → α → τ × β}

@[simp] theorem outputs_nil (s : σ) : outputs answer s [] = [] := rfl

theorem outputs_cons (s : σ) (a : α) (as : List α) :
    outputs answer s (a :: as) = (answer s a).2 :: outputs answer (answer s a).1 as := rfl

/-- **Comparison rule.** -/
theorem outputs_eq_iff {R : σ → τ → Prop} {P : σ → α → Prop}
    (hanswer : ∀ s t a, R s t → ((answer s a).2 = (reply t a).2 ↔ P s a))
    (hstep : ∀ s t a, R s t → P s a → R (answer s a).1 (reply t a).1)
    {s : σ} {t : τ} (hR : R s t) (as : List α) :
    outputs answer s as = outputs reply t as ↔ Along (moves answer) P s as := by
  induction as generalizing s t with
  | nil => simp
  | cons a as ih =>
    have hmove : moves answer s a = some (answer s a).1 := rfl
    rw [outputs_cons, outputs_cons, List.cons.injEq, along_cons_of_step hmove, hanswer s t a hR]
    constructor
    · rintro ⟨hP, hrest⟩
      exact ⟨hP, (ih (hstep s t a hR hP)).mp hrest⟩
    · rintro ⟨hP, hrest⟩
      exact ⟨hP, (ih (hstep s t a hR hP)).mpr hrest⟩

end StepSystem
