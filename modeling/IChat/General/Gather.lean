import Mathlib.Data.List.Perm.Basic

/-!
# A batch of concurrent tasks

A list of tasks is spawned together. Each waits for one of the slots of a semaphore, runs, and is
done with a result, in any order; the results are gathered in the order of the list once every task
is done.

- `start_eq_some`, `finish_eq_some`: what a step does to the tasks that wait and to the results that
  are there;
- `results_eq_some`: the results stand at the places of their tasks.
-/

namespace Gather

variable {α β : Type*}

/-- How far a task is. -/
inductive Phase (β : Type*) where
  | waiting
  | running
  | done (result : β)
  deriving DecidableEq

/-- A task with what it was spawned for. -/
structure Task (α β : Type*) where
  input : α
  phase : Phase β
  deriving DecidableEq

/-- The result of a task that is done. -/
def Task.result? (task : Task α β) : Option β :=
  match task.phase with
  | .done result => some result
  | _ => none

/-- The task holds a slot. -/
def Task.isRunning (task : Task α β) : Bool :=
  match task.phase with
  | .running => true
  | _ => false

/-- The input of a task that waits. -/
def Task.waiting? (task : Task α β) : Option α :=
  match task.phase with
  | .waiting => some task.input
  | _ => none

/-- All tasks wait. -/
def spawn (inputs : List α) : List (Task α β) := inputs.map fun input => ⟨input, .waiting⟩

/-- The inputs of the tasks that wait. -/
def waiting (tasks : List (Task α β)) : List α := tasks.filterMap Task.waiting?

/-- The inputs of the tasks that are done, with their results. -/
def done (tasks : List (Task α β)) : List (α × β) :=
  tasks.filterMap fun task => task.result?.map (task.input, ·)

/-- A task gets one of the slots: the input it runs for, and the tasks then. -/
def start (slots i : ℕ) (tasks : List (Task α β)) : Option (α × List (Task α β)) :=
  match tasks[i]? with
  | some ⟨input, .waiting⟩ =>
    if tasks.countP Task.isRunning < slots then some (input, tasks.set i ⟨input, .running⟩)
    else none
  | _ => none

/-- A task is done and gives its slot back. -/
def finish (i : ℕ) (result : β) (tasks : List (Task α β)) : Option (α × List (Task α β)) :=
  match tasks[i]? with
  | some ⟨input, .running⟩ => some (input, tasks.set i ⟨input, .done result⟩)
  | _ => none

/-- The results of all tasks, once all are done. -/
def results (tasks : List (Task α β)) : Option (List β) := tasks.mapM Task.result?

theorem eq_append_cons_of_getElem? {l : List α} {i : ℕ} {a b : α} (h : l[i]? = some a) :
    ∃ before after, l = before ++ a :: after ∧ l.set i b = before ++ b :: after := by
  obtain ⟨hi, rfl⟩ := List.getElem?_eq_some_iff.mp h
  refine ⟨l.take i, l.drop (i + 1), ?_, ?_⟩
  · rw [List.getElem_cons_drop, List.take_append_drop]
  · rw [List.set_eq_take_append_cons_drop, if_pos hi]

@[simp] theorem map_input_spawn (inputs : List α) :
    (spawn inputs : List (Task α β)).map Task.input = inputs := by
  rw [spawn, List.map_map]
  exact List.map_id _

@[simp] theorem waiting_spawn (inputs : List α) :
  waiting (spawn inputs : List (Task α β)) = inputs := by
  rw [waiting, spawn, List.filterMap_map]
  exact List.filterMap_some

@[simp] theorem done_spawn (inputs : List α) : done (spawn inputs : List (Task α β)) = [] := by
  rw [done, spawn, List.filterMap_map]
  exact List.filterMap_eq_nil_iff.mpr fun _ _ => rfl

/-- A task that starts waits no longer. -/
theorem start_eq_some {slots i : ℕ} {tasks tasks' : List (Task α β)} {input : α}
    (h : start slots i tasks = some (input, tasks')) :
    tasks'.map Task.input = tasks.map Task.input ∧
      (waiting tasks).Perm (input :: waiting tasks') ∧ done tasks' = done tasks ∧
      tasks'.countP Task.isRunning ≤ slots := by
  rw [start] at h
  split at h
  · rename_i waits hwaits
    split_ifs at h with hslot
    obtain ⟨rfl, rfl⟩ := Prod.mk.inj (Option.some.inj h)
    obtain ⟨before, after, rfl, hset⟩ := eq_append_cons_of_getElem? hwaits
    rw [hset]
    refine ⟨?_, ?_, ?_, ?_⟩
    · rw [List.map_append, List.map_append, List.map_cons, List.map_cons]
    · rw [waiting, waiting, List.filterMap_append, List.filterMap_append]
      exact List.perm_middle
    · rw [done, done, List.filterMap_append, List.filterMap_append]
      rfl
    · rw [List.countP_append, List.countP_cons_of_neg (by exact Bool.false_ne_true)] at hslot
      rw [List.countP_append, List.countP_cons_of_pos rfl]
      omega
  · cases h

/-- A task that ends adds its result. -/
theorem finish_eq_some {i : ℕ} {result : β} {tasks tasks' : List (Task α β)} {input : α}
    (h : finish i result tasks = some (input, tasks')) :
    tasks'.map Task.input = tasks.map Task.input ∧ waiting tasks' = waiting tasks ∧
      (done tasks').Perm ((input, result) :: done tasks) ∧
      tasks'.countP Task.isRunning ≤ tasks.countP Task.isRunning := by
  rw [finish] at h
  split at h
  · rename_i runs hruns
    obtain ⟨rfl, rfl⟩ := Prod.mk.inj (Option.some.inj h)
    obtain ⟨before, after, rfl, hset⟩ := eq_append_cons_of_getElem? hruns
    rw [hset]
    refine ⟨?_, ?_, ?_, ?_⟩
    · rw [List.map_append, List.map_append, List.map_cons, List.map_cons]
    · rw [waiting, waiting, List.filterMap_append, List.filterMap_append]
      rfl
    · rw [done, done, List.filterMap_append, List.filterMap_append]
      exact List.perm_middle
    · rw [List.countP_append, List.countP_append,
        List.countP_cons_of_neg (by exact Bool.false_ne_true),
        List.countP_cons_of_pos rfl]
      omega
  · cases h

/-- The gathered results stand at the places of their tasks. -/
theorem results_eq_some {tasks : List (Task α β)} {gathered : List β}
    (h : results tasks = some gathered) :
    gathered.length = tasks.length ∧ done tasks = (tasks.map Task.input).zip gathered ∧
      waiting tasks = [] := by
  induction tasks generalizing gathered with
  | nil =>
    cases h
    exact ⟨rfl, rfl, rfl⟩
  | cons task tasks ih =>
    rw [results, List.mapM_cons] at h
    obtain ⟨result, hresult, hrest⟩ := Option.bind_eq_some_iff.mp h
    obtain ⟨later, hlater, hsum⟩ := Option.bind_eq_some_iff.mp hrest
    cases hsum
    obtain ⟨hlength, hdone, hwaiting⟩ := ih hlater
    obtain ⟨input, phase⟩ := task
    cases phase with
    | done =>
      cases hresult
      refine ⟨by rw [List.length_cons, List.length_cons, hlength], ?_, hwaiting⟩
      rw [List.map_cons, List.zip_cons_cons, ← hdone]
      rfl
    | waiting => cases hresult
    | running => cases hresult

end Gather
