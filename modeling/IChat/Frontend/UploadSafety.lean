import IChat.Frontend.AttachmentUploads

/-!
# Files of a draft that are cancelled, or left behind

Nothing should be sent or confirmed for a file after the user has cancelled it or left its scope,
and every upload of a cancelled file should be cancelled (`AttachmentUploads.Safe`). A task looks at
its scope only, and a cancellation knows only the id that the draft has, so three things slip
through, and `AttachmentUploads.Timely` excludes them: an upload that is created after its file has
been cancelled, a draft that comes back without the id of its upload, and a part that is still sent
after another one has failed.

* `Tracked` is what holds of every state: what the drafts and the tasks know of the uploads. Steps
  that only remove drafts and go on with tasks keep it (`Ebbs`).
* `uploads_safe_iff`: all states of an execution are safe exactly if the execution is timely.
-/

namespace IChat.Frontend

open StepSystem

/-! ### What is promised -/

/-- A request for a file comes after the file has been cancelled, or its scope been left. -/
def UploadEvent.Overdue : UploadEvent → UploadEvent → Prop
  | put c _, cancelled c' | confirm c _, cancelled c' => c = c'
  | put _ v, left v' | confirm _ v, left v' => v = v'
  | _, _ => False

namespace AttachmentUploads

structure Safe (w : AttachmentUploads) : Prop where
  in_time : w.history.Pairwise fun later earlier => ¬later.Overdue earlier
  cancelled : ∀ c u, .cancelled c ∈ w.history → .created c u ∈ w.history → .cancel u ∈ w.history

/-- The condition on a step. -/
def Timely (w : AttachmentUploads) : UploadAction → Prop
  -- the file has not been cancelled while its upload was being created
  | .created c _ => .cancelled c ∉ w.history
  -- the worker is not one that goes on in another scope after a part has failed
  | .put c => ∀ task ∈ w.tasks c, task.scopeVersion = w.scopeVersion
  -- the upload was not created after the scope had been left
  | .cancelAttachment c => ∀ draft ∈ w.attachments, draft.clientId = c → draft.uploadId = none →
      ∀ u, .created c u ∉ w.history
  | _ => True

end AttachmentUploads

/-! ### Steps that begin nothing -/

/-- What may become of a phase when nothing is begun. -/
def UploadPhase.Wanes (p p' : UploadPhase) : Prop :=
  (p' = creating → p = creating) ∧ (∀ u n, p' = uploading u n → ∃ m, p = uploading u m) ∧
    p'.workers ≤ p.workers

theorem UploadPhase.Wanes.refl (p : UploadPhase) : p.Wanes p :=
  ⟨id, fun _ n h => ⟨n, h⟩, Nat.le_refl _⟩

theorem UploadPhase.Wanes.trans {p p' p'' : UploadPhase} (h : p.Wanes p') (h' : p'.Wanes p'') :
    p.Wanes p'' := by
  refine ⟨fun hp => h.1 (h'.1 hp), fun u n hp => ?_, Nat.le_trans h'.2.2 h.2.2⟩
  obtain ⟨m, hm⟩ := h'.2.1 u n hp
  exact h.2.1 u m hm

theorem UploadPhase.wanes_abort (p : UploadPhase) : p.Wanes p.abort := by
  cases p with
  | uploading => exact ⟨nofun, nofun, Nat.zero_le _⟩
  | creating | confirming | ended => exact .refl _

theorem UploadPhase.wanes_ended {p : UploadPhase} {n : ℕ} (h : n ≤ p.workers) :
    p.Wanes (ended n) :=
  ⟨nofun, nofun, h⟩

theorem UploadPhase.eq_ended_of_abort {p : UploadPhase} {n : ℕ} (h : p.abort = ended n)
    (hn : 0 < n) : p = ended n := by
  cases p with
  | uploading =>
    cases h
    exact absurd hn (Nat.lt_irrefl 0)
  | creating | confirming | ended => exact h

namespace AttachmentUploads

variable {w w' w'' : AttachmentUploads} {c u n : ℕ} {task : UploadTask} {draft : DraftAttachment}

/-- The workers of a failed task are not aborted; its draft is gone. -/
def Leaves (w : AttachmentUploads) (attachments : List DraftAttachment) (c : ℕ) (task : UploadTask)
    (phase : UploadPhase) : Prop :=
  ∀ n, phase = .ended n → 0 < n → task.scopeVersion = w.scopeVersion →
    (∃ m, task.phase = .ended m ∧ 0 < m) ∨ ∀ draft ∈ attachments, draft.clientId ≠ c

/-- A step that removes drafts and goes on with tasks. -/
structure Ebbs (w w' : AttachmentUploads) : Prop where
  scope : w'.scope = w.scope
  scopeVersion : w'.scopeVersion = w.scopeVersion
  nextClient : w'.nextClient = w.nextClient
  nextUpload : w'.nextUpload = w.nextUpload
  history : w'.history = w.history
  drafts : ∀ key, w'.drafts key ⊆ w.drafts key
  tasks : ∀ c task', w'.tasks c = some task' → ∃ task, w.tasks c = some task ∧
    task'.scopeVersion = task.scopeVersion ∧ task.phase.Wanes task'.phase ∧
    w.Leaves w'.attachments c task task'.phase

theorem leaves_self {attachments : List DraftAttachment} :
    w.Leaves attachments c task task.phase :=
  fun n hn hpos _ => .inl ⟨n, hn, hpos⟩

theorem Ebbs.refl (w : AttachmentUploads) : Ebbs w w :=
  ⟨rfl, rfl, rfl, rfl, rfl, fun _ _ h => h, fun _ task h => ⟨task, h, rfl, .refl _, leaves_self⟩⟩

theorem Ebbs.attachments (h : Ebbs w w') : w'.attachments ⊆ w.attachments := by
  intro draft hdraft
  rw [AttachmentUploads.attachments, h.scope] at hdraft
  exact h.drafts _ hdraft

theorem Ebbs.trans (h : Ebbs w w') (h' : Ebbs w' w'') : Ebbs w w'' where
  scope := h'.scope.trans h.scope
  scopeVersion := h'.scopeVersion.trans h.scopeVersion
  nextClient := h'.nextClient.trans h.nextClient
  nextUpload := h'.nextUpload.trans h.nextUpload
  history := h'.history.trans h.history
  drafts key draft hdraft := h.drafts key (h'.drafts key hdraft)
  tasks c task'' hget := by
    obtain ⟨task', hget', hversion', hwanes', hleaves'⟩ := h'.tasks c task'' hget
    obtain ⟨task, hget, hversion, hwanes, hleaves⟩ := h.tasks c task' hget'
    refine ⟨task, hget, hversion'.trans hversion, hwanes.trans hwanes', ?_⟩
    intro n hn hpos hcurrent
    -- a draft that is gone after one of the steps is gone in the end
    have hcurrent' : task'.scopeVersion = w'.scopeVersion := by
      rw [hversion, hcurrent, h.scopeVersion]
    rcases hleaves' n hn hpos hcurrent' with ⟨m, hm, hm_pos⟩ | hgone
    · rcases hleaves m hm hm_pos hcurrent with hended | hgone
      · exact .inl hended
      · exact .inr fun draft hdraft => hgone draft (h'.attachments hdraft)
    · exact .inr hgone

theorem ebbs_mapTasks {f : ℕ → UploadTask → UploadTask}
    (hf : ∀ c task, w.tasks c = some task → (f c task).scopeVersion = task.scopeVersion ∧
      task.phase.Wanes (f c task).phase ∧ w.Leaves w.attachments c task (f c task).phase) :
    Ebbs w (w.mapTasks f) where
  scope := rfl
  scopeVersion := rfl
  nextClient := rfl
  nextUpload := rfl
  history := rfl
  drafts _ _ h := h
  tasks c task' hget := by
    obtain ⟨task, htask, rfl⟩ := Option.map_eq_some_iff.mp hget
    exact ⟨task, htask, hf c task htask⟩

theorem ebbs_setPhase {phase : UploadPhase}
    (hphase : ∀ task, w.tasks c = some task →
      task.phase.Wanes phase ∧ w.Leaves w.attachments c task phase) :
    Ebbs w (w.setPhase c phase) := by
  refine ebbs_mapTasks fun c' task htask => ?_
  split_ifs with heq
  · subst heq
    exact ⟨rfl, hphase task htask⟩
  · exact ⟨rfl, .refl _, leaves_self⟩

theorem leaves_abort {attachments : List DraftAttachment} :
    w.Leaves attachments c task task.phase.abort :=
  fun n hn hpos _ => .inl ⟨n, UploadPhase.eq_ended_of_abort hn hpos, hpos⟩

theorem ebbs_discardLocalAttachments (gone : ℕ → Bool) :
    Ebbs w (w.discardLocalAttachments gone) := by
  refine ebbs_mapTasks fun c task _ => ?_
  split_ifs
  · exact ⟨rfl, UploadPhase.wanes_abort _, leaves_abort⟩
  · exact ⟨rfl, .refl _, leaves_self⟩

theorem ebbs_abort (c : ℕ) : Ebbs w (w.abort c) := by
  refine ebbs_mapTasks fun c' task _ => ?_
  split_ifs
  · exact ⟨rfl, UploadPhase.wanes_abort _, leaves_abort⟩
  · exact ⟨rfl, .refl _, leaves_self⟩

theorem commit_drafts (updater : List DraftAttachment → List DraftAttachment) (key : DraftScope) :
    (w.commit updater).drafts key =
      if key = w.scope then updater w.attachments else w.drafts key :=
  Function.update_apply ..

theorem mem_removeDrafts {gone : DraftAttachment → Bool} {key : DraftScope}
    (h : draft ∈ (w.removeDrafts gone).drafts key) :
    draft ∈ w.drafts key ∧ (key = w.scope → gone draft = false) := by
  rw [removeDrafts, commit_drafts] at h
  split_ifs at h with hkey
  · subst hkey
    rw [List.mem_filter] at h
    exact ⟨h.1, fun _ => by simpa using h.2⟩
  · exact ⟨h, fun heq => absurd heq hkey⟩

theorem ebbs_removeDrafts (gone : DraftAttachment → Bool) : Ebbs w (w.removeDrafts gone) where
  scope := rfl
  scopeVersion := rfl
  nextClient := rfl
  nextUpload := rfl
  history := rfl
  drafts _ _ h := (mem_removeDrafts h).1
  tasks _ task h := ⟨task, h, rfl, .refl _, leaves_self⟩

theorem ebbs_forget (c : ℕ) : Ebbs w (w.forget c) :=
  (ebbs_discardLocalAttachments _).trans (ebbs_removeDrafts _)

theorem ebbs_dropUpload (u : ℕ) : Ebbs w (w.dropUpload u) :=
  (ebbs_discardLocalAttachments _).trans (ebbs_removeDrafts _)

theorem ebbs_rejectUpload (c u : ℕ) : Ebbs w (w.rejectUpload c u) :=
  ((ebbs_dropUpload u).trans (ebbs_discardLocalAttachments _)).trans (ebbs_removeDrafts _)

theorem ebbs_removeImages (images : ℕ → Bool) : Ebbs w (w.removeImages images) :=
  (ebbs_discardLocalAttachments _).trans (ebbs_removeDrafts _)

theorem ebbs_clear : Ebbs w w.clear :=
  (ebbs_discardLocalAttachments _).trans (ebbs_removeDrafts _)

/-- A task fails, in its scope or in another one. -/
theorem ebbs_caught (htask : w.tasks c = some task) (hn : n ≤ task.phase.workers) :
    Ebbs w (w.caught c task n) := by
  have hwanes : ∀ task', w.tasks c = some task' → task'.phase.Wanes (.ended n) := by
    intro task' htask'
    obtain rfl : task = task' := Option.eq_some_unique htask htask'
    exact UploadPhase.wanes_ended hn
  rw [caught]
  split_ifs with hcurrent
  · have hended : Ebbs (w.removeDrafts (·.clientId == c))
        ((w.removeDrafts (·.clientId == c)).setPhase c (.ended n)) := by
      refine ebbs_setPhase fun task' htask' => ⟨hwanes task' htask', fun m _ _ _ => ?_⟩
      exact .inr fun draft hdraft => ne_of_beq_false ((mem_removeDrafts hdraft).2 rfl)
    exact ((ebbs_removeDrafts _).trans hended).trans (ebbs_discardLocalAttachments _)
  · refine ebbs_setPhase fun task' htask' => ⟨hwanes task' htask', fun m _ _ hcurrent' => ?_⟩
    obtain rfl : task = task' := Option.eq_some_unique htask htask'
    exact absurd hcurrent' hcurrent

theorem ebbs_setPhase_ended_zero (c : ℕ) : Ebbs w (w.setPhase c (.ended 0)) :=
  ebbs_setPhase fun _ _ => ⟨UploadPhase.wanes_ended (Nat.zero_le _), fun n hn hpos => by
    cases hn
    exact absurd hpos (Nat.lt_irrefl 0)⟩

/-- A worker of a failed task stops. -/
theorem ebbs_setPhase_ended (htask : w.tasks c = some task) (hphase : task.phase = .ended n) :
    Ebbs w (w.setPhase c (.ended (n - 1))) := by
  refine ebbs_setPhase fun task' htask' => ?_
  obtain rfl : task = task' := Option.eq_some_unique htask htask'
  refine ⟨UploadPhase.wanes_ended ?_, fun m hm hpos _ => .inl ⟨n, hphase, ?_⟩⟩
  · rw [hphase]
    exact Nat.sub_le n 1
  · cases hm
    omega

theorem ebbs_partFailed (htask : w.tasks c = some task) : Ebbs w (w.partFailed c task) := by
  rw [partFailed]
  split
  · next hphase => exact ebbs_caught htask (by rw [hphase]; exact Nat.sub_le _ 1)
  · next hphase => exact ebbs_setPhase_ended htask hphase
  · exact .refl w
  · exact .refl w

theorem ebbs_confirmAnswered (htask : w.tasks c = some task) (rejected : Option Bool) :
    Ebbs w (w.confirmAnswered c u task rejected) := by
  cases rejected with
  | none => exact ebbs_caught htask (Nat.zero_le _)
  | some =>
    rw [confirmAnswered]
    split_ifs
    · exact (ebbs_setPhase_ended_zero c).trans (ebbs_rejectUpload c u)
    · exact ebbs_setPhase_ended_zero c

/-! ### What holds of every state -/

/-- What the drafts, the tasks and the history know of each other. -/
structure Tracked (w : AttachmentUploads) : Prop where
  task_lt : ∀ c task, w.tasks c = some task →
    c < w.nextClient ∧ task.scopeVersion ≤ w.scopeVersion
  creating : ∀ c task u, w.tasks c = some task → task.phase = .creating →
    .created c u ∉ w.history
  uploading : ∀ c task u n, w.tasks c = some task → task.phase = .uploading u n →
    task.scopeVersion = w.scopeVersion
  /-- A task that still sends has not seen the cancellation of its file: that was before the upload
  was created, and the upload is not cancelled. -/
  sending : ∀ c task, w.tasks c = some task → 0 < task.phase.workers →
    task.scopeVersion = w.scopeVersion → .cancelled c ∈ w.history →
      ∃ u, .created c u ∈ w.history ∧ .cancel u ∉ w.history
  /-- The workers of a failed task have no draft. -/
  failed : ∀ c task n, w.tasks c = some task → task.phase = .ended n → 0 < n →
    task.scopeVersion = w.scopeVersion → ∀ draft ∈ w.attachments, draft.clientId ≠ c
  draft_lt : ∀ key, ∀ draft ∈ w.drafts key, draft.clientId < w.nextClient
  draft_created : ∀ key, ∀ draft ∈ w.drafts key, ∀ u, draft.uploadId = some u →
    .created draft.clientId u ∈ w.history
  draft_blank : ∀ key, ∀ draft ∈ w.drafts key, draft.uploadId = none →
    ∀ u, .created draft.clientId u ∈ w.history → .cancel u ∉ w.history
  draft_unique : ∀ key key', ∀ draft ∈ w.drafts key, ∀ draft' ∈ w.drafts key',
    draft.clientId = draft'.clientId → key = key' ∧ draft = draft'
  created_lt : ∀ c u, .created c u ∈ w.history → c < w.nextClient ∧ u < w.nextUpload
  created_unique : ∀ c u c' u', .created c u ∈ w.history → .created c' u' ∈ w.history →
    (c = c' ↔ u = u')
  cancel_lt : ∀ u, .cancel u ∈ w.history → u < w.nextUpload
  left_iff : ∀ v, .left v ∈ w.history ↔ v < w.scopeVersion

theorem tracked_init (scope : DraftScope) : Tracked (init scope) where
  task_lt := nofun
  creating := nofun
  uploading := nofun
  sending := nofun
  failed := nofun
  draft_lt := nofun
  draft_created := nofun
  draft_blank := nofun
  draft_unique := nofun
  created_lt := nofun
  created_unique := nofun
  cancel_lt := nofun
  left_iff v := ⟨nofun, fun h => absurd h (Nat.not_lt_zero v)⟩

theorem Tracked.ebb (h : Tracked w) (hebb : Ebbs w w') : Tracked w' where
  task_lt c task' hget := by
    obtain ⟨task, hget, hversion, -⟩ := hebb.tasks c task' hget
    rw [hebb.nextClient, hebb.scopeVersion, hversion]
    exact h.task_lt c task hget
  creating c task' u hget hphase := by
    obtain ⟨task, hget, -, hwanes, -⟩ := hebb.tasks c task' hget
    rw [hebb.history]
    exact h.creating c task u hget (hwanes.1 hphase)
  uploading c task' u n hget hphase := by
    obtain ⟨task, hget, hversion, hwanes, -⟩ := hebb.tasks c task' hget
    obtain ⟨m, hm⟩ := hwanes.2.1 u n hphase
    rw [hversion, hebb.scopeVersion]
    exact h.uploading c task u m hget hm
  sending c task' hget hpos hcurrent := by
    obtain ⟨task, hget, hversion, hwanes, -⟩ := hebb.tasks c task' hget
    rw [hebb.history]
    refine h.sending c task hget (Nat.lt_of_lt_of_le hpos hwanes.2.2) ?_
    rw [← hversion, hcurrent, hebb.scopeVersion]
  failed c task' n hget hphase hpos hcurrent draft hdraft := by
    obtain ⟨task, hget, hversion, -, hleaves⟩ := hebb.tasks c task' hget
    have hcurrent' : task.scopeVersion = w.scopeVersion := by
      rw [← hversion, hcurrent, hebb.scopeVersion]
    rcases hleaves n hphase hpos hcurrent' with ⟨m, hm, hm_pos⟩ | hgone
    · exact h.failed c task m hget hm hm_pos hcurrent' draft (hebb.attachments hdraft)
    · exact hgone draft hdraft
  draft_lt key draft hdraft := by
    rw [hebb.nextClient]
    exact h.draft_lt key draft (hebb.drafts key hdraft)
  draft_created key draft hdraft := by
    rw [hebb.history]
    exact h.draft_created key draft (hebb.drafts key hdraft)
  draft_blank key draft hdraft := by
    rw [hebb.history]
    exact h.draft_blank key draft (hebb.drafts key hdraft)
  draft_unique key key' draft hdraft draft' hdraft' :=
    h.draft_unique key key' draft (hebb.drafts key hdraft) draft' (hebb.drafts key' hdraft')
  created_lt := by
    rw [hebb.history, hebb.nextClient, hebb.nextUpload]
    exact h.created_lt
  created_unique := by
    rw [hebb.history]
    exact h.created_unique
  cancel_lt := by
    rw [hebb.history, hebb.nextUpload]
    exact h.cancel_lt
  left_iff := by
    rw [hebb.history, hebb.scopeVersion]
    exact h.left_iff

theorem mem_log_of_ne {event e : UploadEvent} (hne : e ≠ event) :
    e ∈ (w.log event).history ↔ e ∈ w.history :=
  ⟨fun he => (List.mem_cons.mp he).resolve_left hne, List.mem_cons_of_mem _⟩

/-- An event by which no upload is created and no scope is left. What is to be shown is about the
cancellations. -/
theorem Tracked.log {event : UploadEvent} (h : Tracked w) (hcreated : ∀ c u, .created c u ≠ event)
    (hleft : ∀ v, .left v ≠ event)
    (sending : ∀ c task, w.tasks c = some task → 0 < task.phase.workers →
      task.scopeVersion = w.scopeVersion → .cancelled c ∈ (w.log event).history →
        ∃ u, .created c u ∈ w.history ∧ .cancel u ∉ (w.log event).history)
    (draft_blank : ∀ key, ∀ draft ∈ w.drafts key, draft.uploadId = none →
      ∀ u, .created draft.clientId u ∈ w.history → .cancel u ∉ (w.log event).history)
    (cancel_lt : ∀ u, .cancel u ∈ (w.log event).history → u < w.nextUpload) :
    Tracked (w.log event) := by
  have hsame : ∀ c u, .created c u ∈ (w.log event).history ↔ .created c u ∈ w.history :=
    fun c u => mem_log_of_ne (hcreated c u)
  refine { h with creating := ?_, sending := ?_, draft_created := ?_, draft_blank := ?_,
                  created_lt := ?_, created_unique := ?_, cancel_lt := cancel_lt, left_iff := ?_ }
  · simp only [hsame]
    exact h.creating
  · simp only [hsame]
    exact sending
  · simp only [hsame]
    exact h.draft_created
  · simp only [hsame]
    exact draft_blank
  · simp only [hsame]
    exact h.created_lt
  · simp only [hsame]
    exact h.created_unique
  · exact fun v => (mem_log_of_ne (hleft v)).trans (h.left_iff v)

/-- A request to the storage, or to confirm an upload. -/
theorem Tracked.log_request (h : Tracked w) {event : UploadEvent}
    (hevent : (∃ c v, event = .put c v) ∨ ∃ c v, event = .confirm c v) : Tracked (w.log event) := by
  have hne : ∀ e, (∀ c v, e ≠ .put c v) → (∀ c v, e ≠ .confirm c v) → e ≠ event := by
    rintro e hput hconfirm rfl
    rcases hevent with ⟨c, v, heq⟩ | ⟨c, v, heq⟩
    · exact hput c v heq
    · exact hconfirm c v heq
  have hcancel : ∀ u, .cancel u ∈ (w.log event).history ↔ .cancel u ∈ w.history :=
    fun u => mem_log_of_ne (hne _ nofun nofun)
  have hcancelled : ∀ c, .cancelled c ∈ (w.log event).history ↔ .cancelled c ∈ w.history :=
    fun c => mem_log_of_ne (hne _ nofun nofun)
  refine h.log (fun c u => hne _ nofun nofun) (fun v => hne _ nofun nofun) ?_ ?_ ?_ <;>
    simp only [hcancel, hcancelled]
  · exact h.sending
  · exact h.draft_blank
  · exact h.cancel_lt

theorem Tracked.startFile (h : Tracked w) : Tracked w.startFile := by
  have hdrafts : ∀ key, ∀ draft ∈ w.startFile.drafts key, draft ∈ w.drafts key ∨
      key = w.scope ∧ draft = ⟨w.nextClient, none⟩ := by
    intro key draft hdraft
    have hcommit : draft ∈ (w.commit (· ++ [⟨w.nextClient, none⟩])).drafts key := hdraft
    rw [commit_drafts] at hcommit
    split_ifs at hcommit with hkey
    · subst hkey
      exact (List.mem_append.mp hcommit).imp_right fun hnew => ⟨rfl, List.mem_singleton.mp hnew⟩
    · exact .inl hcommit
  have htasks : ∀ c task, w.startFile.tasks c = some task →
      c = w.nextClient ∧ task = ⟨w.scopeVersion, .creating, true⟩ ∨
        c ≠ w.nextClient ∧ w.tasks c = some task := fun c task => of_update_some
  have hnew : ∀ u, .created w.nextClient u ∉ w.history :=
    fun u hu => Nat.lt_irrefl _ (h.created_lt _ u hu).1
  refine ⟨?_, ?_, ?_, ?_, ?_, ?_, ?_, ?_, ?_, ?_, h.created_unique, h.cancel_lt, h.left_iff⟩
  · intro c task hget
    obtain ⟨rfl, rfl⟩ | ⟨-, hget⟩ := htasks c task hget
    · exact ⟨Nat.lt_succ_self _, Nat.le_refl _⟩
    · exact ⟨Nat.lt_succ_of_lt (h.task_lt c task hget).1, (h.task_lt c task hget).2⟩
  · intro c task u hget hphase
    obtain ⟨rfl, rfl⟩ | ⟨-, hget⟩ := htasks c task hget
    · exact hnew u
    · exact h.creating c task u hget hphase
  · intro c task u n hget hphase
    obtain ⟨rfl, rfl⟩ | ⟨-, hget⟩ := htasks c task hget
    · cases hphase
    · exact h.uploading c task u n hget hphase
  · intro c task hget hpos
    obtain ⟨rfl, rfl⟩ | ⟨-, hget⟩ := htasks c task hget
    · exact absurd hpos (Nat.lt_irrefl 0)
    · exact h.sending c task hget hpos
  · intro c task n hget hphase hpos hcurrent draft hdraft
    obtain ⟨rfl, rfl⟩ | ⟨hne, hget⟩ := htasks c task hget
    · cases hphase
    · rcases hdrafts _ draft hdraft with hold | ⟨-, rfl⟩
      · exact h.failed c task n hget hphase hpos hcurrent draft hold
      · exact hne.symm
  · intro key draft hdraft
    rcases hdrafts key draft hdraft with hold | ⟨-, rfl⟩
    · exact Nat.lt_succ_of_lt (h.draft_lt key draft hold)
    · exact Nat.lt_succ_self _
  · intro key draft hdraft u hu
    rcases hdrafts key draft hdraft with hold | ⟨-, rfl⟩
    · exact h.draft_created key draft hold u hu
    · cases hu
  · intro key draft hdraft hblank u hu
    rcases hdrafts key draft hdraft with hold | ⟨-, rfl⟩
    · exact h.draft_blank key draft hold hblank u hu
    · exact absurd hu (hnew u)
  · intro key key' draft hdraft draft' hdraft' heq
    rcases hdrafts key draft hdraft with hold | ⟨rfl, rfl⟩ <;>
      rcases hdrafts key' draft' hdraft' with hold' | ⟨rfl, rfl⟩
    · exact h.draft_unique key key' draft hold draft' hold' heq
    · exact absurd heq (Nat.ne_of_lt (h.draft_lt key draft hold))
    · exact absurd heq (Nat.ne_of_gt (h.draft_lt key' draft' hold'))
    · exact ⟨rfl, rfl⟩
  · intro c u hu
    exact ⟨Nat.lt_succ_of_lt (h.created_lt c u hu).1, (h.created_lt c u hu).2⟩

/-- The server has created an upload for a task that has got no further. -/
theorem Tracked.log_created (h : Tracked w) (hc : c < w.nextClient)
    (hnone : ∀ u, .created c u ∉ w.history)
    (hphase : ∀ task, w.tasks c = some task → task.phase ≠ .creating) :
    Tracked { w.log (.created c w.nextUpload) with nextUpload := w.nextUpload + 1 } := by
  have hmem : ∀ e, e ≠ .created c w.nextUpload →
      (e ∈ (w.log (.created c w.nextUpload)).history ↔ e ∈ w.history) := fun _ => mem_log_of_ne
  have hcreated : ∀ c' u, .created c' u ∈ (w.log (.created c w.nextUpload)).history →
      c' = c ∧ u = w.nextUpload ∨ .created c' u ∈ w.history := by
    intro c' u hu
    rcases List.mem_cons.mp hu with heq | hu
    · cases heq
      exact .inl ⟨rfl, rfl⟩
    · exact .inr hu
  have hcancel : ∀ u, .cancel u ∈ (w.log (.created c w.nextUpload)).history ↔
      .cancel u ∈ w.history := fun u => hmem (.cancel u) nofun
  have hfresh : .cancel w.nextUpload ∉ w.history := fun hu => Nat.lt_irrefl _ (h.cancel_lt _ hu)
  refine ⟨h.task_lt, ?_, h.uploading, ?_, h.failed, h.draft_lt, ?_, ?_, h.draft_unique, ?_, ?_, ?_,
    ?_⟩
  · intro c' task u hget hcreating hu
    rcases hcreated c' u hu with ⟨rfl, -⟩ | hu
    · exact hphase task hget hcreating
    · exact h.creating c' task u hget hcreating hu
  · intro c' task hget hpos hcurrent hcancelled
    have hcancelled := (hmem (.cancelled c') nofun).mp hcancelled
    obtain ⟨u, hu, hnot⟩ := h.sending c' task hget hpos hcurrent hcancelled
    exact ⟨u, List.mem_cons_of_mem _ hu, fun hu => hnot ((hcancel u).mp hu)⟩
  · intro key draft hdraft u hu
    exact List.mem_cons_of_mem _ (h.draft_created key draft hdraft u hu)
  · intro key draft hdraft hblank u hu hcancelled
    rcases hcreated _ u hu with ⟨-, rfl⟩ | hu
    · exact hfresh ((hcancel _).mp hcancelled)
    · exact h.draft_blank key draft hdraft hblank u hu ((hcancel u).mp hcancelled)
  · intro c' u hu
    rcases hcreated c' u hu with ⟨rfl, rfl⟩ | hu
    · exact ⟨hc, Nat.lt_succ_self _⟩
    · exact ⟨(h.created_lt c' u hu).1, Nat.lt_succ_of_lt (h.created_lt c' u hu).2⟩
  · intro c₁ u₁ c₂ u₂ h₁ h₂
    rcases hcreated c₁ u₁ h₁ with ⟨rfl, rfl⟩ | hold₁ <;>
      rcases hcreated c₂ u₂ h₂ with ⟨rfl, rfl⟩ | hold₂
    · exact iff_of_true rfl rfl
    · refine iff_of_false (fun heq => ?_) (Nat.ne_of_gt (h.created_lt c₂ u₂ hold₂).2)
      exact hnone u₂ (heq ▸ hold₂)
    · refine iff_of_false (fun heq => ?_) (Nat.ne_of_lt (h.created_lt c₁ u₁ hold₁).2)
      exact hnone u₁ (heq ▸ hold₁)
    · exact h.created_unique c₁ u₁ c₂ u₂ hold₁ hold₂
  · intro u hu
    exact Nat.lt_succ_of_lt (h.cancel_lt u ((hcancel u).mp hu))
  · intro v
    exact (hmem (.left v) nofun).trans (h.left_iff v)

/-- The draft gets the id of its upload. -/
theorem Tracked.commit_uploadId (h : Tracked w) (hu : .created c u ∈ w.history) :
    Tracked (w.commitUploadId c u) := by
  -- a draft is an old one, or it has the id now
  have hdrafts : ∀ key, ∀ draft' ∈ (w.commitUploadId c u).drafts key, ∃ draft ∈ w.drafts key,
      draft'.clientId = draft.clientId ∧
        (draft' = draft ∨ key = w.scope ∧ draft.clientId = c ∧ draft'.uploadId = some u) ∧
        (key = w.scope → draft.clientId = c → draft'.uploadId = some u) := by
    intro key draft' hdraft'
    rw [commitUploadId, commit_drafts] at hdraft'
    split_ifs at hdraft' with hkey
    · obtain ⟨draft, hdraft, rfl⟩ := List.mem_map.mp hdraft'
      subst hkey
      refine ⟨draft, hdraft, ?_⟩
      split_ifs with hc
      · exact ⟨rfl, .inr ⟨rfl, hc, rfl⟩, fun _ _ => rfl⟩
      · exact ⟨rfl, .inl rfl, fun _ heq => absurd heq hc⟩
    · exact ⟨draft', hdraft', rfl, .inl rfl, fun heq => absurd heq hkey⟩
  refine { h with failed := ?_, draft_lt := ?_, draft_created := ?_, draft_blank := ?_,
                  draft_unique := ?_ }
  · intro c' task n hget hphase hpos hcurrent draft' hdraft'
    obtain ⟨draft, hdraft, hid, -⟩ := hdrafts _ draft' hdraft'
    rw [hid]
    exact h.failed c' task n hget hphase hpos hcurrent draft hdraft
  · intro key draft' hdraft'
    obtain ⟨draft, hdraft, hid, -⟩ := hdrafts key draft' hdraft'
    rw [hid]
    exact h.draft_lt key draft hdraft
  · intro key draft' hdraft' u' hu'
    obtain ⟨draft, hdraft, hid, rfl | ⟨-, hc, hnew⟩, -⟩ := hdrafts key draft' hdraft'
    · exact h.draft_created key draft' hdraft u' hu'
    · obtain rfl : u = u' := Option.eq_some_unique hnew hu'
      rw [hid, hc]
      exact hu
  · intro key draft' hdraft' hblank
    obtain ⟨draft, hdraft, hid, rfl | ⟨-, -, hnew⟩, -⟩ := hdrafts key draft' hdraft'
    · exact h.draft_blank key draft' hdraft hblank
    · rw [hnew] at hblank
      cases hblank
  · intro key key' draft₁ h₁ draft₂ h₂ heq
    obtain ⟨old₁, hold₁, hid₁, hcase₁, hnew₁⟩ := hdrafts key draft₁ h₁
    obtain ⟨old₂, hold₂, hid₂, hcase₂, hnew₂⟩ := hdrafts key' draft₂ h₂
    obtain ⟨rfl, rfl⟩ := h.draft_unique key key' old₁ hold₁ old₂ hold₂
      (hid₁.symm.trans (heq.trans hid₂))
    refine ⟨rfl, ?_⟩
    have huploads : draft₁.uploadId = draft₂.uploadId := by
      rcases hcase₁ with rfl | ⟨hkey, hc, hu₁⟩
      · rcases hcase₂ with rfl | ⟨hkey, hc, hu₂⟩
        · rfl
        · rw [hnew₁ hkey hc, hu₂]
      · rw [hu₁, hnew₂ hkey hc]
    cases draft₁
    cases draft₂
    exact congrArg₂ DraftAttachment.mk heq huploads

/-- After a new phase of a task, it is another task, or it has the new phase. -/
theorem of_setPhase {c' : ℕ} {p : UploadPhase} {task' : UploadTask}
    (h : (w.setPhase c p).tasks c' = some task') : ∃ task, w.tasks c' = some task ∧
      task'.scopeVersion = task.scopeVersion ∧
        (c' = c ∧ task'.phase = p ∨ c' ≠ c ∧ task'.phase = task.phase) := by
  obtain ⟨task, htask, rfl⟩ := Option.map_eq_some_iff.mp h
  refine ⟨task, htask, ?_⟩
  dsimp only
  split_ifs with hc
  · exact ⟨rfl, .inl ⟨hc, rfl⟩⟩
  · exact ⟨rfl, .inr ⟨hc, rfl⟩⟩

/-- The task begins to send. -/
theorem Tracked.setPhase_uploading (h : Tracked w) (hu : .created c u ∈ w.history)
    (hnot : .cancel u ∉ w.history)
    (hcurrent : ∀ task, w.tasks c = some task → task.scopeVersion = w.scopeVersion) :
    Tracked (w.setPhase c (.uploading u n)) := by
  refine { h with task_lt := ?_, creating := ?_, uploading := ?_, sending := ?_, failed := ?_ }
  · intro c' task' hget'
    obtain ⟨task, hget, hversion, -⟩ := of_setPhase hget'
    rw [hversion]
    exact h.task_lt c' task hget
  · intro c' task' u' hget' hphase
    obtain ⟨task, hget, -, ⟨-, hnew⟩ | ⟨-, hold⟩⟩ := of_setPhase hget'
    · rw [hnew] at hphase
      cases hphase
    · exact h.creating c' task u' hget (hold.symm.trans hphase)
  · intro c' task' u' m hget' hphase
    obtain ⟨task, hget, hversion, ⟨rfl, -⟩ | ⟨-, hold⟩⟩ := of_setPhase hget'
    · exact hversion.trans (hcurrent task hget)
    · exact hversion.trans (h.uploading c' task u' m hget (hold.symm.trans hphase))
  · intro c' task' hget' hpos hversion' hcancelled
    obtain ⟨task, hget, hversion, ⟨rfl, -⟩ | ⟨-, hold⟩⟩ := of_setPhase hget'
    · exact ⟨u, hu, hnot⟩
    · rw [hold] at hpos
      exact h.sending c' task hget hpos (hversion.symm.trans hversion') hcancelled
  · intro c' task' m hget' hphase hpos hversion'
    obtain ⟨task, hget, hversion, ⟨-, hnew⟩ | ⟨-, hold⟩⟩ := of_setPhase hget'
    · rw [hnew] at hphase
      cases hphase
    · exact h.failed c' task m hget (hold.symm.trans hphase) hpos (hversion.symm.trans hversion')

theorem setPhase_setPhase (p p' : UploadPhase) :
    (w.setPhase c p).setPhase c p' = w.setPhase c p' := by
  have htasks : ((w.setPhase c p).setPhase c p').tasks = (w.setPhase c p').tasks := by
    funext c'
    change ((w.tasks c').map _).map _ = (w.tasks c').map _
    rw [Option.map_map]
    congr 1
    funext task
    by_cases hc : c' = c <;> simp [hc]
  change { w with tasks := ((w.setPhase c p).setPhase c p').tasks } = _
  rw [htasks]
  rfl

theorem Tracked.createAnswered (h : Tracked w) (htask : w.tasks c = some task)
    (hphase : task.phase = .creating) (workers : ℕ) :
    Tracked (w.createAnswered c workers task) := by
  have hended : Tracked (w.setPhase c (.ended 0)) := h.ebb (ebbs_setPhase_ended_zero c)
  have hcreated := hended.log_created (h.task_lt c task htask).1
    (fun u => h.creating c task u htask hphase) fun task' hget hcreating => by
      obtain ⟨-, -, -, ⟨-, hnew⟩ | ⟨hne, -⟩⟩ := of_setPhase hget
      · rw [hnew] at hcreating
        cases hcreating
      · exact hne rfl
  rw [AttachmentUploads.createAnswered]
  split_ifs with hcurrent
  · have hsent := (hcreated.commit_uploadId (List.mem_cons_self ..)).setPhase_uploading
      (List.mem_cons_self ..)
      (fun hu => Nat.lt_irrefl _ (h.cancel_lt _ ((List.mem_cons.mp hu).resolve_left nofun)))
      (n := workers) fun task' hget => by
        obtain ⟨task'', hget', hversion, -⟩ := of_setPhase hget
        obtain rfl : task = task'' := Option.eq_some_unique htask hget'
        exact hversion.trans hcurrent
    rw [← setPhase_setPhase (.ended 0)]
    exact hsent
  · exact hcreated

/-- The user cancels a file that is not being sent. -/
theorem Tracked.log_cancelled (h : Tracked w)
    (hidle : ∀ task, w.tasks c = some task → task.scopeVersion = w.scopeVersion →
      task.phase.workers = 0) : Tracked (w.log (.cancelled c)) := by
  have hcancel : ∀ u, .cancel u ∈ (w.log (.cancelled c)).history ↔ .cancel u ∈ w.history :=
    fun u => mem_log_of_ne nofun
  refine h.log nofun nofun ?_ ?_ ?_ <;> simp only [hcancel]
  · intro c' task hget hpos hcurrent hcancelled
    rcases List.mem_cons.mp hcancelled with heq | hcancelled
    · cases heq
      rw [hidle task hget hcurrent] at hpos
      exact absurd hpos (Nat.lt_irrefl 0)
    · exact h.sending c' task hget hpos hcurrent hcancelled
  · exact h.draft_blank
  · exact h.cancel_lt

/-- The upload of a draft that is not being sent is cancelled. -/
theorem Tracked.log_cancel {key : DraftScope} (h : Tracked w) (hdraft : draft ∈ w.drafts key)
    (hu : draft.uploadId = some u)
    (hidle : ∀ task, w.tasks draft.clientId = some task → task.scopeVersion = w.scopeVersion →
      task.phase.workers = 0) : Tracked (w.log (.cancel u)) := by
  have hof := h.draft_created key draft hdraft u hu
  refine h.log nofun nofun ?_ ?_ ?_
  · intro c' task hget hpos hcurrent hcancelled
    have hbefore : .cancelled c' ∈ w.history := (List.mem_cons.mp hcancelled).resolve_left nofun
    obtain ⟨u', hu', hnot⟩ := h.sending c' task hget hpos hcurrent hbefore
    refine ⟨u', hu', fun hcancel => ?_⟩
    rcases List.mem_cons.mp hcancel with heq | hcancel
    · -- an upload is one of one file only, and this one is not being sent
      cases heq
      obtain rfl : draft.clientId = c' := (h.created_unique _ _ _ _ hof hu').mpr rfl
      rw [hidle task hget hcurrent] at hpos
      exact absurd hpos (Nat.lt_irrefl 0)
    · exact hnot hcancel
  · intro key' draft' hdraft' hblank u' hu' hcancel
    rcases List.mem_cons.mp hcancel with heq | hcancel
    · -- the file has one draft only, and it has the id
      cases heq
      have hid := (h.created_unique _ _ _ _ hof hu').mpr rfl
      obtain ⟨-, rfl⟩ := h.draft_unique key key' draft hdraft draft' hdraft' hid
      rw [hu] at hblank
      cases hblank
    · exact h.draft_blank key' draft' hdraft' hblank u' hu' hcancel
  · intro u' hcancel
    rcases List.mem_cons.mp hcancel with heq | hcancel
    · cases heq
      exact (h.created_lt _ u hof).2
    · exact h.cancel_lt u' hcancel

theorem ebbs_cancelling (cancelling : List ℕ) : Ebbs w { w with cancelling } :=
  ⟨rfl, rfl, rfl, rfl, rfl, fun _ _ h => h, fun _ task h => ⟨task, h, rfl, .refl _, leaves_self⟩⟩

theorem workers_abort {p : UploadPhase} (h : 0 < p.abort.workers) :
    ∃ n, p = .ended n ∧ 0 < n := by
  cases p with
  | ended n => exact ⟨n, rfl, h⟩
  | creating | uploading | confirming => exact absurd h (Nat.lt_irrefl 0)

/-- A file that is among the drafts is not being sent when its task has been aborted. -/
theorem Tracked.abort_idle (h : Tracked w) (hdraft : draft ∈ w.attachments) :
    ∀ task, (w.abort draft.clientId).tasks draft.clientId = some task →
      task.scopeVersion = (w.abort draft.clientId).scopeVersion → task.phase.workers = 0 := by
  intro task' hget hcurrent
  obtain ⟨task, htask, rfl⟩ := Option.map_eq_some_iff.mp hget
  dsimp only at hcurrent ⊢
  rw [if_pos rfl] at hcurrent ⊢
  by_contra hpos
  -- an abort leaves only the workers of a failed task, and such a task has no draft
  obtain ⟨n, hn, hn_pos⟩ := workers_abort (Nat.pos_of_ne_zero hpos)
  exact h.failed _ task n htask hn hn_pos hcurrent draft hdraft rfl

/-- What `cancelAttachment` does. -/
theorem Tracked.cancelAttachment_cases (h : Tracked w) (c : ℕ) :
    (∀ draft ∈ w.attachments, draft.clientId ≠ c) ∧ w.cancelAttachment c = w ∨
    ∃ draft ∈ w.attachments, draft.clientId = c ∧
      Tracked ((w.abort c).log (.cancelled c)) ∧
      ((∃ u, draft.uploadId = some u ∧ Tracked (((w.abort c).log (.cancelled c)).log (.cancel u)) ∧
        w.cancelAttachment c = { ((w.abort c).log (.cancelled c)).log (.cancel u) with
          cancelling := c :: w.cancelling }) ∨
      draft.uploadId = none ∧
        w.cancelAttachment c = ((w.abort c).log (.cancelled c)).forget c) := by
  rw [AttachmentUploads.cancelAttachment]
  cases hfind : w.attachments.find? (·.clientId == c) with
  | none =>
    refine .inl ⟨fun draft hdraft heq => ?_, rfl⟩
    exact List.find?_eq_none.mp hfind draft hdraft (beq_iff_eq.mpr heq)
  | some draft =>
    have hdraft := List.mem_of_find?_eq_some hfind
    have hid := List.find?_some hfind
    obtain rfl : draft.clientId = c := beq_iff_eq.mp hid
    have hidle := h.abort_idle hdraft
    have hcancelled := (h.ebb (ebbs_abort draft.clientId)).log_cancelled hidle
    refine .inr ⟨draft, hdraft, rfl, hcancelled, ?_⟩
    cases hu : draft.uploadId with
    | none => exact .inr ⟨rfl, by simp only [hu]⟩
    | some u => exact .inl ⟨u, rfl, hcancelled.log_cancel hdraft hu hidle, by simp only [hu]; rfl⟩

theorem Tracked.cancelAttachment (h : Tracked w) (c : ℕ) : Tracked (w.cancelAttachment c) := by
  obtain ⟨-, heq⟩ | ⟨draft, -, -, hcancelled, ⟨u, -, hcancel, heq⟩ | ⟨-, heq⟩⟩ :=
    h.cancelAttachment_cases c
  · rwa [heq]
  · rw [heq]
    exact hcancel.ebb (ebbs_cancelling _)
  · rw [heq]
    exact hcancelled.ebb (ebbs_forget c)

theorem Tracked.setScope (h : Tracked w) (scope : DraftScope) (cleared : DraftScope → Bool) :
    Tracked (w.setScope scope cleared) := by
  have hd : Tracked (w.discardLocalAttachments fun _ => true) :=
    h.ebb (ebbs_discardLocalAttachments _)
  have hmem : ∀ e, e ≠ .left w.scopeVersion →
      (e ∈ (w.setScope scope cleared).history ↔ e ∈ w.history) := fun _ => mem_log_of_ne
  have hcreated : ∀ c u, .created c u ∈ (w.setScope scope cleared).history ↔
      .created c u ∈ w.history := fun c u => hmem (.created c u) nofun
  have hcancel : ∀ u, .cancel u ∈ (w.setScope scope cleared).history ↔ .cancel u ∈ w.history :=
    fun u => hmem (.cancel u) nofun
  have hdrafts : ∀ key, (w.setScope scope cleared).drafts key ⊆ w.drafts key := by
    intro key draft hdraft
    dsimp only [AttachmentUploads.setScope] at hdraft
    split_ifs at hdraft
    all_goals first | exact hdraft | cases hdraft
  -- a task of an earlier scope is not one of the new scope
  have hold : ∀ c task, (w.setScope scope cleared).tasks c = some task →
      task.scopeVersion ≠ (w.setScope scope cleared).scopeVersion := by
    intro c task hget heq
    have hle := (hd.task_lt c task hget).2
    rw [heq] at hle
    exact Nat.not_succ_le_self _ hle
  refine ⟨?_, ?_, ?_, ?_, ?_, ?_, ?_, ?_, ?_, ?_, ?_, ?_, ?_⟩
  · intro c task hget
    exact ⟨(hd.task_lt c task hget).1, Nat.le_succ_of_le (hd.task_lt c task hget).2⟩
  · simp only [hcreated]
    exact hd.creating
  · intro c task' u n hget hphase
    obtain ⟨task, -, rfl⟩ := Option.map_eq_some_iff.mp hget
    obtain ⟨m, hm⟩ : ∃ m, task.phase.abort = .uploading u m := ⟨n, hphase⟩
    cases hp : task.phase <;> rw [hp] at hm <;> cases hm
  · exact fun c task hget _ hcurrent => absurd hcurrent (hold c task hget)
  · exact fun c task n hget _ _ hcurrent => absurd hcurrent (hold c task hget)
  · exact fun key draft hdraft => h.draft_lt key draft (hdrafts key hdraft)
  · simp only [hcreated]
    exact fun key draft hdraft => h.draft_created key draft (hdrafts key hdraft)
  · simp only [hcreated, hcancel]
    exact fun key draft hdraft => h.draft_blank key draft (hdrafts key hdraft)
  · exact fun key key' draft hdraft draft' hdraft' =>
      h.draft_unique key key' draft (hdrafts key hdraft) draft' (hdrafts key' hdraft')
  · simp only [hcreated]
    exact h.created_lt
  · simp only [hcreated]
    exact h.created_unique
  · simp only [hcancel]
    exact h.cancel_lt
  · intro v
    refine List.mem_cons.trans ?_
    rw [show UploadEvent.left v = .left w.scopeVersion ↔ v = w.scopeVersion by simp]
    have hleft : UploadEvent.left v ∈ w.history ↔ v < w.scopeVersion := h.left_iff v
    change v = w.scopeVersion ∨ UploadEvent.left v ∈ w.history ↔ v < w.scopeVersion + 1
    rw [hleft]
    omega

/-- The worker of an upload is the last one, or not. -/
theorem partsSent_cases (htask : w.tasks c = some task) :
    Ebbs w (w.partsSent c task) ∨
      ∃ u, task.phase = .uploading u 1 ∧ Ebbs (w.log (.confirm c task.scopeVersion))
        (w.partsSent c task) := by
  rw [partsSent]
  have hwanes : ∀ {p : UploadPhase} (w' : AttachmentUploads), w'.tasks = w.tasks →
      task.phase.Wanes p → (∀ n, p ≠ .ended n) → Ebbs w' (w'.setPhase c p) := by
    intro p w' htasks hp hne
    refine ebbs_setPhase fun task' htask' => ?_
    rw [htasks] at htask'
    obtain rfl : task = task' := Option.eq_some_unique htask htask'
    exact ⟨hp, fun n hn => absurd hn (hne n)⟩
  split
  · next u hphase =>
    split_ifs
    · refine .inr ⟨u, hphase, hwanes _ rfl ⟨nofun, nofun, Nat.zero_le _⟩ nofun⟩
    · exact .inl (ebbs_setPhase_ended_zero c)
  · next u n _ hphase =>
    refine .inl (hwanes w rfl ⟨nofun, fun u' m heq => ?_, ?_⟩ nofun)
    · cases heq
      exact ⟨n, hphase⟩
    · rw [hphase]
      exact Nat.sub_le n 1
  · next hphase => exact .inl (ebbs_setPhase_ended htask hphase)
  · exact .inl (.refl w)
  · exact .inl (.refl w)

theorem guarded_eq_some {p : UploadTask → Prop} [DecidablePred p]
    {next : UploadTask → AttachmentUploads}
    (h : (do let task ← w.tasks c; guard (p task); return next task) = some w') :
    ∃ task, w.tasks c = some task ∧ p task ∧ w' = next task := by
  obtain ⟨task, htask, hnext⟩ := Option.bind_eq_some_iff.mp h
  obtain ⟨_, hguard, heq⟩ := Option.bind_eq_some_iff.mp hnext
  by_cases hp : p task
  · exact ⟨task, htask, hp, (Option.some.inj heq).symm⟩
  · rw [guard, if_neg hp] at hguard
    cases hguard

/-- What a step does: it begins nothing and is timely, or it is one of the seven that do. -/
theorem uploadStep_cases {action : UploadAction} (hstep : uploadStep w action = some w') :
    (Ebbs w w' ∧ w.Timely action) ∨
    (action = .startFile ∧ w' = w.startFile) ∨
    (∃ c workers task, action = .created c workers ∧ w.tasks c = some task ∧
      task.phase = .creating ∧ w' = w.createAnswered c workers task) ∨
    (∃ c task, action = .put c ∧ w.tasks c = some task ∧ 0 < task.phase.workers ∧
      w' = w.log (.put c task.scopeVersion)) ∨
    (∃ c u task, action = .partsSent c ∧ w.tasks c = some task ∧ task.phase = .uploading u 1 ∧
      Ebbs (w.log (.confirm c task.scopeVersion)) w') ∨
    (∃ c, action = .cancelAttachment c ∧ w' = w.cancelAttachment c) ∨
    (∃ c, action = .retryAttachment c ∧ w' = (w.forget c).startFile) ∨
    ∃ scope cleared, action = .setScope scope cleared ∧ w' = w.setScope scope cleared := by
  -- what none of the named cases lists only ebbs
  cases action with
  | startFile =>
    cases hstep
    exact .inr (.inl ⟨rfl, rfl⟩)
  | created c workers =>
    obtain ⟨task, htask, ⟨hphase, -⟩, rfl⟩ := guarded_eq_some hstep
    exact .inr (.inr (.inl ⟨c, workers, task, rfl, htask, hphase, rfl⟩))
  | createFailed =>
    obtain ⟨task, htask, -, rfl⟩ := guarded_eq_some hstep
    exact .inl ⟨ebbs_caught htask (Nat.zero_le _), trivial⟩
  | put c =>
    obtain ⟨task, htask, hpos, rfl⟩ := guarded_eq_some hstep
    exact .inr (.inr (.inr (.inl ⟨c, task, rfl, htask, hpos, rfl⟩)))
  | partsSent c =>
    obtain ⟨task, htask, -, rfl⟩ := guarded_eq_some hstep
    rcases partsSent_cases htask with hebb | ⟨u, hphase, hebb⟩
    · exact .inl ⟨hebb, trivial⟩
    · exact .inr (.inr (.inr (.inr (.inl ⟨c, u, task, rfl, htask, hphase, hebb⟩))))
  | partFailed =>
    obtain ⟨task, htask, -, rfl⟩ := guarded_eq_some hstep
    exact .inl ⟨ebbs_partFailed htask, trivial⟩
  | confirmed c rejected =>
    obtain ⟨task, htask, hnext⟩ := Option.bind_eq_some_iff.mp hstep
    split at hnext
    · cases hnext
      exact .inl ⟨ebbs_confirmAnswered htask rejected, trivial⟩
    · cases hnext
  | cancelAttachment c =>
    cases hstep
    exact .inr (.inr (.inr (.inr (.inr (.inl ⟨c, rfl, rfl⟩)))))
  | cancelAnswered c =>
    obtain ⟨-, -, hnext⟩ := Option.bind_eq_some_iff.mp hstep
    cases hnext
    refine .inl ⟨?_, trivial⟩
    split_ifs
    · exact ebbs_cancelling _
    · exact (ebbs_cancelling _).trans (ebbs_forget c)
  | retryAttachment c =>
    cases hstep
    rw [AttachmentUploads.retryAttachment]
    split_ifs
    · exact .inr (.inr (.inr (.inr (.inr (.inr (.inl ⟨c, rfl, rfl⟩))))))
    · exact .inl ⟨.refl w, trivial⟩
  | polled u =>
    cases hstep
    exact .inl ⟨ebbs_dropUpload u, trivial⟩
  | removeImages images =>
    cases hstep
    exact .inl ⟨ebbs_removeImages images, trivial⟩
  | clear =>
    cases hstep
    exact .inl ⟨ebbs_clear, trivial⟩
  | setScope scope cleared =>
    cases hstep
    exact .inr (.inr (.inr (.inr (.inr (.inr (.inr ⟨scope, cleared, rfl, rfl⟩))))))

/-- **Step.** -/
theorem Tracked.step {action : UploadAction} (h : Tracked w)
    (hstep : uploadStep w action = some w') : Tracked w' := by
  obtain ⟨hebb, -⟩ | ⟨-, rfl⟩ | ⟨c, workers, task, -, htask, hphase, rfl⟩ |
    ⟨c, task, -, -, -, rfl⟩ | ⟨c, u, task, -, -, -, hebb⟩ | ⟨c, -, rfl⟩ | ⟨c, -, rfl⟩ |
    ⟨scope, cleared, -, rfl⟩ := uploadStep_cases hstep
  · exact h.ebb hebb
  · exact h.startFile
  · exact h.createAnswered htask hphase workers
  · exact h.log_request (.inl ⟨c, _, rfl⟩)
  · exact (h.log_request (.inr ⟨c, _, rfl⟩)).ebb hebb
  · exact h.cancelAttachment c
  · exact (h.ebb (ebbs_forget c)).startFile
  · exact h.setScope scope cleared

/-! ### When a step is safe -/

theorem Safe.of_history (hsafe : Safe w) (h : w'.history = w.history) : Safe w' := by
  obtain ⟨htime, hcancelled⟩ := hsafe
  rw [← h] at htime hcancelled
  exact ⟨htime, hcancelled⟩

theorem safe_congr (h : w'.history = w.history) : Safe w' ↔ Safe w :=
  ⟨fun hsafe => hsafe.of_history h.symm, fun hsafe => hsafe.of_history h⟩

/-- A request of a task is in time exactly if it is neither late for its scope nor for its file. -/
theorem safe_log_request {event : UploadEvent} {v : ℕ} (hsafe : Safe w)
    (hevent : event = .put c v ∨ event = .confirm c v) :
    Safe (w.log event) ↔ .cancelled c ∉ w.history ∧ .left v ∉ w.history := by
  have hoverdue : ∀ earlier,
      event.Overdue earlier ↔ earlier = .cancelled c ∨ earlier = .left v := by
    intro earlier
    rcases hevent with rfl | rfl <;> cases earlier <;>
      simp [UploadEvent.Overdue, eq_comm]
  constructor
  · intro h
    have hhead := (List.pairwise_cons.mp h.in_time).1
    exact ⟨fun hc => hhead _ hc ((hoverdue _).mpr (.inl rfl)),
      fun hv => hhead _ hv ((hoverdue _).mpr (.inr rfl))⟩
  · rintro ⟨hc, hv⟩
    refine ⟨List.pairwise_cons.mpr ⟨fun earlier hearlier hlate => ?_, hsafe.in_time⟩, ?_⟩
    · rcases (hoverdue earlier).mp hlate with rfl | rfl
      · exact hc hearlier
      · exact hv hearlier
    · intro c' u hcancelled hcreated
      have hother : ∀ e, (e = .cancelled c' ∨ e = .created c' u) → e ≠ event := by
        rintro e he rfl
        rcases hevent with rfl | rfl <;> rcases he with he | he <;> cases he
      have hcancelled := (mem_log_of_ne (hother _ (.inl rfl))).mp hcancelled
      have hcreated := (mem_log_of_ne (hother _ (.inr rfl))).mp hcreated
      exact List.mem_cons_of_mem _ (hsafe.cancelled c' u hcancelled hcreated)

/-- A task that sends in its scope sends a file that has not been cancelled. -/
theorem Tracked.not_cancelled (h : Tracked w) (hsafe : Safe w) (htask : w.tasks c = some task)
    (hpos : 0 < task.phase.workers) (hcurrent : task.scopeVersion = w.scopeVersion) :
    .cancelled c ∉ w.history := by
  intro hcancelled
  obtain ⟨u, hu, hnot⟩ := h.sending c task htask hpos hcurrent hcancelled
  exact hnot (hsafe.cancelled c u hcancelled hu)

theorem Tracked.safe_put_iff (h : Tracked w) (hsafe : Safe w) (htask : w.tasks c = some task)
    (hpos : 0 < task.phase.workers) :
    Safe (w.log (.put c task.scopeVersion)) ↔ task.scopeVersion = w.scopeVersion := by
  rw [safe_log_request hsafe (.inl rfl), h.left_iff]
  constructor
  · rintro ⟨-, hle⟩
    exact Nat.le_antisymm (h.task_lt c task htask).2 (Nat.le_of_not_lt hle)
  · intro hcurrent
    exact ⟨h.not_cancelled hsafe htask hpos hcurrent, by omega⟩

/-- A confirmation is always in time. -/
theorem Tracked.safe_confirm (h : Tracked w) (hsafe : Safe w) (htask : w.tasks c = some task)
    (hphase : task.phase = .uploading u 1) : Safe (w.log (.confirm c task.scopeVersion)) := by
  have hcurrent := h.uploading c task u 1 htask hphase
  rw [safe_log_request hsafe (.inr rfl), h.left_iff]
  refine ⟨h.not_cancelled hsafe htask ?_ hcurrent, by omega⟩
  rw [hphase]
  exact Nat.one_pos

/-- Other events are never late. -/
theorem pairwise_log {event : UploadEvent} (hsafe : Safe w)
    (hevent : ∀ earlier, ¬event.Overdue earlier) :
    (w.log event).history.Pairwise fun later earlier => ¬later.Overdue earlier :=
  List.pairwise_cons.mpr ⟨fun earlier _ => hevent earlier, hsafe.in_time⟩

theorem createAnswered_history (workers : ℕ) :
    (w.createAnswered c workers task).history = .created c w.nextUpload :: w.history := by
  rw [AttachmentUploads.createAnswered]
  split_ifs <;> rfl

theorem Tracked.safe_created_iff (h : Tracked w) (hsafe : Safe w) (workers : ℕ) :
    Safe (w.createAnswered c workers task) ↔ .cancelled c ∉ w.history := by
  have hcongr : Safe (w.createAnswered c workers task) ↔ Safe (w.log (.created c w.nextUpload)) :=
    safe_congr (createAnswered_history workers)
  rw [hcongr]
  constructor
  · intro hafter hcancelled
    -- nobody knows the id of the upload yet, so nobody has cancelled it
    have hcancel := hafter.cancelled c w.nextUpload (List.mem_cons_of_mem _ hcancelled)
      (List.mem_cons_self ..)
    exact Nat.lt_irrefl _ (h.cancel_lt _ ((List.mem_cons.mp hcancel).resolve_left nofun))
  · intro hnot
    refine ⟨pairwise_log hsafe fun earlier => ?_, fun c' u hcancelled hcreated => ?_⟩
    · cases earlier <;> exact id
    · have hcancelled := (List.mem_cons.mp hcancelled).resolve_left nofun
      rcases List.mem_cons.mp hcreated with heq | hcreated
      · cases heq
        exact absurd hcancelled hnot
      · exact List.mem_cons_of_mem _ (hsafe.cancelled c' u hcancelled hcreated)

theorem safe_left (hsafe : Safe w) (v : ℕ) : Safe (w.log (.left v)) := by
  refine ⟨pairwise_log hsafe fun earlier => ?_, fun c u hcancelled hcreated => ?_⟩
  · cases earlier <;> exact id
  · exact List.mem_cons_of_mem _ (hsafe.cancelled c u
      ((List.mem_cons.mp hcancelled).resolve_left nofun)
      ((List.mem_cons.mp hcreated).resolve_left nofun))

/-- A file is cancelled safely exactly if its draft has the id of an upload, or there is none. -/
theorem Tracked.safe_cancelAttachment_iff (h : Tracked w) (hsafe : Safe w) (c : ℕ) :
    Safe (w.cancelAttachment c) ↔ w.Timely (.cancelAttachment c) := by
  obtain ⟨hnone, heq⟩ | ⟨draft, hdraft, rfl, -, ⟨u, hu, -, heq⟩ | ⟨hblank, heq⟩⟩ :=
    h.cancelAttachment_cases c
  · rw [heq]
    exact iff_of_true hsafe fun draft hdraft hc => absurd hc (hnone draft hdraft)
  · have hcongr : Safe (w.cancelAttachment draft.clientId) ↔
        Safe ((w.log (.cancelled draft.clientId)).log (.cancel u)) := by
      rw [heq]
      exact safe_congr rfl
    rw [hcongr]
    refine iff_of_true ⟨?_, fun c' u' hcancelled hcreated => ?_⟩ fun draft' hdraft' hid hnone => ?_
    · refine List.pairwise_cons.mpr ⟨fun earlier _ => ?_, pairwise_log hsafe fun earlier => ?_⟩ <;>
        cases earlier <;> exact id
    · have hcreated := (List.mem_cons.mp hcreated).resolve_left nofun
      have hcreated := (List.mem_cons.mp hcreated).resolve_left nofun
      have hcancelled := (List.mem_cons.mp hcancelled).resolve_left nofun
      rcases List.mem_cons.mp hcancelled with hid | hcancelled
      · -- the upload of the draft is the only one of the file
        cases hid
        have hof := h.draft_created _ draft hdraft u hu
        obtain rfl := (h.created_unique _ _ _ _ hof hcreated).mp rfl
        exact List.mem_cons_self ..
      · exact List.mem_cons_of_mem _ (List.mem_cons_of_mem _
          (hsafe.cancelled c' u' hcancelled hcreated))
    · obtain ⟨-, rfl⟩ := h.draft_unique _ _ draft' hdraft' draft hdraft hid
      rw [hu] at hnone
      cases hnone
  · have hcongr : Safe (w.cancelAttachment draft.clientId) ↔
        Safe (w.log (.cancelled draft.clientId)) := by
      rw [heq]
      exact safe_congr rfl
    rw [hcongr]
    constructor
    · intro hafter draft' hdraft' hid hnone u hcreated
      have hcancel := hafter.cancelled draft.clientId u (List.mem_cons_self ..)
        (List.mem_cons_of_mem _ hcreated)
      exact h.draft_blank _ draft hdraft hblank u hcreated
        ((List.mem_cons.mp hcancel).resolve_left nofun)
    · intro htimely
      have hnone := htimely draft hdraft rfl hblank
      refine ⟨pairwise_log hsafe fun earlier => ?_, fun c' u hcancelled hcreated => ?_⟩
      · cases earlier <;> exact id
      · have hcreated := (List.mem_cons.mp hcreated).resolve_left nofun
        rcases List.mem_cons.mp hcancelled with hid | hcancelled
        · cases hid
          exact absurd hcreated (hnone u)
        · exact List.mem_cons_of_mem _ (hsafe.cancelled c' u hcancelled hcreated)

/-- **Step.** A step of a safe state leads to a safe state exactly if it is timely. -/
theorem Tracked.safe_step_iff {action : UploadAction} (h : Tracked w) (hsafe : Safe w)
    (hstep : uploadStep w action = some w') : Safe w' ↔ w.Timely action := by
  obtain ⟨hebb, htimely⟩ | ⟨rfl, rfl⟩ | ⟨c, workers, task, rfl, htask, hphase, rfl⟩ |
    ⟨c, task, rfl, htask, hpos, rfl⟩ | ⟨c, u, task, rfl, htask, hphase, hebb⟩ | ⟨c, rfl, rfl⟩ |
    ⟨c, rfl, rfl⟩ | ⟨scope, cleared, rfl, rfl⟩ := uploadStep_cases hstep
  · exact iff_of_true (hsafe.of_history hebb.history) htimely
  · exact iff_of_true (hsafe.of_history rfl) trivial
  · exact h.safe_created_iff hsafe workers
  · rw [h.safe_put_iff hsafe htask hpos]
    constructor
    · rintro hcurrent task' htask'
      obtain rfl : task = task' := Option.eq_some_unique htask htask'
      exact hcurrent
    · exact fun htimely => htimely task htask
  · exact iff_of_true ((h.safe_confirm hsafe htask hphase).of_history hebb.history) trivial
  · exact h.safe_cancelAttachment_iff hsafe c
  · exact iff_of_true (hsafe.of_history rfl) trivial
  · exact iff_of_true ((safe_left hsafe w.scopeVersion).of_history rfl) trivial

theorem safe_init (scope : DraftScope) : Safe (init scope) := ⟨.nil, nofun⟩

end AttachmentUploads

open AttachmentUploads

/-- In every state of an execution, nothing has been sent or confirmed for a file after it was
cancelled or its scope left, and every upload of a cancelled file is cancelled, exactly if the
execution is timely. -/
theorem uploads_safe_iff (scope : DraftScope) (actions : List UploadAction)
    {w : AttachmentUploads} (hrun : run uploadStep (init scope) actions = some w) :
    Throughout uploadStep Safe (init scope) actions ↔
      Along uploadStep Timely (init scope) actions :=
  throughout_iff_along (fun _ _ _ h hstep => Tracked.step h hstep)
    (fun _ _ _ h hsafe hstep => Tracked.safe_step_iff h hsafe hstep) (tracked_init scope)
    (safe_init scope) hrun

/-- A file is cancelled while its upload is being created. -/
def cancelWhileCreating : List UploadAction := [.startFile, .cancelAttachment 0, .created 0 1]

theorem uploads_safe_iff_cancelWhileCreating :
    ¬Throughout uploadStep Safe (init (some 0, 0)) cancelWhileCreating := by
  rw [uploads_safe_iff (some 0, 0) cancelWhileCreating rfl]
  rintro ⟨-, -, hnot, -⟩
  exact hnot (by decide)

end IChat.Frontend
