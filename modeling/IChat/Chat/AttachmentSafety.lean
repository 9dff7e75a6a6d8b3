import IChat.Chat.Sessions
import IChat.General.StepSystem
import Mathlib.Data.List.Dedup

/-!
# Attached files are safe

The invariant of the system (`Safe`): threads, transcripts and assets are in order, and every
transaction that holds a conversation has read what is still so. `step_safe` carries it through a
step, together with what the step leaves alone: all conversations but the one it has locked
(`StepSafe`).

`attachedFiles_safe` draws the conclusions: what is shown is not deleted, what is bound is not
cancelled, and an asset that is accepted unbound is bound to the new message, for good.
-/

namespace IChat.Chat

open Files Conversations StepSystem

variable {env : Env} {w w' : ChatWorld} {action : Action}

/-! ### The invariant of the system -/

/-- The invariant of the system. -/
structure Safe (loads : String → Option Json) (w : ChatWorld) : Prop where
  wellFormed : WellFormed loads w.db.toConversationTables
  attached : Attached w.db
  sessions : ∀ c session, w.sessions c = some session → SessionOk c w.db session

theorem safe_init {loads : String → Option Json} : Safe loads .init :=
  ⟨wellFormed_empty, attached_empty, fun _ _ hsession => by cases hsession⟩

/-- What a step does beside what it is for: it disturbs no conversation but the one that it touches,
and a transaction that holds one has begun before or has just made its reads. -/
structure StepSafe (touched : Option ℕ) (w w' : ChatWorld) : Prop where
  attached : Attached w'.db
  undisturbed : ∀ c, touched ≠ some c → Undisturbed c w.db w'.db
  sessions : ∀ c session, w'.sessions c = some session →
    touched ≠ some c ∧ w.sessions c = some session ∨ SessionOk c w'.db session

/-- The database is as it was. -/
theorem Undisturbed.refl (c : ℕ) (db : FileDb) : Undisturbed c db db :=
  ⟨fun _ _ => Iff.rfl, fun r hr => .inl ⟨r, hr, rfl, rfl⟩, fun _ _ _ => rfl, fun _ _ => rfl,
    fun _ _ hc => .inl hc, fun _ row' hrow' _ => ⟨row', hrow', .refl row'⟩, le_rfl⟩

namespace StepSafe

/-- A step that does not touch the sessions. -/
theorem of_db {touched : Option ℕ} (hattached : Attached w'.db)
    (hundisturbed : ∀ c, touched ≠ some c → Undisturbed c w.db w'.db)
    (hsame : w'.sessions = w.sessions) (hunlocked : ∀ c, touched = some c → w.Unlocked c) :
    StepSafe touched w w' := by
  refine ⟨hattached, hundisturbed, fun c session hsession => .inl ⟨fun htouched => ?_, ?_⟩⟩
  · rw [hsame, hunlocked c htouched] at hsession
    cases hsession
  · rw [← hsame]
    exact hsession

/-- A step that ends a session. -/
theorem of_commit {c : ℕ} {touched : Option ℕ} (htouched : ∀ c', touched = some c' → c' = c)
    (hattached : Attached w'.db)
    (hundisturbed : ∀ c, touched ≠ some c → Undisturbed c w.db w'.db)
    (hsame : w'.sessions = Function.update w.sessions c none) : StepSafe touched w w' := by
  refine ⟨hattached, hundisturbed, fun c' session hsession => .inl ⟨fun hc' => ?_, ?_⟩⟩
  · rw [htouched c' hc', hsame, Function.update_self] at hsession
    cases hsession
  · by_cases heq : c' = c
    · rw [heq, hsame, Function.update_self] at hsession
      cases hsession
    · rw [hsame, Function.update_of_ne heq] at hsession
      exact hsession

/-- A step that makes the reads of a session. -/
theorem of_session {c : ℕ} {session : Session} (hattached : Attached w.db)
    (hok : SessionOk c w.db session) : StepSafe none w (w.setSession c (some session)) := by
  refine ⟨hattached, fun c' _ => .refl c' w.db, fun c' session' hsession => ?_⟩
  by_cases heq : c' = c
  · subst heq
    change Function.update w.sessions c' (some session) c' = _ at hsession
    rw [Function.update_self] at hsession
    cases hsession
    exact .inr hok
  · change Function.update w.sessions c (some session) c' = _ at hsession
    rw [Function.update_of_ne heq] at hsession
    exact .inl ⟨nofun, hsession⟩

/-- A transaction of the files domain. -/
theorem of_fileEffect {db : FileDb} (h : Attached w.db) (heffect : FileEffect w.db db) :
    StepSafe none w { w with db } :=
  of_db (h.fileEffect heffect) (fun _ _ => h.undisturbed_fileEffect heffect) rfl nofun

/-- A step of the conversations that keeps the messages. -/
theorem of_messages_eq {tables : ConversationTables} (h : Attached w.db)
    (hmessages : tables.messages = w.db.messages)
    (hruns : ∀ r ∈ tables.runs, (∃ r₀ ∈ w.db.runs, r₀.id = r.id ∧
      r₀.userMessageId = r.userMessageId) ∨ w.db.runs.next ≤ r.id) :
    StepSafe none w { w with db := { w.db with toConversationTables := tables } } := by
  have hkept : MessagesKept w.db.toConversationTables tables := .of_eq hmessages
  refine of_db (h.messages hkept rfl rfl) (fun c _ => ?_) rfl nofun
  exact h.undisturbed_messages hkept (fun m _ => by rw [← hmessages]) hruns rfl rfl

/-- The reads of whoever holds a conversation that the step leaves alone are still good. -/
theorem safe {loads : String → Option Json} {touched : Option ℕ} (h : StepSafe touched w w')
    (hw : Safe loads w) (hwellFormed : WellFormed loads w'.db.toConversationTables) :
    Safe loads w' := by
  refine ⟨hwellFormed, h.attached, fun c session hsession => ?_⟩
  rcases h.sessions c session hsession with ⟨hne, hold⟩ | hok
  · exact (hw.sessions c session hold).undisturbed (h.undisturbed c hne)
      hw.wellFormed.recordings.runId_lt
  · exact hok

end StepSafe

/-! ### Turns -/

section turns

variable {loads : String → Option Json} {request : RunRequest} {content : String}
  {quoteExcerpt : Option String} {p : ℕ → Bool} {ids : List ℕ} {loaded : List FileAsset}
  {plan : AttachmentPlan} {db db' bound : FileDb}

/-- The rows that a request has loaded are those of the database, and its conversation shows
them. -/
structure LoadedHere (conversationId : ℕ) (loaded : List FileAsset) (db : FileDb) : Prop where
  holds : db.Holds loaded
  shown : ∀ file ∈ loaded, ShownTo db conversationId file.id

theorem loadedHere_nil {conversationId : ℕ} : LoadedHere conversationId [] db :=
  ⟨fun _ hnil => absurd hnil List.not_mem_nil, fun _ hnil => absurd hnil List.not_mem_nil⟩

theorem loadedHere_current {m : MessageRow} (hm : ShownIn db.toConversationTables m) :
    LoadedHere m.conversationId (db.currentAttachmentFiles m.id) db :=
  ⟨fun _ hfile => (mem_currentAttachmentFiles hfile).1,
    fun _ hfile => shownTo_of_mem_currentAttachmentFiles hm hfile⟩

theorem sessionHolds_of_holds (h : db.Holds loaded) (id : ℕ) : db.SessionHolds loaded id := by
  intro row hrow
  rw [FileDb.sessionFile, hrow, Option.map_some]
  cases hfind : loaded.find? fun file => file.id = id with
  | none => rfl
  | some file =>
    have hid : file.id = id := by simpa using List.find?_some hfind
    rw [Option.getD_some, ← hrow, ← hid, h file (List.mem_of_find?_eq_some hfind)]

/-- What the plan of a turn holds can be bound. -/
theorem canBind_of_turn (hloaded : LoadedHere request.conversationId loaded db)
    (hturn : Requests.Turn loads request content quoteExcerpt p ids loaded plan db db') :
    CanBind db request.conversationId plan.files := by
  obtain ⟨legacy, haccepted⟩ := hturn.accepted
  refine ⟨fun file hfile => ?_, ?_, fun file hfile => (haccepted.attachable file hfile).2.1,
    fun file hfile => (haccepted.attachable file hfile).2.2.1, fun file hfile => ?_⟩
  · have hheld := haccepted.held file hfile
    obtain ⟨row, hrow, -⟩ := Option.map_eq_some_iff.mp hheld
    rw [hrow, ← sessionHolds_of_holds hloaded.holds file.id row hrow]
    exact hheld
  · rw [haccepted.ids]
    exact haccepted.nodup
  · rcases (haccepted.attachable file hfile).2.2.2 with ⟨hunbound, -⟩ | hallowed
    · exact .inl hunbound
    · obtain ⟨held, hheld, hid⟩ := List.mem_map.mp hallowed
      rw [← hid]
      exact .inr (hloaded.shown held hheld)

/-- What a turn binds. -/
theorem bound_of_turn (hloaded : LoadedHere request.conversationId loaded db)
    (hturn : Requests.Turn loads request content quoteExcerpt p ids loaded plan db db') :
    FileDb.Bound db.messages.next request.now plan.files db db' := by
  have hcan := canBind_of_turn hloaded hturn
  obtain ⟨tables, -, heq⟩ := insertTurn_eq_ok hturn.inserted
  let inserted : FileDb := { db with toConversationTables := tables }
  have hholds : inserted.Holds plan.files := hcan.holds
  have hbound : FileDb.Bound db.messages.next request.now plan.files inserted
      (inserted.bindAttachmentPlan db.messages.next plan request.now) :=
    FileDb.bindAttachmentPlan_eq hholds hcan.nodup
  rw [heq]
  exact ⟨hbound.next, hbound.attachments, hbound.bound, hbound.other⟩

/-- A turn and what its request refreshes. -/
theorem turned_of_turn {refreshed : List ℕ} (hloaded : LoadedHere request.conversationId loaded db)
    (hturn : Requests.Turn loads request content quoteExcerpt p ids loaded plan db bound)
    (hrefreshed : FileDb.Refreshed request.now refreshed bound db')
    (hids : ∀ id ∈ refreshed, id ∈ plan.files.map FileAsset.id ∨ id ∈ loaded.map FileAsset.id) :
    Turned request content quoteExcerpt p plan refreshed db db' := by
  refine ⟨?_, canBind_of_turn hloaded hturn, ⟨bound, bound_of_turn hloaded hturn, hrefreshed⟩,
    fun id hid => (hids id hid).imp_right fun hmem => ?_⟩
  · obtain ⟨tables, htables, heq⟩ := insertTurn_eq_ok hturn.inserted
    obtain ⟨position, heffect⟩ := turnEffect htables
    refine ⟨position, ?_⟩
    rw [hrefreshed.tables, heq, bindAttachmentPlan_tables]
    exact heffect
  · obtain ⟨file, hfile, rfl⟩ := List.mem_map.mp hmem
    exact hloaded.shown file hfile

/-- Submitting refreshes nothing. -/
theorem turned_of_submit {s : Files.Settings} {attachmentIds : List ℕ}
    {replyQuote : Option ReplyQuoteRequest}
    (h : db.submitUserMessage loads s request content attachmentIds replyQuote = .ok db') :
    ∃ quoteExcerpt plan, Turned request content quoteExcerpt (fun _ => false) plan [] db db' ∧
      plan.files.map FileAsset.id = attachmentIds := by
  obtain ⟨quoteExcerpt, plan, hturn⟩ := Requests.submitUserMessage_eq_ok h
  obtain ⟨legacy, haccepted⟩ := hturn.accepted
  refine ⟨quoteExcerpt, plan, ?_, haccepted.ids⟩
  exact turned_of_turn loadedHere_nil hturn
    ⟨rfl, rfl, rfl, fun _ hnil => absurd hnil List.not_mem_nil, fun _ _ => rfl⟩
    fun _ hnil => absurd hnil List.not_mem_nil

/-- Editing refreshes the assets of its plan and those of its target. -/
theorem turned_of_edit {s : Files.Settings} {attachmentIds : Option (List ℕ)} {target : MessageRow}
    (hdb : Attached db) (hshown : ShownIn db.toConversationTables target)
    (hhere : target.conversationId = request.conversationId)
    (h : db.editUserMessage loads s request target.id content attachmentIds
      (db.currentAttachmentFiles target.id) = .ok db') :
    ∃ plan, Turned request content target.replyQuoteExcerpt (target.position ≤ ·) plan
        (plan.files.map FileAsset.id ++
          (db.currentAttachmentFiles target.id).map FileAsset.id).dedup db db' ∧
      plan.files.map FileAsset.id =
        attachmentIds.getD ((db.currentAttachmentFiles target.id).map FileAsset.id) := by
  obtain ⟨target', plan, turned, htarget, hturn, heq⟩ := Requests.editUserMessage_eq_ok h
  obtain ⟨-, -, hmem, -, -, -⟩ := Requests.editTarget_eq_ok htarget
  obtain rfl : target' = target :=
    Table.eq_of_key_eq hmem hshown.1 (Requests.editTarget_id htarget)
  have hloaded : LoadedHere request.conversationId (db.currentAttachmentFiles target'.id) db :=
    hhere ▸ loadedHere_current hshown
  have hbound := bound_of_turn hloaded hturn
  obtain ⟨legacy, haccepted⟩ := hturn.accepted
  let held := plan.files.map (·.bind db.messages.next request.now) ++
    db.currentAttachmentFiles target'.id
  have hids : held.map FileAsset.id = plan.files.map FileAsset.id ++
      (db.currentAttachmentFiles target'.id).map FileAsset.id := by
    rw [List.map_append, List.map_map]
    refine congrArg (· ++ _) (List.map_congr_left fun file _ => ?_)
    exact FileAsset.bind_id _ _ _
  -- a row that was loaded is bound already, and stays as it is when it is bound again
  have hholds : turned.Holds held := by
    intro file hfile
    rcases List.mem_append.mp hfile with hnew | hold
    · obtain ⟨planned, hplanned, rfl⟩ := List.mem_map.mp hnew
      rw [FileAsset.bind_id]
      exact hbound.bound planned hplanned
    · have hrow := hloaded.holds file hold
      by_cases hplan : file.id ∈ plan.files.map FileAsset.id
      · obtain ⟨planned, hplanned, hid⟩ := List.mem_map.mp hplan
        have hsame : planned = file := by
          have hplannedRow := (canBind_of_turn hloaded hturn).holds planned hplanned
          rw [hid, hrow] at hplannedRow
          exact (Option.some.inj hplannedRow).symm
        obtain ⟨row, hrow', hrowBound, hrowShown, -⟩ := hdb.of_shownTo (hloaded.shown file hold)
        rw [hrow] at hrow'
        cases hrow'
        rw [← hsame, hbound.bound planned hplanned, hsame,
          FileAsset.bind_eq_self hrowBound hrowShown]
      · rw [hbound.other file.id hplan]
        exact hrow
  have hrefreshed : FileDb.Refreshed request.now (held.map FileAsset.id).dedup turned db' := by
    rw [heq]
    exact FileDb.foldl_refreshDetachedState_eq (List.nodup_dedup _)
      fun id _ => sessionHolds_of_holds hholds id
  rw [hids] at hrefreshed
  refine ⟨plan, turned_of_turn hloaded hturn hrefreshed fun id hid => ?_, haccepted.ids⟩
  exact List.mem_append.mp (List.mem_dedup.mp hid)

end turns

/-! ### Commits -/

theorem stepSafe_turned {request : RunRequest} {content : String} {quoteExcerpt : Option String}
    {p : ℕ → Bool} {plan : AttachmentPlan} {ids : List ℕ} {db : FileDb} (h : Attached w.db)
    (hturned : Turned request content quoteExcerpt p plan ids w.db db) :
    Attached db ∧ ∀ c, some request.conversationId ≠ some c → Undisturbed c w.db db :=
  ⟨h.turned hturned, fun _ hne => h.undisturbed_turned hturned fun heq =>
    hne (congrArg some heq.symm)⟩

theorem stepSafe_rerun {loads : String → Option Json} {request : RunRequest} {anchor : MessageRow}
    {loaded : List FileAsset} {plan : AttachmentPlan} {db : FileDb} (h : Attached w.db)
    (hrerun : Requests.Rerun loads request anchor loaded plan w.db db) :
    Attached db ∧ ∀ c, some request.conversationId ≠ some c → Undisturbed c w.db db := by
  obtain ⟨tables, htables, rfl⟩ := hrerun.result
  have heffect := rerunEffect hrerun.mem htables
  have hkept := heffect.messagesKept hrerun.mem hrerun.shown
  refine ⟨h.messages hkept rfl rfl, fun c hne => ?_⟩
  refine h.undisturbed_messages hkept (fun m hm => ?_) (fun r hr => ?_) rfl rfl
  · refine heffect.messages_iff hrerun.here hrerun.mem fun heq => hne ?_
    rw [← hm, heq]
  · rcases (heffect.runs r).mp hr with hr | rfl
    · exact .inl ⟨r, hr, rfl, rfl⟩
    · exact .inr le_rfl

/-- A purge that has read everything is ready. -/
theorem SessionOk.purgeReady {c now : ℕ} {files : List FileAsset}
    (h : SessionOk c w.db (.purge now [] files)) : PurgeReady c files w.db := by
  cases h with
  | purge exclusive covered started =>
    exact ⟨exclusive, fun id hid => (covered id hid).resolve_left List.not_mem_nil, started⟩

/-- A commit touches its conversation, if it writes at all. -/
theorem commitSession_safe {c : ℕ} {session : Session} {db : FileDb} (h : Attached w.db)
    (hsession : SessionOk c w.db session) (hcommit : w.commitSession c env session = .ok db) :
    Attached db ∧ ∀ c', some c ≠ some c' → Undisturbed c' w.db db := by
  cases hsession with
  | edit shown here request_here =>
    subst request_here
    obtain ⟨plan, hturned, -⟩ := turned_of_edit h shown here hcommit
    exact stepSafe_turned h hturned
  | regenerate target_shown target_here shown here request_here =>
    subst request_here
    obtain ⟨anchor, plan, -, hrerun⟩ := Requests.regenerateFromMessage_eq_ok hcommit
    exact stepSafe_rerun h hrerun
  | purge exclusive covered started =>
    obtain ⟨hread, hpurge⟩ := ite_error_eq_ok_iff.mp hcommit
    have hready : PurgeReady c _ w.db :=
      ⟨exclusive, fun id hid => (covered id hid).resolve_left (by
        rw [not_not.mp hread]
        exact List.not_mem_nil), started⟩
    have hpurged := purgeConversation_eq_ok hpurge
    exact ⟨h.purged hready hpurged, fun c' hne => h.undisturbed_purged hready hpurged
      fun heq => hne (congrArg some heq.symm)⟩

/-! ### Reads -/

/-- The purge reads its next asset: the asset is its conversation's alone. -/
theorem SessionOk.readPurged {c now fileId : ℕ} {unread : List ℕ} {files : List FileAsset}
    {db : FileDb} (hdb : Attached db) (h : SessionOk c db (.purge now (fileId :: unread) files)) :
    SessionOk c db (.purge now unread (files ++ (db.purgedAsset c fileId).toList)) := by
  cases h with
  | purge exclusive covered started old bound =>
    have hnew {file : FileAsset} (hfile : file ∈ (db.purgedAsset c fileId).toList) :
        db.files.get? file.id = some file ∧ AttachedTo db c file.id := by
      rw [Option.mem_toList, FileDb.purgedAsset, Option.ite_none_right_eq_some] at hfile
      obtain ⟨⟨⟨a, ha, hid, hin⟩, -⟩, hget⟩ := hfile
      have hkey : file.id = fileId := Table.key_of_get? hget
      rw [hkey]
      exact ⟨hget, a, ha, hid, hin⟩
    refine .purge (fun file hfile c' hc' => ?_) (fun id hid => ?_) (fun file hfile hstarted => ?_)
      (fun file hfile => ?_) fun file hfile row hrow => ?_
    · rcases List.mem_append.mp hfile with hold | hfile
      · exact exclusive file hold c' hc'
      · exact hdb.attachedTo_unique hc' (hnew hfile).2
    · rcases covered id hid with hunread | hread
      · rcases List.mem_cons.mp hunread with rfl | hunread
        · obtain ⟨a, ha, haid, hin⟩ := hid
          obtain ⟨file, hget, -⟩ := hdb.asset a ha _ haid
          have hread : db.purgedAsset c id = some file := by
            rw [FileDb.purgedAsset, if_pos]
            · exact hget
            · exact ⟨⟨a, ha, haid, hin⟩,
                fun b hb hbid => hdb.confined c id ⟨a, ha, haid, hin⟩ b hb hbid⟩
          refine .inr (List.mem_map.mpr ⟨file, List.mem_append_right _ ?_, Table.key_of_get? hget⟩)
          rw [hread]
          exact List.mem_cons_self
        · exact .inl hunread
      · rw [List.map_append]
        exact .inr (List.mem_append_left _ hread)
    · rcases List.mem_append.mp hfile with hold | hfile
      · exact started file hold hstarted
      · intro row hrow
        rw [(hnew hfile).1] at hrow
        rw [← Option.some.inj hrow]
        exact hstarted
    · rcases List.mem_append.mp hfile with hold | hfile
      · exact old file hold
      · exact db.files.lt_next file (Table.mem_of_get? (hnew hfile).1)
    · rcases List.mem_append.mp hfile with hold | hfile
      · exact bound file hold row hrow
      · obtain ⟨hget, a, ha, haid, -⟩ := hnew hfile
        obtain ⟨file', hget', hbound⟩ := hdb.asset a ha _ haid
        rw [hrow] at hget'
        cases hget'
        exact hbound

theorem mem_attachedFileIds {db : FileDb} {c id : ℕ} (h : AttachedTo db c id) :
    id ∈ ChatWorld.attachedFileIds db c := by
  obtain ⟨a, ha, hid, hin⟩ := h
  refine List.mem_dedup.mpr (List.mem_filterMap.mpr ⟨a, ?_, hid⟩)
  exact List.mem_filter.mpr ⟨ha, decide_eq_true hin⟩

/-! ### The step -/

/-- **Isolation.** A step keeps what assets and messages have to do with each other, and disturbs at
most the conversation whose lock it has. -/
theorem step_stepSafe (hw : Safe env.loads w) (h : step env w action = some w') :
    ∃ touched, StepSafe touched w w' := by
  have hattached := hw.attached
  -- a submission, a commit and an answer touch their conversation, all else none
  cases action with
  | files =>
    obtain ⟨db, hrun, rfl⟩ := ChatWorld.write_eq_some h
    exact ⟨none, .of_fileEffect hattached (FileTx.effect hrun)⟩
  | createConversation =>
    obtain ⟨tables, hresult, rfl⟩ := ChatWorld.writeTables_eq_some h
    cases hresult
    exact ⟨none, .of_messages_eq hattached rfl fun r hr => .inl ⟨r, hr, rfl, rfl⟩⟩
  | deleteConversation =>
    obtain ⟨-, h⟩ := Option.ite_none_right_eq_some.mp h
    obtain ⟨tables, hresult, rfl⟩ := ChatWorld.writeTables_eq_some h
    obtain ⟨hmessages, hruns⟩ := deleteConversation_messages hresult
    exact ⟨none, .of_messages_eq hattached hmessages fun r hr => .inl ⟨r, hruns ▸ hr, rfl, rfl⟩⟩
  | restoreConversation =>
    obtain ⟨-, h⟩ := Option.ite_none_right_eq_some.mp h
    obtain ⟨tables, hresult, rfl⟩ := ChatWorld.writeTables_eq_some h
    obtain ⟨hmessages, hruns⟩ := restoreConversation_messages hresult
    exact ⟨none, .of_messages_eq hattached hmessages fun r hr => .inl ⟨r, hruns ▸ hr, rfl, rfl⟩⟩
  | submit request =>
    obtain ⟨hunlocked, h⟩ := Option.ite_none_right_eq_some.mp h
    obtain ⟨db, hresult, rfl⟩ := ChatWorld.write_eq_some h
    obtain ⟨quoteExcerpt, plan, hturned, -⟩ := turned_of_submit hresult
    obtain ⟨hnext, hundisturbed⟩ := stepSafe_turned hattached hturned
    exact ⟨some request.conversationId, .of_db hnext hundisturbed rfl
      fun c hc => Option.some.inj hc ▸ hunlocked⟩
  | beginEdit =>
    obtain ⟨-, h⟩ := Option.ite_none_right_eq_some.mp h
    split at h
    · cases h
    · next target htarget =>
      cases h
      obtain ⟨-, -, hmem, hhere, hshown, -⟩ := Requests.editTarget_eq_ok htarget
      rw [← Requests.editTarget_id htarget]
      exact ⟨none, .of_session hattached (.edit ⟨hmem, hshown⟩ hhere rfl)⟩
  | beginRegenerate =>
    obtain ⟨-, h⟩ := Option.ite_none_right_eq_some.mp h
    split at h
    · cases h
    · next anchor hanchor =>
      cases h
      obtain ⟨-, -, hmem, hhere, hshown, -⟩ := Requests.regenerateTarget_eq_ok hanchor
      obtain ⟨target, htarget, hid, hthere, htargetShown, hself, hanswered⟩ :=
        ConversationTables.regenerateAnchor_target (Requests.regenerateTarget_anchor hanchor)
      rw [← hid]
      refine ⟨none, .of_session hattached (.regenerate ⟨htarget, htargetShown⟩ hthere
        ⟨hmem, hshown⟩ hhere rfl hself fun hrole run hrun hrunId => ?_)⟩
      -- the run that answers the target is the user's own, as the anchor search says
      obtain ⟨run', hrun', hrunId', huser⟩ := hanswered hrole
      rw [hrunId] at hrunId'
      rw [Table.eq_of_key_eq hrun hrun' (Option.some.inj hrunId')]
      exact huser
  | beginPurge =>
    obtain ⟨-, h⟩ := Option.ite_none_right_eq_some.mp h
    cases h
    refine ⟨none, .of_session hattached (.purge ?_ (fun id hid => .inl (mem_attachedFileIds hid)) ?_
      ?_ ?_)⟩
    all_goals exact fun _ hnil => absurd hnil List.not_mem_nil
  | readPurged =>
    obtain ⟨now, fileId, unread, files, hsession, rfl⟩ := ChatWorld.step_readPurged h
    exact ⟨none, .of_session hattached ((hw.sessions _ _ hsession).readPurged hattached)⟩
  | commit conversationId =>
    obtain ⟨session, db, hsession, hresult, rfl⟩ := ChatWorld.step_commit h
    obtain ⟨hnext, hundisturbed⟩ := commitSession_safe hattached (hw.sessions _ _ hsession) hresult
    exact ⟨some conversationId, .of_commit (fun c hc => (Option.some.inj hc).symm) hnext
      hundisturbed rfl⟩
  | rollback =>
    cases h
    exact ⟨none, .of_commit (fun _ hc => absurd hc.symm (Option.some_ne_none _)) hattached
      (fun c _ => .refl c w.db) rfl⟩
  | advanceRun =>
    obtain ⟨tables, hresult, rfl⟩ := ChatWorld.writeTables_eq_some h
    obtain ⟨run, -, -, hmoved⟩ := advanceRun_eq_ok hresult
    exact ⟨none, .of_messages_eq hattached hmoved.messages (hmoved.runs_old rfl)⟩
  | restoreSources =>
    obtain ⟨_, rfl⟩ := ChatWorld.step_restoreSources h
    exact ⟨none, .of_db hattached (fun c _ => .refl c w.db) rfl
      fun _ hc => absurd hc.symm (Option.some_ne_none _)⟩
  | registerSources =>
    obtain ⟨_, rfl⟩ := ChatWorld.step_registerSources h
    exact ⟨none, .of_db hattached (fun c _ => .refl c w.db) rfl
      fun _ hc => absurd hc.symm (Option.some_ne_none _)⟩
  | succeedRun =>
    obtain ⟨run, _, _, hrun, hunlocked, -, hresult, rfl⟩ := ChatWorld.step_succeedRun h
    obtain ⟨run', final, rows, hid, -, -, -, heffect⟩ := succeedRun_eq_ok hresult
    obtain rfl : run' = run :=
      Table.eq_of_key_eq heffect.mem (Table.mem_of_get? hrun)
        (hid.trans (Table.key_of_get? hrun).symm)
    have hkept := heffect.messagesKept
    -- only the answered conversation gets a message
    refine ⟨some run'.conversationId, .of_db (hattached.messages hkept rfl rfl)
      (fun c hne => ?_) rfl fun c hc => Option.some.inj hc ▸ hunlocked⟩
    refine hattached.undisturbed_messages hkept
      (fun m hm => heffect.messages_iff fun hthere => ?_) heffect.runs_old rfl rfl
    rw [← hm, hthere] at hne
    exact hne rfl
  | endRun =>
    obtain ⟨-, h⟩ := Option.ite_none_right_eq_some.mp h
    obtain ⟨tables, hresult, rfl⟩ := ChatWorld.writeTables_eq_some h
    obtain ⟨run, rows, -, -, -, hmoved⟩ := endRun_eq_ok hresult
    exact ⟨none, .of_messages_eq hattached hmoved.messages (hmoved.runs_old rfl)⟩

/-- **The invariant.** Every step keeps it. -/
theorem step_safe (hw : Safe env.loads w) (h : step env w action = some w') :
    Safe env.loads w' := by
  obtain ⟨touched, hsafe⟩ := step_stepSafe hw h
  exact hsafe.safe hw ((step_tables h).wellFormed hw.wellFormed)

/-- The invariant holds in every state that is reached. -/
theorem safe_of_run {actions : List Action} (hrun : run (step env) .init actions = some w) :
    Safe env.loads w := by
  have hstep : ∀ (w : ChatWorld) (action : Action) (w' : ChatWorld),
      Safe env.loads w → step env w action = some w' → Safe env.loads w' :=
    fun _ _ _ hw h => step_safe hw h
  exact run_invariant hstep safe_init hrun

end IChat.Chat
