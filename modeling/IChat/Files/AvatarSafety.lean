import IChat.Files.AvatarInvariant
import IChat.Files.AvatarWorld

/-!
# Replaced avatars go, and shown ones stay

The attempts of an upload share its manifest, and so the key of the public object. An attempt that
comes to its final commit after its lease has gone enqueues the deletion of that object, even if
another attempt of the upload has published it or is going to, and then deletes the staging object
that another attempt may still need. Likewise a session that has read a row before somebody else
changed it writes over the change. In the runs in which this does not happen
(`AvatarWorld.Timely`) every state is safe.
-/

namespace IChat.Files

/-! ### Attempts -/

/-- The manifest of an attempt, once it is stored. -/
def AvatarPhase.manifest : AvatarPhase → List ManifestEntry
  | .persisted manifest | .observed manifest _ => manifest
  | _ => []

/-- The upload as the final commit has read it. -/
def AvatarPhase.seen : AvatarPhase → Option FileUpload
  | .observed _ seen => some seen
  | _ => none

/-- What an attempt remembers is about its upload, and the upload is over once it has committed. -/
structure AttemptInv (origin : ℕ → Option ℕ) (db : FileDb) (a : AvatarAttempt) : Prop where
  upload : ∃ u, db.uploads.get? a.uploadId = some u ∧ u.purpose = .avatar
  existing : ∀ e ∈ a.existingManifest, origin e.objectKey = some a.uploadId
  manifest : ∀ e ∈ a.phase.manifest, origin e.objectKey = some a.uploadId
  seen : ∀ seen, a.phase.seen = some seen → seen.id = a.uploadId ∧
    (∀ u, db.uploads.get? a.uploadId = some u → seen.userId = u.userId) ∧
    ∀ e ∈ seen.entries, origin e.objectKey = some seen.id
  committed : a.phase = .committed → ∀ u, db.uploads.get? a.uploadId = some u →
    u.status.isActive = false

/-- The invariant of the world. -/
structure AvatarInv (w : AvatarWorld) : Prop where
  db : AvatarDbInv w.generatedFor w.nextKey none w.toAvatarDb
  attempts : ∀ t a, w.attempts t = some a → AttemptInv w.generatedFor w.toFileDb a

section Attempts

variable {origin origin' : ℕ → Option ℕ} {db db' : FileDb} {a : AvatarAttempt} {w : AvatarWorld}
  {t : ℕ}

theorem FileDb.RowsKept.refl (db : FileDb) : db.RowsKept db := fun _ u hu => ⟨u, hu, .refl db u⟩

/-- What an attempt remembers stays true. -/
theorem AttemptInv.mono (h : AttemptInv origin db a) (hrows : db.RowsKept db')
    (horigin : ∀ k i, origin k = some i → origin' k = some i) : AttemptInv origin' db' a := by
  obtain ⟨u, hu, hpurpose⟩ := h.upload
  obtain ⟨u', hu', hfollows⟩ := hrows _ u hu
  have hrow : ∀ v, db'.uploads.get? a.uploadId = some v → u' = v := fun v hv =>
    Option.eq_some_unique hu' hv
  refine ⟨⟨u', hu', hfollows.purpose.trans hpurpose⟩, fun e he => horigin _ _ (h.existing e he),
    fun e he => horigin _ _ (h.manifest e he), fun seen hseen => ?_, fun hcommitted v hv => ?_⟩
  · obtain ⟨hid, howner, hkeys⟩ := h.seen seen hseen
    refine ⟨hid, fun v hv => ?_, fun e he => horigin _ _ (hkeys e he)⟩
    rw [← hrow v hv, hfollows.userId]
    exact howner u hu
  · rw [← hrow v hv]
    exact (hfollows.ended (h.committed hcommitted u hu)).1

/-- An attempt goes on to a phase in which it remembers nothing new. -/
theorem AttemptInv.setPhase (h : AttemptInv origin db a) {phase : AvatarPhase}
    (hmanifest : ∀ e ∈ phase.manifest, origin e.objectKey = some a.uploadId)
    (hseen : phase.seen = none) (hcommitted : phase ≠ .committed) :
    AttemptInv origin db { a with phase } where
  upload := h.upload
  existing := h.existing
  manifest := hmanifest
  seen seen hsome := by
    rw [show ({ a with phase } : AvatarAttempt).phase.seen = phase.seen from rfl, hseen] at hsome
    cases hsome
  committed h := absurd h hcommitted

/-- A step of one attempt, or of none: the others remember what they did. -/
theorem AvatarInv.attemptsKept {o : Option AvatarAttempt} (h : AvatarInv w)
    (hrows : w.RowsKept db') (horigin : ∀ k i, w.generatedFor k = some i → origin' k = some i)
    (ho : ∀ a, o = some a → AttemptInv origin' db' a) :
    ∀ u a, Function.update w.attempts t o u = some a → AttemptInv origin' db' a := by
  intro u a hu
  by_cases hne : u = t
  · subst hne
    rw [Function.update_self] at hu
    exact ho a hu
  · rw [Function.update_of_ne hne] at hu
    exact (h.attempts u a hu).mono hrows horigin

/-- An attempt ends, or goes on in another phase, and the tables stay as they are. -/
theorem AvatarInv.endAttempt (h : AvatarInv w) (t : ℕ) : AvatarInv (w.endAttempt t) :=
  ⟨h.db, h.attemptsKept (.refl _) (fun _ _ => id) fun _ hnone => by cases hnone⟩

theorem AvatarInv.setPhase (h : AvatarInv w) (t : ℕ) {phase : AvatarPhase}
    (ha : AttemptInv w.generatedFor w.toFileDb { a with phase }) :
    AvatarInv (w.setPhase t a phase) :=
  ⟨h.db, h.attemptsKept (.refl _) (fun _ _ => id) fun _ hsome => by cases hsome; exact ha⟩

/-- A quiet transaction next to the attempts. -/
theorem AvatarInv.quiet (h : AvatarInv w) (hquiet : Quiet w.generatedFor w.toFileDb db') :
    AvatarInv { w with toFileDb := db' } :=
  ⟨h.db.quiet hquiet, fun t a ha => (h.attempts t a ha).mono hquiet.rows fun _ _ => id⟩

end Attempts

/-! ### Timely runs -/

/-- The final commit of the attempt comes in time. If the session has read that the attempt holds
the lease, the upload is still not over; otherwise the upload is over without success. For an
inactive user it does not matter. -/
def AvatarAttempt.Timely (db : AvatarDb) (a : AvatarAttempt) : Prop :=
  ∀ seen ∈ a.phase.seen, ∀ row ∈ db.uploads.get? seen.id, db.isActiveUser seen.userId = true →
    if seen.status = .processing ∧ seen.leaseOwner = some a.owner then row.status.isActive = true
    else row.status.isActive = false ∧ row.status ≠ .succeeded

instance (db : AvatarDb) (a : AvatarAttempt) : Decidable (a.Timely db) :=
  inferInstanceAs (Decidable (∀ seen ∈ a.phase.seen, _))

namespace AvatarWorld

/-- A final commit comes in time, and a take-down is for the avatar that its session has read. -/
def Timely (w : AvatarWorld) : AvatarAction → Prop
  | .commit t => ∀ a ∈ w.attempts t, a.Timely w.toAvatarDb
  | .takeDown k _ => ∀ read ∈ w.takeDowns k, read.2 = w.avatars read.1
  | _ => True

instance (w : AvatarWorld) : ∀ action, Decidable (w.Timely action)
  | .commit t => inferInstanceAs (Decidable (∀ a ∈ w.attempts t, _))
  | .takeDown k _ => inferInstanceAs (Decidable (∀ read ∈ w.takeDowns k, _))
  | .create .. | .confirm .. | .claim .. | .persist .. | .raise .. | .finishError _ | .observe _
  | .deleteStaging .. | .recordStaging .. | .crash _ | .sweep .. | .readUser .. | .deactivate .. =>
    isTrue trivial

end AvatarWorld

section Steps

variable {s : AvatarSettings} {w w' : AvatarWorld} {a : AvatarAttempt} {t uploadId owner now : ℕ}
  {action : AvatarAction}

/-- A claim starts an attempt. -/
theorem AvatarInv.claim (h : AvatarInv w) (hstep : w.claim s t uploadId owner now = some w') :
    AvatarInv w' := by
  unfold AvatarWorld.claim at hstep
  split at hstep
  · rename_i db upload hclaim
    cases hstep
    obtain ⟨hquiet, u, hu, hpurpose, hentries⟩ := quiet_claimAvatarUpload hclaim
    obtain ⟨u', hu', hfollows⟩ := hquiet.rows _ u hu
    refine ⟨h.db.quiet hquiet, h.attemptsKept hquiet.rows (fun _ _ => id) fun a ha => ?_⟩
    cases ha
    refine ⟨⟨u', hu', hfollows.purpose.trans hpurpose⟩, fun e he => ?_, fun e he => ?_,
      fun seen hseen => ?_, fun hcommitted => ?_⟩
    · rw [hentries] at he
      obtain ⟨hmem, hid⟩ := Table.get?_eq_some_iff.mp hu
      rw [h.db.keys u hmem e he, hid]
    · cases he
    · cases hseen
    · cases hcommitted
  · cases hstep

/-- The manifest of an attempt is stored, or is refused. -/
theorem AvatarInv.persist (h : AvatarInv w) (ha : w.attempts t = some a)
    (rendered : RenderedAvatar) :
    AvatarInv (w.persist t a rendered) := by
  let origin : ℕ → Option ℕ := Function.update w.generatedFor w.nextKey (some a.uploadId)
  have hkept : ∀ k i, w.generatedFor k = some i → origin k = some i := by
    intro k i hi
    have hlt := h.db.generated k i hi
    exact (Function.update_of_ne (by omega) _ _).trans hi
  have hmanifest : ∀ e ∈ avatarManifest a.existingManifest w.nextKey rendered,
      origin e.objectKey = some a.uploadId := by
    intro e he
    unfold avatarManifest at he
    split_ifs at he
    · rw [List.mem_singleton.mp he]
      exact Function.update_self ..
    · exact hkept _ _ ((h.attempts t a ha).existing e he)
  have hgenerated : AvatarDbInv origin (w.nextKey + 1) none w.toAvatarDb := h.db.generate a.uploadId
  have hold : AttemptInv origin w.toFileDb a := (h.attempts t a ha).mono (.refl _) hkept
  unfold AvatarWorld.persist
  dsimp only
  split
  · rename_i db hpersist
    have hquiet : Quiet origin w.toFileDb db := quiet_persistAvatarManifest hmanifest hpersist
    refine ⟨hgenerated.quiet hquiet, h.attemptsKept hquiet.rows hkept fun a' ha' => ?_⟩
    cases ha'
    exact (hold.mono hquiet.rows fun _ _ => id).setPhase hmanifest rfl (by simp)
  all_goals
    refine ⟨hgenerated, h.attemptsKept (.refl _) hkept fun a' ha' => ?_⟩
    cases ha'
    exact hold.setPhase (fun e he => by cases he) rfl (by simp)

/-- **Step lemma**, for the steps of an attempt. -/
theorem AvatarInv.attemptStep (h : AvatarInv w) (hactor : AvatarWorld.actor action = some t)
    (ha : w.attempts t = some a) (htimely : w.Timely action)
    (hstep : w.attemptStep s a action = some w') : AvatarInv w' := by
  have hmine := h.attempts t a ha
  cases action with
  | persist t' rendered =>
    obtain rfl : t' = t := Option.some.inj hactor
    dsimp only [AvatarWorld.attemptStep] at hstep
    split at hstep <;> cases hstep
    exact h.persist ha rendered
  | raise t' =>
    obtain rfl : t' = t := Option.some.inj hactor
    dsimp only [AvatarWorld.attemptStep] at hstep
    split at hstep <;> cases hstep <;>
      exact h.setPhase t' (hmine.setPhase (fun e he => by cases he) rfl (by simp))
  | finishError t' =>
    dsimp only [AvatarWorld.attemptStep] at hstep
    split at hstep
    · split at hstep <;> cases hstep
      · rename_i hfinish
        exact (h.quiet (quiet_finishAvatarError h.db.keys hfinish)).endAttempt t'
      · exact h.endAttempt t'
    · cases hstep
  | observe t' =>
    obtain rfl : t' = t := Option.some.inj hactor
    dsimp only [AvatarWorld.attemptStep] at hstep
    split at hstep <;> cases hstep
    · rename_i manifest seen hphase hseen
      refine h.setPhase t' ⟨hmine.upload, hmine.existing, fun e he => hmine.manifest e ?_,
        -- what was observed is the row itself, with its own key
        fun seen' hsome => ?_, fun hcommitted => by cases hcommitted⟩
      · rw [hphase]
        exact he
      · cases hsome
        obtain ⟨hmem, hid⟩ := Table.get?_eq_some_iff.mp hseen
        refine ⟨hid, fun u hu => ?_, h.db.keys seen hmem⟩
        rw [show w.uploads.get? a.uploadId = some u from hu] at hseen
        cases hseen
        rfl
    · rename_i hnone
      obtain ⟨u, hu, -⟩ := hmine.upload
      rw [hu] at hnone
      cases hnone
  | commit t' =>
    obtain rfl : t' = t := Option.some.inj hactor
    dsimp only [AvatarWorld.attemptStep] at hstep
    split at hstep
    · rename_i manifest seen hphase
      split at hstep <;> cases hstep
      · rename_i db answer hcommit
        obtain ⟨hid, howner, hkeys⟩ := hmine.seen seen (by rw [hphase]; rfl)
        obtain ⟨row, hrow, hpurpose⟩ := hmine.upload
        rw [← hid] at hrow
        -- in time: the upload observed has not been cancelled meanwhile
        have hintime := htimely a ha seen (by rw [hphase]; rfl) row hrow
        obtain ⟨hdb, hrows, row', hrow', hover⟩ := h.db.commit hrow (howner row (hid ▸ hrow))
          hpurpose hkeys
          (fun e he => by rw [hid]; exact hmine.manifest e (by rw [hphase]; exact he))
          hintime hcommit
        refine ⟨hdb, h.attemptsKept hrows (fun _ _ => id) fun a' ha' => ?_⟩
        cases ha'
        obtain ⟨hupload, hexisting, -, -, -⟩ := hmine.mono hrows fun _ _ => id
        refine ⟨hupload, hexisting, fun e he => ?_, fun _ hsome => ?_, fun _ u hu => ?_⟩
        · cases he
        · cases hsome
        · rw [← hid] at hu
          obtain rfl : row' = u := Option.eq_some_unique hrow' hu
          exact hover
      · exact h.endAttempt t'
    · cases hstep
  | deleteStaging t' =>
    obtain rfl : t' = t := Option.some.inj hactor
    dsimp only [AvatarWorld.attemptStep] at hstep
    split at hstep <;> cases hstep
    split_ifs
    · exact h.setPhase t' (hmine.setPhase (fun e he => by cases he) rfl (by simp))
    · exact h.endAttempt t'
  | recordStaging t' =>
    dsimp only [AvatarWorld.attemptStep] at hstep
    split at hstep <;> cases hstep
    exact (h.quiet quiet_recordAvatarStagingDeleted).endAttempt t'
  | crash t' =>
    cases hstep
    exact h.endAttempt t'
  | create | confirm | claim | sweep | readUser | takeDown | deactivate => cases hactor

/-- A take-down of the avatar that is there. -/
theorem AvatarInv.takeDown (h : AvatarInv w) (userId now : ℕ) :
    AvatarInv { w with toAvatarDb := w.takeDownUserAvatar userId (w.avatars userId) now } := by
  have huploads : (w.takeDownUserAvatar userId (w.avatars userId) now).uploads = w.uploads := by
    unfold AvatarDb.takeDownUserAvatar
    split_ifs
    · rfl
    · exact FileDb.retireAvatar_uploads ..
  refine ⟨h.db.takeDown userId now, fun t a ha => (h.attempts t a ha).mono (fun i u hu => ?_)
    fun _ _ => id⟩
  exact ⟨u, by rw [huploads]; exact hu, .refl _ u⟩

/-- **Step lemma.** -/
theorem AvatarInv.step (h : AvatarInv w) (htimely : w.Timely action)
    (hstep : w.step s action = some w') : AvatarInv w' := by
  unfold AvatarWorld.step at hstep
  split at hstep
  · rename_i t hactor
    obtain ⟨a, ha, hstep⟩ := Option.bind_eq_some_iff.mp hstep
    exact h.attemptStep hactor ha htimely hstep
  · split at hstep
    · obtain ⟨db, hcreate, rfl⟩ := Option.map_eq_some_iff.mp hstep
      exact h.quiet (quiet_createAvatarUpload (Except.toOption_eq_some_iff.mp hcreate))
    · obtain ⟨db, hconfirm, rfl⟩ := Option.map_eq_some_iff.mp hstep
      exact h.quiet (quiet_confirmAvatarUpload (Except.toOption_eq_some_iff.mp hconfirm))
    · exact h.claim hstep
    · obtain ⟨db, hsweep, rfl⟩ := Option.map_eq_some_iff.mp hstep
      exact h.quiet (quiet_sweepAvatarUploads h.db.keys (Except.toOption_eq_some_iff.mp hsweep))
    · cases hstep
      exact ⟨h.db, h.attempts⟩
    · obtain ⟨⟨userId, seen⟩, hread, rfl⟩ := Option.map_eq_some_iff.mp hstep
      obtain rfl : seen = w.avatars userId := htimely _ hread
      exact ⟨(h.takeDown userId _).db, (h.takeDown userId _).attempts⟩
    · obtain ⟨db, hdeactivate, rfl⟩ := Option.map_eq_some_iff.mp hstep
      obtain ⟨hdb, hrows⟩ := h.db.deactivate (Except.toOption_eq_some_iff.mp hdeactivate)
      exact ⟨hdb, fun t a ha => (h.attempts t a ha).mono hrows fun _ _ => id⟩
    · cases hstep

end Steps

/-! ### Safety -/

section Safety

variable {s : AvatarSettings} {legacy : LegacyAvatars} {w : AvatarWorld} {as : List AvatarAction}

theorem avatarInv_init : AvatarInv (.init legacy) where
  db :=
    { generated := fun _ _ h => by cases h
      legacy := fun userId k hk => ⟨rfl, legacy.lt_next userId k hk⟩
      keys := fun _ hu => absurd hu Table.not_mem_empty
      facts := fun _ ⟨_, hd, _⟩ => absurd hd Table.not_mem_empty
      objects := fun _ ho => absurd ho Table.not_mem_empty
      objectKeys := fun _ ho => absurd ho Table.not_mem_empty
      stored := fun _ hf => absurd hf Table.not_mem_empty
      inactive := fun _ _ => ⟨rfl, fun _ hu => absurd hu Table.not_mem_empty⟩
      shown := fun _ _ h => by cases h
      leaves := fun _ h => by cases h
      retired := fun _ hf => absurd hf Table.not_mem_empty }
  attempts _ _ h := by cases h

/-- The invariant is what is promised. -/
theorem AvatarInv.safe (h : AvatarInv w) : AvatarWorldSafe w where
  shown userId fileId hshown := by
    obtain ⟨⟨file, hfile, hpurpose, hstarted⟩, hobjects⟩ := h.db.shown userId fileId hshown
    obtain ⟨hmem, hid⟩ := Table.get?_eq_some_iff.mp hfile
    exact ⟨file, hmem, hid, hpurpose, hstarted, fun o ho heq => (hobjects o ho heq).1⟩
  retired file hfile _ hnobody := by
    obtain ⟨hstarted, hfacts⟩ := h.db.retired file hfile (fun hnone => by cases hnone) hnobody
    exact ⟨hstarted, hfacts⟩
  stored file hfile _ := by
    obtain ⟨o, ho, heq⟩ := h.db.stored file hfile
    exact ⟨o, ho, heq, (h.db.objects o ho).1⟩
  staging t a upload ha hcommitted hupload := by
    have hover := (h.attempts t a ha).committed hcommitted upload hupload
    constructor <;>
      · intro hstatus
        rw [hstatus] at hover
        cases hover

/-- **Avatars, in timely runs.** In every run in which the final commits come in time and the
take-downs are for the avatar that is there, every state reached is safe: a shown avatar has not
begun to go, one that is not shown has, and no attempt is about to delete a staging object that
another attempt needs. -/
theorem avatarWorldSafe_of_timely
    (htimely : StepSystem.Along (AvatarWorld.step s) AvatarWorld.Timely (.init legacy) as)
    (hrun : StepSystem.run (AvatarWorld.step s) (.init legacy) as = some w) : AvatarWorldSafe w :=
  (StepSystem.run_invariant_along (fun _ _ _ h ht hstep => h.step ht hstep) avatarInv_init htimely
    hrun).safe

/-- A picture of one byte. -/
def tinyPicture : RenderedAvatar := ⟨1, "00"⟩

/-- The object store has what was announced. -/
def tinyMetadata : StorageObjectMetadata := ⟨1, "image/webp".toList, "e".toList, some 1⟩

/-- The avatar of a user is replaced. -/
def replaceAvatar : List AvatarAction :=
  let upload i : List AvatarAction :=
    [.create 7 "image/webp".toList 1 0, .confirm 7 i "e".toList (some tinyMetadata) 1,
      .claim i i i 2, .persist i tinyPicture, .observe i, .commit i]
  upload 0 ++ upload 1

theorem avatarWorldSafe_of_timely_replaceAvatar :
    ∃ w, StepSystem.run (AvatarWorld.step .default) (.init .none) replaceAvatar = some w ∧
      (w.avatars 7).avatarFileId = some 1 ∧ AvatarWorldSafe w := by
  obtain ⟨w, hrun, hshown⟩ : ∃ w, StepSystem.run (AvatarWorld.step .default) (.init .none)
      replaceAvatar = some w ∧ (w.avatars 7).avatarFileId = some 1 :=
    StepSystem.exists_run (by decide +kernel)
  exact ⟨w, hrun, hshown, avatarWorldSafe_of_timely (by decide +kernel) hrun⟩

/-- The lease of an attempt expires, another attempt of the upload takes over, and the first one
commits and deletes the staging object before the second one commits. -/
def lateCommit : List AvatarAction :=
  [.create 7 "image/webp".toList 1 0, .confirm 7 0 "e".toList (some tinyMetadata) 1,
    .claim 0 0 10 2, .persist 0 tinyPicture, .sweep ⟨[0], [], []⟩ 400, .claim 1 0 11 500,
    .persist 1 tinyPicture, .observe 0, .commit 0, .deleteStaging 0 true, .observe 1, .commit 1]

/-- The avatar that the second attempt publishes has a deletion fact for its object, and the first
one was about to delete the staging object of a processing upload. -/
theorem lateCommit_not_safe :
    (∃ w, StepSystem.run (AvatarWorld.step .default) (.init .none) (lateCommit.take 9) = some w ∧
      ¬AvatarWorldSafe w) ∧
    ∃ w, StepSystem.run (AvatarWorld.step .default) (.init .none) lateCommit = some w ∧
      (w.avatars 7).avatarFileId = some 0 ∧ ¬AvatarSafe w.toAvatarDb := by
  constructor
  · obtain ⟨w, hrun, a, ha, hcommitted, upload, hupload, hprocessing⟩ :
        ∃ w, StepSystem.run (AvatarWorld.step .default) (.init .none) (lateCommit.take 9) = some w ∧
          ∃ a ∈ w.attempts 0, a.phase = .committed ∧
            ∃ upload ∈ w.uploads.get? a.uploadId, upload.status = .processing :=
      StepSystem.exists_run (by decide +kernel)
    exact ⟨w, hrun, fun h => (h.staging 0 a upload ha hcommitted hupload).2 hprocessing⟩
  · obtain ⟨w, hrun, hshown, o, ho, hfile, hfact⟩ :
        ∃ w, StepSystem.run (AvatarWorld.step .default) (.init .none) lateCommit = some w ∧
          (w.avatars 7).avatarFileId = some 0 ∧
          ∃ o ∈ w.objects, o.fileId = 0 ∧ w.HasFact o.objectKey :=
      StepSystem.exists_run (by decide +kernel)
    refine ⟨w, hrun, hshown, fun h => ?_⟩
    obtain ⟨-, -, -, -, -, hnofact⟩ := h.shown 7 0 hshown
    exact hnofact o ho hfile hfact

end Safety

end IChat.Files
