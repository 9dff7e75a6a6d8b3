import IChat.General.Lists
import IChat.General.StepSystem
import IChat.Runs.EventSink

/-!
# Checkpoints and the timer

`DraftCheckpointSink` as a step system. Its lock is held across a checkpoint, so a call of `emit` or
`flush` and the timer task each run in two parts: what they do once they have the lock, and what
follows the answer of the database (`inFlight`). Any number of calls may wait for the lock, and
whichever gets it next does its first part; a task that does not get it has done nothing yet. A
timer task that is cancelled before it has the lock does nothing at all, so the sink's own reference
to the task says whether there is one.

A transaction may raise, or its task may be cancelled, after the row was stored.

* `DraftRunInv`: what the sink remembers, what is in flight and what has been stored;
* `draftCheckpoints_exact`: every row stored is an exact fold, numbers never decrease, and a flush
  that returns leaves nothing behind.
-/

namespace IChat

/-- Whose checkpoint it is. -/
inductive DraftCaller where
  | emit
  | flush
  | timer
  deriving DecidableEq

/-- The sink, the draft row, and what the code keeps no record of: the events that were accepted and
the rows that were stored. -/
structure DraftRun where
  sink : DraftCheckpointSink
  /-- The task that has the lock, and the row its transaction stores. -/
  inFlight : Option (DraftCaller × RunDraft)
  row : Option RunDraft
  accepted : List RunEvent
  persisted : List RunDraft
  deriving DecidableEq

/-- A new sink of a run without a draft. -/
def DraftRun.init : DraftRun where
  sink := .init
  inFlight := none
  row := none
  accepted := []
  persisted := []

/-- The parts of the calls. -/
inductive DraftAction where
  /-- A call of `emit` has the lock. -/
  | emit (event : SinkEvent) (now : Time)
  /-- A call of `flush` has the lock. -/
  | flush (now : Time)
  /-- The timer task has the lock. -/
  | timer (now : Time)
  /-- The transaction commits. -/
  | committed
  /-- The transaction raises, or its task is cancelled. -/
  | failed (stored cancelled : Bool)
  /-- The last part of `aclose`. -/
  | cancelTimer
  /-- The draft row is deleted. -/
  | deleteRow
  deriving DecidableEq

namespace DraftRun

/-- The row a checkpoint stores. -/
def snapshot (now : Time) (sink : DraftCheckpointSink) : RunDraft :=
  { sink.parts with seq := sink.latestSeq, events := sink.events, updatedAt := now }

/-- There is nothing to store. -/
def Clean (sink : DraftCheckpointSink) : Prop := sink.dirty = false ∨ sink.latestSeq < 1

instance (sink : DraftCheckpointSink) : Decidable (Clean sink) :=
  inferInstanceAs (Decidable (_ ∨ _))

/-- `_checkpoint`, up to its transaction. -/
def checkpoint (caller : DraftCaller) (now : Time) (s : DraftRun) : DraftRun :=
  if Clean s.sink then s else { s with inFlight := some (caller, snapshot now s.sink) }

/-- The call ends without a checkpoint, or cancels the timer and makes one. -/
def checkpointIf (due : Bool) (caller : DraftCaller) (now : Time) (s : DraftRun) : DraftRun :=
  if due then checkpoint caller now { s with sink := { s.sink with timer := false } } else s

/-- `emit` with the lock. -/
def emit (cfg : DraftSettings) (event : SinkEvent) (now : Time) (s : DraftRun) : DraftRun :=
  let taken := { s with accepted := s.accepted ++ [event.toRunEvent] }
  if event.type.isDelta then
    match (Dict.get? event.payload "text").bind Json.str? with
    | none => taken
    | some text =>
      if text = "" then taken
      else
        let sink := s.sink.accept cfg event.toRunEvent text
        let due := cfg.intervalSeconds = 0 ∨ cfg.maxPendingChars ≤ sink.pendingChars
        checkpointIf due .emit now { taken with sink := sink }
  else checkpointIf (event.type.isTool && s.sink.dirty) .emit now taken

/-- The transaction has stored the row, or has not. -/
def store (stored : Bool) (d : RunDraft) (s : DraftRun) : DraftRun :=
  { s with
    inFlight := none
    row := if stored then some d else s.row
    persisted := if stored then s.persisted ++ [d] else s.persisted }

/-- One part of a call. -/
def step (cfg : DraftSettings) (s : DraftRun) (a : DraftAction) : Option DraftRun :=
  match s.inFlight, a with
  -- a background error is raised before anything else
  | none, .emit event now => some (if s.sink.backgroundError then s else s.emit cfg event now)
  | none, .flush now =>
    some (if s.sink.backgroundError then s else s.checkpointIf true .flush now)
  | none, .timer now => if s.sink.timer then some (s.checkpointIf true .timer now) else none
  | some (_, d), .committed =>
    some { s.store true d with sink := { s.sink with pendingChars := 0, dirty := false } }
  | some (caller, d), .failed stored cancelled =>
    -- only the timer keeps the error for the next call
    let background := decide (caller = .timer) && !cancelled
    some { s.store stored d with
      sink := { s.sink with backgroundError := s.sink.backgroundError || background } }
  | _, .cancelTimer => some { s with sink := { s.sink with timer := false } }
  | _, .deleteRow => some { s with row := none }
  | _, _ => none

/-- The part with which a flush returns without an error. -/
def flushReturns (s : DraftRun) (a : DraftAction) : Bool :=
  match s.inFlight, a with
  | none, .flush _ => !s.sink.backgroundError && decide (Clean s.sink)
  | some (.flush, _), .committed => !s.sink.backgroundError
  | _, _ => false

end DraftRun

/-! ### The invariant -/

/-- What the sink remembers, what is in flight and what has been stored. -/
structure DraftRunInv (cfg : DraftSettings) (s : DraftRun) : Prop where
  folded : s.sink.Folded cfg.maxEvents s.accepted
  inFlight : ∀ caller d, s.inFlight = some (caller, d) → IsCheckpoint cfg.maxEvents s.accepted d
  /-- The rows stored are checkpoints of longer and longer parts of what was accepted. -/
  history : ∃ parts, List.Forall₂ (IsCheckpoint cfg.maxEvents) parts s.persisted ∧
    parts.Pairwise (· <+: ·) ∧ ∀ part ∈ parts, part <+: s.accepted
  /-- A sink that is not dirty has stored everything it has accepted. -/
  clean : s.sink.dirty = false → textEvents s.accepted = [] ∨
    ∃ d, s.persisted.getLast? = some d ∧ IsCheckpoint cfg.maxEvents s.accepted d
  row : s.row = none ∨ s.row = s.persisted.getLast?

section Invariant

variable {cfg : DraftSettings} {s s' : DraftRun} {a : DraftAction} {as : List DraftAction}
  {e : RunEvent} {d : RunDraft} {now : Time}

theorem draftRunInv_init : DraftRunInv cfg .init where
  folded := DraftCheckpointSink.folded_init
  inFlight _ _ h := by cases h
  history := ⟨[], List.Forall₂.nil, List.Pairwise.nil, fun _ h => by cases h⟩
  clean _ := .inl rfl
  row := .inl rfl

/-- The snapshot of a sink is a checkpoint of what it has accepted. -/
theorem DraftCheckpointSink.Folded.snapshot {sink : DraftCheckpointSink} {l : List RunEvent}
    {maxEvents : ℕ} (h : sink.Folded maxEvents l) (hseq : ¬sink.latestSeq < 1) (now : Time) :
    IsCheckpoint maxEvents l (DraftRun.snapshot now sink) where
  text := h.text
  events := h.events
  seq := by
    have hlatest := h.seq
    cases hlast : (textEvents l).getLast? with
    | none =>
      rw [hlast, Option.map_none, Option.getD_none] at hlatest
      omega
    | some last =>
      rw [hlast, Option.map_some, Option.getD_some] at hlatest
      exact ⟨last, rfl, hlatest⟩

/-- A checkpoint is one of the longer list when that adds an event without text. -/
theorem IsCheckpoint.append_of_not_carriesText {maxEvents : ℕ} {l : List RunEvent}
    (h : IsCheckpoint maxEvents l d) (he : e.carriesText = false) :
    IsCheckpoint maxEvents (l ++ [e]) d := by
  have htext : textEvents (l ++ [e]) = textEvents l := by simp [textEvents, he]
  exact ⟨fun c => by simp [h.text c, RunEvent.channelText_eq_empty he], by rw [htext, h.events],
    by rw [htext]; exact h.seq⟩

namespace DraftRunInv

/-- What was stored stays a part of what is accepted. -/
theorem history_append (h : DraftRunInv cfg s) (e : RunEvent) :
    ∃ parts, List.Forall₂ (IsCheckpoint cfg.maxEvents) parts s.persisted ∧
      parts.Pairwise (· <+: ·) ∧ ∀ part ∈ parts, part <+: s.accepted ++ [e] := by
  obtain ⟨parts, hparts, hgrow, hall⟩ := h.history
  exact ⟨parts, hparts, hgrow, fun part hpart => (hall part hpart).trans (List.prefix_append _ _)⟩

/-- The sink takes an event without text. -/
theorem quiet (h : DraftRunInv cfg s) (hidle : s.inFlight = none) (he : e.carriesText = false) :
    DraftRunInv cfg { s with accepted := s.accepted ++ [e] } where
  folded := h.folded.append_of_not_carriesText he
  inFlight caller d hd := by
    rw [hidle] at hd
    cases hd
  history := h.history_append e
  clean hdirty := by
    rcases h.clean hdirty with hnil | ⟨d, hlast, hd⟩
    · left
      simpa [textEvents, he] using hnil
    · exact .inr ⟨d, hlast, hd.append_of_not_carriesText he⟩
  row := h.row

/-- The sink takes a delta, which leaves it dirty. -/
theorem accept (h : DraftRunInv cfg s) (hidle : s.inFlight = none) (text : String)
    (he : e.carriesText = true) :
    DraftRunInv cfg { s with
      accepted := s.accepted ++ [e], sink := s.sink.accept cfg e text } where
  folded := h.folded.accept text he
  inFlight caller d hd := by
    rw [hidle] at hd
    cases hd
  history := h.history_append e
  clean hdirty := by cases hdirty
  row := h.row

/-- The timer is started or cancelled, or an error is kept. -/
theorem withFlags (h : DraftRunInv cfg s) (timer backgroundError : Bool) :
    DraftRunInv cfg { s with
      sink := { s.sink with timer := timer, backgroundError := backgroundError } } where
  folded := ⟨h.folded.text, h.folded.events, h.folded.seq⟩
  inFlight := h.inFlight
  history := h.history
  clean := h.clean
  row := h.row

theorem checkpoint (h : DraftRunInv cfg s) (caller : DraftCaller) (now : Time) :
    DraftRunInv cfg (s.checkpoint caller now) := by
  unfold DraftRun.checkpoint
  split_ifs with hclean
  · exact h
  · refine ⟨h.folded, fun caller' d hd => ?_, h.history, h.clean, h.row⟩
    cases hd
    exact h.folded.snapshot (fun hlt => hclean (.inr hlt)) now

theorem checkpointIf (h : DraftRunInv cfg s) (due : Bool) (caller : DraftCaller) (now : Time) :
    DraftRunInv cfg (s.checkpointIf due caller now) := by
  unfold DraftRun.checkpointIf
  split_ifs
  · exact (h.withFlags false s.sink.backgroundError).checkpoint caller now
  · exact h

theorem emit {event : SinkEvent} (h : DraftRunInv cfg s) (hidle : s.inFlight = none) :
    DraftRunInv cfg (s.emit cfg event now) := by
  unfold DraftRun.emit
  dsimp only
  split_ifs with hdelta
  · have hcarries := RunEvent.carriesText_of_isDelta hdelta
    split
    · rename_i hnone
      exact h.quiet hidle (by simpa [hnone] using hcarries)
    · rename_i text hsome
      split_ifs with hempty
      · exact h.quiet hidle (by simpa [hsome, hempty] using hcarries)
      · have htext : event.carriesText = true := by
          rw [hcarries, hsome]
          simpa using hempty
        exact (h.accept hidle text htext).checkpointIf _ .emit now
  · have hquiet : event.carriesText = false := by
      cases hc : event.carriesText
      · rfl
      · exact absurd (RunEvent.isDelta_of_carriesText hc) hdelta
    exact (h.quiet hidle hquiet).checkpointIf _ .emit now

/-- The transaction in flight ends. -/
theorem store {caller : DraftCaller} (h : DraftRunInv cfg s)
    (hflight : s.inFlight = some (caller, d)) (stored : Bool) :
    DraftRunInv cfg (s.store stored d) ∧ (stored = true →
      (s.store stored d).persisted.getLast? = some d ∧
        IsCheckpoint cfg.maxEvents s.accepted d) := by
  have hd := h.inFlight caller d hflight
  have hidle : ∀ caller' d', (s.store stored d).inFlight = some (caller', d') →
      IsCheckpoint cfg.maxEvents s.accepted d' := by
    intro caller' d' hsome
    cases hsome
  cases stored with
  | false => exact ⟨⟨h.folded, hidle, h.history, h.clean, h.row⟩, Bool.noConfusion⟩
  | true =>
    have hlast : (s.store true d).persisted.getLast? = some d := List.getLast?_concat
    obtain ⟨parts, hparts, hgrow, hall⟩ := h.history
    refine ⟨⟨h.folded, hidle, ⟨parts ++ [s.accepted], ?_, ?_, ?_⟩,
      fun _ => .inr ⟨d, hlast, hd⟩, .inr hlast.symm⟩, fun _ => ⟨hlast, hd⟩⟩
    · exact List.rel_append hparts (List.Forall₂.cons hd List.Forall₂.nil)
    · refine List.pairwise_append.mpr ⟨hgrow, List.pairwise_singleton _ _, ?_⟩
      intro part hpart last hmem
      rw [List.mem_singleton.mp hmem]
      exact hall part hpart
    · intro part hpart
      rcases List.mem_append.mp hpart with hold | hnew
      · exact hall part hold
      · rw [List.mem_singleton.mp hnew]
        exact List.prefix_rfl

/-- **Step lemma.** -/
theorem step (h : DraftRunInv cfg s) (hstep : s.step cfg a = some s') : DraftRunInv cfg s' := by
  unfold DraftRun.step at hstep
  split at hstep
  · rename_i hidle
    cases hstep
    split_ifs
    · exact h
    · exact h.emit hidle
  · cases hstep
    split_ifs
    · exact h
    · exact h.checkpointIf _ _ _
  · split at hstep <;> cases hstep
    exact h.checkpointIf _ _ _
  · rename_i d hflight
    cases hstep
    obtain ⟨hstored, hall⟩ := h.store hflight true
    obtain ⟨hlast, hd⟩ := hall rfl
    exact ⟨⟨h.folded.text, h.folded.events, h.folded.seq⟩, hstored.inFlight, hstored.history,
      fun _ => .inr ⟨d, hlast, hd⟩, hstored.row⟩
  · rename_i caller d stored cancelled hflight
    cases hstep
    exact (h.store hflight stored).1.withFlags _ _
  · cases hstep
    exact h.withFlags _ _
  · cases hstep
    exact ⟨h.folded, h.inFlight, h.history, h.clean, .inl rfl⟩
  · cases hstep

end DraftRunInv

/-- **Run lemma.** -/
theorem draftRunInv_of_run (hrun : StepSystem.run (DraftRun.step cfg) .init as = some s) :
    DraftRunInv cfg s :=
  StepSystem.run_invariant (fun _ _ _ h hstep => h.step hstep) draftRunInv_init hrun

end Invariant

/-! ### Exact folds -/

section Folds

variable {cfg : DraftSettings} {s s' : DraftRun} {a : DraftAction} {as : List DraftAction}

/-- The event of a call of `emit`. -/
def DraftAction.emitted : DraftAction → Option RunEvent
  | .emit event _ => some event.toRunEvent
  | _ => none

/-- The events emitted, in the order in which their calls had the lock. -/
def emittedBy (as : List DraftAction) : List RunEvent := as.filterMap DraftAction.emitted

theorem checkpointIf_keeps (due : Bool) (caller : DraftCaller) (now : Time) (s : DraftRun) :
    (s.checkpointIf due caller now).accepted = s.accepted ∧
      (s.checkpointIf due caller now).sink.backgroundError = s.sink.backgroundError := by
  unfold DraftRun.checkpointIf DraftRun.checkpoint
  split_ifs <;> exact ⟨rfl, rfl⟩

theorem emit_keeps (event : SinkEvent) (now : Time) (s : DraftRun) :
    (s.emit cfg event now).accepted = s.accepted ++ [event.toRunEvent] ∧
      (s.emit cfg event now).sink.backgroundError = s.sink.backgroundError := by
  unfold DraftRun.emit
  dsimp only
  split_ifs
  · split
    · exact ⟨rfl, rfl⟩
    · split_ifs
      · exact ⟨rfl, rfl⟩
      · exact checkpointIf_keeps _ _ _ _
  · exact checkpointIf_keeps _ _ _ _

/-- Without a background error a call accepts its event; with one nothing is accepted any more. -/
theorem accepted_of_step (hstep : s.step cfg a = some s') :
    (s.sink.backgroundError = false → s'.accepted = s.accepted ++ a.emitted.toList) ∧
      (s.sink.backgroundError = true →
        s'.sink.backgroundError = true ∧ s'.accepted = s.accepted) := by
  unfold DraftRun.step at hstep
  split at hstep
  · rename_i event now _
    cases hstep
    split_ifs with hbackground
    · exact ⟨fun hnone => by simp [hbackground] at hnone, fun h => ⟨h, rfl⟩⟩
    · exact ⟨fun _ => (emit_keeps event now s).1, fun h => absurd h hbackground⟩
  · cases hstep
    split_ifs with hbackground
    · exact ⟨fun _ => (List.append_nil _).symm, fun h => ⟨h, rfl⟩⟩
    · exact ⟨fun _ => (checkpointIf_keeps _ _ _ s).1.trans (List.append_nil _).symm,
        fun h => absurd h hbackground⟩
  · split at hstep <;> cases hstep
    obtain ⟨haccepted, hkept⟩ := checkpointIf_keeps true .timer _ s
    exact ⟨fun _ => haccepted.trans (List.append_nil _).symm, fun h => ⟨hkept.trans h, haccepted⟩⟩
  · cases hstep
    exact ⟨fun _ => (List.append_nil _).symm, fun h => ⟨h, rfl⟩⟩
  · cases hstep
    refine ⟨fun _ => (List.append_nil _).symm, fun h => ⟨?_, rfl⟩⟩
    simp [h]
  · cases hstep
    exact ⟨fun _ => (List.append_nil _).symm, fun h => ⟨h, rfl⟩⟩
  · cases hstep
    exact ⟨fun _ => (List.append_nil _).symm, fun h => ⟨h, rfl⟩⟩
  · cases hstep

/-- What is accepted is the first part of what was emitted, and all of it while there is no
background error. -/
theorem accepted_of_run (hrun : StepSystem.run (DraftRun.step cfg) s as = some s') :
    (s.sink.backgroundError = true → s'.accepted = s.accepted ∧ s'.sink.backgroundError = true) ∧
      s'.accepted <+: s.accepted ++ emittedBy as ∧
      (s'.sink.backgroundError = false → s'.accepted = s.accepted ++ emittedBy as) := by
  induction as generalizing s with
  | nil =>
    cases hrun
    exact ⟨fun h => ⟨rfl, h⟩, List.prefix_append _ _, fun _ => (List.append_nil _).symm⟩
  | cons a as ih =>
    obtain ⟨m, hm, hrest⟩ := StepSystem.run_cons_iff.mp hrun
    obtain ⟨haccepts, hrefuses⟩ := accepted_of_step hm
    obtain ⟨hdead, hpart, hall⟩ := ih hrest
    have hemitted : emittedBy (a :: as) = a.emitted.toList ++ emittedBy as := by
      unfold emittedBy
      rw [List.filterMap_cons]
      cases a.emitted <;> rfl
    cases hbackground : s.sink.backgroundError with
    | true =>
      obtain ⟨hlost, hsame⟩ := hrefuses hbackground
      obtain ⟨hend, hlost'⟩ := hdead hlost
      rw [hsame] at hend
      refine ⟨fun _ => ⟨hend, hlost'⟩, ?_, fun hnone => ?_⟩
      · rw [hend]
        exact List.prefix_append _ _
      · rw [hlost'] at hnone
        cases hnone
    | false =>
      rw [haccepts hbackground, List.append_assoc, ← hemitted] at hpart hall
      exact ⟨Bool.noConfusion, hpart, hall⟩

/-- A draft row is the fold of the deltas up to its number: the texts of all of them, and the last
`maxEvents` of those with a text as they were emitted. -/
structure ExactFold (maxEvents : ℕ) (events : List RunEvent) (d : RunDraft) : Prop where
  text : ∀ c, d.channel c = channelText c (events.filter fun e => e.seq ≤ d.seq)
  events : d.events =
    (((textEvents events).filter fun e => e.seq ≤ d.seq).map RunEvent.toDict).rtake maxEvents

theorem IsCheckpoint.exactFold {maxEvents : ℕ} {l events : List RunEvent} {d : RunDraft}
    (h : IsCheckpoint maxEvents l d) (hl : l <+: events)
    (hascending : SeqLog.Ascending RunEvent.seq events) : ExactFold maxEvents events d := by
  obtain ⟨hcut, -⟩ := h.textEvents_eq hl hascending
  refine ⟨fun c => ?_, ?_⟩
  · have hread : channelText c (events.filter fun e => e.seq ≤ d.seq) = channelText c l := by
      rw [← channelText_filter_carriesText, ← channelText_filter_carriesText (l := l),
        List.filter_comm]
      exact congrArg _ hcut.symm
    rw [hread]
    exact h.text c
  · rw [← hcut]
    exact h.events

/-- The numbers of two checkpoints, one of a first part of what the other covers. -/
theorem IsCheckpoint.seq_le {maxEvents : ℕ} {l l' : List RunEvent} {d d' : RunDraft}
    (h : IsCheckpoint maxEvents l d) (h' : IsCheckpoint maxEvents l' d') (hl : l <+: l')
    (hascending : SeqLog.Ascending RunEvent.seq l') : d.seq ≤ d'.seq := by
  obtain ⟨-, e, he, htext, hseq⟩ := h.textEvents_eq hl hascending
  obtain ⟨last, hlast, hseq'⟩ := h'.seq
  have hmem : e ∈ textEvents l' := List.mem_filter.mpr ⟨hl.subset he, htext⟩
  have hle : e.seq ≤ last.seq := (hascending.filter _).key_le_of_getLast? hmem hlast
  omega

/-- Of a list of checkpoints of longer and longer parts, the numbers never decrease. -/
theorem pairwise_seq_le {maxEvents : ℕ} {parts : List (List RunEvent)} {rows : List RunDraft}
    {events : List RunEvent} (h : List.Forall₂ (IsCheckpoint maxEvents) parts rows)
    (hgrow : parts.Pairwise (· <+: ·)) (hall : ∀ part ∈ parts, part <+: events)
    (hascending : SeqLog.Ascending RunEvent.seq events) :
    rows.Pairwise fun d d' => d.seq ≤ d'.seq := by
  induction h with
  | nil => exact List.Pairwise.nil
  | cons hd hrows ih =>
    obtain ⟨hfirst, hgrow⟩ := List.pairwise_cons.mp hgrow
    refine List.pairwise_cons.mpr ⟨fun d' hd' => ?_, ih hgrow fun part hpart =>
      hall part (List.mem_cons_of_mem _ hpart)⟩
    obtain ⟨part', hpart', hcheckpoint'⟩ := List.Forall₂.exists_left hrows hd'
    have hascending' : SeqLog.Ascending RunEvent.seq part' :=
      hascending.sublist (hall part' (List.mem_cons_of_mem _ hpart')).sublist
    exact hd.seq_le hcheckpoint' (hfirst part' hpart') hascending'

theorem checkpointIf_row (due : Bool) (caller : DraftCaller) (now : Time) (s : DraftRun) :
    (s.checkpointIf due caller now).row = s.row ∧
      (s.checkpointIf due caller now).persisted = s.persisted := by
  unfold DraftRun.checkpointIf DraftRun.checkpoint
  split_ifs <;> exact ⟨rfl, rfl⟩

theorem emit_row (event : SinkEvent) (now : Time) (s : DraftRun) :
    (s.emit cfg event now).row = s.row ∧ (s.emit cfg event now).persisted = s.persisted := by
  unfold DraftRun.emit
  dsimp only
  split_ifs
  · split
    · exact ⟨rfl, rfl⟩
    · split_ifs
      · exact ⟨rfl, rfl⟩
      · exact checkpointIf_row _ _ _ _
  · exact checkpointIf_row _ _ _ _

/-- Unless the row is deleted it stays the one stored last. -/
theorem row_of_step (hstep : s.step cfg a = some s') (hrow : s.row = s.persisted.getLast?)
    (ha : a ≠ .deleteRow) : s'.row = s'.persisted.getLast? := by
  have hstored : ∀ stored d, (s.store stored d).row = (s.store stored d).persisted.getLast? := by
    intro stored d
    cases stored with
    | false => exact hrow
    | true => exact List.getLast?_concat.symm
  unfold DraftRun.step at hstep
  split at hstep
  · rename_i event now _
    cases hstep
    split_ifs
    · exact hrow
    · rw [(emit_row event now s).1, (emit_row event now s).2, hrow]
  · cases hstep
    split_ifs
    · exact hrow
    · rw [(checkpointIf_row _ _ _ s).1, (checkpointIf_row _ _ _ s).2, hrow]
  · split at hstep <;> cases hstep
    rw [(checkpointIf_row _ _ _ s).1, (checkpointIf_row _ _ _ s).2, hrow]
  · cases hstep
    exact hstored true _
  · cases hstep
    exact hstored _ _
  · cases hstep
    exact hrow
  · exact absurd rfl ha
  · cases hstep

/-- Without a deletion the row is the last one stored. -/
theorem row_of_run (hrun : StepSystem.run (DraftRun.step cfg) s as = some s')
    (hrow : s.row = s.persisted.getLast?) (hkept : DraftAction.deleteRow ∉ as) :
    s'.row = s'.persisted.getLast? := by
  induction as generalizing s with
  | nil =>
    cases hrun
    exact hrow
  | cons a as ih =>
    obtain ⟨m, hm, hrest⟩ := StepSystem.run_cons_iff.mp hrun
    rw [List.mem_cons, not_or] at hkept
    exact ih hrest (row_of_step hm hrow (Ne.symm hkept.1)) hkept.2

/-- After a flush that returns, nothing is left to store. -/
theorem DraftRunInv.flushed (h : DraftRunInv cfg s) (hstep : s.step cfg a = some s')
    (hflush : s.flushReturns a = true) (hpositive : ∀ e ∈ s.accepted, 1 ≤ e.seq) :
    textEvents s.accepted = [] ∨
      ∃ d, s'.persisted.getLast? = some d ∧ IsCheckpoint cfg.maxEvents s.accepted d := by
  unfold DraftRun.flushReturns at hflush
  unfold DraftRun.step at hstep
  split at hflush
  · rename_i now hidle
    obtain ⟨hbackground, hclean⟩ := Bool.and_eq_true_iff.mp hflush
    have hclean : DraftRun.Clean s.sink := of_decide_eq_true hclean
    rw [hidle] at hstep
    cases hstep
    have hpersisted : (if s.sink.backgroundError then s
        else s.checkpointIf true .flush now).persisted = s.persisted := by
      split_ifs
      · rfl
      · exact (checkpointIf_row _ _ _ s).2
    rw [hpersisted]
    rcases hclean with hdirty | hnone
    · exact h.clean hdirty
    · -- a number below one is that of no event
      left
      have hseq := h.folded.seq
      cases hlast : (textEvents s.accepted).getLast? with
      | none => exact List.getLast?_eq_none_iff.mp hlast
      | some last =>
        rw [hlast, Option.map_some, Option.getD_some] at hseq
        have hmem := (List.mem_filter.mp (List.mem_of_getLast? hlast)).1
        have hpos := hpositive last hmem
        omega
  · rename_i d hflight
    rw [hflight] at hstep
    cases hstep
    obtain ⟨-, hall⟩ := h.store hflight true
    exact .inr ⟨d, hall rfl⟩
  · cases hflush

/-- **Exact folds.** In every interleaving of the calls of a sink, its timer and the answers of the
database, for events that are numbered in ascending order above zero: every row ever stored is the
exact fold of the deltas up to its number, the numbers never decrease, and when a flush returns
without an error the row last stored covers every delta emitted so far. -/
theorem draftCheckpoints_exact (hrun : StepSystem.run (DraftRun.step cfg) .init as = some s)
    (hascending : SeqLog.Ascending RunEvent.seq (emittedBy as))
    (hpositive : ∀ e ∈ emittedBy as, 1 ≤ e.seq) :
    (∀ d ∈ s.persisted, ExactFold cfg.maxEvents (emittedBy as) d) ∧
      s.persisted.Pairwise (fun d d' => d.seq ≤ d'.seq) ∧
      ∀ a s', s.step cfg a = some s' → s.flushReturns a = true →
        (DraftAction.deleteRow ∉ as → s'.row = s'.persisted.getLast?) ∧
        (textEvents (emittedBy as) = [] ∨ ∃ d, s'.persisted.getLast? = some d ∧
          ExactFold cfg.maxEvents (emittedBy as) d ∧
          ∀ e ∈ textEvents (emittedBy as), e.seq ≤ d.seq) := by
  have hinv := draftRunInv_of_run hrun
  obtain ⟨-, hpart, hall⟩ := accepted_of_run hrun
  obtain ⟨parts, hparts, hgrow, hprefixes⟩ := hinv.history
  have hcovered : ∀ part ∈ parts, part <+: emittedBy as := fun part hmem =>
    (hprefixes part hmem).trans hpart
  refine ⟨fun d hd => ?_, pairwise_seq_le hparts hgrow hcovered hascending,
    fun a s' hstep hflush => ⟨fun hkept => ?_, ?_⟩⟩
  · obtain ⟨part, hmem, hcheckpoint⟩ := List.Forall₂.exists_left hparts hd
    exact hcheckpoint.exactFold (hcovered part hmem) hascending
  · have ha : a ≠ .deleteRow := by
      rintro rfl
      exact absurd hflush (by unfold DraftRun.flushReturns; split <;> simp_all)
    exact row_of_step hstep (row_of_run hrun rfl hkept) ha
  · have hbackground : s.sink.backgroundError = false := by
      unfold DraftRun.flushReturns at hflush
      split at hflush
      · simpa using (Bool.and_eq_true_iff.mp hflush).1
      · simpa using hflush
      · cases hflush
    have haccepted : s.accepted = emittedBy as := hall hbackground
    rw [← haccepted] at hascending hpositive ⊢
    rcases hinv.flushed hstep hflush hpositive with hnil | ⟨d, hlast, hd⟩
    · exact .inl hnil
    · refine .inr ⟨d, hlast, hd.exactFold List.prefix_rfl hascending, fun e he => ?_⟩
      obtain ⟨last, htop, hseq⟩ := hd.seq
      rw [hseq]
      exact (hascending.filter _).key_le_of_getLast? he htop

theorem isForwarded_textDelta (seq : ℕ) (text : String) :
    (⟨seq, .textDelta, [("text", .str text)]⟩ : RunEvent).type.isForwarded = true := rfl

/-- An answer of two parts, with a timer that fires after the first. -/
def timedEmits : List DraftAction :=
  let delta seq text : SinkEvent :=
    ⟨⟨seq, .textDelta, [("text", .str text)]⟩, isForwarded_textDelta seq text⟩
  [.emit (delta 2 "It is ") 0, .timer 5, .committed, .emit (delta 3 "noon") 6]

/-- An interval of five seconds, and one event retained. -/
def timedSettings : DraftSettings := ⟨5, 100, 1, by omega, by omega⟩

theorem draftCheckpoints_exact_timedEmits :
    ∃ s s', StepSystem.run (DraftRun.step timedSettings) .init (timedEmits ++ [.flush 7]) = some s ∧
      s.step timedSettings .committed = some s' ∧
      s'.persisted.map (fun d => (d.seq, d.text)) = [(2, "It is "), (3, "It is noon")] ∧
      s'.row = s'.persisted.getLast? := by
  obtain ⟨s, hrun, hflush, hstored⟩ :
      ∃ s, StepSystem.run (DraftRun.step timedSettings) .init (timedEmits ++ [.flush 7]) = some s ∧
        s.flushReturns .committed = true ∧
        (s.step timedSettings .committed).map
          (fun s' => s'.persisted.map fun d => (d.seq, d.text)) =
            some [(2, "It is "), (3, "It is noon")] :=
    StepSystem.exists_run (by decide +kernel)
  obtain ⟨s', hstep, hrows⟩ := Option.map_eq_some_iff.mp hstored
  obtain ⟨-, -, hflushed⟩ := draftCheckpoints_exact hrun (by decide) (by decide)
  exact ⟨s, s', hrun, hstep, hrows, (hflushed .committed s' hstep hflush).1 (by decide)⟩

end Folds

end IChat
