import Mathlib.Data.List.DropRight
import IChat.Runs.Transitions

/-!
# Event sinks

The two sinks that write to the database. `PostgresEventSink` appends tool events and moves the
run to `streaming` with its first event; `DraftCheckpointSink` folds the deltas into a snapshot and
stores it from time to time. Both take an internal lock for the length of a call, so a call is one
step here; `ok` says whether its database transaction commits.

The draft sink is described by the events it has accepted (`DraftCheckpointSink.Folded`): its
texts are their concatenations and its retained events the last ones that carry text. Hence a row
it stores is a checkpoint of a list of events (`IsCheckpoint`), whatever the timing was.
-/

namespace IChat

/-! ### Semantic events -/

/-- The state of `PostgresEventSink`. -/
structure PostgresEventSink where
  streamingStarted : Bool
  deriving DecidableEq

/-- What a call of a sink leaves behind: the database, the sink, and whether it asked the run to be
cancelled. -/
structure SinkEmit where
  db : Db
  sink : PostgresEventSink
  cancel : Bool
  deriving DecidableEq

/-- The first statement of `emit`: move the run into streaming unless this sink has done so. The
result says whether the run streams. -/
def PostgresEventSink.startStreaming (sink : PostgresEventSink) (now : Time) (db : Db) :
    Db × Bool :=
  if sink.streamingStarted then (db, true) else markRunStreaming now db

/-- `PostgresEventSink.emit`. -/
def PostgresEventSink.emit (sink : PostgresEventSink) (event : SinkEvent) (now : Time) (db : Db) :
    Except DbError SinkEmit :=
  if sink.streamingStarted && event.type.isDelta then .ok ⟨db, sink, false⟩
  else
    match sink.startStreaming now db with
    | (db, false) => .ok ⟨db, sink, true⟩
    | (db, true) =>
      if event.type.isDelta then .ok ⟨db, ⟨true⟩, false⟩
      else do
        let db ← appendRunEvent now event.type event.payload (some event.seq) db
        .ok ⟨db, ⟨true⟩, false⟩

/-! ### Draft checkpoints -/

/-- The settings of `DraftCheckpointSink`, with the bounds its constructor checks. The interval is
only compared with zero. -/
structure DraftSettings where
  intervalSeconds : ℕ
  maxPendingChars : ℕ
  maxEvents : ℕ
  maxPendingChars_pos : 1 ≤ maxPendingChars
  maxEvents_pos : 1 ≤ maxEvents

/-- The state of `DraftCheckpointSink`: the joined text parts, the retained delta events, and
whether the timer task is scheduled. -/
structure DraftCheckpointSink where
  parts : Snapshot
  events : List Dict
  latestSeq : ℕ
  pendingChars : ℕ
  dirty : Bool
  timer : Bool
  backgroundError : Bool
  deriving DecidableEq

/-- A sink that has accepted nothing. -/
def DraftCheckpointSink.init : DraftCheckpointSink where
  parts := .empty
  events := []
  latestSeq := 0
  pendingChars := 0
  dirty := false
  timer := false
  backgroundError := false

/-- What a call of the draft sink leaves behind; `raised` when it raises. -/
structure DraftResult where
  sink : DraftCheckpointSink
  db : Db
  raised : Bool
  deriving DecidableEq

/-- The JSON object stored for a delta event. -/
def RunEvent.toDict (e : RunEvent) : Dict :=
  [("seq", .int e.seq), ("type", .str e.type.value), ("payload", .obj e.payload)]

namespace DraftCheckpointSink

/-- `_checkpoint`: store the snapshot when something is pending. -/
def checkpoint (ok : Bool) (now : Time) (s : DraftCheckpointSink) (db : Db) : DraftResult :=
  if s.dirty = false ∨ s.latestSeq < 1 then ⟨s, db, false⟩
  else if ok then
    match upsertRunDraft now s.latestSeq s.parts s.events db with
    | .ok db => ⟨{ s with pendingChars := 0, dirty := false }, db, false⟩
    | .error _ => ⟨s, db, true⟩
  else ⟨s, db, true⟩

/-- Record a delta whose text is `text`. -/
def accept (cfg : DraftSettings) (event : RunEvent) (text : String) (s : DraftCheckpointSink) :
    DraftCheckpointSink :=
  { s with
    parts := s.parts.accumulate event
    events := (s.events ++ [event.toDict]).rtake cfg.maxEvents
    latestSeq := event.seq
    pendingChars := s.pendingChars + text.length
    dirty := true
    timer := s.timer || cfg.intervalSeconds != 0 }

/-- `DraftCheckpointSink.emit`. -/
def emit (cfg : DraftSettings) (event : SinkEvent) (ok : Bool) (now : Time)
    (s : DraftCheckpointSink) (db : Db) : DraftResult :=
  if s.backgroundError then ⟨s, db, true⟩
  else if event.type.isDelta then
    match (Dict.get? event.payload "text").bind Json.str? with
    | none => ⟨s, db, false⟩
    | some text =>
      if text = "" then ⟨s, db, false⟩
      else
        let s := s.accept cfg event.toRunEvent text
        if cfg.intervalSeconds = 0 ∨ cfg.maxPendingChars ≤ s.pendingChars then
          checkpoint ok now { s with timer := false } db
        else ⟨s, db, false⟩
  else if event.type.isTool && s.dirty then checkpoint ok now { s with timer := false } db
  else ⟨s, db, false⟩

/-- `DraftCheckpointSink.flush`. -/
def flush (ok : Bool) (now : Time) (s : DraftCheckpointSink) (db : Db) : DraftResult :=
  if s.backgroundError then ⟨s, db, true⟩
  else checkpoint ok now { s with timer := false } db

/-- `_checkpoint_after_interval`, when its sleep is over: a failure is kept for the next call. -/
def timerFires (ok : Bool) (now : Time) (s : DraftCheckpointSink) (db : Db) : DraftResult :=
  let result := checkpoint ok now { s with timer := false } db
  if result.raised then { result with sink := { result.sink with backgroundError := true } }
  else result

end DraftCheckpointSink

/-! ### What a checkpoint holds -/

/-- The delta events of a list that carry text, as the draft retains them. -/
def textEvents (events : List RunEvent) : List RunEvent := events.filter RunEvent.carriesText

@[simp] theorem textEvents_append (l₁ l₂ : List RunEvent) :
    textEvents (l₁ ++ l₂) = textEvents l₁ ++ textEvents l₂ := List.filter_append ..

/-- The draft row holds the texts of `l`, and the last `maxEvents` of its events that carry text;
its number is that of the last one. -/
structure IsCheckpoint (maxEvents : ℕ) (l : List RunEvent) (d : RunDraft) : Prop where
  text : ∀ c, d.channel c = channelText c l
  events : d.events = ((textEvents l).map RunEvent.toDict).rtake maxEvents
  seq : ∃ last, (textEvents l).getLast? = some last ∧ d.seq = last.seq

/-- The events a checkpoint of a first part of `emitted` covers are those up to its number, and its
number is that of one of them. -/
theorem IsCheckpoint.textEvents_eq {maxEvents : ℕ} {l emitted : List RunEvent} {d : RunDraft}
    (h : IsCheckpoint maxEvents l d) (hl : l <+: emitted)
    (hascending : SeqLog.Ascending RunEvent.seq emitted) :
    textEvents l = (textEvents emitted).filter (fun e => e.seq ≤ d.seq) ∧
      ∃ e ∈ l, e.carriesText = true ∧ e.seq = d.seq := by
  obtain ⟨rest, rfl⟩ := hl
  obtain ⟨last, hlast, hseq⟩ := h.seq
  have hmem := List.mem_filter.mp (List.mem_of_getLast? hlast)
  have hparts := SeqLog.ascending_append.mp hascending
  refine ⟨Eq.symm ?_, last, hmem.1, hmem.2, hseq.symm⟩
  rw [textEvents, List.filter_append]
  refine SeqLog.filter_le_eq_of_append (fun e he => ?_) fun e he => ?_
  · rw [hseq]
    exact (hparts.1.filter _).key_le_of_getLast? he hlast
  · rw [hseq]
    exact hparts.2.2 last hmem.1 e (List.mem_filter.mp he).1

/-- A transaction of the draft sink: nothing, or a checkpoint of `l`. -/
def DraftStored (maxEvents : ℕ) (l : List RunEvent) (db db' : Db) : Prop :=
  db' = db ∨ ∃ d, IsCheckpoint maxEvents l d ∧ db' = { db with draft := some d }

namespace DraftCheckpointSink

/-- The sink's memory is that of a sink that has accepted the events of `l`. -/
structure Folded (maxEvents : ℕ) (l : List RunEvent) (s : DraftCheckpointSink) : Prop where
  text : ∀ c, s.parts.channel c = channelText c l
  events : s.events = ((textEvents l).map RunEvent.toDict).rtake maxEvents
  seq : s.latestSeq = ((textEvents l).getLast?.map fun e => e.seq).getD 0

variable {cfg : DraftSettings} {l : List RunEvent} {s : DraftCheckpointSink} {db : Db}
  {e : RunEvent} {ok : Bool} {now : Time} {maxEvents : ℕ}

theorem folded_init : Folded maxEvents [] init :=
  ⟨fun c => by simp [init], by simp [init, textEvents], rfl⟩

theorem Folded.setTimer (h : s.Folded maxEvents l) (timer : Bool) :
    { s with timer := timer }.Folded maxEvents l :=
  ⟨h.text, h.events, h.seq⟩

/-- Keeping the last `n` of a list after keeping the last `n` of a part of it. -/
private theorem rtake_append_singleton {α : Type*} {n : ℕ} (hn : 1 ≤ n) (l : List α) (a : α) :
    (l.rtake n ++ [a]).rtake n = (l ++ [a]).rtake n := by
  obtain ⟨m, rfl⟩ : ∃ m, n = m + 1 := ⟨n - 1, by omega⟩
  rw [List.rtake_concat_succ, List.rtake_concat_succ]
  congr 1
  simp only [List.rtake_eq_reverse_take_reverse, List.reverse_reverse, List.take_take]
  simp

/-- An event without text leaves the description as it is. -/
theorem Folded.append_of_not_carriesText (h : s.Folded maxEvents l) (he : e.carriesText = false) :
    s.Folded maxEvents (l ++ [e]) := by
  have htext : textEvents (l ++ [e]) = textEvents l := by simp [textEvents, he]
  exact ⟨fun c => by simp [h.text c, RunEvent.channelText_eq_empty he], by rw [htext, h.events],
    by rw [htext, h.seq]⟩

/-- An accepted delta is added at the end. -/
theorem Folded.accept (h : s.Folded cfg.maxEvents l) (text : String)
    (he : e.carriesText = true) : (s.accept cfg e text).Folded cfg.maxEvents (l ++ [e]) := by
  have htext : textEvents (l ++ [e]) = textEvents l ++ [e] := by simp [textEvents, he]
  refine ⟨fun c => by simp [DraftCheckpointSink.accept, h.text c], ?_, ?_⟩
  · rw [htext, List.map_append, List.map_singleton]
    simp only [DraftCheckpointSink.accept]
    rw [h.events, rtake_append_singleton cfg.maxEvents_pos]
  · simp [DraftCheckpointSink.accept, htext]

/-- A checkpoint keeps the description of the sink, and the row it stores is a checkpoint of what
the sink has accepted. -/
theorem checkpoint_spec (h : s.Folded maxEvents l) :
    (checkpoint ok now s db).sink.Folded maxEvents l ∧
      DraftStored maxEvents l db (checkpoint ok now s db).db := by
  unfold checkpoint
  split
  · exact ⟨h, .inl rfl⟩
  · rename_i hpending
    have hpos : 0 < s.latestSeq := by omega
    have hlast : ∃ last, (textEvents l).getLast? = some last ∧ s.latestSeq = last.seq := by
      have hseq := h.seq
      cases hget : (textEvents l).getLast? with
      | none =>
        simp only [hget, Option.map_none, Option.getD_none] at hseq
        omega
      | some last => exact ⟨last, rfl, by simpa [hget] using hseq⟩
    split
    · rw [upsertRunDraft, if_neg hpos.ne']
      exact ⟨⟨h.text, h.events, h.seq⟩, .inr ⟨_, ⟨h.text, h.events, hlast⟩, rfl⟩⟩
    · exact ⟨h, .inl rfl⟩

/-- **Specification of `emit`.** Unless a background error is raised first, the sink has accepted
the event, even if it then raises, and a row stored is a checkpoint of what it has accepted. -/
theorem emit_spec {event : SinkEvent} (hb : s.backgroundError = false)
    (h : s.Folded cfg.maxEvents l) :
    (emit cfg event ok now s db).sink.Folded cfg.maxEvents (l ++ [event.toRunEvent]) ∧
      DraftStored cfg.maxEvents (l ++ [event.toRunEvent]) db (emit cfg event ok now s db).db := by
  unfold emit
  rw [if_neg (by simp [hb])]
  split
  · rename_i hdelta
    have hcarries := RunEvent.carriesText_of_isDelta hdelta
    split
    · rename_i hnone
      exact ⟨h.append_of_not_carriesText (by simpa [hnone] using hcarries), .inl rfl⟩
    · rename_i text hsome
      split
      · rename_i hempty
        exact ⟨h.append_of_not_carriesText (by simpa [hsome, hempty] using hcarries), .inl rfl⟩
      · rename_i hne
        have htext : event.carriesText = true := by
          rw [hcarries, hsome]
          simpa using hne
        have haccept := h.accept text htext
        dsimp only
        split
        · exact checkpoint_spec (haccept.setTimer false)
        · exact ⟨haccept, .inl rfl⟩
  · rename_i hdelta
    have hquiet : event.carriesText = false := by
      cases hc : event.carriesText
      · rfl
      · exact absurd (RunEvent.isDelta_of_carriesText hc) hdelta
    have hsame := h.append_of_not_carriesText hquiet
    split
    · exact checkpoint_spec (hsame.setTimer false)
    · exact ⟨hsame, .inl rfl⟩

/-- A call that finds a background error does nothing but raise. -/
theorem emit_of_backgroundError {event : SinkEvent} (hb : s.backgroundError = true) :
    emit cfg event ok now s db = ⟨s, db, true⟩ := by
  simp [emit, hb]

theorem flush_spec (h : s.Folded maxEvents l) (ok : Bool) (now : Time) (db : Db) :
    (flush ok now s db).sink.Folded maxEvents l ∧
      DraftStored maxEvents l db (flush ok now s db).db := by
  unfold flush
  split
  · exact ⟨h, .inl rfl⟩
  · exact checkpoint_spec (h.setTimer false)

theorem timerFires_spec (h : s.Folded maxEvents l) (ok : Bool) (now : Time) (db : Db) :
    (timerFires ok now s db).sink.Folded maxEvents l ∧
      DraftStored maxEvents l db (timerFires ok now s db).db := by
  have hspec : ∀ r, r = checkpoint ok now { s with timer := false } db →
      r.sink.Folded maxEvents l ∧ DraftStored maxEvents l db r.db := by
    rintro r rfl
    exact checkpoint_spec (h.setTimer false)
  obtain ⟨hsink, hdb⟩ := hspec _ rfl
  unfold timerFires
  dsimp only
  split
  · exact ⟨⟨hsink.text, hsink.events, hsink.seq⟩, hdb⟩
  · exact ⟨hsink, hdb⟩

end DraftCheckpointSink

end IChat
