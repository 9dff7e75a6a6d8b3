import IChat.Runs.Database
import IChat.Runs.EventSink
import IChat.Runs.EventStream

/-!
# The event stream a client reads

`iter_run_events`, the generator behind the server-sent events of a run, as a state machine
(`Reader`). Its first iteration lists the rows above the cursor and replays the Redis stream; every
later one first waits for the stream's tail and, when nothing arrives, lists the rows. Both then
read the draft, merge the three answers by number and deliver the result. The generator ends when
it delivers a terminal event, or when it finds one in the log after an iteration that delivered
none.

One step of the reader is one call to the database or to Redis, together with the code that runs
until the next call. `redisOk` is false when the call to Redis raises, and always when the reader
was given no event stream; such an answer is empty.

* `draftEventsAfter_map_toDict`: reading back the events a draft retains;
* `mem_mergeEvents`, `pairwise_mergeEvents`: what a merge delivers and in which order;
* `deliver_eq`: the loop delivers everything up to the first terminal event.
-/

namespace IChat

/-! ### Reading the draft -/

/-- What becomes of one raw event of a draft. -/
inductive DraftEntry where
  /-- It is malformed or not above the cursor. -/
  | skipped
  /-- Its validation raises. -/
  | invalid
  | event (event : RunEventResponse)
  deriving DecidableEq

/-- The body of the loop of `_draft_events_after`. -/
def readDraftEvent (afterSeq : ℕ) (updatedAt : Time) (raw : Dict) : DraftEntry :=
  match (Dict.get? raw "seq").bind Json.toInt?, Dict.get? raw "type", Dict.get? raw "payload" with
  | some seq, some type, some (.obj payload) =>
    if seq ≤ afterSeq then .skipped
    else
      match type.str?.bind RunEventType.ofValue? with
      | some type => .event ⟨⟨seq.toNat, type, payload⟩, updatedAt⟩
      | none => .invalid
  | _, _, _ => .skipped

/-- `_draft_events_after`; `none` when the validation of an event raises. -/
def draftEventsAfter (afterSeq : ℕ) (updatedAt : Time) : List Dict → Option (List RunEventResponse)
  | [] => some []
  | raw :: rawEvents =>
    match readDraftEvent afterSeq updatedAt raw with
    | .skipped => draftEventsAfter afterSeq updatedAt rawEvents
    | .invalid => none
    | .event event => (draftEventsAfter afterSeq updatedAt rawEvents).map (event :: ·)

/-- `_snapshot_suffix`. -/
def snapshotSuffix (snapshot sent : String) : String :=
  if sent.toList.isPrefixOf snapshot.toList then
    String.ofList (snapshot.toList.drop sent.toList.length)
  else snapshot

/-- The events that bring a client from what was sent to the snapshot of the draft. -/
def snapshotEvents (draft : RunDraft) (sent : Snapshot) : List RunEventResponse :=
  let reasoning := snapshotSuffix draft.reasoning sent.reasoning
  let reasoningSummary := snapshotSuffix draft.reasoningSummary sent.reasoningSummary
  let text := snapshotSuffix draft.text sent.text
  (if reasoning = "" then [] else
    [⟨⟨draft.seq, .reasoningDelta, [("text", .str reasoning), ("kind", .str "raw")]⟩,
      draft.updatedAt⟩]) ++
  (if reasoningSummary = "" then [] else
    [⟨⟨draft.seq, .reasoningDelta, [("text", .str reasoningSummary), ("kind", .str "summary")]⟩,
      draft.updatedAt⟩]) ++
  (if text = "" then [] else
    [⟨⟨draft.seq, .textDelta, [("text", .str text)]⟩, draft.updatedAt⟩])

/-! ### The reader -/

/-- Where `iter_run_events` stands, with the answers it still needs. -/
inductive ReaderPc where
  /-- Before the rows are listed in the first iteration. -/
  | listFirst
  /-- Before the replay of the Redis stream. -/
  | replay (persisted : List RunEventResponse)
  /-- Before the tail of the Redis stream is read. -/
  | tail
  /-- Before the rows are listed in a later iteration. -/
  | list
  /-- Before the draft is read. -/
  | readDraft (persisted streamed : List RunEventResponse)
  /-- Before `run_has_terminal_event`, after an iteration that listed `persisted`. -/
  | terminalCheck (persisted : List RunEventResponse)
  | finished
  | raised
  deriving DecidableEq

/-- The variables of `iter_run_events`, and what it has yielded. -/
structure Reader where
  pc : ReaderPc
  cursor : ℕ
  sent : Snapshot
  checkpointBaselineKnown : Bool
  yielded : List RunEventResponse
  deriving DecidableEq

namespace Reader

/-- A client asks for the events after `afterSeq`. -/
def start (afterSeq : ℕ) : Reader where
  pc := .listFirst
  cursor := afterSeq
  sent := .empty
  checkpointBaselineKnown := afterSeq == 0
  yielded := []

/-- What a loop over a batch yields when it returns at the first terminal event. -/
abbrev throughTerminal (batch : List RunEventResponse) : List RunEventResponse :=
  SeqLog.takeThrough (fun e => e.type.isTerminal) batch

/-- The loop that yields a sorted batch. The two loops of the generator differ in the events they
skip and in those they add to the snapshot of what was sent. -/
def deliver (skips : ℕ → ℕ → Bool) (accumulates : RunEventResponse → Bool) :
    List RunEventResponse → Reader → Reader
  | [], r => r
  | event :: events, r =>
    if skips event.seq r.cursor then deliver skips accumulates events r
    else
      let r := { r with
        cursor := max r.cursor event.seq
        sent := if accumulates event then r.sent.accumulate event.toRunEvent else r.sent
        yielded := r.yielded ++ [event] }
      if event.type.isTerminal then { r with pc := .finished }
      else deliver skips accumulates events r

/-- The events taken from the draft, with the snapshot known to be sent afterwards; `none` when
reading the draft raises. -/
def checkpoint (draft : Option RunDraft) (streamed : List RunEventResponse) (r : Reader) :
    Option (List RunEventResponse × Reader) :=
  match draft with
  | none => some ([], r)
  | some draft =>
    if r.cursor < draft.seq then
      (draftEventsAfter r.cursor draft.updatedAt draft.events).map fun retained =>
        let coveredSeqs := streamed.map fun event => event.seq
        let uncovered := retained.filter fun event => event.seq ∉ coveredSeqs
        let checkpointEvents :=
          if uncovered = [] ∧ r.checkpointBaselineKnown = true then snapshotEvents draft r.sent
          else uncovered
        (checkpointEvents, { r with sent := draft.toSnapshot, checkpointBaselineKnown := true })
    else if draft.seq = r.cursor ∧ r.checkpointBaselineKnown = false then
      some ([], { r with sent := draft.toSnapshot, checkpointBaselineKnown := true })
    else some ([], r)

/-- The events of an iteration in the order they are yielded: rows replace what has their number,
draft events are added to what the stream has at theirs. -/
def mergeEvents (streamed checkpointEvents persisted : List RunEventResponse) :
    List RunEventResponse :=
  let key := fun e : RunEventResponse => e.seq
  (((SeqDict.empty.overwrite key streamed).addAll key checkpointEvents).overwrite key
    persisted).flatten

/-- From the answer about the draft to the next call. -/
def merge (draft : Option RunDraft) (persisted streamed : List RunEventResponse) (r : Reader) :
    Reader :=
  match r.checkpoint draft streamed with
  | none => { r with pc := .raised }
  | some (checkpointEvents, r) =>
    let r := deliver (fun seq cursor => seq < cursor)
      (fun event => r.checkpointBaselineKnown && event ∉ checkpointEvents)
      (mergeEvents streamed checkpointEvents persisted) { r with pc := .terminalCheck persisted }
    if r.pc = .finished then r
    else { r with cursor := max r.cursor ((draft.map fun d => d.seq).getD 0) }

/-- From the answer of the tail to the next call. -/
def followTail (streamed : List RunEventResponse) (r : Reader) : Reader :=
  if streamed = [] then { r with pc := .list }
  else deliver (fun seq cursor => seq ≤ cursor) (fun _ => r.checkpointBaselineKnown)
    (streamed.insertionSort fun a b => a.seq ≤ b.seq) r

/-- One call of `iter_run_events`. -/
def step (redisOk : Bool) (db : Db) (stream : EventStream) (r : Reader) : Option Reader :=
  match r.pc with
  | .listFirst => some { r with pc := .replay (listRunEventsAfter db r.cursor) }
  | .replay persisted =>
    some { r with pc := .readDraft persisted (if redisOk then stream.listAfter r.cursor else []) }
  | .tail => some (r.followTail (if redisOk then stream.readAfter r.cursor else []))
  | .list => some { r with pc := .readDraft (listRunEventsAfter db r.cursor) [] }
  | .readDraft persisted streamed => some (r.merge (getRunDraft db) persisted streamed)
  | .terminalCheck _ =>
    some { r with pc := if runHasTerminalEvent db then .finished else .tail }
  | .finished => none
  | .raised => none

end Reader

/-! ### What a draft gives back -/

section Draft

variable {afterSeq : ℕ} {updatedAt : Time} {e : RunEvent} {l : List RunEvent} {d : RunDraft}
  {sent : Snapshot} {event : RunEventResponse}

theorem readDraftEvent_toDict (e : RunEvent) :
    readDraftEvent afterSeq updatedAt e.toDict =
      if e.seq ≤ afterSeq then .skipped else .event ⟨e, updatedAt⟩ := by
  have hseq : Dict.get? e.toDict "seq" = some (.int e.seq) := rfl
  have htype : Dict.get? e.toDict "type" = some (.str e.type.value) := rfl
  have hpayload : Dict.get? e.toDict "payload" = some (.obj e.payload) := rfl
  simp only [readDraftEvent, hseq, htype, hpayload, Option.bind_some, Json.toInt?,
    Json.instance?, Json.str?, RunEventType.ofValue?_value, Int.ofNat_le, Int.toNat_natCast]

/-- **Round trip.** The events the worker stored come back as they were, those at or below the
cursor left out. -/
theorem draftEventsAfter_map_toDict (afterSeq : ℕ) (updatedAt : Time) (l : List RunEvent) :
    draftEventsAfter afterSeq updatedAt (l.map RunEvent.toDict) =
      some ((l.filter fun e => afterSeq < e.seq).map fun e => ⟨e, updatedAt⟩) := by
  induction l with
  | nil => rfl
  | cons e l ih =>
    simp only [List.map_cons, draftEventsAfter, readDraftEvent_toDict]
    by_cases hle : e.seq ≤ afterSeq
    · rw [if_pos hle, List.filter_cons_of_neg (by simpa using hle)]
      exact ih
    · rw [if_neg hle, List.filter_cons_of_pos (by simpa using hle)]
      simp only [ih, Option.map_some, List.map_cons]

theorem of_mem_snapshotEvents (h : event ∈ snapshotEvents d sent) :
    event.seq = d.seq ∧ event.type.isDelta = true := by
  simp only [snapshotEvents, List.mem_append] at h
  rcases h with (h | h) | h <;> split at h
  all_goals first
    | (rw [List.mem_singleton.mp h]; exact ⟨rfl, rfl⟩)
    | cases h

end Draft

/-! ### What an iteration delivers -/

namespace Reader

variable {streamed checkpointEvents persisted batch : List RunEventResponse}
  {e : RunEventResponse} {r r' : Reader} {n : ℕ}

/-- What is yielded for one number. -/
private theorem group_merge (hs : (streamed.map fun e => e.seq).Nodup)
    (hp : (persisted.map fun e => e.seq).Nodup) :
    (((SeqDict.empty.overwrite (fun e : RunEventResponse => e.seq) streamed).addAll
      (fun e => e.seq) checkpointEvents).overwrite (fun e => e.seq) persisted).group n =
      match persisted.find? fun e => e.seq = n with
      | some e => [e]
      | none => (streamed.find? fun e => e.seq = n).toList ++
          checkpointEvents.filter fun e => e.seq = n := by
  rw [SeqDict.group_overwrite hp, SeqDict.group_addAll, SeqDict.group_overwrite hs]
  cases persisted.find? fun e : RunEventResponse => e.seq = n with
  | some => rfl
  | none => cases streamed.find? fun e : RunEventResponse => e.seq = n <;> rfl

private theorem keyed_merge (hs : (streamed.map fun e => e.seq).Nodup)
    (hp : (persisted.map fun e => e.seq).Nodup) :
    (((SeqDict.empty.overwrite (fun e : RunEventResponse => e.seq) streamed).addAll
      (fun e => e.seq) checkpointEvents).overwrite (fun e => e.seq) persisted).Keyed
        fun e => e.seq := by
  intro n e he
  rw [group_merge hs hp] at he
  split at he
  · rename_i e' hfind
    rw [List.mem_singleton.mp he]
    simpa using List.find?_some hfind
  · rcases List.mem_append.mp he with he | he
    · simpa using List.find?_some (Option.mem_toList.mp he)
    · simpa using (List.mem_filter.mp he).2

/-- Records of a list with distinct numbers are found by their number. -/
private theorem find?_seq_eq_some {l : List RunEventResponse} (h : (l.map fun e => e.seq).Nodup) :
    (l.find? fun e' => e'.seq = e.seq) = some e ↔ e ∈ l := by
  refine ⟨List.mem_of_find?_eq_some, fun he => ?_⟩
  have hinj := List.inj_on_of_nodup_map h
  cases hfind : l.find? fun e' => e'.seq = e.seq with
  | none =>
    have hne := List.find?_eq_none.mp hfind e he
    simp at hne
  | some e' =>
    have hseq : e'.seq = e.seq := by simpa using List.find?_some hfind
    rw [hinj (List.mem_of_find?_eq_some hfind) he hseq]

/-- A merge delivers the rows, and of the other answers what has no row at its number. -/
theorem mem_mergeEvents (hs : (streamed.map fun e => e.seq).Nodup)
    (hp : (persisted.map fun e => e.seq).Nodup) :
    e ∈ mergeEvents streamed checkpointEvents persisted ↔
      e ∈ persisted ∨
        (∀ row ∈ persisted, row.seq ≠ e.seq) ∧ (e ∈ streamed ∨ e ∈ checkpointEvents) := by
  unfold mergeEvents
  rw [SeqDict.mem_flatten (keyed_merge hs hp), group_merge hs hp]
  cases hfind : persisted.find? fun e' => e'.seq = e.seq with
  | some row =>
    have hrow : row ∈ persisted := List.mem_of_find?_eq_some hfind
    have hseq : row.seq = e.seq := by simpa using List.find?_some hfind
    rw [List.mem_singleton]
    constructor
    · rintro rfl
      exact .inl hrow
    · rintro (he | ⟨hne, -⟩)
      · exact (Option.eq_some_unique hfind ((find?_seq_eq_some hp).mpr he)).symm
      · exact absurd hseq (hne row hrow)
  | none =>
    have hne : ∀ row ∈ persisted, row.seq ≠ e.seq := by simpa using List.find?_eq_none.mp hfind
    have hnot : e ∉ persisted := fun he => hne e he rfl
    simp only [List.mem_append, Option.mem_toList, find?_seq_eq_some hs, List.mem_filter,
      decide_true, and_true, hnot, false_or]
    exact ⟨fun h => ⟨hne, h⟩, fun h => h.2⟩

/-- A merge delivers in the order of the numbers, and only events of the draft after another event
with the same number. -/
theorem pairwise_mergeEvents (hs : (streamed.map fun e => e.seq).Nodup)
    (hp : (persisted.map fun e => e.seq).Nodup) :
    (mergeEvents streamed checkpointEvents persisted).Pairwise fun a b =>
      a.seq < b.seq ∨ a.seq = b.seq ∧ b ∈ checkpointEvents := by
  refine SeqDict.pairwise_flatten (keyed_merge hs hp) fun n => ?_
  rw [group_merge hs hp]
  split
  · exact List.pairwise_singleton _ _
  · refine List.pairwise_append.mpr ⟨?_, ?_, fun a _ b hb => (List.mem_filter.mp hb).1⟩
    · cases streamed.find? fun e => e.seq = n with
      | none => exact List.Pairwise.nil
      | some => exact List.pairwise_singleton _ _
    · exact List.pairwise_of_forall_mem_list fun a _ b hb => (List.mem_filter.mp hb).1

/-- Without two events for one number a merge delivers in strictly ascending order. -/
theorem ascending_mergeEvents (hs : (streamed.map fun e => e.seq).Nodup)
    (hp : (persisted.map fun e => e.seq).Nodup) (hc : (checkpointEvents.map fun e => e.seq).Nodup)
    (hnew : ∀ e ∈ checkpointEvents, e.seq ∉ streamed.map fun e => e.seq) :
    SeqLog.Ascending (fun e : RunEventResponse => e.seq)
      (mergeEvents streamed checkpointEvents persisted) := by
  have hgroups : ∀ n, ((((SeqDict.empty.overwrite (fun e : RunEventResponse => e.seq)
      streamed).addAll (fun e => e.seq) checkpointEvents).overwrite (fun e => e.seq)
        persisted).group n).Pairwise fun _ _ => False := by
    intro n
    rw [group_merge hs hp]
    have hdistinct : checkpointEvents.Pairwise fun a b => a.seq ≠ b.seq := List.pairwise_map.mp hc
    have hsingle : (checkpointEvents.filter fun e => e.seq = n).Pairwise fun _ _ => False := by
      refine List.Pairwise.imp_of_mem (fun {a b} ha hb hne => hne ?_) (hdistinct.filter _)
      have hseqA : a.seq = n := by simpa using (List.mem_filter.mp ha).2
      have hseqB : b.seq = n := by simpa using (List.mem_filter.mp hb).2
      rw [hseqA, hseqB]
    cases persisted.find? fun e : RunEventResponse => e.seq = n with
    | some => exact List.pairwise_singleton _ _
    | none =>
      cases hfind : streamed.find? fun e : RunEventResponse => e.seq = n with
      | none => simpa using hsingle
      | some e =>
        -- the stream has this number, so the draft adds nothing to it
        have hnone : (checkpointEvents.filter fun e => e.seq = n) = [] := by
          refine List.filter_eq_nil_iff.mpr fun e' he' => ?_
          have hseq : e.seq = n := by simpa using List.find?_some hfind
          have hmem : e.seq ∈ streamed.map fun e => e.seq :=
            List.mem_map_of_mem (List.mem_of_find?_eq_some hfind)
          have hne : e'.seq ≠ n := fun h => hnew e' he' (by rw [h, ← hseq]; exact hmem)
          simpa using hne
        dsimp only
        rw [hnone]
        simp
  exact (SeqDict.pairwise_flatten (keyed_merge hs hp) hgroups).imp fun h =>
    h.resolve_right fun h => h.2

/-- **The delivery loop.** A sorted batch that starts where the loop skips nothing is yielded up to
its first terminal event, which ends the generator. -/
theorem deliver_eq (skips : ℕ → ℕ → Bool) (accumulates : RunEventResponse → Bool)
    (batch : List RunEventResponse) (r : Reader)
    (hnext : ∀ e ∈ batch, skips e.seq r.cursor = false ∧ r.cursor ≤ e.seq)
    (hsorted : batch.Pairwise fun a b => skips b.seq a.seq = false ∧ a.seq ≤ b.seq) :
    ∃ sent, deliver skips accumulates batch r =
      { r with
        pc := if batch.any (fun e => e.type.isTerminal) then .finished else r.pc
        cursor := ((throughTerminal batch).getLast?.map fun e => e.seq).getD r.cursor
        sent := sent
        yielded := r.yielded ++ throughTerminal batch } := by
  induction batch generalizing r with
  | nil => exact ⟨r.sent, by simp [deliver, SeqLog.takeThrough]⟩
  | cons e batch ih =>
    obtain ⟨hskip, hle⟩ := hnext e List.mem_cons_self
    obtain ⟨hhead, htail⟩ := List.pairwise_cons.mp hsorted
    have hmax : max r.cursor e.seq = e.seq := max_eq_right hle
    simp only [deliver, hskip, Bool.false_eq_true, if_false, SeqLog.takeThrough,
      List.any_cons, hmax]
    by_cases hterminal : e.type.isTerminal = true
    · simp only [hterminal, if_true, Bool.true_or, List.getLast?_singleton, Option.map_some,
        Option.getD_some]
      exact ⟨_, rfl⟩
    · obtain ⟨sent, hsent⟩ := ih { r with
        cursor := e.seq
        sent := if accumulates e then r.sent.accumulate e.toRunEvent else r.sent
        yielded := r.yielded ++ [e] } hhead htail
      refine ⟨sent, ?_⟩
      simp only [hterminal, Bool.false_eq_true, if_false, Bool.false_or, hsent, List.append_assoc,
        List.singleton_append, List.getLast?_cons]
      cases (throughTerminal batch).getLast? <;> rfl

/-- A batch is delivered: everything up to its first terminal event is yielded, and the cursor
follows. `top` is the number the cursor is moved to when there is no terminal event. -/
structure Delivers (r r' : Reader) (next : ReaderPc) (batch : List RunEventResponse) (top : ℕ) :
    Prop where
  yielded : r'.yielded = r.yielded ++ throughTerminal batch
  pc : r'.pc = if batch.any (fun e => e.type.isTerminal) then .finished else next
  cursor_le : r.cursor ≤ r'.cursor
  le_cursor : ∀ e ∈ throughTerminal batch, e.seq ≤ r'.cursor
  top_le : (∀ e ∈ batch, e.type.isTerminal = false) → top ≤ r'.cursor
  cursor_of_terminal :
    ∀ e ∈ throughTerminal batch, e.type.isTerminal = true → r'.cursor = e.seq
  cursor_mem : r'.cursor = r.cursor ∨ (∃ e ∈ throughTerminal batch, e.seq = r'.cursor) ∨
    (∀ e ∈ batch, e.type.isTerminal = false) ∧ r'.cursor = top

/-- A number the cursor moves to lies at or below something in the batch, or is the draft's. -/
theorem Delivers.le_batch_or_top {next : ReaderPc} {top : ℕ} (hd : r.Delivers r' next batch top)
    (hlt : r.cursor < n) (hle : n ≤ r'.cursor) : (∃ e ∈ batch, n ≤ e.seq) ∨ n ≤ top := by
  rcases hd.cursor_mem with hsame | ⟨e, he, hseq⟩ | ⟨-, htop⟩
  · omega
  · exact .inl ⟨e, SeqLog.mem_of_mem_takeThrough he, hseq ▸ hle⟩
  · exact .inr (htop ▸ hle)

/-- What the delivery loop does, followed by a move of the cursor when it has not returned. -/
private theorem delivers_of_eq {sent : Snapshot} {baseline : Bool} {next : ReaderPc} (top : ℕ)
    (hnext : ∀ e ∈ batch, r.cursor ≤ e.seq)
    (hsorted : batch.Pairwise fun a b => a.seq ≤ b.seq)
    (hpc : next ≠ .finished)
    (heq : r' = { r with
      pc := if batch.any (fun e => e.type.isTerminal) then .finished else next
      cursor := ((throughTerminal batch).getLast?.map fun e => e.seq).getD r.cursor
      sent := sent
      checkpointBaselineKnown := baseline
      yielded := r.yielded ++ throughTerminal batch }) :
    r.Delivers (if r'.pc = .finished then r' else { r' with cursor := max r'.cursor top }) next
      batch top := by
  -- the cursor is the number of the last event yielded
  have hlast : ∀ e ∈ throughTerminal batch,
      r.cursor ≤ e.seq ∧ e.seq ≤ r'.cursor ∧ ∃ l ∈ throughTerminal batch, l.seq = r'.cursor := by
    intro e he
    obtain ⟨last, hlast⟩ : ∃ last, (throughTerminal batch).getLast? = some last :=
      Option.ne_none_iff_exists'.mp fun hnone => by
        rw [List.getLast?_eq_none_iff.mp hnone] at he
        cases he
    have hcursor : r'.cursor = last.seq := by rw [heq, hlast]; rfl
    have hsublist : (throughTerminal batch).Sublist batch :=
      (SeqLog.takeThrough_isPrefix _ batch).sublist
    refine ⟨hnext e (SeqLog.mem_of_mem_takeThrough he), ?_, last, List.mem_of_getLast? hlast,
      hcursor.symm⟩
    obtain ⟨init, hinit⟩ := List.getLast?_eq_some_iff.mp hlast
    have hpairs := hsorted.sublist hsublist
    rw [hinit] at hpairs he
    rw [hcursor]
    rcases List.mem_append.mp he with he | he
    · exact (List.pairwise_append.mp hpairs).2.2 e he last (List.mem_singleton_self last)
    · rw [List.mem_singleton.mp he]
  have hcursor : r.cursor ≤ r'.cursor := by
    cases htake : throughTerminal batch with
    | nil => rw [heq, htake]; exact le_rfl
    | cons e =>
      obtain ⟨hle, hle', -⟩ := hlast e (htake ▸ List.mem_cons_self)
      exact hle.trans hle'
  have hnone : r'.cursor = r.cursor ∨ ∃ e ∈ throughTerminal batch, e.seq = r'.cursor := by
    cases htake : throughTerminal batch with
    | nil => left; rw [heq, htake]; rfl
    | cons e =>
      right
      rw [← htake]
      exact (hlast e (htake ▸ List.mem_cons_self)).2.2
  -- a terminal event cuts the batch and ends the reader, otherwise all of it is yielded
  by_cases hterminal : batch.any (fun e => e.type.isTerminal) = true
  · have hfinished : r'.pc = .finished := by rw [heq, hterminal]; rfl
    rw [if_pos hfinished]
    refine ⟨by rw [heq], by rw [hterminal]; exact hfinished, hcursor, fun e he => (hlast e he).2.1,
      fun hall => ?_, fun e he htype => ?_, hnone.imp_right .inl⟩
    · rw [List.any_eq_false.mpr (by simpa using hall)] at hterminal
      cases hterminal
    · rw [heq, SeqLog.getLast?_of_mem_takeThrough he htype]
      rfl
  · have hopen : r'.pc = next := by rw [heq]; simp [hterminal]
    have hall : ∀ e ∈ batch, e.type.isTerminal = false := by simpa using hterminal
    rw [if_neg (hopen ▸ hpc)]
    refine ⟨by rw [heq], by simpa [hterminal] using hopen, hcursor.trans (le_max_left _ _),
      fun e he => (hlast e he).2.1.trans (le_max_left _ _), fun _ => le_max_right _ _,
      fun e he htype => ?_, ?_⟩
    · rw [hall e (SeqLog.mem_of_mem_takeThrough he)] at htype
      cases htype
    · rcases le_total top r'.cursor with hle | hle
      · simp only [max_eq_left hle]
        exact hnone.imp_right .inl
      · exact .inr (.inr ⟨hall, max_eq_right hle⟩)

/-- An answer of the tail is delivered as it is. -/
theorem followTail_delivers (hpc : r.pc = .tail) (hne : streamed ≠ [])
    (hs : SeqLog.Ascending (fun e : RunEventResponse => e.seq) streamed)
    (habove : ∀ e ∈ streamed, r.cursor < e.seq) :
    r.Delivers (r.followTail streamed) .tail streamed 0 := by
  have hle : streamed.Pairwise fun a b => a.seq ≤ b.seq := hs.imp fun h => h.le
  have hsort : streamed.insertionSort (fun a b => a.seq ≤ b.seq) = streamed := hle.insertionSort_eq
  obtain ⟨sent, hdeliver⟩ := deliver_eq (fun seq cursor => decide (seq ≤ cursor))
    (fun _ => r.checkpointBaselineKnown) streamed r
    (fun e he => ⟨by simpa using habove e he, (habove e he).le⟩)
    (hs.imp fun h => ⟨by simpa using h, h.le⟩)
  have hfollow : r.followTail streamed = deliver (fun seq cursor => decide (seq ≤ cursor))
      (fun _ => r.checkpointBaselineKnown) streamed r := by
    rw [followTail, if_neg hne, hsort]
  have hdelivers := delivers_of_eq 0 (fun e he => (habove e he).le) hle
    (ReaderPc.noConfusion : ReaderPc.tail ≠ .finished) (hpc ▸ hfollow.trans hdeliver)
  simpa using hdelivers

/-! ### Merging the draft -/

/-- The events an iteration takes from the draft. -/
inductive CheckpointEvents (r : Reader) (streamed : List RunEventResponse) :
    Option RunDraft → List RunEventResponse → Prop where
  | absent : CheckpointEvents r streamed none []
  /-- The draft is not above the cursor. -/
  | behind {draft : RunDraft} (le : draft.seq ≤ r.cursor) :
      CheckpointEvents r streamed (some draft) []
  /-- The retained events above the cursor that the stream did not give. -/
  | retained {draft : RunDraft} {events : List RunEventResponse} (lt : r.cursor < draft.seq)
      (decoded : draftEventsAfter r.cursor draft.updatedAt draft.events = some events) :
      CheckpointEvents r streamed (some draft)
        (events.filter fun event => event.seq ∉ streamed.map fun e => e.seq)
  /-- What the snapshot has beyond the texts that were sent. -/
  | snapshot {draft : RunDraft} {events : List RunEventResponse} (lt : r.cursor < draft.seq)
      (decoded : draftEventsAfter r.cursor draft.updatedAt draft.events = some events)
      (covered : ∀ event ∈ events, event.seq ∈ streamed.map fun e => e.seq)
      (baseline : r.checkpointBaselineKnown = true) :
      CheckpointEvents r streamed (some draft) (snapshotEvents draft r.sent)

/-- Reading a draft whose events can be validated. -/
private theorem checkpoint_eq (r : Reader) (streamed : List RunEventResponse)
    {draft : Option RunDraft}
    (hdraft : ∀ d ∈ draft, ∃ l : List RunEvent, d.events = l.map RunEvent.toDict) :
    ∃ checkpointEvents sent baseline, CheckpointEvents r streamed draft checkpointEvents ∧
      r.checkpoint draft streamed = some (checkpointEvents,
        { r with sent := sent, checkpointBaselineKnown := baseline }) := by
  cases draft with
  | none => exact ⟨[], r.sent, r.checkpointBaselineKnown, .absent, rfl⟩
  | some d =>
    obtain ⟨l, hl⟩ := hdraft d rfl
    by_cases hlt : r.cursor < d.seq
    · have hdecoded := draftEventsAfter_map_toDict r.cursor d.updatedAt l
      rw [← hl] at hdecoded
      simp only [checkpoint, if_pos hlt, hdecoded, Option.map_some]
      split
      · rename_i hcovered
        refine ⟨_, _, _, .snapshot hlt hdecoded ?_ hcovered.2, rfl⟩
        simpa using List.filter_eq_nil_iff.mp hcovered.1
      · exact ⟨_, _, _, .retained hlt hdecoded, rfl⟩
    · simp only [checkpoint, if_neg hlt]
      split
      · exact ⟨_, _, _, .behind (Nat.le_of_not_lt hlt), rfl⟩
      · exact ⟨_, r.sent, r.checkpointBaselineKnown, .behind (Nat.le_of_not_lt hlt), rfl⟩

/-- What is taken from the draft are deltas above the cursor. -/
theorem CheckpointEvents.cursor_lt {draft : Option RunDraft} {checkpointEvents}
    (h : CheckpointEvents r streamed draft checkpointEvents)
    (hdraft : ∀ d ∈ draft, ∃ l : List RunEvent, d.events = l.map RunEvent.toDict)
    (he : e ∈ checkpointEvents) : r.cursor < e.seq := by
  cases h with
  | absent => cases he
  | behind => cases he
  | @retained d events hlt hdecoded =>
    obtain ⟨l, hl⟩ := hdraft d rfl
    rw [hl, draftEventsAfter_map_toDict, Option.some.injEq] at hdecoded
    obtain ⟨e', he', rfl⟩ := List.mem_map.mp (hdecoded ▸ (List.mem_filter.mp he).1)
    simpa using (List.mem_filter.mp he').2
  | snapshot hlt => exact (of_mem_snapshotEvents he).1 ▸ hlt

/-- **The merge.** When the three answers lie above the cursor, the merge of the rows, the stream's
events and what is taken from the draft is delivered. -/
theorem merge_delivers {draft : Option RunDraft}
    (hdraft : ∀ d ∈ draft, ∃ l : List RunEvent, d.events = l.map RunEvent.toDict)
    (hs : (streamed.map fun e => e.seq).Nodup) (hp : (persisted.map fun e => e.seq).Nodup)
    (hsabove : ∀ e ∈ streamed, r.cursor < e.seq) (hpabove : ∀ e ∈ persisted, r.cursor < e.seq) :
    ∃ checkpointEvents, CheckpointEvents r streamed draft checkpointEvents ∧
      r.Delivers (r.merge draft persisted streamed) (.terminalCheck persisted)
        (mergeEvents streamed checkpointEvents persisted)
        ((draft.map fun d => d.seq).getD 0) := by
  obtain ⟨checkpointEvents, sent, baseline, hkind, hcheckpoint⟩ :=
    checkpoint_eq r streamed hdraft
  refine ⟨checkpointEvents, hkind, ?_⟩
  have hcabove : ∀ e ∈ checkpointEvents, r.cursor ≤ e.seq :=
    fun e he => (hkind.cursor_lt hdraft he).le
  have hnext : ∀ e ∈ mergeEvents streamed checkpointEvents persisted, r.cursor ≤ e.seq := by
    intro e he
    rcases (mem_mergeEvents hs hp).mp he with he | ⟨-, he | he⟩
    · exact (hpabove e he).le
    · exact (hsabove e he).le
    · exact hcabove e he
  have hsorted : (mergeEvents streamed checkpointEvents persisted).Pairwise
      fun a b => a.seq ≤ b.seq :=
    (pairwise_mergeEvents hs hp).imp fun h => h.elim (fun h => h.le) fun h => h.1.le
  obtain ⟨sent', hdeliver⟩ := deliver_eq (fun seq cursor => decide (seq < cursor))
    (fun event => baseline && event ∉ checkpointEvents)
    (mergeEvents streamed checkpointEvents persisted)
    { r with pc := .terminalCheck persisted, sent := sent, checkpointBaselineKnown := baseline }
    (fun e he => ⟨by simpa using hnext e he, hnext e he⟩)
    (hsorted.imp fun h => ⟨by simpa using h, h⟩)
  have hdelivers := delivers_of_eq ((draft.map fun d => d.seq).getD 0) hnext hsorted
    (ReaderPc.noConfusion : ReaderPc.terminalCheck persisted ≠ .finished) hdeliver
  rw [merge, hcheckpoint]
  exact hdelivers

end Reader

end IChat
