import IChat.General.SeqLog
import IChat.Runs.Events

/-!
# The Redis event stream of a run

`RedisRunEventStream` keeps the events of one run in a Redis stream whose entry ids are the
sequence numbers. Redis only accepts ids above the last one it has generated; `append` treats the
rejection of an id that is already present as success and of any other id as an error.

The stream is a best-effort copy: it may be trimmed at its old end, and the key may expire as a
whole, which also forgets the last id.
-/

namespace IChat

/-- The stream under the key of one run. -/
structure EventStream where
  entries : List RunEventResponse
  lastId : ℕ
  deriving DecidableEq

namespace EventStream

/-- The key does not exist. -/
def empty : EventStream := ⟨[], 0⟩

/-- `append`: `XADD` with the explicit id `seq-0`; `none` when it raises. -/
def append (event : RunEvent) (createdAt : Time) (s : EventStream) : Option EventStream :=
  if s.lastId < event.seq then
    some ⟨s.entries ++ [⟨event, createdAt⟩], event.seq⟩
  else if event.seq ∈ s.entries.map (fun e => e.seq) then some s
  else none

/-- `list_after`: every entry above a number. -/
def listAfter (s : EventStream) (afterSeq : ℕ) : List RunEventResponse :=
  s.entries.filter fun e => afterSeq < e.seq

/-- `read_after`: the first entries above a number, at most 256 at a time. -/
def readAfter (s : EventStream) (afterSeq : ℕ) : List RunEventResponse :=
  (s.listAfter afterSeq).take 256

/-- `latest_seq`: the number of the newest entry, zero for an empty stream. -/
def latestSeq (s : EventStream) : ℕ :=
  (s.entries.getLast?.map fun e => e.seq).getD 0

/-- The oldest entries are trimmed. -/
def trim (n : ℕ) (s : EventStream) : EventStream := { s with entries := s.entries.drop n }

/-! ### Well-formed streams -/

/-- Entry ids ascend and stay below the last one generated. -/
structure Ordered (s : EventStream) : Prop where
  ascending : SeqLog.Ascending (fun e : RunEventResponse => e.seq) s.entries
  le_lastId : ∀ e ∈ s.entries, e.seq ≤ s.lastId

variable {s s' : EventStream} {event : RunEvent} {createdAt : Time} {e : RunEventResponse} {n : ℕ}

theorem ordered_empty : empty.Ordered := ⟨SeqLog.ascending_nil, fun e he => by cases he⟩

theorem Ordered.append (h : s.Ordered) (happend : s.append event createdAt = some s') :
    s'.Ordered := by
  unfold EventStream.append at happend
  split at happend
  · rename_i hlt
    cases happend
    refine ⟨h.ascending.append_singleton fun e he => (h.le_lastId e he).trans_lt hlt, ?_⟩
    intro e he
    rcases List.mem_append.mp he with he | he
    · exact ((h.le_lastId e he).trans_lt hlt).le
    · rw [List.mem_singleton.mp he]
  · split at happend
    · cases happend
      exact h
    · cases happend

/-- An append adds at most the event it was given. -/
theorem mem_of_mem_append (happend : s.append event createdAt = some s') (he : e ∈ s'.entries) :
    e ∈ s.entries ∨ e.toRunEvent = event := by
  unfold EventStream.append at happend
  split at happend
  · cases happend
    rcases List.mem_append.mp he with he | he
    · exact .inl he
    · rw [List.mem_singleton.mp he]
      exact .inr rfl
  · split at happend
    · cases happend
      exact .inl he
    · cases happend

theorem Ordered.trim (h : s.Ordered) : (s.trim n).Ordered :=
  ⟨h.ascending.sublist (List.drop_sublist _ _),
    fun e he => h.le_lastId e (List.mem_of_mem_drop he)⟩

@[simp] theorem mem_listAfter : e ∈ s.listAfter n ↔ e ∈ s.entries ∧ n < e.seq := by
  simp [listAfter]

theorem Ordered.ascending_listAfter (h : s.Ordered) :
    SeqLog.Ascending (fun e : RunEventResponse => e.seq) (s.listAfter n) :=
  h.ascending.filter _

end EventStream

end IChat
