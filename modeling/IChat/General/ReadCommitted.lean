import IChat.General.Table

/-!
# Rows at read committed

A table under concurrent transactions that run at read committed. A row has its last committed
version and, while a transaction holds its lock, the version that this transaction sees and will
commit; a transaction that only locks a row holds it with the version unchanged.

* `Row.visible` is the version that a statement of a transaction sees: its own, or the committed.
* `update` takes the lock of a row, if no other transaction holds it, and writes a new version
  over the newest one: it is `SELECT ... FOR UPDATE` with the identity, and `UPDATE` by key.
* `insert` adds a row that no other transaction sees, `commit` and `rollback` end a transaction.

Each operation has one equation for the lookup of a row. `sumAfter` adds up a weight over the
versions as they will be once a transaction has committed; the other transactions change it only
when they commit.
-/

namespace ReadCommitted

universe u

variable {V : Type u}

/-- A row with its committed version, and the version of the holder of its lock. -/
structure Row (V : Type u) where
  id : ℕ
  committed : Option V
  pending : Option (ℕ × V)
  deriving DecidableEq

/-- A table under concurrent transactions. -/
abbrev Store (V : Type u) := Table (Row V) Row.id

namespace Row

/-- The version that a statement of the transaction sees. -/
def visible (txn : ℕ) (row : Row V) : Option V :=
  match row.pending with
  | some (holder, version) => if holder = txn then some version else row.committed
  | none => row.committed

/-- No other transaction holds the lock. -/
def Free (txn : ℕ) (row : Row V) : Prop := ∀ p ∈ row.pending, p.1 = txn

instance (txn : ℕ) (row : Row V) : Decidable (row.Free txn) :=
  inferInstanceAs (Decidable (∀ p ∈ row.pending, p.1 = txn))

/-- The row with a version of the transaction, which takes its lock. -/
def write (txn : ℕ) (version : V) (row : Row V) : Row V :=
  { row with pending := some (txn, version) }

/-- The row after the transaction has committed. -/
def commit (txn : ℕ) (row : Row V) : Row V :=
  match row.pending with
  | some (holder, version) =>
    if holder = txn then { row with committed := some version, pending := none } else row
  | none => row

/-- The row after the transaction has been rolled back. -/
def rollback (txn : ℕ) (row : Row V) : Row V :=
  match row.pending with
  | some (holder, _) => if holder = txn then { row with pending := none } else row
  | none => row

variable {txn other : ℕ} {version : V} {row : Row V}

@[simp] theorem id_write : (row.write txn version).id = row.id := rfl

@[simp] theorem committed_write : (row.write txn version).committed = row.committed := rfl

@[simp] theorem pending_write : (row.write txn version).pending = some (txn, version) := rfl

@[simp] theorem id_commit : (row.commit txn).id = row.id := by
  unfold commit
  split
  · split <;> rfl
  · rfl

@[simp] theorem id_rollback : (row.rollback txn).id = row.id := by
  unfold rollback
  split
  · split <;> rfl
  · rfl

theorem visible_of_pending (h : row.pending = some (txn, version)) :
    row.visible txn = some version := by
  simp [visible, h]

theorem visible_of_not_held (h : ∀ p ∈ row.pending, p.1 ≠ txn) :
    row.visible txn = row.committed := by
  unfold visible
  split
  · exact if_neg (h _ ‹_›)
  · rfl

theorem commit_of_pending (h : row.pending = some (txn, version)) :
    row.commit txn = ⟨row.id, some version, none⟩ := by
  simp [commit, h]

theorem commit_of_not_held (h : ∀ p ∈ row.pending, p.1 ≠ txn) : row.commit txn = row := by
  unfold commit
  split
  · exact if_neg (h _ ‹_›)
  · rfl

theorem rollback_of_pending (h : row.pending = some (txn, version)) :
    row.rollback txn = ⟨row.id, row.committed, none⟩ := by
  simp [rollback, h]

theorem rollback_of_not_held (h : ∀ p ∈ row.pending, p.1 ≠ txn) : row.rollback txn = row := by
  unfold rollback
  split
  · exact if_neg (h _ ‹_›)
  · rfl

/-- A row is held by the transaction or is not. -/
theorem held_or_not (txn : ℕ) (row : Row V) :
    (∃ version, row.pending = some (txn, version)) ∨ ∀ p ∈ row.pending, p.1 ≠ txn := by
  rcases hpending : row.pending with _ | ⟨holder, version⟩
  · exact .inr fun p hp => by cases hp
  · by_cases hholder : holder = txn
    · exact .inl ⟨version, by rw [hholder]⟩
    · refine .inr fun p hp => ?_
      obtain rfl : (holder, version) = p := Option.some.inj hp
      exact hholder

@[simp] theorem committed_rollback : (row.rollback txn).committed = row.committed := by
  obtain ⟨version, hheld⟩ | hnot := held_or_not txn row
  · rw [rollback_of_pending hheld]
  · rw [rollback_of_not_held hnot]

/-- What other transactions hold is theirs at the end of a transaction too. -/
theorem pending_commit_iff (hne : other ≠ txn) :
    (row.commit txn).pending = some (other, version) ↔ row.pending = some (other, version) := by
  obtain ⟨held, hheld⟩ | hnot := held_or_not txn row
  · rw [commit_of_pending hheld, hheld]
    simp [hne.symm]
  · rw [commit_of_not_held hnot]

theorem pending_rollback_iff (hne : other ≠ txn) :
    (row.rollback txn).pending = some (other, version) ↔ row.pending = some (other, version) := by
  obtain ⟨held, hheld⟩ | hnot := held_or_not txn row
  · rw [rollback_of_pending hheld, hheld]
    simp [hne.symm]
  · rw [rollback_of_not_held hnot]

/-- A row that is held after the end of a transaction is another's, and untouched. -/
theorem of_pending_commit {p : ℕ × V} (h : (row.commit txn).pending = some p) :
    row.commit txn = row ∧ p.1 ≠ txn := by
  obtain ⟨held, hheld⟩ | hnot := held_or_not txn row
  · rw [commit_of_pending hheld] at h
    cases h
  · have hrow := commit_of_not_held hnot
    rw [hrow] at h
    exact ⟨hrow, hnot p h⟩

theorem of_pending_rollback {p : ℕ × V} (h : (row.rollback txn).pending = some p) :
    row.rollback txn = row ∧ p.1 ≠ txn := by
  obtain ⟨held, hheld⟩ | hnot := held_or_not txn row
  · rw [rollback_of_pending hheld] at h
    cases h
  · have hrow := rollback_of_not_held hnot
    rw [hrow] at h
    exact ⟨hrow, hnot p h⟩

/-- What another transaction holds is not touched. -/
theorem commit_of_held (hne : other ≠ txn) (h : row.pending = some (other, version)) :
    row.commit txn = row := by
  refine commit_of_not_held fun p hp hholder => hne ?_
  obtain rfl : (other, version) = p := Option.eq_some_unique h hp
  exact hholder

theorem rollback_of_held (hne : other ≠ txn) (h : row.pending = some (other, version)) :
    row.rollback txn = row := by
  refine rollback_of_not_held fun p hp hholder => hne ?_
  obtain rfl : (other, version) = p := Option.eq_some_unique h hp
  exact hholder

/-- A committed row stays one. -/
theorem committed_commit {old : V} (h : row.committed = some old) :
    ∃ new, (row.commit txn).committed = some new := by
  obtain ⟨held, hheld⟩ | hnot := held_or_not txn row
  · rw [commit_of_pending hheld]
    exact ⟨held, rfl⟩
  · rw [commit_of_not_held hnot]
    exact ⟨old, h⟩

end Row

/-! ### Statements -/

/-- The newest version of a row, under its lock, and the store with another version in its place. -/
def update (txn id : ℕ) (f : V → V) (s : Store V) : Option (V × Store V) :=
  match s.get? id with
  | none => none
  | some row =>
    if row.Free txn then (row.visible txn).map fun version =>
      (version, s.set (row.write txn (f version)))
    else none

/-- Add a row that the transaction alone sees. -/
def insert (txn : ℕ) (version : V) (s : Store V) : Store V :=
  Table.insert s (fun id => ⟨id, none, some (txn, version)⟩) fun _ => rfl

def commit (txn : ℕ) (s : Store V) : Store V := s.map (Row.commit txn) fun _ => Row.id_commit

def rollback (txn : ℕ) (s : Store V) : Store V := s.map (Row.rollback txn) fun _ => Row.id_rollback

/-- What the transaction sees under a key. -/
def read (txn id : ℕ) (s : Store V) : Option V := (s.get? id).bind (Row.visible txn)

variable {txn id k : ℕ} {f : V → V} {version : V} {s s' : Store V}

theorem update_cases (h : update txn id f s = some (version, s')) :
    ∃ row, s.get? id = some row ∧ row.Free txn ∧ row.visible txn = some version ∧
      s' = s.set (row.write txn (f version)) := by
  unfold update at h
  cases hget : s.get? id with
  | none => simp [hget] at h
  | some row =>
    simp only [hget, Option.ite_none_right_eq_some, Option.map_eq_some_iff, Prod.mk.injEq] at h
    obtain ⟨hfree, version', hvisible, rfl, rfl⟩ := h
    exact ⟨row, rfl, hfree, hvisible, rfl⟩

theorem get?_set_write {row : Row V} (hget : s.get? id = some row) :
    Table.get? (s.set (row.write txn version)) k =
      if k = id then some (row.write txn version) else s.get? k := by
  have hmem : ∃ old ∈ s, old.id = (row.write txn version).id := ⟨row, Table.mem_of_get? hget, rfl⟩
  rw [Table.get?_set hmem, Row.id_write, Table.key_of_get? hget]

@[simp] theorem get?_commit : (commit txn s).get? k = (s.get? k).map (Row.commit txn) :=
  Table.get?_map

@[simp] theorem get?_rollback : (rollback txn s).get? k = (s.get? k).map (Row.rollback txn) :=
  Table.get?_map

theorem get?_insert :
    (insert txn version s).get? k =
      if k = s.next then some ⟨s.next, none, some (txn, version)⟩ else s.get? k :=
  Table.get?_insert

/-- The rows are kept where one is added. -/
theorem get?_insert_of_some {row : Row V} (h : s.get? k = some row) :
    (insert txn version s).get? k = some row := by
  rw [get?_insert, if_neg, h]
  rintro rfl
  rw [Table.get?_of_next_le le_rfl] at h
  cases h

theorem of_get?_insert {row : Row V} (h : (insert txn version s).get? k = some row) :
    k = s.next ∧ row = ⟨s.next, none, some (txn, version)⟩ ∨ s.get? k = some row := by
  rw [get?_insert] at h
  split_ifs at h with hk
  · exact .inl ⟨hk, (Option.some.inj h).symm⟩
  · exact .inr h

/-- What is committed is the same after a write. -/
theorem committed_write_iff {row : Row V} {old : V} (hget : s.get? id = some row) :
    (∃ row', Table.get? (s.set (row.write txn version)) k = some row' ∧ row'.committed = some old) ↔
      ∃ row', s.get? k = some row' ∧ row'.committed = some old := by
  rw [get?_set_write hget]
  split_ifs with hk
  · rw [hk, hget]
    simp only [Option.some.injEq, exists_eq_left', Row.committed_write]
  · rfl

/-! ### Sums -/

section sums

variable {other : ℕ} {w : V → ℤ}

/-- The weight of a committed version. -/
def weight (w : V → ℤ) (row : Row V) : ℤ := row.committed.elim 0 w

/-- The sum of a weight over the committed versions. -/
def committedSum (w : V → ℤ) (s : Store V) : ℤ := s.sum (weight w)

/-- The sum of a weight over the committed versions once the transaction has committed. -/
def sumAfter (txn : ℕ) (w : V → ℤ) (s : Store V) : ℤ := committedSum w (commit txn s)

theorem sumAfter_eq : sumAfter txn w s = s.sum fun row => weight w (row.commit txn) :=
  Table.sum_map

theorem sum_set_write {row : Row V} {w : Row V → ℤ} (hget : s.get? id = some row) :
    Table.sum (s.set (row.write txn version)) w = s.sum w + (w (row.write txn version) - w row) :=
  Table.sum_set (Table.mem_of_get? hget) rfl

/-- A write changes no committed version. -/
theorem committedSum_update (h : update txn id f s = some (version, s')) :
    committedSum w s' = committedSum w s := by
  obtain ⟨row, hget, -, -, rfl⟩ := update_cases h
  have hweight : weight w (row.write txn (f version)) = weight w row := rfl
  rw [committedSum, sum_set_write hget, hweight, sub_self, add_zero, committedSum]

/-- A write changes what its own transaction will commit. -/
theorem sumAfter_update {row : Row V} (h : update txn id f s = some (version, s'))
    (hget : s.get? id = some row) :
    sumAfter txn w s' = sumAfter txn w s + (w (f version) - weight w (row.commit txn)) := by
  obtain ⟨row', hget', -, -, rfl⟩ := update_cases h
  obtain rfl : row = row' := Option.eq_some_unique hget hget'
  have hweight : weight w ((row.write txn (f version)).commit txn) = w (f version) := by
    rw [Row.commit_of_pending rfl]
    rfl
  rw [sumAfter_eq, sum_set_write hget, hweight, sumAfter_eq]

/-- A write of another transaction changes nothing of it. -/
theorem sumAfter_update_of_ne (hne : other ≠ txn) (h : update other id f s = some (version, s')) :
    sumAfter txn w s' = sumAfter txn w s := by
  obtain ⟨row, hget, hfree, -, rfl⟩ := update_cases h
  have hold : row.commit txn = row :=
    Row.commit_of_not_held fun p hp hholder => hne ((hfree p hp).symm.trans hholder)
  have hnew : (row.write other (f version)).commit txn = row.write other (f version) :=
    Row.commit_of_held hne rfl
  have hweight : weight w (row.write other (f version)) = weight w row := rfl
  rw [sumAfter_eq, sum_set_write hget, hold, hnew, hweight, sub_self, add_zero, sumAfter_eq]

/-- A transaction adds nothing to a weight: no version of its own weighs more than the committed
one. -/
def NoHeavier (w : V → ℤ) (txn : ℕ) (s : Store V) : Prop :=
  ∀ row ∈ s, ∀ version, row.pending = some (txn, version) → w version ≤ weight w row

/-- The commit of a transaction that adds nothing. -/
theorem committedSum_commit_le (h : NoHeavier w txn s) :
    committedSum w (commit txn s) ≤ committedSum w s := by
  rw [← sumAfter, sumAfter_eq]
  refine Table.sum_le_sum fun row hrow => ?_
  obtain ⟨version, hheld⟩ | hnot := row.held_or_not txn
  · rw [Row.commit_of_pending hheld]
    exact h row hrow version hheld
  · rw [Row.commit_of_not_held hnot]

/-- The same for what another transaction will commit. -/
theorem sumAfter_commit_le (hne : other ≠ txn) (h : NoHeavier w other s) :
    sumAfter txn w (commit other s) ≤ sumAfter txn w s := by
  rw [sumAfter_eq, commit, Table.sum_map, sumAfter_eq]
  refine Table.sum_le_sum fun row hrow => ?_
  obtain ⟨version, hheld⟩ | hnot := row.held_or_not other
  · rw [Row.commit_of_pending hheld, Row.commit_of_held hne hheld]
    exact h row hrow version hheld
  · rw [Row.commit_of_not_held hnot]

/-- A transaction that is rolled back leaves the committed versions. -/
theorem committedSum_rollback : committedSum w (rollback txn s) = committedSum w s := by
  rw [committedSum, rollback, Table.sum_map]
  refine Table.sum_congr fun row _ => ?_
  rw [weight, Row.committed_rollback, weight]

theorem sumAfter_rollback (hne : other ≠ txn) :
    sumAfter txn w (rollback other s) = sumAfter txn w s := by
  rw [sumAfter_eq, rollback, Table.sum_map, sumAfter_eq]
  refine Table.sum_congr fun row _ => ?_
  obtain ⟨version, hheld⟩ | hnot := row.held_or_not other
  · rw [Row.rollback_of_pending hheld, Row.commit_of_held hne hheld]
    rfl
  · rw [Row.rollback_of_not_held hnot]

end sums

end ReadCommitted
