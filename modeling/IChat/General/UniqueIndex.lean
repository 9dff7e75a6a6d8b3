import IChat.General.ReadCommitted

/-!
# Unique indexes and bulk updates at read committed

* `Unique key` is what a unique index keeps between concurrent transactions: a key is committed in
  one row at most, and a row that claims a key before its commit claims it alone. The key of a
  version is an option, for partial indexes.
* An insert fails on a row that its transaction can see under the key, and waits for the end of
  another transaction that holds such a row (`Row.Conflicts`, `Row.Awaited`).
* A bulk update finds its rows with one snapshot (`matching`), then comes to them one by one and
  looks at the newest version of each again (`updateIf`). `Passed` is what it leaves behind: a row
  with no committed version that matches, or one that the transaction has rewritten.
-/

namespace ReadCommitted

universe u v

variable {V : Type u} {K : Type v} {key : V → Option K} {k : K} {txn other id j : ℕ} {version : V}
  {s : Store V} {row : Row V}

/-! ### The entries of an index -/

/-- The key is committed in the row. -/
def Holds (key : V → Option K) (k : K) (s : Store V) (id : ℕ) : Prop :=
  ∃ row version, s.get? id = some row ∧ row.committed = some version ∧ key version = some k

/-- The transaction is about to commit the row with the key. -/
def Claims (key : V → Option K) (k : K) (txn : ℕ) (s : Store V) (id : ℕ) : Prop :=
  ∃ row version, s.get? id = some row ∧ row.pending = some (txn, version) ∧ key version = some k

/-- The transaction is about to commit the row without the key. -/
def Drops (key : V → Option K) (k : K) (txn : ℕ) (s : Store V) (id : ℕ) : Prop :=
  ∃ row version, s.get? id = some row ∧ row.pending = some (txn, version) ∧ key version ≠ some k

/-- What a unique index keeps. -/
structure Unique (key : V → Option K) (s : Store V) : Prop where
  committed : ∀ {k id j}, Holds key k s id → Holds key k s j → id = j
  superseded : ∀ {k txn id j}, Claims key k txn s id → Holds key k s j →
    id = j ∨ Drops key k txn s j
  pending : ∀ {k txn other id j}, Claims key k txn s id → Claims key k other s j → id = j

/-- The row keeps an insert of the key out. -/
def Row.Conflicts (key : V → Option K) (k : K) (txn : ℕ) (row : Row V) : Prop :=
  row.Free txn ∧ ∃ version ∈ row.visible txn, key version = some k

/-- An insert of the key waits for the holder of the row. -/
def Row.Awaited (key : V → Option K) (k : K) (txn : ℕ) (row : Row V) : Prop :=
  ¬row.Free txn ∧
    ((∃ version ∈ row.committed, key version = some k) ∨ ∃ p ∈ row.pending, key p.2 = some k)

instance [DecidableEq K] : Decidable (row.Conflicts key k txn) :=
  inferInstanceAs (Decidable (_ ∧ ∃ version ∈ row.visible txn, _))

instance [DecidableEq K] : Decidable (row.Awaited key k txn) :=
  inferInstanceAs (Decidable (_ ∧ ((∃ version ∈ row.committed, _) ∨ ∃ p ∈ row.pending, _)))

/-- What a unique index says to an insert. -/
inductive Insertion
  | clear | conflict | wait
  deriving DecidableEq, Repr

/-- The answer of the index to the insert of a version. -/
def insertion [DecidableEq K] (key : V → Option K) (txn : ℕ) (version : V) (s : Store V) :
    Insertion :=
  match key version with
  | none => .clear
  | some k =>
    if s.rows.any fun row => row.Conflicts key k txn then .conflict
    else if s.rows.any fun row => row.Awaited key k txn then .wait
    else .clear

theorem insertion_clear [DecidableEq K] (h : insertion key txn version s = .clear)
    (hkey : key version = some k) (hrow : row ∈ s) :
    ¬row.Conflicts key k txn ∧ ¬row.Awaited key k txn := by
  simp only [insertion, hkey] at h
  split at h
  · cases h
  · split at h
    · cases h
    · rename_i hconflicts hawaited
      simp only [List.any_eq_true, decide_eq_true_eq, not_exists, not_and] at hconflicts hawaited
      exact ⟨hconflicts row hrow, hawaited row hrow⟩

theorem Row.pending_of_visible (hvisible : row.visible txn = some version) (hfree : row.Free txn) :
    row.pending = some (txn, version) ∨ row.pending = none ∧ row.committed = some version := by
  obtain ⟨held, hheld⟩ | hnot := row.held_or_not txn
  · rw [visible_of_pending hheld] at hvisible
    exact .inl (by rw [hheld, Option.some.inj hvisible])
  · rw [visible_of_not_held hnot] at hvisible
    refine .inr ⟨?_, hvisible⟩
    cases hpending : row.pending with
    | none => rfl
    | some p => exact absurd (hfree p hpending) (hnot p hpending)

theorem get?_set_write_self (hget : s.get? id = some row) :
    Table.get? (s.set (row.write txn version)) id = some (row.write txn version) := by
  rw [get?_set_write hget, if_pos rfl]

theorem get?_set_write_of_ne (hget : s.get? id = some row) (hne : j ≠ id) :
    Table.get? (s.set (row.write txn version)) j = s.get? j := by
  rw [get?_set_write hget, if_neg hne]

/-! ### Every operation keeps the index -/

section write

variable (hget : s.get? id = some row)

include hget

theorem holds_write_iff :
    Holds key k (Table.set s (row.write txn version)) j ↔ Holds key k s j := by
  by_cases hj : j = id
  · subst hj
    rw [Holds, Holds, get?_set_write_self hget, hget]
    constructor <;> rintro ⟨_, old, hrow, hold, hkey⟩ <;> cases hrow <;>
      exact ⟨_, old, rfl, hold, hkey⟩
  · rw [Holds, Holds, get?_set_write_of_ne hget hj]

theorem claims_write_of_ne (hj : j ≠ id) :
    Claims key k other (Table.set s (row.write txn version)) j ↔ Claims key k other s j := by
  rw [Claims, Claims, get?_set_write_of_ne hget hj]

theorem drops_write_of_ne (hj : j ≠ id) :
    Drops key k other (Table.set s (row.write txn version)) j ↔ Drops key k other s j := by
  rw [Drops, Drops, get?_set_write_of_ne hget hj]

theorem claims_write_self
    (h : Claims key k other (Table.set s (row.write txn version)) id) :
    other = txn ∧ key version = some k := by
  obtain ⟨_, new, hrow, hpending, hkey⟩ := h
  rw [get?_set_write_self hget] at hrow
  cases hrow
  cases hpending
  exact ⟨rfl, hkey⟩

/-- A write that keeps the key of the newest version, or gives it up. -/
theorem Unique.write {old : V} (h : Unique key s) (hfree : row.Free txn)
    (hvisible : row.visible txn = some old) (hkey : key version = none ∨ key version = key old) :
    Unique key (Table.set s (row.write txn version)) := by
  -- the newest version was the transaction's own, or is committed and held by nobody
  have hold := Row.pending_of_visible hvisible hfree
  have hkeep {k : K} (hversion : key version = some k) : key old = some k := by
    rcases hkey with hnone | hsame
    · rw [hnone] at hversion
      cases hversion
    · rw [← hsame, hversion]
  have hclaim {k : K} {other j : ℕ} (hversion : key version = some k)
      (hj : Claims key k other s j) : id = j := by
    rcases hold with hpending | ⟨hnone, hcommitted⟩
    · exact h.pending ⟨row, old, hget, hpending, hkeep hversion⟩ hj
    · rcases h.superseded hj ⟨row, old, hget, hcommitted, hkeep hversion⟩ with
        hid | ⟨_, _, hrow, hp, -⟩
      · exact hid.symm
      · rw [hget] at hrow
        cases hrow
        rw [hnone] at hp
        cases hp
  refine ⟨fun hi hj => h.committed ((holds_write_iff hget).mp hi) ((holds_write_iff hget).mp hj),
    fun {k holder i j} hi hj => ?_, fun {k holder other i j} hi hj => ?_⟩
  · have hj' := (holds_write_iff hget).mp hj
    by_cases hiid : i = id
    · subst hiid
      obtain ⟨rfl, hversion⟩ := claims_write_self hget hi
      rcases hold with hpending | ⟨-, hcommitted⟩
      · rcases h.superseded ⟨row, old, hget, hpending, hkeep hversion⟩ hj' with hij | hdrops
        · exact .inl hij
        · by_cases hji : j = i
          · exact .inl hji.symm
          · exact .inr ((drops_write_of_ne hget hji).mpr hdrops)
      · exact .inl (h.committed ⟨row, old, hget, hcommitted, hkeep hversion⟩ hj')
    · rcases h.superseded ((claims_write_of_ne hget hiid).mp hi) hj' with hij | hdrops
      · exact .inl hij
      · refine .inr ?_
        by_cases hjid : j = id
        · subst hjid
          obtain ⟨_, new, hrow, hpending, hne⟩ := hdrops
          rw [hget] at hrow
          cases hrow
          obtain rfl : holder = txn := hfree _ hpending
          obtain rfl : new = old :=
            Option.eq_some_unique (Row.visible_of_pending hpending) hvisible
          exact ⟨_, version, get?_set_write_self hget, rfl, fun hversion => hne (hkeep hversion)⟩
        · exact (drops_write_of_ne hget hjid).mpr hdrops
  · by_cases hiid : i = id <;> by_cases hjid : j = id
    · rw [hiid, hjid]
    · subst hiid
      exact hclaim (claims_write_self hget hi).2 ((claims_write_of_ne hget hjid).mp hj)
    · subst hjid
      exact (hclaim (claims_write_self hget hj).2 ((claims_write_of_ne hget hiid).mp hi)).symm
    · exact h.pending ((claims_write_of_ne hget hiid).mp hi) ((claims_write_of_ne hget hjid).mp hj)

end write

section insert

theorem holds_insert_iff : Holds key k (insert txn version s) j ↔ Holds key k s j := by
  rw [Holds, Holds, get?_insert]
  by_cases hj : j = s.next
  · subst hj
    rw [if_pos rfl, Table.get?_of_next_le le_rfl]
    constructor <;> rintro ⟨_, old, hrow, hold, -⟩ <;> cases hrow
    cases hold
  · rw [if_neg hj]

theorem claims_insert_cases (h : Claims key k other (insert txn version s) j) :
    j = s.next ∧ other = txn ∧ key version = some k ∨ Claims key k other s j := by
  obtain ⟨_, new, hrow, hpending, hkey⟩ := h
  rw [get?_insert] at hrow
  by_cases hj : j = s.next
  · rw [if_pos hj] at hrow
    cases hrow
    cases hpending
    exact .inl ⟨hj, rfl, hkey⟩
  · rw [if_neg hj] at hrow
    exact .inr ⟨_, new, hrow, hpending, hkey⟩

theorem Drops.insert (h : Drops key k other s j) : Drops key k other (insert txn version s) j := by
  obtain ⟨row, new, hrow, hpending, hkey⟩ := h
  refine ⟨row, new, ?_, hpending, hkey⟩
  have hne : j ≠ s.next := by
    rintro rfl
    rw [Table.get?_of_next_le le_rfl] at hrow
    cases hrow
  rw [get?_insert, if_neg hne, hrow]

/-- An insert that neither conflicts nor waits. -/
theorem Unique.insert [DecidableEq K] (h : Unique key s)
    (hclear : insertion key txn version s = .clear) : Unique key (insert txn version s) := by
  have hholds {k : K} {j : ℕ} (hversion : key version = some k) (hj : Holds key k s j) :
      Drops key k txn s j := by
    obtain ⟨row, old, hget, hcommitted, hold⟩ := hj
    obtain ⟨hconflicts, hawaited⟩ := insertion_clear hclear hversion (Table.mem_of_get? hget)
    have hfree : row.Free txn := by
      by_contra hheld
      exact hawaited ⟨hheld, .inl ⟨old, hcommitted, hold⟩⟩
    obtain ⟨held, hheld⟩ | hnot := row.held_or_not txn
    · exact ⟨row, held, hget, hheld, fun hkey =>
        hconflicts ⟨hfree, held, Row.visible_of_pending hheld, hkey⟩⟩
    · exact absurd ⟨hfree, old, (Row.visible_of_not_held hnot).trans hcommitted, hold⟩ hconflicts
  have hclaims {k : K} {other j : ℕ} (hversion : key version = some k)
      (hj : Claims key k other s j) : False := by
    obtain ⟨row, new, hget, hpending, hnew⟩ := hj
    obtain ⟨hconflicts, hawaited⟩ := insertion_clear hclear hversion (Table.mem_of_get? hget)
    by_cases hfree : row.Free txn
    · obtain rfl : other = txn := hfree _ hpending
      exact hconflicts ⟨hfree, new, Row.visible_of_pending hpending, hnew⟩
    · exact hawaited ⟨hfree, .inr ⟨_, hpending, hnew⟩⟩
  refine ⟨fun hi hj => h.committed (holds_insert_iff.mp hi) (holds_insert_iff.mp hj),
    fun hi hj => ?_, fun hi hj => ?_⟩
  · rcases claims_insert_cases hi with ⟨-, rfl, hversion⟩ | hi
    · exact .inr (hholds hversion (holds_insert_iff.mp hj)).insert
    · exact (h.superseded hi (holds_insert_iff.mp hj)).imp_right Drops.insert
  · rcases claims_insert_cases hi with ⟨rfl, -, hi⟩ | hi <;>
      rcases claims_insert_cases hj with ⟨rfl, -, hj⟩ | hj
    · rfl
    · exact (hclaims hi hj).elim
    · exact (hclaims hj hi).elim
    · exact h.pending hi hj

end insert

section ends

theorem claims_commit (h : Claims key k other (commit txn s) j) :
    other ≠ txn ∧ Claims key k other s j := by
  obtain ⟨_, new, hrow, hpending, hkey⟩ := h
  obtain ⟨row, hget, rfl⟩ := Option.map_eq_some_iff.mp (get?_commit.symm.trans hrow)
  obtain ⟨hsame, hother⟩ := Row.of_pending_commit hpending
  exact ⟨hother, row, new, hget, by rw [← hsame, hpending], hkey⟩

theorem Drops.commit (h : Drops key k other s j) (hne : other ≠ txn) :
    Drops key k other (commit txn s) j := by
  obtain ⟨row, new, hget, hpending, hkey⟩ := h
  refine ⟨row.commit txn, new, ?_, (Row.pending_commit_iff hne).mpr hpending, hkey⟩
  rw [get?_commit, hget, Option.map_some]

/-- A key that is committed was claimed by the transaction, or is in a row that it does not hold. -/
theorem holds_commit (h : Holds key k (commit txn s) j) :
    Claims key k txn s j ∨
      Holds key k s j ∧ ∀ row, s.get? j = some row → ∀ p ∈ row.pending, p.1 ≠ txn := by
  obtain ⟨_, version, hrow, hcommitted, hkey⟩ := h
  obtain ⟨row, hget, rfl⟩ := Option.map_eq_some_iff.mp (get?_commit.symm.trans hrow)
  obtain ⟨held, hheld⟩ | hnot := row.held_or_not txn
  · rw [Row.commit_of_pending hheld] at hcommitted
    obtain rfl : held = version := Option.some.inj hcommitted
    exact .inl ⟨row, held, hget, hheld, hkey⟩
  · rw [Row.commit_of_not_held hnot] at hcommitted
    refine .inr ⟨⟨row, version, hget, hcommitted, hkey⟩, fun row' hget' => ?_⟩
    rw [hget] at hget'
    cases hget'
    exact hnot

theorem Unique.commit (h : Unique key s) : Unique key (commit txn s) := by
  have hmixed {k : K} {i j : ℕ} (hi : Claims key k txn s i) (hj : Holds key k s j)
      (hnot : ∀ row, s.get? j = some row → ∀ p ∈ row.pending, p.1 ≠ txn) : i = j := by
    rcases h.superseded hi hj with hij | ⟨row, held, hget, hpending, -⟩
    · exact hij
    · exact absurd rfl (hnot row hget _ hpending)
  refine ⟨fun hi hj => ?_, fun hi hj => ?_, fun hi hj =>
    h.pending (claims_commit hi).2 (claims_commit hj).2⟩
  · rcases holds_commit hi with hi | ⟨hi, hinot⟩ <;> rcases holds_commit hj with hj | ⟨hj, hjnot⟩
    · exact h.pending hi hj
    · exact hmixed hi hj hjnot
    · exact (hmixed hj hi hinot).symm
    · exact h.committed hi hj
  · obtain ⟨hne, hi⟩ := claims_commit hi
    rcases holds_commit hj with hj | ⟨hj, -⟩
    · exact .inl (h.pending hi hj)
    · exact (h.superseded hi hj).imp_right fun hdrops => hdrops.commit hne

theorem claims_rollback (h : Claims key k other (rollback txn s) j) :
    other ≠ txn ∧ Claims key k other s j := by
  obtain ⟨_, new, hrow, hpending, hkey⟩ := h
  obtain ⟨row, hget, rfl⟩ := Option.map_eq_some_iff.mp (get?_rollback.symm.trans hrow)
  obtain ⟨hsame, hother⟩ := Row.of_pending_rollback hpending
  exact ⟨hother, row, new, hget, by rw [← hsame, hpending], hkey⟩

theorem Drops.rollback (h : Drops key k other s j) (hne : other ≠ txn) :
    Drops key k other (rollback txn s) j := by
  obtain ⟨row, new, hget, hpending, hkey⟩ := h
  refine ⟨row.rollback txn, new, ?_, (Row.pending_rollback_iff hne).mpr hpending, hkey⟩
  rw [get?_rollback, hget, Option.map_some]

theorem holds_rollback_iff : Holds key k (rollback txn s) j ↔ Holds key k s j := by
  rw [Holds, Holds, get?_rollback]
  cases hget : s.get? j with
  | none => simp
  | some => simp

theorem Unique.rollback (h : Unique key s) : Unique key (rollback txn s) := by
  refine ⟨fun hi hj => h.committed (holds_rollback_iff.mp hi) (holds_rollback_iff.mp hj),
    fun hi hj => ?_, fun hi hj => h.pending (claims_rollback hi).2 (claims_rollback hj).2⟩
  obtain ⟨hne, hi⟩ := claims_rollback hi
  exact (h.superseded hi (holds_rollback_iff.mp hj)).imp_right fun hdrops => hdrops.rollback hne

theorem unique_empty : Unique key (Table.empty : Store V) := by
  have hnone {id : ℕ} {row : Row V} (h : (Table.empty : Store V).get? id = some row) : False := by
    cases h
  constructor
  · rintro k i j ⟨_, _, hget, -⟩
    exact (hnone hget).elim
  · rintro k txn i j ⟨_, _, hget, -⟩
    exact (hnone hget).elim
  · rintro k txn other i j ⟨_, _, hget, -⟩
    exact (hnone hget).elim

end ends

/-! ### Bulk updates -/

/-- The rows that a bulk update of the transaction finds. -/
def matching (txn : ℕ) (p : V → Bool) (s : Store V) : List ℕ :=
  (s.rows.filter fun row => (row.visible txn).any p).map Row.id

/-- One row of a bulk update: once no other transaction holds it, its newest version is looked at
again. -/
def updateIf (txn id : ℕ) (p : V → Bool) (f : V → V) (s : Store V) : Option (Store V) :=
  match s.get? id with
  | none => some s
  | some row =>
    if row.Free txn then
      match row.visible txn with
      | none => some s
      | some version => some (if p version then s.set (row.write txn (f version)) else s)
    else none

/-- The bulk update has no more to do with the row. -/
def Row.Passed (p : V → Bool) (txn : ℕ) (row : Row V) : Prop :=
  (∀ version ∈ row.committed, p version = false) ∨
    ∃ version, row.pending = some (txn, version) ∧ p version = false

variable {p : V → Bool} {f : V → V} {s' : Store V}

theorem mem_matching_iff :
    id ∈ matching txn p s ↔ ∃ row version, s.get? id = some row ∧ row.visible txn = some version ∧
      p version = true := by
  simp only [matching, List.mem_map, List.mem_filter, Option.any_eq_true]
  constructor
  · rintro ⟨row, ⟨hrow, version, hvisible, hp⟩, rfl⟩
    exact ⟨row, version, Table.get?_key hrow, hvisible, hp⟩
  · rintro ⟨row, version, hget, hvisible, hp⟩
    exact ⟨row, ⟨Table.mem_of_get? hget, version, hvisible, hp⟩, Table.key_of_get? hget⟩

theorem updateIf_cases (h : updateIf txn id p f s = some s') :
    (s' = s ∧ ∀ row, s.get? id = some row →
      row.Free txn ∧ ∀ version ∈ row.visible txn, p version = false) ∨
    ∃ row version, s.get? id = some row ∧ row.Free txn ∧ row.visible txn = some version ∧
      p version = true ∧ s' = s.set (row.write txn (f version)) := by
  unfold updateIf at h
  cases hget : s.get? id with
  | none =>
    rw [hget] at h
    exact .inl ⟨(Option.some.inj h).symm, fun row hrow => by cases hrow⟩
  | some row =>
    simp only [hget, Option.ite_none_right_eq_some] at h
    obtain ⟨hfree, h⟩ := h
    cases hvisible : row.visible txn with
    | none =>
      rw [hvisible] at h
      refine .inl ⟨(Option.some.inj h).symm, fun row' hrow => ?_⟩
      cases hrow
      exact ⟨hfree, fun version hversion => by rw [hvisible] at hversion; cases hversion⟩
    | some version =>
      simp only [hvisible, Option.some.injEq] at h
      by_cases hp : p version = true
      · rw [if_pos hp] at h
        exact .inr ⟨row, version, rfl, hfree, hvisible, hp, h.symm⟩
      · rw [if_neg hp] at h
        refine .inl ⟨h.symm, fun row' hrow => ?_⟩
        cases hrow
        refine ⟨hfree, fun other hother => ?_⟩
        rw [hvisible] at hother
        cases hother
        exact Bool.eq_false_iff.mpr hp

/-- A row without a visible version that matches is passed. -/
theorem Row.passed_of_visible (h : ∀ version ∈ row.visible txn, p version = false) :
    row.Passed p txn := by
  obtain ⟨held, hheld⟩ | hnot := row.held_or_not txn
  · exact .inr ⟨held, hheld, h held (visible_of_pending hheld)⟩
  · exact .inl fun version hversion => h version ((visible_of_not_held hnot).trans hversion)

end ReadCommitted
