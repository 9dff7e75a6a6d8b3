import Mathlib.Data.List.Sort

/-!
# Logs ordered by sequence number

A log is a list of records with a number `key r : ℕ`; it is *ascending* when the numbers strictly
increase. Readers that merge several partial copies of one log rest on three facts about such
lists, developed here over an arbitrary record type:

* an ascending list is determined by its members (`Ascending.ext`), so two copies with the same
  members in a window carry the same records in the same order;
* a reader that stops at the first record of some kind keeps an initial segment of what it was
  given (`takeThrough`);
* a finite map from numbers to values kept in ascending key order (`SeqDict`) can be updated at
  one number without disturbing the others, and its entries come out in order.
-/

namespace SeqLog

universe u v

variable {α : Type u} {β : Type v} {key : α → ℕ} {l l₁ l₂ : List α}

/-- The numbers of the log strictly increase. -/
def Ascending (key : α → ℕ) (l : List α) : Prop :=
  l.Pairwise fun a b => key a < key b

instance (key : α → ℕ) (l : List α) : Decidable (Ascending key l) :=
  inferInstanceAs (Decidable (l.Pairwise _))

/-! ### Ascending lists -/

@[simp] theorem ascending_nil : Ascending key [] := List.Pairwise.nil

theorem ascending_cons {a : α} :
    Ascending key (a :: l) ↔ (∀ b ∈ l, key a < key b) ∧ Ascending key l :=
  List.pairwise_cons

theorem ascending_append :
    Ascending key (l₁ ++ l₂) ↔
      Ascending key l₁ ∧ Ascending key l₂ ∧ ∀ a ∈ l₁, ∀ b ∈ l₂, key a < key b :=
  List.pairwise_append

theorem Ascending.sublist (h : Ascending key l₂) (hsub : l₁.Sublist l₂) : Ascending key l₁ :=
  List.Pairwise.sublist hsub h

theorem Ascending.filter (p : α → Bool) (h : Ascending key l) : Ascending key (l.filter p) :=
  h.sublist List.filter_sublist

/-- A record can be appended when its number is above every number of the log. -/
theorem Ascending.append_singleton {a : α} (h : Ascending key l) (ha : ∀ b ∈ l, key b < key a) :
    Ascending key (l ++ [a]) := by
  refine ascending_append.mpr ⟨h, List.pairwise_singleton _ _, fun b hb c hc => ?_⟩
  rw [List.mem_singleton.mp hc]
  exact ha b hb

/-- Records of an ascending list with the same number are the same record. -/
theorem Ascending.eq_of_key_eq (h : Ascending key l) {a b : α} (ha : a ∈ l) (hb : b ∈ l)
    (hab : key a = key b) : a = b := by
  induction l with
  | nil => cases ha
  | cons c l ih =>
    obtain ⟨hc, hl⟩ := ascending_cons.mp h
    rcases List.mem_cons.mp ha with hac | hal <;> rcases List.mem_cons.mp hb with hbc | hbl
    · rw [hac, hbc]
    · exact absurd (hac ▸ hab) (hc b hbl).ne
    · exact absurd (hbc ▸ hab.symm) (hc a hal).ne
    · exact ih hl hal hbl

/-- **Extensionality.** Two ascending lists with the same members are equal. -/
theorem Ascending.ext (h₁ : Ascending key l₁) (h₂ : Ascending key l₂)
    (h : ∀ a, a ∈ l₁ ↔ a ∈ l₂) : l₁ = l₂ := by
  have : Std.Irrefl fun a b : α => key a < key b := ⟨fun a => lt_irrefl (key a)⟩
  have : Std.Antisymm fun a b : α => key a < key b :=
    ⟨fun a b hab hba => absurd hba (lt_asymm hab)⟩
  exact List.Pairwise.eq_of_mem_iff h₁ h₂ h

/-- What lies at or below a number is what lies at or below a smaller one, and then the rest. -/
theorem Ascending.filter_le_append_filter_lt (h : Ascending key l) {m n : ℕ} (hmn : m ≤ n) :
    (l.filter fun a => decide (key a ≤ m)) ++ (l.filter fun a => decide (m < key a ∧ key a ≤ n)) =
      l.filter fun a => decide (key a ≤ n) := by
  refine Ascending.ext (ascending_append.mpr ⟨h.filter _, h.filter _, fun a ha b hb => ?_⟩)
    (h.filter _) fun a => ?_
  · have hle : key a ≤ m := by simpa using (List.mem_filter.mp ha).2
    have hlt : m < key b ∧ key b ≤ n := by simpa using (List.mem_filter.mp hb).2
    omega
  · simp only [List.mem_append, List.mem_filter, decide_eq_true_eq, ← and_or_left]
    refine and_congr_right fun _ => ?_
    omega

/-- In an ascending list the last record has the largest number. -/
theorem Ascending.key_le_of_getLast? (h : Ascending key l) {a b : α} (ha : a ∈ l)
    (hb : b ∈ l.getLast?) : key a ≤ key b := by
  obtain ⟨init, rfl⟩ := List.getLast?_eq_some_iff.mp hb
  rcases List.mem_append.mp ha with ha | ha
  · exact ((ascending_append.mp h).2.2 a ha b (List.mem_singleton_self b)).le
  · rw [List.mem_singleton.mp ha]

/-- A prefix consists of the records up to a number that separates it from the rest. -/
theorem filter_le_eq_of_append {n : ℕ}
    (h₁ : ∀ a ∈ l₁, key a ≤ n) (h₂ : ∀ a ∈ l₂, n < key a) :
    (l₁ ++ l₂).filter (fun a => decide (key a ≤ n)) = l₁ := by
  rw [List.filter_append, List.filter_eq_self.mpr fun a ha => decide_eq_true (h₁ a ha),
    List.filter_eq_nil_iff.mpr fun a ha => by simpa using h₂ a ha, List.append_nil]

/-! ### Stopping at the first record of a kind -/

/-- The initial segment of a list that ends with the first element satisfying `p`; the whole list
when there is none. -/
def takeThrough (p : α → Bool) : List α → List α
  | [] => []
  | a :: l => if p a then [a] else a :: takeThrough p l

theorem takeThrough_isPrefix (p : α → Bool) (l : List α) : takeThrough p l <+: l := by
  induction l with
  | nil => exact List.prefix_rfl
  | cons a l ih =>
    simp only [takeThrough]
    split
    · exact ⟨l, rfl⟩
    · exact List.cons_prefix_cons.mpr ⟨rfl, ih⟩

theorem mem_of_mem_takeThrough {p : α → Bool} {a : α} (h : a ∈ takeThrough p l) : a ∈ l :=
  (takeThrough_isPrefix p l).subset h

/-- An element satisfying `p` that survives is the last one kept. -/
theorem getLast?_of_mem_takeThrough {p : α → Bool} {a : α} (h : a ∈ takeThrough p l)
    (ha : p a = true) : (takeThrough p l).getLast? = some a := by
  induction l with
  | nil => cases h
  | cons b l ih =>
    simp only [SeqLog.takeThrough] at h ⊢
    split at h
    · rename_i hb
      rw [List.mem_singleton.mp h, if_pos hb]
      rfl
    · rename_i hb
      rcases List.mem_cons.mp h with rfl | h
      · exact absurd ha hb
      · rw [if_neg hb, List.getLast?_cons, ih h]
        rfl

/-- What is cut off comes after an element satisfying `p`. -/
theorem mem_takeThrough_or {p : α → Bool} {R : α → α → Prop} {a : α} (h : l.Pairwise R)
    (ha : a ∈ l) : a ∈ takeThrough p l ∨ ∃ b ∈ takeThrough p l, p b = true ∧ R b a := by
  induction l with
  | nil => cases ha
  | cons b l ih =>
    obtain ⟨hb, hl⟩ := List.pairwise_cons.mp h
    simp only [SeqLog.takeThrough]
    by_cases hpb : p b = true
    · rw [if_pos hpb]
      rcases List.mem_cons.mp ha with hab | hal
      · exact .inl (List.mem_singleton.mpr hab)
      · exact .inr ⟨b, List.mem_singleton_self b, hpb, hb a hal⟩
    · rw [if_neg hpb]
      rcases List.mem_cons.mp ha with hab | hal
      · exact .inl (hab ▸ List.mem_cons_self)
      · rcases ih hl hal with hmem | ⟨c, hc, hpc, hca⟩
        · exact .inl (List.mem_cons_of_mem _ hmem)
        · exact .inr ⟨c, List.mem_cons_of_mem _ hc, hpc, hca⟩

/-- If some element satisfies `p`, one of them survives. -/
theorem exists_mem_takeThrough {p : α → Bool} (h : ∃ a ∈ l, p a = true) :
    ∃ a ∈ takeThrough p l, p a = true := by
  induction l with
  | nil =>
    obtain ⟨a, ha, -⟩ := h
    cases ha
  | cons b l ih =>
    simp only [SeqLog.takeThrough]
    by_cases hb : p b = true
    · exact ⟨b, by simp [hb], hb⟩
    · obtain ⟨a, ha, hpa⟩ := h
      rcases List.mem_cons.mp ha with rfl | ha
      · exact absurd hpa hb
      · obtain ⟨c, hc, hpc⟩ := ih ⟨a, ha, hpa⟩
        exact ⟨c, by simp [hb, hc], hpc⟩

end SeqLog

/-! ### Finite maps in key order -/

/-- A finite map from sequence numbers to values, kept in ascending order of the numbers. -/
structure SeqDict (β : Type*) where
  /-- The bindings, in key order. -/
  items : List (ℕ × β)
  ascending : SeqLog.Ascending Prod.fst items

namespace SeqDict

universe v

variable {β : Type v} {d : SeqDict β} {f : Option β → β} {k l : ℕ} {b : β}

/-- The map without bindings. -/
def empty : SeqDict β := ⟨[], SeqLog.ascending_nil⟩

/-- Update the list of bindings at one key. -/
def alterItems (k : ℕ) (f : Option β → β) : List (ℕ × β) → List (ℕ × β)
  | [] => [(k, f none)]
  | (l, b) :: items =>
    if k < l then (k, f none) :: (l, b) :: items
    else if k = l then (k, f (some b)) :: items
    else (l, b) :: alterItems k f items

/-- A binding after an update at `k` is the updated one or an old one at another key. -/
theorem mem_alterItems {items : List (ℕ × β)} (h : SeqLog.Ascending Prod.fst items) :
    (l, b) ∈ alterItems k f items ↔
      (l ≠ k ∧ (l, b) ∈ items) ∨ (l = k ∧ b = f (items.lookup k)) := by
  induction items with
  | nil => simp [alterItems]
  | cons p items ih =>
    obtain ⟨m, c⟩ := p
    obtain ⟨hm, hitems⟩ := SeqLog.ascending_cons.mp h
    have habove : ∀ b', (l, b') ∈ items → m < l := fun b' hb' => hm _ hb'
    have hlookup : ∀ n, n ≤ m → items.lookup n = none := by
      intro n hn
      refine List.lookup_eq_none_iff.mpr fun q hq => ?_
      have hlt : m < q.1 := hm q hq
      have hne : n ≠ q.1 := by omega
      simpa using hne
    unfold alterItems
    split_ifs with hlt heq
    · have hne : (k == m) = false := by simpa using hlt.ne
      rw [List.lookup_cons, hne, hlookup k hlt.le]
      simp only [List.mem_cons, Prod.mk.injEq]
      constructor
      · rintro (⟨rfl, rfl⟩ | ⟨rfl, rfl⟩ | hb)
        · exact .inr ⟨rfl, rfl⟩
        · exact .inl ⟨hlt.ne', .inl ⟨rfl, rfl⟩⟩
        · exact .inl ⟨(hlt.trans (habove _ hb)).ne', .inr hb⟩
      · rintro (⟨-, h⟩ | ⟨rfl, rfl⟩)
        · exact .inr h
        · exact .inl ⟨rfl, rfl⟩
    · subst heq
      rw [List.lookup_cons, beq_self_eq_true]
      simp only [List.mem_cons, Prod.mk.injEq]
      constructor
      · rintro (⟨rfl, rfl⟩ | hb)
        · exact .inr ⟨rfl, rfl⟩
        · exact .inl ⟨(habove _ hb).ne', .inr hb⟩
      · rintro (⟨hne, ⟨rfl, rfl⟩ | hb⟩ | ⟨rfl, rfl⟩)
        · exact absurd rfl hne
        · exact .inr hb
        · exact .inl ⟨rfl, rfl⟩
    · have hne : (k == m) = false := by simpa using heq
      rw [List.lookup_cons, hne]
      simp only [List.mem_cons, Prod.mk.injEq, ih hitems]
      constructor
      · rintro (⟨rfl, rfl⟩ | ⟨hlk, hb⟩ | ⟨rfl, rfl⟩)
        · exact .inl ⟨fun h => heq h.symm, .inl ⟨rfl, rfl⟩⟩
        · exact .inl ⟨hlk, .inr hb⟩
        · exact .inr ⟨rfl, rfl⟩
      · rintro (⟨hlk, h | hb⟩ | ⟨rfl, rfl⟩)
        · exact .inl h
        · exact .inr (.inl ⟨hlk, hb⟩)
        · exact .inr (.inr ⟨rfl, rfl⟩)

theorem ascending_alterItems {items : List (ℕ × β)} (h : SeqLog.Ascending Prod.fst items) :
    SeqLog.Ascending Prod.fst (alterItems k f items) := by
  induction items with
  | nil => exact List.pairwise_singleton _ _
  | cons p items ih =>
    obtain ⟨m, c⟩ := p
    obtain ⟨hm, hitems⟩ := SeqLog.ascending_cons.mp h
    unfold alterItems
    split_ifs with hlt heq
    · refine SeqLog.ascending_cons.mpr ⟨fun q hq => ?_, h⟩
      rcases List.mem_cons.mp hq with rfl | hq
      · exact hlt
      · exact hlt.trans (hm q hq)
    · subst heq
      exact SeqLog.ascending_cons.mpr ⟨hm, hitems⟩
    · refine SeqLog.ascending_cons.mpr ⟨fun q hq => ?_, ih hitems⟩
      obtain ⟨l, b⟩ := q
      rcases (mem_alterItems hitems).mp hq with ⟨-, hq⟩ | ⟨rfl, -⟩
      · exact hm _ hq
      · simp only
        omega

/-- Replace the value at `k` by `f` of the value bound there. -/
def alter (k : ℕ) (f : Option β → β) (d : SeqDict β) : SeqDict β :=
  ⟨alterItems k f d.items, ascending_alterItems d.ascending⟩

/-- Bind `k` to `b`, replacing an earlier binding. -/
def set (k : ℕ) (b : β) (d : SeqDict β) : SeqDict β := d.alter k fun _ => b

/-- The value bound to `k`. -/
def get? (d : SeqDict β) (k : ℕ) : Option β := d.items.lookup k

theorem get?_eq_some_iff : d.get? k = some b ↔ (k, b) ∈ d.items := by
  obtain ⟨items, h⟩ := d
  simp only [get?]
  induction items with
  | nil => simp
  | cons p items ih =>
    obtain ⟨m, c⟩ := p
    obtain ⟨hm, hitems⟩ := SeqLog.ascending_cons.mp h
    rw [List.lookup_cons]
    by_cases hkm : k = m
    · subst hkm
      have : ∀ b', (k, b') ∉ items := fun b' hb' => lt_irrefl k (hm (k, b') hb')
      simp [this, eq_comm]
    · have hne : (k == m) = false := by simpa using hkm
      simp [hne, hkm, ih hitems]

theorem get?_alter : (d.alter k f).get? l = if l = k then some (f (d.get? k)) else d.get? l := by
  apply Option.ext
  intro b
  rw [get?_eq_some_iff]
  simp only [alter, mem_alterItems d.ascending, ← get?_eq_some_iff]
  by_cases hlk : l = k
  · subst hlk
    simp [get?, eq_comm]
  · simp [hlk]

theorem get?_set : (d.set k b).get? l = if l = k then some b else d.get? l := get?_alter

@[simp] theorem get?_empty : (empty : SeqDict β).get? k = none := rfl

/-! ### Groups of records -/

section Groups

universe u

variable {α : Type u} {key : α → ℕ} {m : SeqDict (List α)} {l : List α} {a : α} {R : α → α → Prop}

/-- The records bound to a number, none when it is unbound. -/
def group (m : SeqDict (List α)) (k : ℕ) : List α := (m.get? k).getD []

/-- All records, in the order of the numbers they are bound to. -/
def flatten (m : SeqDict (List α)) : List α := m.items.flatMap Prod.snd

/-- Every record is bound to its own number. -/
def Keyed (key : α → ℕ) (m : SeqDict (List α)) : Prop := ∀ k, ∀ a ∈ m.group k, key a = k

@[simp] theorem group_empty : (empty : SeqDict (List α)).group k = [] := rfl

theorem group_alter {f : Option (List α) → List α} {n : ℕ} :
    (m.alter k f).group n = if n = k then f (m.get? k) else m.group n := by
  unfold group
  rw [get?_alter]
  split <;> rfl

theorem mem_flatten (hm : m.Keyed key) : a ∈ m.flatten ↔ a ∈ m.group (key a) := by
  unfold flatten
  rw [List.mem_flatMap]
  constructor
  · rintro ⟨⟨k, as⟩, hp, ha⟩
    have hget : m.get? k = some as := get?_eq_some_iff.mpr hp
    have hgroup : m.group k = as := by simp [group, hget]
    have hk : key a = k := hm k a (hgroup ▸ ha)
    rw [hk, hgroup]
    exact ha
  · intro ha
    cases hget : m.get? (key a) with
    | none => simp [group, hget] at ha
    | some as => exact ⟨(key a, as), get?_eq_some_iff.mp hget, by simpa [group, hget] using ha⟩

/-- Records come out by number, and records with the same number in the order of their group. -/
theorem pairwise_flatten (hm : m.Keyed key) (hgroups : ∀ k, (m.group k).Pairwise R) :
    m.flatten.Pairwise fun a b => key a < key b ∨ key a = key b ∧ R a b := by
  have hgroup : ∀ p ∈ m.items, m.group p.1 = p.2 := by
    intro p hp
    simp [group, get?_eq_some_iff.mpr hp]
  refine List.pairwise_flatMap.mpr ⟨fun p hp => ?_, ?_⟩
  · have hR := hgroups p.1
    rw [hgroup p hp] at hR
    refine List.Pairwise.imp_of_mem (fun {a b} ha hb hab => .inr ⟨?_, hab⟩) hR
    have hkey := hm p.1
    rw [hgroup p hp] at hkey
    rw [hkey a ha, hkey b hb]
  · refine List.Pairwise.imp_of_mem (fun {p q} hp hq hpq a ha b hb => .inl ?_) m.ascending
    rw [hm p.1 a (hgroup p hp ▸ ha), hm q.1 b (hgroup q hq ▸ hb)]
    exact hpq

/-- Bind each record of a list to its number, in place of the records bound there. -/
def overwrite (key : α → ℕ) (l : List α) (m : SeqDict (List α)) : SeqDict (List α) :=
  l.foldl (fun m a => m.set (key a) [a]) m

/-- Append each record of a list to the records bound to its number. -/
def addAll (key : α → ℕ) (l : List α) (m : SeqDict (List α)) : SeqDict (List α) :=
  l.foldl (fun m a => m.alter (key a) fun as => as.getD [] ++ [a]) m

theorem group_overwrite (hl : (l.map key).Nodup) :
    (m.overwrite key l).group k =
      match l.find? fun a => key a = k with
      | some a => [a]
      | none => m.group k := by
  induction l generalizing m with
  | nil => rfl
  | cons b l ih =>
    obtain ⟨hb, hl⟩ := List.nodup_cons.mp hl
    have hstep : (m.overwrite key (b :: l)).group k =
        ((m.set (key b) [b]).overwrite key l).group k := rfl
    rw [hstep, ih hl]
    by_cases hk : key b = k
    · have hnone : l.find? (fun a => key a = k) = none := by
        refine List.find?_eq_none.mpr fun a ha => ?_
        have hne : key a ≠ k := fun h => hb (hk ▸ h ▸ List.mem_map_of_mem ha)
        simpa using hne
      rw [hnone, List.find?_cons_of_pos (by simpa using hk)]
      simp only [SeqDict.set, group_alter, if_pos hk.symm]
    · rw [List.find?_cons_of_neg (by simpa using hk)]
      cases l.find? fun a => key a = k with
      | some => rfl
      | none => simp only [SeqDict.set, group_alter, if_neg (Ne.symm hk)]

theorem group_addAll : (m.addAll key l).group k = m.group k ++ l.filter fun a => key a = k := by
  induction l generalizing m with
  | nil => simp [addAll]
  | cons b l ih =>
    have hstep : (m.addAll key (b :: l)).group k =
        ((m.alter (key b) fun as => as.getD [] ++ [b]).addAll key l).group k := rfl
    rw [hstep, ih, group_alter]
    by_cases hk : key b = k
    · rw [if_pos hk.symm, List.filter_cons_of_pos (by simpa using hk)]
      simp [group, hk]
    · rw [if_neg (Ne.symm hk), List.filter_cons_of_neg (by simpa using hk)]

end Groups

end SeqDict
