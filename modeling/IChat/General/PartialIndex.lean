import IChat.General.Table

/-!
# Partial unique indexes

`UNIQUE (f) WHERE p` on a table: two rows that satisfy the condition of the index do not agree on
its columns. Each operation on the table keeps the index under a condition on the rows it writes.
-/

universe u v

namespace Table

variable {α : Type u} {κ : Type v} {key : α → ℕ}

/-- `UNIQUE (f) WHERE p`. -/
def UniqueWhere (t : Table α key) (p : α → Prop) (f : α → κ) : Prop :=
  ∀ a ∈ t, ∀ b ∈ t, p a → p b → f a = f b → a = b

variable {t : Table α key} {p : α → Prop} {f : α → κ} {a : α}

/-- A new row that meets no other in the index. -/
theorem UniqueWhere.insert (h : t.UniqueWhere p f) {mk : ℕ → α}
    (hmk : ∀ n, key (mk n) = n)
    (hnew : p (mk t.next) → ∀ b ∈ t, p b → f b ≠ f (mk t.next)) :
    (t.insert mk hmk).UniqueWhere p f := by
  intro b hb c hc hpb hpc hf
  rcases mem_insert.mp hb with hb | rfl <;> rcases mem_insert.mp hc with hc | rfl
  · exact h b hb c hc hpb hpc hf
  · exact absurd hf (hnew hpc b hb hpb)
  · exact absurd hf.symm (hnew hpb c hc hpc)
  · rfl

/-- A row that is written back and meets no other in the index. -/
theorem UniqueWhere.set (h : t.UniqueWhere p f)
    (hnew : p a → ∀ b ∈ t, key b ≠ key a → p b → f b ≠ f a) : (t.set a).UniqueWhere p f := by
  intro b hb c hc hpb hpc hf
  rcases of_mem_set hb with rfl | ⟨hold, hne⟩ <;> rcases of_mem_set hc with rfl | ⟨hold', hne'⟩
  · rfl
  · exact absurd hf.symm (hnew hpb c hold' hne' hpc)
  · exact absurd hf (hnew hpc b hold hne hpb)
  · exact h b hold c hold' hpb hpc hf

/-- A row that is written back with its old place in the index. -/
theorem UniqueWhere.set_same (h : t.UniqueWhere p f) {b : α} (hb : b ∈ t) (hkey : key a = key b)
    (hp : p a → p b) (hf : f a = f b) : (t.set a).UniqueWhere p f := by
  refine h.set fun hpa c hc hne hpc hfc => hne ?_
  rw [h c hc b hb hpc (hp hpa) (hfc.trans hf), hkey]

/-- All rows are rewritten, and none meets a row in the index that it did not meet before. -/
theorem UniqueWhere.map (h : t.UniqueWhere p f) {g : α → α} (hg : ∀ b, key (g b) = key b)
    (hnew : ∀ b ∈ t, ∀ c ∈ t, p (g b) → p (g c) → f (g b) = f (g c) → p b ∧ p c ∧ f b = f c) :
    (t.map g hg).UniqueWhere p f := by
  intro b' hb' c' hc' hpb hpc hf
  obtain ⟨b, hb, rfl⟩ := mem_map.mp hb'
  obtain ⟨c, hc, rfl⟩ := mem_map.mp hc'
  obtain ⟨hpb, hpc, hf⟩ := hnew b hb c hc hpb hpc hf
  rw [h b hb c hc hpb hpc hf]

end Table
