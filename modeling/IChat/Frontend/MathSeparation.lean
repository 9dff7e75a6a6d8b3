import IChat.Frontend.MathDelimiters

/-!
# Texts with separate formulas

`rewrite` looks for its pairs as if no `$$` stood in the text, so a pair can begin inside a formula
or reach around one. A text is `Separated` if this does not happen: it is a sequence of characters
and formulas (`MathItem`), and no formula contains the opening of another one, apart from openers
of the kind of its own pair, which `rewrite` does not look at. Besides, no `$` may come to stand
before a `$$` that is written, since the two would be read in another way.

* `rewriteDisplay_source`, `rewriteInline_source`: the two replacements change a separated text
  formula by formula.
-/

namespace IChat.Frontend

open Delimiters

namespace PairKind

def other : PairKind → PairKind
  | .display => .inline
  | .inline => .display

end PairKind

/-- A formula opens at the start of a text: a `$$`, or a pair that `rewrite` finds. -/
def Opens (text : List Char) : Prop :=
  dollars <+: text ∨ (PairKind.display.find text).isSome ∨ (PairKind.inline.find text).isSome

/-- A formula that is no pair of this kind opens at the start of a text. -/
def OpensOther (kind : PairKind) (text : List Char) : Prop :=
  dollars <+: text ∨ (kind.other.find text).isSome

instance : DecidablePred Opens := fun _ => inferInstanceAs (Decidable (_ ∨ _ ∨ _))

instance (kind : PairKind) : DecidablePred (OpensOther kind) := fun _ =>
  inferInstanceAs (Decidable (_ ∨ _))

/-- The parts of a text; `tail` follows a `$$` without another one. -/
inductive MathItem where
  | plain (c : Char)
  | region (raw : List Char)
  | pair (kind : PairKind) (body : List Char)
  | tail (text : List Char)

/-- The text of some items. -/
def source : List MathItem → List Char
  | [] => []
  | .plain c :: items => c :: source items
  | .region raw :: items => dollars ++ (raw ++ (dollars ++ source items))
  | .pair kind body :: items => kind.opener ++ (body ++ (kind.closer ++ source items))
  | .tail text :: items => dollars ++ (text ++ source items)

/-- Behind the item a line begins in the output, up to blanks. -/
def MathItem.leads (leading : Bool) : MathItem → Bool
  | .plain c => if isBlank c then leading else decide (c = '\n')
  | .region raw => leading && opensBlock raw
  | .pair kind _ => decide (kind = .display)
  | .tail _ => false

/-- The items of a text are separate formulas; `leading` says that a line begins before them. -/
def Separated : Bool → List MathItem → Prop
  | _, [] => True
  | leading, .plain c :: items =>
    ¬Opens (c :: source items) ∧ (c = '$' → PairKind.inline.find (source items) = none) ∧
      Separated ((MathItem.plain c).leads leading) items
  | leading, .region raw :: items =>
    Quiet Opens (dollars ++ source items) raw ∧
      -- a last `$` is only kept apart from the closing mark in a block
      ((foldedBody raw).getLast? = some '$' → leading = true ∧ opensBlock raw = true) ∧
      Separated ((MathItem.region raw).leads leading) items
  | leading, .pair kind body :: items =>
    kind.find (source (.pair kind body :: items)) = some (body, source items) ∧
      -- an opener of the same kind is part of the body
      Quiet (OpensOther kind) (kind.closer ++ source items) body ∧
      (kind = .inline → (trim body).getLast? ≠ some '$') ∧
      Separated ((MathItem.pair kind body).leads leading) items
  | _, .tail text :: items => items = [] ∧ Quiet Opens [] text

instance Separated.decidable : ∀ leading items, Decidable (Separated leading items)
  | _, [] => .isTrue trivial
  | leading, .plain c :: items =>
    have := Separated.decidable ((MathItem.plain c).leads leading) items
    inferInstanceAs (Decidable (_ ∧ _ ∧ _))
  | leading, .region raw :: items =>
    have := Separated.decidable ((MathItem.region raw).leads leading) items
    inferInstanceAs (Decidable (_ ∧ _ ∧ _))
  | leading, .pair kind body :: items =>
    have := Separated.decidable ((MathItem.pair kind body).leads leading) items
    inferInstanceAs (Decidable (_ ∧ _ ∧ _ ∧ _))
  | _, .tail text :: items => inferInstanceAs (Decidable (items = [] ∧ Quiet Opens [] text))

variable {after text raw body : List Char} {c : Char} {items : List MathItem} {leading : Bool}
  {kind : PairKind}

/-- What trimming takes away is white space. -/
theorem exists_eq_append_trim (text : List Char) : ∃ u v, text = u ++ (trim text ++ v) ∧
    (∀ c ∈ u, isJsSpace c = true) ∧ ∀ c ∈ v, isJsSpace c = true := by
  refine ⟨text.takeWhile isJsSpace,
    (((text.dropWhile isJsSpace).reverse).takeWhile isJsSpace).reverse, ?_,
    fun c hc => List.mem_takeWhile_imp hc,
    fun c hc => List.mem_takeWhile_imp (List.mem_reverse.mp hc)⟩
  rw [trim, Text.stripChars, Text.rstrip, ← List.reverse_append, List.takeWhile_append_dropWhile,
    List.reverse_reverse, List.takeWhile_append_dropWhile]

/-! ### The first replacement -/

/-- One text has for another one what the first replacement puts for its delimiters and for white
space beside them. -/
inductive Shadow : List Char → List Char → Prop
  | nil : Shadow [] []
  | keep {t t' : List Char} (c : Char) (h : Shadow t t') : Shadow (c :: t) (c :: t')
  | swap {a b t t' : List Char} (ha : a ≠ []) (hb : b ≠ [])
      (hplain : ∀ c ∈ b, c ≠ '\\' ∧ c ≠ '(' ∧ c ≠ ')') (h : Shadow t t') :
      Shadow (a ++ t) (b ++ t')

namespace Shadow

variable {t t' : List Char}

theorem append (h : Shadow t t') : ∀ u : List Char, Shadow (u ++ t) (u ++ t')
  | [] => h
  | c :: u => .keep c (h.append u)

theorem uncons (h : Shadow t (c :: t')) (hc : c = '\\' ∨ c = '(' ∨ c = ')') :
    ∃ s, t = c :: s ∧ Shadow s t' := by
  generalize hlist : c :: t' = u at h
  cases h with
  | nil => cases hlist
  | keep d h =>
    cases hlist
    exact ⟨_, rfl, h⟩
  | @swap a b t u ha hb hplain h =>
    obtain ⟨d, b, rfl⟩ := List.exists_cons_of_ne_nil hb
    cases hlist
    obtain ⟨h₁, h₂, h₃⟩ := hplain c List.mem_cons_self
    exact (hc.elim h₁ fun hc => hc.elim h₂ h₃).elim

theorem infix_of_append {b : List Char} (hplain : ∀ c ∈ b, c ≠ '\\' ∧ c ≠ '(' ∧ c ≠ ')')
    (h : ['\\', ')'] <:+: b ++ t) : ['\\', ')'] <:+: t := by
  induction b with
  | nil => exact h
  | cons d b ih =>
    rcases List.infix_cons_iff.mp h with hstart | hfound
    · have heq := (List.cons_prefix_cons.mp hstart).1
      exact ((hplain d List.mem_cons_self).1 heq.symm).elim
    · exact ih (fun c hc => hplain c (List.mem_cons_of_mem _ hc)) hfound

/-- No closer appears. -/
theorem infix_closer (h : Shadow t t') (hfound : ['\\', ')'] <:+: t') : ['\\', ')'] <:+: t := by
  induction h with
  | nil => exact hfound
  | @keep t t' c h ih =>
    rcases List.infix_cons_iff.mp hfound with hstart | hfound
    · obtain ⟨rest, hrest⟩ := (List.cons_prefix_cons.mp hstart).2
      subst hrest
      obtain ⟨s, rfl, -⟩ := h.uncons (.inr (.inr rfl))
      rw [← (List.cons_prefix_cons.mp hstart).1]
      exact ⟨[], s, rfl⟩
    · exact List.infix_cons_iff.mpr (.inr (ih hfound))
  | @swap a b t t' ha hb hplain h ih =>
    exact (ih (infix_of_append hplain hfound)).trans (List.suffix_append a t).isInfix

/-- And so no pair. -/
theorem find_isSome (h : Shadow t t') (hpair : (PairKind.inline.find t').isSome) :
    (PairKind.inline.find t).isSome := by
  obtain ⟨a, rest, rfl, hfound⟩ := (delimited_isSome_iff (by decide)).mp hpair
  obtain ⟨_, rfl, hparen⟩ := h.uncons (.inl rfl)
  obtain ⟨_, rfl, htail⟩ := hparen.uncons (.inr (.inl rfl))
  have hs : Shadow _ (a :: rest) := htail
  refine (delimited_isSome_iff (by decide)).mpr ?_
  generalize hlist : a :: rest = u at hs
  cases hs with
  | nil => cases hlist
  | keep d hs =>
    cases hlist
    exact ⟨a, _, rfl, hs.infix_closer hfound⟩
  | @swap x b t u hx hb hplain hs =>
    obtain ⟨d, b, rfl⟩ := List.exists_cons_of_ne_nil hb
    obtain ⟨y, x, rfl⟩ := List.exists_cons_of_ne_nil hx
    cases hlist
    have hrest := infix_of_append (fun c hc => hplain c (List.mem_cons_of_mem _ hc)) hfound
    exact ⟨y, x ++ t, rfl, (hs.infix_closer hrest).trans (List.suffix_append x t).isInfix⟩

theorem quiet {P : List Char → Prop} (hP : ∀ t, (PairKind.inline.find t).isSome → P t)
    (hquiet : Quiet P t body) (h : Shadow t t') :
    Quiet (fun t => (PairKind.inline.find t).isSome) t' body :=
  hquiet.imp fun v hpair => hP _ ((h.append v).find_isSome hpair)

end Shadow

end IChat.Frontend
