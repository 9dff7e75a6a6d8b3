import Mathlib.Data.List.Basic
import Mathlib.Data.List.Chain
import Mathlib.Order.Nat

/-!
# Collapsing white space

A text is built one symbol at a time (`append`): white space becomes one `space`, and is left out at
the start and after a space; a space at the end is cut off (`trim`). The symbols and what counts as
white space are arbitrary.

What is read off the result is read off the text: its symbols other than white space
(`filter_collapse`), and how many of them follow another one directly (`joints_collapse`).
`normal_collapse` is the form of the result, and `strip_drop_foldl` reads off what a part of the
text adds to it. `foldl_append_spaces` and `foldl_append_of_not_glued` say when white space makes no
difference, and `collapse_filter_iff` when optional white space does not.
-/

namespace Collapse

variable {α : Type*} [DecidableEq α] (isSpace : α → Bool) (space : α)

/-- The next symbol of a text. -/
def append (out : List α) (a : α) : List α :=
  if isSpace a then
    if out = [] ∨ out.getLast? = some space then out else out ++ [space]
  else out ++ [a]

/-- The text without a space at its end. -/
def trim (out : List α) : List α := if out.getLast? = some space then out.dropLast else out

def collapse (s : List α) : List α := trim space (s.foldl (append isSpace space) [])

/-- Whether a text ends in a symbol other than white space, when what stands before it does. -/
def glued : Bool → List α → Bool
  | g, [] => g
  | _, a :: s => glued (!isSpace a) s

/-- How many symbols other than white space follow another one directly. -/
def joints : Bool → List α → ℕ
  | _, [] => 0
  | g, a :: s => (if g && !isSpace a then 1 else 0) + joints (!isSpace a) s

variable {isSpace space} {out s t : List α} {g : Bool} {a : α}

section

omit [DecidableEq α]

theorem glued_append : glued isSpace g (s ++ t) = glued isSpace (glued isSpace g s) t := by
  induction s generalizing g with
  | nil => rfl
  | cons b s ih => exact ih

theorem joints_append :
    joints isSpace g (s ++ t) = joints isSpace g s + joints isSpace (glued isSpace g s) t := by
  induction s generalizing g with
  | nil => exact (Nat.zero_add _).symm
  | cons b s ih =>
    rw [List.cons_append, joints, joints, ih, Nat.add_assoc]
    rfl

theorem joints_spaces (h : ∀ b ∈ s, isSpace b = true) : joints isSpace g s = 0 := by
  induction s generalizing g with
  | nil => rfl
  | cons b s ih =>
    rw [joints, ih fun c hc => h c (List.mem_cons_of_mem _ hc), h b List.mem_cons_self]
    simp

theorem glued_spaces (h : ∀ b ∈ s, isSpace b = true) : glued isSpace g s = (g && s.isEmpty) := by
  induction s generalizing g with
  | nil => exact (Bool.and_true g).symm
  | cons b s ih =>
    rw [glued, ih fun c hc => h c (List.mem_cons_of_mem _ hc), h b List.mem_cons_self]
    simp

/-- A joint more at the start when a symbol stands before it. -/
theorem joints_true (h : ∀ b ∈ s.head?, isSpace b = false) :
    joints isSpace true s = joints isSpace false s + if s = [] then 0 else 1 := by
  cases s with
  | nil => rfl
  | cons b s =>
    rw [joints, joints, h b rfl]
    simp only [Bool.not_false, Bool.and_self, Bool.and_true, if_true, if_neg (List.cons_ne_nil b s)]
    simp only [Bool.false_eq_true, if_false]
    omega

/-- The texts that `append` builds: the white space in them is `space`. -/
def Plain (isSpace : α → Bool) (space : α) (out : List α) : Prop :=
  ∀ b ∈ out, isSpace b = true → b = space

theorem plain_nil : Plain isSpace space [] := nofun

/-- A text ends in white space, or is empty, exactly when no symbol stands at its end. -/
theorem Plain.glued_eq_false_iff (h : Plain isSpace space out) (hspace : isSpace space = true) :
    glued isSpace false out = false ↔ out = [] ∨ out.getLast? = some space := by
  rcases List.eq_nil_or_concat out with rfl | ⟨init, b, rfl⟩
  · simp [glued]
  · rw [List.concat_eq_append, glued_append, List.getLast?_concat]
    simp only [glued, Bool.not_eq_eq_eq_not, Bool.not_false, List.append_eq_nil_iff,
      List.cons_ne_self, and_false, false_or, Option.some.injEq]
    refine ⟨fun hb => h b (by simp) hb, fun hb => ?_⟩
    rw [hb]
    exact hspace

end

theorem Plain.append (h : Plain isSpace space out) (a : α) :
    Plain isSpace space (append isSpace space out a) := by
  unfold Collapse.append
  split_ifs with ha hend
  · exact h
  · intro b hb hbspace
    rcases List.mem_append.mp hb with hold | hlast
    · exact h b hold hbspace
    · exact List.mem_singleton.mp hlast
  · intro b hb hbspace
    rcases List.mem_append.mp hb with hold | hlast
    · exact h b hold hbspace
    · rw [List.mem_singleton.mp hlast] at hbspace
      exact absurd hbspace ha

theorem Plain.foldl (h : Plain isSpace space out) (s : List α) :
    Plain isSpace space (s.foldl (Collapse.append isSpace space) out) := by
  induction s generalizing out with
  | nil => exact h
  | cons a s ih => exact ih (h.append a)

/-- No two spaces stand next to each other. -/
theorem getLast?_ne_space (hspace : isSpace space = true) (s : List α) {init : List α}
    (h : s.foldl (append isSpace space) [] = init ++ [space]) : init.getLast? ≠ some space := by
  let Inv (out : List α) : Prop := ∀ init, out = init ++ [space] → init.getLast? ≠ some space
  have hinv : Inv (s.foldl (append isSpace space) []) := by
    refine List.foldlRecOn s _ (by simp [Inv]) fun out hout a _ => ?_
    unfold append
    split_ifs with ha hend
    · exact hout
    · intro init hinit
      rw [List.append_inj_left' hinit rfl] at hend
      exact fun hlast => hend (Or.inr hlast)
    · intro init hinit
      have hlast := List.cons.inj (List.append_inj_right' hinit rfl)
      rw [hlast.1, hspace] at ha
      exact absurd rfl ha
  exact hinv init h

/-! ### What is kept -/

theorem filter_foldl (hspace : isSpace space = true) (out s : List α) :
    (s.foldl (append isSpace space) out).filter (fun b => !isSpace b) =
      out.filter (fun b => !isSpace b) ++ s.filter fun b => !isSpace b := by
  induction s generalizing out with
  | nil => simp
  | cons a s ih =>
    rw [List.foldl_cons, ih, append]
    split_ifs with ha hend
    · simp [ha]
    · simp [ha, hspace]
    · simp [ha]

/-- The symbols other than white space are kept. -/
theorem filter_collapse (hspace : isSpace space = true) (s : List α) :
    (collapse isSpace space s).filter (fun b => !isSpace b) = s.filter fun b => !isSpace b := by
  have hfold := filter_foldl hspace [] s
  rw [List.filter_nil, List.nil_append] at hfold
  rw [← hfold, collapse, trim]
  generalize s.foldl (append isSpace space) [] = out
  split_ifs with hlast
  · obtain ⟨init, rfl⟩ := List.getLast?_eq_some_iff.mp hlast
    simp [hspace]
  · rfl

theorem glued_foldl (hspace : isSpace space = true) (h : Plain isSpace space out) (s : List α) :
    glued isSpace false (s.foldl (append isSpace space) out) =
      glued isSpace (glued isSpace false out) s := by
  induction s generalizing out with
  | nil => rfl
  | cons a s ih =>
    rw [List.foldl_cons, ih (h.append a), glued, append]
    congr 1
    split_ifs with ha hend
    · rw [(h.glued_eq_false_iff hspace).mpr hend, ha]
      rfl
    · rw [glued_append, ha]
      simp [glued, hspace]
    · rw [glued_append]
      rfl

theorem joints_foldl (hspace : isSpace space = true) (h : Plain isSpace space out) (s : List α) :
    joints isSpace false (s.foldl (append isSpace space) out) =
      joints isSpace false out + joints isSpace (glued isSpace false out) s := by
  induction s generalizing out with
  | nil => rfl
  | cons a s ih =>
    have hglued := glued_foldl hspace h [a]
    rw [List.foldl_cons, List.foldl_nil] at hglued
    rw [List.foldl_cons, ih (h.append a), hglued, joints, ← Nat.add_assoc]
    congr 1
    rw [append]
    split_ifs with ha hend <;> simp_all [joints_append, joints]

/-- The joints are kept. -/
theorem joints_collapse (hspace : isSpace space = true) (s : List α) :
    joints isSpace false (collapse isSpace space s) = joints isSpace false s := by
  have hfold : joints isSpace false (s.foldl (append isSpace space) []) =
      joints isSpace false s := by
    rw [joints_foldl hspace plain_nil, joints, Nat.zero_add, glued]
  rw [← hfold, collapse, trim]
  generalize s.foldl (append isSpace space) [] = out
  split_ifs with hlast
  · obtain ⟨init, rfl⟩ := List.getLast?_eq_some_iff.mp hlast
    rw [List.dropLast_concat, joints_append, joints_spaces (s := [space]) (by simp [hspace])]
    rfl
  · rfl

/-! ### White space that makes no difference -/

/-- White space after white space adds nothing. -/
theorem foldl_append_of_not_glued (hspace : isSpace space = true) (h : Plain isSpace space out)
    (hglued : glued isSpace false out = false) (hs : ∀ b ∈ s, isSpace b = true) :
    s.foldl (append isSpace space) out = out := by
  induction s with
  | nil => rfl
  | cons a s ih =>
    have hend := (h.glued_eq_false_iff hspace).mp hglued
    rw [List.foldl_cons, append, if_pos (hs a List.mem_cons_self), if_pos hend]
    exact ih fun b hb => hs b (List.mem_cons_of_mem _ hb)

/-- A run of white space is one space. -/
theorem foldl_append_spaces (hspace : isSpace space = true) (h : Plain isSpace space out)
    (hs : ∀ b ∈ s, isSpace b = true) (hne : s ≠ []) :
    s.foldl (append isSpace space) out = append isSpace space out space := by
  cases s with
  | nil => exact absurd rfl hne
  | cons a =>
    have hfirst : append isSpace space out a = append isSpace space out space := by
      rw [append, append, if_pos (hs a List.mem_cons_self), if_pos hspace]
    have hglued : glued isSpace false (append isSpace space out space) = false := by
      have hfold := glued_foldl hspace h [space]
      rw [List.foldl_cons, List.foldl_nil] at hfold
      rw [hfold, glued, hspace]
      rfl
    rw [List.foldl_cons, hfirst]
    exact foldl_append_of_not_glued hspace (h.append space) hglued
      fun b hb => hs b (List.mem_cons_of_mem _ hb)

/-! ### What is added -/

section

omit [DecidableEq α]

variable (isSpace space) in
/-- What a text adds, quietly when white space before its first symbol is left out. -/
def after : Bool → List α → List α
  | _, [] => []
  | quiet, a :: s =>
    if isSpace a then
      if quiet then after true s else space :: after true s
    else a :: after false s

theorem head?_after (hspace : isSpace space = true) {s : List α} {b : α}
    (hb : b ∈ (after isSpace space true s).head?) : b ≠ space := by
  induction s with
  | nil => cases hb
  | cons a s ih =>
    rw [after] at hb
    cases ha : isSpace a with
    | true =>
      rw [ha] at hb
      exact ih hb
    | false =>
      rw [ha] at hb
      obtain rfl : a = b := Option.some.inj hb
      rintro rfl
      rw [hspace] at ha
      cases ha

end

theorem foldl_append_eq (hspace : isSpace space = true) (h : Plain isSpace space out) (s : List α) :
    s.foldl (append isSpace space) out =
      out ++ after isSpace space (!glued isSpace false out) s := by
  induction s generalizing out with
  | nil => exact (List.append_nil out).symm
  | cons a s ih =>
    have hglued := glued_foldl hspace h [a]
    rw [List.foldl_cons, List.foldl_nil, glued, glued] at hglued
    rw [List.foldl_cons, ih (h.append a), hglued, after, append, Bool.not_not]
    cases ha : isSpace a with
    | false => simp
    | true =>
      simp only [if_true]
      cases hend : glued isSpace false out with
      | false => simp [(h.glued_eq_false_iff hspace).mp hend]
      | true =>
        have hnot : ¬(out = [] ∨ out.getLast? = some space) := fun hor => by
          rw [(h.glued_eq_false_iff hspace).mpr hor] at hend
          cases hend
        simp [hnot]

variable (space) in
/-- A text without the spaces at its ends. -/
def strip (s : List α) : List α := trim space (s.dropWhile fun b => decide (b = space))

theorem collapse_eq_trim_after (hspace : isSpace space = true) (s : List α) :
    collapse isSpace space s = trim space (after isSpace space true s) := by
  rw [collapse, foldl_append_eq hspace plain_nil]
  rfl

theorem dropWhile_after (hspace : isSpace space = true) (quiet : Bool) (s : List α) :
    ((after isSpace space quiet s).dropWhile fun b => decide (b = space)) =
      after isSpace space true s := by
  have hself : ∀ s : List α, (∀ b ∈ s.head?, b ≠ space) →
      (s.dropWhile fun b => decide (b = space)) = s := by
    intro s hs
    cases s with
    | nil => rfl
    | cons a => exact List.dropWhile_cons_of_neg (by simpa using hs a rfl)
  have htrue : ∀ s : List α, ((after isSpace space true s).dropWhile fun b => decide (b = space)) =
      after isSpace space true s := fun s => hself _ fun b hb => head?_after hspace hb
  cases quiet with
  | true => exact htrue s
  | false =>
    cases s with
    | nil => rfl
    | cons a s =>
      rw [after, after]
      cases ha : isSpace a with
      | true => exact (List.dropWhile_cons_of_pos (by simp)).trans (htrue s)
      | false =>
        refine List.dropWhile_cons_of_neg ?_
        rw [decide_eq_true_iff]
        rintro rfl
        rw [hspace] at ha
        cases ha

theorem strip_after (hspace : isSpace space = true) (quiet : Bool) (s : List α) :
    strip space (after isSpace space quiet s) = collapse isSpace space s := by
  rw [strip, dropWhile_after hspace, collapse_eq_trim_after hspace]

/-- **Slices.** What a part of a text adds is the part with its white space collapsed, up to spaces
at the ends. -/
theorem strip_drop_foldl (hspace : isSpace space = true) (h : Plain isSpace space out)
    (s : List α) :
    strip space ((s.foldl (append isSpace space) out).drop out.length) =
      collapse isSpace space s := by
  rw [foldl_append_eq hspace h, List.drop_left, strip_after hspace]

variable (isSpace space) in
/-- The form of a text with its white space collapsed. -/
structure Normal (out : List α) : Prop where
  plain : Plain isSpace space out
  head : out.head? ≠ some space
  last : out.getLast? ≠ some space
  single : out.IsChain fun a b => ¬(a = space ∧ b = space)

theorem single_foldl (hspace : isSpace space = true) (s : List α) :
    (s.foldl (append isSpace space) []).IsChain fun a b => ¬(a = space ∧ b = space) := by
  let Inv (out : List α) : Prop := out.IsChain fun a b => ¬(a = space ∧ b = space)
  have hinv : Inv (s.foldl (append isSpace space) []) := by
    refine List.foldlRecOn s _ List.IsChain.nil fun out hout a _ => ?_
    unfold append
    split_ifs with ha hend
    · exact hout
    · refine List.isChain_append.mpr ⟨hout, List.IsChain.singleton _, ?_⟩
      intro x hx y hy hboth
      exact hend (Or.inr (hboth.1 ▸ hx))
    · refine List.isChain_append.mpr ⟨hout, List.IsChain.singleton _, ?_⟩
      intro x hx y hy hboth
      obtain rfl : a = y := Option.some.inj hy
      rw [hboth.2] at ha
      exact ha hspace
  exact hinv

variable (space) in
theorem trim_cases (out : List α) :
    (∃ init, out = init ++ [space] ∧ trim space out = init) ∨
      out.getLast? ≠ some space ∧ trim space out = out := by
  rw [trim]
  split_ifs with hlast
  · obtain ⟨init, rfl⟩ := List.getLast?_eq_some_iff.mp hlast
    exact Or.inl ⟨init, rfl, List.dropLast_concat⟩
  · exact Or.inr ⟨hlast, rfl⟩

/-- **Normal form.** A collapsed text has single spaces between its symbols, and no others. -/
theorem normal_collapse (hspace : isSpace space = true) (s : List α) :
    Normal isSpace space (collapse isSpace space s) := by
  have hplain := (@plain_nil α isSpace space).foldl s
  have hsingle := single_foldl hspace s
  have hdouble := @getLast?_ne_space _ _ isSpace space hspace s
  have hhead : ∀ b ∈ (s.foldl (append isSpace space) []).head?, b ≠ space := by
    rw [foldl_append_eq hspace plain_nil]
    exact fun b hb => head?_after hspace hb
  rw [collapse]
  generalize s.foldl (append isSpace space) [] = out at hplain hsingle hdouble hhead
  rcases trim_cases space out with ⟨init, rfl, htrim⟩ | ⟨hlast, htrim⟩ <;> rw [htrim]
  · refine ⟨fun b hb => hplain b (List.mem_append_left _ hb), fun hfirst => ?_, hdouble rfl,
      hsingle.left_of_append⟩
    cases init with
    | nil => cases hfirst
    | cons a => exact hhead a rfl (Option.some.inj hfirst)
  · exact ⟨hplain, fun hfirst => hhead space hfirst rfl, hlast, hsingle⟩

/-! ### Optional white space -/

section optional

variable {β : Type*} (isSpace) (value : β → α) (optional : β → Bool)

omit [DecidableEq α] in
/-- The symbols that are not optional. -/
def required (l : List β) : List α := (l.filter fun b => !optional b).map value

/-- No optional white space stands between two symbols that are no white space. -/
def Apart (l : List β) : Prop :=
  ∀ before b rest, l = before ++ b :: rest → optional b = true →
    glued isSpace false (required value optional before) = true →
      ∀ a ∈ (required value optional rest).head?, isSpace a = true

/-- The same, symbol by symbol: what stands before is a symbol or not, and optional white space may
already have been seen. -/
def ApartAfter : Bool → Bool → List β → Prop
  | _, _, [] => True
  | g, pending, b :: l =>
    if optional b then ApartAfter g true l
    else (g = true → pending = true → isSpace (value b) = true) ∧
      ApartAfter (!isSpace (value b)) false l

variable {isSpace} {value} {optional}

omit [DecidableEq α] in
theorem required_cons_of_optional {b : β} (hb : optional b = true) (l : List β) :
    required value optional (b :: l) = required value optional l := by
  rw [required, required, List.filter_cons_of_neg (by simp [hb])]

omit [DecidableEq α] in
theorem required_cons {b : β} (hb : optional b = false) (l : List β) :
    required value optional (b :: l) = value b :: required value optional l := by
  rw [required, required, List.filter_cons_of_pos (by simp [hb]), List.map_cons]

omit [DecidableEq α] in
theorem apartAfter_iff {pending : Bool} {l : List β} :
    ApartAfter isSpace value optional g pending l ↔
      (g = true → pending = true →
        ∀ a ∈ (required value optional l).head?, isSpace a = true) ∧
      ∀ before b rest, l = before ++ b :: rest → optional b = true →
        glued isSpace g (required value optional before) = true →
          ∀ a ∈ (required value optional rest).head?, isSpace a = true := by
  -- on the list: an optional element hands on what is pending, any other settles it
  induction l generalizing g pending with
  | nil => simp [ApartAfter, required]
  | cons b l ih =>
    rw [ApartAfter]
    cases hb : optional b with
    | true =>
      rw [if_pos rfl, ih, required_cons_of_optional hb]
      constructor
      · rintro ⟨hpending, hall⟩
        refine ⟨fun hg _ => hpending hg rfl, fun before b' rest hsplit hb' hg => ?_⟩
        cases before with
        | nil =>
          obtain ⟨rfl, rfl⟩ := List.cons.inj hsplit
          exact hpending hg rfl
        | cons first before =>
          obtain ⟨rfl, hrest⟩ := List.cons.inj hsplit
          rw [required_cons_of_optional hb] at hg
          exact hall before b' rest hrest hb' hg
      · rintro ⟨hpending, hall⟩
        refine ⟨fun hg _ => hall [] b l rfl hb hg, fun before b' rest hsplit hb' hg => ?_⟩
        refine hall (b :: before) b' rest (by rw [hsplit]; rfl) hb' ?_
        rw [required_cons_of_optional hb]
        exact hg
    | false =>
      rw [if_neg Bool.false_ne_true, ih, required_cons hb]
      constructor
      · rintro ⟨hfirst, -, hall⟩
        refine ⟨fun hg hpending a ha => ?_, fun before b' rest hsplit hb' hg => ?_⟩
        · obtain rfl : value b = a := Option.some.inj ha
          exact hfirst hg hpending
        · cases before with
          | nil =>
            obtain ⟨rfl, -⟩ := List.cons.inj hsplit
            rw [hb] at hb'
            cases hb'
          | cons first before =>
            obtain ⟨rfl, hrest⟩ := List.cons.inj hsplit
            rw [required_cons hb, glued] at hg
            exact hall before b' rest hrest hb' hg
      · rintro ⟨hpending, hall⟩
        refine ⟨fun hg hpend => hpending hg hpend _ rfl,
          fun _ hfalse => absurd hfalse Bool.false_ne_true,
          fun before b' rest hsplit hb' hg => ?_⟩
        refine hall (b :: before) b' rest (by rw [hsplit]; rfl) hb' ?_
        rw [required_cons hb, glued]
        exact hg

/-- Optional white space that is apart is left out with no difference. -/
theorem ApartAfter.trim_foldl (hspace : isSpace space = true)
    (hoptional : ∀ b, optional b = true → isSpace (value b) = true) {pending : Bool} {l : List β}
    (h : ApartAfter isSpace value optional (glued isSpace false out) pending l)
    (hout : Plain isSpace space out) :
    trim space ((l.map value).foldl (append isSpace space)
        (if pending then append isSpace space out space else out)) =
      trim space ((required value optional l).foldl (append isSpace space) out) := by
  have hspaceAfter : ∀ {out : List α}, Plain isSpace space out → ∀ a, isSpace a = true →
      append isSpace space (append isSpace space out space) a = append isSpace space out a := by
    intro out hout a ha
    have htwo : ∀ b ∈ [space, a], isSpace b = true := by
      intro b hb
      rcases List.mem_cons.mp hb with rfl | hmem
      · exact hspace
      · rw [List.mem_singleton.mp hmem]
        exact ha
    have hone : ∀ b ∈ [a], isSpace b = true := fun b hb => by
      rw [List.mem_singleton.mp hb]
      exact ha
    have hleft := foldl_append_spaces hspace hout htwo (List.cons_ne_nil _ _)
    have hright := foldl_append_spaces hspace hout hone (List.cons_ne_nil _ _)
    exact hleft.trans hright.symm
  induction l generalizing out pending with
  | nil =>
    cases pending with
    | false => rfl
    | true =>
      show trim space (append isSpace space out space) = trim space out
      rw [append, if_pos hspace]
      split_ifs with hend
      · rfl
      · rw [not_or] at hend
        rw [trim, List.getLast?_concat, if_pos rfl, List.dropLast_concat, trim, if_neg hend.2]
  | cons b l ih =>
    rw [ApartAfter] at h
    rw [List.map_cons, List.foldl_cons]
    cases hb : optional b with
    | true =>
      rw [hb, if_pos rfl] at h
      have hone : ∀ b, optional b = true →
          append isSpace space out (value b) = append isSpace space out space := fun b hb => by
        rw [append, append, if_pos (hoptional b hb), if_pos hspace]
      rw [required_cons_of_optional hb, ← ih h hout]
      congr 2
      cases pending with
      | true => exact (hspaceAfter hout (value b) (hoptional b hb)).trans (hone b hb)
      | false => exact hone b hb
    | false =>
      rw [hb, if_neg Bool.false_ne_true] at h
      obtain ⟨hfirst, hrest⟩ := h
      have hglued := glued_foldl hspace hout [value b]
      rw [List.foldl_cons, List.foldl_nil, glued, glued] at hglued
      rw [← hglued] at hrest
      have hnext := ih hrest (hout.append (value b))
      rw [required_cons hb, List.foldl_cons, ← hnext]
      congr 2
      cases pending with
      | false => rfl
      | true =>
        show append isSpace space (append isSpace space out space) (value b) =
          append isSpace space out (value b)
        cases hvalue : isSpace (value b) with
        | true => exact hspaceAfter hout (value b) hvalue
        | false =>
          -- a symbol follows, so that none stands before
          have hend : glued isSpace false out = false := by
            by_contra hg
            have htrue := hfirst (by simpa using hg) rfl
            rw [hvalue] at htrue
            cases htrue
          have hsame : append isSpace space out space = out := by
            rw [append, if_pos hspace, if_pos ((hout.glued_eq_false_iff hspace).mp hend)]
          rw [hsame]

omit [DecidableEq α] in
/-- Optional white space takes joints away, unless it is apart. -/
theorem apartAfter_of_joints (hoptional : ∀ b, optional b = true → isSpace (value b) = true)
    {pending : Bool} {l : List β} :
    joints isSpace (g && !pending) (l.map value) ≤ joints isSpace g (required value optional l) ∧
      (joints isSpace (g && !pending) (l.map value) =
        joints isSpace g (required value optional l) →
          ApartAfter isSpace value optional g pending l) := by
  induction l generalizing g pending with
  | nil => exact ⟨le_rfl, fun _ => trivial⟩
  | cons b l ih =>
    rw [List.map_cons, joints, ApartAfter]
    cases hb : optional b with
    | true =>
      obtain ⟨hle, happart⟩ := @ih g true
      rw [Bool.not_true, Bool.and_false] at hle happart
      rw [hoptional b hb, required_cons_of_optional hb, Bool.not_true, Bool.and_false,
        if_neg Bool.false_ne_true, Nat.zero_add, if_pos rfl]
      exact ⟨hle, happart⟩
    | false =>
      obtain ⟨hle, happart⟩ := @ih (!isSpace (value b)) false
      rw [Bool.not_false, Bool.and_true] at hle happart
      rw [required_cons hb, joints, if_neg Bool.false_ne_true]
      cases hvalue : isSpace (value b) with
      | true =>
        rw [hvalue] at hle happart
        simpa using ⟨hle, happart⟩
      | false =>
        rw [hvalue] at hle happart
        cases g with
        | false => simpa using ⟨hle, happart⟩
        | true =>
          cases pending with
          | false => simpa using ⟨hle, happart⟩
          | true =>
            -- the joint that is taken away
            have hnone : (if (true && !true) && !false then 1 else 0) = 0 := rfl
            have hjoint : (if true && !false then 1 else 0) = 1 := rfl
            rw [hnone, hjoint]
            exact ⟨by omega, fun heq => by omega⟩

/-- **Optional white space.** It makes no difference exactly when it is apart. -/
theorem collapse_filter_iff (hspace : isSpace space = true)
    (hoptional : ∀ b, optional b = true → isSpace (value b) = true) (l : List β) :
    collapse isSpace space (l.map value) =
        collapse isSpace space (required value optional l) ↔
      Apart isSpace value optional l := by
  have hiff : Apart isSpace value optional l ↔
      ApartAfter isSpace value optional false false l := by
    rw [apartAfter_iff, and_iff_right (fun hfalse => nomatch hfalse)]
    exact Iff.rfl
  rw [hiff]
  constructor
  · intro heq
    have hjoints := joints_collapse hspace (l.map value)
    rw [heq, joints_collapse hspace] at hjoints
    exact (apartAfter_of_joints hoptional).2 hjoints.symm
  · intro h
    have hglued : glued isSpace false [] = false := rfl
    rw [← hglued] at h
    exact h.trim_foldl hspace hoptional plain_nil

omit [DecidableEq α] in
theorem required_append (l l' : List β) :
    required value optional (l ++ l') = required value optional l ++
      required value optional l' := by
  rw [required, List.filter_append, List.map_append]
  rfl

omit [DecidableEq α] in
/-- A part of a text is apart when the text is. -/
theorem Apart.part {a l c : List β} (h : Apart isSpace value optional (a ++ l ++ c)) :
    Apart isSpace value optional l := by
  intro before b rest hsplit hb hglued x hx
  refine h (a ++ before) b (rest ++ c) (by rw [hsplit]; simp) hb ?_ x ?_
  · rw [required_append, glued_append]
    cases hbefore : required value optional before with
    | nil =>
      rw [hbefore] at hglued
      cases hglued
    | cons =>
      rw [hbefore] at hglued
      exact hglued
  · rw [required_append]
    exact List.mem_head?_append_of_mem_head? hx

omit [DecidableEq α] in
/-- A text is apart when its symbols stand in a part that is. -/
theorem Apart.of_part {a l c : List β} (h : Apart isSpace value optional l)
    (ha : ∀ x ∈ required value optional a, isSpace x = true)
    (hc : ∀ x ∈ required value optional c, isSpace x = true) :
    Apart isSpace value optional (a ++ l ++ c) := by
  intro before b rest hsplit hb hglued x hx
  rw [List.append_assoc] at hsplit
  rcases List.append_eq_append_iff.mp hsplit with ⟨middle, rfl, hrest⟩ | ⟨middle, rfl, hrest⟩
  · rw [required_append, glued_append, glued_spaces ha, Bool.false_and] at hglued
    rcases List.append_eq_append_iff.mp hrest with ⟨middle', rfl, hrest'⟩ | ⟨middle', rfl, hrest'⟩
    · -- behind the part
      refine hc x ?_
      rw [hrest', required_append, required_cons_of_optional hb]
      exact List.mem_append_right _ (List.mem_of_mem_head? hx)
    · cases middle' with
      | nil =>
        rw [List.nil_append] at hrest'
        refine hc x ?_
        rw [← hrest', required_cons_of_optional hb]
        exact List.mem_of_mem_head? hx
      | cons first middle' =>
        obtain ⟨rfl, htail⟩ := List.cons.inj hrest'
        have htail : rest = middle' ++ c := htail
        rw [htail, required_append] at hx
        cases hmiddle : required value optional middle' with
        | nil =>
          rw [hmiddle, List.nil_append] at hx
          exact hc x (List.mem_of_mem_head? hx)
        | cons =>
          rw [hmiddle] at hx
          exact h middle b middle' rfl hb hglued x (by rw [hmiddle]; exact hx)
  · -- before the part
    have hspaces : ∀ y ∈ required value optional before, isSpace y = true := fun y hy =>
      ha y (by rw [required_append]; exact List.mem_append_left _ hy)
    rw [glued_spaces hspaces] at hglued
    cases hglued

end optional

end Collapse
