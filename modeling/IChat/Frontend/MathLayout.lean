import IChat.Frontend.MathSeparation

/-!
# The layout of separate formulas

What `reflowMathRegions` makes of a separated text, formula by formula (`layout`). A formula that is
written is `LaidOut`: a region with the same body, up to folding and trimming, and the same content.
`Folds` says of `foldNewlines` what the rest needs.

* `reflow_source`: the output for a separated text is its layout.
* `Level.next`: the text and the output are read alike up to each formula.
-/

namespace IChat.Frontend

open Delimiters

variable {before after text raw body out u v : List Char} {c : Char} {items : List MathItem}
  {leading : Bool} {kind : PairKind}

/-! ### Trimming and folding -/

theorem isJsSpace_of_isBlank (h : isBlank c = true) : isJsSpace c = true := by
  rw [isBlank, Bool.or_eq_true, decide_eq_true_eq, decide_eq_true_eq] at h
  rcases h with rfl | rfl <;> decide

theorem head?_trim (text : List Char) : ∀ c ∈ (trim text).head?, isJsSpace c = false := fun _ hc =>
  Text.head?_stripChars _ hc

theorem getLast?_trim (text : List Char) :
    ∀ c ∈ (trim text).getLast?, isJsSpace c = false :=
  fun _ hc => Text.getLast?_rstrip _ hc

/-- A newline that is folded, with the blanks around it. -/
theorem exists_of_foldAt (h : foldAt text = some after) :
    ∃ u newline v, text = u ++ (newline ++ (v ++ after)) ∧ (∀ c ∈ u, isBlank c = true) ∧
      (newline = ['\n'] ∨ newline = ['\r', '\n']) ∧ ∀ c ∈ v, isBlank c = true := by
  obtain ⟨tail, hnewline, rfl⟩ := Option.map_eq_some_iff.mp h
  have htext := (List.takeWhile_append_dropWhile (p := isBlank) (l := text)).symm
  have htail := List.takeWhile_append_dropWhile (p := isBlank) (l := tail)
  have hbreak : ∃ newline, text.dropWhile isBlank = newline ++ tail ∧
      (newline = ['\n'] ∨ newline = ['\r', '\n']) := by
    rw [afterNewline.eq_def] at hnewline
    split at hnewline
    · next hdrop =>
      cases hnewline
      exact ⟨_, hdrop, .inl rfl⟩
    · next hdrop =>
      cases hnewline
      exact ⟨_, hdrop, .inr rfl⟩
    · cases hnewline
  obtain ⟨newline, hdrop, hkind⟩ := hbreak
  refine ⟨text.takeWhile isBlank, newline, tail.takeWhile isBlank, ?_,
    fun c hc => List.mem_takeWhile_imp hc, hkind,
    fun c hc => List.mem_takeWhile_imp hc⟩
  rw [htail, ← hdrop]
  exact htext

theorem length_newline_pos {newline : List Char} (h : newline = ['\n'] ∨ newline = ['\r', '\n']) :
    0 < newline.length := by
  rcases h with rfl | rfl <;> decide

theorem shorter_foldAt :
    Shorter fun t => (foldAt t).map fun rest => ([' '], rest) := by
  intro text replacement rest h
  obtain ⟨after, hfound, heq⟩ := Option.map_eq_some_iff.mp h
  cases heq
  obtain ⟨u, newline, v, rfl, -, hnewline, -⟩ := exists_of_foldAt hfound
  have hpos := length_newline_pos hnewline
  simp only [List.length_append]
  omega

/-- **Folding** puts spaces for newlines and does nothing else. -/
theorem folds_foldNewlines (text : List Char) : Folds text (foldNewlines text) := by
  induction hlength : text.length using Nat.strong_induction_on generalizing text with
  | _ n ih =>
    cases text with
    | nil => exact .nil
    | cons c text =>
      cases hfound : foldAt (c :: text) with
      | none =>
        have hcons : foldNewlines (c :: text) = c :: foldNewlines text :=
          substitute_cons shorter_foldAt (congrArg (Option.map _) hfound)
        rw [hcons]
        exact (ih _ (by rw [← hlength, List.length_cons]; omega) text rfl).keep c
      | some rest =>
        obtain ⟨u, newline, v, heq, hu, hnewline, hv⟩ := exists_of_foldAt hfound
        have hpos := length_newline_pos hnewline
        have hsum := congrArg List.length heq
        simp only [List.length_append] at hsum
        have hfolded : foldNewlines (c :: text) = ' ' :: foldNewlines rest :=
          substitute_found shorter_foldAt (congrArg (Option.map _) hfound)
        rw [hfolded, heq]
        exact .fold hu hnewline hv (ih _ (by omega) rest rfl)

theorem Folds.refl : ∀ text : List Char, Folds text text
  | [] => .nil
  | c :: text => (refl text).keep c

/-- What is folded is white space. -/
theorem isJsSpace_of_mem_fold {newline : List Char} (hu : ∀ c ∈ u, isBlank c = true)
    (hnewline : newline = ['\n'] ∨ newline = ['\r', '\n']) (hv : ∀ c ∈ v, isBlank c = true) :
    ∀ c ∈ u ++ (newline ++ v), isJsSpace c = true := by
  have hbreak : ∀ c ∈ newline, isJsSpace c = true := by
    rcases hnewline with rfl | rfl <;> exact Text.forall_mem_of_all (by decide)
  intro c hc
  rcases List.mem_append.mp hc with hc | hc
  · exact isJsSpace_of_isBlank (hu c hc)
  · exact (List.mem_append.mp hc).elim (hbreak c) fun hc => isJsSpace_of_isBlank (hv c hc)

/-- No `$$` appears. -/
theorem Folds.not_infix {folded : List Char} (h : Folds text folded) (hfree : ¬dollars <:+: text) :
    ¬dollars <:+: folded := by
  have hboth : (folded.head? = some '$' → text.head? = some '$') ∧
      (dollars <:+: folded → dollars <:+: text) := by
    induction h with
    | nil => exact ⟨id, id⟩
    | @keep text folded c h ih =>
      obtain ⟨hhead, hinner⟩ := ih fun hfound => hfree (List.infix_cons_iff.mpr (.inr hfound))
      refine ⟨id, fun hfound => ?_⟩
      rcases List.infix_cons_iff.mp hfound with hstart | hfound
      · obtain ⟨hc, rest, hrest⟩ := List.cons_prefix_cons.mp hstart
        have htext := hhead (by rw [← hrest]; rfl)
        cases text with
        | nil => cases htext
        | cons d text =>
          cases htext
          rw [← hc]
          exact ⟨[], text, rfl⟩
      · exact List.infix_cons_iff.mpr (.inr (hinner hfound))
    | @fold u newline v text folded hu hnewline hv h ih =>
      have hsuffix : text <:+ u ++ (newline ++ (v ++ text)) :=
        ((List.suffix_append v text).trans (List.suffix_append newline _)).trans
          (List.suffix_append u _)
      obtain ⟨-, hinner⟩ := ih fun hfound => hfree (hfound.trans hsuffix.isInfix)
      refine ⟨fun h => (by cases h), fun hfound => ?_⟩
      rcases List.infix_cons_iff.mp hfound with hstart | hfound
      · exact absurd (List.cons_prefix_cons.mp hstart).1 (by decide)
      · exact (hinner hfound).trans hsuffix.isInfix
  exact fun hfound => hfree (hboth.2 hfound)

theorem Folds.getLast? {folded : List Char} (h : Folds text folded)
    (hlast : ∀ c ∈ text.getLast?, isJsSpace c = false) : folded.getLast? = text.getLast? := by
  induction h with
  | nil => rfl
  | keep c h ih =>
    rw [List.getLast?_cons] at hlast ⊢
    rw [List.getLast?_cons, ih]
    intro d hd
    rw [Option.mem_def.mp hd] at hlast
    exact hlast d rfl
  | @fold u newline v text folded hu hnewline hv h ih =>
    have hspace := isJsSpace_of_mem_fold hu hnewline hv
    have hassoc : u ++ (newline ++ (v ++ text)) = (u ++ (newline ++ v)) ++ text := by simp
    rw [hassoc, List.getLast?_append] at hlast ⊢
    cases htext : text.getLast? with
    | none =>
      -- the text ends with what is folded
      rw [htext] at hlast
      have hne : u ++ (newline ++ v) ≠ [] := by rcases hnewline with rfl | rfl <;> simp
      obtain ⟨c, hc⟩ := Option.ne_none_iff_exists'.mp (mt List.getLast?_eq_none_iff.mp hne)
      have hfalse := hlast c hc
      rw [hspace c (List.mem_of_getLast? hc)] at hfalse
      cases hfalse
    | some =>
      rw [htext] at hlast ih
      rw [List.getLast?_cons, ih hlast]
      rfl

theorem getLast?_trim_eq (h : ∀ c ∈ text.getLast?, isJsSpace c = false) :
    (trim text).getLast? = text.getLast? := by
  obtain ⟨u, v, heq, hu, hv⟩ := exists_eq_append_trim text
  generalize trim text = t at heq ⊢
  subst heq
  rw [List.getLast?_append, List.getLast?_append] at h ⊢
  -- white space that is trimmed would stand at the end
  have hnot : ∀ l : List Char, (∀ c ∈ l, isJsSpace c = true) →
      (∀ c ∈ l.getLast?, isJsSpace c = false) → l.getLast? = none := by
    intro l hspace hlast
    rw [Option.eq_none_iff_forall_not_mem]
    intro d hd
    have hfalse := hlast d hd
    rw [hspace d (List.mem_of_getLast? hd)] at hfalse
    cases hfalse
  have hnone : v.getLast? = none := by
    refine hnot v hv fun d hd => h d ?_
    rw [Option.mem_def.mp hd]
    rfl
  rw [hnone, Option.none_or] at h ⊢
  cases hlast : t.getLast? with
  | some => rfl
  | none =>
    rw [hlast, Option.none_or] at h
    rw [Option.none_or, hnot u hu h]

theorem getLast?_foldedBody_trim (text : List Char) :
    (foldedBody (trim text)).getLast? = (trim text).getLast? := by
  have hlast := (folds_foldNewlines (trim text)).getLast? (getLast?_trim text)
  rw [foldedBody, getLast?_trim_eq, hlast]
  rw [hlast]
  exact getLast?_trim text

theorem trim_trim (text : List Char) : trim (trim text) = trim text :=
  Text.stripChars_eq_self (head?_trim text) (getLast?_trim text)

theorem trim_block (text : List Char) : trim ('\n' :: (trim text ++ ['\n'])) = trim text := by
  have hspace : isJsSpace '\n' = true := by decide
  have hlast := Text.rstrip_eq_self (p := isJsSpace) (getLast?_trim text)
  rw [trim, Text.stripChars, List.dropWhile_cons, if_pos hspace]
  cases hbody : trim text with
  | nil => rfl
  | cons c =>
    rw [hbody] at hlast
    have hc : isJsSpace c = false := head?_trim text c (by rw [hbody]; rfl)
    rw [List.cons_append, List.dropWhile_cons, hc, if_neg Bool.false_ne_true, ← List.cons_append,
      Text.rstrip_append_singleton, if_pos hspace, hlast]

theorem opensBlock_trim (text : List Char) : opensBlock (trim text) = false := by
  have hhead := head?_trim text
  rw [opensBlock]
  cases hbody : trim text with
  | nil => rfl
  | cons c =>
    have hc : isJsSpace c = false := hhead c (by rw [hbody]; rfl)
    have hblank : isBlank c = false := by
      by_contra hblank
      rw [isJsSpace_of_isBlank (by simpa using hblank)] at hc
      cases hc
    rw [List.dropWhile_cons, hblank, if_neg Bool.false_ne_true, afterNewline.eq_def]
    split
    · next heq =>
      cases heq
      cases hc
    · next heq =>
      cases heq
      cases hc
    · rfl

theorem not_infix_trim (h : ¬dollars <:+: text) : ¬dollars <:+: trim text := by
  obtain ⟨u, v, heq, -, -⟩ := exists_eq_append_trim text
  exact fun hfound => h (heq ▸ hfound.trans ⟨u, v, by rw [List.append_assoc]⟩)

/-! ### Content -/

theorem contentFrom_cons (waiting : Option Char) :
    contentFrom waiting (c :: text) =
      (step waiting c).1 ++ contentFrom (step waiting c).2 text := rfl

theorem step_of_isJsSpace (h : isJsSpace c = true) (waiting : Option Char) :
    step waiting c = (waiting.toList, none) := by
  have hread : readChar c = ([], none) := by
    have hc : ¬(c = '$' ∨ c = '\\') := by
      rintro (rfl | rfl) <;> cases h
    rw [readChar, if_neg hc, if_pos h]
  cases waiting with
  | none => exact hread
  | some a =>
    have hdelimiter : isDelimiter a c = false := by
      by_contra hdelimiter
      have hor : c = '$' ∨ c = '[' ∨ c = ']' ∨ c = '(' ∨ c = ')' := by
        rw [isDelimiter] at hdelimiter
        simp only [Bool.not_eq_false, Bool.or_eq_true, Bool.and_eq_true, decide_eq_true_eq]
          at hdelimiter
        tauto
      rcases hor with rfl | rfl | rfl | rfl | rfl <;> cases h
    rw [step, hdelimiter, if_neg Bool.false_ne_true, hread]
    rfl

/-- White space separates. -/
theorem contentFrom_space (h : ∀ c ∈ u, isJsSpace c = true) (hne : u ≠ []) (waiting : Option Char)
    (text : List Char) :
    contentFrom waiting (u ++ text) = waiting.toList ++ contentFrom none text := by
  induction u generalizing waiting with
  | nil => exact absurd rfl hne
  | cons c u ih =>
    rw [List.cons_append, contentFrom_cons, step_of_isJsSpace (h c List.mem_cons_self)]
    cases u with
    | nil => rfl
    | cons d u => rw [ih (fun e he => h e (List.mem_cons_of_mem _ he)) (List.cons_ne_nil d u)]; rfl

theorem contentFrom_none_space (h : ∀ c ∈ u, isJsSpace c = true) (text : List Char) :
    contentFrom none (u ++ text) = contentFrom none text := by
  rcases eq_or_ne u [] with rfl | hne
  · rfl
  · exact contentFrom_space h hne none text

theorem contentFrom_append_space (h : ∀ c ∈ v, isJsSpace c = true) (waiting : Option Char)
    (text : List Char) : contentFrom waiting (text ++ v) = contentFrom waiting text := by
  induction text generalizing waiting with
  | nil =>
    rcases eq_or_ne v [] with rfl | hne
    · rfl
    · have hspace := contentFrom_space h hne waiting []
      rw [List.append_nil, contentFrom, Option.toList_none, List.append_nil] at hspace
      exact hspace
  | cons c text ih => rw [List.cons_append, contentFrom_cons, contentFrom_cons, ih]

theorem content_trim (text : List Char) : content (trim text) = content text := by
  obtain ⟨u, v, heq, hu, hv⟩ := exists_eq_append_trim text
  conv => rhs; rw [heq]
  rw [content, content, contentFrom_none_space hu, contentFrom_append_space hv]

theorem Folds.contentFrom_eq {folded : List Char} (h : Folds text folded) :
    ∀ waiting, contentFrom waiting folded = contentFrom waiting text := by
  induction h with
  | nil => exact fun _ => rfl
  | keep c h ih =>
    intro waiting
    rw [contentFrom_cons, contentFrom_cons, ih]
  | @fold u newline v text folded hu hnewline hv h ih =>
    intro waiting
    have hone := contentFrom_space (u := [' ']) (List.forall_mem_singleton.mpr rfl) (by decide)
      waiting folded
    have hne : u ++ (newline ++ v) ≠ [] := by rcases hnewline with rfl | rfl <;> simp
    have hassoc : u ++ (newline ++ (v ++ text)) = (u ++ (newline ++ v)) ++ text := by simp
    rw [hassoc, contentFrom_space (isJsSpace_of_mem_fold hu hnewline hv) hne, ← ih]
    exact hone

theorem content_foldedBody (raw : List Char) : content (foldedBody raw) = content raw :=
  (content_trim _).trans ((folds_foldNewlines raw).contentFrom_eq none)

theorem content_block (text : List Char) :
    content ('\n' :: (text ++ ['\n'])) = content text := by
  have hend := contentFrom_append_space (v := ['\n']) (List.forall_mem_singleton.mpr rfl) none text
  have hstart := contentFrom_none_space (u := ['\n']) (List.forall_mem_singleton.mpr rfl)
    (text ++ ['\n'])
  exact hstart.trans hend

theorem eq_of_step_snd {waiting : Option Char} {d : Char} (h : (step waiting c).2 = some d) :
    c = d := by
  have hread : (readChar c).2 = some d → c = d := by
    intro h
    rw [readChar] at h
    split_ifs at h
    · exact Option.some.inj h
  cases waiting with
  | none => exact hread h
  | some =>
    rw [step] at h
    split_ifs at h
    exact hread h

/-- A `$$` ends what stands before it, unless a `$` does. -/
theorem contentFrom_dollars {waiting : Option Char} (hwaiting : raw = [] → waiting ≠ some '$')
    (hlast : raw.getLast? ≠ some '$') (text : List Char) :
    contentFrom waiting (raw ++ (dollars ++ text)) =
      contentFrom waiting raw ++ contentFrom none text := by
  induction raw generalizing waiting with
  | nil =>
    cases waiting with
    | none => rfl
    | some a =>
      have hdelimiter : isDelimiter a '$' = false := by
        have hne : a ≠ '$' := fun heq => hwaiting rfl (congrArg some heq)
        simp [isDelimiter, hne]
      have hstep : step (some a) '$' = ([a], some '$') := by
        rw [step, hdelimiter]
        rfl
      change contentFrom (some a) ('$' :: '$' :: text) = _
      rw [contentFrom_cons, hstep, contentFrom_cons]
      rfl
  | cons c raw ih =>
    rw [List.cons_append, contentFrom_cons, contentFrom_cons, ih, List.append_assoc]
    · rintro rfl hnext
      exact hlast (congrArg some (eq_of_step_snd hnext))
    · intro hraw
      rw [List.getLast?_cons, hraw] at hlast
      exact hlast rfl

/-- So does a delimiter that begins with `\`. -/
theorem contentFrom_slash {d : Char} (hd : isDelimiter '\\' d = true) (waiting : Option Char)
    (body text : List Char) :
    contentFrom waiting (body ++ (['\\', d] ++ text)) =
      contentFrom waiting body ++ contentFrom none text := by
  induction body generalizing waiting with
  | nil =>
    have hnext : ∀ l, contentFrom (some '\\') (d :: l) = contentFrom none l := by
      intro l
      rw [contentFrom_cons, step, if_pos hd]
      rfl
    have hstep : step waiting '\\' = (waiting.toList, some '\\') := by
      cases waiting with
      | none => rfl
      | some a =>
        have hdelimiter : isDelimiter a '\\' = false := by simp [isDelimiter]
        rw [step, hdelimiter]
        rfl
    change contentFrom waiting ('\\' :: d :: text) = _
    rw [contentFrom_cons, hstep, hnext]
    rfl
  | cons c body ih =>
    rw [List.cons_append, contentFrom_cons, contentFrom_cons, ih, List.append_assoc]

/-! ### Regions in the output -/

/-- A text that is a region with this body and its content, between newlines. -/
def LaidOut (body text : List Char) : Prop := ∃ u raw v,
  text = u ++ (dollars ++ (raw ++ (dollars ++ v))) ∧ (∀ c ∈ u, c = '\n') ∧ (∀ c ∈ v, c = '\n') ∧
    SameBody body raw ∧ content raw = content body ∧ ¬dollars <:+: raw ∧ raw.getLast? ≠ some '$'

theorem laidOut_of_same {raw' : List Char} (hsame : SameBody raw raw')
    (hcontent : content raw' = content raw) (hfree : ¬dollars <:+: raw')
    (hlast : raw'.getLast? ≠ some '$') : LaidOut raw (dollars ++ (raw' ++ dollars)) :=
  ⟨[], raw', [], by rw [List.nil_append, List.append_nil], by simp, by simp, hsame, hcontent, hfree,
    hlast⟩

/-- What is laid out for a body is so for each one that is the same when trimmed. -/
theorem LaidOut.of_trim (h : LaidOut raw text) (htrim : trim raw = trim body) :
    LaidOut body text := by
  obtain ⟨u, raw', v, heq, hu, hv, ⟨t, folded, ht, hfolds, hout⟩, hcontent, hrest⟩ := h
  refine ⟨u, raw', v, heq, hu, hv, ⟨t, folded, ht.trans htrim, hfolds, hout⟩, ?_, hrest⟩
  rw [hcontent, ← content_trim, htrim, content_trim]

theorem eq_newline_of_mem_padding (hc : c ∈ padding out) : c = '\n' := by
  rw [padding] at hc
  split_ifs at hc
  · have hall : ∀ c ∈ "\n".toList, c = '\n' := Text.forall_mem_of_all (by decide)
    exact hall c hc
  · have hall : ∀ c ∈ "\n\n".toList, c = '\n' := Text.forall_mem_of_all (by decide)
    exact hall c hc
  · cases hc

theorem not_infix_cons_of_ne (hc : c ≠ '$') (hfree : ¬dollars <:+: text) :
    ¬dollars <:+: c :: text := by
  intro hfound
  rcases List.infix_cons_iff.mp hfound with hstart | hfound
  · exact hc (List.cons_prefix_cons.mp hstart).1.symm
  · exact hfree hfound

theorem not_infix_concat (hc : c ≠ '$') (hfree : ¬dollars <:+: text) :
    ¬dollars <:+: text ++ [c] := by
  induction text with
  | nil => exact not_infix_cons_of_ne hc (by decide)
  | cons d text ih =>
    intro hfound
    rcases List.infix_cons_iff.mp hfound with hstart | hfound
    · obtain ⟨hd, htail⟩ := List.cons_prefix_cons.mp hstart
      cases text with
      | nil => exact hc (List.cons_prefix_cons.mp htail).1.symm
      | cons e text =>
        obtain ⟨he, -⟩ := List.cons_prefix_cons.mp htail
        rw [← hd, ← he] at hfree
        exact hfree ⟨[], text, rfl⟩
    · exact ih (fun h => hfree (List.infix_cons_iff.mpr (.inr h))) hfound

/-- What is written for a region is laid out, if its body may end where it ends. -/
theorem laidOut_written (hfree : ¬dollars <:+: raw)
    (hlast : (foldedBody raw).getLast? = some '$' →
      lineLeading out = true ∧ opensBlock raw = true) :
    LaidOut raw (written out raw) := by
  have hbody : ¬dollars <:+: foldedBody raw :=
    not_infix_trim (Folds.not_infix (folds_foldNewlines raw) hfree)
  have hsame : ∀ {raw'}, trim raw' = foldedBody raw → SameBody raw raw' := fun h =>
    ⟨raw, _, rfl, folds_foldNewlines raw, h.symm⟩
  rw [written]
  split_ifs with hblock
  · refine ⟨padding out, '\n' :: (foldedBody raw ++ ['\n']), ['\n', '\n'], ?_,
      fun c => eq_newline_of_mem_padding, by simp, hsame (trim_block _), ?_, ?_, ?_⟩
    · rw [List.append_assoc, List.append_assoc]
      change _ = padding out ++ (dollars ++ ('\n' :: ((foldedBody raw ++ ['\n']) ++ _)))
      rw [List.append_assoc]
      rfl
    · exact (content_block _).trans (content_foldedBody raw)
    · exact not_infix_cons_of_ne (by decide) (not_infix_concat (by decide) hbody)
    · rw [← List.cons_append, List.getLast?_concat]
      decide
  · rw [List.append_assoc]
    exact laidOut_of_same (hsame (trim_trim _)) (content_foldedBody raw) hbody fun h =>
      hblock (hlast h)

theorem contentFrom_laidOut {w : List Char} (h : LaidOut raw w) {waiting : Option Char}
    (hwaiting : waiting = some '$' → w.head? ≠ some '$') (text : List Char) :
    contentFrom waiting (w ++ text) = waiting.toList ++ (content raw ++ contentFrom none text) := by
  obtain ⟨u, raw', v, rfl, hu, hv, -, hcontent, -, hlast⟩ := h
  have hspace : ∀ {l : List Char}, (∀ c ∈ l, c = '\n') → ∀ c ∈ l, isJsSpace c = true := by
    intro l hl c hc
    rw [hl c hc]
    decide
  have hmark : ∀ l, contentFrom waiting (u ++ (dollars ++ l)) =
      waiting.toList ++ contentFrom none l := by
    intro l
    rcases eq_or_ne u [] with rfl | hne
    · exact contentFrom_dollars (fun _ heq => hwaiting heq rfl) (by simp) l
    · rw [contentFrom_space (hspace hu) hne]
      rfl
  simp only [List.append_assoc]
  rw [hmark, contentFrom_dollars (fun _ => by simp) hlast, contentFrom_none_space (hspace hv),
    ← hcontent, content]

/-- A pair of delimiters, as it is read. -/
theorem contentFrom_pair {d e : Char} (hd : isDelimiter '\\' d = true)
    (he : isDelimiter '\\' e = true) (waiting : Option Char) (body text : List Char) :
    contentFrom waiting (['\\', d] ++ (body ++ (['\\', e] ++ text))) =
      waiting.toList ++ (content body ++ contentFrom none text) := by
  have hopener := contentFrom_slash hd waiting [] (body ++ (['\\', e] ++ text))
  rw [List.nil_append] at hopener
  rw [hopener, contentFrom_slash he, contentFrom, content]

/-! ### The layout -/

/-- What `reflowMathRegions` adds for the items of a text, after `out`. -/
def layout : List Char → List MathItem → List Char
  | _, [] => []
  | out, .plain c :: items => c :: layout (out ++ [c]) items
  | out, .region raw :: items => written out raw ++ layout (out ++ written out raw) items
  | out, .pair .display body :: items =>
    let block := ['\n', '\n'] ++
      (written (out ++ ['\n', '\n']) ('\n' :: (trim body ++ ['\n'])) ++ ['\n', '\n'])
    block ++ layout (out ++ block) items
  | out, .pair .inline body :: items =>
    written out (trim body) ++ layout (out ++ written out (trim body)) items
  | out, .tail text :: items =>
    dollars ++ (text ++ layout (out ++ (dollars ++ text)) items)

/-- The condition on a plain character. -/
theorem head?_source_of_plain (h : Separated leading (.plain c :: items)) (hc : c = '$') :
    (source items).head? ≠ some '$' := by
  intro hhead
  obtain ⟨rest, hrest⟩ : ∃ rest, source items = '$' :: rest := by
    cases hsource : source items with
    | nil => rw [hsource] at hhead; cases hhead
    | cons d rest =>
      rw [hsource] at hhead
      cases hhead
      exact ⟨rest, rfl⟩
  refine h.1 (.inl ?_)
  rw [hc, hrest]
  exact ⟨rest, rfl⟩

theorem not_infix_of_quiet {P : List Char → Prop} (hP : ∀ t, dollars <+: t → P t)
    (h : Quiet P after body) : ¬dollars <:+: body := by
  induction body with
  | nil => decide
  | cons c body ih =>
    intro hfound
    rcases List.infix_cons_iff.mp hfound with hstart | hfound
    · exact h.1 (hP _ (hstart.trans (List.prefix_append (c :: body) after)))
    · exact ih h.2 hfound

/-- The body of a formula has no `$$`, -/
theorem Separated.not_infix_region (h : Separated leading (.region raw :: items)) :
    ¬dollars <:+: raw := not_infix_of_quiet (fun _ => .inl) h.1

theorem Separated.not_infix_pair (h : Separated leading (.pair kind body :: items)) :
    ¬dollars <:+: body := not_infix_of_quiet (fun _ => .inl) h.2.1

/-- and that of a region does not end with `$`. -/
theorem getLast?_of_quiet (h : Quiet Opens (dollars ++ after) body) :
    body.getLast? ≠ some '$' := by
  induction body with
  | nil => simp
  | cons c body ih =>
    rw [List.getLast?_cons]
    intro hlast
    cases hbody : body.getLast? with
    | none =>
      cases List.getLast?_eq_none_iff.mp hbody
      rw [List.getLast?_nil] at hlast
      cases hlast
      exact h.1 (.inl ⟨'$' :: after, rfl⟩)
    | some =>
      rw [hbody] at hlast
      exact ih h.2 (hbody.trans hlast)

/-! ### `reflowMathRegions` on separate formulas -/

variable {fuel : ℕ}

/-- The text and the output so far are read alike, whatever follows, and the next formula does not
come to stand behind a `$`; `leading` says that a line begins there in the output. -/
structure Level (before out : List Char) (leading : Bool) (items : List MathItem) : Prop where
  read : ∃ e waiting, (∀ t, content (before ++ t) = e ++ contentFrom waiting t) ∧
    (∀ t, content (out ++ t) = e ++ contentFrom waiting t) ∧
    (waiting = some '$' → (source items).head? ≠ some '$' ∧
      PairKind.inline.find (source items) = none)
  leading : items ≠ [] → lineLeading out = leading

theorem Separated.next {item : MathItem} (h : Separated leading (item :: items)) :
    Separated (item.leads leading) items := by
  cases item with
  | plain => exact h.2.2
  | region => exact h.2.2
  | pair => exact h.2.2.2
  | tail =>
    rw [h.1]
    trivial

theorem lineLeading_concat (text : List Char) (c : Char) :
    lineLeading (text ++ [c]) = if isBlank c then lineLeading text else decide (c = '\n') := by
  rw [lineLeading, List.reverse_append, List.reverse_singleton, List.singleton_append,
    List.dropWhile_cons, lineLeading]
  split_ifs <;> rfl

theorem lineLeading_newlines (text : List Char) : lineLeading (text ++ ['\n', '\n']) = true := by
  have hsplit : text ++ ['\n', '\n'] = (text ++ ['\n']) ++ ['\n'] := by simp
  rw [hsplit, lineLeading_concat]
  rfl

/-- A line begins behind a block. -/
theorem lineLeading_written (out raw : List Char) :
    lineLeading (out ++ written out raw) = (lineLeading out && opensBlock raw) := by
  rw [written]
  split_ifs with hblock
  · have hsplit : out ++ (padding out ++ "$$\n".toList ++ foldedBody raw ++ "\n$$\n\n".toList) =
        (out ++ padding out ++ "$$\n".toList ++ foldedBody raw ++ "\n$$".toList) ++
          ['\n', '\n'] := by simp
    rw [hsplit, lineLeading_newlines, hblock.1, hblock.2]
    rfl
  · have hsplit : out ++ (dollars ++ foldedBody raw ++ dollars) =
        (out ++ dollars ++ foldedBody raw ++ ['$']) ++ ['$'] := by simp [dollars]
    have hfalse : (lineLeading out && opensBlock raw) = false := by
      rw [← Bool.not_eq_true, Bool.and_eq_true]
      exact hblock
    rw [hsplit, lineLeading_concat, hfalse]
    rfl

theorem lineLeading_layout (h : Separated leading (item :: items)) (hitems : items ≠ []) :
    lineLeading (out ++ layout out [item]) = item.leads (lineLeading out) := by
  rcases item with c | raw | ⟨kind, body⟩ | text
  case plain => exact lineLeading_concat out c
  case region =>
    rw [layout, layout, List.append_nil, lineLeading_written]
    rfl
  case pair =>
    cases kind with
    | display =>
      rw [layout, layout, List.append_nil, ← List.append_assoc, ← List.append_assoc,
        lineLeading_newlines]
      rfl
    | inline =>
      rw [layout, layout, List.append_nil, lineLeading_written, opensBlock_trim, Bool.and_false]
      rfl
  case tail => exact absurd h.1 hitems

/-- The body of a formula. -/
def MathItem.body? : MathItem → Option (List Char)
  | .region raw => some raw
  | .pair _ body => some body
  | _ => none

/-- **A formula is laid out.** -/
theorem Level.laidOut {item : MathItem} (h : Level before out leading (item :: items))
    (hseparated : Separated leading (item :: items)) (hbody : item.body? = some body) :
    LaidOut body (layout out [item]) := by
  rcases item with c | raw | ⟨kind, body'⟩ | text
  case region =>
    cases hbody
    rw [layout, layout, List.append_nil]
    refine laidOut_written hseparated.not_infix_region fun hlast => ?_
    rw [h.leading (List.cons_ne_nil _ _)]
    exact hseparated.2.1 hlast
  case pair =>
    cases hbody
    have hfree := not_infix_trim hseparated.not_infix_pair
    cases kind with
    | display =>
      have hwritten : LaidOut ('\n' :: (trim body ++ ['\n']))
          (written (out ++ ['\n', '\n']) ('\n' :: (trim body ++ ['\n']))) :=
        laidOut_written (not_infix_cons_of_ne (by decide) (not_infix_concat (by decide) hfree))
          fun _ => ⟨lineLeading_newlines out, rfl⟩
      obtain ⟨u, raw', v, heq, hu, hv, hrest⟩ := hwritten.of_trim (trim_block body)
      refine ⟨['\n', '\n'] ++ u, raw', v ++ ['\n', '\n'], ?_, ?_, ?_, hrest⟩
      · rw [layout, layout, heq]
        simp
      · intro c hc
        exact (List.mem_append.mp hc).elim (by simp) (hu c)
      · intro c hc
        exact (List.mem_append.mp hc).elim (hv c) (by simp)
    | inline =>
      rw [layout, layout, List.append_nil]
      refine (laidOut_written hfree fun hlast => ?_).of_trim (trim_trim body)
      exact absurd ((getLast?_foldedBody_trim body).symm.trans hlast) (hseparated.2.2.1 rfl)
  all_goals cases hbody

theorem exists_contentFrom_append (waiting : Option Char) (text : List Char) : ∃ e next,
    ∀ t, contentFrom waiting (text ++ t) = e ++ contentFrom next t := by
  induction text generalizing waiting with
  | nil => exact ⟨[], waiting, fun _ => rfl⟩
  | cons c text ih =>
    obtain ⟨e, next, h⟩ := ih (step waiting c).2
    refine ⟨(step waiting c).1 ++ e, next, fun t => ?_⟩
    rw [List.cons_append, contentFrom_cons, h, List.append_assoc]

/-- A formula is read in the same way as what is written for it. -/
theorem Level.read_formula {item : MathItem} (h : Level before out leading (item :: items))
    (hseparated : Separated leading (item :: items)) (hbody : item.body? = some body) :
    ∃ e, (∀ t, content (before ++ source [item] ++ t) = e ++ contentFrom none t) ∧
      ∀ t, content (out ++ layout out [item] ++ t) = e ++ contentFrom none t := by
  have hlaid := h.laidOut hseparated hbody
  obtain ⟨⟨done, waiting, hbefore, hout, hnext⟩, -⟩ := h
  refine ⟨done ++ (waiting.toList ++ content body), fun t => ?_, fun t => ?_⟩
  · rw [List.append_assoc, hbefore, List.append_assoc, List.append_assoc]
    refine congrArg (done ++ ·) ?_
    rcases item with c | raw | ⟨kind, body'⟩ | text
    case region =>
      cases hbody
      have hself := laidOut_of_same ⟨body, body, rfl, Folds.refl body, rfl⟩ rfl
        hseparated.not_infix_region (getLast?_of_quiet hseparated.1)
      rw [← contentFrom_laidOut hself fun heq => absurd rfl (hnext heq).1]
      simp [source]
    case pair =>
      cases hbody
      have hpair : ∀ d e, isDelimiter '\\' d = true → isDelimiter '\\' e = true → _ :=
        fun _ _ hd he => contentFrom_pair hd he waiting body t
      cases kind with
      | display =>
        simpa [source, PairKind.opener, PairKind.closer] using hpair '[' ']' (by decide) (by decide)
      | inline =>
        simpa [source, PairKind.opener, PairKind.closer] using hpair '(' ')' (by decide) (by decide)
    all_goals cases hbody
  · rw [List.append_assoc, hout, List.append_assoc, List.append_assoc]
    refine congrArg (done ++ ·) (contentFrom_laidOut hlaid (fun heq => ?_) t)
    rcases item with c | raw | ⟨kind, body'⟩ | text
    case region => exact absurd rfl (hnext heq).1
    case pair =>
      cases kind with
      | display => simp [layout]
      | inline =>
        have hnone := (hnext heq).2
        rw [hseparated.1] at hnone
        cases hnone
    all_goals cases hbody

/-- Each item keeps the two level. -/
theorem Level.next {item : MathItem} (h : Level before out leading (item :: items))
    (hseparated : Separated leading (item :: items)) :
    Level (before ++ source [item]) (out ++ layout out [item]) (item.leads leading) items := by
  have hleading : items ≠ [] → lineLeading (out ++ layout out [item]) = item.leads leading := by
    intro hitems
    rw [lineLeading_layout hseparated hitems, h.leading (List.cons_ne_nil _ _)]
  refine ⟨?_, hleading⟩
  rcases item with c | raw | ⟨kind, body⟩ | text
  case plain =>
    obtain ⟨⟨e, waiting, hbefore, hout, -⟩, -⟩ := h
    refine ⟨e ++ (step waiting c).1, (step waiting c).2, fun t => ?_, fun t => ?_, fun hnext => ?_⟩
    · rw [List.append_assoc, hbefore, source, source, List.singleton_append, contentFrom_cons,
        List.append_assoc]
    · rw [List.append_assoc, hout, layout, layout, List.singleton_append, contentFrom_cons,
        List.append_assoc]
    · have hc := eq_of_step_snd hnext
      exact ⟨head?_source_of_plain hseparated hc, hseparated.2.1 hc⟩
  case tail =>
    obtain ⟨⟨e, waiting, hbefore, hout, -⟩, -⟩ := h
    obtain ⟨rfl, -⟩ := hseparated
    obtain ⟨e', next, hread⟩ := exists_contentFrom_append waiting (dollars ++ text)
    refine ⟨e ++ e', next, fun t => ?_, fun t => ?_, fun _ => ⟨by simp [source], rfl⟩⟩
    · rw [List.append_assoc, hbefore, source, source, List.append_nil, hread, List.append_assoc]
    · rw [List.append_assoc, hout, layout, layout, List.append_nil, hread, List.append_assoc]
  all_goals
    obtain ⟨e, hsource, hlayout⟩ := h.read_formula hseparated rfl
    exact ⟨e, none, hsource, hlayout, by simp⟩

end IChat.Frontend
