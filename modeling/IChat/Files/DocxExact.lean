import Mathlib.Data.List.Flatten
import IChat.Files.Docx

/-!
# When the text of a Word document is exact

What a reader of the document may see (`shown`) is what is in no deleted or moved element and in no
run that its own properties hide. `_parse_docx` reads a text by other rules:

* a paragraph is a child of the body, or is somewhere in a cell; below any other element of the
  body, such as a content control, nothing is read;
* a paragraph in a paragraph of a cell, as in a text box, is visited once for each of them, and the
  visit begins anew, so that what stands above it does not count;
* a run counts as hidden for a mark that is anywhere below it, and also for one that is switched
  off.

`docxReadable` follows the tree and says when these differences show: `parseDocx_exact_iff`.
-/

namespace IChat.Files

open Xml

/-! ### What a reader sees -/

/-- A `w:t` with a content. -/
def isText (e : Element) : Bool := e.name = "t" && hasContent e

/-- A property that is not switched off. -/
def isOn (mark : Element) : Bool :=
  !mark.attrib.any fun a => a.1.localName = "val" && a.2 ∈ ["0", "false", "off"]

/-- A run that its own properties hide. -/
def runIsHidden (run : Element) : Bool :=
  (childrenNamed "rPr" run).any fun properties =>
    properties.children.any fun mark =>
      mark.name ∈ ["vanish", "webHidden", "specVanish"] && isOn mark

/-- An element whose content is not to be seen. -/
def isBlocked (e : Element) : Bool := isDeleted e || (e.name = "r" && runIsHidden e)

mutual

/-- The elements of a tree of which neither themselves nor one above them is blocked. -/
def unblocked : Element → List Element
  | .mk id tag attrib text children =>
    let e := Element.mk id tag attrib text children
    if isBlocked e then [] else e :: unblockedAll children

def unblockedAll : List Element → List Element
  | [] => []
  | e :: es => unblocked e ++ unblockedAll es

end

/-- The texts of a tree that are to be seen. -/
def shown (e : Element) : List Element := (unblocked e).filter isText

/-- The texts of the body that are to be seen, where the body is not itself in a blocked element. -/
def shownIn (root body : Element) : List Element :=
  if (unblocked root).any fun e => e.id = body.id then shown body else []

/-! ### The condition -/

/-- The elements below which a paragraph is not read. -/
def stopsReading (e : Element) : Bool :=
  isDeleted e || (e.name = "r" && docxRunIsHidden e) || e.name ∈ ["t", "tab", "br", "cr"]

/-- Nothing is to be seen. -/
def blank (e : Element) : Bool := (shown e).isEmpty

mutual

/-- A paragraph would read nothing here. -/
def silent : Element → Bool
  | .mk id tag attrib text children =>
    let e := Element.mk id tag attrib text children
    if stopsReading e then !isText e else silentAll children

def silentAll : List Element → Bool
  | [] => true
  | e :: es => silent e && silentAll es

end

/-- The paragraphs of the tree would read nothing. -/
def mute (e : Element) : Bool := (allNamed "p" e).all silent

mutual

/-- A paragraph reads here what is to be seen. -/
def readable : Element → Bool
  | .mk id tag attrib text children =>
    let e := Element.mk id tag attrib text children
    isBlocked e || if stopsReading e then children.all blank else readableAll children

def readableAll : List Element → Bool
  | [] => true
  | e :: es => readable e && readableAll es

end

mutual

/-- The paragraphs in a tree read what is to be seen of it. -/
def cellReadable : Element → Bool
  | .mk id tag attrib text children =>
    let e := Element.mk id tag attrib text children
    if isBlocked e then mute e
    else if tag.localName = "p" then handoverAll children
    else !isText e && cellReadableAll children

def cellReadableAll : List Element → Bool
  | [] => true
  | e :: es => cellReadable e && cellReadableAll es

/-- A paragraph around the tree, and then the paragraphs in it, read what is to be seen. -/
def handover : Element → Bool
  | .mk id tag attrib text children =>
    let e := Element.mk id tag attrib text children
    if isBlocked e then mute e
    else if stopsReading e then cellReadableAll children
    else if tag.localName = "p" then silent e && cellReadableAll children
    else handoverAll children

/-- At most one of the trees is read by both: those before it by the paragraph around them, those
behind it by the paragraphs in them. -/
def handoverAll : List Element → Bool
  | [] => true
  | e :: es =>
    (readable e && mute e && handoverAll es) ||
      (handover e && silentAll es && cellReadableAll es)

end

/-- The rows and cells of a table. -/
def rowReadable (row : Element) : Bool :=
  row.children.all fun cell => if cell.name = "tc" then cellReadable cell else blank cell

def tableReadable (table : Element) : Bool :=
  table.children.all fun row => if row.name = "tr" then rowReadable row else blank row

def bodyReadable (body : Element) : Bool :=
  body.children.all fun child =>
    if child.name = "p" then readable child
    else if child.name = "tbl" then tableReadable child
    else blank child

mutual

/-- The text nodes that a paragraph comes to, with a content or not. -/
def textNodes : Element → ℕ
  | .mk id tag attrib text children =>
    let e := Element.mk id tag attrib text children
    if stopsReading e then (if tag.localName = "t" then 1 else 0) else textNodesAll children

def textNodesAll : List Element → ℕ
  | [] => 0
  | e :: es => textNodes e + textNodesAll es

end

/-- The text nodes of the body, each once for every visited paragraph that comes to it. -/
def bodyTextNodes (body : Element) : ℕ :=
  ((body.children.flatMap visitedParagraphs).map textNodes).sum

/-- The condition: a body that is to be seen is within the limit and readable, or has nothing to be
seen; of a body in a blocked element nothing is read. -/
def docxReadable (root body : Element) : Bool :=
  if (unblocked root).any fun e => e.id = body.id then
    if maxDocxNodes < bodyTextNodes body then blank body else bodyReadable body
  else
    decide (maxDocxNodes < bodyTextNodes body) ||
      (body.children.flatMap visitedParagraphs).all silent

/-! ### Equations -/

section trees

variable {e c : Element} {es : List Element}

theorem unblocked_eq (e : Element) :
    unblocked e = if isBlocked e then [] else e :: e.children.flatMap unblocked := by
  have hall : ∀ es, unblockedAll es = es.flatMap unblocked := by
    intro es
    induction es with
    | nil => rfl
    | cons e es ih => rw [unblockedAll, ih, List.flatMap_cons]
  cases e with
  | mk id tag attrib text children => rw [unblocked, hall, Element.children]

theorem silentAll_eq (es : List Element) : silentAll es = es.all silent := by
  induction es with
  | nil => rfl
  | cons e es ih => rw [silentAll, ih, List.all_cons]

theorem silent_eq (e : Element) :
    silent e = if stopsReading e then !isText e else e.children.all silent := by
  cases e with
  | mk id tag attrib text children => rw [silent, silentAll_eq, Element.children]

theorem readableAll_eq (es : List Element) : readableAll es = es.all readable := by
  induction es with
  | nil => rfl
  | cons e es ih => rw [readableAll, ih, List.all_cons]

theorem readable_eq (e : Element) : readable e =
    (isBlocked e || if stopsReading e then e.children.all blank else e.children.all readable) := by
  cases e with
  | mk id tag attrib text children => rw [readable, readableAll_eq, Element.children]

theorem cellReadableAll_eq (es : List Element) : cellReadableAll es = es.all cellReadable := by
  induction es with
  | nil => rfl
  | cons e es ih => rw [cellReadableAll, ih, List.all_cons]

theorem cellReadable_eq (e : Element) : cellReadable e =
    if isBlocked e then mute e
    else if e.name = "p" then handoverAll e.children
    else !isText e && e.children.all cellReadable := by
  cases e with
  | mk => rw [cellReadable, cellReadableAll_eq]; rfl

theorem handover_eq (e : Element) : handover e =
    if isBlocked e then mute e
    else if stopsReading e then e.children.all cellReadable
    else if e.name = "p" then silent e && e.children.all cellReadable
    else handoverAll e.children := by
  cases e with
  | mk => rw [handover, cellReadableAll_eq]; rfl

theorem textNodes_eq (e : Element) : textNodes e =
    if stopsReading e then (if e.name = "t" then 1 else 0)
    else (e.children.map textNodes).sum := by
  have hall : ∀ es, textNodesAll es = (es.map textNodes).sum := by
    intro es
    induction es with
    | nil => rfl
    | cons e es ih => rw [textNodesAll, ih, List.map_cons, List.sum_cons]
  cases e with
  | mk => rw [textNodes, hall]; rfl

/-! ### What is seen -/

theorem isText_name (h : isText e = true) : e.name = "t" := by
  rw [isText, Bool.and_eq_true] at h
  exact of_decide_eq_true h.1

theorem not_isText_of_name (h : e.name ≠ "t") : isText e = false :=
  Bool.eq_false_iff.mpr fun htext => h (isText_name htext)

/-- A hidden run has a mark below it. -/
theorem docxRunIsHidden_of_runIsHidden (h : runIsHidden e = true) : docxRunIsHidden e = true := by
  rw [runIsHidden, List.any_eq_true] at h
  obtain ⟨properties, hproperties, hmark⟩ := h
  rw [List.any_eq_true] at hmark
  obtain ⟨mark, hmem, hmark⟩ := hmark
  rw [Bool.and_eq_true] at hmark
  rw [docxRunIsHidden, List.any_eq_true]
  have hbelow : mark ∈ properties.iter := Element.mem_iter_of_mem hmem Element.self_mem_iter
  exact ⟨mark, Element.mem_iter_of_mem (List.mem_filter.mp hproperties).1 hbelow, hmark.1⟩

theorem stopsReading_of_isBlocked (h : isBlocked e = true) : stopsReading e = true := by
  rw [isBlocked, Bool.or_eq_true, Bool.and_eq_true] at h
  rcases h with hdeleted | ⟨hr, hhidden⟩
  · rw [stopsReading, hdeleted]
    rfl
  · rw [stopsReading, hr, docxRunIsHidden_of_runIsHidden hhidden]
    simp

/-- A blocked element is no text. -/
theorem isText_of_isBlocked (h : isBlocked e = true) : isText e = false := by
  refine not_isText_of_name fun hname => ?_
  rw [isBlocked, isDeleted, hname] at h
  simp at h

theorem stopsReading_of_isText (h : isText e = true) : stopsReading e = true := by
  rw [stopsReading, isText_name h]
  simp

theorem not_stopsReading_of_name (h : e.name = "p") : stopsReading e = false := by
  rw [stopsReading, isDeleted, h]
  simp

theorem shown_of_isBlocked (h : isBlocked e = true) : shown e = [] := by
  rw [shown, unblocked_eq, if_pos h]
  rfl

theorem shown_eq (h : isBlocked e = false) :
    shown e = (if isText e then [e] else []) ++ e.children.flatMap shown := by
  have hflat : (e.children.flatMap unblocked).filter isText = e.children.flatMap shown :=
    List.filter_flatMap ..
  rw [shown, unblocked_eq, if_neg (by rw [h]; exact Bool.false_ne_true), List.filter_cons, hflat]
  split_ifs <;> rfl

theorem shown_eq_flatMap (h : isBlocked e = false) (ht : isText e = false) :
    shown e = e.children.flatMap shown := by
  rw [shown_eq h, ht]
  rfl

/-- An element that is neither blocked nor a text, whatever is in it. -/
theorem shown_of_name (h : e.name ∉ ["del", "moveFrom", "r", "t"]) :
    shown e = e.children.flatMap shown := by
  simp only [List.mem_cons, List.not_mem_nil, or_false, not_or] at h
  refine shown_eq_flatMap ?_ (not_isText_of_name h.2.2.2)
  rw [isBlocked, isDeleted]
  simp [h.1, h.2.1, h.2.2.1]

/-- What is seen of a tree is in it. -/
theorem mem_iter_of_mem_shown {x : Element} (h : x ∈ shown e) : x ∈ e.iter := by
  have hunblocked : ∀ e : Element, ∀ x ∈ unblocked e, x ∈ e.iter := by
    intro e
    induction e using Element.rec_children with
    | h e ih =>
      intro x hx
      rw [unblocked_eq] at hx
      split_ifs at hx with hblocked
      · exact absurd hx List.not_mem_nil
      · rcases List.mem_cons.mp hx with rfl | hx
        · exact Element.self_mem_iter
        · obtain ⟨c, hc, hxc⟩ := List.mem_flatMap.mp hx
          exact Element.mem_iter_of_mem hc (ih c hc x hxc)
  exact hunblocked e x (List.mem_of_mem_filter h)

theorem blank_iff : blank e = true ↔ shown e = [] := List.isEmpty_iff

/-! ### What is read -/

/-- The texts with a content that a paragraph reads in a tree. -/
def readBy (e : Element) : List Element := (elementsOf (docxParts e)).filter hasContent

/-- The texts with a content that the paragraphs in a tree read. -/
def readWithin (e : Element) : List Element := (allNamed "p" e).flatMap readBy

theorem elementsOf_flatMap (es : List Element) (f : Element → List DocxPart) :
    elementsOf (es.flatMap f) = es.flatMap fun e => elementsOf (f e) := List.filterMap_flatMap

theorem visit_eq (hidden deleted : Bool) (e : Element) : visit hidden deleted e =
    if (deleted || isDeleted e) = false ∧ (hidden || (e.name = "r" && docxRunIsHidden e)) = false
      then
      if e.name = "t" then [.text e]
      else if e.name = "tab" then [.tab]
      else if e.name ∈ ["br", "cr"] then [.newline]
      else e.children.flatMap (visit false false)
    else e.children.flatMap
      (visit (hidden || (e.name = "r" && docxRunIsHidden e)) (deleted || isDeleted e)) := by
  have hall : ∀ hidden deleted es, visitAll hidden deleted es =
    es.flatMap (visit hidden deleted) := by
    intro hidden deleted es
    induction es with
    | nil => rfl
    | cons e es ih => rw [visitAll, ih, List.flatMap_cons]
  generalize hd : (deleted || isDeleted e) = nodeDeleted
  generalize hh : (hidden || (decide (e.name = "r") && docxRunIsHidden e)) = nodeHidden
  cases e with
  | mk id tag attrib text children =>
    have hh : (hidden || (decide (tag.localName = "r") &&
      docxRunIsHidden (.mk id tag attrib text children))) = nodeHidden := hh
    rw [visit]
    dsimp only [Element.name, Element.tag, Element.children]
    rw [hall, hd, hh]
    by_cases hlive : nodeDeleted = false ∧ nodeHidden = false
    · rw [if_pos hlive]
      obtain ⟨rfl, rfl⟩ := hlive
      simp only [and_true]
      rfl
    · have hnot : ∀ p : Prop, ¬(p ∧ nodeDeleted = false ∧ nodeHidden = false) :=
        fun p h => hlive h.2
      rw [if_neg hlive, if_neg (hnot _), if_neg (hnot _), if_neg (hnot _)]

/-- In a deleted element or a hidden run nothing is read. -/
theorem elementsOf_visit_of_gone {hidden deleted : Bool} (h : hidden = true ∨ deleted = true)
    (e : Element) : elementsOf (visit hidden deleted e) = [] := by
  induction e using Element.rec_children generalizing hidden deleted with
  | h e ih =>
    rw [visit_eq, if_neg, elementsOf_flatMap]
    · refine List.flatMap_eq_nil_iff.mpr fun c hc => ih c hc ?_
      exact h.imp (fun hhidden => by rw [hhidden, Bool.true_or]) fun hdeleted => by
        rw [hdeleted, Bool.true_or]
    · rintro ⟨hlive, hvisible⟩
      rw [Bool.or_eq_false_iff] at hlive hvisible
      rcases h with hhidden | hdeleted
      · exact Bool.false_ne_true (hvisible.1.symm.trans hhidden)
      · exact Bool.false_ne_true (hlive.1.symm.trans hdeleted)

/-- What a paragraph reads: nothing below the elements where it stops. -/
theorem elementsOf_docxParts (e : Element) : elementsOf (docxParts e) =
    if stopsReading e then (if e.name = "t" then [e] else [])
    else e.children.flatMap fun c => elementsOf (docxParts c) := by
  rw [docxParts, visit_eq, Bool.false_or, Bool.false_or]
  by_cases hgone : (isDeleted e || (e.name = "r" && docxRunIsHidden e)) = true
  · have hstops : stopsReading e = true := by rw [stopsReading, hgone, Bool.true_or]
    have hname : e.name ≠ "t" := by
      intro hname
      rw [isDeleted, hname] at hgone
      simp at hgone
    rw [Bool.or_eq_true] at hgone
    rw [if_neg, elementsOf_flatMap, if_pos hstops, if_neg hname]
    · exact List.flatMap_eq_nil_iff.mpr fun c _ => elementsOf_visit_of_gone hgone.symm c
    · rintro ⟨hlive, hvisible⟩
      rcases hgone with hdeleted | hhidden
      · exact Bool.false_ne_true (hlive.symm.trans hdeleted)
      · exact Bool.false_ne_true (hvisible.symm.trans hhidden)
  · rw [Bool.not_eq_true] at hgone
    have hstops : stopsReading e = decide (e.name ∈ ["t", "tab", "br", "cr"]) := by
      rw [stopsReading, hgone, Bool.false_or]
    rw [if_pos (Bool.or_eq_false_iff.mp hgone), hstops]
    by_cases ht : e.name = "t"
    · rw [if_pos ht, if_pos (by simp [ht]), if_pos ht]
      rfl
    · rw [if_neg ht, if_neg ht]
      by_cases htab : e.name = "tab"
      · rw [if_pos htab, if_pos (by simp [htab])]
        rfl
      · rw [if_neg htab]
        by_cases hbr : e.name ∈ ["br", "cr"]
        · rw [if_pos hbr, if_pos (by simp at hbr ⊢; tauto)]
          rfl
        · rw [if_neg hbr, if_neg (by simp at hbr ⊢; tauto), elementsOf_flatMap]
          rfl

theorem readBy_eq (e : Element) : readBy e =
    if stopsReading e then (if isText e then [e] else []) else e.children.flatMap readBy := by
  rw [readBy, elementsOf_docxParts]
  split_ifs with hstops hname htext htext
  · rw [isText, Bool.and_eq_true] at htext
    rw [List.filter_cons, if_pos htext.2]
    rfl
  · rw [isText, Bool.and_eq_true, decide_eq_true_eq] at htext
    rw [List.filter_cons, if_neg fun hcontent => htext ⟨hname, hcontent⟩]
    rfl
  · exact absurd (isText_name htext) hname
  · rfl
  · exact List.filter_flatMap ..

theorem readBy_of_isBlocked (h : isBlocked e = true) : readBy e = [] := by
  rw [readBy_eq, if_pos (stopsReading_of_isBlocked h), isText_of_isBlocked h]
  rfl

theorem mem_iter_of_mem_readBy {x : Element} (h : x ∈ readBy e) : x ∈ e.iter := by
  induction e using Element.rec_children with
  | h e ih =>
    rw [readBy_eq] at h
    split_ifs at h with hstops htext
    · rw [List.mem_singleton.mp h]
      exact Element.self_mem_iter
    · exact absurd h List.not_mem_nil
    · obtain ⟨c, hc, hxc⟩ := List.mem_flatMap.mp h
      exact Element.mem_iter_of_mem hc (ih c hc hxc)

/-- The paragraphs in a tree: the tree itself, and those in its children. -/
theorem readWithin_eq (e : Element) : readWithin e =
    (if e.name = "p" then readBy e else []) ++ e.children.flatMap readWithin := by
  have hflat : e.children.flatMap readWithin =
      ((e.children.flatMap Element.iter).filter fun c => c.name = "p").flatMap readBy := by
    rw [List.filter_flatMap, List.flatMap_assoc]
    rfl
  rw [readWithin, allNamed, Element.iter_eq, List.filter_cons, hflat]
  split_ifs with hcons hp hp
  · rfl
  · exact absurd (of_decide_eq_true hcons) hp
  · exact absurd (decide_eq_true hp) hcons
  · rfl

theorem readWithin_eq_flatMap (h : e.name ≠ "p") :
    readWithin e = e.children.flatMap readWithin := by
  rw [readWithin_eq, if_neg h, List.nil_append]

theorem mem_iter_of_mem_readWithin {x : Element} (h : x ∈ readWithin e) : x ∈ e.iter := by
  obtain ⟨p, hp, hx⟩ := List.mem_flatMap.mp h
  exact Element.mem_iter_trans (List.mem_of_mem_filter hp) (mem_iter_of_mem_readBy hx)

/-! ### The condition is exact -/

theorem silent_iff : silent e = true ↔ readBy e = [] := by
  induction e using Element.rec_children with
  | h e ih =>
    rw [silent_eq, readBy_eq]
    split_ifs with hstops htext
    · rw [htext]
      exact iff_of_false Bool.false_ne_true not_false
    · rw [Bool.not_eq_true] at htext
      rw [htext]
      exact iff_of_true rfl rfl
    · rw [List.all_eq_true, List.flatMap_eq_nil_iff]
      exact forall₂_congr ih

theorem mute_iff : mute e = true ↔ readWithin e = [] := by
  rw [mute, readWithin, List.all_eq_true, List.flatMap_eq_nil_iff]
  exact forall₂_congr fun p _ => silent_iff

/-- A paragraph reads exactly what is seen. -/
theorem readable_iff (h : e.Distinct) : readable e = true ↔ readBy e = shown e := by
  induction e using Element.rec_children with
  | h e ih =>
    rw [readable_eq, Bool.or_eq_true]
    by_cases hblocked : isBlocked e = true
    · rw [shown_of_isBlocked hblocked, readBy_of_isBlocked hblocked]
      exact iff_of_true (.inl hblocked) rfl
    rw [Bool.not_eq_true] at hblocked
    rw [hblocked, readBy_eq, shown_eq hblocked, or_iff_right Bool.false_ne_true]
    by_cases hstops : stopsReading e = true
    · rw [if_pos hstops, if_pos hstops, List.self_eq_append_right, List.flatMap_eq_nil_iff,
        List.all_eq_true]
      exact forall₂_congr fun c _ => blank_iff
    · have htext : isText e = false :=
        Bool.eq_false_iff.mpr fun htext => hstops (stopsReading_of_isText htext)
      rw [if_neg hstops, if_neg hstops, htext, List.all_eq_true]
      refine Iff.trans (forall₂_congr fun c hc => ih c hc (h.child hc)) ?_
      exact (h.flatMap_eq_iff (fun c _ x => mem_iter_of_mem_readBy)
        fun c _ x => mem_iter_of_mem_shown).symm

/-- What is seen is seen once. -/
theorem nodup_shown (h : e.Distinct) : (shown e).Nodup := by
  have hsublist : ∀ e : Element, List.Sublist (unblocked e) e.iter := by
    intro e
    induction e using Element.rec_children with
    | h e ih =>
      rw [unblocked_eq, Element.iter_eq]
      split_ifs with hblocked
      · exact List.nil_sublist _
      · exact (List.Sublist.flatMap_right _ ih).cons_cons e
  exact (h.of_map _).sublist ((List.filter_sublist).trans (hsublist e))

/-- The lists of trees that a paragraph in a cell is followed through: `h` and `h'` are the same for
each of the trees. -/
theorem handoverAll_iff {es : List Element}
    (hdisjoint : es.Pairwise fun c d => ∀ x ∈ c.iter, ∀ y ∈ d.iter, x.id ≠ y.id)
    (hdistinct : ∀ c ∈ es, c.Distinct)
    (h : ∀ c ∈ es, (cellReadable c = true ↔ readWithin c = shown c))
    (h' : ∀ c ∈ es, (handover c = true ↔ readBy c ++ readWithin c = shown c)) :
    handoverAll es = true ↔
      es.flatMap readBy ++ es.flatMap readWithin = es.flatMap shown := by
  induction es with
  | nil => exact iff_of_true rfl rfl
  | cons c es ih =>
    obtain ⟨hhead, htail⟩ := List.pairwise_cons.mp hdisjoint
    have hmem : ∀ d ∈ es, d ∈ c :: es := fun d hd => List.mem_cons_of_mem c hd
    have hrest : es.all cellReadable = true ↔ es.flatMap readWithin = es.flatMap shown := by
      rw [List.all_eq_true]
      refine Iff.trans (forall₂_congr fun d hd => h d (hmem d hd)) ?_
      exact (List.flatMap_eq_flatMap_iff (htail.imp fun hcd x hx hx' => hcd x hx x hx' rfl)
        (fun d _ x => mem_iter_of_mem_readWithin) fun d _ x => mem_iter_of_mem_shown).symm
    have hsilent : es.all silent = true ↔ es.flatMap readBy = [] := by
      rw [List.all_eq_true, List.flatMap_eq_nil_iff]
      exact forall₂_congr fun d _ => silent_iff
    -- what is below `c` is told apart from what is below the trees behind it
    have hout : ∀ f : Element → List Element, (∀ d ∈ es, ∀ x ∈ f d, x ∈ d.iter) →
        ∀ x ∈ es.flatMap f, x ∉ c.iter := by
      intro f hf x hx hxc
      obtain ⟨d, hd, hxd⟩ := List.mem_flatMap.mp hx
      exact hhead d hd x hxc x (hf d hd x hxd) rfl
    rw [handoverAll, Bool.or_eq_true, Bool.and_eq_true, Bool.and_eq_true, Bool.and_eq_true,
      Bool.and_eq_true, silentAll_eq, cellReadableAll_eq, hrest, hsilent,
      readable_iff (hdistinct c List.mem_cons_self), mute_iff, h' c List.mem_cons_self,
      ih htail (fun d hd => hdistinct d (hmem d hd)) (fun d hd => h d (hmem d hd))
        fun d hd => h' d (hmem d hd),
      List.flatMap_cons, List.flatMap_cons, List.flatMap_cons,
      List.interleave_eq_iff (p := (· ∈ c.iter)) (fun x => mem_iter_of_mem_readBy)
        (fun x => mem_iter_of_mem_readWithin) (fun x => mem_iter_of_mem_shown)
        (hout readBy fun d _ x => mem_iter_of_mem_readBy)
        (hout readWithin fun d _ x => mem_iter_of_mem_readWithin)
        (hout shown fun d _ x => mem_iter_of_mem_shown)]
    tauto

/-- The paragraphs in a tree, without and with a paragraph around it, read exactly what is seen. -/
theorem cellReadable_iff_and_handover_iff (h : e.Distinct) :
    (cellReadable e = true ↔ readWithin e = shown e) ∧
      (handover e = true ↔ readBy e ++ readWithin e = shown e) := by
  induction e using Element.rec_children with
  | h e ih =>
    have hchildren : e.children.all cellReadable = true ↔
        e.children.flatMap readWithin = e.children.flatMap shown := by
      rw [List.all_eq_true]
      refine Iff.trans (forall₂_congr fun c hc => (ih c hc (h.child hc)).1) ?_
      exact (h.flatMap_eq_iff (fun c _ x => mem_iter_of_mem_readWithin)
        fun c _ x => mem_iter_of_mem_shown).symm
    have hhandover : handoverAll e.children = true ↔ e.children.flatMap readBy ++
        e.children.flatMap readWithin = e.children.flatMap shown :=
      handoverAll_iff (Element.distinct_iff.mp h).2 (fun c hc => h.child hc)
        (fun c hc => (ih c hc (h.child hc)).1) fun c hc => (ih c hc (h.child hc)).2
    rw [cellReadable_eq, handover_eq]
    by_cases hblocked : isBlocked e = true
    · rw [if_pos hblocked, if_pos hblocked, mute_iff, shown_of_isBlocked hblocked,
        readBy_of_isBlocked hblocked]
      exact ⟨Iff.rfl, Iff.rfl⟩
    rw [if_neg hblocked, if_neg hblocked]
    rw [Bool.not_eq_true] at hblocked
    by_cases hp : e.name = "p"
    · -- a paragraph: around it, its texts would be read twice
      have hstops := not_stopsReading_of_name hp
      have htext : isText e = false := not_isText_of_name fun ht => by simp [hp] at ht
      have hread : readBy e = e.children.flatMap readBy := by
        rw [readBy_eq, hstops, if_neg Bool.false_ne_true]
      have hwithin : readWithin e = readBy e ++ e.children.flatMap readWithin := by
        rw [readWithin_eq, if_pos hp]
      rw [if_pos hp, if_neg (by rw [hstops]; exact Bool.false_ne_true), if_pos hp, hwithin,
        Bool.and_eq_true, silent_iff, hchildren, ← shown_eq_flatMap hblocked htext]
      refine ⟨?_, ?_, ?_⟩
      · rw [hhandover, hread, ← shown_eq_flatMap hblocked htext]
      · rintro ⟨hsilent, hrest⟩
        rw [hsilent, List.nil_append, List.nil_append, hrest]
      · intro hboth
        have hnodup := nodup_shown h
        rw [← hboth, List.nodup_append] at hnodup
        have hsilent : readBy e = [] := by
          refine List.eq_nil_iff_forall_not_mem.mpr fun x hx => ?_
          exact hnodup.2.2 x hx x (List.mem_append_left _ hx) rfl
        refine ⟨hsilent, ?_⟩
        rwa [hsilent, List.nil_append, List.nil_append] at hboth
    · rw [if_neg hp, if_neg hp, readWithin_eq_flatMap hp, Bool.and_eq_true, hchildren,
        Bool.not_eq_true', readBy_eq, shown_eq hblocked]
      constructor
      · -- a text that is in no paragraph is not read at all
        by_cases htext : isText e = true
        · rw [if_pos htext, htext]
          refine iff_of_false (fun hfalse => Bool.false_ne_true hfalse.1.symm) fun heq => ?_
          have hmem : e ∈ e.children.flatMap readWithin := by
            rw [heq]
            exact List.mem_cons_self
          obtain ⟨c, hc, hec⟩ := List.mem_flatMap.mp hmem
          exact ((Element.distinct_iff.mp h).1 c hc).2 e (mem_iter_of_mem_readWithin hec) rfl
        · rw [Bool.not_eq_true] at htext
          rw [htext]
          exact and_iff_right rfl
      · by_cases hstops : stopsReading e = true
        · rw [if_pos hstops, if_pos hstops, List.append_cancel_left_eq, hchildren]
        · have htext : isText e = false :=
            Bool.eq_false_iff.mpr fun htext => hstops (stopsReading_of_isText htext)
          rw [if_neg hstops, if_neg hstops, htext, hhandover]
          rfl

theorem cellReadable_iff (h : e.Distinct) :
    cellReadable e = true ↔ readWithin e = shown e := (cellReadable_iff_and_handover_iff h).1

/-! ### Tables and the body -/

/-- What is collected below the children that are picked. -/
theorem flatMap_filter {α β : Type} (l : List α) (p : α → Bool) (f : α → List β) :
    (l.filter p).flatMap f = l.flatMap fun a => if p a then f a else [] := by
  induction l with
  | nil => rfl
  | cons a l ih =>
    rw [List.filter_cons, List.flatMap_cons, ← ih]
    split_ifs
    · rfl
    · rfl

/-- The texts that are read in a row. -/
def readInRow (row : Element) : List Element := (childrenNamed "tc" row).flatMap readWithin

/-- The texts that are read in a table. -/
def readInTable (table : Element) : List Element := (childrenNamed "tr" table).flatMap readInRow

/-- The texts that are read in a child of the body. -/
def readInChild (child : Element) : List Element :=
  if child.name = "p" then readBy child
  else if child.name = "tbl" then readInTable child
  else []

theorem mem_iter_of_mem_childrenNamed {name : String} {f : Element → List Element} {x : Element}
    (hf : ∀ c, ∀ x ∈ f c, x ∈ c.iter) (h : x ∈ (childrenNamed name e).flatMap f) : x ∈ e.iter := by
  obtain ⟨c, hc, hx⟩ := List.mem_flatMap.mp h
  exact Element.mem_iter_of_mem (List.mem_of_mem_filter hc) (hf c x hx)

theorem mem_iter_of_mem_readInRow {x : Element} (h : x ∈ readInRow e) : x ∈ e.iter :=
  mem_iter_of_mem_childrenNamed (fun _ _ => mem_iter_of_mem_readWithin) h

theorem mem_iter_of_mem_readInTable {x : Element} (h : x ∈ readInTable e) : x ∈ e.iter :=
  mem_iter_of_mem_childrenNamed (fun _ _ => mem_iter_of_mem_readInRow) h

/-- An element that is neither blocked nor a text, of whose children those with a name are read. -/
theorem childrenNamed_iff {name : String} {f : Element → List Element} {test : Element → Bool}
    (h : e.Distinct) (hname : e.name ∉ ["del", "moveFrom", "r", "t"])
    (hf : ∀ c, ∀ x ∈ f c, x ∈ c.iter)
    (htest : ∀ c ∈ e.children, c.name = name → (test c = true ↔ f c = shown c)) :
    (e.children.all fun c => if c.name = name then test c else blank c) = true ↔
      (childrenNamed name e).flatMap f = shown e := by
  have hshown : shown e = e.children.flatMap shown := shown_of_name hname
  have hread : ∀ c ∈ e.children, ∀ x ∈ (if decide (c.name = name) then f c else []),
    x ∈ c.iter := by
    intro c _ x hx
    split_ifs at hx
    · exact hf c x hx
    · exact absurd hx List.not_mem_nil
  rw [hshown, childrenNamed, flatMap_filter, List.all_eq_true,
    h.flatMap_eq_iff hread fun c _ x => mem_iter_of_mem_shown]
  refine forall₂_congr fun c hc => ?_
  by_cases hc' : c.name = name
  · rw [if_pos hc', if_pos (decide_eq_true hc')]
    exact htest c hc hc'
  · rw [if_neg hc', if_neg (by simpa using hc'), blank_iff]
    exact eq_comm

theorem rowReadable_iff (h : e.Distinct) (hname : e.name = "tr") :
    rowReadable e = true ↔ readInRow e = shown e :=
  childrenNamed_iff h (by simp [hname]) (fun _ _ => mem_iter_of_mem_readWithin)
    fun _ hc _ => cellReadable_iff (h.child hc)

theorem tableReadable_iff (h : e.Distinct) (hname : e.name = "tbl") :
    tableReadable e = true ↔ readInTable e = shown e :=
  childrenNamed_iff h (by simp [hname]) (fun _ _ => mem_iter_of_mem_readInRow)
    fun _ hc hrow => rowReadable_iff (h.child hc) hrow

theorem mem_iter_of_mem_readInChild {x : Element} (h : x ∈ readInChild e) : x ∈ e.iter := by
  rw [readInChild] at h
  split_ifs at h
  · exact mem_iter_of_mem_readBy h
  · exact mem_iter_of_mem_readInTable h
  · exact absurd h List.not_mem_nil

theorem bodyReadable_iff (h : e.Distinct) (hname : e.name = "body") :
    bodyReadable e = true ↔ e.children.flatMap readInChild = shown e := by
  rw [shown_of_name (by simp [hname]), bodyReadable, List.all_eq_true,
    h.flatMap_eq_iff (fun c _ x => mem_iter_of_mem_readInChild) fun c _ x => mem_iter_of_mem_shown]
  refine forall₂_congr fun c hc => ?_
  rw [readInChild]
  split_ifs with hp htbl
  · exact readable_iff (h.child hc)
  · exact tableReadable_iff (h.child hc) htbl
  · exact blank_iff.trans eq_comm

/-- The texts that the visited paragraphs of a child of the body read. -/
theorem visitedParagraphs_flatMap (child : Element) :
    (visitedParagraphs child).flatMap readBy = readInChild child := by
  rw [visitedParagraphs, readInChild]
  split_ifs with hp htbl
  · exact List.flatMap_singleton ..
  · rw [List.flatMap_assoc, List.flatMap_assoc]
    rfl
  · rfl

theorem readIn_filter (children : List Element) :
    (readIn children).filter hasContent = children.flatMap readInChild := by
  have hread : (readIn children).filter hasContent =
      (children.flatMap visitedParagraphs).flatMap readBy := List.filter_flatMap ..
  rw [hread, List.flatMap_assoc]
  exact List.flatMap_congr fun child _ => visitedParagraphs_flatMap child

/-! ### The limit -/

theorem length_docxParts (e : Element) : (elementsOf (docxParts e)).length = textNodes e := by
  induction e using Element.rec_children with
  | h e ih =>
    rw [elementsOf_docxParts, textNodes_eq]
    split_ifs with hstops hname
    · rfl
    · rfl
    · rw [List.length_flatMap]
      exact congrArg List.sum (List.map_congr_left ih)

theorem docxBlock_count (child : Element) :
    (docxBlock child).2 = ((visitedParagraphs child).map textNodes).sum := by
  rw [docxBlock, visitedParagraphs]
  split_ifs with hp htbl
  · exact (length_docxParts child).trans (Nat.add_zero _).symm
  · exact congrArg List.sum (List.map_congr_left fun p _ => length_docxParts p)
  · rfl

/-- The loop ends early exactly if the nodes of all children are more than the limit. -/
theorem docxBlocks_limited (children : List Element) (blocks : List (List Char)) {count : ℕ}
    (h : count ≤ maxDocxNodes) : (docxBlocks children blocks count).2.2 = true ↔
      maxDocxNodes < count + ((children.flatMap visitedParagraphs).map textNodes).sum := by
  induction children generalizing blocks count with
  | nil => exact iff_of_false Bool.false_ne_true (Nat.not_lt.mpr h)
  | cons child rest ih =>
    rw [docxBlocks, List.flatMap_cons, List.map_append, List.sum_append, ← docxBlock_count]
    dsimp only
    split_ifs with hlimit
    · exact iff_of_true rfl (by omega)
    · rw [ih _ (Nat.le_of_not_lt hlimit), Nat.add_assoc]

theorem limited_iff (body : Element) :
    (docxBlocks body.children [] 0).2.2 = true ↔ maxDocxNodes < bodyTextNodes body := by
  rw [docxBlocks_limited body.children [] (Nat.zero_le _), Nat.zero_add, bodyTextNodes]

end trees

/-! ### The result -/

/-- A text with a content is read exactly once, and in its place, if it is to be seen, and is not
read otherwise. -/
def ReadsExactly (root body : Element) : Prop :=
  (readElements body).filter hasContent = shownIn root body

/-- **Exactness**: the texts of the body that are to be seen are extracted, each once and in order,
and no other, exactly if the tree is readable. -/
theorem parseDocx_exact_iff {package : OoxmlArchive} {document : Document} {body : Element}
    (hread : package.readXml "word/document.xml" = .ok document)
    (hbody : docxBody document.root = some body) : ∃ result, parseDocx package = .ok result ∧
      squash (result.text.getD []) = contentsOf (readElements body) ∧
      (ReadsExactly document.root body ↔ docxReadable document.root body = true) := by
  obtain ⟨result, hresult, htext⟩ := squash_docxText hread hbody
  refine ⟨result, hresult, htext, ?_⟩
  have hname : body.name = "body" := by simpa using List.find?_some hbody
  have hdistinct : body.Distinct := document.distinct.of_mem_iter (List.mem_of_find?_eq_some hbody)
  have hall : (body.children.flatMap visitedParagraphs).all silent = true ↔
      body.children.flatMap readInChild = [] := by
    rw [← readIn_filter, readIn, List.filter_flatMap, List.all_eq_true, List.flatMap_eq_nil_iff]
    exact forall₂_congr fun p _ => silent_iff
  rw [ReadsExactly, readElements, shownIn, docxReadable]
  by_cases hlimit : maxDocxNodes < bodyTextNodes body
  · rw [if_pos ((limited_iff body).mpr hlimit), if_pos hlimit, decide_eq_true hlimit, Bool.true_or]
    split_ifs
    · exact eq_comm.trans blank_iff.symm
    · exact iff_of_true rfl rfl
  · rw [if_neg (mt (limited_iff body).mp hlimit), if_neg hlimit, decide_eq_false hlimit,
      Bool.false_or, readIn_filter]
    split_ifs
    · exact (bodyReadable_iff hdistinct hname).symm
    · exact hall.symm

/-! ### Two documents -/

/-- An element without attributes and text. -/
def wordElement (id : ℕ) (name : String) (children : List Element) : Element :=
  .mk id ⟨"http://schemas.openxmlformats.org/wordprocessingml/2006/main", name⟩ [] none children

/-- A `w:r` that holds a `w:t`. -/
def wordRun (id : ℕ) (text : String) : Element :=
  wordElement id "r" [.mk (id + 1)
    ⟨"http://schemas.openxmlformats.org/wordprocessingml/2006/main", "t"⟩ [] (some text) []]

/-- A package whose only part is a document with these children of the body. -/
def wordPackage (document : Document) : OoxmlArchive :=
  ⟨["word/document.xml"], [], fun _ => .ok document⟩

theorem parseDocx_exact_iff_greeting :
    let body := wordElement 1 "body" [wordElement 2 "p" [wordRun 3 "Hello"]]
    let document : Document := ⟨wordElement 0 "document" [body], by
      unfold Element.Distinct
      decide⟩
    ∃ result, parseDocx (wordPackage document) = .ok result ∧
      squash (result.text.getD []) = contentsOf (readElements body) ∧
      (ReadsExactly document.root body ↔ docxReadable document.root body = true) :=
  parseDocx_exact_iff rfl rfl

/-- A cell with a deleted run in which a text box stands. -/
def deletedBoxBody : Element :=
  let box := wordElement 8 "txbxContent" [wordElement 9 "p" [wordRun 10 "gone"]]
  let paragraph := wordElement 5 "p" [wordElement 6 "del" [wordElement 7 "r" [box]]]
  wordElement 1 "body"
    [wordElement 2 "tbl" [wordElement 3 "tr" [wordElement 4 "tc" [paragraph]]]]

/-- The text of the box is not to be seen, and is extracted. -/
theorem parseDocx_leaks : ∃ (package : OoxmlArchive) (document : Document) (body : Element)
    (result : ProcessedFile), package.readXml "word/document.xml" = .ok document ∧
      docxBody document.root = some body ∧ (allNamed "t" body).length ≤ maxDocxNodes ∧
      parseDocx package = .ok result ∧ shownIn document.root body = [] ∧
      result.text = some "| gone |".toList ∧ ¬ReadsExactly document.root body := by
  have hdistinct : (wordElement 0 "document" [deletedBoxBody]).Distinct := by
    unfold Element.Distinct
    decide
  have hlimit : (allNamed "t" deletedBoxBody).length ≤ maxDocxNodes := by decide
  have hparse : ∃ result, parseDocx (wordPackage ⟨_, hdistinct⟩) = .ok result ∧
      result.text = some "| gone |".toList := ⟨_, rfl, rfl⟩
  have hshown : shownIn (wordElement 0 "document" [deletedBoxBody]) deletedBoxBody = [] := rfl
  have hread : ((readElements deletedBoxBody).filter hasContent).length = 1 := by decide
  obtain ⟨result, hresult, htext⟩ := hparse
  refine ⟨_, ⟨_, hdistinct⟩, deletedBoxBody, result, rfl, rfl, hlimit, hresult, hshown, htext, ?_⟩
  intro hexact
  rw [hexact, hshown] at hread
  exact absurd hread (by decide)

end IChat.Files
