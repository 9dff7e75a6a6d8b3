import IChat.Files.Pptx
import IChat.Files.PptxShown

/-!
# When the text of a presentation is exact

`_parse_pptx` looks for the attribute that hides a shape on the elements above a text, where it does
not occur. So the texts of hidden shapes are extracted: `parsePptx_exact_iff` says that the result
is exact if the list of slides can be read and, for each text, the marks that the code looks for
agree with those of the format. What is to be seen is read off the parts on its own; that the parser
goes through the same list of slides, and finds the same parts, is proved.
-/

namespace IChat.Files

open Xml Element

/-! ### What is read of a slide -/

/-- For each text of a slide the marks above it say whether it is hidden. -/
def marksAgree (slide : Element) : Bool :=
  (branches [] slide).all fun b =>
    !isSlideText b || (b.1 :: b.2).any isMarked == isHiddenText slide b

section slides

variable {slide e : Element} {above rest : List Element}

/-- The texts with a content that are read of a slide. -/
def readOn (slide : Element) : List Element :=
  ((visibleParagraphs slide).flatMap (paragraphFragments slide)).filter hasContent

/-- The walk up the parents sees the marks of a branch. -/
theorem hiddenByAncestor_eq (h : slide.Distinct) {steps : ℕ} (hb : (e, rest) ∈ branches [] slide)
    (hsteps : rest.length < steps) :
    hiddenByAncestor slide.parents steps e = (e :: rest).any isMarked := by
  induction steps generalizing e rest with
  | zero => exact absurd hsteps (Nat.not_lt_zero _)
  | succ steps ih =>
    rw [hiddenByAncestor, h.lookup_parents hb, List.any_cons]
    rcases exists_parent_of_mem_branches hb with ⟨-, rfl⟩ | ⟨p, more, rfl, -, hp⟩
    · rfl
    · rw [List.head?_cons, ← ih hp (by rw [List.length_cons] at hsteps; omega)]

theorem hiddenInSlide_eq (h : slide.Distinct) (hb : (e, rest) ∈ branches [] slide) :
    hiddenInSlide slide e = (e :: rest).any isMarked := by
  refine hiddenByAncestor_eq h hb ?_
  have hlength := length_of_mem_branches hb
  rw [List.length_nil] at hlength
  omega

/-- An element above one that is not hidden is not hidden. -/
theorem hiddenInSlide_of_mem_above {a : Element} (h : slide.Distinct)
    (hb : (e, rest) ∈ branches [] slide) (ha : a ∈ rest) (he : hiddenInSlide slide e = false) :
    hiddenInSlide slide a = false := by
  obtain ⟨more, hmore, hsub⟩ := exists_branch_of_mem_above hb ha
  rw [hiddenInSlide_eq h hb, List.any_cons, Bool.or_eq_false_iff] at he
  rw [hiddenInSlide_eq h hmore, List.any_eq_false]
  exact fun x hx => List.any_eq_false.mp he.2 x (hsub x hx)

/-- What is read are the texts with no mark on their branch. -/
theorem readOn_eq (h : slide.Distinct) (hflat : Flat slide) : readOn slide =
    ((branches [] slide).filter fun b => isSlideText b && !(b.1 :: b.2).any isMarked).map
      Prod.fst := by
  have hfilter : readOn slide = (visibleParagraphs slide).flatMap fun p => p.iter.filter fun e =>
      (isDrawingText e && !hiddenInSlide slide e) && hasContent e := by
    rw [readOn, List.filter_flatMap]
    refine List.flatMap_congr fun p _ => ?_
    rw [paragraphFragments, List.filter_filter]
    exact List.filter_congr fun e _ => Bool.and_comm _ _
  have hvisible : ∀ p ∈ slide.iter, (isParagraph p && !hiddenInSlide slide p) = true →
      ∀ c ∈ p.children, ∀ e ∈ c.iter, (isParagraph e && !hiddenInSlide slide e) = false := by
    intro p hp hparagraph c hc e he
    rw [hflat p hp (Bool.and_eq_true_iff.mp hparagraph).1 c hc e he, Bool.false_and]
  have hbranches := @flatMap_iter_filter slide _
    (fun e => (isDrawingText e && !hiddenInSlide slide e) && hasContent e) _ hvisible
    (fun a ha => absurd ha List.not_mem_nil : ∀ a ∈ ([] : List Element), _)
  rw [hfilter, visibleParagraphs, hbranches]
  congr 1
  refine List.filter_congr fun b hb => ?_
  obtain ⟨e, rest⟩ := b
  dsimp only
  rw [isSlideText, ← hiddenInSlide_eq h hb]
  dsimp only
  cases htext : isDrawingText e with
  | false => simp only [Bool.false_and]
  | true =>
    cases hhidden : hiddenInSlide slide e with
    | true => simp
    | false =>
      -- the text is no paragraph, and those above it are not hidden
      have hparagraph : isParagraph e = false := by
        rw [isDrawingText, decide_eq_true_eq] at htext
        rw [isParagraph, htext]
        decide
      have hany : (e :: rest).any (fun x => isParagraph x && !hiddenInSlide slide x) =
          rest.any isParagraph := by
        rw [List.any_cons, hparagraph, Bool.false_and, Bool.false_or, Bool.eq_iff_iff,
          List.any_eq_true, List.any_eq_true]
        refine exists_congr fun a => and_congr_right fun ha => ?_
        rw [hiddenInSlide_of_mem_above h hb ha hhidden, Bool.not_false, Bool.and_true]
      rw [hany]
      simp

/-- **A slide** is read exactly if its marks agree with what is hidden. -/
theorem readOn_eq_shownOn_iff (h : slide.Distinct) (hflat : Flat slide) :
    readOn slide = shownOn slide ↔ marksAgree slide = true := by
  have hnodup : ((branches [] slide).map Prod.fst).Nodup := by
    rw [map_fst_branches]
    exact h.of_map _
  rw [readOn_eq h hflat, shownOn, marksAgree, List.map_filter_eq_iff hnodup, List.all_eq_true]
  refine forall₂_congr fun b _ => ?_
  cases isSlideText b with
  | false => simp
  | true =>
    rw [Bool.true_and, Bool.true_and, Bool.not_true, Bool.false_or, beq_iff_eq]
    exact ⟨Bool.not_inj, fun heq => by rw [heq]⟩

/-- The text of a slide is that of the texts that are read. -/
theorem squash_pptxVisibleText (slide : Element) :
    squash (pptxVisibleText slide).1 = contentsOf (readOn slide) := by
  rw [pptxVisibleText, squash_joinText (Text.forall_mem_of_all (by decide)), pptxLines,
    flatMap_squash_filter, List.flatMap_map, readOn, contentsOf_filter, contentsOf_flatMap]
  refine List.flatMap_congr fun p _ => ?_
  rw [squash_strip]
  exact squash_flatMap_contentOf _

/-- A slide has a text if a text with a content is read. -/
theorem pptxVisibleText_eq_nil_iff (slide : Element) :
    (pptxVisibleText slide).1 = [] ↔ readOn slide = [] := by
  have hlines : (pptxVisibleText slide).1 = [] ↔ pptxLines slide = [] := by
    refine joinText_eq_nil_iff fun line hline => ?_
    simpa using (List.mem_filter.mp hline).2
  rw [hlines, pptxLines, readOn, List.filter_eq_nil_iff, List.filter_eq_nil_iff]
  simp only [List.mem_map, forall_exists_index, and_imp, forall_apply_eq_imp_iff₂,
    List.mem_flatMap, decide_not, Bool.not_eq_true', decide_eq_false_iff_not, not_not]
  constructor
  · intro h e p hp he
    rw [Bool.not_eq_true]
    exact hasContent_eq_false_iff.mpr fun c hc =>
      Text.stripChars_eq_nil_iff.mp (h p hp) c (List.mem_flatMap.mpr ⟨e, he, hc⟩)
  · intro h p hp
    refine Text.stripChars_eq_nil_iff.mpr fun c hc => ?_
    obtain ⟨e, he, hce⟩ := List.mem_flatMap.mp hc
    have hnot := h e p hp he
    rw [Bool.not_eq_true] at hnot
    exact hasContent_eq_false_iff.mp hnot c hce

end slides

/-! ### The slides of a presentation -/

/-- A slide of the list. -/
def slideOf (package : OoxmlArchive) (relationships : List (String × String)) (slideId : Element) :
    Except ParseError Document := do
  let path ← slidePath package relationships slideId
  package.readXml path

/-- The texts of a slide with its place in the list, if there are any. -/
def slideTexts (index : ℕ) (texts : List Element) : List (ℕ × List Element) :=
  if texts = [] then [] else [(index, texts)]

theorem slideTexts_inj {index : ℕ} {texts texts' : List Element} :
    slideTexts index texts = slideTexts index texts' ↔ texts = texts' := by
  refine ⟨fun h => ?_, fun h => by rw [h]⟩
  rw [slideTexts, slideTexts] at h
  split_ifs at h with hnil hnil' hnil'
  · rw [hnil, hnil']
  · exact (Prod.mk.inj (List.cons.inj h).1).2

/-- What there is of each slide that the parser visits. -/
def sectionsOf (package : OoxmlArchive) (relationships : List (String × String))
    (presentation : Element) (texts : Element → List Element) : List (ℕ × List Element) :=
  (visibleSlideIds presentation).flatMap fun slide =>
    match slideOf package relationships slide.1 with
    | .ok document => slideTexts slide.2 (texts document.root)
    | .error _ => []

/-- The texts that are read, by the number of their section. -/
def sectionsRead (package : OoxmlArchive) (relationships : List (String × String))
    (presentation : Element) : List (ℕ × List Element) :=
  if maxPptxVisibleSlides < (visibleSlideIds presentation).length then []
  else sectionsOf package relationships presentation readOn

/-- The text of a result, up to separators: the sections with their numbers. -/
def Renders (text : Option (List Char)) (read : List (ℕ × List Element)) : Prop :=
  ∃ sections : List (ℕ × List Char),
    text = (if sections = [] then none
      else some (joinText "\n\n" (sections.map slideSection))) ∧
    sections.map (fun s => (s.1, squash s.2)) = read.map fun s => (s.1, contentsOf s.2)

/-- The presentation is parsed, and each text is extracted exactly once, in its place and under the
number of its slide, if it is to be seen, and is not extracted otherwise. -/
def PptxExact (package : OoxmlArchive) : Prop :=
  ∃ presentation relationships result,
    package.readXml "ppt/presentation.xml" = .ok presentation ∧
    relationshipTargets package "ppt/presentation.xml" = .ok relationships ∧
    parsePptx package = .ok result ∧
    Renders result.text (sectionsRead package relationships presentation.root) ∧
    sectionsRead package relationships presentation.root = sectionsShown package

/-- The condition: all slides that are not switched off have a part, and either they can be read and
their marks agree with what is hidden, or they are too many and there is nothing to be seen. -/
def PptxReadable (package : OoxmlArchive) : Prop :=
  (∃ presentation, package.readXml "ppt/presentation.xml" = .ok presentation) ∧
  (∃ relationships, relationshipTargets package "ppt/presentation.xml" = .ok relationships) ∧
  (∀ entry ∈ switchedOn package, ∃ path ∈ package.names, entryPart package entry = some path) ∧
  if maxPptxVisibleSlides < (switchedOn package).length then
    ∀ entry ∈ switchedOn package, entryTexts package entry = []
  else
    ∀ entry ∈ switchedOn package, ∃ slide,
      entrySlide package entry = some slide ∧ marksAgree slide.root = true

/-- No slide has a paragraph in another one. -/
def FlatSlides (package : OoxmlArchive) : Prop :=
  ∀ entry ∈ switchedOn package, ∀ slide, entrySlide package entry = some slide → Flat slide.root

/-- The text of the sections. -/
def renderSlides (slides : List (ℕ × List Char × Bool)) : Option (List Char) :=
  let sections := (slides.map fun slide => (slide.1, slide.2.1)).filter fun s => s.2 ≠ []
  if sections = [] then none else some (joinText "\n\n" (sections.map slideSection))

section presentations

variable {package : OoxmlArchive} {relationships : List (String × String)} {slide : Element × ℕ}
variable {presentation : Document} {result : ProcessedFile} {path : String}

/-- An entry names the relationship that the parser looks up. -/
theorem entryRelationship_eq (entry : Element) : entryRelationship entry =
    if slideRelationshipId entry = "" then none else some (slideRelationshipId entry) := by
  rw [entryRelationship, slideRelationshipId]
  cases entry.get ⟨relNs, "id"⟩ with
  | none => cases entry.get ⟨"", "id"⟩ with
    | none => rfl
    | some id => by_cases hid : id = "" <;> simp [hid]
  | some qualified =>
    by_cases hqualified : qualified = ""
    · cases entry.get ⟨"", "id"⟩ with
      | none => simp [hqualified]
      | some id => by_cases hid : id = "" <;> simp [hid, hqualified]
    · simp [hqualified]

/-- What the loop over the slides gives. -/
theorem readSlides_eq_ok_iff {paths : List (ℕ × String)} {slides : List (ℕ × List Char × Bool)} :
    (paths.mapM fun slide => do
      let document ← package.readXml slide.2
      return (slide.1, pptxVisibleText document.root)) = .ok slides ↔
    List.Forall₂ (fun p s => ∃ document, package.readXml p.2 = .ok document ∧
      s = (p.1, pptxVisibleText document.root)) paths slides := by
  rw [Except.mapM_eq_ok_iff]
  have hslide : ∀ (p : ℕ × String) (s : ℕ × List Char × Bool),
      (package.readXml p.2 >>= fun document => pure (p.1, pptxVisibleText document.root)) = .ok s ↔
      ∃ document, package.readXml p.2 = .ok document ∧
        s = (p.1, pptxVisibleText document.root) := by
    intro p s
    rw [bind_eq_ok_iff]
    refine exists_congr fun document => and_congr_right fun _ => ?_
    exact ⟨fun heq => (Except.ok.inj heq).symm, fun heq => by rw [heq]; rfl⟩
  simp only [hslide]

/-- The text of the sections is that of the texts that are read, each under its number. -/
theorem renders_of_forall₂ {slides : List (ℕ × List Char × Bool)} {listed : List (Element × ℕ)}
    (h : List.Forall₂ (fun slide s => ∃ document,
      slideOf package relationships slide.1 = .ok document ∧
        s = (slide.2, pptxVisibleText document.root)) listed slides) :
    ((slides.map fun slide => (slide.1, slide.2.1)).filter fun s => s.2 ≠ []).map
        (fun s => (s.1, squash s.2)) =
      (listed.flatMap fun slide =>
        match slideOf package relationships slide.1 with
        | .ok document => slideTexts slide.2 (readOn document.root)
        | .error _ => []).map fun s => (s.1, contentsOf s.2) := by
  induction h with
  | nil => rfl
  | @cons slide s listed slides hslide _ ih =>
    obtain ⟨document, hdocument, rfl⟩ := hslide
    rw [List.map_cons, List.filter_cons, List.flatMap_cons, List.map_append, hdocument, ← ih]
    dsimp only
    by_cases hnil : readOn document.root = []
    · have htext := (pptxVisibleText_eq_nil_iff document.root).mpr hnil
      rw [slideTexts, if_pos hnil, if_neg (by simpa using htext)]
      rfl
    · have htext := mt (pptxVisibleText_eq_nil_iff document.root).mp hnil
      rw [slideTexts, if_neg hnil, if_pos (by simpa using htext), List.map_cons,
        squash_pptxVisibleText]
      rfl

section listed

variable (hpresentation : package.readXml "ppt/presentation.xml" = .ok presentation)

include hpresentation

/-- The parser visits the slides that are not switched off. -/
theorem map_fst_visibleSlideIds :
    (visibleSlideIds presentation.root).map Prod.fst = switchedOn package := by
  rw [switchedOn, listedSlides, hpresentation]
  dsimp only
  rw [← List.zipIdx_map_fst 1 (presentation.root.iter.filter fun e => e.name = "sldId"),
    List.filter_map]
  rfl

theorem forall_mem_visibleSlideIds {P : Element → Prop} :
    (∀ slide ∈ visibleSlideIds presentation.root, P slide.1) ↔
      ∀ entry ∈ switchedOn package, P entry := by
  rw [← map_fst_visibleSlideIds hpresentation, List.forall_mem_map]

theorem length_visibleSlideIds :
    (visibleSlideIds presentation.root).length = (switchedOn package).length := by
  rw [← map_fst_visibleSlideIds hpresentation, List.length_map]

end listed

section parts

variable (hrelationships : relationshipTargets package "ppt/presentation.xml" = .ok relationships)

include hrelationships

/-- The parser finds the part that an entry names. -/
theorem slidePath_eq_ok_iff {entry : Element} : slidePath package relationships entry = .ok path ↔
      path ∈ package.names ∧ entryPart package entry = some path := by
  rw [slidePath, entryPart, entryRelationship_eq]
  split_ifs with hid
  · exact iff_of_false (by simp) (by simp)
  · have hpart : String.ofList (dirname "ppt/presentation.xml".toList ++ "/_rels/".toList ++
        basename "ppt/presentation.xml".toList ++ ".rels".toList) =
        "ppt/_rels/presentation.xml.rels" := by decide
    rw [Option.bind_some, ← lookup_relationshipTargets hrelationships hpart hid]
    cases relationships.lookup (slideRelationshipId entry) with
    | none => exact iff_of_false (by simp) (by simp)
    | some =>
      dsimp only
      split_ifs with hmem
      · refine ⟨fun h => ?_, fun h => congrArg _ (Option.some.inj h.2)⟩
        cases h
        exact ⟨hmem, rfl⟩
      · refine iff_of_false (by simp) fun h => hmem ?_
        rw [Option.some.inj h.2]
        exact h.1

/-- The parser reads the slide that an entry names. -/
theorem slideOf_eq_ok_iff {entry : Element} {document : Document} :
    slideOf package relationships entry = .ok document ↔
      entrySlide package entry = some document := by
  rw [slideOf, bind_eq_ok_iff, entrySlide, Option.bind_eq_some_iff]
  refine exists_congr fun path => ?_
  rw [slidePath_eq_ok_iff hrelationships, Except.toOption_eq_some_iff, and_assoc, and_comm]
  -- a part that is read is one of the package
  refine and_iff_left_of_imp fun h => ?_
  rw [OoxmlArchive.readXml, ite_error_eq_ok_iff, not_not] at h
  exact h.2.1

variable (hpresentation : package.readXml "ppt/presentation.xml" = .ok presentation)

include hpresentation

/-- Nothing is to be seen of the slides that the parser visits. -/
theorem forall_entryTexts_iff :
    (∀ slide ∈ visibleSlideIds presentation.root, ∀ document,
        slideOf package relationships slide.1 = .ok document → shownOn document.root = []) ↔
      ∀ entry ∈ switchedOn package, entryTexts package entry = [] := by
  rw [forall_mem_visibleSlideIds hpresentation (P := fun entry => ∀ document,
    slideOf package relationships entry = .ok document → shownOn document.root = [])]
  refine forall₂_congr fun entry hentry => ?_
  have hon : isSwitchedOff entry = false := by simpa using (List.mem_filter.mp hentry).2
  rw [entryTexts, hon, if_neg Bool.false_ne_true]
  simp only [slideOf_eq_ok_iff hrelationships]
  cases entrySlide package entry with
  | none => exact iff_of_true nofun rfl
  | some slide => exact ⟨fun h => h slide rfl, fun h document heq => Option.some.inj heq ▸ h⟩

/-- **The list**: the parser gives each slide its place in the whole list. -/
theorem sectionsShown_eq :
    sectionsShown package = sectionsOf package relationships presentation.root shownOn := by
  rw [sectionsShown, listedSlides, hpresentation, sectionsOf, visibleSlideIds]
  dsimp only
  induction ((presentation.root.iter.filter fun e => e.name = "sldId").zipIdx 1) with
  | nil => rfl
  | cons slide rest ih =>
    rw [List.map_cons, List.filter_cons, List.filter_cons, ih, entryTexts, isSwitchedOff]
    cases falseXmlValue (slide.1.get ⟨"", "show"⟩) with
    | true => rfl
    | false =>
      have hslide := @slideOf_eq_ok_iff package relationships hrelationships slide.1
      rw [if_neg Bool.false_ne_true, Bool.not_false, if_pos rfl, List.flatMap_cons]
      cases hof : slideOf package relationships slide.1 with
      | error =>
        have hnone : entrySlide package slide.1 = none :=
          Option.eq_none_iff_forall_ne_some.mpr fun document h =>
            nomatch hof.symm.trans (hslide.mpr h)
        rw [hnone]
        rfl
      | ok document =>
        rw [hslide.mp hof]
        dsimp only
        by_cases hnil : shownOn document.root = []
        · rw [slideTexts, if_pos hnil, if_neg (by simpa using hnil), List.nil_append]
        · rw [slideTexts, if_neg hnil, if_pos (by simpa using hnil), List.cons_append,
            List.nil_append]

theorem pptxVisibleSlidePaths_eq :
    pptxVisibleSlidePaths package = (visibleSlideIds presentation.root).mapM fun slide =>
      slidePath package relationships slide.1 >>= fun path => pure (slide.2, path) := by
  rw [pptxVisibleSlidePaths, hpresentation, hrelationships]
  rfl

/-- The paths are those of the slides that are not switched off. -/
theorem pptxVisibleSlidePaths_eq_ok_iff {paths : List (ℕ × String)} :
    pptxVisibleSlidePaths package = .ok paths ↔
      List.Forall₂ (fun slide p => slidePath package relationships slide.1 = .ok p.2 ∧
        p.1 = slide.2) (visibleSlideIds presentation.root) paths := by
  have hslide : ∀ (slide : Element × ℕ) (p : ℕ × String),
      (slidePath package relationships slide.1 >>= fun path => pure (slide.2, path)) = .ok p ↔
      slidePath package relationships slide.1 = .ok p.2 ∧ p.1 = slide.2 := by
    intro slide p
    rw [bind_eq_ok_iff]
    refine ⟨fun ⟨path, hpath, heq⟩ => ?_, fun h => ⟨p.2, h.1, ?_⟩⟩
    · rw [← Except.ok.inj heq]
      exact ⟨hpath, rfl⟩
    · rw [← h.2]
      rfl
  rw [pptxVisibleSlidePaths_eq hrelationships hpresentation, Except.mapM_eq_ok_iff]
  simp only [hslide]

/-- A presentation that is parsed has the list of slides, and where these are not too many the
slides themselves. -/
theorem parsePptx_eq_ok (h : parsePptx package = .ok result) :
    (∀ slide ∈ visibleSlideIds presentation.root,
      ∃ path, slidePath package relationships slide.1 = .ok path) ∧
    if maxPptxVisibleSlides < (visibleSlideIds presentation.root).length then result.text = none
    else ∃ slides : List (ℕ × List Char × Bool),
      List.Forall₂ (fun slide s => ∃ document,
        slideOf package relationships slide.1 = .ok document ∧
          s = (slide.2, pptxVisibleText document.root))
        (visibleSlideIds presentation.root) slides ∧
      result.text = renderSlides slides := by
  rw [parsePptx, bind_eq_ok_iff] at h
  obtain ⟨paths, hpaths, h⟩ := h
  have hforall := (pptxVisibleSlidePaths_eq_ok_iff hrelationships hpresentation).mp hpaths
  refine ⟨fun slide hslide => ?_, ?_⟩
  · obtain ⟨p, -, hp⟩ := hforall.flip.exists_left hslide
    exact ⟨p.2, hp.1⟩
  · rw [hforall.length_eq]
    split_ifs at h ⊢ with hlimit
    · rw [← Except.ok.inj h]
    · rw [bind_eq_ok_iff] at h
      obtain ⟨slides, hslides, h⟩ := h
      rw [readSlides_eq_ok_iff] at hslides
      refine ⟨slides, ?_, ?_⟩
      · refine hforall.comp (fun slide p s hp hs => ?_) hslides
        obtain ⟨document, hdocument, heq⟩ := hs
        refine ⟨document, ?_, ?_⟩
        · rw [slideOf, hp.1]
          exact hdocument
        · rw [heq, hp.2]
      · dsimp only at h
        rw [renderSlides]
        by_cases hnil : ((slides.map fun slide => (slide.1, slide.2.1)).filter fun s =>
          s.2 ≠ []) = []
        · rw [if_pos hnil] at h
          rw [if_pos hnil, ← Except.ok.inj h]
        · rw [if_neg hnil] at h
          rw [if_neg hnil, ← Except.ok.inj h]

/-- A presentation whose list of slides can be read is parsed, if its slides can be read or are too
many. -/
theorem exists_parsePptx_eq_ok
    (hpaths : ∀ slide ∈ visibleSlideIds presentation.root,
      ∃ path, slidePath package relationships slide.1 = .ok path)
    (hslides : ¬maxPptxVisibleSlides < (visibleSlideIds presentation.root).length →
      ∀ slide ∈ visibleSlideIds presentation.root, ∃ document,
        slideOf package relationships slide.1 = .ok document) :
    ∃ result, parsePptx package = .ok result := by
  obtain ⟨paths, hpaths⟩ : ∃ paths, pptxVisibleSlidePaths package = .ok paths := by
    rw [pptxVisibleSlidePaths_eq hrelationships hpresentation]
    refine Except.exists_mapM_eq_ok fun slide hslide => ?_
    obtain ⟨path, hpath⟩ := hpaths slide hslide
    exact ⟨(slide.2, path), bind_eq_ok_iff.mpr ⟨path, hpath, rfl⟩⟩
  have hforall := (pptxVisibleSlidePaths_eq_ok_iff hrelationships hpresentation).mp hpaths
  rw [hforall.length_eq] at hslides
  by_cases hlimit : maxPptxVisibleSlides < paths.length
  · rw [parsePptx, hpaths, ok_bind, if_pos hlimit]
    exact ⟨_, rfl⟩
  · obtain ⟨slides, hread⟩ : ∃ slides, (paths.mapM fun slide => do
        let document ← package.readXml slide.2
        return (slide.1, pptxVisibleText document.root)) = .ok slides := by
      refine Except.exists_mapM_eq_ok fun p hp => ?_
      obtain ⟨slide, hslide, hpath, -⟩ := hforall.exists_left hp
      obtain ⟨document, hdocument⟩ := hslides hlimit slide hslide
      rw [slideOf, hpath] at hdocument
      exact ⟨_, bind_eq_ok_iff.mpr ⟨document, hdocument, rfl⟩⟩
    rw [parsePptx, hpaths, ok_bind, if_neg hlimit, hread, ok_bind]
    dsimp only
    by_cases hnil : ((slides.map fun slide => (slide.1, slide.2.1)).filter fun s => s.2 ≠ []) = []
    · rw [if_pos hnil]
      exact ⟨_, rfl⟩
    · rw [if_neg hnil]
      exact ⟨_, rfl⟩

/-- **The text** of a presentation that is parsed is that of the texts that are read. -/
theorem renders_of_parsePptx_eq_ok (h : parsePptx package = .ok result) :
    Renders result.text (sectionsRead package relationships presentation.root) := by
  obtain ⟨-, h⟩ := parsePptx_eq_ok hrelationships hpresentation h
  rw [sectionsRead]
  by_cases hlimit : maxPptxVisibleSlides < (visibleSlideIds presentation.root).length
  · rw [if_pos hlimit] at h
    rw [if_pos hlimit]
    exact ⟨[], h, rfl⟩
  · rw [if_neg hlimit] at h
    rw [if_neg hlimit]
    obtain ⟨slides, hforall, htext⟩ := h
    exact ⟨_, htext, renders_of_forall₂ hforall⟩

end parts

/-- What two readings give of a list of slides is the same if it is on each of them. -/
theorem sectionsOf_eq_iff {texts texts' : Element → List Element} :
    sectionsOf package relationships presentation.root texts =
        sectionsOf package relationships presentation.root texts' ↔
      ∀ slide ∈ visibleSlideIds presentation.root, ∀ document,
        slideOf package relationships slide.1 = .ok document →
          texts document.root = texts' document.root := by
  -- the sections of two slides are told apart by their numbers
  have hnodup : ((visibleSlideIds presentation.root).map Prod.snd).Nodup := by
    have hsublist : List.Sublist ((visibleSlideIds presentation.root).map Prod.snd)
        (((presentation.root.iter.filter fun e => e.name = "sldId").zipIdx 1).map Prod.snd) :=
      List.Sublist.map _ List.filter_sublist
    refine List.Nodup.sublist hsublist ?_
    rw [List.zipIdx_map_snd]
    exact List.nodup_range'
  have hregion : ∀ (texts : Element → List Element) (slide : Element × ℕ),
      ∀ x ∈ (match slideOf package relationships slide.1 with
        | .ok document => slideTexts slide.2 (texts document.root)
        | .error _ => []), x.1 = slide.2 := by
    intro texts slide x hx
    cases hslide : slideOf package relationships slide.1 with
    | error =>
      rw [hslide] at hx
      exact absurd hx List.not_mem_nil
    | ok =>
      rw [hslide] at hx
      dsimp only at hx
      rw [slideTexts] at hx
      split_ifs at hx
      · exact absurd hx List.not_mem_nil
      · rw [List.mem_singleton.mp hx]
  have hdisjoint : (visibleSlideIds presentation.root).Pairwise fun slide slide' =>
      ∀ x : ℕ × List Element, x.1 = slide.2 → ¬x.1 = slide'.2 :=
    (List.pairwise_map.mp hnodup).imp fun hne x hx hx' => hne (hx.symm.trans hx')
  rw [sectionsOf, sectionsOf, List.flatMap_eq_flatMap_iff hdisjoint
    (fun slide _ => hregion texts slide) fun slide _ => hregion texts' slide]
  refine forall₂_congr fun slide _ => ?_
  cases slideOf package relationships slide.1 with
  | error => exact iff_of_true rfl nofun
  | ok document =>
    dsimp only
    rw [slideTexts_inj]
    exact ⟨fun heq document' h => Except.ok.inj h ▸ heq, fun h => h document rfl⟩

/-- There are no sections if nothing is there on any slide. -/
theorem sectionsOf_eq_nil_iff {texts : Element → List Element} :
    sectionsOf package relationships presentation.root texts = [] ↔
      ∀ slide ∈ visibleSlideIds presentation.root, ∀ document,
        slideOf package relationships slide.1 = .ok document → texts document.root = [] := by
  have hnil : sectionsOf package relationships presentation.root (fun _ => []) = [] := by
    refine List.flatMap_eq_nil_iff.mpr fun slide _ => ?_
    cases slideOf package relationships slide.1 with
    | error => rfl
    | ok => rfl
  have hiff := @sectionsOf_eq_iff package relationships presentation texts fun _ => []
  rwa [hnil] at hiff

end presentations

/-- **Exactness**: a presentation is parsed, and its texts that are to be seen are extracted, each
once, in its place and under the number of its slide, and no other, exactly if it is readable. -/
theorem parsePptx_exact_iff {package : OoxmlArchive} (hflat : FlatSlides package) :
    PptxExact package ↔ PptxReadable package := by
  constructor
  · rintro ⟨presentation, relationships, result, hpresentation, hrelationships, hresult, -, heq⟩
    obtain ⟨hpaths, hslides⟩ := parsePptx_eq_ok hrelationships hpresentation hresult
    refine ⟨⟨_, hpresentation⟩, ⟨_, hrelationships⟩,
      (forall_mem_visibleSlideIds hpresentation).mp fun slide hslide => ?_, ?_⟩
    · obtain ⟨path, hpath⟩ := hpaths slide hslide
      exact ⟨path, (slidePath_eq_ok_iff hrelationships).mp hpath⟩
    · rw [sectionsShown_eq hrelationships hpresentation, sectionsRead] at heq
      rw [← length_visibleSlideIds hpresentation]
      split_ifs at hslides heq ⊢ with hlimit
      · rw [← forall_entryTexts_iff hrelationships hpresentation]
        exact sectionsOf_eq_nil_iff.mp heq.symm
      · obtain ⟨slides, hforall, -⟩ := hslides
        refine (forall_mem_visibleSlideIds hpresentation).mp fun slide hslide => ?_
        obtain ⟨s, -, document, hdocument, -⟩ := hforall.flip.exists_left hslide
        have hentry := (slideOf_eq_ok_iff hrelationships).mp hdocument
        refine ⟨document, hentry, ?_⟩
        rw [← readOn_eq_shownOn_iff document.distinct
          ((forall_mem_visibleSlideIds hpresentation).mpr hflat slide hslide document hentry)]
        exact sectionsOf_eq_iff.mp heq slide hslide document hdocument
  · rintro ⟨⟨presentation, hpresentation⟩, ⟨relationships, hrelationships⟩, hpaths, hslides⟩
    rw [← forall_mem_visibleSlideIds hpresentation] at hpaths
    rw [← length_visibleSlideIds hpresentation,
      ← forall_entryTexts_iff hrelationships hpresentation,
      ← forall_mem_visibleSlideIds hpresentation] at hslides
    obtain ⟨result, hresult⟩ := exists_parsePptx_eq_ok hrelationships hpresentation
      (fun slide hslide => by
        obtain ⟨path, hpath⟩ := hpaths slide hslide
        exact ⟨path, (slidePath_eq_ok_iff hrelationships).mpr hpath⟩)
      (fun hlimit slide hslide => by
        rw [if_neg hlimit] at hslides
        obtain ⟨document, hdocument, -⟩ := hslides slide hslide
        exact ⟨document, (slideOf_eq_ok_iff hrelationships).mpr hdocument⟩)
    refine ⟨presentation, relationships, result, hpresentation, hrelationships, hresult,
      renders_of_parsePptx_eq_ok hrelationships hpresentation hresult, ?_⟩
    rw [sectionsShown_eq hrelationships hpresentation, sectionsRead]
    split_ifs at hslides ⊢ with hlimit
    · exact (sectionsOf_eq_nil_iff.mpr hslides).symm
    · refine sectionsOf_eq_iff.mpr fun slide hslide document hdocument => ?_
      obtain ⟨document', hdocument', hagree⟩ := hslides slide hslide
      have hentry := (slideOf_eq_ok_iff hrelationships).mp hdocument
      obtain rfl : document' = document := Option.eq_some_unique hdocument' hentry
      exact (readOn_eq_shownOn_iff document'.distinct
        ((forall_mem_visibleSlideIds hpresentation).mpr hflat slide hslide document' hentry)).mpr
          hagree

/-! ### Two presentations -/

/-- An element with attributes that are in no namespace. -/
def slideElement (id : ℕ) (tag : Name) (attrib : List (String × String)) (children : List Element) :
    Element :=
  .mk id tag (attrib.map fun a => (⟨"", a.1⟩, a.2)) none children

/-- A shape with a paragraph that holds one text. -/
def slideShape (properties : List (String × String)) (text : String) : Element :=
  let run := Element.mk 6 ⟨drawingNs, "t"⟩ [] (some text) []
  slideElement 1 ⟨"", "sp"⟩ [] [
    slideElement 2 ⟨"", "nvSpPr"⟩ [] [slideElement 3 ⟨"", "cNvPr"⟩ properties []],
    slideElement 4 ⟨"", "txBody"⟩ [] [slideElement 5 ⟨drawingNs, "p"⟩ [] [run]]]

/-- A presentation with one slide. -/
def slidePackage (presentation relationships slide : Document) : OoxmlArchive :=
  ⟨["ppt/presentation.xml", "ppt/_rels/presentation.xml.rels", "ppt/slides/slide1.xml"], [],
    fun name =>
      if name = "ppt/presentation.xml" then .ok presentation
      else if name = "ppt/_rels/presentation.xml.rels" then .ok relationships
      else .ok slide⟩

def oneSlide : Element :=
  slideElement 0 ⟨"", "presentation"⟩ [] [slideElement 1 ⟨"", "sldId"⟩ [("id", "rId1")] []]

def oneRelationship : Element :=
  slideElement 0 ⟨"", "Relationships"⟩ [] [slideElement 1 ⟨"", "Relationship"⟩
    [("Id", "rId1"), ("Target", "slides/slide1.xml")] []]

theorem oneSlide_distinct : oneSlide.Distinct := by
  unfold Distinct
  decide

theorem oneRelationship_distinct : oneRelationship.Distinct := by
  unfold Distinct
  decide

/-- A slide with one shape. -/
def oneShape (properties : List (String × String)) : Element :=
  slideElement 0 ⟨"", "sld"⟩ [] [slideShape properties "secret"]

theorem flat_oneShape : Flat (oneShape []) ∧ Flat (oneShape [("hidden", "1")]) := by
  unfold Flat
  decide

/-- A presentation with this slide. -/
def oneSlidePackage (slide : Document) : OoxmlArchive :=
  slidePackage ⟨oneSlide, oneSlide_distinct⟩ ⟨oneRelationship, oneRelationship_distinct⟩ slide

theorem flatSlides_oneSlidePackage {slide : Document} (h : Flat slide.root) :
    FlatSlides (oneSlidePackage slide) := by
  have hother : Flat oneSlide ∧ Flat oneRelationship := by
    unfold Flat
    decide
  have hread : ∀ name document, (oneSlidePackage slide).readXml name = .ok document →
      Flat document.root := by
    intro name document hname
    rw [OoxmlArchive.readXml, ite_error_eq_ok_iff] at hname
    dsimp only [oneSlidePackage, slidePackage] at hname
    split_ifs at hname
    · rw [← Except.ok.inj hname.2]
      exact hother.1
    · rw [← Except.ok.inj hname.2]
      exact hother.2
    · rw [← Except.ok.inj hname.2]
      exact h
  intro entry _ document hdocument
  rw [entrySlide, Option.bind_eq_some_iff] at hdocument
  obtain ⟨path, -, hpath⟩ := hdocument
  exact hread path document (Except.toOption_eq_some_iff.mp hpath)

theorem oneShape_distinct : (oneShape []).Distinct ∧ (oneShape [("hidden", "1")]).Distinct := by
  unfold Distinct
  decide

theorem parsePptx_exact_iff_shape :
    PptxExact (oneSlidePackage ⟨oneShape [], oneShape_distinct.1⟩) ↔
      PptxReadable (oneSlidePackage ⟨oneShape [], oneShape_distinct.1⟩) :=
  parsePptx_exact_iff (flatSlides_oneSlidePackage flat_oneShape.1)

/-- The shape is hidden, and its text is extracted. -/
theorem parsePptx_leaks : ∃ (package : OoxmlArchive) (result : ProcessedFile),
    FlatSlides package ∧ parsePptx package = .ok result ∧
      result.text = some "--- Slide 1 ---\nsecret".toList ∧ ¬PptxExact package := by
  have hparse : ∃ result,
      parsePptx (oneSlidePackage ⟨oneShape [("hidden", "1")], oneShape_distinct.2⟩) = .ok result ∧
        result.text = some "--- Slide 1 ---\nsecret".toList := ⟨_, rfl, rfl⟩
  obtain ⟨result, hresult, htext⟩ := hparse
  refine ⟨_, result, flatSlides_oneSlidePackage flat_oneShape.2, hresult, htext, ?_⟩
  rintro ⟨presentation, relationships, -, hpresentation, hrelationships, -, -, hexact⟩
  have hfound : relationshipTargets
      (oneSlidePackage ⟨oneShape [("hidden", "1")], oneShape_distinct.2⟩) "ppt/presentation.xml" =
        .ok [("rId1", "ppt/slides/slide1.xml")] := rfl
  obtain rfl := Except.ok.inj (hfound.symm.trans hrelationships)
  obtain rfl : ⟨oneSlide, oneSlide_distinct⟩ = presentation := Except.ok.inj hpresentation
  have hread : (sectionsRead (oneSlidePackage ⟨oneShape [("hidden", "1")], oneShape_distinct.2⟩)
      [("rId1", "ppt/slides/slide1.xml")] oneSlide).length = 1 := rfl
  rw [hexact] at hread
  exact absurd hread (by decide)

end IChat.Files
