import IChat.Files.Ooxml

/-!
# The text of a presentation

`_parse_pptx` goes through the list of slides, leaves out those that are switched off, and reads of
each other slide the texts `a:t` of the paragraphs `a:p`. An element is left out if it, or an
element above it, has an attribute `hidden` that is on or an attribute `show` that is off; those
above are found through a dictionary from the children to their parents.
-/

namespace IChat.Files

open Xml

/-- `MAX_PPTX_VISIBLE_SLIDES`. -/
def maxPptxVisibleSlides : ℕ := 200

/-- The attributes that `_hidden_by_ancestor` looks for. -/
def isMarked (e : Element) : Bool :=
  e.attrib.any fun a =>
    (a.1.localName = "hidden" && trueXmlValue (some a.2)) ||
      (a.1.localName = "show" && falseXmlValue (some a.2))

/-- `_hidden_by_ancestor`, for a number of steps. -/
def hiddenByAncestor (parents : List (ℕ × Element)) : ℕ → Element → Bool
  | 0, _ => false
  | steps + 1, current =>
    isMarked current ||
      match parents.lookup current.id with
      | some parent => hiddenByAncestor parents steps parent
      | none => false

/-- `_hidden_by_ancestor` in a slide: no element has more of them above it than there are. -/
def hiddenInSlide (slide : Element) (e : Element) : Bool :=
  hiddenByAncestor slide.parents slide.iter.length e

/-- The texts that are read of a paragraph. -/
def paragraphFragments (slide paragraph : Element) : List Element :=
  paragraph.iter.filter fun e => isDrawingText e && !hiddenInSlide slide e

/-- The paragraphs that are read. -/
def visibleParagraphs (slide : Element) : List Element :=
  slide.iter.filter fun e => isParagraph e && !hiddenInSlide slide e

/-- The lines of a slide. -/
def pptxLines (slide : Element) : List (List Char) :=
  ((visibleParagraphs slide).map fun paragraph =>
    Text.strip ((paragraphFragments slide paragraph).flatMap contentOf)).filter (· ≠ [])

/-- `has_visual_content`, of `_pptx_visible_text`. -/
def slideHasVisualContent (slide : Element) : Bool :=
  slide.iter.any fun e =>
    e.name ∈ ["pic", "graphicFrame", "oleObj", "videoFile", "audioFile"] && !hiddenInSlide slide e

/-- `_pptx_visible_text`. -/
def pptxVisibleText (slide : Element) : List Char × Bool :=
  (joinText "\n" (pptxLines slide), slideHasVisualContent slide)

/-- The list of slides, which count from one, without those that are switched off. -/
def visibleSlideIds (presentation : Element) : List (Element × ℕ) :=
  ((presentation.iter.filter fun e => e.name = "sldId").zipIdx 1).filter fun slide =>
    !falseXmlValue (slide.1.get ⟨"", "show"⟩)

/-- `slide_id.attrib.get("{_REL_NS}id") or slide_id.attrib.get("id")`. -/
def slideRelationshipId (slideId : Element) : String :=
  let qualified := (slideId.get ⟨relNs, "id"⟩).getD ""
  if qualified ≠ "" then qualified else (slideId.get ⟨"", "id"⟩).getD ""

/-- The part that a slide of the list is in. -/
def slidePath (package : OoxmlArchive) (relationships : List (String × String))
    (slideId : Element) : Except ParseError String :=
  let relationshipId := slideRelationshipId slideId
  if relationshipId = "" then .error invalidOoxml
  else
    match relationships.lookup relationshipId with
    | none => .error invalidOoxml
    | some path => if path ∈ package.names then .ok path else .error invalidOoxml

/-- `_pptx_visible_slide_paths`. -/
def pptxVisibleSlidePaths (package : OoxmlArchive) : Except ParseError (List (ℕ × String)) := do
  let presentation ← package.readXml "ppt/presentation.xml"
  let relationships ← relationshipTargets package "ppt/presentation.xml"
  (visibleSlideIds presentation.root).mapM fun slide => do
    let path ← slidePath package relationships slide.1
    return (slide.2, path)

/-- `--- Slide {source_index} ---` and the text. -/
def slideSection (slide : ℕ × List Char) : List Char :=
  "--- Slide ".toList ++ (toString slide.1).toList ++ " ---\n".toList ++ slide.2

/-- `_parse_pptx`. -/
def parsePptx (package : OoxmlArchive) : Except ParseError ProcessedFile := do
  let slidePaths ← pptxVisibleSlidePaths package
  if maxPptxVisibleSlides < slidePaths.length then
    return ⟨none, mergeWarnings [package.warnings, [warningComplexityLimit]],
      [("visible_slide_count", .int slidePaths.length)], "pptx-v1"⟩
  else
    let slides ← slidePaths.mapM fun slide => do
      let document ← package.readXml slide.2
      return (slide.1, pptxVisibleText document.root)
    let sections := (slides.map fun slide => (slide.1, slide.2.1)).filter fun s => s.2 ≠ []
    -- a slide without a text, or with something that is no text
    let isPartial := slides.any fun slide => slide.2.1 = [] || slide.2.2
    let metadata : Dict := [("visible_slide_count", .int slidePaths.length),
      ("extracted_slide_count", .int sections.length)]
    if sections = [] then
      return ⟨none, mergeWarnings [package.warnings, [warningNoExtractableText]], metadata,
        "pptx-v1"⟩
    else
      let warnings := mergeWarnings [package.warnings,
        if isPartial then [warningPartialContent] else []]
      return ⟨some (joinText "\n\n" (sections.map slideSection)), warnings, metadata, "pptx-v1"⟩

end IChat.Files
