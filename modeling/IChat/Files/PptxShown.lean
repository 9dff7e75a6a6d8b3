import IChat.Files.OoxmlParts

/-!
# What a presentation shows

A presentation as its parts describe it, whatever is made of it: the list of its slides, in which
each has a place, the part that a slide is in, and the texts that are to be seen. In the format a
shape is hidden by the attribute `hidden` of the element `cNvPr` in its own non-visual properties,
which stand beside the text of the shape.
-/

namespace IChat.Files

open Xml Element

/-! ### A slide -/

/-- A shape, a group or a frame that its own non-visual properties hide. -/
def shapeIsHidden (shape : Element) : Bool :=
  shape.children.any fun properties =>
    properties.name ∈ ["nvSpPr", "nvGrpSpPr", "nvGraphicFramePr", "nvCxnSpPr", "nvPicPr"] &&
      properties.children.any fun e => e.name = "cNvPr" && trueXmlValue (e.get ⟨"", "hidden"⟩)

/-- A slide that is switched off at its root. -/
def slideIsHidden (slide : Element) : Bool := falseXmlValue (slide.get ⟨"", "show"⟩)

/-- An `a:t` with a content that is in an `a:p`, with the elements above it. -/
def isSlideText (branch : Element × List Element) : Bool :=
  isDrawingText branch.1 && hasContent branch.1 && branch.2.any isParagraph

/-- A text that is hidden with its slide or with a shape around it. -/
def isHiddenText (slide : Element) (branch : Element × List Element) : Bool :=
  slideIsHidden slide || (branch.1 :: branch.2).any shapeIsHidden

/-- The texts of a slide that are to be seen. -/
def shownOn (slide : Element) : List Element :=
  ((branches [] slide).filter fun b => isSlideText b && !isHiddenText slide b).map Prod.fst

/-- No paragraph is in another one. -/
def Flat (slide : Element) : Prop :=
  ∀ p ∈ slide.iter, isParagraph p = true → ∀ c ∈ p.children, ∀ e ∈ c.iter, isParagraph e = false

/-! ### The list of slides -/

/-- The slides of a presentation in their order, those that are switched off included. -/
def listedSlides (package : OoxmlArchive) : List Element :=
  match package.readXml "ppt/presentation.xml" with
  | .error _ => []
  | .ok presentation => presentation.root.iter.filter fun e => e.name = "sldId"

/-- A slide that is switched off in the list. -/
def isSwitchedOff (entry : Element) : Bool := falseXmlValue (entry.get ⟨"", "show"⟩)

/-- The slides that are not switched off in the list. -/
def switchedOn (package : OoxmlArchive) : List Element :=
  (listedSlides package).filter fun entry => !isSwitchedOff entry

/-- The relationship that an entry of the list names. -/
def entryRelationship (entry : Element) : Option String :=
  (entry.get ⟨relNs, "id"⟩).filter (· ≠ "") <|> (entry.get ⟨"", "id"⟩).filter (· ≠ "")

/-- The part that an entry of the list names. -/
def entryPart (package : OoxmlArchive) (entry : Element) : Option String :=
  (entryRelationship entry).bind
    (relationshipPart package "ppt/presentation.xml" "ppt/_rels/presentation.xml.rels")

/-- The slide that an entry of the list names. -/
def entrySlide (package : OoxmlArchive) (entry : Element) : Option Document :=
  (entryPart package entry).bind fun path => (package.readXml path).toOption

/-- The texts that are to be seen of an entry of the list. -/
def entryTexts (package : OoxmlArchive) (entry : Element) : List Element :=
  if isSwitchedOff entry then []
  else
    match entrySlide package entry with
    | none => []
    | some slide => shownOn slide.root

/-- The texts that are to be seen, each slide with its place in the whole list, counted from one. A
slide without a text has no section. -/
def sectionsShown (package : OoxmlArchive) : List (ℕ × List Element) :=
  (((listedSlides package).zipIdx 1).map fun entry =>
    (entry.2, entryTexts package entry.1)).filter fun slide => slide.2 ≠ []

end IChat.Files
