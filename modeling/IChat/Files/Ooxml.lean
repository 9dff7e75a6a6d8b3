import IChat.General.Json
import IChat.General.Text
import IChat.General.Xml

/-!
# Office documents

What the parsers of the three Office formats share: the package, whose parts are read as XML, the
table of its relationships, and the result. A package is one that `_open_ooxml` has accepted. How
the bytes of a part are read is outside; names are compared without their namespace, as
`_local_name` does.
-/

namespace IChat.Files

open Xml

/-- `FileProcessingError`, by its code. -/
abbrev ParseError := String

def invalidOoxml : ParseError := "invalid_ooxml"
def unsafeArchivePath : ParseError := "unsafe_archive_path"

/-- `_OoxmlArchive`: the names of the parts, the warnings of the validation, and what reading a
part gives. -/
structure OoxmlArchive where
  names : List String
  warnings : List String
  read : String → Except ParseError Document

/-- `read_xml`. -/
def OoxmlArchive.readXml (package : OoxmlArchive) (name : String) : Except ParseError Document :=
  if name ∉ package.names then .error invalidOoxml else package.read name

/-- `ProcessedFile`, as far as the parsers choose it. The text is the one of the derivative
`document_extract`; a file that is only displayed has none. -/
structure ProcessedFile where
  text : Option (List Char)
  warnings : List String
  metadata : Dict
  extractorVersion : String

/-- `_merge_warnings`. -/
def mergeWarnings (groups : List (List String)) : List String := groups.flatten.eraseDups

/-- `_REL_NS`. -/
def relNs : String := "http://schemas.openxmlformats.org/officeDocument/2006/relationships"

/-- `_DRAWING_NS`. -/
def drawingNs : String := "http://schemas.openxmlformats.org/drawingml/2006/main"

/-- An `a:p`. -/
def isParagraph (e : Element) : Bool := e.tag = ⟨drawingNs, "p"⟩

/-- An `a:t`. -/
def isDrawingText (e : Element) : Bool := e.tag = ⟨drawingNs, "t"⟩

def warningComplexityLimit : String := "complexity_limit_exceeded"
def warningNoExtractableText : String := "no_extractable_text"
def warningPartialContent : String := "partial_content_not_extracted"

/-- The text of an element, `item.text or ""`. -/
def contentOf (e : Element) : List Char := (e.text.getD "").toList

/-- `separator.join(parts)`. -/
def joinText (separator : String) (parts : List (List Char)) : List Char :=
  separator.toList.intercalate parts

/-! ### Switches -/

/-- `str.casefold` of a character, as far as the result is in ASCII. -/
def casefoldChar (c : Char) : List Char :=
  if c.isUpper then [c.toLower]
  else if c = 'ſ' then ['s']
  else if c = Char.ofNat 0x212a then ['k']
  else if c = 'ß' ∨ c = 'ẞ' then ['s', 's']
  else if c = 'ﬀ' then ['f', 'f']
  else if c = 'ﬁ' then ['f', 'i']
  else if c = 'ﬂ' then ['f', 'l']
  else if c = 'ﬃ' then ['f', 'f', 'i']
  else if c = 'ﬄ' then ['f', 'f', 'l']
  else if c = 'ﬅ' ∨ c = 'ﬆ' then ['s', 't']
  else [c]

def casefold (s : String) : List Char := s.toList.flatMap casefoldChar

/-- `_false_xml_value`. -/
def falseXmlValue : Option String → Bool
  | none => false
  | some value => casefold value ∈ ["0".toList, "false".toList, "off".toList]

/-- `_true_xml_value`. -/
def trueXmlValue : Option String → Bool
  | none => false
  | some value => casefold value ∈ ["1".toList, "true".toList, "on".toList]

/-! ### Relationships -/

/-- `posixpath.dirname`. -/
def dirname (path : List Char) : List Char :=
  match Text.rpartition '/' path with
  | (none, _) => []
  | (some head, _) => if head.all (· = '/') then head ++ ['/'] else Text.rstrip (· = '/') head

/-- `posixpath.basename`. -/
def basename (path : List Char) : List Char := (Text.rpartition '/' path).2

/-- `posixpath.join`, of two parts. -/
def joinPath (path part : List Char) : List Char :=
  if ['/'].isPrefixOf part then part
  else if path = [] ∨ ['/'].isSuffixOf path then path ++ part
  else path ++ '/' :: part

/-- The components that are kept in `posixpath.normpath`, the last one first. -/
def normComponents (rooted : Bool) : List (List Char) → List (List Char) → List (List Char)
  | [], kept => kept
  | component :: rest, kept =>
    if component ∈ [[], ['.']] then normComponents rooted rest kept
    else if component ≠ ['.', '.'] ∨ (rooted = false ∧ kept = []) ∨ kept.head? =
      some ['.', '.'] then
      normComponents rooted rest (component :: kept)
    else normComponents rooted rest kept.tail

/-- `posixpath.normpath`. -/
def normpath (path : List Char) : List Char :=
  let slashes := if ['/', '/'].isPrefixOf path && !(['/', '/', '/'].isPrefixOf path) then ['/', '/']
    else if ['/'].isPrefixOf path then ['/'] else []
  let kept := normComponents (slashes ≠ []) (path.splitOn '/') []
  let joined := slashes ++ ['/'].intercalate kept.reverse
  if joined = [] then ['.'] else joined

/-- `_resolve_part_target`. -/
def resolvePartTarget (sourcePart target : List Char) : Except ParseError (List Char) :=
  if ['/'].isPrefixOf target ∨ ['\\'].isPrefixOf target ∨ Char.ofNat 0 ∈ target then
    .error unsafeArchivePath
  else
    let resolved := normpath (joinPath (dirname sourcePart) target)
    if "../".toList.isPrefixOf resolved ∨ resolved = "..".toList ∨ ['/'].isPrefixOf resolved then
      .error unsafeArchivePath
    else .ok resolved

/-- The target of one relationship. -/
def relationshipTarget (sourcePart : String) (relation : Element) :
    Except ParseError (String × String) := do
  let relationshipId := (relation.get ⟨"", "Id"⟩).getD ""
  let target := (relation.get ⟨"", "Target"⟩).getD ""
  if relationshipId = "" ∨ target = "" then .error invalidOoxml
  else
    let path ← resolvePartTarget sourcePart.toList target.toList
    return (relationshipId, String.ofList path)

/-- `_relationship_targets`: the last target of an id stands first. -/
def relationshipTargets (package : OoxmlArchive) (sourcePart : String) :
    Except ParseError (List (String × String)) := do
  let relationName := dirname sourcePart.toList ++ "/_rels/".toList ++ basename sourcePart.toList ++
    ".rels".toList
  let relationships ← package.readXml (String.ofList relationName)
  let targets ← (relationships.root.iter.filter fun e => e.name = "Relationship").mapM
    (relationshipTarget sourcePart)
  return targets.reverse

/-! ### Separators -/

/-- A character that the parsers may add or drop: white space, and what a table is drawn with. -/
def isSeparator (c : Char) : Bool := Text.isSpace c || c = '|' || c = '\\'

/-- A text without its separators. -/
def squash (s : List Char) : List Char := s.filter fun c => !isSeparator c

theorem squash_append (s t : List Char) : squash (s ++ t) = squash s ++ squash t :=
  List.filter_append ..

theorem squash_eq_nil_iff {s : List Char} : squash s = [] ↔ ∀ c ∈ s, isSeparator c = true := by
  simp [squash, List.filter_eq_nil_iff]

/-- Trimming drops separators only. -/
theorem squash_strip (s : List Char) : squash (Text.strip s) = squash s := by
  have hdrop : ∀ s : List Char, squash (s.dropWhile Text.isSpace) = squash s := by
    intro s
    have hsplit := List.takeWhile_append_dropWhile (p := Text.isSpace) (l := s)
    have hnil : squash (s.takeWhile Text.isSpace) = [] := by
      refine squash_eq_nil_iff.mpr fun c hc => ?_
      rw [isSeparator, List.mem_takeWhile_imp hc]
      rfl
    conv => rhs; rw [← hsplit]
    rw [squash_append, hnil, List.nil_append]
  have hreverse : ∀ s : List Char, squash s.reverse = (squash s).reverse :=
    fun s => List.filter_reverse ..
  rw [Text.strip, Text.stripChars, Text.rstrip, hreverse, hdrop, hreverse, hdrop,
    List.reverse_reverse]

theorem squash_joinText {separator : String} (h : ∀ c ∈ separator.toList, isSeparator c = true)
    (parts : List (List Char)) : squash (joinText separator parts) = parts.flatMap squash := by
  have hnil := squash_eq_nil_iff.mpr h
  rw [joinText]
  induction parts with
  | nil => rfl
  | cons part parts ih =>
    cases parts with
    | nil => simp [List.intercalate]
    | cons =>
      rw [List.intercalate_cons_cons, squash_append, squash_append, hnil, ih, List.append_nil]
      rfl

/-- Dropping empty texts changes nothing. -/
theorem flatMap_squash_filter (texts : List (List Char)) :
    (texts.filter (· ≠ [])).flatMap squash = texts.flatMap squash := by
  refine List.flatMap_filter_of_eq_nil fun s _ hs => ?_
  rw [show s = [] by simpa using hs]
  rfl

/-- Texts that are not empty do not vanish. -/
theorem joinText_eq_nil_iff {separator : String} {parts : List (List Char)}
    (h : ∀ part ∈ parts, part ≠ []) : joinText separator parts = [] ↔ parts = [] := by
  refine ⟨fun hnil => ?_, fun hnil => by rw [hnil]; rfl⟩
  cases parts with
  | nil => rfl
  | cons part parts =>
    refine absurd ?_ (h part List.mem_cons_self)
    cases parts with
    | nil => simpa [joinText] using hnil
    | cons =>
      rw [joinText, List.intercalate_cons_cons, List.append_assoc] at hnil
      exact (List.append_eq_nil_iff.mp hnil).1

/-! ### Contents -/

/-- A character of the text is not white space. -/
def hasContent (e : Element) : Bool := (contentOf e).any fun c => !Text.isSpace c

/-- The text of some elements, in their order. -/
def contentsOf (elements : List Element) : List Char :=
  elements.flatMap fun e => squash (contentOf e)

theorem contentsOf_append (es es' : List Element) :
    contentsOf (es ++ es') = contentsOf es ++ contentsOf es' := List.flatMap_append

theorem contentsOf_flatMap {α : Type} (l : List α) (f : α → List Element) :
    contentsOf (l.flatMap f) = l.flatMap fun a => contentsOf (f a) := List.flatMap_assoc

theorem hasContent_eq_false_iff {e : Element} :
    hasContent e = false ↔ ∀ c ∈ contentOf e, Text.isSpace c = true := by
  simp [hasContent]

theorem squash_flatMap_contentOf (es : List Element) :
    squash (es.flatMap contentOf) = contentsOf es := List.filter_flatMap ..

/-- White space adds nothing. -/
theorem contentsOf_filter (es : List Element) :
    contentsOf (es.filter hasContent) = contentsOf es := by
  refine List.flatMap_filter_of_eq_nil fun e _ he => ?_
  refine squash_eq_nil_iff.mpr fun c hc => ?_
  have hspace : Text.isSpace c = true := by
    rw [hasContent] at he
    simpa using List.any_eq_false.mp he c hc
  rw [isSeparator, hspace]
  rfl

end IChat.Files
