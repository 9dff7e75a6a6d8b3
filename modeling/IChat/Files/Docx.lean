import Mathlib.Algebra.GroupWithZero.Nat
import IChat.Files.Ooxml

/-!
# The text of a Word document

`_parse_docx` reads the paragraphs and the tables that are children of the body. Within a paragraph
it visits all elements, but for those that are deleted, moved away or in a hidden run; within a cell
of a table it visits every paragraph that is found at any depth.

The functions collect `DocxPart`s, which keep the element that a text comes from, and are rendered
at the end. `squash_docxText`: up to separators the rendered text is that of the elements that were
read (`readElements`), in their order.
-/

namespace IChat.Files

open Xml

/-- `MAX_DOCX_NODES`. -/
def maxDocxNodes : ℕ := 100000

/-- What `_docx_visible_text` appends. -/
inductive DocxPart
  | text (element : Element)
  | tab
  | newline

def DocxPart.rendered : DocxPart → List Char
  | text element => contentOf element
  | tab => ['\t']
  | newline => ['\n']

def DocxPart.element? : DocxPart → Option Element
  | text element => some element
  | _ => none

/-- An element whose content is deleted or moved away. -/
def isDeleted (e : Element) : Bool := e.name ∈ ["del", "moveFrom"]

/-- `_docx_run_is_hidden`. -/
def docxRunIsHidden (run : Element) : Bool :=
  run.iter.any fun e => e.name ∈ ["vanish", "webHidden", "specVanish"]

mutual

/-- `visit`, in `_docx_visible_text`. -/
def visit (hidden deleted : Bool) : Element → List DocxPart
  | .mk id tag attrib text children =>
    let node := Element.mk id tag attrib text children
    let nodeDeleted := deleted || isDeleted node
    let nodeHidden := hidden || (tag.localName = "r" && docxRunIsHidden node)
    if tag.localName = "t" ∧ nodeDeleted = false ∧ nodeHidden = false then [.text node]
    else if tag.localName = "tab" ∧ nodeDeleted = false ∧ nodeHidden = false then [.tab]
    else if tag.localName ∈ ["br", "cr"] ∧ nodeDeleted = false ∧ nodeHidden = false then [.newline]
    else visitAll nodeHidden nodeDeleted children

def visitAll (hidden deleted : Bool) : List Element → List DocxPart
  | [] => []
  | e :: es => visit hidden deleted e ++ visitAll hidden deleted es

end

/-- The elements whose text is in the parts. -/
def elementsOf (parts : List DocxPart) : List Element := parts.filterMap DocxPart.element?

/-- The parts of an element. -/
def docxParts (e : Element) : List DocxPart := visit false false e

/-- `_docx_visible_text`. -/
def docxVisibleText (e : Element) : List Char × ℕ :=
  (Text.strip ((docxParts e).flatMap DocxPart.rendered), (elementsOf (docxParts e)).length)

/-- The children with a name. -/
def childrenNamed (name : String) (e : Element) : List Element :=
  e.children.filter fun c => c.name = name

/-- The elements at any depth with a name. -/
def allNamed (name : String) (e : Element) : List Element := e.iter.filter fun c => c.name = name

/-- The text of a cell. -/
def docxCellText (cell : Element) : List Char :=
  joinText " " (((allNamed "p" cell).map fun p => (docxVisibleText p).1).filter (· ≠ []))

/-- `cell.replace("|", "\\|").replace("\n", " ")`. -/
def escapeCell (cell : List Char) : List Char :=
  cell.flatMap fun c => if c = '|' then ['\\', '|'] else if c = '\n' then [' '] else [c]

/-- The line of a row, if it is not empty. -/
def docxRowText (row : Element) : Option (List Char) :=
  let cells := (childrenNamed "tc" row).map docxCellText
  if cells.any (· ≠ []) then
    some ("| ".toList ++ joinText " | " (cells.map escapeCell) ++ " |".toList)
  else none

/-- `_docx_table_text`. -/
def docxTableText (table : Element) : List (List Char) × ℕ :=
  ((childrenNamed "tr" table).filterMap docxRowText,
    (((childrenNamed "tr" table).flatMap (childrenNamed "tc")).flatMap (allNamed "p")).map
      (fun p => (docxVisibleText p).2) |>.sum)

/-- The text of a child of the body, if there is any, and the number of its nodes. -/
def docxBlock (child : Element) : Option (List Char) × ℕ :=
  if child.name = "p" then
    let (paragraph, count) := docxVisibleText child
    (if paragraph = [] then none else some paragraph, count)
  else if child.name = "tbl" then
    let (lines, count) := docxTableText child
    (if lines = [] then none else some (joinText "\n" lines), count)
  else (none, 0)

/-- The loop over the children of the body: the blocks and the number of nodes, and whether it ended
at the limit. -/
def docxBlocks : List Element → List (List Char) → ℕ → List (List Char) × ℕ × Bool
  | [], blocks, count => (blocks, count, false)
  | child :: rest, blocks, count =>
    let (block, added) := docxBlock child
    let blocks := blocks ++ block.toList
    if maxDocxNodes < count + added then (blocks, count + added, true)
    else docxBlocks rest blocks (count + added)

/-- The first element with the name `body`. -/
def docxBody (root : Element) : Option Element := root.iter.find? fun e => e.name = "body"

/-- `has_visual_content`. -/
def hasVisualContent (package : OoxmlArchive) (root : Element) : Bool :=
  (root.iter.any fun e => e.name ∈ ["drawing", "pict", "object"]) ||
    package.names.any fun name => "word/media/".toList.isPrefixOf name.toList

/-- `_parse_docx`. -/
def parseDocx (package : OoxmlArchive) : Except ParseError ProcessedFile := do
  let document ← package.readXml "word/document.xml"
  match docxBody document.root with
  | none => .error invalidOoxml
  | some body =>
    let (blocks, nodeCount, limited) := docxBlocks body.children [] 0
    let metadata : Dict := [("extractable_nodes", .int nodeCount)]
    if limited then
      .ok ⟨none, mergeWarnings [package.warnings, [warningComplexityLimit]], metadata, "docx-v1"⟩
    else
      let text := Text.strip (joinText "\n\n" blocks)
      if text = [] then
        .ok ⟨none, mergeWarnings [package.warnings, [warningNoExtractableText]], metadata,
          "docx-v1"⟩
      else
        let warnings := mergeWarnings [package.warnings,
          if hasVisualContent package document.root then [warningPartialContent] else []]
        .ok ⟨some text, warnings, metadata, "docx-v1"⟩

/-! ### What is read -/

/-- The paragraphs that are visited in a child of the body. -/
def visitedParagraphs (child : Element) : List Element :=
  if child.name = "p" then [child]
  else if child.name = "tbl" then
    ((childrenNamed "tr" child).flatMap (childrenNamed "tc")).flatMap (allNamed "p")
  else []

/-- The elements whose text is read in a list of children of the body. -/
def readIn (children : List Element) : List Element :=
  (children.flatMap visitedParagraphs).flatMap fun p => elementsOf (docxParts p)

/-- The elements whose text `_parse_docx` returns: none at the limit. -/
def readElements (body : Element) : List Element :=
  if (docxBlocks body.children [] 0).2.2 then [] else readIn body.children

section rendering

variable {e cell row table child body : Element} {children : List Element}

/-- The content of the elements of some parts. -/
theorem squash_rendered (parts : List DocxPart) :
    squash (parts.flatMap DocxPart.rendered) = (elementsOf parts).flatMap fun e =>
      squash (contentOf e) := by
  induction parts with
  | nil => rfl
  | cons part parts ih =>
    rw [List.flatMap_cons, squash_append, ih]
    cases part with
    | text => rfl
    | tab => rfl
    | newline => rfl

theorem squash_docxVisibleText (e : Element) :
    squash (docxVisibleText e).1 = contentsOf (elementsOf (docxParts e)) := by
  rw [docxVisibleText, squash_strip, squash_rendered]
  rfl

theorem squash_docxCellText (cell : Element) : squash (docxCellText cell) =
    contentsOf ((allNamed "p" cell).flatMap fun p => elementsOf (docxParts p)) := by
  rw [docxCellText, squash_joinText (Text.forall_mem_of_all (by decide)), flatMap_squash_filter,
    List.flatMap_map, contentsOf_flatMap]
  exact List.flatMap_congr fun p _ => squash_docxVisibleText p

theorem squash_escapeCell (s : List Char) : squash (escapeCell s) = squash s := by
  induction s with
  | nil => rfl
  | cons c s ih =>
    rw [escapeCell, List.flatMap_cons, squash_append]
    rw [escapeCell] at ih
    rw [ih]
    show _ = squash ([c] ++ s)
    rw [squash_append]
    congr 1
    split_ifs with hpipe hline
    · rw [hpipe]
      decide
    · rw [hline]
      decide
    · rfl

theorem squash_docxRowText (row : Element) : squash ((docxRowText row).getD []) =
    contentsOf ((childrenNamed "tc" row).flatMap fun cell =>
      (allNamed "p" cell).flatMap fun p => elementsOf (docxParts p)) := by
  have hcells : ((childrenNamed "tc" row).map docxCellText).flatMap squash =
      contentsOf ((childrenNamed "tc" row).flatMap fun cell =>
        (allNamed "p" cell).flatMap fun p => elementsOf (docxParts p)) := by
    rw [List.flatMap_map, contentsOf_flatMap]
    exact List.flatMap_congr fun cell _ => squash_docxCellText cell
  rw [docxRowText]
  split_ifs with hany
  · have hopen : squash "| ".toList = [] := by decide
    have hclose : squash " |".toList = [] := by decide
    rw [Option.getD_some, squash_append, squash_append, hopen, hclose,
      squash_joinText (Text.forall_mem_of_all (by decide)), List.nil_append, List.append_nil,
      List.flatMap_map, ← hcells]
    exact List.flatMap_congr fun cell _ => squash_escapeCell cell
  · rw [Option.getD_none, ← hcells]
    have hempty : ∀ cell ∈ (childrenNamed "tc" row).map docxCellText, cell = [] := by
      simpa using hany
    refine (List.flatMap_eq_nil_iff.mpr fun cell hcell => ?_).symm
    rw [hempty cell hcell]
    rfl

/-- The lines of a table. -/
theorem squash_docxTableText (table : Element) :
    (docxTableText table).1.flatMap squash = contentsOf ((((childrenNamed "tr" table).flatMap
      (childrenNamed "tc")).flatMap (allNamed "p")).flatMap fun p => elementsOf (docxParts p)) := by
  rw [docxTableText, contentsOf_flatMap, List.flatMap_assoc, List.flatMap_assoc]
  dsimp only
  induction childrenNamed "tr" table with
  | nil => rfl
  | cons row rows ih =>
    have hrow : squash ((docxRowText row).getD []) =
        ((childrenNamed "tc" row).flatMap (allNamed "p")).flatMap fun p =>
          contentsOf (elementsOf (docxParts p)) := by
      rw [squash_docxRowText, contentsOf_flatMap, List.flatMap_assoc]
      exact List.flatMap_congr fun cell _ => contentsOf_flatMap _ _
    rw [List.flatMap_cons, ← ih, ← hrow, List.filterMap_cons]
    cases docxRowText row with
    | none => rfl
    | some => rfl

/-- The text of a child of the body. -/
theorem squash_docxBlock (child : Element) :
    squash ((docxBlock child).1.getD []) = contentsOf (readIn [child]) := by
  rw [readIn, List.flatMap_singleton, visitedParagraphs, docxBlock]
  split_ifs with hp htbl
  · rw [List.flatMap_singleton]
    refine Eq.trans ?_ (squash_docxVisibleText child)
    dsimp only
    split_ifs with hnil
    · rw [hnil]
      rfl
    · rfl
  · refine Eq.trans ?_ (squash_docxTableText child)
    dsimp only
    split_ifs with hnil
    · rw [hnil]
      rfl
    · exact squash_joinText (Text.forall_mem_of_all (by decide)) _
  · rfl

/-- The blocks hold the text of the children that were read. -/
theorem squash_docxBlocks (children : List Element) (blocks : List (List Char)) (count : ℕ)
    (h : (docxBlocks children blocks count).2.2 = false) :
    (docxBlocks children blocks count).1.flatMap squash =
      blocks.flatMap squash ++ contentsOf (readIn children) := by
  induction children generalizing blocks count with
  | nil => exact (List.append_nil _).symm
  | cons child rest ih =>
    rw [docxBlocks] at h ⊢
    dsimp only at h ⊢
    split_ifs at h ⊢ with hlimit
    · have hblock : (docxBlock child).1.toList.flatMap squash = contentsOf (readIn [child]) := by
        rw [← squash_docxBlock]
        cases (docxBlock child).1 with
        | none => rfl
        | some => exact List.append_nil _
      have hread : readIn (child :: rest) = readIn [child] ++ readIn rest := by
        rw [readIn, readIn, readIn, ← List.flatMap_append, ← List.flatMap_append,
          List.singleton_append]
      rw [ih _ _ h, List.flatMap_append, hblock, hread, contentsOf_append, List.append_assoc]

/-- **The text** of the result is that of the elements that are read. -/
theorem squash_docxText {package : OoxmlArchive} {document : Document}
    (hread : package.readXml "word/document.xml" = .ok document)
    (hbody : docxBody document.root = some body) : ∃ result, parseDocx package = .ok result ∧
      squash (result.text.getD []) = contentsOf (readElements body) := by
  rw [parseDocx, hread]
  dsimp only [bind, Except.bind]
  rw [hbody]
  dsimp only
  have hblocks := squash_docxBlocks body.children [] 0
  rw [readElements]
  generalize docxBlocks body.children [] 0 = loop at hblocks ⊢
  obtain ⟨blocks, nodeCount, limited⟩ := loop
  dsimp only at hblocks ⊢
  cases limited with
  | true => exact ⟨_, rfl, rfl⟩
  | false =>
    have htext : squash (Text.strip (joinText "\n\n" blocks)) =
      contentsOf (readIn body.children) := by
      rw [squash_strip, squash_joinText (Text.forall_mem_of_all (by decide)), hblocks rfl]
      rfl
    rw [if_neg Bool.false_ne_true, if_neg Bool.false_ne_true]
    by_cases hnil : Text.strip (joinText "\n\n" blocks) = []
    · rw [if_pos hnil, ← htext, hnil]
      exact ⟨_, rfl, rfl⟩
    · rw [if_neg hnil]
      exact ⟨_, rfl, htext⟩

end rendering

end IChat.Files
