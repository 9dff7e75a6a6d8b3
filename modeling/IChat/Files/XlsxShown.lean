import IChat.Files.OoxmlParts
import IChat.General.BijectiveNumeral
import IChat.General.Digits

/-!
# What a workbook shows

A workbook as its parts describe it, whatever is made of it: which sheets, rows and columns are
hidden, what a cell holds in its encoding, and what it shows. How the number in a cell is displayed
is a parameter, as it depends on the calendar for the styles of dates.
-/

namespace IChat.Files

open Xml

/-! ### Sheets -/

/-- The state of a sheet does not hide it. -/
def sheetIsShown (sheet : Element) : Bool :=
  !falseXmlValue (sheet.get ⟨"", "state"⟩) && sheet.get ⟨"", "state"⟩ ≠ some "hidden" &&
    sheet.get ⟨"", "state"⟩ ≠ some "veryHidden"

/-- The sheets that are shown, by name and part, in the order of the workbook. -/
def shownSheets (package : OoxmlArchive) : List (String × String) :=
  match package.readXml "xl/workbook.xml" with
  | .error _ => []
  | .ok workbook =>
    (workbook.root.iter.filter fun e => e.name = "sheet" && sheetIsShown e).map fun sheet =>
      ((sheet.get ⟨"", "name"⟩).getD "",
        (relationshipPart package "xl/workbook.xml" "xl/_rels/workbook.xml.rels"
          ((sheet.get ⟨relNs, "id"⟩).getD "")).getD "")

/-! ### Rows and columns -/

/-- The reference of a cell. -/
def cellReference (cell : Element) : String := (cell.get ⟨"", "r"⟩).getD ""

/-- The column of a reference such as `AB12`: its letters are a numeral, with the digits from `A`
for one to `Z` for twenty-six. -/
def columnOf (reference : String) : ℕ :=
  BijectiveNumeral.value 26 ((reference.toList.takeWhile Char.isAlpha).map fun c =>
    c.toUpper.toNat - 'A'.toNat + 1)

/-- The number in an attribute. -/
def attributeNumber (e : Element) (key : String) : Option ℕ :=
  (e.get ⟨"", key⟩).bind fun text => Text.parseNatural text.toList

/-- A column that lies between the bounds of a `col` element that is switched off. -/
def ColumnHidden (worksheet : Element) (column : ℕ) : Prop :=
  ∃ col ∈ worksheet.iter, col.name = "col" ∧ trueXmlValue (col.get ⟨"", "hidden"⟩) = true ∧
    (∃ lower ∈ attributeNumber col "min", lower ≤ column) ∧
    ∃ upper ∈ attributeNumber col "max", column ≤ upper

instance (worksheet : Element) (column : ℕ) : Decidable (ColumnHidden worksheet column) :=
  inferInstanceAs (Decidable (∃ col ∈ worksheet.iter, _))

/-- The cells of the rows and columns that are shown, in the order of the worksheet. -/
def shownCells (worksheet : Element) : List Element :=
  (worksheet.iter.filter fun e =>
      e.name = "row" && !trueXmlValue (e.get ⟨"", "hidden"⟩)).flatMap fun row =>
    row.children.filter fun e =>
      e.name = "c" && !decide (ColumnHidden worksheet (columnOf (cellReference e)))

/-- The cells that are shown of a part. -/
def partCells (package : OoxmlArchive) (path : String) : List Element :=
  match package.readXml path with
  | .error _ => []
  | .ok worksheet => shownCells worksheet.root

/-! ### Contents -/

/-- The text of a string: that of its runs, as it is. -/
def stringText (e : Element) : List Char := (e.iter.filter fun t => t.name = "t").flatMap contentOf

/-- The strings that the cells of a workbook share. -/
def sharedTexts (package : OoxmlArchive) : List (List Char) :=
  match package.readXml "xl/sharedStrings.xml" with
  | .error _ => []
  | .ok strings => (strings.root.iter.filter fun e => e.name = "si").map stringText

/-- What a cell holds beside a formula, in its encoding. -/
inductive CellData
  | inlineString (text : List Char)
  /-- The index of a shared string. -/
  | sharedString (raw : List Char)
  | boolean (raw : List Char)
  | isoDate (raw : List Char)
  /-- A number, or a text that stands as it is. -/
  | plain (raw : List Char)

/-- What a cell holds: its text if it is an inline string that is not empty, and its value
otherwise. -/
def cellData (cell : Element) : Option CellData :=
  let value := (cell.children.find? fun e => e.name = "v").bind Element.text
  match cell.get ⟨"", "t"⟩ with
  | some "inlineStr" =>
      if stringText cell = [] then none else some (.inlineString (stringText cell))
  | some "s" => value.map fun raw => .sharedString raw.toList
  | some "b" => value.map fun raw => .boolean raw.toList
  | some "d" => value.map fun raw => .isoDate raw.toList
  | _ => value.map fun raw => .plain raw.toList

/-- The formula of a cell, with its equals sign. -/
def cellFormula (cell : Element) : Option (List Char) :=
  (cell.children.find? fun e => e.name = "f").map fun formula =>
    '=' :: (match contentOf formula with
      | '=' :: rest => rest
      | text => text)

/-- A cell with a formula or a value. -/
def holdsValue (cell : Element) : Bool := (cellFormula cell).isSome || (cellData cell).isSome

section contents

variable (display : Element → List Char → List Char) (strings : List (List Char)) (cell : Element)

/-- What a cell shows of what it holds. A shared string is the one at the index, counted from
zero. -/
def CellData.shown : CellData → List Char
  | .inlineString text => text
  | .sharedString raw =>
    match Text.parseInt raw with
    | some (.ofNat index) => strings[index]?.getD []
    | _ => []
  | .boolean raw =>
    if raw = ['1'] then "TRUE".toList else if raw = ['0'] then "FALSE".toList else raw
  | .isoDate raw => raw
  | .plain raw => display cell raw

/-- What a cell shows: the formula comes with the value that is kept of it. -/
def shownContent : List Char :=
  match cellFormula cell, (cellData cell).map (CellData.shown display strings cell) with
  | none, none => []
  | none, some value => value
  | some formula, none => formula
  | some formula, some value => formula ++ " (cached: ".toList ++ value ++ ")".toList

/-- A cell that is not empty, as it is to be extracted: what it shows, behind its reference. -/
def shownRow : List Char := (cellReference cell).toList ++ ": ".toList ++
    shownContent display strings cell

end contents

/-- The sheets that are shown, each with the cells that are not empty. -/
def shownRows (display : Element → List Char → List Char) (package : OoxmlArchive) :
    List (String × List (List Char)) :=
  (shownSheets package).map fun sheet =>
    (sheet.1, ((partCells package sheet.2).filter fun cell =>
      shownContent display (sharedTexts package) cell ≠ []).map
        (shownRow display (sharedTexts package)))

end IChat.Files
