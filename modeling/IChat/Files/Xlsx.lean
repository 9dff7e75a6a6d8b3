import IChat.Files.XlsxColumns

/-!
# The text of a workbook

`_parse_xlsx` goes through the sheets that are not hidden and reads of each the cells whose row and
column are not hidden, in the order of the document. A cell that has a value gives one row of text;
a limit bounds the rows of all sheets together. What `_excel_date_value` makes of a serial number is
a parameter (`ExcelDates`): it is a matter of floating point and of the calendar.
-/

namespace IChat.Files

open Xml

/-- `_excel_date_value`, by `date_1904`; a text that is no number is left as it is. -/
structure ExcelDates where
  value : Bool → List Char → List Char
  value_eq_nil_iff : ∀ date1904 text, value date1904 text = [] ↔ text = []

/-- What the values of the cells depend on. -/
structure CellContext where
  excelDates : ExcelDates
  sharedStrings : List (List Char)
  dateStyles : List ℕ
  date1904 : Bool

/-- `shared_strings[index]`, or none where it raises: negative indexes count from the end. -/
def indexed {α : Type} (l : List α) (index : ℤ) : Option α :=
  if 0 ≤ index then l[index.toNat]?
  else if 0 ≤ l.length + index then l[(l.length + index).toNat]? else none

/-- The text of the first `v`, if it has one. -/
def rawValueOf (cell : Element) : Option (List Char) :=
  ((cell.children.find? fun e => e.name = "v").bind Element.text).map String.toList

/-- Whether the style of a cell formats dates. -/
def hasDateStyle (context : CellContext) (cell : Element) : Except ParseError Bool :=
  match cell.get ⟨"", "s"⟩ with
  | none => .ok false
  | some style =>
    if !Text.isDigits style.toList then .ok false
    else do
      let index ← columnNumberOf style
      return index ∈ context.dateStyles

/-- `_xlsx_raw_cell_value`. -/
def xlsxRawCellValue (context : CellContext) (cell : Element) :
    Except ParseError (Option (List Char)) :=
  let cellType := cell.get ⟨"", "t"⟩
  if cellType = some "inlineStr" then
    let value := (cell.iter.filter fun e => e.name = "t").flatMap contentOf
    .ok (if value = [] then none else some value)
  else
    match rawValueOf cell with
    | none => .ok none
    | some rawValue =>
      if cellType = some "s" then
        match (Text.parseInt rawValue).bind (indexed context.sharedStrings) with
        | none => .error invalidOoxml
        | some shared => .ok (some shared)
      else if cellType = some "b" then
        .ok (some (if rawValue = ['1'] then "TRUE".toList
          else if rawValue = ['0'] then "FALSE".toList else rawValue))
      else if cellType = some "d" then .ok (some rawValue)
      else do
        let isDate ← hasDateStyle context cell
        return some <|
          if isDate then context.excelDates.value context.date1904 rawValue else rawValue

/-- The text of a formula, from its equals sign on. -/
def formulaValue (formula : Element) : List Char :=
  let formulaText := contentOf formula
  if ['='].isPrefixOf formulaText then formulaText else '=' :: formulaText

/-- `_xlsx_cell_value`. -/
def xlsxCellValue (context : CellContext) (cell : Element) :
    Except ParseError (Option (List Char)) :=
  match cell.children.find? fun e => e.name = "f" with
  | none => xlsxRawCellValue context cell
  | some formula => do
    let cached ← xlsxRawCellValue context cell
    return some <|
      match cached with
      | some cached => formulaValue formula ++ " (cached: ".toList ++ cached ++ [')']
      | none => formulaValue formula

/-! ### The cells of a sheet -/

/-- `{reference}: {value}`. -/
def cellRow (reference : String) (value : List Char) : List Char :=
  reference.toList ++ ": ".toList ++ value

end IChat.Files
