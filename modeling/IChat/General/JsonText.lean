import IChat.General.Json
import IChat.General.Text

/-!
# JSON texts

`json.dumps` of a value, with `ensure_ascii=False`: it is determined by the texts that separate the
items and stand behind the keys.
-/

namespace Json

mutual

/-- `json.dumps(value, ensure_ascii=False, separators=(itemSep, keySep))`. -/
def dumps (itemSep keySep : String) : Json → String
  | .null => "null"
  | .bool b => if b then "true" else "false"
  | .int n => toString n
  | .float literal => literal
  | .str s => String.ofList (Text.jsonString s.toList)
  | .arr items => "[" ++ itemSep.intercalate (dumpsItems itemSep keySep items) ++ "]"
  | .obj fields => "\x7b" ++ itemSep.intercalate (dumpsFields itemSep keySep fields) ++ "\x7d"
termination_by structural value => value

/-- The items of an array. -/
def dumpsItems (itemSep keySep : String) : List Json → List String
  | [] => []
  | item :: items => dumps itemSep keySep item :: dumpsItems itemSep keySep items
termination_by structural items => items

/-- The fields of an object. -/
def dumpsFields (itemSep keySep : String) : List (String × Json) → List String
  | [] => []
  | field :: fields => dumpsField itemSep keySep field :: dumpsFields itemSep keySep fields
termination_by structural fields => fields

/-- One field of an object. -/
def dumpsField (itemSep keySep : String) : String × Json → String
  | (key, value) => String.ofList (Text.jsonString key.toList) ++ keySep ++
      dumps itemSep keySep value
termination_by structural field => field

end

example : dumps ", " ": " (.obj [("a", .arr [.int 1, .null]), ("b", .str "x")]) =
    "\x7b\"a\": [1, null], \"b\": \"x\"\x7d" := by
  decide

end Json
