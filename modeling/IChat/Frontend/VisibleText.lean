import IChat.Conversations.SearchText
import IChat.General.Collapse

/-!
# The visible text of a message

`buildVisibleSearchText` walks the elements of a rendered message and collects the text by which
the message is searched, in UTF-16 units, with the points of the document that every unit stands
between. What is not part of the text (a block's borders, a line break, an excluded element) is
white space, and white space is collapsed.

A document is read as the list of its items: the units of its text nodes, and the gaps between
them (`Node.items`). `walk_eq_foldl`: the walk appends the items one after the other, but for SVG
elements, which it takes for no elements of the document at all: they are `svg` in the selector of
what is excluded, but no `HTMLElement`.
-/

namespace IChat.Frontend

open Conversations

/-- A unit of text in a text node. Text nodes are counted in tree order. -/
structure TextPoint where
  node : ℕ
  offset : ℕ
  deriving DecidableEq

/-- `SearchText`. -/
structure SearchText where
  text : List ℕ
  starts : List (Option TextPoint)
  ends : List (Option TextPoint)

/-- A node of the document: a text node with its units, an element of HTML, or one of SVG. -/
inductive Node
  | text (node : ℕ) (data : List ℕ)
  | element (tagName : String) (classes : List String) (attributes : List (String × String))
      (children : List Node)
  | svg

/-- `blocks`. -/
def blocks : List String :=
  ["P", "DIV", "PRE", "BLOCKQUOTE", "LI", "UL", "OL", "TABLE", "TR", "TD", "TH", "H1", "H2", "H3",
    "H4", "H5", "H6", "HR"]

/-- `node.matches(excluded)`, for an element of HTML. -/
def isExcluded (tagName : String) (classes : List String) (attributes : List (String × String)) :
    Bool :=
  tagName ∈ ["CITATION", "IMG", "SVG", "INPUT", "BUTTON", "IFRAME"] ∨
    (∃ name ∈ classes, name ∈ ["code-block-header", "katex", "katex-display", "citation-wrap"]) ∨
    (attributes.lookup "data-reply-quote-exclude").isSome ∨
    attributes.lookup "aria-hidden" = some "true"

/-- `\s`, for one unit. -/
def isSpaceUnit (unit : ℕ) : Bool :=
  unit ∈ [0x9, 0xA, 0xB, 0xC, 0xD, 0x20, 0xA0, 0x1680, 0x2028, 0x2029, 0x202F, 0x205F, 0x3000,
    0xFEFF] || (0x2000 ≤ unit && unit ≤ 0x200A)

def isHighSurrogate (unit : ℕ) : Bool := 0xD800 ≤ unit ∧ unit ≤ 0xDBFF

def isLowSurrogate (unit : ℕ) : Bool := 0xDC00 ≤ unit ∧ unit ≤ 0xDFFF

/-- `for (const char of text.data)`: a surrogate pair is one character. -/
def characters : List ℕ → List (List ℕ)
  | [] => []
  | [unit] => [[unit]]
  | high :: low :: rest =>
    if isHighSurrogate high ∧ isLowSurrogate low then [high, low] :: characters rest
    else [high] :: characters (low :: rest)

namespace SearchText

/-- The end of `append`: a character and the points of its units. -/
def push (output : SearchText) (char : List ℕ) (start stop : Option TextPoint) : SearchText where
  text := output.text ++ char
  starts := output.starts ++ (List.range char.length).map fun i =>
    start.map fun point => ⟨point.node, point.offset + i⟩
  ends := output.ends ++ (List.range char.length).map fun i =>
    stop.map fun point => ⟨point.node, point.offset - char.length + i + 1⟩

/-- `append`. -/
def append (output : SearchText) (char : List ℕ) (start stop : Option TextPoint) : SearchText :=
  if char.any isSpaceUnit then
    if output.text = [] ∨ output.text.getLast? = some 0x20 then
      if output.text.getLast? = some 0x20 ∧ stop.isSome then
        { output with ends := output.ends.dropLast ++ [stop] }
      else output
    else output.push [0x20] start stop
  else output.push char start stop

end SearchText

/-- The loop of `walk` over a text node, from an offset on. -/
def walkText (node : ℕ) : ℕ → SearchText → List (List ℕ) → SearchText
  | _, output, [] => output
  | offset, output, char :: chars =>
    walkText node (offset + char.length)
      (output.append char (some ⟨node, offset⟩) (some ⟨node, offset + char.length⟩)) chars

mutual

/-- `walk`, at the root or below it. -/
def walk (isRoot : Bool) (output : SearchText) : Node → SearchText
  | .text node data => walkText node 0 output (characters data)
  | .svg => output
  | .element tagName classes attributes children =>
    if isExcluded tagName classes attributes then output.append [0x20] none none
    else
      let block := tagName ∈ blocks ∧ ¬isRoot
      let output := if block ∨ tagName = "BR" then output.append [0x20] none none else output
      let output := walkAll output children
      if block then output.append [0x20] none none else output

/-- `node.childNodes.forEach(walk)`. -/
def walkAll (output : SearchText) : List Node → SearchText
  | [] => output
  | child :: children => walkAll (walk false output child) children

end

def buildVisibleSearchText (root : Node) : SearchText :=
  let output := walk true ⟨[], [], []⟩ root
  if output.text.getLast? = some 0x20 then
    ⟨output.text.dropLast, output.starts.dropLast, output.ends.dropLast⟩
  else output

/-- `rangeForMatch`: the boundary points of the range. -/
def rangeForMatch (projection : SearchText) (start stop : ℕ) : Option (TextPoint × TextPoint) := do
  let start' ← projection.starts[start]?
  let stop' ← projection.ends[stop - 1]?
  let start' ← start'
  let stop' ← stop'
  if stop ≤ start then none else some (start', stop')

/-! ### Items -/

/-- An item of a document: a unit of a text node, white space between text nodes, or an element of
SVG, which is excluded from the text. -/
inductive Item
  | unit (point : TextPoint) (value : ℕ)
  | gap
  | svg
  deriving DecidableEq

namespace Item

/-- The unit as which an item is read. -/
def value : Item → ℕ
  | unit _ value => value
  | _ => 0x20

/-- The boundary point in front of a unit. -/
def start : Item → Option TextPoint
  | unit point _ => some point
  | _ => none

/-- The boundary point behind a unit. -/
def stop : Item → Option TextPoint
  | unit point _ => some ⟨point.node, point.offset + 1⟩
  | _ => none

def isSvg : Item → Bool
  | svg => true
  | _ => false

end Item

/-- The items of a text node from an offset on. -/
def textItems (node : ℕ) : ℕ → List ℕ → List Item
  | _, [] => []
  | offset, value :: data => .unit ⟨node, offset⟩ value :: textItems node (offset + 1) data

mutual

/-- A node as it is read: the borders of a block, a line break and an excluded element are gaps. -/
def Node.items (isRoot : Bool) : Node → List Item
  | .text node data => textItems node 0 data
  | .svg => [.svg]
  | .element tagName classes attributes children =>
    if isExcluded tagName classes attributes then [.gap]
    else
      let block := tagName ∈ blocks ∧ ¬isRoot
      (if block ∨ tagName = "BR" then [.gap] else []) ++ itemsAll children ++
        if block then [.gap] else []

def itemsAll : List Node → List Item
  | [] => []
  | child :: children => Node.items false child ++ itemsAll children

end

/-- The items that the walk visits. -/
def visited (items : List Item) : List Item := items.filter fun item => !item.isSvg

/-- An item is appended. -/
def SearchText.appendItem (output : SearchText) (item : Item) : SearchText :=
  output.append [item.value] item.start item.stop

/-! ### The walk -/

theorem isSpaceUnit_eq_false_of_surrogate {unit : ℕ}
    (h : isHighSurrogate unit = true ∨ isLowSurrogate unit = true) : isSpaceUnit unit = false := by
  simp only [isHighSurrogate, isLowSurrogate, decide_eq_true_eq] at h
  simp only [isSpaceUnit, List.mem_cons, List.not_mem_nil, or_false, Bool.or_eq_false_iff,
    decide_eq_false_iff_not, Bool.and_eq_false_iff]
  omega

/-- A surrogate pair is appended unit by unit. -/
theorem append_pair (output : SearchText) {high low : ℕ} (node offset : ℕ)
    (hhigh : isHighSurrogate high = true) (hlow : isLowSurrogate low = true) :
    output.append [high, low] (some ⟨node, offset⟩) (some ⟨node, offset + 2⟩) =
      (output.appendItem (.unit ⟨node, offset⟩ high)).appendItem
        (.unit ⟨node, offset + 1⟩ low) := by
  have hhigh := isSpaceUnit_eq_false_of_surrogate (Or.inl hhigh)
  have hlow := isSpaceUnit_eq_false_of_surrogate (Or.inr hlow)
  simp [SearchText.appendItem, SearchText.append, Item.value, hhigh, hlow, SearchText.push,
    Item.start, Item.stop, List.range_succ]

theorem walkText_eq_foldl (node offset : ℕ) (output : SearchText) (data : List ℕ) :
    walkText node offset output (characters data) =
      (textItems node offset data).foldl SearchText.appendItem output := by
  induction data using characters.induct generalizing offset output with
  | case1 => rfl
  | case2 => rfl
  | case3 high low rest hpair ih =>
    rw [characters, if_pos hpair, walkText, List.length_cons, List.length_singleton,
      append_pair output node offset hpair.1 hpair.2, ih]
    rfl
  | case4 high low rest hpair ih =>
    rw [characters, if_neg hpair, walkText, ih]
    rfl

theorem visited_append (items items' : List Item) :
    visited (items ++ items') = visited items ++ visited items' := List.filter_append ..

theorem visited_textItems (node offset : ℕ) (data : List ℕ) :
    visited (textItems node offset data) = textItems node offset data := by
  induction data generalizing offset with
  | nil => rfl
  | cons value data ih =>
    exact congrArg (Item.unit ⟨node, offset⟩ value :: ·) (ih (offset + 1))

mutual

/-- **Walk.** The walk appends the items of the nodes that it visits. -/
theorem walk_eq_foldl (isRoot : Bool) (output : SearchText) :
    ∀ node : Node, walk isRoot output node =
      (visited (node.items isRoot)).foldl SearchText.appendItem output
  | .text node data => by
    rw [walk, Node.items, visited_textItems, walkText_eq_foldl]
  | .svg => rfl
  | .element tagName classes attributes children => by
    rw [walk, Node.items]
    by_cases hexcluded : isExcluded tagName classes attributes = true
    · rw [if_pos hexcluded, if_pos hexcluded]
      rfl
    · rw [if_neg hexcluded, if_neg hexcluded]
      dsimp only
      rw [visited_append, visited_append, List.foldl_append, List.foldl_append,
        walkAll_eq_foldl _ children]
      split_ifs <;> rfl

theorem walkAll_eq_foldl (output : SearchText) :
    ∀ children : List Node, walkAll output children =
      (visited (itemsAll children)).foldl SearchText.appendItem output
  | [] => rfl
  | child :: children => by
    rw [walkAll, itemsAll, visited_append, List.foldl_append, ← walk_eq_foldl false output child]
    exact walkAll_eq_foldl _ children

end

end IChat.Frontend
