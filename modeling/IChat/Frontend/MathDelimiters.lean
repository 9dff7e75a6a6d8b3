import IChat.Frontend.ConversationIndex
import IChat.General.Delimiters
import IChat.General.Text
import Mathlib.Data.List.Forall2

/-!
# The math delimiters of an answer

`normalizeMathDelimiters` leaves the code of an answer alone. In the rest `rewrite` puts `$$` for
the pairs `\[…\]` and then for the pairs `\(…\)`, and `reflowMathRegions` lays out the regions
between one `$$` and the next.

`OnlyDelimiters` states what this must not touch. The text outside code is read from the left: its
`regions`, the pairs that open inside one (`InsideRegion`), and its `content`, the letters that are
no white space and belong to no delimiter.
-/

namespace IChat.Frontend

open Delimiters

/-! ### Code -/

def backtick : Char := Char.ofNat 96

/-- `[\s\S]*?(?:fence|$)`, what follows it. -/
def afterFence (fence text : List Char) : List Char :=
  match cut fence text with
  | some (_, rest) => rest
  | none => []

def dollars : List Char := ['$', '$']

/-- `String.prototype.trim`. -/
def trim (text : List Char) : List Char := Text.stripChars isJsSpace text

def displayMath (body : List Char) : List Char :=
  "\n\n$$\n".toList ++ trim body ++ "\n$$\n\n".toList

def inlineMath (body : List Char) : List Char := dollars ++ trim body ++ dollars

/-- The first replacement of `rewrite`. -/
def rewriteDisplay (text : List Char) : List Char :=
  replaceAll ['\\', '['] ['\\', ']'] displayMath text

/-- The second replacement of `rewrite`. -/
def rewriteInline (text : List Char) : List Char :=
  replaceAll ['\\', '('] ['\\', ')'] inlineMath text

def rewrite (text : List Char) : List Char := rewriteInline (rewriteDisplay text)

/-! ### `reflowMathRegions` -/

/-- `[ \t]`. -/
def isBlank (c : Char) : Bool := c = ' ' || c = '\t'

/-- `\r?\n`, what follows it. -/
def afterNewline : List Char → Option (List Char)
  | '\n' :: rest => some rest
  | '\r' :: '\n' :: rest => some rest
  | _ => none

/-- What follows a match of `FOLD_NEWLINES` at the start of a text. -/
def foldAt (text : List Char) : Option (List Char) :=
  (afterNewline (text.dropWhile isBlank)).map (List.dropWhile isBlank)

/-- `raw.replace(FOLD_NEWLINES, " ")`. -/
def foldNewlines (text : List Char) : List Char :=
  substitute (fun t => (foldAt t).map fun rest => ([' '], rest)) text

/-- `BLOCK_OPENER_TAIL.test(raw)`. -/
def opensBlock (raw : List Char) : Bool := (afterNewline (raw.dropWhile isBlank)).isSome

/-- `/(?:^|\n)[ \t]*$/.test(out)`. -/
def lineLeading (out : List Char) : Bool :=
  match out.reverse.dropWhile isBlank with
  | [] => true
  | c :: _ => c = '\n'

/-- The body of a region, as it is written. -/
def foldedBody (raw : List Char) : List Char := trim (foldNewlines raw)

/-- The white space before a block. -/
def padding (out : List Char) : List Char :=
  if out ≠ [] ∧ ¬"\n\n".toList <:+ out then
    if "\n".toList <:+ out then "\n".toList else "\n\n".toList
  else []

/-- What a region adds to the output. -/
def written (out raw : List Char) : List Char :=
  if lineLeading out ∧ opensBlock raw then
    padding out ++ "$$\n".toList ++ foldedBody raw ++ "\n$$\n\n".toList
  else dollars ++ foldedBody raw ++ dollars

/-- Two characters that are a delimiter. -/
def isDelimiter (a b : Char) : Bool :=
  a = '$' && b = '$' || a = '\\' && (b = '[' || b = ']' || b = '(' || b = ')')

/-- A character that may be the first one of a delimiter waits for the next one. -/
def readChar (c : Char) : List Char × Option Char :=
  if c = '$' ∨ c = '\\' then ([], some c) else if isJsSpace c then ([], none) else ([c], none)

/-- What is read as content at a character, and what waits behind it. -/
def step : Option Char → Char → List Char × Option Char
  | none, c => readChar c
  | some a, c => if isDelimiter a c then ([], none) else (a :: (readChar c).1, (readChar c).2)

/-- The characters of a text that are no white space and belong to no delimiter. -/
def contentFrom : Option Char → List Char → List Char
  | waiting, [] => waiting.toList
  | waiting, c :: text => (step waiting c).1 ++ contentFrom (step waiting c).2 text

def content (text : List Char) : List Char := contentFrom none text

/-- Some newlines of a text have become spaces, each with the blanks around it. -/
inductive Folds : List Char → List Char → Prop
  | nil : Folds [] []
  | keep {t t' : List Char} (c : Char) (h : Folds t t') : Folds (c :: t) (c :: t')
  | fold {u newline v t t' : List Char} (hu : ∀ c ∈ u, isBlank c = true)
      (hnewline : newline = ['\n'] ∨ newline = ['\r', '\n']) (hv : ∀ c ∈ v, isBlank c = true)
      (h : Folds t t') : Folds (u ++ (newline ++ (v ++ t))) (' ' :: t')

/-- The bodies of two formulas are the same up to the folding of newlines and trimming. -/
def SameBody (body out : List Char) : Prop :=
  ∃ t folded, trim t = trim body ∧ Folds t folded ∧ trim folded = trim out

/-- The balanced `$$…$$` regions of a text that follows `before`: the content before each, and its
body. -/
def regionsAfter : ℕ → List Char → List Char → List (List Char × List Char)
  | 0, _, _ => []
  | fuel + 1, before, text =>
    match cut dollars text with
    | none => []
    | some (plain, after) =>
      match cut dollars after with
      | none => []
      | some (raw, rest) =>
        (content (before ++ plain), raw) ::
          regionsAfter fuel (before ++ plain ++ dollars ++ raw ++ dollars) rest

def regions (text : List Char) : List (List Char × List Char) := regionsAfter text.length [] text

/-- How many `$$` a text has, read from the left. -/
def marks : List Char → ℕ
  | a :: b :: text => if a = '$' ∧ b = '$' then marks text + 1 else marks (b :: text)
  | _ => 0

/-- What follows a text is inside a region, which may be an unterminated one. -/
def InsideRegion (before : List Char) : Prop := marks before % 2 = 1

/-- The two kinds of pairs, `\[…\]` and `\(…\)`. -/
inductive PairKind where
  | display
  | inline
  deriving DecidableEq

def PairKind.opener : PairKind → List Char
  | .display => ['\\', '[']
  | .inline => ['\\', '(']

def PairKind.closer : PairKind → List Char
  | .display => ['\\', ']']
  | .inline => ['\\', ')']

/-- The body of a pair at the start of a text, and what follows the pair. -/
def PairKind.find (kind : PairKind) (text : List Char) : Option (List Char × List Char) :=
  delimited kind.opener kind.closer text

/-- The pairs of a kind open outside every region, and the body of each is that of a region of the
output, behind the same content. -/
def PairsKept (kind : PairKind) (text out : List Char) : Prop :=
  ∀ p ∈ pairs kind.opener kind.closer [] text, ¬InsideRegion p.1 ∧
    ∀ found ∈ kind.find p.2, ∃ r ∈ regions out, content p.1 = r.1 ∧ SameBody found.1 r.2

/-- Only delimiters are touched in a text outside code: the regions are found in the output in their
order, each behind the same content and with the same body, and so are the pairs, which open
outside the regions. -/
structure Kept (text out : List Char) : Prop where
  regions : List.SublistForall₂ (fun r r' => r.1 = r'.1 ∧ SameBody r.2 r'.2) (regions text)
    (regions out)
  pairs : ∀ kind, PairsKept kind text out
  content : content out = content text

end IChat.Frontend
