import IChat.General.Framing
import IChat.Runs.Events

/-!
# The framing of run events

`format_sse_event` writes a run event as a frame of a server-sent event stream, and the frontend's
`SseParser` (`sse.ts`) reads the frames back from whatever pieces of the stream arrive. Its buffer
is a string of UTF-16 code units, so a piece may end within a character.

The frames of any text are the same in whatever pieces it arrives (`SseParser.events_eq`), and those
of formatted events are the events (`SseParser.roundTrip`). `model_dump_json` of the serialisation
library is a parameter; what is relied on is that it writes its JSON on one line.
-/

namespace IChat

open Framing

/-- The strings of the frontend: UTF-16 code units. -/
abbrev JsString := List UInt16

namespace JsString

/-- The code units of a character. -/
def ofChar (c : Char) : JsString :=
  let n := c.toNat
  if n < 0x10000 then [UInt16.ofNat n]
  else [UInt16.ofNat (0xd800 + (n - 0x10000) / 0x400),
    UInt16.ofNat (0xdc00 + (n - 0x10000) % 0x400)]

/-- A decoded text. -/
def ofChars (s : List Char) : JsString := s.flatMap ofChar

/-- `"\n"`. -/
def lf : UInt16 := 10

/-- `"\r"`. -/
def cr : UInt16 := 13

/-- `":"`. -/
def colon : UInt16 := 58

/-- `" "`. -/
def space : UInt16 := 32

end JsString

open JsString

/-! ### The parser -/

/-- `ParsedSseEvent`. -/
structure ParsedSseEvent where
  id : Option JsString
  event : Option JsString
  data : JsString
  deriving DecidableEq

/-- `rawEvent.split(/\r?\n/)`. -/
def splitLines : JsString → List JsString
  | [] => [[]]
  | c :: text =>
    if c = lf then [] :: splitLines text
    else if c = cr ∧ text.head? = some lf then splitLines text
    else
      match splitLines text with
      | [] => [[c]]
      | line :: lines => (c :: line) :: lines

/-- A field of an event: its name and its value. -/
def parseField (line : JsString) : JsString × JsString :=
  match indexOf [colon] line with
  | none => (line, [])
  | some separator =>
    let rawValue := line.drop (separator + 1)
    (line.take separator, if rawValue.head? = some space then rawValue.drop 1 else rawValue)

/-- What the loop of `parseEvent` collects. -/
structure EventFields where
  id : Option JsString
  event : Option JsString
  dataLines : List JsString

/-- The body of the loop of `parseEvent`. -/
def parseLine (fields : EventFields) (line : JsString) : EventFields :=
  if line = [] ∨ line.head? = some colon then fields
  else
    let (field, value) := parseField line
    let fields := if field = ofChars "id".toList then { fields with id := some value } else fields
    let fields :=
      if field = ofChars "event".toList then { fields with event := some value } else fields
    if field = ofChars "data".toList then
      { fields with dataLines := fields.dataLines ++ [value] }
    else fields

/-- `parseEvent`. -/
def parseEvent (rawEvent : JsString) : Option ParsedSseEvent :=
  let fields := (splitLines rawEvent).foldl parseLine ⟨none, none, []⟩
  if fields.dataLines = [] then none
  else some ⟨fields.id, fields.event, List.intercalate [lf] fields.dataLines⟩

namespace SseParser

/-- `findBoundary`: where the first delimiter begins, and its length. -/
def findBoundary (buffer : JsString) : Option (ℕ × ℕ) :=
  match indexOf [lf, lf] buffer, indexOf [cr, lf, cr, lf] buffer with
  | none, none => none
  | none, some crlf => some (crlf, 4)
  | some index, none => some (index, 2)
  | some index, some crlf => if index < crlf then some (index, 2) else some (crlf, 4)

/-- The first raw event of the buffer, and what is behind it. -/
def cutEvent (buffer : JsString) : Option (JsString × JsString) :=
  (findBoundary buffer).map fun boundary =>
    (buffer.take boundary.1, buffer.drop (boundary.1 + boundary.2))

variable {buffer more : JsString} {i n : ℕ}

/-- A delimiter is within the buffer. -/
theorem findBoundary_le (h : findBoundary buffer = some (i, n)) :
    0 < n ∧ i + n ≤ buffer.length := by
  simp only [findBoundary] at h
  cases hlf : indexOf [lf, lf] buffer with
  | none =>
    cases hcrlf : indexOf [cr, lf, cr, lf] buffer with
    | none => simp [hlf, hcrlf] at h
    | some =>
      simp only [hlf, hcrlf, Option.some.injEq, Prod.mk.injEq] at h
      obtain ⟨rfl, rfl⟩ := h
      exact ⟨by omega, indexOf_add_length_le hcrlf⟩
  | some =>
    cases hcrlf : indexOf [cr, lf, cr, lf] buffer with
    | none =>
      simp only [hlf, hcrlf, Option.some.injEq, Prod.mk.injEq] at h
      obtain ⟨rfl, rfl⟩ := h
      exact ⟨by omega, indexOf_add_length_le hlf⟩
    | some =>
      simp only [hlf, hcrlf] at h
      split_ifs at h with hlt
      · simp only [Option.some.injEq, Prod.mk.injEq] at h
        obtain ⟨rfl, rfl⟩ := h
        exact ⟨by omega, indexOf_add_length_le hlf⟩
      · simp only [Option.some.injEq, Prod.mk.injEq] at h
        obtain ⟨rfl, rfl⟩ := h
        exact ⟨by omega, indexOf_add_length_le hcrlf⟩

/-- **No delimiter is overtaken.** Neither delimiter can begin before the other one ends within it,
so a boundary that is found is the first one, whatever arrives behind it. -/
theorem findBoundary_append (h : findBoundary buffer = some (i, n)) :
    findBoundary (buffer ++ more) = some (i, n) := by
  simp only [findBoundary] at h ⊢
  cases hlf : indexOf [lf, lf] buffer with
  | none =>
    cases hcrlf : indexOf [cr, lf, cr, lf] buffer with
    | none => simp [hlf, hcrlf] at h
    | some crlf =>
      simp only [hlf, hcrlf] at h
      rw [indexOf_append hcrlf]
      cases hmore : indexOf [lf, lf] (buffer ++ more) with
      | none => exact h
      | some index =>
        -- a line feed that was not there is behind the whole delimiter
        have hlate := length_lt_of_indexOf_none hlf hmore
        have hwhole := indexOf_add_length_le hcrlf
        simp only [List.length_cons, List.length_nil] at hlate hwhole
        have hnot : ¬index < crlf := by omega
        simpa only [if_neg hnot] using h
  | some index =>
    rw [indexOf_append hlf]
    cases hcrlf : indexOf [cr, lf, cr, lf] buffer with
    | some =>
      rw [indexOf_append hcrlf]
      simpa only [hlf, hcrlf] using h
    | none =>
      simp only [hlf, hcrlf] at h
      cases hmore : indexOf [cr, lf, cr, lf] (buffer ++ more) with
      | none => exact h
      | some crlf =>
        have hlate := length_lt_of_indexOf_none hcrlf hmore
        have hwhole := indexOf_add_length_le hlf
        simp only [List.length_cons, List.length_nil] at hlate hwhole
        have hfirst : (buffer ++ more)[index]? = some lf :=
          indexOf_getElem? (indexOf_append hlf) (k := 0) (by decide)
        have hsecond : (buffer ++ more)[index + 1]? = some lf :=
          indexOf_getElem? (indexOf_append hlf) (k := 1) (by decide)
        have hcr : (buffer ++ more)[crlf]? = some cr :=
          indexOf_getElem? hmore (k := 0) (by decide)
        have hcr' : (buffer ++ more)[crlf + 2]? = some cr :=
          indexOf_getElem? hmore (k := 2) (by decide)
        have hlt : index < crlf := by
          rcases Nat.lt_trichotomy index crlf with hlt | heq | hgt
          · exact hlt
          · rw [heq, hcr] at hfirst
            exact absurd hfirst (by decide)
          · -- the other delimiter would have a carriage return where there is a line feed
            have heq : index + 1 = crlf + 2 := by omega
            rw [heq, hcr'] at hsecond
            exact absurd hsecond (by decide)
        simpa only [if_pos hlt] using h

/-- The frames of a stream. -/
def cutter : Cutter UInt16 JsString where
  cut := cutEvent
  length_lt := by
    intro text frame rest h
    obtain ⟨⟨i, n⟩, hboundary, heq⟩ := Option.map_eq_some_iff.mp h
    obtain ⟨hpos, hle⟩ := findBoundary_le hboundary
    cases heq
    rw [List.length_drop]
    omega
  stable := by
    intro text frame rest more h
    obtain ⟨⟨i, n⟩, hboundary, heq⟩ := Option.map_eq_some_iff.mp h
    obtain ⟨hpos, hle⟩ := findBoundary_le hboundary
    cases heq
    rw [cutEvent, findBoundary_append hboundary, Option.map_some]
    dsimp only
    rw [List.take_append_of_le_length (by omega), List.drop_append_of_le_length hle]

theorem cutter_cut : cutter.cut = cutEvent := rfl

/-- `SseParser.push`: the events that a chunk completes, and the new buffer. -/
def push (buffer chunk : JsString) : List ParsedSseEvent × JsString :=
  let (rawEvents, buffer) := cutter.push buffer chunk
  (rawEvents.filterMap parseEvent, buffer)

/-- The events of chunks that are pushed one by one into a new parser. -/
def events (chunks : List JsString) : List ParsedSseEvent :=
  (chunks.foldl (fun (state : List ParsedSseEvent × JsString) chunk =>
    let (events, buffer) := push state.2 chunk
    (state.1 ++ events, buffer)) ([], [])).1

/-- The chunks are framed as the library does it. -/
theorem events_eq_feed (chunks : List JsString) :
    events chunks = (cutter.feed [] chunks).1.filterMap parseEvent := by
  have hfold : ∀ (chunks : List JsString) (state : List ParsedSseEvent × JsString),
      (chunks.foldl (fun (state : List ParsedSseEvent × JsString) chunk =>
        let (events, buffer) := push state.2 chunk
        (state.1 ++ events, buffer)) state).1 =
      state.1 ++ (cutter.feed state.2 chunks).1.filterMap parseEvent := by
    intro chunks
    induction chunks with
    | nil => intro state; exact (List.append_nil _).symm
    | cons chunk chunks ih =>
      intro state
      rw [List.foldl_cons, ih, Cutter.feed]
      dsimp only [push]
      rw [List.filterMap_append, List.append_assoc]
  exact hfold chunks ([], [])

/-- **Chunk invariance.** The events of a stream are those of its text. -/
theorem events_eq (chunks : List JsString) :
    events chunks = (cutter.drain chunks.flatten).1.filterMap parseEvent := by
  rw [events_eq_feed, Cutter.feed_eq_drain [] chunks rfl, List.nil_append]

end SseParser

/-! ### Formatted events -/

/-- `format_sse_event`, with `model_dump_json` as a parameter. -/
def formatSseEvent (modelDumpJson : RunEventResponse → List Char) (event : RunEventResponse) :
    List Char :=
  "id: ".toList ++ (toString event.seq).toList ++ "\nevent: ".toList ++ event.type.value.toList ++
    "\ndata: ".toList ++ modelDumpJson event ++ "\n\n".toList

/-- What the parser makes of an event. -/
def parsedEvent (modelDumpJson : RunEventResponse → List Char) (event : RunEventResponse) :
    ParsedSseEvent where
  id := some (ofChars (toString event.seq).toList)
  event := some (ofChars event.type.value.toList)
  data := ofChars (modelDumpJson event)

/-- The text is on one line. -/
def OneLine (s : List Char) : Prop := '\n' ∉ s ∧ '\r' ∉ s

instance (s : List Char) : Decidable (OneLine s) := inferInstanceAs (Decidable (_ ∧ _))

/-- The same for code units. -/
def PlainLine (line : JsString) : Prop := lf ∉ line ∧ cr ∉ line

namespace JsString

/-- Only the character itself has the code unit of a character below the surrogates. -/
theorem eq_of_mem_ofChar {c : Char} {n : ℕ} (hn : n < 0xd800) (h : UInt16.ofNat n ∈ ofChar c) :
    c.toNat = n := by
  have hinj {m : ℕ} (hm : m < 0x10000) (heq : UInt16.ofNat n = UInt16.ofNat m) : n = m := by
    have hnat := congrArg UInt16.toNat heq
    have hn' : n < UInt16.size := by
      change n < 65536
      omega
    rwa [UInt16.toNat_ofNat_of_lt' hn', UInt16.toNat_ofNat_of_lt' hm] at hnat
  have hmax : c.toNat < 0x110000 := by
    have hvalid := c.valid
    unfold UInt32.isValidChar Nat.isValidChar at hvalid
    change c.val.toNat < 0x110000
    omega
  unfold ofChar at h
  dsimp only at h
  split_ifs at h with hlow
  · exact (hinj hlow (List.mem_singleton.mp h)).symm
  · rcases List.mem_cons.mp h with hhigh | hlast
    · have heq := hinj (by omega) hhigh
      omega
    · have heq := hinj (by omega) (List.mem_singleton.mp hlast)
      omega

theorem plainLine_ofChars {s : List Char} (h : OneLine s) : PlainLine (ofChars s) := by
  refine ⟨fun hmem => ?_, fun hmem => ?_⟩
  · obtain ⟨c, hc, hunit⟩ := List.mem_flatMap.mp hmem
    have hcode := eq_of_mem_ofChar (by decide : 10 < 0xd800) hunit
    obtain rfl : c = '\n' := Char.toNat_inj.mp hcode
    exact h.1 hc
  · obtain ⟨c, hc, hunit⟩ := List.mem_flatMap.mp hmem
    have hcode := eq_of_mem_ofChar (by decide : 13 < 0xd800) hunit
    obtain rfl : c = '\r' := Char.toNat_inj.mp hcode
    exact h.2 hc

theorem ofChars_append (s t : List Char) : ofChars (s ++ t) = ofChars s ++ ofChars t :=
  List.flatMap_append

end JsString

theorem oneLine_toString (n : ℕ) : OneLine (toString n).toList := by
  have hdigit : ∀ c ∈ (toString n).toList, c.isDigit = true := by
    intro c hc
    rw [Nat.toString_eq_repr, Nat.toList_repr] at hc
    exact Nat.isDigit_of_mem_toDigits (by decide) (by decide) hc
  exact ⟨fun h => absurd (hdigit _ h) (by decide), fun h => absurd (hdigit _ h) (by decide)⟩

/-! ### Lines -/

theorem splitLines_plainLine {line : JsString} (h : PlainLine line) : splitLines line = [line] := by
  induction line with
  | nil => rfl
  | cons c line ih =>
    obtain ⟨hlf, hcr⟩ := h
    obtain ⟨hc, hlf⟩ := not_or.mp (mt List.mem_cons.mpr hlf)
    obtain ⟨hc', hcr⟩ := not_or.mp (mt List.mem_cons.mpr hcr)
    rw [splitLines, if_neg (Ne.symm hc), if_neg fun hboth => hc' hboth.1.symm, ih ⟨hlf, hcr⟩]

theorem splitLines_append {line text : JsString} (h : PlainLine line) :
    splitLines (line ++ lf :: text) = line :: splitLines text := by
  induction line with
  | nil => exact if_pos rfl
  | cons c line ih =>
    obtain ⟨hlf, hcr⟩ := h
    obtain ⟨hc, hlf⟩ := not_or.mp (mt List.mem_cons.mpr hlf)
    obtain ⟨hc', hcr⟩ := not_or.mp (mt List.mem_cons.mpr hcr)
    rw [List.cons_append, splitLines, if_neg (Ne.symm hc), if_neg fun hboth => hc' hboth.1.symm,
      ih ⟨hlf, hcr⟩]

theorem parseField_append {name value : JsString} (h : colon ∉ name) :
    parseField (name ++ colon :: space :: value) = (name, value) := by
  have hfound : indexOf [colon] (name ++ colon :: space :: value) = some name.length := by
    rw [indexOf_append_of_notMem h]
    have hzero : indexOf [colon] (colon :: space :: value) = some 0 := indexOf_self_append
    rw [hzero, Option.map_some, Nat.zero_add]
  simp [parseField, hfound]

/-! ### The round trip -/

section roundTrip

variable {modelDumpJson : RunEventResponse → List Char}

/-- A line of a formatted event. -/
def fieldLine (name : String) (value : List Char) : JsString :=
  ofChars name.toList ++ colon :: space :: ofChars value

/-- The text of a formatted event without its delimiter. -/
def eventBody (modelDumpJson : RunEventResponse → List Char) (event : RunEventResponse) :
    JsString :=
  fieldLine "id" (toString event.seq).toList ++ lf ::
    (fieldLine "event" event.type.value.toList ++ lf :: fieldLine "data" (modelDumpJson event))

theorem ofChars_formatSseEvent (event : RunEventResponse) :
    ofChars (formatSseEvent modelDumpJson event) = eventBody modelDumpJson event ++ [lf, lf] := by
  have hid : ofChars "id: ".toList = ofChars "id".toList ++ [colon, space] := by decide
  have hevent : ofChars "\nevent: ".toList = lf :: (ofChars "event".toList ++ [colon, space]) := by
    decide
  have hdata : ofChars "\ndata: ".toList = lf :: (ofChars "data".toList ++ [colon, space]) := by
    decide
  have hend : ofChars "\n\n".toList = [lf, lf] := by decide
  unfold formatSseEvent eventBody fieldLine
  generalize (toString event.seq).toList = seq
  generalize event.type.value.toList = type
  simp only [ofChars_append, hid, hevent, hdata, hend,
    List.append_assoc, List.cons_append, List.nil_append]

theorem plainLine_fieldLine {name : String} {value : List Char} (hname : OneLine name.toList)
    (hvalue : OneLine value) : PlainLine (fieldLine name value) := by
  obtain ⟨hlf, hcr⟩ := plainLine_ofChars hname
  obtain ⟨hlf', hcr'⟩ := plainLine_ofChars hvalue
  have hcolon : lf ≠ colon ∧ lf ≠ space ∧ cr ≠ colon ∧ cr ≠ space := by decide
  obtain ⟨h1, h2, h3, h4⟩ := hcolon
  unfold fieldLine
  constructor
  · simp only [List.mem_append, List.mem_cons, not_or]
    exact ⟨hlf, h1, h2, hlf'⟩
  · simp only [List.mem_append, List.mem_cons, not_or]
    exact ⟨hcr, h3, h4, hcr'⟩

/-- A line is not empty and does not begin with a line feed. -/
theorem fieldLine_head (name : String) (value : List Char) (hname : OneLine name.toList) :
    ∃ c line, fieldLine name value = c :: line ∧ c ≠ lf := by
  obtain ⟨hlf, -⟩ := plainLine_ofChars hname
  unfold fieldLine
  cases hchars : ofChars name.toList with
  | nil => exact ⟨colon, _, rfl, by decide⟩
  | cons c chars =>
    refine ⟨c, chars ++ colon :: space :: ofChars value, rfl, ?_⟩
    rintro rfl
    rw [hchars] at hlf
    exact hlf List.mem_cons_self

/-- There is no delimiter before the end of a line that is followed by another one. -/
theorem indexOf_line {line rest : JsString} {c : UInt16} (hline : lf ∉ line) (hc : c ≠ lf) :
    indexOf [lf, lf] (line ++ lf :: c :: rest) =
      (indexOf [lf, lf] (c :: rest)).map (· + (line.length + 1)) := by
  have hfirst : ¬[lf, lf] <+: lf :: c :: rest := by
    intro hprefix
    have htail := (List.cons_prefix_cons.mp hprefix).2
    exact hc (List.cons_prefix_cons.mp htail).1.symm
  rw [indexOf_append_of_notMem hline, indexOf, if_neg hfirst, Option.map_map]
  refine congrArg (Option.map · _) (funext fun k => ?_)
  change k + 1 + line.length = k + (line.length + 1)
  omega

/-- The delimiter behind three lines is the first one, since no line is empty. -/
theorem findBoundary_lines {first second third : JsString} {c c' : UInt16} (rest : JsString)
    (hfirst : PlainLine first) (hsecond : PlainLine (c :: second))
    (hthird : PlainLine (c' :: third)) :
    let body := first ++ lf :: (c :: second ++ lf :: c' :: third)
    SseParser.findBoundary (body ++ [lf, lf] ++ rest) = some (body.length, 2) := by
  intro body
  have hc : c ≠ lf := fun heq => hsecond.1 (heq ▸ List.mem_cons_self)
  have hc' : c' ≠ lf := fun heq => hthird.1 (heq ▸ List.mem_cons_self)
  have hlf : indexOf [lf, lf] (body ++ [lf, lf] ++ rest) = some body.length := by
    have hend : indexOf [lf, lf] (c' :: third ++ ([lf, lf] ++ rest)) =
      some (c' :: third).length := by
      rw [indexOf_append_of_notMem hthird.1, indexOf_self_append, Option.map_some, Nat.zero_add]
    have hsplit : body ++ [lf, lf] ++ rest =
        first ++ lf :: c :: (second ++ lf :: c' :: (third ++ ([lf, lf] ++ rest))) := by
      simp [body]
    have hmiddle : indexOf [lf, lf] (c :: (second ++ lf :: c' :: (third ++ ([lf, lf] ++ rest)))) =
        some ((c' :: third).length + ((c :: second).length + 1)) := by
      have hline : indexOf [lf, lf] ((c :: second) ++ lf :: c' :: (third ++ ([lf, lf] ++ rest))) =
          (indexOf [lf, lf] (c' :: (third ++ ([lf, lf] ++ rest)))).map
            (· + ((c :: second).length + 1)) :=
        indexOf_line hsecond.1 hc'
      rw [List.cons_append] at hline hend
      rw [hline, hend, Option.map_some]
    rw [hsplit, indexOf_line hfirst.1 hc, hmiddle, Option.map_some]
    simp only [body, List.length_append, List.length_cons]
    congr 1
    omega
  have hcr : cr ∉ body ++ [lf, lf] := by
    have hne : cr ≠ lf := by decide
    simp only [body, List.mem_append, List.mem_cons, List.not_mem_nil, not_or, or_false]
    have hsecond' := not_or.mp (mt List.mem_cons.mpr hsecond.2)
    have hthird' := not_or.mp (mt List.mem_cons.mpr hthird.2)
    exact ⟨⟨hfirst.2, hne, hsecond', hne, hthird'⟩, hne, hne⟩
  simp only [SseParser.findBoundary, hlf, indexOf_append_of_notMem hcr]
  cases indexOf [cr, lf, cr, lf] rest with
  | none => rfl
  | some k =>
    have hlength : (body ++ [lf, lf]).length = body.length + 2 := List.length_append
    have hlt : body.length < k + (body ++ [lf, lf]).length := by omega
    exact if_pos hlt

variable {event : RunEventResponse}

/-- The lines of a formatted event. -/
theorem plainLine_fields (hdata : OneLine (modelDumpJson event)) :
    PlainLine (fieldLine "id" (toString event.seq).toList) ∧
      PlainLine (fieldLine "event" event.type.value.toList) ∧
        PlainLine (fieldLine "data" (modelDumpJson event)) :=
  ⟨plainLine_fieldLine (by decide) (oneLine_toString event.seq),
    plainLine_fieldLine (by decide) (by cases event.type <;> decide),
    plainLine_fieldLine (by decide) hdata⟩

/-- A formatted event is cut off as a whole. -/
theorem cutEvent_eventBody (hdata : OneLine (modelDumpJson event)) (rest : JsString) :
    SseParser.cutEvent (ofChars (formatSseEvent modelDumpJson event) ++ rest) =
      some (eventBody modelDumpJson event, rest) := by
  obtain ⟨hid, htype, hline⟩ := plainLine_fields hdata
  have hboundary : SseParser.findBoundary (eventBody modelDumpJson event ++ [lf, lf] ++ rest) =
      some ((eventBody modelDumpJson event).length, 2) := by
    unfold eventBody
    obtain ⟨c, second, hsecond, -⟩ :=
      fieldLine_head "event" event.type.value.toList (by decide)
    obtain ⟨c', third, hthird, -⟩ := fieldLine_head "data" (modelDumpJson event) (by decide)
    rw [hsecond] at htype ⊢
    rw [hthird] at hline ⊢
    exact findBoundary_lines rest hid htype hline
  rw [ofChars_formatSseEvent, SseParser.cutEvent, hboundary, Option.map_some]
  dsimp only
  rw [List.append_assoc, List.take_left, ← List.drop_drop, List.drop_left]
  rfl

/-- What is cut off is parsed into the event. -/
theorem parseEvent_eventBody (hdata : OneLine (modelDumpJson event)) :
    parseEvent (eventBody modelDumpJson event) = some (parsedEvent modelDumpJson event) := by
  obtain ⟨hid, htype, hline⟩ := plainLine_fields hdata
  have hlines : splitLines (eventBody modelDumpJson event) =
      [fieldLine "id" (toString event.seq).toList, fieldLine "event" event.type.value.toList,
        fieldLine "data" (modelDumpJson event)] := by
    rw [eventBody, splitLines_append hid, splitLines_append htype, splitLines_plainLine hline]
  have hparse {name : String} {value : List Char} {fields : EventFields}
      (hname : colon ∉ ofChars name.toList) (hne : ofChars name.toList ≠ []) :
      parseLine fields (fieldLine name value) =
        let field := ofChars name.toList
        let fields := if field = ofChars "id".toList then { fields with id := some (ofChars value) }
          else fields
        let fields := if field = ofChars "event".toList then
          { fields with event := some (ofChars value) } else fields
        if field = ofChars "data".toList then
          { fields with dataLines := fields.dataLines ++ [ofChars value] }
        else fields := by
    have hskip : ¬(fieldLine name value = [] ∨ (fieldLine name value).head? = some colon) := by
      unfold fieldLine
      cases hchars : ofChars name.toList with
      | nil => exact absurd hchars hne
      | cons =>
        rw [hchars] at hname
        rintro (hnil | hhead)
        · cases hnil
        · exact hname (Option.some.inj hhead ▸ List.mem_cons_self)
    rw [parseLine, if_neg hskip, fieldLine, parseField_append hname]
  have hfields : (splitLines (eventBody modelDumpJson event)).foldl parseLine ⟨none, none, []⟩ =
      ⟨some (ofChars (toString event.seq).toList), some (ofChars event.type.value.toList),
        [ofChars (modelDumpJson event)]⟩ := by
    have h1 : ofChars "id".toList ≠ ofChars "event".toList := by decide
    have h2 : ofChars "id".toList ≠ ofChars "data".toList := by decide
    have h3 : ofChars "event".toList ≠ ofChars "data".toList := by decide
    rw [hlines, List.foldl_cons, List.foldl_cons, List.foldl_cons, List.foldl_nil,
      hparse (by decide) (by decide), hparse (by decide) (by decide),
      hparse (by decide) (by decide)]
    simp only [if_true, if_neg h1, if_neg h2, if_neg h3, if_neg h1.symm, if_neg h2.symm,
      if_neg h3.symm, List.nil_append]
  simp only [parseEvent, hfields, parsedEvent]
  rw [if_neg (List.cons_ne_nil _ _), List.intercalate_singleton]

/-- Formatted events are drained one by one. -/
theorem drain_formatSseEvent (events : List RunEventResponse)
    (hdata : ∀ event ∈ events, OneLine (modelDumpJson event)) :
    SseParser.cutter.drain (ofChars (events.flatMap (formatSseEvent modelDumpJson))) =
      (events.map (eventBody modelDumpJson), []) := by
  induction events with
  | nil => exact Cutter.drain_of_none rfl
  | cons event events ih =>
    have hcut : SseParser.cutter.cut
        (ofChars ((event :: events).flatMap (formatSseEvent modelDumpJson))) =
          some (eventBody modelDumpJson event,
            ofChars (events.flatMap (formatSseEvent modelDumpJson))) := by
      rw [List.flatMap_cons, ofChars_append, SseParser.cutter_cut]
      exact cutEvent_eventBody (hdata event List.mem_cons_self) _
    rw [Cutter.drain_of_some hcut, ih fun e he => hdata e (List.mem_cons_of_mem _ he),
      List.map_cons]

end roundTrip

/-! ### The result -/

/-- **The framing.** The events of a stream of formatted events are these events, whatever the
pieces in which it arrives; and the events of any text at all do not depend on its pieces. -/
theorem sseFraming (modelDumpJson : RunEventResponse → List Char)
    (oneLine : ∀ event, OneLine (modelDumpJson event)) :
    (∀ (events : List RunEventResponse) (chunks : List JsString),
      chunks.flatten = ofChars (events.flatMap (formatSseEvent modelDumpJson)) →
      SseParser.events chunks = events.map (parsedEvent modelDumpJson)) ∧
    ∀ chunks chunks' : List JsString, chunks.flatten = chunks'.flatten →
      SseParser.events chunks = SseParser.events chunks' := by
  refine ⟨fun events chunks htext => ?_, fun chunks chunks' htext => ?_⟩
  · have hparsed : (events.map (eventBody modelDumpJson)).filterMap parseEvent =
        events.map (parsedEvent modelDumpJson) := by
      rw [List.filterMap_map, ← List.filterMap_eq_map]
      refine List.filterMap_congr fun event _ => ?_
      rw [Function.comp_apply, parseEvent_eventBody (oneLine event), Function.comp_apply]
    rw [SseParser.events_eq, htext, drain_formatSseEvent events fun event _ =>
      oneLine event, hparsed]
  · rw [SseParser.events_eq, SseParser.events_eq, htext]

/-- The JSON of an event with a line break in its text. -/
def dumpedDelta : List Char :=
  "\x7b\"seq\":7,\"type\":\"text_delta\",\"payload\":\x7b\"text\":\"a\\nb\"\x7d,\"created_at\":\"1970-01-01T00:00:00Z\"\x7d".toList

/-- A delta, cut within its delimiter. -/
theorem sseFraming_delta :
    let event : RunEventResponse := ⟨⟨7, .textDelta, [("text", .str "a\nb")]⟩, 0⟩
    let text := ofChars (formatSseEvent (fun _ => dumpedDelta) event)
    SseParser.events [text.dropLast, text.drop (text.length - 1)] =
      [parsedEvent (fun _ => dumpedDelta) event] := by
  intro event text
  have hline : OneLine dumpedDelta := by decide +kernel
  have hpieces : [text.dropLast, text.drop (text.length - 1)].flatten =
      ofChars ([event].flatMap (formatSseEvent fun _ => dumpedDelta)) := by decide +kernel
  exact (sseFraming (fun _ => dumpedDelta) fun _ => hline).1 [event] _ hpieces

end IChat
