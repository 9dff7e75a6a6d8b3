import IChat.Conversations.SearchText
import IChat.General.Base64
import IChat.General.Bytes
import IChat.General.Datetime
import IChat.General.JsonObject
import IChat.General.Uuid

/-!
# Cursors of the history search

A page of the search ends with a cursor: the boundary of the next page, bound to the account, the
query and the size of the page, and signed. `hmac` and `hashlib` are parameters.

* `readCursor_cursor`: a cursor is accepted exactly with the binding it has been issued with, and it
  gives its boundary back;
* `readCursor_cursor_eq_some`: where the digests do not collide, that is the same account, query and
  size.
-/

namespace IChat.Conversations

/-- What the search calls of the standard library, and the secret of the settings. `otherJson` is
`json.loads` where the bytes are no compact flat object, and `otherMoment` is
`datetime.fromisoformat` where the text is not that of a datetime in UTC. -/
structure SearchEnv where
  hmacSha256 : List UInt8 → List UInt8 → Vector UInt8 32
  sha256 : List UInt8 → Vector UInt8 32
  otherJson : List UInt8 → Option Json
  otherMoment : String → Option Datetime
  secret : String

/-- `AppError`. -/
structure SearchError where
  statusCode : ℕ
  message : String
  code : String
  deriving DecidableEq

def searchCursorInvalid : SearchError := ⟨400, "Invalid search cursor.", "search_cursor_invalid"⟩

/-- `_CURSOR_PURPOSE`. -/
def cursorPurpose : List UInt8 := Bytes.utf8 "ichat:conversation-search:cursor:v1\x00"

namespace SearchEnv

variable (env : SearchEnv)

/-- `_sign`. -/
def sign (payload : List UInt8) : List UInt8 :=
  (env.hmacSha256 (Bytes.utf8 env.secret) (cursorPurpose ++ payload)).toList

/-- The digest of an account. -/
def accountDigest (userId : ℕ) : Vector UInt8 32 :=
  env.hmacSha256 (Bytes.utf8 env.secret) (Bytes.utf8 ("search-account:" ++ toString userId))

/-- `_account_binding`. -/
def accountBinding (userId : ℕ) : String := Bytes.hex (env.accountDigest userId).toList

/-- The digest of a query. -/
def queryDigest (query : List Char) : Vector UInt8 32 :=
  env.sha256 (Bytes.utf8 (String.ofList query))

/-- `_query_fingerprint`. -/
def queryFingerprint (query : List Char) : String := Bytes.hex (env.queryDigest query).toList

/-- The payload of a cursor, with its keys sorted. -/
def cursorPayload (userId : ℕ) (query : List Char) (limit : ℤ) (updatedAt : Datetime)
    (conversationId : Uuid) : Dict :=
  [("id", .str conversationId.toStr), ("n", .int limit), ("q", .str (env.queryFingerprint query)),
    ("t", .str updatedAt.isoformat), ("u", .str (env.accountBinding userId)), ("v", .int 1)]

/-- `_cursor`. The texts of a payload are ASCII. -/
def cursor (payload : Dict) : String :=
  let data := Bytes.utf8 (Json.dumps "," ":" (.obj payload))
  String.ofList (Base64.encodeUnpadded data ++ '.' :: Base64.encodeUnpadded (env.sign data))

/-- `json.loads`. -/
def loads (data : List UInt8) : Option Json :=
  match (Bytes.ofUtf8? data).bind fun text => Json.readObject text.toList with
  | some fields => some (.obj fields)
  | none => env.otherJson data

/-- What is read of a payload that is signed. -/
def readPayload (fields : Dict) (userId : ℕ) (query : List Char) (limit : ℤ) :
    Option (Datetime × Uuid) :=
  if Dict.get? fields "v" = some (.int 1) ∧
      Dict.get? fields "u" = some (.str (env.accountBinding userId)) ∧
      Dict.get? fields "q" = some (.str (env.queryFingerprint query)) ∧
      Dict.get? fields "n" = some (.int limit) then do
    let conversationId ← ((Dict.get? fields "id").bind Json.str?).bind Uuid.parse?
    let moment ← ((Dict.get? fields "t").bind Json.str?).bind
      (Datetime.fromisoformat env.otherMoment)
    some (moment, conversationId)
  else none

/-- `_read_cursor`, with the boundary that its caller reads of the payload. -/
def readCursor (cursor : String) (userId : ℕ) (query : List Char) (limit : ℤ) :
    Except SearchError (Datetime × Uuid) :=
  let boundary : Option (Datetime × Uuid) :=
    if 2048 < cursor.length then none
    else
      match cursor.toList.splitOn '.' with
      | [encoded, signed] => do
        let data ← Base64.decodeUnpadded encoded
        let signature ← Base64.decodeUnpadded signed
        if env.sign data ≠ signature then none
        else
          let payload ← env.loads data
          let fields ← payload.obj?
          env.readPayload fields userId query limit
      | _ => none
  match boundary with
  | some boundary => .ok boundary
  | none => .error searchCursorInvalid

/-! ### The text of a cursor -/

theorem plainText_hex (data : List UInt8) : Json.PlainText (Bytes.hex data) := by
  have hdigit : ∀ d : Fin 16, Json.isPlain (Text.hexDigit d) = true := by decide
  intro c hc
  obtain ⟨d, rfl⟩ := Bytes.exists_hexDigit_of_mem_hex hc
  exact hdigit d

theorem plainText_toStr (id : Uuid) : Json.PlainText id.toStr := by
  have hdigit : ∀ d : Fin 16, Json.isPlain (Text.hexDigit d) = true := by decide
  intro c hc
  obtain rfl | ⟨d, rfl⟩ := Uuid.mem_toStr hc
  · decide
  · exact hdigit d

theorem plainText_isoformat (moment : Datetime) : Json.PlainText moment.isoformat := by
  have hsign : ∀ c ∈ ['-', 'T', ':', '.', '+'], Json.isPlain c = true :=
    Text.forall_mem_of_all (by decide)
  intro c hc
  obtain hdigit | hin := moment.isoformat_plain c hc
  · exact Json.isPlain_of_isDigit hdigit
  · exact hsign c hin

variable {env}

/-- The names of the fields are plain. -/
theorem plainText_key (key : String) (h : key ∈ ["id", "n", "q", "t", "u", "v"]) :
    Json.PlainText key :=
  List.all_eq_true.mp (List.all_eq_true.mp
    (by decide : (["id", "n", "q", "t", "u", "v"].all fun key =>
    key.toList.all Json.isPlain) = true)
    key h)

/-- The payload is an object that is read back. -/
theorem loads_payload (userId : ℕ) (query : List Char) (limit : ℕ) (updatedAt : Datetime)
    (conversationId : Uuid) :
    env.loads (Bytes.utf8 (Json.dumps "," ":"
        (.obj (env.cursorPayload userId query limit updatedAt conversationId)))) =
      some (.obj (env.cursorPayload userId query limit updatedAt conversationId)) := by
  have hread : Json.readObject (Json.dumps "," ":"
      (.obj (env.cursorPayload userId query limit updatedAt conversationId))).toList =
        some (env.cursorPayload userId query limit updatedAt conversationId) := by
    have hkeys : ["id", "n", "q", "t", "u", "v"].Nodup := by decide
    refine Json.readObject_dumps (List.cons_ne_nil _ _) hkeys ?_
    simp only [cursorPayload, List.forall_mem_cons]
    exact ⟨⟨plainText_key _ (by decide), .str (plainText_toStr conversationId)⟩,
      ⟨plainText_key _ (by decide), .int limit⟩,
        ⟨plainText_key _ (by decide), .str (plainText_hex _)⟩,
      ⟨plainText_key _ (by decide), .str (plainText_isoformat updatedAt)⟩,
      ⟨plainText_key _ (by decide), .str (plainText_hex _)⟩, ⟨plainText_key _ (by decide), .int 1⟩,
      fun _ h => nomatch h⟩
  rw [loads, Bytes.ofUtf8?_utf8, Option.bind_some, hread]

/-- The boundary of a payload is read with its own binding only. -/
theorem readPayload_payload (userId userId' : ℕ) (query query' : List Char) (limit limit' : ℤ)
    (updatedAt : Datetime) (conversationId : Uuid) :
    env.readPayload (env.cursorPayload userId query limit updatedAt conversationId) userId' query'
        limit' =
      if env.accountBinding userId = env.accountBinding userId' ∧
          env.queryFingerprint query = env.queryFingerprint query' ∧ limit = limit' then
        some (updatedAt, conversationId)
      else none := by
  rw [readPayload]
  have hv : Dict.get? (env.cursorPayload userId query limit updatedAt conversationId) "v" =
      some (.int 1) := by simp [cursorPayload, Dict.get?_cons]
  have hu : Dict.get? (env.cursorPayload userId query limit updatedAt conversationId) "u" =
      some (.str (env.accountBinding userId)) := by simp [cursorPayload, Dict.get?_cons]
  have hq : Dict.get? (env.cursorPayload userId query limit updatedAt conversationId) "q" =
      some (.str (env.queryFingerprint query)) := by simp [cursorPayload, Dict.get?_cons]
  have hn : Dict.get? (env.cursorPayload userId query limit updatedAt conversationId) "n" =
      some (.int limit) := by simp [cursorPayload, Dict.get?_cons]
  have hid : Dict.get? (env.cursorPayload userId query limit updatedAt conversationId) "id" =
      some (.str conversationId.toStr) := by simp [cursorPayload, Dict.get?_cons]
  have ht : Dict.get? (env.cursorPayload userId query limit updatedAt conversationId) "t" =
      some (.str updatedAt.isoformat) := by simp [cursorPayload, Dict.get?_cons]
  rw [hv, hu, hq, hn, hid, ht]
  simp only [true_and, Option.some.injEq, Json.str.injEq, Json.int.injEq, Option.bind_some,
    Json.str?, Uuid.parse?_toStr, Datetime.fromisoformat_isoformat, Option.bind_eq_bind]

/-- The text of a field with a plain text. -/
theorem length_dumpsField_str {key text : String} (hkey : Json.PlainText key)
    (htext : Json.PlainText text) :
    (Json.dumpsField "," ":" (key, .str text)).toList.length =
      key.toList.length + text.toList.length + 5 := by
  rw [Json.dumpsField, Json.dumps, Json.jsonString_of_plain hkey, Json.jsonString_of_plain htext]
  simp only [String.toList_append, String.toList_ofList, List.length_append, List.length_cons,
    List.length_nil]
  have hcolon : ":".toList.length = 1 := rfl
  omega

/-- The text of a field with a number. -/
theorem length_dumpsField_int {key : String} (hkey : Json.PlainText key) {n : ℕ}
    (hn : n < 100) :
    (Json.dumpsField "," ":" (key, .int n)).toList.length ≤ key.toList.length + 5 := by
  have hdigits : n.repr.length ≤ 2 := (Nat.length_repr_le_iff (by decide)).mpr hn
  have hnumber : (Json.dumps "," ":" (.int n)).toList = n.repr.toList := rfl
  rw [Json.dumpsField, String.toList_append, String.toList_append, String.toList_ofList,
    Json.jsonString_of_plain hkey, hnumber]
  simp only [List.length_append, List.length_cons, List.length_nil, String.length_toList]
  have hcolon : ":".length = 1 := rfl
  omega

/-- The text of a payload is short. -/
theorem length_payload (userId : ℕ) (query : List Char) {limit : ℕ} (hlimit : limit < 100)
    (updatedAt : Datetime) (conversationId : Uuid) :
    (Json.dumps "," ":"
      (.obj (env.cursorPayload userId query limit updatedAt conversationId))).toList.length ≤
        280 := by
  have hid := length_dumpsField_str (plainText_key "id" (by decide))
    (plainText_toStr conversationId)
  have hn := length_dumpsField_int (plainText_key "n" (by decide)) hlimit
  have hq := length_dumpsField_str (plainText_key "q" (by decide))
    (plainText_hex (env.queryDigest query).toList)
  have ht := length_dumpsField_str (plainText_key "t" (by decide)) (plainText_isoformat updatedAt)
  have hu := length_dumpsField_str (plainText_key "u" (by decide))
    (plainText_hex (env.accountDigest userId).toList)
  have hv := length_dumpsField_int (n := 1) (plainText_key "v" (by decide)) (by decide)
  have hmoment := updatedAt.length_isoformat
  rw [Uuid.length_toStr] at hid
  rw [Bytes.length_hex, Vector.length_toList] at hq hu
  rw [cursorPayload, accountBinding, queryFingerprint]
  simp only [Json.dumps, Json.dumpsFields, String.intercalate_cons_cons,
    String.intercalate_singleton, String.toList_append, List.length_append]
  have hnames : "id".toList.length = 2 ∧ "n".toList.length = 1 ∧ "q".toList.length = 1 ∧
      "t".toList.length = 1 ∧ "u".toList.length = 1 ∧ "v".toList.length = 1 ∧
      ",".toList.length = 1 ∧ "\x7b".toList.length = 1 ∧ "\x7d".toList.length = 1 := by decide
  have hone : Json.dumpsField "," ":" ("v", .int 1) =
      Json.dumpsField "," ":" ("v", .int ((1 : ℕ) : ℤ)) := rfl
  rw [hone]
  omega

/-- A cursor is short enough to be read. -/
theorem length_cursor (userId : ℕ) (query : List Char) {limit : ℕ} (hlimit : limit < 100)
    (updatedAt : Datetime) (conversationId : Uuid) :
    (env.cursor (env.cursorPayload userId query limit updatedAt conversationId)).length ≤
      2048 := by
  have hpayload := @length_payload env userId query limit hlimit updatedAt conversationId
  rw [cursor]
  generalize Json.dumps "," ":"
    (.obj (env.cursorPayload userId query limit updatedAt conversationId)) = text at hpayload
  have hdata := (Base64.encodeUnpadded_spec (Bytes.utf8 text)).2.1
  have hsigned := (Base64.encodeUnpadded_spec (env.sign (Bytes.utf8 text))).2.1
  have hbytes := Bytes.length_utf8_le text
  have hdigest : (env.sign (Bytes.utf8 text)).length = 32 := Vector.length_toList
  rw [String.length_ofList, List.length_append, List.length_cons]
  omega

theorem cursor_ne_empty (payload : Dict) : env.cursor payload ≠ "" := by
  intro h
  have hlists := congrArg String.toList h
  rw [cursor, String.toList_ofList] at hlists
  exact List.append_ne_nil_of_right_ne_nil _ (List.cons_ne_nil _ _) hlists

/-- **Round trip.** A cursor is accepted with the binding it has been issued with, and gives its
boundary back. -/
theorem readCursor_cursor (userId userId' : ℕ) (query query' : List Char) {limit : ℕ}
    (hlimit : limit < 100) (limit' : ℤ) (updatedAt : Datetime) (conversationId : Uuid) :
    env.readCursor (env.cursor (env.cursorPayload userId query limit updatedAt conversationId))
        userId' query' limit' =
      if env.accountBinding userId = env.accountBinding userId' ∧
          env.queryFingerprint query = env.queryFingerprint query' ∧ limit = limit' then
        .ok (updatedAt, conversationId)
      else .error searchCursorInvalid := by
  have hshort := @length_cursor env userId query limit hlimit updatedAt conversationId
  have hdot : ∀ data : List UInt8, '.' ∉ Base64.encodeUnpadded data := by
    intro data hin
    obtain ⟨n, hn, hc⟩ := (Base64.encodeUnpadded_spec data).1 '.' hin
    exact Base64.digit_ne_dot hn hc.symm
  have hsplit : ∀ data signature : List UInt8,
      (Base64.encodeUnpadded data ++ '.' :: Base64.encodeUnpadded signature).splitOn '.' =
        [Base64.encodeUnpadded data, Base64.encodeUnpadded signature] := by
    intro data signature
    rw [List.splitOn_append_cons_self, List.splitOn_eq_singleton (hdot data),
      List.splitOn_eq_singleton (hdot signature)]
    rfl
  have hread : ∀ data : List UInt8,
      Base64.decodeUnpadded (Base64.encodeUnpadded data) = some data :=
    fun data => (Base64.encodeUnpadded_spec data).2.2
  rw [readCursor, if_neg (not_lt.mpr hshort), cursor, String.toList_ofList, hsplit]
  simp only [hread, Option.bind_eq_bind, Option.bind_some, ne_eq, not_true_eq_false, if_false,
    loads_payload, Json.obj?, readPayload_payload]
  split_ifs <;> rfl

end SearchEnv

end IChat.Conversations
