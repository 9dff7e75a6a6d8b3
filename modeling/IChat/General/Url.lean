import IChat.General.Text

/-!
# Splitting a URL

`urlsplit` and `urlparse` of Python's `urllib.parse`, on lists of characters. A `ValueError` is
`none`. The steps are those of the library: characters that a URL cannot carry are removed, the
scheme and the network location are cut off at the front, the fragment and the query at the end.

Four of the tables that the library consults are data of Unicode and of the address formats
(`UnicodeData`). They are parameters of the functions here.
-/

namespace Url

open Text

/-- `str.lower`, `unicodedata.normalize("NFKC", _)`, the digit that a character stands for, and
whether `ipaddress.ip_address` reads a text as an IPv6 address. -/
structure UnicodeData where
  lower : List Char → List Char
  nfkc : List Char → List Char
  decimal : Char → Option ℕ
  isIPv6Address : List Char → Bool

/-- The data of ASCII, without IPv6 addresses. -/
def UnicodeData.ascii : UnicodeData where
  lower := List.map Char.toLower
  nfkc := id
  decimal c := if c.isDigit then some (c.toNat - '0'.toNat) else none
  isIPv6Address _ := false

/-- `int` of the digits that `\d` matches, of which it refuses more than 4300. -/
def intValue (u : UnicodeData) (digits : List Char) : Option ℕ :=
  if 4300 < digits.length then none
  else some (digits.foldl (fun n d => 10 * n + (u.decimal d).getD 0) 0)

theorem intValue_eq_none_iff {u : UnicodeData} {digits : List Char} :
    intValue u digits = none ↔ 4300 < digits.length := by
  rw [intValue]
  split_ifs with h
  · simp [h]
  · simp [h]

/-- `SplitResult`. -/
structure SplitResult where
  scheme : List Char
  netloc : List Char
  path : List Char
  query : List Char
  fragment : List Char

/-- A character of `scheme_chars`. -/
def isSchemeChar (c : Char) : Bool := c.isAlphanum ∨ c ∈ ['+', '-', '.']

/-- `_check_bracketed_host`. -/
def checkBracketedHost (u : UnicodeData) (hostname : List Char) : Bool :=
  match hostname with
  | 'v' :: future =>
    let isHex (c : Char) : Bool := c.isDigit ∨ ('a' ≤ c ∧ c ≤ 'f') ∨ ('A' ≤ c ∧ c ≤ 'F')
    match future.takeWhile isHex, future.dropWhile isHex with
    | _ :: _, '.' :: c :: rest => '\n' ∉ c :: rest
    | _, _ => false
  | hostname => u.isIPv6Address hostname

/-- `_check_bracketed_netloc`. -/
def checkBracketedNetloc (u : UnicodeData) (netloc : List Char) : Bool :=
  let hostnameAndPort := (rpartition '@' netloc).2
  match partition '[' hostnameAndPort with
  | (beforeBracket, some bracketed) =>
    let (hostname, port) := partition ']' bracketed
    let port := port.getD []
    beforeBracket = [] ∧ (port = [] ∨ port.head? = some ':') ∧ checkBracketedHost u hostname
  | (_, none) => checkBracketedHost u (partition ':' hostnameAndPort).1

/-- `_checknetloc`: no separator comes out of a compatibility normalization. -/
def checkNetloc (u : UnicodeData) (netloc : List Char) : Bool :=
  let n := netloc.filter fun c => c ∉ ['@', ':', '#', '?']
  netloc.all (fun c => c.toNat < 128) ∨ u.nfkc n = n ∨
    (u.nfkc n).all fun c => c ∉ ['/', '?', '#', '@', ':']

/-- `urlsplit`. -/
def urlsplit (u : UnicodeData) (url : List Char) : Option SplitResult :=
  let url := (url.dropWhile fun c => c.toNat ≤ 32).filter fun c => c ∉ ['\t', '\r', '\n']
  let (scheme, url) :=
    match partition ':' url with
    | (c :: name, some rest) =>
      if c.isAlpha ∧ (c :: name).all isSchemeChar then ((c :: name).map Char.toLower, rest)
      else ([], url)
    | _ => ([], url)
  let isDelimiter (c : Char) : Bool := c ∈ ['/', '?', '#']
  let (netloc, url) :=
    match url with
    | '/' :: '/' :: rest => (rest.takeWhile fun c => !isDelimiter c, rest.dropWhile fun c =>
        !isDelimiter c)
    | _ => ([], url)
  let opened := '[' ∈ netloc
  let closed := ']' ∈ netloc
  if (opened ∧ ¬closed) ∨ (closed ∧ ¬opened) ∨
      (opened ∧ closed ∧ checkBracketedNetloc u netloc = false) then
    none
  else
    let (url, fragment) := partition '#' url
    let (path, query) := partition '?' url
    if checkNetloc u netloc then some ⟨scheme, netloc, path, query.getD [], fragment.getD []⟩
    else none

namespace SplitResult

variable (u : UnicodeData) (r : SplitResult)

/-- `_userinfo`: the user name and the password. -/
def userinfo : Option (List Char) × Option (List Char) :=
  match rpartition '@' r.netloc with
  | (some userinfo, _) =>
    let (username, password) := partition ':' userinfo
    (some username, password)
  | (none, _) => (none, none)

/-- `_hostinfo`: the host name, and the port when there is a text for it. -/
def hostinfo : List Char × Option (List Char) :=
  let hostinfo := (rpartition '@' r.netloc).2
  let (hostname, port) :=
    match partition '[' hostinfo with
    | (_, some bracketed) =>
      let (hostname, rest) := partition ']' bracketed
      (hostname, (partition ':' (rest.getD [])).2.getD [])
    | (_, none) =>
      let (hostname, port) := partition ':' hostinfo
      (hostname, port.getD [])
  (hostname, if port = [] then none else some port)

/-- `hostname`: a zone of an address keeps its case. -/
def hostname : Option (List Char) :=
  match r.hostinfo.1 with
  | [] => none
  | name =>
    match partition '%' name with
    | (host, none) => some (u.lower host)
    | (host, some zone) => some (u.lower host ++ '%' :: zone)

/-- `port`. The outer `none` is a `ValueError`. -/
def port : Option (Option ℕ) :=
  match r.hostinfo.2 with
  | none => some none
  | some digits =>
    if digits.all Char.isDigit then
      let port := digits.foldl (fun n c => 10 * n + (c.toNat - '0'.toNat)) 0
      if port ≤ 65535 then some (some port) else none
    else none

end SplitResult

/-- The schemes of `uses_netloc`. -/
def usesNetloc : List String :=
  ["", "ftp", "http", "gopher", "nntp", "telnet", "imap", "wais", "file", "mms", "https", "shttp",
    "snews", "prospero", "rtsp", "rtsps", "rtspu", "rsync", "svn", "svn+ssh", "sftp", "nfs", "git",
    "git+ssh", "ws", "wss", "itms-services"]

/-- `urlunsplit`, of a URL without query and fragment. -/
def urlunsplit (scheme netloc path : List Char) : List Char :=
  let rooted := path = [] ∨ path.head? = some '/'
  let path :=
    if netloc ≠ [] then '/' :: '/' :: netloc ++ (if rooted then path else '/' :: path)
    else if path.take 2 = ['/', '/'] ∨
        (scheme ≠ [] ∧ String.ofList scheme ∈ usesNetloc ∧ rooted) then '/' :: '/' :: path
    else path
  if scheme = [] then path else scheme ++ ':' :: path

/-- The schemes of `uses_params`. -/
def usesParams : List String :=
  ["", "ftp", "hdl", "prospero", "http", "imap", "https", "shttp", "rtsp", "rtsps", "rtspu", "sip",
    "sips", "mms", "sftp", "tel"]

/-- `urlparse`: parameters of the last path segment are cut off. -/
def urlparse (u : UnicodeData) (url : List Char) : Option SplitResult :=
  (urlsplit u url).map fun r =>
    if String.ofList r.scheme ∈ usesParams then
      match rpartition '/' r.path with
      | (some front, last) => { r with path := front ++ '/' :: (partition ';' last).1 }
      | (none, last) => { r with path := (partition ';' last).1 }
    else r

/-! ### Line breaks -/

theorem toLower_eq_newline {c : Char} (h : c.toLower = '\n') : c = '\n' := by
  have hval : c.toLower.val = 10 := by
    rw [h]
    rfl
  have hcases : c.toLower.val = if _ : c.val ≥ 'A'.val ∧ c.val ≤ 'Z'.val
      then c.val + ('a'.val - 'A'.val) else c.val := by
    show Char.val (dite _ _ _) = _
    split <;> rfl
  rw [hcases] at hval
  split at hval
  · rename_i hupper
    have hlow : 65 ≤ c.val.toNat := UInt32.le_iff_toNat_le.mp hupper.1
    have hhigh : c.val.toNat ≤ 90 := UInt32.le_iff_toNat_le.mp hupper.2
    have hsum := congrArg UInt32.toNat hval
    have hdistance : ('a'.val - 'A'.val).toNat = 32 := by decide
    have hten : (10 : UInt32).toNat = 10 := by decide
    rw [UInt32.toNat_add, hdistance] at hsum
    omega
  · exact Char.ext hval

/-- The parts of a URL have no line break. -/
theorem notMem_of_urlsplit {u : UnicodeData} {url : List Char} {r : SplitResult}
    (h : urlsplit u url = some r) : '\n' ∉ r.scheme ∧ '\n' ∉ r.netloc ∧ '\n' ∉ r.path := by
  rw [urlsplit] at h
  have hclean : '\n' ∉ (url.dropWhile fun c => c.toNat ≤ 32).filter
      fun c => c ∉ ['\t', '\r', '\n'] := by
    intro hin
    exact absurd (List.mem_filter.mp hin).2 (by decide)
  generalize (url.dropWhile fun c => c.toNat ≤ 32).filter
      (fun c => c ∉ ['\t', '\r', '\n']) = clean at h hclean
  extract_lets -merge at h
  split at h
  rename_i scheme afterScheme hscheme
  have hfirst : '\n' ∉ scheme ∧ '\n' ∉ afterScheme := by
    split at hscheme
    · rename_i c name rest hparts
      split at hscheme
      · obtain ⟨rfl, rfl⟩ := Prod.mk.inj hscheme
        constructor
        · intro hin
          obtain ⟨d, hd, hlower⟩ := List.mem_map.mp hin
          rw [toLower_eq_newline hlower] at hd
          exact hclean (mem_of_mem_partition_fst (by rw [hparts]; exact hd))
        · intro hin
          exact hclean (mem_of_mem_partition_snd (by rw [hparts]; exact hin))
      · obtain ⟨rfl, rfl⟩ := Prod.mk.inj hscheme
        exact ⟨List.not_mem_nil, hclean⟩
    · obtain ⟨rfl, rfl⟩ := Prod.mk.inj hscheme
      exact ⟨List.not_mem_nil, hclean⟩
  split at h
  rename_i netloc afterNetloc hnetloc
  have hsecond : '\n' ∉ netloc ∧ '\n' ∉ afterNetloc := by
    split at hnetloc
    · rename_i rest
      obtain ⟨rfl, rfl⟩ := Prod.mk.inj hnetloc
      have hrest : '\n' ∉ rest := fun hin =>
        hfirst.2 (List.mem_cons_of_mem _ (List.mem_cons_of_mem _ hin))
      exact ⟨fun hin => hrest (List.takeWhile_subset _ hin),
        fun hin => hrest ((List.dropWhile_suffix _).subset hin)⟩
    · obtain ⟨rfl, rfl⟩ := Prod.mk.inj hnetloc
      exact ⟨List.not_mem_nil, hfirst.2⟩
  dsimp only at h
  split at h
  · cases h
  · split at h
    · cases h
      exact ⟨hfirst.1, hsecond.1, fun hin => hsecond.2
        (mem_of_mem_partition_fst (mem_of_mem_partition_fst hin))⟩
    · cases h

theorem SplitResult.notMem_hostname {u : UnicodeData} {r : SplitResult}
    (hlower : ∀ s, '\n' ∉ s → '\n' ∉ u.lower s) (h : '\n' ∉ r.netloc) :
    '\n' ∉ (r.hostname u).getD [] := by
  have hinfo : '\n' ∉ r.hostinfo.1 := by
    have hpart : '\n' ∉ (rpartition '@' r.netloc).2 := fun hin => h (mem_of_mem_rpartition_snd hin)
    rw [hostinfo]
    dsimp only
    split
    · rename_i before bracketed hbracket
      intro hin
      have hback : '\n' ∈ (partition '[' (rpartition '@' r.netloc).2).2.getD [] := by
        rw [hbracket]
        exact mem_of_mem_partition_fst hin
      exact hpart (mem_of_mem_partition_snd hback)
    · exact fun hin => hpart (mem_of_mem_partition_fst hin)
  have hfst : '\n' ∉ (partition '%' r.hostinfo.1).1 :=
    fun hin => hinfo (mem_of_mem_partition_fst hin)
  have hsnd : '\n' ∉ (partition '%' r.hostinfo.1).2.getD [] :=
    fun hin => hinfo (mem_of_mem_partition_snd hin)
  rw [hostname]
  split
  · exact List.not_mem_nil
  · split
    · rename_i host hparts
      rw [hparts] at hfst
      exact hlower _ hfst
    · rename_i host zone hparts
      rw [hparts] at hfst hsnd
      simp only [Option.getD_some, List.mem_append, List.mem_cons, not_or]
      exact ⟨hlower _ hfst, by decide, hsnd⟩

/-- A URL put together from parts without line breaks has none. -/
theorem notMem_urlunsplit {scheme netloc path : List Char} (hscheme : '\n' ∉ scheme)
    (hnetloc : '\n' ∉ netloc) (hpath : '\n' ∉ path) :
    '\n' ∉ urlunsplit scheme netloc path := by
  have hslash {s : List Char} (hs : '\n' ∉ s) : '\n' ∉ '/' :: s := by
    rw [List.mem_cons, not_or]
    exact ⟨by decide, hs⟩
  have hlocated {s : List Char} (hs : '\n' ∉ s) : '\n' ∉ '/' :: '/' :: netloc ++ s :=
    hslash (hslash (List.not_mem_append hnetloc hs))
  have hschemed {s : List Char} (hs : '\n' ∉ s) :
      '\n' ∉ if scheme = [] then s else scheme ++ ':' :: s := by
    split
    · exact hs
    · simp only [List.mem_append, List.mem_cons, not_or]
      exact ⟨hscheme, by decide, hs⟩
  rw [urlunsplit]
  refine hschemed ?_
  split_ifs
  · exact hlocated hpath
  · exact hlocated (hslash hpath)
  · exact hslash (hslash hpath)
  · exact hpath

end Url
