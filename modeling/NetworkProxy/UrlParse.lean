import NetworkProxy.PyText

/-!
# `urllib.parse`

The part of `urlparse` that an HTTP proxy uses: scheme, host, port, path and
query of an absolute URI.  An error is the message of the `ValueError` raised.
-/

namespace NetworkProxy
namespace Py

/-- `s.partition(c)`, without the separator. -/
def partition (c : Char) (s : Text) : Text × Text :=
  (splitFirst c s).getD (s, [])

/-- The part of `s.rpartition(c)` behind the separator. -/
def afterLast (c : Char) (s : Text) : Text :=
  match splitLast c s with
  | some (_, post) => post
  | none => s

/-- `ParseResult`, as far as it is used. -/
structure ParseResult where
  scheme : Text
  netloc : Text
  path : Text
  query : Text
deriving DecidableEq

def isSchemeChar (c : Char) : Bool :=
  c.isAlphanum || c == '+' || c == '-' || c == '.'

/-- The scheme in front of the first colon, and the rest of the URL. -/
def splitScheme (rt : PyRuntime) (url : Text) : Text × Text :=
  match splitFirst ':' url with
  | some (c :: pre, post) =>
      if c.isAlpha ∧ (c :: pre).all isSchemeChar then (lower rt (c :: pre), post)
      else ([], url)
  | _ => ([], url)

def isNetlocEnd (c : Char) : Bool := c == '/' || c == '?' || c == '#'

/-- `_splitnetloc`. -/
def splitNetloc (url : Text) : Text × Text :=
  (url.takeWhile (fun c => !isNetlocEnd c), url.dropWhile (fun c => !isNetlocEnd c))

/-- The checks `urlsplit` makes of brackets in the netloc. -/
def checkBrackets (rt : PyRuntime) (netloc : Text) : Except Text Unit :=
  if ('[' ∈ netloc ∧ ']' ∉ netloc) ∨ (']' ∈ netloc ∧ '[' ∉ netloc) then
    .error (txt "Invalid IPv6 URL")
  else if '[' ∈ netloc then
    match rt.bracketedHostError (partition ']' (partition '[' netloc).2).1 with
    | some message => .error message
    | none => .ok ()
  else .ok ()

/-- `_checknetloc`. -/
def checkNetloc (rt : PyRuntime) (netloc : Text) : Except Text Unit :=
  if netloc.all (fun c => decide (c.toNat < 128)) then .ok ()
  else
    let n := netloc.filter (fun c => !(c == '@' || c == ':' || c == '#' || c == '?'))
    let n' := rt.nfkc n
    if n = n' then .ok ()
    else if n'.any (fun c => c == '/' || c == '?' || c == '#' || c == '@' || c == ':') then
      .error (txt "netloc '" ++ netloc ++
        txt "' contains invalid characters under NFKC normalization")
    else .ok ()

/-- `_splitparams`, without the parameters. -/
def dropParams (path : Text) : Text :=
  match splitLast '/' path with
  | some (pre, post) => pre ++ '/' :: (partition ';' post).1
  | none => (partition ';' path).1

/-- Schemes whose paths may carry parameters. -/
def usesParams : List Text :=
  [txt "", txt "ftp", txt "hdl", txt "prospero", txt "http", txt "imap", txt "https",
    txt "shttp", txt "rtsp", txt "rtsps", txt "rtspu", txt "sip", txt "sips", txt "mms",
    txt "sftp", txt "tel"]

/-- `urlparse(url)`. -/
def urlparse (rt : PyRuntime) (url : Text) : Except Text ParseResult :=
  let url := url.dropWhile (fun c => decide (c.toNat ≤ 32))
  let url := url.filter (fun c => !(c == '\t' || c == '\r' || c == '\n'))
  let (scheme, url) := splitScheme rt url
  let (netloc, url) := if url.take 2 = txt "//" then splitNetloc (url.drop 2) else ([], url)
  match checkBrackets rt netloc with
  | .error message => .error message
  | .ok () =>
      let (path, query) := partition '?' (partition '#' url).1
      match checkNetloc rt netloc with
      | .error message => .error message
      | .ok () =>
          .ok ⟨scheme, netloc, if scheme ∈ usesParams then dropParams path else path, query⟩

/-- `_hostinfo`: host and port of the netloc, as texts. -/
def hostinfo (netloc : Text) : Text × Text :=
  let info := afterLast '@' netloc
  match splitFirst '[' info with
  | some (_, bracketed) =>
      let (host, port) := partition ']' bracketed
      (host, (partition ':' port).2)
  | none => partition ':' info

/-- The attribute `hostname`. -/
def ParseResult.hostname (rt : PyRuntime) (r : ParseResult) : Option Text :=
  match (hostinfo r.netloc).1 with
  | [] => none
  | host =>
      match splitFirst '%' host with
      | some (name, zone) => some (lower rt name ++ '%' :: zone)
      | none => some (lower rt host)

/-- The attribute `port`. -/
def ParseResult.port (rt : PyRuntime) (r : ParseResult) : Except Text (Option Int) :=
  match (hostinfo r.netloc).2 with
  | [] => .ok none
  | port =>
      if port.all Char.isDigit then
        match parseDigits port with
        | some n =>
            if n ≤ 65535 then .ok (some n) else .error (txt "Port out of range 0-65535")
        | none =>
            .error (txt "Exceeds the limit (4300 digits) for integer string conversion: value has "
              ++ showInt port.length ++
              txt " digits; use sys.set_int_max_str_digits() to increase the limit")
      else
        .error (txt "Port could not be cast to integer value as " ++ rt.reprText port)

/-! ## What the parts are made of -/

theorem partition_isInfix (c : Char) (s : Text) :
    (partition c s).1 <:+: s ∧ (partition c s).2 <:+: s := by
  rw [partition]
  cases h : splitFirst c s with
  | none => exact ⟨List.infix_refl s, List.nil_infix⟩
  | some parts =>
      obtain ⟨pre, post⟩ := parts
      obtain ⟨rfl, -⟩ := splitFirst_eq_some h
      exact ⟨(List.prefix_append pre _).isInfix,
        ((List.suffix_cons c post).trans (List.suffix_append pre _)).isInfix⟩

theorem mem_partition {c d : Char} {s : Text}
    (h : d ∈ (partition c s).1 ∨ d ∈ (partition c s).2) : d ∈ s :=
  h.elim (fun h => (partition_isInfix c s).1.subset h)
    (fun h => (partition_isInfix c s).2.subset h)

theorem mem_afterLast {c d : Char} {s : Text} (h : d ∈ afterLast c s) : d ∈ s := by
  rw [afterLast] at h
  cases hs : splitLast c s with
  | none =>
      rw [hs] at h
      exact h
  | some parts =>
      obtain ⟨pre, post⟩ := parts
      rw [hs] at h
      obtain ⟨rfl, -⟩ := splitLast_eq_some hs
      exact List.mem_append_right _ (List.mem_cons_of_mem _ h)

theorem mem_dropParams {c : Char} {path : Text} (h : c ∈ dropParams path) : c ∈ path := by
  rw [dropParams] at h
  cases hs : splitLast '/' path with
  | none =>
      rw [hs] at h
      exact mem_partition (Or.inl h)
  | some parts =>
      obtain ⟨pre, post⟩ := parts
      rw [hs] at h
      obtain ⟨rfl, -⟩ := splitLast_eq_some hs
      rcases List.mem_append.mp h with h | h
      · exact List.mem_append_left _ h
      · rcases List.mem_cons.mp h with rfl | h
        · simp
        · exact List.mem_append_right _ (List.mem_cons_of_mem _ (mem_partition (Or.inl h)))

theorem mem_hostinfo {c : Char} {netloc : Text} (h : c ∈ (hostinfo netloc).1) : c ∈ netloc := by
  rw [hostinfo] at h
  refine mem_afterLast (c := '@') ?_
  dsimp only at h
  cases hs : splitFirst '[' (afterLast '@' netloc) with
  | none =>
      rw [hs] at h
      exact mem_partition (Or.inl h)
  | some parts =>
      obtain ⟨pre, bracketed⟩ := parts
      rw [hs] at h
      obtain ⟨he, -⟩ := splitFirst_eq_some hs
      rw [he]
      exact List.mem_append_right _ (List.mem_cons_of_mem _ (mem_partition (Or.inl h)))

theorem mem_splitScheme {rt : PyRuntime} {url : Text} {c : Char}
    (h : c ∈ (splitScheme rt url).2) : c ∈ url := by
  rw [splitScheme] at h
  split at h
  · rename_i x pre post hs
    split at h
    · obtain ⟨rfl, -⟩ := splitFirst_eq_some hs
      exact List.mem_append_right _ (List.mem_cons_of_mem _ h)
    · exact h
  · exact h

theorem mem_splitNetloc {url : Text} {c : Char}
    (h : c ∈ (splitNetloc url).1 ∨ c ∈ (splitNetloc url).2) : c ∈ url :=
  h.elim (fun h => (List.takeWhile_prefix _).subset h)
    (fun h => (List.dropWhile_suffix _).subset h)

/-- Netloc, path and query of a URL are made of its characters. -/
theorem mem_of_urlparse {rt : PyRuntime} {url : Text} {r : ParseResult}
    (h : urlparse rt url = .ok r) {c : Char}
    (hc : c ∈ r.netloc ∨ c ∈ r.path ∨ c ∈ r.query) : c ∈ url := by
  rw [urlparse] at h
  dsimp only at h
  generalize hclean : (url.dropWhile (fun c => decide (c.toNat ≤ 32))).filter
    (fun c => !(c == '\t' || c == '\r' || c == '\n')) = clean at h
  have hsub : ∀ {d : Char}, d ∈ clean → d ∈ url := by
    intro d hd
    rw [← hclean] at hd
    exact (List.dropWhile_suffix _).subset (List.mem_of_mem_filter hd)
  generalize hsplit : (if (splitScheme rt clean).2.take 2 = txt "//" then
    splitNetloc ((splitScheme rt clean).2.drop 2) else ([], (splitScheme rt clean).2)) =
      parts at h
  have hparts : ∀ {d : Char}, d ∈ parts.1 ∨ d ∈ parts.2 → d ∈ url := by
    intro d hd
    rw [← hsplit] at hd
    split at hd
    · exact hsub (mem_splitScheme (List.mem_of_mem_drop (mem_splitNetloc hd)))
    · rcases hd with hd | hd
      · cases hd
      · exact hsub (mem_splitScheme hd)
  split at h
  · cases h
  · split at h
    · cases h
    · cases h
      rcases hc with hc | hc | hc
      · exact hparts (Or.inl hc)
      · have hpath : c ∈ (partition '?' (partition '#' parts.2).1).1 := by
          dsimp only at hc
          split at hc
          · exact mem_dropParams hc
          · exact hc
        exact hparts (Or.inr (mem_partition (Or.inl (mem_partition (Or.inl hpath)))))
      · exact hparts (Or.inr (mem_partition (Or.inl (mem_partition (Or.inr hc)))))

/-- The characters of `hostname`, letters aside, are characters of the netloc. -/
theorem mem_hostname {rt : PyRuntime} {r : ParseResult} {host : Text}
    (h : r.hostname rt = some host) {c : Char} (hc : c ∈ host)
    (hascii : c.toNat < 128) (hlow : ¬ c.isLower = true) : c ∈ r.netloc := by
  refine mem_hostinfo ?_
  rw [ParseResult.hostname] at h
  split at h
  · cases h
  · rename_i info hinfo
    split at h
    · rename_i name zone hs
      obtain ⟨he, -⟩ := splitFirst_eq_some hs
      rw [he]
      cases h
      rcases List.mem_append.mp hc with hc | hc
      · exact List.mem_append_left _ (mem_of_mem_lower hc hascii hlow)
      · exact List.mem_append_right _ hc
    · cases h
      exact mem_of_mem_lower hc hascii hlow

/-- The port of a URL is in the range of ports. -/
theorem bounds_of_port {rt : PyRuntime} {r : ParseResult} {port : ℤ}
    (h : r.port rt = .ok (some port)) : 0 ≤ port ∧ port ≤ 65535 := by
  rw [ParseResult.port] at h
  split at h
  · cases h
  · split at h
    · split at h
      · split at h
        · cases h
          omega
        · cases h
      · cases h
    · cases h

/-! ## The path of an absolute URI -/

/-- A path that is empty or begins with a slash. -/
def Rooted (path : Text) : Prop := ∀ c, path.head? = some c → c = '/'

theorem head?_partition {c x : Char} {s : Text} (h : (partition c s).1.head? = some x) :
    s.head? = some x ∧ x ≠ c := by
  rw [partition] at h
  cases hs : splitFirst c s with
  | none =>
      rw [hs] at h
      refine ⟨h, ?_⟩
      rintro rfl
      exact splitFirst_eq_none.mp hs (List.mem_of_mem_head? h)
  | some parts =>
      obtain ⟨pre, post⟩ := parts
      rw [hs] at h
      obtain ⟨rfl, hc⟩ := splitFirst_eq_some hs
      cases pre with
      | nil => cases h
      | cons y pre =>
          cases h
          refine ⟨rfl, ?_⟩
          rintro rfl
          exact hc List.mem_cons_self

theorem rooted_dropParams {path : Text} (h : Rooted path) : Rooted (dropParams path) := by
  intro c hc
  rw [dropParams] at hc
  cases hs : splitLast '/' path with
  | none =>
      rw [hs] at hc
      exact h c (head?_partition hc).1
  | some parts =>
      obtain ⟨pre, post⟩ := parts
      rw [hs] at hc
      obtain ⟨rfl, -⟩ := splitLast_eq_some hs
      cases pre with
      | nil =>
          cases hc
          rfl
      | cons x pre =>
          cases hc
          exact h c rfl

/-- Behind a netloc, the path is rooted. -/
theorem rooted_behind_netloc (url : Text) :
    Rooted (partition '?' (partition '#' (splitNetloc url).2).1).1 := by
  intro c hc
  obtain ⟨hquery, hne⟩ := head?_partition hc
  obtain ⟨hfragment, hne'⟩ := head?_partition hquery
  have hend := List.head?_dropWhile_not (fun c => !isNetlocEnd c) url
  rw [splitNetloc] at hfragment
  rw [hfragment] at hend
  have hend : isNetlocEnd c = true := by simpa using hend
  simp only [isNetlocEnd, Bool.or_eq_true, beq_iff_eq] at hend
  rcases hend with (rfl | rfl) | rfl
  · rfl
  · exact absurd rfl hne
  · exact absurd rfl hne'

/-! ## An absolute URI without blanks -/

/-- Path and query behind the netloc. -/
def pathQuery (tail : Text) : Text × Text := partition '?' (partition '#' tail).1

/-- What `urlparse` makes of an absolute URI. -/
theorem urlparse_http {rt : PyRuntime} {scheme rest : Text}
    (hscheme : scheme = txt "http" ∨ scheme = txt "https")
    (hblank : ∀ c, c ∈ rest → isSpace c = false) :
    urlparse rt (scheme ++ txt "://" ++ rest) =
      match checkBrackets rt (splitNetloc rest).1 with
      | .error message => .error message
      | .ok () =>
          match checkNetloc rt (splitNetloc rest).1 with
          | .error message => .error message
          | .ok () =>
              .ok ⟨scheme, (splitNetloc rest).1, dropParams (pathQuery (splitNetloc rest).2).1,
                (pathQuery (splitNetloc rest).2).2⟩ := by
  have hfront : ∀ c, c ∈ scheme ++ txt "://" → isSpace c = false := by
    have hall : (scheme ++ txt "://").all (fun c => !isSpace c) = true := by
      rcases hscheme with rfl | rfl <;> decide
    exact fun c hc => by simpa using List.all_eq_true.mp hall c hc
  have hclean : ((scheme ++ txt "://" ++ rest).dropWhile (fun c => decide (c.toNat ≤ 32))).filter
      (fun c => !(c == '\t' || c == '\r' || c == '\n')) = scheme ++ txt "://" ++ rest := by
    have hdrop : (scheme ++ txt "://" ++ rest).dropWhile (fun c => decide (c.toNat ≤ 32)) =
        scheme ++ txt "://" ++ rest := by
      rcases hscheme with rfl | rfl <;> rfl
    rw [hdrop, List.filter_eq_self]
    intro c hc
    have hspace : isSpace c = false := (List.mem_append.mp hc).elim (hfront c) (hblank c)
    by_contra hnot
    simp only [Bool.not_eq_true', Bool.not_eq_false, Bool.or_eq_true, beq_iff_eq] at hnot
    rcases hnot with (rfl | rfl) | rfl <;> exact absurd hspace (by decide)
  have hsplit : splitScheme rt (scheme ++ txt "://" ++ rest) = (scheme, txt "//" ++ rest) := by
    have hcolon : splitFirst ':' (scheme ++ txt "://" ++ rest) =
        some (scheme, txt "//" ++ rest) := by
      rcases hscheme with rfl | rfl <;> rfl
    have hlower : lower rt scheme = scheme := by
      rcases hscheme with rfl | rfl
      · exact lower_of_ascii (toNat_lt_of_all rfl)
      · exact lower_of_ascii (toNat_lt_of_all rfl)
    rw [splitScheme, hcolon]
    rcases hscheme with rfl | rfl
    · exact congrArg (fun s => (s, txt "//" ++ rest)) hlower
    · exact congrArg (fun s => (s, txt "//" ++ rest)) hlower
  have hparams : scheme ∈ usesParams := by
    rcases hscheme with rfl | rfl <;> decide
  have hnetloc : (txt "//" ++ rest).take 2 = txt "//" := rfl
  have hbehind : (txt "//" ++ rest).drop 2 = rest := rfl
  rw [urlparse]
  dsimp only
  rw [hclean, hsplit]
  dsimp only
  rw [if_pos hnetloc, hbehind, if_pos hparams]
  rfl

/-- The parts of an absolute URI. -/
def httpUrl (scheme rest : Text) : ParseResult where
  scheme := scheme
  netloc := (splitNetloc rest).1
  path := dropParams (pathQuery (splitNetloc rest).2).1
  query := (pathQuery (splitNetloc rest).2).2

/-- An absolute URI is accepted if its authority passes the checks, and split into its parts. -/
theorem urlparse_http_eq_ok_iff {rt : PyRuntime} {scheme rest : Text} {url : ParseResult}
    (hscheme : scheme = txt "http" ∨ scheme = txt "https")
    (hblank : ∀ c, c ∈ rest → isSpace c = false) :
    urlparse rt (scheme ++ txt "://" ++ rest) = .ok url ↔
      url = httpUrl scheme rest ∧ checkBrackets rt (splitNetloc rest).1 = .ok () ∧
        checkNetloc rt (splitNetloc rest).1 = .ok () := by
  rw [urlparse_http hscheme hblank]
  cases checkBrackets rt (splitNetloc rest).1 with
  | error message => simp
  | ok _ =>
      cases checkNetloc rt (splitNetloc rest).1 with
      | error message => simp
      | ok _ =>
          simp only [Except.ok.injEq, and_self, and_true]
          exact eq_comm

/-- A URL with an authority has a rooted path. -/
theorem rooted_of_urlparse {rt : PyRuntime} {url : Text} {r : ParseResult}
    (h : urlparse rt url = .ok r) {scheme rest : Text} (hurl : url = scheme ++ txt "://" ++ rest)
    (hscheme : scheme = txt "http" ∨ scheme = txt "https")
    (hblank : ∀ c, c ∈ url → isSpace c = false) : Rooted r.path := by
  subst hurl
  obtain ⟨rfl, -⟩ := (urlparse_http_eq_ok_iff hscheme
    fun c hc => hblank c (List.mem_append_right _ hc)).mp h
  exact rooted_dropParams (rooted_behind_netloc _)

/-- Parameters are dropped exactly where a semicolon stands in the last segment. -/
theorem dropParams_eq_self_iff {path : Text} :
    dropParams path = path ↔ ';' ∉ afterLast '/' path := by
  have hpart : ∀ s : Text, (partition ';' s).1 = s ↔ ';' ∉ s := by
    intro s
    rw [partition]
    cases hs : splitFirst ';' s with
    | none => exact ⟨fun _ => splitFirst_eq_none.mp hs, fun _ => rfl⟩
    | some parts =>
        obtain ⟨pre, post⟩ := parts
        obtain ⟨rfl, hpre⟩ := splitFirst_eq_some hs
        constructor
        · intro heq
          have hself : pre = pre ++ ';' :: post := heq
          have hlength := congrArg List.length hself
          rw [List.length_append, List.length_cons] at hlength
          omega
        · exact fun hnot => absurd (List.mem_append_right pre List.mem_cons_self) hnot
  rw [dropParams, afterLast]
  cases hs : splitLast '/' path with
  | none => exact hpart path
  | some parts =>
      obtain ⟨pre, post⟩ := parts
      obtain ⟨rfl, -⟩ := splitLast_eq_some hs
      dsimp only
      rw [List.append_cancel_left_eq, List.cons.injEq, ← hpart post]
      exact and_iff_right rfl

end Py
end NetworkProxy
