import NetworkProxy.OrderedDict
import NetworkProxy.PyUtf8
import NetworkProxy.UrlParse

/-!
# Receiving and parsing a request

`recv_http_request` and `parse_http_request`.  A client socket is the list of
answers it gives to the successive `recv` calls: a chunk, the end of the stream,
or an `OSError`.  A chunk is not empty and not longer than `bufferSize`, so every
way a socket can split a stream is such a list, and the list is not bounded.

A `ValueError` that `parse_http_request` lets escape is an error with its message.
-/

namespace NetworkProxy
namespace Http

open Py

def bufferSize : ℕ := 4096

def maxHeaderSize : ℕ := 65536

/-- `HEADER_TERMINATOR`. -/
def headerTerminator : Bytes := [13, 10, 13, 10]

/-- What one `recv` call can return before the end of the stream. -/
structure Chunk where
  bytes : Bytes
  ne_nil : bytes ≠ []
  length_le : bytes.length ≤ bufferSize

/-- The answer of a socket to one `recv` call. -/
inductive RecvEvent
  | data (chunk : Chunk)
  | eof
  | osError

/-- The two-byte line separator, in a text. -/
def lines (s : Text) : List Text := splitPair '\r' '\n' s

/-- Phase 1: accumulate until the terminator is there.  The result is `none` when
the header block is too large, else the data and the answers not used yet. -/
def recvHeaders : List RecvEvent → Bytes → Option (Bytes × List RecvEvent)
  | [], data =>
      if (breakOn headerTerminator data).isSome then some (data, [])
      else if maxHeaderSize < data.length then none
      else some (data, [])
  | event :: events, data =>
      if (breakOn headerTerminator data).isSome then some (data, event :: events)
      else if maxHeaderSize < data.length then none
      else
        match event with
        | .data chunk => recvHeaders events (data ++ chunk.bytes)
        | .eof => some (data, events)
        | .osError => some (data, events)

/-- Phase 2: the body, while `remaining` is positive.  A call asks for at most
`remaining` bytes, so a chunk is cut to that. -/
def recvBody : List RecvEvent → Bytes → ℕ → Bytes
  | [], data, _ => data
  | event :: events, data, remaining =>
      if 0 < remaining then
        match event with
        | .data chunk =>
            let got := chunk.bytes.take (min bufferSize remaining)
            recvBody events (data ++ got) (remaining - got.length)
        | .eof => data
        | .osError => data
      else data

section

variable (rt : PyRuntime)

/-- `_extract_content_length`. -/
def extractContentLength (headerText : Text) : Option ℤ :=
  match (lines headerText).find?
    (fun line => (txt "content-length:").isPrefixOf (lower rt line)) with
  | some line => (splitFirst ':' line).bind (fun parts => parseInt rt (strip parts.2))
  | none => none

/-- `recv_http_request`, on the answers of the socket. -/
def recvHttpRequest (events : List RecvEvent) : Bytes :=
  match recvHeaders events [] with
  | none => []
  | some (data, events) =>
      match breakOn headerTerminator data with
      | none => data
      | some (head, early) =>
          match extractContentLength rt (decodeIgnore (head ++ headerTerminator)) with
          | some contentLength =>
              if 0 < contentLength then
                recvBody events data (contentLength - early.length).toNat
              else data
          | none => data

/-- The dictionary `parse_http_request` returns; `client_ip` is added by the
handler. -/
structure ParsedRequest where
  method : Text
  host : Text
  port : ℤ
  path : Option Text
  headers : OrderedDict Text Text
  contentLength : Option ℤ
  body : Bytes
  requestId : Text
  raw : Bytes
  clientIp : Option Text

/-- Name and value of a header line. -/
def headerField (line : Text) : Option (Text × Text) :=
  (splitFirst ':' line).map (fun parts => (lower rt (strip parts.1), strip parts.2))

/-- The loop over the header lines. -/
def parseHeaders (headerLines : List Text) : OrderedDict Text Text :=
  (headerLines.filterMap (headerField rt)).foldl (fun d p => d.set p.1 p.2) OrderedDict.empty

/-- `int(headers["content-length"])`, where it is an integer. -/
def contentLengthOf (headers : OrderedDict Text Text) : Option ℤ :=
  match headers.get? (txt "content-length") with
  | none => none
  | some [] => none
  | some value => parseInt rt value

/-- Host, port and path. -/
abbrev Destination := Option Text × ℤ × Option Text

/-- `CONNECT host:port`. -/
def connectDestination (target : Text) : Option Destination :=
  match splitLast ':' target with
  | none => none
  | some (host, portText) =>
      (parseInt rt portText).map (fun port => (some host, port, none))

/-- Absolute URI. -/
def absoluteDestination (target : Text) : Except Text Destination :=
  match urlparse rt target with
  | .error message => .error message
  | .ok url =>
      match url.port rt with
      | .error message => .error message
      | .ok port =>
          let fallback := if url.scheme = txt "https" then 443 else 80
          let port := match port with
            | none => fallback
            | some p => if p = 0 then fallback else p
          let path := if url.path = [] then txt "/" else url.path
          .ok (url.hostname rt, port,
            some (if url.query = [] then path else path ++ '?' :: url.query))

/-- Host and port of the `Host` header. -/
def hostHeaderDestination (hostHeader : Text) : Text × ℤ :=
  match splitLast ':' hostHeader with
  | none => (hostHeader, 80)
  | some (host, portText) =>
      match parseInt rt portText with
      | some port => (host, port)
      | none => (hostHeader, 80)

/-- Origin form, with the `Host` header. -/
def originDestination (target : Text) (headers : OrderedDict Text Text) : Destination :=
  let path := if target = [] then txt "/" else target
  match headers.get? (txt "host") with
  | none => (none, 80, some path)
  | some [] => (none, 80, some path)
  | some hostHeader =>
      ((hostHeaderDestination rt hostHeader).1, (hostHeaderDestination rt hostHeader).2,
        some path)

/-- Destination resolution; `none` for a malformed `CONNECT` target. -/
def destination (method target : Text) (headers : OrderedDict Text Text) :
    Except Text (Option Destination) :=
  if method = txt "CONNECT" then .ok (connectDestination rt target)
  else if (txt "http://").isPrefixOf target ∨ (txt "https://").isPrefixOf target then
    (absoluteDestination rt target).map some
  else .ok (some (originDestination rt target headers))

/-- `parse_http_request`; `requestId` is the text of `uuid.uuid4()`. -/
def parseHttpRequest (requestId : Text) (data : Bytes) : Except Text (Option ParsedRequest) :=
  match breakOn headerTerminator data with
  | none => .ok none
  | some (head, body) =>
      match lines (decodeIgnore (head ++ headerTerminator)) with
      | [] => .ok none
      | requestLine :: headerLines =>
          match splitWs isSpace 2 requestLine with
          | [method, target, _] =>
              let headers := parseHeaders rt headerLines
              match destination rt method target headers with
              | .error message => .error message
              | .ok none => .ok none
              | .ok (some (none, _, _)) => .ok none
              | .ok (some (some [], _, _)) => .ok none
              | .ok (some (some host, port, path)) =>
                  .ok (some
                    { method := method
                      host := host
                      port := port
                      path := path
                      headers := headers
                      contentLength := contentLengthOf rt headers
                      body := body
                      requestId := requestId
                      raw := data
                      clientIp := none })
          | _ => .ok none

end

/-! ## The three forms of a target -/

/-- `target.startswith("http://") or target.startswith("https://")`. -/
def AbsoluteTarget (target : Text) : Prop :=
  (txt "http://").isPrefixOf target = true ∨ (txt "https://").isPrefixOf target = true

instance (target : Text) : Decidable (AbsoluteTarget target) :=
  inferInstanceAs (Decidable (_ ∨ _))

theorem exists_of_absoluteTarget {target : Text} (h : AbsoluteTarget target) :
    ∃ scheme rest, target = scheme ++ txt "://" ++ rest ∧
      (scheme = txt "http" ∨ scheme = txt "https") := by
  rcases h with hpre | hpre
  · obtain ⟨rest, hrest⟩ := List.isPrefixOf_iff_prefix.mp hpre
    exact ⟨txt "http", rest, hrest.symm, Or.inl rfl⟩
  · obtain ⟨rest, hrest⟩ := List.isPrefixOf_iff_prefix.mp hpre
    exact ⟨txt "https", rest, hrest.symm, Or.inr rfl⟩

section Forms

variable {rt : PyRuntime} {method target : Text} {headers : OrderedDict Text Text}

theorem destination_connect (hmethod : method = txt "CONNECT") :
    destination rt method target headers = .ok (connectDestination rt target) :=
  if_pos hmethod

theorem destination_absolute (hmethod : method ≠ txt "CONNECT")
    (habsolute : AbsoluteTarget target) :
    destination rt method target headers = (absoluteDestination rt target).map some := by
  rw [destination, if_neg hmethod]
  exact if_pos habsolute

theorem destination_origin (hmethod : method ≠ txt "CONNECT")
    (hform : ¬ AbsoluteTarget target) :
    destination rt method target headers = .ok (some (originDestination rt target headers)) := by
  rw [destination, if_neg hmethod]
  exact if_neg hform

/-- A destination in absolute form was read from the target. -/
theorem absoluteDestination_of_destination {d : Destination} (hmethod : method ≠ txt "CONNECT")
    (habsolute : AbsoluteTarget target)
    (h : destination rt method target headers = .ok (some d)) :
    absoluteDestination rt target = .ok d := by
  rw [destination_absolute hmethod habsolute] at h
  cases hd : absoluteDestination rt target with
  | error message =>
      rw [hd] at h
      cases h
  | ok d' =>
      rw [hd] at h
      cases h
      rfl

/-- Only an absolute URI raises. -/
theorem destination_eq_error {message : Text}
    (h : destination rt method target headers = .error message) :
    method ≠ txt "CONNECT" ∧ AbsoluteTarget target ∧
      absoluteDestination rt target = .error message := by
  by_cases hmethod : method = txt "CONNECT"
  · rw [destination_connect hmethod] at h
    cases h
  · by_cases habsolute : AbsoluteTarget target
    · refine ⟨hmethod, habsolute, ?_⟩
      rw [destination_absolute hmethod habsolute] at h
      cases hd : absoluteDestination rt target with
      | error message' =>
          rw [hd] at h
          cases h
          rfl
      | ok d =>
          rw [hd] at h
          cases h
    · rw [destination_origin hmethod habsolute] at h
      cases h

/-- `CONNECT` with a host and a port. -/
theorem connectDestination_eq_some {host : Text} {port : ℤ} {path : Option Text}
    (h : connectDestination rt target = some (some host, port, path)) :
    ∃ portText, splitLast ':' target = some (host, portText) ∧
      parseInt rt portText = some port ∧ path = none := by
  rw [connectDestination] at h
  split at h
  · cases h
  · rename_i host' portText hsplit
    obtain ⟨port', hport, hd⟩ := Option.map_eq_some_iff.mp h
    cases hd
    exact ⟨portText, hsplit, hport, rfl⟩

/-- An absolute URI gives its host, a port in the range of ports, and its path with the query. -/
theorem absoluteDestination_eq_ok {host : Option Text} {port : ℤ} {path : Option Text}
    (h : absoluteDestination rt target = .ok (host, port, path)) :
    ∃ url, urlparse rt target = .ok url ∧ url.hostname rt = host ∧ (0 ≤ port ∧ port ≤ 65535) ∧
      path = some (if url.query = [] then (if url.path = [] then txt "/" else url.path)
        else (if url.path = [] then txt "/" else url.path) ++ '?' :: url.query) := by
  rw [absoluteDestination] at h
  split at h
  · cases h
  · rename_i url hurl
    split at h
    · cases h
    · rename_i port' hport
      simp only [Except.ok.injEq, Prod.mk.injEq] at h
      obtain ⟨hhost, hvalue, hpath⟩ := h
      refine ⟨url, hurl, hhost, ?_, hpath.symm⟩
      have hfallback : 0 ≤ (if url.scheme = txt "https" then 443 else 80 : ℤ) ∧
          (if url.scheme = txt "https" then 443 else 80 : ℤ) ≤ 65535 := by
        split <;> decide
      rw [← hvalue]
      cases port' with
      | none => exact hfallback
      | some n =>
          dsimp only
          split
          · exact hfallback
          · exact bounds_of_port hport

/-- The origin form takes host and port from the `Host` field. -/
theorem originDestination_eq {host : Text} {port : ℤ} {path : Option Text}
    (h : originDestination rt target headers = (some host, port, path)) :
    ∃ value, headers.get? (txt "host") = some value ∧
      hostHeaderDestination rt value = (host, port) ∧
        path = some (if target = [] then txt "/" else target) := by
  rw [originDestination] at h
  split at h
  · cases h
  · cases h
  · rename_i value _ hget
    simp only [Prod.mk.injEq, Option.some.injEq] at h
    exact ⟨value, hget, Prod.ext h.1 h.2.1, h.2.2.symm⟩

end Forms

/-! ## What an accepted request is made of -/

section Spec

variable {rt : PyRuntime}

/-- Inversion.  How an accepted request was read. -/
theorem parseHttpRequest_eq_some {requestId : Text} {data : Bytes} {p : ParsedRequest}
    (h : parseHttpRequest rt requestId data = .ok (some p)) :
    ∃ head requestLine headerLines target version,
      breakOn headerTerminator data = some (head, p.body) ∧
      lines (decodeIgnore (head ++ headerTerminator)) = requestLine :: headerLines ∧
      splitWs isSpace 2 requestLine = [p.method, target, version] ∧
      p.headers = parseHeaders rt headerLines ∧
      p.contentLength = contentLengthOf rt p.headers ∧
      destination rt p.method target p.headers = .ok (some (some p.host, p.port, p.path)) ∧
      p.requestId = requestId ∧ p.host ≠ [] ∧ p.clientIp = none := by
  rw [parseHttpRequest] at h
  split at h
  · cases h
  · rename_i head body hbreak
    split at h
    · cases h
    · rename_i requestLine headerLines hlines
      split at h
      · rename_i method target version hwords
        dsimp only at h
        split at h
        · cases h
        · cases h
        · cases h
        · cases h
        · rename_i host port path hhost hdest
          cases h
          exact ⟨head, requestLine, headerLines, target, version, hbreak, hlines, hwords,
            rfl, rfl, hdest, rfl, hhost, rfl⟩
      · cases h

/-- A text that holds no line separator. -/
abbrev OneLine (s : Text) : Prop := NoPair '\r' '\n' s

theorem oneLine_of_no_space {s : Text} (h : ∀ c, c ∈ s → isSpace c = false) : OneLine s := by
  refine noPair_of_not_mem fun hc => ?_
  have := h '\r' hc
  exact absurd this (by decide)

theorem OneLine.lower {s : Text} (h : OneLine s) : OneLine (Py.lower rt s) :=
  NoPair.blocks (block_lowerBlocks (by decide) (by decide) s []) h

theorem OneLine.strip {s : Text} (h : OneLine s) : OneLine (Py.strip s) :=
  NoPair.of_isInfix h (stripBy_isInfix isSpace s)

theorem oneLine_of_mem_lines {s l : Text} (h : l ∈ lines s) : OneLine l :=
  noPair_of_mem_splitPair '\r' '\n' h

/-- A header field as the parser stores it: a lower-case name without a colon, a
value without blanks around it, and both within one line. -/
structure FieldOk (f : Text × Text) : Prop where
  name_oneLine : OneLine f.1
  name_colon : ':' ∉ f.1
  name_lower : ∀ c, c ∈ f.1 → ¬ c.isUpper = true
  value_oneLine : OneLine f.2
  value_strip : ∃ s, f.2 = Py.strip s

theorem fieldOk_of_headerField {line : Text} {f : Text × Text} (hline : OneLine line)
    (h : headerField rt line = some f) : FieldOk f := by
  rw [headerField, Option.map_eq_some_iff] at h
  obtain ⟨⟨name, value⟩, hsplit, rfl⟩ := h
  obtain ⟨rfl, hcolon⟩ := splitFirst_eq_some hsplit
  have hname : OneLine name := NoPair.of_isInfix hline (List.prefix_append _ _).isInfix
  have hvalue : OneLine value := NoPair.of_isInfix hline
    ((List.suffix_cons ':' value).trans (List.suffix_append name _)).isInfix
  exact
    { name_oneLine := hname.strip.lower
      name_colon := fun hc => hcolon
        ((stripBy_isInfix isSpace name).subset (mem_of_mem_lower hc (by decide) (by decide)))
      name_lower := fun c hc => not_isUpper_of_mem_lower hc
      value_oneLine := hvalue.strip
      value_strip := ⟨value, rfl⟩ }

theorem get?_parseHeaders (headerLines : List Text) (k : Text) :
    (parseHeaders rt headerLines).get? k =
      OrderedDict.lastValue k (headerLines.filterMap (headerField rt)) :=
  OrderedDict.get?_foldl_set _ k

theorem mem_keys_parseHeaders {headerLines : List Text} {k : Text} :
    k ∈ (parseHeaders rt headerLines).keys ↔
      ∃ f, f ∈ headerLines.filterMap (headerField rt) ∧ f.1 = k := by
  rw [parseHeaders, OrderedDict.mem_keys_foldl_set, List.mem_map]
  exact or_iff_right List.not_mem_nil

theorem fieldOk_of_mem_parseHeaders {headerLines : List Text}
    (hlines : ∀ l, l ∈ headerLines → OneLine l) {f : Text × Text}
    (h : f ∈ (parseHeaders rt headerLines).items) : FieldOk f := by
  have hget := OrderedDict.get?_of_mem_items (k := f.1) (v := f.2) h
  rw [get?_parseHeaders] at hget
  obtain ⟨line, hline, hfield⟩ := List.mem_filterMap.mp (OrderedDict.mem_of_lastValue hget)
  exact fieldOk_of_headerField (hlines line hline) hfield

theorem oneLine_absoluteDestination {target : Text} {host : Text} {port : ℤ}
    {path : Option Text} (htarget : ∀ c, c ∈ target → isSpace c = false)
    (h : absoluteDestination rt target = .ok (some host, port, path)) :
    OneLine host ∧ ∀ q, path = some q → OneLine q := by
  have hcr : '\r' ∉ target := fun hc => absurd (htarget '\r' hc) (by decide)
  obtain ⟨url, hurl, hhost, -, rfl⟩ := absoluteDestination_eq_ok h
  constructor
  · refine noPair_of_not_mem fun hc => hcr ?_
    exact mem_of_urlparse hurl (Or.inl (mem_hostname hhost hc (by decide) (by decide)))
  · intro q hq
    cases hq
    have hpath : ∀ c, c ∈ (if url.path = [] then txt "/" else url.path) →
        c = '/' ∨ c ∈ target := by
      intro c hc
      split at hc
      · exact Or.inl (List.mem_singleton.mp hc)
      · exact Or.inr (mem_of_urlparse hurl (Or.inr (Or.inl hc)))
    refine noPair_of_not_mem fun hc => ?_
    split at hc
    · exact (hpath _ hc).elim (by decide) hcr
    · rcases List.mem_append.mp hc with hc | hc
      · exact (hpath _ hc).elim (by decide) hcr
      · rcases List.mem_cons.mp hc with hc | hc
        · exact absurd hc (by decide)
        · exact hcr (mem_of_urlparse hurl (Or.inr (Or.inr hc)))

/-- How a `Host` header is read: with a port if an integer stands behind its last colon,
else as a whole. -/
theorem hostHeaderDestination_cases (rt : PyRuntime) (hostHeader : Text) :
    (∃ pre digits n, splitLast ':' hostHeader = some (pre, digits) ∧
      parseInt rt digits = some n ∧ hostHeaderDestination rt hostHeader = (pre, n)) ∨
    ((∀ pre digits, splitLast ':' hostHeader = some (pre, digits) → parseInt rt digits = none) ∧
      hostHeaderDestination rt hostHeader = (hostHeader, 80)) := by
  unfold hostHeaderDestination
  cases hsplit : splitLast ':' hostHeader with
  | none => exact Or.inr ⟨nofun, rfl⟩
  | some parts =>
      obtain ⟨pre, digits⟩ := parts
      cases hn : parseInt rt digits with
      | some n => exact Or.inl ⟨pre, digits, n, rfl, hn, by simp [hn]⟩
      | none =>
          refine Or.inr ⟨?_, by simp [hn]⟩
          rintro _ _ ⟨⟩
          exact hn

theorem oneLine_hostHeaderDestination (rt : PyRuntime) {hostHeader : Text}
    (h : OneLine hostHeader) :
    OneLine (hostHeaderDestination rt hostHeader).1 := by
  rcases hostHeaderDestination_cases rt hostHeader with
    ⟨host, portText, _, hsplit, -, hread⟩ | ⟨-, hread⟩
  · obtain ⟨rfl, -⟩ := splitLast_eq_some hsplit
    rw [hread]
    exact NoPair.of_isInfix h (List.prefix_append _ _).isInfix
  · rw [hread]
    exact h

/-- Host and path of the destination stay within one line. -/
theorem oneLine_destination {method target : Text} {headers : OrderedDict Text Text}
    {host : Text} {port : ℤ} {path : Option Text}
    (htarget : ∀ c, c ∈ target → isSpace c = false)
    (hheaders : ∀ f, f ∈ headers.items → OneLine f.2)
    (h : destination rt method target headers = .ok (some (some host, port, path))) :
    OneLine host ∧ ∀ q, path = some q → OneLine q := by
  have hline : OneLine target := oneLine_of_no_space htarget
  by_cases hmethod : method = txt "CONNECT"
  · rw [destination_connect hmethod, Except.ok.injEq] at h
    obtain ⟨portText, hsplit, -, rfl⟩ := connectDestination_eq_some h
    obtain ⟨rfl, -⟩ := splitLast_eq_some hsplit
    exact ⟨NoPair.of_isInfix hline (List.prefix_append _ _).isInfix, nofun⟩
  · by_cases habsolute : AbsoluteTarget target
    · exact oneLine_absoluteDestination htarget
        (absoluteDestination_of_destination hmethod habsolute h)
    · rw [destination_origin hmethod habsolute, Except.ok.injEq, Option.some.injEq] at h
      obtain ⟨value, hget, hread, rfl⟩ := originDestination_eq h
      have hvalue := oneLine_hostHeaderDestination rt
        (hheaders _ (OrderedDict.mem_items_of_get? hget))
      rw [hread] at hvalue
      refine ⟨hvalue, ?_⟩
      rintro _ ⟨⟩
      split
      · exact List.isChain_singleton _
      · exact hline

/-- What the builder relies on: every text of an accepted request stays within one
line. -/
structure ParsedRequest.Clean (p : ParsedRequest) : Prop where
  method_oneLine : OneLine p.method
  host_oneLine : OneLine p.host
  path_oneLine : ∀ q, p.path = some q → OneLine q
  fields : ∀ f, f ∈ p.headers.items → FieldOk f

theorem clean_of_parse {requestId : Text} {data : Bytes} {p : ParsedRequest}
    (h : parseHttpRequest rt requestId data = .ok (some p)) : p.Clean := by
  obtain ⟨head, requestLine, headerLines, target, version, -, hlines, hwords, hheaders, -,
    hdest, -⟩ := parseHttpRequest_eq_some h
  obtain ⟨hmethod, htarget⟩ := splitWs_two_words hwords
  have hfields : ∀ f, f ∈ p.headers.items → FieldOk f := by
    intro f hf
    rw [hheaders] at hf
    refine fieldOk_of_mem_parseHeaders (fun l hl => ?_) hf
    exact oneLine_of_mem_lines (hlines ▸ List.mem_cons_of_mem _ hl)
  obtain ⟨hhost, hpath⟩ := oneLine_destination htarget
    (fun f hf => (hfields f hf).value_oneLine) hdest
  exact ⟨oneLine_of_no_space hmethod, hhost, hpath, hfields⟩

end Spec

end Http
end NetworkProxy
