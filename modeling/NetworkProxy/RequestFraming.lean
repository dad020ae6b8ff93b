import NetworkProxy.OutboundFields

/-!
# Framing of the forwarded request

A message is self-delimiting when the bytes after its header block are as many as
its `Content-Length` field says, and none when it has no such field.

* `selfDelimiting_outbound_iff`: when the builder's result is self-delimiting.
* `received_of_recv`: which bytes of the client's stream become the body, however
  the socket splits the stream.
* `forwards_one_request_iff`: the two together, on the stream of the client.
-/

namespace NetworkProxy
namespace Http

open Py

/-! ## Self-delimiting messages -/

/-- The values of the `Content-Length` fields of a head. -/
def contentLengths (head : Bytes) : List Bytes := fieldValues (ascii "content-length") head

/-- Value of a nonempty sequence of decimal digits. -/
def plainDecimal (bs : Bytes) : Option ℕ :=
  if bs ≠ [] ∧ bs.all (fun b => 48 ≤ b.toNat && b.toNat ≤ 57) then
    some (digitsValue (bs.map (fun b => b.toNat - 48)))
  else none

/-- The bytes after the first empty line are counted by every `Content-Length` field,
and there are none when there is no such field. -/
def SelfDelimiting (message : Bytes) : Prop :=
  ∃ head body, breakOn headerTerminator message = some (head, body) ∧
    (∀ value, value ∈ contentLengths head → plainDecimal value = some body.length) ∧
    (contentLengths head = [] → body = [])

/-! ## The outbound request -/

section Outbound

variable {p : ParsedRequest}

/-- The `Content-Length` fields of the outbound request are the one of the client's
header dictionary. -/
theorem mem_contentLengths_outbound (hp : p.Clean)
    (hip : ∀ s, p.clientIp = some s → OneLine s) (value : Bytes) :
    value ∈ contentLengths (joinPair 13 10 (p.outLines.map encode)) ↔
      ∃ t, p.headers.get? (txt "content-length") = some t ∧ value = encode t := by
  have hascii : ascii "content-length" = encode (txt "content-length") := by decide
  rw [contentLengths, hascii, fieldValues_outbound hp hip (toNat_lt_of_all rfl) (by decide)]
  cases p.headers.get? (txt "content-length") with
  | none => simp
  | some t => simp

/-- When the outbound request is self-delimiting, in terms of the parsed request. -/
theorem selfDelimiting_outbound_iff (hp : p.Clean)
    (hip : ∀ s, p.clientIp = some s → OneLine s) :
    SelfDelimiting (buildOutboundRequest p) ↔
      match p.headers.get? (txt "content-length") with
      | none => p.outBody = []
      | some t => plainDecimal (encode t) = some p.outBody.length := by
  have hmem := mem_contentLengths_outbound hp hip
  rw [SelfDelimiting, breakOn_outbound hp hip]
  cases hget : p.headers.get? (txt "content-length") with
  | none =>
      have hnil : contentLengths (joinPair 13 10 (p.outLines.map encode)) = [] := by
        rw [List.eq_nil_iff_forall_not_mem]
        intro value hvalue
        obtain ⟨t, ht, -⟩ := (hmem value).mp hvalue
        rw [hget] at ht
        cases ht
      constructor
      · rintro ⟨head, body, hbreak, -, hbody⟩
        simp only [Option.some.injEq, Prod.mk.injEq] at hbreak
        obtain ⟨rfl, rfl⟩ := hbreak
        exact hbody hnil
      · intro hbody
        refine ⟨_, _, rfl, ?_, fun _ => hbody⟩
        intro value hvalue
        rw [hnil] at hvalue
        cases hvalue
  | some t =>
      have hvalue := (hmem (encode t)).mpr ⟨t, hget, rfl⟩
      constructor
      · rintro ⟨head, body, hbreak, hall, -⟩
        simp only [Option.some.injEq, Prod.mk.injEq] at hbreak
        obtain ⟨rfl, rfl⟩ := hbreak
        exact hall _ hvalue
      · intro hcount
        refine ⟨_, _, rfl, ?_, ?_⟩
        · intro value hv
          obtain ⟨t', ht', rfl⟩ := (hmem value).mp hv
          rw [hget, Option.some.injEq] at ht'
          rw [← ht']
          exact hcount
        · intro hnil
          rw [hnil] at hvalue
          cases hvalue

end Outbound

/-! ## The stream of the client -/

/-- The bytes a socket delivers before it is closed or fails. -/
def streamOf : List RecvEvent → Bytes
  | .data chunk :: events => chunk.bytes ++ streamOf events
  | _ => []

/-- How a request arrives: its head, the bytes that came in the same chunk behind the
head, and the bytes that come later. -/
structure Arrival where
  head : Bytes
  early : Bytes
  later : Bytes

/-- The arrival of the first request, when `before` has come already. -/
def arrival : Bytes → List RecvEvent → Option Arrival
  | before, [] => (breakOn headerTerminator before).map (fun r => ⟨r.1, r.2, []⟩)
  | before, event :: events =>
      match breakOn headerTerminator before with
      | some (head, early) => some ⟨head, early, streamOf (event :: events)⟩
      | none =>
          match event with
          | .data chunk => arrival (before ++ chunk.bytes) events
          | _ => none

namespace Arrival

variable (rt : PyRuntime) (a : Arrival)

/-- What the client sent after the head. -/
def rest : Bytes := a.early ++ a.later

/-- The head, with the empty line, as text lines. -/
def headLines : List Text := lines (decodeIgnore (a.head ++ headerTerminator))

/-- The body length the proxy waits for: the first `Content-Length` line, if it is
positive. -/
def awaited : ℕ :=
  ((extractContentLength rt (decodeIgnore (a.head ++ headerTerminator))).getD 0).toNat

/-- How many bytes after the head are received: those that came with the head, and
as many as are waited for, as far as they come. -/
def bodyCount : ℕ := min a.rest.length (max a.early.length (a.awaited rt))

/-- The method of the request line. -/
def method : Text := ((splitWs isSpace 2 (a.headLines.headD [])).head?).getD []

/-- The last `Content-Length` field of the head. -/
def contentLength : Option Text :=
  OrderedDict.lastValue (txt "content-length") (a.headLines.tail.filterMap (headerField rt))

/-- How many of the received bytes are sent on: all, for `POST`, `PUT`, `PATCH` and
for a positive `Content-Length`, else none. -/
def sentCount : ℕ :=
  if sendsBody a.method ∨ 0 < ((a.contentLength rt).bind (parseInt rt)).getD 0 then
    a.bodyCount rt
  else 0

/-- The bytes that are sent on are as many as the last `Content-Length` field says in
plain decimal digits; without such a field there are none. -/
def Framed : Prop :=
  match a.contentLength rt with
  | none => a.sentCount rt = 0
  | some value => plainDecimal (encode value) = some (a.sentCount rt)

/-- The body of the client's first request: as many bytes as its last `Content-Length`
field says. -/
def firstBody : Bytes :=
  a.rest.take (((a.contentLength rt).bind (fun v => plainDecimal (encode v))).getD 0)

end Arrival

/-- The outbound message is self-delimiting, and its body holds nothing that the
client sent after its first request. -/
def ForwardsOneRequest (rt : PyRuntime) (a : Arrival) (outbound : Bytes) : Prop :=
  SelfDelimiting outbound ∧
    ∃ head body, breakOn headerTerminator outbound = some (head, body) ∧
      body <+: a.firstBody rt

section Receiving

variable {rt : PyRuntime}

theorem recvBody_zero (events : List RecvEvent) (data : Bytes) :
    recvBody events data 0 = data := by
  cases events with
  | nil => rfl
  | cons event events => cases event <;> rfl

/-- Phase 2 reads on until it has `remaining` bytes or the stream ends. -/
theorem recvBody_eq (events : List RecvEvent) (data : Bytes) (remaining : ℕ) :
    recvBody events data remaining = data ++ (streamOf events).take remaining := by
  induction events generalizing data remaining with
  | nil => simp [recvBody, streamOf]
  | cons event events ih =>
      rcases Nat.eq_zero_or_pos remaining with rfl | hpos
      · rw [recvBody_zero, List.take_zero, List.append_nil]
      · cases event with
        | data chunk =>
            have hcut : chunk.bytes.take (min bufferSize remaining) =
                chunk.bytes.take remaining := by
              rw [Nat.min_comm, ← List.take_take, List.take_of_length_le chunk.length_le]
            have hleft : remaining - (chunk.bytes.take remaining).length =
                remaining - chunk.bytes.length := by
              rw [List.length_take]
              omega
            rw [recvBody, if_pos hpos]
            dsimp only
            rw [ih, hcut, hleft, streamOf, List.take_append, List.append_assoc]
        | eof =>
            rw [recvBody, if_pos hpos, streamOf, List.take_nil, List.append_nil]
            simp
        | osError =>
            rw [recvBody, if_pos hpos, streamOf, List.take_nil, List.append_nil]
            simp

/-- Phase 1 stops at the chunk that completes the head. -/
theorem arrival_of_recvHeaders {events events' : List RecvEvent} {data data' : Bytes}
    {head early : Bytes} (h : recvHeaders events data = some (data', events'))
    (hbreak : breakOn headerTerminator data' = some (head, early)) :
    arrival data events = some ⟨head, early, streamOf events'⟩ := by
  induction events generalizing data with
  | nil =>
      rw [recvHeaders] at h
      have hdata : data = data' ∧ events' = [] := by
        split at h
        · cases h
          exact ⟨rfl, rfl⟩
        · split at h
          · cases h
          · cases h
            exact ⟨rfl, rfl⟩
      obtain ⟨rfl, rfl⟩ := hdata
      rw [arrival, hbreak]
      rfl
  | cons event events ih =>
      rw [recvHeaders.eq_def] at h
      rw [arrival.eq_def]
      dsimp only at h ⊢
      cases hdata : breakOn headerTerminator data with
      | some parts =>
          rw [hdata] at h
          cases h
          rw [hdata] at hbreak
          cases hbreak
          rfl
      | none =>
          rw [hdata, if_neg (by simp)] at h
          split at h
          · cases h
          · cases event with
            | data chunk => exact ih h
            | eof =>
                cases h
                rw [hdata] at hbreak
                cases hbreak
            | osError =>
                cases h
                rw [hdata] at hbreak
                cases hbreak

/-- The received request, however the socket splits the stream: the head of the
arrival, and behind it the first `bodyCount` bytes of the rest. -/
theorem received_of_recv {events : List RecvEvent} {head body : Bytes}
    (h : breakOn headerTerminator (recvHttpRequest rt events) = some (head, body)) :
    ∃ a, arrival [] events = some a ∧ a.head = head ∧
      body = a.rest.take (max a.early.length (a.awaited rt)) := by
  rw [recvHttpRequest] at h
  split at h
  · cases h
  · rename_i data events' hrecv
    split at h
    · rename_i hnone
      rw [hnone] at h
      cases h
    · rename_i head' early hbreak
      have harrival := arrival_of_recvHeaders hrecv hbreak
      refine ⟨_, harrival, ?_⟩
      have hstop : breakOn headerTerminator data = some (head, body) →
          ((extractContentLength rt (decodeIgnore (head' ++ headerTerminator))).getD 0).toNat
            = 0 →
          head' = head ∧ body = (early ++ streamOf events').take (max early.length
            ((extractContentLength rt
              (decodeIgnore (head' ++ headerTerminator))).getD 0).toNat) := by
        intro hdata hzero
        rw [hbreak] at hdata
        cases hdata
        rw [hzero, Nat.max_zero, List.take_left]
        exact ⟨rfl, rfl⟩
      split at h
      · rename_i contentLength hcl
        split at h
        · rename_i hpos
          rw [recvBody_eq, breakOn_append _ hbreak] at h
          cases h
          refine ⟨rfl, ?_⟩
          have hsplit : max early.length contentLength.toNat =
              early.length + (contentLength - early.length).toNat := by
            omega
          rw [Arrival.rest, Arrival.awaited]
          dsimp only
          rw [hcl, Option.getD_some, hsplit, List.take_length_add_append]
        · rename_i hneg
          refine hstop h ?_
          rw [hcl, Option.getD_some]
          omega
      · rename_i hcl
        refine hstop h ?_
        rw [hcl]
        rfl

end Receiving

/-! ## The whole way -/

section Forwarding

variable {rt : PyRuntime}

theorem contentLengthOf_eq (headers : OrderedDict Text Text) :
    contentLengthOf rt headers =
      (headers.get? (txt "content-length")).bind (parseInt rt) := by
  rw [contentLengthOf]
  split
  · rename_i h
    rw [h]
    rfl
  · rename_i h
    rw [h]
    rfl
  · rename_i h
    rw [h]
    rfl

/-- How many body bytes the builder appends. -/
theorem length_outBody (p : ParsedRequest) :
    p.outBody.length =
      if sendsBody p.method ∨ 0 < p.contentLength.getD 0 then p.body.length else 0 := by
  rw [ParsedRequest.outBody]
  rcases eq_or_ne p.body [] with hbody | hbody
  · cases p.contentLength with
    | none => simp [hbody]
    | some contentLength => simp [hbody]
  · cases sendsBody p.method with
    | true => simp [hbody]
    | false =>
        cases p.contentLength with
        | none => simp
        | some contentLength =>
            rcases em (0 < contentLength) with hpos | hneg
            · simp [hbody, hpos]
            · simp [hneg]

theorem outBody_isPrefix (p : ParsedRequest) : p.outBody <+: p.body := by
  rw [ParsedRequest.outBody]
  split
  · exact List.prefix_refl _
  · split
    · split
      · exact List.prefix_refl _
      · exact List.nil_prefix
    · exact List.nil_prefix

/-- What the parser makes of an arrival. -/
theorem arrival_of_parse {requestId : Text} {events : List RecvEvent} {p : ParsedRequest}
    (h : parseHttpRequest rt requestId (recvHttpRequest rt events) = .ok (some p)) :
    ∃ a, arrival [] events = some a ∧ p.method = a.method ∧
      p.headers.get? (txt "content-length") = a.contentLength rt ∧
      p.body <+: a.rest ∧ p.outBody.length = a.sentCount rt := by
  obtain ⟨head, requestLine, headerLines, target, version, hbreak, hlines, hwords, hheaders,
    hcl, -, -, -, -⟩ := parseHttpRequest_eq_some h
  obtain ⟨a, harrival, rfl, hbody⟩ := received_of_recv hbreak
  have hlines' : a.headLines = requestLine :: headerLines := hlines
  have hmethod : p.method = a.method := by
    rw [Arrival.method, hlines', List.headD_cons, hwords]
    rfl
  have hget : p.headers.get? (txt "content-length") = a.contentLength rt := by
    rw [hheaders, get?_parseHeaders, Arrival.contentLength, hlines', List.tail_cons]
  have hlength : p.body.length = a.bodyCount rt := by
    rw [hbody, List.length_take, Arrival.bodyCount, Nat.min_comm]
  refine ⟨a, harrival, hmethod, hget, ?_, ?_⟩
  · rw [hbody]
    exact List.take_prefix _ _
  · rw [length_outBody, Arrival.sentCount, hlength, hmethod, hcl, contentLengthOf_eq, hget]

/--
**Request framing.**  For every client stream, every way the socket splits it and
every early close or error: a request that is accepted is forwarded as exactly one
self-delimiting message, without a byte the client sent after it, if and only if the
number of body bytes sent on is what its last `Content-Length` field says.
-/
theorem forwards_one_request_iff (rt : PyRuntime) (client : IPv4) (requestId : Text)
    (events : List RecvEvent) (p : ParsedRequest)
    (hparse : parseHttpRequest rt requestId (recvHttpRequest rt events) = .ok (some p)) :
    ∃ a, arrival [] events = some a ∧
      (ForwardsOneRequest rt a
          (buildOutboundRequest { p with clientIp := some client.text }) ↔
        a.Framed rt) := by
  obtain ⟨a, harrival, -, hget, hbody, hsent⟩ := arrival_of_parse hparse
  have hclean := ParsedRequest.Clean.withClientIp (clean_of_parse hparse) (some client.text)
  have hip := oneLine_clientIp (some client)
  have hself := selfDelimiting_outbound_iff hclean hip
  dsimp only at hself
  have hframed : SelfDelimiting
      (buildOutboundRequest { p with clientIp := some client.text }) ↔ a.Framed rt := by
    have hlength : ({ p with clientIp := some client.text } : ParsedRequest).outBody.length =
        a.sentCount rt := hsent
    rw [hself, Arrival.Framed, hget]
    cases a.contentLength rt with
    | none =>
        dsimp only
        rw [← hlength, List.length_eq_zero_iff]
    | some value =>
        dsimp only
        rw [hlength]
  refine ⟨a, harrival, fun h => hframed.mp h.1, fun h => ⟨hframed.mpr h, ?_⟩⟩
  refine ⟨_, _, breakOn_outbound hclean hip, ?_⟩
  have hprefix : p.outBody <+: a.rest := (outBody_isPrefix p).trans hbody
  have hdeclared : p.outBody.length =
      ((a.contentLength rt).bind (fun v => plainDecimal (encode v))).getD 0 := by
    rw [Arrival.Framed] at h
    rw [hsent]
    cases hv : a.contentLength rt with
    | none =>
        rw [hv] at h
        exact h
    | some value =>
        rw [hv] at h
        dsimp only at h
        rw [Option.bind_some, h, Option.getD_some]
  rw [Arrival.firstBody, ← hdeclared]
  exact (List.prefix_iff_eq_take.mp hprefix) ▸ List.prefix_refl _

/-- A chunk with the bytes of an ASCII text. -/
def textChunk (s : String) (hne : ascii s ≠ []) (hlen : (ascii s).length ≤ bufferSize) :
    RecvEvent :=
  .data ⟨ascii s, hne, hlen⟩

/-- A `POST` whose body has the declared length. -/
def plainPost : List RecvEvent :=
  [textChunk "POST http://a/ HTTP/1.1\r\nContent-Length: 2\r\n\r\nhi" (by decide) (by decide)]

def plainPostRequest : ParsedRequest where
  method := txt "POST"
  host := txt "a"
  port := 80
  path := some (txt "/")
  headers := parseHeaders asciiRuntime [txt "Content-Length: 2"]
  contentLength := some 2
  body := ascii "hi"
  requestId := []
  raw := ascii "POST http://a/ HTTP/1.1\r\nContent-Length: 2\r\n\r\nhi"
  clientIp := none

theorem forwards_one_request_plainPost :
    ∃ a, arrival [] plainPost = some a ∧
      ForwardsOneRequest asciiRuntime a
        (buildOutboundRequest
          { plainPostRequest with clientIp := some (IPv4.text ⟨127, 0, 0, 1⟩) }) := by
  obtain ⟨a, harrival, hiff⟩ := forwards_one_request_iff asciiRuntime ⟨127, 0, 0, 1⟩ []
    plainPost plainPostRequest rfl
  refine ⟨a, harrival, hiff.mpr ?_⟩
  have ha : arrival [] plainPost =
      some ⟨ascii "POST http://a/ HTTP/1.1\r\nContent-Length: 2", ascii "hi", []⟩ := rfl
  rw [ha] at harrival
  cases harrival
  have hcount : plainDecimal (encode (txt "2")) = some 2 := by decide
  exact hcount

/-- A `POST` without a `Content-Length`, and a second request in the same chunk. -/
def pipelinedPost : List RecvEvent :=
  [textChunk "POST http://a/ HTTP/1.1\r\n\r\nGET http://b/ HTTP/1.1\r\n\r\n"
    (by decide) (by decide)]

def pipelinedPostRequest : ParsedRequest where
  method := txt "POST"
  host := txt "a"
  port := 80
  path := some (txt "/")
  headers := OrderedDict.empty
  contentLength := none
  body := ascii "GET http://b/ HTTP/1.1\r\n\r\n"
  requestId := []
  raw := ascii "POST http://a/ HTTP/1.1\r\n\r\nGET http://b/ HTTP/1.1\r\n\r\n"
  clientIp := none

/-- The second request is sent on as an undeclared body of the first. -/
theorem pipelined_request_is_forwarded :
    ¬ ∀ (rt : PyRuntime) (client : IPv4) (requestId : Text) (events : List RecvEvent)
      (p : ParsedRequest),
      parseHttpRequest rt requestId (recvHttpRequest rt events) = .ok (some p) →
        p.method ≠ txt "CONNECT" →
          SelfDelimiting (buildOutboundRequest { p with clientIp := some client.text }) := by
  intro hclaim
  have hparse : parseHttpRequest asciiRuntime []
      (recvHttpRequest asciiRuntime pipelinedPost) = .ok (some pipelinedPostRequest) := rfl
  have h := hclaim asciiRuntime ⟨127, 0, 0, 1⟩ [] pipelinedPost pipelinedPostRequest hparse
    (by decide)
  have hip := oneLine_clientIp (some ⟨127, 0, 0, 1⟩)
  have hclean := (clean_of_parse hparse).withClientIp (some (IPv4.text ⟨127, 0, 0, 1⟩))
  rw [selfDelimiting_outbound_iff hclean hip] at h
  have hsent : pipelinedPostRequest.outBody = [] := h
  revert hsent
  decide

end Forwarding

end Http
end NetworkProxy
