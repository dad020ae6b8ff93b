import NetworkProxy.Forwarder
import NetworkProxy.ForwardingChain

/-!
# Any number of proxies in a row

Each proxy parses what the one before it has built, and builds its own request from it.

* `sameErrand_next`: what one more proxy reads.
* `series_keeps_request`: a request that names its destination comes through any number of
  proxies as the same request, to the same origin, under the same cache key.
-/

namespace NetworkProxy
namespace Http

open Py

/-- What the last proxy of a row reads; each hop is the peer of a proxy, with the identifier that
the next one draws. -/
def lastReads (rt : PyRuntime) : List (IPv4 × Text) → ParsedRequest → Option ParsedRequest
  | [], p => some p
  | (hop, requestId) :: hops, p =>
      match parseHttpRequest rt requestId (buildOutboundRequest (p.receivedFrom hop)) with
      | .ok (some q) => lastReads rt hops q
      | _ => none

/-- The same message, with the same body to send on, and the peers of the proxies in between. -/
structure SameErrand (hops : List IPv4) (p q : ParsedRequest) : Prop extends SameMessage p q where
  outBody_eq : q.outBody = p.outBody
  forwardedFor : q.existingXff = hopList p.existingXff hops

/-- A body that was sent on once is sent on again. -/
theorem outBody_of_read {p q : ParsedRequest} (hmethod : q.method = p.method)
    (hlength : q.contentLength = p.contentLength) (hbody : q.body = p.outBody) :
    q.outBody = p.outBody := by
  have hkeeps : p.outBody = [] ∨ p.outBody = p.body := by
    rw [ParsedRequest.outBody]
    split
    · exact Or.inr rfl
    · split
      · split
        · exact Or.inr rfl
        · exact Or.inl rfl
      · exact Or.inl rfl
  rcases hkeeps with hnone | hall
  · rw [hnone] at hbody
    rw [hnone, ParsedRequest.outBody, hbody]
    simp
    split <;> rfl
  · rw [hall] at hbody
    rw [ParsedRequest.outBody, ParsedRequest.outBody, hmethod, hlength, hbody]

section Series

variable {rt : PyRuntime}

/-- The length is read from one field. -/
theorem contentLengthOf_eq_of_get? {headers headers' : OrderedDict Text Text}
    (h : headers.get? (txt "content-length") = headers'.get? (txt "content-length")) :
    contentLengthOf rt headers = contentLengthOf rt headers' := by
  rw [contentLengthOf, contentLengthOf, h]

/-- One more proxy. -/
theorem sameErrand_next (hsigma : rt.SmallSigmas) {requestId : Text} {data : Bytes}
    {p : ParsedRequest} (h : parseHttpRequest rt requestId data = .ok (some p))
    (hmethod : p.method ≠ txt "CONNECT") (hnames : NamesDestination rt p) (hop : IPv4)
    (requestId' : Text) :
    ∃ q, parseHttpRequest rt requestId' (buildOutboundRequest (p.receivedFrom hop)) =
        .ok (some q) ∧ SameErrand [hop] p q ∧ NamesDestination rt q := by
  have hclean := clean_of_parse h
  have hforward := forwardable_of_parse h hmethod
  have hip := oneLine_clientIp (some hop)
  obtain ⟨headers, hheaders, hparse⟩ := parse_outbound hsigma (hclean.receivedFrom hop)
    (hforward.withClientIp (some hop.text)) hip hmethod requestId'
  have hread := (hostField_iff rt hforward.host).mpr hnames
  have hhost : (hostHeaderDestination rt (strip (p.receivedFrom hop).hostField.2)) =
      (p.host, p.port) := hread
  rw [hhost, if_neg hforward.host.ne_nil] at hparse
  obtain ⟨-, -, -, -, -, -, -, -, -, hlength, -⟩ := parseHttpRequest_eq_some h
  have hcontent : contentLengthOf rt headers = p.contentLength := by
    rw [hlength]
    exact contentLengthOf_eq_of_get? (hheaders _ (by decide))
  refine ⟨_, hparse, ⟨⟨rfl, rfl, rfl, rfl, hheaders⟩, ?_, ?_⟩, hnames⟩
  · exact outBody_of_read rfl hcontent rfl
  · rw [ParsedRequest.existingXff, get?_xff_of_outbound hclean hparse, Option.getD_some]

theorem hopList_nil (value : Text) : hopList value [] = value := by
  rw [hopList]
  split
  · rename_i hnil
    rw [hnil]
    rfl
  · rfl

/-- **Any number of proxies.**  A request whose `Host` field names its destination comes through
any number of proxies: each accepts what the one before it sends, and the last one reads the same
request line, the same destination, the same values of all fields that the proxies leave alone and
the same body to send on, has the same cache key, and finds all peers of the others in the
forwarding list, in order.  Each parser gets the bytes that were built as they are: how
`recv_http_request` reads them from a socket, with its bound on the head, is not part of this. -/
theorem series_keeps_request (hsigma : rt.SmallSigmas) {requestId : Text} {data : Bytes}
    {p : ParsedRequest} (h : parseHttpRequest rt requestId data = .ok (some p))
    (hmethod : p.method ≠ txt "CONNECT") (hnames : NamesDestination rt p)
    (hops : List (IPv4 × Text)) :
    ∃ q, lastReads rt hops p = some q ∧ SameErrand (hops.map Prod.fst) p q ∧
      Proxy.Forward.cacheKey q = Proxy.Forward.cacheKey p := by
  have hseries : ∃ q, lastReads rt hops p = some q ∧ SameErrand (hops.map Prod.fst) p q := by
    induction hops generalizing p data requestId with
    | nil =>
        refine ⟨p, rfl, ⟨⟨rfl, rfl, rfl, rfl, fun _ _ => rfl⟩, rfl, ?_⟩⟩
        exact (hopList_nil _).symm
    | cons hop hops ih =>
        obtain ⟨peer, requestId'⟩ := hop
        obtain ⟨q, hparse, hq, hnames'⟩ :=
          sameErrand_next hsigma h hmethod hnames peer requestId'
        obtain ⟨last, hlast, hrest⟩ := ih hparse (by rwa [hq.method_eq]) hnames'
        refine ⟨last, by rw [lastReads, hparse, ← hlast], ⟨⟨?_, ?_, ?_, ?_, ?_⟩, ?_, ?_⟩⟩
        · exact hrest.method_eq.trans hq.method_eq
        · exact hrest.path_eq.trans hq.path_eq
        · exact hrest.host_eq.trans hq.host_eq
        · exact hrest.port_eq.trans hq.port_eq
        · exact fun name hname => (hrest.headers_eq name hname).trans (hq.headers_eq name hname)
        · exact hrest.outBody_eq.trans hq.outBody_eq
        · rw [hrest.forwardedFor, hq.forwardedFor, hopList_singleton_cons, List.map_cons]
  obtain ⟨q, hlast, hq⟩ := hseries
  refine ⟨q, hlast, hq, ?_⟩
  rw [Proxy.Forward.cacheKey, Proxy.Forward.cacheKey, hq.method_eq, hq.host_eq, hq.port_eq,
    hq.path_eq]

end Series

/-- The peers of two proxies. -/
def twoHops : List (IPv4 × Text) := [(⟨10, 0, 0, 1⟩, []), (⟨10, 0, 0, 2⟩, [])]

theorem series_keeps_request_twoHops :
    ∃ q, lastReads asciiRuntime twoHops portParsed = some q ∧ q.host = txt "h" ∧ q.port = 8080 ∧
      q.existingXff = txt "10.0.0.1, 10.0.0.2" := by
  have hparse : parseHttpRequest asciiRuntime [] portRequest = .ok (some portParsed) := rfl
  have hsigma : asciiRuntime.SmallSigmas := ⟨by decide, by decide⟩
  have hnames : NamesDestination asciiRuntime portParsed :=
    ⟨by decide, fun h => absurd h (by decide)⟩
  obtain ⟨q, hlast, hq, -⟩ := series_keeps_request hsigma hparse (by decide) hnames twoHops
  refine ⟨q, hlast, hq.host_eq, hq.port_eq, ?_⟩
  rw [hq.forwardedFor]
  decide

end Http
end NetworkProxy
