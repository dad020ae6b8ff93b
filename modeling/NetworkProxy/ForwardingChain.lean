import NetworkProxy.ConnectionOptions
import NetworkProxy.Chaining
import NetworkProxy.LineEnds

/-!
# The forwarding chain

`X-Forwarded-For` lists the client and the proxies that a request has passed.  The builder
writes the field with the list completed, and the loop over the client's fields copies the old
one as well.

* `Series`: proxies in a row, each of which reads what the one before it has sent.
* `chainFields_series`: behind another proxy, every message has the field twice, with the list
  as it was received and as it was completed.
* `forwarding_chain_iff`: the chain is kept exactly if the client sends no such field and there
  is one proxy.
-/

namespace NetworkProxy
namespace Http

open Py

/-! ## The chain -/

/-- The values of the `X-Forwarded-For` fields of a message. -/
def chainFields (message : Bytes) : List Bytes :=
  ((messageFields message).filter (fun f => f.1 = ascii "x-forwarded-for")).map Prod.snd

/-- The client's own value, if it has one, and the hops after it. -/
def hopList (value : Text) (hops : List IPv4) : Text :=
  joinPair ',' ' ' ((if value = [] then [] else [value]) ++ hops.map IPv4.text)

/-- A request that came from the address of `hop`. -/
def ParsedRequest.receivedFrom (p : ParsedRequest) (hop : IPv4) : ParsedRequest :=
  { p with clientIp := some hop.text }

/-- Proxies in a row: every one reads what the one before it has built, its peer is the next of
the hops, and its own message is the next of the messages. -/
inductive Series (rt : PyRuntime) : ParsedRequest → List IPv4 → List Bytes → Prop
  | origin (p : ParsedRequest) : Series rt p [] []
  | proxy {p q : ParsedRequest} {requestId : Text} {hop : IPv4} {hops : List IPv4}
      {messages : List Bytes}
      (hparse : parseHttpRequest rt requestId (buildOutboundRequest p) = .ok (some q))
      (rest : Series rt (q.receivedFrom hop) hops messages) :
      Series rt p (hop :: hops) (buildOutboundRequest (q.receivedFrom hop) :: messages)

/-- Every message has one field, with the client's value and the hops so far in order. -/
def ChainKept (value : Text) (hops : List IPv4) (messages : List Bytes) : Prop :=
  ∀ k message, messages[k]? = some message →
    chainFields message = [encode (hopList value (hops.take (k + 1)))]

theorem hopList_ne_nil (value : Text) (hop : IPv4) (hops : List IPv4) :
    hopList value (hop :: hops) ≠ [] := by
  obtain ⟨c, s, hs⟩ := List.exists_cons_of_ne_nil hop.text_ne_nil
  rw [hopList]
  cases value with
  | nil => cases hops <;> simp [joinPair, hs]
  | cons d value => simp [joinPair]

/-- The hops are appended one after the other. -/
theorem hopList_singleton_cons (value : Text) (hop : IPv4) (hops : List IPv4) :
    hopList (hopList value [hop]) hops = hopList value (hop :: hops) := by
  rw [hopList, if_neg (hopList_ne_nil value hop [])]
  cases value with
  | nil => rfl
  | cons c value => exact joinPair_append_cons ',' ' ' (c :: value) hop.text (hops.map IPv4.text)

/-- A list of hops has no blanks at its ends. -/
theorem strip_hopList {value : Text} (hvalue : strip value = value) (hop : IPv4) :
    strip (hopList value [hop]) = hopList value [hop] := by
  have hlast : ∀ c, (hopList value [hop]).getLast? = some c → isSpace c = false := by
    intro c hc
    have htext : ∃ pre, hopList value [hop] = pre ++ hop.text := by
      cases value with
      | nil => exact ⟨[], rfl⟩
      | cons d value => exact ⟨d :: value ++ txt ", ", by simp [hopList, joinPair, txt]⟩
    obtain ⟨pre, hpre⟩ := htext
    rw [hpre, List.getLast?_append_of_ne_nil _ hop.text_ne_nil] at hc
    exact IPv4.of_mem_text (List.mem_of_getLast? hc)
  refine stripBy_eq_self (fun c hc => ?_) hlast
  cases value with
  | nil => exact IPv4.of_mem_text (List.mem_of_mem_head? hc)
  | cons d value =>
      obtain rfl : d = c := by simpa [hopList, joinPair] using hc
      refine head?_stripBy (l := d :: value) ?_
      rw [← strip, hvalue]
      rfl

/-! ## One proxy -/

section Proxy

variable {rt : PyRuntime} {p : ParsedRequest}

theorem ParsedRequest.Clean.receivedFrom (hp : p.Clean) (hop : IPv4) :
    (p.receivedFrom hop).Clean := hp.withClientIp _

/-- The field that the builder writes. -/
theorem forwardedFor_receivedFrom (p : ParsedRequest) (hop : IPv4) :
    (p.receivedFrom hop).forwardedFor =
      [(txt "X-Forwarded-For", hopList p.existingXff [hop])] := by
  have hxff : (p.receivedFrom hop).existingXff = p.existingXff := rfl
  obtain ⟨c, s, hs⟩ := List.exists_cons_of_ne_nil hop.text_ne_nil
  have hclient : (p.receivedFrom hop).clientIp.getD [] = c :: s := hs
  rw [ParsedRequest.forwardedFor, hclient, hxff, hopList, List.map_singleton, hs]
  dsimp only
  split
  · rfl
  · simp [joinPair, txt]

theorem strip_existingXff (hp : p.Clean) : strip p.existingXff = p.existingXff := by
  rcases existingXff_cases p with hnil | hitem
  · rw [hnil]
    rfl
  · obtain ⟨s, hs⟩ := (hp.fields _ hitem).value_strip
    dsimp only at hs
    rw [hs, strip_strip]

/-- The fields of one message.  The client's field is copied, and the completed one is
written behind it. -/
theorem chainFields_outbound (hp : p.Clean) (hop : IPv4) :
    chainFields (buildOutboundRequest (p.receivedFrom hop)) =
      ((p.headers.get? (txt "x-forwarded-for")).map encode).toList ++
        [encode (hopList p.existingXff [hop])] := by
  have hname : ascii "x-forwarded-for" = encode (txt "x-forwarded-for") := by decide
  have hwritten : readField (txt "X-Forwarded-For", hopList p.existingXff [hop]) =
      (encode (txt "x-forwarded-for"), encode (hopList p.existingXff [hop])) := by
    rw [readField, ← strip_hopList (strip_existingXff hp) hop, stripBy_encode_strip]
    rfl
  have hhost : (readField (p.receivedFrom hop).hostField).1 ≠
      encode (txt "x-forwarded-for") := by
    have hread : (readField (p.receivedFrom hop).hostField).1 = encode (txt "host") := rfl
    rw [hread]
    decide
  have hconnection : (readField (txt "Connection", txt "close")).1 ≠
      encode (txt "x-forwarded-for") := by decide
  have hvia : (readField (txt "Via", txt "1.1 proxy")).1 ≠
      encode (txt "x-forwarded-for") := by decide
  have hkept : ((p.receivedFrom hop).keptFields.map readField).filter
      (fun f => f.1 = encode (txt "x-forwarded-for")) =
        ((p.headers.get? (txt "x-forwarded-for")).map
          (fun value => (encode (txt "x-forwarded-for"), encode value))).toList := by
    rw [filter_keptFields (hp.receivedFrom hop) (toNat_lt_of_all rfl) (by decide) (by decide),
      map_readField_items (hp.receivedFrom hop)]
    rfl
  rw [chainFields, messageFields_outbound (hp.receivedFrom hop) (oneLine_clientIp (some hop)),
    outFields_eq, forwardedFor_receivedFrom, hname]
  simp only [List.cons_append, List.nil_append, List.map_cons, List.map_append, List.map_nil,
    List.filter_cons, List.filter_append, List.filter_nil, hhost, hconnection, hvia, hkept,
    hwritten, decide_true, decide_false, if_true, Bool.false_eq_true, if_false]
  cases p.headers.get? (txt "x-forwarded-for") <;> rfl

/-- The header lines of the outbound request. -/
theorem headerLines_outbound (hp : p.Clean) (hip : ∀ s, p.clientIp = some s → OneLine s)
    {r : RequestHead} (h : requestHead (buildOutboundRequest p) = some r) :
    r.headerLines = p.outFields.map headerLine ++ [[], []] := by
  obtain ⟨head, body, requestLine, version, hbreak, hlines, -⟩ := requestHead_eq_some h
  rw [breakOn_outbound hp hip, Option.some.injEq] at hbreak
  obtain ⟨rfl, rfl⟩ := Prod.mk.injEq _ _ _ _ ▸ hbreak
  rw [lines_outbound hp hip, ParsedRequest.outLines, List.cons_append] at hlines
  exact (List.cons.inj hlines).2.symm

/-- The next proxy reads the completed list: it stands behind the copy. -/
theorem get?_xff_of_outbound (hp : p.Clean) {hop : IPv4} {requestId : Text} {q : ParsedRequest}
    (hparse : parseHttpRequest rt requestId (buildOutboundRequest (p.receivedFrom hop)) =
      .ok (some q)) :
    q.headers.get? (txt "x-forwarded-for") = some (hopList p.existingXff [hop]) := by
  have hclean := hp.receivedFrom hop
  have hip := oneLine_clientIp (some hop)
  obtain ⟨r, hr, -, hheaders, -⟩ := requestHead_of_parse hparse
  have hwritten : reread rt (txt "X-Forwarded-For", hopList p.existingXff [hop]) =
      (txt "x-forwarded-for", hopList p.existingXff [hop]) := by
    have hname : strip (txt "X-Forwarded-For") = txt "X-Forwarded-For" := by decide
    refine Prod.ext (reread_name rfl (toNat_lt_of_all rfl) hname) ?_
    exact strip_hopList (strip_existingXff hp) hop
  have hvia : (reread rt (txt "Via", txt "1.1 proxy")).1 = txt "via" :=
    reread_name rfl (toNat_lt_of_all rfl) (by decide)
  have hback : ([(txt "X-Forwarded-For", hopList p.existingXff [hop])] ++
      [(txt "Via", txt "1.1 proxy")]).map (reread rt) =
        (txt "x-forwarded-for", hopList p.existingXff [hop]) ::
          [reread rt (txt "Via", txt "1.1 proxy")] :=
    congrArg (fun f => f :: [reread rt (txt "Via", txt "1.1 proxy")]) hwritten
  rw [hheaders, headerLines_outbound hclean hip hr, get?_outbound rt hclean hip,
    ParsedRequest.outFields, forwardedFor_receivedFrom, List.append_assoc, List.map_append, hback]
  refine OrderedDict.lastValue_append_cons (fun f hf => ?_) _ _
  obtain rfl := List.mem_singleton.mp hf
  rw [hvia]
  decide

end Proxy

/-! ## Proxies in a row -/

section Chain

variable {rt : PyRuntime}

/-- Behind another proxy, every message has the field twice: the list as it was received,
and the list with the proxy's own peer, in order. -/
theorem chainFields_series {p : ParsedRequest} (hp : p.Clean) (hop : IPv4) {hops : List IPv4}
    {messages : List Bytes} (h : Series rt (p.receivedFrom hop) hops messages) :
    ∀ k message, messages[k]? = some message →
      chainFields message = [encode (hopList p.existingXff (hop :: hops.take k)),
        encode (hopList p.existingXff (hop :: hops.take (k + 1)))] := by
  generalize hfrom : p.receivedFrom hop = first at h
  induction h generalizing p hop with
  | origin first =>
      intro k message hmessage
      cases hmessage
  | @proxy first q requestId hop' hops messages hparse rest ih =>
      subst hfrom
      have hq := clean_of_parse hparse
      have hget := get?_xff_of_outbound hp hparse
      have hxff : q.existingXff = hopList p.existingXff [hop] := by
        rw [ParsedRequest.existingXff, hget, Option.getD_some]
      intro k message hmessage
      cases k with
      | zero =>
          obtain rfl := Option.some.inj hmessage
          rw [chainFields_outbound hq hop', hget, hxff, hopList_singleton_cons]
          rfl
      | succ k =>
          rw [List.getElem?_cons_succ] at hmessage
          have hrest := ih hq hop' rfl k message hmessage
          rw [hxff, hopList_singleton_cons, hopList_singleton_cons] at hrest
          rw [hrest, List.take_succ_cons, List.take_succ_cons]

/--
**The forwarding chain is kept** through proxies in a row exactly if the client sends no
`X-Forwarded-For` line and there is no second proxy.
-/
theorem forwarding_chain_iff (rt : PyRuntime) (requestId : Text) (raw : Bytes) (p : ParsedRequest)
    (hparse : parseHttpRequest rt requestId raw = .ok (some p)) (client : IPv4)
    (others : List IPv4) (messages : List Bytes)
    (hseries : Series rt (p.receivedFrom client) others messages) :
    ∃ r, requestHead raw = some r ∧
      (ChainKept p.existingXff (client :: others)
          (buildOutboundRequest (p.receivedFrom client) :: messages) ↔
        (∀ f, f ∈ r.headerLines.filterMap (headerField rt) → f.1 ≠ txt "x-forwarded-for") ∧
          others = []) := by
  obtain ⟨r, hr, -, hheaders, -⟩ := requestHead_of_parse hparse
  have hp := clean_of_parse hparse
  have hfirst := chainFields_outbound hp client
  have hmissing : p.headers.get? (txt "x-forwarded-for") = none ↔
      ∀ f, f ∈ r.headerLines.filterMap (headerField rt) → f.1 ≠ txt "x-forwarded-for" := by
    rw [OrderedDict.get?_eq_none_iff, hheaders, mem_keys_parseHeaders, not_exists]
    exact forall_congr' fun f => not_and
  refine ⟨r, hr, ?_⟩
  rw [← hmissing]
  constructor
  · intro hkept
    constructor
    · have hone := hkept 0 _ rfl
      rw [hfirst] at hone
      cases hget : p.headers.get? (txt "x-forwarded-for") with
      | none => rfl
      | some value =>
          rw [hget] at hone
          exact absurd (congrArg List.length hone) (by simp)
    · cases hseries with
      | origin => rfl
      | proxy hnext rest =>
          have htwo := chainFields_series hp client (.proxy hnext rest) 0 _ rfl
          rw [hkept 1 _ rfl] at htwo
          exact absurd (congrArg List.length htwo) (by simp)
  · rintro ⟨hget, rfl⟩
    cases hseries
    intro k message hmessage
    cases k with
    | zero =>
        obtain rfl := Option.some.inj hmessage
        rw [hfirst, hget]
        rfl
    | succ k => cases hmessage

/-- A request without the field. -/
def plainGet : Bytes := ascii "GET http://h/ HTTP/1.1\r\nAccept: a\r\n\r\n"

def plainParsed : ParsedRequest where
  method := txt "GET"
  host := txt "h"
  port := 80
  path := some (txt "/")
  headers := OrderedDict.empty.set (txt "accept") (txt "a")
  contentLength := none
  body := []
  requestId := []
  raw := plainGet
  clientIp := none

theorem forwarding_chain_iff_plain :
    ChainKept [] [⟨10, 0, 0, 1⟩]
      [buildOutboundRequest (plainParsed.receivedFrom ⟨10, 0, 0, 1⟩)] := by
  obtain ⟨r, hr, hiff⟩ := forwarding_chain_iff asciiRuntime [] plainGet plainParsed rfl
    ⟨10, 0, 0, 1⟩ [] [] (.origin _)
  have hfields : (requestHead plainGet).map (fun r =>
      r.headerLines.filterMap (headerField asciiRuntime)) = some [(txt "accept", txt "a")] := rfl
  rw [hr, Option.map_some, Option.some.injEq] at hfields
  refine hiff.mpr ⟨?_, rfl⟩
  rw [hfields]
  decide

/-- A request with a list of its own. -/
def forwardedGet : Bytes :=
  ascii "GET http://h/ HTTP/1.1\r\nX-Forwarded-For: 1.1.1.1\r\n\r\n"

def forwardedParsed : ParsedRequest where
  method := txt "GET"
  host := txt "h"
  port := 80
  path := some (txt "/")
  headers := OrderedDict.empty.set (txt "x-forwarded-for") (txt "1.1.1.1")
  contentLength := none
  body := []
  requestId := []
  raw := forwardedGet
  clientIp := none

/-- The list is sent twice. -/
theorem client_chain_is_copied :
    parseHttpRequest asciiRuntime [] forwardedGet = .ok (some forwardedParsed) ∧
      chainFields (buildOutboundRequest (forwardedParsed.receivedFrom ⟨10, 0, 0, 1⟩)) =
        [ascii "1.1.1.1", ascii "1.1.1.1, 10.0.0.1"] ∧
      ¬ ChainKept (txt "1.1.1.1") [⟨10, 0, 0, 1⟩]
        [buildOutboundRequest (forwardedParsed.receivedFrom ⟨10, 0, 0, 1⟩)] := by
  have hparse : parseHttpRequest asciiRuntime [] forwardedGet = .ok (some forwardedParsed) := rfl
  have hfields : chainFields (buildOutboundRequest (forwardedParsed.receivedFrom ⟨10, 0, 0, 1⟩)) =
      [ascii "1.1.1.1", ascii "1.1.1.1, 10.0.0.1"] := by
    rw [chainFields_outbound (clean_of_parse hparse)]
    rfl
  refine ⟨hparse, hfields, fun hkept => ?_⟩
  have hone := hkept 0 _ rfl
  rw [hfields] at hone
  cases hone

end Chain

end Http
end NetworkProxy
