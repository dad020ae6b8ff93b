import NetworkProxy.Outbound
import NetworkProxy.Utf8RoundTrip

/-!
# Credentials stay at the proxy

Two requests that differ in the values of their `Proxy-Authorization` field lines only.

* `erase_parseHeaders`: the header dictionary without the credentials is made of
  what each line of the head contributes to it, and a credential line contributes nothing.
* `buildOutboundRequest_congr`: the outbound request depends on that dictionary only.
* `credentials_do_not_reach_origin`: the two outbound requests are the same bytes.
-/

namespace NetworkProxy
namespace Http

open Py

/-- The name under which the parser stores the credentials. -/
def proxyAuthorization : Text := txt "proxy-authorization"

/-! ## Requests with different credentials -/

section Defs

variable (rt : PyRuntime)

/-- A field line of a head, `name:value`, that holds the credentials. -/
structure IsCredentialLine (name value : Bytes) : Prop where
  name_colon : 58 ∉ name
  name_line : 13 ∉ name
  name_reads : lower rt (strip (decodeIgnore name)) = proxyAuthorization
  value_line : 13 ∉ value ∧ 10 ∉ value
  value_utf8 : (decode value).isSome = true

/-- The same line, or the same credential line with another value. -/
def SameButCredentials (line line' : Bytes) : Prop :=
  line = line' ∨ ∃ name value value', line = name ++ 58 :: value ∧
    line' = name ++ 58 :: value' ∧ IsCredentialLine rt name value ∧
    IsCredentialLine rt name value'

/-- Two raw requests that differ in the values of their credential lines only. -/
def DifferInCredentials (data data' : Bytes) : Prop :=
  ∃ head head' body requestLine fieldLines fieldLines',
    breakOn headerTerminator data = some (head, body) ∧
    breakOn headerTerminator data' = some (head', body) ∧
    splitPair 13 10 head = requestLine :: fieldLines ∧
    splitPair 13 10 head' = requestLine :: fieldLines' ∧
    List.Forall₂ (SameButCredentials rt) fieldLines fieldLines'

end Defs

/-! ## What the lines of a head contribute -/

/-- A separator of the bytes is one of the decoded text. -/
theorem lines_decodeIgnore_append (l rest : Bytes) :
    lines (decodeIgnore (l ++ 13 :: 10 :: rest)) =
      lines (decodeIgnore l) ++ lines (decodeIgnore rest) := by
  have hlf : decodeIgnore (10 :: rest) = '\n' :: decodeIgnore rest :=
    decodeIgnore_append_cons [] (by decide) rest
  rw [decodeIgnore_append_cons l (by decide), hlf]
  exact splitPair_append_sep (by decide) _ _

/-- The lines of the decoded text, from the lines of the bytes.  Dropping undecodable
bytes may make more lines out of one. -/
theorem lines_decodeIgnore_joinPair (rest : Bytes) :
    ∀ {ls : List Bytes}, ls ≠ [] →
      lines (decodeIgnore (joinPair 13 10 ls ++ 13 :: 10 :: rest)) =
        ls.flatMap (fun l => lines (decodeIgnore l)) ++ lines (decodeIgnore rest)
  | [], h => absurd rfl h
  | [l], _ => by
      rw [joinPair, lines_decodeIgnore_append, List.flatMap_singleton]
  | l :: m :: ls, _ => by
      have ih := lines_decodeIgnore_joinPair rest (List.cons_ne_nil m ls)
      rw [joinPair, List.append_assoc, List.cons_append, List.cons_append,
        lines_decodeIgnore_append, ih]
      simp only [List.flatMap_cons, List.append_assoc]

section Contributions

variable {rt : PyRuntime}

/-- The fields, other than the credentials, that are read from some lines. -/
def otherFields (rt : PyRuntime) (ls : List Text) : List (Text × Text) :=
  (ls.filterMap (headerField rt)).filter (fun f => f.1 ≠ proxyAuthorization)

theorem otherFields_append (ls ms : List Text) :
    otherFields rt (ls ++ ms) = otherFields rt ls ++ otherFields rt ms := by
  rw [otherFields, List.filterMap_append, List.filter_append, ← otherFields, ← otherFields]

theorem erase_parseHeaders (ls : List Text) :
    (parseHeaders rt ls).erase proxyAuthorization =
      (otherFields rt ls).foldl (fun d p => d.set p.1 p.2) OrderedDict.empty := by
  rw [parseHeaders, OrderedDict.erase_foldl_set]
  rfl

/-- A credential line contributes nothing else. -/
theorem otherFields_credentialLine {name value : Bytes} (h : IsCredentialLine rt name value) :
    otherFields rt (lines (decodeIgnore (name ++ 58 :: value))) = [] := by
  have hcr : ('\r' : Char).toNat < 128 := by decide
  have hname : '\r' ∉ decodeIgnore name :=
    fun hmem => h.name_line (mem_of_mem_decodeIgnore hcr hmem)
  have hvalue : '\r' ∉ decodeIgnore value :=
    fun hmem => h.value_line.1 (mem_of_mem_decodeIgnore hcr hmem)
  have hcolon : ':' ∉ decodeIgnore name :=
    fun hmem => h.name_colon (mem_of_mem_decodeIgnore (by decide) hmem)
  have hdecoded : decodeIgnore (name ++ 58 :: value) =
      decodeIgnore name ++ ':' :: decodeIgnore value := decodeIgnore_append_cons name (by decide) _
  have honeLine : OneLine (decodeIgnore name ++ ':' :: decodeIgnore value) :=
    noPair_of_not_mem (by simp [hname, hvalue])
  have hfield : headerField rt (decodeIgnore name ++ ':' :: decodeIgnore value) =
      some (proxyAuthorization, strip (decodeIgnore value)) := by
    rw [headerField, splitFirst_append hcolon, Option.map_some, h.name_reads]
  rw [hdecoded, lines, splitPair_eq_singleton honeLine, otherFields,
    List.filterMap_cons_some hfield]
  simp

/-- The fields, other than the credentials, of lines that differ in these only. -/
theorem otherFields_sameButCredentials {ls ls' : List Bytes}
    (h : List.Forall₂ (SameButCredentials rt) ls ls') :
    otherFields rt (ls.flatMap fun l => lines (decodeIgnore l)) =
      otherFields rt (ls'.flatMap fun l => lines (decodeIgnore l)) := by
  induction h with
  | nil => rfl
  | cons hline _ ih =>
      rw [List.flatMap_cons, List.flatMap_cons, otherFields_append, otherFields_append, ih]
      rcases hline with rfl | ⟨name, value, value', rfl, rfl, hcred, hcred'⟩
      · rfl
      · rw [otherFields_credentialLine hcred, otherFields_credentialLine hcred']

/-- The request line and the fields of two requests that differ in the credentials. -/
theorem head_of_differInCredentials {head head' requestLine : Bytes}
    {fieldLines fieldLines' : List Bytes}
    (hhead : splitPair 13 10 head = requestLine :: fieldLines)
    (hhead' : splitPair 13 10 head' = requestLine :: fieldLines')
    (hfields : List.Forall₂ (SameButCredentials rt) fieldLines fieldLines') :
    ∃ first ls ls', lines (decodeIgnore (head ++ headerTerminator)) = first :: ls ∧
      lines (decodeIgnore (head' ++ headerTerminator)) = first :: ls' ∧
      (parseHeaders rt ls).erase proxyAuthorization =
        (parseHeaders rt ls').erase proxyAuthorization := by
  obtain ⟨first, more, hfirst⟩ : ∃ first more, lines (decodeIgnore requestLine) = first :: more :=
    List.exists_cons_of_ne_nil (splitPair_ne_nil _ _ _)
  have hlines {head : Bytes} {fieldLines : List Bytes}
      (hhead : splitPair 13 10 head = requestLine :: fieldLines) :
      lines (decodeIgnore (head ++ headerTerminator)) =
        first :: (more ++ ((fieldLines.flatMap fun l => lines (decodeIgnore l)) ++
          lines (decodeIgnore [13, 10]))) := by
    have hjoin := lines_decodeIgnore_joinPair [13, 10] (List.cons_ne_nil requestLine fieldLines)
    rw [← hhead, joinPair_splitPair, hhead, List.flatMap_cons, hfirst, List.append_assoc,
      List.cons_append] at hjoin
    exact hjoin
  refine ⟨first, _, _, hlines hhead, hlines hhead', ?_⟩
  rw [erase_parseHeaders, erase_parseHeaders]
  simp only [otherFields_append, otherFields_sameButCredentials hfields]

end Contributions

/-! ## What the outbound request depends on -/

section Outbound

variable {rt : PyRuntime} {headers headers' : OrderedDict Text Text}

theorem contentLengthOf_congr
    (h : headers.erase proxyAuthorization = headers'.erase proxyAuthorization) :
    contentLengthOf rt headers = contentLengthOf rt headers' := by
  rw [contentLengthOf, contentLengthOf, OrderedDict.get?_of_erase_eq h (by decide)]

theorem destination_congr (method target : Text)
    (h : headers.erase proxyAuthorization = headers'.erase proxyAuthorization) :
    destination rt method target headers = destination rt method target headers' := by
  have horigin : originDestination rt target headers = originDestination rt target headers' := by
    unfold originDestination
    rw [OrderedDict.get?_of_erase_eq h (by decide)]
  rw [destination, destination, horigin]

/-- The outbound request depends on the headers without the credentials. -/
theorem buildOutboundRequest_congr {p p' : ParsedRequest} (hmethod : p.method = p'.method)
    (hhost : p.host = p'.host) (hport : p.port = p'.port) (hpath : p.path = p'.path)
    (hlength : p.contentLength = p'.contentLength) (hbody : p.body = p'.body)
    (hip : p.clientIp = p'.clientIp)
    (hheaders : p.headers.erase proxyAuthorization = p'.headers.erase proxyAuthorization) :
    buildOutboundRequest p = buildOutboundRequest p' := by
  have hkept (q : ParsedRequest) :
      q.keptFields = (q.headers.erase proxyAuthorization).items.filter
        (fun f => f.1 ∉ hopByHopHeaders ∧ f.1 ≠ txt "host") := by
    have hdropped : proxyAuthorization ∈ hopByHopHeaders := by decide
    have herased : (q.headers.erase proxyAuthorization).items =
        q.headers.items.filter (fun f => f.1 ≠ proxyAuthorization) := rfl
    rw [ParsedRequest.keptFields, herased, List.filter_filter]
    refine List.filter_congr fun f _ => ?_
    by_cases hf : f.1 = proxyAuthorization
    · simp [hf, hdropped]
    · simp [hf]
  have hxff : p.existingXff = p'.existingXff := by
    rw [ParsedRequest.existingXff, ParsedRequest.existingXff,
      OrderedDict.get?_of_erase_eq hheaders (by decide)]
  have hforwarded : p.forwardedFor = p'.forwardedFor := by
    rw [ParsedRequest.forwardedFor, ParsedRequest.forwardedFor, hip, hxff]
  have hfields : p.outFields = p'.outFields := by
    rw [ParsedRequest.outFields, ParsedRequest.outFields, ParsedRequest.hostField,
      ParsedRequest.hostField, hhost, hport, hkept, hkept, hheaders, hforwarded]
  have hhead : p.outHead = p'.outHead := by
    rw [ParsedRequest.outHead, ParsedRequest.outHead, ParsedRequest.requestLine,
      ParsedRequest.requestLine, hmethod, hpath, hfields]
  have houtBody : p.outBody = p'.outBody := by
    rw [ParsedRequest.outBody, ParsedRequest.outBody, hmethod, hbody, hlength]
  rw [buildOutboundRequest, buildOutboundRequest, hhead, houtBody]

end Outbound

/-- **Credentials do not reach the origin.**  Two accepted requests that differ in the
values of their credential lines only are sent on as the same bytes. -/
theorem credentials_do_not_reach_origin {rt : PyRuntime} {requestId requestId' : Text}
    {data data' : Bytes} {p p' : ParsedRequest}
    (h : parseHttpRequest rt requestId data = .ok (some p))
    (h' : parseHttpRequest rt requestId' data' = .ok (some p'))
    (hdiffer : DifferInCredentials rt data data') (clientIp : Option Text) :
    buildOutboundRequest { p with clientIp := clientIp } =
      buildOutboundRequest { p' with clientIp := clientIp } := by
  obtain ⟨head₀, head₀', body, requestLine, fieldLines, fieldLines', hbreak₀, hbreak₀', hhead,
    hhead', hfields⟩ := hdiffer
  obtain ⟨head, first, ls, target, version, hbreak, hlines, hwords, hheaders, hlength, hdest,
    -⟩ := parseHttpRequest_eq_some h
  obtain ⟨head', first', ls', target', version', hbreak', hlines', hwords', hheaders', hlength',
    hdest', -⟩ := parseHttpRequest_eq_some h'
  obtain ⟨rfl, hbody⟩ : head = head₀ ∧ p.body = body := by
    rw [hbreak₀, Option.some.injEq, Prod.mk.injEq] at hbreak
    exact ⟨hbreak.1.symm, hbreak.2.symm⟩
  obtain ⟨rfl, hbody'⟩ : head' = head₀' ∧ p'.body = body := by
    rw [hbreak₀', Option.some.injEq, Prod.mk.injEq] at hbreak'
    exact ⟨hbreak'.1.symm, hbreak'.2.symm⟩
  obtain ⟨first₀, ls₀, ls₀', hls, hls', herase⟩ :=
    head_of_differInCredentials hhead hhead' hfields
  rw [hlines, List.cons.injEq] at hls
  rw [hlines', List.cons.injEq] at hls'
  obtain ⟨rfl, rfl⟩ := hls
  obtain ⟨rfl, rfl⟩ := hls'
  rw [← hheaders, ← hheaders'] at herase
  have hwordsEq : [p.method, target, version] = [p'.method, target', version'] :=
    hwords.symm.trans hwords'
  simp only [List.cons.injEq, and_true] at hwordsEq
  obtain ⟨hmethod, rfl, -⟩ := hwordsEq
  rw [hmethod, destination_congr p'.method target herase, hdest', Except.ok.injEq,
    Option.some.injEq, Prod.mk.injEq, Prod.mk.injEq, Option.some.injEq] at hdest
  obtain ⟨hhost, hport, hpath⟩ := hdest
  exact buildOutboundRequest_congr hmethod hhost.symm hport.symm hpath.symm
    (hlength.trans ((contentLengthOf_congr herase).trans hlength'.symm))
    (hbody.trans hbody'.symm) rfl herase

/-- A request with credentials. -/
def loginRequest (value : Bytes) : Bytes :=
  ascii "GET / HTTP/1.1\r\nHost: a\r\nProxy-Authorization:" ++ value ++
    ascii "\r\nAccept: b\r\n\r\n"

theorem credentials_do_not_reach_origin_login :
    ∃ p p', parseHttpRequest asciiRuntime [] (loginRequest (ascii " Basic QQ==")) =
        .ok (some p) ∧
      parseHttpRequest asciiRuntime [] (loginRequest (ascii " x: y")) = .ok (some p') ∧
      p.headers ≠ p'.headers ∧ buildOutboundRequest { p with clientIp := none } =
        buildOutboundRequest { p' with clientIp := none } := by
  have hline (value : Bytes) (hcr : 13 ∉ value) (hlf : 10 ∉ value)
      (hutf8 : (decode value).isSome = true) :
      IsCredentialLine asciiRuntime (ascii "Proxy-Authorization") value :=
    ⟨by decide, by decide, by decide, ⟨hcr, hlf⟩, hutf8⟩
  have hdiffer : DifferInCredentials asciiRuntime (loginRequest (ascii " Basic QQ=="))
      (loginRequest (ascii " x: y")) := by
    refine ⟨_, _, _, _, _, _, rfl, rfl, rfl, rfl, ?_⟩
    refine .cons (Or.inl rfl) (.cons (Or.inr ?_) (.cons (Or.inl rfl) .nil))
    exact ⟨ascii "Proxy-Authorization", ascii " Basic QQ==", ascii " x: y", rfl, rfl,
      hline _ (by decide) (by decide) (by decide), hline _ (by decide) (by decide) (by decide)⟩
  refine ⟨_, _, rfl, rfl, by decide, ?_⟩
  exact credentials_do_not_reach_origin rfl rfl hdiffer none

end Http
end NetworkProxy
