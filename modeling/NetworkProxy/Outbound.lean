import NetworkProxy.Parser
import NetworkProxy.PyTextLaws

/-!
# The outbound request

`_build_outbound_request`: the request line in origin form, the header fields
without the hop-by-hop ones, and the body.

`breakOn_outbound` says where the header block of the result ends, for every
request the parser accepts: exactly where the builder ended it.
-/

namespace NetworkProxy
namespace Http

open Py

def hopByHopHeaders : List Text :=
  [txt "connection", txt "keep-alive", txt "proxy-authenticate", txt "proxy-authorization",
    txt "proxy-connection", txt "te", txt "trailers", txt "transfer-encoding", txt "upgrade"]

/-- The IPv4 address of a client, as `accept` reports it. -/
structure IPv4 where
  a : UInt8
  b : UInt8
  c : UInt8
  d : UInt8
deriving DecidableEq

def IPv4.text (ip : IPv4) : Text :=
  showInt ip.a.toNat ++ '.' :: showInt ip.b.toNat ++ '.' :: showInt ip.c.toNat ++
    '.' :: showInt ip.d.toNat

/-- A path in an f-string. -/
def showPath : Option Text → Text
  | some path => path
  | none => txt "None"

/-- The line of a header field. -/
def headerLine (f : Text × Text) : Text := f.1 ++ txt ": " ++ f.2

/-- `method in ("POST", "PUT", "PATCH")`. -/
def sendsBody (method : Text) : Bool :=
  method = txt "POST" || method = txt "PUT" || method = txt "PATCH"

namespace ParsedRequest

variable (p : ParsedRequest)

def requestLine : Text := p.method ++ ' ' :: showPath p.path ++ txt " HTTP/1.1"

/-- The `Host` field. -/
def hostField : Text × Text :=
  (txt "Host",
    if p.port = 80 ∨ p.port = 443 then p.host else p.host ++ ':' :: showInt p.port)

/-- The fields taken over from the client. -/
def keptFields : List (Text × Text) :=
  p.headers.items.filter (fun f => f.1 ∉ hopByHopHeaders ∧ f.1 ≠ txt "host")

/-- `headers.get("x-forwarded-for")`, empty when it is missing. -/
def existingXff : Text := (p.headers.get? (txt "x-forwarded-for")).getD []

/-- The `X-Forwarded-For` field. -/
def forwardedFor : List (Text × Text) :=
  match p.clientIp.getD [] with
  | [] => if p.existingXff = [] then [] else [(txt "X-Forwarded-For", p.existingXff)]
  | clientIp =>
      if p.existingXff = [] then [(txt "X-Forwarded-For", clientIp)]
      else [(txt "X-Forwarded-For", p.existingXff ++ txt ", " ++ clientIp)]

/-- All header fields of the outbound request. -/
def outFields : List (Text × Text) :=
  [p.hostField] ++ p.keptFields ++ [(txt "Connection", txt "close")] ++ p.forwardedFor ++
    [(txt "Via", txt "1.1 proxy")]

/-- The header block, without the empty line that ends it. -/
def outHead : Text :=
  p.requestLine ++ '\r' :: '\n' :: joinPair '\r' '\n' (p.outFields.map headerLine)

/-- The body bytes that are appended. -/
def outBody : Bytes :=
  if sendsBody p.method ∧ p.body ≠ [] then p.body
  else
    match p.contentLength with
    | some contentLength => if 0 < contentLength ∧ p.body ≠ [] then p.body else []
    | none => []

end ParsedRequest

/-- `_build_outbound_request`. -/
def buildOutboundRequest (p : ParsedRequest) : Bytes :=
  encode (p.outHead ++ txt "\r\n\r\n") ++ p.outBody

/-! ## Where the header block ends -/

theorem oneLine_append_of_not_mem {s t : Text} (hs : OneLine s) (ht : OneLine t)
    (h : '\r' ∉ s ∨ '\n' ∉ t) : OneLine (s ++ t) := by
  refine List.isChain_append.mpr ⟨hs, ht, ?_⟩
  rintro x hx y hy ⟨rfl, rfl⟩
  rcases h with h | h
  · exact h (List.mem_of_mem_getLast? hx)
  · exact h (List.mem_of_mem_head? hy)

theorem oneLine_append_cons {s t : Text} {c : Char} (hs : OneLine s) (ht : OneLine t)
    (hc : c ≠ '\r' ∧ c ≠ '\n') : OneLine (s ++ c :: t) := by
  refine List.isChain_append.mpr ⟨hs, List.isChain_cons.mpr ⟨?_, ht⟩, ?_⟩
  · rintro y - ⟨rfl, -⟩
    exact hc.1 rfl
  · rintro x - y hy ⟨-, rfl⟩
    simp only [List.head?_cons, Option.mem_def, Option.some.injEq] at hy
    exact hc.2 hy

theorem oneLine_showInt (n : ℤ) : OneLine (showInt n) :=
  oneLine_of_no_space fun _ hc => not_isSpace_of_mem_showInt hc

/-- An address has no blanks. -/
theorem IPv4.of_mem_text {ip : IPv4} {c : Char} (h : c ∈ ip.text) : isSpace c = false := by
  have hdot : c = '.' → isSpace c = false := by
    rintro rfl
    decide
  rw [IPv4.text] at h
  simp only [List.append_assoc, List.cons_append, List.mem_append, List.mem_cons] at h
  rcases h with h | h | h | h | h | h | h
  · exact not_isSpace_of_mem_showInt h
  · exact hdot h
  · exact not_isSpace_of_mem_showInt h
  · exact hdot h
  · exact not_isSpace_of_mem_showInt h
  · exact hdot h
  · exact not_isSpace_of_mem_showInt h

theorem oneLine_ip (ip : IPv4) : OneLine ip.text :=
  oneLine_of_no_space fun _ hc => IPv4.of_mem_text hc

/-- The address that the handler adds. -/
theorem oneLine_clientIp (client : Option IPv4) :
    ∀ s, client.map IPv4.text = some s → OneLine s := by
  intro s hs
  obtain ⟨ip, -, rfl⟩ := Option.map_eq_some_iff.mp hs
  exact oneLine_ip ip

theorem oneLine_headerLine {f : Text × Text} (hname : OneLine f.1) (hvalue : OneLine f.2) :
    OneLine (headerLine f) := by
  have hspace : OneLine (' ' :: f.2) :=
    oneLine_append_cons (s := []) List.isChain_nil hvalue (by decide)
  have hcolon := oneLine_append_cons (c := ':') hname hspace (by decide)
  rw [headerLine, List.append_assoc]
  exact hcolon

theorem headerLine_ne_nil (f : Text × Text) : headerLine f ≠ [] := by
  rw [headerLine]
  simp [txt]

section Clean

variable {p : ParsedRequest}

/-- The name of an outbound field has no colon, and name and value are within one
line. -/
structure OutFieldOk (f : Text × Text) : Prop where
  name_oneLine : OneLine f.1
  name_colon : ':' ∉ f.1
  value_oneLine : OneLine f.2

theorem oneLine_literal {s : Text} (h : '\r' ∉ s) : OneLine s := noPair_of_not_mem h

/-- The chain that was received is a field of the client, or empty. -/
theorem existingXff_cases (p : ParsedRequest) :
    p.existingXff = [] ∨ (txt "x-forwarded-for", p.existingXff) ∈ p.headers.items := by
  rw [ParsedRequest.existingXff]
  cases hget : p.headers.get? (txt "x-forwarded-for") with
  | none => exact Or.inl rfl
  | some value => exact Or.inr (OrderedDict.mem_items_of_get? hget)

/-- The chain that is sent on. -/
theorem of_mem_forwardedFor {f : Text × Text} (hf : f ∈ p.forwardedFor) :
    f.1 = txt "X-Forwarded-For" ∧ (f.2 = p.existingXff ∨ f.2 = p.clientIp.getD [] ∨
      f.2 = p.existingXff ++ txt ", " ++ p.clientIp.getD []) := by
  rw [ParsedRequest.forwardedFor] at hf
  split at hf
  · split at hf
    · cases hf
    · obtain rfl := List.mem_singleton.mp hf
      exact ⟨rfl, Or.inl rfl⟩
  · split at hf
    · obtain rfl := List.mem_singleton.mp hf
      exact ⟨rfl, Or.inr (Or.inl rfl)⟩
    · obtain rfl := List.mem_singleton.mp hf
      exact ⟨rfl, Or.inr (Or.inr rfl)⟩

theorem oneLine_existingXff (hp : p.Clean) : OneLine p.existingXff := by
  rcases existingXff_cases p with hnil | hitem
  · rw [hnil]
    exact List.isChain_nil
  · exact (hp.fields _ hitem).value_oneLine

theorem outFieldOk_forwardedFor (hp : p.Clean) (hip : ∀ s, p.clientIp = some s → OneLine s)
    {f : Text × Text} (hf : f ∈ p.forwardedFor) : OutFieldOk f := by
  have hxff := oneLine_existingXff hp
  have hclient : OneLine (p.clientIp.getD []) := by
    cases h : p.clientIp with
    | none => exact List.isChain_nil
    | some s => exact hip s h
  have hchain : OneLine (p.existingXff ++ txt ", " ++ p.clientIp.getD []) := by
    have hspace := oneLine_append_cons (s := []) (c := ' ') List.isChain_nil hclient (by decide)
    have hcomma := oneLine_append_cons (c := ',') hxff hspace (by decide)
    rw [List.append_assoc]
    exact hcomma
  obtain ⟨hname, hvalue⟩ := of_mem_forwardedFor hf
  constructor
  · rw [hname]
    exact oneLine_literal (by decide)
  · rw [hname]
    decide
  · rcases hvalue with hvalue | hvalue | hvalue
    · exact hvalue ▸ hxff
    · exact hvalue ▸ hclient
    · exact hvalue ▸ hchain

/-- Every outbound field is well formed. -/
theorem outFieldOk_of_mem (hp : p.Clean) (hip : ∀ s, p.clientIp = some s → OneLine s)
    {f : Text × Text} (hf : f ∈ p.outFields) : OutFieldOk f := by
  rw [ParsedRequest.outFields] at hf
  simp only [List.mem_append, List.mem_singleton] at hf
  rcases hf with (((rfl | hf) | rfl) | hf) | rfl
  · have hcr : '\r' ∉ txt "Host" := by decide
    have hcolon : ':' ∉ txt "Host" := by decide
    refine ⟨oneLine_literal hcr, hcolon, ?_⟩
    rw [ParsedRequest.hostField]
    dsimp only
    split
    · exact hp.host_oneLine
    · exact oneLine_append_cons hp.host_oneLine (oneLine_showInt _) (by decide)
  · have hkept := hp.fields f (List.mem_of_mem_filter hf)
    exact ⟨hkept.name_oneLine, hkept.name_colon, hkept.value_oneLine⟩
  · exact ⟨oneLine_literal (by decide), by decide, oneLine_literal (by decide)⟩
  · exact outFieldOk_forwardedFor hp hip hf
  · exact ⟨oneLine_literal (by decide), by decide, oneLine_literal (by decide)⟩

theorem oneLine_requestLine (hp : p.Clean) : OneLine p.requestLine := by
  have hpath : OneLine (showPath p.path) := by
    cases h : p.path with
    | none => exact oneLine_literal (by decide)
    | some path => exact hp.path_oneLine path h
  have hversion : OneLine (showPath p.path ++ txt " HTTP/1.1") :=
    oneLine_append_of_not_mem hpath (oneLine_literal (by decide)) (Or.inr (by decide))
  rw [ParsedRequest.requestLine, List.append_assoc, List.cons_append]
  exact oneLine_append_cons hp.method_oneLine hversion (by decide)

theorem requestLine_ne_nil : p.requestLine ≠ [] := by
  rw [ParsedRequest.requestLine]
  simp

/-- The lines of the outbound header block. -/
def ParsedRequest.outLines (p : ParsedRequest) : List Text :=
  p.requestLine :: p.outFields.map headerLine

theorem outHead_eq : p.outHead = joinPair '\r' '\n' p.outLines := by
  have hne : ∃ f fs, p.outFields.map headerLine = f :: fs := by
    rw [ParsedRequest.outFields]
    exact ⟨_, _, rfl⟩
  obtain ⟨f, fs, hfs⟩ := hne
  rw [ParsedRequest.outHead, ParsedRequest.outLines, hfs, joinPair]

theorem outLines_ok (hp : p.Clean) (hip : ∀ s, p.clientIp = some s → OneLine s)
    {l : Text} (hl : l ∈ p.outLines) : l ≠ [] ∧ OneLine l := by
  rcases List.mem_cons.mp hl with rfl | hl
  · exact ⟨requestLine_ne_nil, oneLine_requestLine hp⟩
  · obtain ⟨f, hf, rfl⟩ := List.mem_map.mp hl
    have hok := outFieldOk_of_mem hp hip hf
    exact ⟨headerLine_ne_nil f, oneLine_headerLine hok.name_oneLine hok.value_oneLine⟩

theorem encodedLines_ok (hp : p.Clean) (hip : ∀ s, p.clientIp = some s → OneLine s)
    {l : Bytes} (hl : l ∈ p.outLines.map encode) : l ≠ [] ∧ NoPair 13 10 l := by
  obtain ⟨t, ht, rfl⟩ := List.mem_map.mp hl
  obtain ⟨hne, hline⟩ := outLines_ok hp hip ht
  exact ⟨encode_ne_nil hne, NoPair.encode (by decide) (by decide) hline⟩

theorem buildOutboundRequest_eq (p : ParsedRequest) :
    buildOutboundRequest p =
      joinPair 13 10 (p.outLines.map encode) ++ 13 :: 10 :: 13 :: 10 :: p.outBody := by
  have hlines := encode_joinPair (a := '\r') (b := '\n') (by decide) (by decide) p.outLines
  have hend : encode (txt "\r\n\r\n") = [13, 10, 13, 10] := by decide
  rw [buildOutboundRequest, encode_append, outHead_eq, hlines, hend, List.append_assoc]
  rfl

/-- The header block of the outbound request ends where the builder ended it. -/
theorem breakOn_outbound (hp : p.Clean) (hip : ∀ s, p.clientIp = some s → OneLine s) :
    breakOn headerTerminator (buildOutboundRequest p) =
      some (joinPair 13 10 (p.outLines.map encode), p.outBody) := by
  rw [buildOutboundRequest_eq]
  exact breakOn_joinPair (by decide) p.outBody (by simp [ParsedRequest.outLines])
    (fun l hl => encodedLines_ok hp hip hl)

theorem splitPair_outbound (hp : p.Clean) (hip : ∀ s, p.clientIp = some s → OneLine s) :
    splitPair 13 10 (joinPair 13 10 (p.outLines.map encode)) = p.outLines.map encode :=
  splitPair_joinPair (by decide) (by simp [ParsedRequest.outLines])
    (fun l hl => (encodedLines_ok hp hip hl).2)

end Clean

end Http
end NetworkProxy
