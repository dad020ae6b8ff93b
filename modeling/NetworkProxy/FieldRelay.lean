import NetworkProxy.Chaining

/-!
# Relaying of the header fields

The client's fields pass through the header dictionary of the parser and the filter of the
builder.  Both messages are read the same way, line by line, and what the builder writes itself
is left out.

* `FieldLine`: a well-formed field line.
* `fields_relayed_iff`: the end-to-end fields of the outbound request are those of the client
  exactly if no name comes twice.
-/

namespace NetworkProxy
namespace Http

open Py

/-- The fields of a message, as a recipient reads them. -/
def messageFields (message : Bytes) : List (Bytes × Bytes) :=
  match breakOn headerTerminator message with
  | none => []
  | some (head, _) => (splitPair 13 10 head).tail.filterMap fieldOfLine

/-- The names of the fields that the builder writes itself. -/
def rewrittenNames : List Text :=
  [txt "host", txt "connection", txt "x-forwarded-for", txt "via"]

/-- A character of a field name. -/
def isTokenChar (c : Char) : Bool := c.isAlphanum || (txt "!#$%&'*+-.^_`|~").contains c

/-- A well-formed field line: a name, a colon, and a value with blanks around it. -/
structure FieldLine where
  name : Text
  value : Text
  name_token : name ≠ [] ∧ name.all isTokenChar = true
  value_oneLine : OneLine value

namespace FieldLine

variable (l : FieldLine)

def text : Text := l.name ++ ':' :: l.value

def lowerName : Text := l.name.map Char.toLower

/-- The value without the blanks around it. -/
def content : Text := stripBy isBlank l.value

/-- A field that the builder neither drops nor writes itself. -/
def EndToEnd : Prop := l.lowerName ∉ builderNames

instance : DecidablePred EndToEnd :=
  fun l => inferInstanceAs (Decidable (l.lowerName ∉ builderNames))

end FieldLine

/-- The end-to-end fields among those that decoding brings out of the request line: bytes that
are no UTF-8 are ignored, so a carriage return and a line feed around them come together. -/
def strayNames (rt : PyRuntime) (requestLine : Bytes) : List Text :=
  (parseHeaders rt (lines (decodeIgnore requestLine)).tail).keys.filter (fun k => k ∉ builderNames)

/-- The end-to-end lines have different names and only blanks around their values, and what
decoding brings out of the request line has, if anything, the first of these names. -/
structure RelaysWhole (rt : PyRuntime) (requestLine : Bytes) (endToEnd : List FieldLine) :
    Prop where
  names_nodup : (endToEnd.map FieldLine.lowerName).Nodup
  blanks : ∀ l, l ∈ endToEnd → strip l.value = l.content
  stray : strayNames rt requestLine <+: endToEnd.map FieldLine.lowerName

section Lines

variable {rt : PyRuntime}

theorem token_bounds {c : Char} (h : isTokenChar c = true) :
    c.toNat < 128 ∧ c ≠ ':' ∧ isSpace c = false := by
  have halpha : c.isAlpha = (c.isUpper || c.isLower) := rfl
  rw [isTokenChar, Bool.or_eq_true, Char.isAlphanum, Bool.or_eq_true, halpha,
    Bool.or_eq_true, isUpper_iff, isLower_iff] at h
  rcases h with hletter | hsymbol
  · have hbounds : 48 ≤ c.toNat ∧ c.toNat ≤ 122 ∧ c.toNat ≠ 58 := by
      rcases hletter with hletter | hdigit
      · omega
      · have hdigit := isDigit_bounds hdigit
        omega
    refine ⟨by omega, ?_, by unfold isSpace; simp; omega⟩
    rintro rfl
    exact hbounds.2.2 rfl
  · have hall : (txt "!#$%&'*+-.^_`|~").all (fun c => decide (c.toNat < 128) && c != ':' &&
        !isSpace c) = true := by decide
    simpa [and_assoc] using List.all_eq_true.mp hall c (List.contains_iff_mem.mp hsymbol)

theorem FieldLine.of_mem_name {l : FieldLine} {c : Char} (h : c ∈ l.name) :
    c.toNat < 128 ∧ c ≠ ':' ∧ isSpace c = false :=
  token_bounds (List.all_eq_true.mp l.name_token.2 c h)

theorem FieldLine.oneLine_text (l : FieldLine) : OneLine l.text := by
  have hname : OneLine l.name := oneLine_of_no_space fun c hc => (of_mem_name hc).2.2
  exact oneLine_append_cons hname l.value_oneLine (by decide)

/-- How the parser reads a well-formed line. -/
theorem headerField_text (l : FieldLine) :
    headerField rt l.text = some (l.lowerName, strip l.value) := by
  have hcolon : ':' ∉ l.name := fun hc => (FieldLine.of_mem_name hc).2.1 rfl
  have hstrip : strip l.name = l.name :=
    stripBy_eq_self (fun c hc => (FieldLine.of_mem_name (List.mem_of_mem_head? hc)).2.2)
      fun c hc => (FieldLine.of_mem_name (List.mem_of_getLast? hc)).2.2
  rw [headerField, FieldLine.text, splitFirst_append hcolon, Option.map_some, hstrip,
    lower_of_ascii fun c hc => (FieldLine.of_mem_name hc).1]
  rfl

/-- How a recipient reads it. -/
theorem fieldOfLine_text (l : FieldLine) :
    fieldOfLine (encode l.text) = some (encode l.lowerName, encode l.content) := by
  have hcolon : (58 : UInt8) ∉ encode l.name := by
    intro h
    have hmem := mem_of_asciiByte_mem_encode (a := ':') (by decide) h
    exact (FieldLine.of_mem_name hmem).2.1 rfl
  have hline : encode l.text = encode l.name ++ 58 :: encode l.value := by
    rw [FieldLine.text, encode_append]
    rfl
  rw [fieldOfLine, hline, splitFirst_append hcolon, Option.map_some, stripBy_encode,
    map_lowerByte_encode_of_ascii fun c hc => (FieldLine.of_mem_name hc).1]
  rfl

/-- The header lines as the parser gets them. -/
theorem lines_head {requestLine : Bytes} {ls : List Text} (hone : ∀ l, l ∈ ls → OneLine l) :
    lines (decodeIgnore (joinPair 13 10 (requestLine :: ls.map encode) ++ headerTerminator)) =
      lines (decodeIgnore requestLine) ++ (ls ++ [[], []]) := by
  have happend : ∀ rest : Bytes, lines (decodeIgnore (requestLine ++ 13 :: 10 :: rest)) =
      lines (decodeIgnore requestLine) ++ lines (decodeIgnore rest) := by
    intro rest
    have hfeed : decodeIgnore (10 :: rest) = '\n' :: decodeIgnore rest :=
      decodeIgnore_append_cons [] (by decide) rest
    rw [decodeIgnore_append_cons _ (by decide), hfeed]
    exact splitPair_append_sep (by decide) _ _
  cases ls with
  | nil => exact happend [13, 10]
  | cons l ls =>
      rw [List.map_cons, joinPair, List.append_assoc, List.cons_append, List.cons_append, happend,
        ← List.map_cons, lines_encoded (List.cons_ne_nil _ _) hone]

end Lines

section Relay

variable {rt : PyRuntime} {p : ParsedRequest}

/-- Name and value in bytes. -/
def encodeField (f : Text × Text) : Bytes × Bytes := (encode f.1, encode f.2)

theorem encodeField_injective : Function.Injective encodeField := by
  rintro ⟨name, value⟩ ⟨name', value'⟩ h
  obtain ⟨hname, hvalue⟩ := Prod.mk.inj h
  exact Prod.ext (encode_injective hname) (encode_injective hvalue)

/-- The names the builder passes on. -/
theorem not_mem_builderNames {name : Text} :
    name ∉ builderNames ↔
      name ∉ rewrittenNames ∧ name ∉ hopByHopHeaders ∧ name ≠ txt "host" := by
  rw [builderNames, List.mem_append, not_or]
  by_cases hhop : name ∈ hopByHopHeaders
  · simp [hhop]
  · have hconnection : name ≠ txt "connection" := by
      rintro rfl
      exact hhop (by decide)
    simp only [rewrittenNames, List.mem_cons, List.not_mem_nil, hhop, hconnection, or_false,
      false_or, not_or, not_false_eq_true, true_and]
    tauto

/-- How the fields of the builder are read. -/
theorem built_name {f : Text × Text}
    (hf : f = p.hostField ∨ f ∈ [(txt "Connection", txt "close")] ++ p.forwardedFor ++
      [(txt "Via", txt "1.1 proxy")]) : (readField f).1 ∈ rewrittenNames.map encode := by
  rcases hf with rfl | hf
  · exact List.mem_map_of_mem (a := txt "host") (by decide)
  · rw [readField]
    rcases appended_cases hf with hname | hname | hname
    · rw [hname]
      exact List.mem_map_of_mem (a := txt "connection") (by decide)
    · rw [hname]
      exact List.mem_map_of_mem (a := txt "x-forwarded-for") (by decide)
    · rw [hname]
      exact List.mem_map_of_mem (a := txt "via") (by decide)

theorem messageFields_outbound (hp : p.Clean) (hip : ∀ s, p.clientIp = some s → OneLine s) :
    messageFields (buildOutboundRequest p) = p.outFields.map readField := by
  rw [messageFields, breakOn_outbound hp hip]
  exact fields_outbound hp hip

/-- The end-to-end fields of the outbound request are those of the header dictionary. -/
theorem endToEnd_outbound (hp : p.Clean) (hip : ∀ s, p.clientIp = some s → OneLine s) :
    (messageFields (buildOutboundRequest p)).filter (fun f => f.1 ∉ rewrittenNames.map encode) =
      (p.headers.items.filter (fun f => f.1 ∉ builderNames)).map encodeField := by
  have hbuilt : (([(txt "Connection", txt "close")] ++ p.forwardedFor ++
      [(txt "Via", txt "1.1 proxy")]).map readField).filter
        (fun f => f.1 ∉ rewrittenNames.map encode) = [] := by
    rw [List.filter_eq_nil_iff]
    intro g hg
    obtain ⟨f, hf, rfl⟩ := List.mem_map.mp hg
    simpa using built_name (Or.inr hf)
  have hhost : ∀ fs : List (Bytes × Bytes),
      (readField p.hostField :: fs).filter (fun f => f.1 ∉ rewrittenNames.map encode) =
        fs.filter (fun f => f.1 ∉ rewrittenNames.map encode) :=
    fun fs => List.filter_cons_of_neg (by simpa using built_name (p := p) (Or.inl rfl))
  have hkept : (p.keptFields.map readField).filter (fun f => f.1 ∉ rewrittenNames.map encode) =
      (p.headers.items.filter (fun f => f.1 ∉ builderNames)).map encodeField := by
    have hread : p.keptFields.map readField = p.keptFields.map encodeField :=
      List.map_congr_left fun f hf => readField_of_fieldOk (hp.fields f (List.mem_of_mem_filter hf))
    rw [hread, List.filter_map, ParsedRequest.keptFields, List.filter_filter]
    congr 1
    refine List.filter_congr fun f _ => ?_
    rw [Function.comp_apply, Bool.eq_iff_iff, Bool.and_eq_true, decide_eq_true_eq,
      decide_eq_true_eq, decide_eq_true_eq, not_mem_builderNames, encodeField,
      List.mem_map_of_injective encode_injective]
  rw [messageFields_outbound hp hip, outFields_eq, List.map_append, List.map_cons,
    List.filter_append, hbuilt, List.append_nil, hhost, hkept]

/-- The end-to-end fields of the client. -/
theorem endToEnd_client {data head body requestLine : Bytes} {fieldLines : List FieldLine}
    (hbreak : breakOn headerTerminator data = some (head, body))
    (hlines : splitPair 13 10 head = requestLine :: fieldLines.map (fun l => encode l.text)) :
    (messageFields data).filter (fun f => f.1 ∉ builderNames.map encode) =
      ((fieldLines.filter FieldLine.EndToEnd).map (fun l => (l.lowerName, l.content))).map
        encodeField := by
  have hfields : messageFields data =
      fieldLines.map (fun l => encodeField (l.lowerName, l.content)) := by
    rw [messageFields, hbreak]
    dsimp only
    rw [hlines, List.tail_cons, List.filterMap_map, ← List.filterMap_eq_map]
    exact List.filterMap_congr fun l _ => fieldOfLine_text l
  rw [hfields, List.filter_map, List.map_map]
  congr 1
  refine List.filter_congr fun l _ => ?_
  rw [Function.comp_apply, Bool.eq_iff_iff, decide_eq_true_eq, decide_eq_true_eq, encodeField,
    List.mem_map_of_injective encode_injective]
  rfl

/-- The header dictionary of the parser. -/
theorem headers_of_parse {requestId : Text} {data head body requestLine : Bytes}
    {fieldLines : List FieldLine} (h : parseHttpRequest rt requestId data = .ok (some p))
    (hbreak : breakOn headerTerminator data = some (head, body))
    (hlines : splitPair 13 10 head = requestLine :: fieldLines.map (fun l => encode l.text)) :
    p.headers = (((lines (decodeIgnore requestLine)).tail.filterMap (headerField rt) ++
      fieldLines.map (fun l => (l.lowerName, strip l.value))).foldl (fun d p => d.set p.1 p.2)
        OrderedDict.empty) := by
  obtain ⟨head', first, headerLines, target, version, hbreak', hread, -, hheaders, -⟩ :=
    parseHttpRequest_eq_some h
  obtain ⟨rfl, -⟩ := Prod.mk.inj (Option.some.inj (hbreak.symm.trans hbreak'))
  have hhead : head =
      joinPair 13 10 (requestLine :: (fieldLines.map FieldLine.text).map encode) := by
    rw [← joinPair_splitPair 13 10 head, hlines, List.map_map]
    rfl
  have hone : ∀ s, s ∈ fieldLines.map FieldLine.text → OneLine s := by
    intro s hs
    obtain ⟨l, -, rfl⟩ := List.mem_map.mp hs
    exact l.oneLine_text
  rw [hhead, lines_head hone] at hread
  obtain ⟨x, xs, hdecoded⟩ := List.exists_cons_of_ne_nil
    (splitPair_ne_nil '\r' '\n' (decodeIgnore requestLine))
  rw [lines, hdecoded, List.cons_append, List.cons.injEq] at hread
  have hfields : (fieldLines.map FieldLine.text).filterMap (headerField rt) =
      fieldLines.map (fun l => (l.lowerName, strip l.value)) := by
    rw [List.filterMap_map, ← List.filterMap_eq_map]
    exact List.filterMap_congr fun l _ => headerField_text l
  have hempty : ([[], []] : List Text).filterMap (headerField rt) = [] := rfl
  rw [hheaders, parseHeaders, ← hread.2, List.filterMap_append, List.filterMap_append, hfields,
    hempty, List.append_nil, lines, hdecoded, List.tail_cons]

theorem strayNames_eq (rt : PyRuntime) (requestLine : Bytes) :
    strayNames rt requestLine =
      ((((lines (decodeIgnore requestLine)).tail.filterMap (headerField rt)).filter
        (fun f => f.1 ∉ builderNames)).foldl (fun d p => d.set p.1 p.2)
          OrderedDict.empty).keys := by
  have hfilter := OrderedDict.filter_foldl_set (fun k : Text => decide (k ∉ builderNames))
    ((lines (decodeIgnore requestLine)).tail.filterMap (headerField rt))
    (d := OrderedDict.empty) (e := OrderedDict.empty) rfl
  rw [strayNames, OrderedDict.keys, OrderedDict.keys, parseHeaders, ← hfilter, List.filter_map]
  rfl

/--
**The end-to-end fields are relayed.**  Of a request with well-formed field lines, the outbound
request has the end-to-end fields of the client, in the same order and with the same values,
exactly if their names differ and there are only blanks around their values.
-/
theorem fields_relayed_iff (rt : PyRuntime) (requestId : Text) (data head body requestLine : Bytes)
    (p : ParsedRequest) (hparse : parseHttpRequest rt requestId data = .ok (some p))
    (fieldLines : List FieldLine) (hbreak : breakOn headerTerminator data = some (head, body))
    (hlines : splitPair 13 10 head = requestLine :: fieldLines.map (fun l => encode l.text))
    (client : Option IPv4) :
    (messageFields (buildOutboundRequest { p with clientIp := client.map IPv4.text })).filter
        (fun f => f.1 ∉ rewrittenNames.map encode) =
      (messageFields data).filter (fun f => f.1 ∉ builderNames.map encode) ↔
      RelaysWhole rt requestLine (fieldLines.filter FieldLine.EndToEnd) := by
  have hip := oneLine_clientIp client
  have hout := endToEnd_outbound ((clean_of_parse hparse).withClientIp (client.map IPv4.text)) hip
  have hitems : p.headers.items.filter (fun f => f.1 ∉ builderNames) =
      ((((lines (decodeIgnore requestLine)).tail.filterMap (headerField rt)).filter
        (fun f => f.1 ∉ builderNames) ++ (fieldLines.filter FieldLine.EndToEnd).map
          (fun l => (l.lowerName, strip l.value))).foldl (fun d p => d.set p.1 p.2)
            OrderedDict.empty).items := by
    have hfilter := OrderedDict.filter_foldl_set (fun k : Text => decide (k ∉ builderNames))
      ((lines (decodeIgnore requestLine)).tail.filterMap (headerField rt) ++
        fieldLines.map (fun l => (l.lowerName, strip l.value)))
      (d := OrderedDict.empty) (e := OrderedDict.empty) rfl
    rw [headers_of_parse hparse hbreak hlines, hfilter, List.filter_append, List.filter_map]
    rfl
  have hinjective := List.map_injective_iff.mpr encodeField_injective
  rw [hout, endToEnd_client hbreak hlines, hinjective.eq_iff, hitems,
    OrderedDict.items_foldl_set_append_eq_iff, ← strayNames_eq]
  exact ⟨fun ⟨hnodup, hvalues, hstray⟩ => ⟨hnodup, hvalues, hstray⟩,
    fun h => ⟨h.names_nodup, h.blanks, h.stray⟩⟩

/-- A request whose fields have different names. -/
def acceptRequest : Bytes := ascii "GET http://h/ HTTP/1.1\r\nHost: h\r\nAccept: a\r\n\r\n"

def acceptParsed : ParsedRequest where
  method := txt "GET"
  host := txt "h"
  port := 80
  path := some (txt "/")
  headers := (OrderedDict.empty.set (txt "host") (txt "h")).set (txt "accept") (txt "a")
  contentLength := none
  body := []
  requestId := []
  raw := acceptRequest
  clientIp := none

def acceptLines : List FieldLine :=
  [⟨txt "Host", txt " h", by decide, oneLine_literal (by decide)⟩,
    ⟨txt "Accept", txt " a", by decide, oneLine_literal (by decide)⟩]

theorem fields_relayed_iff_accept :
    (messageFields (buildOutboundRequest { acceptParsed with clientIp := none })).filter
        (fun f => f.1 ∉ rewrittenNames.map encode) =
      (messageFields acceptRequest).filter (fun f => f.1 ∉ builderNames.map encode) := by
  have hwhole : RelaysWhole asciiRuntime (ascii "GET http://h/ HTTP/1.1")
      (acceptLines.filter FieldLine.EndToEnd) :=
    ⟨by decide, by decide, by decide⟩
  exact (fields_relayed_iff asciiRuntime [] acceptRequest
    (ascii "GET http://h/ HTTP/1.1\r\nHost: h\r\nAccept: a") [] (ascii "GET http://h/ HTTP/1.1")
    acceptParsed rfl acceptLines rfl rfl none).mpr hwhole

/-- A request with two `Cookie` lines. -/
def cookieRequest : Bytes :=
  ascii "GET http://h/ HTTP/1.1\r\nCookie: a=1\r\nCookie: b=2\r\n\r\n"

def cookieParsed : ParsedRequest where
  method := txt "GET"
  host := txt "h"
  port := 80
  path := some (txt "/")
  headers := OrderedDict.empty.set (txt "cookie") (txt "b=2")
  contentLength := none
  body := []
  requestId := []
  raw := cookieRequest
  clientIp := none

/-- The first cookie is lost. -/
theorem repeated_field_is_lost :
    parseHttpRequest asciiRuntime [] cookieRequest = .ok (some cookieParsed) ∧
      (messageFields (buildOutboundRequest cookieParsed)).filter
          (fun f => f.1 ∉ rewrittenNames.map encode) = [(ascii "cookie", ascii "b=2")] ∧
      (messageFields (buildOutboundRequest cookieParsed)).filter
          (fun f => f.1 ∉ rewrittenNames.map encode) ≠
        (messageFields cookieRequest).filter (fun f => f.1 ∉ builderNames.map encode) := by
  have hclient : (messageFields cookieRequest).filter (fun f => f.1 ∉ builderNames.map encode) =
      [(ascii "cookie", ascii "a=1"), (ascii "cookie", ascii "b=2")] := rfl
  have hout : (messageFields (buildOutboundRequest cookieParsed)).filter
      (fun f => f.1 ∉ rewrittenNames.map encode) = [(ascii "cookie", ascii "b=2")] := rfl
  refine ⟨rfl, hout, ?_⟩
  rw [hout, hclient]
  decide

end Relay

end Http
end NetworkProxy
