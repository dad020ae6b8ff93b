import NetworkProxy.FieldRelay
import NetworkProxy.RequestHead

/-!
# Connection options

A client names the fields that are meant for the proxy alone in its `Connection` and
`Proxy-Connection` fields.  The builder knows the names of `hopByHopHeaders` only.

`hop_by_hop_stops_iff`: hop-by-hop fields stop at the proxy exactly if the client lists no name
of a field that is sent.
-/

namespace NetworkProxy
namespace Http

open Py

/-- The elements of a list with commas, in lower case and without the blanks around them; empty
elements do not count. -/
def listElements (value : Bytes) : List Bytes :=
  ((value.splitOn 44).map
    (fun e => (stripBy (fun b => b == 32 || b == 9) e).map lowerByte)).filter (fun e => e ≠ [])

/-- The connection options of a message. -/
def connectionOptions (message : Bytes) : List Bytes :=
  ((messageFields message).filter
    (fun f => f.1 = ascii "connection" ∨ f.1 = ascii "proxy-connection")).flatMap
      (fun f => listElements f.2)

/-- Of the hop-by-hop fields only `Connection: close` is sent, and none that the client lists. -/
structure HopByHopStops (request outbound : Bytes) : Prop where
  only_close : (messageFields outbound).filter (fun f => f.1 ∈ hopByHopHeaders.map encode) =
    [(ascii "connection", ascii "close")]
  no_option : ∀ option, option ∈ connectionOptions request →
    ∀ f, f ∈ messageFields outbound → f.1 ≠ option

/-- The names of the fields that the builder always writes. -/
def builtNames (client : Option IPv4) : List Text :=
  [txt "host", txt "connection", txt "via"] ++ if client.isSome then [txt "x-forwarded-for"] else []

/-- No option is the name of a field the builder writes, or of a field of the client that is not
one of `hopByHopHeaders`. -/
def OptionsNameNothing (rt : PyRuntime) (client : Option IPv4) (data : Bytes) (r : RequestHead) :
    Prop :=
  ∀ option, option ∈ connectionOptions data →
    option ∉ (builtNames client).map encode ∧
      ∀ f, f ∈ r.headerLines.filterMap (headerField rt) → f.1 ∉ hopByHopHeaders →
        encode f.1 ≠ option

section Stops

variable {rt : PyRuntime} {p : ParsedRequest}

theorem IPv4.text_ne_nil (ip : IPv4) : ip.text ≠ [] := by
  rw [IPv4.text]
  simp

theorem exists_forwardedFor {ip : IPv4} (h : p.clientIp = some ip.text) :
    ∃ value, (txt "X-Forwarded-For", value) ∈ p.forwardedFor := by
  obtain ⟨c, s, hs⟩ := List.exists_cons_of_ne_nil ip.text_ne_nil
  rw [ParsedRequest.forwardedFor, h, Option.getD_some, hs]
  dsimp only
  split
  · exact ⟨_, List.mem_singleton.mpr rfl⟩
  · exact ⟨_, List.mem_singleton.mpr rfl⟩

/-- Without a client address, `X-Forwarded-For` is one of the client's fields. -/
theorem mem_keys_of_forwardedFor {f : Text × Text} (h : p.clientIp = none)
    (hf : f ∈ p.forwardedFor) : txt "x-forwarded-for" ∈ p.headers.keys := by
  rcases existingXff_cases p with hnil | hitem
  · rw [ParsedRequest.forwardedFor, h, hnil] at hf
    cases hf
  · exact List.mem_map_of_mem hitem

theorem readField_forwardedFor {f : Text × Text} (hf : f ∈ p.forwardedFor) :
    (readField f).1 = encode (txt "x-forwarded-for") := by
  rw [readField, forwardedFor_name hf]
  rfl

/-- A field that is sent is the builder's or the client's. -/
theorem name_of_mem_outFields {client : Option IPv4} (hp : p.Clean)
    (hclient : p.clientIp = client.map IPv4.text) {f : Text × Text} (hf : f ∈ p.outFields) :
    (readField f).1 ∈ (builtNames client).map encode ∨
      ∃ k, k ∈ p.headers.keys ∧ k ∉ hopByHopHeaders ∧ encode k = (readField f).1 := by
  rw [ParsedRequest.outFields] at hf
  simp only [List.mem_append, List.mem_singleton] at hf
  rcases hf with (((rfl | hkept) | rfl) | hforwarded) | rfl
  · exact Or.inl (List.mem_map_of_mem (a := txt "host") (by simp [builtNames]))
  · obtain ⟨hitem, hname⟩ := List.mem_filter.mp hkept
    refine Or.inr ⟨f.1, List.mem_map_of_mem hitem, (of_decide_eq_true hname).1, ?_⟩
    rw [readField_of_fieldOk (hp.fields f hitem)]
  · exact Or.inl (List.mem_map_of_mem (a := txt "connection") (by simp [builtNames]))
  · rw [readField_forwardedFor hforwarded]
    cases client with
    | none => exact Or.inr ⟨_, mem_keys_of_forwardedFor hclient hforwarded, by decide, rfl⟩
    | some ip => exact Or.inl (List.mem_map_of_mem (by simp [builtNames]))
  · exact Or.inl (List.mem_map_of_mem (a := txt "via") (by simp [builtNames]))

theorem exists_built_field {client : Option IPv4} (hclient : p.clientIp = client.map IPv4.text)
    {k : Text} (hk : k ∈ builtNames client) :
    ∃ f, f ∈ p.outFields ∧ (readField f).1 = encode k := by
  rcases List.mem_append.mp hk with hk | hk
  · simp only [List.mem_cons, List.not_mem_nil, or_false] at hk
    rcases hk with rfl | rfl | rfl
    · exact ⟨p.hostField, by simp [ParsedRequest.outFields], rfl⟩
    · exact ⟨(txt "Connection", txt "close"), by simp [ParsedRequest.outFields], rfl⟩
    · exact ⟨(txt "Via", txt "1.1 proxy"), by simp [ParsedRequest.outFields], rfl⟩
  · cases client with
    | none => cases hk
    | some ip =>
        obtain rfl := List.mem_singleton.mp hk
        obtain ⟨value, hvalue⟩ := exists_forwardedFor hclient
        exact ⟨_, by simp [ParsedRequest.outFields, hvalue], readField_forwardedFor hvalue⟩

/-- A field of the client is sent on, or replaced if it is `Host`. -/
theorem exists_client_field (hp : p.Clean) {k : Text} (hk : k ∈ p.headers.keys)
    (hhop : k ∉ hopByHopHeaders) : ∃ f, f ∈ p.outFields ∧ (readField f).1 = encode k := by
  obtain ⟨f, hf, rfl⟩ := List.mem_map.mp hk
  by_cases hname : f.1 = txt "host"
  · exact ⟨p.hostField, by simp [ParsedRequest.outFields], by rw [hname]; rfl⟩
  · have hkept : f ∈ p.keptFields := List.mem_filter.mpr ⟨hf, decide_eq_true ⟨hhop, hname⟩⟩
    refine ⟨f, by simp [ParsedRequest.outFields, hkept], ?_⟩
    rw [readField_of_fieldOk (hp.fields f hf)]

/-- The names of the fields that are sent. -/
theorem mem_names_outbound {client : Option IPv4} (hp : p.Clean)
    (hip : ∀ s, p.clientIp = some s → OneLine s) (hclient : p.clientIp = client.map IPv4.text)
    (name : Bytes) :
    (∃ f, f ∈ messageFields (buildOutboundRequest p) ∧ f.1 = name) ↔
      name ∈ (builtNames client).map encode ∨
        ∃ k, k ∈ p.headers.keys ∧ k ∉ hopByHopHeaders ∧ encode k = name := by
  rw [messageFields_outbound hp hip]
  constructor
  · rintro ⟨g, hg, rfl⟩
    obtain ⟨f, hf, rfl⟩ := List.mem_map.mp hg
    exact name_of_mem_outFields hp hclient hf
  · rintro (hbuilt | ⟨k, hk, hhop, rfl⟩)
    · obtain ⟨k, hk, rfl⟩ := List.mem_map.mp hbuilt
      obtain ⟨f, hf, hname⟩ := exists_built_field hclient hk
      exact ⟨readField f, List.mem_map_of_mem hf, hname⟩
    · obtain ⟨f, hf, hname⟩ := exists_client_field hp hk hhop
      exact ⟨readField f, List.mem_map_of_mem hf, hname⟩

/-- Of the hop-by-hop fields, the builder sends its own `Connection` only. -/
theorem filter_hop_outbound (hp : p.Clean) (hip : ∀ s, p.clientIp = some s → OneLine s) :
    (messageFields (buildOutboundRequest p)).filter
        (fun f => f.1 ∈ hopByHopHeaders.map encode) =
      [(ascii "connection", ascii "close")] := by
  have hdrop : ∀ fs : List (Text × Text), (∀ f, f ∈ fs →
      ∃ k, k ∉ hopByHopHeaders ∧ (readField f).1 = encode k) →
        (fs.map readField).filter (fun f => f.1 ∈ hopByHopHeaders.map encode) = [] := by
    intro fs hfs
    rw [List.filter_eq_nil_iff]
    intro g hg
    obtain ⟨f, hf, rfl⟩ := List.mem_map.mp hg
    obtain ⟨k, hk, hname⟩ := hfs f hf
    rw [hname, decide_eq_true_eq, List.mem_map_of_injective encode_injective]
    exact hk
  have hfront : ((p.hostField :: p.keptFields).map readField).filter
      (fun f => f.1 ∈ hopByHopHeaders.map encode) = [] := by
    refine hdrop _ fun f hf => ?_
    rcases List.mem_cons.mp hf with rfl | hkept
    · exact ⟨txt "host", by decide, rfl⟩
    · refine ⟨f.1, (of_decide_eq_true (List.mem_filter.mp hkept).2).1, ?_⟩
      rw [readField_of_fieldOk (hp.fields f (List.mem_of_mem_filter hkept))]
  have hback : ((p.forwardedFor ++ [(txt "Via", txt "1.1 proxy")]).map readField).filter
      (fun f => f.1 ∈ hopByHopHeaders.map encode) = [] := by
    refine hdrop _ fun f hf => ?_
    rcases List.mem_append.mp hf with hforwarded | hvia
    · exact ⟨txt "x-forwarded-for", by decide, readField_forwardedFor hforwarded⟩
    · obtain rfl := List.mem_singleton.mp hvia
      exact ⟨txt "via", by decide, rfl⟩
  have hclose : ([(txt "Connection", txt "close")].map readField).filter
      (fun f => f.1 ∈ hopByHopHeaders.map encode) = [(ascii "connection", ascii "close")] := rfl
  rw [messageFields_outbound hp hip, outFields_eq, List.map_append, List.filter_append, hfront,
    List.append_assoc, List.map_append, List.filter_append, hclose, hback]
  rfl

/--
**Hop-by-hop fields stop at the proxy** exactly if no connection option of the client is the name
of a field that the builder writes or passes on.
-/
theorem hop_by_hop_stops_iff (rt : PyRuntime) (requestId : Text) (data : Bytes)
    (p : ParsedRequest) (hparse : parseHttpRequest rt requestId data = .ok (some p))
    (client : Option IPv4) :
    ∃ r, requestHead data = some r ∧
      (HopByHopStops data (buildOutboundRequest { p with clientIp := client.map IPv4.text }) ↔
        OptionsNameNothing rt client data r) := by
  obtain ⟨r, hr, -, hheaders, -⟩ := requestHead_of_parse hparse
  have hip := oneLine_clientIp client
  have hp := (clean_of_parse hparse).withClientIp (client.map IPv4.text)
  have hnames := mem_names_outbound hp hip rfl
  have hkeys : ∀ k, k ∈ p.headers.keys ↔
      ∃ f, f ∈ r.headerLines.filterMap (headerField rt) ∧ f.1 = k := by
    intro k
    rw [hheaders, mem_keys_parseHeaders]
  refine ⟨r, hr, ?_⟩
  constructor
  · intro hstops option hoption
    have hfree := hstops.no_option option hoption
    refine ⟨fun hbuilt => ?_, fun f hf hhop hname => ?_⟩
    · obtain ⟨f, hf, hname⟩ := (hnames _).mpr (Or.inl hbuilt)
      exact hfree f hf hname
    · have hkey := (hkeys f.1).mpr ⟨f, hf, rfl⟩
      obtain ⟨g, hg, hsame⟩ := (hnames _).mpr (Or.inr ⟨f.1, hkey, hhop, hname⟩)
      exact hfree g hg hsame
  · intro hoptions
    refine ⟨filter_hop_outbound hp hip, fun option hoption f hf hname => ?_⟩
    obtain ⟨hbuilt, hclient⟩ := hoptions option hoption
    rcases (hnames _).mp ⟨f, hf, hname⟩ with hmem | ⟨k, hk, hhop, hsame⟩
    · exact hbuilt hmem
    · obtain ⟨g, hg, rfl⟩ := (hkeys k).mp hk
      exact hclient g hg hhop hsame

/-- A client that lists a field the builder drops anyway. -/
def keepAliveRequest : Bytes :=
  ascii "GET http://h/ HTTP/1.1\r\nConnection: Keep-Alive\r\nKeep-Alive: 5\r\n\r\n"

def keepAliveParsed : ParsedRequest where
  method := txt "GET"
  host := txt "h"
  port := 80
  path := some (txt "/")
  headers :=
    (OrderedDict.empty.set (txt "connection") (txt "Keep-Alive")).set (txt "keep-alive") (txt "5")
  contentLength := none
  body := []
  requestId := []
  raw := keepAliveRequest
  clientIp := none

theorem hop_by_hop_stops_iff_keepAlive :
    HopByHopStops keepAliveRequest (buildOutboundRequest
      { keepAliveParsed with clientIp := some (IPv4.text ⟨10, 0, 0, 1⟩) }) := by
  obtain ⟨r, hr, hiff⟩ := hop_by_hop_stops_iff asciiRuntime [] keepAliveRequest keepAliveParsed rfl
    (some ⟨10, 0, 0, 1⟩)
  have hoptions : connectionOptions keepAliveRequest = [ascii "keep-alive"] := rfl
  have hfields : (requestHead keepAliveRequest).map (fun r =>
      r.headerLines.filterMap (headerField asciiRuntime)) =
        some [(txt "connection", txt "Keep-Alive"), (txt "keep-alive", txt "5")] := rfl
  rw [hr, Option.map_some, Option.some.injEq] at hfields
  refine hiff.mpr fun option hoption => ?_
  rw [hoptions] at hoption
  obtain rfl := List.mem_singleton.mp hoption
  rw [hfields]
  exact ⟨by decide, by decide⟩

/-- A client that lists a field of its own. -/
def secretRequest : Bytes :=
  ascii "GET http://h/ HTTP/1.1\r\nConnection: X-Secret\r\nX-Secret: 1\r\n\r\n"

def secretParsed : ParsedRequest where
  method := txt "GET"
  host := txt "h"
  port := 80
  path := some (txt "/")
  headers :=
    (OrderedDict.empty.set (txt "connection") (txt "X-Secret")).set (txt "x-secret") (txt "1")
  contentLength := none
  body := []
  requestId := []
  raw := secretRequest
  clientIp := none

/-- The field is sent on. -/
theorem listed_field_is_sent :
    parseHttpRequest asciiRuntime [] secretRequest = .ok (some secretParsed) ∧
      ascii "x-secret" ∈ connectionOptions secretRequest ∧
      (ascii "x-secret", ascii "1") ∈ messageFields (buildOutboundRequest secretParsed) ∧
      ¬ HopByHopStops secretRequest (buildOutboundRequest secretParsed) := by
  have hoptions : connectionOptions secretRequest = [ascii "x-secret"] := rfl
  have hoption : ascii "x-secret" ∈ connectionOptions secretRequest := by
    rw [hoptions]
    exact List.mem_singleton.mpr rfl
  have hfields : messageFields (buildOutboundRequest secretParsed) =
      [(ascii "host", ascii "h"), (ascii "x-secret", ascii "1"),
        (ascii "connection", ascii "close"), (ascii "via", ascii "1.1 proxy")] := rfl
  have hsent : (ascii "x-secret", ascii "1") ∈
      messageFields (buildOutboundRequest secretParsed) := by
    rw [hfields]
    exact List.mem_cons_of_mem _ List.mem_cons_self
  exact ⟨rfl, hoption, hsent, fun hstops => hstops.no_option _ hoption _ hsent rfl⟩

end Stops

end Http
end NetworkProxy
