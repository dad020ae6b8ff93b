import NetworkProxy.Chaining
import NetworkProxy.LineEnds
import NetworkProxy.RequestHead

/-!
# Line breaks in the outbound head

The parser splits the header block at CRLF, so a CR or an LF alone stays inside a name or a
value.  The builder writes both out as they are, and a recipient that ends a line at a bare LF
reads lines that the proxy never saw as such.

* `onlyOwnBreaks_iff`: what the head must be free of.
* `no_line_injection_iff`: the head is free of it exactly if the client sends no such CR or LF in
  a field that is passed on, or in the `Host` field of a request in origin form.
-/

namespace NetworkProxy
namespace Http

open Py

/-- A text without a CR and without an LF. -/
abbrev Unbroken (s : Text) : Prop := Avoids '\r' '\n' s

/-- Every CR and every LF of the head belongs to a pair between two of the builder's lines, and
a recipient that accepts a bare LF reads the same lines. -/
structure OnlyOwnBreaks (p : ParsedRequest) (head : Bytes) : Prop where
  head_end : breakOn headerTerminator (buildOutboundRequest p) = some (head, p.outBody)
  built : splitPair 13 10 head = p.outLines.map encode
  unbroken : ∀ line, line ∈ splitPair 13 10 head → Avoids 13 10 line
  same_lines : splitLoose 13 10 head = splitPair 13 10 head

/-- A `Host` value breaks no line, or only around the digits of its port. -/
def HostUnbroken (rt : PyRuntime) (value : Text) : Prop :=
  Unbroken value ∨ ∃ name digits port, splitLast ':' value = some (name, digits) ∧
    parseInt rt digits = some port ∧ Unbroken name

/-- The client breaks no line: not in the last field of a name that is passed on, and in origin
form not in the last `Host` field. -/
structure BreaksNoLine (rt : PyRuntime) (r : RequestHead) : Prop where
  fields : ∀ name value,
    OrderedDict.lastValue name (r.headerLines.filterMap (headerField rt)) = some value →
      name ∉ hopByHopHeaders → name ≠ txt "host" → Unbroken name ∧ Unbroken value
  host : ¬ AbsoluteTarget r.target → ∀ value,
    OrderedDict.lastValue (txt "host") (r.headerLines.filterMap (headerField rt)) = some value →
      HostUnbroken rt value

/-! ## Texts without line breaks -/

theorem unbroken_append {s t : Text} : Unbroken (s ++ t) ↔ Unbroken s ∧ Unbroken t :=
  avoids_append

theorem unbroken_cons {c : Char} {s : Text} : Unbroken (c :: s) ↔ Unbroken [c] ∧ Unbroken s :=
  avoids_cons

theorem unbroken_of_no_space {s : Text} (h : ∀ c, c ∈ s → isSpace c = false) : Unbroken s :=
  ⟨fun hc => absurd (h _ hc) (by decide), fun hc => absurd (h _ hc) (by decide)⟩

theorem avoids_encode {s : Text} : Avoids 13 10 (encode s) ↔ Unbroken s := by
  have hmem : ∀ {a : Char}, a.toNat < 128 → (asciiByte a ∈ encode s ↔ a ∈ s) := by
    intro a ha
    refine ⟨mem_of_asciiByte_mem_encode ha, fun h => ?_⟩
    refine List.mem_flatten.mpr ⟨_, List.mem_map_of_mem h, ?_⟩
    rw [utf8EncodeChar_ascii ha]
    exact List.mem_singleton.mpr rfl
  have hcr := hmem (a := '\r') (by decide)
  have hlf := hmem (a := '\n') (by decide)
  exact and_congr (not_congr hcr) (not_congr hlf)

theorem unbroken_headerLine {f : Text × Text} :
    Unbroken (headerLine f) ↔ Unbroken f.1 ∧ Unbroken f.2 := by
  have hsep : Unbroken (txt ": ") := by decide
  rw [headerLine, unbroken_append, unbroken_append]
  simp only [hsep, and_true]

theorem unbroken_showInt (n : ℤ) : Unbroken (showInt n) :=
  unbroken_of_no_space fun _ hc => not_isSpace_of_mem_showInt hc

section Outbound

variable {rt : PyRuntime} {p : ParsedRequest}

/-- What the head must be free of: the lines of the builder hold no CR and no LF. -/
theorem onlyOwnBreaks_iff (hp : p.Clean) (hip : ∀ s, p.clientIp = some s → OneLine s) :
    (∃ head, OnlyOwnBreaks p head) ↔ ∀ line, line ∈ p.outLines → Unbroken line := by
  constructor
  · rintro ⟨head, hown⟩ line hline
    have hmem : encode line ∈ splitPair 13 10 head := by
      rw [hown.built]
      exact List.mem_map_of_mem hline
    exact avoids_encode.mp (hown.unbroken _ hmem)
  · intro hfree
    have hlines : ∀ line, line ∈ p.outLines.map encode → Avoids 13 10 line := by
      intro line hline
      obtain ⟨text, htext, rfl⟩ := List.mem_map.mp hline
      exact avoids_encode.mpr (hfree text htext)
    have hsplit := splitPair_outbound hp hip
    refine ⟨_, breakOn_outbound hp hip, hsplit, ?_, ?_⟩
    · rw [hsplit]
      exact hlines
    · rw [hsplit]
      exact splitLoose_joinPair (by decide) (by simp [ParsedRequest.outLines]) hlines

theorem unbroken_requestLine (hf : p.Forwardable rt) : Unbroken p.requestLine := by
  obtain ⟨path, hpath, hok⟩ := hf.path
  have hspace : Unbroken [' '] := by decide
  have hversion : Unbroken (txt " HTTP/1.1") := by decide
  rw [ParsedRequest.requestLine, hpath, showPath, unbroken_append, unbroken_append,
    unbroken_cons]
  exact ⟨⟨unbroken_of_no_space hf.method_no_space, hspace, unbroken_of_no_space hok.no_space⟩,
    hversion⟩

theorem unbroken_hostField : Unbroken p.hostField.2 ↔ Unbroken p.host := by
  rw [ParsedRequest.hostField]
  dsimp only
  split
  · exact Iff.rfl
  · have hcolon : Unbroken [':'] := by decide
    rw [unbroken_append, unbroken_cons]
    exact and_iff_left ⟨hcolon, unbroken_showInt _⟩

/-- The chain is made of the client's field and an address. -/
theorem unbroken_forwardedFor {client : Option IPv4} (hclient : p.clientIp = client.map IPv4.text)
    (hxff : Unbroken p.existingXff) {f : Text × Text} (hf : f ∈ p.forwardedFor) :
    Unbroken f.2 := by
  have haddress : Unbroken (p.clientIp.getD []) := by
    rw [hclient]
    cases client with
    | none => exact avoids_nil
    | some ip => exact unbroken_of_no_space fun _ hc => IPv4.of_mem_text hc
  have hcomma : Unbroken (txt ", ") := by decide
  rcases (of_mem_forwardedFor hf).2 with hvalue | hvalue | hvalue
  · exact hvalue ▸ hxff
  · exact hvalue ▸ haddress
  · rw [hvalue]
    exact unbroken_append.mpr ⟨unbroken_append.mpr ⟨hxff, hcomma⟩, haddress⟩

/-- The lines of the head are unbroken if the host and the fields that are passed on are. -/
theorem unbroken_outLines_iff {client : Option IPv4} (hf : p.Forwardable rt)
    (hclient : p.clientIp = client.map IPv4.text) :
    (∀ line, line ∈ p.outLines → Unbroken line) ↔
      Unbroken p.host ∧ ∀ f, f ∈ p.keptFields → Unbroken f.1 ∧ Unbroken f.2 := by
  have hlines : (∀ line, line ∈ p.outLines → Unbroken line) ↔
      ∀ f, f ∈ p.outFields → Unbroken f.1 ∧ Unbroken f.2 := by
    rw [ParsedRequest.outLines, List.forall_mem_cons, List.forall_mem_map]
    simp only [unbroken_requestLine hf, unbroken_headerLine, true_and]
  rw [hlines]
  constructor
  · intro hfree
    refine ⟨unbroken_hostField.mp (hfree p.hostField (by simp [ParsedRequest.outFields])).2, ?_⟩
    exact fun f hkept => hfree f (by simp [ParsedRequest.outFields, hkept])
  · rintro ⟨hhost, hkept⟩ f hf
    have hxff : Unbroken p.existingXff := by
      have hname : txt "x-forwarded-for" ∉ hopByHopHeaders ∧
          txt "x-forwarded-for" ≠ txt "host" := by decide
      rcases existingXff_cases p with hnil | hitem
      · rw [hnil]
        exact avoids_nil
      · exact (hkept _ (List.mem_filter.mpr ⟨hitem, decide_eq_true hname⟩)).2
    rw [ParsedRequest.outFields] at hf
    simp only [List.mem_append, List.mem_singleton] at hf
    rcases hf with (((rfl | hf) | rfl) | hf) | rfl
    · have hname : Unbroken p.hostField.1 := by
        have hliteral : p.hostField.1 = txt "Host" := rfl
        rw [hliteral]
        decide
      exact ⟨hname, unbroken_hostField.mpr hhost⟩
    · exact hkept f hf
    · exact ⟨by decide, by decide⟩
    · refine ⟨?_, unbroken_forwardedFor hclient hxff hf⟩
      rw [forwardedFor_name hf]
      decide
    · exact ⟨by decide, by decide⟩

end Outbound

/-! ## What the client sends -/

section Client

variable {rt : PyRuntime} {p : ParsedRequest}

/-- The host of an absolute URI is made of the target. -/
theorem unbroken_absoluteDestination {target host : Text} {port : ℤ} {path : Option Text}
    (hblank : ∀ c, c ∈ target → isSpace c = false)
    (h : absoluteDestination rt target = .ok (some host, port, path)) : Unbroken host := by
  obtain ⟨url, hurl, hhost, -⟩ := absoluteDestination_eq_ok h
  have hmem : ∀ {c : Char}, c.toNat < 128 → ¬ c.isLower = true → c ∈ host → c ∈ target :=
    fun hascii hlow hc => mem_of_urlparse hurl (Or.inl (mem_hostname hhost hc hascii hlow))
  have htarget := unbroken_of_no_space hblank
  constructor
  · exact fun hc => htarget.1 (hmem (by decide) (by decide) hc)
  · exact fun hc => htarget.2 (hmem (by decide) (by decide) hc)

/-- The host of a `Host` value. -/
theorem unbroken_hostHeaderDestination {value : Text} :
    Unbroken (hostHeaderDestination rt value).1 ↔ HostUnbroken rt value := by
  rcases hostHeaderDestination_cases rt value with
    ⟨name, digits, port, hsplit, hport, hread⟩ | ⟨hnone, hread⟩
  · rw [hread]
    constructor
    · exact fun hname => Or.inr ⟨name, digits, port, hsplit, hport, hname⟩
    · rintro (hvalue | ⟨name', digits', port', hsplit', -, hname⟩)
      · obtain ⟨rfl, -⟩ := splitLast_eq_some hsplit
        exact (unbroken_append.mp hvalue).1
      · rw [hsplit] at hsplit'
        cases hsplit'
        exact hname
  · rw [hread]
    constructor
    · exact Or.inl
    · rintro (hvalue | ⟨name, digits, port, hsplit, hport, -⟩)
      · exact hvalue
      · rw [hnone name digits hsplit] at hport
        cases hport

/-- The host breaks no line if it stands in the target, or if the `Host` field breaks none. -/
theorem unbroken_host_iff {target : Text} {headerLines : List Text}
    (hmethod : p.method ≠ txt "CONNECT") (hblank : ∀ c, c ∈ target → isSpace c = false)
    (hheaders : p.headers = parseHeaders rt headerLines)
    (hdest : destination rt p.method target p.headers = .ok (some (some p.host, p.port, p.path))) :
    Unbroken p.host ↔ (¬ AbsoluteTarget target → ∀ value,
      OrderedDict.lastValue (txt "host") (headerLines.filterMap (headerField rt)) = some value →
        HostUnbroken rt value) := by
  by_cases habsolute : AbsoluteTarget target
  · have hhost := unbroken_absoluteDestination hblank
      (absoluteDestination_of_destination hmethod habsolute hdest)
    exact iff_of_true hhost fun horigin => absurd habsolute horigin
  · rw [destination_origin hmethod habsolute, Except.ok.injEq, Option.some.injEq] at hdest
    obtain ⟨value, hget, hread, -⟩ := originDestination_eq hdest
    have hhost : Unbroken p.host ↔ HostUnbroken rt value := by
      rw [← unbroken_hostHeaderDestination, hread]
    rw [hheaders, get?_parseHeaders] at hget
    rw [hhost, hget]
    constructor
    · rintro hvalue - _ ⟨⟩
      exact hvalue
    · exact fun hall => hall habsolute value rfl

/-- The fields that are passed on are the last ones of their names. -/
theorem unbroken_keptFields_iff {headerLines : List Text}
    (hheaders : p.headers = parseHeaders rt headerLines) :
    (∀ f, f ∈ p.keptFields → Unbroken f.1 ∧ Unbroken f.2) ↔ ∀ name value,
      OrderedDict.lastValue name (headerLines.filterMap (headerField rt)) = some value →
        name ∉ hopByHopHeaders → name ≠ txt "host" → Unbroken name ∧ Unbroken value := by
  have hget : ∀ name, p.headers.get? name =
      OrderedDict.lastValue name (headerLines.filterMap (headerField rt)) := by
    intro name
    rw [hheaders, get?_parseHeaders]
  constructor
  · intro hkept name value hlast hhop hhost
    rw [← hget] at hlast
    refine hkept (name, value) (List.mem_filter.mpr ⟨OrderedDict.mem_items_of_get? hlast, ?_⟩)
    exact decide_eq_true ⟨hhop, hhost⟩
  · intro hfields f hf
    obtain ⟨hitem, hname⟩ := List.mem_filter.mp hf
    obtain ⟨hhop, hhost⟩ := of_decide_eq_true hname
    refine hfields f.1 f.2 ?_ hhop hhost
    rw [← hget]
    exact OrderedDict.get?_of_mem_items hitem

/--
**No line is injected** exactly if the client sends no CR and no LF inside a name or a value that
is passed on, or inside the host that it names in a `Host` field.
-/
theorem no_line_injection_iff (rt : PyRuntime) (requestId : Text) (data : Bytes)
    (p : ParsedRequest) (hparse : parseHttpRequest rt requestId data = .ok (some p))
    (hmethod : p.method ≠ txt "CONNECT") (client : Option IPv4) :
    ∃ r, requestHead data = some r ∧
      ((∃ head, OnlyOwnBreaks { p with clientIp := client.map IPv4.text } head) ↔
        BreaksNoLine rt r) := by
  obtain ⟨r, hr, hsame, hheaders, hblank, -, hdest, -⟩ := requestHead_of_parse hparse
  have hp := (clean_of_parse hparse).withClientIp (client.map IPv4.text)
  have hf := (forwardable_of_parse hparse hmethod).withClientIp (client.map IPv4.text)
  have hhost := unbroken_host_iff hmethod hblank hheaders (hsame ▸ hdest)
  have hfields := unbroken_keptFields_iff hheaders
  refine ⟨r, hr, ?_⟩
  rw [onlyOwnBreaks_iff hp (oneLine_clientIp client), unbroken_outLines_iff hf rfl]
  constructor
  · exact fun h => ⟨hfields.mp h.2, hhost.mp h.1⟩
  · exact fun h => ⟨hhost.mpr h.host, hfields.mpr h.fields⟩

/-- A request in origin form, with a line break around its port. -/
def portBreakRequest : Bytes :=
  ascii "GET / HTTP/1.1\r\nHost: h:\n81\r\nTE: a\nb\r\n\r\n"

def portBreakParsed : ParsedRequest where
  method := txt "GET"
  host := txt "h"
  port := 81
  path := some (txt "/")
  headers := (OrderedDict.empty.set (txt "host") (txt "h:\n81")).set (txt "te") (txt "a\nb")
  contentLength := none
  body := []
  requestId := []
  raw := portBreakRequest
  clientIp := none

theorem no_line_injection_iff_portBreak :
    ∃ head, OnlyOwnBreaks
      { portBreakParsed with clientIp := some (IPv4.text ⟨10, 0, 0, 1⟩) } head := by
  obtain ⟨r, hr, hiff⟩ := no_line_injection_iff asciiRuntime [] portBreakRequest portBreakParsed
    rfl (by decide) (some ⟨10, 0, 0, 1⟩)
  have hfields : (requestHead portBreakRequest).map (fun r =>
      r.headerLines.filterMap (headerField asciiRuntime)) =
        some [(txt "host", txt "h:\n81"), (txt "te", txt "a\nb")] := rfl
  rw [hr, Option.map_some, Option.some.injEq] at hfields
  refine hiff.mpr ⟨?_, ?_⟩
  · intro name value hlast hhop hhost
    rw [hfields] at hlast
    have hmem := OrderedDict.mem_of_lastValue hlast
    simp only [List.mem_cons, List.not_mem_nil, or_false, Prod.mk.injEq] at hmem
    rcases hmem with ⟨rfl, -⟩ | ⟨rfl, -⟩
    · exact absurd rfl hhost
    · exact absurd (by decide) hhop
  · intro _ value hlast
    rw [hfields] at hlast
    obtain rfl : txt "h:\n81" = value := Option.some.inj hlast
    exact Or.inr ⟨txt "h", txt "\n81", 81, by decide, by decide, by decide⟩

/-- A hop-by-hop field behind a bare LF. -/
def bareLfRequest : Bytes :=
  ascii "GET http://h/ HTTP/1.1\r\nX: a\nTransfer-Encoding: chunked\r\n\r\n"

def bareLfParsed : ParsedRequest where
  method := txt "GET"
  host := txt "h"
  port := 80
  path := some (txt "/")
  headers := OrderedDict.empty.set (txt "x") (txt "a\nTransfer-Encoding: chunked")
  contentLength := none
  body := []
  requestId := []
  raw := bareLfRequest
  clientIp := none

/-- The field passes the filter, and a recipient that accepts a bare LF reads it. -/
theorem hop_by_hop_field_is_injected :
    parseHttpRequest asciiRuntime [] bareLfRequest = .ok (some bareLfParsed) ∧
      (∃ head, breakOn headerTerminator (buildOutboundRequest bareLfParsed) = some (head, []) ∧
        ascii "Transfer-Encoding: chunked" ∈ splitLoose 13 10 head ∧
        ascii "Transfer-Encoding: chunked" ∉ splitPair 13 10 head) ∧
      ¬ ∃ head, OnlyOwnBreaks bareLfParsed head := by
  have hparse : parseHttpRequest asciiRuntime [] bareLfRequest = .ok (some bareLfParsed) := rfl
  have hp := clean_of_parse hparse
  have hip : ∀ s, bareLfParsed.clientIp = some s → OneLine s := nofun
  have hwritten : bareLfParsed.outLines.map encode =
      [ascii "GET / HTTP/1.1", ascii "Host: h", ascii "x: a\nTransfer-Encoding: chunked",
        ascii "Connection: close", ascii "Via: 1.1 proxy"] := rfl
  have hbreak := breakOn_outbound hp hip
  have hlines := splitPair_outbound hp hip
  rw [hwritten] at hbreak hlines
  have hloose : splitLoose 13 10 (joinPair 13 10 [ascii "GET / HTTP/1.1", ascii "Host: h",
      ascii "x: a\nTransfer-Encoding: chunked", ascii "Connection: close",
      ascii "Via: 1.1 proxy"]) =
        [ascii "GET / HTTP/1.1", ascii "Host: h", ascii "x: a",
          ascii "Transfer-Encoding: chunked", ascii "Connection: close",
          ascii "Via: 1.1 proxy"] := rfl
  refine ⟨hparse, ⟨_, hbreak, ?_, ?_⟩, ?_⟩
  · rw [hloose]
    decide
  · rw [hlines]
    decide
  · rintro ⟨head, hown⟩
    have hhead := hbreak.symm.trans hown.head_end
    obtain rfl := (Prod.mk.inj (Option.some.inj hhead)).1
    have hsame := hown.same_lines
    rw [hloose, hlines] at hsame
    exact absurd (congrArg List.length hsame) (by decide)

end Client

end Http
end NetworkProxy
