import NetworkProxy.OutboundFields
import NetworkProxy.PyTextLaws
import NetworkProxy.Utf8RoundTrip

/-!
# Two proxies in a row

What `parse_http_request` reads from the bytes of `_build_outbound_request`.

* `Forwardable`: what the parser guarantees about an accepted request.
* `get?_outbound`: the header dictionary that is read from the outbound request.
* `hostField_iff`: when the destination is read from the `Host` field as it was.
* `chaining_iff`: the second proxy reads the same message exactly then.
-/

namespace NetworkProxy
namespace Http

open Py

/-- The second proxy reads the same message: the same request line and destination, and
the same values under all names that the builder leaves alone. -/
structure SameMessage (p q : ParsedRequest) : Prop where
  method_eq : q.method = p.method
  path_eq : q.path = p.path
  host_eq : q.host = p.host
  port_eq : q.port = p.port
  headers_eq : ∀ name, name ∉ builderNames → q.headers.get? name = p.headers.get? name

/-- The outbound request is accepted, and read as the same message. -/
def SurvivesChaining (rt : PyRuntime) (requestId : Text) (p : ParsedRequest) : Prop :=
  ∃ q, parseHttpRequest rt requestId (buildOutboundRequest p) = .ok (some q) ∧ SameMessage p q

/-- The `Host` field names the destination: the port is not 443, and if it is 80, the
host has no blanks at its ends and does not end in a colon and an integer. -/
def NamesDestination (rt : PyRuntime) (p : ParsedRequest) : Prop :=
  p.port ≠ 443 ∧ (p.port = 80 → strip p.host = p.host ∧
    ∀ name digits, splitLast ':' p.host = some (name, digits) → parseInt rt digits = none)

/-! ## What the parser guarantees -/

/-- A path the builder can write in a request line. -/
structure PathOk (path : Text) : Prop where
  ne_nil : path ≠ []
  no_space : ∀ c, c ∈ path → isSpace c = false
  origin_form : ¬ ((txt "http://").isPrefixOf path = true ∨ (txt "https://").isPrefixOf path = true)

/-- A destination that can be written in a `Host` field. -/
structure HostOk (host : Text) (port : ℤ) : Prop where
  ne_nil : host ≠ []
  head : ∀ c, host.head? = some c → isSpace c = false
  port_lt : port.natAbs < 10 ^ maxStrDigits

/-- What the builder relies on when its output is parsed again. -/
structure ParsedRequest.Forwardable (rt : PyRuntime) (p : ParsedRequest) : Prop where
  method_ne_nil : p.method ≠ []
  method_no_space : ∀ c, c ∈ p.method → isSpace c = false
  path : ∃ path, p.path = some path ∧ PathOk path
  host : HostOk p.host p.port
  fields : ∀ f, f ∈ p.headers.items → ∃ name value, f = (lower rt (strip name), strip value)

theorem small_lt_bound {n : ℕ} (h : n ≤ 65535) : n < 10 ^ maxStrDigits := by
  have hfive : 10 ^ 5 ≤ 10 ^ maxStrDigits := Nat.pow_le_pow_right (by omega) (by decide)
  omega

section Parsed

variable {rt : PyRuntime}

theorem pathOk_of_rooted {path query : Text} (hpath : Rooted path)
    (hblank : ∀ c, c ∈ path ∨ c ∈ query → isSpace c = false) :
    PathOk (if query = [] then (if path = [] then txt "/" else path)
      else (if path = [] then txt "/" else path) ++ '?' :: query) := by
  have hroot : ∃ rest, (if path = [] then txt "/" else path) = '/' :: rest ∧
      ∀ c, c ∈ rest → isSpace c = false := by
    cases path with
    | nil => exact ⟨[], rfl, nofun⟩
    | cons x path =>
        obtain rfl := hpath x rfl
        exact ⟨path, rfl, fun c hc => hblank c (Or.inl (List.mem_cons_of_mem _ hc))⟩
  obtain ⟨rest, hrest, hspace⟩ := hroot
  have hall : ∀ tail : Text, (∀ c, c ∈ tail → isSpace c = false) → PathOk ('/' :: tail) := by
    intro tail htail
    refine ⟨List.cons_ne_nil _ _, fun c hc => ?_, by simp [txt, List.isPrefixOf]⟩
    rcases List.mem_cons.mp hc with rfl | hc
    · decide
    · exact htail c hc
  rw [hrest]
  split
  · exact hall rest hspace
  · refine hall (rest ++ '?' :: query) fun c hc => ?_
    rcases List.mem_append.mp hc with hc | hc
    · exact hspace c hc
    · rcases List.mem_cons.mp hc with rfl | hc
      · decide
      · exact hblank c (Or.inr hc)

/-- The host of an absolute URI without blanks. -/
theorem head?_hostname {r : ParseResult} {host : Text} (h : r.hostname rt = some host)
    (hblank : ∀ c, c ∈ r.netloc → isSpace c = false) {c : Char} (hc : host.head? = some c) :
    isSpace c = false := by
  have hinfo : ∀ {d : Char}, d ∈ (hostinfo r.netloc).1 → isSpace d = false :=
    fun hd => hblank _ (mem_hostinfo hd)
  rw [ParseResult.hostname] at h
  split at h
  · cases h
  · split at h
    · rename_i name zone hs
      obtain ⟨he, -⟩ := splitFirst_eq_some hs
      cases h
      rcases List.mem_append.mp (List.mem_of_mem_head? hc) with hmem | hmem
      · obtain ⟨⟨x, hx, hspace⟩, -⟩ := of_mem_lowerBlocks hmem
        rw [hspace]
        exact hinfo (he ▸ List.mem_append_left _ hx)
      · exact hinfo (he ▸ List.mem_append_right _ hmem)
    · cases h
      obtain ⟨⟨x, hx, hspace⟩, -⟩ := of_mem_lowerBlocks (List.mem_of_mem_head? hc)
      rw [hspace]
      exact hinfo hx

/-- The destination of an absolute URI. -/
theorem ok_of_absoluteDestination {target host : Text} {port : ℤ} {path : Option Text}
    (hblank : ∀ c, c ∈ target → isSpace c = false) (habsolute : AbsoluteTarget target)
    (hhost : host ≠ [])
    (h : absoluteDestination rt target = .ok (some host, port, path)) :
    HostOk host port ∧ ∃ path', path = some path' ∧ PathOk path' := by
  obtain ⟨scheme, rest, htarget, hscheme⟩ := exists_of_absoluteTarget habsolute
  obtain ⟨url, hurl, hname, hrange, rfl⟩ := absoluteDestination_eq_ok h
  have hpart : ∀ c, c ∈ url.path ∨ c ∈ url.query → isSpace c = false :=
    fun c hc => hblank c (mem_of_urlparse hurl (Or.inr hc))
  have hnetloc : ∀ c, c ∈ url.netloc → isSpace c = false :=
    fun c hc => hblank c (mem_of_urlparse hurl (Or.inl hc))
  have hrooted : Rooted url.path := rooted_of_urlparse hurl htarget hscheme hblank
  exact ⟨⟨hhost, fun c hc => head?_hostname hname hnetloc hc, small_lt_bound (by omega)⟩, _, rfl,
    pathOk_of_rooted hrooted hpart⟩

/-- The destination of a request in origin form. -/
theorem ok_of_originDestination {target host : Text} {port : ℤ} {path : Option Text}
    {headers : OrderedDict Text Text} (hne : target ≠ [])
    (hblank : ∀ c, c ∈ target → isSpace c = false)
    (hform : ¬ AbsoluteTarget target)
    (hvalues : ∀ f, f ∈ headers.items → ∃ value, f.2 = strip value) (hhost : host ≠ [])
    (h : originDestination rt target headers = (some host, port, path)) :
    HostOk host port ∧ ∃ path', path = some path' ∧ PathOk path' := by
  obtain ⟨hostHeader, hget, hread, rfl⟩ := originDestination_eq h
  rw [if_neg hne]
  refine ⟨?_, target, rfl, ⟨hne, hblank, hform⟩⟩
  obtain ⟨value, hvalue⟩ := hvalues _ (OrderedDict.mem_items_of_get? hget)
  have hhead : ∀ c, hostHeader.head? = some c → isSpace c = false := by
    intro c hc
    rw [show hostHeader = strip value from hvalue] at hc
    exact head?_stripBy hc
  rcases hostHeaderDestination_cases rt hostHeader with
    ⟨pre, digits, n, hsplit, hn, hpre⟩ | ⟨-, halone⟩
  · obtain ⟨rfl, rfl⟩ := Prod.mk.inj (hread.symm.trans hpre)
    obtain ⟨rfl, -⟩ := splitLast_eq_some hsplit
    refine ⟨hhost, fun c hc => hhead c ?_, parseInt_lt hn⟩
    rw [List.head?_append_of_ne_nil _ hhost, hc]
  · obtain ⟨rfl, rfl⟩ := Prod.mk.inj (hread.symm.trans halone)
    exact ⟨hhost, hhead, small_lt_bound (n := 80) (by decide)⟩

theorem ParsedRequest.Forwardable.withClientIp {p : ParsedRequest} (h : p.Forwardable rt)
    (clientIp : Option Text) : ({ p with clientIp := clientIp } : ParsedRequest).Forwardable rt :=
  ⟨h.method_ne_nil, h.method_no_space, h.path, h.host, h.fields⟩

/-- A header field as the parser stores it. -/
theorem stored_of_mem_parseHeaders {headerLines : List Text} {f : Text × Text}
    (h : f ∈ (parseHeaders rt headerLines).items) :
    ∃ name value, f = (lower rt (strip name), strip value) := by
  have hget := OrderedDict.get?_of_mem_items (k := f.1) (v := f.2) h
  rw [get?_parseHeaders] at hget
  obtain ⟨line, -, hfield⟩ := List.mem_filterMap.mp (OrderedDict.mem_of_lastValue hget)
  rw [headerField, Option.map_eq_some_iff] at hfield
  obtain ⟨⟨name, value⟩, -, hf⟩ := hfield
  exact ⟨name, value, hf.symm⟩

/-- What the builder relies on. -/
theorem forwardable_of_parse {requestId : Text} {data : Bytes} {p : ParsedRequest}
    (h : parseHttpRequest rt requestId data = .ok (some p)) (hmethod : p.method ≠ txt "CONNECT") :
    p.Forwardable rt := by
  obtain ⟨head, requestLine, headerLines, target, version, -, -, hwords, hheaders, -, hdest, -,
    hhost, -⟩ := parseHttpRequest_eq_some h
  obtain ⟨hmethodBlank, htarget⟩ := splitWs_two_words hwords
  obtain ⟨hmethodNe, hne⟩ := splitWs_two_ne_nil hwords
  have hfields : ∀ f, f ∈ p.headers.items →
      ∃ name value, f = (lower rt (strip name), strip value) := by
    intro f hf
    rw [hheaders] at hf
    exact stored_of_mem_parseHeaders hf
  have hvalues : ∀ f, f ∈ p.headers.items → ∃ value, f.2 = strip value := by
    intro f hf
    obtain ⟨name, value, rfl⟩ := hfields f hf
    exact ⟨value, rfl⟩
  have hok : HostOk p.host p.port ∧ ∃ path, p.path = some path ∧ PathOk path := by
    by_cases habsolute : AbsoluteTarget target
    · exact ok_of_absoluteDestination htarget habsolute hhost
        (absoluteDestination_of_destination hmethod habsolute hdest)
    · rw [destination_origin hmethod habsolute, Except.ok.injEq, Option.some.injEq] at hdest
      exact ok_of_originDestination hne htarget habsolute hvalues hhost hdest
  exact ⟨hmethodNe, hmethodBlank, hok.2, hok.1, hfields⟩

end Parsed

/-! ## What is read from the outbound request -/

section Outbound

variable {rt : PyRuntime} {p : ParsedRequest}

/-- The lines of a head are read as they were written. -/
theorem lines_encoded {ls : List Text} (hne : ls ≠ []) (hone : ∀ l, l ∈ ls → OneLine l) :
    lines (decodeIgnore (joinPair 13 10 (ls.map encode) ++ headerTerminator)) =
      ls ++ [[], []] := by
  have hencode : joinPair 13 10 (ls.map encode) = encode (joinPair '\r' '\n' ls) :=
    (encode_joinPair (a := '\r') (b := '\n') (by decide) (by decide) ls).symm
  have hend : decodeIgnore headerTerminator = '\r' :: '\n' :: txt "\r\n" := by decide
  rw [hencode, decodeIgnore_encode_append, hend, lines, splitPair_append_sep (by decide),
    splitPair_joinPair (by decide) hne hone]
  rfl

theorem lines_outbound (hp : p.Clean) (hip : ∀ s, p.clientIp = some s → OneLine s) :
    lines (decodeIgnore (joinPair 13 10 (p.outLines.map encode) ++ headerTerminator)) =
      p.outLines ++ [[], []] :=
  lines_encoded (List.cons_ne_nil _ _) fun _ hl => (outLines_ok hp hip hl).2

/-- How the parser reads a field of the builder. -/
def reread (rt : PyRuntime) (f : Text × Text) : Text × Text := (lower rt (strip f.1), strip f.2)

theorem headerField_headerLine {f : Text × Text} (hname : ':' ∉ f.1) :
    headerField rt (headerLine f) = some (reread rt f) := by
  have hline : headerLine f = f.1 ++ ':' :: ' ' :: f.2 := by
    rw [headerLine, List.append_assoc]
    rfl
  have hvalue : strip (' ' :: f.2) = strip f.2 := stripBy_cons_of_pos (by decide) f.2
  rw [headerField, hline, splitFirst_append hname, Option.map_some, hvalue, reread]

/-- The header dictionary that is read from the outbound request. -/
theorem get?_outbound (rt : PyRuntime) (hp : p.Clean)
    (hip : ∀ s, p.clientIp = some s → OneLine s) (name : Text) :
    (parseHeaders rt (p.outFields.map headerLine ++ [[], []])).get? name =
      OrderedDict.lastValue name (p.outFields.map (reread rt)) := by
  have hfields : (p.outFields.map headerLine ++ [[], []]).filterMap (headerField rt) =
      p.outFields.map (reread rt) := by
    have hempty : ([[], []] : List Text).filterMap (headerField rt) = [] := rfl
    rw [List.filterMap_append, hempty, List.append_nil, List.filterMap_map,
      ← List.filterMap_eq_map]
    exact List.filterMap_congr fun f hf =>
      headerField_headerLine (outFieldOk_of_mem hp hip hf).name_colon
  rw [get?_parseHeaders, hfields]

theorem reread_stored (hsigma : rt.SmallSigmas) (name value : Text) :
    reread rt (lower rt (strip name), strip value) = (lower rt (strip name), strip value) := by
  rw [reread, strip_lower (strip_strip name), lower_lower hsigma, strip_strip]

theorem reread_keptFields (hsigma : rt.SmallSigmas) (hf : p.Forwardable rt) :
    p.keptFields.map (reread rt) = p.keptFields := by
  refine (List.map_congr_left fun f hmem => ?_).trans (List.map_id _)
  obtain ⟨name, value, rfl⟩ := hf.fields f (List.mem_of_mem_filter hmem)
  exact reread_stored hsigma name value

/-- The names of the fields the builder adds behind those of the client. -/
def appendedNames : List Text := [txt "connection", txt "x-forwarded-for", txt "via"]

theorem reread_name {f : Text × Text} {name : Text} (hf : f.1 = name)
    (hascii : ∀ c, c ∈ name → c.toNat < 128) (hstrip : strip name = name) :
    (reread rt f).1 = name.map Char.toLower := by
  rw [reread, hf, hstrip, lower_of_ascii hascii]

theorem appended_cases {f : Text × Text}
    (hf : f ∈ [(txt "Connection", txt "close")] ++ p.forwardedFor ++
      [(txt "Via", txt "1.1 proxy")]) :
    f.1 = txt "Connection" ∨ f.1 = txt "X-Forwarded-For" ∨ f.1 = txt "Via" := by
  simp only [List.mem_append, List.mem_singleton] at hf
  rcases hf with (rfl | hf) | rfl
  · exact Or.inl rfl
  · exact Or.inr (Or.inl (forwardedFor_name hf))
  · exact Or.inr (Or.inr rfl)

theorem appended_name {f : Text × Text}
    (hf : f ∈ [(txt "Connection", txt "close")] ++ p.forwardedFor ++
      [(txt "Via", txt "1.1 proxy")]) :
    (reread rt f).1 ∈ appendedNames := by
  rcases appended_cases hf with hname | hname | hname
  · rw [reread_name hname (toNat_lt_of_all rfl) (by decide)]
    decide
  · rw [reread_name hname (toNat_lt_of_all rfl) (by decide)]
    decide
  · rw [reread_name hname (toNat_lt_of_all rfl) (by decide)]
    decide

/-- The fields of the client stand behind the `Host` field. -/
theorem outFields_eq (p : ParsedRequest) :
    p.outFields = p.hostField :: p.keptFields ++ ([(txt "Connection", txt "close")] ++
      p.forwardedFor ++ [(txt "Via", txt "1.1 proxy")]) := by
  rw [ParsedRequest.outFields]
  simp

/-- The fields of the outbound request with a given name, as they are read. -/
theorem filter_reread (hsigma : rt.SmallSigmas) (hf : p.Forwardable rt) {name : Text}
    (hname : name ∉ appendedNames) :
    (p.outFields.map (reread rt)).filter (fun f => f.1 = name) =
      (if name = txt "host" then [(txt "host", strip p.hostField.2)] else []) ++
        p.keptFields.filter (fun f => f.1 = name) := by
  have hhost : reread rt p.hostField = (txt "host", strip p.hostField.2) := by
    have hcapital : p.hostField.1 = txt "Host" := rfl
    have hlower : (reread rt p.hostField).1 = txt "host" :=
      reread_name hcapital (toNat_lt_of_all rfl) (by decide)
    exact Prod.ext hlower rfl
  have happended : (([(txt "Connection", txt "close")] ++ p.forwardedFor ++
      [(txt "Via", txt "1.1 proxy")]).map (reread rt)).filter (fun f => f.1 = name) = [] := by
    rw [List.filter_eq_nil_iff]
    intro g hg hread
    obtain ⟨f, hmem, rfl⟩ := List.mem_map.mp hg
    exact hname (of_decide_eq_true hread ▸ appended_name hmem)
  rw [outFields_eq, List.map_append, List.map_cons, hhost, reread_keptFields hsigma hf,
    List.filter_append, happended, List.append_nil, List.filter_cons]
  by_cases hn : name = txt "host"
  · rw [if_pos hn, if_pos (by simp [hn])]
    rfl
  · rw [if_neg hn, if_neg (by simpa using fun h => hn h.symm)]
    rfl

theorem get?_host_outbound (hsigma : rt.SmallSigmas) (hf : p.Forwardable rt) :
    OrderedDict.lastValue (txt "host") (p.outFields.map (reread rt)) =
      some (strip p.hostField.2) := by
  have hkept : p.keptFields.filter (fun f => f.1 = txt "host") = [] := by
    rw [List.filter_eq_nil_iff]
    intro f hmem hhost
    have hdropped := (List.mem_filter.mp hmem).2
    rw [of_decide_eq_true hhost] at hdropped
    simp at hdropped
  rw [OrderedDict.lastValue, filter_reread hsigma hf (by decide), hkept, if_pos rfl]
  rfl

/-- Every other value is read as it was. -/
theorem get?_kept_outbound (hsigma : rt.SmallSigmas) (hf : p.Forwardable rt) {name : Text}
    (hname : name ∉ builderNames) :
    OrderedDict.lastValue name (p.outFields.map (reread rt)) = p.headers.get? name := by
  have hbuilder : name ∉ hopByHopHeaders ∧ name ∉ [txt "host", txt "x-forwarded-for",
      txt "via"] := by
    rwa [builderNames, List.mem_append, not_or] at hname
  have hhost : name ≠ txt "host" := fun h => hbuilder.2 (by simp [h])
  have happended : name ∉ appendedNames := by
    intro hmem
    rcases List.mem_cons.mp hmem with rfl | hmem
    · exact hbuilder.1 (by decide)
    · exact hbuilder.2 (List.mem_cons_of_mem _ hmem)
  have hkept : p.keptFields.filter (fun f => f.1 = name) =
      p.headers.items.filter (fun f => f.1 = name) := by
    rw [ParsedRequest.keptFields, List.filter_filter]
    refine List.filter_congr fun f _ => ?_
    by_cases hn : f.1 = name
    · simp [hn, hbuilder.1, hhost]
    · simp [hn]
  rw [OrderedDict.lastValue, filter_reread hsigma hf happended, if_neg hhost, List.nil_append,
    hkept, filter_key_eq p.headers.nodup, OrderedDict.get?]
  cases findItem name p.headers.items <;> rfl

end Outbound

/-! ## The destination -/

section Destination

variable {rt : PyRuntime} {p : ParsedRequest}

/-- With the port behind it, the host is read as it is. -/
theorem hostHeaderDestination_with_port {host : Text} {port : ℤ} (h : HostOk host port) :
    hostHeaderDestination rt (strip (host ++ ':' :: showInt port)) = (host, port) := by
  have hdigits : ∀ c, c ∈ showInt port → isSpace c = false ∧ c ≠ ':' := by
    intro c hc
    refine ⟨not_isSpace_of_mem_showInt hc, ?_⟩
    rintro rfl
    exact (mem_showInt hc).elim (by decide) (by decide)
  have hstrip : strip (host ++ ':' :: showInt port) = host ++ ':' :: showInt port := by
    refine stripBy_eq_self (fun c hc => ?_) (fun c hc => ?_)
    · rw [List.head?_append_of_ne_nil _ h.ne_nil] at hc
      exact h.head c hc
    · rw [List.getLast?_append_of_ne_nil _ (List.cons_ne_nil _ _)] at hc
      rcases List.mem_cons.mp (List.mem_of_getLast? hc) with rfl | hmem
      · decide
      · exact (hdigits c hmem).1
  have hcolon : ':' ∉ showInt port := fun hc => (hdigits ':' hc).2 rfl
  rw [hstrip, hostHeaderDestination, splitLast_append hcolon]
  dsimp only
  rw [parseInt_showInt rt h.port_lt]

/-- Where the host stands alone, it is read as it is exactly if it has no blanks at its
ends and no integer behind its last colon; the port is then 80. -/
theorem hostHeaderDestination_alone {host : Text} {port : ℤ} :
    hostHeaderDestination rt (strip host) = (host, port) ↔
      port = 80 ∧ strip host = host ∧
        ∀ name digits, splitLast ':' host = some (name, digits) → parseInt rt digits = none := by
  rcases hostHeaderDestination_cases rt (strip host) with
    ⟨pre, digits, n, hsplit, hn, hread⟩ | ⟨hnone, hread⟩
  · rw [hread]
    constructor
    · intro heq
      obtain ⟨rfl, -⟩ := Prod.mk.inj heq
      have hlength := (stripBy_isInfix isSpace pre).length_le
      rw [← strip, (splitLast_eq_some hsplit).1, List.length_append, List.length_cons] at hlength
      omega
    · rintro ⟨-, hstrip, hnone⟩
      rw [hstrip] at hsplit
      rw [hnone pre digits hsplit] at hn
      cases hn
  · rw [hread]
    constructor
    · intro heq
      obtain ⟨hstrip, rfl⟩ := Prod.mk.inj heq
      refine ⟨rfl, hstrip, ?_⟩
      rwa [hstrip] at hnone
    · rintro ⟨rfl, hstrip, -⟩
      rw [hstrip]

/-- The destination is read from the `Host` field as it was exactly if the field names
it. -/
theorem hostField_iff (rt : PyRuntime) (h : HostOk p.host p.port) :
    hostHeaderDestination rt (strip p.hostField.2) = (p.host, p.port) ↔
      NamesDestination rt p := by
  have hfield : p.hostField.2 =
      if p.port = 80 ∨ p.port = 443 then p.host else p.host ++ ':' :: showInt p.port := rfl
  rw [hfield, NamesDestination]
  by_cases hport : p.port = 80 ∨ p.port = 443
  · rw [if_pos hport, hostHeaderDestination_alone]
    constructor
    · rintro ⟨heighty, hhost⟩
      exact ⟨by omega, fun _ => hhost⟩
    · rintro ⟨hne, hhost⟩
      have heighty : p.port = 80 := hport.resolve_right hne
      exact ⟨heighty, hhost heighty⟩
  · rw [if_neg hport]
    rw [not_or] at hport
    refine ⟨fun _ => ⟨hport.2, fun h80 => absurd h80 hport.1⟩, fun _ => ?_⟩
    exact hostHeaderDestination_with_port h

end Destination

/-! ## Chaining -/

section Chaining

variable {rt : PyRuntime} {p : ParsedRequest}

theorem strip_hostField_ne_nil (h : HostOk p.host p.port) : strip p.hostField.2 ≠ [] := by
  obtain ⟨c, host, hcons⟩ := List.exists_cons_of_ne_nil h.ne_nil
  have hblank : isSpace c = false := h.head c (by rw [hcons, List.head?_cons])
  have hmem : c ∈ p.hostField.2 := by
    rw [ParsedRequest.hostField]
    dsimp only
    split
    · rw [hcons]
      exact List.mem_cons_self
    · rw [hcons]
      exact List.mem_cons_self
  exact stripBy_ne_nil hmem hblank

theorem splitWs_requestLine {path : Text} (hf : p.Forwardable rt) (hpath : p.path = some path)
    (hok : PathOk path) :
    splitWs isSpace 2 p.requestLine = [p.method, path, txt "HTTP/1.1"] := by
  have hline : p.requestLine = p.method ++ ' ' :: (path ++ ' ' :: txt "HTTP/1.1") := by
    rw [ParsedRequest.requestLine, hpath, List.append_assoc]
    rfl
  have hblank : isSpace ' ' = true := by decide
  rw [hline, splitWs_succ_append 1 _ hf.method_ne_nil hf.method_no_space hblank,
    splitWs_cons_of_pos hblank, splitWs_succ_append 0 _ hok.ne_nil hok.no_space hblank,
    splitWs_cons_of_pos hblank]
  rfl

/-- What the parser makes of the outbound request. -/
theorem parse_outbound (hsigma : rt.SmallSigmas) (hp : p.Clean) (hf : p.Forwardable rt)
    (hip : ∀ s, p.clientIp = some s → OneLine s) (hmethod : p.method ≠ txt "CONNECT")
    (requestId : Text) :
    ∃ headers : OrderedDict Text Text,
      (∀ name, name ∉ builderNames → headers.get? name = p.headers.get? name) ∧
      parseHttpRequest rt requestId (buildOutboundRequest p) =
        .ok (if (hostHeaderDestination rt (strip p.hostField.2)).1 = [] then none
          else some
            { method := p.method
              host := (hostHeaderDestination rt (strip p.hostField.2)).1
              port := (hostHeaderDestination rt (strip p.hostField.2)).2
              path := p.path
              headers := headers
              contentLength := contentLengthOf rt headers
              body := p.outBody
              requestId := requestId
              raw := buildOutboundRequest p
              clientIp := none }) := by
  obtain ⟨path, hpath, hok⟩ := hf.path
  have hget (name : Text) := get?_outbound rt hp hip name
  have hhost := hget (txt "host")
  rw [get?_host_outbound hsigma hf] at hhost
  have hvalue : strip p.hostField.2 ≠ [] := strip_hostField_ne_nil hf.host
  refine ⟨parseHeaders rt (p.outFields.map headerLine ++ [[], []]), fun name hname => ?_, ?_⟩
  · rw [hget name, get?_kept_outbound hsigma hf hname]
  · have hdest : destination rt p.method path
        (parseHeaders rt (p.outFields.map headerLine ++ [[], []])) =
          .ok (some (some (hostHeaderDestination rt (strip p.hostField.2)).1,
            (hostHeaderDestination rt (strip p.hostField.2)).2, some path)) := by
      rw [destination_origin hmethod hok.origin_form, originDestination, if_neg hok.ne_nil, hhost]
      split
      · rename_i hnone
        cases hnone
      · rename_i hnil
        exact absurd (Option.some.inj hnil) hvalue
      · rename_i hsome
        cases hsome
        rfl
    rw [parseHttpRequest, breakOn_outbound hp hip]
    dsimp only
    rw [lines_outbound hp hip, ParsedRequest.outLines, List.cons_append]
    dsimp only
    rw [splitWs_requestLine hf hpath hok]
    dsimp only
    rw [hdest, hpath]
    split <;> simp_all

/-- **Chaining.**  A request is read by the next proxy as this one read it exactly if its
`Host` field names the destination. -/
theorem chaining_iff (hsigma : rt.SmallSigmas) {requestId : Text} {data : Bytes}
    (h : parseHttpRequest rt requestId data = .ok (some p)) (hmethod : p.method ≠ txt "CONNECT")
    (client : Option IPv4) (requestId' : Text) :
    SurvivesChaining rt requestId' { p with clientIp := client.map IPv4.text } ↔
      NamesDestination rt p := by
  have hclean := clean_of_parse h
  have hforward := forwardable_of_parse h hmethod
  have hip := oneLine_clientIp client
  have hp := hclean.withClientIp (client.map IPv4.text)
  have hf := hforward.withClientIp (client.map IPv4.text)
  obtain ⟨headers, hheaders, hparse⟩ := parse_outbound hsigma hp hf hip hmethod requestId'
  have hiff := hostField_iff rt hf.host
  rw [SurvivesChaining, hparse]
  constructor
  · rintro ⟨q, hq, hsame⟩
    split at hq
    · cases hq
    · cases hq
      exact hiff.mp (Prod.ext hsame.host_eq hsame.port_eq)
  · intro hnames
    have hread := hiff.mpr hnames
    rw [if_neg (by rw [hread]; exact hf.host.ne_nil)]
    exact ⟨_, rfl, rfl, rfl, congrArg Prod.fst hread, congrArg Prod.snd hread, hheaders⟩

/-- A request to a port of its own, with a header that is kept. -/
def portRequest : Bytes := ascii "GET http://h:8080/x?y HTTP/1.1\r\nAccept: b\r\n\r\n"

def portParsed : ParsedRequest where
  method := txt "GET"
  host := txt "h"
  port := 8080
  path := some (txt "/x?y")
  headers := OrderedDict.empty.set (txt "accept") (txt "b")
  contentLength := none
  body := []
  requestId := []
  raw := portRequest
  clientIp := none

theorem chaining_iff_port :
    parseHttpRequest asciiRuntime [] portRequest = .ok (some portParsed) ∧
      SurvivesChaining asciiRuntime []
        { portParsed with clientIp := some (IPv4.text ⟨10, 0, 0, 1⟩) } := by
  have hparse : parseHttpRequest asciiRuntime [] portRequest = .ok (some portParsed) := rfl
  have hsigma : asciiRuntime.SmallSigmas := ⟨by decide, by decide⟩
  have hnames : NamesDestination asciiRuntime portParsed :=
    ⟨by decide, fun h => absurd h (by decide)⟩
  exact ⟨hparse, (chaining_iff hsigma hparse (by decide) (some ⟨10, 0, 0, 1⟩) []).mpr hnames⟩

/-- A request to a server that speaks TLS. -/
def httpsRequest : Bytes := ascii "GET https://h/ HTTP/1.1\r\n\r\n"

def httpsParsed : ParsedRequest where
  method := txt "GET"
  host := txt "h"
  port := 443
  path := some (txt "/")
  headers := OrderedDict.empty
  contentLength := none
  body := []
  requestId := []
  raw := httpsRequest
  clientIp := none

/-- It goes to port 443 from the first proxy, and would go to port 80 from the second. -/
theorem https_port_is_lost :
    parseHttpRequest asciiRuntime [] httpsRequest = .ok (some httpsParsed) ∧
      httpsParsed.method ≠ txt "CONNECT" ∧
      (∃ q, parseHttpRequest asciiRuntime [] (buildOutboundRequest httpsParsed) = .ok (some q) ∧
        q.host = httpsParsed.host ∧ q.port = 80) ∧
      ¬ SurvivesChaining asciiRuntime [] httpsParsed := by
  have hport {q : ParsedRequest} (hq : parseHttpRequest asciiRuntime []
      (buildOutboundRequest httpsParsed) = .ok (some q)) :
      q.host = httpsParsed.host ∧ q.port = 80 := by
    cases hq
    exact ⟨by decide, by decide⟩
  have hparse : ∃ q, parseHttpRequest asciiRuntime []
      (buildOutboundRequest httpsParsed) = .ok (some q) := ⟨_, rfl⟩
  obtain ⟨q, hq⟩ := hparse
  refine ⟨rfl, by decide, ⟨q, hq, hport hq⟩, ?_⟩
  rintro ⟨q', hq', hsame⟩
  have hkept : (80 : ℤ) = 443 := (hport hq').2.symm.trans hsame.port_eq
  omega

end Chaining

end Http
end NetworkProxy
