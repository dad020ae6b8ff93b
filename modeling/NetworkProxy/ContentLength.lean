import NetworkProxy.PyTextLaws
import NetworkProxy.RequestFraming

/-!
# The two readers of `Content-Length`

`_extract_content_length` takes the first line that begins with the name and the colon;
the parser takes the last field that its dictionary knows by this name.

`contentLength_eq_extract_iff`: when the two agree on the head of an accepted request.
-/

namespace NetworkProxy
namespace Http

open Py

section Readings

variable (rt : PyRuntime)

/-- The line begins with the name and the colon, in whatever letter case. -/
def startsContentLength (line : Text) : Bool :=
  (txt "content-length:").isPrefixOf (lower rt line)

/-- A `Content-Length` field: whether its line begins with the name and the colon, and the
integer that its value is. -/
structure LengthReading where
  plain : Bool
  length : Option ℤ

/-- The reading of a header line, if it is a `Content-Length` field of the dictionary. -/
def lengthReading (line : Text) : Option LengthReading :=
  match headerField rt line with
  | some (name, value) =>
      if name = txt "content-length" then
        some ⟨startsContentLength rt line, parseInt rt value⟩
      else none
  | none => none

def lengthReadings (headerLines : List Text) : List LengthReading :=
  headerLines.filterMap (lengthReading rt)

/-- There is no `Content-Length` field, or the last one has the integer of the first one whose
line begins with the name and the colon.  Where no line begins so there is no integer, and none
either where the request line does. -/
def ReadersAgree (requestLine : Text) (headerLines : List Text) : Prop :=
  match (lengthReadings rt headerLines).getLast? with
  | none => True
  | some last =>
      last.length =
        if startsContentLength rt requestLine then none
        else ((lengthReadings rt headerLines).find? LengthReading.plain).bind
          LengthReading.length

end Readings

section Laws

variable {rt : PyRuntime}

/-- A line that begins with the name and the colon is a field of that name. -/
theorem exists_of_startsContentLength {line : Text} (h : startsContentLength rt line = true) :
    ∃ name rest, line = name ++ ':' :: rest ∧ ':' ∉ name ∧
      lower rt name = txt "content-length" ∧ ∀ c, c ∈ name → isSpace c = false := by
  have hword : ∀ d, d ∈ txt "content-length" → d.toNat < 128 ∧ isSpace d = false := by
    have hall : (txt "content-length").all
        (fun d => decide (d.toNat < 128) && !isSpace d) = true := by decide
    intro d hd
    simpa using List.all_eq_true.mp hall d hd
  rw [startsContentLength, List.isPrefixOf_iff_prefix] at h
  obtain ⟨name, rest, rfl, hcolon, hlower, hsigma⟩ :=
    exists_of_prefix_lowerBlocks (c := ':') (by decide) (fun d hd => (hword d hd).1)
      (by decide) h
  refine ⟨name, rest, rfl, hcolon, hlower, fun c hc => ?_⟩
  obtain ⟨d, hd⟩ := List.exists_mem_of_ne_nil _ (rt.lowerChar_ne_nil c)
  have hmem : d ∈ txt "content-length" := by
    rw [← hlower, lower, lowerBlocks_of_no_sigma [] hsigma]
    exact List.mem_flatMap.mpr ⟨c, hc, hd⟩
  rw [← rt.lowerChar_space c d hd]
  exact (hword d hmem).2

/-- Both readers see such a header line, and read the same integer. -/
theorem lengthReading_of_starts {line : Text} (h : startsContentLength rt line = true) :
    lengthReading rt line =
      some ⟨true, (splitFirst ':' line).bind (fun parts => parseInt rt (strip parts.2))⟩ := by
  obtain ⟨name, rest, hline, hcolon, hlower, hblank⟩ := exists_of_startsContentLength h
  have hsplit : splitFirst ':' line = some (name, rest) := by
    rw [hline]
    exact splitFirst_append hcolon rest
  have hstrip : strip name = name :=
    stripBy_eq_self (fun c hc => hblank c (List.mem_of_mem_head? hc))
      (fun c hc => hblank c (List.mem_of_getLast? hc))
  rw [lengthReading, headerField, hsplit, Option.map_some]
  dsimp only
  rw [hstrip, hlower, if_pos rfl, h]
  rfl

/-- The first line that begins with the name, among the header lines. -/
theorem find?_startsContentLength (headerLines : List Text) :
    (match headerLines.find? (startsContentLength rt) with
      | some line => (splitFirst ':' line).bind (fun parts => parseInt rt (strip parts.2))
      | none => none) =
      ((lengthReadings rt headerLines).find? LengthReading.plain).bind LengthReading.length := by
  induction headerLines with
  | nil => rfl
  | cons line headerLines ih =>
      rw [lengthReadings, List.filterMap_cons]
      cases hstarts : startsContentLength rt line with
      | true =>
          rw [lengthReading_of_starts hstarts, List.find?_cons_of_pos hstarts]
          rfl
      | false =>
          rw [List.find?_cons_of_neg (by simp [hstarts]), ih]
          cases hreading : lengthReading rt line with
          | none => rfl
          | some reading =>
              have hplain : reading.plain = false := by
                rw [lengthReading] at hreading
                split at hreading
                · split at hreading
                  · cases hreading
                    exact hstarts
                  · cases hreading
                · cases hreading
              dsimp only
              rw [List.find?_cons_of_neg (by simp [hplain])]
              rfl

theorem map_length_lengthReadings (rt : PyRuntime) (headerLines : List Text) :
    (lengthReadings rt headerLines).map LengthReading.length =
      ((headerLines.filterMap (headerField rt)).filter
        (fun p => p.1 = txt "content-length")).map (fun p => parseInt rt p.2) := by
  induction headerLines with
  | nil => rfl
  | cons line headerLines ih =>
      rw [lengthReadings] at ih ⊢
      rw [List.filterMap_cons, List.filterMap_cons, lengthReading]
      cases hfield : headerField rt line with
      | none => exact ih
      | some field =>
          obtain ⟨name, value⟩ := field
          dsimp only
          rcases eq_or_ne name (txt "content-length") with hname | hname
          · rw [if_pos hname, List.filter_cons_of_pos (by simpa using hname)]
            rw [List.map_cons, List.map_cons, ih]
          · rw [if_neg hname, List.filter_cons_of_neg (by simpa using hname)]
            exact ih

/-- What the parser reads is the last reading. -/
theorem contentLengthOf_parseHeaders (headerLines : List Text) :
    contentLengthOf rt (parseHeaders rt headerLines) =
      (lengthReadings rt headerLines).getLast?.bind LengthReading.length := by
  have hlast := congrArg List.getLast? (map_length_lengthReadings rt headerLines)
  rw [List.getLast?_map, List.getLast?_map] at hlast
  have hjoin := congrArg (fun o => o.bind id) hlast
  simp only [Option.bind_map] at hjoin
  rw [contentLengthOf_eq, get?_parseHeaders, OrderedDict.lastValue, Option.bind_map]
  exact hjoin.symm

/-- A request line that begins with the name has no integer behind the colon, for it has
three words. -/
theorem parseInt_requestLine {requestLine method target version : Text}
    (hstarts : startsContentLength rt requestLine = true)
    (hwords : splitWs isSpace 2 requestLine = [method, target, version]) :
    (splitFirst ':' requestLine).bind (fun parts => parseInt rt (strip parts.2)) = none := by
  obtain ⟨name, rest, hline, hcolon, -, hname⟩ := exists_of_startsContentLength hstarts
  have hsplit : splitFirst ':' requestLine = some (name, rest) := by
    rw [hline]
    exact splitFirst_append hcolon rest
  rw [hsplit, Option.bind_some]
  dsimp only
  cases hint : parseInt rt (strip rest) with
  | none => rfl
  | some n =>
      exfalso
      obtain ⟨pre, post, hrest, hpre, hpost⟩ := exists_of_stripBy isSpace rest
      have hvalue : ∀ c, c ∈ stripBy isSpace rest → isSpace c = false :=
        fun c hc => not_isSpace_of_parseInt hint hc
      generalize stripBy isSpace rest = value at hrest hvalue
      subst hrest
      have hfirst : ∀ c, c ∈ name ++ [':'] → isSpace c = false := by
        intro c hc
        rcases List.mem_append.mp hc with hc | hc
        · exact hname c hc
        · rw [List.mem_singleton.mp hc]
          decide
      have hlength := congrArg List.length hwords
      cases pre with
      | nil =>
          have hone : requestLine = [] ++ (name ++ [':'] ++ value) ++ post := by
            rw [hline]
            simp
          have hone_word : ∀ c, c ∈ name ++ [':'] ++ value → isSpace c = false :=
            fun c hc => (List.mem_append.mp hc).elim (hfirst c) (hvalue c)
          have hle := length_splitWs_le_one (p := isSpace) hpre hone_word hpost 2
          rw [← hone, hlength] at hle
          simp at hle
      | cons b pre =>
          have htwo : requestLine = (name ++ [':']) ++ b :: (pre ++ value ++ post) := by
            rw [hline]
            simp
          have hle := length_splitWs_le_one (p := isSpace) hpre hvalue hpost 1
          rw [htwo, splitWs_succ_append 1 _ (by simp) hfirst (hpre b List.mem_cons_self),
            List.length_cons] at hlength
          have hlist : b :: (pre ++ value ++ post) = b :: pre ++ value ++ post := by simp
          rw [hlist] at hlength
          simp only [List.length_cons, List.length_nil] at hlength
          omega

/-- What `_extract_content_length` reads from a head. -/
theorem extractContentLength_eq {text requestLine method target version : Text}
    {headerLines : List Text} (hlines : lines text = requestLine :: headerLines)
    (hwords : splitWs isSpace 2 requestLine = [method, target, version]) :
    extractContentLength rt text =
      if startsContentLength rt requestLine then none
      else ((lengthReadings rt headerLines).find? LengthReading.plain).bind
        LengthReading.length := by
  rw [← find?_startsContentLength headerLines, extractContentLength, hlines]
  cases hstarts : startsContentLength rt requestLine with
  | true =>
      rw [if_pos rfl]
      have hfind : (requestLine :: headerLines).find?
          (fun line => (txt "content-length:").isPrefixOf (lower rt line)) = some requestLine :=
        List.find?_cons_of_pos hstarts
      rw [hfind]
      exact parseInt_requestLine hstarts hwords
  | false =>
      rw [if_neg (by decide)]
      have hfind : (requestLine :: headerLines).find?
          (fun line => (txt "content-length:").isPrefixOf (lower rt line)) =
            headerLines.find? (startsContentLength rt) :=
        List.find?_cons_of_neg (Bool.eq_false_iff.mp hstarts)
      generalize (requestLine :: headerLines).find?
        (fun line => (txt "content-length:").isPrefixOf (lower rt line)) = found at hfind ⊢
      subst hfind
      rfl

/--
**The two readers.**  For an accepted request, the length of the parser is that of
`_extract_content_length` exactly if the head has no `Content-Length` field or its last one has
the integer of the first one whose line begins with the name and the colon.
-/
theorem contentLength_eq_extract_iff (rt : PyRuntime) (requestId : Text) (data : Bytes)
    (p : ParsedRequest) (hparse : parseHttpRequest rt requestId data = .ok (some p)) :
    ∃ head requestLine headerLines,
      breakOn headerTerminator data = some (head, p.body) ∧
      lines (decodeIgnore (head ++ headerTerminator)) = requestLine :: headerLines ∧
      (p.contentLength = extractContentLength rt (decodeIgnore (head ++ headerTerminator)) ↔
        ReadersAgree rt requestLine headerLines) := by
  obtain ⟨head, requestLine, headerLines, target, version, hbreak, hlines, hwords, hheaders,
    hcl, -⟩ := parseHttpRequest_eq_some hparse
  refine ⟨head, requestLine, headerLines, hbreak, hlines, ?_⟩
  rw [hcl, hheaders, contentLengthOf_parseHeaders, extractContentLength_eq hlines hwords,
    ReadersAgree]
  cases hlast : (lengthReadings rt headerLines).getLast? with
  | some last =>
      dsimp only
      rw [Option.bind_some]
  | none =>
      rw [List.getLast?_eq_none_iff] at hlast
      rw [hlast]
      simp

/-- A single field, written plainly. -/
def plainLength : Bytes := ascii "PUT http://a/ HTTP/1.1\r\nContent-Length: 2\r\n\r\nhi"

def plainLengthRequest : ParsedRequest where
  method := txt "PUT"
  host := txt "a"
  port := 80
  path := some (txt "/")
  headers := parseHeaders asciiRuntime [txt "Content-Length: 2"]
  contentLength := some 2
  body := ascii "hi"
  requestId := []
  raw := plainLength
  clientIp := none

theorem contentLength_eq_extract_plainLength :
    ∃ head requestLine headerLines,
      breakOn headerTerminator plainLength = some (head, ascii "hi") ∧
      lines (decodeIgnore (head ++ headerTerminator)) = requestLine :: headerLines ∧
      (some 2 = extractContentLength asciiRuntime (decodeIgnore (head ++ headerTerminator)) ↔
        ReadersAgree asciiRuntime requestLine headerLines) :=
  contentLength_eq_extract_iff asciiRuntime [] plainLength plainLengthRequest rfl

/-- A blank in front of the colon. -/
def spacedLength : Bytes := ascii "PUT http://a/ HTTP/1.1\r\nContent-Length : 2\r\n\r\nhi"

def spacedLengthRequest : ParsedRequest where
  method := txt "PUT"
  host := txt "a"
  port := 80
  path := some (txt "/")
  headers := parseHeaders asciiRuntime [txt "Content-Length : 2"]
  contentLength := some 2
  body := ascii "hi"
  requestId := []
  raw := spacedLength
  clientIp := none

/-- The parser knows the length of this body, but nobody waits for it. -/
theorem spaced_length_is_not_awaited :
    ¬ ∀ (rt : PyRuntime) (requestId : Text) (data head body : Bytes) (p : ParsedRequest),
      breakOn headerTerminator data = some (head, body) →
        parseHttpRequest rt requestId data = .ok (some p) →
          p.contentLength =
            extractContentLength rt (decodeIgnore (head ++ headerTerminator)) := by
  intro hclaim
  have h := hclaim asciiRuntime [] spacedLength
    (ascii "PUT http://a/ HTTP/1.1\r\nContent-Length : 2") (ascii "hi") spacedLengthRequest rfl rfl
  have hextract : extractContentLength asciiRuntime (decodeIgnore
      (ascii "PUT http://a/ HTTP/1.1\r\nContent-Length : 2" ++ headerTerminator)) = none := rfl
  rw [hextract] at h
  cases h

end Laws

end Http
end NetworkProxy
