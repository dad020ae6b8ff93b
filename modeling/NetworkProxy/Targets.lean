import NetworkProxy.PyTextLaws
import NetworkProxy.RequestHead

/-!
# Unusable targets

Each form of a target has its own way of being unusable.  For two of them the parser answers
with `None`; in the absolute form the attributes of `urlparse` raise.

`never_raises_iff`: the requests on which `parse_http_request` returns, and refuses what is
unusable.
-/

namespace NetworkProxy
namespace Http

open Py

/-- The authority of an absolute URI. -/
def authorityOf (target : Text) : Text :=
  (splitNetloc ((target.dropWhile (fun c => c != '/')).drop 2)).1

/-- An authority `urlparse` and its attribute `port` accept: its brackets come in pairs around
an address, its normal form has no delimiter, and its port is empty or a decimal up to 65535. -/
structure ReadableAuthority (rt : PyRuntime) (authority : Text) : Prop where
  paired : '[' ∈ authority ↔ ']' ∈ authority
  bracketed : '[' ∈ authority →
    rt.bracketedHostError (partition ']' (partition '[' authority).2).1 = none
  normalized : checkNetloc rt authority = .ok ()
  port : (hostinfo authority).2 = [] ∨
    (hostinfo authority).2.all Char.isDigit = true ∧
      ∃ n, parseDigits (hostinfo authority).2 = some n ∧ n ≤ 65535

/-- A target that names a host and a port. -/
def UsableTarget (rt : PyRuntime) (r : RequestHead) : Prop :=
  if r.method = txt "CONNECT" then
    ∃ host portText port, splitLast ':' r.target = some (host, portText) ∧
      parseInt rt portText = some port ∧ host ≠ []
  else if AbsoluteTarget r.target then
    ReadableAuthority rt (authorityOf r.target) ∧ (hostinfo (authorityOf r.target)).1 ≠ []
  else
    ∃ value, (parseHeaders rt r.headerLines).get? (txt "host") = some value ∧
      (hostHeaderDestination rt value).1 ≠ []

section Usable

variable {rt : PyRuntime}

theorem authorityOf_append {scheme rest : Text}
    (hscheme : scheme = txt "http" ∨ scheme = txt "https") :
    authorityOf (scheme ++ txt "://" ++ rest) = (splitNetloc rest).1 := by
  rcases hscheme with rfl | rfl <;> rfl

theorem mem_authorityOf {target : Text} {c : Char} (h : c ∈ authorityOf target) : c ∈ target :=
  (List.dropWhile_suffix _).subset (List.mem_of_mem_drop (mem_splitNetloc (Or.inl h)))

theorem checkBrackets_eq_ok_iff {authority : Text} :
    checkBrackets rt authority = .ok () ↔
      ('[' ∈ authority ↔ ']' ∈ authority) ∧
        ('[' ∈ authority →
          rt.bracketedHostError (partition ']' (partition '[' authority).2).1 = none) := by
  rw [checkBrackets]
  by_cases hopen : '[' ∈ authority
  · by_cases hclose : ']' ∈ authority
    · rw [if_neg (by simp [hopen, hclose]), if_pos hopen]
      cases rt.bracketedHostError (partition ']' (partition '[' authority).2).1 with
      | none => simp [hopen, hclose]
      | some message => simp [hopen]
    · rw [if_pos (Or.inl ⟨hopen, hclose⟩)]
      simp [hopen, hclose]
  · by_cases hclose : ']' ∈ authority
    · rw [if_pos (Or.inr ⟨hclose, hopen⟩)]
      simp [hopen, hclose]
    · rw [if_neg (by simp [hopen, hclose]), if_neg hopen]
      simp [hopen, hclose]

/-- The attribute `port` is read, or raises. -/
theorem exists_port_iff {url : ParseResult} :
    (∃ port, url.port rt = .ok port) ↔
      (hostinfo url.netloc).2 = [] ∨
        (hostinfo url.netloc).2.all Char.isDigit = true ∧
          ∃ n, parseDigits (hostinfo url.netloc).2 = some n ∧ n ≤ 65535 := by
  rw [ParseResult.port]
  cases hport : (hostinfo url.netloc).2 with
  | nil => simp
  | cons c port =>
      dsimp only
      cases hdigits : (c :: port).all Char.isDigit with
      | false => simp
      | true =>
          cases hn : parseDigits (c :: port) with
          | none => simp
          | some n =>
              by_cases hle : n ≤ 65535
              · simp [hle]
              · simp [hle]

/-- The destination is read if `urlparse` and `port` do not raise. -/
theorem exists_absoluteDestination_iff {target : Text} :
    (∃ d, absoluteDestination rt target = .ok d) ↔
      ∃ url, urlparse rt target = .ok url ∧ ∃ port, url.port rt = .ok port := by
  rw [absoluteDestination]
  cases urlparse rt target with
  | error message => simp
  | ok url =>
      dsimp only
      cases hport : url.port rt with
      | error message => simp [hport]
      | ok port => simp [hport]

/-- When an absolute URI is read. -/
theorem readableAuthority_iff {target : Text} (habsolute : AbsoluteTarget target)
    (hblank : ∀ c, c ∈ target → isSpace c = false) :
    (∃ d, absoluteDestination rt target = .ok d) ↔ ReadableAuthority rt (authorityOf target) := by
  obtain ⟨scheme, rest, rfl, hscheme⟩ := exists_of_absoluteTarget habsolute
  have hok (url : ParseResult) : urlparse rt (scheme ++ txt "://" ++ rest) = .ok url ↔ _ :=
    urlparse_http_eq_ok_iff hscheme fun c hc => hblank c (List.mem_append_right _ hc)
  rw [authorityOf_append hscheme, exists_absoluteDestination_iff]
  constructor
  · rintro ⟨url, hurl, hport⟩
    obtain ⟨rfl, hbrackets, hnormal⟩ := (hok url).mp hurl
    obtain ⟨hpaired, hbracketed⟩ := checkBrackets_eq_ok_iff.mp hbrackets
    exact ⟨hpaired, hbracketed, hnormal, exists_port_iff.mp hport⟩
  · intro h
    have hbrackets := checkBrackets_eq_ok_iff.mpr ⟨h.paired, h.bracketed⟩
    exact ⟨_, (hok _).mpr ⟨rfl, hbrackets, h.normalized⟩, exists_port_iff.mpr h.port⟩

/-- Host and port of an absolute URI that is read. -/
theorem of_absoluteDestination {target : Text} {host : Option Text} {port : ℤ}
    {path : Option Text} (habsolute : AbsoluteTarget target)
    (hblank : ∀ c, c ∈ target → isSpace c = false)
    (h : absoluteDestination rt target = .ok (host, port, path)) :
    (∃ url : ParseResult, url.netloc = authorityOf target ∧ url.hostname rt = host) ∧
      0 ≤ port ∧ port ≤ 65535 := by
  obtain ⟨scheme, rest, rfl, hscheme⟩ := exists_of_absoluteTarget habsolute
  obtain ⟨url, hurl, hhost, hrange, -⟩ := absoluteDestination_eq_ok h
  obtain ⟨rfl, -⟩ := (urlparse_http_eq_ok_iff hscheme
    fun c hc => hblank c (List.mem_append_right _ hc)).mp hurl
  exact ⟨⟨_, (authorityOf_append hscheme).symm, hhost⟩, hrange⟩

theorem hostinfo_ne_nil_of_hostname {url : ParseResult} {host : Text}
    (h : url.hostname rt = some host) : (hostinfo url.netloc).1 ≠ [] := by
  intro hnil
  rw [ParseResult.hostname, hnil] at h
  cases h

/-- An accepted target is usable. -/
theorem usableTarget_of_destination {r : RequestHead} {host : Text} {port : ℤ}
    {path : Option Text} (hblank : ∀ c, c ∈ r.target → isSpace c = false)
    (h : destination rt r.method r.target (parseHeaders rt r.headerLines) =
      .ok (some (some host, port, path))) (hhost : host ≠ []) : UsableTarget rt r := by
  rw [UsableTarget]
  split
  · rename_i hmethod
    rw [destination_connect hmethod, Except.ok.injEq] at h
    obtain ⟨portText, hsplit, hport, -⟩ := connectDestination_eq_some h
    exact ⟨host, portText, port, hsplit, hport, hhost⟩
  · rename_i hmethod
    split
    · rename_i habsolute
      have hread := absoluteDestination_of_destination hmethod habsolute h
      obtain ⟨⟨url, hnetloc, hname⟩, -⟩ := of_absoluteDestination habsolute hblank hread
      refine ⟨(readableAuthority_iff habsolute hblank).mp ⟨_, hread⟩, ?_⟩
      rw [← hnetloc]
      exact hostinfo_ne_nil_of_hostname hname
    · rename_i hform
      rw [destination_origin hmethod hform, Except.ok.injEq, Option.some.injEq] at h
      obtain ⟨value, hget, hvalue, -⟩ := originDestination_eq h
      exact ⟨value, hget, by rw [hvalue]; exact hhost⟩

end Usable

/--
**When the parser does not raise.**  `parse_http_request` returns on a byte string, and returns
`None` if the target is unusable, exactly if the authority of an absolute URI can be read.
-/
theorem never_raises_iff (rt : PyRuntime) (requestId : Text) (data : Bytes) :
    ((∃ result, parseHttpRequest rt requestId data = .ok result) ∧
      ∀ r, requestHead data = some r → ¬ UsableTarget rt r →
        parseHttpRequest rt requestId data = .ok none) ↔
      ∀ r, requestHead data = some r → r.method ≠ txt "CONNECT" → AbsoluteTarget r.target →
        ReadableAuthority rt (authorityOf r.target) := by
  have hblank : ∀ r, requestHead data = some r → ∀ c, c ∈ r.target → isSpace c = false := by
    intro r hr
    obtain ⟨_, _, _, _, -, -, hwords⟩ := requestHead_eq_some hr
    exact (splitWs_two_words hwords).2
  constructor
  · rintro ⟨⟨result, hresult⟩, -⟩ r hr hmethod habsolute
    refine (readableAuthority_iff habsolute (hblank r hr)).mp ?_
    cases hd : absoluteDestination rt r.target with
    | ok d => exact ⟨d, rfl⟩
    | error message =>
        have hdest : destination rt r.method r.target (parseHeaders rt r.headerLines) =
            .error message := by
          rw [destination_absolute hmethod habsolute, hd]
          rfl
        rcases parse_cases rt requestId hr with
          ⟨_, hraise, -⟩ | ⟨-, d, hok, -⟩ | ⟨p, -, hok, -⟩
        · rw [hresult] at hraise
          cases hraise
        · rw [hdest] at hok
          cases hok
        · rw [hdest] at hok
          cases hok
  · intro hreadable
    cases hr : requestHead data with
    | none =>
        exact ⟨⟨none, parse_of_requestHead_eq_none hr⟩, nofun⟩
    | some r =>
        rcases parse_cases rt requestId hr with
          ⟨message, -, hdest⟩ | ⟨hnone, -⟩ | ⟨p, haccept, hdest, hhost⟩
        · obtain ⟨hmethod, habsolute, herror⟩ := destination_eq_error hdest
          obtain ⟨d, hd⟩ := (readableAuthority_iff habsolute (hblank r hr)).mpr
            (hreadable r hr hmethod habsolute)
          rw [herror] at hd
          cases hd
        · exact ⟨⟨none, hnone⟩, fun _ _ _ => hnone⟩
        · refine ⟨⟨some p, haccept⟩, ?_⟩
          rintro _ ⟨⟩ hunusable
          exact absurd (usableTarget_of_destination (hblank r hr) hdest hhost) hunusable

/-- A port that is too large. -/
def farPort : Bytes := ascii "GET http://h:99999/ HTTP/1.1\r\n\r\n"

/-- The attribute `port` raises, and nothing catches it. -/
theorem large_port_raises :
    parseHttpRequest asciiRuntime [] farPort = .error (txt "Port out of range 0-65535") ∧
      ¬ ∀ (rt : PyRuntime) (requestId : Text) (data : Bytes),
        ∃ result, parseHttpRequest rt requestId data = .ok result := by
  have hraise : parseHttpRequest asciiRuntime [] farPort =
      .error (txt "Port out of range 0-65535") := rfl
  refine ⟨hraise, fun hclaim => ?_⟩
  obtain ⟨result, hresult⟩ := hclaim asciiRuntime [] farPort
  rw [hraise] at hresult
  cases hresult

end Http
end NetworkProxy
