import NetworkProxy.Targets

/-!
# Destinations of accepted requests

A destination is usable if a socket can be told to connect to it: a port that exists and a
host without blanks and control characters.

`usable_destination_iff`: when the destination of an accepted request is usable, for each of
the three forms of a target.
-/

namespace NetworkProxy
namespace Http

open Py

/-- The control characters of Unicode. -/
def isControl (c : Char) : Bool :=
  decide (c.toNat < 32) || (decide (127 ≤ c.toNat) && decide (c.toNat ≤ 159))

/-- Control characters have no case. -/
def CaselessControls (rt : PyRuntime) : Prop :=
  ∀ c d, d ∈ rt.lowerChar c → isControl d = isControl c

def NoBlank (s : Text) : Prop := ∀ c, c ∈ s → isSpace c = false

def NoControl (s : Text) : Prop := ∀ c, c ∈ s → isControl c = false

/-- A port of TCP. -/
def PortInRange (port : ℤ) : Prop := 0 ≤ port ∧ port ≤ 65535

/-- A destination that `connect` can be given. -/
structure UsableDestination (host : Text) (port : ℤ) : Prop where
  port_inRange : PortInRange port
  host_ne_nil : host ≠ []
  host_noBlank : NoBlank host
  host_noControl : NoControl host

/-- The integer behind the last colon of a `CONNECT` target is a port, and no control character
stands in front of the colon. -/
def ConnectFits (rt : PyRuntime) (target : Text) : Prop :=
  ∀ host portText port, splitLast ':' target = some (host, portText) →
    parseInt rt portText = some port → PortInRange port ∧ NoControl host

/-- The same for a `Host` field, which may also hold blanks; without an integer behind the colon
all of it is the host. -/
structure HostFieldFits (rt : PyRuntime) (value : Text) : Prop where
  with_port : ∀ host portText port, splitLast ':' value = some (host, portText) →
    parseInt rt portText = some port → PortInRange port ∧ NoBlank host ∧ NoControl host
  alone : (∀ host portText, splitLast ':' value = some (host, portText) →
    parseInt rt portText = none) → NoBlank value ∧ NoControl value

/-- What the parser leaves open, for each form of a target. -/
def DestinationFits (rt : PyRuntime) (r : RequestHead) : Prop :=
  if r.method = txt "CONNECT" then ConnectFits rt r.target
  else if AbsoluteTarget r.target then NoControl (hostinfo (authorityOf r.target)).1
  else ∀ value, (parseHeaders rt r.headerLines).get? (txt "host") = some value →
    HostFieldFits rt value

section Forms

variable {rt : PyRuntime} {target host : Text} {port : ℤ} {path : Option Text}

/-- A property that lower-casing keeps holds of `hostname` if it holds of the host. -/
theorem all_hostname {url : ParseResult} {q : Char → Bool}
    (hq : ∀ c d, d ∈ rt.lowerChar c → q d = q c) (hsigma : q 'σ' = q 'Σ' ∧ q 'ς' = q 'Σ')
    (h : url.hostname rt = some host) : host.all q = (hostinfo url.netloc).1.all q := by
  rw [ParseResult.hostname] at h
  split at h
  · cases h
  · split at h
    · rename_i name zone hzone
      obtain ⟨hinfo, -⟩ := splitFirst_eq_some hzone
      cases h
      rw [hinfo, List.all_append, List.all_append, all_lower hq hsigma]
    · cases h
      exact all_lower hq hsigma _

theorem usable_connect_iff (hblank : NoBlank target) (hhost : host ≠ [])
    (h : connectDestination rt target = some (some host, port, path)) :
    UsableDestination host port ↔ ConnectFits rt target := by
  obtain ⟨portText, hsplit, hport, -⟩ := connectDestination_eq_some h
  obtain ⟨htarget, -⟩ := splitLast_eq_some hsplit
  constructor
  · intro husable host' portText' port' hsplit' hport'
    obtain ⟨rfl, rfl⟩ := Prod.mk.inj (Option.some.inj (hsplit.symm.trans hsplit'))
    obtain rfl := Option.some.inj (hport.symm.trans hport')
    exact ⟨husable.port_inRange, husable.host_noControl⟩
  · intro hfits
    obtain ⟨hrange, hcontrol⟩ := hfits host portText port hsplit hport
    exact ⟨hrange, hhost, fun c hc => hblank c (htarget ▸ List.mem_append_left _ hc), hcontrol⟩

theorem usable_absolute_iff (hcontrol : CaselessControls rt) (habsolute : AbsoluteTarget target)
    (hblank : NoBlank target) (hhost : host ≠ [])
    (h : absoluteDestination rt target = .ok (some host, port, path)) :
    UsableDestination host port ↔ NoControl (hostinfo (authorityOf target)).1 := by
  obtain ⟨⟨url, hnetloc, hname⟩, hrange⟩ := of_absoluteDestination habsolute hblank h
  have hspaces : NoBlank host := by
    have hall := all_hostname (q := fun c => !isSpace c)
      (fun c d hd => by rw [rt.lowerChar_space c d hd]) ⟨by decide, by decide⟩ hname
    have hinfo : (hostinfo url.netloc).1.all (fun c => !isSpace c) = true := by
      refine List.all_eq_true.mpr fun c hc => ?_
      rw [hblank c (mem_authorityOf (hnetloc ▸ mem_hostinfo hc))]
      rfl
    rw [hinfo] at hall
    exact fun c hc => by simpa using List.all_eq_true.mp hall c hc
  have hcontrols : NoControl host ↔ NoControl (hostinfo (authorityOf target)).1 := by
    have hall := all_hostname (q := fun c => !isControl c)
      (fun c d hd => by rw [hcontrol c d hd]) ⟨by decide, by decide⟩ hname
    rw [hnetloc, Bool.eq_iff_iff, List.all_eq_true, List.all_eq_true] at hall
    simpa [NoControl] using hall
  rw [← hcontrols]
  exact ⟨UsableDestination.host_noControl, fun hno => ⟨hrange, hhost, hspaces, hno⟩⟩

theorem usable_origin_iff {value : Text} (hhost : host ≠ [])
    (h : hostHeaderDestination rt value = (host, port)) :
    UsableDestination host port ↔ HostFieldFits rt value := by
  rcases hostHeaderDestination_cases rt value with
    ⟨host', portText, port', hsplit, hport, hread⟩ | ⟨hnone, hread⟩
  · obtain ⟨rfl, rfl⟩ := Prod.mk.inj (h.symm.trans hread)
    constructor
    · intro husable
      refine ⟨fun host' portText' port' hsplit' hport' => ?_, fun hnone => ?_⟩
      · obtain ⟨rfl, rfl⟩ := Prod.mk.inj (Option.some.inj (hsplit.symm.trans hsplit'))
        obtain rfl := Option.some.inj (hport.symm.trans hport')
        exact ⟨husable.port_inRange, husable.host_noBlank, husable.host_noControl⟩
      · exact absurd hport (hnone _ _ hsplit ▸ nofun)
    · intro hfits
      obtain ⟨hrange, hspace, hno⟩ := hfits.with_port _ _ _ hsplit hport
      exact ⟨hrange, hhost, hspace, hno⟩
  · obtain ⟨rfl, rfl⟩ := Prod.mk.inj (h.symm.trans hread)
    constructor
    · intro husable
      refine ⟨fun host' portText' port' hsplit' hport' => ?_, fun _ => ?_⟩
      · exact absurd hport' (hnone _ _ hsplit' ▸ nofun)
      · exact ⟨husable.host_noBlank, husable.host_noControl⟩
    · intro hfits
      obtain ⟨hspace, hno⟩ := hfits.alone hnone
      exact ⟨⟨by decide, by decide⟩, hhost, hspace, hno⟩

end Forms

/--
**Usable destinations.**  Port and host of an accepted request can be connected to exactly if the
number behind the last colon of a `CONNECT` target or of a `Host` field is a port, and what the
host is read from has no control character and, in a `Host` field, no blank.
-/
theorem usable_destination_iff (rt : PyRuntime) (hcontrol : CaselessControls rt)
    (requestId : Text) (data : Bytes) (p : ParsedRequest)
    (hparse : parseHttpRequest rt requestId data = .ok (some p)) :
    ∃ r, requestHead data = some r ∧ (UsableDestination p.host p.port ↔ DestinationFits rt r) := by
  obtain ⟨r, hr, -, hheaders, hblank, -, hdest, hhost⟩ := requestHead_of_parse hparse
  refine ⟨r, hr, ?_⟩
  rw [DestinationFits]
  split
  · rename_i hmethod
    rw [destination_connect hmethod, Except.ok.injEq] at hdest
    exact usable_connect_iff hblank hhost hdest
  · rename_i hmethod
    split
    · rename_i habsolute
      exact usable_absolute_iff hcontrol habsolute hblank hhost
        (absoluteDestination_of_destination hmethod habsolute hdest)
    · rename_i hform
      rw [destination_origin hmethod hform, Except.ok.injEq, Option.some.injEq] at hdest
      obtain ⟨value, hget, hvalue, -⟩ := originDestination_eq hdest
      rw [hheaders] at hget
      rw [usable_origin_iff hhost hvalue]
      constructor
      · intro hfits value' hget'
        obtain rfl := Option.some.inj (hget.symm.trans hget')
        exact hfits
      · exact fun hfits => hfits value hget

/-- The letters of `asciiRuntime` are none of the control characters. -/
theorem caselessControls_asciiRuntime : CaselessControls asciiRuntime := by
  intro c d hd
  change d ∈ (if c = 'Σ' then ['σ'] else [c.toLower]) at hd
  split at hd
  · rename_i hc
    subst hc
    obtain rfl := List.mem_singleton.mp hd
    decide
  · obtain rfl := List.mem_singleton.mp hd
    by_cases hup : c.isUpper = true
    · have hlower := toNat_toLower c
      rw [if_pos hup] at hlower
      have hbounds := (isUpper_iff c).mp hup
      have hc : isControl c = false := by
        simp [isControl]
        omega
      have hl : isControl c.toLower = false := by
        simp [isControl, hlower]
        omega
      rw [hc, hl]
    · rw [toLower_eq_self hup]

/-- A `CONNECT` request with a port. -/
def tunnelRequest : Bytes := ascii "CONNECT h:443 HTTP/1.1\r\n\r\n"

def tunnelParsed : ParsedRequest where
  method := txt "CONNECT"
  host := txt "h"
  port := 443
  path := none
  headers := OrderedDict.empty
  contentLength := none
  body := []
  requestId := []
  raw := tunnelRequest
  clientIp := none

theorem usable_destination_iff_tunnel : UsableDestination (txt "h") 443 := by
  obtain ⟨r, hr, hiff⟩ := usable_destination_iff asciiRuntime caselessControls_asciiRuntime []
    tunnelRequest tunnelParsed rfl
  have hhead : requestHead tunnelRequest = some ⟨txt "CONNECT", txt "h:443", [[], []]⟩ := rfl
  obtain rfl := Option.some.inj (hr.symm.trans hhead)
  refine hiff.mpr ?_
  rw [DestinationFits, if_pos rfl]
  intro host portText port hsplit hport
  have hparts : splitLast ':' (txt "h:443") = some (txt "h", txt "443") := rfl
  obtain ⟨rfl, rfl⟩ := Prod.mk.inj (Option.some.inj (hsplit.symm.trans hparts))
  have hvalue : parseInt asciiRuntime (txt "443") = some 443 := rfl
  obtain rfl := Option.some.inj (hport.symm.trans hvalue)
  refine ⟨⟨by decide, by decide⟩, fun c hc => ?_⟩
  obtain rfl := List.mem_singleton.mp hc
  rfl

/-- A `CONNECT` request whose number is no port. -/
def farTunnelRequest : Bytes := ascii "CONNECT h:99999 HTTP/1.1\r\n\r\n"

/-- The number is accepted; the `Host` field is read the same way. -/
theorem far_tunnel_is_accepted :
    ∃ p, parseHttpRequest asciiRuntime [] farTunnelRequest = .ok (some p) ∧ p.port = 99999 ∧
      ¬ UsableDestination p.host p.port := by
  refine ⟨{ tunnelParsed with port := 99999, raw := farTunnelRequest }, rfl, rfl, fun husable => ?_⟩
  exact absurd husable.port_inRange.2 (by decide)

end Http
end NetworkProxy
