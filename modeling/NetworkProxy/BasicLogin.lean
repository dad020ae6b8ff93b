import NetworkProxy.Provisioning
import NetworkProxy.RequestHead

/-!
# Logging in with Basic credentials

From the bytes of a request to the answer of `verify_password`.  The user name
and the password stand in one header line, behind base64, UTF-8 and two splits at
the first colon; the parser strips and lower-cases what is around them and must
leave them alone.

`checkAuth_of_onlyBasicLine`: the registry is asked for exactly the user name and
the password that were encoded.
-/

namespace NetworkProxy
namespace Proxy

open Py Http Auth

/-- `Basic`, one blank and the encoded credentials; the scheme is spelled in any case. -/
def basicValue (scheme username password : Text) : Text :=
  scheme ++ ' ' :: b64encode (encode (username ++ ':' :: password))

/-- A `Proxy-Authorization` line with Basic credentials, in any case and with any blanks around
the value. -/
def BasicLine (username password line : Text) : Prop :=
  ∃ name before scheme after,
    line = name ++ ':' :: (before ++ basicValue scheme username password ++ after) ∧
    name.map Char.toLower = txt "proxy-authorization" ∧
    scheme.map Char.toLower = txt "basic" ∧
    (∀ c, c ∈ before → isSpace c = true) ∧
    ∀ c, c ∈ after → isSpace c = true

/-- The head has such a line, and no other line names that field. -/
def OnlyBasicLine (rt : PyRuntime) (headerLines : List Text) (username password : Text) : Prop :=
  ∃ first line rest,
    headerLines = first ++ line :: rest ∧
    BasicLine username password line ∧
    ∀ other, other ∈ first ++ rest →
      ∀ value, headerField rt other ≠ some (txt "proxy-authorization", value)

/-- What `_check_auth` is to answer: `verify_password` for a registered user, else `False`. -/
def loginOutcome (rt : PyRuntime) (kdf : Pbkdf2) (users : Users) (username password : Text) :
    Outcome PyExc Bool :=
  match users.get? username with
  | none => .returned false
  | some stored =>
      match verifyPassword rt kdf password stored with
      | .ok answer => .returned answer
      | .error message => .raised (.exception message)

section Login

variable {rt : PyRuntime} {username password : Text}

/-- The value stands between its blanks as it was written. -/
theorem strip_basicValue {scheme before after : Text}
    (hscheme : scheme.map Char.toLower = txt "basic")
    (hbefore : ∀ c, c ∈ before → isSpace c = true)
    (hafter : ∀ c, c ∈ after → isSpace c = true) :
    strip (before ++ basicValue scheme username password ++ after) =
      basicValue scheme username password := by
  have hne := encodedCredentials_ne_nil username password
  obtain ⟨d, rest, hcode⟩ := List.exists_cons_of_ne_nil hne
  rw [strip, stripBy_append hbefore hafter]
  refine stripBy_eq_self (fun c hc => ?_) (fun c hc => ?_)
  · cases scheme with
    | nil => cases hscheme
    | cons s ss =>
        obtain rfl : s = c := Option.some.inj hc
        exact (of_map_toLower hscheme (by decide) List.mem_cons_self).2.1
  · rw [basicValue, hcode, List.getLast?_append, List.getLast?_cons_cons, ← hcode] at hc
    have hlast : (b64encode (encode (username ++ ':' :: password))).getLast? = some c := by
      cases hl : (b64encode (encode (username ++ ':' :: password))).getLast? with
      | none => exact absurd (List.getLast?_eq_none_iff.mp hl) hne
      | some x =>
          rw [hl, Option.some_or] at hc
          exact hc
    exact (mem_b64encode (List.mem_of_getLast? hlast)).2

/-- How the parser reads the line. -/
theorem headerField_of_basicLine (rt : PyRuntime) {line : Text}
    (h : BasicLine username password line) :
    ∃ scheme, scheme.map Char.toLower = txt "basic" ∧
      headerField rt line =
        some (txt "proxy-authorization", basicValue scheme username password) := by
  obtain ⟨name, before, scheme, after, rfl, hname, hscheme, hbefore, hafter⟩ := h
  have hletters : ∀ c, c ∈ name → c.toNat < 128 ∧ isSpace c = false ∧ c ≠ ':' :=
    fun c hc => of_map_toLower hname (by decide) hc
  have hcolon : ':' ∉ name := fun hc => (hletters ':' hc).2.2 rfl
  have hstrip : strip name = name :=
    stripBy_eq_self (fun c hc => (hletters c (List.mem_of_mem_head? hc)).2.1)
      (fun c hc => (hletters c (List.mem_of_getLast? hc)).2.1)
  refine ⟨scheme, hscheme, ?_⟩
  rw [headerField, splitFirst_append hcolon, Option.map_some, hstrip,
    strip_basicValue hscheme hbefore hafter, lower_of_ascii fun c hc => (hletters c hc).1, hname]

/-- The field in the header dictionary. -/
theorem get?_parseHeaders_of_onlyBasicLine {headerLines : List Text}
    (h : OnlyBasicLine rt headerLines username password) :
    ∃ scheme, scheme.map Char.toLower = txt "basic" ∧
      (parseHeaders rt headerLines).get? (txt "proxy-authorization") =
        some (basicValue scheme username password) := by
  obtain ⟨first, line, rest, rfl, hline, honly⟩ := h
  obtain ⟨scheme, hscheme, hfield⟩ := headerField_of_basicLine rt hline
  refine ⟨scheme, hscheme, ?_⟩
  rw [get?_parseHeaders, List.filterMap_append, List.filterMap_cons_some hfield]
  refine OrderedDict.lastValue_append_cons (fun f hf => ?_) _ _
  obtain ⟨other, hother, hread⟩ := List.mem_filterMap.mp hf
  rintro hname
  exact honly other (List.mem_append_right _ hother) f.2 (by rw [hread, ← hname])

end Login

/--
**Basic credentials decode end to end.**  For an accepted request with one
`Proxy-Authorization` line, of Basic credentials, `_check_auth` answers what
`verify_password` says of the encoded password and the stored credential of the
encoded user name, and `False` when there is no such user.
-/
theorem checkAuth_of_onlyBasicLine (cfg : HandlerConfig) (kdf : Pbkdf2)
    (env : ∀ op, Except PyExc (Ans op)) {requestId : Text} {raw : Bytes} {p : ParsedRequest}
    {head : RequestHead} {username password : Text}
    (hparse : parseHttpRequest cfg.rt requestId raw = .ok (some p))
    (hhead : requestHead raw = some head)
    (hline : OnlyBasicLine cfg.rt head.headerLines username password)
    (hcolon : ':' ∉ username) :
    ((Handler.checkAuth cfg p.headers).run (verifying cfg.rt kdf env)).2 =
      loginOutcome cfg.rt kdf cfg.users username password := by
  obtain ⟨head', hhead', -, hheaders, -⟩ := requestHead_of_parse hparse
  obtain rfl : head' = head := Option.some.inj (hhead'.symm.trans hhead)
  obtain ⟨scheme, hscheme, hfield⟩ := get?_parseHeaders_of_onlyBasicLine hline
  rw [← hheaders] at hfield
  rw [Handler.checkAuth, basicCredentials_of_scheme cfg.rt hscheme hfield hcolon, loginOutcome]
  dsimp only
  cases hstored : cfg.users.get? username with
  | none => rfl
  | some stored =>
      dsimp only
      rw [perform, Prog.perform, Prog.run, verifying]
      cases verifyPassword cfg.rt kdf password stored with
      | ok answer => rfl
      | error message => rfl

/-- The user `user` with the password `pass`, in a spelling of its own. -/
def spelledLogin : Bytes :=
  ascii "GET http://h/ HTTP/1.1\r\nproxy-AUTHORIZATION:  bAsIc dXNlcjpwYXNz \r\n\r\n"

theorem checkAuth_of_onlyBasicLine_spelled :
    ∃ p, parseHttpRequest asciiRuntime [] spelledLogin = .ok (some p) ∧
      ((Handler.checkAuth oneUser p.headers).run
        (verifying asciiRuntime copyingKdf (obliging []))).2 = .returned true := by
  have hhead : requestHead spelledLogin = some ⟨txt "GET", txt "http://h/",
      [txt "proxy-AUTHORIZATION:  bAsIc dXNlcjpwYXNz ", [], []]⟩ := rfl
  have hline : OnlyBasicLine asciiRuntime
      [txt "proxy-AUTHORIZATION:  bAsIc dXNlcjpwYXNz ", [], []] (txt "user") (txt "pass") := by
    refine ⟨[], _, _, rfl, ⟨txt "proxy-AUTHORIZATION", txt "  ", txt "bAsIc", txt " ", ?_, ?_, ?_,
      ?_, ?_⟩, ?_⟩
    · decide +kernel
    · decide
    · decide
    · exact fun c hc => List.all_eq_true.mp (by decide : (txt "  ").all isSpace = true) c hc
    · exact fun c hc => List.all_eq_true.mp (by decide : (txt " ").all isSpace = true) c hc
    · intro other hother value
      have hempty : other = [] := by simpa using hother
      subst hempty
      exact nofun
  have haccepted : ∃ p, parseHttpRequest asciiRuntime [] spelledLogin = .ok (some p) := ⟨_, rfl⟩
  have hlogin : loginOutcome asciiRuntime copyingKdf oneUser.users (txt "user") (txt "pass") =
      .returned true := rfl
  obtain ⟨p, hparse⟩ := haccepted
  refine ⟨p, hparse, ?_⟩
  rw [← hlogin]
  exact checkAuth_of_onlyBasicLine oneUser copyingKdf (obliging []) hparse hhead hline (by decide)

end Proxy
end NetworkProxy
