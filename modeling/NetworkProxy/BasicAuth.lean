import NetworkProxy.OrderedDict
import NetworkProxy.PyUtf8

/-!
# Basic credentials

`base64.b64decode` as the standard library has it, which skips letters outside the
alphabet and stops at a complete padding, and the reading of the credentials from
the `proxy-authorization` field.
-/

namespace NetworkProxy
namespace Py

/-- The value of a letter of the base64 alphabet. -/
def base64Value (c : Char) : Option ℕ :=
  if c.isUpper then some (c.toNat - 65)
  else if c.isLower then some (c.toNat - 97 + 26)
  else if c.isDigit then some (c.toNat - 48 + 52)
  else if c = '+' then some 62
  else if c = '/' then some 63
  else none

/-- `binascii.a2b_base64`: `quadPos` letters of the present group were read, of which
`leftChar` holds the bits not written yet; `pads` padding letters follow them. -/
def a2bBase64 : Text → ℕ → ℕ → ℕ → Bytes → Option Bytes
  | [], quadPos, _, _, out => if quadPos = 0 then some out else none
  | c :: cs, quadPos, leftChar, pads, out =>
      if c = '=' then
        if 2 ≤ quadPos then
          if 4 ≤ quadPos + (pads + 1) then some out
          else a2bBase64 cs quadPos leftChar (pads + 1) out
        else a2bBase64 cs quadPos leftChar pads out
      else
        match base64Value c with
        | none => a2bBase64 cs quadPos leftChar pads out
        | some v =>
            match quadPos with
            | 0 => a2bBase64 cs 1 v 0 out
            | 1 => a2bBase64 cs 2 (v % 16) 0 (out ++ [UInt8.ofNat (leftChar * 4 + v / 16)])
            | 2 => a2bBase64 cs 3 (v % 4) 0 (out ++ [UInt8.ofNat (leftChar * 16 + v / 4)])
            | _ => a2bBase64 cs 0 0 0 (out ++ [UInt8.ofNat (leftChar * 64 + v)])

/-- `base64.b64decode`; a text that is not ASCII is refused. -/
def b64decode (s : Text) : Option Bytes :=
  if s.all (fun c => decide (c.toNat < 128)) then a2bBase64 s 0 0 0 [] else none

example : b64decode (txt "dXNlcjpwYXNz") = some (ascii "user:pass") := by decide +kernel

end Py

namespace Proxy

open Py

/-- The part of `_check_auth` before the registry is asked: user name and password of
a Basic `proxy-authorization` field. -/
def basicCredentials (rt : PyRuntime) (headers : OrderedDict Text Text) : Option (Text × Text) :=
  match headers.get? (txt "proxy-authorization") with
  | none => none
  | some auth =>
      if auth = [] ∨ ¬ (txt "basic ").isPrefixOf (lower rt auth) then none
      else
        match splitWs isSpace 1 auth with
        | _ :: encoded :: _ =>
            match (b64decode encoded).bind decode with
            | none => none
            | some decoded => splitFirst ':' decoded
        | _ => none

end Proxy
end NetworkProxy
