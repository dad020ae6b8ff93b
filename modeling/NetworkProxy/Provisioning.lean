import NetworkProxy.Handler
import NetworkProxy.UserCommands
import NetworkProxy.Utf8RoundTrip

/-!
# Provisioning a user

`cmd_add` of `manage_users.py`, and the login of the user it adds.

`provisioned_iff`: after `cmd_add` the registry is the one before with the new hash, and the
user can log in, exactly for the names that a line of the users file can hold.
-/

namespace NetworkProxy

open Py

namespace Auth

/-- `cmd_add`: the users file afterwards and the line it prints.  An error is the message of
the exception. -/
def cmdAdd (kdf : Pbkdf2) (file : Option Text) (username password : Text) (salt : Salt) :
    Except Text (Text × Text) := do
  let users := loadUsers file
  let hashed ← hashPassword kdf password salt
  let action := if (users.get? username).isSome then txt "Updated" else txt "Added"
  return (saveUsers (users.set username hashed),
    txt "[+] " ++ action ++ txt " user: " ++ username)

/-- The written file is that of the registry with the new hash. -/
theorem cmdAdd_eq_ok {kdf : Pbkdf2} {file : Option Text} {username password text message : Text}
    {salt : Salt} (h : cmdAdd kdf file username password salt = .ok (text, message)) :
    text = saveUsers ((loadUsers file).set username (hashRecord hashIterations salt.bytes
      (kdf.derive (encode password) salt.bytes hashIterations keyLength))) := by
  cases h
  rfl

end Auth

namespace Proxy

open Auth

/-- The `proxy-authorization` field of a user. -/
def basicField (username password : Text) : Text :=
  txt "Basic " ++ b64encode (encode (username ++ ':' :: password))

/-- An environment in which `verify_password` is that of `auth.py`. -/
def verifying (rt : PyRuntime) (kdf : Pbkdf2) (env : ∀ op, Except PyExc (Ans op)) :
    ∀ op, Except PyExc (Ans op)
  | .verifyPassword plain stored => (verifyPassword rt kdf plain stored).mapError .exception
  | op => env op

/-- The registry `after` is the one before with `username` bound to `hashed`, and the user
is let in. -/
structure Provisioned (cfg : HandlerConfig) (kdf : Pbkdf2) (before after : Users)
    (username password hashed : Text) : Prop where
  registry : ∀ name, after.get? name = (before.set username hashed).get? name
  login : ∀ headers env,
    headers.get? (txt "proxy-authorization") = some (basicField username password) →
    ((Handler.checkAuth { cfg with users := after } headers).run
      (verifying cfg.rt kdf env)).2 = .returned true

section Login

variable {cfg : HandlerConfig} {kdf : Pbkdf2} {headers : OrderedDict Text Text}
variable {username password : Text}

/-- Spelled in any case, an ASCII word without blanks and colons is one. -/
theorem of_map_toLower {s word : Text} (h : s.map Char.toLower = word)
    (hword : word.all (fun c => decide (c.toNat < 128) && !isSpace c && decide (c ≠ ':')) = true)
    {c : Char} (hc : c ∈ s) : c.toNat < 128 ∧ isSpace c = false ∧ c ≠ ':' := by
  have hlower := List.all_eq_true.mp hword c.toLower (h ▸ List.mem_map_of_mem hc)
  simp only [Bool.and_eq_true, decide_eq_true_eq, Bool.not_eq_true'] at hlower
  obtain ⟨⟨hascii, hblank⟩, hcolon⟩ := hlower
  by_cases hupper : c.isUpper = true
  · have hbounds := (isUpper_iff c).mp hupper
    refine ⟨by omega, ?_, ?_⟩
    · simp only [isSpace, Bool.or_eq_false_iff, Bool.and_eq_false_iff, decide_eq_false_iff_not,
        beq_eq_false_iff_ne]
      omega
    · rintro rfl
      cases hupper
  · rw [toLower_eq_self hupper] at hascii hblank hcolon
    exact ⟨hascii, hblank, hcolon⟩

theorem encodedCredentials_ne_nil (username password : Text) :
    b64encode (encode (username ++ ':' :: password)) ≠ [] := by
  refine b64encode_ne_nil ?_
  rw [encode_append, encode_cons]
  exact List.append_ne_nil_of_right_ne_nil _ (List.cons_ne_nil _ _)

/-- The credentials of a Basic field are read as they were written, the scheme being spelled in
any case. -/
theorem basicCredentials_of_scheme (rt : PyRuntime) {scheme : Text}
    (hscheme : scheme.map Char.toLower = txt "basic")
    (hfield : headers.get? (txt "proxy-authorization") =
      some (scheme ++ ' ' :: b64encode (encode (username ++ ':' :: password))))
    (hcolon : ':' ∉ username) :
    basicCredentials rt headers = some (username, password) := by
  have hword : ∀ c, c ∈ scheme → c.toNat < 128 ∧ isSpace c = false ∧ c ≠ ':' :=
    fun c hc => of_map_toLower hscheme (by decide) hc
  have hletters : ∀ c, c ∈ scheme ++ ' ' :: b64encode (encode (username ++ ':' :: password)) →
      c.toNat < 128 := by
    intro c hc
    rcases List.mem_append.mp hc with hc | hc
    · exact (hword c hc).1
    · rcases List.mem_cons.mp hc with rfl | hc
      · decide
      · exact (mem_b64encode hc).1
  have hbasic : (txt "basic ").isPrefixOf
      (lower rt (scheme ++ ' ' :: b64encode (encode (username ++ ':' :: password)))) = true := by
    rw [lower_of_ascii hletters, List.map_append, hscheme, List.isPrefixOf_iff_prefix]
    exact ⟨_, rfl⟩
  have hfirst : scheme ≠ [] := by
    rintro rfl
    cases hscheme
  have hwords : splitWs isSpace 1 (scheme ++ ' ' ::
      b64encode (encode (username ++ ':' :: password))) =
        [scheme, b64encode (encode (username ++ ':' :: password))] := by
    obtain ⟨c, rest, hcode⟩ :=
      List.exists_cons_of_ne_nil (encodedCredentials_ne_nil username password)
    have hc : isSpace c = false := (mem_b64encode (hcode ▸ List.mem_cons_self)).2
    have hblank : isSpace ' ' = true := by decide
    rw [hcode, splitWs_succ_append 0 _ hfirst (fun d hd => (hword d hd).2.1) hblank,
      splitWs_cons_of_pos hblank, splitWs, List.dropWhile_cons_of_neg (by simp [hc])]
  rw [basicCredentials, hfield]
  dsimp only
  rw [if_neg, hwords]
  · dsimp only
    rw [b64decode_b64encode, Option.bind_some, decode_encode]
    exact splitFirst_append hcolon password
  · rintro (hnil | hnot)
    · exact List.append_ne_nil_of_left_ne_nil hfirst _ hnil
    · exact hnot hbasic

theorem basicCredentials_basicField (rt : PyRuntime)
    (hfield : headers.get? (txt "proxy-authorization") = some (basicField username password))
    (hcolon : ':' ∉ username) :
    basicCredentials rt headers = some (username, password) :=
  @basicCredentials_of_scheme headers username password rt (txt "Basic") (by decide) hfield hcolon

/-- A user whose password verifies against the stored credential is let in. -/
theorem checkAuth_basicField {hashed : Text} (env : ∀ op, Except PyExc (Ans op))
    (hfield : headers.get? (txt "proxy-authorization") = some (basicField username password))
    (hcolon : ':' ∉ username) (hstored : cfg.users.get? username = some hashed)
    (hverify : verifyPassword cfg.rt kdf password hashed = .ok true) :
    ((Handler.checkAuth cfg headers).run (verifying cfg.rt kdf env)).2 = .returned true := by
  have hanswer : verifying cfg.rt kdf env (.verifyPassword password hashed) = .ok true := by
    rw [verifying, hverify]
    rfl
  rw [Handler.checkAuth, basicCredentials_basicField cfg.rt hfield hcolon]
  dsimp only
  rw [hstored]
  dsimp only
  rw [perform, Prog.perform, Prog.run, hanswer]
  rfl

/-- **Provisioning.**  After `cmd_add` the registry is the one before with the new hash and the
user is let in, exactly if a line of the users file can hold the name. -/
theorem provisioned_iff {file : Option Text} {text message hashed : Text} {salt : Salt}
    (hadd : cmdAdd kdf file username password salt = .ok (text, message))
    (hhash : hashPassword kdf password salt = .ok hashed) :
    Provisioned cfg kdf (loadUsers file) (loadUsers (some text)) username password hashed ↔
      StorableName username := by
  rw [hashPassword_eq, Except.ok.injEq] at hhash
  have htext : text = saveUsers ((loadUsers file).set username hashed) := by
    rw [← hhash]
    exact cmdAdd_eq_ok hadd
  constructor
  · intro h
    have hget := h.registry username
    rw [OrderedDict.get?_set_self] at hget
    exact ((storable_loadUsers _).get? hget).1
  · intro hname
    have hstorable : StorableUsers ((loadUsers file).set username hashed) :=
      (storable_loadUsers file).set hname (hhash ▸ storableCredential_hashRecord _ _ _)
    have hregistry : ∀ name, (loadUsers (some text)).get? name =
        ((loadUsers file).set username hashed).get? name := by
      intro name
      rw [htext, get?_loadUsers_saveUsers hstorable]
    refine ⟨hregistry, fun headers env hfield => ?_⟩
    have hverify : verifyPassword cfg.rt kdf password hashed = .ok true := by
      rw [← hhash, verifyPassword_hashPassword, decide_eq_true rfl]
    have hstored : ({ cfg with users := loadUsers (some text) } : HandlerConfig).users.get?
        username = some hashed :=
      (hregistry username).trans (OrderedDict.get?_set_self _ _ _)
    exact checkAuth_basicField env hfield hname.colon hstored hverify

def zeroSalt : Salt := ⟨List.replicate saltLength 0, List.length_replicate⟩

theorem provisioned_iff_alice :
    ∃ text message hashed,
      cmdAdd copyingKdf (some (txt "bob:secret\n")) (txt "alice") (txt "pw") zeroSalt =
        .ok (text, message) ∧
      hashPassword copyingKdf (txt "pw") zeroSalt = .ok hashed ∧
      Provisioned oneUser copyingKdf (loadUsers (some (txt "bob:secret\n")))
        (loadUsers (some text)) (txt "alice") (txt "pw") hashed := by
  have hname : StorableName (txt "alice") :=
    ⟨by decide, by decide, by decide, by decide, by decide⟩
  exact ⟨_, _, _, rfl, rfl, (provisioned_iff rfl rfl).mpr hname⟩

/-- Adding the user `a:b` takes the password from the user `a`. -/
theorem colon_rebinds_another_user :
    ∃ text message hashed,
      cmdAdd copyingKdf (some (txt "a:secret\n")) (txt "a:b") (txt "pw") zeroSalt =
        .ok (text, message) ∧
      hashPassword copyingKdf (txt "pw") zeroSalt = .ok hashed ∧
      (loadUsers (some (txt "a:secret\n"))).get? (txt "a") = some (txt "secret") ∧
      (loadUsers (some text)).get? (txt "a") = some (txt "b:" ++ hashed) ∧
      (loadUsers (some text)).get? (txt "a:b") = none ∧
      ¬ Provisioned oneUser copyingKdf (loadUsers (some (txt "a:secret\n")))
        (loadUsers (some text)) (txt "a:b") (txt "pw") hashed := by
  let hashed := hashRecord hashIterations zeroSalt.bytes
    (copyingKdf.derive (encode (txt "pw")) zeroSalt.bytes hashIterations keyLength)
  have hsorted : ([(txt "a", txt "secret"), (txt "a:b", hashed)].mergeSort itemLe) =
      [(txt "a", txt "secret"), (txt "a:b", hashed)] :=
    List.mergeSort_of_pairwise (by decide)
  have hitems : ((loadUsers (some (txt "a:secret\n"))).set (txt "a:b") hashed).items =
      [(txt "a", txt "secret"), (txt "a:b", hashed)] := by decide +kernel
  have hlost : (loadUsers (some (saveUsers
      ((loadUsers (some (txt "a:secret\n"))).set (txt "a:b") hashed)))).get? (txt "a:b") = none :=
    (storable_loadUsers _).get?_eq_none fun h => h.colon (by decide)
  refine ⟨_, _, _, rfl, rfl, by decide +kernel, ?_, hlost, fun h => ?_⟩
  · show (loadUsers (some (saveUsers
      ((loadUsers (some (txt "a:secret\n"))).set (txt "a:b") hashed)))).get? (txt "a") = _
    rw [saveUsers, hitems, hsorted]
    decide +kernel
  · have hget := h.registry (txt "a:b")
    rw [OrderedDict.get?_set_self] at hget
    cases hlost.symm.trans hget

end Login

end Proxy
end NetworkProxy
