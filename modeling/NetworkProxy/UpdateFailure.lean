import NetworkProxy.Provisioning
import NetworkProxy.PyStr

/-!
# An update that fails

`cmd_add` on every string that `sys.argv` can hold, and what it leaves in the
users file when it raises.  The file is a list of bytes.  `_save_users` truncates
it and then writes one piece after the other, and a piece that cannot be encoded
ends the loop: the pieces before it are in the file, those behind it are not.

* `cmdAddStr_pyStr`: on texts the command is `cmdAdd`.
* `saveUsersStr_of_surrogate`: after a failure the users are left that sort before
  the new name.
* `intact_iff`: when a failing command leaves the file as it was.
-/

namespace NetworkProxy
namespace Auth

open Py
open Proxy (zeroSalt)

/-- The registry of `cmd_add`: its new key is any string. -/
abbrev StrUsers := OrderedDict PyStr Text

/-- The exceptions of `cmd_add`. -/
inductive AddError
  | unicodeDecodeError
  | unicodeEncodeError
  | other (message : Text)

/-- How `cmd_add` ends: the users file, and the line it prints or the exception it raises. -/
structure AddRun where
  file : Option Bytes
  outcome : Except AddError PyStr

/-- `load_users` on the bytes of a file; `none` is a `UnicodeDecodeError`. -/
def readUsers : Option Bytes → Option Users
  | none => some (loadUsers none)
  | some bytes => (decode bytes).map (fun text => loadUsers (some text))

/-- `hash_password` on any string. -/
def hashPasswordStr (kdf : Pbkdf2) (plain : PyStr) (salt : Salt) : Except AddError Text :=
  match encodeStr plain with
  | none => .error .unicodeEncodeError
  | some bytes =>
      match pbkdf2Hmac kdf bytes salt.bytes hashIterations keyLength with
      | .error message => .error (.other message)
      | .ok dk => .ok (hashRecord hashIterations salt.bytes dk)

/-- The order of `sorted` on the items of the registry. -/
def strItemLe (p q : PyStr × Text) : Bool := decide (p.1 < q.1 ∨ (p.1 = q.1 ∧ p.2 ≤ q.2))

/-- `f"{username}:{credential}\n"`. -/
def strUserLine (p : PyStr × Text) : PyStr := p.1 ++ pyStr (':' :: p.2 ++ ['\n'])

/-- The pieces `_save_users` writes. -/
def savePieces (users : StrUsers) : List PyStr :=
  fileHeader.map (fun line => pyStr (line ++ ['\n'])) ++
    (users.items.mergeSort strItemLe).map strUserLine

/-- The calls of `f.write`, one after the other: what is in the file when it is closed, and
whether every piece could be encoded. -/
def writePieces : List PyStr → Bytes → Bytes × Bool
  | [], written => (written, true)
  | piece :: pieces, written =>
      match encodeStr piece with
      | none => (written, false)
      | some bytes => writePieces pieces (written ++ bytes)

/-- `_save_users`: the file is truncated first. -/
def saveUsersStr (users : StrUsers) : Bytes × Bool := writePieces (savePieces users) []

/-- `cmd_add`. -/
def cmdAddStr (kdf : Pbkdf2) (file : Option Bytes) (username password : PyStr) (salt : Salt) :
    AddRun :=
  match readUsers file with
  | none => ⟨file, .error .unicodeDecodeError⟩
  | some users =>
      match hashPasswordStr kdf password salt with
      | .error e => ⟨file, .error e⟩
      | .ok hashed =>
          let registry := users.mapKeys pyStr_injective
          let action := if (registry.get? username).isSome then txt "Updated" else txt "Added"
          match saveUsersStr (registry.set username hashed) with
          | (written, true) =>
              ⟨some written, .ok (pyStr (txt "[+] " ++ action ++ txt " user: ") ++ username)⟩
          | (written, false) => ⟨some written, .error .unicodeEncodeError⟩

/-- A command that raises leaves the users file as it was. -/
def LeavesIntact (file : Option Bytes) (run : AddRun) : Prop :=
  (∃ e, run.outcome = .error e) → run.file = file

/-! ## Writing -/

theorem writePieces_append (texts : List Text) (rest : List PyStr) (written : Bytes) :
    writePieces (texts.map pyStr ++ rest) written =
      writePieces rest (written ++ encode texts.flatten) := by
  induction texts generalizing written with
  | nil => simp
  | cons t texts ih =>
      rw [List.map_cons, List.cons_append, writePieces, encodeStr_pyStr]
      dsimp only
      rw [ih, List.flatten_cons, encode_append, List.append_assoc]

theorem writePieces_texts (texts : List Text) :
    writePieces (texts.map pyStr) [] = (encode texts.flatten, true) := by
  have h := writePieces_append texts [] []
  rwa [List.append_nil, List.nil_append] at h

/-- When every piece can be encoded, all are written. -/
theorem writePieces_snd {pieces : List PyStr} (h : ∀ piece, piece ∈ pieces →
    piece.any isSurrogate = false) (written : Bytes) : (writePieces pieces written).2 = true := by
  induction pieces generalizing written with
  | nil => rfl
  | cons piece pieces ih =>
      rw [writePieces]
      cases hpiece : encodeStr piece with
      | none =>
          rw [encodeStr_eq_none_iff, h piece List.mem_cons_self] at hpiece
          cases hpiece
      | some bytes => exact ih (fun p hp => h p (List.mem_cons_of_mem _ hp)) _

theorem any_isSurrogate_strUserLine (p : PyStr × Text) :
    (strUserLine p).any isSurrogate = p.1.any isSurrogate := by
  rw [strUserLine, List.any_append, any_isSurrogate_pyStr, Bool.or_false]

/-! ## Sorted items -/

theorem strItemLe_iff (p q : PyStr × Text) : strItemLe p q = true ↔ toLex p ≤ toLex q := by
  rw [strItemLe, decide_eq_true_iff]
  exact Prod.Lex.toLex_le_toLex.symm

theorem strItemLe_trans (p q r : PyStr × Text) (h : strItemLe p q = true)
    (h' : strItemLe q r = true) : strItemLe p r = true := by
  rw [strItemLe_iff] at h h' ⊢
  exact h.trans h'

theorem strItemLe_total (p q : PyStr × Text) : (strItemLe p q || strItemLe q p) = true := by
  rw [Bool.or_eq_true, strItemLe_iff, strItemLe_iff]
  exact le_total _ _

theorem strItemLe_antisymm (p q : PyStr × Text) (h : strItemLe p q = true)
    (h' : strItemLe q p = true) : p = q := by
  rw [strItemLe_iff] at h h'
  exact toLex_inj.mp (le_antisymm h h')

/-- An item of the file as an item of the registry. -/
def strItem (p : Text × Text) : PyStr × Text := (pyStr p.1, p.2)

theorem strItemLe_strItem (p q : Text × Text) : strItemLe (strItem p) (strItem q) = itemLe p q := by
  rw [strItemLe, itemLe, decide_eq_decide]
  exact or_congr pyStr_strictMono.lt_iff_lt
    (and_congr_left fun _ => pyStr_injective.eq_iff)

theorem mergeSort_strItem (items : List (Text × Text)) :
    (items.map strItem).mergeSort strItemLe = (items.mergeSort itemLe).map strItem :=
  (List.map_mergeSort fun p _ q _ => (strItemLe_strItem p q).symm).symm

/-- The lines of users with texts as names. -/
theorem map_strUserLine (items : List (Text × Text)) :
    (items.map strItem).map strUserLine =
      (items.map (fun p => userLine p ++ ['\n'])).map pyStr := by
  rw [List.map_map, List.map_map]
  refine List.map_congr_left fun p _ => ?_
  rw [Function.comp_apply, Function.comp_apply, strUserLine, strItem, ← pyStr_append, userLine,
    List.append_assoc, List.cons_append]

/-- What the comment lines and the lines of some users are in the file. -/
theorem flatten_lines (items : List (Text × Text)) :
    ((fileHeader.map (· ++ ['\n'])) ++ items.map (fun p => userLine p ++ ['\n'])).flatten =
      writeLines (fileHeader ++ items.map userLine) := by
  rw [writeLines, List.flatMap_append, List.flatten_append, List.flatMap_def, List.flatMap_def,
    List.map_map]
  rfl

theorem map_header : fileHeader.map (fun line => pyStr (line ++ ['\n'])) =
    (fileHeader.map (· ++ ['\n'])).map pyStr := by
  rw [List.map_map]
  rfl

theorem saveUsersStr_mapKeys (users : Users) :
    saveUsersStr (users.mapKeys pyStr_injective) = (encode (saveUsers users), true) := by
  have hitems : (users.mapKeys pyStr_injective).items = users.items.map strItem := rfl
  rw [saveUsersStr, savePieces, hitems, mergeSort_strItem, map_strUserLine, map_header,
    ← List.map_append, writePieces_texts, flatten_lines]
  rfl

/-- On texts, the command is that of the model without surrogates. -/
theorem cmdAddStr_pyStr {kdf : Pbkdf2} {file : Option Text} {username password text message : Text}
    {salt : Salt} (h : cmdAdd kdf file username password salt = .ok (text, message)) :
    cmdAddStr kdf (file.map encode) (pyStr username) (pyStr password) salt =
      ⟨some (encode text), .ok (pyStr message)⟩ := by
  have hread : readUsers (file.map encode) = some (loadUsers file) := by
    cases file with
    | none => rfl
    | some text => rw [Option.map_some, readUsers, decode_encode, Option.map_some]
  have hhash : hashPasswordStr kdf (pyStr password) salt =
      .ok (hashRecord hashIterations salt.bytes
        (kdf.derive (encode password) salt.bytes hashIterations keyLength)) := by
    rw [hashPasswordStr, encodeStr_pyStr]
    rfl
  rw [cmdAddStr, hread]
  dsimp only
  rw [hhash]
  dsimp only
  rw [OrderedDict.mapKeys_set, saveUsersStr_mapKeys, OrderedDict.get?_mapKeys, ← pyStr_append]
  cases h
  rfl

/-! ## A name that cannot be encoded -/

section Surrogate

variable {users : Users} {username : PyStr}

theorem pyStr_ne_of_surrogate (h : username.any isSurrogate = true) (s : Text) :
    pyStr s ≠ username := by
  rintro rfl
  rw [any_isSurrogate_pyStr] at h
  cases h

/-- The users that sort before a name. -/
def usersBefore (users : Users) (username : PyStr) : List (Text × Text) :=
  (users.items.mergeSort itemLe).filter (fun p => pyStr p.1 < username)

/-- What a failure leaves: the comment lines and the users that sort before the new name. -/
theorem saveUsersStr_of_surrogate (h : username.any isSurrogate = true) (hashed : Text) :
    saveUsersStr ((users.mapKeys pyStr_injective).set username hashed) =
      (encode (writeLines (fileHeader ++ (usersBefore users username).map userLine)), false) := by
  have hfresh : username ∉ (users.items.map strItem).map Prod.fst := by
    intro hmem
    obtain ⟨q, hq, rfl⟩ := List.mem_map.mp hmem
    obtain ⟨p, -, rfl⟩ := List.mem_map.mp hq
    exact pyStr_ne_of_surrogate h p.1 rfl
  have hitems : ((users.mapKeys pyStr_injective).set username hashed).items =
      users.items.map strItem ++ [(username, hashed)] := setItem_of_not_mem hashed hfresh
  have hbefore : ∀ p : Text × Text,
      strItemLe (strItem p) (username, hashed) = decide (pyStr p.1 < username) := by
    intro p
    rw [strItemLe, decide_eq_decide]
    exact or_iff_left fun hq => pyStr_ne_of_surrogate h p.1 hq.1
  have hsorted : (users.items.map strItem ++ [(username, hashed)]).mergeSort strItemLe =
      (usersBefore users username).map strItem ++ (username, hashed) ::
        ((users.items.map strItem).mergeSort strItemLe).filter
          (fun q => !strItemLe q (username, hashed)) := by
    rw [mergeSort_concat strItemLe_trans strItemLe_total strItemLe_antisymm, mergeSort_strItem,
      List.filter_map, usersBefore]
    congr 2
    exact List.filter_congr fun p _ => hbefore p
  have hpiece : encodeStr (strUserLine (username, hashed)) = none := by
    rw [encodeStr_eq_none_iff, any_isSurrogate_strUserLine]
    exact h
  rw [saveUsersStr, savePieces, hitems, hsorted, List.map_append, List.map_cons, map_strUserLine,
    map_header, ← List.append_assoc, ← List.map_append, writePieces_append, writePieces, hpiece,
    flatten_lines, List.nil_append]

theorem usersBefore_sublist : (usersBefore users username).Sublist (users.items.mergeSort itemLe) :=
  List.filter_sublist

/-- When the users before a name are all users, the name sorts behind them. -/
theorem usersBefore_eq_iff :
    usersBefore users username = users.items.mergeSort itemLe ↔
      ∀ p, p ∈ users.items → pyStr p.1 < username := by
  rw [usersBefore, List.filter_eq_self]
  simp only [decide_eq_true_eq, List.mem_mergeSort]

/-- The users that a failure leaves are read back as they were. -/
theorem items_loadUsers_usersBefore (h : StorableUsers users) :
    (loadUsers (some (writeLines
      (fileHeader ++ (usersBefore users username).map userLine)))).items =
        usersBefore users username := by
  have hstorable : ∀ p, p ∈ usersBefore users username →
      StorableName p.1 ∧ StorableCredential p.2 :=
    fun p hp => h p (List.mem_mergeSort.mp (usersBefore_sublist.subset hp))
  have hnd : ((usersBefore users username).map Prod.fst).Nodup := by
    refine List.Nodup.sublist (usersBefore_sublist.map Prod.fst) ?_
    exact ((List.mergeSort_perm users.items itemLe).map Prod.fst).nodup_iff.mpr users.nodup
  have hread := (OrderedDict.items_foldl_set_append_eq_iff []
    (usersBefore users username) Prod.fst Prod.snd Prod.snd).mpr
      ⟨hnd, fun _ _ => rfl, List.nil_prefix⟩
  rw [loadUsers_written hstorable]
  simpa using hread

end Surrogate

/-- The file is as `_save_users` writes it, and all its users sort before the new name. -/
def SortsBehind (file : Option Bytes) (username : PyStr) : Prop :=
  ∃ users, readUsers file = some users ∧ file = some (encode (saveUsers users)) ∧
    ∀ p, p ∈ users.items → pyStr p.1 < username

theorem storable_readUsers {file : Option Bytes} {users : Users}
    (h : readUsers file = some users) : StorableUsers users := by
  cases file with
  | none =>
      cases h
      exact storable_loadUsers none
  | some bytes =>
      obtain ⟨text, -, rfl⟩ := Option.map_eq_some_iff.mp h
      exact storable_loadUsers (some text)

/-- A failure while the names are written leaves the file as it was exactly if it was complete
before the new name. -/
theorem eq_written_iff {file : Option Bytes} {users : Users} {username : PyStr}
    (hread : readUsers file = some users) :
    some (encode (writeLines (fileHeader ++ (usersBefore users username).map userLine))) = file ↔
      SortsBehind file username := by
  constructor
  · intro hfile
    have hstorable := storable_readUsers hread
    have hsame : users = loadUsers (some (writeLines
        (fileHeader ++ (usersBefore users username).map userLine))) := by
      rw [← hfile, readUsers, decode_encode, Option.map_some, Option.some.injEq] at hread
      exact hread.symm
    have hback : users.items = usersBefore users username :=
      (congrArg OrderedDict.items hsame).trans (items_loadUsers_usersBefore hstorable)
    have hall : usersBefore users username = users.items.mergeSort itemLe := by
      refine usersBefore_sublist.eq_of_length ?_
      rw [← hback, List.length_mergeSort]
    refine ⟨users, hread, ?_, usersBefore_eq_iff.mp hall⟩
    rw [← hfile, hall]
    rfl
  · rintro ⟨users', hread', hfile, hbehind⟩
    obtain rfl : users' = users := Option.some.inj (hread'.symm.trans hread)
    rw [usersBefore_eq_iff.mpr hbehind]
    exact hfile.symm

/-- A name without surrogates is written. -/
theorem saveUsersStr_of_encodable (users : Users) {username : PyStr}
    (h : username.any isSurrogate = false) (hashed : Text) :
    (saveUsersStr ((users.mapKeys pyStr_injective).set username hashed)).2 = true := by
  refine writePieces_snd (fun piece hpiece => ?_) _
  rcases List.mem_append.mp hpiece with hpiece | hpiece
  · obtain ⟨line, -, rfl⟩ := List.mem_map.mp hpiece
    exact any_isSurrogate_pyStr _
  · obtain ⟨p, hp, rfl⟩ := List.mem_map.mp hpiece
    have hget := OrderedDict.get?_of_mem_items (k := p.1) (v := p.2) (List.mem_mergeSort.mp hp)
    rw [OrderedDict.get?_set] at hget
    rw [any_isSurrogate_strUserLine]
    split at hget
    · rename_i hname
      rw [← hname]
      exact h
    · obtain ⟨q, -, hq⟩ := List.mem_map.mp (OrderedDict.mem_items_of_get? hget)
      rw [← (Prod.mk.inj hq).1]
      exact any_isSurrogate_pyStr _

/--
**When a failing `cmd_add` leaves the users file as it was**: exactly if it fails
before the file is opened, because the file or the password is not UTF-8, or does
not fail, because the name can be encoded, or had nothing to write behind the new
name.
-/
theorem intact_iff (kdf : Pbkdf2) (file : Option Bytes) (username password : PyStr)
    (salt : Salt) :
    LeavesIntact file (cmdAddStr kdf file username password salt) ↔
      readUsers file = none ∨ encodeStr password = none ∨ encodeStr username ≠ none ∨
        SortsBehind file username := by
  rw [cmdAddStr]
  cases hread : readUsers file with
  | none => exact iff_of_true (fun _ => rfl) (Or.inl rfl)
  | some users =>
      dsimp only
      cases hpassword : encodeStr password with
      | none =>
          have hhash : hashPasswordStr kdf password salt = .error .unicodeEncodeError := by
            rw [hashPasswordStr, hpassword]
          rw [hhash]
          exact iff_of_true (fun _ => rfl) (Or.inr (Or.inl rfl))
      | some bytes =>
          have hhash : ∃ hashed, hashPasswordStr kdf password salt = .ok hashed := by
            rw [hashPasswordStr, hpassword]
            exact ⟨_, rfl⟩
          obtain ⟨hashed, hhash⟩ := hhash
          rw [hhash]
          dsimp only
          cases hname : username.any isSurrogate with
          | false =>
              have hsaved := saveUsersStr_of_encodable users hname hashed
              have hencoded : encodeStr username ≠ none := by
                rw [Ne, encodeStr_eq_none_iff, hname]
                exact Bool.false_ne_true
              refine iff_of_true ?_ (Or.inr (Or.inr (Or.inl hencoded)))
              rcases hrun : saveUsersStr ((users.mapKeys pyStr_injective).set username hashed)
                with ⟨written, ok⟩
              rw [hrun] at hsaved
              dsimp only at hsaved
              subst hsaved
              rintro ⟨e, he⟩
              cases he
          | true =>
              have hnone : encodeStr username = none := encodeStr_eq_none_iff.mpr hname
              rw [saveUsersStr_of_surrogate hname]
              dsimp only
              rw [← eq_written_iff hread]
              constructor
              · intro h
                exact Or.inr (Or.inr (Or.inr (h ⟨_, rfl⟩)))
              · rintro (h | h | h | h)
                · cases h
                · cases h
                · exact absurd hnone h
                · exact fun _ => h

/-- A name with a byte that is not UTF-8. -/
def undecodableName : PyStr := pyStr (txt "a") ++ [(0xDCFF : CodePoint)]

/-- Adding it fails and leaves the comment lines alone, without the user `bob`. -/
theorem failed_add_loses_users :
    (cmdAddStr copyingKdf (some (ascii "bob:secret\n")) undecodableName (pyStr (txt "pw"))
        zeroSalt).file = some (encode (writeLines fileHeader)) ∧
      ¬ LeavesIntact (some (ascii "bob:secret\n"))
        (cmdAddStr copyingKdf (some (ascii "bob:secret\n")) undecodableName (pyStr (txt "pw"))
          zeroSalt) := by
  have hread : readUsers (some (ascii "bob:secret\n")) =
      some (OrderedDict.empty.set (txt "bob") (txt "secret")) := by decide +kernel
  have hhash : hashPasswordStr copyingKdf (pyStr (txt "pw")) zeroSalt =
      .ok (hashRecord hashIterations zeroSalt.bytes
        (copyingKdf.derive (encode (txt "pw")) zeroSalt.bytes hashIterations keyLength)) := by
    rw [hashPasswordStr, encodeStr_pyStr]
    rfl
  have hbefore : usersBefore (OrderedDict.empty.set (txt "bob") (txt "secret"))
      undecodableName = [] := by
    have hitems : (OrderedDict.empty.set (txt "bob") (txt "secret") : Users).items =
        [(txt "bob", txt "secret")] := rfl
    have hsort : ¬ pyStr (txt "bob") < undecodableName := by decide
    rw [usersBefore, hitems, List.mergeSort_singleton]
    simp [hsort]
  have hrun : cmdAddStr copyingKdf (some (ascii "bob:secret\n")) undecodableName
      (pyStr (txt "pw")) zeroSalt =
        ⟨some (encode (writeLines fileHeader)), .error .unicodeEncodeError⟩ := by
    rw [cmdAddStr, hread]
    dsimp only
    rw [hhash]
    dsimp only
    rw [saveUsersStr_of_surrogate (by decide), hbefore, List.map_nil, List.append_nil]
  rw [hrun]
  refine ⟨rfl, fun h => ?_⟩
  have hsame : encode (writeLines fileHeader) = ascii "bob:secret\n" :=
    Option.some.inj (h ⟨_, rfl⟩)
  have hlength := congrArg List.length hsame
  revert hlength
  decide +kernel

end Auth
end NetworkProxy
