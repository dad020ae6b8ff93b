import NetworkProxy.Provisioning

/-!
# The command line tool for users

`main` of `manage_users.py` with the commands it dispatches to, and what any sequence of
invocations does to the users file.

The abstract registry is a partial function from names to credentials.  Each invocation is
one step of it (`main_step`), whatever the arguments are; what a session leaves of a user
is decided by the last command that was about this user (`logins_after_session`).
-/

namespace NetworkProxy
namespace Auth

open Py

/-! ## The tool -/

/-- An invocation: the arguments on the command line, and the salts it will draw. -/
structure Invocation where
  arguments : List Text
  salts : ℕ → Salt

/-- The docstring of the module. -/
def docText : Text := txt "
manage_users.py — CLI tool for managing proxy user credentials.

Usage:
    python tools/manage_users.py add <username> <password>
    python tools/manage_users.py remove <username>
    python tools/manage_users.py list
    python tools/manage_users.py migrate   (convert plaintext → hashed)

All passwords are stored as PBKDF2-HMAC-SHA256 hashes.
"

/-- `f"{s:<width}"`. -/
def ljust (width : ℕ) (s : Text) : Text := s ++ List.replicate (width - s.length) ' '

/-- The second column of the list. -/
def credType (credential : Text) : Text :=
  if isHashed credential then txt "PBKDF2 (hashed)" else txt "PLAINTEXT (migrate!)"

/-- A line of the list. -/
def listLine (p : Text × Text) : Text := ljust 20 p.1 ++ ' ' :: credType p.2

/-- `cmd_list`. -/
def cmdList (file : Option Text) : CommandRun :=
  let users := loadUsers file
  if users.items = [] then
    { file := file, printed := [txt "No users configured."], exitStatus := 0 }
  else
    { file := file
      printed := (ljust 20 (txt "Username") ++ txt " Credential Type") ::
        List.replicate 40 '-' :: (users.items.mergeSort itemLe).map listLine
      exitStatus := 0 }

/-- The line calls for a migration. -/
def callsToMigrate (line : Text) : Bool := (txt "PLAINTEXT (migrate!)").isSuffixOf line

theorem callsToMigrate_listLine (p : Text × Text) :
    callsToMigrate (listLine p) = !isHashed p.2 := by
  rw [callsToMigrate, List.isSuffixOf, listLine, List.reverse_append, List.reverse_cons,
    List.append_assoc, credType]
  cases isHashed p.2 <;> rfl

/-- The list warns of the credentials that a migration would hash. -/
theorem countP_callsToMigrate (file : Option Text) :
    (cmdList file).printed.countP callsToMigrate =
      (loadUsers file).items.countP fun p => !isHashed p.2 := by
  unfold cmdList
  dsimp only
  split
  · rename_i hnone
    rw [hnone]
    rfl
  · have hheader : callsToMigrate (ljust 20 (txt "Username") ++ txt " Credential Type") = false :=
      rfl
    have hrule : callsToMigrate (List.replicate 40 '-') = false := rfl
    have hline : callsToMigrate ∘ listLine = fun p => !isHashed p.2 :=
      funext callsToMigrate_listLine
    simp only [List.countP_cons, hheader, hrule, List.countP_map, hline]
    exact (List.mergeSort_perm _ _).countP_eq _

section Main

variable (rt : PyRuntime) (kdf : Pbkdf2)

/-- `main`. -/
def main (inv : Invocation) (file : Option Text) : Except Text CommandRun :=
  match inv.arguments with
  | [] => .ok { file := file, printed := [docText], exitStatus := 1 }
  | word :: arguments =>
      let command := lower rt word
      if command = txt "add" then
        match arguments with
        | [username, password] => do
            let (text, message) ← cmdAdd kdf file username password (inv.salts 0)
            return { file := some text, printed := [message], exitStatus := 0 }
        | _ =>
            .ok {
              file := file
              printed := [txt "Usage: manage_users.py add <username> <password>"]
              exitStatus := 1 }
      else if command = txt "remove" then
        match arguments with
        | [username] => .ok (cmdRemove file username)
        | _ =>
            .ok {
              file := file
              printed := [txt "Usage: manage_users.py remove <username>"]
              exitStatus := 1 }
      else if command = txt "list" then .ok (cmdList file)
      else if command = txt "migrate" then cmdMigrate kdf inv.salts file
      else
        .ok {
          file := file
          printed := [txt "Unknown command: " ++ command, docText]
          exitStatus := 1 }

/-- The users file after a sequence of invocations. -/
def session (invs : List Invocation) (file : Option Text) : Except Text (Option Text) :=
  invs.foldlM (fun file inv => (main rt kdf inv file).map CommandRun.file) file

end Main

/-! ## The abstract registry -/

/-- Names with their credentials. -/
abbrev Registry := Text → Option Text

/-- The registry that a users file declares. -/
def registryOf (file : Option Text) : Registry := (loadUsers file).get?

/-- What is asked of the registry. -/
inductive Command
  | add (username password : Text) (salt : Salt)
  | remove (username : Text)
  | migrate
  | look

namespace Command

/-- The command is about this user. -/
def About (user : Text) : Command → Bool
  | add username _ _ => decide (username = user)
  | remove username => decide (username = user)
  | migrate => false
  | look => false

/-- A line of the users file can hold the name to be added. -/
def Storable : Command → Prop
  | add username _ _ => StorableName username
  | _ => True

/-- What a command makes of the registry. -/
def Step (kdf : Pbkdf2) (before after : Registry) : Command → Prop
  | add username password salt => ∃ hashed, hashPassword kdf password salt = .ok hashed ∧
      after = Function.update before username (some hashed)
  | remove username => after = Function.update before username none
  | migrate => ∀ user, (before user = none → after user = none) ∧
      ∀ credential, before user = some credential →
        ∃ new, after user = some new ∧ Rehashed kdf credential new
  | look => after = before

end Command

/-- The command that an invocation stands for. -/
def Invocation.command (rt : PyRuntime) (inv : Invocation) : Command :=
  match inv.arguments with
  | [] => .look
  | word :: arguments =>
      if lower rt word = txt "add" then
        match arguments with
        | [username, password] => .add username password (inv.salts 0)
        | _ => .look
      else if lower rt word = txt "remove" then
        match arguments with
        | [username] => .remove username
        | _ => .look
      else if lower rt word = txt "migrate" then .migrate
      else .look

/-! ## An invocation is a step -/

section Steps

variable {rt : PyRuntime} {kdf : Pbkdf2}

theorem cmdAdd_step (kdf : Pbkdf2) (file : Option Text) {username : Text} (password : Text)
    (salt : Salt)
    (hname : StorableName username) :
    ∃ text message, cmdAdd kdf file username password salt = .ok (text, message) ∧
      Command.Step kdf (registryOf file) (registryOf (some text))
        (.add username password salt) := by
  let hashed := hashRecord hashIterations salt.bytes
    (kdf.derive (encode password) salt.bytes hashIterations keyLength)
  refine ⟨saveUsers ((loadUsers file).set username hashed), _, rfl, hashed,
    hashPassword_eq password salt, ?_⟩
  have hstorable : StorableUsers ((loadUsers file).set username hashed) :=
    (storable_loadUsers file).set hname (storableCredential_hashRecord _ _ _)
  funext user
  rw [registryOf, get?_loadUsers_saveUsers hstorable, OrderedDict.get?_set,
    Function.update_apply, registryOf]
  simp [eq_comm]

theorem cmdRemove_step (file : Option Text) (username : Text) :
    Command.Step kdf (registryOf file) (registryOf (cmdRemove file username).file)
      (.remove username) := by
  funext user
  rw [registryOf, get?_loadUsers_cmdRemove, Function.update_apply, registryOf]
  simp [eq_comm]

theorem cmdMigrate_step (salts : ℕ → Salt) (file : Option Text) :
    ∃ run, cmdMigrate kdf salts file = .ok run ∧
      Command.Step kdf (registryOf file) (registryOf run.file) .migrate := by
  obtain ⟨run, hrun, hmigrated, -⟩ := cmdMigrate_eq_ok kdf salts file
  exact ⟨run, hrun, fun user => ⟨hmigrated.absent user, hmigrated.rehashed user⟩⟩

theorem cmdList_file (file : Option Text) : (cmdList file).file = file := by
  unfold cmdList
  dsimp only
  split <;> rfl

/-- One step. -/
theorem main_step (kdf : Pbkdf2) (inv : Invocation) (file : Option Text)
    (h : (inv.command rt).Storable) :
    ∃ run, main rt kdf inv file = .ok run ∧
      Command.Step kdf (registryOf file) (registryOf run.file) (inv.command rt) := by
  unfold main Invocation.command at *
  cases harguments : inv.arguments with
  | nil => exact ⟨_, rfl, rfl⟩
  | cons word arguments =>
      simp only [harguments] at h ⊢
      by_cases hadd : lower rt word = txt "add"
      · simp only [hadd, if_true] at h ⊢
        split at h
        · obtain ⟨text, message, hrun, hstep⟩ := cmdAdd_step kdf file _ (inv.salts 0) h
          rw [hrun]
          exact ⟨_, rfl, hstep⟩
        · exact ⟨_, rfl, rfl⟩
      · simp only [hadd, if_false] at h ⊢
        by_cases hremove : lower rt word = txt "remove"
        · simp only [hremove, if_true]
          split
          · exact ⟨_, rfl, cmdRemove_step file _⟩
          · exact ⟨_, rfl, rfl⟩
        · simp only [hremove, if_false]
          by_cases hlist : lower rt word = txt "list"
          · have hlook : ¬ txt "list" = txt "migrate" := by decide
            simp only [hlist, if_true, hlook, if_false]
            exact ⟨_, rfl, congrArg registryOf (cmdList_file file)⟩
          · simp only [hlist, if_false]
            by_cases hmigrate : lower rt word = txt "migrate"
            · simp only [hmigrate, if_true]
              exact cmdMigrate_step inv.salts file
            · simp only [hmigrate, if_false]
              exact ⟨_, rfl, rfl⟩

theorem cmdRemove_of_failed {file : Option Text} {username : Text}
    (h : (cmdRemove file username).exitStatus ≠ 0) : (cmdRemove file username).file = file := by
  unfold cmdRemove at *
  dsimp only at *
  split at h
  · simp [*]
  · exact absurd rfl h

theorem cmdMigrate_exitStatus {salts : ℕ → Salt} {file : Option Text} {run : CommandRun}
    (h : cmdMigrate kdf salts file = .ok run) : run.exitStatus = 0 := by
  simp only [cmdMigrate, bind, Except.bind] at h
  split at h
  · cases h
  · split at h
    · cases h
      rfl
    · cases h
      rfl

/-- An invocation that fails leaves the file as it is. -/
theorem file_of_failed {inv : Invocation} {file : Option Text} {run : CommandRun}
    (h : main rt kdf inv file = .ok run) (hfailed : run.exitStatus ≠ 0) : run.file = file := by
  unfold main at h
  cases harguments : inv.arguments with
  | nil =>
      simp only [harguments] at h
      obtain rfl := Except.ok.inj h
      rfl
  | cons word arguments =>
      simp only [harguments] at h
      split at h
      · split at h
        · cases h
          exact absurd rfl hfailed
        · cases h
          rfl
      · split at h
        · split at h
          · cases h
            exact cmdRemove_of_failed hfailed
          · cases h
            rfl
        · split at h
          · cases h
            exact cmdList_file file
          · split at h
            · exact absurd (cmdMigrate_exitStatus h) hfailed
            · cases h
              rfl

/-! ## Sessions -/

/-- The last command that was about a user. -/
def lastAbout (user : Text) (commands : List Command) : Option Command :=
  (commands.filter (Command.About user)).getLast?

theorem lastAbout_concat (user : Text) (commands : List Command) (command : Command) :
    lastAbout user (commands ++ [command]) =
      if command.About user then some command else lastAbout user commands := by
  cases h : command.About user <;> simp [lastAbout, List.filter_append, h]

/-- What a session leaves of a user. -/
structure Fate (kdf : Pbkdf2) (user : Text) (before after : Option Text)
    (commands : List Command) : Prop where
  added : ∀ username password salt,
    lastAbout user commands = some (.add username password salt) →
      ∃ hashed, hashPassword kdf password salt = .ok hashed ∧ after = some hashed
  removed : ∀ username, lastAbout user commands = some (.remove username) → after = none
  absent : lastAbout user commands = none → before = none → after = none
  kept : lastAbout user commands = none → ∀ credential, before = some credential →
    ∃ new, after = some new ∧ (.migrate ∈ commands → Rehashed kdf credential new) ∧
      (.migrate ∉ commands → new = credential)

theorem fate_nil (user : Text) (credential : Option Text) :
    Fate kdf user credential credential [] where
  added _ _ _ h := by cases h
  removed _ h := by cases h
  absent _ h := h
  kept _ credential h := ⟨credential, h, fun hmem => absurd hmem List.not_mem_nil, fun _ => rfl⟩

/-- A command that is about another user, or about none, changes nothing for this one. -/
theorem Fate.frame {user : Text} {commands : List Command} {command : Command}
    {initial current : Option Text} (h : Fate kdf user initial current commands)
    (habout : command.About user = false) (hother : command ≠ .migrate) :
    Fate kdf user initial current (commands ++ [command]) := by
  have hlast : lastAbout user (commands ++ [command]) = lastAbout user commands := by
    simp [lastAbout_concat, habout]
  have hmigrate : .migrate ∈ commands ++ [command] ↔ .migrate ∈ commands := by
    simp [hother.symm]
  refine ⟨?_, ?_, ?_, ?_⟩ <;> simp only [hlast, hmigrate]
  · exact h.added
  · exact h.removed
  · exact h.absent
  · exact h.kept

theorem Fate.migrated {user : Text} {commands : List Command} {initial : Option Text}
    {before after : Registry} (h : Fate kdf user initial (before user) commands)
    (hstep : Command.Step kdf before after .migrate) :
    Fate kdf user initial (after user) (commands ++ [.migrate]) := by
  have hlast : lastAbout user (commands ++ [.migrate]) = lastAbout user commands := by
    simp [lastAbout_concat, Command.About]
  obtain ⟨habsent, hrehash⟩ := hstep user
  refine ⟨fun username password salt hadd => ?_, fun username hremove => ?_,
    fun hnone hinitial => ?_, fun hnone credential hinitial => ?_⟩
  · rw [hlast] at hadd
    obtain ⟨hashed, hhash, hbefore⟩ := h.added _ _ _ hadd
    obtain ⟨new, hnew, hrehashed⟩ := hrehash hashed hbefore
    have hishashed : isHashed hashed = true := by
      rw [hashPassword_eq, Except.ok.injEq] at hhash
      rw [← hhash, isHashed_hashRecord]
    exact ⟨hashed, hhash, by rw [hnew, hrehashed.eq_of_isHashed hishashed]⟩
  · rw [hlast] at hremove
    exact habsent (h.removed _ hremove)
  · rw [hlast] at hnone
    exact habsent (h.absent hnone hinitial)
  · rw [hlast] at hnone
    obtain ⟨old, hold, hmigrated, hunmigrated⟩ := h.kept hnone credential hinitial
    obtain ⟨new, hnew, hrehashed⟩ := hrehash old hold
    refine ⟨new, hnew, fun _ => ?_, fun hmem => absurd (by simp) hmem⟩
    by_cases hmem : Command.migrate ∈ commands
    · rw [hrehashed.eq_of_isHashed (hmigrated hmem).isHashed]
      exact hmigrated hmem
    · rwa [← hunmigrated hmem]

/-- One command more. -/
theorem Fate.step {user : Text} {commands : List Command} {command : Command}
    {initial : Option Text} {before after : Registry}
    (h : Fate kdf user initial (before user) commands)
    (hstep : Command.Step kdf before after command) :
    Fate kdf user initial (after user) (commands ++ [command]) := by
  have hlast : lastAbout user (commands ++ [command]) =
      if command.About user then some command else lastAbout user commands :=
    lastAbout_concat user commands command
  cases command with
  | look =>
      have hsame : after = before := hstep
      rw [hsame]
      exact h.frame rfl (by simp)
  | migrate => exact h.migrated hstep
  | add username password salt =>
      obtain ⟨hashed, hhash, rfl⟩ := hstep
      by_cases hname : username = user
      · simp only [Command.About, hname, decide_true, if_true] at hlast
        subst hname
        refine ⟨fun _ _ _ hadd => ?_, fun _ hremove => ?_, fun hnone => ?_, fun hnone => ?_⟩
        · obtain ⟨rfl, rfl, rfl⟩ := Command.add.inj (Option.some.inj (hlast.symm.trans hadd))
          exact ⟨hashed, hhash, Function.update_self _ _ _⟩
        · cases hlast.symm.trans hremove
        · cases hlast.symm.trans hnone
        · cases hlast.symm.trans hnone
      · rw [Function.update_of_ne (Ne.symm hname)]
        exact h.frame (decide_eq_false hname) (by simp)
  | remove username =>
      obtain rfl := hstep
      by_cases hname : username = user
      · simp only [Command.About, hname, decide_true, if_true] at hlast
        subst hname
        refine ⟨fun _ _ _ hadd => ?_, fun _ _ => ?_, fun hnone => ?_, fun hnone => ?_⟩
        · cases hlast.symm.trans hadd
        · exact Function.update_self _ _ _
        · cases hlast.symm.trans hnone
        · cases hlast.symm.trans hnone
      · rw [Function.update_of_ne (Ne.symm hname)]
        exact h.frame (decide_eq_false hname) (by simp)

theorem session_concat (invs : List Invocation) (inv : Invocation) (file : Option Text) :
    session rt kdf (invs ++ [inv]) file = (session rt kdf invs file).bind fun file' =>
      (main rt kdf inv file').map CommandRun.file := by
  simp only [session, List.foldlM_append, List.foldlM_cons, List.foldlM_nil, bind_pure]
  rfl

/-- A run of steps. -/
theorem fate_of_session {invs : List Invocation} (file : Option Text)
    (h : ∀ inv ∈ invs, (inv.command rt).Storable) :
    ∃ file', session rt kdf invs file = .ok file' ∧ ∀ user,
      Fate kdf user (registryOf file user) (registryOf file' user)
        (invs.map (Invocation.command rt)) := by
  induction invs using List.reverseRecOn with
  | nil => exact ⟨file, rfl, fun user => fate_nil user _⟩
  | append_singleton invs inv ih =>
      obtain ⟨file', hsession, hfate⟩ := ih fun inv' hmem =>
        h inv' (List.mem_append_left _ hmem)
      obtain ⟨run, hrun, hstep⟩ := main_step kdf inv file' (h inv (by simp))
      refine ⟨run.file, ?_, fun user => ?_⟩
      · rw [session_concat, hsession, Except.bind, hrun]
        rfl
      · rw [List.map_append]
        exact (hfate user).step hstep

end Steps

end Auth

/-! ## Who can log in afterwards -/

namespace Proxy

open Py Auth

/-- A proxy that is started on the users file lets the user in with this password. -/
def LetIn (cfg : HandlerConfig) (kdf : Pbkdf2) (file : Option Text) (username password : Text) :
    Prop :=
  ∀ headers env, headers.get? (txt "proxy-authorization") = some (basicField username password) →
    ((Handler.checkAuth { cfg with users := loadUsers file } headers).run
      (verifying cfg.rt kdf env)).2 = .returned true

theorem letIn_iff {cfg : HandlerConfig} {kdf : Pbkdf2} {file : Option Text}
    {username password : Text} (hcolon : ':' ∉ username) :
    LetIn cfg kdf file username password ↔ ∃ stored, registryOf file username = some stored ∧
      verifyPassword cfg.rt kdf password stored = .ok true := by
  constructor
  · intro h
    have hfield : (OrderedDict.empty.set (txt "proxy-authorization")
        (basicField username password)).get? (txt "proxy-authorization") =
          some (basicField username password) := OrderedDict.get?_set_self _ _ _
    have hrun := h _ (obliging []) hfield
    rw [Handler.checkAuth, basicCredentials_basicField cfg.rt hfield hcolon] at hrun
    dsimp only at hrun
    cases hstored : (loadUsers file).get? username with
    | none =>
        rw [hstored] at hrun
        cases hrun
    | some stored =>
        rw [hstored] at hrun
        dsimp only at hrun
        rw [perform, Prog.perform, Prog.run, verifying] at hrun
        refine ⟨stored, hstored, ?_⟩
        cases hverify : verifyPassword cfg.rt kdf password stored with
        | error message =>
            rw [hverify] at hrun
            cases hrun
        | ok answer =>
            rw [hverify] at hrun
            exact congrArg Except.ok (Outcome.returned.inj hrun)
  · rintro ⟨stored, hstored, hverify⟩ headers env hfield
    have hregistered : ({ cfg with users := loadUsers file } : HandlerConfig).users.get?
        username = some stored := hstored
    exact checkAuth_basicField env hfield hcolon hregistered hverify

/-- The logins of a user after a session. -/
structure Logins (cfg : HandlerConfig) (kdf : Pbkdf2) (user : Text) (before after : Option Text)
    (commands : List Command) : Prop where
  /-- Added last, the user has the passwords that derive the same key as the one given. -/
  added : ∀ username password salt,
    lastAbout user commands = some (.add username password salt) → ∀ plain,
      LetIn cfg kdf after user plain ↔
        kdf.derive (encode plain) salt.bytes hashIterations keyLength =
          kdf.derive (encode password) salt.bytes hashIterations keyLength
  removed : ∀ username, lastAbout user commands = some (.remove username) →
    ∀ plain, ¬ LetIn cfg kdf after user plain
  /-- No command was about the user: every password still works, and no user appears. -/
  untouched : lastAbout user commands = none →
    (registryOf after user).isSome = (registryOf before user).isSome ∧
      ∀ plain, LetIn cfg kdf before user plain → LetIn cfg kdf after user plain
  /-- A credential in plaintext was there from the beginning. -/
  plaintext : ∀ credential, registryOf after user = some credential →
    isHashed credential = false → registryOf before user = some credential ∧
      lastAbout user commands = none ∧ .migrate ∉ commands

theorem logins_of_fate {cfg : HandlerConfig} {kdf : Pbkdf2} {user : Text}
    {before after : Option Text} {commands : List Command} (hcolon : ':' ∉ user)
    (h : Fate kdf user (registryOf before user) (registryOf after user) commands) :
    Logins cfg kdf user before after commands where
  added username password salt hadd plain := by
    obtain ⟨hashed, hhash, hafter⟩ := h.added _ _ _ hadd
    rw [hashPassword_eq, Except.ok.injEq] at hhash
    rw [letIn_iff hcolon, hafter, ← hhash]
    simp [verifyPassword_hashPassword]
  removed username hremove plain := by
    rw [letIn_iff hcolon, h.removed _ hremove]
    simp
  untouched hnone := by
    cases hbefore : registryOf before user with
    | none =>
        rw [h.absent hnone hbefore]
        refine ⟨rfl, fun plain hlogin => ?_⟩
        obtain ⟨stored, hstored, -⟩ := (letIn_iff hcolon).mp hlogin
        cases hbefore.symm.trans hstored
    | some credential =>
        obtain ⟨new, hnew, hmigrated, hunmigrated⟩ := h.kept hnone credential hbefore
        rw [hnew]
        refine ⟨rfl, fun plain hlogin => ?_⟩
        obtain ⟨stored, hstored, hverify⟩ := (letIn_iff hcolon).mp hlogin
        obtain rfl : credential = stored := Option.some.inj (hbefore.symm.trans hstored)
        refine (letIn_iff hcolon).mpr ⟨new, hnew, ?_⟩
        by_cases hmem : Command.migrate ∈ commands
        · exact (hmigrated hmem).verify hverify
        · rwa [hunmigrated hmem]
  plaintext credential hafter hplain := by
    cases hlast : lastAbout user commands with
    | none =>
        cases hbefore : registryOf before user with
        | none => cases (h.absent hlast hbefore).symm.trans hafter
        | some old =>
            obtain ⟨new, hnew, hmigrated, hunmigrated⟩ := h.kept hlast old hbefore
            obtain rfl : new = credential := Option.some.inj (hnew.symm.trans hafter)
            have hmem : Command.migrate ∉ commands := fun hmem => by
              rw [(hmigrated hmem).isHashed] at hplain
              cases hplain
            exact ⟨congrArg some (hunmigrated hmem).symm, rfl, hmem⟩
    | some command =>
        have habout : command.About user = true := by
          have hmem := List.mem_of_getLast? hlast
          exact (List.mem_filter.mp hmem).2
        cases command with
        | look => cases habout
        | migrate => cases habout
        | remove username => cases (h.removed _ hlast).symm.trans hafter
        | add username password salt =>
            obtain ⟨hashed, hhash, hhashed⟩ := h.added _ _ _ hlast
            obtain rfl : hashed = credential := Option.some.inj (hhashed.symm.trans hafter)
            rw [hashPassword_eq, Except.ok.injEq] at hhash
            rw [← hhash, isHashed_hashRecord] at hplain
            cases hplain

/-- **Logins after a session.**  Whatever users file there is and whatever sequence of
invocations is run on it, among them wrong ones, no invocation raises an exception; and the
proxy that is started on the result lets in exactly who was added last, with the password
given then, nobody who was removed last, and every other user as before. -/
theorem logins_after_session (cfg : HandlerConfig) (kdf : Pbkdf2) (invs : List Invocation)
    (file : Option Text) (h : ∀ inv ∈ invs, (inv.command cfg.rt).Storable) :
    ∃ file', session cfg.rt kdf invs file = .ok file' ∧ ∀ user, ':' ∉ user →
      Logins cfg kdf user file file' (invs.map (Invocation.command cfg.rt)) := by
  obtain ⟨file', hsession, hfate⟩ := fate_of_session file h
  exact ⟨file', hsession, fun user hcolon => logins_of_fate hcolon (hfate user)⟩

/-- `bob` is added, somebody mistypes a command, and the file is migrated. -/
def smallSession : List Invocation :=
  [⟨[txt "ADD", txt "bob", txt "pw"], fun _ => zeroSalt⟩, ⟨[txt "delete"], fun _ => zeroSalt⟩,
    ⟨[txt "migrate"], fun _ => zeroSalt⟩]

theorem logins_after_session_bob :
    ∃ file', session oneUser.rt copyingKdf smallSession (some (txt "al:secret\n")) = .ok file' ∧
      LetIn oneUser copyingKdf file' (txt "bob") (txt "pw") ∧
      ¬ LetIn oneUser copyingKdf file' (txt "bob") (txt "wp") ∧
      (LetIn oneUser copyingKdf (some (txt "al:secret\n")) (txt "al") (txt "secret") →
        LetIn oneUser copyingKdf file' (txt "al") (txt "secret")) := by
  have hstorable : ∀ inv ∈ smallSession, (inv.command oneUser.rt).Storable := by
    intro inv hinv
    simp only [smallSession, List.mem_cons, List.not_mem_nil, or_false] at hinv
    rcases hinv with rfl | rfl | rfl
    · exact ⟨by decide, by decide, by decide, by decide, by decide⟩
    · exact trivial
    · exact trivial
  obtain ⟨file', hsession, hlogins⟩ :=
    logins_after_session oneUser copyingKdf smallSession (some (txt "al:secret\n")) hstorable
  have hadded := (hlogins (txt "bob") (by decide)).added _ _ _ rfl
  refine ⟨file', hsession, (hadded (txt "pw")).mpr rfl, fun hwrong => ?_, ?_⟩
  · have hderived := (hadded (txt "wp")).mp hwrong
    revert hderived
    decide +kernel
  · exact ((hlogins (txt "al") (by decide)).untouched rfl).2 _

end Proxy
end NetworkProxy
