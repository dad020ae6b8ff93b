import NetworkProxy.PasswordHash
import NetworkProxy.UserRegistry

/-!
# Removing and migrating users

`cmd_remove` and `cmd_migrate` of `manage_users.py`.

* `loadUsers_remove`: removed users are gone from the file that is written, and all others
  are read back as they were.
* `cmdMigrate_spec`: a migration locks nobody out, and a second one finds nothing to do.
-/

namespace NetworkProxy
namespace Auth

open Py

/-- How a command ends: the users file, the lines on the terminal and the exit status. -/
structure CommandRun where
  file : Option Text
  printed : List Text
  exitStatus : ℕ

/-- `cmd_remove`. -/
def cmdRemove (file : Option Text) (username : Text) : CommandRun :=
  let users := loadUsers file
  if (users.get? username).isNone then
    { file := file
      printed := [txt "[-] User not found: " ++ username]
      exitStatus := 1 }
  else
    { file := some (saveUsers (users.erase username))
      printed := [txt "[+] Removed user: " ++ username]
      exitStatus := 0 }

/-! ## Removal -/

theorem StorableUsers.erase {users : Users} (h : StorableUsers users) (username : Text) :
    StorableUsers (users.erase username) :=
  fun p hp => h p (List.mem_of_mem_filter hp)

theorem StorableUsers.foldl_erase {names : List Text} :
    ∀ {users : Users}, StorableUsers users →
      StorableUsers (names.foldl OrderedDict.erase users) := by
  induction names with
  | nil => exact fun h => h
  | cons name names ih => exact fun h => ih (h.erase name)

/-- What `cmd_remove` leaves in the file. -/
theorem get?_loadUsers_cmdRemove (file : Option Text) (username user : Text) :
    (loadUsers (cmdRemove file username).file).get? user =
      if username = user then none else (loadUsers file).get? user := by
  unfold cmdRemove
  dsimp only
  split
  · rename_i habsent
    rw [Option.isNone_iff_eq_none] at habsent
    split
    · rename_i heq
      exact heq ▸ habsent
    · rfl
  · rw [get?_loadUsers_saveUsers ((storable_loadUsers file).erase username),
      OrderedDict.get?_erase]

/--
**Removals survive the file.**  Whatever a users file holds, and whichever users are deleted from
the registry read from it, the registry is read back as it was written; `cmd_remove` removes its
user and leaves every other one with its credential.
-/
theorem loadUsers_remove (file : Option Text) :
    (∀ (names : List Text) (user : Text),
      (loadUsers (some (saveUsers (names.foldl OrderedDict.erase (loadUsers file))))).get? user =
        (names.foldl OrderedDict.erase (loadUsers file)).get? user) ∧
    (∀ username user : Text,
      (loadUsers (cmdRemove file username).file).get? user =
        if username = user then none else (loadUsers file).get? user) := by
  constructor
  · intro names user
    exact get?_loadUsers_saveUsers (storable_loadUsers file).foldl_erase user
  · exact get?_loadUsers_cmdRemove file

/-! ## Migration -/

/-- `credential.startswith("pbkdf2$")`. -/
def isHashed (credential : Text) : Bool := (txt "pbkdf2$").isPrefixOf credential

/-- The variables of the loop of `cmd_migrate`, with what has been printed. -/
structure Migration where
  users : Users
  migrated : ℕ
  printed : List Text

section Migrate

variable (kdf : Pbkdf2) (salts : ℕ → Salt)

/-- One round of the loop; `salts n` is the salt that is drawn for hash `n`. -/
def migrateUser (m : Migration) (p : Text × Text) : Except Text Migration :=
  if isHashed p.2 then .ok m
  else do
    let hashed ← hashPassword kdf p.2 (salts m.migrated)
    return {
      users := m.users.set p.1 hashed
      migrated := m.migrated + 1
      printed := m.printed ++ [txt "  [+] Migrated: " ++ p.1] }

/-- `cmd_migrate`.  The loop assigns to the user it stands at only, so it runs over the items
that the file declares. -/
def cmdMigrate (file : Option Text) : Except Text CommandRun := do
  let users := loadUsers file
  let m ← users.items.foldlM (migrateUser kdf salts) ⟨users, 0, []⟩
  if 0 < m.migrated then
    return {
      file := some (saveUsers m.users)
      printed := m.printed ++
        [txt "\n[+] Migrated " ++ showInt m.migrated ++ txt " user(s) to PBKDF2."]
      exitStatus := 0 }
  else
    return {
      file := file
      printed := m.printed ++ [txt "[=] All users already use hashed credentials."]
      exitStatus := 0 }

end Migrate

/-- A record can be stored. -/
theorem storableCredential_hashRecord (iterations : ℕ) (salt dk : Bytes) :
    StorableCredential (hashRecord iterations salt dk) where
  newline hc := absurd (isSpace_of_mem_hashRecord hc) (by decide)
  carriageReturn hc := absurd (isSpace_of_mem_hashRecord hc) (by decide)
  stripped := stripBy_eq_self
    (fun _ hc => isSpace_of_mem_hashRecord (List.mem_of_head? hc))
    (fun _ hc => isSpace_of_mem_hashRecord (List.mem_of_getLast? hc))

section Laws

variable {rt : PyRuntime} {kdf : Pbkdf2}

/-- What a migration makes of a credential. -/
def Rehashed (kdf : Pbkdf2) (old new : Text) : Prop :=
  if isHashed old then new = old else ∃ salt : Salt, hashPassword kdf old salt = .ok new

theorem isHashed_hashRecord (iterations : ℕ) (salt dk : Bytes) :
    isHashed (hashRecord iterations salt dk) = true := rfl

theorem Rehashed.isHashed {old new : Text} (h : Rehashed kdf old new) :
    Auth.isHashed new = true := by
  unfold Rehashed at h
  split at h
  · rename_i hold
    rw [h]
    exact hold
  · obtain ⟨salt, hhash⟩ := h
    rw [hashPassword_eq, Except.ok.injEq] at hhash
    rw [← hhash]
    exact isHashed_hashRecord _ _ _

theorem Rehashed.eq_of_isHashed {old new : Text} (h : Rehashed kdf old new)
    (hold : Auth.isHashed old = true) : new = old := by
  rwa [Rehashed, if_pos hold] at h

/-- A password that opened the old credential opens the new one. -/
theorem Rehashed.verify {old new plain : Text} (h : Rehashed kdf old new)
    (hverify : verifyPassword rt kdf plain old = .ok true) :
    verifyPassword rt kdf plain new = .ok true := by
  unfold Rehashed at h
  split at h
  · rw [h]
    exact hverify
  · rename_i hplain
    obtain ⟨salt, hhash⟩ := h
    rw [hashPassword_eq, Except.ok.injEq] at hhash
    have hsame : plain = old := by
      have hnot : ¬ (hashPrefix ++ ['$']).isPrefixOf old = true := hplain
      have hcompare : compareDigest plain old = .ok true := by
        rwa [verifyPassword, if_neg hnot] at hverify
      rw [compareDigest] at hcompare
      split at hcompare
      · rw [Except.ok.injEq] at hcompare
        exact of_decide_eq_true hcompare
      · cases hcompare
    rw [hsame, ← hhash, verifyPassword_hashPassword, decide_eq_true rfl]

/-- The credential that was in the file is a password for the new one. -/
theorem Rehashed.verify_old {old new : Text} (h : Rehashed kdf old new)
    (hold : Auth.isHashed old = false) : verifyPassword rt kdf old new = .ok true := by
  rw [Rehashed, hold, if_neg (by decide)] at h
  obtain ⟨salt, hhash⟩ := h
  rw [hashPassword_eq, Except.ok.injEq] at hhash
  rw [← hhash, verifyPassword_hashPassword, decide_eq_true rfl]

/-- What the loop does to the users in `items`. -/
structure Migrates (kdf : Pbkdf2) (items : List (Text × Text)) (m m' : Migration) : Prop where
  others : ∀ user, user ∉ items.map Prod.fst → m'.users.get? user = m.users.get? user
  rehashed : ∀ p, p ∈ items → ∃ new, m'.users.get? p.1 = some new ∧ Rehashed kdf p.2 new
  migrated : m'.migrated = m.migrated + items.countP (fun p => !isHashed p.2)
  storable : StorableUsers m.users → StorableUsers m'.users

/-- One round, then the rest of the loop. -/
theorem Migrates.cons {p : Text × Text} {items : List (Text × Text)} {m m₁ m' : Migration}
    (hfirst : Migrates kdf [p] m m₁) (hrest : Migrates kdf items m₁ m')
    (hp : p.1 ∉ items.map Prod.fst) : Migrates kdf (p :: items) m m' where
  others user huser := by
    rw [List.map_cons, List.mem_cons, not_or] at huser
    rw [hrest.others user huser.2, hfirst.others user (by simpa using huser.1)]
  rehashed q hq := by
    rcases List.mem_cons.mp hq with rfl | hq
    · obtain ⟨new, hnew, hrehash⟩ := hfirst.rehashed q List.mem_cons_self
      exact ⟨new, (hrest.others q.1 hp).trans hnew, hrehash⟩
    · exact hrest.rehashed q hq
  migrated := by
    rw [hrest.migrated, hfirst.migrated, List.countP_cons, List.countP_cons, List.countP_nil]
    omega
  storable h := hrest.storable (hfirst.storable h)

/-- A round of the loop. -/
theorem migrateUser_eq_ok (kdf : Pbkdf2) (salts : ℕ → Salt) (m : Migration) {p : Text × Text}
    (hname : StorableName p.1) (hp : m.users.get? p.1 = some p.2) :
    ∃ m', migrateUser kdf salts m p = .ok m' ∧ Migrates kdf [p] m m' := by
  rw [migrateUser]
  cases hhashed : isHashed p.2 with
  | true =>
      refine ⟨m, if_pos rfl, ?_⟩
      exact
        { others := fun _ _ => rfl
          rehashed := by
            intro q hq
            rw [List.mem_singleton] at hq
            subst hq
            exact ⟨q.2, hp, by rw [Rehashed, if_pos hhashed]⟩
          migrated := by simp [hhashed]
          storable := fun h => h }
  | false =>
      refine ⟨_, rfl, ?_⟩
      exact
        { others := by
            intro user huser
            rw [List.map_cons, List.map_nil, List.mem_singleton] at huser
            exact (OrderedDict.get?_set _ _ _ _).trans (if_neg (Ne.symm huser))
          rehashed := by
            intro q hq
            rw [List.mem_singleton] at hq
            subst hq
            refine ⟨_, OrderedDict.get?_set_self _ _ _, ?_⟩
            rw [Rehashed, hhashed, if_neg (by decide)]
            exact ⟨salts m.migrated, rfl⟩
          migrated := by simp [hhashed]
          storable := fun h => h.set hname (storableCredential_hashRecord _ _ _) }

/-- The loop. -/
theorem foldlM_migrateUser (kdf : Pbkdf2) (salts : ℕ → Salt) {items : List (Text × Text)} :
    ∀ {m : Migration}, (items.map Prod.fst).Nodup →
      (∀ p, p ∈ items → StorableName p.1 ∧ m.users.get? p.1 = some p.2) →
      ∃ m', items.foldlM (migrateUser kdf salts) m = .ok m' ∧ Migrates kdf items m m' := by
  induction items with
  | nil =>
      intro m _ _
      exact ⟨m, rfl, fun _ _ => rfl, by simp, rfl, fun h => h⟩
  | cons p items ih =>
      intro m hnd hitems
      rw [List.map_cons, List.nodup_cons] at hnd
      obtain ⟨hname, hp⟩ := hitems p List.mem_cons_self
      obtain ⟨m₁, hround, hfirst⟩ := migrateUser_eq_ok kdf salts m hname hp
      have hitems₁ : ∀ q, q ∈ items → StorableName q.1 ∧ m₁.users.get? q.1 = some q.2 := by
        intro q hq
        obtain ⟨hqname, hq'⟩ := hitems q (List.mem_cons_of_mem _ hq)
        have hne : q.1 ∉ [p].map Prod.fst := by
          rw [List.map_cons, List.map_nil, List.mem_singleton]
          exact fun he => hnd.1 (he ▸ List.mem_map_of_mem hq)
        exact ⟨hqname, (hfirst.others q.1 hne).trans hq'⟩
      obtain ⟨m', hloop, hrest⟩ := ih hnd.2 hitems₁
      refine ⟨m', ?_, hfirst.cons hrest hnd.1⟩
      rw [List.foldlM_cons, hround]
      exact hloop

/-- The credential of every user is made what a migration makes of it, and only of users. -/
structure Migrated (kdf : Pbkdf2) (old new : Users) : Prop where
  absent : ∀ user, old.get? user = none → new.get? user = none
  rehashed : ∀ user credential, old.get? user = some credential →
    ∃ new', new.get? user = some new' ∧ Rehashed kdf credential new'

/-- What `cmd_migrate` leaves in the file. -/
theorem cmdMigrate_eq_ok (kdf : Pbkdf2) (salts : ℕ → Salt) (file : Option Text) :
    ∃ run, cmdMigrate kdf salts file = .ok run ∧
      Migrated kdf (loadUsers file) (loadUsers run.file) ∧
      ((∀ p, p ∈ (loadUsers file).items → isHashed p.2 = true) → run.file = file) := by
  have hitems : ∀ p, p ∈ (loadUsers file).items →
      StorableName p.1 ∧ (loadUsers file).get? p.1 = some p.2 :=
    fun p hp => ⟨(storable_loadUsers file p hp).1, OrderedDict.get?_of_mem_items hp⟩
  obtain ⟨m, hloop, hm⟩ := foldlM_migrateUser kdf salts
    (m := ⟨loadUsers file, 0, []⟩) (loadUsers file).nodup hitems
  have hmigrated : m.migrated = (loadUsers file).items.countP (fun p => !isHashed p.2) := by
    rw [hm.migrated, Nat.zero_add]
  have hrun : cmdMigrate kdf salts file =
      (if 0 < m.migrated then
        .ok {
          file := some (saveUsers m.users)
          printed := m.printed ++
            [txt "\n[+] Migrated " ++ showInt m.migrated ++ txt " user(s) to PBKDF2."]
          exitStatus := 0 }
      else
        .ok {
          file := file
          printed := m.printed ++ [txt "[=] All users already use hashed credentials."]
          exitStatus := 0 }) := by
    rw [cmdMigrate, hloop]
    rfl
  rw [hrun]
  by_cases hpos : 0 < m.migrated
  · rw [if_pos hpos]
    refine ⟨_, rfl, ?_, fun hall => ?_⟩
    · have hread : ∀ user, (loadUsers (some (saveUsers m.users))).get? user =
          m.users.get? user :=
        get?_loadUsers_saveUsers (hm.storable (storable_loadUsers file))
      refine ⟨fun user hnone => ?_, fun user credential hget => ?_⟩
      · rw [hread, hm.others user ((OrderedDict.get?_eq_none_iff _ _).mp hnone)]
        exact hnone
      · rw [hread]
        exact hm.rehashed _ (OrderedDict.mem_items_of_get? hget)
    · rw [hmigrated, List.countP_pos_iff] at hpos
      obtain ⟨p, hp, hplain⟩ := hpos
      rw [hall p hp] at hplain
      cases hplain
  · rw [if_neg hpos]
    refine ⟨_, rfl, ⟨fun _ hnone => hnone, fun user credential hget => ?_⟩, fun _ => rfl⟩
    have hhashed : isHashed credential = true := by
      rw [hmigrated, List.countP_pos_iff] at hpos
      by_contra hplain
      exact hpos ⟨_, OrderedDict.mem_items_of_get? hget, by simpa using hplain⟩
    exact ⟨credential, hget, by rw [Rehashed, if_pos hhashed]⟩

/--
**Migration keeps every login.**  After `cmd_migrate` the users are the same; a hashed credential
is unchanged; any other one has become a hash that it verifies against; whoever could log in still
can; and a second `cmd_migrate` leaves the file as it is.
-/
theorem cmdMigrate_spec (rt : PyRuntime) (kdf : Pbkdf2) (salts : ℕ → Salt) (file : Option Text) :
    ∃ run, cmdMigrate kdf salts file = .ok run ∧
      (∀ user, ((loadUsers run.file).get? user).isSome =
        ((loadUsers file).get? user).isSome) ∧
      (∀ user credential, (loadUsers file).get? user = some credential →
        (isHashed credential = true → (loadUsers run.file).get? user = some credential) ∧
        (isHashed credential = false →
          ∃ hashed, (loadUsers run.file).get? user = some hashed ∧ isHashed hashed = true ∧
            verifyPassword rt kdf credential hashed = .ok true)) ∧
      (∀ user old new plain, (loadUsers file).get? user = some old →
        (loadUsers run.file).get? user = some new →
        verifyPassword rt kdf plain old = .ok true →
        verifyPassword rt kdf plain new = .ok true) ∧
      (∀ salts' : ℕ → Salt, ∃ again, cmdMigrate kdf salts' run.file = .ok again ∧
        again.file = run.file) := by
  obtain ⟨run, hrun, hmigrated, -⟩ := cmdMigrate_eq_ok kdf salts file
  refine ⟨run, hrun, fun user => ?_,
    fun user credential hget => ⟨fun hhashed => ?_, fun hplain => ?_⟩,
    fun user old new plain hold hnew hverify => ?_, fun salts' => ?_⟩
  · cases hget : (loadUsers file).get? user with
    | none => rw [hmigrated.absent user hget]
    | some credential =>
        obtain ⟨new, hnew, -⟩ := hmigrated.rehashed user credential hget
        rw [hnew]
        rfl
  · obtain ⟨new, hnew, hrehash⟩ := hmigrated.rehashed user credential hget
    rw [hnew, hrehash.eq_of_isHashed hhashed]
  · obtain ⟨new, hnew, hrehash⟩ := hmigrated.rehashed user credential hget
    exact ⟨new, hnew, hrehash.isHashed, hrehash.verify_old hplain⟩
  · obtain ⟨new', hnew', hrehash⟩ := hmigrated.rehashed user old hold
    rw [hnew, Option.some.injEq] at hnew'
    exact (hnew' ▸ hrehash).verify hverify
  · obtain ⟨again, hagain, -, hfile⟩ := cmdMigrate_eq_ok kdf salts' run.file
    refine ⟨again, hagain, hfile fun p hp => ?_⟩
    have hnew : (loadUsers run.file).get? p.1 = some p.2 := OrderedDict.get?_of_mem_items hp
    cases hget : (loadUsers file).get? p.1 with
    | none =>
        rw [hmigrated.absent p.1 hget] at hnew
        cases hnew
    | some credential =>
        obtain ⟨new, hnew', hrehash⟩ := hmigrated.rehashed p.1 credential hget
        rw [hnew, Option.some.injEq] at hnew'
        exact hnew' ▸ hrehash.isHashed

end Laws

end Auth
end NetworkProxy
