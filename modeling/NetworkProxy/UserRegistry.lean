import NetworkProxy.TextFile
import NetworkProxy.OrderedDict
import NetworkProxy.PyTextLaws

/-!
# The users file

`load_users` of `auth.py` and `_save_users` of `manage_users.py`.

* `storable_loadUsers`: what a file declares can be written to a file again.
* `get?_loadUsers_saveUsers`: a registry of that kind is read back as it was written.
-/

namespace NetworkProxy
namespace Auth

open Py

/-- The registry: user names with their stored credentials. -/
abbrev Users := OrderedDict Text Text

/-- One round of the loop of `load_users`. -/
def loadLine (users : Users) (line : Text) : Users :=
  let line := strip line
  if line = [] ∨ line.head? = some '#' then users
  else
    match splitFirst ':' line with
    | some (username, credential) => users.set (strip username) (strip credential)
    | none => users

/-- `load_users`; `none` is a missing file. -/
def loadUsers : Option Text → Users
  | none => OrderedDict.empty
  | some text => (fileLines text).foldl loadLine OrderedDict.empty

/-- The order of `sorted` on the items of a registry. -/
def itemLe (p q : Text × Text) : Bool := decide (p.1 < q.1 ∨ (p.1 = q.1 ∧ p.2 ≤ q.2))

/-- `f"{username}:{credential}"`. -/
def userLine (p : Text × Text) : Text := p.1 ++ ':' :: p.2

/-- The comment lines at the head of a written file. -/
def fileHeader : List Text :=
  [txt "# Proxy user credentials (managed by manage_users.py)",
    txt "# Format: username:pbkdf2$iterations$salt$hash"]

/-- `_save_users`: the text it writes. -/
def saveUsers (users : Users) : Text :=
  writeLines (fileHeader ++ (users.items.mergeSort itemLe).map userLine)

/-! ## What a users file can hold -/

/-- A user name that a line of the file can hold. -/
structure StorableName (username : Text) : Prop where
  colon : ':' ∉ username
  newline : '\n' ∉ username
  carriageReturn : '\r' ∉ username
  stripped : strip username = username
  comment : username.head? ≠ some '#'

/-- A credential that a line of the file can hold. -/
structure StorableCredential (credential : Text) : Prop where
  newline : '\n' ∉ credential
  carriageReturn : '\r' ∉ credential
  stripped : strip credential = credential

/-- A registry that a file can hold. -/
def StorableUsers (users : Users) : Prop :=
  ∀ p, p ∈ users.items → StorableName p.1 ∧ StorableCredential p.2

theorem storable_empty : StorableUsers OrderedDict.empty := by
  intro p hp
  cases hp

theorem StorableUsers.get? {users : Users} (h : StorableUsers users) {username credential : Text}
    (hget : users.get? username = some credential) :
    StorableName username ∧ StorableCredential credential :=
  h _ (OrderedDict.mem_items_of_get? hget)

/-- A name that cannot be stored is in no such registry. -/
theorem StorableUsers.get?_eq_none {users : Users} (h : StorableUsers users) {username : Text}
    (hname : ¬ StorableName username) : users.get? username = none := by
  cases hget : users.get? username with
  | none => rfl
  | some credential => exact absurd (h.get? hget).1 hname

theorem StorableUsers.set {users : Users} (h : StorableUsers users) {username credential : Text}
    (hname : StorableName username) (hcredential : StorableCredential credential) :
    StorableUsers (users.set username credential) := by
  intro p hp
  have hget : (users.set username credential).get? p.1 = some p.2 :=
    OrderedDict.get?_of_mem_items hp
  rw [OrderedDict.get?_set] at hget
  split at hget
  · rename_i hkey
    cases hget
    exact ⟨hkey ▸ hname, hcredential⟩
  · exact h.get? hget

section Strip

theorem mem_of_mem_strip {c : Char} {s : Text} (h : c ∈ strip s) : c ∈ s :=
  (stripBy_isInfix isSpace s).subset h

theorem strip_eq_self_iff {s : Text} :
    strip s = s ↔ (∀ c, s.head? = some c → isSpace c = false) ∧
      (∀ c, s.getLast? = some c → isSpace c = false) := by
  constructor
  · intro h
    rw [← h]
    exact ⟨fun c hc => head?_stripBy hc, fun c hc => getLast?_stripBy hc⟩
  · intro h
    exact stripBy_eq_self h.1 h.2

/-- Stripping leaves a head that is not a blank. -/
theorem head?_strip {c : Char} {s : Text} (hhead : s.head? = some c) (hc : isSpace c = false) :
    (strip s).head? = some c := by
  obtain ⟨t, rfl⟩ := List.head?_eq_some_iff.mp hhead
  have hne : strip (c :: t) ≠ [] := stripBy_ne_nil List.mem_cons_self hc
  have hdrop : (c :: t).dropWhile isSpace = c :: t :=
    List.dropWhile_cons_of_neg (by simp [hc])
  have hprefix : strip (c :: t) <+: c :: t := by
    rw [strip, ← List.reverse_suffix, stripBy, List.reverse_reverse, hdrop]
    exact List.dropWhile_suffix isSpace
  obtain ⟨d, rest, hstrip⟩ := List.exists_cons_of_ne_nil hne
  rw [hstrip, List.cons_prefix_cons] at hprefix
  rw [hstrip, hprefix.1]
  rfl

end Strip

/-- The part of a line before its colon can be stored as a name. -/
theorem storableName_of_line {line username credential : Text}
    (hline : '\n' ∉ line ∧ '\r' ∉ line) (hcomment : (strip line).head? ≠ some '#')
    (hsplit : splitFirst ':' (strip line) = some (username, credential)) :
    StorableName (strip username) := by
  obtain ⟨heq, hcolon⟩ := splitFirst_eq_some hsplit
  have hmem : ∀ c, c ∈ strip username → c ∈ line := by
    intro c hc
    refine mem_of_mem_strip ?_
    rw [heq]
    exact List.mem_append_left _ (mem_of_mem_strip hc)
  refine ⟨?_, ?_, ?_, strip_strip username, ?_⟩
  · exact fun hc => hcolon (mem_of_mem_strip hc)
  · exact fun hc => hline.1 (hmem _ hc)
  · exact fun hc => hline.2 (hmem _ hc)
  · intro hhash
    cases husername : username with
    | nil =>
        rw [husername] at hhash
        cases hhash
    | cons c rest =>
        have hhead : (strip line).head? = some c := by rw [heq, husername]; rfl
        have hc : (strip username).head? = some c :=
          head?_strip (by rw [husername]; rfl) (head?_stripBy hhead)
        rw [hc] at hhash
        exact hcomment (hhead.trans hhash)

/-- The part behind it can be stored as a credential. -/
theorem storableCredential_of_line {line username credential : Text}
    (hline : '\n' ∉ line ∧ '\r' ∉ line)
    (hsplit : splitFirst ':' (strip line) = some (username, credential)) :
    StorableCredential (strip credential) := by
  obtain ⟨heq, -⟩ := splitFirst_eq_some hsplit
  have hmem : ∀ c, c ∈ strip credential → c ∈ line := by
    intro c hc
    refine mem_of_mem_strip ?_
    rw [heq]
    exact List.mem_append_right _ (List.mem_cons_of_mem _ (mem_of_mem_strip hc))
  exact ⟨fun hc => hline.1 (hmem _ hc), fun hc => hline.2 (hmem _ hc), strip_strip credential⟩

/-- What a line without line ends declares can be stored. -/
theorem storable_loadLine {users : Users} (h : StorableUsers users) {line : Text}
    (hline : '\n' ∉ line ∧ '\r' ∉ line) : StorableUsers (loadLine users line) := by
  rw [loadLine]
  split
  · exact h
  · rename_i hkept
    rw [not_or] at hkept
    split
    · rename_i username credential hsplit
      exact h.set (storableName_of_line hline hkept.2 hsplit)
        (storableCredential_of_line hline hsplit)
    · exact h

theorem storable_foldl_loadLine {lines : List Text}
    (hlines : ∀ line, line ∈ lines → '\n' ∉ line ∧ '\r' ∉ line) :
    ∀ {users : Users}, StorableUsers users → StorableUsers (lines.foldl loadLine users) := by
  induction lines with
  | nil => exact fun h => h
  | cons line lines ih =>
      intro users h
      rw [List.foldl_cons]
      exact ih (fun l hl => hlines l (List.mem_cons_of_mem _ hl))
        (storable_loadLine h (hlines line List.mem_cons_self))

/-- What a file declares can be stored. -/
theorem storable_loadUsers (file : Option Text) : StorableUsers (loadUsers file) := by
  cases file with
  | none => exact storable_empty
  | some text =>
      exact storable_foldl_loadLine (fun line hline => no_line_end_of_mem_fileLines hline)
        storable_empty

/-! ## Written and read back -/

section ReadBack

variable {username credential : Text}

theorem head?_userLine :
    (userLine (username, credential)).head? = some (username.head?.getD ':') := by
  cases username <;> rfl

theorem getLast?_userLine :
    (userLine (username, credential)).getLast? = some (credential.getLast?.getD ':') := by
  rw [userLine, List.getLast?_append]
  cases credential with
  | nil => rfl
  | cons c rest =>
      rw [List.getLast?_cons_cons]
      cases hlast : (c :: rest).getLast? with
      | none => simp at hlast
      | some d => rfl

/-- Nothing is stripped from the line of a user. -/
theorem strip_userLine (hname : strip username = username)
    (hcredential : strip credential = credential) :
    strip (userLine (username, credential)) = userLine (username, credential) := by
  have hcolon : isSpace ':' = false := by decide
  refine strip_eq_self_iff.mpr ⟨fun c hc => ?_, fun c hc => ?_⟩
  · rw [head?_userLine, Option.some.injEq] at hc
    cases hhead : username.head? with
    | none => rw [← hc, hhead]; exact hcolon
    | some d =>
        rw [← hc, hhead]
        exact (strip_eq_self_iff.mp hname).1 d hhead
  · rw [getLast?_userLine, Option.some.injEq] at hc
    cases hlast : credential.getLast? with
    | none => rw [← hc, hlast]; exact hcolon
    | some d =>
        rw [← hc, hlast]
        exact (strip_eq_self_iff.mp hcredential).2 d hlast

/-- The line of a user is neither empty nor a comment. -/
theorem userLine_kept (hcomment : username.head? ≠ some '#') :
    ¬ (userLine (username, credential) = [] ∨
      (userLine (username, credential)).head? = some '#') := by
  rintro (hnil | hhash)
  · exact List.append_ne_nil_of_right_ne_nil username (List.cons_ne_nil ':' credential) hnil
  · rw [head?_userLine, Option.some.injEq] at hhash
    cases hhead : username.head? with
    | none =>
        rw [hhead] at hhash
        cases hhash
    | some d =>
        rw [hhead, Option.getD_some] at hhash
        exact hcomment (hhash ▸ hhead)

/-- The line of a user is read as that user. -/
theorem loadLine_userLine (hname : StorableName username)
    (hcredential : StorableCredential credential) (users : Users) :
    loadLine users (userLine (username, credential)) = users.set username credential := by
  rw [loadLine, strip_userLine hname.stripped hcredential.stripped,
    if_neg (userLine_kept hname.comment), userLine, splitFirst_append hname.colon]
  dsimp only
  rw [hname.stripped, hcredential.stripped]

theorem loadLine_header {line : Text} (h : line ∈ fileHeader) (users : Users) :
    loadLine users line = users := by
  have hhead : ∀ rest : Text, loadLine users ('#' :: rest) = users := by
    intro rest
    have hhash : (strip ('#' :: rest)).head? = some '#' :=
      head?_strip rfl (by decide)
    rw [loadLine]
    rw [if_pos (Or.inr hhash)]
  rw [fileHeader, List.mem_cons, List.mem_singleton] at h
  rcases h with rfl | rfl
  · exact hhead _
  · exact hhead _

end ReadBack

theorem foldl_loadLine_userLine {items : List (Text × Text)}
    (h : ∀ p, p ∈ items → StorableName p.1 ∧ StorableCredential p.2) :
    ∀ users : Users, (items.map userLine).foldl loadLine users =
      items.foldl (fun users p => users.set p.1 p.2) users := by
  induction items with
  | nil => exact fun _ => rfl
  | cons p items ih =>
      intro users
      obtain ⟨hname, hcredential⟩ := h p List.mem_cons_self
      rw [List.map_cons, List.foldl_cons, List.foldl_cons,
        loadLine_userLine hname hcredential,
        ih (fun q hq => h q (List.mem_cons_of_mem _ hq))]

/-- The lines of a written file, when its users can be stored. -/
theorem fileLines_written {items : List (Text × Text)}
    (h : ∀ p, p ∈ items → StorableName p.1 ∧ StorableCredential p.2) :
    fileLines (writeLines (fileHeader ++ items.map userLine)) =
      fileHeader ++ items.map userLine := by
  refine fileLines_writeLines fun line hline => ?_
  rcases List.mem_append.mp hline with hline | hline
  · rw [fileHeader, List.mem_cons, List.mem_singleton] at hline
    rcases hline with rfl | rfl <;> decide +kernel
  · obtain ⟨p, hp, rfl⟩ := List.mem_map.mp hline
    obtain ⟨hname, hcredential⟩ := h p hp
    rw [userLine]
    constructor
    · rw [List.mem_append, List.mem_cons, not_or, not_or]
      exact ⟨hname.newline, by decide, hcredential.newline⟩
    · rw [List.mem_append, List.mem_cons, not_or, not_or]
      exact ⟨hname.carriageReturn, by decide, hcredential.carriageReturn⟩

/-- Users that can be stored are assigned one after the other when their file is read. -/
theorem loadUsers_written {items : List (Text × Text)}
    (h : ∀ p, p ∈ items → StorableName p.1 ∧ StorableCredential p.2) :
    loadUsers (some (writeLines (fileHeader ++ items.map userLine))) =
      items.foldl (fun users p => users.set p.1 p.2) OrderedDict.empty := by
  have hheader : fileHeader.foldl loadLine OrderedDict.empty = OrderedDict.empty := by
    rw [fileHeader, List.foldl_cons, loadLine_header List.mem_cons_self, List.foldl_cons,
      loadLine_header (List.mem_cons_of_mem _ (List.mem_singleton.mpr rfl)), List.foldl_nil]
  rw [loadUsers, fileLines_written h, List.foldl_append, hheader, foldl_loadLine_userLine h]

/-- Written, then read.  A registry that can be stored is read back from the file it is
written to. -/
theorem get?_loadUsers_saveUsers {users : Users} (h : StorableUsers users) (username : Text) :
    (loadUsers (some (saveUsers users))).get? username = users.get? username := by
  have hsorted : ∀ p, p ∈ users.items.mergeSort itemLe →
      StorableName p.1 ∧ StorableCredential p.2 :=
    fun p hp => h p (List.mem_mergeSort.mp hp)
  rw [saveUsers, loadUsers_written hsorted, OrderedDict.get?_foldl_set]
  exact OrderedDict.lastValue_of_perm users (List.mergeSort_perm _ _) username

end Auth
end NetworkProxy
