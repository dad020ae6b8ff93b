import NetworkProxy.TextFile
import NetworkProxy.IpAddress
import NetworkProxy.UrlParse

/-!
# The blocklist

`filter.py`: the parser of the blocklist file and `is_blocked`.

* `suffix_splitOn_iff`: a word ends a host at a label boundary exactly when its labels
  are the last labels of the host.
* `isBlocked_iff_declared`: the two collections of the filter decide what the entries
  of the file say.
-/

namespace NetworkProxy

open Py

section Labels

universe u

variable {α : Type u}

/-- Joined pieces behind others follow a separator. -/
theorem exists_intercalate_append {c : α} {pieces : List (List α)} (hne : pieces ≠ []) :
    ∀ {front : List (List α)}, front ≠ [] →
      ∃ w, [c].intercalate (front ++ pieces) = w ++ c :: [c].intercalate pieces
  | [], h => absurd rfl h
  | [piece], _ =>
      ⟨piece, by rw [List.singleton_append, List.intercalate_cons_of_ne_nil hne]; simp⟩
  | piece :: next :: front, _ => by
      obtain ⟨w, hw⟩ := exists_intercalate_append (c := c) hne (List.cons_ne_nil next front)
      refine ⟨piece ++ [c] ++ w, ?_⟩
      rw [List.cons_append, List.intercalate_cons_of_ne_nil (by simp), hw,
        List.append_assoc _ w]

variable [DecidableEq α]

/-- The pieces of a word stand at the end of the pieces of a longer word when the word
ends the longer one right behind a separator. -/
theorem suffix_splitOn_iff {c : α} {entry host : List α} :
    entry.splitOn c <:+ host.splitOn c ↔ host = entry ∨ c :: entry <:+ host := by
  constructor
  · rintro ⟨front, hfront⟩
    have hhost : [c].intercalate (front ++ entry.splitOn c) = host := by
      rw [hfront, List.intercalate_splitOn]
    cases front with
    | nil =>
        rw [List.nil_append, List.intercalate_splitOn] at hhost
        exact Or.inl hhost.symm
    | cons label labels =>
        obtain ⟨w, hw⟩ := exists_intercalate_append (c := c) (List.splitOn_ne_nil c entry)
          (List.cons_ne_nil label labels)
        rw [List.intercalate_splitOn] at hw
        exact Or.inr ⟨w, hw.symm.trans hhost⟩
  · rintro (rfl | ⟨front, rfl⟩)
    · exact List.suffix_refl _
    · rw [List.splitOn_append_cons_self]
      exact List.suffix_append _ _

end Labels

/-- `_blocked_domains` and `_blocked_networks`. -/
structure Blocklist where
  domains : List Text
  networks : List IpNetwork

/-- The filter when there is no blocklist file. -/
def Blocklist.empty : Blocklist := ⟨[], []⟩

section Parse

variable (rt : PyRuntime)

/-- What a line of the file lists: `line.split("#", 1)[0].strip().lower()`. -/
def entryOf (line : Text) : Text := lower rt (strip (partition '#' line).1)

/-- One round of the loop of `_parse_blocklist`. -/
def parseLine (b : Blocklist) (line : Text) : Blocklist :=
  let entry := entryOf rt line
  if entry = [] then b
  else
    match (if '/' ∈ entry then ipNetwork entry else none) with
    | some network => { b with networks := b.networks ++ [network] }
    | none =>
        match ipNetwork entry with
        | some network => { b with networks := b.networks ++ [network] }
        | none => { b with domains := b.domains.insert entry }

/-- `_parse_blocklist`; `none` is a missing file. -/
def parseBlocklist : Option Text → Blocklist
  | none => Blocklist.empty
  | some text => (fileLines text).foldl (parseLine rt) Blocklist.empty

/-- The host that is looked up: `host.lower().strip()`. -/
def normalisedHost (host : Text) : Text := strip (lower rt host)

/-- `is_blocked(host)`. -/
def isBlocked (b : Blocklist) : Option Text → Bool
  | none => false
  | some host =>
      if host = [] then false
      else
        let host := normalisedHost rt host
        if host ∈ b.domains then true
        else if b.domains.any (fun blocked => ('.' :: blocked).isSuffixOf host) then true
        else
          match ipAddress host with
          | some addr => b.networks.any (fun network => network.contains addr)
          | none => false

/-- What an entry of the file says about a host: a network covers the addresses inside
it, any other entry the names that end in its labels. -/
def EntryMatches (entry host : Text) : Prop :=
  match ipNetwork entry with
  | some network => ∃ addr, ipAddress host = some addr ∧ network.contains addr = true
  | none => entry.splitOn '.' <:+ host.splitOn '.'

end Parse

variable {rt : PyRuntime}

/-- The two attempts to read a network come to one. -/
theorem parseLine_eq (b : Blocklist) (line : Text) :
    parseLine rt b line =
      if entryOf rt line = [] then b
      else
        match ipNetwork (entryOf rt line) with
        | some network => { b with networks := b.networks ++ [network] }
        | none => { b with domains := b.domains.insert (entryOf rt line) } := by
  rw [parseLine]
  by_cases hslash : '/' ∈ entryOf rt line
  · simp only [if_pos hslash]
    cases ipNetwork (entryOf rt line) <;> rfl
  · simp only [if_neg hslash]

/-- A host is matched by the blocklist when a domain ends it at a label boundary or a
network holds it. -/
def Blocklist.Matches (b : Blocklist) (host : Text) : Prop :=
  (∃ blocked, blocked ∈ b.domains ∧ blocked.splitOn '.' <:+ host.splitOn '.') ∨
    ∃ network, network ∈ b.networks ∧
      ∃ addr, ipAddress host = some addr ∧ network.contains addr = true

/-- One line adds to the blocklist what its entry says. -/
theorem matches_parseLine {b : Blocklist} {line host : Text} :
    (parseLine rt b line).Matches host ↔
      b.Matches host ∨
        (entryOf rt line ≠ [] ∧ EntryMatches (entryOf rt line) host) := by
  rw [parseLine_eq]
  by_cases hempty : entryOf rt line = []
  · simp [hempty]
  · rw [if_neg hempty, EntryMatches]
    cases hnet : ipNetwork (entryOf rt line) with
    | some network =>
        simp only [Blocklist.Matches, List.mem_append, List.mem_singleton, ne_eq, hempty,
          not_false_eq_true, true_and]
        constructor
        · rintro (hdomain | ⟨n, hn | rfl, haddr⟩)
          · exact Or.inl (Or.inl hdomain)
          · exact Or.inl (Or.inr ⟨n, hn, haddr⟩)
          · exact Or.inr haddr
        · rintro ((hdomain | ⟨n, hn, haddr⟩) | haddr)
          · exact Or.inl hdomain
          · exact Or.inr ⟨n, Or.inl hn, haddr⟩
          · exact Or.inr ⟨network, Or.inr rfl, haddr⟩
    | none =>
        simp only [Blocklist.Matches, List.mem_insert_iff, ne_eq, hempty,
          not_false_eq_true, true_and]
        constructor
        · rintro (⟨d, rfl | hd, hlabels⟩ | hnetwork)
          · exact Or.inr hlabels
          · exact Or.inl (Or.inl ⟨d, hd, hlabels⟩)
          · exact Or.inl (Or.inr hnetwork)
        · rintro ((⟨d, hd, hlabels⟩ | hnetwork) | hlabels)
          · exact Or.inl ⟨d, Or.inr hd, hlabels⟩
          · exact Or.inr hnetwork
          · exact Or.inl ⟨_, Or.inl rfl, hlabels⟩

/-- The lines of a file add up. -/
theorem matches_foldl_parseLine {host : Text} :
    ∀ {lines : List Text} {b : Blocklist},
      (lines.foldl (parseLine rt) b).Matches host ↔
        b.Matches host ∨
          ∃ line, line ∈ lines ∧ entryOf rt line ≠ [] ∧
            EntryMatches (entryOf rt line) host
  | [], b => by simp
  | line :: lines, b => by
      rw [List.foldl_cons, matches_foldl_parseLine, matches_parseLine, or_assoc]
      simp only [List.mem_cons, exists_eq_or_imp]

theorem not_matches_empty (host : Text) : ¬ Blocklist.empty.Matches host := by
  rintro (⟨d, hd, -⟩ | ⟨n, hn, -⟩)
  · exact List.not_mem_nil hd
  · exact List.not_mem_nil hn

/-- The lookups of `is_blocked` find what matches. -/
theorem isBlocked_iff_matches {b : Blocklist} {host : Text} (hne : host ≠ []) :
    isBlocked rt b (some host) = true ↔ b.Matches (normalisedHost rt host) := by
  rw [isBlocked, if_neg hne, Blocklist.Matches]
  simp only [suffix_splitOn_iff]
  by_cases hexact : normalisedHost rt host ∈ b.domains
  · rw [if_pos hexact]
    exact ⟨fun _ => Or.inl ⟨_, hexact, Or.inl rfl⟩, fun _ => rfl⟩
  · rw [if_neg hexact]
    have hsuffix : b.domains.any
          (fun blocked => ('.' :: blocked).isSuffixOf (normalisedHost rt host)) = true ↔
        ∃ blocked, blocked ∈ b.domains ∧
          (normalisedHost rt host = blocked ∨ '.' :: blocked <:+ normalisedHost rt host) := by
      rw [List.any_eq_true]
      constructor
      · rintro ⟨d, hd, hend⟩
        exact ⟨d, hd, Or.inr (List.isSuffixOf_iff_suffix.mp hend)⟩
      · rintro ⟨d, hd, rfl | hend⟩
        · exact absurd hd hexact
        · exact ⟨d, hd, List.isSuffixOf_iff_suffix.mpr hend⟩
    split
    · rename_i hany
      exact ⟨fun _ => Or.inl (hsuffix.mp hany), fun _ => rfl⟩
    · rename_i hany
      rw [← hsuffix]
      cases haddr : ipAddress (normalisedHost rt host) with
      | none => simp [hany]
      | some addr => simp [hany]

/-- **The decision of the filter is the meaning of its file.** -/
theorem isBlocked_iff_declared (text host : Text) (hne : host ≠ []) :
    isBlocked rt (parseBlocklist rt (some text)) (some host) = true ↔
      ∃ line, line ∈ fileLines text ∧ entryOf rt line ≠ [] ∧
        EntryMatches (entryOf rt line) (normalisedHost rt host) := by
  rw [isBlocked_iff_matches hne, parseBlocklist, matches_foldl_parseLine]
  simp [not_matches_empty]

/-- A name below a listed one. -/
theorem isBlocked_iff_declared_subdomain :
    ∃ line, line ∈ fileLines (txt "10.0.0.0/8\nExample.com # all of it\n") ∧
      entryOf asciiRuntime line ≠ [] ∧
      EntryMatches (entryOf asciiRuntime line)
        (normalisedHost asciiRuntime (txt "Sub.example.COM")) :=
  (isBlocked_iff_declared _ _ (by decide)).mp rfl

/-- Labels are compared whole, and an invalid range is a name. -/
example :
    let b := parseBlocklist asciiRuntime (some (txt "example.com\n10.0.0.0/33\n10.0.0.0/8"))
    isBlocked asciiRuntime b (some (txt "badexample.com")) = false ∧
      isBlocked asciiRuntime b (some (txt " 10.255.0.1")) = true ∧
      b.domains = [txt "10.0.0.0/33", txt "example.com"] := ⟨rfl, rfl, rfl⟩

end NetworkProxy
