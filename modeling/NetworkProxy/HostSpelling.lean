import NetworkProxy.Blocklist
import NetworkProxy.Handler

/-!
# Spellings of a host

`connect` resolves a host by more than its letters: it encodes a non-ASCII name with
IDNA, drops a root dot, ignores the case and reads numbers as `inet_aton` does.  The
filter knows the case only.

* `respellings_pass`: the other spellings of a listed host are not blocked.
* `case_respelling_is_blocked`: a host in other letters is blocked, and
  `handle_client` never connects to it.
-/

namespace NetworkProxy
namespace Proxy

open Py Http Handler

section Connect

/-- The value of a run of digits. -/
def numeral (base : Nat) (s : Text) : Option Nat :=
  match s.mapM hexDigit? with
  | none => none
  | some digits =>
      if s ≠ [] ∧ digits.all (fun d => decide (d < base)) then
        some (digits.foldl (fun n d => base * n + d) 0)
      else none

/-- A number as `inet_aton` reads it: hexadecimal, octal or decimal. -/
def atonPart : Text → Option Nat
  | '0' :: 'x' :: s => numeral 16 s
  | '0' :: 'X' :: s => numeral 16 s
  | '0' :: c :: s => numeral 8 (c :: s)
  | s => numeral 10 s

/-- `inet_aton`: up to four numbers, the last one filling the rest of the address. -/
def inetAton (s : Text) : Option (BitVec 32) :=
  match (s.splitOn '.').mapM atonPart with
  | none => none
  | some parts =>
      let front := parts.dropLast
      let last := parts.getLast?.getD 0
      if parts.length ≤ 4 ∧ (front.all (fun n => decide (n < 256))) ∧
          last < 256 ^ (4 - front.length) then
        some (BitVec.ofNat 32
          (front.foldl (fun n part => 256 * n + part) 0 * 256 ^ (4 - front.length) + last))
      else none

/-- What a host stands for. -/
inductive Target
  | address (ip : BitVec 32)
  | name (name : Text)
deriving DecidableEq

/-- A name without its root dot. -/
def dropRootDot (s : Text) : Text := if s.getLast? = some '.' then s.dropLast else s

/-- What `connect` resolves a host to by spelling alone; `idna` is the encoding of a
name that is not ASCII. -/
def connectTarget (idna : Text → Option Text) (host : Text) : Option Target :=
  let ascii := if host.all (fun c => decide (c.toNat < 128)) then some host else idna host
  match ascii with
  | none => none
  | some name =>
      match inetAton name with
      | some ip => some (.address ip)
      | none => some (.name ((dropRootDot name).map Char.toLower))

/-- Two spellings of one host. -/
def SameTarget (idna : Text → Option Text) (host host' : Text) : Prop :=
  ∃ target, connectTarget idna host = some target ∧ connectTarget idna host' = some target

/-- IDNA on names of ASCII and full-width letters: the full-width ones become ASCII. -/
def foldWidth (s : Text) : Option Text :=
  some (s.map (fun c =>
    if 0xFF01 ≤ c.toNat ∧ c.toNat ≤ 0xFF5E then Char.ofNat (c.toNat - 0xFEE0) else c))

/-- The entries of the shipped blocklist. -/
def shippedBlocklist : Text := txt "example.com\nbadsite.org\n192.0.2.5\n"

/-- The shipped blocklist blocks a host, and not another spelling of it. -/
def PassesAs (host spelling : Text) : Prop :=
  SameTarget foldWidth host spelling ∧
    isBlocked asciiRuntime (parseBlocklist asciiRuntime (some shippedBlocklist))
      (some host) = true ∧
    isBlocked asciiRuntime (parseBlocklist asciiRuntime (some shippedBlocklist))
      (some spelling) = false

/-- Other spellings pass the filter: the root dot, a full-width letter, a hexadecimal part,
and the address as one number. -/
theorem respellings_pass :
    PassesAs (txt "example.com") (txt "example.com.") ∧
      PassesAs (txt "example.com") (txt "ｅxample.com") ∧
      PassesAs (txt "192.0.2.5") (txt "0xc0.0.0x2.5") ∧
      PassesAs (txt "192.0.2.5") (txt "3221225989") := by
  refine ⟨?_, ?_, ?_, ?_⟩
  · exact ⟨⟨.name (txt "example.com"), rfl, rfl⟩, rfl, rfl⟩
  · exact ⟨⟨.name (txt "example.com"), rfl, by decide +kernel⟩, rfl, rfl⟩
  · exact ⟨⟨.address 0xC0000205, rfl, rfl⟩, rfl, rfl⟩
  · exact ⟨⟨.address 0xC0000205, rfl, rfl⟩, rfl, rfl⟩

end Connect

section LetterCase

variable {cfg : HandlerConfig} {addr : ClientAddr}

/-- The filter does not see the case of a host. -/
theorem isBlocked_congr {rt : PyRuntime} (b : Blocklist) {host host' : Text}
    (hcase : lower rt host = lower rt host') :
    isBlocked rt b (some host) = isBlocked rt b (some host') := by
  have hlower : lower rt host = [] ↔ host = [] := lower_eq_nil_iff
  have hempty : host = [] ↔ host' = [] := by
    rw [← hlower, hcase, lower_eq_nil_iff]
  by_cases hnil : host' = []
  · rw [isBlocked, isBlocked, if_pos hnil, if_pos (hempty.mpr hnil)]
  · rw [isBlocked, isBlocked, if_neg hnil, if_neg (fun h => hnil (hempty.mp h)),
      normalisedHost, normalisedHost, hcase]

/-- Before a host is connected the filter let it pass. -/
def FilteredOp (past : Trace) : Op → Prop
  | .connect host _ => .called (.isBlocked host) false ∈ past
  | _ => True

/-- Every connection of the program is preceded by the decision of the filter. -/
abbrev Filtered {α : Type} (past : Trace) (q : Program α) : Prop :=
  Safe FilteredOp past q (fun _ _ => True)

theorem Op.Free.filtered {past : Trace} {op : Op} (h : op.Free) : FilteredOp past op := by
  cases op with
  | connect host port => exact h.elim
  | _ => exact trivial

theorem filtered_of_free {α : Type} {past : Trace} {q : Program α} (hq : Calls Op.Free q) :
    Filtered past q :=
  (hq.safe fun _ _ _ hop => hop.filtered).mono fun _ _ _ => trivial

/-- A call that is no connection, and what follows it. -/
theorem filtered_perform_bind {β : Type} {past : Trace} {op : Op} {k : Ans op → Program β}
    (hop : FilteredOp past op) (hk : ∀ a, Filtered (.called op a :: past) (k a)) :
    Filtered past ((perform op).bind k) :=
  Safe.perform_bind hop hk fun _ => trivial

theorem filtered_filterHost (rounds : ℕ) (p : ParsedRequest) (past : Trace) :
    Filtered past (filterHost cfg addr rounds p) := by
  refine filtered_perform_bind trivial fun blocked => ?_
  cases blocked with
  | true => exact filtered_of_free (free_rejectBlocked p)
  | false =>
      refine ((forHost_dispatch rounds p).safe fun past' op hsuffix hop => ?_).mono
        fun _ _ _ => trivial
      cases op with
      | connect host port =>
          obtain rfl : host = p.host := hop
          exact hsuffix.subset List.mem_cons_self
      | _ => exact trivial

theorem filtered_authenticate (rounds : ℕ) (p : ParsedRequest) (past : Trace) :
    Filtered past (authenticate cfg addr rounds p) := by
  have hcheck : Filtered past (checkAuth cfg p.headers) := by
    refine ((calls_checkAuth p.headers).safe fun past' op _ hop => ?_).mono
      fun _ _ _ => trivial
    obtain ⟨plain, stored, rfl⟩ := hop
    exact trivial
  refine Safe.bind (hcheck.mono fun past' o _ => ?_)
  cases o with
  | raised e => exact trivial
  | running => exact trivial
  | returned ok =>
      cases ok with
      | false => exact filtered_of_free (free_rejectAuth p)
      | true => exact filtered_filterHost rounds p _

theorem filtered_limit (rounds : ℕ) (p : ParsedRequest) (past : Trace) :
    Filtered past (limit cfg addr rounds p) := by
  rw [limit]
  split
  · refine filtered_perform_bind trivial fun allowed => ?_
    cases allowed with
    | false => exact filtered_of_free (free_rejectRateLimited p)
    | true => exact filtered_authenticate rounds p _
  · exact filtered_authenticate rounds p past

theorem filtered_serve (rounds : ℕ) (past : Trace) :
    Filtered past (serve cfg addr rounds) := by
  refine filtered_perform_bind trivial fun raw => ?_
  split
  · exact trivial
  · refine Safe.bind ((filtered_of_free (free_parseRaw raw)).mono fun past' o _ => ?_)
    cases o with
    | raised e => exact trivial
    | running => exact trivial
    | returned parsed =>
        cases parsed with
        | none =>
            exact filtered_of_free ((Calls.perform trivial).bind fun _ => Calls.perform trivial)
        | some p =>
            refine filtered_perform_bind trivial fun _ =>
              filtered_perform_bind trivial fun _ => ?_
            exact filtered_limit rounds _ _

/-- `handle_client` connects only hosts that the filter let pass. -/
theorem filtered_handleClient (rounds : ℕ) (past : Trace) :
    Filtered past (handleClient cfg addr rounds) := by
  have hclose (past' : Trace) : Filtered past' ((perform .closeClient).tryCatch swallow) :=
    filtered_of_free ((Calls.perform trivial).tryCatch calls_swallow)
  refine Safe.finallyDo (Safe.tryCatch ((filtered_serve rounds past).mono fun past' o _ => ?_))
  cases o with
  | returned a => exact hclose past'
  | running => exact trivial
  | raised e =>
      have hreport : Filtered past' (reportError cfg addr e) :=
        filtered_of_free (free_reportError e)
      exact hreport.mono fun past'' _ _ => hclose past''

/-- `is_blocked` is answered from the blocklist. -/
def FilteredBy (rt : PyRuntime) (b : Blocklist) (t : Trace) : Prop :=
  ∀ host blocked, .called (.isBlocked host) blocked ∈ t → blocked = isBlocked rt b (some host)

/-- **A host is blocked in any letter case.**  When a host is blocked, so is every host
that is the same in lower case, and no execution of `handle_client` connects to it. -/
theorem case_respelling_is_blocked {cfg : HandlerConfig} (b : Blocklist) {host host' : Text}
    (hcase : lower cfg.rt host = lower cfg.rt host')
    (hblocked : isBlocked cfg.rt b (some host) = true) (addr : ClientAddr) (rounds : ℕ)
    {t : Trace} {o : Outcome PyExc Unit} (hexec : Exec (handleClient cfg addr rounds) t o)
    (hfilter : FilteredBy cfg.rt b t) :
    isBlocked cfg.rt b (some host') = true ∧
      ∀ port event, event ∈ t → event.op? ≠ some (.connect host' port) := by
  have hother : isBlocked cfg.rt b (some host') = true := (isBlocked_congr b hcase) ▸ hblocked
  refine ⟨hother, fun port event hevent hop => ?_⟩
  obtain ⟨pre, post, rfl⟩ := List.append_of_mem hevent
  have hpassed : .called (.isBlocked host') false ∈ pre.reverse ++ [] :=
    ((filtered_handleClient rounds []).allowedTrace hexec).at hop
  rw [List.append_nil, List.mem_reverse] at hpassed
  have hanswer := hfilter host' false (List.mem_append_left _ hpassed)
  rw [hother] at hanswer
  cases hanswer

/-- An environment with the shipped blocklist in which everything else succeeds. -/
def filtering (raw : Bytes) : ∀ op, Except PyExc (Ans op)
  | .isBlocked host =>
      .ok (isBlocked asciiRuntime (parseBlocklist asciiRuntime (some shippedBlocklist))
        (some host))
  | op => obliging raw op

/-- The trace of a `CONNECT` to a listed host in capitals. -/
def capitalsTrace : Trace :=
  ((handleClient oneUser ⟨txt "10.0.0.1", 5000⟩ 1).run (filtering
    (ascii "CONNECT EXAMPLE.COM:443 HTTP/1.1\r\n" ++
      ascii "Proxy-Authorization: Basic dXNlcjpwYXNz\r\n\r\n"))).1

theorem case_respelling_is_blocked_capitals :
    isBlocked oneUser.rt (parseBlocklist oneUser.rt (some shippedBlocklist))
        (some (txt "EXAMPLE.COM")) = true ∧
      ∀ port event, event ∈ capitalsTrace →
        event.op? ≠ some (.connect (txt "EXAMPLE.COM") port) := by
  have hcase : lower oneUser.rt (txt "example.com") = lower oneUser.rt (txt "EXAMPLE.COM") := by
    rw [lower_of_ascii (toNat_lt_of_all rfl), lower_of_ascii (toNat_lt_of_all rfl)]
    decide
  refine case_respelling_is_blocked _ hcase rfl ⟨txt "10.0.0.1", 5000⟩ 1 (exec_run _ _) ?_
  intro host blocked hcalled
  have henv : filtering _ (.isBlocked host) = .ok blocked := answer_of_called_run hcalled
  exact (Except.ok.inj henv).symm

/-- The host of the request is the one in capitals. -/
example : .called (.isBlocked (txt "EXAMPLE.COM")) true ∈ capitalsTrace := by
  refine List.mem_of_getElem? (i := 7) ?_
  rfl

end LetterCase

end Proxy
end NetworkProxy
