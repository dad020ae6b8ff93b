import NetworkProxy.Parser

/-!
# The head of a request

Method, target and header lines, as they stand in the bytes, and what the parser makes of
them.

`parse_cases`: the three ways in which `parse_http_request` ends on a head.
-/

namespace NetworkProxy
namespace Http

open Py

/-- A head whose request line has three words. -/
structure RequestHead where
  method : Text
  target : Text
  headerLines : List Text

/-- The head in front of the first terminator. -/
def requestHead (data : Bytes) : Option RequestHead :=
  match breakOn headerTerminator data with
  | none => none
  | some (head, _) =>
      match lines (decodeIgnore (head ++ headerTerminator)) with
      | [] => none
      | requestLine :: headerLines =>
          match splitWs isSpace 2 requestLine with
          | [method, target, _] => some ⟨method, target, headerLines⟩
          | _ => none

/-- The target of the request line. -/
def requestTarget (data : Bytes) : Option Text := (requestHead data).map RequestHead.target

section Parsed

variable {rt : PyRuntime} {requestId : Text} {data : Bytes}

theorem requestHead_eq {head body : Bytes} {requestLine method target version : Text}
    {headerLines : List Text} (hbreak : breakOn headerTerminator data = some (head, body))
    (hlines : lines (decodeIgnore (head ++ headerTerminator)) = requestLine :: headerLines)
    (hwords : splitWs isSpace 2 requestLine = [method, target, version]) :
    requestHead data = some ⟨method, target, headerLines⟩ := by
  rw [requestHead, hbreak]
  dsimp only
  rw [hlines]
  dsimp only
  rw [hwords]

/-- What a head was read from. -/
theorem requestHead_eq_some {r : RequestHead} (h : requestHead data = some r) :
    ∃ head body requestLine version,
      breakOn headerTerminator data = some (head, body) ∧
      lines (decodeIgnore (head ++ headerTerminator)) = requestLine :: r.headerLines ∧
      splitWs isSpace 2 requestLine = [r.method, r.target, version] := by
  rw [requestHead] at h
  split at h
  · cases h
  · rename_i head body hbreak
    split at h
    · cases h
    · rename_i requestLine headerLines hlines
      split at h
      · rename_i method target version hwords
        cases h
        exact ⟨head, body, requestLine, version, hbreak, hlines, hwords⟩
      · cases h

/-- Without a head there is no request. -/
theorem parse_of_requestHead_eq_none (h : requestHead data = none) :
    parseHttpRequest rt requestId data = .ok none := by
  rw [requestHead] at h
  rw [parseHttpRequest]
  split
  · rfl
  · rename_i head body hbreak
    rw [hbreak] at h
    dsimp only at h
    split
    · rfl
    · rename_i requestLine headerLines hlines
      rw [hlines] at h
      dsimp only at h
      split
      · rename_i method target version hwords
        rw [hwords] at h
        cases h
      · rfl

/-- How `parse_http_request` ends on a head: the destination raises, or there is no host, or the
request is accepted. -/
theorem parse_cases (rt : PyRuntime) (requestId : Text) {r : RequestHead}
    (h : requestHead data = some r) :
    (∃ message, parseHttpRequest rt requestId data = .error message ∧
      destination rt r.method r.target (parseHeaders rt r.headerLines) = .error message) ∨
    (parseHttpRequest rt requestId data = .ok none ∧
      ∃ d, destination rt r.method r.target (parseHeaders rt r.headerLines) = .ok d ∧
        ∀ host port path, d = some (some host, port, path) → host = []) ∨
    (∃ p, parseHttpRequest rt requestId data = .ok (some p) ∧
      destination rt r.method r.target (parseHeaders rt r.headerLines) =
        .ok (some (some p.host, p.port, p.path)) ∧ p.host ≠ []) := by
  obtain ⟨head, body, requestLine, version, hbreak, hlines, hwords⟩ := requestHead_eq_some h
  rw [parseHttpRequest, hbreak]
  dsimp only
  rw [hlines]
  dsimp only
  rw [hwords]
  dsimp only
  split
  · rename_i message hdest
    exact Or.inl ⟨message, rfl, hdest⟩
  · rename_i hdest
    exact Or.inr (Or.inl ⟨rfl, none, hdest, by simp⟩)
  · rename_i port path hdest
    refine Or.inr (Or.inl ⟨rfl, _, hdest, ?_⟩)
    rintro host port path ⟨⟩
  · rename_i port path hdest
    refine Or.inr (Or.inl ⟨rfl, _, hdest, ?_⟩)
    rintro host port path ⟨⟩
    rfl
  · rename_i host port path hhost hdest
    exact Or.inr (Or.inr ⟨_, rfl, hdest, hhost⟩)

/-- The head of an accepted request. -/
theorem requestHead_of_parse {p : ParsedRequest}
    (h : parseHttpRequest rt requestId data = .ok (some p)) :
    ∃ r, requestHead data = some r ∧ r.method = p.method ∧
      p.headers = parseHeaders rt r.headerLines ∧
      (∀ c, c ∈ r.target → isSpace c = false) ∧ (∀ line, line ∈ r.headerLines → OneLine line) ∧
      destination rt r.method r.target p.headers =
        .ok (some (some p.host, p.port, p.path)) ∧ p.host ≠ [] := by
  obtain ⟨head, requestLine, headerLines, target, version, hbreak, hlines, hwords, hheaders, -,
    hdest, -, hhost, -⟩ := parseHttpRequest_eq_some h
  refine ⟨_, requestHead_eq hbreak hlines hwords, rfl, hheaders, (splitWs_two_words hwords).2,
    fun line hline => ?_, hdest, hhost⟩
  exact oneLine_of_mem_lines (hlines ▸ List.mem_cons_of_mem _ hline)

end Parsed

end Http
end NetworkProxy
