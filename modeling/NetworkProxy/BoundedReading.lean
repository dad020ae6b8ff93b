import NetworkProxy.RequestFraming
import Mathlib.Order.Nat
import Mathlib.Data.Nat.Count

/-!
# Bounded reading

`recv_http_request` call by call, on a client socket that may never stop sending: the answers
of the socket are an infinite sequence.

* `Reading.recv`: what one `recv` call makes of the state between two calls.
* `received_foldl`: the calls in a row are `recvHttpRequest`.
* `Within`: what was spent so far; `within_recv` keeps it.
* `bounded_reading`: the number of calls and the length of the result.
-/

namespace NetworkProxy
namespace Http

open Py

/-- Where `recv_http_request` stands: before a call in one of its loops, or at its end. -/
inductive Reading
  | headers (data : Bytes)
  | body (data : Bytes) (remaining : ℕ)
  | done (result : Bytes)

namespace Reading

def inHeaders : Reading → Bool
  | headers _ => true
  | _ => false

def inBody : Reading → Bool
  | body _ _ => true
  | _ => false

/-- What is returned when the socket ends here. -/
def received : Reading → Bytes
  | headers data => data
  | body data _ => data
  | done result => result

/-- The test of the second loop. -/
def awaitBody (data : Bytes) (remaining : ℕ) : Reading :=
  if 0 < remaining then .body data remaining else .done data

section

variable (rt : PyRuntime)

/-- Behind the first loop. -/
def afterHeaders (data : Bytes) : Reading :=
  match breakOn headerTerminator data with
  | none => .done data
  | some (head, early) =>
      match extractContentLength rt (decodeIgnore (head ++ headerTerminator)) with
      | some contentLength =>
          if 0 < contentLength then awaitBody data (contentLength - early.length).toNat
          else .done data
      | none => .done data

/-- The tests of the first loop. -/
def awaitHeaders (data : Bytes) : Reading :=
  if (breakOn headerTerminator data).isSome then afterHeaders rt data
  else if maxHeaderSize < data.length then .done []
  else .headers data

/-- One `recv` call. -/
def recv : Reading → RecvEvent → Reading
  | headers data, .data chunk => awaitHeaders rt (data ++ chunk.bytes)
  | headers data, .eof => afterHeaders rt data
  | headers data, .osError => afterHeaders rt data
  | body data remaining, .data chunk =>
      let got := chunk.bytes.take (min bufferSize remaining)
      awaitBody (data ++ got) (remaining - got.length)
  | body data _, .eof => .done data
  | body data _, .osError => .done data
  | done result, _ => .done result

end

end Reading

open Reading

/-- The state after the first `n` calls. -/
def reading (rt : PyRuntime) (socket : ℕ → RecvEvent) : ℕ → Reading
  | 0 => awaitHeaders rt []
  | n + 1 => (reading rt socket n).recv rt (socket n)

/-- How many of the first `n` calls were made in the first loop. -/
def headerCalls (rt : PyRuntime) (socket : ℕ → RecvEvent) (n : ℕ) : ℕ :=
  Nat.count (fun k => (reading rt socket k).inHeaders) n

/-- How many of the first `n` calls were made in the second loop. -/
def bodyCalls (rt : PyRuntime) (socket : ℕ → RecvEvent) (n : ℕ) : ℕ :=
  Nat.count (fun k => (reading rt socket k).inBody) n

/-- Where the header block of the data ends, if it is complete. -/
def headerEnd (data : Bytes) : ℕ :=
  match breakOn headerTerminator data with
  | none => 0
  | some (head, _) => head.length + headerTerminator.length

/-- The content length the header block declares; 0 without one. -/
def declaredLength (rt : PyRuntime) (data : Bytes) : ℤ :=
  match breakOn headerTerminator data with
  | none => 0
  | some (head, _) =>
      (extractContentLength rt (decodeIgnore (head ++ headerTerminator))).getD 0

/-! ## The calls in a row -/

section Row

variable {rt : PyRuntime}

theorem foldl_done (events : List RecvEvent) (result : Bytes) :
    events.foldl (recv rt) (.done result) = .done result := by
  induction events with
  | nil => rfl
  | cons event events ih => exact ih

/-- The second loop. -/
theorem recvBody_eq_foldl (events : List RecvEvent) (data : Bytes) (remaining : ℕ) :
    recvBody events data remaining =
      (events.foldl (recv rt) (awaitBody data remaining)).received := by
  induction events generalizing data remaining with
  | nil =>
      rw [recvBody, List.foldl_nil, awaitBody]
      split <;> rfl
  | cons event events ih =>
      rcases Nat.eq_zero_or_pos remaining with rfl | hpos
      · rw [recvBody_zero]
        exact (congrArg received (foldl_done (event :: events) data)).symm
      · have hdone : data = (events.foldl (recv rt) (.done data)).received := by
          rw [foldl_done]
          rfl
        rw [awaitBody, if_pos hpos, List.foldl_cons]
        cases event with
        | data chunk =>
            rw [recvBody, if_pos hpos]
            exact ih _ _
        | eof =>
            rw [recvBody, if_pos hpos]
            exact hdone
        | osError =>
            rw [recvBody, if_pos hpos]
            exact hdone

/-- What `recv_http_request` does behind the first loop. -/
def receiveRest (rt : PyRuntime) (events : List RecvEvent) (data : Bytes) : Bytes :=
  match breakOn headerTerminator data with
  | none => data
  | some (head, early) =>
      match extractContentLength rt (decodeIgnore (head ++ headerTerminator)) with
      | some contentLength =>
          if 0 < contentLength then recvBody events data (contentLength - early.length).toNat
          else data
      | none => data

theorem recvHttpRequest_eq (events : List RecvEvent) :
    recvHttpRequest rt events =
      (recvHeaders events []).elim [] fun r => receiveRest rt r.2 r.1 := by
  rw [recvHttpRequest]
  cases recvHeaders events [] with
  | none => rfl
  | some r => rfl

theorem receiveRest_eq_foldl (events : List RecvEvent) (data : Bytes) :
    receiveRest rt events data = (events.foldl (recv rt) (afterHeaders rt data)).received := by
  have hdone : data = (events.foldl (recv rt) (.done data)).received := by
    rw [foldl_done]
    rfl
  rw [receiveRest, afterHeaders]
  split
  · exact hdone
  · split
    · split
      · exact recvBody_eq_foldl _ _ _
      · exact hdone
    · exact hdone

/-- The calls in a row are `recv_http_request`. -/
theorem received_foldl (events : List RecvEvent) :
    recvHttpRequest rt events = (events.foldl (recv rt) (awaitHeaders rt [])).received := by
  have main : ∀ data : Bytes,
      ((recvHeaders events data).elim [] fun r => receiveRest rt r.2 r.1) =
        (events.foldl (recv rt) (awaitHeaders rt data)).received := by
    induction events with
    | nil =>
        intro data
        rw [recvHeaders, awaitHeaders]
        split_ifs with hbreak hlong
        · exact receiveRest_eq_foldl [] data
        · rfl
        · rw [Bool.not_eq_true, Option.isSome_eq_false_iff, Option.isNone_iff_eq_none] at hbreak
          rw [Option.elim_some, receiveRest, hbreak]
          rfl
    | cons event events ih =>
        intro data
        rw [recvHeaders.eq_def, awaitHeaders]
        dsimp only
        split_ifs with hbreak hlong
        · exact receiveRest_eq_foldl (event :: events) data
        · exact (congrArg received (foldl_done (event :: events) [])).symm
        · cases event with
          | data chunk => exact ih (data ++ chunk.bytes)
          | eof => exact receiveRest_eq_foldl events data
          | osError => exact receiveRest_eq_foldl events data
  rw [recvHttpRequest_eq]
  exact main []

theorem reading_eq_foldl (socket : ℕ → RecvEvent) (n : ℕ) :
    reading rt socket n = ((List.range n).map socket).foldl (recv rt) (awaitHeaders rt []) := by
  induction n with
  | zero => rfl
  | succ n ih =>
      rw [reading, ih, List.range_succ, List.map_append, List.foldl_append]
      rfl

/-- Once the reading is over, later answers do not matter. -/
theorem recvHttpRequest_of_done {socket : ℕ → RecvEvent} {n : ℕ} {result : Bytes}
    (h : reading rt socket n = .done result) (later : List RecvEvent) :
    recvHttpRequest rt ((List.range n).map socket ++ later) = result := by
  rw [reading_eq_foldl] at h
  rw [received_foldl, List.foldl_append, h, foldl_done]
  rfl

end Row

/-! ## What the calls cost -/

/-- What is spent, in calls of the first and of the second loop, and what can still come. -/
def Within (rt : PyRuntime) (first second : ℕ) : Reading → Prop
  | .headers data =>
      breakOn headerTerminator data = none ∧ first ≤ data.length ∧
        data.length ≤ maxHeaderSize ∧ second = 0
  | .body data remaining =>
      (breakOn headerTerminator data).isSome ∧ 0 < remaining ∧ first ≤ maxHeaderSize + 1 ∧
        (second + remaining : ℤ) ≤ declaredLength rt data ∧
        (data.length + remaining : ℤ) = headerEnd data + declaredLength rt data
  | .done result =>
      first ≤ maxHeaderSize + 1 ∧ (second : ℤ) ≤ max 0 (declaredLength rt result) ∧
        (result.length : ℤ) ≤ max (maxHeaderSize + bufferSize : ℤ)
          (headerEnd result + declaredLength rt result)

section Cost

variable {rt : PyRuntime} {first second : ℕ}

theorem headerEnd_append {data : Bytes} (more : Bytes)
    (h : (breakOn headerTerminator data).isSome) :
    headerEnd (data ++ more) = headerEnd data := by
  obtain ⟨⟨head, early⟩, hbreak⟩ := Option.isSome_iff_exists.mp h
  rw [headerEnd, breakOn_append _ hbreak, headerEnd, hbreak]

theorem declaredLength_append {data : Bytes} (more : Bytes)
    (h : (breakOn headerTerminator data).isSome) :
    declaredLength rt (data ++ more) = declaredLength rt data := by
  obtain ⟨⟨head, early⟩, hbreak⟩ := Option.isSome_iff_exists.mp h
  rw [declaredLength, breakOn_append _ hbreak, declaredLength, hbreak]

/-- The second loop is entered, or over at once. -/
theorem within_awaitBody {data : Bytes} {remaining : ℕ}
    (hbreak : (breakOn headerTerminator data).isSome) (hfirst : first ≤ maxHeaderSize + 1)
    (hspent : (second + remaining : ℤ) ≤ declaredLength rt data)
    (hlength : (data.length + remaining : ℤ) = headerEnd data + declaredLength rt data) :
    Within rt first second (awaitBody data remaining) := by
  rw [awaitBody]
  split
  · rename_i hpos
    exact ⟨hbreak, hpos, hfirst, hspent, hlength⟩
  · exact ⟨hfirst, by omega, by omega⟩

/-- The end of the first loop. -/
theorem within_afterHeaders {data : Bytes} (hfirst : first ≤ maxHeaderSize + 1)
    (hlength : data.length ≤ maxHeaderSize + bufferSize) :
    Within rt first 0 (afterHeaders rt data) := by
  have hdone : Within rt first 0 (.done data) := by
    refine ⟨hfirst, ?_, ?_⟩
    · exact_mod_cast le_max_left _ _
    · exact le_max_of_le_left (by exact_mod_cast hlength)
  rw [afterHeaders]
  split
  · exact hdone
  · rename_i head early hbreak
    split
    · rename_i contentLength hdeclared
      split
      · rename_i hpos
        have hcl : declaredLength rt data = contentLength := by
          rw [declaredLength, hbreak]
          dsimp only
          rw [hdeclared, Option.getD_some]
        have hend : headerEnd data = head.length + headerTerminator.length := by
          rw [headerEnd, hbreak]
        have hdata : data.length = head.length + headerTerminator.length + early.length := by
          have hsplit := congrArg List.length (breakOn_eq_some hbreak)
          rwa [List.length_append, List.length_append] at hsplit
        rcases le_or_gt contentLength early.length with hle | hgt
        · rw [Int.toNat_eq_zero.mpr (by omega)]
          exact hdone
        · refine within_awaitBody (by rw [hbreak]; rfl) hfirst ?_ ?_
          · rw [hcl]
            omega
          · rw [hcl, hend]
            omega
      · exact hdone
    · exact hdone

/-- The tests of the first loop, after a call or before the first one. -/
theorem within_awaitHeaders {data : Bytes} (hfirst : first ≤ maxHeaderSize + 1)
    (hspent : first ≤ data.length) (hlength : data.length ≤ maxHeaderSize + bufferSize) :
    Within rt first 0 (awaitHeaders rt data) := by
  rw [awaitHeaders]
  split_ifs with hbreak hlong
  · exact within_afterHeaders hfirst hlength
  · exact ⟨hfirst, le_max_left _ _, le_max_of_le_left (Int.natCast_nonneg _)⟩
  · exact ⟨by simpa using hbreak, hspent, by omega, rfl⟩

/-- One call is paid for by the letter it brings, or it is the last one of its loop. -/
theorem within_recv {s : Reading} (h : Within rt first second s) (event : RecvEvent) :
    Within rt (first + s.inHeaders.toNat) (second + s.inBody.toNat) (s.recv rt event) := by
  cases s with
  | headers data =>
      obtain ⟨hbreak, hspent, hlength, rfl⟩ := h
      cases event with
      | data chunk =>
          have hpos := List.length_pos_iff.mpr chunk.ne_nil
          have hle := chunk.length_le
          refine within_awaitHeaders (Nat.succ_le_succ (by omega)) ?_ ?_
          · rw [List.length_append]
            exact Nat.add_le_add hspent hpos
          · rw [List.length_append]
            omega
      | eof => exact within_afterHeaders (Nat.succ_le_succ (by omega)) (by omega)
      | osError => exact within_afterHeaders (Nat.succ_le_succ (by omega)) (by omega)
  | body data remaining =>
      obtain ⟨hbreak, hpos, hfirst, hspent, hlength⟩ := h
      have hend : Within rt first (second + 1) (.done data) :=
        ⟨hfirst, le_max_of_le_right (by omega), le_max_of_le_right (by omega)⟩
      cases event with
      | data chunk =>
          have hchunk := List.length_pos_iff.mpr chunk.ne_nil
          have hgot : (chunk.bytes.take (min bufferSize remaining)).length =
              min (min bufferSize remaining) chunk.bytes.length := List.length_take
          have hsize : 0 < bufferSize := by decide
          refine within_awaitBody ?_ hfirst ?_ ?_
          · exact Option.isSome_iff_exists.mpr
              ((Option.isSome_iff_exists.mp hbreak).imp' _ fun _ => breakOn_append _)
          · rw [declaredLength_append _ hbreak, hgot]
            push_cast [Reading.inBody, Bool.toNat_true]
            omega
          · rw [declaredLength_append _ hbreak, headerEnd_append _ hbreak, List.length_append, hgot]
            omega
      | eof => exact hend
      | osError => exact hend
  | done result => exact h

end Cost

/-! ## The bounds -/

section Bounds

variable {rt : PyRuntime} {socket : ℕ → RecvEvent}

theorem headerCalls_succ (n : ℕ) :
    headerCalls rt socket (n + 1) =
      headerCalls rt socket n + (reading rt socket n).inHeaders.toNat := by
  rw [headerCalls, Nat.count_succ, headerCalls]
  cases (reading rt socket n).inHeaders <;> rfl

theorem bodyCalls_succ (n : ℕ) :
    bodyCalls rt socket (n + 1) =
      bodyCalls rt socket n + (reading rt socket n).inBody.toNat := by
  rw [bodyCalls, Nat.count_succ, bodyCalls]
  cases (reading rt socket n).inBody <;> rfl

theorem within_reading (rt : PyRuntime) (socket : ℕ → RecvEvent) (n : ℕ) :
    Within rt (headerCalls rt socket n) (bodyCalls rt socket n) (reading rt socket n) := by
  induction n with
  | zero => exact within_awaitHeaders (Nat.zero_le _) (Nat.zero_le _) (Nat.zero_le _)
  | succ n ih =>
      rw [headerCalls_succ, bodyCalls_succ]
      exact within_recv ih (socket n)

/-- Every call is made in one of the loops. -/
theorem headerCalls_add_bodyCalls {n : ℕ}
    (hrunning : ∀ k, k < n → ∀ result, reading rt socket k ≠ .done result) :
    headerCalls rt socket n + bodyCalls rt socket n = n := by
  induction n with
  | zero => rfl
  | succ n ih =>
      have hbefore := ih fun k hk => hrunning k (hk.trans n.lt_succ_self)
      have hnow : (reading rt socket n).inHeaders.toNat +
          (reading rt socket n).inBody.toNat = 1 := by
        cases hs : reading rt socket n with
        | headers data => rfl
        | body data remaining => rfl
        | done result => exact absurd hs (hrunning n n.lt_succ_self result)
      rw [headerCalls_succ, bodyCalls_succ]
      omega

/-- The second loop comes to an end. -/
theorem exists_done_of_body {n remaining : ℕ} {data : Bytes}
    (h : reading rt socket n = .body data remaining) :
    ∃ m result, reading rt socket m = .done result := by
  induction remaining using Nat.strong_induction_on generalizing n data with
  | _ remaining ih =>
      have hnext : reading rt socket (n + 1) = (Reading.body data remaining).recv rt (socket n) :=
        congrArg (fun s => s.recv rt (socket n)) h
      have hwithin := within_reading rt socket n
      rw [h] at hwithin
      obtain ⟨-, hpos, -⟩ := hwithin
      cases hevent : socket n with
      | data chunk =>
          have hchunk := List.length_pos_iff.mpr chunk.ne_nil
          have hgot : (chunk.bytes.take (min bufferSize remaining)).length =
              min (min bufferSize remaining) chunk.bytes.length := List.length_take
          have hsize : 0 < bufferSize := by decide
          rw [hevent, Reading.recv, awaitBody] at hnext
          split at hnext
          · exact ih _ (by omega) hnext
          · exact ⟨n + 1, _, hnext⟩
      | eof => exact ⟨n + 1, data, by rw [hnext, hevent]; rfl⟩
      | osError => exact ⟨n + 1, data, by rw [hnext, hevent]; rfl⟩

/-- Reading comes to an end. -/
theorem exists_done (rt : PyRuntime) (socket : ℕ → RecvEvent) :
    ∃ n result, reading rt socket n = .done result := by
  by_contra hnever
  have hrunning : ∀ n result, reading rt socket n ≠ .done result :=
    fun n result h => hnever ⟨n, result, h⟩
  obtain ⟨n, hn⟩ : ∃ n, n = maxHeaderSize + 1 := ⟨_, rfl⟩
  have hwithin := within_reading rt socket n
  have hcalls := headerCalls_add_bodyCalls (n := n) fun k _ => hrunning k
  cases hs : reading rt socket n with
  | headers data =>
      rw [hs] at hwithin
      obtain ⟨-, hspent, hlength, hbody⟩ := hwithin
      omega
  | body data remaining => exact hnever (exists_done_of_body hs)
  | done result => exact hrunning _ _ hs

/-- **Bounded reading.**  Whatever the socket answers, and for ever if it likes,
`recv_http_request` is over after finitely many calls: at most `maxHeaderSize + 1` in its first
loop and at most as many in its second one as the declared length says.  The result has at most
`maxHeaderSize + bufferSize` bytes, or it ends where the declared body ends. -/
theorem bounded_reading (rt : PyRuntime) (socket : ℕ → RecvEvent) :
    ∃ calls result,
      (∀ later, recvHttpRequest rt ((List.range calls).map socket ++ later) = result) ∧
      headerCalls rt socket calls + bodyCalls rt socket calls = calls ∧
      headerCalls rt socket calls ≤ maxHeaderSize + 1 ∧
      (bodyCalls rt socket calls : ℤ) ≤ max 0 (declaredLength rt result) ∧
      (result.length : ℤ) ≤ max (maxHeaderSize + bufferSize : ℤ)
        (headerEnd result + declaredLength rt result) := by
  classical
  have hend := exists_done rt socket
  obtain ⟨result, hresult⟩ := Nat.find_spec hend
  have hwithin := within_reading rt socket (Nat.find hend)
  rw [hresult] at hwithin
  obtain ⟨hfirst, hsecond, hlength⟩ := hwithin
  refine ⟨Nat.find hend, result, recvHttpRequest_of_done hresult, ?_, hfirst, hsecond, hlength⟩
  exact headerCalls_add_bodyCalls fun k hk r h => Nat.find_min hend hk ⟨r, h⟩

end Bounds

end Http
end NetworkProxy
