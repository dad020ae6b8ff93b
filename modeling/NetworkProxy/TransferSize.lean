import NetworkProxy.Answers
import NetworkProxy.CacheAdmission

/-!
# The logged size of a transfer

`bytes_transferred` of the entry that closes a transfer, against what the client got.

* `totalSize_eq_iff`: which chunks the relay loop counts completely.
* `exec_forwardHttp_sized`: a call that logs a size has sent the chunks of the transfer and
  nothing else.
* `logged_size_iff`: when the logged size is the size of what was relayed.
-/

namespace NetworkProxy
namespace Proxy

open Py Http Cache Forward

/-- The `bytes_transferred` of an entry that was logged. -/
def loggedSize? : Event → Option ℕ
  | .called (.logEvent _ fields) _ => fields.bytesTransferred
  | _ => none

def loggedSizes (t : Trace) : List ℕ := t.filterMap loggedSize?

/-- The chunks that the relay loop counts: those of a `GET`, as long as no status but 200 was
read, up to the chunk that exceeds `MAX_OBJECT_SIZE`. -/
def Counted (maxObjectSize : ℤ) (method : Text) (chunks : List Bytes) : Prop :=
  chunks = [] ∨
    (method = txt "GET" ∧ AdmitsStatus (firstStatus chunks) ∧
      (chunks.dropLast = [] ∨ (chunks.dropLast.flatten.length : ℤ) ≤ maxObjectSize))

/-! ## The counter of the loop -/

namespace Transfer

variable {maxObjectSize : ℤ}

theorem absorb_totalSize (s : Transfer) (data : Bytes) :
    (s.absorb maxObjectSize data).totalSize =
      if (s.withStatus data).cacheable then s.totalSize + data.length else s.totalSize := by
  have hsize := (withStatus_responseChunks s data).2
  rw [absorb, collect]
  split
  · split <;> rw [hsize]
  · exact hsize

theorem absorb_cacheable_of_not (maxObjectSize : ℤ) {s : Transfer} (h : s.cacheable = false)
    (data : Bytes) :
    (s.withStatus data).cacheable = false ∧ (s.absorb maxObjectSize data).cacheable = false := by
  have hstatus : (s.withStatus data).cacheable = false := by
    rw [withStatus]
    split
    · exact h
    · split
      · exact h
      · dsimp only
        split
        · rfl
        · exact h
  refine ⟨hstatus, ?_⟩
  rw [absorb, collect, if_neg (by rw [hstatus]; exact Bool.false_ne_true)]
  exact hstatus

/-- Nothing is counted any more. -/
theorem foldl_absorb_of_not {s : Transfer} (h : s.cacheable = false) (chunks : List Bytes) :
    (chunks.foldl (absorb maxObjectSize) s).totalSize = s.totalSize := by
  induction chunks generalizing s with
  | nil => rfl
  | cons data chunks ih =>
      obtain ⟨hstatus, hnext⟩ := absorb_cacheable_of_not maxObjectSize h data
      rw [List.foldl_cons, ih hnext, absorb_totalSize, hstatus]
      rfl

/-- No more is counted than there is. -/
theorem foldl_absorb_totalSize_le (maxObjectSize : ℤ) (s : Transfer) (chunks : List Bytes) :
    (chunks.foldl (absorb maxObjectSize) s).totalSize ≤ s.totalSize + chunks.flatten.length := by
  induction chunks generalizing s with
  | nil => exact le_rfl
  | cons data chunks ih =>
      have hone : (s.absorb maxObjectSize data).totalSize ≤ s.totalSize + data.length := by
        rw [absorb_totalSize]
        split <;> omega
      rw [List.foldl_cons, List.flatten_cons, List.length_append]
      exact (ih _).trans (by omega)

/-- A last chunk is counted, with all before it, exactly if the flag still stands at it. -/
theorem totalSize_append_singleton_iff (chunks : List Bytes) {data : Bytes} (hne : data ≠ []) :
    ((chunks ++ [data]).foldl (absorb maxObjectSize) (create (txt "GET"))).totalSize =
        (chunks ++ [data]).flatten.length ↔
      AdmitsStatus (firstStatus (chunks ++ [data])) ∧
        (chunks = [] ∨ (chunks.flatten.length : ℤ) ≤ maxObjectSize) := by
  have hloop := describes_foldl maxObjectSize chunks
  have hcacheable := withStatus_cacheable
    (fun hc => hloop.statusCode ▸ (hloop.cacheable.mp hc).1) data
  rw [hloop.statusCode, ← firstStatus_append_singleton, hloop.cacheable] at hcacheable
  have hearlier : AdmitsStatus (firstStatus (chunks ++ [data])) →
      AdmitsStatus (firstStatus chunks) := by
    rw [firstStatus_append_singleton]
    cases firstStatus chunks with
    | none => exact fun _ => trivial
    | some status => exact id
  have hsize : (chunks ++ [data]).flatten.length = chunks.flatten.length + data.length := by
    simp
  have hpos := List.length_pos_iff.mpr hne
  rw [List.foldl_append, List.foldl_cons, List.foldl_nil, absorb_totalSize, hsize]
  constructor
  · intro htotal
    by_cases hc : ((chunks.foldl (absorb maxObjectSize) (create (txt "GET"))).withStatus
        data).cacheable = true
    · obtain ⟨⟨-, hfits⟩, hadmits⟩ := hcacheable.mp hc
      exact ⟨hadmits, hfits⟩
    · have hle := foldl_absorb_totalSize_le maxObjectSize (create (txt "GET")) chunks
      rw [if_neg hc] at htotal
      have hzero : (create (txt "GET")).totalSize = 0 := rfl
      omega
  · rintro ⟨hadmits, hfits⟩
    have hc := hcacheable.mpr ⟨⟨hearlier hadmits, hfits⟩, hadmits⟩
    rw [if_pos hc, (hloop.collected (hloop.cacheable.mpr ⟨hearlier hadmits, hfits⟩)).2]

end Transfer

/-- What the loop counts. -/
theorem totalSize_eq_iff (maxObjectSize : ℤ) (method : Text) {chunks : List Bytes}
    (hne : ∀ c, c ∈ chunks → c ≠ []) :
    (chunks.foldl (Transfer.absorb maxObjectSize) (Transfer.create method)).totalSize =
        chunks.flatten.length ↔
      Counted maxObjectSize method chunks := by
  rcases List.eq_nil_or_concat chunks with rfl | ⟨before, data, hchunks⟩
  · exact ⟨fun _ => Or.inl rfl, fun _ => rfl⟩
  · rw [List.concat_eq_append] at hchunks
    subst hchunks
    have hdata : data ≠ [] := hne data (by simp)
    have hsome : before ++ [data] ≠ [] := by simp
    rw [Counted, List.dropLast_concat, or_iff_right hsome]
    by_cases hget : method = txt "GET"
    · subst hget
      rw [Transfer.totalSize_append_singleton_iff before hdata]
      exact (and_iff_right rfl).symm
    · have hflag : (Transfer.create method).cacheable = false := decide_eq_false hget
      rw [Transfer.foldl_absorb_of_not hflag]
      refine ⟨fun htotal => ?_, fun h => absurd h.1 hget⟩
      have hpos := List.length_pos_iff.mpr hdata
      have hzero : (Transfer.create method).totalSize = 0 := rfl
      rw [hzero, List.flatten_append, List.length_append, List.flatten_singleton] at htotal
      omega

/-! ## The calls of `forward_http` -/

/-- A call that logs no size. -/
def Op.Unsized : Op → Prop
  | .logEvent _ fields => fields.bytesTransferred = none
  | _ => True

theorem loggedSizes_append (t t' : Trace) :
    loggedSizes (t ++ t') = loggedSizes t ++ loggedSizes t' :=
  List.filterMap_append

theorem sends_append (t t' : Trace) : sends (t ++ t') = sends t ++ sends t' :=
  List.filterMap_append

theorem loggedSizes_of_calls {α : Type} {q : Program α} {t : Trace} {o : Outcome PyExc α}
    (hq : Calls Op.Unsized q) (hx : Exec q t o) : loggedSizes t = [] := by
  refine List.filterMap_eq_nil_iff.mpr fun event hmem => ?_
  cases event with
  | called op answer =>
      have hop : op.Unsized := hq.of_exec hx hmem rfl
      cases op <;> first | rfl | exact hop
  | raised op e => rfl
  | noted n => rfl

theorem unsized_lookup (p : ParsedRequest) : Calls Op.Unsized (lookup p) := by
  rw [lookup]
  split
  · refine (Calls.perform trivial).bind fun cached => ?_
    cases cached with
    | none => exact Calls.bind (Calls.perform rfl) fun _ => trivial
    | some cached =>
        refine Calls.bind (Calls.perform rfl) fun _ => (Calls.perform trivial).bind fun _ => ?_
        refine Calls.bind ?_ fun _ => trivial
        exact (Calls.perform trivial).tryCatch (calls_onOSError trivial)
  · exact trivial

theorem unsized_connectOrigin (p : ParsedRequest) : Calls Op.Unsized (connectOrigin p) :=
  calls_connectOrigin (S := Op.Unsized) p trivial trivial trivial trivial trivial

theorem unsized_sendRequest (p : ParsedRequest) : Calls Op.Unsized (sendRequest p) :=
  calls_sendRequest (S := Op.Unsized) p trivial trivial trivial trivial

/-- A lookup that misses sends nothing. -/
theorem sends_lookup {p : ParsedRequest} {t : Trace} (h : Exec (lookup p) t (.returned false)) :
    sends t = [] := by
  rw [lookup] at h
  split at h
  · obtain ⟨cached, t₁, rfl, h₁⟩ := exec_perform_bind_returned.mp h
    cases cached with
    | none =>
        obtain ⟨_, t₂, rfl, h₂⟩ := exec_perform_bind_returned.mp h₁
        obtain ⟨rfl, -⟩ := exec_ret_returned.mp h₂
        rfl
    | some cached =>
        obtain ⟨_, t₂, rfl, h₂⟩ := exec_perform_bind_returned.mp h₁
        obtain ⟨_, t₃, rfl, h₃⟩ := exec_perform_bind_returned.mp h₂
        obtain ⟨t₄, _, t₅, rfl, -, h₅⟩ := exec_bind_returned.mp h₃
        cases (exec_ret_returned.mp h₅).2
  · obtain ⟨rfl, -⟩ := exec_ret_returned.mp h
    rfl

/-- A handler for `OSError` that reports a failure reports no success. -/
theorem not_exec_onOSError_true {q : Program Unit} {e : PyExc} {t : Trace} :
    ¬ Exec (onOSError (q.bind fun _ => .ret false) e) t (.returned true) := by
  rw [onOSError]
  split
  · intro h
    obtain ⟨_, _, _, rfl, -, hret⟩ := exec_bind_returned.mp h
    cases (exec_ret_returned.mp hret).2
  · rintro ⟨⟩

/-- A connection that stands was opened without a word to the client. -/
theorem sends_connectOrigin {p : ParsedRequest} {t : Trace}
    (h : Exec (connectOrigin p) t (.returned true)) : sends t = [] := by
  rcases exec_tryCatch_returned.mp h with h | ⟨t₁, e, t₂, rfl, -, hcatch⟩
  · obtain ⟨_, t₁, rfl, h₁⟩ := exec_perform_bind_returned.mp h
    obtain ⟨_, t₂, rfl, h₂⟩ := exec_perform_bind_returned.mp h₁
    obtain ⟨_, t₃, rfl, h₃⟩ := exec_perform_bind_returned.mp h₂
    obtain ⟨rfl, -⟩ := exec_ret_returned.mp h₃
    rfl
  · exact absurd hcatch not_exec_onOSError_true

theorem sends_sendRequest {p : ParsedRequest} {t : Trace}
    (h : Exec (sendRequest p) t (.returned true)) : sends t = [] := by
  rcases exec_tryCatch_returned.mp h with h | ⟨t₁, e, t₂, rfl, -, hcatch⟩
  · obtain ⟨_, t₁, rfl, h₁⟩ := exec_perform_bind_returned.mp h
    obtain ⟨rfl, -⟩ := exec_ret_returned.mp h₁
    rfl
  · rw [onOSError] at hcatch
    split at hcatch
    · obtain ⟨_, _, rfl, hgateway⟩ := exec_perform_bind_returned.mp hcatch
      obtain ⟨_, _, _, rfl, -, hret⟩ := exec_bind_returned.mp hgateway
      cases (exec_ret_returned.mp hret).2
    · cases hcatch

/-- The chunks of a response are what is sent, and no size is logged meanwhile. -/
theorem sized_events (r : Response) : sends r.events = r.chunks ∧ loggedSizes r.events = [] := by
  have hchunks (chunks : List Bytes) : sends (chunks.flatMap chunkEvents) = chunks ∧
      loggedSizes (chunks.flatMap chunkEvents) = [] := by
    induction chunks with
    | nil => exact ⟨rfl, rfl⟩
    | cons data chunks ih => exact ⟨congrArg (data :: ·) ih.1, ih.2⟩
  rw [Response.events, sends_append, loggedSizes_append, (hchunks r.chunks).1,
    (hchunks r.chunks).2]
  cases r.ending <;> exact ⟨List.append_nil _, rfl⟩

theorem sized_after (p : ParsedRequest) (start stop now : ℚ) (s : Transfer) :
    sends (afterEvents p start stop now s) = [] ∧
      loggedSizes (afterEvents p start stop now s) = [s.totalSize] := by
  rw [afterEvents]
  split <;> exact ⟨rfl, rfl⟩

/-- A call that logs a size has sent the chunks of some response and nothing else, and the
size is the counter of the relay loop. -/
theorem exec_forwardHttp_sized {maxObjectSize : ℤ} {rounds : ℕ} {p : ParsedRequest} {t : Trace}
    (h : Exec (forwardHttp maxObjectSize rounds p) t (.returned ())) :
    loggedSizes t = [] ∨
      ∃ r : Response, sends t = r.chunks ∧ loggedSizes t =
        [(r.chunks.foldl (Transfer.absorb maxObjectSize)
          (Transfer.create p.method)).totalSize] := by
  obtain ⟨t₀, answered, t₁, rfl, hlookup, h₁⟩ := exec_bind_returned.mp h
  have hsized₀ := loggedSizes_of_calls (unsized_lookup p) hlookup
  cases answered with
  | true =>
      rw [if_pos rfl] at h₁
      obtain ⟨rfl, -⟩ := exec_ret_returned.mp h₁
      rw [List.append_nil]
      exact Or.inl hsized₀
  | false =>
      rw [if_neg Bool.false_ne_true] at h₁
      obtain ⟨start, t₂, rfl, h₂⟩ := exec_perform_bind_returned.mp h₁
      obtain ⟨t₃, connected, t₄, rfl, hconnect, h₄⟩ := exec_bind_returned.mp h₂
      have hstart (t : Trace) : loggedSizes (.called .monotonic start :: t) = loggedSizes t ∧
          sends (.called .monotonic start :: t) = sends t := ⟨rfl, rfl⟩
      have hsized₃ := loggedSizes_of_calls (unsized_connectOrigin p) hconnect
      rw [loggedSizes_append, sends_append, hsized₀, sends_lookup hlookup, (hstart _).1,
        (hstart _).2, loggedSizes_append, sends_append, hsized₃, List.nil_append, List.nil_append,
        List.nil_append]
      cases connected with
      | false =>
          rw [if_neg Bool.false_ne_true] at h₄
          obtain ⟨rfl, -⟩ := exec_ret_returned.mp h₄
          exact Or.inl rfl
      | true =>
          rw [if_pos rfl] at h₄
          obtain ⟨t₅, sent, t₆, rfl, hsend, h₆⟩ := exec_bind_returned.mp h₄
          have hsized₅ := loggedSizes_of_calls (unsized_sendRequest p) hsend
          rw [loggedSizes_append, sends_append, hsized₅, sends_connectOrigin hconnect,
            List.nil_append, List.nil_append]
          cases sent with
          | false =>
              rw [if_neg Bool.false_ne_true] at h₆
              obtain ⟨rfl, -⟩ := exec_ret_returned.mp h₆
              exact Or.inl rfl
          | true =>
              rw [if_pos rfl] at h₆
              obtain ⟨t₇, s, t₈, rfl, hrelay, hfinish⟩ := exec_bind_returned.mp h₆
              obtain ⟨r, rfl, rfl⟩ := exec_relay hrelay
              obtain ⟨stop, now, rfl⟩ := exec_finish.mp hfinish
              refine Or.inr ⟨r, ?_, ?_⟩
              · rw [sends_sendRequest hsend, sends_append, (sized_events r).1,
                  (sized_after _ _ _ _ _).1, List.append_nil, List.nil_append]
              · rw [loggedSizes_append, (sized_events r).2, (sized_after _ _ _ _ _).2,
                  List.nil_append]

/-- **The logged size.**  In every execution of `forward_http` that logs a size, whatever the
method, the chunks and the way the transfer ends: the size is the number of bytes that were
relayed to the client if and only if nothing was relayed, or the method is `GET`, no status but
200 (or 0) is read from the chunks, and those before the last one do not exceed
`MAX_OBJECT_SIZE`. -/
theorem logged_size_iff {maxObjectSize : ℤ} {rounds : ℕ} {p : ParsedRequest} {t : Trace}
    {size : ℕ} (hexec : Exec (forwardHttp maxObjectSize rounds p) t (.returned ()))
    (hlogged : size ∈ loggedSizes t) :
    loggedSizes t = [size] ∧
      (size = (sends t).flatten.length ↔ Counted maxObjectSize p.method (sends t)) := by
  rcases exec_forwardHttp_sized hexec with hnone | ⟨r, hsends, hsize⟩
  · rw [hnone] at hlogged
    cases hlogged
  · rw [hsize, List.mem_singleton] at hlogged
    subst hlogged
    refine ⟨hsize, ?_⟩
    rw [hsends]
    exact totalSize_eq_iff maxObjectSize p.method r.chunks_ne_nil

/-- A page that is not found. -/
def missingPage : Response where
  chunks := [ascii "HTTP/1.1 404 Not Found\r\n\r\nnothing here"]
  chunks_ne_nil := by decide
  ending := .eof

/-- The trace of its transfer. -/
def missingPageTrace : Trace := fetchTrace 1000 plainGet missingPage 0 0 0

theorem exec_missingPageTrace :
    Exec (forwardHttp 1000 2 plainGet) missingPageTrace (.returned ()) :=
  exec_fetchTrace 1000 rfl missingPage 0 0 0

theorem sized_missingPageTrace :
    sends missingPageTrace = missingPage.chunks ∧ loggedSizes missingPageTrace = [0] := by
  refine ⟨?_, ?_⟩ <;> rfl

theorem logged_size_missingPage :
    loggedSizes missingPageTrace = [0] ∧
      (0 = (sends missingPageTrace).flatten.length ↔
        Counted 1000 plainGet.method (sends missingPageTrace)) :=
  logged_size_iff exec_missingPageTrace (by rw [sized_missingPageTrace.2]; decide)

/-- All of the page is relayed, and no byte of it is logged. -/
theorem relayed_page_is_logged_as_empty :
    ¬ ∀ (maxObjectSize : ℤ) (rounds : ℕ) (p : ParsedRequest) (t : Trace) (size : ℕ),
      Exec (forwardHttp maxObjectSize rounds p) t (.returned ()) → size ∈ loggedSizes t →
        size = (sends t).flatten.length := by
  intro hclaim
  have hzero := hclaim 1000 2 plainGet missingPageTrace 0 exec_missingPageTrace
    (by rw [sized_missingPageTrace.2]; decide)
  rw [sized_missingPageTrace.1] at hzero
  revert hzero
  decide

end Proxy
end NetworkProxy
