import NetworkProxy.Forwarder

/-!
# What enters the cache

The relay loop decides about storing a response chunk by chunk.  The four variables
of the loop are computed from the list of chunks, so the stores of a run of
`forward_http` are known from the chunks it relayed.

* `storesOf_run`: the stores of a run.
* `stored_as_whole_iff`: when the decision is the one on the whole response.
* `failure_kept_out_iff`: when a transfer that failed stays out of the cache.
-/

namespace NetworkProxy
namespace Proxy

open Py Http Cache Forward

/-! ## The variables of the loop -/

/-- A status with which the loop goes on collecting. -/
def AdmitsStatus : Option ℤ → Prop
  | none => True
  | some status => status = 0 ∨ status = 200

instance : DecidablePred AdmitsStatus := fun status =>
  match status with
  | none => isTrue trivial
  | some status => inferInstanceAs (Decidable (status = 0 ∨ status = 200))

/-- The status of the first chunk in which one can be read. -/
def firstStatus (chunks : List Bytes) : Option ℤ := chunks.findSome? parseResponseStatus

/-- The chunks of a `GET` that are stored after the loop. -/
def Storable (maxObjectSize : ℤ) (chunks : List Bytes) : Prop :=
  chunks ≠ [] ∧ (chunks.flatten.length : ℤ) ≤ maxObjectSize ∧ AdmitsStatus (firstStatus chunks)

instance (maxObjectSize : ℤ) (chunks : List Bytes) : Decidable (Storable maxObjectSize chunks) := by
  unfold Storable
  infer_instance

theorem firstStatus_append_singleton (chunks : List Bytes) (data : Bytes) :
    firstStatus (chunks ++ [data]) = (firstStatus chunks).or (parseResponseStatus data) := by
  rw [firstStatus, List.findSome?_append, List.findSome?_singleton, firstStatus]

namespace Transfer

/-- What the variables are after a `GET` relayed the chunks. -/
structure Describes (maxObjectSize : ℤ) (chunks : List Bytes) (s : Transfer) : Prop where
  statusCode : s.statusCode = firstStatus chunks
  cacheable : s.cacheable = true ↔
    AdmitsStatus (firstStatus chunks) ∧
      (chunks = [] ∨ (chunks.flatten.length : ℤ) ≤ maxObjectSize)
  collected : s.cacheable = true →
    s.responseChunks = chunks ∧ s.totalSize = chunks.flatten.length

theorem withStatus_responseChunks (s : Transfer) (data : Bytes) :
    (s.withStatus data).responseChunks = s.responseChunks ∧
      (s.withStatus data).totalSize = s.totalSize := by
  rw [withStatus]
  split
  · exact ⟨rfl, rfl⟩
  · split
    · exact ⟨rfl, rfl⟩
    · exact ⟨rfl, rfl⟩

theorem withStatus_statusCode (s : Transfer) (data : Bytes) :
    (s.withStatus data).statusCode = s.statusCode.or (parseResponseStatus data) := by
  rw [withStatus]
  split
  · rename_i status hstatus
    rw [hstatus, Option.some_or]
  · rename_i hstatus
    split
    · rename_i hparse
      rw [hstatus, hparse, Option.none_or]
    · rename_i status hparse
      rw [hstatus, hparse, Option.none_or]

/-- The flag is dropped with the first status that is neither 0 nor 200. -/
theorem withStatus_cacheable {s : Transfer} (hs : s.cacheable = true → AdmitsStatus s.statusCode)
    (data : Bytes) :
    (s.withStatus data).cacheable = true ↔
      s.cacheable = true ∧ AdmitsStatus (s.statusCode.or (parseResponseStatus data)) := by
  rw [withStatus]
  split
  · rename_i status hstatus
    rw [hstatus, Option.some_or]
    constructor
    · intro hc
      have hadmits := hs hc
      rw [hstatus] at hadmits
      exact ⟨hc, hadmits⟩
    · exact fun h => h.1
  · rename_i hstatus
    rw [hstatus, Option.none_or]
    split
    · rename_i hparse
      rw [hparse]
      exact ⟨fun hc => ⟨hc, trivial⟩, fun h => h.1⟩
    · rename_i status hparse
      rw [hparse]
      by_cases hother : status ≠ 0 ∧ status ≠ 200
      · rw [if_pos hother]
        refine ⟨nofun, ?_⟩
        rintro ⟨-, hzero | hok⟩
        · exact absurd hzero hother.1
        · exact absurd hok hother.2
      · rw [if_neg hother]
        refine ⟨fun hc => ⟨hc, ?_⟩, fun h => h.1⟩
        show status = 0 ∨ status = 200
        omega

/-- One round keeps the description. -/
theorem Describes.absorb {maxObjectSize : ℤ} {chunks : List Bytes} {s : Transfer}
    (h : Describes maxObjectSize chunks s) (data : Bytes) :
    Describes maxObjectSize (chunks ++ [data]) (s.absorb maxObjectSize data) := by
  have hstatus : (s.withStatus data).statusCode = firstStatus (chunks ++ [data]) := by
    rw [withStatus_statusCode, h.statusCode, firstStatus_append_singleton]
  have hcacheable := withStatus_cacheable (s := s)
    (fun hc => h.statusCode ▸ (h.cacheable.mp hc).1) data
  rw [h.statusCode, ← firstStatus_append_singleton] at hcacheable
  obtain ⟨hchunks, hsize⟩ := withStatus_responseChunks s data
  have hlength : (chunks ++ [data]).flatten.length = chunks.flatten.length + data.length := by
    simp
  rw [Transfer.absorb, collect]
  by_cases hc : (s.withStatus data).cacheable = true
  · obtain ⟨hold, hadmits⟩ := hcacheable.mp hc
    obtain ⟨hresponse, htotal⟩ := h.collected hold
    rw [if_pos hc, hsize, htotal, ← hlength]
    by_cases hfits : (((chunks ++ [data]).flatten.length : ℕ) : ℤ) ≤ maxObjectSize
    · rw [if_pos hfits]
      refine ⟨hstatus, ⟨fun _ => ⟨hadmits, Or.inr hfits⟩, fun _ => hc⟩, fun _ => ⟨?_, rfl⟩⟩
      rw [hchunks, hresponse]
    · rw [if_neg hfits]
      refine ⟨hstatus, ⟨nofun, ?_⟩, nofun⟩
      rintro ⟨-, hnil | hle⟩
      · simp at hnil
      · exact absurd hle hfits
  · rw [if_neg hc]
    refine ⟨hstatus, ⟨fun hc' => absurd hc' hc, ?_⟩, fun hc' => absurd hc' hc⟩
    rintro ⟨hadmits, hnil | hle⟩
    · simp at hnil
    · refine absurd (hcacheable.mpr ⟨h.cacheable.mpr ⟨?_, Or.inr ?_⟩, hadmits⟩) hc
      · rw [firstStatus_append_singleton] at hadmits
        cases hfirst : firstStatus chunks with
        | none => exact trivial
        | some status => rwa [hfirst, Option.some_or] at hadmits
      · rw [hlength] at hle
        omega

/-- The loop.  The variables after the chunks of a `GET`. -/
theorem describes_foldl (maxObjectSize : ℤ) (chunks : List Bytes) :
    Describes maxObjectSize chunks
      (chunks.foldl (Transfer.absorb maxObjectSize) (Transfer.create (txt "GET"))) := by
  induction chunks using List.reverseRecOn with
  | nil =>
      refine ⟨rfl, ⟨fun _ => ⟨trivial, Or.inl rfl⟩, fun _ => ?_⟩, fun _ => ⟨rfl, rfl⟩⟩
      exact decide_eq_true (p := txt "GET" = txt "GET") rfl
  | append_singleton chunks data ih =>
      rw [List.foldl_append]
      exact ih.absorb data

/-- The store decision. -/
theorem Describes.stored_iff {maxObjectSize : ℤ} {chunks : List Bytes} {s : Transfer}
    (h : Describes maxObjectSize chunks s) :
    (s.cacheable = true ∧ s.responseChunks ≠ []) ↔ Storable maxObjectSize chunks := by
  constructor
  · rintro ⟨hc, hne⟩
    obtain ⟨hadmits, hnil | hle⟩ := h.cacheable.mp hc
    · exact absurd ((h.collected hc).1.trans hnil) hne
    · exact ⟨fun hnil => hne ((h.collected hc).1.trans hnil), hle, hadmits⟩
  · rintro ⟨hne, hle, hadmits⟩
    have hc := h.cacheable.mpr ⟨hadmits, Or.inr hle⟩
    exact ⟨hc, by rw [(h.collected hc).1]; exact hne⟩

end Transfer

/-! ## The stores of a run -/

/-- The values a trace stores, in order. -/
def storesOf (t : Trace) : List (CacheKey × Entry) :=
  t.filterMap fun
    | .called (.cachePut key value) _ => some (key, value)
    | _ => none

/-- What the origin's socket answers, in order. -/
def serverAnswers (t : Trace) : List (Except PyExc Bytes) :=
  t.filterMap fun
    | .called (.recvServer _) data => some (.ok data)
    | .raised (.recvServer _) e => some (.error e)
    | _ => none

/-- The last answer of the origin's socket in a transfer. -/
def Ending.answer : Ending → Except PyExc Bytes
  | eof => .ok []
  | recvFailed message => .error (.osError message)
  | sendFailed data _ _ => .ok data

/-- The answers of the origin's socket in a transfer. -/
def Response.answers (r : Response) : List (Except PyExc Bytes) :=
  r.chunks.map .ok ++ [r.ending.answer]

/-- A run of `forward_http` in which the origin's socket answers as in `r`. -/
def TransferRun (maxObjectSize : ℤ) (p : ParsedRequest) (r : Response) (t : Trace) : Prop :=
  (∃ rounds, Exec (forwardHttp maxObjectSize rounds p) t (.returned ())) ∧
    serverAnswers t = r.answers

theorem storesOf_append (t t' : Trace) : storesOf (t ++ t') = storesOf t ++ storesOf t' :=
  List.filterMap_append

theorem serverAnswers_append (t t' : Trace) :
    serverAnswers (t ++ t') = serverAnswers t ++ serverAnswers t' :=
  List.filterMap_append

theorem storesOf_quiet {t : Trace} (h : QuietTrace t) : storesOf t = [] := by
  refine List.filterMap_eq_nil_iff.mpr fun event hmem => ?_
  cases event with
  | called op answer =>
      have hop := h _ hmem op rfl
      cases op <;> first | rfl | exact absurd hop not_false
  | raised op e => rfl
  | noted n => rfl

theorem serverAnswers_quiet {t : Trace} (h : QuietTrace t) : serverAnswers t = [] := by
  refine List.filterMap_eq_nil_iff.mpr fun event hmem => ?_
  cases event with
  | called op answer =>
      have hop := h _ hmem op rfl
      cases op <;> first | rfl | exact absurd hop not_false
  | raised op e =>
      have hop := h _ hmem op rfl
      cases op <;> first | rfl | exact absurd hop not_false
  | noted n => rfl

theorem storesOf_chunks (chunks : List Bytes) : storesOf (chunks.flatMap chunkEvents) = [] := by
  induction chunks with
  | nil => rfl
  | cons data chunks ih => exact ih

theorem serverAnswers_chunks (chunks : List Bytes) :
    serverAnswers (chunks.flatMap chunkEvents) = chunks.map .ok := by
  induction chunks with
  | nil => rfl
  | cons data chunks ih => exact congrArg (Except.ok data :: ·) ih

theorem storesOf_events (r : Response) : storesOf r.events = [] := by
  rw [Response.events, storesOf_append, storesOf_chunks, List.nil_append]
  cases r.ending <;> rfl

theorem serverAnswers_events (r : Response) : serverAnswers r.events = r.answers := by
  rw [Response.events, serverAnswers_append, serverAnswers_chunks, Response.answers]
  cases r.ending <;> rfl

theorem serverAnswers_after (p : ParsedRequest) (start stop now : ℚ) (s : Transfer) :
    serverAnswers (afterEvents p start stop now s) = [] := by
  rw [afterEvents]
  split <;> rfl

theorem storesOf_after (p : ParsedRequest) (start stop now : ℚ) (s : Transfer) :
    storesOf (afterEvents p start stop now s) =
      if s.cacheable = true ∧ s.responseChunks ≠ [] then [(cacheKey p, storedEntry s now)]
      else [] := by
  rw [afterEvents]
  split <;> rfl

/-- The answers determine the chunks, and whether the response was complete. -/
theorem Response.of_answers {r r' : Response} (h : r.answers = r'.answers) :
    r.chunks = r'.chunks ∧ (r.ending = .eof ↔ r'.ending = .eof) := by
  obtain ⟨hchunks, hlast⟩ := List.append_inj' h rfl
  refine ⟨List.map_injective_iff.mpr (fun _ _ => Except.ok.inj) hchunks, ?_⟩
  have eof_iff : ∀ ending : Ending, ending = .eof ↔ ending.answer = .ok [] := by
    intro ending
    cases ending with
    | eof => exact ⟨fun _ => rfl, fun _ => rfl⟩
    | recvFailed message => exact ⟨nofun, nofun⟩
    | sendFailed data hdata message =>
        exact ⟨nofun, fun hanswer => absurd (Except.ok.inj hanswer) hdata⟩
  rw [eof_iff, eof_iff, List.cons.inj hlast |>.1]

/-- The stores of a run.  The chunks decide whether there is one, and they are the
stored value. -/
theorem storesOf_run {maxObjectSize : ℤ} {p : ParsedRequest} (hget : p.method = txt "GET")
    {r : Response} {t : Trace} (h : TransferRun maxObjectSize p r t) :
    ∃ now : ℚ, storesOf t =
      if Storable maxObjectSize r.chunks then
        [(cacheKey p, ⟨r.chunks.flatten, some r.chunks.flatten.length, some now⟩)]
      else [] := by
  obtain ⟨⟨rounds, hexec⟩, hanswers⟩ := h
  rcases exec_forwardHttp hexec with hquiet | ⟨pre, r', start, stop, now, hquiet, rfl⟩
  · rw [serverAnswers_quiet hquiet] at hanswers
    simp [Response.answers] at hanswers
  · rw [serverAnswers_append, serverAnswers_append, serverAnswers_quiet hquiet,
      serverAnswers_events, serverAnswers_after, List.nil_append, List.append_nil] at hanswers
    have hchunks := (Response.of_answers hanswers).1
    have hloop := Transfer.describes_foldl maxObjectSize r'.chunks
    rw [hget, storesOf_append, storesOf_append, storesOf_quiet hquiet, storesOf_events,
      storesOf_after, List.nil_append, List.nil_append, ← hchunks]
    refine ⟨now, ?_⟩
    by_cases hstored : Storable maxObjectSize r'.chunks
    · have hkept := hloop.stored_iff.mpr hstored
      obtain ⟨hresponse, hsize⟩ := hloop.collected hkept.1
      rw [if_pos hkept, if_pos hstored, storedEntry, hresponse, hsize]
    · rw [if_neg hstored, if_neg fun hkept => hstored (hloop.stored_iff.mp hkept)]

/-- Every response occurs in a run. -/
theorem exists_transferRun (maxObjectSize : ℤ) {p : ParsedRequest} (hget : p.method = txt "GET")
    (r : Response) : ∃ t, TransferRun maxObjectSize p r t := by
  refine ⟨fetchTrace maxObjectSize p r 0 0 0, ⟨_, exec_fetchTrace maxObjectSize hget r 0 0 0⟩, ?_⟩
  have hbefore : serverAnswers (missEvents p) = [] ∧ serverAnswers (connectEvents p) = [] ∧
      serverAnswers (sendEvents p) = [] := ⟨rfl, rfl, rfl⟩
  have hstart (rest : Trace) :
      serverAnswers (.called .monotonic (0 : ℚ) :: rest) = serverAnswers rest := rfl
  rw [fetchTrace, serverAnswers_append, hstart, serverAnswers_append, serverAnswers_append,
    serverAnswers_append, hbefore.1, hbefore.2.1, hbefore.2.2, serverAnswers_events,
    serverAnswers_after, List.append_nil, List.nil_append, List.nil_append, List.nil_append]

/-! ## The decision on the whole response -/

/-- A whole response with status 200, not larger than `MAX_OBJECT_SIZE`. -/
def Admitted (maxObjectSize : ℤ) (whole : Bytes) : Prop :=
  parseResponseStatus whole = some 200 ∧ (whole.length : ℤ) ≤ maxObjectSize

instance (maxObjectSize : ℤ) (whole : Bytes) : Decidable (Admitted maxObjectSize whole) := by
  unfold Admitted
  infer_instance

/-- What the trace stores, without the time stamps, depends on the whole response only:
the response itself under the key of the request if it is admitted, else nothing. -/
def StoredAsWhole (maxObjectSize : ℤ) (p : ParsedRequest) (whole : Bytes) (t : Trace) : Prop :=
  (storesOf t).map (fun stored => (stored.1, stored.2.response, stored.2.size)) =
    if Admitted maxObjectSize whole then [(cacheKey p, whole, some (whole.length : ℤ))] else []

/-- A status line that the first chunk holds completely is read as that of the whole. -/
theorem parseResponseStatus_append {chunk line rest : Bytes}
    (hline : breakOn [13, 10] chunk = some (line, rest)) (more : Bytes) :
    parseResponseStatus (chunk ++ more) = parseResponseStatus chunk := by
  rw [parseResponseStatus, parseResponseStatus, hline, breakOn_append more hline]

/-- A first chunk that holds the status line decides for the whole stream. -/
theorem admitsStatus_of_statusLine {chunk line rest : Bytes} {status : ℤ}
    (hline : breakOn [13, 10] chunk = some (line, rest))
    (hstatus : parseResponseStatus chunk = some status) (hzero : status ≠ 0)
    (chunks : List Bytes) :
    AdmitsStatus (firstStatus (chunk :: chunks)) ↔
      parseResponseStatus (chunk :: chunks).flatten = some 200 := by
  rw [List.flatten_cons, parseResponseStatus_append hline, hstatus, firstStatus,
    List.findSome?_cons_of_isSome (by rw [hstatus]; rfl), hstatus]
  constructor
  · rintro (h | rfl)
    · exact absurd h hzero
    · rfl
  · exact fun h => Or.inr (Option.some.inj h)

/-- **Cache admission.**  The response is stored as the whole stream demands exactly when
the stream is too large, or the status the loop reads from its chunks admits it exactly
when the status line of the whole stream says 200. -/
theorem stored_as_whole_iff (maxObjectSize : ℤ) {p : ParsedRequest}
    (hget : p.method = txt "GET") {chunks : List Bytes} (hne : chunks ≠ [])
    (hchunks : ∀ c, c ∈ chunks → c ≠ []) :
    (∃ t, TransferRun maxObjectSize p ⟨chunks, hchunks, .eof⟩ t) ∧
      ∀ t, TransferRun maxObjectSize p ⟨chunks, hchunks, .eof⟩ t →
        (StoredAsWhole maxObjectSize p chunks.flatten t ↔
          maxObjectSize < chunks.flatten.length ∨
          (AdmitsStatus (firstStatus chunks) ↔
            parseResponseStatus chunks.flatten = some 200)) := by
  refine ⟨exists_transferRun maxObjectSize hget _, fun t ht => ?_⟩
  obtain ⟨now, hstores⟩ := storesOf_run hget ht
  dsimp only at hstores
  have hcontent : StoredAsWhole maxObjectSize p chunks.flatten t ↔
      (Storable maxObjectSize chunks ↔ Admitted maxObjectSize chunks.flatten) := by
    rw [StoredAsWhole, hstores]
    by_cases hs : Storable maxObjectSize chunks <;>
      by_cases ha : Admitted maxObjectSize chunks.flatten <;> simp [hs, ha]
  rw [hcontent, Storable, Admitted]
  rcases lt_or_ge maxObjectSize (chunks.flatten.length : ℤ) with hlarge | hfits
  · have hnot := not_le.mpr hlarge
    tauto
  · have hnot := not_lt.mpr hfits
    tauto

/-- A response that is not found: its status line arrives in two chunks. -/
def splitNotFound : List Bytes := [ascii "HTTP/1.1", ascii " 404 Not Found\r\n\r\n"]

/-- The request whose answer `splitNotFound` is. -/
def plainGet : ParsedRequest where
  method := txt "GET"
  host := txt "a"
  port := 80
  path := some (txt "/")
  headers := OrderedDict.empty
  contentLength := none
  body := []
  requestId := []
  raw := []
  clientIp := none

theorem stored_as_whole_splitNotFound :
    (∃ t, TransferRun 1000 plainGet ⟨splitNotFound, by decide, .eof⟩ t) ∧
      ∀ t, TransferRun 1000 plainGet ⟨splitNotFound, by decide, .eof⟩ t →
        (StoredAsWhole 1000 plainGet splitNotFound.flatten t ↔
          1000 < (splitNotFound.flatten.length : ℤ) ∨
          (AdmitsStatus (firstStatus splitNotFound) ↔
            parseResponseStatus splitNotFound.flatten = some 200)) :=
  stored_as_whole_iff 1000 rfl (by decide) (by decide)

/-- The page that was not found is stored, although received in one piece it is not. -/
theorem split_status_line_is_stored :
    ∃ t t', TransferRun 1000 plainGet ⟨splitNotFound, by decide, .eof⟩ t ∧
      TransferRun 1000 plainGet ⟨[splitNotFound.flatten], by decide, .eof⟩ t' ∧
      ¬ Admitted 1000 splitNotFound.flatten ∧
      (∃ entry, storesOf t = [(cacheKey plainGet, entry)]) ∧ storesOf t' = [] := by
  obtain ⟨t, ht⟩ := exists_transferRun 1000 (p := plainGet) rfl ⟨splitNotFound, by decide, .eof⟩
  obtain ⟨t', ht'⟩ := exists_transferRun 1000 (p := plainGet) rfl
    ⟨[splitNotFound.flatten], by decide, .eof⟩
  refine ⟨t, t', ht, ht', by decide, ?_, ?_⟩
  · obtain ⟨now, hstores⟩ := storesOf_run rfl ht
    rw [if_pos (by decide)] at hstores
    exact ⟨_, hstores⟩
  · obtain ⟨now, hstores⟩ := storesOf_run rfl ht'
    rwa [if_neg (by decide)] at hstores

/-! ## Failed transfers -/

/-- The cache after the stores of a trace, from the cache after its lookup. -/
def cacheAfter (cfg : CacheConfig) (c : LRUCache CacheKey) (t : Trace) : LRUCache CacheKey :=
  (storesOf t).foldl
    (fun c stored => c.put cfg stored.1 stored.2 (stored.2.timestamp.getD 0)) c

/-- A transfer that failed leaves the cache as it was after the lookup, and what is
stored is a complete response with its length. -/
structure FailureKeptOut (cfg : CacheConfig) (c : LRUCache CacheKey) (r : Response) (t : Trace) :
    Prop where
  unchanged : r.ending ≠ .eof → cacheAfter cfg c t = c
  complete : cfg.enabled = true → ∀ key value, (key, value) ∈ storesOf t →
    r.ending = .eof ∧ value.response = r.chunks.flatten ∧
      value.size = some (r.chunks.flatten.length : ℤ)

/-- **Failed transfers.**  A failure stays out of the cache exactly when the response
ends without one, or nothing may be stored after the chunks before it. -/
theorem failure_kept_out_iff (cfg : CacheConfig) {p : ParsedRequest}
    (hget : p.method = txt "GET") (r : Response) :
    (∃ t, TransferRun cfg.maxObjectSize p r t) ∧
      ∀ t, TransferRun cfg.maxObjectSize p r t → ∀ c,
        (FailureKeptOut cfg c r t ↔
          r.ending = .eof ∨ cfg.enabled = false ∨ ¬ Storable cfg.maxObjectSize r.chunks) := by
  refine ⟨exists_transferRun cfg.maxObjectSize hget r, fun t ht c => ?_⟩
  obtain ⟨now, hstores⟩ := storesOf_run hget ht
  by_cases hstored : Storable cfg.maxObjectSize r.chunks
  · rw [if_pos hstored] at hstores
    have hafter : cacheAfter cfg c t = c.put cfg (cacheKey p)
        ⟨r.chunks.flatten, some r.chunks.flatten.length, some now⟩ now := by
      rw [cacheAfter, hstores]
      rfl
    constructor
    · intro h
      by_contra hcases
      obtain ⟨hfailed, hon, -⟩ : r.ending ≠ .eof ∧ cfg.enabled = true ∧ _ := by
        simpa using hcases
      refine LRUCache.put_ne_self hon c (cacheKey p) now ?_ (hafter ▸ h.unchanged hfailed)
      exact hstored.2.1
    · rintro (heof | hoff | hnot)
      · refine ⟨fun hfailed => absurd heof hfailed, fun _ key value hmem => ⟨heof, ?_⟩⟩
        rw [hstores, List.mem_singleton] at hmem
        obtain ⟨rfl, rfl⟩ := Prod.mk.inj hmem
        exact ⟨rfl, rfl⟩
      · refine ⟨fun _ => ?_, fun hon => absurd (hon.symm.trans hoff) Bool.noConfusion⟩
        rw [hafter, LRUCache.put, if_neg (by rw [hoff]; exact Bool.false_ne_true)]
      · exact absurd hstored hnot
  · rw [if_neg hstored] at hstores
    refine ⟨fun _ => Or.inr (Or.inr hstored), fun _ => ⟨fun _ => ?_, fun _ key value hmem => ?_⟩⟩
    · rw [cacheAfter, hstores]
      rfl
    · rw [hstores] at hmem
      cases hmem

/-- The start of a page, after which the connection to the origin is reset. -/
def resetPage : Response where
  chunks := [ascii "HTTP/1.1 200 OK\r\nContent-Length: 9\r\n\r\nhalf"]
  chunks_ne_nil := by decide
  ending := .recvFailed (txt "reset")

theorem failure_kept_out_resetPage :
    (∃ t, TransferRun 1000 plainGet resetPage t) ∧
      ∀ t, TransferRun 1000 plainGet resetPage t → ∀ c,
        (FailureKeptOut ⟨true, 1000⟩ c resetPage t ↔
          resetPage.ending = .eof ∨ true = false ∨ ¬ Storable 1000 resetPage.chunks) :=
  failure_kept_out_iff ⟨true, 1000⟩ rfl resetPage

/-- Half a page is stored after the reset. -/
theorem truncated_page_is_stored :
    ∃ t entry, TransferRun 1000 plainGet resetPage t ∧ resetPage.ending ≠ .eof ∧
      storesOf t = [(cacheKey plainGet, entry)] ∧
      entry.response = resetPage.chunks.flatten ∧
      ∀ c : LRUCache CacheKey, cacheAfter ⟨true, 1000⟩ c t ≠ c := by
  obtain ⟨t, ht⟩ := exists_transferRun 1000 (p := plainGet) rfl resetPage
  obtain ⟨now, hstores⟩ := storesOf_run rfl ht
  rw [if_pos (by decide)] at hstores
  refine ⟨t, _, ht, nofun, hstores, rfl, fun c => ?_⟩
  rw [cacheAfter, hstores, List.foldl_cons, List.foldl_nil]
  have hon : (⟨true, 1000⟩ : CacheConfig).enabled = true := rfl
  refine LRUCache.put_ne_self hon c _ now ?_
  show (resetPage.chunks.flatten.length : ℤ) ≤ 1000
  decide

end Proxy
end NetworkProxy
