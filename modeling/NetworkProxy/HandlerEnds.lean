import NetworkProxy.Handler
import NetworkProxy.Termination

/-!
# Connections end

`handle_client` in an environment whose origin sends a bounded number of chunks.

* `haltsIn_serve`: the request is served within a bounded number of calls.
* `every_connection_ends`: the handler ends, the same way for every bound on the rounds that is
  large enough; it closes the client last and lets no `Exception` out.
-/

namespace NetworkProxy
namespace Proxy

open Py Http Cache Handler

/-! ## Bounded origins -/

/-- The origin sends a chunk. -/
def originChunk : Event → Bool
  | .called (.recvServer _) data => !List.isEmpty data
  | _ => false

/-- At most `n` chunks were sent. -/
def Paced (n : ℕ) (past : Trace) : Prop := past.countP originChunk ≤ n

/-- A chunk comes only while fewer than `n` were sent. -/
def Possible (n : ℕ) (past : Trace) (event : Event) : Prop :=
  originChunk event = true → past.countP originChunk < n

theorem Paced.step {n : ℕ} {past : Trace} {event : Event} (h : Possible n past event)
    (hpaced : Paced n past) : Paced n (event :: past) := by
  rw [Paced, List.countP_cons]
  split
  · rename_i hchunk
    exact h hchunk
  · exact hpaced

theorem Paced.note {n : ℕ} {past : Trace} (note : Note) (h : Paced n past) :
    Paced n (.noted note :: past) :=
  Paced.step (fun hchunk => by cases hchunk) h

/-- The program ends after at most `c` events. -/
def HaltsIn {α : Type} (n : ℕ) (past : Trace) (c : ℕ) (p : Program α) : Prop :=
  Halts (Possible n) past p fun past' _ =>
    Paced n past' ∧ past <:+ past' ∧ past'.length ≤ past.length + c

section Rules

variable {α β : Type} {n : ℕ} {past : Trace}

theorem HaltsIn.of_within {c : ℕ} {p : Program α} (h : Within c p) (hpaced : Paced n past) :
    HaltsIn n past c p :=
  (h.halts past).invariant (I := Paced n) (fun _ _ hpossible => Paced.step hpossible)
    (fun _ note => Paced.note note) hpaced

theorem HaltsIn.mono {c d : ℕ} {p : Program α} (h : HaltsIn n past c p) (hcd : c ≤ d) :
    HaltsIn n past d p :=
  Halts.mono h fun _ _ hQ => ⟨hQ.1, hQ.2.1, hQ.2.2.trans (Nat.add_le_add_left hcd _)⟩

theorem HaltsIn.bind {c d : ℕ} {p : Program α} {k : α → Program β} (h : HaltsIn n past c p)
    (hk : ∀ a past', Paced n past' → HaltsIn n past' d (k a)) :
    HaltsIn n past (c + d) (p.bind k) := by
  refine Halts.bind (Halts.mono h fun past' o hQ => ?_)
  obtain ⟨hpaced, hsuffix, hlength⟩ := hQ
  cases o with
  | returned a =>
      refine Halts.mono (hk a past' hpaced) fun past'' o' hQ' => ?_
      exact ⟨hQ'.1, hsuffix.trans hQ'.2.1, by omega⟩
  | raised e => exact ⟨hpaced, hsuffix, by omega⟩
  | running => exact trivial

/-- A call, and what follows it. -/
theorem HaltsIn.perform_bind {d : ℕ} {op : Op} {k : Ans op → Program β} (hpaced : Paced n past)
    (hk : ∀ a past', Paced n past' → HaltsIn n past' d (k a)) :
    HaltsIn n past (1 + d) ((perform op).bind k) :=
  (HaltsIn.of_within (Within.perform op) hpaced).bind hk

end Rules

/-! ## The parts without loops -/

theorem within_sendBadGateway : Within 2 sendBadGateway :=
  (Within.perform _).bind fun _ => Within.perform _

theorem within_onOSError {α : Type} {c : ℕ} {h : Program α} (hh : Within c h) (e : PyExc) :
    Within c (onOSError h e) := by
  rw [onOSError]
  split
  · exact hh
  · exact Within.raise c e

theorem within_swallow (e : PyExc) : Within 0 (swallow e) := by
  rw [swallow]
  split
  · exact Within.ret 0 ()
  · exact Within.raise 0 e

theorem within_lookup (p : ParsedRequest) : Within 4 (Forward.lookup p) := by
  rw [Forward.lookup]
  split
  · refine Within.bind (c := 1) (d := 3) (Within.perform _) fun cached => ?_
    cases cached with
    | some cached =>
        refine Within.bind (c := 1) (d := 2) (Within.perform _) fun _ => ?_
        refine Within.bind (c := 1) (d := 1) (Within.perform _) fun _ => ?_
        refine Within.bind (c := 1) (d := 0) ?_ fun _ => Within.ret 0 true
        exact Within.tryCatch (c := 1) (d := 0) (Within.perform _)
          (within_onOSError (Within.ret 0 ()))
    | none =>
        refine Within.mono (c := 1) ?_ (by omega)
        exact Within.bind (c := 1) (d := 0) (Within.perform _) fun _ => Within.ret 0 false
  · exact Within.ret 4 false

theorem within_connectOrigin (p : ParsedRequest) : Within 5 (Forward.connectOrigin p) := by
  refine Within.tryCatch (c := 3) (d := 2) ?_ (within_onOSError ?_)
  · refine Within.bind (c := 1) (d := 2) (Within.perform _) fun _ => ?_
    refine Within.bind (c := 1) (d := 1) (Within.perform _) fun _ => ?_
    exact Within.bind (c := 1) (d := 0) (Within.perform _) fun _ => Within.ret 0 true
  · exact Within.bind (c := 2) (d := 0) within_sendBadGateway fun _ => Within.ret 0 false

theorem within_sendRequest (p : ParsedRequest) : Within 4 (Forward.sendRequest p) := by
  refine Within.tryCatch (c := 1) (d := 3) ?_ (within_onOSError ?_)
  · exact Within.bind (c := 1) (d := 0) (Within.perform _) fun _ => Within.ret 0 true
  · refine Within.bind (c := 1) (d := 2) (Within.perform _) fun _ => ?_
    exact Within.bind (c := 2) (d := 0) within_sendBadGateway fun _ => Within.ret 0 false

theorem within_finish (p : ParsedRequest) (start : ℚ) (s : Transfer) :
    Within 5 (Forward.finish p start s) := by
  refine Within.bind (c := 1) (d := 4) (Within.perform _) fun _ => ?_
  refine Within.bind (c := 1) (d := 3) (Within.perform _) fun now => ?_
  dsimp only
  split
  · refine Within.bind (c := 1) (d := 2) (Within.perform _) fun _ => ?_
    exact Within.bind (c := 1) (d := 1) (Within.perform _) fun _ => Within.perform _
  · exact Within.mono (Within.perform _) (by omega)

theorem within_tunnelThrough (p : ParsedRequest) : Within 7 (tunnelThrough p) := by
  refine Within.finallyDo (c := 6) (d := 1) ?_ ?_
  · refine Within.tryCatch (c := 4) (d := 2) ?_ (within_onOSError within_sendBadGateway)
    refine Within.bind (c := 1) (d := 3) (Within.perform _) fun _ => ?_
    refine Within.bind (c := 1) (d := 2) (Within.perform _) fun _ => ?_
    exact Within.bind (c := 1) (d := 1) (Within.perform _) fun _ => Within.perform _
  · exact Within.tryCatch (c := 1) (d := 0) (Within.perform _) within_swallow

section Parts

variable (cfg : HandlerConfig) (addr : ClientAddr)

theorem within_parseRaw (raw : Bytes) : Within 1 (parseRaw cfg raw) := by
  rw [parseRaw]
  split
  · exact Within.raise 1 _
  · exact Within.ret 1 none
  · exact Within.bind (c := 1) (d := 0) (Within.perform _) fun _ => Within.ret 0 _

theorem within_checkAuth (headers : OrderedDict Text Text) : Within 1 (checkAuth cfg headers) := by
  rw [checkAuth]
  split
  · exact Within.ret 1 false
  · split
    · exact Within.ret 1 false
    · exact Within.perform _

theorem within_rejectBadRequest : Within 2 rejectBadRequest :=
  (Within.perform _).bind fun _ => Within.perform _

theorem within_rejectRateLimited (p : ParsedRequest) :
    Within 4 (rejectRateLimited cfg addr p) := by
  refine Within.bind (c := 1) (d := 3) (Within.perform _) fun retryAfter => ?_
  refine Within.bind (c := 1) (d := 2) (Within.perform _) fun _ => ?_
  exact (Within.perform _).bind fun _ => Within.perform _

theorem within_rejectAuth (p : ParsedRequest) : Within 2 (rejectAuth cfg addr p) :=
  (Within.perform _).bind fun _ => Within.perform _

theorem within_rejectBlocked (p : ParsedRequest) : Within 3 (rejectBlocked cfg addr p) := by
  refine Within.bind (c := 1) (d := 2) (Within.perform _) fun _ => ?_
  exact (Within.perform _).bind fun _ => Within.perform _

theorem within_connectTunnel (p : ParsedRequest) : Within 11 (connectTunnel cfg addr p) := by
  refine Within.bind (c := 1) (d := 10) (Within.perform _) fun _ => ?_
  refine Within.bind (c := 3) (d := 7) ?_ fun made => ?_
  · refine Within.tryCatch (c := 1) (d := 2) ?_ (within_onOSError ?_)
    · exact Within.bind (c := 1) (d := 0) (Within.perform _) fun _ => Within.ret 0 true
    · exact Within.bind (c := 2) (d := 0) within_sendBadGateway fun _ => Within.ret 0 false
  · cases made with
    | true => exact within_tunnelThrough p
    | false => exact Within.ret 7 ()

end Parts

/-! ## The relay loop -/

/-- The history after a round that sent a chunk on. -/
def afterChunk (past : Trace) (data : Bytes) : Trace := (chunkEvents data).reverse ++ past

theorem countP_afterChunk (past : Trace) {data : Bytes} (hne : data ≠ []) :
    (afterChunk past data).countP originChunk = past.countP originChunk + 1 := by
  have hchunk : originChunk (.called (.recvServer bufferSize) data) = true := by
    simpa [originChunk] using hne
  have hsend : originChunk (.called (.sendClient data) ()) = false := rfl
  simp [afterChunk, chunkEvents, hchunk, hsend]

/-- One round of the loop: it ends the loop, or a chunk is sent on. -/
theorem halts_relayRound {n : ℕ} {past : Trace} (hpaced : Paced n past)
    {Q : Trace → Outcome PyExc (Option Bytes) → Prop}
    (hend : ∀ past', Paced n past' → past <:+ past' → past'.length ≤ past.length + 2 →
      Q past' (.returned none) ∧ ∀ e, Q past' (.raised e))
    (hchunk : ∀ data, data ≠ [] → past.countP originChunk < n → Paced n (afterChunk past data) →
      Q (afterChunk past data) (.returned (some data))) :
    Halts (Possible n) past (relayChunk.tryCatch (onOSError (.ret none))) Q := by
  have hcaught : ∀ {past' : Trace} (e : PyExc), Paced n past' → past <:+ past' →
      past'.length ≤ past.length + 2 →
      Halts (Possible n) past' (onOSError (.ret none) e) Q := by
    intro past' e hpaced' hsuffix hlength
    rw [onOSError]
    split
    · exact (hend past' hpaced' hsuffix hlength).1
    · exact (hend past' hpaced' hsuffix hlength).2 e
  refine Halts.tryCatch ⟨fun data hdata => ?_, fun e he => ?_⟩
  · have hreceived := hpaced.step hdata
    dsimp only
    rw [Prog.bind]
    split
    · exact (hend _ hreceived (List.suffix_cons _ _) (by simp)).1
    · rename_i hne
      have hbefore := hdata (by simpa [originChunk] using hne)
      exact ⟨fun _ hsent => hchunk data hne hbefore (hreceived.step hsent),
        fun e hfailed => hcaught e (hreceived.step hfailed)
          ((List.suffix_cons _ _).trans (List.suffix_cons _ _)) (by simp)⟩
  · exact hcaught e (hpaced.step he) (List.suffix_cons _ _) (by simp)

/-- The loop ends before its bound, after two calls for each chunk and two at the end. -/
theorem haltsIn_relay {n rounds : ℕ} (maxObjectSize : ℤ) {past : Trace} (hpaced : Paced n past)
    (hrounds : n < rounds + past.countP originChunk) (s : Transfer) :
    HaltsIn n past (2 * (n - past.countP originChunk) + 2) (relay maxObjectSize rounds s) := by
  induction rounds generalizing past s with
  | zero =>
      rw [Paced] at hpaced
      omega
  | succ rounds ih =>
      refine Halts.bind (halts_relayRound hpaced (fun past' hpaced' hsuffix hlength => ?_)
        fun data hne hbefore hpaced' => ?_)
      · exact ⟨⟨hpaced', hsuffix, by omega⟩, fun e => ⟨hpaced', hsuffix, by omega⟩⟩
      · have hcount := countP_afterChunk past hne
        refine Halts.mono (ih hpaced' (by omega) (s.absorb maxObjectSize data))
          fun past' o hQ => ?_
        obtain ⟨hpaced'', hsuffix, hlength⟩ := hQ
        have hafter : (afterChunk past data).length = past.length + 2 := rfl
        exact ⟨hpaced'', (List.suffix_append _ _).trans hsuffix, by omega⟩

/-! ## The request -/

section Serve

variable {n rounds : ℕ} {past : Trace}

theorem haltsIn_fetch (hrounds : n < rounds) (maxObjectSize : ℤ) (p : ParsedRequest)
    (hpaced : Paced n past) :
    HaltsIn n past (2 * n + 17) (Forward.fetch maxObjectSize rounds p) := by
  have hrelayed : ∀ start past', Paced n past' →
      HaltsIn n past' (2 * n + 7) ((relay maxObjectSize rounds (Transfer.create p.method)).bind
        (Forward.finish p start)) := by
    intro start past' hpaced'
    have hloop : HaltsIn n past' (2 * n + 2) (relay maxObjectSize rounds _) :=
      (haltsIn_relay maxObjectSize hpaced' (by omega) (Transfer.create p.method)).mono (by omega)
    exact (hloop.bind fun s past'' hpaced'' =>
      HaltsIn.of_within (within_finish p start s) hpaced'').mono (by omega)
  refine HaltsIn.mono (c := 1 + (5 + (4 + (2 * n + 7)))) ?_ (by omega)
  refine HaltsIn.perform_bind hpaced fun start past₁ hpaced₁ => ?_
  refine (HaltsIn.of_within (within_connectOrigin p) hpaced₁).bind fun stands past₂ hpaced₂ => ?_
  split
  · refine (HaltsIn.of_within (within_sendRequest p) hpaced₂).bind fun worked past₃ hpaced₃ => ?_
    split
    · exact hrelayed start past₃ hpaced₃
    · exact HaltsIn.of_within (Within.ret _ ()) hpaced₃
  · exact HaltsIn.of_within (Within.ret _ ()) hpaced₂

theorem haltsIn_forwardHttp (hrounds : n < rounds) (maxObjectSize : ℤ) (p : ParsedRequest)
    (hpaced : Paced n past) :
    HaltsIn n past (2 * n + 21) (forwardHttp maxObjectSize rounds p) := by
  refine HaltsIn.mono (c := 4 + (2 * n + 17)) ?_ (by omega)
  refine (HaltsIn.of_within (within_lookup p) hpaced).bind fun answered past' hpaced' => ?_
  split
  · exact HaltsIn.of_within (Within.ret _ ()) hpaced'
  · exact haltsIn_fetch hrounds maxObjectSize p hpaced'

variable (cfg : HandlerConfig) (addr : ClientAddr)

theorem haltsIn_dispatch (hrounds : n < rounds) (p : ParsedRequest) (hpaced : Paced n past) :
    HaltsIn n past (2 * n + 23) (dispatch cfg addr rounds p) := by
  refine HaltsIn.mono (c := 1 + (2 * n + 22)) ?_ (by omega)
  refine HaltsIn.perform_bind hpaced fun _ past' hpaced' => ?_
  split
  · exact (HaltsIn.of_within (within_connectTunnel cfg addr p) hpaced').mono (by omega)
  · refine HaltsIn.mono (c := 1 + (2 * n + 21)) ?_ (by omega)
    exact HaltsIn.perform_bind hpaced' fun _ past'' hpaced'' =>
      haltsIn_forwardHttp hrounds cfg.maxObjectSize p hpaced''

theorem haltsIn_filterHost (hrounds : n < rounds) (p : ParsedRequest) (hpaced : Paced n past) :
    HaltsIn n past (2 * n + 24) (filterHost cfg addr rounds p) := by
  refine HaltsIn.mono (c := 1 + (2 * n + 23)) ?_ (by omega)
  refine HaltsIn.perform_bind hpaced fun blocked past' hpaced' => ?_
  cases blocked with
  | true => exact (HaltsIn.of_within (within_rejectBlocked cfg addr p) hpaced').mono (by omega)
  | false => exact haltsIn_dispatch cfg addr hrounds p hpaced'

theorem haltsIn_authenticate (hrounds : n < rounds) (p : ParsedRequest) (hpaced : Paced n past) :
    HaltsIn n past (2 * n + 26) (authenticate cfg addr rounds p) := by
  have hnoted : ∀ ok : Bool, Within 1 (Prog.remark (.authChecked ok) : Program Unit) :=
    fun ok => trivial
  refine HaltsIn.mono (c := 1 + (1 + (2 * n + 24))) ?_ (by omega)
  refine (HaltsIn.of_within (within_checkAuth cfg p.headers) hpaced).bind
    fun ok past₁ hpaced₁ => ?_
  refine (HaltsIn.of_within (hnoted ok) hpaced₁).bind fun _ past₂ hpaced₂ => ?_
  cases ok with
  | false => exact (HaltsIn.of_within (within_rejectAuth cfg addr p) hpaced₂).mono (by omega)
  | true => exact haltsIn_filterHost cfg addr hrounds p hpaced₂

theorem haltsIn_limit (hrounds : n < rounds) (p : ParsedRequest) (hpaced : Paced n past) :
    HaltsIn n past (2 * n + 27) (limit cfg addr rounds p) := by
  rw [limit]
  split
  · refine HaltsIn.mono (c := 1 + (2 * n + 26)) ?_ (by omega)
    refine HaltsIn.perform_bind hpaced fun passed past' hpaced' => ?_
    cases passed with
    | false =>
        exact (HaltsIn.of_within (within_rejectRateLimited cfg addr p) hpaced').mono (by omega)
    | true => exact haltsIn_authenticate cfg addr hrounds p hpaced'
  · exact (haltsIn_authenticate cfg addr hrounds p hpaced).mono (by omega)

/-- The request is served within so many calls. -/
theorem haltsIn_serve (hrounds : n < rounds) (hpaced : Paced n past) :
    HaltsIn n past (2 * n + 31) (serve cfg addr rounds) := by
  refine HaltsIn.mono (c := 1 + (1 + (1 + (1 + (2 * n + 27))))) ?_ (by omega)
  refine HaltsIn.perform_bind hpaced fun raw past₁ hpaced₁ => ?_
  split
  · exact HaltsIn.of_within (Within.ret _ ()) hpaced₁
  · refine (HaltsIn.of_within (within_parseRaw cfg raw) hpaced₁).bind fun parsed past₂ hpaced₂ => ?_
    cases parsed with
    | none => exact (HaltsIn.of_within within_rejectBadRequest hpaced₂).mono (by omega)
    | some parsed =>
        refine HaltsIn.perform_bind hpaced₂ fun _ past₃ hpaced₃ => ?_
        refine HaltsIn.perform_bind hpaced₃ fun _ past₄ hpaced₄ => ?_
        exact haltsIn_limit cfg addr hrounds _ hpaced₄

end Serve

/-! ## The bound on the rounds -/

theorem below_relay (maxObjectSize : ℤ) {rounds rounds' : ℕ} (h : rounds ≤ rounds')
    (s : Transfer) : Below (relay maxObjectSize rounds s) (relay maxObjectSize rounds' s) := by
  induction rounds generalizing rounds' s with
  | zero => exact trivial
  | succ rounds ih =>
      obtain ⟨rounds', rfl⟩ := Nat.exists_eq_add_of_lt (Nat.lt_of_succ_le h)
      refine (Below.refl _).bind fun result => ?_
      cases result with
      | none => exact Below.refl _
      | some data => exact ih (by omega) _

section Bound

variable {rounds rounds' : ℕ}

theorem below_forwardHttp (maxObjectSize : ℤ) (h : rounds ≤ rounds') (p : ParsedRequest) :
    Below (forwardHttp maxObjectSize rounds p) (forwardHttp maxObjectSize rounds' p) := by
  refine (Below.refl _).bind fun answered => ?_
  split
  · exact Below.refl _
  · refine (Below.refl _).bind fun start => ?_
    refine (Below.refl _).bind fun stands => ?_
    split
    · refine (Below.refl _).bind fun worked => ?_
      split
      · exact (below_relay maxObjectSize h _).bind fun s => Below.refl _
      · exact Below.refl _
    · exact Below.refl _

variable (cfg : HandlerConfig) (addr : ClientAddr)

theorem below_authenticate (h : rounds ≤ rounds') (p : ParsedRequest) :
    Below (authenticate cfg addr rounds p) (authenticate cfg addr rounds' p) := by
  refine (Below.refl _).bind fun ok => ?_
  refine (Below.refl _).bind fun _ => ?_
  cases ok with
  | false => exact Below.refl _
  | true =>
      refine (Below.refl _).bind fun blocked => ?_
      cases blocked with
      | true => exact Below.refl _
      | false =>
          refine (Below.refl _).bind fun _ => ?_
          split
          · exact Below.refl _
          · exact (Below.refl _).bind fun _ => below_forwardHttp cfg.maxObjectSize h p

theorem below_limit (h : rounds ≤ rounds') (p : ParsedRequest) :
    Below (limit cfg addr rounds p) (limit cfg addr rounds' p) := by
  rw [limit, limit]
  split
  · refine (Below.refl _).bind fun passed => ?_
    cases passed with
    | false => exact Below.refl _
    | true => exact below_authenticate cfg addr h p
  · exact below_authenticate cfg addr h p

theorem below_handleClient (h : rounds ≤ rounds') :
    Below (handleClient cfg addr rounds) (handleClient cfg addr rounds') := by
  refine Below.finallyDo (Below.tryCatch ((Below.refl _).bind fun raw => ?_))
  split
  · exact Below.refl _
  · refine (Below.refl _).bind fun parsed => ?_
    cases parsed with
    | none => exact Below.refl _
    | some parsed =>
        refine (Below.refl _).bind fun _ => ?_
        exact (Below.refl _).bind fun _ => below_limit cfg addr h _

end Bound

/-! ## The end of a connection -/

/-- Nothing is raised by a program that returned. -/
theorem ofReturned {α : Type} {a : α} {P : PyExc → Prop} (e : PyExc)
    (h : (.returned a : Outcome PyExc α) = .raised e) : P e := by
  cases h

/-- The socket of the client is closed last. -/
theorem halts_close {n : ℕ} (past : Trace) :
    Halts (Possible n) past ((perform .closeClient).tryCatch swallow) fun past' o =>
      (∃ event, past' = event :: past ∧ event.op? = some .closeClient) ∧
        ∀ e, o = .raised e → e.isException = false := by
  refine Halts.tryCatch ⟨fun answer _ => ⟨⟨_, rfl, rfl⟩, ofReturned⟩, fun e _ => ?_⟩
  have hend : Halts (Possible n) (.raised .closeClient e :: past) (swallow e) fun past' o =>
      (∃ event, past' = event :: past ∧ event.op? = some .closeClient) ∧
        ∀ e, o = .raised e → e.isException = false := by
    rw [swallow]
    cases hexception : e.isException with
    | true => exact ⟨⟨_, rfl, rfl⟩, ofReturned⟩
    | false =>
        refine ⟨⟨_, rfl, rfl⟩, ?_⟩
        rintro _ ⟨⟩
        exact hexception
  exact hend

/-- The exception, if it is an `Exception`, came from counting an error. -/
def FromCounting (past : Trace) (e : PyExc) : Prop :=
  e.isException = true → .raised (.countMetric .errors) e ∈ past

/-- What the handler of exceptions lets out. -/
theorem halts_reportError {n : ℕ} (cfg : HandlerConfig) (addr : ClientAddr) (past : Trace)
    (e : PyExc) :
    Halts (Possible n) past (reportError cfg addr e) fun past' o =>
      past'.length ≤ past.length + 2 ∧ ∀ e', o = .raised e' → FromCounting past' e' := by
  rw [reportError]
  cases hexception : e.isException with
  | false =>
      refine ⟨Nat.le_add_right _ _, ?_⟩
      rintro _ ⟨⟩ htrue
      rw [hexception] at htrue
      cases htrue
  | true =>
      refine ⟨fun _ _ => Halts.tryCatch ⟨fun _ _ => ⟨by simp, ofReturned⟩, fun e' _ => ?_⟩,
        fun e' _ => ⟨by simp, ?_⟩⟩
      · have hend : Halts (Possible n) (.raised (.logEvent (addrText cfg addr ++
            txt " → INTERNAL ERROR: " ++ e.message) { action := some (txt "ERROR") }) e' ::
            .called (.countMetric .errors) () :: past) (swallow e') fun past' o =>
            past'.length ≤ past.length + 2 ∧ ∀ e', o = .raised e' → FromCounting past' e' := by
          rw [swallow]
          cases hlogged : e'.isException with
          | true => exact ⟨by simp, ofReturned⟩
          | false =>
              refine ⟨by simp, ?_⟩
              rintro _ ⟨⟩ htrue
              rw [hlogged] at htrue
              cases htrue
        exact hend
      · rintro _ ⟨⟩ _
        exact List.mem_cons_self

/-- The connection ends. -/
theorem halts_handleClient {n rounds : ℕ} (hrounds : n < rounds) (cfg : HandlerConfig)
    (addr : ClientAddr) :
    Halts (Possible n) [] (handleClient cfg addr rounds) fun past o =>
      (∃ event rest, past = event :: rest ∧ event.op? = some .closeClient) ∧
        past.length ≤ 2 * n + 34 ∧ ∀ e, o = .raised e → FromCounting past e := by
  have hclosed : ∀ (past : Trace) (o : Outcome PyExc Unit), past.length ≤ 2 * n + 33 →
      (∀ e, o = .raised e → FromCounting past e) →
      finallyHalts (Possible n) ((perform .closeClient).tryCatch swallow) (fun past' o' =>
        (∃ event rest, past' = event :: rest ∧ event.op? = some .closeClient) ∧
          past'.length ≤ 2 * n + 34 ∧ ∀ e, o' = .raised e → FromCounting past' e) past o := by
    intro past o hlength hraised
    refine Halts.mono (halts_close past) fun past' o' hQ => ?_
    obtain ⟨⟨event, rfl, hevent⟩, hswallowed⟩ := hQ
    refine ⟨⟨event, past, rfl, hevent⟩, by rw [List.length_cons]; omega, fun e he htrue => ?_⟩
    cases o' with
    | returned _ => exact List.mem_cons_of_mem _ (hraised e he htrue)
    | raised e' =>
        cases he
        rw [hswallowed _ rfl] at htrue
        cases htrue
    | running => cases he
  have hpaced : Paced n [] := Nat.zero_le n
  refine Halts.finallyDo (Halts.tryCatch (Halts.mono (haltsIn_serve cfg addr hrounds hpaced)
    fun past o hQ => ?_))
  obtain ⟨-, -, hlength⟩ := hQ
  rw [List.length_nil, Nat.zero_add] at hlength
  cases o with
  | returned _ => exact hclosed past _ (by omega) ofReturned
  | raised e =>
      refine Halts.mono (halts_reportError cfg addr past e) fun past' o hQ => ?_
      exact hclosed past' o (by omega) hQ.2
  | running => exact trivial

/-- What answers the calls; it knows the history. -/
abbrev Environment := Trace → ∀ op, Except PyExc (Ans op)

/-- The origin ends its response, or fails, after at most `n` chunks. -/
def BoundedOrigin (n : ℕ) (env : Environment) : Prop :=
  ∀ past size (data : Bytes), env past (.recvServer size) = .ok data → data ≠ [] →
    past.countP originChunk < n

theorem BoundedOrigin.obeys {n : ℕ} {env : Environment} (h : BoundedOrigin n env) :
    Obeys (Possible n) env := by
  refine fun past op => ⟨fun answer hanswer hchunk => ?_, fun e _ hchunk => by cases hchunk⟩
  cases op with
  | recvServer size => exact h past size answer hanswer (by simpa [originChunk] using hchunk)
  | _ => cases hchunk

/-- **Every connection ends.**  In an environment whose origin sends at most `n` chunks, whatever
else is answered or raised: the execution comes to an end, the same one for every bound on the
rounds above `n`; it makes at most `2 * n + 34` calls, of which closing the client is the last;
and an `Exception` leaves it only if counting an error raised it. -/
theorem every_connection_ends (cfg : HandlerConfig) (addr : ClientAddr) {env : Environment} {n : ℕ}
    (henv : BoundedOrigin n env) :
    ∃ trace outcome,
      (∀ rounds, n < rounds →
        (handleClient cfg addr rounds).replay env [] = (trace, outcome)) ∧
      outcome ≠ .running ∧ trace.length ≤ 2 * n + 34 ∧
      (∃ event, trace.getLast? = some event ∧ event.op? = some .closeClient) ∧
      ∀ e, outcome = .raised e → e.isException = true →
        .raised (.countMetric .errors) e ∈ trace := by
  obtain ⟨hends, ⟨event, rest, hhistory, hevent⟩, hlength, hraised⟩ :=
    (halts_handleClient (Nat.lt_succ_self n) cfg addr).replay henv.obeys
  rw [List.append_nil] at hhistory hlength hraised
  refine ⟨_, _, fun rounds hrounds => ?_, hends, by rwa [List.length_reverse] at hlength,
    ⟨event, ?_, hevent⟩, fun e he htrue => List.mem_reverse.mp (hraised e he htrue)⟩
  · exact (below_handleClient cfg addr hrounds).replay_eq hends
  · rw [← List.head?_reverse, hhistory, List.head?_cons]

/-- The origin sends three chunks. -/
def threeChunks (past : Trace) : ∀ op, Except PyExc (Ans op)
  | .recvServer _ => .ok (if past.countP originChunk < 3 then ascii "chunk" else [])
  | op => obliging
      (ascii "GET http://a/ HTTP/1.1\r\nProxy-Authorization: Basic dXNlcjpwYXNz\r\n\r\n") op

theorem every_connection_ends_threeChunks :
    ∃ trace outcome,
      (∀ rounds, 3 < rounds →
        (handleClient oneUser ⟨txt "10.0.0.1", 5000⟩ rounds).replay threeChunks [] =
          (trace, outcome)) ∧
      outcome ≠ .running ∧ trace.length ≤ 2 * 3 + 34 ∧
      (∃ event, trace.getLast? = some event ∧ event.op? = some .closeClient) ∧
      ∀ e, outcome = .raised e → e.isException = true →
        .raised (.countMetric .errors) e ∈ trace := by
  refine every_connection_ends oneUser ⟨txt "10.0.0.1", 5000⟩ fun past size data hdata hne => ?_
  by_contra hover
  have hempty : threeChunks past (.recvServer size) = .ok [] :=
    congrArg Except.ok (if_neg hover)
  rw [hempty, Except.ok.injEq] at hdata
  exact hne hdata.symm

end Proxy
end NetworkProxy
