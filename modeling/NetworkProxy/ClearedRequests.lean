import NetworkProxy.Handler

/-!
# What a request has shown before it is served

The checks of `handle_client` with what they are about: the request parsed from the first
bytes of the connection, the credentials in it, the registered user they belong to, and
the host that is connected.

`cleared_handleClient`: whatever the calls answer or raise, only a cleared request
connects to an origin, is sent there, or uses the cache.
-/

namespace NetworkProxy
namespace Proxy

open Py Http Cache Handler

/-- The request of the connection: parsed from the first thing it received, with the
identifier and the address the handler adds. -/
def Asks (rt : PyRuntime) (past : Trace) (p : ParsedRequest) : Prop :=
  ∃ raw parsed requestId clientIp, [.called .recvHttpRequest raw] <:+ past ∧
    parseHttpRequest rt [] raw = .ok (some parsed) ∧
    p = { parsed with requestId := requestId, clientIp := clientIp }

/-- The credentials of a request belong to a registered user, and were verified. -/
def LoggedIn (cfg : HandlerConfig) (past : Trace) (p : ParsedRequest) : Prop :=
  ∃ username password stored, basicCredentials cfg.rt p.headers = some (username, password) ∧
    cfg.users.get? username = some stored ∧
    .called (.verifyPassword password stored) true ∈ past

/-- A request that passed every check. -/
structure Cleared (cfg : HandlerConfig) (addr : ClientAddr) (past : Trace) (p : ParsedRequest) :
    Prop where
  asks : Asks cfg.rt past p
  passed : Passed addr past
  loggedIn : LoggedIn cfg past p
  notBlocked : .called (.isBlocked p.host) false ∈ past

theorem Asks.later {rt : PyRuntime} {past past' : Trace} {p : ParsedRequest}
    (h : Asks rt past p) (hsuffix : past <:+ past') : Asks rt past' p := by
  obtain ⟨raw, parsed, requestId, clientIp, hraw, hparse, hp⟩ := h
  exact ⟨raw, parsed, requestId, clientIp, hraw.trans hsuffix, hparse, hp⟩

theorem LoggedIn.later {cfg : HandlerConfig} {past past' : Trace} {p : ParsedRequest}
    (h : LoggedIn cfg past p) (hsub : past ⊆ past') : LoggedIn cfg past' p := by
  obtain ⟨username, password, stored, hcredentials, hstored, hverified⟩ := h
  exact ⟨username, password, stored, hcredentials, hstored, hsub hverified⟩

theorem Cleared.later {cfg : HandlerConfig} {addr : ClientAddr} {past past' : Trace}
    {p : ParsedRequest} (h : Cleared cfg addr past p) (hsuffix : past <:+ past') :
    Cleared cfg addr past' p :=
  ⟨h.asks.later hsuffix, hsuffix.subset h.passed, h.loggedIn.later hsuffix.subset,
    hsuffix.subset h.notBlocked⟩

/-- A call that serves the request. -/
def Op.Serves (p : ParsedRequest) : Op → Prop
  | .connect host port => host = p.host ∧ port = p.port
  | .sendServer data => data = buildOutboundRequest p
  | .cacheGet key => key = Forward.cacheKey p
  | .cachePut key _ => key = Forward.cacheKey p
  | _ => False

/-- What must have happened before a call: only a cleared request is served, and the rate
limiter is asked for the address of the client. -/
def ClearedOp (cfg : HandlerConfig) (addr : ClientAddr) (past : Trace) (op : Op) : Prop :=
  match op with
  | .connect _ _ => ∃ p, Cleared cfg addr past p ∧ op.Serves p
  | .sendServer _ => ∃ p, Cleared cfg addr past p ∧ op.Serves p
  | .cacheGet _ => ∃ p, Cleared cfg addr past p ∧ op.Serves p
  | .cachePut _ _ => ∃ p, Cleared cfg addr past p ∧ op.Serves p
  | .isAllowed ip => ip = addr.ip
  | _ => True

/-- A call that serves no request and does not ask the rate limiter. -/
def Op.Routine : Op → Prop
  | .connect _ _ => False
  | .sendServer _ => False
  | .cacheGet _ => False
  | .cachePut _ _ => False
  | .isAllowed _ => False
  | _ => True

/-- A call on behalf of the request. -/
def Op.OnBehalf (p : ParsedRequest) (op : Op) : Prop := op.Routine ∨ op.Serves p

section Steps

variable {cfg : HandlerConfig} {addr : ClientAddr} {past : Trace}

theorem Op.Routine.cleared {op : Op} (h : op.Routine) : ClearedOp cfg addr past op := by
  cases op <;> first | exact trivial | exact h.elim

theorem Op.OnBehalf.cleared {op : Op} {p : ParsedRequest} (h : op.OnBehalf p)
    (hp : Cleared cfg addr past p) : ClearedOp cfg addr past op := by
  rcases h with hroutine | hserves
  · exact hroutine.cleared
  · cases op <;> first | exact ⟨p, hp, hserves⟩ | exact hserves.elim

/-- Only cleared requests are served by the program. -/
abbrev Clears {α : Type} (cfg : HandlerConfig) (addr : ClientAddr) (past : Trace)
    (q : Program α) : Prop :=
  Safe (ClearedOp cfg addr) past q (fun past' _ => past <:+ past')

theorem clears_routine {α : Type} {q : Program α} (hq : Calls Op.Routine q) :
    Clears cfg addr past q :=
  hq.safe fun _ _ _ hop => hop.cleared

theorem clears_onBehalf {α : Type} {q : Program α} {p : ParsedRequest}
    (hq : Calls (Op.OnBehalf p) q) (hp : Cleared cfg addr past p) : Clears cfg addr past q :=
  hq.safe fun _ _ hsuffix hop => hop.cleared (hp.later hsuffix)

/-- A call and what follows it. -/
theorem clears_bind {β : Type} {op : Op} {k : Ans op → Program β}
    (hop : ClearedOp cfg addr past op) (hk : ∀ a, Clears cfg addr (.called op a :: past) (k a)) :
    Clears cfg addr past ((perform op).bind k) := by
  refine Safe.perform_bind hop (fun a => (hk a).mono fun past' _ hsuffix => ?_)
    fun e => List.suffix_cons _ _
  exact (List.suffix_cons _ _).trans hsuffix

/-! ### The calls of each step -/

theorem routine_quietly {q : Program Unit} (hq : Calls Op.Routine q) :
    Calls Op.Routine (q.tryCatch swallow) :=
  hq.tryCatch calls_swallow

theorem routine_sendBadGateway : Calls Op.Routine sendBadGateway :=
  calls_sendBadGateway trivial trivial

theorem routine_rejectBadRequest : Calls Op.Routine rejectBadRequest :=
  (Calls.perform trivial).bind fun _ => Calls.perform trivial

theorem routine_rejectRateLimited (p : ParsedRequest) :
    Calls Op.Routine (rejectRateLimited cfg addr p) := by
  refine (Calls.perform trivial).bind fun _ => (Calls.perform trivial).bind fun _ => ?_
  exact (Calls.perform trivial).bind fun _ => Calls.perform trivial

theorem routine_rejectAuth (p : ParsedRequest) : Calls Op.Routine (rejectAuth cfg addr p) :=
  (Calls.perform trivial).bind fun _ => Calls.perform trivial

theorem routine_rejectBlocked (p : ParsedRequest) :
    Calls Op.Routine (rejectBlocked cfg addr p) := by
  refine (Calls.perform trivial).bind fun _ => ?_
  exact (Calls.perform trivial).bind fun _ => Calls.perform trivial

theorem routine_reportError (e : PyExc) : Calls Op.Routine (reportError cfg addr e) := by
  rw [reportError]
  split
  · exact (Calls.perform trivial).bind fun _ => routine_quietly (Calls.perform trivial)
  · exact trivial

theorem onBehalf_of_ofForward {p : ParsedRequest} {op : Op} (h : Forward.OfForward p op) :
    op.OnBehalf p := by
  cases op <;> first | exact Or.inr h | exact Or.inl trivial

theorem onBehalf_connectTunnel (p : ParsedRequest) :
    Calls (Op.OnBehalf p) (connectTunnel cfg addr p) := by
  have hroutine {α : Type} {q : Program α} (hq : Calls Op.Routine q) :
      Calls (Op.OnBehalf p) q := hq.mono fun _ => Or.inl
  have hgateway := hroutine routine_sendBadGateway
  have hlog (m : Text) (f : LogFields) : Calls (Op.OnBehalf p) (perform (.logEvent m f)) :=
    hroutine (Calls.perform trivial)
  refine (hlog _ _).bind fun _ => Calls.bind (Calls.tryCatch ?_ ?_) fun opened => ?_
  · exact hroutine ((Calls.perform trivial).bind fun _ => trivial)
  · exact calls_onOSError (hgateway.bind fun _ => trivial)
  · cases opened with
    | false => exact trivial
    | true =>
        refine Calls.finallyDo (Calls.tryCatch ?_ (calls_onOSError hgateway))
          (hroutine (routine_quietly (Calls.perform trivial)))
        refine Calls.bind (hroutine (Calls.perform trivial)) fun _ => ?_
        refine Calls.bind (Calls.perform (Or.inr ⟨rfl, rfl⟩)) fun _ => ?_
        exact hroutine ((Calls.perform trivial).bind fun _ => Calls.perform trivial)

theorem onBehalf_dispatch (rounds : ℕ) (p : ParsedRequest) :
    Calls (Op.OnBehalf p) (dispatch cfg addr rounds p) := by
  have hroutine {α : Type} {q : Program α} (hq : Calls Op.Routine q) :
      Calls (Op.OnBehalf p) q := hq.mono fun _ => Or.inl
  refine Calls.bind (hroutine (Calls.perform trivial)) fun _ => ?_
  split
  · exact onBehalf_connectTunnel p
  · refine Calls.bind (hroutine (Calls.perform trivial)) fun _ => ?_
    exact (calls_forwardHttp cfg.maxObjectSize rounds p).mono fun _ => onBehalf_of_ofForward

/-! ### The checks in order -/

theorem clears_filterHost (rounds : ℕ) {p : ParsedRequest} (hasks : Asks cfg.rt past p)
    (hpassed : Passed addr past) (hlogin : LoggedIn cfg past p) :
    Clears cfg addr past (filterHost cfg addr rounds p) := by
  refine clears_bind trivial fun blocked => ?_
  cases blocked with
  | true => exact clears_routine (routine_rejectBlocked p)
  | false =>
      refine clears_onBehalf (onBehalf_dispatch rounds p) ⟨?_, ?_, ?_, List.mem_cons_self⟩
      · exact hasks.later (List.suffix_cons _ _)
      · exact List.mem_cons_of_mem _ hpassed
      · exact hlogin.later (List.subset_cons_self _ _)

/-- `_check_auth` returns `True` only after a verification. -/
theorem clears_checkAuth (p : ParsedRequest) :
    Safe (ClearedOp cfg addr) past (checkAuth cfg p.headers)
      (fun past' o => past <:+ past' ∧ (o = .returned true → LoggedIn cfg past' p)) := by
  rw [checkAuth]
  split
  · exact ⟨List.suffix_refl _, by rintro ⟨⟩⟩
  · rename_i username password hcredentials
    split
    · exact ⟨List.suffix_refl _, by rintro ⟨⟩⟩
    · rename_i stored hstored
      refine ⟨trivial, fun ok => ⟨List.suffix_cons _ _, ?_⟩, fun e =>
        ⟨List.suffix_cons _ _, by rintro ⟨⟩⟩⟩
      rintro ⟨⟩
      exact ⟨username, password, stored, hcredentials, hstored, List.mem_cons_self⟩

theorem clears_authenticate (rounds : ℕ) {p : ParsedRequest} (hasks : Asks cfg.rt past p)
    (hpassed : Passed addr past) : Clears cfg addr past (authenticate cfg addr rounds p) := by
  refine Safe.bind ((clears_checkAuth p).mono fun past' o h => ?_)
  obtain ⟨hsuffix, hlogin⟩ := h
  cases o with
  | running => exact trivial
  | raised e => exact hsuffix
  | returned ok =>
      have hnoted : past <:+ .noted (.authChecked ok) :: past' :=
        hsuffix.trans (List.suffix_cons _ _)
      show Safe (ClearedOp cfg addr) (.noted (.authChecked ok) :: past') _ _
      cases ok with
      | false =>
          exact (clears_routine (routine_rejectAuth p)).mono fun _ _ h => hnoted.trans h
      | true =>
          have hfilter : Clears cfg addr (.noted (.authChecked true) :: past')
              (filterHost cfg addr rounds p) :=
            clears_filterHost rounds (hasks.later hnoted) (hnoted.subset hpassed)
              ((hlogin rfl).later (List.subset_cons_self _ _))
          exact hfilter.mono fun _ _ h => hnoted.trans h

theorem clears_limit (hon : cfg.rateLimitEnabled = true) (rounds : ℕ) {p : ParsedRequest}
    (hasks : Asks cfg.rt past p) : Clears cfg addr past (limit cfg addr rounds p) := by
  rw [limit, if_pos hon]
  refine clears_bind rfl fun allowed => ?_
  cases allowed with
  | false => exact clears_routine (routine_rejectRateLimited p)
  | true =>
      exact clears_authenticate rounds (hasks.later (List.suffix_cons _ _)) List.mem_cons_self

theorem clears_serve (hon : cfg.rateLimitEnabled = true) (rounds : ℕ) :
    Clears cfg addr [] (serve cfg addr rounds) := by
  refine clears_bind trivial fun raw => ?_
  split
  · exact List.suffix_refl _
  · rw [parseRaw]
    split
    · exact List.suffix_refl _
    · exact clears_routine routine_rejectBadRequest
    · rename_i parsed hparse
      refine clears_bind trivial fun requestId => ?_
      refine clears_bind trivial fun _ => clears_bind trivial fun _ => ?_
      refine clears_limit hon rounds ⟨raw, parsed, requestId, some addr.ip, ?_, hparse, rfl⟩
      exact ⟨[_, _, _], rfl⟩

/-- Only cleared requests are served. -/
theorem cleared_handleClient (hon : cfg.rateLimitEnabled = true) (rounds : ℕ) :
    Safe (ClearedOp cfg addr) [] (handleClient cfg addr rounds) (fun _ _ => True) := by
  have hclose (past : Trace) : Safe (ClearedOp cfg addr) past
      ((perform .closeClient).tryCatch swallow) (fun _ _ => True) :=
    (clears_routine (routine_quietly (Calls.perform trivial))).mono fun _ _ _ => trivial
  refine Safe.finallyDo (Safe.tryCatch ((clears_serve hon rounds).mono fun past o _ => ?_))
  cases o with
  | returned _ => exact hclose past
  | running => exact trivial
  | raised e =>
      have hreport : Clears cfg addr past (reportError cfg addr e) :=
        clears_routine (routine_reportError e)
      exact hreport.mono fun past' _ _ => hclose past'

end Steps

end Proxy
end NetworkProxy
