import NetworkProxy.Answers
import NetworkProxy.RequestAccounting
import NetworkProxy.TransferSize

/-!
# Where the bytes a client gets come from

Connections are handled by interleaved executions of `handle_client` over one cache.
Every byte a client gets is said by the proxy itself, relayed from the origin of its own
connection, or replayed: then some connection with the same cache key got the same
bytes from the origin it had connected to.

* `Vouched`: what must have happened in a connection before it sends, fetches or uses the
  cache.  `vouched_handleClient`: `handle_client` keeps to it.
* `Sourced`: what follows for the bytes the connection has sent at any point.
* `sent_bytes_have_an_origin`: the connections of a run together.
-/

namespace NetworkProxy
namespace Proxy

open Py Http Cache Handler Forward

/-! ## What a connection sends -/

/-- The request of the connection has this cache key: the parser finds it in the first
thing the connection received. -/
def Asked (rt : PyRuntime) (past : Trace) (key : CacheKey) : Prop :=
  ∃ raw p, [.called .recvHttpRequest raw] <:+ past ∧
    parseHttpRequest rt [] raw = .ok (some p) ∧ cacheKey p = key

theorem Asked.later {rt : PyRuntime} {past past' : Trace} {key : CacheKey}
    (h : Asked rt past key) (hsuffix : past <:+ past') : Asked rt past' key := by
  obtain ⟨raw, p, hraw, hparse, hkey⟩ := h
  exact ⟨raw, p, hraw.trans hsuffix, hparse, hkey⟩

/-- The connection stored a response. -/
def HasStored (past : Trace) : Prop := ∃ key value, .called (.cachePut key value) () ∈ past

/-- The connection sent nothing but answers of the proxy. -/
structure OwnWords (past : Trace) : Prop where
  chunks_eq : chunks past = []
  heads : ∀ data ∈ sends past, ProxyHead data
  noHit : ∀ key cached, .called (.cacheGet key) (some cached) ∉ past
  notStored : ¬ HasStored past

/-- What was received from the origin was sent on, up to the last chunk. -/
def SentOn (past : Trace) : Prop :=
  chunks past = sends past ∨ ∃ data, chunks past = data :: sends past

/-- The connection reached the origin its request names. -/
def Reached (rt : PyRuntime) (past : Trace) (key : CacheKey) : Prop :=
  Asked rt past key ∧ .called (.connect key.host key.port) () ∈ past

theorem Reached.later {rt : PyRuntime} {past past' : Trace} {key : CacheKey}
    (h : Reached rt past key) (hsuffix : past <:+ past') : Reached rt past' key :=
  ⟨h.1.later hsuffix, hsuffix.subset h.2⟩

/-- What must have happened in a connection before a call. -/
def Vouched (rt : PyRuntime) (past : Trace) : Op → Prop
  | .sendClient data =>
      ¬ HasStored past ∧
        ((OwnWords past ∧ ProxyHead data) ∨ chunks past = data :: sends past ∨
          (chunks past = [] ∧ sends past = [] ∧ FromCache past data))
  | .recvServer _ => chunks past = sends past ∧ ∃ key, Reached rt past key
  | .cacheGet key => Asked rt past key ∧ chunks past = [] ∧ sends past = []
  | .cachePut key value =>
      Reached rt past key ∧ SentOn past ∧ sends past ≠ [] ∧
        value.response = (sends past).reverse.flatten ∧
        ∃ now : ℚ, value.timestamp = some now ∧ .called .time now ∈ past
  | _ => True

/-- Where everything comes from that a connection has sent. -/
def Sourced (past : Trace) : Prop :=
  (chunks past = [] ∧ ∀ data ∈ sends past, ProxyHead data) ∨ SentOn past ∨
    (chunks past = [] ∧ ∃ data, FromCache past data ∧ sends past = [data])

/-! ### One event -/

/-- A call that neither sends nor fetches, and leaves the cache alone. -/
def Op.Apart : Op → Prop
  | .sendClient _ => False
  | .recvServer _ => False
  | .cacheGet _ => False
  | .cachePut _ _ => False
  | _ => True

theorem Op.Apart.vouched {rt : PyRuntime} {past : Trace} {op : Op} (h : op.Apart) :
    Vouched rt past op := by
  cases op <;> first | exact trivial | exact h.elim

theorem sends_cons_of_none {event : Event} (past : Trace) (h : sent? event = none) :
    sends (event :: past) = sends past :=
  List.filterMap_cons_none h

theorem chunks_cons_of_none {event : Event} (past : Trace) (h : chunk? event = none) :
    chunks (event :: past) = chunks past :=
  List.filterMap_cons_none h

theorem FromCache.later {past : Trace} {data : Bytes} (h : FromCache past data) (event : Event) :
    FromCache (event :: past) data := by
  obtain ⟨key, cached, hmem, hdata⟩ := h
  exact ⟨key, cached, List.mem_cons_of_mem _ hmem, hdata⟩

/-- An event after which nothing else was sent or received. -/
theorem Sourced.quiet {past : Trace} {event : Event} (h : Sourced past)
    (hsent : sent? event = none) (hchunk : chunk? event = none) : Sourced (event :: past) := by
  unfold Sourced SentOn
  rw [sends_cons_of_none past hsent, chunks_cons_of_none past hchunk]
  rcases h with hown | hrelay | ⟨hchunks, data, hcache, hsends⟩
  · exact Or.inl hown
  · exact Or.inr (Or.inl hrelay)
  · exact Or.inr (Or.inr ⟨hchunks, data, hcache.later event, hsends⟩)

/-- A vouched call keeps everything sourced. -/
theorem Sourced.step {rt : PyRuntime} {past : Trace} {event : Event} (h : Sourced past)
    (hop : ∀ op, event.op? = some op → Vouched rt past op) : Sourced (event :: past) := by
  cases event with
  | noted n => exact h.quiet rfl rfl
  | raised op e => exact h.quiet rfl rfl
  | called op answer =>
      have hvouched := hop op rfl
      cases op with
      | sendClient data =>
          have hchunks : chunks (.called (.sendClient data) answer :: past) = chunks past :=
            chunks_cons_of_none past rfl
          have hsends : sends (.called (.sendClient data) answer :: past) = data :: sends past :=
            rfl
          unfold Sourced SentOn
          rw [hchunks, hsends]
          rcases hvouched.2 with ⟨hown, hhead⟩ | hlast | ⟨hnone, hsilent, hcache⟩
          · exact Or.inl ⟨hown.chunks_eq, List.forall_mem_cons.mpr ⟨hhead, hown.heads⟩⟩
          · exact Or.inr (Or.inl (Or.inl hlast))
          · exact Or.inr (Or.inr ⟨hnone, data, hcache.later _, by rw [hsilent]⟩)
      | recvServer size =>
          by_cases hdata : answer = []
          · exact h.quiet rfl (if_pos hdata)
          · have hchunks : chunks (.called (.recvServer size) answer :: past) =
                answer :: chunks past :=
              List.filterMap_cons_some (if_neg hdata)
            refine Or.inr (Or.inl (Or.inr ⟨answer, ?_⟩))
            rw [hchunks, hvouched.1, sends_cons_of_none past rfl]
      | _ => exact h.quiet rfl rfl

/-- A connection all of whose calls are vouched is sourced. -/
theorem sourced_of_allowedTrace {rt : PyRuntime} :
    ∀ {t past : Trace}, AllowedTrace (Vouched rt) past t → Sourced past →
      Sourced (t.reverse ++ past)
  | [], _, _, h => h
  | event :: t, past, hallowed, h => by
      rw [List.reverse_cons, List.append_assoc]
      exact sourced_of_allowedTrace hallowed.2 (h.step hallowed.1)

/-- A connection that stored a response sends nothing more. -/
theorem sends_of_hasStored {rt : PyRuntime} :
    ∀ {t past : Trace}, AllowedTrace (Vouched rt) past t → HasStored past → sends t = []
  | [], _, _, _ => rfl
  | event :: t, past, hallowed, h => by
      have hlater : HasStored (event :: past) := by
        obtain ⟨key, value, hmem⟩ := h
        exact ⟨key, value, List.mem_cons_of_mem _ hmem⟩
      have hsent : sent? event = none := by
        cases event with
        | noted n => rfl
        | raised op e => rfl
        | called op answer =>
            have hvouched := hallowed.1 op rfl
            cases op with
            | sendClient data => exact absurd h hvouched.1
            | _ => rfl
      rw [sends_cons_of_none t hsent]
      exact sends_of_hasStored hallowed.2 hlater

/-! ## `handle_client` keeps to it -/

/-- The connection asked for the key; nothing is sent or fetched yet. -/
structure Fresh (rt : PyRuntime) (key : CacheKey) (past : Trace) : Prop where
  sends_eq : sends past = []
  own : OwnWords past
  asked : Asked rt past key

/-- A word of the proxy, or a call apart from the answer. -/
def Op.Own : Op → Prop
  | .sendClient data => ProxyHead data
  | op => op.Apart

section Steps

variable {α β : Type} {rt : PyRuntime} {past : Trace}

theorem apart_cons {event : Event} (h : ∀ op, event.op? = some op → op.Apart) :
    sent? event = none ∧ chunk? event = none ∧
      (∀ key cached, .called (.cacheGet key) (some cached) ≠ event) ∧
      ∀ key value, .called (.cachePut key value) () ≠ event := by
  refine ⟨?_, ?_, ?_, ?_⟩
  · cases event with
    | called op answer =>
        have hop := h op rfl
        cases op <;> first | rfl | exact hop.elim
    | raised op e => rfl
    | noted n => rfl
  · cases event with
    | called op answer =>
        have hop := h op rfl
        cases op <;> first | rfl | exact hop.elim
    | raised op e => rfl
    | noted n => rfl
  · rintro key cached rfl
    exact h _ rfl
  · rintro key value rfl
    exact h _ rfl

theorem not_hasStored_cons {event : Event} (h : ¬ HasStored past)
    (hput : ∀ key value, .called (.cachePut key value) () ≠ event) :
    ¬ HasStored (event :: past) := by
  rintro ⟨key, value, hmem⟩
  exact (List.mem_cons.mp hmem).elim (hput key value) fun hold => h ⟨key, value, hold⟩

theorem OwnWords.apart {event : Event} (h : OwnWords past)
    (hop : ∀ op, event.op? = some op → op.Apart) : OwnWords (event :: past) := by
  obtain ⟨hsent, hchunk, hget, hput⟩ := apart_cons hop
  refine ⟨(chunks_cons_of_none past hchunk).trans h.chunks_eq, ?_, ?_,
    not_hasStored_cons h.notStored hput⟩
  · rw [sends_cons_of_none past hsent]
    exact h.heads
  · intro key cached hmem
    exact (List.mem_cons.mp hmem).elim (hget key cached) (h.noHit key cached)

/-- A word of the proxy, sent or not, after words of the proxy. -/
theorem OwnWords.said {data : Bytes} (h : OwnWords past) (hhead : ProxyHead data)
    {event : Event} (hevent : event.op? = some (.sendClient data)) :
    OwnWords (event :: past) := by
  have hput : ∀ key value, .called (.cachePut key value) () ≠ event := by
    rintro key value rfl
    cases hevent
  have hnoHit : ∀ key cached, .called (.cacheGet key) (some cached) ∉ event :: past := by
    intro key cached hmem
    rcases List.mem_cons.mp hmem with rfl | hold
    · cases hevent
    · exact h.noHit key cached hold
  cases event with
  | called op answer =>
      cases hevent
      exact ⟨h.chunks_eq, List.forall_mem_cons.mpr ⟨hhead, h.heads⟩, hnoHit,
        not_hasStored_cons h.notStored hput⟩
  | raised op e => exact ⟨h.chunks_eq, h.heads, hnoHit, not_hasStored_cons h.notStored hput⟩
  | noted n => exact ⟨h.chunks_eq, h.heads, hnoHit, not_hasStored_cons h.notStored hput⟩

theorem Fresh.apart {key : CacheKey} {event : Event} (h : Fresh rt key past)
    (hop : ∀ op, event.op? = some op → op.Apart) : Fresh rt key (event :: past) :=
  ⟨(sends_cons_of_none past (apart_cons hop).1).trans h.sends_eq, h.own.apart hop,
    h.asked.later (List.suffix_cons event past)⟩

/-- A program whose calls are vouched. -/
abbrev Vouches (rt : PyRuntime) (past : Trace) (q : Program α) : Prop :=
  Safe (Vouched rt) past q (fun _ _ => True)

theorem vouches_apart {q : Program α} (hq : Calls Op.Apart q) : Vouches rt past q :=
  (hq.safe fun _ _ _ hop => hop.vouched).mono fun _ _ _ => trivial

/-- The proxy answers in its own words. -/
theorem vouches_own {q : Program α} (hq : Calls Op.Own q) (h : OwnWords past) :
    Vouches rt past q := by
  refine (hq.safe_invariant (I := OwnWords) (fun past' op hop hown => ?_)
    (fun past' event hop hown => ?_) h).mono fun _ _ _ => trivial
  · cases op with
    | sendClient data => exact ⟨hown.notStored, Or.inl ⟨hown, hop⟩⟩
    | recvServer size => exact hop.elim
    | cacheGet key => exact hop.elim
    | cachePut key value => exact hop.elim
    | _ => trivial
  · by_cases hsend : ∃ data, event.op? = some (.sendClient data)
    · obtain ⟨data, hevent⟩ := hsend
      exact hown.said (hop _ hevent) hevent
    · refine hown.apart fun op hevent => ?_
      have hown := hop op hevent
      cases op with
      | sendClient data => exact absurd ⟨data, hevent⟩ hsend
      | _ => exact hown

/-- A call apart from the answer, and what follows it. -/
theorem fresh_bind {key : CacheKey} {op : Op} {k : Ans op → Program β}
    {Q : Trace → Outcome PyExc β → Prop} (hop : op.Apart) (h : Fresh rt key past)
    (hk : ∀ a, Fresh rt key (.called op a :: past) →
      Safe (Vouched rt) (.called op a :: past) (k a) Q)
    (hQ : ∀ e, Fresh rt key (.raised op e :: past) → Q (.raised op e :: past) (.raised e)) :
    Safe (Vouched rt) past ((perform op).bind k) Q := by
  refine Safe.perform_bind hop.vouched (fun a => hk a (h.apart ?_)) fun e => hQ e (h.apart ?_)
  · rintro _ ⟨⟩
    exact hop
  · rintro _ ⟨⟩
    exact hop

theorem own_sendBadGateway : Calls Op.Own sendBadGateway :=
  calls_sendBadGateway (S := Op.Own) (Or.inr (Or.inr (Or.inr (Or.inr (Or.inl rfl))))) trivial

/-! ### The forwarder -/

/-- The connection reached its origin; nothing is sent or fetched yet. -/
def Dialled (rt : PyRuntime) (p : ParsedRequest) (past : Trace) : Prop :=
  Fresh rt (cacheKey p) past ∧ Reached rt past (cacheKey p)

/-- How a step ends that goes on with a dialled connection if it returns `true`. -/
def DialsOn (rt : PyRuntime) (p : ParsedRequest) (past : Trace) (o : Outcome PyExc Bool) :
    Prop :=
  o = .returned true → Dialled rt p past

/-- The 502 response ends a step that would otherwise return `true`. -/
theorem vouches_gatewayFailed {p : ParsedRequest} {g : Program Unit} (hg : Calls Op.Own g)
    (h : OwnWords past) (e : PyExc) :
    Safe (Vouched rt) past (onOSError (do g; return false) e) (DialsOn rt p) := by
  rw [onOSError]
  split
  · refine Safe.bind ((vouches_own hg h).mono fun past' o _ => ?_)
    cases o with
    | running => exact trivial
    | raised e' => rintro ⟨⟩
    | returned _ => rintro ⟨⟩
  · rintro ⟨⟩

theorem vouches_connectOrigin (p : ParsedRequest) (h : Fresh rt (cacheKey p) past) :
    Safe (Vouched rt) past (connectOrigin p) (DialsOn rt p) := by
  have hfail {past : Trace} (e : PyExc) (h : Fresh rt (cacheKey p) past) :
      catchPost (Vouched rt) (onOSError (do sendBadGateway; return false)) (DialsOn rt p) past
        (.raised e) :=
    vouches_gatewayFailed own_sendBadGateway h.own e
  refine Safe.tryCatch (fresh_bind trivial h (fun _ h => ?_) fun e => hfail e)
  refine fresh_bind trivial h (fun _ h => ?_) fun e => hfail e
  refine fresh_bind trivial h (fun _ h => ?_) fun e => hfail e
  exact fun _ => ⟨h, h.asked, List.mem_cons_self⟩

theorem vouches_sendRequest (p : ParsedRequest) (h : Dialled rt p past) :
    Safe (Vouched rt) past (sendRequest p) (DialsOn rt p) := by
  obtain ⟨hfresh, hreached⟩ := h
  refine Safe.tryCatch (fresh_bind trivial hfresh (fun _ h => ?_) fun e h => ?_)
  · exact fun _ => ⟨h, hreached.later (List.suffix_cons _ _)⟩
  · have hgateway : Calls Op.Own (do perform .closeServer; sendBadGateway) :=
      (Calls.perform trivial).bind fun _ => own_sendBadGateway
    exact vouches_gatewayFailed hgateway h.own e

/-- The relay sent everything on; what it collects for the cache is what it sent. -/
structure Passing (rt : PyRuntime) (p : ParsedRequest) (s : Transfer) (past : Trace) :
    Prop where
  even : chunks past = sends past
  reached : Reached rt past (cacheKey p)
  notStored : ¬ HasStored past
  collected : s.cacheable = true → s.responseChunks = (sends past).reverse

/-- The relay is over. -/
structure Relayed (rt : PyRuntime) (p : ParsedRequest) (s : Transfer) (past : Trace) :
    Prop where
  sentOn : SentOn past
  reached : Reached rt past (cacheKey p)
  collected : s.cacheable = true → s.responseChunks = (sends past).reverse

/-- What is collected grows by the chunk, as long as it is kept. -/
theorem collected_of_absorb {maxObjectSize : ℤ} {s : Transfer} {data : Bytes}
    (h : (s.absorb maxObjectSize data).cacheable = true) :
    (s.absorb maxObjectSize data).responseChunks = s.responseChunks ++ [data] := by
  have hchunks := (Transfer.withStatus_responseChunks s data).1
  rw [Transfer.absorb, Transfer.collect] at h ⊢
  split at h
  · rename_i hcacheable
    rw [if_pos hcacheable]
    split at h
    · rename_i hfits
      rw [if_pos hfits, ← hchunks]
    · cases h
  · rename_i hdropped
    exact absurd h hdropped

/-- How a round of the relay ends: a chunk was sent on, or the relay is over. -/
def RoundVouched (rt : PyRuntime) (p : ParsedRequest) (maxObjectSize : ℤ) (s : Transfer)
    (past : Trace) : Outcome PyExc (Option Bytes) → Prop
  | .returned (some data) => Passing rt p (s.absorb maxObjectSize data) past
  | .returned none => Relayed rt p s past
  | _ => True

theorem vouches_round {p : ParsedRequest} {s : Transfer} (maxObjectSize : ℤ)
    (h : Passing rt p s past) :
    Safe (Vouched rt) past (relayChunk.tryCatch (onOSError (.ret none)))
      (RoundVouched rt p maxObjectSize s) := by
  have hreceived : Vouched rt past (.recvServer Http.bufferSize) := ⟨h.even, _, h.reached⟩
  refine Safe.tryCatch (Safe.perform_bind hreceived (fun data => ?_) fun e => ?_)
  · split
    · rename_i hdata
      have hquiet : chunk? (.called (.recvServer Http.bufferSize) data) = none := if_pos hdata
      refine ⟨Or.inl ?_, h.reached.later (List.suffix_cons _ _), ?_⟩
      · rw [chunks_cons_of_none past hquiet, sends_cons_of_none past rfl, h.even]
      · rw [sends_cons_of_none past rfl]
        exact h.collected
    · rename_i hdata
      have hchunks : chunks (.called (.recvServer Http.bufferSize) data :: past) =
          data :: sends past := by
        rw [← h.even]
        exact List.filterMap_cons_some (if_neg hdata)
      have hnot : ¬ HasStored (.called (.recvServer Http.bufferSize) data :: past) :=
        not_hasStored_cons h.notStored (by simp)
      have hreached : Reached rt (.called (.recvServer Http.bufferSize) data :: past)
          (cacheKey p) := h.reached.later (List.suffix_cons _ _)
      refine Safe.perform_bind ⟨hnot, Or.inr (Or.inl hchunks)⟩ (fun _ => ?_) fun e => ?_
      · refine ⟨hchunks, hreached.later (List.suffix_cons _ _),
          not_hasStored_cons hnot (by simp), fun hcacheable => ?_⟩
        have hold := h.collected (cacheable_of_absorb hcacheable)
        show _ = (data :: sends past).reverse
        rw [collected_of_absorb hcacheable, hold, List.reverse_cons]
      · show Safe (Vouched rt) _ (onOSError (.ret none) e) _
        rw [onOSError]
        split
        · refine ⟨Or.inr ⟨data, hchunks⟩, hreached.later (List.suffix_cons _ _), ?_⟩
          exact h.collected
        · exact trivial
  · show Safe (Vouched rt) _ (onOSError (.ret none) e) _
    rw [onOSError]
    split
    · exact ⟨Or.inl h.even, h.reached.later (List.suffix_cons _ _), h.collected⟩
    · exact trivial

theorem vouches_relay {p : ParsedRequest} (maxObjectSize : ℤ) (rounds : ℕ) {s : Transfer}
    (h : Passing rt p s past) :
    Safe (Vouched rt) past (relay maxObjectSize rounds s)
      (fun past' o => ∀ s', o = .returned s' → Relayed rt p s' past') := by
  induction rounds generalizing s past with
  | zero => exact trivial
  | succ rounds ih =>
      refine Safe.bind ((vouches_round maxObjectSize h).mono fun past' o hround => ?_)
      cases o with
      | running => exact trivial
      | raised e => rintro s' ⟨⟩
      | returned result =>
          cases result with
          | none =>
              rintro s' ⟨⟩
              exact hround
          | some data => exact ih hround

theorem vouches_finish {p : ParsedRequest} (start : ℚ) {s : Transfer}
    (h : Relayed rt p s past) : Vouches rt past (finish p start s) := by
  refine Safe.perform_bind trivial (fun _ => ?_) fun _ => trivial
  refine Safe.perform_bind trivial (fun stop => ?_) fun _ => trivial
  split
  · rename_i hstore
    refine Safe.perform_bind trivial (fun now => ?_) fun _ => trivial
    refine Safe.perform_bind ?_ (fun _ => vouches_apart (Calls.perform trivial)) fun _ => trivial
    have hcollected := h.collected hstore.1
    refine ⟨h.reached.later ⟨[_, _, _], rfl⟩, h.sentOn, ?_, ?_, now, rfl, List.mem_cons_self⟩
    · intro hnone
      have hnone : sends past = [] := hnone
      rw [hnone] at hcollected
      exact hstore.2 hcollected
    · exact congrArg List.flatten hcollected
  · exact vouches_apart (Calls.perform trivial)

theorem Dialled.passing {p : ParsedRequest} (h : Dialled rt p past) (s : Transfer)
    (hs : s.responseChunks = []) : Passing rt p s past := by
  obtain ⟨hfresh, hreached⟩ := h
  have hsends := hfresh.sends_eq
  refine ⟨hfresh.own.chunks_eq.trans hsends.symm, hreached, hfresh.own.notStored, fun _ => ?_⟩
  rw [hsends, hs, List.reverse_nil]

theorem vouches_fetch {p : ParsedRequest} (maxObjectSize : ℤ) (rounds : ℕ)
    (h : Fresh rt (cacheKey p) past) : Vouches rt past (fetch maxObjectSize rounds p) := by
  refine fresh_bind trivial h (fun start h => ?_) fun _ _ => trivial
  refine Safe.bind ((vouches_connectOrigin p h).mono fun past₁ o hconnect => ?_)
  cases o with
  | running => exact trivial
  | raised e => exact trivial
  | returned connected =>
      cases connected with
      | false => exact trivial
      | true =>
          refine Safe.bind ((vouches_sendRequest p (hconnect rfl)).mono fun past₂ o hsend => ?_)
          cases o with
          | running => exact trivial
          | raised e => exact trivial
          | returned sent =>
              cases sent with
              | false => exact trivial
              | true =>
                  have hpassing := (hsend rfl).passing (Transfer.create p.method) rfl
                  refine Safe.bind ((vouches_relay maxObjectSize rounds hpassing).mono
                    fun past₃ o hrelay => ?_)
                  cases o with
                  | running => exact trivial
                  | raised e => exact trivial
                  | returned s => exact vouches_finish start (hrelay s rfl)

/-- A hit is sent as it is; after a miss the connection is still fresh. -/
theorem vouches_lookup (p : ParsedRequest) (h : Fresh rt (cacheKey p) past) :
    Safe (Vouched rt) past (lookup p)
      (fun past' o => o = .returned false → Fresh rt (cacheKey p) past') := by
  have hget : Vouched rt past (.cacheGet (cacheKey p)) :=
    ⟨h.asked, h.own.chunks_eq, h.sends_eq⟩
  rw [lookup]
  split
  · refine Safe.perform_bind hget (fun answer => ?_) fun _ => by rintro ⟨⟩
    have hnot : ¬ HasStored (.called (.cacheGet (cacheKey p)) answer :: past) :=
      not_hasStored_cons h.own.notStored (by simp)
    cases answer with
    | none =>
        have hmissed : Fresh rt (cacheKey p) (.called (.cacheGet (cacheKey p)) none :: past) := by
          refine ⟨h.sends_eq, ⟨h.own.chunks_eq, h.own.heads, ?_, hnot⟩,
            h.asked.later (List.suffix_cons _ _)⟩
          intro key cached hmem
          rcases List.mem_cons.mp hmem with hevent | hold
          · cases hevent
          · exact h.own.noHit key cached hold
        exact fresh_bind trivial hmissed (fun _ h _ => h) fun _ _ => by rintro ⟨⟩
    | some cached =>
        refine Safe.perform_bind trivial (fun _ => ?_) fun _ => by rintro ⟨⟩
        refine Safe.perform_bind trivial (fun _ => ?_) fun _ => by rintro ⟨⟩
        have hcache : FromCache (.called (.cacheGet (cacheKey p)) (some cached) :: past)
            cached.response := ⟨_, cached, List.mem_cons_self, rfl⟩
        refine Safe.bind (Safe.tryCatch ⟨⟨?_, Or.inr (Or.inr ⟨?_, ?_, ?_⟩)⟩, fun _ => ?_,
          fun e => ?_⟩)
        · exact not_hasStored_cons (not_hasStored_cons hnot (by simp)) (by simp)
        · exact h.own.chunks_eq
        · exact h.sends_eq
        · exact (hcache.later _).later _
        · rintro ⟨⟩
        · show Safe (Vouched rt) _ (onOSError (.ret ()) e) _
          rw [onOSError]
          split <;> rintro ⟨⟩
  · exact fun _ => h

theorem vouches_forwardHttp {p : ParsedRequest} (maxObjectSize : ℤ) (rounds : ℕ)
    (h : Fresh rt (cacheKey p) past) :
    Vouches rt past (forwardHttp maxObjectSize rounds p) := by
  refine Safe.bind ((vouches_lookup p h).mono fun past' o hlookup => ?_)
  cases o with
  | running => exact trivial
  | raised e => exact trivial
  | returned answered =>
      cases answered with
      | true => exact trivial
      | false => exact vouches_fetch maxObjectSize rounds (hlookup rfl)

/-! ### The handler -/

variable {cfg : HandlerConfig} {addr : ClientAddr}

theorem own_rejectBadRequest : Calls Op.Own rejectBadRequest := by
  have hsend : Calls Op.Own (perform (.sendClient badRequest)) := Calls.perform (Or.inl rfl)
  exact hsend.bind fun _ => Calls.perform trivial

theorem own_rejectRateLimited (p : ParsedRequest) :
    Calls Op.Own (rejectRateLimited cfg addr p) := by
  refine (Calls.perform trivial).bind fun retryAfter => (Calls.perform trivial).bind fun _ => ?_
  exact (Calls.perform trivial).bind fun _ => Calls.perform (Or.inr (Or.inl ⟨retryAfter, rfl⟩))

theorem own_rejectAuth (p : ParsedRequest) : Calls Op.Own (rejectAuth cfg addr p) :=
  (Calls.perform trivial).bind fun _ => Calls.perform (Or.inr (Or.inr (Or.inl rfl)))

theorem own_rejectBlocked (p : ParsedRequest) : Calls Op.Own (rejectBlocked cfg addr p) := by
  refine (Calls.perform trivial).bind fun _ => (Calls.perform trivial).bind fun _ => ?_
  exact Calls.perform (Or.inr (Or.inr (Or.inr (Or.inl rfl))))

theorem own_connectTunnel (p : ParsedRequest) : Calls Op.Own (connectTunnel cfg addr p) := by
  have hgateway : Calls Op.Own sendBadGateway := own_sendBadGateway
  refine (Calls.perform trivial).bind fun _ => Calls.bind (Calls.tryCatch ?_ ?_) fun opened => ?_
  · exact (Calls.perform trivial).bind fun _ => trivial
  · exact calls_onOSError (hgateway.bind fun _ => trivial)
  · cases opened with
    | false => exact trivial
    | true =>
        refine Calls.finallyDo (Calls.tryCatch ?_ (calls_onOSError hgateway))
          ((Calls.perform trivial).tryCatch calls_swallow)
        have hsend : Calls Op.Own (perform (.sendClient established)) :=
          Calls.perform proxyHead_established
        refine (Calls.perform trivial).bind fun _ => (Calls.perform trivial).bind fun _ => ?_
        exact hsend.bind fun _ => Calls.perform trivial

theorem vouches_dispatch (rounds : ℕ) {p : ParsedRequest} (h : Fresh rt (cacheKey p) past) :
    Vouches rt past (dispatch cfg addr rounds p) := by
  refine fresh_bind trivial h (fun _ h => ?_) fun _ _ => trivial
  split
  · exact vouches_own (own_connectTunnel p) h.own
  · refine fresh_bind trivial h (fun _ h => ?_) fun _ _ => trivial
    exact vouches_forwardHttp cfg.maxObjectSize rounds h

theorem vouches_filterHost (rounds : ℕ) {p : ParsedRequest} (h : Fresh rt (cacheKey p) past) :
    Vouches rt past (filterHost cfg addr rounds p) := by
  refine fresh_bind trivial h (fun blocked h => ?_) fun _ _ => trivial
  cases blocked with
  | true => exact vouches_own (own_rejectBlocked p) h.own
  | false => exact vouches_dispatch rounds h

theorem vouches_authenticate (rounds : ℕ) {p : ParsedRequest} (h : Fresh rt (cacheKey p) past) :
    Vouches rt past (authenticate cfg addr rounds p) := by
  have hcheck : Calls Op.Apart (checkAuth cfg p.headers) :=
    (calls_checkAuth p.headers).mono fun op ⟨plain, stored, hop⟩ => hop ▸ trivial
  have hfresh : Safe (Vouched rt) past (checkAuth cfg p.headers)
      (fun past' _ => Fresh rt (cacheKey p) past') :=
    hcheck.safe_invariant (fun _ _ hop _ => hop.vouched) (fun _ _ hop h => h.apart hop) h
  refine Safe.bind (hfresh.mono fun past' o h => ?_)
  cases o with
  | running => exact trivial
  | raised e => exact trivial
  | returned ok =>
      have hnoted : Fresh rt (cacheKey p) (.noted (.authChecked ok) :: past') :=
        h.apart (by rintro op ⟨⟩)
      show Vouches rt (.noted (.authChecked ok) :: past') _
      cases ok with
      | false => exact vouches_own (own_rejectAuth p) hnoted.own
      | true => exact vouches_filterHost rounds hnoted

theorem vouches_limit (rounds : ℕ) {p : ParsedRequest} (h : Fresh rt (cacheKey p) past) :
    Vouches rt past (limit cfg addr rounds p) := by
  rw [limit]
  split
  · refine fresh_bind trivial h (fun allowed h => ?_) fun _ _ => trivial
    cases allowed with
    | false => exact vouches_own (own_rejectRateLimited p) h.own
    | true => exact vouches_authenticate rounds h
  · exact vouches_authenticate rounds h

theorem vouches_serve (rounds : ℕ) : Vouches cfg.rt [] (serve cfg addr rounds) := by
  refine Safe.perform_bind trivial (fun raw => ?_) fun _ => trivial
  have hown : OwnWords [.called .recvHttpRequest raw] :=
    ⟨rfl, by simp [sends, sent?], by simp, by simp [HasStored]⟩
  split
  · exact trivial
  · rw [parseRaw]
    split
    · exact trivial
    · exact vouches_own own_rejectBadRequest hown
    · rename_i p hparse
      have hfresh : Fresh cfg.rt (cacheKey p) [.called .recvHttpRequest raw] :=
        ⟨rfl, hown, raw, p, List.suffix_refl _, hparse, rfl⟩
      refine fresh_bind trivial hfresh (fun requestId h => ?_) fun _ _ => trivial
      refine fresh_bind trivial h (fun _ h => ?_) fun _ _ => trivial
      refine fresh_bind trivial h (fun _ h => ?_) fun _ _ => trivial
      exact vouches_limit rounds h

theorem apart_reportError (e : PyExc) : Calls Op.Apart (reportError cfg addr e) := by
  rw [reportError]
  split
  · exact (Calls.perform trivial).bind fun _ => (Calls.perform trivial).tryCatch calls_swallow
  · exact trivial

/-- Every call of `handle_client` is vouched. -/
theorem vouched_handleClient (rounds : ℕ) : Vouches cfg.rt [] (handleClient cfg addr rounds) := by
  have hclose (past : Trace) : Vouches cfg.rt past ((perform .closeClient).tryCatch swallow) :=
    vouches_apart ((Calls.perform trivial).tryCatch calls_swallow)
  refine Safe.finallyDo (Safe.tryCatch ((vouches_serve rounds).mono fun past o _ => ?_))
  cases o with
  | returned _ => exact hclose past
  | running => exact trivial
  | raised e =>
      have hreport : Vouches cfg.rt past (reportError cfg addr e) :=
        vouches_apart (apart_reportError e)
      exact hreport.mono fun past' _ _ => hclose past'

end Steps

/-! ## The connections together -/

/-- What the client of a connection got, in order. -/
def stream (past : Trace) : Bytes := (sends past).reverse.flatten

/-- The cache along a run, at the clock readings of its events. -/
def cacheAlong (cfg : CacheConfig) (c : LRUCache CacheKey) (run : List (ℚ × ℕ × Event)) :
    Option (LRUCache CacheKey) :=
  run.foldlM (fun c e => cacheStep cfg e.1 c e.2.2) c

/-- The history of a connection of a run, newest event first. -/
def historyOf (i : ℕ) (run : List (ℚ × ℕ × Event)) : Trace :=
  (eventsOf i (run.map Prod.snd)).reverse

/-- A run of connections over one cache that is empty at first; every event has the reading
of the clock at which it happens. -/
structure ServedRun (cfg : HandlerConfig) (ccfg : CacheConfig) (capacity : ℕ) (ttl : ℚ)
    (addr : ℕ → ClientAddr) (run : List (ℚ × ℕ × Event)) : Prop where
  handlers : HandlerRun cfg addr (run.map Prod.snd)
  clock : ∀ τ i (now : ℚ), (τ, i, .called .time now) ∈ run → now = τ
  cache : ∃ c, cacheAlong ccfg (LRUCache.create capacity ttl) run = some c

theorem cacheServes_of_cacheAlong {cfg : CacheConfig} {c c' : LRUCache CacheKey}
    {run : List (ℚ × ℕ × Event)} (h : cacheAlong cfg c run = some c') :
    CacheServes cfg c (run.map (fun e => e.2.2)) c' := by
  induction run generalizing c with
  | nil =>
      obtain rfl := Option.some.inj h
      exact .nil c
  | cons e run ih =>
      rw [cacheAlong, List.foldlM_cons] at h
      obtain ⟨c₁, hstep, hrest⟩ := Option.bind_eq_some_iff.mp h
      exact .cons e.1 hstep (ih hrest)

theorem cacheAlong_append {cfg : CacheConfig} {c c'' : LRUCache CacheKey}
    {run run' : List (ℚ × ℕ × Event)} (h : cacheAlong cfg c (run ++ run') = some c'') :
    ∃ c', cacheAlong cfg c run = some c' ∧ cacheAlong cfg c' run' = some c'' := by
  rw [cacheAlong, List.foldlM_append] at h
  exact Option.bind_eq_some_iff.mp h

theorem ttl_cacheStep {cfg : CacheConfig} {now : ℚ} {c c' : LRUCache CacheKey} {event : Event}
    (h : cacheStep cfg now c event = some c') : c'.ttl = c.ttl := by
  have hkeep (op : CacheOp CacheKey) : (c.step cfg op).ttl = c.ttl := by
    cases henabled : cfg.enabled with
    | true => exact (LRUCache.step_params henabled c op).2
    | false =>
        cases op with
        | get key now => rw [LRUCache.step, LRUCache.get, henabled]; rfl
        | put key value now => rw [LRUCache.step, LRUCache.put, henabled]; rfl
        | clear => rfl
  unfold cacheStep at h
  split at h
  · rename_i key answer
    split at h
    · obtain rfl := Option.some.inj h
      exact hkeep (.get key now)
    · cases h
  · rename_i key value _
    obtain rfl := Option.some.inj h
    exact hkeep (.put key value now)
  · obtain rfl := Option.some.inj h
    rfl

theorem ttl_cacheAlong {cfg : CacheConfig} {c c' : LRUCache CacheKey}
    {run : List (ℚ × ℕ × Event)} (h : cacheAlong cfg c run = some c') : c'.ttl = c.ttl := by
  induction run generalizing c with
  | nil =>
      obtain rfl := Option.some.inj h
      rfl
  | cons e run ih =>
      rw [cacheAlong, List.foldlM_cons] at h
      obtain ⟨c₁, hstep, hrest⟩ := Option.bind_eq_some_iff.mp h
      exact (ih hrest).trans (ttl_cacheStep hstep)

/-- A hit is not older than the time to live. -/
theorem age_of_hit {cfg : CacheConfig} {capacity : ℕ} {ttl : ℚ} {c : LRUCache CacheKey}
    {pre post : List (ℚ × ℕ × Event)} {τ : ℚ} {i : ℕ} {key : CacheKey} {cached : Entry}
    (h : cacheAlong cfg (LRUCache.create capacity ttl)
      (pre ++ (τ, i, .called (.cacheGet key) (some cached)) :: post) = some c) :
    cached.age τ ≤ ttl := by
  obtain ⟨c', hpre, hpost⟩ := cacheAlong_append h
  rw [cacheAlong, List.foldlM_cons] at hpost
  obtain ⟨c₁, hstep, -⟩ := Option.bind_eq_some_iff.mp hpost
  have hanswer : (c'.get cfg key τ).1 = some cached := by
    by_contra hother
    have hnone : cacheStep cfg τ c' (.called (.cacheGet key) (some cached)) = none :=
      if_neg hother
    rw [hnone] at hstep
    cases hstep
  have httl : c'.ttl = ttl := ttl_cacheAlong hpre
  cases henabled : cfg.enabled with
  | false =>
      rw [LRUCache.get, henabled] at hanswer
      cases hanswer
  | true =>
      rcases LRUCache.get_cases henabled c' key τ with
        ⟨-, hmiss⟩ | ⟨_, -, -, hexpired⟩ | ⟨entry, -, hage, hfound⟩
      · rw [hmiss] at hanswer
        cases hanswer
      · rw [hexpired] at hanswer
        cases hanswer
      · rw [hfound] at hanswer
        obtain rfl := Option.some.inj hanswer
        rwa [httl] at hage

/-- Where everything comes from that a connection of a run has sent: it is said by the
proxy itself; it is what the connection received from the origin its request names, up to
a chunk that is not sent on yet; or it is what another connection with the same cache key
received from the origin and sent to its own client, not longer ago than `ttl`. -/
inductive Origin (rt : PyRuntime) (ttl : ℚ) (run : List (ℚ × ℕ × Event)) (i : ℕ) : Prop
  | own (hchunks : chunks (historyOf i run) = [])
      (hheads : ∀ data ∈ sends (historyOf i run), ProxyHead data)
  | relayed (key : CacheKey) (hreached : Reached rt (historyOf i run) key)
      (hsent : SentOn (historyOf i run))
  | replayed (key : CacheKey) (j : ℕ) (pre post : List (ℚ × ℕ × Event)) (cached : Entry)
      (stored hit : ℚ) (hhit : run = pre ++ (hit, i, .called (.cacheGet key) (some cached)) :: post)
      (hasked : Asked rt (historyOf i pre) key) (hne : j ≠ i)
      (hreached : Reached rt (historyOf j pre) key) (hsent : SentOn (historyOf j run))
      (htime : (stored, j, .called .time stored) ∈ pre) (hfresh : hit - stored ≤ ttl)
      (hthen : stream (historyOf j pre) = cached.response)
      (hnow : stream (historyOf j run) = cached.response)
      (hsame : stream (historyOf i run) = cached.response)

theorem eventsOf_split (i : ℕ) (pre post : List (ℚ × ℕ × Event)) (τ : ℚ) (event : Event) :
    eventsOf i ((pre ++ (τ, i, event) :: post).map Prod.snd) =
      eventsOf i (pre.map Prod.snd) ++ event :: eventsOf i (post.map Prod.snd) := by
  rw [List.map_append, eventsOf_append, List.map_cons, eventsOf_cons_self]

theorem historyOf_split (i : ℕ) (pre post : List (ℚ × ℕ × Event)) (τ : ℚ) (event : Event) :
    historyOf i (pre ++ (τ, i, event) :: post) =
      (eventsOf i (post.map Prod.snd)).reverse ++ event :: historyOf i pre := by
  rw [historyOf, eventsOf_split, List.reverse_append, List.reverse_cons, List.append_assoc]
  rfl

section Run

variable {cfg : HandlerConfig} {ccfg : CacheConfig} {capacity : ℕ} {ttl : ℚ}
  {addr : ℕ → ClientAddr} {run : List (ℚ × ℕ × Event)}

theorem ServedRun.allowed (h : ServedRun cfg ccfg capacity ttl addr run) (i : ℕ) :
    AllowedTrace (Vouched cfg.rt) [] (eventsOf i (run.map Prod.snd)) := by
  obtain ⟨rounds, o, hexec⟩ := h.handlers i
  exact (vouched_handleClient rounds).allowedTrace hexec

/-- A call of a run is vouched by the history of its connection. -/
theorem ServedRun.vouched (h : ServedRun cfg ccfg capacity ttl addr run)
    {pre post : List (ℚ × ℕ × Event)} {τ : ℚ} {i : ℕ} {event : Event}
    (hat : run = pre ++ (τ, i, event) :: post) {op : Op} (hop : event.op? = some op) :
    Vouched cfg.rt (historyOf i pre) op := by
  have hallowed := h.allowed i
  rw [hat, eventsOf_split] at hallowed
  have hvouched := hallowed.at hop
  rwa [List.append_nil] at hvouched

theorem ServedRun.sourced (h : ServedRun cfg ccfg capacity ttl addr run) (i : ℕ) :
    Sourced (historyOf i run) := by
  have hsourced := sourced_of_allowedTrace (h.allowed i) (Or.inl ⟨rfl, by simp [sends]⟩)
  rwa [List.append_nil] at hsourced

theorem mem_run_of_mem_historyOf {i : ℕ} {event : Event} (h : event ∈ historyOf i run) :
    ∃ τ pre post, run = pre ++ (τ, i, event) :: post := by
  obtain ⟨⟨τ, e⟩, hmem, he⟩ := List.mem_map.mp (mem_of_mem_eventsOf (List.mem_reverse.mp h))
  obtain rfl : e = (i, event) := he
  obtain ⟨pre, post, hat⟩ := List.append_of_mem hmem
  exact ⟨τ, pre, post, hat⟩

theorem historyOf_suffix (i : ℕ) (pre post : List (ℚ × ℕ × Event)) :
    historyOf i pre <:+ historyOf i (pre ++ post) := by
  rw [historyOf, historyOf, List.map_append, eventsOf_append, List.reverse_append]
  exact List.suffix_append _ _

/-- A connection that received from an origin had reached the one its request names. -/
theorem ServedRun.reached (h : ServedRun cfg ccfg capacity ttl addr run) {i : ℕ}
    (hne : chunks (historyOf i run) ≠ []) : ∃ key, Reached cfg.rt (historyOf i run) key := by
  obtain ⟨data, hdata⟩ := List.exists_mem_of_ne_nil _ hne
  obtain ⟨event, hevent, hchunk⟩ := List.mem_filterMap.mp hdata
  obtain ⟨τ, pre, post, hat⟩ := mem_run_of_mem_historyOf hevent
  have hreceived : ∃ size, event.op? = some (.recvServer size) := by
    cases event with
    | called op answer =>
        cases op <;> first | exact ⟨_, rfl⟩ | cases hchunk
    | raised op e => cases hchunk
    | noted n => cases hchunk
  obtain ⟨size, hop⟩ := hreceived
  obtain ⟨-, key, hreached⟩ := h.vouched hat hop
  refine ⟨key, hreached.later ?_⟩
  rw [hat]
  exact historyOf_suffix i pre _

theorem sends_historyOf_split (i : ℕ) (pre post : List (ℚ × ℕ × Event)) (τ : ℚ) {event : Event}
    (hevent : sent? event = none) (hlater : sends (eventsOf i (post.map Prod.snd)) = []) :
    sends (historyOf i (pre ++ (τ, i, event) :: post)) = sends (historyOf i pre) := by
  have hreverse : sends (eventsOf i (post.map Prod.snd)).reverse = [] := by
    rw [sends, List.filterMap_reverse]
    exact congrArg List.reverse hlater
  rw [historyOf_split, sends_append, hreverse, sends_cons_of_none _ hevent, List.nil_append]

/-- A connection that has sent chunks of the origin is still relaying. -/
theorem ServedRun.sentOn (h : ServedRun cfg ccfg capacity ttl addr run) {j : ℕ} {past : Trace}
    (hpast : past <:+ historyOf j run) (hsent : SentOn past) (hne : sends past ≠ []) :
    SentOn (historyOf j run) := by
  have hchunks : chunks past ≠ [] := by
    rcases hsent with heven | ⟨data, hlast⟩
    · rwa [heven]
    · rw [hlast]
      exact List.cons_ne_nil _ _
  have hmore : chunks (historyOf j run) ≠ [] := by
    obtain ⟨later, hlater⟩ := hpast
    rw [← hlater, chunks, List.filterMap_append]
    exact fun hnil => hchunks (List.append_eq_nil_iff.mp hnil).2
  rcases h.sourced j with ⟨hnone, -⟩ | hsentOn | ⟨hnone, -⟩
  · exact absurd hnone hmore
  · exact hsentOn
  · exact absurd hnone hmore

/-- What a hit returns was received and sent by the connection that stored it. -/
theorem ServedRun.stored_of_hit (h : ServedRun cfg ccfg capacity ttl addr run)
    {pre post : List (ℚ × ℕ × Event)} {hit : ℚ} {i : ℕ} {key : CacheKey} {cached : Entry}
    (hhit : run = pre ++ (hit, i, .called (.cacheGet key) (some cached)) :: post) :
    ∃ j stored, j ≠ i ∧ Reached cfg.rt (historyOf j pre) key ∧ SentOn (historyOf j run) ∧
      (stored, j, .called .time stored) ∈ pre ∧ hit - stored ≤ ttl ∧
      stream (historyOf j pre) = cached.response ∧
      stream (historyOf j run) = cached.response := by
  obtain ⟨c, hc⟩ := h.cache
  rw [hhit] at hc
  have hage := age_of_hit hc
  have hserves := cacheServes_of_cacheAlong hc
  rw [List.map_append, List.map_cons] at hserves
  obtain ⟨before', after', value, now, hsplit, rfl, -⟩ := hserves.storedBy_of_hit
  obtain ⟨before, rest, rfl, -, hrest⟩ := List.map_eq_append_iff.mp hsplit
  obtain ⟨⟨τ, j, event⟩, after, rfl, hevent, -⟩ := List.map_eq_cons_iff.mp hrest
  obtain rfl : event = .called (.cachePut key value) () := hevent
  have hput : run = before ++ (τ, j, .called (.cachePut key value) ()) ::
      (after ++ (hit, i, .called (.cacheGet key) (some (value.stamped now))) :: post) := by
    rw [hhit, List.append_assoc, List.cons_append]
  obtain ⟨hreached, hsent, hne, hresponse, stored, hstamp, htime⟩ := h.vouched hput rfl
  obtain ⟨-, -, hsilent⟩ := h.vouched hhit rfl
  have hstored : HasStored (.called (.cachePut key value) () :: historyOf j before) :=
    ⟨key, value, List.mem_cons_self⟩
  have hallowed := h.allowed j
  rw [hput, eventsOf_split, allowedTrace_append, List.append_nil] at hallowed
  have hquiet := sends_of_hasStored hallowed.2.2 hstored
  rw [List.map_append, eventsOf_append, sends_append, List.append_eq_nil_iff] at hquiet
  have hpre : sends (historyOf j (before ++ (τ, j, .called (.cachePut key value) ()) :: after)) =
      sends (historyOf j before) := sends_historyOf_split j before after τ rfl hquiet.1
  have hrun : sends (historyOf j run) = sends (historyOf j before) := by
    rw [hput]
    refine sends_historyOf_split j before _ τ rfl ?_
    rw [List.map_append, eventsOf_append, sends_append, hquiet.1, hquiet.2]
    rfl
  have hsuffix : historyOf j before <:+ historyOf j run := by
    rw [hput]
    exact historyOf_suffix j before _
  refine ⟨j, stored, ?_, hreached.later (historyOf_suffix j before _),
    h.sentOn hsuffix hsent hne, ?_, ?_, ?_, ?_⟩
  · rintro rfl
    exact hne (hpre.symm.trans hsilent)
  · obtain ⟨τ', before₁, before₂, hsplit⟩ := mem_run_of_mem_historyOf htime
    have hclock : stored = τ' := by
      refine h.clock τ' j stored ?_
      rw [hput, hsplit]
      simp
    rw [hsplit, hclock]
    simp
  · rwa [Entry.age, Entry.stamped, hstamp] at hage
  · rw [stream, hpre]
    exact hresponse.symm
  · rw [stream, hrun]
    exact hresponse.symm

end Run

/-- **Where the bytes come from.**  In every interleaving of connections over one cache, with
any answers and exceptions, everything a connection has sent to its client at any point is
said by the proxy itself, or is what the connection received from the origin that its own
request names, in order and without loss but for a last chunk, or is exactly what another
connection with the same cache key received from the origin it had reached, and sent to its
own client, at most `ttl` before.  What `tunnel` relays for a `CONNECT` stands behind that call and
is not among it. -/
theorem sent_bytes_have_an_origin {cfg : HandlerConfig} {ccfg : CacheConfig} {capacity : ℕ}
    {ttl : ℚ} {addr : ℕ → ClientAddr} {run : List (ℚ × ℕ × Event)}
    (h : ServedRun cfg ccfg capacity ttl addr run) (i : ℕ) : Origin cfg.rt ttl run i := by
  rcases h.sourced i with ⟨hchunks, hheads⟩ | hsent | ⟨-, data, hcache, hsends⟩
  · exact .own hchunks hheads
  · by_cases hchunks : chunks (historyOf i run) = []
    · refine .own hchunks ?_
      rcases hsent with heven | ⟨data, hlast⟩
      · rw [← heven, hchunks]
        simp
      · rw [hchunks] at hlast
        cases hlast
    · obtain ⟨key, hreached⟩ := h.reached hchunks
      exact .relayed key hreached hsent
  · obtain ⟨key, cached, hhit, rfl⟩ := hcache
    obtain ⟨hit, pre, post, hat⟩ := mem_run_of_mem_historyOf hhit
    obtain ⟨j, stored, hne, hreached, hsent, htime, hfresh, hthen, hnow⟩ := h.stored_of_hit hat
    obtain ⟨hasked, -⟩ := h.vouched hat rfl
    refine .replayed key j pre post cached stored hit hat hasked hne hreached hsent htime hfresh
      hthen hnow ?_
    rw [stream, hsends]
    simp

/-! ### A page for two readers -/

def pageRequest : Bytes :=
  ascii "GET http://a/ HTTP/1.1\r\nProxy-Authorization: Basic dXNlcjpwYXNz\r\n\r\n"

def page : Bytes := ascii "HTTP/1.1 200 OK\r\n\r\nhello"

/-- The origin sends the page and closes; the cache answers `cached`. -/
def pageOrigin (cached : Option Entry) (past : Trace) : ∀ op, Except PyExc (Ans op)
  | .recvServer _ => .ok (if chunks past = [] then page else [])
  | .cacheGet _ => .ok cached
  | op => obliging pageRequest op

/-- The connection of a reader. -/
def reader (cached : Option Entry) : Trace :=
  ((handleClient oneUser ⟨txt "10.0.0.1", 5000⟩ 2).replay (pageOrigin cached) []).1

/-- The first reader fetches the page, the second one gets it from the cache. -/
def twoReaders : List (ℚ × ℕ × Event) :=
  (reader none).map (fun event => (0, 0, event)) ++
    (reader (some ⟨page, some page.length, some 0⟩)).map (fun event => (0, 1, event))

theorem servedRun_twoReaders : ServedRun oneUser ⟨true, 1000⟩ 1 300
    (fun _ => ⟨txt "10.0.0.1", 5000⟩) twoReaders := by
  refine ⟨fun i => ?_, ?_, ?_⟩
  · rw [twoReaders, List.map_append, List.map_map, List.map_map, eventsOf_append]
    have hone (j : ℕ) (t : Trace) : t.map (Prod.snd ∘ fun event => ((0 : ℚ), j, event)) =
        t.map (fun event => (j, event)) := rfl
    rw [hone, hone, eventsOf_map, eventsOf_map]
    rcases i with _ | _ | i
    · rw [if_pos rfl, if_neg (by omega), List.append_nil]
      exact ⟨2, _, exec_replay (pageOrigin none) _ []⟩
    · rw [if_neg (by omega), if_pos rfl, List.nil_append]
      exact ⟨2, _, exec_replay (pageOrigin _) _ []⟩
    · rw [if_neg (by omega), if_neg (by omega)]
      exact ⟨0, .running, .running _⟩
  · rintro τ i now hmem
    have htime {cached : Option Entry} (h : .called .time now ∈ reader cached) : now = 0 := by
      obtain ⟨past, hanswer⟩ := answer_of_called_replay h
      cases hanswer
      rfl
    rcases List.mem_append.mp hmem with hmem | hmem
    · obtain ⟨event, hevent, he⟩ := List.mem_map.mp hmem
      cases he
      exact htime hevent
    · obtain ⟨event, hevent, he⟩ := List.mem_map.mp hmem
      cases he
      exact htime hevent
  · have hserved : Option.isSome (cacheAlong ⟨true, 1000⟩ (LRUCache.create 1 300) twoReaders) =
        true := by
      decide +kernel
    exact Option.isSome_iff_exists.mp hserved

theorem sent_bytes_have_an_origin_twoReaders :
    stream (historyOf 1 twoReaders) = page ∧ chunks (historyOf 1 twoReaders) = [] ∧
      Origin oneUser.rt 300 twoReaders 1 := by
  refine ⟨?_, ?_, sent_bytes_have_an_origin servedRun_twoReaders 1⟩
  · decide +kernel
  · decide +kernel

end Proxy
end NetworkProxy
