import NetworkProxy.Forwarder
import NetworkProxy.OutboundFields

/-!
# Many clients, one cache

Any number of calls of `forward_http` run interleaved over one cache.  Every hit goes
back to an earlier `GET` of the run with the same key, which sent its own request to
the origin; the key does not tell clients apart, so the credentials in that request
are those of the client that came first.
-/

namespace NetworkProxy
namespace Proxy

open Py Http Cache Forward

/-! ## Runs over one cache -/

/-- The events of the call `i` in an interleaved run. -/
def eventsOf (i : ℕ) (run : List (ℕ × Event)) : Trace :=
  run.filterMap (fun e => if e.1 = i then some e.2 else none)

/-- The cache after an event, with the reading of the clock; `none` when the cache would
answer otherwise. -/
def cacheStep (cfg : CacheConfig) (now : ℚ) (c : LRUCache CacheKey) :
    Event → Option (LRUCache CacheKey)
  | .called (.cacheGet key) answer =>
      if (c.get cfg key now).1 = answer then some (c.get cfg key now).2 else none
  | .called (.cachePut key value) _ => some (c.put cfg key value now)
  | _ => some c

/-- The cache answers the events of a trace, at some readings of the clock. -/
inductive CacheServes (cfg : CacheConfig) : LRUCache CacheKey → Trace → LRUCache CacheKey → Prop
  | nil (c : LRUCache CacheKey) : CacheServes cfg c [] c
  | cons {c c' c'' : LRUCache CacheKey} {event : Event} {t : Trace} (now : ℚ)
      (hstep : cacheStep cfg now c event = some c') (rest : CacheServes cfg c' t c'') :
      CacheServes cfg c (event :: t) c''

/-- A run of calls of `forward_http`, one for each number, over one cache that is empty
at first. -/
structure SharedRun (rt : PyRuntime) (cfg : CacheConfig) (capacity : ℕ) (ttl : ℚ)
    (requests : ℕ → ParsedRequest) (run : List (ℕ × Event)) : Prop where
  fromClient : ∀ i, FromClient rt (requests i)
  calls : ∀ i, ∃ rounds o,
    Exec (forwardHttp cfg.maxObjectSize rounds (requests i)) (eventsOf i run) o
  cache : ∃ c, CacheServes cfg (LRUCache.create capacity ttl) (run.map Prod.snd) c

/-! ## What the cache answers -/

/-- The last `put` of the key in the trace that the cache accepted stored the entry. -/
def StoredBy (cfg : CacheConfig) (t : Trace) (key : CacheKey) (e : Entry) : Prop :=
  ∃ (before after : Trace) (value : Entry) (now : ℚ),
    t = before ++ .called (.cachePut key value) () :: after ∧ e = value.stamped now ∧
      ∀ value', .called (.cachePut key value') () ∈ after → ¬ CacheOp.Accepted cfg value'

theorem CacheServes.split {cfg : CacheConfig} {c c'' : LRUCache CacheKey} {t t' : Trace}
    (h : CacheServes cfg c (t ++ t') c'') :
    ∃ c', CacheServes cfg c t c' ∧ CacheServes cfg c' t' c'' := by
  induction t generalizing c with
  | nil => exact ⟨c, .nil c, h⟩
  | cons event t ih =>
      cases h with
      | cons now hstep rest =>
          obtain ⟨c', ht, ht'⟩ := ih rest
          exact ⟨c', .cons now hstep ht, ht'⟩

/-- A cached entry was put by this event, or was there before and the
event puts nothing else under its key. -/
theorem get?_cacheStep {cfg : CacheConfig} (henabled : cfg.enabled = true) {now : ℚ}
    {c c' : LRUCache CacheKey} {event : Event} (h : cacheStep cfg now c event = some c')
    {key : CacheKey} {e : Entry} (he : c'.cache.get? key = some e) :
    (∃ value now', event = .called (.cachePut key value) () ∧ e = value.stamped now') ∨
    (c.cache.get? key = some e ∧
      ∀ value, event = .called (.cachePut key value) () → ¬ CacheOp.Accepted cfg value) := by
  unfold cacheStep at h
  split at h
  · rename_i key' answer
    split at h
    · obtain rfl := Option.some.inj h
      have hget : (c.step cfg (.get key' now)).cache.get? key = some e := he
      rcases LRUCache.get?_step henabled hget with ⟨_, _, hop, -⟩ | ⟨hold, -⟩
      · cases hop
      · exact Or.inr ⟨hold, by simp⟩
    · cases h
  · rename_i key' value _
    obtain rfl := Option.some.inj h
    have hput : (c.step cfg (.put key' value now)).cache.get? key = some e := he
    rcases LRUCache.get?_step henabled hput with
      ⟨value', now', hop, -, hstamped⟩ | ⟨hold, hnot⟩
    · cases hop
      exact Or.inl ⟨value, now, rfl, hstamped⟩
    · refine Or.inr ⟨hold, ?_⟩
      rintro value' hevent haccepted
      cases hevent
      exact hnot ⟨rfl, haccepted⟩
  · rename_i hother
    obtain rfl := Option.some.inj h
    exact Or.inr ⟨he, fun value hevent => absurd hevent (hother key value ())⟩

/-- A cached entry was stored by the last accepted `put` of its key, or
was there before and nothing else was put under its key. -/
theorem CacheServes.storedBy {cfg : CacheConfig} (henabled : cfg.enabled = true)
    {c c' : LRUCache CacheKey} {t : Trace} (h : CacheServes cfg c t c') {key : CacheKey}
    {e : Entry} (he : c'.cache.get? key = some e) :
    StoredBy cfg t key e ∨
    (c.cache.get? key = some e ∧
      ∀ value, .called (.cachePut key value) () ∈ t → ¬ CacheOp.Accepted cfg value) := by
  induction h with
  | nil c => exact Or.inr ⟨he, nofun⟩
  | @cons c c₁ c' event t now hstep rest ih =>
      rcases ih he with ⟨before, after, value, now', rfl, hstamped, hafter⟩ | ⟨hmid, hlater⟩
      · exact Or.inl ⟨event :: before, after, value, now', rfl, hstamped, hafter⟩
      · rcases get?_cacheStep henabled hstep hmid with ⟨value, now', rfl, hstamped⟩ | ⟨hold, hnot⟩
        · exact Or.inl ⟨[], t, value, now', rfl, hstamped, hlater⟩
        · refine Or.inr ⟨hold, fun value hmem => ?_⟩
          rcases List.mem_cons.mp hmem with hevent | hmem
          · exact hnot value hevent.symm
          · exact hlater value hmem

/-- A hit returns what the last accepted `put` of the key stored. -/
theorem CacheServes.storedBy_of_hit {cfg : CacheConfig} {capacity : ℕ} {ttl : ℚ}
    {c : LRUCache CacheKey} {pre post : Trace} {key : CacheKey} {cached : Entry}
    (h : CacheServes cfg (LRUCache.create capacity ttl)
      (pre ++ .called (.cacheGet key) (some cached) :: post) c) :
    StoredBy cfg pre key cached := by
  obtain ⟨c', hpre, hpost⟩ := h.split
  cases hpost with
  | cons now hstep rest =>
      rw [cacheStep] at hstep
      split at hstep
      · rename_i hanswer
        cases henabled : cfg.enabled with
        | false =>
            rw [LRUCache.get, if_neg (by rw [henabled]; exact Bool.false_ne_true)] at hanswer
            cases hanswer
        | true =>
            rcases LRUCache.get_cases henabled c' key now with
              ⟨-, hmiss⟩ | ⟨_, -, -, hexpired⟩ | ⟨entry, hentry, -, hfound⟩
            · rw [hmiss] at hanswer
              cases hanswer
            · rw [hexpired] at hanswer
              cases hanswer
            · rw [hfound] at hanswer
              obtain rfl := Option.some.inj hanswer
              rcases hpre.storedBy henabled hentry with hstored | ⟨hempty, -⟩
              · exact hstored
              · cases hempty
      · cases hstep

/-! ## What a call puts into the cache -/

/-- What must have happened in a call of `forward_http` before it uses the cache. -/
def SharedOp (p : ParsedRequest) (past : Trace) : Op → Prop
  | .cacheGet key => key = cacheKey p
  | .cachePut key _ =>
      key = cacheKey p ∧ p.method = txt "GET" ∧
        .called (.sendServer (buildOutboundRequest p)) () ∈ past
  | _ => True

section Discipline

variable {p : ParsedRequest}

/-- Programs that leave the cache alone. -/
theorem safe_of_quiet {α : Type} {past : Trace} {q : Program α}
    (hq : Calls (fun op => ∀ past', SharedOp p past' op) q) :
    Safe (SharedOp p) past q (fun past' _ => past <:+ past') :=
  hq.safe fun past' _ _ hop => hop past'

/-- The flag is never raised again. -/
theorem cacheable_of_absorb {maxObjectSize : ℤ} {s : Transfer} {data : Bytes}
    (h : (s.absorb maxObjectSize data).cacheable = true) : s.cacheable = true := by
  have hstatus : (s.withStatus data).cacheable = true := by
    rw [Transfer.absorb, Transfer.collect] at h
    split at h
    · rename_i hcacheable
      exact hcacheable
    · exact h
  rw [Transfer.withStatus] at hstatus
  split at hstatus
  · exact hstatus
  · split at hstatus
    · exact hstatus
    · dsimp only at hstatus
      split at hstatus
      · cases hstatus
      · exact hstatus

theorem safe_relay (maxObjectSize : ℤ) (rounds : ℕ) (s : Transfer) (past : Trace) :
    Safe (SharedOp p) past (relay maxObjectSize rounds s) (fun past' o => past <:+ past' ∧
      ∀ s', o = .returned s' → s'.cacheable = true → s.cacheable = true) := by
  induction rounds generalizing s past with
  | zero => exact trivial
  | succ rounds ih =>
      have hround : Safe (SharedOp p) past (relayChunk.tryCatch (onOSError (.ret none)))
          (fun past' _ => past <:+ past') := by
        refine safe_of_quiet (Calls.tryCatch ?_ (calls_onOSError trivial))
        refine (Calls.perform fun _ => trivial).bind fun data => ?_
        split
        · exact trivial
        · exact (Calls.perform fun _ => trivial).bind fun _ => trivial
      refine Safe.bind (hround.mono fun past' o hsuffix => ?_)
      cases o with
      | running => exact trivial
      | raised e => exact ⟨hsuffix, nofun⟩
      | returned result =>
          cases result with
          | none =>
              refine ⟨hsuffix, ?_⟩
              rintro s' ⟨⟩
              exact id
          | some data =>
              refine (ih (s.absorb maxObjectSize data) past').mono fun past'' o' h => ?_
              obtain ⟨hsuffix', hflag⟩ := h
              refine ⟨hsuffix.trans hsuffix', fun s' hs' hcacheable => ?_⟩
              exact cacheable_of_absorb (hflag s' hs' hcacheable)

theorem safe_finish (start : ℚ) {s : Transfer} {past : Trace}
    (hflag : s.cacheable = true → p.method = txt "GET")
    (hsent : .called (.sendServer (buildOutboundRequest p)) () ∈ past) :
    Safe (SharedOp p) past (finish p start s) (fun _ _ => True) := by
  refine Safe.perform_bind trivial (fun _ => ?_) fun _ => trivial
  refine Safe.perform_bind trivial (fun stop => ?_) fun _ => trivial
  split
  · rename_i hstore
    refine Safe.perform_bind trivial (fun now => ?_) fun _ => trivial
    refine Safe.perform_bind ⟨rfl, hflag hstore.1, ?_⟩ (fun _ => ?_) fun _ => trivial
    · exact List.mem_cons_of_mem _ (List.mem_cons_of_mem _ (List.mem_cons_of_mem _ hsent))
    · exact ⟨trivial, fun _ => trivial, fun _ => trivial⟩
  · exact ⟨trivial, fun _ => trivial, fun _ => trivial⟩

/-- Sending the request works only by sending it. -/
theorem safe_sendRequest (past : Trace) :
    Safe (SharedOp p) past (sendRequest p) (fun past' o => o = .returned true →
      .called (.sendServer (buildOutboundRequest p)) () ∈ past') := by
  have hgateway : ∀ past', Safe (SharedOp p) past' sendBadGateway (fun past'' _ =>
      past' <:+ past'') := fun past' =>
    safe_of_quiet (calls_sendBadGateway (fun _ => trivial) fun _ => trivial)
  refine Safe.tryCatch (Safe.perform_bind trivial (fun _ _ => List.mem_cons_self) fun e => ?_)
  show Safe (SharedOp p) _ (onOSError _ e) _
  rw [onOSError]
  split
  · refine Safe.perform_bind trivial (fun _ => ?_) fun _ => by rintro ⟨⟩
    refine Safe.bind ((hgateway _).mono fun past' o _ => ?_)
    cases o with
    | running => exact trivial
    | raised e => rintro ⟨⟩
    | returned _ => rintro ⟨⟩
  · rintro ⟨⟩

theorem safe_fetch (maxObjectSize : ℤ) (rounds : ℕ) (past : Trace) :
    Safe (SharedOp p) past (fetch maxObjectSize rounds p) (fun _ _ => True) := by
  refine Safe.perform_bind trivial (fun start => ?_) fun _ => trivial
  have hconnect : Calls (fun op => ∀ past', SharedOp p past' op) (connectOrigin p) :=
    calls_connectOrigin p (fun _ => trivial) (fun _ => trivial) (fun _ => trivial)
      (fun _ => trivial) fun _ => trivial
  refine Safe.bind ((safe_of_quiet hconnect).mono fun past₁ o _ => ?_)
  cases o with
  | running => exact trivial
  | raised e => exact trivial
  | returned connected =>
      show Safe (SharedOp p) past₁ (if connected = true then _ else _) _
      split
      · refine Safe.bind ((safe_sendRequest past₁).mono fun past₂ o hsent => ?_)
        cases o with
        | running => exact trivial
        | raised e => exact trivial
        | returned sent =>
            show Safe (SharedOp p) past₂ (if sent = true then _ else _) _
            split
            · rename_i hsentTrue
              subst hsentTrue
              refine Safe.bind ((safe_relay maxObjectSize rounds (Transfer.create p.method)
                past₂).mono fun past₃ o h => ?_)
              obtain ⟨hsuffix, hflag⟩ := h
              cases o with
              | running => exact trivial
              | raised e => exact trivial
              | returned s =>
                  refine safe_finish start (fun hcacheable => ?_) (hsuffix.subset (hsent rfl))
                  exact of_decide_eq_true (hflag s rfl hcacheable)
            · exact trivial
      · exact trivial

/-- The discipline of the cache.  `forward_http` uses only the key of its request,
and stores only for a `GET` whose outbound request it sent before. -/
theorem safe_forwardHttp (maxObjectSize : ℤ) (rounds : ℕ) (past : Trace) :
    Safe (SharedOp p) past (forwardHttp maxObjectSize rounds p) (fun _ _ => True) := by
  have hlookup : Calls (fun op => ∀ past', SharedOp p past' op) (lookup p) :=
    calls_lookup p (fun _ => rfl) (fun _ _ _ => trivial) (fun _ => trivial)
      fun _ _ => trivial
  refine Safe.bind ((safe_of_quiet hlookup).mono fun past' o _ => ?_)
  cases o with
  | running => exact trivial
  | raised e => exact trivial
  | returned answered =>
      show Safe (SharedOp p) past' (if answered = true then _ else _) _
      split
      · exact trivial
      · exact safe_fetch maxObjectSize rounds past'

end Discipline

/-! ## Whose request fetched the response -/

/-- The end-to-end fields that hold a client's credentials. -/
def credentialNames : List Text := [txt "authorization", txt "cookie"]

/-- The outbound request has, of each credential field, exactly the value of the client's
request, and none where the client's request has none. -/
def CarriesCredentials (p : ParsedRequest) (outbound : Bytes) : Prop :=
  ∃ head body, breakOn headerTerminator outbound = some (head, body) ∧
    ∀ name ∈ credentialNames,
      fieldValues (encode name) head = ((p.headers.get? name).map encode).toList

/-- Two requests with the same credentials. -/
def SameCredentials (p q : ParsedRequest) : Prop :=
  ∀ name ∈ credentialNames, p.headers.get? name = q.headers.get? name

theorem credential_name_ok {name : Text} (h : name ∈ credentialNames) :
    (∀ c, c ∈ name → c.toNat < 128) ∧ name ∉ builderNames := by
  rcases List.mem_pair.mp h with rfl | rfl
  · exact ⟨toNat_lt_of_all rfl, by decide⟩
  · exact ⟨toNat_lt_of_all rfl, by decide⟩

/-- The builder hands the client's credentials on. -/
theorem carriesCredentials_outbound {rt : PyRuntime} {p : ParsedRequest} (h : FromClient rt p) :
    CarriesCredentials p (buildOutboundRequest p) := by
  obtain ⟨hclean, hip⟩ := h.clean
  refine ⟨_, _, breakOn_outbound hclean hip, fun name hname => ?_⟩
  obtain ⟨hascii, hbuilder⟩ := credential_name_ok hname
  exact fieldValues_outbound hclean hip hascii hbuilder

theorem CarriesCredentials.congr {p q : ParsedRequest} {outbound : Bytes}
    (h : CarriesCredentials p outbound) (hsame : SameCredentials p q) :
    CarriesCredentials q outbound := by
  obtain ⟨head, body, hbreak, hvalues⟩ := h
  refine ⟨head, body, hbreak, fun name hname => ?_⟩
  rw [hvalues name hname, hsame name hname]

theorem eventsOf_append (i : ℕ) (run run' : List (ℕ × Event)) :
    eventsOf i (run ++ run') = eventsOf i run ++ eventsOf i run' :=
  List.filterMap_append

theorem eventsOf_cons_self (i : ℕ) (event : Event) (run : List (ℕ × Event)) :
    eventsOf i ((i, event) :: run) = event :: eventsOf i run :=
  List.filterMap_cons_some (if_pos rfl)

theorem mem_of_mem_eventsOf {i : ℕ} {run : List (ℕ × Event)} {event : Event}
    (h : event ∈ eventsOf i run) : (i, event) ∈ run := by
  obtain ⟨⟨j, event'⟩, hmem, hevent⟩ := List.mem_filterMap.mp h
  dsimp only at hevent
  split at hevent
  · rename_i hj
    obtain rfl := Option.some.inj hevent
    rwa [← hj]
  · cases hevent

/-- In a run, a call keeps the discipline at each of its events. -/
theorem SharedRun.sharedOp {rt : PyRuntime} {cfg : CacheConfig} {capacity : ℕ} {ttl : ℚ}
    {requests : ℕ → ParsedRequest} {run pre post : List (ℕ × Event)}
    (hrun : SharedRun rt cfg capacity ttl requests run) {i : ℕ} {event : Event}
    (hat : run = pre ++ (i, event) :: post) {op : Op} (hop : event.op? = some op) :
    SharedOp (requests i) (eventsOf i pre).reverse op := by
  obtain ⟨rounds, o, hexec⟩ := hrun.calls i
  have hallowed := (safe_forwardHttp (p := requests i) cfg.maxObjectSize rounds []).allowedTrace
    hexec
  rw [hat, eventsOf_append, eventsOf_cons_self] at hallowed
  have h := hallowed.at hop
  rwa [List.append_nil] at h

/-- **Who fetched a cached response.**  A hit in a run returns the response that the
last accepted `put` of its key stored.  That was a `GET` of the run, which had sent its
own request to the origin, with exactly its own credentials; these are the credentials
of the request that is answered if all `GET`s for the key so far have those. -/
theorem hit_fetched_by_same_key {rt : PyRuntime} {cfg : CacheConfig} {capacity : ℕ} {ttl : ℚ}
    {requests : ℕ → ParsedRequest} {run pre post : List (ℕ × Event)}
    (hrun : SharedRun rt cfg capacity ttl requests run) {i : ℕ} {key : CacheKey}
    {cached : Entry} (hhit : run = pre ++ (i, .called (.cacheGet key) (some cached)) :: post) :
    ∃ (j : ℕ) (value : Entry) (before after : List (ℕ × Event)),
      pre = before ++ (j, .called (.cachePut key value) ()) :: after ∧
      cached.response = value.response ∧
      (∀ k value', (k, .called (.cachePut key value') ()) ∈ after →
        ¬ CacheOp.Accepted cfg value') ∧
      (requests j).method = txt "GET" ∧
      cacheKey (requests j) = key ∧ cacheKey (requests i) = key ∧
      (j, .called (.sendServer (buildOutboundRequest (requests j))) ()) ∈ before ∧
      CarriesCredentials (requests j) (buildOutboundRequest (requests j)) ∧
      ((∀ k, (∃ event, (k, event) ∈ pre) → (requests k).method = txt "GET" →
          cacheKey (requests k) = key → SameCredentials (requests k) (requests i)) →
        CarriesCredentials (requests i) (buildOutboundRequest (requests j))) := by
  obtain ⟨c, hserves⟩ := hrun.cache
  rw [hhit, List.map_append, List.map_cons] at hserves
  obtain ⟨before', after', value, now, hsplit, rfl, hlast⟩ := hserves.storedBy_of_hit
  obtain ⟨before, rest, rfl, rfl, hrest⟩ := List.map_eq_append_iff.mp hsplit
  obtain ⟨⟨j, event⟩, after, rfl, rfl, rfl⟩ := List.map_eq_cons_iff.mp hrest
  have hat : run = before ++ (j, .called (.cachePut key value) ()) ::
      (after ++ (i, .called (.cacheGet key) (some (value.stamped now))) :: post) := by
    rw [hhit, List.append_assoc, List.cons_append]
  obtain ⟨hkeyj, hget, hsent⟩ := hrun.sharedOp hat rfl
  have hkeyi : key = cacheKey (requests i) := hrun.sharedOp hhit rfl
  have hsentBefore := mem_of_mem_eventsOf (List.mem_reverse.mp hsent)
  have hcarries := carriesCredentials_outbound (hrun.fromClient j)
  refine ⟨j, value, before, after, rfl, rfl, ?_, hget, hkeyj.symm, hkeyi.symm, hsentBefore,
    hcarries, fun hall => ?_⟩
  · intro k value' hmem
    exact hlast value' (List.mem_map.mpr ⟨_, hmem, rfl⟩)
  · have hmem : (j, .called (.cachePut key value) ()) ∈
        before ++ (j, .called (.cachePut key value) ()) :: after :=
      List.mem_append_right _ List.mem_cons_self
    exact hcarries.congr (hall j ⟨_, hmem⟩ hget hkeyj.symm)

/-! ### Two clients -/

theorem CacheServes.of_foldlM {cfg : CacheConfig} {now : ℚ} {c c' : LRUCache CacheKey}
    {t : Trace} (h : t.foldlM (cacheStep cfg now) c = some c') : CacheServes cfg c t c' := by
  induction t generalizing c with
  | nil =>
      obtain rfl := Option.some.inj h
      exact .nil c
  | cons event t ih =>
      rw [List.foldlM_cons] at h
      obtain ⟨c₁, hstep, hrest⟩ := Option.bind_eq_some_iff.mp h
      exact .cons now hstep (ih hrest)

theorem eventsOf_map (i j : ℕ) (t : Trace) :
    eventsOf i (t.map (fun event => (j, event))) = if j = i then t else [] := by
  rw [eventsOf, List.filterMap_map]
  split
  · rename_i h
    exact (List.filterMap_congr fun _ _ => if_pos h).trans List.filterMap_some
  · rename_i h
    exact List.filterMap_eq_nil_iff.mpr fun _ _ => if_neg h

/-- A client with a session cookie. -/
def sessionGet : ParsedRequest where
  method := txt "GET"
  host := txt "a"
  port := 80
  path := some (txt "/")
  headers := OrderedDict.empty.set (txt "cookie") (txt "s=1")
  contentLength := none
  body := []
  requestId := []
  raw := ascii "GET http://a/ HTTP/1.1\r\nCookie: s=1\r\n\r\n"
  clientIp := some (IPv4.text ⟨10, 0, 0, 1⟩)

/-- A client without one. -/
def anonymousGet : ParsedRequest where
  method := txt "GET"
  host := txt "a"
  port := 80
  path := some (txt "/")
  headers := OrderedDict.empty
  contentLength := none
  body := []
  requestId := []
  raw := ascii "GET http://a/ HTTP/1.1\r\n\r\n"
  clientIp := some (IPv4.text ⟨10, 0, 0, 2⟩)

def twoClients (i : ℕ) : ParsedRequest := if i = 0 then sessionGet else anonymousGet

/-- The page of the session. -/
def secretPage : Response where
  chunks := [ascii "HTTP/1.1 200 OK\r\n\r\nsecret"]
  chunks_ne_nil := by decide
  ending := .eof

def secretEntry : Entry :=
  ⟨secretPage.chunks.flatten, some secretPage.chunks.flatten.length, some 0⟩

/-- The session fetches its page, then the other client asks for it. -/
def sessionEvents : List (ℕ × Event) :=
  (fetchTrace 1000 sessionGet secretPage 0 0 0).map (fun event => (0, event))

def laterEvents : List (ℕ × Event) :=
  [(1, .called (.logEvent (txt "CACHE HIT → " ++ destinationText anonymousGet)
      (logFields anonymousGet "CACHE_HIT")) ()),
    (1, .called (.countMetric .cached) ()),
    (1, .called (.sendClient secretEntry.response) ())]

theorem fromClient_twoClients (i : ℕ) : FromClient asciiRuntime (twoClients i) := by
  rw [twoClients]
  split
  · exact ⟨[], sessionGet.raw, { sessionGet with clientIp := none }, ⟨10, 0, 0, 1⟩, rfl, rfl⟩
  · exact ⟨[], anonymousGet.raw, { anonymousGet with clientIp := none }, ⟨10, 0, 0, 2⟩, rfl, rfl⟩

theorem sharedRun_twoClients :
    SharedRun asciiRuntime ⟨true, 1000⟩ 1 100 twoClients
      (sessionEvents ++
        (1, .called (.cacheGet (cacheKey anonymousGet)) (some secretEntry)) :: laterEvents) := by
  have hhit : (1, (.called (.cacheGet (cacheKey anonymousGet)) (some secretEntry) : Event)) ::
      laterEvents = (hitEvents anonymousGet secretEntry).map (fun event => (1, event)) := rfl
  refine ⟨fromClient_twoClients, fun i => ?_, ?_⟩
  · rw [hhit, eventsOf_append, sessionEvents, eventsOf_map, eventsOf_map, twoClients]
    rcases i with _ | _ | i
    · exact ⟨_, _, exec_fetchTrace 1000 rfl secretPage 0 0 0⟩
    · exact ⟨0, _, exec_hitEvents 1000 0 rfl secretEntry⟩
    · rw [if_neg (by omega), if_neg (by omega)]
      exact ⟨0, .running, .running _⟩
  · have hserved : Option.isSome ((List.map Prod.snd (sessionEvents ++
        (1, .called (.cacheGet (cacheKey anonymousGet)) (some secretEntry)) ::
          laterEvents)).foldlM (cacheStep ⟨true, 1000⟩ 0) (LRUCache.create 1 100)) = true := by
      decide +kernel
    obtain ⟨c, hc⟩ := Option.isSome_iff_exists.mp hserved
    exact ⟨c, CacheServes.of_foldlM hc⟩

theorem hit_fetched_by_same_key_twoClients :
    ∃ (j : ℕ) (value : Entry) (before after : List (ℕ × Event)),
      sessionEvents = before ++ (j, .called (.cachePut (cacheKey anonymousGet) value) ()) :: after ∧
      secretEntry.response = value.response ∧
      cacheKey (twoClients j) = cacheKey anonymousGet ∧
      CarriesCredentials (twoClients j) (buildOutboundRequest (twoClients j)) := by
  obtain ⟨j, value, before, after, hpre, hresponse, -, -, hkey, -, -, hcarries, -⟩ :=
    hit_fetched_by_same_key sharedRun_twoClients rfl
  exact ⟨j, value, before, after, hpre, hresponse, hkey, hcarries⟩

/-- The client without a cookie gets the page that was fetched with the session's. -/
theorem session_page_is_shared :
    SharedRun asciiRuntime ⟨true, 1000⟩ 1 100 twoClients
      (sessionEvents ++
        (1, .called (.cacheGet (cacheKey anonymousGet)) (some secretEntry)) :: laterEvents) ∧
    (1, .called (.sendClient secretEntry.response) ()) ∈ laterEvents ∧
    (∃ before after : List (ℕ × Event),
      sessionEvents =
        before ++ (0, .called (.cachePut (cacheKey anonymousGet) secretEntry) ()) :: after ∧
      (∀ k key value, (k, .called (.cachePut key value) ()) ∉ after) ∧
      (0, .called (.sendServer (buildOutboundRequest sessionGet)) ()) ∈ before) ∧
    ¬ CarriesCredentials anonymousGet (buildOutboundRequest sessionGet) := by
  refine ⟨sharedRun_twoClients, ?_, ⟨sessionEvents.take 13, sessionEvents.drop 14, ?_, ?_, ?_⟩, ?_⟩
  · exact List.mem_cons_of_mem _ (List.mem_cons_of_mem _ List.mem_cons_self)
  · have hput : sessionEvents.drop 13 =
        (0, .called (.cachePut (cacheKey anonymousGet) secretEntry) ()) ::
          sessionEvents.drop 14 := rfl
    rw [← hput, List.take_append_drop]
  · intro k key value hmem
    have hlog : ∃ message fields,
        sessionEvents.drop 14 = [(0, .called (.logEvent message fields) ())] := ⟨_, _, rfl⟩
    obtain ⟨message, fields, hlog⟩ := hlog
    rw [hlog] at hmem
    cases List.mem_singleton.mp hmem
  · have hsend : (sessionEvents.take 13)[6]? =
        some (0, .called (.sendServer (buildOutboundRequest sessionGet)) ()) := rfl
    exact List.mem_of_getElem? hsend
  · rintro ⟨head, body, hbreak, hvalues⟩
    obtain ⟨head', body', hbreak', hvalues'⟩ :=
      carriesCredentials_outbound (fromClient_twoClients 0)
    obtain ⟨rfl, rfl⟩ := Prod.mk.inj (Option.some.inj (hbreak.symm.trans hbreak'))
    have hcookie : txt "cookie" ∈ credentialNames := List.mem_cons_of_mem _ List.mem_cons_self
    have hdiffer := (hvalues _ hcookie).symm.trans (hvalues' _ hcookie)
    revert hdiffer
    decide

end Proxy
end NetworkProxy
