import NetworkProxy.CacheAccounting
import NetworkProxy.OriginContact
import NetworkProxy.ResponseOrigin

/-!
# The cache panel

What the panel of the dashboard says of the cache, and how much memory it takes.

* `sized_handleClient`: a response is stored with its own length as its size.
* `cache_panel_is_true`: in every interleaving of connections over one cache, the counters are
  those of what the cache holds and of the lookups of the run; what it holds fits the capacity
  and the largest size of an object.
-/

namespace NetworkProxy

namespace Cache.LRUCache

universe u

variable {κ : Type u}

/-- Evictions are no lookups. -/
theorem evictLoop_lookups (rounds : ℕ) (c : LRUCache κ) :
    (c.evictLoop rounds).stats.hits = c.stats.hits ∧
      (c.evictLoop rounds).stats.misses = c.stats.misses := by
  induction rounds generalizing c with
  | zero => exact ⟨rfl, rfl⟩
  | succ rounds ih =>
      rw [evictLoop]
      split
      · split
        · exact ih _
        · exact ⟨rfl, rfl⟩
      · exact ⟨rfl, rfl⟩

/-- Neither is a `put`. -/
theorem put_lookups [DecidableEq κ] (cfg : CacheConfig) (c : LRUCache κ) (key : κ) (value : Entry)
    (now : ℚ) : (c.put cfg key value now).stats.hits = c.stats.hits ∧
      (c.put cfg key value now).stats.misses = c.stats.misses := by
  rw [put]
  split
  · split
    · exact ⟨rfl, rfl⟩
    · have hstore : (c.store key (value.stamped now)).stats.hits = c.stats.hits ∧
          (c.store key (value.stamped now)).stats.misses = c.stats.misses := by
        rw [store, dropOld]
        cases c.cache.get? key with
        | none => exact ⟨rfl, rfl⟩
        | some old => exact ⟨rfl, rfl⟩
      have hevict := evictLoop_lookups (c.store key (value.stamped now)).cache.size
        (c.store key (value.stamped now))
      exact ⟨hevict.1.trans hstore.1, hevict.2.trans hstore.2⟩
  · exact ⟨rfl, rfl⟩

end Cache.LRUCache

namespace Proxy

open Py Http Cache Handler Forward

/-! ## The size of what is stored -/

/-- A response is stored with its length. -/
def Op.Sized : Op → Prop
  | .cachePut _ value => value.size = some (value.response.length : ℤ)
  | _ => True

/-- A call that stores nothing. -/
def Op.Storeless : Op → Prop
  | .cachePut _ _ => False
  | _ => True

theorem Op.Storeless.sized {op : Op} (h : op.Storeless) : op.Sized := by
  cases op <;> first | exact trivial | exact h.elim

/-- Whatever the program stores has its size. -/
abbrev Sizes {α : Type} (past : Trace) (q : Program α) : Prop :=
  Safe (fun _ op => op.Sized) past q fun _ _ => True

/-- While the response may still be cached, its size is that of the chunks. -/
def Transfer.Measured (s : Transfer) : Prop :=
  s.cacheable = true → s.totalSize = s.responseChunks.flatten.length

theorem measured_create (method : Text) : (Transfer.create method).Measured := fun _ => rfl

theorem Transfer.Measured.withStatus {s : Transfer} (h : s.Measured) (data : Bytes) :
    (s.withStatus data).Measured := by
  rw [Transfer.withStatus]
  split
  · exact h
  · split
    · exact h
    · intro hcacheable
      dsimp only at hcacheable ⊢
      split at hcacheable
      · cases hcacheable
      · exact h hcacheable

theorem Transfer.Measured.absorb {s : Transfer} (h : s.Measured) (maxObjectSize : ℤ)
    (data : Bytes) : (s.absorb maxObjectSize data).Measured := by
  have hstatus := h.withStatus data
  rw [Transfer.absorb, Transfer.collect]
  split
  · rename_i hcacheable
    split
    · intro _
      dsimp only
      rw [hstatus hcacheable, List.flatten_append, List.length_append, List.flatten_singleton]
    · intro hnot
      cases hnot
  · exact hstatus

section Calls

variable {α : Type} {cfg : HandlerConfig} {addr : ClientAddr} {past : Trace}

theorem sizes_storeless {q : Program α} (hq : Calls Op.Storeless q) : Sizes past q :=
  (hq.safe fun _ _ _ hop => hop.sized).mono fun _ _ _ => trivial

theorem measured_relay (maxObjectSize : ℤ) (rounds : ℕ) {s : Transfer} (h : s.Measured) :
    Safe (fun _ op => op.Sized) past (relay maxObjectSize rounds s)
      fun _ o => ∀ s', o = .returned s' → s'.Measured := by
  induction rounds generalizing s past with
  | zero => exact trivial
  | succ rounds ih =>
      have hround : Calls Op.Storeless (relayChunk.tryCatch (onOSError (.ret none))) := by
        refine Calls.tryCatch ?_ (calls_onOSError trivial)
        refine (Calls.perform trivial).bind fun data => ?_
        split
        · exact trivial
        · exact (Calls.perform trivial).bind fun _ => trivial
      refine Safe.bind_spec (sizes_storeless hround) (fun past' result _ => ?_) fun _ e _ => ?_
      · cases result with
        | none =>
            rintro s' ⟨⟩
            exact h
        | some data => exact ih (h.absorb maxObjectSize data)
      · rintro s' ⟨⟩

theorem sizes_finish (p : ParsedRequest) (start : ℚ) {s : Transfer} (h : s.Measured) :
    Sizes past (finish p start s) := by
  refine Safe.perform_bind trivial (fun _ => ?_) fun _ => trivial
  refine Safe.perform_bind trivial (fun stop => ?_) fun _ => trivial
  split
  · rename_i hstore
    refine Safe.perform_bind trivial (fun now => ?_) fun _ => trivial
    have hsized : Op.Sized (.cachePut (cacheKey p) (storedEntry s now)) :=
      congrArg (fun n : ℕ => some (n : ℤ)) (h hstore.1)
    exact Safe.perform_bind hsized (fun _ => ⟨trivial, fun _ => trivial, fun _ => trivial⟩)
      fun _ => trivial
  · exact ⟨trivial, fun _ => trivial, fun _ => trivial⟩

theorem sizes_forwardHttp (maxObjectSize : ℤ) (rounds : ℕ) (p : ParsedRequest) :
    Sizes past (forwardHttp maxObjectSize rounds p) := by
  have hlookup : Calls Op.Storeless (lookup p) :=
    calls_lookup p trivial (fun _ _ => trivial) trivial fun _ => trivial
  have hconnect : Calls Op.Storeless (connectOrigin p) :=
    calls_connectOrigin p trivial trivial trivial trivial trivial
  have hsend : Calls Op.Storeless (sendRequest p) :=
    calls_sendRequest p trivial trivial trivial trivial
  refine Safe.bind_spec (sizes_storeless hlookup) (fun past' answered _ => ?_) fun _ _ _ => trivial
  cases answered with
  | true => exact trivial
  | false =>
      refine Safe.perform_bind trivial (fun start => ?_) fun _ => trivial
      refine Safe.bind_spec (sizes_storeless hconnect) (fun _ stands _ => ?_) fun _ _ _ => trivial
      cases stands with
      | false => exact trivial
      | true =>
          refine Safe.bind_spec (sizes_storeless hsend) (fun _ sent _ => ?_) fun _ _ _ => trivial
          cases sent with
          | false => exact trivial
          | true =>
              refine Safe.bind_spec (measured_relay maxObjectSize rounds (measured_create p.method))
                (fun _ s hs => sizes_finish p start (hs s rfl)) fun _ _ _ => trivial

/-! ### The steps of the handler -/

theorem Op.TurnsDown.storeless {op : Op} (h : op.TurnsDown) : op.Storeless := by
  cases op <;> first | exact trivial | exact h

theorem storeless_of_ofTunnel {p : ParsedRequest} {op : Op} (h : op.OfTunnel p) :
    op.Storeless := by
  cases op <;> first | exact trivial | exact h.elim

theorem sizes_turnsDown {q : Program α} (hq : Calls Op.TurnsDown q) : Sizes past q :=
  sizes_storeless (hq.mono fun _ => Op.TurnsDown.storeless)

/-- A call that stores nothing, and what follows it. -/
theorem sizes_bind {op : Op} {k : Ans op → Program α} (hop : op.Storeless)
    (hk : ∀ a past', Sizes past' (k a)) : Sizes past ((perform op).bind k) :=
  Safe.perform_bind hop.sized (fun a => hk a _) fun _ => trivial

theorem sizes_dispatch (rounds : ℕ) (p : ParsedRequest) :
    Sizes past (dispatch cfg addr rounds p) := by
  refine sizes_bind trivial fun _ past' => ?_
  split
  · exact sizes_storeless ((ofTunnel_connectTunnel p).mono fun _ => storeless_of_ofTunnel)
  · exact sizes_bind trivial fun _ _ => sizes_forwardHttp _ rounds p

theorem sizes_filterHost (rounds : ℕ) (p : ParsedRequest) :
    Sizes past (filterHost cfg addr rounds p) := by
  refine sizes_bind trivial fun blocked past' => ?_
  cases blocked with
  | true => exact sizes_turnsDown (turnsDown_rejectBlocked p)
  | false => exact sizes_dispatch rounds p

theorem sizes_authenticate (rounds : ℕ) (p : ParsedRequest) :
    Sizes past (authenticate cfg addr rounds p) := by
  have hcheck : Calls Op.Storeless (checkAuth cfg p.headers) :=
    (calls_checkAuth p.headers).mono fun op hop => by
      obtain ⟨plain, stored, rfl⟩ := hop
      exact trivial
  refine Safe.bind_spec (sizes_storeless hcheck) (fun past' ok _ => ?_) fun _ _ _ => trivial
  show Sizes (.noted (.authChecked ok) :: past') _
  cases ok with
  | false => exact sizes_turnsDown (turnsDown_rejectAuth p)
  | true => exact sizes_filterHost rounds p

theorem sizes_limit (rounds : ℕ) (p : ParsedRequest) : Sizes past (limit cfg addr rounds p) := by
  rw [limit]
  split
  · refine sizes_bind trivial fun passed past' => ?_
    cases passed with
    | false => exact sizes_turnsDown (turnsDown_rejectRateLimited p)
    | true => exact sizes_authenticate rounds p
  · exact sizes_authenticate rounds p

theorem sizes_serve (rounds : ℕ) : Sizes past (serve cfg addr rounds) := by
  refine sizes_bind trivial fun raw past' => ?_
  split
  · exact trivial
  · rw [parseRaw]
    split
    · exact trivial
    · exact sizes_turnsDown turnsDown_rejectBadRequest
    · refine sizes_bind trivial fun _ _ => sizes_bind trivial fun _ _ => ?_
      exact sizes_bind trivial fun _ _ => sizes_limit rounds _

/-- A response is stored with its size. -/
theorem sized_handleClient (rounds : ℕ) : Sizes past (handleClient cfg addr rounds) := by
  have hclose (past' : Trace) : Sizes past' ((perform .closeClient).tryCatch swallow) :=
    sizes_storeless ((Calls.perform trivial).tryCatch calls_swallow)
  refine Safe.finallyDo (Safe.mono (Q := fun _ _ => True) (Safe.tryCatch ?_)
    fun past' _ _ => hclose past')
  refine (sizes_serve rounds).mono fun past' o _ => ?_
  cases o with
  | returned _ => exact trivial
  | running => exact trivial
  | raised e => exact sizes_turnsDown (turnsDown_reportError e)

end Calls

/-! ## The lookups -/

/-- A lookup that the cache does not answer. -/
def isMiss : Event → Bool
  | .called (.cacheGet _) none => true
  | _ => false

/-- The operation of the cache behind an event. -/
def cacheOp? (now : ℚ) : Event → Option (CacheOp CacheKey)
  | .called (.cacheGet key) _ => some (.get key now)
  | .called (.cachePut key value) _ => some (.put key value now)
  | _ => none

/-- The operations of a run. -/
def cacheOps (run : List (ℚ × ℕ × Event)) : List (CacheOp CacheKey) :=
  run.filterMap fun e => cacheOp? e.1 e.2.2

section Steps

variable {ccfg : CacheConfig} {c c' : LRUCache CacheKey} {now : ℚ} {event : Event}

/-- What a step of the cache does. -/
theorem cacheStep_eq (h : cacheStep ccfg now c event = some c') :
    c' = c.run ccfg (cacheOp? now event).toList := by
  cases event with
  | noted n => exact (Option.some.inj h).symm
  | raised op e => exact (Option.some.inj h).symm
  | called op answer =>
      cases op with
      | cacheGet key =>
          rw [cacheStep] at h
          split at h
          · exact (Option.some.inj h).symm
          · cases h
      | cachePut key value => exact (Option.some.inj h).symm
      | _ => exact (Option.some.inj h).symm

/-- A lookup is counted as what it is. -/
theorem lookups_cacheStep (henabled : ccfg.enabled = true)
    (h : cacheStep ccfg now c event = some c') :
    c'.stats.hits = c.stats.hits + (if made? event = some .cached then 1 else 0) ∧
      c'.stats.misses = c.stats.misses + if isMiss event then 1 else 0 := by
  cases event with
  | noted n =>
      obtain rfl := Option.some.inj h
      exact ⟨rfl, rfl⟩
  | raised op e =>
      obtain rfl := Option.some.inj h
      cases op <;> exact ⟨rfl, rfl⟩
  | called op answer =>
      cases op with
      | cacheGet key =>
          rw [cacheStep] at h
          split at h
          · rename_i hanswer
            obtain rfl := Option.some.inj h
            subst hanswer
            rcases c.get_cases henabled key now with ⟨-, hget⟩ | ⟨entry, -, -, hget⟩ |
              ⟨entry, -, -, hget⟩
            · rw [hget]
              exact ⟨rfl, rfl⟩
            · rw [hget]
              exact ⟨rfl, rfl⟩
            · rw [hget]
              exact ⟨rfl, rfl⟩
          · cases h
      | cachePut key value =>
          obtain rfl := Option.some.inj h
          exact c.put_lookups ccfg key value now
      | _ =>
          obtain rfl := Option.some.inj h
          exact ⟨rfl, rfl⟩

end Steps

section Run

variable {ccfg : CacheConfig} {c c' : LRUCache CacheKey} {run : List (ℚ × ℕ × Event)}

theorem cacheAlong_eq_run (h : cacheAlong ccfg c run = some c') :
    c' = c.run ccfg (cacheOps run) := by
  induction run generalizing c with
  | nil => exact (Option.some.inj h).symm
  | cons e run ih =>
      obtain ⟨c₁, hstep, hrest⟩ := Option.bind_eq_some_iff.mp h
      rw [ih hrest, cacheStep_eq hstep, ← LRUCache.run_append, cacheOps, cacheOps,
        List.filterMap_cons]
      cases cacheOp? e.1 e.2.2 <;> rfl

theorem lookups_cacheAlong (henabled : ccfg.enabled = true)
    (h : cacheAlong ccfg c run = some c') :
    c'.stats.hits = c.stats.hits + reached .cached (run.map fun e => e.2.2) ∧
      c'.stats.misses = c.stats.misses + (run.map fun e => e.2.2).countP isMiss := by
  induction run generalizing c with
  | nil =>
      obtain rfl := Option.some.inj h
      exact ⟨rfl, rfl⟩
  | cons e run ih =>
      obtain ⟨c₁, hstep, hrest⟩ := Option.bind_eq_some_iff.mp h
      obtain ⟨hhits, hmisses⟩ := lookups_cacheStep henabled hstep
      obtain ⟨hhits', hmisses'⟩ := ih hrest
      rw [List.map_cons, reached_cons, List.countP_cons, hhits', hmisses', hhits, hmisses]
      exact ⟨by omega, by omega⟩

theorem put_of_cacheOp? {τ now : ℚ} {event : Event} {key : CacheKey} {value : Entry}
    (h : cacheOp? τ event = some (.put key value now)) :
    event = .called (.cachePut key value) () := by
  revert h
  rw [cacheOp?.eq_def]
  split
  · rintro ⟨⟩
  · rintro ⟨⟩
    rfl
  · rintro ⟨⟩

/-- Every put of a run has its size. -/
theorem ServedRun.sized {cfg : HandlerConfig} {capacity : ℕ} {ttl : ℚ} {addr : ℕ → ClientAddr}
    (h : ServedRun cfg ccfg capacity ttl addr run) {key : CacheKey} {value : Entry} {now : ℚ}
    (hput : .put key value now ∈ cacheOps run) :
    value.size = some (value.response.length : ℤ) := by
  obtain ⟨⟨τ, i, event⟩, hmem, hop⟩ := List.mem_filterMap.mp hput
  obtain rfl := put_of_cacheOp? hop
  obtain ⟨rounds, o, hexec⟩ := h.handlers i
  have hevent : .called (.cachePut key value) () ∈ eventsOf i (run.map Prod.snd) :=
    List.mem_filterMap.mpr ⟨_, List.mem_map_of_mem hmem, if_pos rfl⟩
  obtain ⟨pre, post, htrace⟩ := List.append_of_mem hevent
  have hsafe : Sizes [] (handleClient cfg (addr i) rounds) := sized_handleClient rounds
  have hallowed := hsafe.allowedTrace hexec
  rw [htrace] at hallowed
  exact hallowed.at rfl

end Run

/-- **The cache panel is true.**  In every state of every interleaving of connections over one
cache: each cached response is at most as large as an object may be; the counters of entries and
bytes are the number and the length of the cached responses, within the capacity; and those of
hits and misses are the lookups that were answered and those that were not. -/
theorem cache_panel_is_true {cfg : HandlerConfig} {ccfg : CacheConfig}
    (henabled : ccfg.enabled = true) {capacity : ℕ} {ttl : ℚ} {addr : ℕ → ClientAddr}
    {run : List (ℚ × ℕ × Event)} (h : ServedRun cfg ccfg capacity ttl addr run)
    {c : LRUCache CacheKey} (hc : cacheAlong ccfg (LRUCache.create capacity ttl) run = some c) :
    (∀ item, item ∈ c.cache.items → (item.2.response.length : ℤ) ≤ ccfg.maxObjectSize) ∧
      c.stats.currentEntries = c.cache.items.length ∧ c.cache.items.length ≤ capacity ∧
      c.stats.currentBytes = (c.cache.items.map fun item => (item.2.response.length : ℤ)).sum ∧
      c.stats.currentBytes ≤ c.cache.items.length * ccfg.maxObjectSize ∧
      c.stats.hits = reached .cached (run.map fun e => e.2.2) ∧
      c.stats.misses = (run.map fun e => e.2.2).countP isMiss := by
  obtain ⟨hhits, hmisses⟩ := lookups_cacheAlong henabled hc
  have hrun := cacheAlong_eq_run hc
  have hsize : ∀ op, op ∈ cacheOps run → op.SizeNonneg := by
    intro op hop
    cases op with
    | put key value now =>
        have hvalue := h.sized hop
        rw [CacheOp.SizeNonneg, Entry.entrySize, hvalue]
        exact Int.natCast_nonneg _
    | get key now => exact trivial
    | clear => exact trivial
  have hclear : ∀ op, op ∈ cacheOps run → op.isClear = false := by
    intro op hop
    obtain ⟨⟨τ, i, event⟩, -, hop⟩ := List.mem_filterMap.mp hop
    revert hop
    rw [cacheOp?.eq_def]
    split
    · rintro ⟨⟩
      rfl
    · rintro ⟨⟩
      rfl
    · rintro ⟨⟩
  have haccounted := (LRUCache.Accounted.create capacity ttl).run henabled hclear hsize
  have hfits : ((LRUCache.create capacity ttl).run ccfg (cacheOps run)).cache.size ≤
      ((LRUCache.create capacity ttl).run ccfg (cacheOps run)).capacity :=
    LRUCache.size_run_le henabled (Nat.zero_le _)
  rw [((LRUCache.create capacity ttl).run_params henabled (cacheOps run)).1] at hfits
  rw [← hrun] at haccounted hfits
  have hentry : ∀ item, item ∈ c.cache.items → item.2.entrySize = item.2.response.length ∧
      (item.2.response.length : ℤ) ≤ ccfg.maxObjectSize := by
    intro item hitem
    rw [hrun] at hitem
    obtain ⟨before, value, now, later, hops, hok, hvalue, -⟩ :=
      LRUCache.lastPut_of_get?_run henabled capacity ttl (OrderedDict.get?_of_mem_items hitem)
    have hput : .put item.1 value now ∈ cacheOps run := by
      rw [hops]
      exact List.mem_append_right _ List.mem_cons_self
    have hsized := h.sized hput
    rw [CacheOp.Accepted, Entry.entrySize, hsized] at hok
    rw [hvalue]
    exact ⟨congrArg (fun size : Option ℤ => size.getD 0) hsized, hok⟩
  have hbytes : (c.cache.items.map fun item => item.2.entrySize) =
      c.cache.items.map fun item => (item.2.response.length : ℤ) :=
    List.map_congr_left fun item hitem => (hentry item hitem).1
  refine ⟨fun item hitem => (hentry item hitem).2, haccounted.entries, hfits, ?_, ?_, ?_, ?_⟩
  · rw [haccounted.bytes, LRUCache.totalBytes, hbytes]
  · rw [haccounted.bytes, LRUCache.totalBytes, hbytes]
    have hle := List.sum_le_card_nsmul
      (c.cache.items.map fun item => (item.2.response.length : ℤ)) ccfg.maxObjectSize
      fun size hmem => ?_
    · rwa [List.length_map, nsmul_eq_mul] at hle
    · obtain ⟨item, hitem, rfl⟩ := List.mem_map.mp hmem
      exact (hentry item hitem).2
  · rw [hhits]
    exact Nat.zero_add _
  · rw [hmisses]
    exact Nat.zero_add _

theorem cache_panel_is_true_twoReaders :
    reached .cached (twoReaders.map fun e => e.2.2) = 1 ∧
      ∃ c, cacheAlong ⟨true, 1000⟩ (LRUCache.create 1 300) twoReaders = some c ∧
        c.stats.hits = reached .cached (twoReaders.map fun e => e.2.2) ∧
        c.stats.currentBytes ≤ c.cache.items.length * 1000 := by
  obtain ⟨c, hc⟩ := servedRun_twoReaders.cache
  obtain ⟨-, -, -, -, hbytes, hhits, -⟩ := cache_panel_is_true rfl servedRun_twoReaders hc
  exact ⟨by decide +kernel, c, hc, hhits, hbytes⟩

end Proxy
end NetworkProxy
