import NetworkProxy.Blocklist
import NetworkProxy.ClearedRequests
import NetworkProxy.PasswordHash
import NetworkProxy.RateLimiterConcurrency
import NetworkProxy.RequestAccounting

/-!
# The proxy as a whole

Connections handled by interleaved executions of `handle_client`, with the parts they
share: the rate limiter with its steps under locks, the blocklist, which can be reloaded at
any time, the password verification and the cache.

* `System.step`: what a step does to the shared parts; a call of a connection is answered
  by them.
* `served_requests_are_cleared`: what holds whenever an origin or the cache is used.
* `served_within_quota`: how many connections of one client get that far.
-/

namespace NetworkProxy

open Py

/-! ## Whose call took a token -/

namespace RateLimit
namespace Shared

/-- The verdict a step gives to its thread, with the address: the result of `consume`. -/
def verdict? (s : Shared) (a : Tick) : Option (Text × Bool) :=
  match s.threads a.thread with
  | .holding ip ref => some (ip, ((s.heap ref).consume a.now).1)
  | _ => none

/-- The token taken in a step, with the thread that took it. -/
def taken (s : Shared) (a : Tick) : List (ℕ × Text × ℚ) :=
  match s.verdict? a with
  | some (ip, true) => [(a.thread, ip, a.now)]
  | _ => []

/-- The tokens taken in a schedule, newest first. -/
def tokens (s : Shared) : List Tick → List (ℕ × Text × ℚ)
  | [] => []
  | a :: schedule => tokens (s.step a) schedule ++ s.taken a

theorem tokens_append (s : Shared) (schedule schedule' : List Tick) :
    s.tokens (schedule ++ schedule') = (s.run schedule).tokens schedule' ++ s.tokens schedule := by
  induction schedule generalizing s with
  | nil => exact (List.append_nil _).symm
  | cons a schedule ih =>
      rw [List.cons_append, tokens, ih, tokens, List.append_assoc]
      rfl

theorem grants_step (s : Shared) (a : Tick) :
    (s.step a).grants = (s.taken a).map Prod.snd ++ s.grants := by
  rw [taken, verdict?, step]
  cases s.threads a.thread with
  | idle =>
      simp only [lookup]
      split <;> rfl
  | holding ip ref =>
      simp only [consume]
      cases ((s.heap ref).consume a.now).1 with
      | true => rfl
      | false => rfl
  | consumed =>
      simp only [pruneTest]
      split <;> rfl
  | pruning now => rfl

/-- The grants of a run are the tokens that were taken. -/
theorem grants_run (s : Shared) (schedule : List Tick) :
    (s.run schedule).grants = (s.tokens schedule).map Prod.snd ++ s.grants := by
  induction schedule generalizing s with
  | nil => rfl
  | cons a schedule ih =>
      have hrest : (s.run (a :: schedule)).grants = ((s.step a).run schedule).grants := rfl
      rw [hrest, ih, grants_step, tokens, List.map_append, List.append_assoc]

end Shared
end RateLimit

namespace Proxy

open Http RateLimit Auth
open Cache (LRUCache CacheConfig)

/-! ## Runs of the system -/

/-- What the proxy is started with. -/
structure Setup where
  cfg : HandlerConfig
  cacheCfg : CacheConfig
  cacheCapacity : ℕ
  ttl : ℚ
  kdf : Pbkdf2
  /-- Capacity and refill rate of the rate limiter. -/
  capacity : ℚ
  refillRate : ℚ
  /-- The clock when the modules are loaded. -/
  started : ℚ
  /-- The blocklist file when the modules are loaded. -/
  blocklistFile : Option Text

/-- A step: an event of a connection, a step of its call of `is_allowed`, or a reload of
the blocklist from the file as it is then. -/
inductive SysStep
  | event (connection : ℕ) (event : Event)
  | tick (a : Tick)
  | reload (file : Option Text)

namespace SysStep

def event? : SysStep → Option (ℕ × Event)
  | .event connection e => some (connection, e)
  | _ => none

def tick? : SysStep → Option Tick
  | .tick a => some a
  | _ => none

def file? : SysStep → Option (Option Text)
  | .reload file => some file
  | _ => none

end SysStep

/-- The shared parts. -/
structure System where
  limiter : Shared
  /-- What `consume` returned to a connection whose `is_allowed` has not returned yet. -/
  verdicts : ℕ → Option (Text × Bool)
  blocklist : Blocklist
  cache : LRUCache CacheKey

namespace System

def start (S : Setup) : System where
  limiter := Shared.create S.capacity S.refillRate S.started
  verdicts := fun _ => none
  blocklist := parseBlocklist S.cfg.rt S.blocklistFile
  cache := LRUCache.create S.cacheCapacity S.ttl

/-- An event of a connection; `none` when the shared parts would answer otherwise. -/
def answer (S : Setup) (now : ℚ) (s : System) (i : ℕ) : Event → Option System
  | .called (.isAllowed ip) allowed =>
      if s.verdicts i = some (ip, allowed) ∧ s.limiter.threads i = .idle then
        some { s with verdicts := Function.update s.verdicts i none }
      else none
  | .called (.verifyPassword plain stored) ok =>
      if verifyPassword S.cfg.rt S.kdf plain stored = .ok ok then some s else none
  | .called (.isBlocked host) blocked =>
      if blocked = isBlocked S.cfg.rt s.blocklist (some host) then some s else none
  | event => (cacheStep S.cacheCfg now s.cache event).map fun cache => { s with cache := cache }

/-- A step of the limiter. -/
def tick (s : System) (a : Tick) : System :=
  { s with
    limiter := s.limiter.step a
    verdicts :=
      match s.limiter.verdict? a with
      | some verdict => Function.update s.verdicts a.thread (some verdict)
      | none => s.verdicts }

/-- A step, at a reading of the clock. -/
def step (S : Setup) (s : System) : ℚ × SysStep → Option System
  | (now, .event i event) => s.answer S now i event
  | (_, .tick a) => some (s.tick a)
  | (_, .reload file) => some { s with blocklist := parseBlocklist S.cfg.rt file }

/-- The shared parts after a run. -/
def after (S : Setup) (run : List (ℚ × SysStep)) : Option System :=
  run.foldlM (step S) (start S)

end System

/-- The events of the connections. -/
def eventsIn (run : List (ℚ × SysStep)) : List (ℕ × Event) :=
  run.filterMap fun e => e.2.event?

/-- The steps of the limiter. -/
def ticksIn (run : List (ℚ × SysStep)) : List Tick := run.filterMap fun e => e.2.tick?

/-- The history of a connection, newest event first. -/
def pastOf (i : ℕ) (run : List (ℚ × SysStep)) : Trace := (eventsOf i (eventsIn run)).reverse

/-- The blocklist file that was loaded last. -/
def fileInForce (S : Setup) (run : List (ℚ × SysStep)) : Option Text :=
  (run.filterMap fun e => e.2.file?).getLast?.getD S.blocklistFile

/-- A run of the system. -/
structure SystemRun (S : Setup) (addr : ℕ → ClientAddr) (run : List (ℚ × SysStep)) : Prop where
  handlers : HandlerRun S.cfg addr (eventsIn run)
  answers : ∃ s, System.after S run = some s
  clock : (S.started :: run.map Prod.fst).IsChain (· ≤ ·)
  /-- A step of the limiter reads the clock then. -/
  ticks : ∀ τ a, (τ, .tick a) ∈ run → a.now = τ
  /-- Only a connection that was accepted calls the limiter. -/
  inside : ∀ pre τ a post, run = pre ++ (τ, .tick a) :: post →
    ∃ event, (a.thread, event) ∈ eventsIn pre

/-! ## What the shared parts have answered -/

section Run

variable {S : Setup} {addr : ℕ → ClientAddr} {run : List (ℚ × SysStep)}

theorem after_append {pre post : List (ℚ × SysStep)} {s : System}
    (h : System.after S (pre ++ post) = some s) :
    ∃ s', System.after S pre = some s' ∧ post.foldlM (System.step S) s' = some s := by
  rw [System.after, List.foldlM_append] at h
  exact Option.bind_eq_some_iff.mp h

theorem after_concat {pre : List (ℚ × SysStep)} {e : ℚ × SysStep} {s : System}
    (h : System.after S (pre ++ [e]) = some s) :
    ∃ s', System.after S pre = some s' ∧ s'.step S e = some s := by
  obtain ⟨s', hpre, hlast⟩ := after_append h
  rw [List.foldlM_cons] at hlast
  obtain ⟨s₁, hstep, hnil⟩ := Option.bind_eq_some_iff.mp hlast
  obtain rfl := Option.some.inj hnil
  exact ⟨s', hpre, hstep⟩

/-- A call of a run was answered by the shared parts as they were then. -/
theorem answer_of_mem {s : System} (h : System.after S run = some s)
    {pre post : List (ℚ × SysStep)} {τ : ℚ} {i : ℕ} {event : Event}
    (hat : run = pre ++ (τ, .event i event) :: post) :
    ∃ s₁ s₂, System.after S pre = some s₁ ∧ s₁.answer S τ i event = some s₂ := by
  rw [hat] at h
  obtain ⟨s₁, hpre, hpost⟩ := after_append h
  rw [List.foldlM_cons] at hpost
  obtain ⟨s₂, hstep, -⟩ := Option.bind_eq_some_iff.mp hpost
  exact ⟨s₁, s₂, hpre, hstep⟩

/-- What an answer leaves as it is. -/
theorem answer_shared {now : ℚ} {s s' : System} {i : ℕ} {event : Event}
    (h : s.answer S now i event = some s') :
    s'.limiter = s.limiter ∧ s'.blocklist = s.blocklist ∧
      ∀ j verdict, s'.verdicts j = some verdict → s.verdicts j = some verdict := by
  unfold System.answer at h
  split at h
  · split at h
    · obtain rfl := Option.some.inj h
      refine ⟨rfl, rfl, fun j verdict hj => ?_⟩
      dsimp only at hj
      by_cases hji : j = i
      · rw [hji, Function.update_self] at hj
        cases hj
      · rwa [Function.update_of_ne hji] at hj
    · cases h
  · split at h
    · obtain rfl := Option.some.inj h
      exact ⟨rfl, rfl, fun _ _ hj => hj⟩
    · cases h
  · split at h
    · obtain rfl := Option.some.inj h
      exact ⟨rfl, rfl, fun _ _ hj => hj⟩
    · cases h
  · obtain ⟨cache, -, rfl⟩ := Option.map_eq_some_iff.mp h
    exact ⟨rfl, rfl, fun _ _ hj => hj⟩

/-- What a run says about the shared parts: the limiter made its steps, the blocklist is the
one that was loaded last, and a positive verdict stands for a token of its connection. -/
structure Accounts (S : Setup) (run : List (ℚ × SysStep)) (s : System) : Prop where
  limiter : s.limiter =
    (Shared.create S.capacity S.refillRate S.started).run (ticksIn run)
  blocklist : s.blocklist = parseBlocklist S.cfg.rt (fileInForce S run)
  verdicts : ∀ i ip, s.verdicts i = some (ip, true) → ∃ a τ, (τ, .tick a) ∈ run ∧
    a.thread = i ∧
    (i, ip, a.now) ∈ (Shared.create S.capacity S.refillRate S.started).tokens (ticksIn run)

theorem ticksIn_append (pre post : List (ℚ × SysStep)) :
    ticksIn (pre ++ post) = ticksIn pre ++ ticksIn post := List.filterMap_append

theorem Accounts.event {pre : List (ℚ × SysStep)} {s s' : System} {τ : ℚ} {i : ℕ}
    {event : Event} (h : Accounts S pre s) (hstep : s.answer S τ i event = some s') :
    Accounts S (pre ++ [(τ, .event i event)]) s' := by
  obtain ⟨hlimiter, hblocklist, hverdicts⟩ := answer_shared hstep
  have hticks : ticksIn (pre ++ [(τ, .event i event)]) = ticksIn pre := by
    rw [ticksIn_append]
    exact List.append_nil _
  refine ⟨?_, ?_, fun j ip hj => ?_⟩
  · rw [hticks, hlimiter, h.limiter]
  · rw [hblocklist, h.blocklist, fileInForce, fileInForce, List.filterMap_append]
    simp [SysStep.file?]
  · obtain ⟨a, τ', hmem, hthread, htoken⟩ := h.verdicts j ip (hverdicts j _ hj)
    rw [hticks]
    exact ⟨a, τ', List.mem_append_left _ hmem, hthread, htoken⟩

theorem Accounts.tick {pre : List (ℚ × SysStep)} {s : System} (h : Accounts S pre s) (τ : ℚ)
    (a : Tick) : Accounts S (pre ++ [(τ, .tick a)]) (s.tick a) := by
  have hticks : ticksIn (pre ++ [(τ, .tick a)]) = ticksIn pre ++ [a] := ticksIn_append _ _
  refine ⟨?_, ?_, fun i ip hi => ?_⟩
  · show s.limiter.step a = _
    rw [hticks, Shared.run, List.foldl_append, h.limiter]
    rfl
  · show s.blocklist = _
    rw [h.blocklist, fileInForce, fileInForce, List.filterMap_append]
    simp [SysStep.file?]
  · rw [hticks, Shared.tokens_append, ← h.limiter]
    have hold (hi : s.verdicts i = some (ip, true)) : ∃ b τ',
        (τ', .tick b) ∈ pre ++ [(τ, .tick a)] ∧ b.thread = i ∧ (i, ip, b.now) ∈
          s.limiter.tokens [a] ++ (Shared.create S.capacity S.refillRate S.started).tokens
            (ticksIn pre) := by
      obtain ⟨b, τ', hmem, hthread, htoken⟩ := h.verdicts i ip hi
      exact ⟨b, τ', List.mem_append_left _ hmem, hthread, List.mem_append_right _ htoken⟩
    cases hverdict : s.limiter.verdict? a with
    | none =>
        simp only [System.tick, hverdict] at hi
        exact hold hi
    | some verdict =>
        simp only [System.tick, hverdict] at hi
        by_cases hia : i = a.thread
        · rw [hia, Function.update_self] at hi
          obtain rfl := Option.some.inj hi
          refine ⟨a, τ, by simp, hia.symm, List.mem_append_left _ ?_⟩
          simp [Shared.tokens, Shared.taken, hverdict, hia]
        · rw [Function.update_of_ne hia] at hi
          exact hold hi

theorem Accounts.reload {pre : List (ℚ × SysStep)} {s : System} (h : Accounts S pre s) (τ : ℚ)
    (file : Option Text) : Accounts S (pre ++ [(τ, .reload file)])
      { s with blocklist := parseBlocklist S.cfg.rt file } := by
  have hticks : ticksIn (pre ++ [(τ, .reload file)]) = ticksIn pre := by
    rw [ticksIn_append]
    exact List.append_nil _
  refine ⟨?_, ?_, fun i ip hi => ?_⟩
  · rw [hticks]
    exact h.limiter
  · rw [fileInForce, List.filterMap_append]
    simp [SysStep.file?]
  · obtain ⟨a, τ', hmem, hthread, htoken⟩ := h.verdicts i ip hi
    rw [hticks]
    exact ⟨a, τ', List.mem_append_left _ hmem, hthread, htoken⟩

/-- A run of steps. -/
theorem accounts_after {s : System} (h : System.after S run = some s) : Accounts S run s := by
  induction run using List.reverseRecOn generalizing s with
  | nil =>
      obtain rfl := Option.some.inj h
      exact ⟨rfl, rfl, by rintro i ip ⟨⟩⟩
  | append_singleton pre e ih =>
      obtain ⟨s', hpre, hstep⟩ := after_concat h
      obtain ⟨τ, step⟩ := e
      cases step with
      | event i event => exact (ih hpre).event hstep
      | tick a =>
          obtain rfl := Option.some.inj hstep
          exact (ih hpre).tick τ a
      | reload file =>
          obtain rfl := Option.some.inj hstep
          exact (ih hpre).reload τ file

theorem eventsIn_split (pre post : List (ℚ × SysStep)) (τ : ℚ) (i : ℕ) (event : Event) :
    eventsIn (pre ++ (τ, .event i event) :: post) =
      eventsIn pre ++ (i, event) :: eventsIn post := by
  rw [eventsIn, List.filterMap_append]
  rfl

theorem mem_run_of_mem_eventsIn {i : ℕ} {event : Event} (h : (i, event) ∈ eventsIn run) :
    ∃ τ pre post, run = pre ++ (τ, .event i event) :: post := by
  obtain ⟨⟨τ, step⟩, hmem, hstep⟩ := List.mem_filterMap.mp h
  have hevent : step = .event i event := by
    cases step <;> simp_all [SysStep.event?]
  rw [hevent] at hmem
  obtain ⟨pre, post, hat⟩ := List.append_of_mem hmem
  exact ⟨τ, pre, post, hat⟩

theorem mem_run_of_mem_pastOf {i : ℕ} {event : Event} (h : event ∈ pastOf i run) :
    ∃ τ pre post, run = pre ++ (τ, .event i event) :: post :=
  mem_run_of_mem_eventsIn (mem_of_mem_eventsOf (List.mem_reverse.mp h))

/-- What must have happened before a call of a run. -/
theorem SystemRun.clearedOp (hon : S.cfg.rateLimitEnabled = true) (h : SystemRun S addr run)
    {pre post : List (ℚ × SysStep)} {τ : ℚ} {i : ℕ} {event : Event}
    (hat : run = pre ++ (τ, .event i event) :: post) {op : Op} (hop : event.op? = some op) :
    ClearedOp S.cfg (addr i) (pastOf i pre) op := by
  obtain ⟨rounds, o, hexec⟩ := h.handlers i
  have hsafe : Safe (ClearedOp S.cfg (addr i)) [] (handleClient S.cfg (addr i) rounds)
      (fun _ _ => True) := cleared_handleClient hon rounds
  have hallowed := hsafe.allowedTrace hexec
  rw [hat, eventsIn_split, eventsOf_append, eventsOf_cons_self] at hallowed
  have hcleared := hallowed.at hop
  rwa [List.append_nil] at hcleared

/-- Earlier steps read the clock earlier. -/
theorem SystemRun.earlier (h : SystemRun S addr run) {pre post : List (ℚ × SysStep)}
    {e e' : ℚ × SysStep} (hat : run = pre ++ e :: post) (hmem : e' ∈ pre) : e'.1 ≤ e.1 := by
  have hclock := h.clock
  rw [List.isChain_iff_pairwise, hat, List.map_append, List.map_cons] at hclock
  have hpairs := (List.pairwise_append.mp (List.pairwise_cons.mp hclock).2).2.2
  exact hpairs _ (List.mem_map_of_mem hmem) _ List.mem_cons_self

/-- A connection that `is_allowed` let pass took a token, after it was accepted. -/
theorem SystemRun.token_of_passed (h : SystemRun S addr run) {pre post : List (ℚ × SysStep)}
    {e : ℚ × SysStep} (hat : run = pre ++ e :: post) {i : ℕ} {ip : Text}
    (hpassed : .called (.isAllowed ip) true ∈ pastOf i pre) :
    ∃ now, (i, ip, now) ∈
        (Shared.create S.capacity S.refillRate S.started).tokens (ticksIn pre) ∧
      now ≤ e.1 ∧ ∃ τ event, (τ, .event i event) ∈ run ∧ τ ≤ now := by
  obtain ⟨s, hs⟩ := h.answers
  obtain ⟨τ, before, rest, hpre⟩ := mem_run_of_mem_pastOf hpassed
  have hcall : run = before ++ (τ, .event i (.called (.isAllowed ip) true)) ::
      (rest ++ e :: post) := by
    rw [hat, hpre, List.append_assoc, List.cons_append]
  obtain ⟨s₁, s₂, hbefore, hanswer⟩ := answer_of_mem hs hcall
  have hverdict : s₁.verdicts i = some (ip, true) := by
    unfold System.answer at hanswer
    split at hanswer
    · rename_i heq
      cases heq
      split at hanswer
      · rename_i hboth
        exact hboth.1
      · cases hanswer
    · rename_i heq
      cases heq
    · rename_i heq
      cases heq
    · rename_i hother _ _
      exact absurd rfl (hother ip true)
  obtain ⟨a, τ', hmem, hthread, htoken⟩ := (accounts_after hbefore).verdicts i ip hverdict
  have hnow : a.now = τ' := by
    refine h.ticks τ' a ?_
    rw [hcall]
    exact List.mem_append_left _ hmem
  have hmem' : (τ', .tick a) ∈ pre := by
    rw [hpre]
    exact List.mem_append_left _ hmem
  obtain ⟨earlier, later, hsplit⟩ := List.append_of_mem hmem
  have htick : run = earlier ++ (τ', .tick a) :: (later ++ (τ, .event i
      (.called (.isAllowed ip) true)) :: (rest ++ e :: post)) := by
    rw [hcall, hsplit, List.append_assoc, List.cons_append]
  obtain ⟨event, hevent⟩ := h.inside _ _ _ _ htick
  obtain ⟨τ₀, pre₀, post₀, hsplit₀⟩ := mem_run_of_mem_eventsIn hevent
  have hmem₀ : (τ₀, .event a.thread event) ∈ earlier := by
    rw [hsplit₀]
    simp
  refine ⟨a.now, ?_, ?_, τ₀, event, ?_, ?_⟩
  · rw [hpre, ticksIn_append, Shared.tokens_append]
    exact List.mem_append_right _ htoken
  · rw [hnow]
    exact h.earlier hat hmem'
  · rw [htick, ← hthread]
    exact List.mem_append_left _ hmem₀
  · rw [hnow]
    exact h.earlier htick hmem₀

end Run

/-- A call that serves some request. -/
def Op.Serving (op : Op) : Prop := ∃ p, op.Serves p

theorem serving_connect (host : Text) (port : ℤ) : (Op.connect host port).Serving :=
  ⟨⟨[], host, port, none, .empty, none, [], [], [], none⟩, rfl, rfl⟩

theorem ClearedOp.of_serving {cfg : HandlerConfig} {addr : ClientAddr} {past : Trace} {op : Op}
    (h : ClearedOp cfg addr past op) (hserving : op.Serving) :
    ∃ p, Cleared cfg addr past p ∧ op.Serves p := by
  obtain ⟨p, hserves⟩ := hserving
  cases op <;> first | exact h | exact hserves.elim

/-- **Complete mediation.**  With the limiter enabled, in every interleaving of connections, of
steps of the rate limiter and of reloads of the blocklist, with any answers of the network and any
exceptions: when an origin is connected or written to, or the cache asked or filled, this is done
for the request that the first bytes of the connection hold, with its own destination; that request
carries the name and password of a registered user, which the stored credential verifies; its host
was not blocked by the file in force when the filter was asked; and the client's bucket gave a
token to this very connection. -/
theorem served_requests_are_cleared {S : Setup} {addr : ℕ → ClientAddr}
    {run : List (ℚ × SysStep)} (hon : S.cfg.rateLimitEnabled = true) (h : SystemRun S addr run)
    {pre post : List (ℚ × SysStep)} {τ : ℚ} {i : ℕ} {event : Event}
    (hat : run = pre ++ (τ, .event i event) :: post) {op : Op} (hop : event.op? = some op)
    (hserving : op.Serving) :
    ∃ p, op.Serves p ∧ Asks S.cfg.rt (pastOf i pre) p ∧
      (∃ username password stored,
        basicCredentials S.cfg.rt p.headers = some (username, password) ∧
        S.cfg.users.get? username = some stored ∧
        verifyPassword S.cfg.rt S.kdf password stored = .ok true) ∧
      (∃ before after τ',
        pre = before ++ (τ', .event i (.called (.isBlocked p.host) false)) :: after ∧
        isBlocked S.cfg.rt (parseBlocklist S.cfg.rt (fileInForce S before)) (some p.host) =
          false) ∧
      ∃ now, (i, (addr i).ip, now) ∈
        (Shared.create S.capacity S.refillRate S.started).tokens (ticksIn pre) := by
  obtain ⟨s, hs⟩ := h.answers
  obtain ⟨p, hcleared, hserves⟩ := (h.clearedOp hon hat hop).of_serving hserving
  obtain ⟨username, password, stored, hcredentials, hstored, hverified⟩ := hcleared.loggedIn
  have hanswered {answered : Event} (hmem : answered ∈ pastOf i pre) :
      ∃ before after τ' s₁ s₂, pre = before ++ (τ', .event i answered) :: after ∧
        System.after S before = some s₁ ∧ s₁.answer S τ' i answered = some s₂ := by
    obtain ⟨τ', before, after, hpre⟩ := mem_run_of_mem_pastOf hmem
    have hcall :
        run = before ++ (τ', .event i answered) :: (after ++ (τ, .event i event) :: post) := by
      rw [hat, hpre, List.append_assoc, List.cons_append]
    obtain ⟨s₁, s₂, hbefore, hanswer⟩ := answer_of_mem hs hcall
    exact ⟨before, after, τ', s₁, s₂, hpre, hbefore, hanswer⟩
  refine ⟨p, hserves, hcleared.asks, ⟨username, password, stored, hcredentials, hstored, ?_⟩,
    ?_, ?_⟩
  · obtain ⟨_, _, τ', s₁, s₂, -, -, hanswer⟩ := hanswered hverified
    by_contra hother
    have hnone : s₁.answer S τ' i (.called (.verifyPassword password stored) true) = none :=
      if_neg hother
    rw [hnone] at hanswer
    cases hanswer
  · obtain ⟨before, after, τ', s₁, s₂, hpre, hbefore, hanswer⟩ := hanswered hcleared.notBlocked
    refine ⟨before, after, τ', hpre, ?_⟩
    rw [← (accounts_after hbefore).blocklist]
    by_contra hother
    have hnone : s₁.answer S τ' i (.called (.isBlocked p.host) false) = none :=
      if_neg fun heq => hother heq.symm
    rw [hnone] at hanswer
    cases hanswer
  · obtain ⟨now, htoken, -⟩ := h.token_of_passed hat hcleared.passed
    exact ⟨now, htoken⟩

/-- The connection was accepted no earlier than `s`, and its request served by `e`. -/
def ServedWithin (run : List (ℚ × SysStep)) (s e : ℚ) (i : ℕ) : Prop :=
  (∀ τ event, (τ, .event i event) ∈ run → s ≤ τ) ∧
    ∃ τ event op, (τ, .event i event) ∈ run ∧ τ ≤ e ∧ event.op? = some op ∧ op.Serving

theorem grantsBetween_grantsOf (s : Shared) (schedule : List Tick) (hs : s.grants = [])
    (ip : Text) (b e : ℚ) :
    TokenLaw.grantsBetween b e ((s.run schedule).grantsOf ip) =
      (s.tokens schedule).countP (fun g => g.2.1 = ip ∧ b ≤ g.2.2 ∧ g.2.2 ≤ e) := by
  rw [TokenLaw.grantsBetween, Shared.grantsOf, Shared.grants_run, hs, List.append_nil,
    List.countP_map, List.countP_filter, List.countP_map]
  refine List.countP_congr fun g _ => ?_
  simp [and_comm]

theorem sublist_ticksIn {run : List (ℚ × SysStep)}
    (h : ∀ τ a, (τ, .tick a) ∈ run → a.now = τ) :
    ((ticksIn run).map Tick.now).Sublist (run.map Prod.fst) := by
  induction run with
  | nil => exact List.Sublist.refl _
  | cons e run ih =>
      have hrest := ih fun τ a hmem => h τ a (List.mem_cons_of_mem _ hmem)
      obtain ⟨τ, step⟩ := e
      cases step with
      | event i event => exact hrest.cons _
      | reload file => exact hrest.cons _
      | tick a =>
          obtain rfl : a.now = τ := h τ a List.mem_cons_self
          exact hrest.cons_cons _

theorem SystemRun.clocked {S : Setup} {addr : ℕ → ClientAddr} {run : List (ℚ × SysStep)}
    (h : SystemRun S addr run) : Clocked S.started (ticksIn run) := by
  rw [Clocked, List.isChain_iff_pairwise]
  have hclock := h.clock
  rw [List.isChain_iff_pairwise] at hclock
  exact hclock.sublist ((sublist_ticksIn h.ticks).cons_cons _)

/-- One registered user and the shipped limits. -/
def quietSetup : Setup where
  cfg := oneUser
  cacheCfg := ⟨true, 1000⟩
  cacheCapacity := 1
  ttl := 300
  kdf := copyingKdf
  capacity := 20
  refillRate := 2
  started := 0
  blocklistFile := none

/-- The steps of the limiter in the calls of two connections of a client: thread 1 prunes while
thread 0 holds the bucket. -/
def twoCalls : List Tick :=
  [⟨1, 60, txt "10.0.0.1"⟩, ⟨0, 60, txt "10.0.0.1"⟩, ⟨1, 60, txt "10.0.0.1"⟩,
    ⟨1, 60, txt "10.0.0.1"⟩, ⟨1, 60, txt "10.0.0.1"⟩, ⟨0, 60, txt "10.0.0.1"⟩,
    ⟨0, 60, txt "10.0.0.1"⟩]

/-- The peers of the two connections. -/
def onePeer (i : ℕ) : ClientAddr := ⟨txt "10.0.0.1", 5000 + i⟩

/-- The trace of `connectRequest` on such a connection. -/
def peerTrace (i : ℕ) : Trace :=
  ((handleClient oneUser (onePeer i) 1).run (obliging connectRequest)).1

/-- Steps of a connection, all at one time. -/
def stepsOf (i : ℕ) (t : Trace) : List (ℚ × SysStep) := t.map fun event => (60, .event i event)

/-- Both connections up to the call of the limiter. -/
def openings : List (ℚ × SysStep) :=
  stepsOf 0 ((peerTrace 0).take 4) ++ stepsOf 1 ((peerTrace 1).take 4)

/-- Two `CONNECT` requests, with the steps of the limiter before it answers. -/
def connectRun : List (ℚ × SysStep) :=
  openings ++ (twoCalls.map (fun a => (60, .tick a)) ++
    (stepsOf 0 ((peerTrace 0).drop 4) ++ stepsOf 1 ((peerTrace 1).drop 4)))

theorem eventsOf_connectRun (i : ℕ) :
    eventsOf i (eventsIn connectRun) = if i = 0 ∨ i = 1 then peerTrace i else [] := by
  have hevents : eventsIn connectRun =
      (((peerTrace 0).take 4).map (fun event => (0, event)) ++
        ((peerTrace 1).take 4).map fun event => (1, event)) ++
      (((peerTrace 0).drop 4).map (fun event => (0, event)) ++
        ((peerTrace 1).drop 4).map fun event => (1, event)) := rfl
  rw [hevents, eventsOf_append, eventsOf_append, eventsOf_append, eventsOf_map, eventsOf_map,
    eventsOf_map, eventsOf_map]
  rcases i with _ | _ | i
  · simp
  · simp
  · simp

theorem ticksIn_connectRun : ticksIn connectRun = twoCalls := rfl

theorem time_connectRun {e : ℚ × SysStep} (he : e ∈ connectRun) : e.1 = 60 := by
  simp only [connectRun, openings, stepsOf, List.mem_append, List.mem_map] at he
  rcases he with (⟨_, _, rfl⟩ | ⟨_, _, rfl⟩) | ⟨_, _, rfl⟩ | ⟨_, _, rfl⟩ | ⟨_, _, rfl⟩ <;> rfl

theorem not_tick_mem_openings (τ : ℚ) (a : Tick) : (τ, .tick a) ∉ openings := by
  intro hmem
  simp only [openings, stepsOf, List.mem_append, List.mem_map] at hmem
  rcases hmem with ⟨event, -, hstep⟩ | ⟨event, -, hstep⟩
  · cases hstep
  · cases hstep

theorem systemRun_connectRun : SystemRun quietSetup onePeer connectRun := by
  have htick : ∀ a ∈ twoCalls, (a.thread = 0 ∨ a.thread = 1) ∧ a.now = 60 := by
    simp [twoCalls]
  have hticks : ∀ τ a, (τ, .tick a) ∈ connectRun → a ∈ twoCalls := by
    intro τ a hmem
    rw [← ticksIn_connectRun]
    exact List.mem_filterMap.mpr ⟨_, hmem, rfl⟩
  refine ⟨fun i => ?_, ?_, ?_, fun τ a hmem => ?_, fun pre τ a post hat => ?_⟩
  · rw [eventsOf_connectRun]
    by_cases hi : i = 0 ∨ i = 1
    · rw [if_pos hi]
      rcases hi with rfl | rfl
      · exact ⟨1, _, exec_run (obliging connectRequest) (handleClient oneUser (onePeer 0) 1)⟩
      · exact ⟨1, _, exec_run (obliging connectRequest) (handleClient oneUser (onePeer 1) 1)⟩
    · rw [if_neg hi]
      exact ⟨0, .running, .running _⟩
  · have hanswered : (System.after quietSetup connectRun).isSome = true := by decide +kernel
    exact Option.isSome_iff_exists.mp hanswered
  · have hclock : connectRun.map Prod.fst = List.replicate connectRun.length 60 :=
      List.eq_replicate_iff.mpr ⟨List.length_map _, fun t ht => by
        obtain ⟨e, he, rfl⟩ := List.mem_map.mp ht
        exact time_connectRun he⟩
    rw [hclock, List.isChain_iff_pairwise, List.pairwise_cons]
    refine ⟨fun t ht => ?_, List.pairwise_replicate.mpr (Or.inr le_rfl)⟩
    rw [List.eq_of_mem_replicate ht]
    exact (by decide : (0 : ℚ) ≤ 60)
  · rw [(htick a (hticks τ a hmem)).2]
    exact (time_connectRun hmem).symm
  · have hmem : (τ, SysStep.tick a) ∈ connectRun := by
      rw [hat]
      exact List.mem_append_right _ List.mem_cons_self
    have hopened : openings <+: pre := by
      have hpre : pre <+: connectRun := hat ▸ List.prefix_append _ _
      have hopenings : openings <+: connectRun := List.prefix_append _ _
      by_cases hle : openings.length ≤ pre.length
      · exact List.prefix_of_prefix_length_le hopenings hpre hle
      · have htick : (pre ++ [(τ, SysStep.tick a)]) <+: openings := by
          refine List.prefix_of_prefix_length_le ?_ hopenings ?_
          · rw [hat]
            exact (List.prefix_append_right_inj pre).mpr (List.prefix_append [_] post)
          · rw [List.length_append, List.length_singleton]
            omega
        have hinside := htick.subset (List.mem_append_right pre List.mem_cons_self)
        exact absurd hinside (not_tick_mem_openings τ a)
    obtain ⟨rest, rfl⟩ := hopened
    have hheld : ∃ event, (a.thread, event) ∈ eventsIn openings := by
      rcases (htick a (hticks τ a hmem)).1 with hthread | hthread <;> rw [hthread]
      · exact ⟨_, List.mem_of_getElem? (i := 0) rfl⟩
      · exact ⟨_, List.mem_of_getElem? (i := 4) rfl⟩
    obtain ⟨event, hevent⟩ := hheld
    refine ⟨event, ?_⟩
    rw [eventsIn, List.filterMap_append]
    exact List.mem_append_left _ hevent

theorem served_requests_are_cleared_connect :
    ∃ p, (Op.connect (txt "a") 443).Serves p ∧
      Asks oneUser.rt (pastOf 0 (connectRun.take 23)) p ∧
      (∃ username password stored,
        basicCredentials oneUser.rt p.headers = some (username, password) ∧
        oneUser.users.get? username = some stored ∧
        verifyPassword oneUser.rt copyingKdf password stored = .ok true) ∧
      (∃ before after τ', connectRun.take 23 =
          before ++ (τ', .event 0 (.called (.isBlocked p.host) false)) :: after ∧
        isBlocked oneUser.rt (parseBlocklist oneUser.rt (fileInForce quietSetup before))
          (some p.host) = false) ∧
      ∃ now, (0, txt "10.0.0.1", now) ∈ (Shared.create 20 2 0).tokens
        (ticksIn (connectRun.take 23)) := by
  have hat : connectRun = connectRun.take 23 ++
      (60, .event 0 (.called (.connect (txt "a") 443) ())) :: connectRun.drop 24 := rfl
  exact served_requests_are_cleared rfl systemRun_connectRun hat rfl (serving_connect _ _)

/-- **The quota of a client.**  With the limiter enabled and a capacity of at most 600 refills, in
every interleaving in which no step of the limiter prunes a bucket that a call still holds: of the
connections of one client that are accepted and get as far as an origin or the cache within an
interval, there are at most as many as the bucket allows in it. -/
theorem served_within_quota {S : Setup} {addr : ℕ → ClientAddr} {run : List (ℚ × SysStep)}
    (hon : S.cfg.rateLimitEnabled = true) (hcap : 0 ≤ S.capacity)
    (hthr : S.capacity ≤ 600 * S.refillRate) (h : SystemRun S addr run)
    (hsafe : (Shared.create S.capacity S.refillRate S.started).SafeRun (ticksIn run))
    (ip : Text) {s e : ℚ} (hse : s ≤ e) (served : Finset ℕ)
    (hserved : ∀ i ∈ served, (addr i).ip = ip ∧ ServedWithin run s e i) :
    (served.card : ℚ) ≤ S.capacity + S.refillRate * (e - s) := by
  let start := Shared.create S.capacity S.refillRate S.started
  let inWindow (g : ℕ × Text × ℚ) : Bool := g.2.1 = ip ∧ s ≤ g.2.2 ∧ g.2.2 ≤ e
  have htoken : ∀ i ∈ served, i ∈ (((start.tokens (ticksIn run)).filter inWindow).map
      Prod.fst).toFinset := by
    intro i hi
    obtain ⟨hip, hfirst, τ, event, op, hmem, hle, hop, hserving⟩ := hserved i hi
    obtain ⟨pre, post, hat⟩ := List.append_of_mem hmem
    obtain ⟨p, hcleared, -⟩ := (h.clearedOp hon hat hop).of_serving hserving
    obtain ⟨now, htoken, hnow, τ₀, event₀, hmem₀, hle₀⟩ := h.token_of_passed hat hcleared.passed
    have hrun : (i, (addr i).ip, now) ∈ start.tokens (ticksIn run) := by
      rw [hat, ticksIn_append, Shared.tokens_append]
      exact List.mem_append_right _ htoken
    have hwindow : inWindow (i, (addr i).ip, now) = true :=
      decide_eq_true ⟨hip, (hfirst τ₀ event₀ hmem₀).trans hle₀, hnow.trans hle⟩
    rw [List.mem_toFinset, List.mem_map]
    exact ⟨_, List.mem_filter.mpr ⟨hrun, hwindow⟩, rfl⟩
  have hcard : served.card ≤ (start.tokens (ticksIn run)).countP inWindow := by
    have hle := (Finset.card_le_card htoken).trans (List.toFinset_card_le _)
    rwa [List.length_map, ← List.countP_eq_length_filter] at hle
  obtain ⟨now, hinv⟩ := (Shared.Inv.create S.started hcap hthr).run h.clocked hsafe
  have hbound := hinv.within ip s e hse
  obtain ⟨hparam, hrate⟩ := start.run_params (ticksIn run)
  rw [hparam, hrate, grantsBetween_grantsOf start (ticksIn run) rfl] at hbound
  calc (served.card : ℚ) ≤ ((start.tokens (ticksIn run)).countP inWindow : ℕ) :=
        Nat.cast_le.mpr hcard
    _ ≤ S.capacity + S.refillRate * (e - s) := hbound

theorem served_within_quota_connect :
    ServedWithin connectRun 60 60 0 ∧ ServedWithin connectRun 60 60 1 ∧
      ((({0, 1} : Finset ℕ).card : ℕ) : ℚ) ≤ 20 + 2 * (60 - 60) := by
  have hserved {i : ℕ} (hmem : (60, .event i (.called (.connect (txt "a") 443) ())) ∈ connectRun) :
      ServedWithin connectRun 60 60 i :=
    ⟨fun τ event hevent => (time_connectRun hevent).ge, 60, _, _, hmem, le_rfl, rfl,
      serving_connect _ _⟩
  have hfirst : ServedWithin connectRun 60 60 0 := hserved (List.mem_of_getElem? (i := 23) rfl)
  have hsecond : ServedWithin connectRun 60 60 1 := hserved (List.mem_of_getElem? (i := 36) rfl)
  have hsafe : (Shared.create 20 2 0).SafeRun (ticksIn connectRun) := by
    rw [ticksIn_connectRun,
      Shared.safeRun_iff_safeRunOf (fun _ (_ : _ ∉ [0, 1]) => rfl) (by decide)]
    decide +kernel
  have hcap : (20 : ℚ) ≤ 600 * 2 := by norm_num
  refine ⟨hfirst, hsecond, ?_⟩
  refine served_within_quota (S := quietSetup) rfl (by decide) hcap systemRun_connectRun hsafe
    (txt "10.0.0.1") le_rfl {0, 1} fun i hi => ?_
  rcases Finset.mem_insert.mp hi with rfl | hi
  · exact ⟨rfl, hfirst⟩
  · obtain rfl := Finset.mem_singleton.mp hi
    exact ⟨rfl, hsecond⟩

end Proxy
end NetworkProxy
