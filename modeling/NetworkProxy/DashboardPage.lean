import NetworkProxy.DashboardServer
import NetworkProxy.SlidingWindow

/-!
# The page of the dashboard

The listeners for the event stream: the feed of log entries, the counters, the chart of the
requests for each snapshot, and the panels.

* `shows_receive`: what one event does to a page that shows what was sent before it.
* `page_shows`: the page after any streams.
* `live_feed_is_log`: while the stream keeps up, the feed is the head of `/api/logs`.
-/

namespace NetworkProxy

namespace Proxy

open Py JsonText EventStream LogStream ResponseFormat Window

/-! ## The page -/

/-- A child node of the feed. -/
inductive FeedNode
  | space
  /-- The element that says that requests are waited for. -/
  | placeholder
  | entry (html : Text)
deriving DecidableEq

def FeedNode.isElement : FeedNode → Bool
  | .space => false
  | _ => true

/-- `feed.children`. -/
def children (nodes : List FeedNode) : List FeedNode := nodes.filter FeedNode.isElement

/-- The panel of the cache. -/
structure CachePanel where
  entries : Text
  hitRate : Text
  hits : Text
  misses : Text
  evictions : Text
  size : Text
deriving DecidableEq

/-- The state of the script, and what the page shows. -/
structure Page where
  prevTotal : ℤ
  rpsHistory : List ℤ
  /-- `rpsChart.data.datasets[0].data`. -/
  chart : List ℤ
  /-- `cnt-total` and so on. -/
  counters : Metric → Text
  cache : CachePanel
  /-- `rl-buckets` and `rl-info`. -/
  buckets : Text
  info : Text
  /-- `topHosts.innerHTML`, once it was assigned. -/
  hosts : Option Text
  feed : List FeedNode

/-- The feed as it is served. -/
def emptyFeed : List FeedNode := [.space, .placeholder, .space]

/-- The page as it is served. -/
def Page.start : Page where
  prevTotal := 0
  rpsHistory := List.replicate 60 0
  chart := List.replicate 60 0
  counters _ := txt "0"
  cache := ⟨txt "0", txt "0%", txt "0", txt "0", txt "0", txt "0 B"⟩
  buckets := txt "0"
  info := txt "—"
  hosts := none
  feed := emptyFeed

/-! ## Numbers of the script -/

/-- The double that `JSON.parse` gives for an integer. -/
def nearestDouble (n : ℤ) : ℤ :=
  let shift := n.natAbs.log2 - 52
  n.sign * (Doubles.halfEven n.natAbs (2 ^ shift) * 2 ^ shift : ℕ)

/-- `String(value)` for a number; the page shows no other values here. -/
def textOf : Json Number → Text
  | .number (.int n) => showInt (nearestDouble n)
  | .number n => showNumber n
  | _ => []

/-- `m.total || 0`, where `m.total` is an integer if it is there. -/
def totalOf (m : Json Number) : ℤ :=
  match member "total" m with
  | some (.number (.int n)) => nearestDouble n
  | _ => 0

/-- `(n / d).toFixed(1)`, where `d` is a power of two. -/
def toFixed1 (n : ℤ) (d : ℕ) : Text := showTenths ((20 * n + d) / (2 * d))

/-- `formatBytes`. -/
def formatBytes (bytes : ℤ) : Text :=
  if bytes < 1024 then showInt bytes ++ txt " B"
  else if bytes < 1048576 then toFixed1 bytes 1024 ++ txt " KB"
  else toFixed1 bytes 1048576 ++ txt " MB"

example : formatBytes 1536 = txt "1.5 KB" ∧ formatBytes 10485760 = txt "10.0 MB" := by decide

/-! ## The listeners -/

/-- `d[name] || {}`. -/
def part (name : String) (d : Json Number) : Json Number := (member name d).getD (.object [])

/-- The key of a metric. -/
def metricKey : Metric → String
  | .total => "total"
  | .allowed => "allowed"
  | .blocked => "blocked"
  | .cached => "cached"
  | .rateLimited => "rate_limited"
  | .errors => "errors"

/-- A text that is left alone when the value is not there. -/
def updated (old : Text) (value : Option (Json Number)) (render : Json Number → Text) : Text :=
  value.elim old render

/-- The size, where it is an integer. -/
def sizeText : Json Number → Text
  | .number (.int n) => formatBytes (nearestDouble n)
  | _ => []

def CachePanel.receive (panel : CachePanel) (c : Json Number) : CachePanel where
  entries := updated panel.entries (member "current_entries" c) textOf
  hitRate := updated panel.hitRate (member "hit_rate" c) fun v => textOf v ++ ['%']
  hits := updated panel.hits (member "hits" c) textOf
  misses := updated panel.misses (member "misses" c) textOf
  evictions := updated panel.evictions (member "evictions" c) textOf
  size := updated panel.size (member "current_bytes" c) sizeText

/-- `value` in a template that has it. -/
def shownPart (name : String) (d : Json Number) : Text :=
  ((member name d).map textOf).getD (txt "undefined")

/-- The listener of `metrics`. -/
def Page.onMetrics (p : Page) (d : Json Number) : Page :=
  let m := part "metrics" d
  let rl := part "rate_limiter" d
  let newTotal := totalOf m
  let rps := nearestDouble (newTotal - p.prevTotal)
  let history := (p.rpsHistory ++ [rps]).tail
  { p with
    prevTotal := newTotal
    rpsHistory := history
    chart := history
    counters := fun k => updated (p.counters k) (member (metricKey k) m) textOf
    cache := p.cache.receive (part "cache" d)
    buckets := updated p.buckets (member "active_buckets" rl) fun v => textOf v ++ txt " tracked"
    info := updated p.info (member "active_buckets" rl) fun _ =>
      shownPart "capacity" rl ++ txt " cap / " ++ shownPart "refill_rate" rl ++ txt "/s refill"
    hosts := (topHostsHtml (topHosts d)).or p.hosts }

/-- The placeholder is removed. -/
def clearPlaceholder (feed : List FeedNode) : List FeedNode :=
  if children feed = [.placeholder] then [] else feed

/-- Nodes are removed from the end, here the front, while there are more than `n` elements. -/
def dropExtra (n : ℕ) : List FeedNode → List FeedNode
  | [] => []
  | node :: nodes =>
      if n < (children (node :: nodes)).length then dropExtra n nodes else node :: nodes

/-- `while (feed.children.length > n) feed.removeChild(feed.lastChild)`. -/
def trimFeed (n : ℕ) (feed : List FeedNode) : List FeedNode :=
  (dropExtra n feed.reverse).reverse

/-- The listener of `log`. -/
def Page.onLog (localeTime : Text → Text) (p : Page) (entry : Json Number) : Page :=
  { p with
    feed := trimFeed 50 (.entry (logHtml (shown localeTime entry)) :: clearPlaceholder p.feed) }

/-- A message of the stream.  A listener that cannot parse the data does nothing. -/
def Page.receive (localeTime : Text → Text) (p : Page) (m : Message) : Page :=
  match loads numberFormat m.data with
  | none => p
  | some d =>
      if m.type = txt "metrics" then p.onMetrics d
      else if m.type = txt "log" then p.onLog localeTime d
      else p

/-- A stream, read up to its end.  The page keeps its state when it connects again. -/
def Page.readEvents (localeTime : Text → Text) (p : Page) (stream : Bytes) : Page :=
  ((readStream stream).getD []).foldl (Page.receive localeTime) p

/-! ## What the page is to show -/

/-- What the server sends for an event. -/
def sent : SseEvent LogEntry Readings → SseEvent LogEntry (Json Number)
  | .metrics r => .metrics r.snapshot
  | .log e => .log e

/-- The readings among the events. -/
def readingsOf : List (SseEvent LogEntry Readings) → List Readings
  | [] => []
  | .metrics r :: events => r :: readingsOf events
  | .log _ :: events => readingsOf events

/-- Counts below `2 ^ 53`, which the numbers of the script hold exactly. -/
structure Readings.Exact (r : Readings) : Prop where
  metrics : ∀ k, r.metrics k < 2 ^ 53
  hits : r.cache.hits < 2 ^ 53
  misses : r.cache.misses < 2 ^ 53
  evictions : r.cache.evictions < 2 ^ 53
  entries : r.cache.currentEntries.natAbs < 2 ^ 53
  bytes : r.cache.currentBytes.natAbs < 2 ^ 53

/-- The newest 50 entries, newest first; the placeholder before the first one. -/
def feedOf (localeTime : Text → Text) (entries : List LogEntry) : List FeedNode :=
  if entries = [] then emptyFeed
  else (entries.rtake 50).reverse.map fun e => .entry (logHtml (shown localeTime e.toDict))

/-- The total in the last snapshot. -/
def lastTotal (readings : List Readings) : ℤ :=
  readings.getLast?.elim 0 fun r => (r.metrics .total : ℤ)

/-- The last 61 totals; before the first snapshot the total is taken for 0. -/
def totalsWindow (readings : List Readings) : List ℤ :=
  (List.replicate 61 (0 : ℤ) ++ readings.map fun r => (r.metrics .total : ℤ)).rtake 61

def cachePanel (s : Cache.Snapshot) : CachePanel where
  entries := showInt s.currentEntries
  hitRate := showNumber (.tenths s.hitRateTenths) ++ ['%']
  hits := showInt s.hits
  misses := showInt s.misses
  evictions := showInt s.evictions
  size := formatBytes s.currentBytes

/-- The table of the hosts, if there are hosts. -/
def hostsTable (r : Readings) : Option Text :=
  topHostsHtml ((getTopHosts 10 r.hostCounters).map fun h => (h.1, (h.2 : ℤ)))

/-- The page shows what was sent. -/
structure Shows (localeTime : Text → Text) (seen : List (SseEvent LogEntry Readings))
    (p : Page) : Prop where
  feed : p.feed = feedOf localeTime (logEntries seen)
  /-- Each bar is the growth of the total from one snapshot to the next. -/
  history : p.rpsHistory = gaps (totalsWindow (readingsOf seen))
  chart : p.chart = p.rpsHistory
  prevTotal : p.prevTotal = lastTotal (readingsOf seen)
  counters : ∀ k, p.counters k =
    (readingsOf seen).getLast?.elim (txt "0") fun r => showInt (r.metrics k)
  cache : p.cache = (readingsOf seen).getLast?.elim Page.start.cache fun r => cachePanel r.cache
  /-- The table of the last snapshot that has hosts. -/
  hosts : p.hosts = ((readingsOf seen).filterMap hostsTable).getLast?

/-! ## The feed -/

theorem dropExtra_eq_rtake (n : ℕ) {nodes : List FeedNode}
    (h : nodes.all FeedNode.isElement = true) : dropExtra n nodes = nodes.rtake n := by
  induction nodes with
  | nil => simp [dropExtra]
  | cons node nodes ih =>
      have helements : children (node :: nodes) = node :: nodes :=
        List.filter_eq_self.mpr (List.all_eq_true.mp h)
      have htail : nodes.all FeedNode.isElement = true :=
        List.all_eq_true.mpr fun x hx => List.all_eq_true.mp h x (List.mem_cons_of_mem _ hx)
      rw [dropExtra, helements]
      split
      · rename_i hmore
        rw [ih htail, List.rtake, List.rtake, ← List.drop_succ_cons (a := node)]
        congr 1
        rw [List.length_cons] at hmore ⊢
        omega
      · rename_i hfits
        exact (Recency.rtake_of_length_le (Nat.le_of_not_lt hfits)).symm

theorem trimFeed_eq_take (n : ℕ) {feed : List FeedNode}
    (h : feed.all FeedNode.isElement = true) : trimFeed n feed = feed.take n := by
  rw [trimFeed, dropExtra_eq_rtake n (by rwa [List.all_reverse]),
    List.rtake_eq_reverse_take_reverse, List.reverse_reverse, List.reverse_reverse]

theorem all_isElement_map {α : Type*} (f : α → Text) (l : List α) :
    (l.map fun a => FeedNode.entry (f a)).all FeedNode.isElement = true := by
  simp [FeedNode.isElement]

/-- The feed once the placeholder is gone. -/
theorem clearPlaceholder_feedOf (localeTime : Text → Text) (entries : List LogEntry) :
    clearPlaceholder (feedOf localeTime entries) =
      (entries.rtake 50).reverse.map fun e => .entry (logHtml (shown localeTime e.toDict)) := by
  by_cases hnone : entries = []
  · rw [hnone]
    rfl
  · have hentries : children (feedOf localeTime entries) ≠ [.placeholder] := by
      rw [feedOf, if_neg hnone, children, List.filter_eq_self.mpr
        (List.all_eq_true.mp (all_isElement_map _ _))]
      intro hsingle
      obtain ⟨e, -, hentry⟩ :=
        List.mem_map.mp (hsingle ▸ List.mem_singleton_self FeedNode.placeholder)
      cases hentry
    rw [clearPlaceholder, if_neg hentries, feedOf, if_neg hnone]

/-- One entry more in the feed. -/
theorem feed_onLog (localeTime : Text → Text) (entries : List LogEntry) (e : LogEntry) :
    trimFeed 50 (.entry (logHtml (shown localeTime e.toDict)) ::
        clearPlaceholder (feedOf localeTime entries)) =
      feedOf localeTime (entries ++ [e]) := by
  have hcons : FeedNode.entry (logHtml (shown localeTime e.toDict)) ::
      clearPlaceholder (feedOf localeTime entries) =
      (e :: (entries.rtake 50).reverse).map fun e =>
        FeedNode.entry (logHtml (shown localeTime e.toDict)) := by
    rw [clearPlaceholder_feedOf, List.map_cons]
  have htake : (e :: (entries.rtake 50).reverse).take 50 =
      ((entries ++ [e]).rtake 50).reverse := by
    simp only [List.rtake_eq_reverse_take_reverse, List.reverse_reverse, List.reverse_append,
      List.reverse_singleton, List.singleton_append, List.take_succ_cons, List.take_take]
    rfl
  rw [hcons, trimFeed_eq_take 50 (all_isElement_map _ _), ← List.map_take, htake, feedOf,
    if_neg (by simp)]

/-! ## The numbers -/

theorem nearestDouble_eq {n : ℤ} (h : n.natAbs < 2 ^ 53) : nearestDouble n = n := by
  have hshift : n.natAbs.log2 - 52 = 0 := by
    by_cases hzero : n.natAbs = 0
    · simp [hzero]
    · have := (Nat.log2_lt hzero).mpr h
      omega
  rw [nearestDouble, hshift, pow_zero, Doubles.halfEven_one, mul_one, Int.sign_mul_natAbs]

theorem textOf_int {n : ℤ} (h : n.natAbs < 2 ^ 53) : textOf (intJson n) = showInt n := by
  rw [intJson, textOf, nearestDouble_eq h]

theorem textOf_nat {n : ℕ} (h : n < 2 ^ 53) : textOf (intJson n) = showInt n := textOf_int h

theorem lastTotal_concat (readings : List Readings) (r : Readings) :
    lastTotal (readings ++ [r]) = r.metrics .total := by
  rw [lastTotal, List.getLast?_concat, Option.elim_some]

theorem getLast?_totalsWindow (readings : List Readings) :
    (totalsWindow readings).getLast? = some (lastTotal readings) := by
  induction readings using List.reverseRecOn with
  | nil => simp [totalsWindow, lastTotal, List.rtake]
  | append_singleton readings r _ =>
      rw [totalsWindow, List.map_append, ← List.append_assoc, List.map_singleton,
        List.rtake_concat_succ, List.getLast?_concat, lastTotal_concat]

/-- The window slides. -/
theorem totalsWindow_concat (readings : List Readings) (r : Readings) :
    totalsWindow (readings ++ [r]) = (totalsWindow readings ++ [(r.metrics .total : ℤ)]).tail := by
  rw [totalsWindow, totalsWindow, List.map_append, ← List.append_assoc, List.map_singleton]
  exact rtake_concat (by simp) _

/-- The new bar is the growth since the last snapshot. -/
theorem gaps_totalsWindow_concat (readings : List Readings) (r : Readings) :
    gaps (totalsWindow (readings ++ [r])) =
      (gaps (totalsWindow readings) ++ [(r.metrics .total : ℤ) - lastTotal readings]).tail := by
  obtain ⟨front, hfront⟩ := List.getLast?_eq_some_iff.mp (getLast?_totalsWindow readings)
  rw [totalsWindow_concat, gaps_tail, hfront, gaps_concat]

theorem lastTotal_exact {readings : List Readings} (h : ∀ r ∈ readings, r.Exact) :
    0 ≤ lastTotal readings ∧ lastTotal readings < 2 ^ 53 := by
  rw [lastTotal]
  cases hlast : readings.getLast? with
  | none => simp
  | some r =>
      have hsmall := (h r (List.mem_of_getLast? hlast)).metrics .total
      rw [Option.elim_some]
      omega

/-! ## Snapshots -/

theorem member_metricsJson (m : Metric → ℕ) (k : Metric) :
    member (metricKey k) (metricsJson m) = some (intJson (m k)) := by
  cases k <;> rfl

theorem totalOf_metricsJson {m : Metric → ℕ} (h : m .total < 2 ^ 53) :
    totalOf (metricsJson m) = m .total := by
  have hmember : member "total" (metricsJson m) = some (.number (.int (m .total))) :=
    member_metricsJson m .total
  rw [totalOf, hmember]
  exact nearestDouble_eq h

theorem receive_cacheJson (panel : CachePanel) {r : Readings} (h : r.Exact) :
    panel.receive (cacheJson r.cache) = cachePanel r.cache := by
  have hentries : member "current_entries" (cacheJson r.cache) =
      some (intJson r.cache.currentEntries) := rfl
  have hrate : member "hit_rate" (cacheJson r.cache) =
      some (.number (.tenths r.cache.hitRateTenths)) := rfl
  have hhits : member "hits" (cacheJson r.cache) = some (intJson r.cache.hits) := rfl
  have hmisses : member "misses" (cacheJson r.cache) = some (intJson r.cache.misses) := rfl
  have hevictions : member "evictions" (cacheJson r.cache) =
      some (intJson r.cache.evictions) := rfl
  have hbytes : member "current_bytes" (cacheJson r.cache) =
      some (.number (.int r.cache.currentBytes)) := rfl
  simp only [CachePanel.receive, cachePanel, updated, hentries, hrate, hhits, hmisses,
    hevictions, hbytes, Option.elim_some, textOf_int h.entries, textOf_nat h.hits,
    textOf_nat h.misses, textOf_nat h.evictions, sizeText, nearestDouble_eq h.bytes]
  rfl

/-! ## Events -/

theorem receive_metrics (localeTime : Text → Text) (p : Page) (r : Readings) :
    p.receive localeTime (sseMessage (sent (.metrics r))) = p.onMetrics r.snapshot := by
  have hread : loads numberFormat (sseMessage (sent (.metrics r))).data = some r.snapshot :=
    loads_dumps numberFormat r.snapshot
  rw [Page.receive, hread]
  rfl

theorem receive_log (localeTime : Text → Text) (p : Page) (e : LogEntry) :
    p.receive localeTime (sseMessage (sent (.log e))) = p.onLog localeTime e.toDict := by
  have hread : loads numberFormat (sseMessage (sent (.log e))).data = some e.toDict :=
    loads_dumps numberFormat e.toDict
  rw [Page.receive, hread]
  rfl

theorem logEntries_append {ε μ : Type*} (l l' : List (SseEvent ε μ)) :
    logEntries (l ++ l') = logEntries l ++ logEntries l' := by
  induction l with
  | nil => rfl
  | cons event l ih =>
      cases event with
      | metrics r => exact ih
      | log e => exact congrArg (e :: ·) ih

theorem readingsOf_append (l l' : List (SseEvent LogEntry Readings)) :
    readingsOf (l ++ l') = readingsOf l ++ readingsOf l' := by
  induction l with
  | nil => rfl
  | cons event l ih =>
      cases event with
      | metrics r => exact congrArg (r :: ·) ih
      | log e => exact ih

section Events

variable {localeTime : Text → Text} {seen : List (SseEvent LogEntry Readings)} {p : Page}

theorem shows_start : Shows localeTime [] Page.start where
  feed := rfl
  history := by decide
  chart := rfl
  prevTotal := rfl
  counters _ := rfl
  cache := rfl
  hosts := rfl

theorem Shows.onLog (h : Shows localeTime seen p) (e : LogEntry) :
    Shows localeTime (seen ++ [.log e]) (p.onLog localeTime e.toDict) := by
  have hreadings : readingsOf (seen ++ [.log e]) = readingsOf seen := by
    rw [readingsOf_append, readingsOf, readingsOf, List.append_nil]
  have hentries : logEntries (seen ++ [.log e]) = logEntries seen ++ [e] :=
    logEntries_append seen [.log e]
  refine ⟨?_, ?_, h.chart, ?_, ?_, ?_, ?_⟩
  · rw [Page.onLog, h.feed, hentries, feed_onLog]
  · rw [hreadings]
    exact h.history
  · rw [hreadings]
    exact h.prevTotal
  · rw [hreadings]
    exact h.counters
  · rw [hreadings]
    exact h.cache
  · rw [hreadings]
    exact h.hosts

theorem Shows.onMetrics (h : Shows localeTime seen p) {r : Readings} (hr : r.Exact)
    (hseen : ∀ r' ∈ readingsOf seen, r'.Exact) :
    Shows localeTime (seen ++ [.metrics r]) (p.onMetrics r.snapshot) := by
  have hreadings : readingsOf (seen ++ [.metrics r]) = readingsOf seen ++ [r] :=
    readingsOf_append seen [.metrics r]
  have hentries : logEntries (seen ++ [.metrics r]) = logEntries seen := by
    rw [logEntries_append, logEntries, logEntries, List.append_nil]
  have htotal : totalOf (part "metrics" r.snapshot) = r.metrics .total :=
    totalOf_metricsJson (hr.metrics .total)
  have hgrowth : nearestDouble ((r.metrics .total : ℤ) - lastTotal (readingsOf seen)) =
      r.metrics .total - lastTotal (readingsOf seen) := by
    obtain ⟨hlow, hhigh⟩ := lastTotal_exact hseen
    have hsmall := hr.metrics .total
    exact nearestDouble_eq (by omega)
  have hhistory : (p.onMetrics r.snapshot).rpsHistory =
      gaps (totalsWindow (readingsOf seen ++ [r])) := by
    rw [gaps_totalsWindow_concat, ← h.history, ← hgrowth, ← h.prevTotal, ← htotal]
    rfl
  refine ⟨?_, ?_, rfl, ?_, ?_, ?_, ?_⟩
  · rw [hentries]
    exact h.feed
  · rw [hreadings, hhistory]
  · rw [hreadings, lastTotal_concat]
    exact htotal
  · intro k
    rw [hreadings, List.getLast?_concat, Option.elim_some, ← textOf_nat (hr.metrics k)]
    have hmember := member_metricsJson r.metrics k
    show updated _ (member (metricKey k) (metricsJson r.metrics)) textOf = _
    rw [hmember]
    rfl
  · rw [hreadings, List.getLast?_concat, Option.elim_some]
    exact receive_cacheJson p.cache hr
  · rw [hreadings, List.filterMap_append]
    have htable : topHostsHtml (topHosts r.snapshot) = hostsTable r :=
      congrArg topHostsHtml (topHosts_buildSnapshot _ _ _ _)
    show (topHostsHtml (topHosts r.snapshot)).or p.hosts = _
    rw [htable, h.hosts]
    cases hhosts : hostsTable r with
    | none => simp [hhosts]
    | some html => simp [hhosts]

/-- What one event does to the page. -/
theorem shows_receive (h : Shows localeTime seen p) (event : SseEvent LogEntry Readings)
    (hexact : ∀ r ∈ readingsOf (seen ++ [event]), r.Exact) :
    Shows localeTime (seen ++ [event]) (p.receive localeTime (sseMessage (sent event))) := by
  rw [readingsOf_append] at hexact
  cases event with
  | metrics r =>
      rw [receive_metrics]
      exact h.onMetrics (hexact r (by simp [readingsOf])) fun r' hr' =>
        hexact r' (List.mem_append_left _ hr')
  | log e =>
      rw [receive_log]
      exact h.onLog e

/-- A run of steps. -/
theorem shows_run (h : Shows localeTime seen p) (events : List (SseEvent LogEntry Readings))
    (hexact : ∀ r ∈ readingsOf (seen ++ events), r.Exact) :
    Shows localeTime (seen ++ events)
      ((events.map fun event => sseMessage (sent event)).foldl (Page.receive localeTime) p) := by
  induction events generalizing seen p with
  | nil => rwa [List.append_nil]
  | cons event events ih =>
      rw [List.append_cons] at hexact ⊢
      refine ih (shows_receive h event fun r hr => hexact r ?_) hexact
      rw [readingsOf_append]
      exact List.mem_append_left _ hr

end Events

/-! ## Streams -/

/-- The bytes of a stream. -/
def streamOf (events : List (SseEvent LogEntry Readings)) : Bytes := streamBytes (events.map sent)

theorem readEvents_streamOf (localeTime : Text → Text) (p : Page)
    (events : List (SseEvent LogEntry Readings)) :
    p.readEvents localeTime (streamOf events) =
      (events.map fun event => sseMessage (sent event)).foldl (Page.receive localeTime) p := by
  rw [Page.readEvents, streamOf, readStream_streamBytes, Option.getD_some, List.map_map]
  rfl

/-- The page after it read some streams, each after the one before it had ended. -/
def pageAfter (localeTime : Text → Text) (streams : List (List (SseEvent LogEntry Readings))) :
    Page :=
  streams.foldl (fun p events => p.readEvents localeTime (streamOf events)) Page.start

theorem shows_streams {localeTime : Text → Text} {seen : List (SseEvent LogEntry Readings)}
    {p : Page} (h : Shows localeTime seen p)
    (streams : List (List (SseEvent LogEntry Readings)))
    (hexact : ∀ r ∈ readingsOf (seen ++ streams.flatten), r.Exact) :
    Shows localeTime (seen ++ streams.flatten)
      (streams.foldl (fun p events => p.readEvents localeTime (streamOf events)) p) := by
  induction streams generalizing seen p with
  | nil => simpa using h
  | cons events streams ih =>
      rw [List.flatten_cons, ← List.append_assoc] at hexact ⊢
      rw [List.foldl_cons, readEvents_streamOf]
      refine ih (shows_run h events fun r hr => hexact r ?_) hexact
      rw [readingsOf_append]
      exact List.mem_append_left _ hr

/-- **The page shows what was sent.**  Whatever the hosts, methods and paths are, over any
number of connections: the feed holds the newest 50 entries, newest first, the counters and the
panels are those of the last snapshot, and the chart is the growth of the total from one
snapshot to the next, which adds up to the growth over the window. -/
theorem page_shows (localeTime : Text → Text)
    {streams : List (List (SseEvent LogEntry Readings))}
    (hexact : ∀ r ∈ readingsOf streams.flatten, r.Exact) :
    Shows localeTime streams.flatten (pageAfter localeTime streams) ∧
      (pageAfter localeTime streams).rpsHistory.sum =
        lastTotal (readingsOf streams.flatten) -
          (totalsWindow (readingsOf streams.flatten)).head?.getD 0 := by
  have hshows : Shows localeTime streams.flatten (pageAfter localeTime streams) :=
    shows_streams shows_start streams hexact
  refine ⟨hshows, ?_⟩
  have hlast := getLast?_totalsWindow (readingsOf streams.flatten)
  rw [hshows.history]
  cases hwindow : totalsWindow (readingsOf streams.flatten) with
  | nil =>
      rw [hwindow] at hlast
      cases hlast
  | cons first window =>
      rw [hwindow] at hlast
      rw [sum_gaps, hlast]
      rfl

/-- The state after some requests, each of which was counted everywhere. -/
def readingsAt (total : ℕ) : Readings :=
  ⟨fun _ => total, ⟨4, 2, 0, 2, 2, 1536, 667⟩, 1, 20, .tenths 20, .empty⟩

theorem exact_readingsAt {total : ℕ} (h : total < 2 ^ 53) : (readingsAt total).Exact where
  metrics _ := h
  hits := by simp [readingsAt]
  misses := by simp [readingsAt]
  evictions := by simp [readingsAt]
  entries := by simp [readingsAt]
  bytes := by simp [readingsAt]

/-- Two connections; between them the proxy handled five requests more. -/
def twoStreams : List (List (SseEvent LogEntry Readings)) :=
  [[.metrics (readingsAt 3), .log (logEntry [] (txt "first") {})],
    [.metrics (readingsAt 8), .log (logEntry [] (txt "second") {})]]

theorem page_shows_twoStreams :
    Shows id twoStreams.flatten (pageAfter id twoStreams) ∧
      (pageAfter id twoStreams).rpsHistory.sum =
        lastTotal (readingsOf twoStreams.flatten) -
          (totalsWindow (readingsOf twoStreams.flatten)).head?.getD 0 := by
  refine page_shows id fun r hr => ?_
  simp only [twoStreams, List.flatten_cons, List.flatten_nil, List.append_nil, List.cons_append,
    List.nil_append, readingsOf, List.mem_cons, List.not_mem_nil, or_false] at hr
  rcases hr with rfl | rfl
  · exact exact_readingsAt (by omega)
  · exact exact_readingsAt (by omega)

/-! ## The live feed -/

/-- The feed, whatever the snapshots are. -/
theorem feed_receive {localeTime : Text → Text} {entries : List LogEntry} {p : Page}
    (h : p.feed = feedOf localeTime entries) (event : SseEvent LogEntry (Json Number)) :
    (p.receive localeTime (sseMessage event)).feed =
      feedOf localeTime (entries ++ logEntries [event]) := by
  cases event with
  | metrics snapshot =>
      have hread : loads numberFormat (sseMessage (.metrics snapshot)).data = some snapshot :=
        loads_dumps numberFormat snapshot
      rw [Page.receive, hread, logEntries, logEntries, List.append_nil]
      exact h
  | log e =>
      have hlog : p.receive localeTime (sseMessage (.log e)) = p.onLog localeTime e.toDict :=
        receive_log localeTime p e
      rw [hlog, Page.onLog, h]
      exact feed_onLog localeTime entries e

theorem feed_run {localeTime : Text → Text} {entries : List LogEntry} {p : Page}
    (h : p.feed = feedOf localeTime entries) (events : List (SseEvent LogEntry (Json Number))) :
    ((events.map sseMessage).foldl (Page.receive localeTime) p).feed =
      feedOf localeTime (entries ++ logEntries events) := by
  induction events generalizing entries p with
  | nil => rwa [logEntries, List.append_nil]
  | cons event events ih =>
      have hentries : logEntries (event :: events) = logEntries [event] ++ logEntries events :=
        logEntries_append [event] events
      rw [hentries, ← List.append_assoc]
      exact ih (feed_receive h event)

/-- The entries that were logged while the stream was open, up to its last poll. -/
def polled (run : List (LogStream.Event LogEntry (Json Number))) : List LogEntry :=
  (arrivals [] run).flatten

theorem logEntries_flatten {ε μ : Type*} (pushed : List (List (SseEvent ε μ))) :
    logEntries pushed.flatten = (pushed.map logEntries).flatten := by
  induction pushed with
  | nil => rfl
  | cons events pushed ih =>
      rw [List.flatten_cons, logEntries_append, ih, List.map_cons, List.flatten_cons]

theorem take_feed (logged fresh : List LogEntry) :
    ((logged ++ fresh).rtake 100).reverse.take (min 50 fresh.length) =
      (fresh.rtake 50).reverse := by
  simp only [List.rtake_eq_reverse_take_reverse, List.reverse_reverse, List.take_take,
    List.reverse_append]
  rw [List.take_append_of_le_length (by simp)]
  have hlength : fresh.reverse.take (min 50 fresh.length) = fresh.reverse.take 50 := by
    rw [← List.length_reverse, ← List.take_eq_take_min]
  rw [← hlength]
  congr 1
  omega

/-- **The live feed is the head of the log.**  A page that is opened on the proxy, on a stream
that keeps up: after the last poll its feed shows the entries that were logged since, and
these are the first ones that `/api/logs` lists. -/
theorem live_feed_is_log (localeTime : Text → Text) (stamp : Stamp) (page : Text) (r : Readings)
    (logged : List LogEntry) {run : List (LogStream.Event LogEntry (Json Number))}
    (hkeep : FreshWhileFilling logged.length 0 run) :
    ∃ receipt,
      readReply (doGet stamp ⟨page, r, buffered logged, run⟩ (txt "/events")).write =
        some receipt ∧
      (Page.start.readEvents localeTime receipt.body).feed = feedOf localeTime (polled run) ∧
      (polled run ≠ [] → (Page.start.readEvents localeTime receipt.body).feed =
        ((getRecentLogs 100 (buffered (logged ++ polled run))).take
          (min 50 (polled run).length)).map fun e =>
            .entry (logHtml (shown localeTime e.toDict))) := by
  have hdelivers : Delivers (.opened (buffered logged)) run :=
    (stream_delivers_iff logged run).mpr hkeep
  have hfeed : (Page.start.readEvents localeTime (streamBytes
      (pushes (.opened (buffered logged)) run).flatten)).feed = feedOf localeTime (polled run) := by
    have hstart : Page.start.feed = feedOf localeTime [] := rfl
    rw [Page.readEvents, readStream_streamBytes, Option.getD_some, feed_run hstart,
      List.nil_append, logEntries_flatten, hdelivers, polled]
  refine ⟨_, readReply_doGet _ _ _, hfeed, fun hsome => ?_⟩
  have hrecent := getRecentLogs_buffered (logged ++ polled run)
  refine hfeed.trans ?_
  rw [hrecent, take_feed, feedOf, if_neg hsome]

/-- An entry was logged before the stream was opened, and one while it was open. -/
def oneFresh : List (LogStream.Event LogEntry (Json Number)) :=
  [.append (logEntry [] (txt "second") {}), .poll (.object [])]

def someStamp : Stamp where
  server := literal "BaseHTTP/0.6 Python/3.11.10"
  date := literal "Mon, 01 Jan 2024 00:00:00 GMT"

theorem live_feed_is_log_oneFresh :
    ∃ receipt,
      readReply (doGet someStamp ⟨[], readingsAt 1, buffered [logEntry [] (txt "first") {}],
        oneFresh⟩ (txt "/events")).write = some receipt ∧
      (Page.start.readEvents id receipt.body).feed = feedOf id (polled oneFresh) ∧
      (polled oneFresh ≠ [] → (Page.start.readEvents id receipt.body).feed =
        ((getRecentLogs 100 (buffered ([logEntry [] (txt "first") {}] ++ polled oneFresh))).take
          (min 50 (polled oneFresh).length)).map fun e =>
            .entry (logHtml (shown id e.toDict))) := by
  have hkeep : FreshWhileFilling 1 0 oneFresh := by
    simp [oneFresh, FreshWhileFilling, ringBufferSize]
  exact live_feed_is_log id someStamp [] (readingsAt 1) _ hkeep

end Proxy
end NetworkProxy
