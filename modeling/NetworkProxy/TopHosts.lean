import NetworkProxy.DashboardMarkup
import NetworkProxy.RequestAccounting
import NetworkProxy.Tally

/-!
# The top hosts

Every connection records the host of its request once, after it counted the request.

`top_hosts_rank_requests`: in every interleaving of connections the table of the dashboard ranks
the hosts by the number of their requests, and the counters add up to the total, but for the
connections that are counted and have recorded no host.
-/

namespace NetworkProxy
namespace Proxy

open Py Http Cache Handler LogStream Tally

/-! ## What is recorded -/

/-- The host that an event records. -/
def recordedHost? : Event → Option Text
  | .called (.recordHost host) _ => some host
  | _ => none

theorem op?_of_recordedHost? {event : Event} {host : Text} (h : recordedHost? event = some host) :
    event.op? = some (.recordHost host) := by
  revert h
  rw [recordedHost?.eq_def]
  split
  · rintro ⟨⟩
    rfl
  · exact fun h => by cases h

theorem recordedHosts_eq (t : Trace) : recordedHosts t = t.filterMap recordedHost? := rfl

/-- `record_host` ignores an empty host. -/
theorem countHosts_eq_tally (hosts : List Text) :
    countHosts hosts = tally (hosts.filter fun host => host ≠ []) := by
  induction hosts using List.reverseRecOn with
  | nil => rfl
  | append_singleton hosts host ih =>
      rw [countHosts, List.foldl_append, List.foldl_cons, List.foldl_nil, ← countHosts, ih,
        List.filter_append, recordHost]
      by_cases hempty : host = []
      · simp [hempty]
      · rw [if_neg hempty, List.filter_cons_of_pos (by simpa using hempty), List.filter_nil,
          tally_concat, count]

theorem getTopHosts_eq_top (n : ℕ) (counters : OrderedDict Text ℕ) :
    getTopHosts n counters = top n counters := rfl

/-! ## One connection -/

/-- A host is recorded once, by a connection that was counted. -/
def RecordsOnce (past : Trace) : Op → Prop
  | .recordHost _ => recordedHosts past = [] ∧ .called (.countMetric .total) () ∈ past
  | _ => True

/-- A call that records no host. -/
def Op.Recordless : Op → Prop
  | .recordHost _ => False
  | _ => True

theorem Op.Recordless.recordsOnce {op : Op} (h : op.Recordless) (past : Trace) :
    RecordsOnce past op := by
  cases op <;> first | exact trivial | exact h.elim

/-- Only `record_host` adds a host. -/
theorem recordedHosts_cons_of_recordless {event : Event} {past : Trace}
    (h : ∀ op, event.op? = some op → op.Recordless) :
    recordedHosts (event :: past) = recordedHosts past := by
  refine List.filterMap_cons_none ?_
  cases event with
  | called op answer =>
      have hop := h op rfl
      cases op <;> first | rfl | exact hop.elim
  | raised op e => rfl
  | noted n => rfl

section Calls

variable {cfg : HandlerConfig} {addr : ClientAddr}

theorem Op.TurnsDown.recordless {op : Op} (h : op.TurnsDown) : op.Recordless := by
  cases op <;> first | exact trivial | exact h.elim

theorem recordless_of_ofForward {p : ParsedRequest} {op : Op} (h : Forward.OfForward p op) :
    op.Recordless := by
  cases op <;> first | exact trivial | exact h

theorem recordless_of_ofTunnel {p : ParsedRequest} {op : Op} (h : op.OfTunnel p) :
    op.Recordless := by
  cases op <;> first | exact trivial | exact h.elim

theorem recordless_dispatch (rounds : ℕ) (p : ParsedRequest) :
    Calls Op.Recordless (dispatch cfg addr rounds p) := by
  refine (Calls.perform trivial).bind fun _ => ?_
  split
  · exact (ofTunnel_connectTunnel p).mono fun _ => recordless_of_ofTunnel
  · refine (Calls.perform trivial).bind fun _ => ?_
    exact (calls_forwardHttp cfg.maxObjectSize rounds p).mono fun _ => recordless_of_ofForward

theorem recordless_authenticate (rounds : ℕ) (p : ParsedRequest) :
    Calls Op.Recordless (authenticate cfg addr rounds p) := by
  have hcheck : Calls Op.Recordless (checkAuth cfg p.headers) :=
    (calls_checkAuth p.headers).mono fun op hop => by
      obtain ⟨plain, stored, rfl⟩ := hop
      exact trivial
  refine hcheck.bind fun ok => ?_
  show Calls Op.Recordless _
  cases ok with
  | false => exact (turnsDown_rejectAuth p).mono fun _ => Op.TurnsDown.recordless
  | true =>
      refine (Calls.perform trivial).bind fun blocked => ?_
      cases blocked with
      | true => exact (turnsDown_rejectBlocked p).mono fun _ => Op.TurnsDown.recordless
      | false => exact recordless_dispatch rounds p

theorem recordless_limit (rounds : ℕ) (p : ParsedRequest) :
    Calls Op.Recordless (limit cfg addr rounds p) := by
  rw [limit]
  split
  · refine (Calls.perform trivial).bind fun passed => ?_
    cases passed with
    | false => exact (turnsDown_rejectRateLimited p).mono fun _ => Op.TurnsDown.recordless
    | true => exact recordless_authenticate rounds p
  · exact recordless_authenticate rounds p

theorem recordsOnce_recordless {α : Type} {q : Program α} (hq : Calls Op.Recordless q)
    (past : Trace) : Safe RecordsOnce past q (fun _ _ => True) :=
  (hq.safe fun past' _ _ hop => hop.recordsOnce past').mono fun _ _ _ => trivial

theorem recordsOnce_serve (rounds : ℕ) :
    Safe RecordsOnce [] (serve cfg addr rounds) (fun _ _ => True) := by
  have hparse (raw : Bytes) : Calls Op.Recordless (parseRaw cfg raw) := by
    rw [parseRaw]
    split
    · exact trivial
    · exact trivial
    · exact (Calls.perform trivial).bind fun _ => trivial
  refine Safe.perform_bind trivial (fun raw => ?_) fun _ => trivial
  split
  · exact trivial
  · have hnone : Safe RecordsOnce [.called .recvHttpRequest raw] (parseRaw cfg raw)
        fun past _ => recordedHosts past = [] :=
      (hparse raw).safe_invariant (fun past op hop _ => hop.recordsOnce past)
        (fun past event hop h => by rw [recordedHosts_cons_of_recordless hop, h]) rfl
    refine Safe.bind (hnone.mono fun past o h => ?_)
    · cases o with
      | running => exact trivial
      | raised e => exact trivial
      | returned parsed =>
          cases parsed with
          | none =>
              exact recordsOnce_recordless
                (turnsDown_rejectBadRequest.mono fun _ => Op.TurnsDown.recordless) past
          | some p =>
              refine Safe.perform_bind trivial (fun _ => ?_) fun _ => trivial
              refine Safe.perform_bind ⟨h, List.mem_cons_self⟩ (fun _ => ?_) fun _ => trivial
              exact recordsOnce_recordless (recordless_limit rounds _) _

theorem recordsOnce_handleClient (rounds : ℕ) :
    Safe RecordsOnce [] (handleClient cfg addr rounds) (fun _ _ => True) := by
  have hclose (past : Trace) : Safe RecordsOnce past
      ((perform .closeClient).tryCatch swallow) (fun _ _ => True) :=
    recordsOnce_recordless ((Calls.perform trivial).tryCatch calls_swallow) past
  refine Safe.finallyDo (Safe.tryCatch ((recordsOnce_serve rounds).mono fun past o _ => ?_))
  cases o with
  | returned _ => exact hclose past
  | running => exact trivial
  | raised e =>
      refine (recordsOnce_recordless
        ((turnsDown_reportError e).mono fun _ => Op.TurnsDown.recordless)
        past).mono fun past' o' _ => ?_
      cases o' with
      | returned _ => exact hclose past'
      | raised _ => exact hclose past'
      | running => exact hclose past'

end Calls

/-! ## Every interleaving -/

/-- The host that an event counts. -/
def namedHost? (event : Event) : Option Text := (recordedHost? event).filter fun host => host ≠ []

/-- The hosts that are counted. -/
def namedHosts (t : Trace) : List Text := t.filterMap namedHost?

theorem namedHosts_eq (t : Trace) :
    namedHosts t = (recordedHosts t).filter fun host => host ≠ [] := by
  rw [recordedHosts_eq, List.filter_filterMap]
  rfl

/-- At most one host, of a connection that was counted. -/
structure OneHost (t : Trace) : Prop where
  length_le : (recordedHosts t).length ≤ 1
  counted : recordedHosts t ≠ [] → .called (.countMetric .total) () ∈ t

theorem OneHost.cons {event : Event} {past : Trace} (h : OneHost past)
    (hevent : ∀ op, event.op? = some op → RecordsOnce past op) : OneHost (event :: past) := by
  cases hhost : recordedHost? event with
  | none =>
      have heq : recordedHosts (event :: past) = recordedHosts past :=
        List.filterMap_cons_none hhost
      exact ⟨heq ▸ h.length_le, fun hne => List.mem_cons_of_mem _ (h.counted (heq ▸ hne))⟩
  | some host =>
      have heq : recordedHosts (event :: past) = host :: recordedHosts past :=
        List.filterMap_cons_some hhost
      have hop := op?_of_recordedHost? hhost
      obtain ⟨hnone, hcounted⟩ := hevent _ hop
      exact ⟨by rw [heq, hnone, List.length_singleton], fun _ => List.mem_cons_of_mem _ hcounted⟩

theorem oneHost_of_allowedTrace : ∀ {t past : Trace}, AllowedTrace RecordsOnce past t →
    OneHost past → OneHost (t.reverse ++ past)
  | [], _, _, h => h
  | event :: t, past, hallowed, h => by
      rw [List.reverse_cons, List.append_assoc]
      exact oneHost_of_allowedTrace hallowed.2 (h.cons hallowed.1)

section Run

variable {cfg : HandlerConfig} {addr : ℕ → ClientAddr} {run : List (ℕ × Event)}

theorem HandlerRun.oneHost (h : HandlerRun cfg addr run) (i : ℕ) :
    OneHost (eventsOf i run) := by
  obtain ⟨rounds, o, hexec⟩ := h i
  have hsafe : Safe RecordsOnce [] (handleClient cfg (addr i) rounds) (fun _ _ => True) :=
    recordsOnce_handleClient rounds
  have hone := oneHost_of_allowedTrace (hsafe.allowedTrace hexec)
    ⟨Nat.zero_le _, fun hne => absurd rfl hne⟩
  rw [List.append_nil] at hone
  refine ⟨?_, fun hne => ?_⟩
  · have hlength := hone.length_le
    rwa [recordedHosts_eq, List.filterMap_reverse, List.length_reverse] at hlength
  · refine List.mem_reverse.mp (hone.counted ?_)
    rwa [recordedHosts_eq, List.filterMap_reverse, ne_eq, List.reverse_eq_nil_iff]

/-- A connection with a host is counted once. -/
theorem HandlerRun.length_namedHosts_le (h : HandlerRun cfg addr run) (i : ℕ) :
    (namedHosts (eventsOf i run)).length ≤ (booksOf i run).total := by
  have hone := h.oneHost i
  have hfilter :
      (namedHosts (eventsOf i run)).length ≤ (recordedHosts (eventsOf i run)).length := by
    rw [namedHosts_eq]
    exact List.length_filter_le _ _
  by_cases hnone : recordedHosts (eventsOf i run) = []
  · rw [hnone, List.length_nil] at hfilter
    omega
  · have hcounted : 0 < (booksOf i run).total := by
      have hget := get_ledger (.metric .total) (eventsOf i run).reverse
      rw [booksOf]
      refine Nat.lt_of_lt_of_eq (List.countP_pos_iff.mpr ?_) hget.symm
      exact ⟨_, List.mem_reverse.mpr (hone.counted hnone), rfl⟩
    have hlength := hone.length_le
    omega

end Run

/-- **The top hosts.**  In every state of every interleaving of connections the table ranks the
hosts by the number of the connections that asked for them; each asked for the host of a request
that was accepted on it, and was counted; and with the counted connections that have named no
host the counters add up to the total. -/
theorem top_hosts_rank_requests {cfg : HandlerConfig} {addr : ℕ → ClientAddr}
    {run : List (ℕ × Event)} (h : HandlerRun cfg addr run) (n : ℕ) :
    Ranks n (namedHosts (run.map Prod.snd))
        (getTopHosts n (countHosts (recordedHosts (run.map Prod.snd)))) ∧
      (∀ host, (namedHosts (run.map Prod.snd)).count host =
        ((connections run).filter fun i => namedHosts (eventsOf i run) = [host]).card) ∧
      (∀ i host, host ∈ namedHosts (eventsOf i run) →
        (booksOf i run).total = 1 ∧ ∃ raw parsed p,
          Accepted cfg (addr i) (eventsOf i run).reverse raw parsed p ∧ host = p.host) ∧
      (books run).total =
        ((countHosts (recordedHosts (run.map Prod.snd))).items.map Prod.snd).sum +
        ((connections run).filter fun i =>
          (booksOf i run).total = 1 ∧ namedHosts (eventsOf i run) = []).card := by
  have hmem : ∀ e, e ∈ run → e.1 ∈ connections run :=
    fun e he => List.mem_toFinset.mpr (List.mem_map_of_mem he)
  have hle := h.length_namedHosts_le
  have hone (i : ℕ) : (booksOf i run).total ≤ 1 := (h.sound i).total_le
  refine ⟨?_, fun host => ?_, fun i host hhost => ⟨?_, ?_⟩, ?_⟩
  · rw [getTopHosts_eq_top, countHosts_eq_tally, ← namedHosts_eq]
    exact ranks_top n _
  · rw [namedHosts, List.count_filterMap, countP_eq_sum_eventsOf _ hmem, Finset.card_filter]
    refine Finset.sum_congr rfl fun i _ => ?_
    rw [← List.count_filterMap, ← namedHosts]
    have hlength : (namedHosts (eventsOf i run)).length ≤ 1 := Nat.le_trans (hle i) (hone i)
    generalize namedHosts (eventsOf i run) = hosts at hlength
    rcases hosts with _ | ⟨host', _ | ⟨host'', hosts⟩⟩
    · simp
    · simp [List.count_singleton]
    · rw [List.length_cons, List.length_cons] at hlength
      omega
  · have hpos := List.length_pos_of_mem hhost
    have hle := hle i
    have hone := hone i
    omega
  · obtain ⟨rounds, o, hexec⟩ := h i
    rw [namedHosts_eq] at hhost
    exact accepted_of_recorded ⟨rounds, o, hexec⟩ (List.mem_of_mem_filter hhost)
  · have htotal : (books run).total = ∑ i ∈ connections run, (booksOf i run).total :=
      get_books (.metric .total) run
    rw [countHosts_eq_tally, ← namedHosts_eq, sum_tally, htotal, namedHosts,
      List.length_filterMap_eq_countP, countP_eq_sum_eventsOf _ hmem, Finset.card_filter,
      ← Finset.sum_add_distrib]
    refine Finset.sum_congr rfl fun i _ => ?_
    rw [← List.length_filterMap_eq_countP, ← namedHosts]
    have hle := hle i
    have hone := hone i
    by_cases hnone : namedHosts (eventsOf i run) = []
    · simp only [hnone, List.length_nil, Nat.zero_add, and_true]
      split
      · assumption
      · omega
    · have hpos := List.length_pos_of_ne_nil hnone
      rw [if_neg fun hboth => hnone hboth.2]
      omega

theorem top_hosts_rank_requests_twoConnections :
    (namedHosts (twoConnections.map Prod.snd)).count (txt "a") = 2 ∧
      Ranks 10 (namedHosts (twoConnections.map Prod.snd))
        (getTopHosts 10 (countHosts (recordedHosts (twoConnections.map Prod.snd)))) := by
  exact ⟨by decide +kernel, (top_hosts_rank_requests handlerRun_twoConnections 10).1⟩

end Proxy
end NetworkProxy
