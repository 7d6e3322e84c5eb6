import AxelarMonitor.Bundles
import AxelarMonitor.Lib.RetryQueue

/-!
The backlog of the monitor: the block fetch and the block-results requests that
are under way. They are a retry queue whose gate is the block fetch, so there
are few of them whatever fails, and the results of a block are handled or given
up within the next blocks.
-/

namespace AxelarMonitor

open FifoLoop RetryQueue

variable {cx : Codecs} {config : Config}

def IoCommand.ticket? : IoCommand → Option Ticket
  | .fetchBlock _ _ => some .gate
  | .fetchBlockResults height _ retries => some (.request height retries)
  | _ => none

/-- The tickets of the commands whose results are not yet processed. -/
def backlog (trace : Trace) (s : System) : List Ticket := requests IoCommand.ticket? trace s

def Work.height? (w : Work) : Option Nat := w.bundle?.map Prod.fst

theorem Answers.height_eq {cmd : IoCommand} {out : List IoResult} (h : Answers cmd out)
    {msg : IoResult} (hmsg : msg ∈ out) :
    msg.work?.map Work.height? = cmd.ticket?.map Ticket.born? := by
  cases h with
  | headFailed => cases hmsg
  | chainParamsFailed chain => cases hmsg
  | _ =>
      cases List.mem_singleton.mp hmsg
      rfl

/-- The backlog is the outstanding work, with the attempts made so far. -/
theorem backlog_work {trace : Trace} {s : System} (hrun : MonitorRun cx config trace s) :
    (backlog trace s).map Ticket.born? = (workProbe.view s).map Work.height? := by
  unfold backlog requests Probe.view
  rw [← waiting_results hrun rfl, List.map_append, List.map_append, List.filterMap_map,
    List.map_filterMap, List.map_filterMap, List.map_filterMap, List.map_filterMap]
  congr 1
  · apply List.filterMap_congr
    intro a ha
    obtain ⟨http, sent, hexec, hsent⟩ := hrun.waiting_sent a ha
    exact ((exec_answers hexec).height_eq hsent).symm
  · apply List.filterMap_congr
    intro cmd _
    cases cmd <;> rfl

theorem mem_backlog_of_bundle {trace : Trace} {s : System}
    (hrun : MonitorRun cx config trace s) {h : Nat} (hh : h ∈ bundleHeights s) :
    ∃ retries, .request h retries ∈ backlog trace s := by
  obtain ⟨⟨n, polls⟩, hmem, rfl⟩ := List.mem_map.mp hh
  have hwork : some n ∈ (workProbe.view s).map Work.height? :=
    List.mem_map.mpr ⟨_, mem_bundles.mp hmem, rfl⟩
  rw [← backlog_work hrun] at hwork
  obtain ⟨x, hx, hborn⟩ := List.mem_map.mp hwork
  cases x with
  | gate => cases hborn
  | request born tries =>
      cases hborn
      exact ⟨tries, hx⟩

theorem gate_not_mem_backlog {trace : Trace} {s : System} (hrun : MonitorRun cx config trace s)
    (hidle : blockFetches s = []) : .gate ∉ backlog trace s := by
  intro hmem
  have hborn : none ∈ (backlog trace s).map Ticket.born? := List.mem_map.mpr ⟨_, hmem, rfl⟩
  rw [backlog_work hrun] at hborn
  obtain ⟨w, hw, hheight⟩ := List.mem_map.mp hborn
  cases w with
  | fetch => exact fetch_not_mem_work hidle hw
  | bundle h polls => cases hheight

/-- Before the first head nothing is under way. -/
theorem backlog_at_start {trace : Trace} {s : System} (hrun : MonitorRun cx config trace s)
    (hsteady : Steady trace) (hsentinel : s.state.lastProcessedHeight = 0) :
    backlog trace s = [] := by
  have hidle := idle_when_caughtUp hrun hsteady (Or.inl hsentinel)
  have hsettled : settledHeights trace = [] := by
    obtain ⟨f, hf, ⟨-, hnone, -⟩ | ⟨first, rest, -, hin⟩⟩ := monitor_inStep hrun hsteady
    · exact hnone
    · have hstarted := hin.started
      rw [hf.processed_eq, hsentinel] at hstarted
      cases hstarted
  have hprocessed := processedHeights_sublist trace
  rw [hsettled, List.sublist_nil] at hprocessed
  have hfresh := freshBundles_sublist hrun
  rw [hprocessed, List.sublist_nil] at hfresh
  have hbundles : bundleHeights s = [] := by
    rw [List.eq_nil_iff_forall_not_mem]
    intro n hn
    have hcount := count_bundles hrun n
    rw [hfresh, List.count_nil] at hcount
    have hpos := List.count_pos_iff.mpr hn
    omega
  have hwork : workProbe.view s = [] := by
    rw [List.eq_nil_iff_forall_not_mem]
    intro w hw
    cases w with
    | fetch => exact fetch_not_mem_work hidle hw
    | bundle h polls =>
        have hmem : h ∈ bundleHeights s := List.mem_map_of_mem (mem_bundles.mpr hw)
        rw [hbundles] at hmem
        cases hmem
  have hsame := backlog_work hrun
  rwa [hwork, List.map_nil, List.map_eq_nil_iff] at hsame

/-- Of blocks, only the next one is ever being fetched. -/
theorem blockFetches_steady {trace : Trace} {s : System} (hrun : MonitorRun cx config trace s)
    (hsteady : Steady trace) : blockFetches s = [] ∨
      blockFetches s = [.specific (s.state.lastProcessedHeight + 1)] := by
  obtain ⟨f, hf, ⟨-, -, rfl⟩ | ⟨first, heads, -, hin⟩⟩ := monitor_inStep hrun hsteady
  · exact Or.inl hf.pending_eq
  · rw [hf.pending_eq, hin.pending_eq, ← hf.processed_eq]
    split
    · exact Or.inr rfl
    · exact Or.inl rfl

/-- A block or an error that comes back is that of the next height. -/
theorem settled_next {trace : Trace} {s t : System} {msg : IoResult} {out : List IoCommand}
    (hrun : MonitorRun cx config trace s) (hsteady : Steady trace)
    (hstep : Step (monitor cx config) s (.handled msg out) t) {h : Nat}
    (hmsg : msg.fetchHeight? = some (.specific h)) : h = s.state.lastProcessedHeight + 1 := by
  obtain ⟨rest, hview, -⟩ := fetchProbe.view_handled hstep
  rw [show fetchProbe.ofResult msg = _ from hmsg] at hview
  rcases blockFetches_steady hrun hsteady with hnone | hnext
  · cases hnone.symm.trans hview
  · cases hnext.symm.trans hview
    rfl

theorem filterMap_tickets_fetchAfter (tip h : Nat) :
    (fetchAfter tip h).filterMap IoCommand.ticket? = if h < tip then [.gate] else [] := by
  unfold fetchAfter
  split <;> rfl

theorem filterMap_tickets_bundleFor (height : Nat) (data : RawBlockData) :
    (bundleFor height data).filterMap IoCommand.ticket? =
      if data.pollCreations.isEmpty then [] else [.request height 0] := by
  unfold bundleFor
  split <;> rfl

/-- What a message takes off the front of the backlog. -/
theorem Answers.ticket_eq {cmd : IoCommand} {sent : List IoResult} (h : Answers cmd sent)
    {msg : IoResult} (hmsg : msg ∈ sent) :
    match msg with
    | .block _ _ | .fetchError _ _ _ => cmd.ticket? = some .gate
    | .blockResults height _ _ => ∃ retries, cmd.ticket? = some (.request height retries)
    | .fetchBlockResultsError height _ retries _ => cmd.ticket? = some (.request height retries)
    | _ => cmd.ticket? = none := by
  cases h with
  | headFailed => cases hmsg
  | chainParamsFailed chain => cases hmsg
  | results height polls retries results =>
      cases List.mem_singleton.mp hmsg
      exact ⟨retries, rfl⟩
  | _ =>
      cases List.mem_singleton.mp hmsg
      rfl

/-- A settled height is a turn of the gate. -/
theorem orderly_settled {most turn h : Nat} {rest : List Ticket}
    (hin : Orderly most turn (.gate :: rest)) (hnext : h = turn + 1) (data : RawBlockData)
    (tip : Nat) : Orderly most h (rest ++
      (bundleFor h data ++ fetchAfter tip h).filterMap IoCommand.ticket?) := by
  subst hnext
  rw [List.filterMap_append, filterMap_tickets_bundleFor, filterMap_tickets_fetchAfter,
    ← List.append_assoc]
  generalize hnew : (if data.pollCreations.isEmpty then [] else
    [Ticket.request (turn + 1) 0]) = new
  have hnewcomer : Orderly most (turn + 1) (rest ++ new) ∧ .gate ∉ rest ++ new := by
    rw [← hnew]
    split
    · rw [List.append_nil]
      exact ⟨hin.pass, hin.no_gate_behind⟩
    · exact ⟨hin.letIn, by simpa using hin.no_gate_behind⟩
  split
  · exact hnewcomer.1.join_gate hnewcomer.2
  · rw [List.append_nil]
    exact hnewcomer.1

theorem orderly_handled {trace : Trace} {s t : System} {msg : IoResult} {out : List IoCommand}
    (hrun : MonitorRun cx config trace s) (hsteady : Steady trace)
    (hin : Orderly maxFetchRetries s.state.lastProcessedHeight (backlog trace s))
    (hstep : Step (monitor cx config) s (.handled msg out) t) :
    Orderly maxFetchRetries t.state.lastProcessedHeight
      (backlog (trace ++ [⟨s, .handled msg out⟩]) t) := by
  obtain ⟨cmd, rest, ⟨http, sent, hexec, hsent⟩, hbefore, hafter⟩ :=
    requests_handled IoCommand.ticket? hrun rfl hstep
  have hticket := (exec_answers hexec).ticket_eq hsent
  have hidle : s.state.lastProcessedHeight = 0 ∨
      s.state.chainTip = s.state.lastProcessedHeight → .gate ∉ backlog trace s :=
    fun h => gate_not_mem_backlog hrun (idle_when_caughtUp hrun hsteady h)
  have hstart := backlog_at_start hrun hsteady
  have hnext (h : Nat) := @settled_next cx config trace s t msg out hrun hsteady hstep h
  unfold backlog at hin hidle hstart ⊢
  rw [hafter]
  rw [hbefore] at hin hidle hstart
  have hhandles := step_handles hstep
  generalize t.state = st' at hhandles
  have hquiet (hout : out.filterMap IoCommand.ticket? = [])
      (hrest : Orderly maxFetchRetries st'.lastProcessedHeight rest) :
      Orderly maxFetchRetries st'.lastProcessedHeight
        (rest ++ out.filterMap IoCommand.ticket?) := by
    rwa [hout, List.append_nil]
  cases hhandles with
  | retryBlock h retries error hretry =>
      rw [hticket] at hin
      exact hin.tail.join_gate hin.no_gate_behind
  | skipBlock h retries error hgiveup =>
      rw [hticket] at hin
      exact orderly_settled hin (hnext h rfl) ⟨[], []⟩ s.state.chainTip
  | latestError retries error =>
      rw [hticket] at hin
      exact hquiet rfl hin.tail
  | retryResults height polls retries error hretry =>
      rw [hticket] at hin
      exact hin.retry hretry
  | dropResults height polls retries error hgiveup =>
      rw [hticket] at hin
      exact hquiet rfl hin.tail
  | block height block data hdata =>
      rw [hticket] at hin
      exact orderly_settled hin (hnext height rfl) data s.state.chainTip
  | blockResults height results polls =>
      obtain ⟨retries, hticket⟩ := hticket
      rw [hticket] at hin
      exact hquiet rfl hin.tail
  | chainList chains =>
      rw [hticket] at hin
      exact hquiet (filterMap_paramFetches (fun _ => rfl) chains) hin
  | retryChainList error =>
      rw [hticket] at hin
      exact hquiet rfl hin
  | chainParams params =>
      rw [hticket] at hin
      exact hquiet rfl hin
  | firstHead height hsentinel =>
      obtain ⟨-, rfl⟩ := List.append_eq_nil_iff.mp (hstart hsentinel)
      exact orderly_nil.join_gate List.not_mem_nil
  | nextHead height hstarted hahead hcaughtUp =>
      rw [hticket] at hin hidle
      exact hin.join_gate (hidle (Or.inr hcaughtUp))
  | moveTip height hstarted hstay =>
      rw [hticket] at hin
      exact hquiet rfl hin

theorem Answers.one_ticket {cmd : IoCommand} {out : List IoResult} (h : Answers cmd out) :
    cmd.ticket? = none ∨ out.length = 1 := by
  cases h <;> simp [IoCommand.ticket?]

theorem backlog_unchanged {trace : Trace} {s t : System} {e : Event IoCommand IoResult}
    (hrun : MonitorRun cx config trace s) (hstep : Step (monitor cx config) s e t)
    (he : e.handledMsg? = none) : backlog (trace ++ [⟨s, e⟩]) t = backlog trace s := by
  cases e with
  | fed => exact (requests_fed _ hstep).trans (List.append_nil _)
  | answered cmd out =>
      exact requests_answered _ hrun rfl hstep (step_answers hstep).one_ticket
  | handled msg out => cases he

theorem backlog_orderly {trace : Trace} {s : System} (hrun : MonitorRun cx config trace s)
    (hsteady : Steady trace) :
    Orderly maxFetchRetries s.state.lastProcessedHeight (backlog trace s) := by
  induction hrun with
  | nil => exact orderly_nil
  | @snoc trace s e t hrun hstep ih =>
      have hearlier := hsteady.earlier
      cases e with
      | handled msg out => exact orderly_handled hrun hearlier (ih hearlier) hstep
      | fed =>
          rw [backlog_unchanged hrun hstep rfl, hstep.state_fed]
          exact ih hearlier
      | answered cmd out =>
          rw [backlog_unchanged hrun hstep rfl, hstep.state_answered]
          exact ih hearlier

/-- What is under way of blocks and block results: at most the fetch of the next
block, and at most one request for each number of attempts, all of them for the
latest heights, the older ones with more attempts behind them. -/
structure ShortBacklog (trace : Trace) (s : System) : Prop where
  length_le : (workProbe.view s).length ≤ maxFetchRetries + 2
  fetch : blockFetches s = [] ∨ blockFetches s = [.specific (s.state.lastProcessedHeight + 1)]
  heights_eq : (entries (backlog trace s)).map Prod.fst = bundleHeights s
  tries_le : ∀ p ∈ entries (backlog trace s), p.2 ≤ maxFetchRetries
  recent : ∀ h ∈ bundleHeights s, h ≤ s.state.lastProcessedHeight ∧
    s.state.lastProcessedHeight ≤ h + maxFetchRetries
  tries_nodup : ((entries (backlog trace s)).map Prod.snd).Nodup
  older_tried_more : ∀ p ∈ entries (backlog trace s), ∀ q ∈ entries (backlog trace s),
    p.1 < q.1 → q.2 < p.2

theorem backlog_short {trace : Trace} {s : System} (hrun : MonitorRun cx config trace s)
    (hsteady : Steady trace) : ShortBacklog trace s := by
  have hin := backlog_orderly hrun hsteady
  have hwork := backlog_work hrun
  constructor
  · have hlen := congrArg List.length hwork
    rw [List.length_map, List.length_map] at hlen
    rw [← hlen]
    exact hin.length_le
  · exact blockFetches_steady hrun hsteady
  · have hheights := congrArg (List.filterMap id) hwork
    rw [List.filterMap_map, List.filterMap_map] at hheights
    rw [bundleHeights, bundles, entries, List.map_filterMap, List.map_filterMap]
    exact hheights
  · exact fun p hp => (hin.onTime _ (mem_entries.mp hp)).2.2
  · intro h hh
    obtain ⟨retries, hmem⟩ := mem_backlog_of_bundle hrun hh
    have htime : h ≤ s.state.lastProcessedHeight ∧ s.state.lastProcessedHeight ≤ h + retries ∧
        retries ≤ maxFetchRetries := hin.onTime _ hmem
    exact ⟨htime.1, by omega⟩
  · exact hin.tries_nodup
  · intro p hp q hq
    exact hin.older_tried_more hp hq

/-- The sample chain with other blocks. -/
def Sample.codecsOf (blocks : List Block) : Codecs :=
  { Sample.codecs with
    jsonResponse := fun s =>
      match blocks.find? (fun b => s = Sample.blockJson b) with
      | some b => .ok ⟨b⟩
      | none => .error "expected value at line 1 column 1" }

def Sample.busyBlock (height : Nat) : Block := ⟨⟨toString height⟩, ⟨[Sample.confirmTxText]⟩⟩

def Sample.busyCodecs : Codecs := Sample.codecsOf ([5, 6, 7, 8, 9].map Sample.busyBlock)

/-- Every block asks for a confirmation and no block results can be fetched. -/
def Sample.resultsDown : List (Action Http) :=
  let servesBusy (height : Nat) := Sample.serves (Sample.blockJson (Sample.busyBlock height))
  [.feed, .feed, Sample.serves Sample.chainListJson, servesBusy 5, servesBusy 9, .handle, .handle,
    .handle, Sample.serves Sample.chainParamsJson, servesBusy 5, .handle, .handle,
    Sample.fails, servesBusy 6, .handle, .handle,
    Sample.fails, Sample.fails, servesBusy 7, .handle, .handle, .handle,
    Sample.fails, Sample.fails, Sample.fails, servesBusy 8, .handle, .handle, .handle, .handle]

/-- The bound on the backlog is reached. -/
theorem backlog_of_five :
    ∃ r : Trace × System, MonitorRun Sample.busyCodecs Sample.config r.1 r.2 ∧
      (workProbe.view r.2).length = maxFetchRetries + 2 ∧
      entries (backlog r.1 r.2) = [(5, 3), (6, 2), (7, 1), (8, 0)] ∧ ShortBacklog r.1 r.2 := by
  have hreplay : ∃ r ∈ (monitor Sample.busyCodecs Sample.config).replay
      (startUp Sample.busyCodecs Sample.config) Sample.resultsDown, HonestHeights r.1 ∧
      (fetchedHeads r.1).Pairwise (· ≤ ·) ∧ (∀ h ∈ fetchedHeads r.1, 2 ≤ h) ∧
      (workProbe.view r.2).length = maxFetchRetries + 2 ∧
      entries (backlog r.1 r.2) = [(5, 3), (6, 2), (7, 1), (8, 0)] := by
    decide +kernel
  obtain ⟨r, hr, hhonest, hsorted, htwo, hlength, hentries⟩ := hreplay
  have hrun := replay_run hr
  exact ⟨r, hrun, hlength, hentries, backlog_short hrun ⟨hhonest, hsorted, htwo⟩⟩

end AxelarMonitor
