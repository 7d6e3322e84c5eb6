import AxelarMonitor.BlockFetches
import AxelarMonitor.Expiry
import AxelarMonitor.Labels
import AxelarMonitor.Lib.Outages

/-!
`main.rs` and `metrics.rs` thread by thread. The threads send one command or
result at a time, the processing thread publishes a snapshot after each
message, and the metrics server reads the published snapshot whenever it is
asked. What the coarser steps of the monitor hide is where a `FetchHead` falls
between the commands of one reply, how old a served snapshot is, and what
happens when a thread panics.
-/

namespace AxelarMonitor

open FifoLoop

structure MetricsSnapshot where
  fetchErrorCount : Nat
  chainHeight : Nat
  broadcasterVotes : OrderedMap VoteResult Nat
  lastProcessedHeight : Nat

def ProcessingState.metricsSnapshot (st : ProcessingState) : MetricsSnapshot where
  fetchErrorCount := st.fetchErrorCount
  chainHeight := st.chainHeight
  broadcasterVotes := st.voteResults
  lastProcessedHeight := st.lastProcessedHeight

structure HttpResponse where
  status : Nat
  body : String
  deriving DecidableEq

/-- One round of `metrics_server_loop`. The text of a snapshot is written by
generated code. -/
def answerRequest (toText : MetricsSnapshot → String) (snapshot : MetricsSnapshot)
    (url : String) : HttpResponse :=
  if url ≠ "/metrics" then ⟨404, "Not Found"⟩ else ⟨200, toText snapshot⟩

abbrev Program := Workers ProcessingState IoCommand IoResult MetricsSnapshot

abbrev ProgramLabel := Label IoCommand IoResult MetricsSnapshot

/-- `main` sends `FetchChainList`, starts the feeder and publishes the snapshot
of a new state before the processing loop begins. -/
def launch (cx : Codecs) (config : Config) : Program where
  state := .new cx config
  shown := (ProcessingState.new cx config).metricsSnapshot
  replying := false
  unsent := []
  cmds := [.fetchChainList]
  answering := []
  results := []
  feeding := true
  serving := true
  up := true

abbrev ProgramRun (cx : Codecs) (config : Config) (labels : List ProgramLabel) (w : Program) :
    Prop :=
  WorkerRun (monitor cx config) ProcessingState.metricsSnapshot (launch cx config) labels w

abbrev LooseMonitorRun (cx : Codecs) (config : Config) (trace : Trace) (s : System) : Prop :=
  LooseRun (monitor cx config) (startUp cx config) trace s

variable {cx : Codecs} {config : Config}

theorem launch_runs : Runs (launch cx config) (startUp cx config) where
  state_eq := rfl
  results_eq := rfl
  cmds_eq _ := rfl
  unsent_idle _ := rfl

/-- Counters keep their values or grow, and no series disappears. -/
structure Grows (a b : MetricsSnapshot) : Prop where
  errors_le : a.fetchErrorCount ≤ b.fetchErrorCount
  height_le : a.chainHeight ≤ b.chainHeight
  votes_le : ∀ key n, a.broadcasterVotes.get? key = some n →
    ∃ n', b.broadcasterVotes.get? key = some n' ∧ n ≤ n'

theorem Grows.refl (a : MetricsSnapshot) : Grows a a where
  errors_le := Nat.le_refl _
  height_le := Nat.le_refl _
  votes_le _ n h := ⟨n, h, Nat.le_refl n⟩

theorem Grows.trans {a b c : MetricsSnapshot} (hab : Grows a b) (hbc : Grows b c) :
    Grows a c where
  errors_le := hab.errors_le.trans hbc.errors_le
  height_le := hab.height_le.trans hbc.height_le
  votes_le key n h := by
    obtain ⟨n', hn', hle⟩ := hab.votes_le key n h
    obtain ⟨n'', hn'', hle'⟩ := hbc.votes_le key n' hn'
    exact ⟨n'', hn'', hle.trans hle'⟩

theorem Handles.grows {st st' : ProcessingState} {msg : IoResult} {out : List IoCommand}
    (h : Handles cx config st msg st' out) : Grows st.metricsSnapshot st'.metricsSnapshot := by
  have hcounted : Grows st.metricsSnapshot (countError st).metricsSnapshot :=
    ⟨Nat.le_succ _, Nat.le_refl _, fun _ n hn => ⟨n, hn, Nat.le_refl n⟩⟩
  cases h with
  | block height b data hdata =>
      refine ⟨Nat.le_refl _, Nat.le_max_left _ _, ?_⟩
      intro key n hn
      simp only [ProcessingState.metricsSnapshot] at hn ⊢
      rw [applyBlock_voteResults]
      exact get?_closing_of_some _ hn
  | chainParams q =>
      refine ⟨Nat.le_refl _, Nat.le_refl _, ?_⟩
      intro key n hn
      simp only [ProcessingState.metricsSnapshot] at hn ⊢
      refine ⟨n, ?_, Nat.le_refl n⟩
      rw [processChainParams_voteResults, OrderedMap.get?_foldl_orInsert, hn]
      split <;> rfl
  | retryBlock => exact hcounted
  | latestError => exact hcounted
  | retryResults => exact hcounted
  | dropResults => exact hcounted
  | retryChainList => exact hcounted
  | skipBlock => exact ⟨hcounted.errors_le, hcounted.height_le, hcounted.votes_le⟩
  | firstHead => exact ⟨Nat.le_refl _, Nat.le_refl _, fun _ n hn => ⟨n, hn, Nat.le_refl n⟩⟩
  | nextHead => exact ⟨Nat.le_refl _, Nat.le_refl _, fun _ n hn => ⟨n, hn, Nat.le_refl n⟩⟩
  | moveTip => exact ⟨Nat.le_refl _, Nat.le_refl _, fun _ n hn => ⟨n, hn, Nat.le_refl n⟩⟩
  | blockResults => exact Grows.refl _
  | chainList => exact Grows.refl _

/-- The responses to the requests that were served during a run, one for each
look at the snapshot. -/
def responses (toText : MetricsSnapshot → String) (labels : List ProgramLabel)
    (urls : List String) : List HttpResponse :=
  ((looks labels).zip urls).map (fun request => answerRequest toText request.1 request.2)

/-- A run of the monitor behind a run of the threads. Its states are those that
are served, in their order, and what is served is at most one message old. -/
structure Scraped (cx : Codecs) (config : Config) (labels : List ProgramLabel) (w : Program)
    (trace : Trace) (s : System) : Prop where
  run : LooseMonitorRun cx config trace s
  events_eq : trace.map Transition.event = events labels
  runs : Runs w s
  sampled : Sampled (looks labels) ((visited trace s).map ProcessingState.metricsSnapshot)
  served : ∀ toText urls, ∀ response ∈ responses toText labels urls,
    response = ⟨404, "Not Found"⟩ ∨
      ∃ st ∈ visited trace s, response = ⟨200, toText st.metricsSnapshot⟩
  recent : w.shown = w.state.metricsSnapshot ∨
    ∃ prior msg out, Handles cx config prior msg w.state out ∧
      w.shown = prior.metricsSnapshot ∧ w.unsent <:+ out

/-- The threads run the monitor, up to the places at which `FetchHead` falls
into the queue, and every served snapshot is that of a state of this run. -/
theorem scrapes_refine {labels : List ProgramLabel} {w : Program}
    (hrun : ProgramRun cx config labels w) : ∃ trace s, Scraped cx config labels w trace s := by
  obtain ⟨trace, s, href⟩ := hrun.refines launch_runs rfl
  refine ⟨trace, s, href.run, href.events_eq, href.runs, href.sampled, ?_, ?_⟩
  · intro toText urls response hresponse
    obtain ⟨⟨seen, url⟩, hrequest, rfl⟩ := List.mem_map.mp hresponse
    have hseen := href.sampled.subset (List.of_mem_zip hrequest).1
    obtain ⟨st, hst, rfl⟩ := List.mem_map.mp hseen
    unfold answerRequest
    split
    · exact Or.inl rfl
    · exact Or.inr ⟨st, hst, rfl⟩
  obtain ⟨hnow, hlate⟩ := hrun.shown_current rfl rfl
  cases hreplying : w.replying with
  | false => exact Or.inl (hnow hreplying)
  | true =>
      obtain ⟨prior, msg, out, sent, hhandle, hprior, hout⟩ := hlate hreplying
      refine Or.inr ⟨prior, msg, out, processSingleMessage_handles cx hhandle, hprior, ?_⟩
      exact ⟨sent, hout.symm⟩

namespace Sample

def threads (cx : Codecs) (config : Config) (schedule : List (Choice Http)) :
    Option (List ProgramLabel × Program) :=
  (monitor cx config).replaySingly ProcessingState.metricsSnapshot (launch cx config) schedule

theorem run_of_threads {cx : Codecs} {config : Config} {schedule : List (Choice Http)}
    {P : List ProgramLabel × Program → Prop} (h : ∃ r ∈ threads cx config schedule, P r) :
    ∃ r : List ProgramLabel × Program, ProgramRun cx config r.1 r.2 ∧ P r := by
  obtain ⟨r, hr, hP⟩ := h
  exact ⟨r, replaySingly_run hr, hP⟩

/-- The IO thread takes a command, and then sends the one result. -/
def replies (body : String) : List (Choice Http) :=
  [.answerer (fun _ => .ok body), .answerer (fun _ => .ok body)]

/-- Block 5 is processed on the way to 7. A `FetchHead` and a scrape come
between the two commands that it leads to, another scrape after them. -/
def betweenSends : List (Choice Http) :=
  [.feeder] ++ replies chainListJson ++ replies (blockJson (block 5)) ++ [.feeder] ++
    replies (blockJson (block 7)) ++ [.handler, .handler, .handler] ++
    [.handler, .handler, .handler] ++ [.handler, .handler] ++ replies chainParamsJson ++
    replies (blockJson (block 5)) ++ [.handler, .handler] ++
    [.handler, .handler, .feeder, .onlooker, .handler, .handler, .onlooker]

end Sample

theorem scrape_between_sends :
    ∃ r : List ProgramLabel × Program, ProgramRun Sample.codecs Sample.config r.1 r.2 ∧
      (looks r.1).map MetricsSnapshot.lastProcessedHeight = [4, 5] ∧
      r.2.cmds.filterMap IoCommand.fetchHeight? = [.specific 6] ∧
      r.2.cmds.idxOf .fetchHead = 1 ∧
      ∃ trace s, Scraped Sample.codecs Sample.config r.1 r.2 trace s := by
  have hreplay : ∃ r ∈ Sample.threads Sample.codecs Sample.config Sample.betweenSends,
      (looks r.1).map MetricsSnapshot.lastProcessedHeight = [4, 5] ∧
      r.2.cmds.filterMap IoCommand.fetchHeight? = [.specific 6] ∧
      r.2.cmds.idxOf .fetchHead = 1 := by
    decide +kernel
  obtain ⟨r, hrun, hlooks, hfetches, hfed⟩ := Sample.run_of_threads hreplay
  exact ⟨r, hrun, hlooks, hfetches, hfed, scrapes_refine hrun⟩

/-- Of two scrapes the later one has every series of the earlier one, with a
value at least as high, and error count and chain height at least as high. -/
theorem scrapes_grow {labels : List ProgramLabel} {w : Program}
    (hrun : ProgramRun cx config labels w) : (looks labels).Pairwise Grows := by
  obtain ⟨trace, s, href⟩ := hrun.refines launch_runs rfl
  have hstates : (visited trace s).Pairwise
      (fun st st' => Grows st.metricsSnapshot st'.metricsSnapshot) := by
    apply href.run.visited_pairwise
    · exact fun st => Grows.refl _
    · exact fun _ _ _ hab hbc => hab.trans hbc
    · intro earlier u msg out later v _ _ hstep
      exact (step_handles hstep).grows
  apply href.sampled.pairwise Grows.refl
  rwa [List.pairwise_map]

theorem scrapes_of_block_grow :
    ∃ r : List ProgramLabel × Program, ProgramRun Sample.codecs Sample.config r.1 r.2 ∧
      (looks r.1).map MetricsSnapshot.chainHeight = [0, 5] ∧ (looks r.1).Pairwise Grows := by
  have hreplay : ∃ r ∈ Sample.threads Sample.codecs Sample.config Sample.betweenSends,
      (looks r.1).map MetricsSnapshot.chainHeight = [0, 5] := by
    decide +kernel
  obtain ⟨r, hrun, hlooks⟩ := Sample.run_of_threads hreplay
  exact ⟨r, hrun, hlooks, scrapes_grow hrun⟩

theorem loose_handledHeads_initial {trace : Trace} {s : System}
    (hrun : LooseMonitorRun cx config trace s) : handledHeads trace <+: fetchedHeads trace := by
  have hfifo := hrun.handled_append_results
  refine ⟨s.results.filterMap IoResult.head?, ?_⟩
  unfold handledHeads fetchedHeads
  rw [← List.filterMap_append, hfifo]
  rfl

/-- Wherever the head fetches fall, a run simulates the follower. -/
theorem loose_follows {trace : Trace} {s : System} (hrun : LooseMonitorRun cx config trace s)
    (hhonest : HonestHeights trace) (hpos : ∀ h ∈ handledHeads trace, 1 ≤ h) :
    ∃ f, Follower.Run (fun _ _ => True) (moves trace) f ∧ Follows f s := by
  induction hrun with
  | nil => exact ⟨.start, .nil, rfl, rfl, rfl⟩
  | @snoc trace s e t hrun hstep ih =>
      have hearlier : handledHeads trace ⊆ handledHeads (trace ++ [⟨s, e⟩]) := by
        intro h hh
        unfold handledHeads at hh ⊢
        rw [handledMsgs_snoc, List.filterMap_append]
        exact List.mem_append_left _ hh
      obtain ⟨f, hfrun, hf⟩ := ih (fun x hx => hhonest x (List.mem_append_left _ hx))
        (fun h hh => hpos h (hearlier hh))
      cases e with
      | fed =>
          have hview := fetchProbe.view_loose_fed rfl hstep
          refine ⟨f, by simpa [moves] using hfrun, ?_, ?_, hview.trans hf.pending_eq⟩
          · rw [hstep.state_fed, hf.processed_eq]
          · rw [hstep.state_fed, hf.tip_eq]
      | answered cmd out =>
          have hone := hstep.answered
          have hkeeps := hf.keeps hone (hhonest _ (List.mem_append_right _ List.mem_cons_self))
          have hview := fetchProbe.view_answered hone hkeeps
          refine ⟨f, by simpa [moves] using hfrun, ?_, ?_, hview.trans hf.pending_eq⟩
          · rw [hone.state_answered, hf.processed_eq]
          · rw [hone.state_answered, hf.tip_eq]
      | handled msg out =>
          have hmsg : ∀ h, msg = .head h → 1 ≤ h := by
            rintro h rfl
            exact hpos h (by simp [handledHeads, IoResult.head?])
          obtain ⟨g, hgt, ⟨hnone, rfl⟩ | ⟨mv, hmv, hg⟩⟩ := hf.handled hstep.handled hmsg
          · exact ⟨g, by simpa [moves, hnone] using hfrun, hgt⟩
          · exact ⟨g, by simpa [moves, hmv] using hfrun.snoc trivial hg, hgt⟩

theorem loose_inStep {trace : Trace} {s : System} (hrun : LooseMonitorRun cx config trace s)
    (hsteady : Steady trace) :
    ∃ f, Follows f s ∧ ((handledHeads trace = [] ∧ f = .start) ∨
      ∃ first rest, handledHeads trace = first :: rest ∧
        Follower.InStep first (moves trace) f) := by
  have hinitial := loose_handledHeads_initial hrun
  have htwo : ∀ h ∈ handledHeads trace, 2 ≤ h :=
    fun h hh => hsteady.two_le h (hinitial.subset hh)
  obtain ⟨f, hfrun, hf⟩ := loose_follows hrun hsteady.honest
    (fun h hh => (Nat.le_succ 1).trans (htwo h hh))
  refine ⟨f, hf, ?_⟩
  have hinStep := Follower.run_inStep hfrun
    (by rw [announcements_moves]; exact hsteady.sorted.sublist hinitial.sublist)
    (by rw [announcements_moves]; exact htwo)
  rw [announcements_moves] at hinStep
  rcases hinStep with ⟨hnone, -, rfl⟩ | hstarted
  · exact Or.inl ⟨hnone, rfl⟩
  · exact Or.inr hstarted

/-- The heights of the head fetches that succeeded, in order. -/
def reportedHeads (labels : List ProgramLabel) : List Nat :=
  (((events labels).filterMap Event.answer?).flatMap Prod.snd).filterMap IoResult.head?

/-- The assumptions of a steady run, read off the events of the threads. -/
structure SteadyProgram (labels : List ProgramLabel) : Prop where
  honest : ∀ e ∈ events labels, requestedHeight e
  sorted : (reportedHeads labels).Pairwise (· ≤ ·)
  two_le : ∀ h ∈ reportedHeads labels, 2 ≤ h

theorem SteadyProgram.steady {labels : List ProgramLabel} {trace : Trace}
    (h : SteadyProgram labels) (hevents : trace.map Transition.event = events labels) :
    Steady trace := by
  have hheads : fetchedHeads trace = reportedHeads labels := by
    rw [reportedHeads, ← hevents, List.filterMap_map]
    rfl
  refine ⟨?_, hheads ▸ h.sorted, hheads ▸ h.two_le⟩
  intro x hx
  apply h.honest
  rw [← hevents]
  exact List.mem_map_of_mem hx

/-- The block fetches in flight: with a result being handed over or waiting, in
the queue, or about to be sent. -/
def fetchesInFlight (w : Program) : List Height :=
  (w.results ++ w.answering).filterMap IoResult.fetchHeight? ++
    (w.cmds ++ w.unsent).filterMap IoCommand.fetchHeight?

/-- After the first head and while the IO thread is up, one block is being
fetched if the monitor is behind, the next one, and none otherwise. -/
theorem one_fetch_in_flight {labels : List ProgramLabel} {w : Program}
    (hrun : ProgramRun cx config labels w) (hsteady : SteadyProgram labels)
    (hserving : w.serving) (hstarted : ∃ h out, .handled (.head h) out ∈ events labels) :
    w.state.lastProcessedHeight ≤ w.state.chainTip ∧
      fetchesInFlight w = if w.state.lastProcessedHeight < w.state.chainTip then
        [.specific (w.state.lastProcessedHeight + 1)] else [] := by
  obtain ⟨trace, s, href⟩ := hrun.refines launch_runs rfl
  obtain ⟨f, hf, ⟨hnone, -⟩ | ⟨first, rest, -, hin⟩⟩ :=
    loose_inStep href.run (hsteady.steady href.events_eq)
  · obtain ⟨h, out, hmem⟩ := hstarted
    rw [← href.events_eq, List.mem_map] at hmem
    obtain ⟨x, hx, hevent⟩ := hmem
    have hhead : h ∈ handledHeads trace := by
      apply List.mem_filterMap.mpr
      exact ⟨.head h, List.mem_filterMap.mpr ⟨x, hx, by rw [hevent]; rfl⟩, rfl⟩
    rw [hnone] at hhead
    cases hhead
  · have hview : fetchesInFlight w = blockFetches s := by
      rw [fetchesInFlight, ← href.runs.results_eq, ← href.runs.cmds_eq hserving]
      rfl
    rw [hview, hf.pending_eq, hin.pending_eq, hf.processed_eq, hf.tip_eq,
      href.runs.state_eq]
    refine ⟨?_, by split <;> rfl⟩
    rw [← href.runs.state_eq, ← hf.processed_eq, ← hf.tip_eq]
    exact hin.bounded

theorem one_fetch_between_sends :
    ∃ r : List ProgramLabel × Program, ProgramRun Sample.codecs Sample.config r.1 r.2 ∧
      r.2.state.lastProcessedHeight = 5 ∧ r.2.state.chainTip = 7 ∧
      fetchesInFlight r.2 = [.specific 6] := by
  have hreplay : ∃ r ∈ Sample.threads Sample.codecs Sample.config Sample.betweenSends,
      (∀ e ∈ events r.1, requestedHeight e) ∧ reportedHeads r.1 = [5, 7] ∧ r.2.serving ∧
      ((events r.1).filterMap Event.handledMsg?).filterMap IoResult.head? = [5, 7] ∧
      r.2.state.lastProcessedHeight = 5 ∧ r.2.state.chainTip = 7 := by
    decide +kernel
  obtain ⟨r, hrun, hhonest, hheads, hserving, hhandled, hlast, htip⟩ :=
    Sample.run_of_threads hreplay
  have hsteady : SteadyProgram r.1 := by
    refine ⟨hhonest, ?_, ?_⟩ <;> rw [hheads] <;> decide
  have hstarted : ∃ h out, .handled (.head h) out ∈ events r.1 := by
    have hmem : 5 ∈ ((events r.1).filterMap Event.handledMsg?).filterMap IoResult.head? := by
      rw [hhandled]
      exact List.mem_cons_self
    obtain ⟨msg, hmsg, hhead⟩ := List.mem_filterMap.mp hmem
    obtain ⟨e, he, hevent⟩ := List.mem_filterMap.mp hmsg
    cases e with
    | handled msg' out =>
        cases hevent
        cases msg with
        | head h => exact ⟨h, out, he⟩
        | _ => cases hhead
    | _ => cases hevent
  obtain ⟨-, hfetch⟩ := one_fetch_in_flight hrun hsteady hserving hstarted
  refine ⟨r, hrun, hlast, htip, ?_⟩
  rw [hfetch, hlast, htip]
  rfl

theorem Follower.InStep.processed_le {first : Nat} {moves : List Follower.Move}
    {f g : Follower} {mv : Follower.Move} (hin : Follower.InStep first moves f)
    (hstep : Follower.Step f mv g) : f.processed ≤ g.processed := by
  have hstarted := hin.started
  have hpending := hin.pending_eq
  cases hstep with
  | announced f h =>
      unfold Follower.announce
      split_ifs with hzero
      · rw [hzero] at hstarted
        cases hstarted
      · exact Nat.le_refl _
      · exact Nat.le_refl _
  | retried => exact Nat.le_refl _
  | settled p t x rest =>
      simp only at hpending
      split_ifs at hpending
      obtain ⟨rfl, -⟩ := List.cons.inj hpending
      exact Nat.le_succ p

/-- The last processed height is exported as a counter. In a steady run no
scrape sees it go back. -/
theorem scraped_height_grows {labels : List ProgramLabel} {w : Program}
    (hrun : ProgramRun cx config labels w) (hsteady : SteadyProgram labels) :
    (looks labels).Pairwise (fun a b => a.lastProcessedHeight ≤ b.lastProcessedHeight) := by
  obtain ⟨trace, s, href⟩ := hrun.refines launch_runs rfl
  have hsteady' := hsteady.steady href.events_eq
  have hstates : (visited trace s).Pairwise
      (fun st st' => st.lastProcessedHeight ≤ st'.lastProcessedHeight) := by
    apply href.run.visited_pairwise
    · exact fun st => Nat.le_refl _
    · exact fun _ _ _ hab hbc => hab.trans hbc
    · intro earlier u msg out later v hsplit hearlier hstep
      obtain rfl := hsplit
      have hnext : Steady (earlier ++ [⟨u, .handled msg out⟩]) := by
        have hall : Steady ((earlier ++ [⟨u, .handled msg out⟩]) ++ later) := by
          simpa using hsteady'
        exact hall.earlier
      have hpos : ∀ h, msg = .head h → 1 ≤ h := by
        rintro h rfl
        have hhead : h ∈ handledHeads (earlier ++ [⟨u, .handled (.head h) out⟩]) := by
          simp [handledHeads, IoResult.head?]
        have hinitial := loose_handledHeads_initial (hearlier.snoc (.work hstep))
        exact (Nat.le_succ 1).trans (hnext.two_le h (hinitial.subset hhead))
      obtain ⟨f, hf, hfollower⟩ := loose_inStep hearlier hnext.earlier
      obtain ⟨g, hg, ⟨-, rfl⟩ | ⟨mv, -, hmove⟩⟩ := hf.handled hstep hpos
      · rw [← hf.processed_eq, ← hg.processed_eq]
      · rw [← hf.processed_eq, ← hg.processed_eq]
        rcases hfollower with ⟨-, rfl⟩ | ⟨first, rest, -, hin⟩
        · exact Nat.zero_le _
        · exact hin.processed_le hmove
  have hrefl (o : MetricsSnapshot) : o.lastProcessedHeight ≤ o.lastProcessedHeight := Nat.le_refl _
  apply href.sampled.pairwise (r := fun a b => a.lastProcessedHeight ≤ b.lastProcessedHeight) hrefl
  rwa [List.pairwise_map]

theorem scraped_height_of_block :
    ∃ r : List ProgramLabel × Program, ProgramRun Sample.codecs Sample.config r.1 r.2 ∧
      (looks r.1).length = 2 ∧
      (looks r.1).Pairwise (fun a b => a.lastProcessedHeight ≤ b.lastProcessedHeight) := by
  have hreplay : ∃ r ∈ Sample.threads Sample.codecs Sample.config Sample.betweenSends,
      (∀ e ∈ events r.1, requestedHeight e) ∧ reportedHeads r.1 = [5, 7] ∧
      (looks r.1).length = 2 := by
    decide +kernel
  obtain ⟨r, hrun, hhonest, hheads, hlooks⟩ := Sample.run_of_threads hreplay
  have hsteady : SteadyProgram r.1 := by
    refine ⟨hhonest, ?_, ?_⟩ <;> rw [hheads] <;> decide
  exact ⟨r, hrun, hlooks, scraped_height_grows hrun hsteady⟩

/-- The only command that can panic the IO thread. -/
theorem exec_eq_none {http : Http} {cmd : IoCommand}
    (h : (monitor cx config).exec http cmd = none) :
    ∃ chain params, cmd = .fetchChainParams chain ∧
      getChainParams cx http config.rpcUrl chain = .ok params ∧ params.into = none := by
  cases cmd with
  | fetchChainParams chain =>
      simp only [monitor, processSingleIoCommand] at h
      split at h
      · next params hparams =>
        exact ⟨chain, params, rfl, hparams, by simpa using h⟩
      · cases h
  | _ =>
      simp only [monitor, processSingleIoCommand] at h
      split at h <;> cases h

/-- At some step of the run the IO thread takes the command to fetch the parameters
of a chain, and panics because what it is served does not parse. -/
def PanicsOnParams (cx : Codecs) (config : Config) (labels : List ProgramLabel) (w : Program) :
    Prop :=
  ∃ http chain params, FailsOver (monitor cx config) ProcessingState.metricsSnapshot
    (launch cx config) labels w http (.fetchChainParams chain) ∧
      getChainParams cx http config.rpcUrl chain = .ok params ∧ params.into = none

theorem panicked_on_params {labels : List ProgramLabel} {w : Program}
    (hrun : ProgramRun cx config labels w) (hdown : w.serving = false) :
    PanicsOnParams cx config labels w := by
  obtain ⟨http, cmd, hfails⟩ := hrun.failsOver rfl hdown
  obtain ⟨chain, params, rfl, hfetched, hinto⟩ := exec_eq_none hfails.exec_eq_none
  exact ⟨http, chain, params, hfails, hfetched, hinto⟩

/-- Ways of going on. -/
abbrev Continues (cx : Codecs) (config : Config) (w : Program) (more : List ProgramLabel)
    (w' : Program) : Prop :=
  WorkerRun (monitor cx config) ProcessingState.metricsSnapshot w more w'

/-- What a run has come to when its IO thread has panicked, which it does only over
chain parameters that are no 16-bit numbers. The results that are left are handled
and no others; once they are, state and metrics stay as they are for good. The
process ends only if a command is still to be sent, or if one of these results asks
for one or panics. -/
structure SilentOutage (cx : Codecs) (config : Config) (labels : List ProgramLabel)
    (w : Program) : Prop where
  cause : PanicsOnParams cx config labels w
  handled_left : ∀ more w', Continues cx config w more w' →
    handledOf more ++ w'.results = w.results
  frozen : ∀ more w', Continues cx config w more w' → w'.results = [] → w'.replying = false →
    ∀ later w'', Continues cx config w' later w'' → w''.state = w'.state ∧
      ∀ seen ∈ looks later, seen = w'.state.metricsSnapshot
  stays_up_iff : (∀ more w', Continues cx config w more w' → w'.up) ↔
    Survives (monitor cx config) w

theorem io_panic_unnoticed {labels : List ProgramLabel} {w : Program}
    (hrun : ProgramRun cx config labels w) (hup : w.up) (hdown : w.serving = false) :
    SilentOutage cx config labels w := by
  have hgone : Gone w := hrun.gone_of_down rfl hdown
  refine ⟨panicked_on_params hrun hdown, ?_, ?_, FifoLoop.stays_up_iff hup hgone⟩
  · exact fun more w' hmore => hmore.handled_left hgone
  · intro more w' hmore hresults hreplying later w'' hlater
    have hall := hrun.append hmore
    obtain ⟨trace, s, href⟩ := hall.refines launch_runs rfl
    have hfrozen : Frozen w' :=
      ⟨hmore.gone hgone, hresults, href.runs.unsent_idle hreplying, hreplying⟩
    obtain ⟨-, hstate, -, -, hlooks⟩ := hlater.frozen hfrozen
    refine ⟨hstate, ?_⟩
    intro seen hseen
    rw [hlooks seen hseen]
    exact (hall.shown_current rfl rfl).1 hreplying

/-- A locking period too long for 16 bits, met before the first head. -/
def Sample.panicAtStart : List (Choice Http) :=
  replies chainListJson ++ [.handler, .handler, .handler] ++
    [.answerer (fun _ => .ok longPeriodJson)]

theorem panic_at_start_unnoticed :
    ∃ r : List ProgramLabel × Program, ProgramRun Sample.longPeriodCodecs Sample.config r.1 r.2 ∧
      Survives (monitor Sample.longPeriodCodecs Sample.config) r.2 ∧
      SilentOutage Sample.longPeriodCodecs Sample.config r.1 r.2 := by
  have hreplay : ∃ r ∈ Sample.threads Sample.longPeriodCodecs Sample.config Sample.panicAtStart,
      r.2.up ∧ r.2.serving = false ∧ r.2.unsent = [] ∧ r.2.results = [] := by
    decide +kernel
  obtain ⟨r, hrun, hup, hdown, hunsent, hresults⟩ := Sample.run_of_threads hreplay
  refine ⟨r, hrun, ⟨hunsent, ?_⟩, io_panic_unnoticed hrun hup hdown⟩
  rw [hresults]
  rfl

end AxelarMonitor
