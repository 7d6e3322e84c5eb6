import AxelarMonitor.Node
import AxelarMonitor.Superposition

/-!
A monitor that is started again. Its state is in memory only, so it begins at
the head it is told of first; what it lacks at rest, against one that has run
since before, are the polls that were created in between and nothing else.
-/

namespace AxelarMonitor

open FifoLoop

variable {cx : Codecs} {config : Config} {node : Node}

/-- A monitor that has come to rest in front of the node, from the first head
that it fetched to the last one. The fetches that it does not repeat, or not
without end, did not fail. -/
structure CameToRest (cx : Codecs) (config : Config) (node : Node) (first last : Nat)
    (trace : Trace) (s : System) : Prop where
  faces : ∃ tip, Faces cx config node tip trace s
  list : FirstListSucceeds trace
  params : ParamsSucceed trace
  results : ResultsSucceed trace
  rest : AtRest s
  first_eq : (fetchedHeads trace).head? = some first
  last_eq : (fetchedHeads trace).getLast? = some last

namespace Sample

/-- A run in two stages, with the chain at one height and then at another. -/
theorem cameToRest_of_replay {tip tip' first last : Nat} (htwo : 2 ≤ tip) (hle : tip ≤ tip')
    {begin : List (Action { http // Serves codecs Sample.config Sample.node tip http })}
    {finish : List (Action { http // Serves codecs Sample.config Sample.node tip' http })}
    {r r' : Trace × System}
    (hr : (facing codecs Sample.config Sample.node tip).replay
      (startUp codecs Sample.config) begin = some r)
    (hr' : (facing codecs Sample.config Sample.node tip').replay r.2 finish = some r')
    (hlist : FirstListSucceeds (r.1 ++ r'.1)) (hparams : ParamsSucceed (r.1 ++ r'.1))
    (hresults : ResultsSucceed (r.1 ++ r'.1)) (hcmds : r'.2.cmds = []) (hnone : r'.2.results = [])
    (hheads : fetchedHeads (r.1 ++ r'.1) = [first, last]) :
    CameToRest codecs Sample.config Sample.node first last (r.1 ++ r'.1) r'.2 := by
  have hfaces := (((Faces.nil tip htwo).append (replay_run hr)).grow hle).append (replay_run hr')
  rw [List.nil_append] at hfaces
  refine ⟨⟨tip', hfaces⟩, hlist, hparams, hresults, ⟨hcmds, hnone⟩, ?_, ?_⟩ <;>
    rw [hheads] <;> rfl

/-- The poll of block 5 is closed by block 7, with one vote. -/
theorem fiveToSeven :
    ∃ trace s, CameToRest codecs Sample.config Sample.node 5 7 trace s ∧
      skippedHeights trace = [] ∧ s.state.expiredPollIds = {1} ∧
      s.state.voteResults.count ⟨"chorus", "eth", .agreed⟩ = 1 := by
  have hreplay : ∃ r ∈ (facing codecs Sample.config Sample.node 5).replay
        (startUp codecs Sample.config) untilFive,
      ∃ r' ∈ (facing codecs Sample.config Sample.node 7).replay r.2 untilSeven,
        FirstListSucceeds (r.1 ++ r'.1) ∧ ParamsSucceed (r.1 ++ r'.1) ∧
        ResultsSucceed (r.1 ++ r'.1) ∧ r'.2.cmds = [] ∧ r'.2.results = [] ∧
        fetchedHeads (r.1 ++ r'.1) = [5, 7] ∧ skippedHeights (r.1 ++ r'.1) = [] ∧
        r'.2.state.expiredPollIds = {1} ∧
        r'.2.state.voteResults.count ⟨"chorus", "eth", .agreed⟩ = 1 := by
    decide +kernel
  obtain ⟨r, hr, r', hr', hlist, hparams, hresults, hcmds, hnone, hheads, hskipped, hexpired,
    hone⟩ := hreplay
  exact ⟨_, _, cameToRest_of_replay (by decide) (by decide) hr hr' hlist hparams hresults hcmds
    hnone hheads, hskipped, hexpired, hone⟩

end Sample

/-- Whichever way the heights are divided, a monitor at rest holds the polls that
some heights opened and, as if the others had not been there, those of the rest. -/
theorem polls_do_not_meet {first last : Nat} {trace : Trace} {s : System}
    (hunique : UniquePollIds cx node.results)
    (h : CameToRest cx config node first last trace s) (opens : Nat → Bool) :
    Superposed cx node.results opens (segment node (skippedHeights trace) first last)
      (ledgerOf s.state)
      (.ofBlocks cx config (onlyAt opens node.results) (nodeParams cx config node)
        (segment node (skippedHeights trace) first last))
      (.ofBlocks cx config (onlyAt (fun k => !opens k) node.results) (nodeParams cx config node)
        (segment node (skippedHeights trace) first last)) := by
  obtain ⟨⟨tip, hfaces⟩, hlist, hparams, hresults, hrest, hfirst, hlast⟩ := h
  obtain ⟨-, -, hmirrors⟩ := hfaces.mirrors hlist hparams hresults hrest hfirst hlast
  rw [hmirrors.ledger_eq]
  exact polls_superpose hunique _ opens _

/-- The one poll of the sample chain is seen by the heights from 5 on. -/
theorem polls_do_not_meet_at_seven :
    ∃ trace s, CameToRest Sample.codecs Sample.config Sample.node 5 7 trace s ∧
      s.state.expiredPollIds = {1} ∧
      Superposed Sample.codecs Sample.node.results (fun h => decide (5 ≤ h))
        (segment Sample.node (skippedHeights trace) 5 7) (ledgerOf s.state)
        (.ofBlocks Sample.codecs Sample.config
          (onlyAt (fun h => decide (5 ≤ h)) Sample.node.results)
          (nodeParams Sample.codecs Sample.config Sample.node)
          (segment Sample.node (skippedHeights trace) 5 7))
        (.ofBlocks Sample.codecs Sample.config
          (onlyAt (fun h => !decide (5 ≤ h)) Sample.node.results)
          (nodeParams Sample.codecs Sample.config Sample.node)
          (segment Sample.node (skippedHeights trace) 5 7)) := by
  obtain ⟨trace, s, hrest, -, hexpired, -⟩ := Sample.fiveToSeven
  exact ⟨trace, s, hrest, hexpired, polls_do_not_meet Sample.resultsAt_unique hrest _⟩

end AxelarMonitor
