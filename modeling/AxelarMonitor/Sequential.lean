import AxelarMonitor.Bundles
import AxelarMonitor.Ledger
import AxelarMonitor.StartUp

/-!
The monitor refines the ledger. While no block-results fetch fails, the polls of
a block are opened before the next block is processed, and while the chain list
is fetched before the first head, the chain parameters are settled before the
first block. So whatever the interleaving, the state is that of one pass.
-/

namespace AxelarMonitor

open FifoLoop

/-- The answer to the first command that fetches the chain list. -/
def firstListAnswer (trace : Trace) : Option (List IoResult) :=
  ((answers trace).find? (fun a => a.1 = .fetchChainList)).map Prod.snd

def FirstListSucceeds (trace : Trace) : Prop :=
  (firstListAnswer trace).all (fun out => out.any IoResult.isChainList)

instance (trace : Trace) : Decidable (FirstListSucceeds trace) :=
  inferInstanceAs (Decidable (_ = true))

variable {cx : Codecs} {config : Config}

/-- The chain list is the first thing that is fetched. -/
theorem first_answer {trace : Trace} {s : System} (hrun : MonitorRun cx config trace s) :
    (answers trace = [] ∧ s.results = [] ∧ ∃ rest, s.cmds = .fetchChainList :: rest) ∨
      ∃ out rest, answers trace = (.fetchChainList, out) :: rest := by
  induction hrun with
  | nil => exact Or.inl ⟨rfl, rfl, [], rfl⟩
  | @snoc trace s e t hrun hstep ih =>
      rw [answers_snoc]
      rcases ih with ⟨hnone, hresults, rest, hcmds⟩ | ⟨out, rest, hanswers⟩
      · cases hstep with
        | feed st cmds results =>
            simp only at hcmds
            exact Or.inl ⟨by simp [hnone], hresults, rest ++ [.fetchHead], by rw [hcmds]; rfl⟩
        | answer env st cmd cmds results out hexec =>
            obtain ⟨rfl, -⟩ := List.cons.inj hcmds
            exact Or.inr ⟨out, [], by simp [hnone]⟩
        | handle => cases hresults
      · rw [hanswers]
        exact Or.inr ⟨out, _, List.cons_append⟩

theorem FirstListSucceeds.listBeforeHeads {trace : Trace} {s : System}
    (hlist : FirstListSucceeds trace) (hrun : MonitorRun cx config trace s) :
    ListBeforeHeads trace := by
  rcases first_answer hrun with ⟨hnone, -⟩ | ⟨out, rest, hanswers⟩
  · rw [ListBeforeHeads, hnone]
    rfl
  · have hfirst : out.any IoResult.isChainList := by
      unfold FirstListSucceeds firstListAnswer at hlist
      rw [hanswers] at hlist
      simpa using hlist
    have hmem : (.fetchChainList, out) ∈ answers trace := by
      rw [hanswers]
      exact List.mem_cons_self
    obtain ⟨http, hexec⟩ := hrun.answers_exec hmem
    rw [ListBeforeHeads, hanswers]
    cases exec_answers hexec with
    | chainList chains => rfl
    | chainListFailed error => cases hfirst

def IoResult.params? : IoResult → Option ChainParams
  | .chainParams q => some q
  | _ => none

/-- The configured chain parameters, overridden by those that were fetched. -/
def fixedParams (cx : Codecs) (config : Config) (trace : Trace) : OrderedMap String ChainParams :=
  ((handledMsgs trace).filterMap IoResult.params?).foldl
    (fun m q => m.insert (cx.toLowercase q.name) q) (configChainParams cx config)

theorem chainParams_eq {trace : Trace} {s : System} (hrun : MonitorRun cx config trace s) :
    s.state.chainParams = fixedParams cx config trace := by
  induction hrun with
  | nil => rfl
  | @snoc trace s e t hrun hstep ih =>
      have hsnoc : fixedParams cx config (trace ++ [⟨s, e⟩]) =
          (e.handledMsg?.toList.filterMap IoResult.params?).foldl
            (fun m q => m.insert (cx.toLowercase q.name) q) s.state.chainParams := by
        rw [fixedParams, handledMsgs_snoc, List.filterMap_append, List.foldl_append, ih]
        rfl
      rw [hsnoc]
      cases e with
      | fed => rw [hstep.state_fed]; rfl
      | answered cmd out => rw [hstep.state_answered]; rfl
      | handled msg out =>
          cases msg with
          | chainParams q => exact (step_handles hstep).chainParams_insert
          | _ => exact (step_handles hstep).chainParams_eq (by simp)

/-- Every block of a run is processed under the same chain parameters. -/
theorem chainParams_fixed {trace : Trace} {s : System} (hrun : MonitorRun cx config trace s)
    (hfirst : listFirst (handledMsgs trace)) :
    ∀ x ∈ trace, ∀ h b out, x.event = .handled (.block h b) out →
      x.before.state.chainParams = s.state.chainParams := by
  induction hrun with
  | nil => simp
  | @snoc trace s e t hrun hstep ih =>
      rw [handledMsgs_snoc] at hfirst
      have hfirst' := listFirst_of_append hfirst
      have hahead := run_paramsAhead hrun hfirst'
      rintro x hx h b out hevent
      rcases List.mem_append.mp hx with hold | hnew
      · rw [ih hfirst' x hold h b out hevent]
        have hsome : processedBlocks trace ≠ [] := by
          apply List.ne_nil_of_mem
          exact List.mem_filterMap.mpr
            ⟨.block h b, List.mem_filterMap.mpr ⟨x, hold, by rw [hevent]; rfl⟩, rfl⟩
        cases e with
        | fed => rw [hstep.state_fed]
        | answered cmd out' => rw [hstep.state_answered]
        | handled msg out' =>
            cases msg with
            | chainParams q => exact absurd (hahead.no_blocks hstep) hsome
            | _ => exact ((step_handles hstep).chainParams_eq (by simp)).symm
      · obtain rfl := List.mem_singleton.mp hnew
        simp only at hevent ⊢
        subst hevent
        exact ((step_handles hstep).chainParams_eq (by simp)).symm

/-- Either all processed blocks are in the ledger, or only the polls of the last
one are still to be opened. -/
inductive InSequence (cx : Codecs) (config : Config) (results : Nat → BlockResults)
    (trace : Trace) (s : System) : Prop
  | settled (hbundles : bundles s = [])
      (hledger : ledgerOf s.state =
        .ofBlocks cx config results s.state.chainParams (processedBlocks trace))
  | opening (earlier : List (Nat × Block)) (h : Nat) (b : Block)
      (hblocks : processedBlocks trace = earlier ++ [(h, b)])
      (hbundles : bundles s = [(h, Ledger.creations cx s.state.chainParams h b)])
      (hledger : ledgerOf s.state =
        .settle cx config h b (.ofBlocks cx config results s.state.chainParams earlier))

variable {results : Nat → BlockResults}

theorem InSequence.unchanged {trace : Trace} {s t : System} {e : Event IoCommand IoResult}
    (hseq : InSequence cx config results trace s) (hledger : ledgerOf t.state = ledgerOf s.state)
    (hparams : t.state.chainParams = s.state.chainParams)
    (hblocks : (e.handledMsg?.bind IoResult.processed?) = none) (hbundles : bundles t = bundles s) :
    InSequence cx config results (trace ++ [⟨s, e⟩]) t := by
  have hsame : processedBlocks (trace ++ [⟨s, e⟩]) = processedBlocks trace := by
    rw [processedBlocks_snoc, hblocks, Option.toList_none, List.append_nil]
  cases hseq with
  | settled hnone hold =>
      apply InSequence.settled
      · rw [hbundles, hnone]
      · rw [hledger, hparams, hsame, hold]
  | opening earlier h b hlast hone hold =>
      apply InSequence.opening earlier h b
      · rw [hsame, hlast]
      · rw [hbundles, hparams, hone]
      · rw [hledger, hparams, hold]

/-- A block is settled when all polls of the blocks before it are open. -/
theorem InSequence.block {trace : Trace} {s t : System} {h : Nat} {b : Block}
    {out : List IoCommand} (hseq : InSequence cx config results trace s)
    (hidle : bundles s = [])
    (hstep : Step (monitor cx config) s (.handled (.block h b) out) t) :
    InSequence cx config results (trace ++ [⟨s, .handled (.block h b) out⟩]) t := by
  have hblocks : processedBlocks (trace ++ [⟨s, .handled (.block h b) out⟩]) =
      processedBlocks trace ++ [(h, b)] := by
    rw [processedBlocks_snoc]
    rfl
  have hbefore : ledgerOf s.state =
      .ofBlocks cx config results s.state.chainParams (processedBlocks trace) := by
    cases hseq with
    | settled _ hledger => exact hledger
    | opening _ _ _ _ hbundles _ =>
        rw [hidle] at hbundles
        cases hbundles
  obtain ⟨rest, hview, hafter⟩ := bundles_handled hstep
  rw [hidle] at hview
  obtain rfl := (List.append_eq_nil_iff.mp hview.symm).2
  have hhandles := step_handles hstep
  have hparams := hhandles.chainParams_eq (by simp)
  generalize hst : t.state = st' at hhandles hparams
  cases hhandles with
  | block _ _ data hdata =>
      have hledger : ledgerOf (applyBlock cx config h data s.state) =
          .settle cx config h b (ledgerOf s.state) :=
        ledgerOf_applyBlock hdata.votes_eq h s.state
      have hcreations := hdata.creations_ledger
      rw [List.nil_append, List.filterMap_append, filterMap_fetchAfter (fun _ => rfl),
        List.append_nil] at hafter
      unfold bundleFor at hafter
      split at hafter
      · next hempty =>
        apply InSequence.settled hafter
        rw [hst, hledger, hblocks, Ledger.ofBlocks_snoc, hbefore, hparams, Ledger.addBlock,
          ← hcreations, List.isEmpty_iff.mp hempty]
        rfl
      · apply InSequence.opening (processedBlocks trace) h b hblocks
        · rw [hafter, hst, hparams, ← hcreations]
          rfl
        · rw [hst, hledger, hbefore, hparams]

theorem InSequence.blockResults {trace : Trace} {s t : System} {h : Nat} {br : BlockResults}
    {creations : List PollData} {out : List IoCommand}
    (hseq : InSequence cx config results trace s) (hbr : br = results h)
    (hstep : Step (monitor cx config) s (.handled (.blockResults h br creations) out) t) :
    InSequence cx config results
      (trace ++ [⟨s, .handled (.blockResults h br creations) out⟩]) t := by
  have hblocks : processedBlocks (trace ++ [⟨s, .handled (.blockResults h br creations) out⟩]) =
      processedBlocks trace := by
    rw [processedBlocks_snoc]
    exact List.append_nil _
  obtain ⟨rest, hview, hafter⟩ := bundles_handled hstep
  have hhandles := step_handles hstep
  generalize hst : t.state = st' at hhandles
  cases hhandles
  cases hseq with
  | settled hbundles _ =>
      rw [hbundles] at hview
      cases hview
  | opening earlier k b hlast hbundles hledger =>
      rw [hbundles] at hview
      obtain ⟨hbundle, rfl⟩ := List.cons.inj hview
      obtain ⟨rfl, hcreations⟩ := Prod.mk.inj hbundle
      apply InSequence.settled hafter
      rw [hst, ledgerOf_blockResults, hledger, hblocks, hlast, Ledger.ofBlocks_snoc, hbr,
        ← hcreations]
      rfl

theorem InSequence.chainParams {trace : Trace} {s t : System} {q : ChainParams}
    {out : List IoCommand} (hseq : InSequence cx config results trace s)
    (hnone : processedBlocks trace = [])
    (hstep : Step (monitor cx config) s (.handled (.chainParams q) out) t) :
    InSequence cx config results (trace ++ [⟨s, .handled (.chainParams q) out⟩]) t := by
  obtain ⟨rest, hview, hafter⟩ := bundles_handled hstep
  have hhandles := step_handles hstep
  generalize hst : t.state = st' at hhandles
  cases hhandles
  cases hseq with
  | opening earlier h b hblocks _ _ => simp [hnone] at hblocks
  | settled hbundles hledger =>
      rw [hnone] at hledger
      have hstart : ledgerOf s.state = .start config s.state.chainParams := hledger
      have hzero : AllZero config (processChainParamsMessage cx q s.state config) :=
        (allZero_of_start hstart).chainParams q
      apply InSequence.settled
      · rw [hbundles] at hview
        rw [hafter, (List.append_eq_nil_iff.mp hview.symm).2]
        rfl
      · rw [hst, processedBlocks_snoc, hnone]
        apply hzero.ledger_start
        · exact congrArg Ledger.polls hstart
        · exact congrArg Ledger.expired hstart

theorem run_inSequence {trace : Trace} {s : System} (hrun : MonitorRun cx config trace s)
    (hsteady : Steady trace) (hresults : HonestResults results trace)
    (hsucceed : ResultsSucceed trace) (hfirst : listFirst (handledMsgs trace)) :
    InSequence cx config results trace s := by
  induction hrun with
  | nil =>
      apply InSequence.settled rfl
      exact allZero_new.ledger_start rfl rfl
  | @snoc trace s e t hrun hstep ih =>
      have hnext := hrun.snoc hstep
      have hfailed := hsucceed.failedBundles_eq hnext
      have hsucceed' : ResultsSucceed trace :=
        fun x hx => hsucceed x (List.mem_append_left _ hx)
      rw [handledMsgs_snoc] at hfirst
      have hfirst' := listFirst_of_append hfirst
      have hseq := ih hsteady.earlier hresults.earlier hsucceed' hfirst'
      cases e with
      | fed =>
          exact hseq.unchanged (by rw [hstep.state_fed]) (by rw [hstep.state_fed]) rfl
            (bundles_unchanged hstep rfl)
      | answered cmd out =>
          exact hseq.unchanged (by rw [hstep.state_answered]) (by rw [hstep.state_answered]) rfl
            (bundles_unchanged hstep rfl)
      | handled msg out =>
          have hhandles := step_handles hstep
          obtain ⟨rest, hbefore, hafter⟩ := bundles_handled hstep
          have hissued := hhandles.bundle_issued
          cases msg with
          | block h b =>
              apply hseq.block _ hstep
              have hnone := bundles_at_block hrun hsteady.earlier hstep
              rw [hsucceed'.failedBundles_eq hrun] at hnone
              exact List.map_eq_nil_iff.mp (List.eq_nil_iff_forall_not_mem.mpr
                (fun n hn => List.not_mem_nil (hnone n hn)))
          | blockResults h br creations =>
              apply hseq.blockResults _ hstep
              exact hresults.handled hnext (mem_handledMsgs_last ..)
          | chainParams q =>
              exact hseq.chainParams ((run_paramsAhead hrun hfirst').no_blocks hstep) hstep
          | fetchBlockResultsError h polls retries error =>
              rw [failedBundles_snoc] at hfailed
              cases (List.append_eq_nil_iff.mp hfailed).2
          | _ =>
              have hnone : out.filterMap IoCommand.bundle? = [] := by
                apply List.eq_nil_iff_forall_not_mem.mpr
                intro p hp
                rcases hissued p hp with hmsg | ⟨b, hmsg⟩ <;> cases hmsg
              apply hseq.unchanged _ (hhandles.chainParams_eq (by simp)) rfl
              · rw [hafter, hbefore, hnone, List.append_nil]
                rfl
              · generalize t.state = st' at hhandles
                cases hhandles <;> rfl

/-- The processed heights increase, all blocks are processed under the same
chain parameters, and whenever no bundle is outstanding the polls, the expired
ids and the vote results are those of one pass over the processed blocks. -/
structure RefinesLedger (cx : Codecs) (config : Config) (results : Nat → BlockResults)
    (trace : Trace) (s : System) : Prop where
  increasing : (processedHeights trace).Pairwise (· < ·)
  params_fixed : ∀ x ∈ trace, ∀ h b out, x.event = .handled (.block h b) out →
    x.before.state.chainParams = fixedParams cx config trace
  one_pass : bundles s = [] → ledgerOf s.state =
    .ofBlocks cx config results (fixedParams cx config trace) (processedBlocks trace)

theorem refines_ledger {trace : Trace} {s : System} (hrun : MonitorRun cx config trace s)
    (hhonest : HonestHeights trace) (hsorted : (fetchedHeads trace).Pairwise (· ≤ ·))
    (htwo : ∀ h ∈ fetchedHeads trace, 2 ≤ h) (hresults : HonestResults results trace)
    (hsucceed : ResultsSucceed trace) (hlist : FirstListSucceeds trace) :
    RefinesLedger cx config results trace s := by
  have hsteady : Steady trace := ⟨hhonest, hsorted, htwo⟩
  have hfirst := (hlist.listBeforeHeads hrun).handled hrun
  constructor
  · exact processedHeights_increasing hrun hsteady
  · rw [← chainParams_eq hrun]
    exact chainParams_fixed hrun hfirst
  · intro hidle
    rw [← chainParams_eq hrun]
    cases run_inSequence hrun hsteady hresults hsucceed hfirst with
    | settled _ hledger => exact hledger
    | opening _ _ _ _ hbundles _ =>
        rw [hidle] at hbundles
        cases hbundles

/-- The parameter fetch and the first attempt at block 5 fail. -/
def Sample.failuresInOrder : List (Action Http) :=
  [.feed, .feed, serves chainListJson, servesBlock 5, servesBlock 7, .handle, .handle, .handle,
    fails, fails, .handle, servesBlock 5, .handle, serves resultsJson, servesBlock 6, .handle,
    .handle, servesBlock 7, .handle]

theorem refines_ledger_despite_failures :
    ∃ r : Trace × System, MonitorRun Sample.codecs Sample.config r.1 r.2 ∧
      processedHeights r.1 = [5, 6, 7] ∧ bundles r.2 = [] ∧
      r.2.state.voteResults.count ⟨"chorus", "eth", .agreed⟩ = 1 ∧
      RefinesLedger Sample.codecs Sample.config Sample.resultsAt r.1 r.2 := by
  have hreplay : ∃ r ∈ Sample.replay Sample.config Sample.failuresInOrder, HonestHeights r.1 ∧
      (fetchedHeads r.1).Pairwise (· ≤ ·) ∧ (∀ h ∈ fetchedHeads r.1, 2 ≤ h) ∧
      HonestResults Sample.resultsAt r.1 ∧ ResultsSucceed r.1 ∧ FirstListSucceeds r.1 ∧
      processedHeights r.1 = [5, 6, 7] ∧ bundles r.2 = [] ∧
      r.2.state.voteResults.count ⟨"chorus", "eth", .agreed⟩ = 1 := by
    decide +kernel
  obtain ⟨r, hrun, hhonest, hsorted, htwo, hresults, hsucceed, hlist, hheights, hbundles,
    hagreed⟩ := Sample.run_of_replay hreplay
  exact ⟨r, hrun, hheights, hbundles, hagreed,
    refines_ledger hrun hhonest hsorted htwo hresults hsucceed hlist⟩

end AxelarMonitor
