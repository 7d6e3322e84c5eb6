import AxelarMonitor.VoteCollection

/-!
Votes lost to a failed block-results fetch. The retry goes to the end of the
queue, behind the fetch of the next block, whose votes then find their polls
not yet open. As long as no block with such a vote overtakes a retry, every
vote of a processed block reaches its poll.
-/

namespace AxelarMonitor

open FifoLoop

section Overtaking

variable (cx : Codecs) (results : Nat → BlockResults)

/-- A block is processed that votes on a poll whose block results have failed
before and are still under way. -/
def overtakes (failed : List Nat) : Transition ProcessingState IoCommand IoResult → Bool
  | ⟨s, .handled (.block _ b) _⟩ =>
      (bundles s).any (fun p => failed.contains p.1 && (blockVotes cx b).any (fun v =>
        (assignedIds (txToPollIds cx (results p.1)) p.2).contains v.pollId))
  | _ => false

/-- No step of the trace does, given the heights that failed before it. -/
def neverOvertaken : List Nat → Trace → Bool
  | _, [] => true
  | failed, x :: rest =>
      !overtakes cx results failed x &&
        neverOvertaken (failed ++ (x.event.handledMsg?.bind IoResult.failed?).toList) rest

theorem neverOvertaken_append (failed : List Nat) (first second : Trace) :
    neverOvertaken cx results failed (first ++ second) =
      (neverOvertaken cx results failed first &&
        neverOvertaken cx results (failed ++ failedBundles first) second) := by
  induction first generalizing failed with
  | nil => simp [neverOvertaken, failedBundles]
  | cons x rest ih =>
      have hfailed : failedBundles (x :: rest) =
          (x.event.handledMsg?.bind IoResult.failed?).toList ++ failedBundles rest := by
        have hcons := failedBundles_append ([] ++ [x]) rest
        rw [failedBundles_snoc] at hcons
        exact hcons
      rw [List.cons_append, neverOvertaken, neverOvertaken, ih, hfailed, List.append_assoc,
        Bool.and_assoc]

/-- In a run that is never overtaken neither its beginning nor its last step
overtakes anything. -/
theorem neverOvertaken_snoc {trace : Trace}
    {x : Transition ProcessingState IoCommand IoResult}
    (h : neverOvertaken cx results [] (trace ++ [x])) :
    neverOvertaken cx results [] trace ∧ overtakes cx results (failedBundles trace) x = false := by
  rw [neverOvertaken_append, Bool.and_eq_true] at h
  exact ⟨h.1, by simpa [neverOvertaken] using h.2⟩

end Overtaking

/-- Every vote that a processed block holds for a poll of an earlier block, up to
the first processed height at which the poll is due, is in the poll when it is
analysed; so its sender is not counted as missing. -/
def VotesReachPolls (cx : Codecs) (config : Config) (trace : Trace) : Prop :=
  ∀ poll ∈ closedPolls cx trace, ∀ h br creations,
    .blockResults h br creations ∈ handledMsgs trace →
    poll.pollId ∈ assignedIds (txToPollIds cx br) creations →
      ∀ k b, (k, b) ∈ processedBlocks trace → h < k →
        (∀ n ∈ processedHeights trace, poll.data.expiryHeight ≤ n → k ≤ n) →
          ∀ v ∈ blockVotes cx b, v.pollId = poll.pollId →
            v ∈ poll.votes ∧ ∀ name, owner config v = some name → ∀ m chain,
              (analyzePollCompletion cx poll config m).count ⟨name, chain, .missed⟩ =
                m.count ⟨name, chain, .missed⟩

variable {cx : Codecs} {config : Config} {results : Nat → BlockResults}

/-- The open polls have all votes of later blocks, and no later block had a vote
for a poll that is still to be opened. -/
structure VotesComplete (cx : Codecs) (results : Nat → BlockResults) (trace : Trace)
    (s : System) : Prop where
  opened : VotesCollected cx (fun h => h) trace s
  awaited : ∀ h creations, (h, creations) ∈ bundles s → ∀ k b, (k, b) ∈ processedBlocks trace →
    h < k → ∀ v ∈ blockVotes cx b,
      v.pollId ∉ assignedIds (txToPollIds cx (results h)) creations

/-- A step that processes no block and opens no poll completes nothing new. -/
theorem VotesComplete.unchanged {trace : Trace} {s t : System} {e : Event IoCommand IoResult}
    (hcomplete : VotesComplete cx results trace s) (hpolls : t.state.polls = s.state.polls)
    (hopens : (e.handledMsg?.bind IoResult.opened?) = none)
    (hblocks : (e.handledMsg?.bind IoResult.processed?) = none)
    (hbundles : ∀ p ∈ bundles t, p ∈ bundles s) :
    VotesComplete cx results (trace ++ [⟨s, e⟩]) t := by
  constructor
  · exact hcomplete.opened.unchanged hpolls hopens hblocks
  · intro h creations hmem k b hblock
    rw [processedBlocks_snoc, hblocks, Option.toList_none, List.append_nil] at hblock
    exact hcomplete.awaited h creations (hbundles _ hmem) k b hblock

theorem VotesComplete.blockResults {trace : Trace} {s t : System} {h : Nat}
    {br : BlockResults} {creations : List PollData} {out : List IoCommand}
    (hcomplete : VotesComplete cx results trace s) (hlived : Lived cx results trace s)
    (hunique : UniquePollIds cx results)
    (hstep : Step (monitor cx config) s (.handled (.blockResults h br creations) out) t)
    (hnew : NewResults results trace (.handled (.blockResults h br creations) out)) :
    VotesComplete cx results (trace ++ [⟨s, .handled (.blockResults h br creations) out⟩]) t := by
  have hblocks : processedBlocks (trace ++ [⟨s, .handled (.blockResults h br creations) out⟩]) =
      processedBlocks trace := by
    rw [processedBlocks_snoc]
    exact List.append_nil _
  obtain ⟨rest, hbefore, hafter⟩ := bundles_handled hstep
  have hout : out = [] := by
    have hhandles := step_handles hstep
    generalize t.state = st' at hhandles
    cases hhandles
    rfl
  constructor
  · apply hcomplete.opened.blockResults hlived hunique hstep hnew
    -- the bundle of these results was under way, so no vote came before
    have hbundle : (h, creations) ∈ bundles s := by
      rw [hbefore]
      exact List.mem_cons_self
    rw [hnew.1]
    exact hcomplete.awaited h creations hbundle
  · intro h' creations' hmem k b hblock
    rw [hblocks] at hblock
    rw [hafter, hout, List.filterMap_nil, List.append_nil] at hmem
    apply hcomplete.awaited h' creations' _ k b hblock
    rw [hbefore]
    exact List.mem_append_right _ hmem

theorem VotesComplete.block {trace : Trace} {s t : System} {h : Nat} {b : Block}
    {out : List IoCommand} (hcomplete : VotesComplete cx results trace s)
    (hstep : Step (monitor cx config) s (.handled (.block h b) out) t)
    (hlast : ∀ n ∈ processedHeights trace, n < h)
    (hfailed : ∀ n ∈ bundleHeights s, n ∈ failedBundles trace)
    (hclear : overtakes cx results (failedBundles trace) ⟨s, .handled (.block h b) out⟩ = false) :
    VotesComplete cx results (trace ++ [⟨s, .handled (.block h b) out⟩]) t := by
  have hblocks {k : Nat} {b' : Block} (hmem : (k, b') ∈ processedBlocks
      (trace ++ [⟨s, .handled (.block h b) out⟩])) :
      (k, b') ∈ processedBlocks trace ∨ k = h ∧ b' = b := by
    rw [processedBlocks_snoc, List.mem_append] at hmem
    exact hmem.imp id (by simp [IoResult.processed?])
  obtain ⟨rest, hbefore, hafter⟩ := bundles_handled hstep
  have hissued := (step_handles hstep).bundle_issued
  constructor
  · exact hcomplete.opened.block hstep
  · intro h' creations hmem k b' hblock hlater v hv hid
    rw [hafter, List.mem_append] at hmem
    rcases hmem with hmem | hmem
    · have hbundle : (h', creations) ∈ bundles s := by
        rw [hbefore]
        exact List.mem_append_right _ hmem
      rcases hblocks hblock with hblock | ⟨rfl, rfl⟩
      · exact hcomplete.awaited h' creations hbundle k b' hblock hlater v hv hid
      · have hretried := hfailed h' (List.mem_map_of_mem hbundle)
        have hovertakes : overtakes cx results (failedBundles trace)
            ⟨s, .handled (.block k b') out⟩ = true := by
          simp only [overtakes, List.any_eq_true, Bool.and_eq_true, List.contains_iff_mem]
          exact ⟨_, hbundle, hretried, v, hv, hid⟩
        rw [hclear] at hovertakes
        cases hovertakes
    · -- the block's own bundle is newer than every processed block
      rcases hissued _ hmem with hmsg | ⟨b'', hmsg⟩
      · cases hmsg
      · cases hmsg
        rcases hblocks hblock with hblock | ⟨rfl, rfl⟩
        · have hk := hlast k (List.mem_map_of_mem hblock)
          omega
        · omega

theorem run_votesComplete {trace : Trace} {s : System} (hrun : MonitorRun cx config trace s)
    (hsteady : Steady trace) (hhonest : HonestResults results trace)
    (hunique : UniquePollIds cx results) (hclear : neverOvertaken cx results [] trace) :
    VotesComplete cx results trace s := by
  induction hrun with
  | nil =>
      constructor
      · intro id poll hget
        simp [startUp, ProcessingState.new] at hget
      · intro h creations hmem
        cases hmem
  | @snoc trace s e t hrun hstep ih =>
      obtain ⟨hclear', hlast⟩ := neverOvertaken_snoc cx results hclear
      have hcomplete := ih hsteady.earlier hhonest.earlier hclear'
      have hquiet (he : e.handledMsg? = none) :
          VotesComplete cx results (trace ++ [⟨s, e⟩]) t := by
        apply hcomplete.unchanged _ (by simp [he]) (by simp [he])
        · intro p hp
          rwa [bundles_unchanged hstep he] at hp
        · cases hstep <;> first | rfl | cases he
      cases e with
      | fed => exact hquiet rfl
      | answered cmd out => exact hquiet rfl
      | handled msg out =>
          have hhandles := step_handles hstep
          obtain ⟨rest, hbefore, hafter⟩ := bundles_handled hstep
          have hissued := hhandles.bundle_issued
          cases msg with
          | block h b =>
              exact hcomplete.block hstep (processedHeights_lt hrun hstep hsteady)
                (bundles_at_block hrun hsteady.earlier hstep) hlast
          | blockResults h br creations =>
              exact hcomplete.blockResults (run_lived hrun hsteady.earlier hhonest.earlier hunique)
                hunique hstep (newResults_of_steady hrun hstep hsteady hhonest)
          | _ =>
              apply hcomplete.unchanged _ rfl rfl
              · intro p hp
                rw [hafter, List.mem_append] at hp
                rw [hbefore, List.mem_append]
                rcases hp with hp | hp
                · exact Or.inr hp
                · rcases hissued p hp with hmsg | ⟨b, hmsg⟩
                  · exact Or.inl (Option.mem_toList.mpr hmsg)
                  · cases hmsg
              · generalize t.state = st' at hhandles
                cases hhandles <;> rfl

theorem votes_reach_polls {trace : Trace} {s : System} (hrun : MonitorRun cx config trace s)
    (hhonest : HonestHeights trace) (hsorted : (fetchedHeads trace).Pairwise (· ≤ ·))
    (htwo : ∀ h ∈ fetchedHeads trace, 2 ≤ h) (hresults : HonestResults results trace)
    (hunique : UniquePollIds cx results) (hclear : neverOvertaken cx results [] trace) :
    VotesReachPolls cx config trace := by
  have hsteady : Steady trace := ⟨hhonest, hsorted, htwo⟩
  have hfrom : VotesReachPollsFrom cx config (fun h => h) trace := by
    apply VotesReachPollsFrom.of_collected hrun hsteady hresults hunique
    rintro earlier later u rfl hreach
    rw [neverOvertaken_append, Bool.and_eq_true] at hclear
    exact (run_votesComplete hreach hsteady.earlier hresults.earlier hunique hclear.1).opened
  exact hfrom

/-- The first attempt at the block results of height 5 fails while no other
block is asked for; the retry opens poll 1 in time for the vote in block 6. -/
def Sample.retryInTime : List (Action Http) :=
  [.feed, serves chainListJson, servesBlock 5, .handle, .handle, serves chainParamsJson,
    servesBlock 5, .handle, .handle, fails, .handle, serves resultsJson, .handle, .feed,
    servesBlock 7, .handle, servesBlock 6, .handle, servesBlock 7, .handle]

theorem votes_reach_polls_after_retry :
    ∃ r : Trace × System, MonitorRun Sample.codecs Sample.config r.1 r.2 ∧
      failedBundles r.1 = [5] ∧ closedIds Sample.codecs r.1 = [1] ∧
      r.2.state.voteResults.count ⟨"chorus", "eth", .agreed⟩ = 1 ∧
      VotesReachPolls Sample.codecs Sample.config r.1 := by
  have hreplay : ∃ r ∈ Sample.replay Sample.config Sample.retryInTime, HonestHeights r.1 ∧
      (fetchedHeads r.1).Pairwise (· ≤ ·) ∧ (∀ h ∈ fetchedHeads r.1, 2 ≤ h) ∧
      HonestResults Sample.resultsAt r.1 ∧
      neverOvertaken Sample.codecs Sample.resultsAt [] r.1 ∧ failedBundles r.1 = [5] ∧
      closedIds Sample.codecs r.1 = [1] ∧
      r.2.state.voteResults.count ⟨"chorus", "eth", .agreed⟩ = 1 := by
    decide +kernel
  obtain ⟨r, hrun, hhonest, hsorted, htwo, hresults, hclear, hfailed, hclosed, hagreed⟩ :=
    Sample.run_of_replay hreplay
  exact ⟨r, hrun, hfailed, hclosed, hagreed,
    votes_reach_polls hrun hhonest hsorted htwo hresults Sample.resultsAt_unique hclear⟩

def Sample.vote : PollVote :=
  ⟨1, "eth", "01", "be932e6de9f924116df2afc1829506ac853956e3", none⟩

/-- Block 6 overtakes the retry: its vote is dropped, and the poll is analysed at
block 7 with its only voter counted as missing. -/
theorem late_results_lose_vote :
    ∃ r : Trace × System, MonitorRun Sample.codecs Sample.config r.1 r.2 ∧
      HonestHeights r.1 ∧ (fetchedHeads r.1).Pairwise (· ≤ ·) ∧
      (∀ h ∈ fetchedHeads r.1, 2 ≤ h) ∧ HonestResults Sample.resultsAt r.1 ∧
      UniquePollIds Sample.codecs Sample.resultsAt ∧
      processedBlocks r.1 = [(5, Sample.block 5), (6, Sample.block 6), (7, Sample.block 7)] ∧
      Sample.vote ∈ blockVotes Sample.codecs (Sample.block 6) ∧
      r.2.state.voteResults.count ⟨"chorus", "eth", .missed⟩ = 1 ∧
      ¬ VotesReachPolls Sample.codecs Sample.config r.1 := by
  have hreplay : ∃ r ∈ Sample.replay Sample.config Sample.lateResults, HonestHeights r.1 ∧
      (fetchedHeads r.1).Pairwise (· ≤ ·) ∧ (∀ h ∈ fetchedHeads r.1, 2 ≤ h) ∧
      HonestResults Sample.resultsAt r.1 ∧
      processedBlocks r.1 = [(5, Sample.block 5), (6, Sample.block 6), (7, Sample.block 7)] ∧
      Sample.vote ∈ blockVotes Sample.codecs (Sample.block 6) ∧
      ⟨1, ⟨.gatewayTx, "eth", "01", 7⟩, []⟩ ∈ closedPolls Sample.codecs r.1 ∧
      .blockResults 5 Sample.results [⟨.gatewayTx, "eth", "01", 7⟩] ∈ handledMsgs r.1 ∧
      1 ∈ assignedIds (txToPollIds Sample.codecs Sample.results)
        [⟨.gatewayTx, "eth", "01", 7⟩] ∧
      r.2.state.voteResults.count ⟨"chorus", "eth", .missed⟩ = 1 := by
    decide +kernel
  obtain ⟨r, hrun, hhonest, hsorted, htwo, hresults, hblocks, hvote, hpoll, hmsg, hassigned,
    hmissed⟩ := Sample.run_of_replay hreplay
  refine ⟨r, hrun, hhonest, hsorted, htwo, hresults, Sample.resultsAt_unique, hblocks, hvote,
    hmissed, ?_⟩
  intro hreach
  have hblock : (6, Sample.block 6) ∈ processedBlocks r.1 := by
    rw [hblocks]
    exact List.mem_cons_of_mem _ List.mem_cons_self
  have hdue : ∀ n ∈ processedHeights r.1, 7 ≤ n → 6 ≤ n := by
    intro n _ hn
    omega
  have hlost := hreach _ hpoll 5 _ _ hmsg hassigned 6 _ hblock (by omega) hdue _ hvote rfl
  cases hlost.1

end AxelarMonitor
