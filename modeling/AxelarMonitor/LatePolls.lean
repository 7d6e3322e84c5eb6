import AxelarMonitor.Backlog
import AxelarMonitor.Provenance
import AxelarMonitor.VoteCollection

/-!
Polls that are opened late. A failed attempt at the block results of a height
lets one more block be processed before its polls are open; it costs them the
votes of that block and no others, and may keep them open past their expiry.
-/

namespace AxelarMonitor

open FifoLoop RetryQueue

variable {cx : Codecs} {config : Config} {results : Nat → BlockResults}

/-- The attempts a request has behind it have all failed. -/
theorem tries_le_failures {trace : Trace} {s : System} (hrun : MonitorRun cx config trace s) :
    ∀ p ∈ entries (backlog trace s), p.2 ≤ (failedBundles trace).count p.1 := by
  induction hrun with
  | nil =>
      intro p hp
      cases hp
  | @snoc trace s e t hrun hstep ih =>
      cases e with
      | fed =>
          rw [backlog_unchanged hrun hstep rfl, failedBundles_snoc]
          simpa using ih
      | answered cmd out =>
          rw [backlog_unchanged hrun hstep rfl, failedBundles_snoc]
          simpa using ih
      | handled msg out =>
          obtain ⟨cmd, rest, ⟨http, sent, hexec, hsent⟩, hbefore, hafter⟩ :=
            requests_handled IoCommand.ticket? hrun rfl hstep
          have hticket := (exec_answers hexec).ticket_eq hsent
          unfold backlog at ih ⊢
          rw [hbefore] at ih
          rw [hafter, failedBundles_snoc]
          intro p hp
          rw [List.count_append]
          rw [entries, List.filterMap_append, List.mem_append, List.filterMap_filterMap] at hp
          rcases hp with hold | hnew
          · have hmem : p ∈ entries (cmd.ticket?.toList ++ rest) := by
              rw [entries, List.filterMap_append]
              exact List.mem_append_right _ hold
            exact Nat.le_add_right_of_le (ih p hmem)
          · rcases (step_handles hstep).filterMap_bundles
                (fun c => c.ticket?.bind Ticket.request?) (fun _ _ => rfl) (fun _ => rfl) rfl with
              ⟨height, block, data, rfl, -, hout⟩ |
              ⟨height, polls, retries, error, rfl, hout⟩ | hout
            · rw [hout] at hnew
              obtain ⟨c, hc, hfresh⟩ := List.mem_filterMap.mp hnew
              rw [mem_bundleFor hc] at hfresh
              cases hfresh
              exact Nat.zero_le _
            · rw [hout] at hnew
              cases List.mem_singleton.mp hnew
              rw [hticket] at ih
              have hfront := ih (height, retries) List.mem_cons_self
              have hone : ((Event.handled (IoResult.fetchBlockResultsError height polls retries
                  error) out).handledMsg?.bind IoResult.failed?).toList.count height = 1 := by
                simp [IoResult.failed?]
              rw [hone]
              exact Nat.succ_le_succ hfront
            · rw [hout] at hnew
              cases hnew

/-- How many blocks the failed attempts at the results of a height may cost. -/
def delay (trace : Trace) (h : Nat) : Nat := min ((failedBundles trace).count h) maxFetchRetries

theorem delay_le_append (first second : Trace) (h : Nat) :
    delay first h ≤ delay (first ++ second) h := by
  unfold delay
  rw [failedBundles_append, List.count_append]
  omega

/-- When block results are handled, only as many later blocks have been
processed as attempts at them have failed. -/
theorem processed_when_opened {trace : Trace} {s t : System} {h : Nat} {br : BlockResults}
    {creations : List PollData} {out : List IoCommand} (hrun : MonitorRun cx config trace s)
    (hsteady : Steady trace)
    (hstep : Step (monitor cx config) s (.handled (.blockResults h br creations) out) t) :
    ∀ k ∈ processedHeights trace, k ≤ h + delay trace h := by
  obtain ⟨cmd, rest, ⟨http, sent, hexec, hsent⟩, hbefore, -⟩ :=
    requests_handled IoCommand.ticket? hrun rfl hstep
  obtain ⟨retries, hticket⟩ := (exec_answers hexec).ticket_eq hsent
  rw [hticket] at hbefore
  have hmem : .request h retries ∈ backlog trace s := by
    rw [backlog, hbefore]
    exact List.mem_cons_self
  have htime : h ≤ s.state.lastProcessedHeight ∧ s.state.lastProcessedHeight ≤ h + retries ∧
      retries ≤ maxFetchRetries := (backlog_orderly hrun hsteady).onTime _ hmem
  have hfailed : retries ≤ (failedBundles trace).count h :=
    tries_le_failures hrun _ (mem_entries.mpr hmem)
  intro k hk
  have hlast := (settledHeights_increasing hrun hsteady).2 k
    ((processedHeights_sublist trace).subset hk)
  unfold delay
  omega

theorem votes_collected {trace : Trace} {s : System} (hrun : MonitorRun cx config trace s)
    (hsteady : Steady trace) (hhonest : HonestResults results trace)
    (hunique : UniquePollIds cx results) :
    VotesCollected cx (fun h => h + delay trace h) trace s := by
  induction hrun with
  | nil =>
      intro id poll hget
      simp [startUp, ProcessingState.new] at hget
  | @snoc trace s e t hrun hstep ih =>
      have hbefore := (ih hsteady.earlier hhonest.earlier).mono
        (fun h => Nat.add_le_add_left (delay_le_append trace [⟨s, e⟩] h) h)
      cases e with
      | fed => exact hbefore.unchanged (by rw [hstep.state_fed]) rfl rfl
      | answered cmd out => exact hbefore.unchanged (by rw [hstep.state_answered]) rfl rfl
      | handled msg out =>
          cases msg with
          | block h b => exact hbefore.block hstep
          | blockResults h br creations =>
              apply hbefore.blockResults (run_lived hrun hsteady.earlier hhonest.earlier hunique)
                hunique hstep (newResults_of_steady hrun hstep hsteady hhonest)
              -- so far the blocks have not come beyond what the failures allow
              intro k b hblock hlater
              have hle := processed_when_opened hrun hsteady.earlier hstep k
                (List.mem_map_of_mem hblock)
              have hdelay := delay_le_append trace
                [⟨s, .handled (.blockResults h br creations) out⟩] h
              omega
          | _ =>
              apply hbefore.unchanged _ rfl rfl
              have hhandles := step_handles hstep
              generalize t.state = st' at hhandles
              cases hhandles <;> rfl

/-- In a steady run a poll misses at most the votes of as many blocks as there were
failed attempts at its block results, whatever overtakes them. -/
theorem failure_costs_one_block {trace : Trace} {s : System} (hrun : MonitorRun cx config trace s)
    (hsteady : Steady trace) (hresults : HonestResults results trace)
    (hunique : UniquePollIds cx results) :
    VotesReachPollsFrom cx config (fun h => h + delay trace h) trace := by
  apply VotesReachPollsFrom.of_collected hrun hsteady hresults hunique
  rintro earlier later u rfl hreach
  exact (votes_collected hreach hsteady.earlier hresults.earlier hunique).mono
    (fun h => Nat.add_le_add_left (delay_le_append earlier later h) h)

/-- A chain whose vote is in block 7. -/
def Sample.lateVoteCodecs : Codecs :=
  Sample.codecsOf [Sample.block 5, ⟨⟨"6"⟩, ⟨[]⟩⟩, ⟨⟨"7"⟩, ⟨[Sample.ethVote]⟩⟩]

/-- Block 6 overtakes the retry of the block results of height 5. -/
def Sample.overtakenOnce : List (Action Http) :=
  let served (b : Block) := Sample.serves (Sample.blockJson b)
  [.feed, .feed, Sample.serves Sample.chainListJson, served (Sample.block 5),
    served ⟨⟨"7"⟩, ⟨[Sample.ethVote]⟩⟩, .handle, .handle, .handle,
    Sample.serves Sample.chainParamsJson, served (Sample.block 5), .handle, .handle,
    Sample.fails, served ⟨⟨"6"⟩, ⟨[]⟩⟩, .handle, .handle, Sample.serves Sample.resultsJson,
    served ⟨⟨"7"⟩, ⟨[Sample.ethVote]⟩⟩, .handle, .handle]

theorem one_failure_costs_no_later_vote :
    ∃ r : Trace × System, MonitorRun Sample.lateVoteCodecs Sample.config r.1 r.2 ∧
      failedBundles r.1 = [5] ∧ closedIds Sample.lateVoteCodecs r.1 = [1] ∧
      r.2.state.voteResults.count ⟨"chorus", "eth", .agreed⟩ = 1 ∧
      VotesReachPollsFrom Sample.lateVoteCodecs Sample.config (fun h => h + delay r.1 h) r.1 := by
  have hreplay : ∃ r ∈ (monitor Sample.lateVoteCodecs Sample.config).replay
      (startUp Sample.lateVoteCodecs Sample.config) Sample.overtakenOnce, HonestHeights r.1 ∧
      (fetchedHeads r.1).Pairwise (· ≤ ·) ∧ (∀ h ∈ fetchedHeads r.1, 2 ≤ h) ∧
      HonestResults Sample.resultsAt r.1 ∧ failedBundles r.1 = [5] ∧
      closedIds Sample.lateVoteCodecs r.1 = [1] ∧
      r.2.state.voteResults.count ⟨"chorus", "eth", .agreed⟩ = 1 := by
    decide +kernel
  obtain ⟨r, hr, hhonest, hsorted, htwo, hresults, hfailed, hclosed, hagreed⟩ := hreplay
  have hrun := replay_run hr
  exact ⟨r, hrun, hfailed, hclosed, hagreed, failure_costs_one_block hrun
    ⟨hhonest, hsorted, htwo⟩ hresults Sample.resultsAt_unique⟩

/-- The two periods of every known chain add up to no more than the window. -/
def PeriodsWithin (window : Nat) (params : OrderedMap String ChainParams) : Prop :=
  ∀ e ∈ params.entries, e.2.revoteLockingPeriod.toNat + e.2.votingGracePeriod.toNat ≤ window

instance (window : Nat) (params : OrderedMap String ChainParams) :
    Decidable (PeriodsWithin window params) :=
  inferInstanceAs (Decidable (∀ e ∈ params.entries, _))

theorem expiry_within {window height : Nat} {params : OrderedMap String ChainParams} {b : Block}
    {data : RawBlockData} (hperiods : PeriodsWithin window params)
    (hdata : ReadsAs cx b params height data) {c : PollData} (hc : c ∈ data.pollCreations) :
    c.expiryHeight ≤ height + window := by
  obtain ⟨requests, -, hcreations⟩ := hdata.creations_eq
  rw [hcreations] at hc
  obtain ⟨request, -, hcreate⟩ := List.mem_filterMap.mp hc
  obtain ⟨p, hp, rfl⟩ := Option.map_eq_some_iff.mp hcreate
  have hsum : p.revoteLockingPeriod.toNat + p.votingGracePeriod.toNat ≤ window :=
    hperiods _ (OrderedMap.mem_entries.mpr hp)
  -- a sum that wraps is smaller still
  calc u64Add (u64Add height p.revoteLockingPeriod.toNat) p.votingGracePeriod.toNat
      ≤ u64Add height p.revoteLockingPeriod.toNat + p.votingGracePeriod.toNat := Nat.mod_le _ _
    _ ≤ height + p.revoteLockingPeriod.toNat + p.votingGracePeriod.toNat :=
      Nat.add_le_add_right (Nat.mod_le _ _) _
    _ ≤ height + window := by omega

/-- The step at which a creation was opened divides the blocks of a run. Those
processed before it are no further than the failed attempts at the block results
let them; those processed since are later than the creation and before its expiry,
which is within the window. -/
def OpenedWithin (window : Nat) (trace : Trace) (creation : PollData) : Prop :=
  ∃ earlier u h br creations out later,
    trace = earlier ++ ⟨u, .handled (.blockResults h br creations) out⟩ :: later ∧
      creation ∈ creations ∧ h ∈ processedHeights earlier ∧
      creation.expiryHeight ≤ h + window ∧
      (∀ k ∈ processedHeights earlier, k ≤ h + delay earlier h) ∧
      ∀ k ∈ processedHeights later, h < k ∧ k < creation.expiryHeight

/-- Every open poll comes from one of the latest blocks. -/
def StoreIsWindow (window : Nat) (trace : Trace) (s : System) : Prop :=
  ∀ id poll, s.state.polls.get? id = some poll → OpenedWithin window trace poll.data

theorem processedHeights_snoc (trace : Trace)
    (x : Transition ProcessingState IoCommand IoResult) :
    processedHeights (trace ++ [x]) = processedHeights trace ++
      ((x.event.handledMsg?.bind IoResult.processed?).map Prod.fst).toList := by
  rw [processedHeights, processedBlocks_snoc, List.map_append, processedHeights]
  cases x.event.handledMsg?.bind IoResult.processed? <;> rfl

theorem OpenedWithin.snoc {window : Nat} {trace : Trace} {creation : PollData}
    (hopened : OpenedWithin window trace creation)
    (x : Transition ProcessingState IoCommand IoResult)
    (hnext : ∀ p, x.event.handledMsg?.bind IoResult.processed? = some p →
      (∀ n ∈ processedHeights trace, n < p.1) ∧ p.1 < creation.expiryHeight) :
    OpenedWithin window (trace ++ [x]) creation := by
  obtain ⟨earlier, u, h, br, creations, out, later, rfl, hcreation, hown, hexpiry, hbefore,
    hsince⟩ := hopened
  refine ⟨earlier, u, h, br, creations, out, later ++ [x], by simp, hcreation, hown, hexpiry,
    hbefore, ?_⟩
  intro k hk
  rw [processedHeights_snoc, List.mem_append] at hk
  rcases hk with hk | hk
  · exact hsince k hk
  · obtain ⟨p, hp, rfl⟩ := Option.map_eq_some_iff.mp (Option.mem_toList.mp hk)
    obtain ⟨hlast, hopen⟩ := hnext p hp
    have hmem : h ∈ processedHeights
        (earlier ++ ⟨u, .handled (.blockResults h br creations) out⟩ :: later) := by
      rw [processedHeights, processedBlocks_append, List.map_append]
      exact List.mem_append_left _ hown
    exact ⟨hlast h hmem, hopen⟩

theorem StoreIsWindow.unchanged {window : Nat} {trace : Trace} {s t : System}
    {e : Event IoCommand IoResult} (hwindow : StoreIsWindow window trace s)
    (hpolls : t.state.polls = s.state.polls)
    (hblocks : (e.handledMsg?.bind IoResult.processed?) = none) :
    StoreIsWindow window (trace ++ [⟨s, e⟩]) t := by
  intro id poll hget
  rw [hpolls] at hget
  apply (hwindow id poll hget).snoc
  intro p hp
  cases hblocks.symm.trans hp

theorem StoreIsWindow.block {window h : Nat} {trace : Trace} {s t : System} {b : Block}
    {out : List IoCommand} (hwindow : StoreIsWindow window trace s)
    (hstep : Step (monitor cx config) s (.handled (.block h b) out) t)
    (hlast : ∀ n ∈ processedHeights trace, n < h) :
    StoreIsWindow window (trace ++ [⟨s, .handled (.block h b) out⟩]) t := by
  intro id poll hget
  have hhandles := step_handles hstep
  generalize t.state = st' at hhandles hget
  cases hhandles with
  | block _ _ data hdata =>
      rw [get?_applyBlock, Option.filter_eq_some_iff, Option.map_eq_some_iff] at hget
      obtain ⟨⟨old, hold, rfl⟩, hopen⟩ := hget
      apply (hwindow id old hold).snoc
      intro p hp
      cases hp
      -- a poll that is due leaves the store with the block
      exact ⟨hlast, of_decide_eq_true hopen⟩

theorem StoreIsWindow.blockResults {window h : Nat} {trace : Trace} {s t : System}
    {br : BlockResults} {creations : List PollData} {out : List IoCommand}
    (hwindow : StoreIsWindow window trace s)
    (hstep : Step (monitor cx config) s (.handled (.blockResults h br creations) out) t)
    (hown : h ∈ processedHeights trace) (hexpiry : ∀ c ∈ creations, c.expiryHeight ≤ h + window)
    (hlast : ∀ k ∈ processedHeights trace, k ≤ h + delay trace h) :
    StoreIsWindow window (trace ++ [⟨s, .handled (.blockResults h br creations) out⟩]) t := by
  intro id poll hget
  have hhandles := step_handles hstep
  generalize t.state = st' at hhandles hget
  cases hhandles
  rcases get?_blockResults cx hget with hold | ⟨⟨creation, hcreation, rfl⟩, -⟩
  · apply (hwindow id poll hold).snoc
    intro p hp
    cases hp
  · refine ⟨trace, s, h, br, creations, [], [], rfl, hcreation, hown, hexpiry _ hcreation,
      hlast, ?_⟩
    intro k hk
    cases hk

/-- The creations under way are those of a processed block, and expire within the
window of this block. -/
theorem bundles_within {window : Nat} {trace : Trace} {s : System}
    (hrun : MonitorRun cx config trace s)
    (hperiods : ∀ x ∈ trace, PeriodsWithin window x.before.state.chainParams) :
    ∀ p ∈ bundles s, p.1 ∈ processedHeights trace ∧
      ∀ c ∈ p.2, c.expiryHeight ≤ p.1 + window := by
  intro p hp
  obtain ⟨x, hx, b, out, data, hevent, hread, hcreations⟩ := bundles_read hrun p hp
  constructor
  · have hmsg : .block p.1 b ∈ handledMsgs trace :=
      List.mem_filterMap.mpr ⟨x, hx, by rw [hevent]; rfl⟩
    exact List.mem_map.mpr ⟨(p.1, b), List.mem_filterMap.mpr ⟨_, hmsg, rfl⟩, rfl⟩
  · intro c hc
    rw [hcreations] at hc
    exact expiry_within (hperiods x hx) hread hc

/-- In a steady run the open polls are those of the latest blocks, whatever fails. -/
theorem store_is_window {window : Nat} {trace : Trace} {s : System}
    (hrun : MonitorRun cx config trace s) (hsteady : Steady trace)
    (hperiods : ∀ x ∈ trace, PeriodsWithin window x.before.state.chainParams) :
    StoreIsWindow window trace s := by
  induction hrun with
  | nil =>
      intro id poll hget
      simp [startUp, ProcessingState.new] at hget
  | @snoc trace s e t hrun hstep ih =>
      have hearlier : ∀ x ∈ trace, PeriodsWithin window x.before.state.chainParams :=
        fun x hx => hperiods x (List.mem_append_left _ hx)
      have hwindow := ih hsteady.earlier hearlier
      cases e with
      | fed => exact hwindow.unchanged (by rw [hstep.state_fed]) rfl
      | answered cmd out => exact hwindow.unchanged (by rw [hstep.state_answered]) rfl
      | handled msg out =>
          cases msg with
          | block h b => exact hwindow.block hstep (processedHeights_lt hrun hstep hsteady)
          | blockResults h br creations =>
              obtain ⟨rest, hbefore, -⟩ := bundles_handled hstep
              have hbundle : (h, creations) ∈ bundles s := by
                rw [hbefore]
                exact List.mem_cons_self
              obtain ⟨hown, hexpiry⟩ := bundles_within hrun hearlier _ hbundle
              exact hwindow.blockResults hstep hown hexpiry
                (processed_when_opened hrun hsteady.earlier hstep)
          | _ =>
              apply hwindow.unchanged _ rfl
              have hhandles := step_handles hstep
              generalize t.state = st' at hhandles
              cases hhandles <;> rfl

/-- Two attempts at the block results of height 5 fail, so that blocks 6 and 7 are
processed before poll 1 is opened, which expires at height 7. -/
def Sample.overtakenTwice : List (Action Http) :=
  let served (b : Block) := Sample.serves (Sample.blockJson b)
  [.feed, .feed, Sample.serves Sample.chainListJson, served (Sample.block 5),
    served ⟨⟨"7"⟩, ⟨[Sample.ethVote]⟩⟩, .handle, .handle, .handle,
    Sample.serves Sample.chainParamsJson, served (Sample.block 5), .handle, .handle,
    Sample.fails, served ⟨⟨"6"⟩, ⟨[]⟩⟩, .handle, .handle,
    Sample.fails, served ⟨⟨"7"⟩, ⟨[Sample.ethVote]⟩⟩, .handle, .handle,
    Sample.serves Sample.resultsJson, .handle]

theorem store_after_two_failures :
    ∃ r : Trace × System, MonitorRun Sample.lateVoteCodecs Sample.config r.1 r.2 ∧
      processedHeights r.1 = [5, 6, 7] ∧ r.2.state.polls.keys = [1] ∧ delay r.1 5 = 2 ∧
      StoreIsWindow 2 r.1 r.2 := by
  have hreplay : ∃ r ∈ (monitor Sample.lateVoteCodecs Sample.config).replay
      (startUp Sample.lateVoteCodecs Sample.config) Sample.overtakenTwice,
      HonestHeights r.1 ∧ (fetchedHeads r.1).Pairwise (· ≤ ·) ∧
      (∀ h ∈ fetchedHeads r.1, 2 ≤ h) ∧
      (∀ x ∈ r.1, PeriodsWithin 2 x.before.state.chainParams) ∧
      processedHeights r.1 = [5, 6, 7] ∧ r.2.state.polls.keys = [1] ∧ delay r.1 5 = 2 := by
    decide +kernel
  obtain ⟨r, hr, hhonest, hsorted, htwo, hperiods, hprocessed, hkeys, hdelay⟩ := hreplay
  have hrun := replay_run hr
  exact ⟨r, hrun, hprocessed, hkeys, hdelay,
    store_is_window hrun ⟨hhonest, hsorted, htwo⟩ hperiods⟩

end AxelarMonitor
