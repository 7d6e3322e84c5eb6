import AxelarMonitor.PollLifeCycle

/-!
The votes that a poll collects. A poll is opened some time after its block, so
what it can collect depends on how far the blocks have come by then; here this is
any height above which it misses nothing.
-/

namespace AxelarMonitor

open FifoLoop

variable {cx : Codecs} {config : Config} {results : Nat → BlockResults}

/-- Every vote for a poll of block `h` that a processed block above `since h` holds, up
to the first processed height at which the poll is due, is in the poll when it is
analysed; so its sender is not counted as missing. -/
def VotesReachPollsFrom (cx : Codecs) (config : Config) (since : Nat → Nat) (trace : Trace) :
    Prop :=
  ∀ poll ∈ closedPolls cx trace, ∀ h br creations,
    .blockResults h br creations ∈ handledMsgs trace →
    poll.pollId ∈ assignedIds (txToPollIds cx br) creations →
      ∀ k b, (k, b) ∈ processedBlocks trace → since h < k →
        (∀ n ∈ processedHeights trace, poll.data.expiryHeight ≤ n → k ≤ n) →
          ∀ v ∈ blockVotes cx b, v.pollId = poll.pollId →
            v ∈ poll.votes ∧ ∀ name, owner config v = some name → ∀ m chain,
              (analyzePollCompletion cx poll config m).count ⟨name, chain, .missed⟩ =
                m.count ⟨name, chain, .missed⟩

/-- An open poll of block `h` has all votes of the processed blocks above `since h`. -/
def VotesCollected (cx : Codecs) (since : Nat → Nat) (trace : Trace) (s : System) : Prop :=
  ∀ id poll, s.state.polls.get? id = some poll → ∀ h br creations,
    .blockResults h br creations ∈ handledMsgs trace →
    id ∈ assignedIds (txToPollIds cx br) creations →
      ∀ k b, (k, b) ∈ processedBlocks trace → since h < k →
        ∀ v ∈ blockVotes cx b, v.pollId = id → v ∈ poll.votes

theorem mem_openedIds {trace : Trace} {h : Nat} {br : BlockResults}
    {creations : List PollData} {id : Nat}
    (hmem : .blockResults h br creations ∈ handledMsgs trace)
    (hid : id ∈ assignedIds (txToPollIds cx br) creations) : id ∈ openedIds cx trace := by
  obtain ⟨earlier, s, out, later, rfl⟩ := mem_handledMsgs hmem
  apply List.mem_flatMap.mpr
  exact ⟨⟨s, .handled (.blockResults h br creations) out⟩, by simp, List.mem_dedup.mpr hid⟩

theorem VotesCollected.unchanged {since : Nat → Nat} {trace : Trace} {s t : System}
    {e : Event IoCommand IoResult} (hcollected : VotesCollected cx since trace s)
    (hpolls : t.state.polls = s.state.polls)
    (hopens : (e.handledMsg?.bind IoResult.opened?) = none)
    (hblocks : (e.handledMsg?.bind IoResult.processed?) = none) :
    VotesCollected cx since (trace ++ [⟨s, e⟩]) t := by
  intro id poll hget h br creations hmem hid k b hblock
  rw [hpolls] at hget
  rw [processedBlocks_snoc, hblocks, Option.toList_none, List.append_nil] at hblock
  rw [handledMsgs_snoc, List.mem_append] at hmem
  rcases hmem with hmem | hmem
  · exact hcollected id poll hget h br creations hmem hid k b hblock
  · rw [Option.mem_toList.mp hmem] at hopens
    cases hopens

theorem VotesCollected.block {since : Nat → Nat} {trace : Trace} {s t : System} {h : Nat}
    {b : Block} {out : List IoCommand} (hcollected : VotesCollected cx since trace s)
    (hstep : Step (monitor cx config) s (.handled (.block h b) out) t) :
    VotesCollected cx since (trace ++ [⟨s, .handled (.block h b) out⟩]) t := by
  intro id poll hget h' br creations hmem hid k b' hblock hlater v hv hvote
  have hopened : .blockResults h' br creations ∈ handledMsgs trace := by
    rw [handledMsgs_snoc, List.mem_append] at hmem
    apply hmem.resolve_right
    simp
  have hhandles := step_handles hstep
  generalize t.state = st' at hhandles hget
  cases hhandles with
  | block _ _ data hdata =>
      rw [get?_applyBlock, hdata.votes_eq, Option.filter_eq_some_iff,
        Option.map_eq_some_iff] at hget
      obtain ⟨⟨old, hold, rfl⟩, -⟩ := hget
      rw [processedBlocks_snoc, List.mem_append] at hblock
      rcases hblock with hblock | hblock
      · apply List.mem_append_left
        exact hcollected id old hold h' br creations hopened hid k b' hblock hlater v hv hvote
      · cases List.mem_singleton.mp hblock
        apply List.mem_append_right
        exact List.mem_filter.mpr ⟨hv, decide_eq_true hvote⟩

/-- A poll is opened before the blocks whose votes it is to have. -/
theorem VotesCollected.blockResults {since : Nat → Nat} {trace : Trace} {s t : System} {h : Nat}
    {br : BlockResults} {creations : List PollData} {out : List IoCommand}
    (hcollected : VotesCollected cx since trace s) (hlived : Lived cx results trace s)
    (hunique : UniquePollIds cx results)
    (hstep : Step (monitor cx config) s (.handled (.blockResults h br creations) out) t)
    (hnew : NewResults results trace (.handled (.blockResults h br creations) out))
    (hnone : ∀ k b, (k, b) ∈ processedBlocks trace → since h < k →
      ∀ v ∈ blockVotes cx b, v.pollId ∉ assignedIds (txToPollIds cx br) creations) :
    VotesCollected cx since (trace ++ [⟨s, .handled (.blockResults h br creations) out⟩]) t := by
  have hhandles := step_handles hstep
  generalize hst : t.state = st' at hhandles
  cases hhandles
  intro id poll hget h' br' creations' hmem hid k b hblock hlater v hv hvote
  rw [processedBlocks_snoc] at hblock
  simp only [handledMsg?_handled, Option.bind_some, IoResult.processed?, Option.toList_none,
    List.append_nil] at hblock
  rw [handledMsgs_snoc, List.mem_append] at hmem
  rcases hmem with hmem | hmem
  · have hunassigned : id ∉ assignedIds (txToPollIds cx br) creations :=
      fun hassigned => hlived.fresh hunique hnew hassigned (mem_openedIds hmem hid)
    rw [hst] at hget
    have hold := (get?_openPolls_of_not_mem hunassigned).symm.trans hget
    exact hcollected id poll hold h' br' creations' hmem hid k b hblock hlater v hv hvote
  · obtain ⟨rfl, rfl, rfl⟩ : h' = h ∧ br' = br ∧ creations' = creations := by simpa using hmem
    rw [← hvote] at hid
    exact absurd hid (hnone k b hblock hlater v hv)

theorem VotesCollected.mono {since since' : Nat → Nat} {trace : Trace} {s : System}
    (hcollected : VotesCollected cx since trace s) (hle : ∀ h, since h ≤ since' h) :
    VotesCollected cx since' trace s := by
  intro id poll hget h br creations hmem hid k b hblock hlater
  exact hcollected id poll hget h br creations hmem hid k b hblock
    (Nat.lt_of_le_of_lt (hle h) hlater)

theorem mem_voters {votes : List PollVote} {v : PollVote} {name : String} (hv : v ∈ votes)
    (howner : owner config v = some name) : name ∈ voters config votes :=
  List.mem_filterMap.mpr ⟨v, hv, howner⟩

/-- A poll that a block closes has been opened before, is due, and has the votes of
the blocks from then on, the closing one included. -/
theorem VotesCollected.closed {since : Nat → Nat} {trace : Trace} {s : System} {hc : Nat}
    {bc : Block} {poll : Poll} (hcollected : VotesCollected cx since trace s)
    (hlived : Lived cx results trace s)
    (hclosed : poll ∈ closedBy cx s.state.polls (.block hc bc)) :
    poll.pollId ∈ openedIds cx trace ∧ poll.data.expiryHeight ≤ hc ∧
      ∀ h br creations, .blockResults h br creations ∈ handledMsgs trace →
        poll.pollId ∈ assignedIds (txToPollIds cx br) creations →
        ∀ k b, (k, b) ∈ processedBlocks trace ++ [(hc, bc)] → since h < k →
          ∀ v ∈ blockVotes cx b, v.pollId = poll.pollId → v ∈ poll.votes := by
  obtain ⟨id, hpushed, hexpiry⟩ := mem_closingPolls.mp hclosed
  have hkey := (hlived.pushed_keyed (blockVotes cx bc) hpushed).1
  obtain ⟨old, hold, hpoll⟩ := get?_pushVotes_eq_some hpushed
  have hvotes : poll.votes = old.votes ++ (blockVotes cx bc).filter (fun v => v.pollId = id) := by
    rw [hpoll]
  rw [hkey, hvotes]
  refine ⟨hlived.open_opened id old hold, hexpiry, ?_⟩
  intro h br creations hmem hid k b hblock hlater v hv hvote
  rcases List.mem_append.mp hblock with hblock | hblock
  · apply List.mem_append_left
    exact hcollected id old hold h br creations hmem hid k b hblock hlater v hv hvote
  · cases List.mem_singleton.mp hblock
    apply List.mem_append_right
    exact List.mem_filter.mpr ⟨hv, decide_eq_true hvote⟩

/-- The step that closes a poll, and the run before it, in which all other processed
blocks up to the closing one were processed. -/
theorem closing_step {trace : Trace} {s : System} (hrun : MonitorRun cx config trace s)
    (hsteady : Steady trace) {poll : Poll} (hpoll : poll ∈ closedPolls cx trace) :
    ∃ earlier later u hc bc, trace = earlier ++ later ∧ MonitorRun cx config earlier u ∧
      poll ∈ closedBy cx u.state.polls (.block hc bc) ∧ hc ∈ processedHeights trace ∧
      (∀ k b, (k, b) ∈ processedBlocks trace → k ≤ hc →
        (k, b) ∈ processedBlocks earlier ++ [(hc, bc)]) := by
  have hincreasing := processedHeights_increasing hrun hsteady
  obtain ⟨⟨u, e⟩, hx, hclosed⟩ := List.mem_flatMap.mp hpoll
  obtain ⟨earlier, later, rfl⟩ := List.append_of_mem hx
  obtain ⟨hreach, -⟩ := hrun.before_reached rfl
  cases e with
  | handled msg out =>
      cases msg with
      | block hc bc =>
          have hsplit : processedBlocks (earlier ++ ⟨u, .handled (.block hc bc) out⟩ :: later) =
              processedBlocks earlier ++ (hc, bc) :: processedBlocks later := by
            rw [processedBlocks_append]
            rfl
          refine ⟨earlier, _, u, hc, bc, rfl, hreach, hclosed, ?_, ?_⟩
          · rw [processedHeights, hsplit]
            simp
          · intro k b hblock hle
            rw [processedHeights, hsplit, List.map_append, List.map_cons, List.pairwise_append,
              List.pairwise_cons] at hincreasing
            rw [hsplit, List.mem_append, List.mem_cons] at hblock
            rw [List.mem_append, List.mem_singleton]
            refine hblock.imp id (fun hnow => hnow.resolve_right ?_)
            intro hafter
            have hlt := hincreasing.2.1.1 k (List.mem_map_of_mem hafter)
            omega
      | _ => cases hclosed
  | _ => cases hclosed

/-- A poll that collects the votes of the processed blocks in every state of a
steady run has them when it is analysed. -/
theorem VotesReachPollsFrom.of_collected {since : Nat → Nat} {trace : Trace} {s : System}
    (hrun : MonitorRun cx config trace s) (hsteady : Steady trace)
    (hresults : HonestResults results trace) (hunique : UniquePollIds cx results)
    (hcollected : ∀ earlier later u, trace = earlier ++ later → MonitorRun cx config earlier u →
      VotesCollected cx since earlier u) : VotesReachPollsFrom cx config since trace := by
  have hopenedOnce := (run_lived hrun hsteady hresults hunique).opened_nodup
  intro poll hpoll h br creations hmem hid k b hblock hlater hdue v hv hvote
  obtain ⟨earlier, later, u, hc, bc, rfl, hreach, hclosed, hheight, hbefore⟩ :=
    closing_step hrun hsteady hpoll
  have hlived := run_lived hreach hsteady.earlier hresults.earlier hunique
  obtain ⟨hwasOpened, hexpiry, hall⟩ :=
    (hcollected earlier later u rfl hreach).closed hlived hclosed
  -- the poll is opened only once, so these are the results that opened it
  have hopened : .blockResults h br creations ∈ handledMsgs earlier := by
    rw [handledMsgs_append, List.mem_append] at hmem
    apply hmem.resolve_right
    intro hafter
    rw [openedIds, List.flatMap_append, List.nodup_append] at hopenedOnce
    exact hopenedOnce.2.2 _ hwasOpened _ (mem_openedIds hafter hid) rfl
  have hreached : v ∈ poll.votes :=
    hall h br creations hopened hid k b (hbefore k b hblock (hdue hc hheight hexpiry)) hlater
      v hv hvote
  refine ⟨hreached, ?_⟩
  intro name howner m chain
  rw [count_missed_analyze, if_neg, Nat.add_zero]
  rintro ⟨hmissed, -⟩
  exact hmissed (mem_voters hreached howner)

end AxelarMonitor
