import AxelarMonitor.BlockFetches
import AxelarMonitor.PollStore
import Mathlib.Data.List.Dedup

/-!
Each block is applied once. Nothing in the block handler checks the height, so
this rests on no second fetch being sent while one is outstanding. A head that
is handled at the wrong moment breaks it; without such a head it holds for tips
in any order.
-/

namespace AxelarMonitor

open FifoLoop

variable (cx : Codecs) (config : Config)

def IoResult.processed? : IoResult → Option (Nat × Block)
  | .block h b => some (h, b)
  | _ => none

/-- The blocks handled so far, with their heights. -/
def processedBlocks (trace : Trace) : List (Nat × Block) :=
  (handledMsgs trace).filterMap IoResult.processed?

def processedHeights (trace : Trace) : List Nat := (processedBlocks trace).map Prod.fst

/-- The votes of the handled blocks, of a block handled twice only once. -/
def processedVotes (trace : Trace) : List PollVote :=
  (processedBlocks trace).dedup.flatMap (fun b => blockVotes cx b.2)

def IoCommand.freshBundle? : IoCommand → Option Nat
  | .fetchBlockResults h _ 0 => some h
  | _ => none

/-- The heights of the block-results requests, not counting retries. -/
def freshBundles (trace : Trace) : List Nat :=
  (issued trace).filterMap IoCommand.freshBundle?

@[simp] theorem processedBlocks_snoc (trace : Trace)
    (x : Transition ProcessingState IoCommand IoResult) :
    processedBlocks (trace ++ [x]) =
      processedBlocks trace ++ (x.event.handledMsg?.bind IoResult.processed?).toList :=
  filterMap_handledMsgs_snoc IoResult.processed? trace x

theorem processedBlocks_append (first second : Trace) :
    processedBlocks (first ++ second) = processedBlocks first ++ processedBlocks second := by
  rw [processedBlocks, handledMsgs_append, List.filterMap_append]
  rfl

theorem processedHeights_sublist (trace : Trace) :
    (processedHeights trace).Sublist (settledHeights trace) := by
  unfold processedHeights processedBlocks settledHeights
  induction handledMsgs trace with
  | nil => exact List.Sublist.refl _
  | cons msg rest ih =>
      cases msg with
      | block h b => exact ih.cons_cons h
      | fetchError height retries error =>
          refine ih.trans ?_
          simp only [List.filterMap_cons]
          split
          · exact List.Sublist.refl _
          · exact List.sublist_cons_self _ _
      | _ => exact ih

/-- Only a handled block asks for block results anew. -/
theorem Handles.freshBundles_sublist {st st' : ProcessingState} {msg : IoResult}
    {out : List IoCommand} (h : Handles cx config st msg st' out) :
    (out.filterMap IoCommand.freshBundle?).Sublist (msg.processed?.toList.map Prod.fst) := by
  rcases h.filterMap_bundles IoCommand.freshBundle? (fun _ _ => rfl) (fun _ => rfl) rfl with
    ⟨height, block, data, rfl, -, hout⟩ | ⟨height, polls, retries, error, rfl, hout⟩ | hout
  · rw [hout]
    unfold bundleFor
    split <;> simp [IoCommand.freshBundle?, IoResult.processed?]
  · rw [hout]
    exact List.nil_sublist _
  · rw [hout]
    exact List.nil_sublist _

variable {cx config}

theorem freshBundles_sublist {trace : Trace} {s : System}
    (hrun : MonitorRun cx config trace s) :
    (freshBundles trace).Sublist (processedHeights trace) := by
  induction hrun with
  | nil => exact List.Sublist.refl _
  | @snoc trace s e t hrun hstep ih =>
      unfold freshBundles processedHeights at ih ⊢
      rw [issued_snoc, processedBlocks_snoc, List.filterMap_append, List.map_append]
      cases e with
      | handled msg out => exact ih.append ((step_handles hstep).freshBundles_sublist)
      | _ => simpa using ih

structure Accounted (cx : Codecs) (config : Config) (votes : List PollVote)
    (st : ProcessingState) : Prop where
  pushed : ∀ id poll, st.polls.get? id = some poll → poll.votes.Sublist votes
  counted : ∀ name chain,
    countedVotes st.voteResults name chain + openVotes (isVoteOf cx config name chain) st.polls ≤
      votes.countP (isVoteOf cx config name chain)

theorem Accounted.applyBlock {votes : List PollVote} {st : ProcessingState}
    (hacc : Accounted cx config votes st) (height : Nat) (data : RawBlockData) :
    Accounted cx config (votes ++ data.votes) (applyBlock cx config height data st) where
  pushed id poll hget := by
    rw [get?_applyBlock, Option.filter_eq_some_iff, Option.map_eq_some_iff] at hget
    obtain ⟨⟨old, hold, rfl⟩, -⟩ := hget
    exact (hacc.pushed id old hold).append List.filter_sublist
  counted name chain := by
    have hvotes := applyBlock_votes_le cx config height data st name chain
    have hold := hacc.counted name chain
    rw [List.countP_append]
    omega

theorem Accounted.openPolls {votes : List PollVote} {st : ProcessingState}
    (hacc : Accounted cx config votes st) (results : BlockResults) (creations : List PollData) :
    Accounted cx config votes (processBlockResultsMessage cx results creations st) where
  pushed id poll hget := by
    rcases get?_blockResults cx hget with hold | ⟨⟨creation, -, rfl⟩, -⟩
    · exact hacc.pushed id poll hold
    · exact List.nil_sublist _
  counted name chain := by
    have hopen := openVotes_openPolls (isVoteOf cx config name chain)
      (txToPollIds cx results) creations st.polls
    exact (Nat.add_le_add_left hopen _).trans (hacc.counted name chain)

/-- Handling a message uses each vote of its block at most once. -/
theorem Accounted.handles {votes : List PollVote} {st st' : ProcessingState} {msg : IoResult}
    {out : List IoCommand} (hacc : Accounted cx config votes st)
    (h : Handles cx config st msg st' out) :
    Accounted cx config (votes ++ msg.processed?.toList.flatMap (fun b => blockVotes cx b.2))
      st' := by
  cases h with
  | block height block data hdata =>
      have hnew := hacc.applyBlock height data
      rw [hdata.votes_eq] at hnew
      simpa [IoResult.processed?] using hnew
  | blockResults height results polls =>
      simpa [IoResult.processed?] using hacc.openPolls results polls
  | chainParams params =>
      simp only [IoResult.processed?, Option.toList_none, List.flatMap_nil, List.append_nil]
      refine ⟨hacc.pushed, fun name chain => ?_⟩
      simpa only [countedVotes, count_processChainParams, processChainParams_polls] using
        hacc.counted name chain
  | _ =>
      simp only [IoResult.processed?, Option.toList_none, List.flatMap_nil, List.append_nil]
      exact ⟨hacc.pushed, hacc.counted⟩

theorem run_accounted {trace : Trace} {s : System} (hrun : MonitorRun cx config trace s) :
    Accounted cx config ((processedBlocks trace).flatMap (fun b => blockVotes cx b.2))
      s.state := by
  induction hrun with
  | nil =>
      refine ⟨fun id poll hget => ?_, fun name chain => ?_⟩
      · simp [startUp, ProcessingState.new] at hget
      · simp only [startUp, ProcessingState.new, countedVotes, count_configVoteResults]
        exact Nat.zero_le _
  | @snoc trace s e t hrun hstep ih =>
      rw [processedBlocks_snoc, List.flatMap_append]
      cases e with
      | handled msg out => exact ih.handles (step_handles hstep)
      | fed => simpa [hstep.state_fed] using ih
      | answered cmd out => simpa [hstep.state_answered] using ih

/-- Every vote of a block goes into its poll once and into the vote results
once, since the block itself is handled once. -/
structure AppliedOnce (cx : Codecs) (config : Config) (trace : Trace) (s : System) : Prop where
  heights_nodup : (processedHeights trace).Nodup
  pushed_once : ∀ id poll, s.state.polls.get? id = some poll →
    poll.votes.Sublist (processedVotes cx trace)
  counted_once : ∀ name chain, countedVotes s.state.voteResults name chain ≤
    (processedVotes cx trace).countP (isVoteOf cx config name chain)
  bundles_nodup : (freshBundles trace).Nodup

/-- A head that starts a second fetch while one is outstanding: before the
first block is processed when that leaves the sentinel in place, or when the
old tip equals the last processed height although a fetch is under way. -/
def doublesFetch : Transition ProcessingState IoCommand IoResult → Bool
  | ⟨s, .handled (.head h) _⟩ =>
      blockFetches s ≠ [] ∧ (s.state.lastProcessedHeight = 0 ∨
        (s.state.chainTip < h ∧ s.state.chainTip = s.state.lastProcessedHeight))
  | _ => false

theorem movesAllowed_of_no_doubling {trace : Trace}
    (h : ∀ x ∈ trace, doublesFetch x = false) :
    MovesAllowed (fun f mv => ¬ f.Doubles mv) trace := by
  rintro ⟨s, e⟩ hx msg out rfl mv hmv f hf ⟨height, rfl, hbusy, hcond⟩
  have hmsg : msg = .head height := by
    cases msg with
    | head k =>
        cases hmv
        rfl
    | fetchError k retries error =>
        cases k with
        | latest => cases hmv
        | specific n =>
            simp only [IoResult.move?, Option.some.injEq] at hmv
            split at hmv <;> cases hmv
    | _ => cases hmv
  subst hmsg
  have hpending : blockFetches s ≠ [] := by
    rw [hf.pending_eq]
    simpa using hbusy
  rw [hf.processed_eq, hf.tip_eq] at hcond
  have hdoubles : doublesFetch ⟨s, .handled (.head height) out⟩ = true :=
    decide_eq_true ⟨hpending, hcond⟩
  rw [h _ hx] at hdoubles
  cases hdoubles

theorem applied_once {trace : Trace} {s : System} (hrun : MonitorRun cx config trace s)
    (hhonest : HonestHeights trace) (hpos : ∀ h ∈ fetchedHeads trace, 1 ≤ h)
    (hsingle : ∀ x ∈ trace, doublesFetch x = false) : AppliedOnce cx config trace s := by
  have hpos' : ∀ h ∈ handledHeads trace, 1 ≤ h :=
    fun h hh => hpos h ((handledHeads_initial hrun).subset hh)
  obtain ⟨f, hfrun, -⟩ := monitor_follows hrun hhonest hpos' (movesAllowed_of_no_doubling hsingle)
  have hone := Follower.run_single hfrun (by rwa [announcements_moves])
  have hincreasing := hone.increasing
  rw [settledHeights_moves] at hincreasing
  have hheights : (processedHeights trace).Nodup :=
    (hincreasing.sublist (processedHeights_sublist trace)).imp (fun hlt => ne_of_lt hlt)
  have hblocks : (processedBlocks trace).Nodup := List.Nodup.of_map _ hheights
  have hacc := run_accounted hrun
  rw [← hblocks.dedup] at hacc
  refine ⟨hheights, hacc.pushed, fun name chain => ?_, ?_⟩
  · exact (Nat.le_add_right _ _).trans (hacc.counted name chain)
  · exact (freshBundles_sublist hrun).nodup hheights

/-- The tip falls back while block 6 is outstanding; the fetch is not repeated. -/
def Sample.tipFallsBack : List (Action Http) :=
  [.feed, .feed, serves chainListJson, servesBlock 5, servesBlock 7, .handle, .handle, .handle,
    serves chainParamsJson, servesBlock 5, .handle, .feed, .handle, servesBlock 5, .handle,
    serves resultsJson, servesBlock 6, .handle, .handle]

theorem applied_once_tip_falls_back :
    ∃ r : Trace × System, MonitorRun Sample.codecs Sample.config r.1 r.2 ∧
      processedHeights r.1 = [5, 6] ∧ AppliedOnce Sample.codecs Sample.config r.1 r.2 := by
  have hreplay : ∃ r ∈ Sample.replay Sample.config Sample.tipFallsBack, HonestHeights r.1 ∧
      (∀ h ∈ fetchedHeads r.1, 1 ≤ h) ∧ (∀ x ∈ r.1, doublesFetch x = false) ∧
      processedHeights r.1 = [5, 6] := by
    decide +kernel
  obtain ⟨r, hrun, hhonest, hpos, hsingle, hheights⟩ := Sample.run_of_replay hreplay
  exact ⟨r, hrun, hheights, applied_once hrun hhonest hpos hsingle⟩

/-- Heads 5, 7, 5 and 6: the last one finds the tip equal to the processed
height and fetches block 6 although that fetch is under way. -/
def Sample.blockTwice : List (Action Http) :=
  [.feed, .feed, serves chainListJson, servesBlock 5, servesBlock 7, .handle, .handle, .handle,
    serves chainParamsJson, servesBlock 5, .handle, .feed, .feed, servesBlock 5, servesBlock 6,
    .handle, .handle, .handle, serves resultsJson, servesBlock 6, servesBlock 6, .handle,
    .handle, .handle]

theorem block_applied_twice :
    ∃ r : Trace × System, MonitorRun Sample.codecs Sample.config r.1 r.2 ∧ HonestHeights r.1 ∧
      (∀ h ∈ fetchedHeads r.1, 1 ≤ h) ∧ processedHeights r.1 = [5, 6, 6] ∧
      (r.2.state.polls.get? 1).map (fun poll => poll.votes.length) = some 2 ∧
      ¬ AppliedOnce Sample.codecs Sample.config r.1 r.2 := by
  have hreplay : ∃ r ∈ Sample.replay Sample.config Sample.blockTwice, HonestHeights r.1 ∧
      (∀ h ∈ fetchedHeads r.1, 1 ≤ h) ∧ processedHeights r.1 = [5, 6, 6] ∧
      (r.2.state.polls.get? 1).map (fun poll => poll.votes.length) = some 2 := by
    decide +kernel
  obtain ⟨r, hrun, hhonest, hpos, hheights, hvotes⟩ := Sample.run_of_replay hreplay
  refine ⟨r, hrun, hhonest, hpos, hheights, hvotes, fun honce => ?_⟩
  have hnodup := honce.heights_nodup
  rw [hheights] at hnodup
  revert hnodup
  decide

end AxelarMonitor
