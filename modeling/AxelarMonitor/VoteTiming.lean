import AxelarMonitor.Accounting
import AxelarMonitor.PollStore
import Mathlib.Data.List.Forall2

/-!
Two runs over the same heights whose blocks hold the same votes at different
places. While a poll is open, its votes so far and its votes still to come are
the same in both runs; when it closes nothing is still to come.
-/

namespace AxelarMonitor

variable (cx : Codecs)

/-- The votes on a poll in some blocks. -/
def votesOn (id : Nat) (blocks : List (Nat × Block)) : List PollVote :=
  blocks.flatMap (fun b => (blockVotes cx b.2).filter (fun v => v.pollId = id))

/-- No vote on an open poll comes after the block that closes it. -/
def InWindow (polls : OrderedMap Nat Poll) (blocks : List (Nat × Block)) : Prop :=
  ∀ id poll, polls.get? id = some poll → ∀ earlier b later, blocks = earlier ++ b :: later →
    poll.data.expiryHeight ≤ b.1 → votesOn cx id later = []

/-- The same poll up to the order of its votes, those still to come included. -/
def SamePoll (rest rest' : List (Nat × Block)) (id : Nat) (p q : Poll) : Prop :=
  p.pollId = q.pollId ∧ p.data = q.data ∧
    (p.votes ++ votesOn cx id rest).Perm (q.votes ++ votesOn cx id rest')

/-- Two states with the same outcomes, ahead of blocks with the same votes. -/
structure InStepWith (st st' : ProcessingState) (rest rest' : List (Nat × Block)) : Prop where
  results : st.voteResults = st'.voteResults
  expired : st.expiredPollIds = st'.expiredPollIds
  polls : OrderedMap.Related (SamePoll cx rest rest') st.polls st'.polls
  window : InWindow cx st.polls rest
  window' : InWindow cx st'.polls rest'

variable {cx}

theorem votesOn_cons (id : Nat) (b : Nat × Block) (rest : List (Nat × Block)) :
    votesOn cx id (b :: rest) =
      (blockVotes cx b.2).filter (fun v => v.pollId = id) ++ votesOn cx id rest := rfl

theorem InWindow.pushed {polls : OrderedMap Nat Poll} {blocks : List (Nat × Block)}
    (h : InWindow cx polls blocks) (votes : List PollVote) :
    InWindow cx (votes.foldl pushVote polls) blocks := by
  intro id poll hget
  obtain ⟨opened, hopened, rfl⟩ := get?_pushVotes_eq_some hget
  exact h id opened hopened

theorem InWindow.retain {polls : OrderedMap Nat Poll} {blocks : List (Nat × Block)}
    (h : InWindow cx polls blocks) (keep : Nat → Poll → Bool) :
    InWindow cx (polls.retain keep) blocks := by
  intro id poll hget
  exact h id poll (OrderedMap.get?_retain_eq_some.mp hget).1

theorem InWindow.tail {polls : OrderedMap Nat Poll} {b : Nat × Block}
    {blocks : List (Nat × Block)} (h : InWindow cx polls (b :: blocks)) :
    InWindow cx polls blocks := by
  rintro id poll hget earlier b' later rfl
  exact h id poll hget (b :: earlier) b' later rfl

/-- Nothing is still to come for a poll that the first block closes. -/
theorem InWindow.closed {polls : OrderedMap Nat Poll} {height : Nat} {block : Block}
    {rest : List (Nat × Block)} (h : InWindow cx polls ((height, block) :: rest)) {id : Nat}
    {poll : Poll} (hget : polls.get? id = some poll) (hdue : poll.data.expiryHeight ≤ height) :
    votesOn cx id rest = [] :=
  h id poll hget [] (height, block) rest rfl hdue

theorem SamePoll.analyze_eq {rest rest' : List (Nat × Block)} {id : Nat} {p q : Poll}
    (h : SamePoll cx rest rest' id p q) (hrest : votesOn cx id rest = [])
    (hrest' : votesOn cx id rest' = []) (config : Config) (m : OrderedMap VoteResult Nat) :
    analyzePollCompletion cx p config m = analyzePollCompletion cx q config m := by
  obtain ⟨hid, hdata, hvotes⟩ := h
  rw [hrest, hrest', List.append_nil, List.append_nil] at hvotes
  have hp : p = { q with votes := p.votes } := by
    cases p
    cases q
    simp_all
  rw [hp]
  exact analyze_perm cx config q m hvotes

section Step

variable {st st' : ProcessingState} {height : Nat} {block block' : Block}
  {rest rest' : List (Nat × Block)}

/-- The polls after the votes of one block on either side. -/
theorem InStepWith.pushed
    (hin : InStepWith cx st st' ((height, block) :: rest) ((height, block') :: rest')) :
    OrderedMap.Related (SamePoll cx rest rest') ((blockVotes cx block).foldl pushVote st.polls)
      ((blockVotes cx block').foldl pushVote st'.polls) := by
  apply related_pushVotes hin.polls
  rintro id p q ⟨hid, hdata, hvotes⟩
  refine ⟨hid, hdata, ?_⟩
  simpa only [votesOn_cons, List.append_assoc] using hvotes

/-- A poll that the block closes is analysed alike on either side. -/
theorem InStepWith.closing (config : Config)
    (hin : InStepWith cx st st' ((height, block) :: rest) ((height, block') :: rest')) :
    OrderedMap.Related (fun _ p q => p.data = q.data ∧ (p.data.expiryHeight ≤ height → ∀ m,
        analyzePollCompletion cx p config m = analyzePollCompletion cx q config m))
      ((blockVotes cx block).foldl pushVote st.polls)
      ((blockVotes cx block').foldl pushVote st'.polls) := by
  refine hin.pushed.imp (fun id p q hp hq hsame => ⟨hsame.2.1, fun hdue m => ?_⟩)
  have hrest := (hin.window.pushed (blockVotes cx block)).closed hp hdue
  have hrest' := (hin.window'.pushed (blockVotes cx block')).closed hq (hsame.2.1 ▸ hdue)
  exact hsame.analyze_eq hrest hrest' config m

/-- The step: one block on either side keeps the states in step. -/
theorem InStepWith.step (config : Config) {data data' : RawBlockData}
    (hin : InStepWith cx st st' ((height, block) :: rest) ((height, block') :: rest'))
    (hvotes : data.votes = blockVotes cx block) (hvotes' : data'.votes = blockVotes cx block') :
    InStepWith cx (applyBlock cx config height data st)
      (applyBlock cx config height data' st') rest rest' := by
  have hclosing := hin.closing config
  constructor
  · rw [applyBlock_voteResults, applyBlock_voteResults, hvotes, hvotes', closingPolls,
      closingPolls, List.foldl_map, List.foldl_map, List.foldl_filter, List.foldl_filter]
    refine List.rel_foldl (fun m m' hm e e' he => ?_) hin.results hclosing.forall₂_entries
    obtain ⟨-, hdata, hsame⟩ := he
    by_cases hdue : e.2.data.expiryHeight ≤ height
    · simp only [← hdata, hdue, decide_true, if_true, hm, hsame hdue]
    · simp only [← hdata, hdue, decide_false, Bool.false_eq_true, if_false, hm]
  · rw [applyBlock_expiredPollIds, applyBlock_expiredPollIds, hin.expired, hvotes, hvotes']
    congr 1
    ext id
    rw [List.mem_toFinset, List.mem_toFinset, mem_expiringPollIds, mem_expiringPollIds]
    exact hclosing.exists_iff id (fun p q hsame => by rw [hsame.1])
  · rw [applyBlock_polls, applyBlock_polls, hvotes, hvotes']
    exact hin.pushed.retain _ _ (fun id p q hsame => by rw [hsame.2.1])
  · exact ((hin.window.pushed data.votes).retain _).tail
  · exact ((hin.window'.pushed data'.votes).retain _).tail

end Step

/-- `process_block` returns, as it does for a block without poll creations. -/
def Readable (cx : Codecs) (params : OrderedMap String ChainParams) (b : Nat × Block) : Prop :=
  ∃ data, ReadsAs cx b.2 params b.1 data

theorem readable_of_requests {params : OrderedMap String ChainParams} {b : Nat × Block}
    (h : (blockRequests cx b.2).isSome = true) : Readable cx params b := by
  obtain ⟨requests, hrequests⟩ := Option.isSome_iff_exists.mp h
  exact ⟨_, by rw [ReadsAs, processBlock_eq, hrequests, Option.map_some]⟩

def blockMsgs (blocks : List (Nat × Block)) : List IoResult :=
  blocks.map (fun b => .block b.1 b.2)

theorem processMessages_block {config : Config} {st : ProcessingState} {b : Nat × Block}
    {data : RawBlockData} (h : ReadsAs cx b.2 st.chainParams b.1 data)
    (rest : List (Nat × Block)) :
    processMessages cx config (blockMsgs (b :: rest)) st =
      processMessages cx config (blockMsgs rest) (applyBlock cx config b.1 data st) := by
  have hstep : (processSingleMessage cx (.block b.1 b.2) st config).map Prod.fst =
      some (applyBlock cx config b.1 data st) := by
    unfold ReadsAs at h
    simp [processSingleMessage, processBlockMessage, h, applyBlock]
  simp only [processMessages, blockMsgs, List.map_cons, List.foldlM_cons, hstep]
  rfl

/-- States in step stay in step until all blocks are processed. -/
theorem InStepWith.run (config : Config) {first second : List (Nat × Block)}
    {st st' : ProcessingState} (hin : InStepWith cx st st' first second)
    (hheights : first.map Prod.fst = second.map Prod.fst)
    (hparams : st.chainParams = st'.chainParams)
    (hread : ∀ b ∈ first ++ second, Readable cx st.chainParams b) :
    ∃ last last', processMessages cx config (blockMsgs first) st = some last ∧
      processMessages cx config (blockMsgs second) st' = some last' ∧
      InStepWith cx last last' [] [] := by
  induction first generalizing second st st' with
  | nil =>
      obtain rfl := List.map_eq_nil_iff.mp hheights.symm
      exact ⟨st, st', rfl, rfl, hin⟩
  | cons b first ih =>
      cases second with
      | nil => cases hheights
      | cons b' second =>
          obtain ⟨hheight, hrest⟩ := List.cons.inj hheights
          obtain ⟨height, block⟩ := b
          obtain ⟨height', block'⟩ := b'
          obtain rfl : height = height' := hheight
          obtain ⟨data, hdata⟩ := hread (height, block) (by simp)
          obtain ⟨data', hdata'⟩ := hread (height, block') (by simp)
          have hnext := hin.step config hdata.votes_eq hdata'.votes_eq
          rw [processMessages_block hdata, processMessages_block (hparams ▸ hdata')]
          refine ih hnext hrest hparams (fun c hc => hread c ?_)
          simp only [List.mem_append, List.mem_cons] at hc ⊢
          exact hc.imp Or.inr Or.inr

/-- Over the same heights, when the votes on each open poll are the same and all
come no later than the block that closes it, both runs end with the same results
and the same open polls up to the order of their votes. -/
theorem vote_timing_irrelevant (config : Config) (st : ProcessingState)
    (first second : List (Nat × Block)) (hheights : first.map Prod.fst = second.map Prod.fst)
    (hread : ∀ b ∈ first ++ second, Readable cx st.chainParams b)
    (hvotes : ∀ id poll, st.polls.get? id = some poll →
      (votesOn cx id first).Perm (votesOn cx id second))
    (hfirst : InWindow cx st.polls first) (hsecond : InWindow cx st.polls second) :
    ∃ last last', processMessages cx config (blockMsgs first) st = some last ∧
      processMessages cx config (blockMsgs second) st = some last' ∧
      last.voteResults = last'.voteResults ∧ last.expiredPollIds = last'.expiredPollIds ∧
      OrderedMap.Related (fun _ p q => p.pollId = q.pollId ∧ p.data = q.data ∧
        p.votes.Perm q.votes) last.polls last'.polls := by
  have hin : InStepWith cx st st first second := by
    refine ⟨rfl, rfl, fun id => ?_, hfirst, hsecond⟩
    have hsame := hvotes id
    generalize st.polls.get? id = p at hsame ⊢
    cases p with
    | none => exact .none
    | some poll => exact .some ⟨rfl, rfl, (hsame poll rfl).append_left poll.votes⟩
  obtain ⟨last, last', hrun, hrun', hlast⟩ := hin.run config hheights rfl hread
  refine ⟨last, last', hrun, hrun', hlast.results, hlast.expired, ?_⟩
  refine hlast.polls.imp (fun id p q _ _ hsame => ⟨hsame.1, hsame.2.1, ?_⟩)
  simpa [votesOn] using hsame.2.2

namespace Sample

/-- A state with one open poll, which block 7 closes. -/
def oneOpenPoll : ProcessingState :=
  { ProcessingState.new codecs config with
    polls := OrderedMap.empty.insert 1 ⟨1, ⟨.gatewayTx, "eth", "01", 7⟩, []⟩ }

def early : List (Nat × Block) := [(6, ⟨⟨"6"⟩, ⟨[ethVote]⟩⟩), (7, ⟨⟨"7"⟩, ⟨[]⟩⟩)]

/-- The vote in the closing block itself. -/
def late : List (Nat × Block) := [(6, ⟨⟨"6"⟩, ⟨[]⟩⟩), (7, ⟨⟨"7"⟩, ⟨[ethVote]⟩⟩)]

theorem get?_oneOpenPoll {id : Nat} {poll : Poll} (h : oneOpenPoll.polls.get? id = some poll) :
    id = 1 ∧ poll.data.expiryHeight = 7 := by
  rw [oneOpenPoll, OrderedMap.get?_insert] at h
  split_ifs at h with hid
  · cases h
    exact ⟨hid, rfl⟩
  · cases h

theorem oneOpenPoll_window (b b' : Block) :
    InWindow codecs oneOpenPoll.polls [(6, b), (7, b')] := by
  intro id poll hget earlier c later hsplit hdue
  rw [(get?_oneOpenPoll hget).2] at hdue
  match earlier, hsplit with
  | [], hsplit =>
      cases hsplit
      exact absurd hdue (Nat.not_le.mpr (Nat.lt_succ_self 6))
  | [_], hsplit =>
      cases hsplit
      rfl
  | _ :: _ :: _, hsplit => simp at hsplit

end Sample

theorem timing_irrelevant_for_one_vote :
    ∃ last last', processMessages Sample.codecs Sample.config (blockMsgs Sample.early)
        Sample.oneOpenPoll = some last ∧
      processMessages Sample.codecs Sample.config (blockMsgs Sample.late)
        Sample.oneOpenPoll = some last' ∧
      last.voteResults = last'.voteResults ∧ last.expiredPollIds = last'.expiredPollIds ∧
      last.voteResults.count ⟨"chorus", "eth", .agreed⟩ = 1 := by
  have hread : ∀ b ∈ Sample.early ++ Sample.late,
      Readable Sample.codecs Sample.oneOpenPoll.chainParams b := by
    have hrequests : ∀ b ∈ Sample.early ++ Sample.late,
        (blockRequests Sample.codecs b.2).isSome = true := by
      decide +kernel
    exact fun b hb => readable_of_requests (hrequests b hb)
  have hvotes : (votesOn Sample.codecs 1 Sample.early).Perm
      (votesOn Sample.codecs 1 Sample.late) := by
    decide +kernel
  have hagreed : ∃ last ∈ processMessages Sample.codecs Sample.config
      (blockMsgs Sample.early) Sample.oneOpenPoll,
        last.voteResults.count ⟨"chorus", "eth", .agreed⟩ = 1 := by
    decide +kernel
  obtain ⟨last, last', hrun, hrun', hresults, hexpired, -⟩ :=
    vote_timing_irrelevant Sample.config Sample.oneOpenPoll Sample.early Sample.late rfl hread
      (fun id poll hget => (Sample.get?_oneOpenPoll hget).1 ▸ hvotes)
      (Sample.oneOpenPoll_window _ _) (Sample.oneOpenPoll_window _ _)
  obtain ⟨last'', hmem, hcount⟩ := hagreed
  obtain rfl := Option.some.inj (hrun.symm.trans hmem)
  exact ⟨last, last', hrun, hrun', hresults, hexpired, hcount⟩

end AxelarMonitor
