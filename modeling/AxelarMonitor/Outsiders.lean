import AxelarMonitor.Lib.FifoPairs
import AxelarMonitor.Contributions
import AxelarMonitor.Scoreboard

/-!
What votes of senders outside the configuration can do. They count in the
popularity of a transaction id, so they may turn agreement into disagreement.
They reach nothing else: not what is fetched, not which polls open and close,
not who is counted as missing, and not how many votes of a broadcaster count.
-/

namespace AxelarMonitor

open FifoLoop Plurality

variable (cx : Codecs) (config : Config)

/-- The votes of configured broadcasters. -/
def insiders (votes : List PollVote) : List PollVote :=
  votes.filter (fun v => (owner config v).isSome)

structure SameInside (p q : Poll) : Prop where
  pollId : p.pollId = q.pollId
  data : p.data = q.data
  votes : insiders config p.votes = insiders config q.votes

/-- The same result, or a block of the same height whose poll requests and
insider votes are the same. -/
inductive AlikeResult : IoResult → IoResult → Prop
  | same (msg : IoResult) : AlikeResult msg msg
  | block (height : Nat) (b b' : Block) (hrequests : blockRequests cx b = blockRequests cx b')
      (hvotes : insiders config (blockVotes cx b) = insiders config (blockVotes cx b')) :
      AlikeResult (.block height b) (.block height b')

/-- The vote results are left out; they are read off the closed polls. -/
structure AlikeState (st st' : ProcessingState) : Prop where
  chainHeight : st.chainHeight = st'.chainHeight
  fetchErrorCount : st.fetchErrorCount = st'.fetchErrorCount
  chainParams : st.chainParams = st'.chainParams
  polls : OrderedMap.Related (fun _ => SameInside config) st.polls st'.polls
  expiredPollIds : st.expiredPollIds = st'.expiredPollIds
  chainTip : st.chainTip = st'.chainTip
  lastProcessedHeight : st.lastProcessedHeight = st'.lastProcessedHeight

variable {cx config}

theorem insiders_append (votes votes' : List PollVote) :
    insiders config (votes ++ votes') = insiders config votes ++ insiders config votes' :=
  List.filter_append _ _

theorem insiders_filter (p : PollVote → Bool) (votes : List PollVote) :
    insiders config (votes.filter p) = (insiders config votes).filter p := by
  unfold insiders
  rw [List.filter_filter, List.filter_filter]
  simp only [Bool.and_comm]

theorem SameInside.push {p q : Poll} (h : SameInside config p q) {votes votes' : List PollVote}
    (hvotes : insiders config votes = insiders config votes') :
    SameInside config { p with votes := p.votes ++ votes } { q with votes := q.votes ++ votes' } :=
  ⟨h.pollId, h.data, by rw [insiders_append, insiders_append, h.votes, hvotes]⟩

theorem sameInside_pushVotes {polls polls' : OrderedMap Nat Poll} {votes votes' : List PollVote}
    (h : OrderedMap.Related (fun _ => SameInside config) polls polls')
    (hvotes : insiders config votes = insiders config votes') :
    OrderedMap.Related (fun _ => SameInside config) (votes.foldl pushVote polls)
      (votes'.foldl pushVote polls') := by
  apply related_pushVotes h
  intro id p q hsame
  apply hsame.push
  rw [insiders_filter, insiders_filter, hvotes]

theorem sameInside_openPolls {polls polls' : OrderedMap Nat Poll}
    (h : OrderedMap.Related (fun _ => SameInside config) polls polls')
    (ids : OrderedMap String Nat) (creations : List PollData) :
    OrderedMap.Related (fun _ => SameInside config) (creations.foldl (openPoll ids) polls)
      (creations.foldl (openPoll ids) polls') := by
  apply related_openPolls _ ids (List.forall₂_same.mpr (fun _ _ => rfl)) h
  rintro id c _ rfl
  exact ⟨rfl, rfl, rfl, rfl⟩

theorem sameInside_closing {polls polls' : OrderedMap Nat Poll}
    (h : OrderedMap.Related (fun _ => SameInside config) polls polls') (height : Nat) :
    List.Forall₂ (SameInside config) (closingPolls polls height) (closingPolls polls' height) :=
  closingPolls_related (fun p q hsame => by rw [hsame.data]) h height

theorem AlikeState.applyBlock {st st' : ProcessingState} (h : AlikeState config st st')
    (height : Nat) {data data' : RawBlockData}
    (hvotes : insiders config data.votes = insiders config data'.votes) :
    AlikeState config (applyBlock cx config height data st)
      (applyBlock cx config height data' st') := by
  have hpushed := sameInside_pushVotes h.polls hvotes
  constructor
  · exact congrArg (max · height) h.chainHeight
  · exact h.fetchErrorCount
  · exact h.chainParams
  · rw [applyBlock_polls, applyBlock_polls]
    exact hpushed.retain _ _ (fun id p q hsame => by rw [hsame.data])
  · rw [applyBlock_expiredPollIds, applyBlock_expiredPollIds, h.expiredPollIds,
      expiringPollIds_related (fun p q hsame => by rw [hsame.data]) hpushed]
  · exact h.chainTip
  · rfl

theorem AlikeState.blockMessage {st st' : ProcessingState} (h : AlikeState config st st')
    (height : Nat) {b b' : Block} (hrequests : blockRequests cx b = blockRequests cx b')
    (hvotes : insiders config (blockVotes cx b) = insiders config (blockVotes cx b')) :
    Option.Rel (fun r r' => AlikeState config r.1 r'.1 ∧ r.2 = r'.2)
      (processBlockMessage cx height b st config)
      (processBlockMessage cx height b' st' config) := by
  rw [processBlockMessage_eq, processBlockMessage_eq, hrequests, h.chainParams, h.chainTip]
  cases blockRequests cx b' with
  | none => exact .none
  | some requests => exact .some ⟨h.applyBlock height hvotes, rfl⟩

theorem AlikeState.chainParamsMessage {st st' : ProcessingState} (h : AlikeState config st st')
    (chain : ChainParams) :
    AlikeState config (processChainParamsMessage cx chain st config)
      (processChainParamsMessage cx chain st' config) :=
  { h with
    chainParams := congrArg (fun m => m.insert (cx.toLowercase chain.name) chain) h.chainParams }

theorem AlikeState.headMessage {st st' : ProcessingState} (h : AlikeState config st st')
    (height : Nat) :
    AlikeState config (processHeadMessage height st).1 (processHeadMessage height st').1 ∧
      (processHeadMessage height st).2 = (processHeadMessage height st').2 := by
  rw [processHeadMessage_eq, processHeadMessage_eq, h.chainTip, h.lastProcessedHeight]
  exact ⟨{ h with chainTip := rfl, lastProcessedHeight := rfl }, rfl⟩

theorem AlikeState.fetchErrorMessage {st st' : ProcessingState} (h : AlikeState config st st')
    (height : Height) (retries : Nat) :
    AlikeState config (processFetchErrorMessage height retries st).1
        (processFetchErrorMessage height retries st').1 ∧
      (processFetchErrorMessage height retries st).2 =
        (processFetchErrorMessage height retries st').2 := by
  have hcounted := congrArg (· + 1) h.fetchErrorCount
  unfold processFetchErrorMessage
  cases height with
  | latest => exact ⟨{ h with fetchErrorCount := hcounted }, rfl⟩
  | specific k =>
      by_cases hretry : retries < maxFetchRetries
      · simp only [hretry, if_true, and_true]
        exact { h with fetchErrorCount := hcounted }
      · simp only [hretry, if_false, h.chainTip, and_true]
        exact { h with
          fetchErrorCount := hcounted
          chainTip := rfl
          lastProcessedHeight := rfl }

theorem alike_coupled :
    (monitor cx config).Coupled (monitor cx config) (AlikeState config) Eq
      (AlikeResult cx config) where
  feed_rel := rfl
  handle_rel := by
    intro msg msg' st st' hmsg h
    simp only [List.forall₂_eq_eq_eq]
    cases hmsg with
    | block height b b' hrequests hvotes => exact h.blockMessage height hrequests hvotes
    | same msg =>
        cases msg with
        | block height b => exact h.blockMessage height rfl rfl
        | blockResults height results creations =>
            refine .some ⟨{ h with polls := ?_ }, rfl⟩
            exact sameInside_openPolls h.polls _ creations
        | fetchError height retries error => exact .some (h.fetchErrorMessage height retries)
        | fetchBlockResultsError height polls retries error =>
            exact .some ⟨{ h with fetchErrorCount := congrArg (· + 1) h.fetchErrorCount }, rfl⟩
        | chainList chains => exact .some ⟨h, rfl⟩
        | fetchChainListError error =>
            exact .some ⟨{ h with fetchErrorCount := congrArg (· + 1) h.fetchErrorCount }, rfl⟩
        | chainParams chain => exact .some ⟨h.chainParamsMessage chain, rfl⟩
        | head height => exact .some (h.headMessage height)

theorem countP_insiders {p : PollVote → Bool}
    (hp : ∀ v, p v = true → (owner config v).isSome = true) (votes : List PollVote) :
    (insiders config votes).countP p = votes.countP p := by
  unfold insiders
  rw [List.countP_filter]
  apply List.countP_congr
  intro v _
  rw [Bool.and_eq_true]
  exact ⟨And.left, fun hv => ⟨hv, hp v hv⟩⟩

theorem SameInside.countP_eq {p q : Poll} (h : SameInside config p q) {f : PollVote → Bool}
    (hf : ∀ v, f v = true → (owner config v).isSome = true) :
    p.votes.countP f = q.votes.countP f := by
  rw [← countP_insiders hf p.votes, h.votes, countP_insiders hf]

theorem voters_insiders (votes : List PollVote) :
    voters config (insiders config votes) = voters config votes := by
  unfold voters insiders
  rw [List.filterMap_filter]
  congr 1
  funext v
  show (if (owner config v).isSome = true then owner config v else none) = owner config v
  cases owner config v <;> rfl

theorem SameInside.growth_eq {p q : Poll} (h : SameInside config p q) (leader : String)
    (key : VoteResult) : growth cx config p leader key = growth cx config q leader key := by
  have hvoters : voters config p.votes = voters config q.votes := by
    rw [← voters_insiders p.votes, h.votes, voters_insiders]
  have hmissed : missedKey cx config p = missedKey cx config q := by
    funext b
    unfold missedKey
    rw [hvoters, h.data]
  rw [growth_eq_tallies, growth_eq_tallies, hmissed]
  congr 1
  · apply h.countP_eq
    intro v hv
    have hkey : voteKey cx config leader v = some key := of_decide_eq_true hv
    unfold voteKey at hkey
    cases howner : owner config v with
    | none => simp [howner] at hkey
    | some name => rfl

/-- Outsiders reach the share of a poll through its leader only. -/
theorem SameInside.share_eq {p q : Poll} (h : SameInside config p q)
    (hleader : leaderOf p = leaderOf q) (key : VoteResult) :
    share cx config key p = share cx config key q := by
  rw [share, share, h.growth_eq, hleader]

theorem SameInside.share_missed_eq {p q : Poll} (h : SameInside config p q)
    (name chain : String) :
    share cx config ⟨name, chain, .missed⟩ p = share cx config ⟨name, chain, .missed⟩ q := by
  rw [share, h.growth_eq, share]
  rfl

theorem SameInside.outcomes_eq {p q : Poll} (h : SameInside config p q) (name chain : String) :
    p.votes.countP (isVoteOf cx config name chain) =
      q.votes.countP (isVoteOf cx config name chain) := by
  apply h.countP_eq
  intro v hv
  unfold isVoteOf at hv
  cases howner : owner config v with
  | none => simp [howner] at hv
  | some name => rfl

theorem AlikeState.refl (st : ProcessingState) : AlikeState config st st where
  chainHeight := rfl
  fetchErrorCount := rfl
  chainParams := rfl
  polls := fun id => by
    cases st.polls.get? id with
    | none => exact .none
    | some poll => exact .some ⟨rfl, rfl, rfl⟩
  expiredPollIds := rfl
  chainTip := rfl
  lastProcessedHeight := rfl

theorem sameInside_closedIn {polls polls' : OrderedMap Nat Poll}
    (h : OrderedMap.Related (fun _ => SameInside config) polls polls')
    {e e' : Event IoCommand IoResult} (hmatched : Matched Eq (AlikeResult cx config) e e') :
    List.Forall₂ (SameInside config) (closedIn cx polls e) (closedIn cx polls' e') := by
  cases hmatched with
  | fed => exact .nil
  | answered => exact .nil
  | handled msg msg' out out' hmsg hout =>
      cases hmsg with
      | block height b b' hrequests hvotes =>
          exact sameInside_closing (sameInside_pushVotes h hvotes) height
      | same msg =>
          cases msg with
          | block height b => exact sameInside_closing (sameInside_pushVotes h rfl) height
          | _ => exact .nil

/-- The same schedule, and answers that differ in outsider votes only. -/
def SameButOutsiders (cx : Codecs) (config : Config) : Trace → Trace → Prop :=
  List.Forall₂ (fun x y => Abreast (AlikeResult cx config) x.event y.event)

/-- All that the votes of outsiders leave alone, and the one thing through which
they reach the rest: the leading transaction id of a closed poll. -/
structure OnlySwayed (cx : Codecs) (config : Config) (trace : Trace) (s : System)
    (trace' : Trace) (s' : System) : Prop where
  issued : issued trace = issued trace'
  together : Together (AlikeState config) Eq (AlikeResult cx config) s s'
  survives : (∃ msg out t, Step (monitor cx config) s (.handled msg out) t) ↔
    ∃ msg out t, Step (monitor cx config) s' (.handled msg out) t
  closed : List.Forall₂ (SameInside config) (closedPolls cx trace) (closedPolls cx trace')
  missed : ∀ name chain, s.state.voteResults.count ⟨name, chain, .missed⟩ =
    s'.state.voteResults.count ⟨name, chain, .missed⟩
  counted : ∀ name chain, countedVotes s.state.voteResults name chain =
    countedVotes s'.state.voteResults name chain
  swayed : List.Forall₂ (fun p q => leaderOf p = leaderOf q) (closedPolls cx trace)
      (closedPolls cx trace') →
    ∀ key, s.state.voteResults.count key = s'.state.voteResults.count key

/-- Two runs that differ in the votes of outsiders only fetch the same, open and
close the same polls and count the same absences; the outcomes differ only by
what moves between agreement and disagreement where the leader differs. -/
theorem outsiders_only_sway {trace trace' : Trace} {s s' : System}
    (hrun : MonitorRun cx config trace s) (hrun' : MonitorRun cx config trace' s')
    (hsame : SameButOutsiders cx config trace trace') :
    OnlySwayed cx config trace s trace' s' := by
  have hstart : Together (AlikeState config) Eq (AlikeResult cx config) (startUp cx config)
      (startUp cx config) := ⟨AlikeState.refl _, .cons rfl .nil, .nil⟩
  obtain ⟨htogether, hmatched⟩ := alike_coupled.run hstart hrun hrun' hsame
  have hissued := issued_of_matched (hmatched.imp (fun x y h => h.2))
  rw [List.forall₂_eq_eq_eq] at hissued
  have hclosed : List.Forall₂ (SameInside config) (closedPolls cx trace)
      (closedPolls cx trace') :=
    List.rel_flatMap hmatched (fun x y h => sameInside_closedIn h.1.state.polls h.2)
  refine ⟨hissued, htogether, alike_coupled.handles_iff htogether, hclosed, ?_, ?_, ?_⟩
  · intro name chain
    rw [results_eq_shares hrun, results_eq_shares hrun']
    exact congrArg List.sum (map_eq_of_forall₂ (fun p q h => h.share_missed_eq name chain) hclosed)
  · intro name chain
    rw [counted_eq_analysed hrun, counted_eq_analysed hrun', analysedVotes, analysedVotes,
      List.countP_flatMap, List.countP_flatMap]
    exact congrArg List.sum (map_eq_of_forall₂ (fun p q h => h.outcomes_eq name chain) hclosed)
  · intro hleaders key
    have hboth := List.Forall₂.mp (fun p q => And.intro) hclosed hleaders
    rw [results_eq_shares hrun, results_eq_shares hrun']
    exact congrArg List.sum (map_eq_of_forall₂ (fun p q h => h.1.share_eq h.2 key) hboth)

/-- A test for results that differ in outsider votes only. -/
def alikeTest (cx : Codecs) (config : Config) : IoResult → IoResult → Bool
  | .block height b, .block height' b' =>
      decide (height = height' ∧ blockRequests cx b = blockRequests cx b' ∧
        insiders config (blockVotes cx b) = insiders config (blockVotes cx b'))
  | msg, msg' => decide (msg = msg')

theorem alikeResult_of_test (msg msg' : IoResult) (h : alikeTest cx config msg msg' = true) :
    AlikeResult cx config msg msg' := by
  unfold alikeTest at h
  split at h
  · obtain ⟨rfl, hrequests, hvotes⟩ := of_decide_eq_true h
    exact .block _ _ _ hrequests hvotes
  · obtain rfl := of_decide_eq_true h
    exact .same msg

namespace Sample

/-- A deployment that watches someone else, so that the vote in block 6 is an
outsider's. -/
def watcherConfig : Config := { Sample.config with broadcaster := [⟨"00", "watcher"⟩] }

def quietBlock : Block := ⟨⟨"6"⟩, ⟨[]⟩⟩

def quietCodecs : Codecs :=
  { codecs with
    jsonResponse := fun s =>
      if s = blockJson quietBlock then .ok ⟨quietBlock⟩ else codecs.jsonResponse s }

def playSixth (sixth : Block) : Option (Trace × System) :=
  (monitor quietCodecs watcherConfig).replay (startUp quietCodecs watcherConfig)
    (openAndClose sixth)

end Sample

/-- With and without the vote, the poll is closed and the watched broadcaster
has missed it. -/
theorem outsider_vote_counts_for_nothing :
    ∃ r r' : Trace × System,
      MonitorRun Sample.quietCodecs Sample.watcherConfig r.1 r.2 ∧
      MonitorRun Sample.quietCodecs Sample.watcherConfig r'.1 r'.2 ∧
      closedPolls Sample.quietCodecs r.1 ≠ closedPolls Sample.quietCodecs r'.1 ∧
      r.2.state.voteResults.count ⟨"watcher", "eth", .missed⟩ = 1 ∧
      OnlySwayed Sample.quietCodecs Sample.watcherConfig r.1 r.2 r'.1 r'.2 := by
  have hreplay : ∃ r ∈ Sample.playSixth (Sample.block 6),
      ∃ r' ∈ Sample.playSixth Sample.quietBlock,
      List.Forall₂ (fun x y => x.event.abreast
        (alikeTest Sample.quietCodecs Sample.watcherConfig) y.event = true) r.1 r'.1 ∧
      closedPolls Sample.quietCodecs r.1 ≠ closedPolls Sample.quietCodecs r'.1 ∧
      r.2.state.voteResults.count ⟨"watcher", "eth", .missed⟩ = 1 := by
    decide +kernel
  obtain ⟨r, hr, r', hr', htest, hclosed, hmissed⟩ := hreplay
  have hsame : SameButOutsiders Sample.quietCodecs Sample.watcherConfig r.1 r'.1 :=
    htest.imp (fun x y h => abreast_of_test alikeResult_of_test h)
  exact ⟨r, r', replay_run hr, replay_run hr', hclosed, hmissed,
    outsiders_only_sway (replay_run hr) (replay_run hr') hsame⟩

end AxelarMonitor
