import AxelarMonitor.Lib.FifoPairs
import AxelarMonitor.PollStore

/-!
The letter case of chain names. A chain is named in the configuration, in the
chain list, in parameters, in poll requests and in votes; two deployments that
spell it with different letter case, each as it likes, fetch the same up to this
spelling and end with the same vote results. Nothing is assumed about
`to_lowercase`: two names are the same up to case if it takes them to one text.
-/

namespace AxelarMonitor

open FifoLoop Relator

section UpToCase

variable (cx : Codecs)

def SameChain (c c' : String) : Prop := cx.toLowercase c = cx.toLowercase c'

structure SameVote (v v' : PollVote) : Prop where
  pollId : v.pollId = v'.pollId
  chain : SameChain cx v.chain v'.chain
  txId : v.txId = v'.txId
  senderId : v.senderId = v'.senderId
  payloadHash : v.payloadHash = v'.payloadHash

structure SameRequest (r r' : PollRequest) : Prop where
  kind : r.kind = r'.kind
  chain : SameChain cx r.chain r'.chain
  tx : r.tx = r'.tx

structure SameData (d d' : PollData) : Prop where
  kind : d.kind = d'.kind
  chain : SameChain cx d.chain d'.chain
  tx : d.tx = d'.tx
  expiryHeight : d.expiryHeight = d'.expiryHeight

structure SamePollUpToCase (p p' : Poll) : Prop where
  pollId : p.pollId = p'.pollId
  data : SameData cx p.data p'.data
  votes : List.Forall₂ (SameVote cx) p.votes p'.votes

structure SameParams (q q' : ChainParams) : Prop where
  name : SameChain cx q.name q'.name
  revoteLockingPeriod : q.revoteLockingPeriod = q'.revoteLockingPeriod
  votingGracePeriod : q.votingGracePeriod = q'.votingGracePeriod

structure SameConfig (config config' : Config) : Prop where
  broadcaster : config.broadcaster = config'.broadcaster
  chainParams : List.Forall₂ (SameParams cx) config.chainParams config'.chainParams

inductive SameCommand : IoCommand → IoCommand → Prop
  | fetchBlock (height : Height) (retries : Nat) :
      SameCommand (.fetchBlock height retries) (.fetchBlock height retries)
  | fetchBlockResults (height : Nat) (polls polls' : List PollData) (retries : Nat)
      (hpolls : List.Forall₂ (SameData cx) polls polls') :
      SameCommand (.fetchBlockResults height polls retries)
        (.fetchBlockResults height polls' retries)
  | fetchChainList : SameCommand .fetchChainList .fetchChainList
  | fetchChainParams (c c' : String) (hchain : SameChain cx c c') :
      SameCommand (.fetchChainParams c) (.fetchChainParams c')
  | fetchHead : SameCommand .fetchHead .fetchHead

inductive SameResult : IoResult → IoResult → Prop
  | block (height : Nat) (b b' : Block)
      (hrequests : Option.Rel (List.Forall₂ (SameRequest cx)) (blockRequests cx b)
        (blockRequests cx b'))
      (hvotes : List.Forall₂ (SameVote cx) (blockVotes cx b) (blockVotes cx b')) :
      SameResult (.block height b) (.block height b')
  | blockResults (height : Nat) (results : BlockResults) (polls polls' : List PollData)
      (hpolls : List.Forall₂ (SameData cx) polls polls') :
      SameResult (.blockResults height results polls) (.blockResults height results polls')
  | fetchError (height : Height) (retries : Nat) (error : String) :
      SameResult (.fetchError height retries error) (.fetchError height retries error)
  | fetchBlockResultsError (height : Nat) (polls polls' : List PollData) (retries : Nat)
      (error : String) (hpolls : List.Forall₂ (SameData cx) polls polls') :
      SameResult (.fetchBlockResultsError height polls retries error)
        (.fetchBlockResultsError height polls' retries error)
  | chainList (chains chains' : List String)
      (hchains : List.Forall₂ (SameChain cx) chains chains') :
      SameResult (.chainList chains) (.chainList chains')
  | fetchChainListError (error : String) :
      SameResult (.fetchChainListError error) (.fetchChainListError error)
  | chainParams (q q' : ChainParams) (hparams : SameParams cx q q') :
      SameResult (.chainParams q) (.chainParams q')
  | head (height : Nat) : SameResult (.head height) (.head height)

/-- Only the spelling of chains in polls, votes and parameters may differ. -/
structure SameState (st st' : ProcessingState) : Prop where
  chainHeight : st.chainHeight = st'.chainHeight
  fetchErrorCount : st.fetchErrorCount = st'.fetchErrorCount
  chainParams : OrderedMap.Related (fun _ => SameParams cx) st.chainParams st'.chainParams
  polls : OrderedMap.Related (fun _ => SamePollUpToCase cx) st.polls st'.polls
  expiredPollIds : st.expiredPollIds = st'.expiredPollIds
  chainTip : st.chainTip = st'.chainTip
  lastProcessedHeight : st.lastProcessedHeight = st'.lastProcessedHeight
  voteResults : st.voteResults = st'.voteResults

end UpToCase

variable {cx : Codecs} {config config' : Config}

theorem SameCommand.refl (cmd : IoCommand) : SameCommand cx cmd cmd := by
  cases cmd with
  | fetchBlock height retries => exact .fetchBlock height retries
  | fetchBlockResults height polls retries =>
      apply SameCommand.fetchBlockResults
      exact List.forall₂_same.mpr (fun _ _ => ⟨rfl, rfl, rfl, rfl⟩)
  | fetchChainList => exact .fetchChainList
  | fetchChainParams c => exact .fetchChainParams c c rfl
  | fetchHead => exact .fetchHead

theorem txIdCounts_eq_of {votes votes' : List PollVote}
    (h : votes.map PollVote.txId = votes'.map PollVote.txId) :
    txIdCounts votes = txIdCounts votes' := by
  have hmap (vs : List PollVote) : txIdCounts vs =
      (vs.map PollVote.txId).foldl (fun m id => m.upsert id 0 (· + 1)) .empty := by
    rw [List.foldl_map]
    rfl
  rw [hmap, hmap, h]

theorem voters_eq_of {votes votes' : List PollVote}
    (h : votes.map PollVote.senderId = votes'.map PollVote.senderId) :
    voters config votes = voters config votes' := by
  have hmap (vs : List PollVote) : voters config vs =
      (vs.map PollVote.senderId).filterMap (senderToBroadcaster config).get? := by
    rw [List.filterMap_map]
    rfl
  rw [hmap, hmap, h]

/-- The analysis reads chains in lower case only. -/
theorem SamePollUpToCase.analyze_eq {p p' : Poll} (h : SamePollUpToCase cx p p')
    (hbroadcaster : config.broadcaster = config'.broadcaster) (m : OrderedMap VoteResult Nat) :
    analyzePollCompletion cx p config m = analyzePollCompletion cx p' config' m := by
  have howners : senderToBroadcaster config = senderToBroadcaster config' := by
    rw [senderToBroadcaster, senderToBroadcaster, hbroadcaster]
  have hmajority : majorityTxId p.votes = majorityTxId p'.votes := by
    have hids := map_eq_of_forall₂ (fun v v' hv => hv.txId) h.votes
    rw [majorityTxId, majorityTxId, txIdCounts_eq_of hids]
  have hvoters : voters config p.votes = voters config' p'.votes := by
    have hsenders := map_eq_of_forall₂ (fun v v' hv => hv.senderId) h.votes
    rw [voters_eq_of hsenders, voters, voters, howners]
  have hmissed : countMissed cx p config m = countMissed cx p' config' m := by
    have hchain : cx.toLowercase p.data.chain = cx.toLowercase p'.data.chain := h.data.chain
    simp only [countMissed, hvoters, hchain, hbroadcaster]
  unfold analyzePollCompletion
  rw [hmajority, hmissed]
  cases majorityTxId p'.votes with
  | none => rfl
  | some majority =>
      refine List.rel_foldl (fun a b hab v v' hv => ?_) rfl h.votes
      have hchain : cx.toLowercase v.chain = cx.toLowercase v'.chain := hv.chain
      simp only [countVote, howners, hv.senderId, hv.txId, hchain, hab]

theorem sameCase_pushVotes {polls polls' : OrderedMap Nat Poll} {votes votes' : List PollVote}
    (h : OrderedMap.Related (fun _ => SamePollUpToCase cx) polls polls')
    (hvotes : List.Forall₂ (SameVote cx) votes votes') :
    OrderedMap.Related (fun _ => SamePollUpToCase cx) (votes.foldl pushVote polls)
      (votes'.foldl pushVote polls') := by
  apply related_pushVotes h
  intro id p q hsame
  refine ⟨hsame.pollId, hsame.data, List.rel_append hsame.votes ?_⟩
  exact List.rel_filter (fun v v' hv => by simp only [hv.pollId]) hvotes

theorem sameCase_openPolls (ids : OrderedMap String Nat) {creations creations' : List PollData}
    (hcreations : List.Forall₂ (SameData cx) creations creations')
    {polls polls' : OrderedMap Nat Poll}
    (h : OrderedMap.Related (fun _ => SamePollUpToCase cx) polls polls') :
    OrderedMap.Related (fun _ => SamePollUpToCase cx) (creations.foldl (openPoll ids) polls)
      (creations'.foldl (openPoll ids) polls') :=
  related_openPolls (fun _ _ _ hc => ⟨hc.tx, rfl, hc, .nil⟩) ids hcreations h

/-- The polls that requests lead to under parameters of the same chains. -/
theorem sameCase_createPolls {params params' : OrderedMap String ChainParams}
    (hparams : OrderedMap.Related (fun _ => SameParams cx) params params') (height : Nat)
    {requests requests' : List PollRequest}
    (hrequests : List.Forall₂ (SameRequest cx) requests requests') :
    List.Forall₂ (SameData cx) (requests.filterMap (createPoll cx params height))
      (requests'.filterMap (createPoll cx params' height)) := by
  refine List.rel_filterMap (fun r r' hr => ?_) hrequests
  have hchain : cx.toLowercase r.chain = cx.toLowercase r'.chain := hr.chain
  have hget := hparams (cx.toLowercase r.chain)
  unfold createPoll
  rw [← hchain]
  generalize params.get? (cx.toLowercase r.chain) = q at hget ⊢
  generalize params'.get? (cx.toLowercase r.chain) = q' at hget ⊢
  cases hget with
  | none => exact .none
  | some hq =>
      refine .some ⟨hr.kind, hr.chain, hr.tx, ?_⟩
      simp only [PollRequest.withExpiry, hq.revoteLockingPeriod, hq.votingGracePeriod]

theorem sameCase_bundleFor (height : Nat) {data data' : RawBlockData}
    (h : List.Forall₂ (SameData cx) data.pollCreations data'.pollCreations) :
    List.Forall₂ (SameCommand cx) (bundleFor height data) (bundleFor height data') := by
  obtain ⟨polls, votes⟩ := data
  obtain ⟨polls', votes'⟩ := data'
  cases h with
  | nil => exact .nil
  | cons hfirst hrest =>
      exact .cons (.fetchBlockResults height _ _ 0 (.cons hfirst hrest)) .nil

namespace SameState

variable {st st' : ProcessingState}

theorem applyBlock (h : SameState cx st st')
    (hbroadcaster : config.broadcaster = config'.broadcaster) (height : Nat)
    {data data' : RawBlockData} (hvotes : List.Forall₂ (SameVote cx) data.votes data'.votes) :
    SameState cx (applyBlock cx config height data st)
      (applyBlock cx config' height data' st') := by
  have hpushed := sameCase_pushVotes h.polls hvotes
  have hexpiry : ∀ p q, SamePollUpToCase cx p q → p.data.expiryHeight = q.data.expiryHeight :=
    fun p q hsame => hsame.data.expiryHeight
  constructor
  · exact congrArg (max · height) h.chainHeight
  · exact h.fetchErrorCount
  · exact h.chainParams
  · rw [applyBlock_polls, applyBlock_polls]
    exact hpushed.retain _ _ (fun id p q hsame => by rw [hexpiry p q hsame])
  · rw [applyBlock_expiredPollIds, applyBlock_expiredPollIds, h.expiredPollIds,
      expiringPollIds_related hexpiry hpushed]
  · exact h.chainTip
  · rfl
  · rw [applyBlock_voteResults, applyBlock_voteResults]
    refine List.rel_foldl (fun m m' hm p q hpq => ?_) h.voteResults
      (closingPolls_related hexpiry hpushed height)
    rw [hpq.analyze_eq hbroadcaster, hm]

theorem blockMessage (h : SameState cx st st')
    (hbroadcaster : config.broadcaster = config'.broadcaster) (height : Nat) {b b' : Block}
    (hrequests : Option.Rel (List.Forall₂ (SameRequest cx)) (blockRequests cx b)
      (blockRequests cx b'))
    (hvotes : List.Forall₂ (SameVote cx) (blockVotes cx b) (blockVotes cx b')) :
    Option.Rel (fun r r' => SameState cx r.1 r'.1 ∧ List.Forall₂ (SameCommand cx) r.2 r'.2)
      (processBlockMessage cx height b st config)
      (processBlockMessage cx height b' st' config') := by
  rw [processBlockMessage_eq, processBlockMessage_eq]
  generalize blockRequests cx b = requests at hrequests ⊢
  generalize blockRequests cx b' = requests' at hrequests ⊢
  cases hrequests with
  | none => exact .none
  | some hrequests =>
      have hpolls := sameCase_createPolls h.chainParams height hrequests
      refine .some ⟨h.applyBlock hbroadcaster height hvotes, List.rel_append ?_ ?_⟩
      · exact sameCase_bundleFor height hpolls
      · rw [h.chainTip]
        exact List.forall₂_same.mpr (fun cmd _ => .refl cmd)

theorem chainParamsMessage (h : SameState cx st st')
    (hbroadcaster : config.broadcaster = config'.broadcaster) {q q' : ChainParams}
    (hq : SameParams cx q q') :
    SameState cx (processChainParamsMessage cx q st config)
      (processChainParamsMessage cx q' st' config') := by
  have hname : cx.toLowercase q.name = cx.toLowercase q'.name := hq.name
  refine { h with chainParams := ?_, voteResults := ?_ }
  · simp only [processChainParamsMessage, hname]
    exact h.chainParams.insert _ hq
  · simp only [processChainParamsMessage, hname, hbroadcaster, h.voteResults]

theorem headMessage (h : SameState cx st st') (height : Nat) :
    SameState cx (processHeadMessage height st).1 (processHeadMessage height st').1 ∧
      List.Forall₂ (SameCommand cx) (processHeadMessage height st).2
        (processHeadMessage height st').2 := by
  rw [processHeadMessage_eq, processHeadMessage_eq, h.chainTip, h.lastProcessedHeight]
  exact ⟨{ h with chainTip := rfl, lastProcessedHeight := rfl },
    List.forall₂_same.mpr (fun cmd _ => .refl cmd)⟩

theorem fetchErrorMessage (h : SameState cx st st') (height : Height) (retries : Nat) :
    SameState cx (processFetchErrorMessage height retries st).1
        (processFetchErrorMessage height retries st').1 ∧
      List.Forall₂ (SameCommand cx) (processFetchErrorMessage height retries st).2
        (processFetchErrorMessage height retries st').2 := by
  have hcounted := congrArg (· + 1) h.fetchErrorCount
  unfold processFetchErrorMessage
  cases height with
  | latest => exact ⟨{ h with fetchErrorCount := hcounted }, .nil⟩
  | specific k =>
      by_cases hretry : retries < maxFetchRetries
      · simp only [hretry, if_true]
        exact ⟨{ h with fetchErrorCount := hcounted }, .cons (.fetchBlock _ _) .nil⟩
      · simp only [hretry, if_false, h.chainTip]
        refine ⟨{ h with
          fetchErrorCount := hcounted
          chainTip := rfl
          lastProcessedHeight := rfl }, ?_⟩
        exact List.forall₂_same.mpr (fun cmd _ => .refl cmd)

end SameState

theorem letterCase_coupled (hbroadcaster : config.broadcaster = config'.broadcaster) :
    (monitor cx config).Coupled (monitor cx config') (SameState cx) (SameCommand cx)
      (SameResult cx) where
  feed_rel := .fetchHead
  handle_rel := by
    intro msg msg' st st' hmsg h
    have hcounted := congrArg (· + 1) h.fetchErrorCount
    cases hmsg with
    | block height b b' hrequests hvotes =>
        exact h.blockMessage hbroadcaster height hrequests hvotes
    | blockResults height results polls polls' hpolls =>
        refine .some ⟨{ h with polls := ?_ }, .nil⟩
        exact sameCase_openPolls _ hpolls h.polls
    | fetchError height retries error => exact .some (h.fetchErrorMessage height retries)
    | fetchBlockResultsError height polls polls' retries error hpolls =>
        refine .some ⟨{ h with fetchErrorCount := hcounted }, ?_⟩
        simp only
        split
        · exact .cons (.fetchBlockResults height polls polls' _ hpolls) .nil
        · exact .nil
    | chainList chains chains' hchains =>
        exact .some ⟨h, List.rel_map (fun c c' hc => .fetchChainParams c c' hc) hchains⟩
    | fetchChainListError error =>
        exact .some ⟨{ h with fetchErrorCount := hcounted }, .cons .fetchChainList .nil⟩
    | chainParams q q' hq => exact .some ⟨h.chainParamsMessage hbroadcaster hq, .nil⟩
    | head height => exact .some (h.headMessage height)

theorem sameState_start (hconfig : SameConfig cx config config') :
    SameState cx (.new cx config) (.new cx config') where
  chainHeight := rfl
  fetchErrorCount := rfl
  chainParams := by
    have hstep : ((OrderedMap.Related (fun _ => SameParams cx)) ⇒ SameParams cx ⇒
        (OrderedMap.Related (fun _ => SameParams cx)))
        (fun m q => m.insert (cx.toLowercase q.name) q)
        (fun m q => m.insert (cx.toLowercase q.name) q) := by
      intro m m' hm q q' hq
      have hname : cx.toLowercase q.name = cx.toLowercase q'.name := hq.name
      simp only [hname]
      exact hm.insert _ hq
    exact List.rel_foldl hstep (fun _ => .none) hconfig.chainParams
  polls _ := .none
  expiredPollIds := rfl
  chainTip := rfl
  lastProcessedHeight := rfl
  voteResults := by
    have hnames := map_eq_of_forall₂ (f := fun q : ChainParams => cx.toLowercase q.name)
      (g := fun q : ChainParams => cx.toLowercase q.name) (fun q q' hq => hq.name)
      hconfig.chainParams
    show configVoteResults cx config = configVoteResults cx config'
    rw [configVoteResults_eq, configVoteResults_eq, hnames, hconfig.broadcaster]

/-- Two runs under one schedule, whose configurations and answers differ at most
in the letter case of chain names, fetch the same up to that case, hold the same
polls up to that case and have the same vote results. -/
theorem letter_case_irrelevant (hconfig : SameConfig cx config config') {trace trace' : Trace}
    {s s' : System} (hrun : MonitorRun cx config trace s) (hrun' : MonitorRun cx config' trace' s')
    (hsame : List.Forall₂ (fun x y => Abreast (SameResult cx) x.event y.event) trace trace') :
    s.state.voteResults = s'.state.voteResults ∧
      List.Forall₂ (SameCommand cx) (issued trace) (issued trace') ∧
      Together (SameState cx) (SameCommand cx) (SameResult cx) s s' := by
  have hstart : Together (SameState cx) (SameCommand cx) (SameResult cx) (startUp cx config)
      (startUp cx config') := ⟨sameState_start hconfig, .cons .fetchChainList .nil, .nil⟩
  obtain ⟨htogether, hmatched⟩ :=
    (letterCase_coupled hconfig.broadcaster).run hstart hrun hrun' hsame
  exact ⟨htogether.state.voteResults, issued_of_matched (hmatched.imp (fun _ _ h => h.2)),
    htogether⟩

theorem SameResult.refl (msg : IoResult) : SameResult cx msg msg := by
  have hpolls (polls : List PollData) : List.Forall₂ (SameData cx) polls polls :=
    List.forall₂_same.mpr (fun _ _ => ⟨rfl, rfl, rfl, rfl⟩)
  cases msg with
  | block height b =>
      refine .block height b b ?_ (List.forall₂_same.mpr (fun _ _ => ⟨rfl, rfl, rfl, rfl, rfl⟩))
      cases blockRequests cx b with
      | none => exact .none
      | some requests => exact .some (List.forall₂_same.mpr (fun _ _ => ⟨rfl, rfl, rfl⟩))
  | blockResults height results polls => exact .blockResults height results _ _ (hpolls polls)
  | fetchError height retries error => exact .fetchError height retries error
  | fetchBlockResultsError height polls retries error =>
      exact .fetchBlockResultsError height _ _ retries error (hpolls polls)
  | chainList chains => exact .chainList _ _ (List.forall₂_same.mpr (fun _ _ => rfl))
  | fetchChainListError error => exact .fetchChainListError error
  | chainParams q => exact .chainParams q q ⟨rfl, rfl, rfl⟩
  | head height => exact .head height

namespace Sample

/-- The chain of the sample deployment under another spelling. -/
def spelledConfig : Config := { Sample.config with chainParams := [⟨"ETH", 1, 1⟩] }

def loweringCodecs : Codecs :=
  { codecs with toLowercase := fun s => if s = "ETH" then "eth" else s }

def playLowering (config : Config) : Option (Trace × System) :=
  (monitor loweringCodecs config).replay (startUp loweringCodecs config)
    (openAndClose (block 6))

end Sample

/-- A vote counts under the one series of its chain, however this is spelled. -/
theorem letter_case_of_config :
    ∃ r r' : Trace × System, MonitorRun Sample.loweringCodecs Sample.config r.1 r.2 ∧
      MonitorRun Sample.loweringCodecs Sample.spelledConfig r'.1 r'.2 ∧
      r'.2.state.voteResults.get? ⟨"chorus", "eth", .agreed⟩ = some 1 ∧
      r.2.state.voteResults = r'.2.state.voteResults := by
  have hreplay : ∃ r ∈ Sample.playLowering Sample.config,
      ∃ r' ∈ Sample.playLowering Sample.spelledConfig,
      List.Forall₂ (fun x y => x.event.abreast (fun a b => decide (a = b)) y.event = true)
        r.1 r'.1 ∧
      r'.2.state.voteResults.get? ⟨"chorus", "eth", .agreed⟩ = some 1 := by
    decide +kernel
  obtain ⟨r, hr, r', hr', htest, hagreed⟩ := hreplay
  have hconfig : SameConfig Sample.loweringCodecs Sample.config Sample.spelledConfig :=
    ⟨rfl, .cons ⟨rfl, rfl, rfl⟩ .nil⟩
  have hequal (a b : IoResult) (hab : decide (a = b) = true) :
      SameResult Sample.loweringCodecs a b := by
    obtain rfl := of_decide_eq_true hab
    exact SameResult.refl a
  have hsame := htest.imp (fun x y h => abreast_of_test hequal h)
  exact ⟨r, r', replay_run hr, replay_run hr', hagreed,
    (letter_case_irrelevant hconfig (replay_run hr) (replay_run hr') hsame).1⟩

end AxelarMonitor
