import AxelarMonitor.Blocks
import Mathlib.Data.Finset.Insert
import Mathlib.Data.Prod.Lex

/-!
`lib.rs`: the processing state, the analysis of a closed poll, and the two
functions the threads exchange messages through. Log lines are left out.
-/

namespace AxelarMonitor

def maxFetchRetries : Nat := 3

inductive IoCommand where
  | fetchBlock (height : Height) (retries : Nat)
  | fetchBlockResults (height : Nat) (polls : List PollData) (retries : Nat)
  | fetchChainList
  | fetchChainParams (chain : String)
  | fetchHead
  deriving DecidableEq

inductive IoResult where
  | block (height : Nat) (block : Block)
  | blockResults (height : Nat) (results : BlockResults) (polls : List PollData)
  | fetchError (height : Height) (retries : Nat) (error : String)
  | fetchBlockResultsError (height : Nat) (polls : List PollData) (retries : Nat)
      (error : String)
  | chainList (chains : List String)
  | fetchChainListError (error : String)
  | chainParams (params : ChainParams)
  | head (height : Nat)
  deriving DecidableEq

inductive VoteResultType where
  | agreed
  | disagreed
  | missed
  deriving DecidableEq

def VoteResultType.rank : VoteResultType → Nat
  | .agreed => 0
  | .disagreed => 1
  | .missed => 2

def VoteResultType.all : List VoteResultType := [.agreed, .disagreed, .missed]

structure VoteResult where
  broadcaster : String
  chain : String
  result : VoteResultType

/-- The derived lexicographic order of the source, with its hand-written order
of the outcomes. -/
def VoteResult.orderKey (v : VoteResult) : String ×ₗ String ×ₗ Nat :=
  toLex (v.broadcaster, toLex (v.chain, v.result.rank))

theorem VoteResult.orderKey_injective : Function.Injective VoteResult.orderKey := by
  rintro ⟨b, c, r⟩ ⟨b', c', r'⟩ h
  simp only [orderKey, EmbeddingLike.apply_eq_iff_eq, Prod.mk.injEq] at h
  obtain ⟨rfl, rfl, hr⟩ := h
  cases r <;> cases r' <;> simp [VoteResultType.rank] at hr <;> rfl

instance : LinearOrder VoteResult :=
  LinearOrder.lift' VoteResult.orderKey VoteResult.orderKey_injective

structure ProcessingState where
  chainHeight : Nat
  fetchErrorCount : Nat
  chainParams : OrderedMap String ChainParams
  polls : OrderedMap Nat Poll
  expiredPollIds : Finset Nat
  chainTip : Nat
  lastProcessedHeight : Nat
  voteResults : OrderedMap VoteResult Nat

variable (cx : Codecs)

def configChainParams (config : Config) : OrderedMap String ChainParams :=
  config.chainParams.foldl (fun m p => m.insert (cx.toLowercase p.name) p) .empty

def configVoteResults (config : Config) : OrderedMap VoteResult Nat :=
  config.broadcaster.foldl (fun m broadcaster =>
    config.chainParams.foldl (fun m chainParam =>
      VoteResultType.all.foldl (fun m resultType =>
        m.insert ⟨broadcaster.name, cx.toLowercase chainParam.name, resultType⟩ 0) m) m) .empty

def ProcessingState.new (config : Config) : ProcessingState where
  chainHeight := 0
  fetchErrorCount := 0
  chainParams := configChainParams cx config
  polls := .empty
  expiredPollIds := ∅
  chainTip := 0
  lastProcessedHeight := 0
  voteResults := configVoteResults cx config

/-- `Iterator::max_by_key`: of several maximal elements the last one. -/
def maxByKey {α : Type} (key : α → Nat) : List α → Option α
  | [] => none
  | x :: xs => some (xs.foldl (fun best y => if key best ≤ key y then y else best) x)

def txIdCounts (votes : List PollVote) : OrderedMap String Nat :=
  votes.foldl (fun m vote => m.upsert vote.txId 0 (· + 1)) .empty

def majorityTxId (votes : List PollVote) : Option String :=
  (maxByKey Prod.snd (txIdCounts votes).entries).map Prod.fst

def senderToBroadcaster (config : Config) : OrderedMap String String :=
  .ofList (config.broadcaster.map (fun bc => (bc.address, bc.name)))

def voters (config : Config) (votes : List PollVote) : List String :=
  votes.filterMap (fun vote => (senderToBroadcaster config).get? vote.senderId)

def countMissed (poll : Poll) (config : Config) (voteResults : OrderedMap VoteResult Nat) :
    OrderedMap VoteResult Nat :=
  config.broadcaster.foldl (fun m broadcaster =>
    if broadcaster.name ∈ voters config poll.votes then m
    else m.upsert ⟨broadcaster.name, cx.toLowercase poll.data.chain, .missed⟩ 0 (· + 1))
    voteResults

def countVote (config : Config) (majority : String) (m : OrderedMap VoteResult Nat)
    (vote : PollVote) : OrderedMap VoteResult Nat :=
  match (senderToBroadcaster config).get? vote.senderId with
  | none => m
  | some broadcasterName =>
      let resultType := if vote.txId = majority then .agreed else .disagreed
      m.upsert ⟨broadcasterName, cx.toLowercase vote.chain, resultType⟩ 0 (· + 1)

def analyzePollCompletion (poll : Poll) (config : Config)
    (voteResults : OrderedMap VoteResult Nat) : OrderedMap VoteResult Nat :=
  let voteResults := countMissed cx poll config voteResults
  match majorityTxId poll.votes with
  | none => voteResults
  | some majority => poll.votes.foldl (countVote cx config majority) voteResults

/-- A vote on a poll that is not open is logged and dropped. -/
def pushVote (polls : OrderedMap Nat Poll) (vote : PollVote) : OrderedMap Nat Poll :=
  polls.modify vote.pollId (fun poll => { poll with votes := poll.votes ++ [vote] })

def expirePoll (config : Config) (polls : OrderedMap Nat Poll)
    (closed : OrderedMap VoteResult Nat × Finset Nat) (pollId : Nat) :
    OrderedMap VoteResult Nat × Finset Nat :=
  match polls.get? pollId with
  | none => closed
  | some poll => (analyzePollCompletion cx poll config closed.1, insert pollId closed.2)

def expiringPollIds (polls : OrderedMap Nat Poll) (height : Nat) : List Nat :=
  (polls.entries.filter (fun e => e.2.data.expiryHeight ≤ height)).map Prod.fst

/-- The tail of the block handler: analyse what expires, then prune. -/
def expirePolls (config : Config) (height : Nat) (polls : OrderedMap Nat Poll)
    (state : ProcessingState) : ProcessingState :=
  let closed := (expiringPollIds polls height).foldl (expirePoll cx config polls)
    (state.voteResults, state.expiredPollIds)
  { state with
    polls := polls.retain (fun _ poll => height < poll.data.expiryHeight)
    voteResults := closed.1
    expiredPollIds := closed.2 }

def fetchNext (state : ProcessingState) : List IoCommand :=
  if state.chainTip > state.lastProcessedHeight then
    [.fetchBlock (.specific (state.lastProcessedHeight + 1)) 0]
  else []

def processBlockMessage (height : Nat) (block : Block) (state : ProcessingState)
    (config : Config) : Option (ProcessingState × List IoCommand) :=
  let state := { state with
    chainHeight := max state.chainHeight height
    lastProcessedHeight := height }
  (processBlock cx block state.chainParams height).map (fun parsed =>
    match parsed with
    | .ok data =>
        let responses := if data.pollCreations.isEmpty then []
          else [.fetchBlockResults height data.pollCreations 0]
        let state := expirePolls cx config height (data.votes.foldl pushVote state.polls) state
        (state, responses ++ fetchNext state)
    | .error _ =>
        let state := expirePolls cx config height state.polls state
        (state, fetchNext state))

def openPoll (txToPollIds : OrderedMap String Nat) (polls : OrderedMap Nat Poll)
    (creation : PollData) : OrderedMap Nat Poll :=
  match txToPollIds.get? creation.tx with
  | none => polls
  | some pollId => polls.insert pollId ⟨pollId, creation, []⟩

def txToPollIds (blockResults : BlockResults) : OrderedMap String Nat :=
  .ofList ((extractAllPollEvents cx blockResults).map (fun pe => (hexEncode pe.txId, pe.pollId)))

def processBlockResultsMessage (blockResults : BlockResults) (pollCreations : List PollData)
    (state : ProcessingState) : ProcessingState :=
  { state with
    polls := pollCreations.foldl (openPoll (txToPollIds cx blockResults)) state.polls }

def processChainParamsMessage (chain : ChainParams) (state : ProcessingState)
    (config : Config) : ProcessingState :=
  { state with
    chainParams := state.chainParams.insert (cx.toLowercase chain.name) chain
    voteResults := config.broadcaster.foldl (fun m broadcaster =>
      VoteResultType.all.foldl (fun m resultType =>
        m.orInsert ⟨broadcaster.name, cx.toLowercase chain.name, resultType⟩ 0) m)
      state.voteResults }

def processHeadMessage (height : Nat) (state : ProcessingState) :
    ProcessingState × List IoCommand :=
  let oldTip := state.chainTip
  let state := { state with chainTip := height }
  if state.lastProcessedHeight = 0 then
    ({ state with lastProcessedHeight := u64Pred height }, [.fetchBlock (.specific height) 0])
  else if height > oldTip ∧ oldTip = state.lastProcessedHeight then
    (state, [.fetchBlock (.specific (state.lastProcessedHeight + 1)) 0])
  else (state, [])

def processFetchErrorMessage (height : Height) (retries : Nat) (state : ProcessingState) :
    ProcessingState × List IoCommand :=
  let state := { state with fetchErrorCount := state.fetchErrorCount + 1 }
  match height with
  | .specific h =>
      if retries < maxFetchRetries then
        (state, [.fetchBlock (.specific h) (retries + 1)])
      else
        let state := { state with lastProcessedHeight := h }
        (state, if state.chainTip > h then [.fetchBlock (.specific (h + 1)) 0] else [])
  | .latest => (state, [])

def processSingleMessage (result : IoResult) (state : ProcessingState) (config : Config) :
    Option (ProcessingState × List IoCommand) :=
  match result with
  | .fetchError height retries _ => some (processFetchErrorMessage height retries state)
  | .fetchBlockResultsError height polls retries _ =>
      some ({ state with fetchErrorCount := state.fetchErrorCount + 1 },
        if retries < maxFetchRetries then [.fetchBlockResults height polls (retries + 1)] else [])
  | .fetchChainListError _ =>
      some ({ state with fetchErrorCount := state.fetchErrorCount + 1 }, [.fetchChainList])
  | .chainList chains => some (state, chains.map .fetchChainParams)
  | .block height block => processBlockMessage cx height block state config
  | .blockResults _ blockResults pollCreations =>
      some (processBlockResultsMessage cx blockResults pollCreations state, [])
  | .chainParams chain => some (processChainParamsMessage cx chain state config, [])
  | .head height => some (processHeadMessage height state)

/-- Only the conversion of fetched chain parameters can panic. A failed head
fetch and a failed parameter fetch leave no result behind. -/
def processSingleIoCommand (http : Http) (cmd : IoCommand) (rpcUrl lcdUrl : String) :
    Option (List IoResult) :=
  match cmd with
  | .fetchBlock height retries =>
      match getBlock cx http rpcUrl height with
      | .ok (block, height) => some [.block height block]
      | .error e => some [.fetchError height retries e]
  | .fetchBlockResults height polls retries =>
      match getBlockResults cx http lcdUrl height with
      | .ok blockResults => some [.blockResults height blockResults polls]
      | .error e => some [.fetchBlockResultsError height polls retries e]
  | .fetchChainList =>
      match getChainList cx http rpcUrl with
      | .ok chains => some [.chainList chains]
      | .error e => some [.fetchChainListError e]
  | .fetchHead =>
      match getHead cx http rpcUrl with
      | .ok height => some [.head height]
      | .error _ => some []
  | .fetchChainParams chain =>
      match getChainParams cx http rpcUrl chain with
      | .ok params => params.into.map (fun p => [.chainParams p])
      | .error _ => some []

end AxelarMonitor
