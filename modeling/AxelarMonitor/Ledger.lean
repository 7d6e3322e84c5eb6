import AxelarMonitor.PollStore

/-!
The monitor as one pass over the blocks, free of queues and threads: a ledger
of polls and outcomes to which each block is added with its block results at
hand. The chain parameters are fixed throughout.
-/

namespace AxelarMonitor

structure Ledger where
  polls : OrderedMap Nat Poll
  expired : Finset Nat
  voteResults : OrderedMap VoteResult Nat

namespace Ledger

variable (cx : Codecs) (config : Config)

/-- No polls, and every series at zero. -/
def start (params : OrderedMap String ChainParams) : Ledger where
  polls := .empty
  expired := ∅
  voteResults := (seriesOf config.broadcaster params.keys).foldl
    (fun m key => m.insert key 0) .empty

def castVote (l : Ledger) (vote : PollVote) : Ledger :=
  { l with polls := l.polls.modify vote.pollId (fun poll =>
      { poll with votes := poll.votes ++ [vote] }) }

/-- The open polls that are due at a height, with their ids. -/
def due (l : Ledger) (height : Nat) : List (Nat × Poll) :=
  l.polls.entries.filter (fun e => e.2.data.expiryHeight ≤ height)

def closeDue (height : Nat) (l : Ledger) : Ledger where
  polls := l.polls.retain (fun _ poll => height < poll.data.expiryHeight)
  expired := l.expired ∪ ((l.due height).map Prod.fst).toFinset
  voteResults := ((l.due height).map Prod.snd).foldl
    (fun m poll => analyzePollCompletion cx poll config m) l.voteResults

def openPoll (assigned : OrderedMap String Nat) (l : Ledger) (creation : PollData) : Ledger :=
  match assigned.get? creation.tx with
  | none => l
  | some id => { l with polls := l.polls.insert id ⟨id, creation, []⟩ }

/-- The votes of a block, then the polls that it closes. -/
def settle (height : Nat) (b : Block) (l : Ledger) : Ledger :=
  closeDue cx config height ((blockVotes cx b).foldl castVote l)

/-- The polls that a block asks for on the chains with parameters. -/
def creations (params : OrderedMap String ChainParams) (height : Nat) (b : Block) :
    List PollData :=
  ((blockRequests cx b).getD []).filterMap (createPoll cx params height)

def openAll (results : BlockResults) (polls : List PollData) (l : Ledger) : Ledger :=
  polls.foldl (openPoll (txToPollIds cx results)) l

variable (results : Nat → BlockResults) (params : OrderedMap String ChainParams)

def addBlock (l : Ledger) (b : Nat × Block) : Ledger :=
  openAll cx (results b.1) (creations cx params b.1 b.2) (settle cx config b.1 b.2 l)

def ofBlocks (blocks : List (Nat × Block)) : Ledger :=
  blocks.foldl (addBlock cx config results params) (start config params)

theorem ofBlocks_snoc (blocks : List (Nat × Block)) (b : Nat × Block) :
    ofBlocks cx config results params (blocks ++ [b]) =
      addBlock cx config results params (ofBlocks cx config results params blocks) b := by
  rw [ofBlocks, List.foldl_append]
  rfl

end Ledger

def ledgerOf (st : ProcessingState) : Ledger := ⟨st.polls, st.expiredPollIds, st.voteResults⟩

variable {cx : Codecs} {config : Config}

theorem foldl_castVote (votes : List PollVote) (l : Ledger) :
    votes.foldl Ledger.castVote l = { l with polls := votes.foldl pushVote l.polls } := by
  induction votes generalizing l with
  | nil => rfl
  | cons vote rest ih =>
      rw [List.foldl_cons, List.foldl_cons, ih]
      rfl

/-- The block handler settles the block. -/
theorem ledgerOf_applyBlock {b : Block} {data : RawBlockData}
    (hvotes : data.votes = blockVotes cx b) (height : Nat) (st : ProcessingState) :
    ledgerOf (applyBlock cx config height data st) =
      Ledger.settle cx config height b (ledgerOf st) := by
  rw [applyBlock, expirePolls_eq, Ledger.settle, foldl_castVote, hvotes]
  rfl

theorem Ledger.openAll_eq (results : BlockResults) (polls : List PollData) (l : Ledger) :
    Ledger.openAll cx results polls l =
      { l with
        polls := polls.foldl (AxelarMonitor.openPoll (txToPollIds cx results)) l.polls } := by
  unfold Ledger.openAll
  induction polls generalizing l with
  | nil => rfl
  | cons creation rest ih =>
      rw [List.foldl_cons, List.foldl_cons, ih]
      unfold Ledger.openPoll AxelarMonitor.openPoll
      cases (txToPollIds cx results).get? creation.tx <;> rfl

/-- The handler of block results opens the polls. -/
theorem ledgerOf_blockResults (results : BlockResults) (polls : List PollData)
    (st : ProcessingState) :
    ledgerOf (processBlockResultsMessage cx results polls st) =
      Ledger.openAll cx results polls (ledgerOf st) :=
  (Ledger.openAll_eq results polls (ledgerOf st)).symm

theorem ReadsAs.creations_ledger {b : Block} {params : OrderedMap String ChainParams}
    {height : Nat} {data : RawBlockData} (h : ReadsAs cx b params height data) :
    data.pollCreations = Ledger.creations cx params height b := by
  obtain ⟨requests, hrequests, hcreations⟩ := h.creations_eq
  rw [hcreations, Ledger.creations, hrequests]
  rfl

/-- The series of a state in which no poll has closed yet. -/
def AllZero (config : Config) (st : ProcessingState) : Prop :=
  ∀ key, st.voteResults.get? key =
    if key ∈ seriesOf config.broadcaster st.chainParams.keys then some 0 else none

theorem AllZero.ledger_start {st : ProcessingState} (hzero : AllZero config st)
    (hpolls : st.polls = .empty) (hexpired : st.expiredPollIds = ∅) :
    ledgerOf st = Ledger.start config st.chainParams := by
  have hresults : st.voteResults =
      (seriesOf config.broadcaster st.chainParams.keys).foldl (fun m key => m.insert key 0)
        .empty := by
    apply OrderedMap.ext
    intro key
    rw [hzero key, OrderedMap.get?_foldl_insert, OrderedMap.get?_empty]
  unfold ledgerOf Ledger.start
  rw [hpolls, hexpired, hresults]

theorem allZero_of_start {st : ProcessingState}
    (hstart : ledgerOf st = Ledger.start config st.chainParams) : AllZero config st := by
  intro key
  have hresults := congrArg Ledger.voteResults hstart
  rw [show st.voteResults = (ledgerOf st).voteResults from rfl, hresults, Ledger.start,
    OrderedMap.get?_foldl_insert, OrderedMap.get?_empty]

theorem allZero_new : AllZero config (.new cx config) := by
  intro key
  have hkeys : key ∈ seriesOf config.broadcaster (ProcessingState.new cx config).chainParams.keys ↔
      key ∈ seriesOf config.broadcaster
        (config.chainParams.map (fun p => cx.toLowercase p.name)) := by
    rw [mem_seriesOf, mem_seriesOf, OrderedMap.mem_keys]
    exact and_congr_right (fun _ => contains_configChainParams cx)
  rw [show (ProcessingState.new cx config).voteResults = configVoteResults cx config from rfl,
    configVoteResults_eq, OrderedMap.get?_foldl_insert, OrderedMap.get?_empty]
  simp only [hkeys]

theorem AllZero.chainParams {st : ProcessingState} (hzero : AllZero config st)
    (q : ChainParams) : AllZero config (processChainParamsMessage cx q st config) := by
  intro key
  have hkeys : key ∈ seriesOf config.broadcaster
        (processChainParamsMessage cx q st config).chainParams.keys ↔
      key ∈ seriesOf config.broadcaster [cx.toLowercase q.name] ∨
        key ∈ seriesOf config.broadcaster st.chainParams.keys := by
    simp only [mem_seriesOf, OrderedMap.mem_keys, contains_processChainParams,
      List.mem_singleton]
    exact and_or_left
  rw [processChainParams_voteResults, OrderedMap.get?_foldl_orInsert, hzero key]
  simp only [hkeys]
  split_ifs <;> simp_all

end AxelarMonitor
