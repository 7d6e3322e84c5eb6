import AxelarMonitor.System

/-!
What handling one message can do. `Handles` lists the cases of
`processSingleMessage` with the state and the commands each one leads to;
every invariant of the later modules is a case analysis over it.
-/

namespace AxelarMonitor

open FifoLoop

variable (cx : Codecs)

def blockTxs (block : Block) : List TxBody :=
  block.data.txs.filterMap (fun txBase64 =>
    (cx.base64Decode txBase64).bind (fun txBytes => (cx.decodeTx txBytes).bind Tx.body))

/-- All votes a block contains, whether or not their polls are open. -/
def blockVotes (block : Block) : List PollVote := getVotesFromTxs cx (blockTxs cx block)

/-- All poll requests of a block, or `none` when reading them panics. -/
def blockRequests (block : Block) : Option (List PollRequest) :=
  (extractRawPollRequests cx (blockTxs cx block)).map (List.flatMap pollRequestsOf)

/-- `process_block` has no error path: it returns the block's data or panics. -/
theorem processBlock_eq (block : Block) (params : OrderedMap String ChainParams)
    (height : Nat) :
    processBlock cx block params height =
      (blockRequests cx block).map (fun requests =>
        .ok ⟨requests.filterMap (createPoll cx params height), blockVotes cx block⟩) := by
  simp [processBlock, getTxs, blockRequests, blockVotes, blockTxs, Option.map_map,
    Function.comp_def]

theorem processBlock_some {block : Block} {params : OrderedMap String ChainParams}
    {height : Nat} {parsed : Except String RawBlockData}
    (h : processBlock cx block params height = some parsed) :
    ∃ data, parsed = .ok data ∧ data.votes = blockVotes cx block ∧
      ∃ requests, blockRequests cx block = some requests ∧
        data.pollCreations = requests.filterMap (createPoll cx params height) := by
  rw [processBlock_eq, Option.map_eq_some_iff] at h
  obtain ⟨requests, hrequests, rfl⟩ := h
  exact ⟨_, rfl, rfl, requests, hrequests, rfl⟩

/-- The data that reading a block yields, when it does not panic. -/
def ReadsAs (block : Block) (params : OrderedMap String ChainParams) (height : Nat)
    (data : RawBlockData) : Prop :=
  processBlock cx block params height = some (.ok data)

theorem ReadsAs.votes_eq {block : Block} {params : OrderedMap String ChainParams}
    {height : Nat} {data : RawBlockData} (h : ReadsAs cx block params height data) :
    data.votes = blockVotes cx block := by
  obtain ⟨data', hdata, hvotes, -⟩ := processBlock_some cx h
  cases hdata
  exact hvotes

theorem ReadsAs.creations_eq {block : Block} {params : OrderedMap String ChainParams}
    {height : Nat} {data : RawBlockData} (h : ReadsAs cx block params height data) :
    ∃ requests, blockRequests cx block = some requests ∧
      data.pollCreations = requests.filterMap (createPoll cx params height) := by
  obtain ⟨data', hdata, -, hrequests⟩ := processBlock_some cx h
  cases hdata
  exact hrequests

def countError (st : ProcessingState) : ProcessingState :=
  { st with fetchErrorCount := st.fetchErrorCount + 1 }

/-- The fetch of the block after `h`, while the tip is ahead of `h`. -/
def fetchAfter (tip h : Nat) : List IoCommand :=
  if h < tip then [.fetchBlock (.specific (h + 1)) 0] else []

/-- The request for the block results that open the block's polls. -/
def bundleFor (height : Nat) (data : RawBlockData) : List IoCommand :=
  if data.pollCreations.isEmpty then [] else [.fetchBlockResults height data.pollCreations 0]

theorem mem_fetchAfter {cmd : IoCommand} {tip h : Nat} (hmem : cmd ∈ fetchAfter tip h) :
    cmd = .fetchBlock (.specific (h + 1)) 0 := by
  unfold fetchAfter at hmem
  split at hmem
  · exact List.mem_singleton.mp hmem
  · cases hmem

theorem mem_bundleFor {cmd : IoCommand} {height : Nat} {data : RawBlockData}
    (hmem : cmd ∈ bundleFor height data) :
    cmd = .fetchBlockResults height data.pollCreations 0 := by
  unfold bundleFor at hmem
  split at hmem
  · cases hmem
  · exact List.mem_singleton.mp hmem

section Filters

-- a filter that is blind to block fetches, to bundles or to parameter fetches
-- finds nothing among them

variable {β : Type*} {f : IoCommand → Option β}

theorem filterMap_fetchAfter (hf : ∀ h, f (.fetchBlock (.specific h) 0) = none) (tip h : Nat) :
    (fetchAfter tip h).filterMap f = [] := by
  unfold fetchAfter
  split <;> simp [hf]

theorem filterMap_bundleFor (hf : ∀ h polls, f (.fetchBlockResults h polls 0) = none)
    (height : Nat) (data : RawBlockData) : (bundleFor height data).filterMap f = [] := by
  unfold bundleFor
  split <;> simp [hf]

theorem filterMap_paramFetches (hf : ∀ c, f (.fetchChainParams c) = none)
    (chains : List String) : (chains.map IoCommand.fetchChainParams).filterMap f = [] := by
  simp [List.filterMap_map, hf]

end Filters

def applyBlock (config : Config) (height : Nat) (data : RawBlockData) (st : ProcessingState) :
    ProcessingState :=
  expirePolls cx config height (data.votes.foldl pushVote st.polls)
    { st with chainHeight := max st.chainHeight height, lastProcessedHeight := height }

section ApplyBlock

variable (config : Config) (height : Nat) (data : RawBlockData) (st : ProcessingState)

@[simp] theorem applyBlock_lastProcessedHeight :
    (applyBlock cx config height data st).lastProcessedHeight = height := rfl

@[simp] theorem applyBlock_chainTip :
    (applyBlock cx config height data st).chainTip = st.chainTip := rfl

@[simp] theorem applyBlock_chainParams :
    (applyBlock cx config height data st).chainParams = st.chainParams := rfl

@[simp] theorem applyBlock_polls :
    (applyBlock cx config height data st).polls =
      (data.votes.foldl pushVote st.polls).retain
        (fun _ poll => height < poll.data.expiryHeight) := rfl

end ApplyBlock

inductive Handles (config : Config) (st : ProcessingState) :
    IoResult → ProcessingState → List IoCommand → Prop
  | retryBlock (h retries : Nat) (error : String) (hretry : retries < maxFetchRetries) :
      Handles config st (.fetchError (.specific h) retries error) (countError st)
        [.fetchBlock (.specific h) (retries + 1)]
  | skipBlock (h retries : Nat) (error : String) (hgiveup : maxFetchRetries ≤ retries) :
      Handles config st (.fetchError (.specific h) retries error)
        { countError st with lastProcessedHeight := h } (fetchAfter st.chainTip h)
  | latestError (retries : Nat) (error : String) :
      Handles config st (.fetchError .latest retries error) (countError st) []
  | retryResults (height : Nat) (polls : List PollData) (retries : Nat) (error : String)
      (hretry : retries < maxFetchRetries) :
      Handles config st (.fetchBlockResultsError height polls retries error) (countError st)
        [.fetchBlockResults height polls (retries + 1)]
  | dropResults (height : Nat) (polls : List PollData) (retries : Nat) (error : String)
      (hgiveup : maxFetchRetries ≤ retries) :
      Handles config st (.fetchBlockResultsError height polls retries error) (countError st) []
  | retryChainList (error : String) :
      Handles config st (.fetchChainListError error) (countError st) [.fetchChainList]
  | chainList (chains : List String) :
      Handles config st (.chainList chains) st (chains.map .fetchChainParams)
  | block (height : Nat) (block : Block) (data : RawBlockData)
      (hdata : ReadsAs cx block st.chainParams height data) :
      Handles config st (.block height block) (applyBlock cx config height data st)
        (bundleFor height data ++ fetchAfter st.chainTip height)
  | blockResults (height : Nat) (results : BlockResults) (polls : List PollData) :
      Handles config st (.blockResults height results polls)
        (processBlockResultsMessage cx results polls st) []
  | chainParams (params : ChainParams) :
      Handles config st (.chainParams params) (processChainParamsMessage cx params st config) []
  | firstHead (height : Nat) (hsentinel : st.lastProcessedHeight = 0) :
      Handles config st (.head height)
        { st with chainTip := height, lastProcessedHeight := u64Pred height }
        [.fetchBlock (.specific height) 0]
  | nextHead (height : Nat) (hstarted : st.lastProcessedHeight ≠ 0)
      (hahead : st.chainTip < height) (hcaughtUp : st.chainTip = st.lastProcessedHeight) :
      Handles config st (.head height) { st with chainTip := height }
        [.fetchBlock (.specific (st.lastProcessedHeight + 1)) 0]
  | moveTip (height : Nat) (hstarted : st.lastProcessedHeight ≠ 0)
      (hidle : ¬ (st.chainTip < height ∧ st.chainTip = st.lastProcessedHeight)) :
      Handles config st (.head height) { st with chainTip := height } []

theorem processBlockMessage_handles {config : Config} {st st' : ProcessingState}
    {height : Nat} {block : Block} {out : List IoCommand}
    (h : processBlockMessage cx height block st config = some (st', out)) :
    Handles cx config st (.block height block) st' out := by
  simp only [processBlockMessage, Option.map_eq_some_iff] at h
  obtain ⟨parsed, hparsed, heq⟩ := h
  obtain ⟨data, rfl, -⟩ := processBlock_some cx hparsed
  simp only [Prod.mk.injEq] at heq
  obtain ⟨rfl, rfl⟩ := heq
  exact .block height block data hparsed

theorem processSingleMessage_handles {config : Config} {msg : IoResult}
    {st st' : ProcessingState} {out : List IoCommand}
    (h : processSingleMessage cx msg st config = some (st', out)) :
    Handles cx config st msg st' out := by
  cases msg with
  | block height block => exact processBlockMessage_handles cx h
  | blockResults height results polls =>
      cases h
      exact .blockResults height results polls
  | fetchError height retries error =>
      cases height with
      | latest =>
          cases h
          exact .latestError retries error
      | specific n =>
          simp only [processSingleMessage, processFetchErrorMessage, Option.some.injEq] at h
          split at h
          · cases h
            exact .retryBlock n retries error ‹_›
          · cases h
            exact .skipBlock n retries error (Nat.not_lt.mp ‹_›)
  | fetchBlockResultsError height polls retries error =>
      simp only [processSingleMessage, Option.some.injEq, Prod.mk.injEq] at h
      obtain ⟨rfl, rfl⟩ := h
      split
      · exact .retryResults height polls retries error ‹_›
      · exact .dropResults height polls retries error (Nat.not_lt.mp ‹_›)
  | chainList chains =>
      cases h
      exact .chainList chains
  | fetchChainListError error =>
      cases h
      exact .retryChainList error
  | chainParams params =>
      cases h
      exact .chainParams params
  | head height =>
      simp only [processSingleMessage, processHeadMessage, Option.some.injEq] at h
      split at h
      · cases h
        exact .firstHead height ‹_›
      · split at h
        · next hcond =>
          cases h
          exact .nextHead height ‹_› hcond.1 hcond.2
        · cases h
          exact .moveTip height ‹_› ‹_›

/-- Besides blocks, parameters and the chain list, a message asks for the bundle
of its block or for another attempt at its own. -/
theorem Handles.filterMap_bundles {cx : Codecs} {config : Config} {st st' : ProcessingState}
    {msg : IoResult} {out : List IoCommand} {β : Type*}
    (h : Handles cx config st msg st' out) (f : IoCommand → Option β)
    (hfetch : ∀ height retries, f (.fetchBlock height retries) = none)
    (hparams : ∀ c, f (.fetchChainParams c) = none) (hlist : f .fetchChainList = none) :
    (∃ height block data, msg = .block height block ∧ ReadsAs cx block st.chainParams height data ∧
      out.filterMap f = (bundleFor height data).filterMap f) ∨
    (∃ height polls retries error, msg = .fetchBlockResultsError height polls retries error ∧
      out.filterMap f = (f (.fetchBlockResults height polls (retries + 1))).toList) ∨
    out.filterMap f = [] := by
  cases h with
  | block height block data hdata =>
      refine Or.inl ⟨height, block, data, rfl, hdata, ?_⟩
      rw [List.filterMap_append, filterMap_fetchAfter (fun h => hfetch _ _), List.append_nil]
  | retryResults height polls retries error hretry =>
      refine Or.inr (Or.inl ⟨height, polls, retries, error, rfl, ?_⟩)
      cases hf : f (.fetchBlockResults height polls (retries + 1)) <;> simp [hf]
  | chainList chains => exact Or.inr (Or.inr (filterMap_paramFetches hparams chains))
  | skipBlock h retries error hgiveup =>
      exact Or.inr (Or.inr (filterMap_fetchAfter (fun h => hfetch _ _) _ _))
  | _ => simp [hfetch, hlist]

section ChainParams

variable {cx} {config : Config} {st st' : ProcessingState} {out : List IoCommand}

theorem Handles.chainParams_eq {msg : IoResult} (h : Handles cx config st msg st' out)
    (hmsg : ∀ q, msg ≠ .chainParams q) : st'.chainParams = st.chainParams := by
  cases h with
  | chainParams params => exact absurd rfl (hmsg params)
  | _ => rfl

theorem Handles.chainParams_insert {q : ChainParams}
    (h : Handles cx config st (.chainParams q) st' out) :
    st'.chainParams = st.chainParams.insert (cx.toLowercase q.name) q := by
  cases h
  rfl

/-- Known chains stay known. -/
theorem Handles.contains_chainParams {msg : IoResult} (h : Handles cx config st msg st' out)
    {c : String} (hc : st.chainParams.contains c = true) : st'.chainParams.contains c = true := by
  cases msg with
  | chainParams q =>
      rw [h.chainParams_insert, OrderedMap.contains, OrderedMap.get?_insert]
      split
      · rfl
      · exact hc
  | _ => rwa [h.chainParams_eq (by simp)]

end ChainParams

/-- Where a head leaves the last processed height, and what it fetches. -/
def headMove (height tip last : Nat) : Nat × List IoCommand :=
  if last = 0 then (u64Pred height, [.fetchBlock (.specific height) 0])
  else if height > tip ∧ tip = last then (last, [.fetchBlock (.specific (last + 1)) 0])
  else (last, [])

/-- A head moves two heights and reads nothing else. -/
theorem processHeadMessage_eq (height : Nat) (st : ProcessingState) :
    processHeadMessage height st =
      ({ st with
        chainTip := height
        lastProcessedHeight := (headMove height st.chainTip st.lastProcessedHeight).1 },
      (headMove height st.chainTip st.lastProcessedHeight).2) := by
  simp only [processHeadMessage, headMove]
  split_ifs <;> rfl

/-- A block is applied as soon as its poll requests can be read. -/
theorem processBlockMessage_eq (height : Nat) (block : Block) (st : ProcessingState)
    (config : Config) :
    processBlockMessage cx height block st config =
      (blockRequests cx block).map (fun requests =>
        (applyBlock cx config height
            ⟨requests.filterMap (createPoll cx st.chainParams height), blockVotes cx block⟩ st,
          bundleFor height
              ⟨requests.filterMap (createPoll cx st.chainParams height), blockVotes cx block⟩ ++
            fetchAfter st.chainTip height)) := by
  rw [processBlockMessage, processBlock_eq, Option.map_map]
  rfl

/-- The state after some messages, or `none` when one of them panics. -/
def processMessages (config : Config) (msgs : List IoResult) (st : ProcessingState) :
    Option ProcessingState :=
  msgs.foldlM (fun st msg => (processSingleMessage cx msg st config).map Prod.fst) st

@[simp] theorem processMessages_nil (config : Config) (st : ProcessingState) :
    processMessages cx config [] st = some st := rfl

theorem processMessages_cons {config : Config} {msg : IoResult} {msgs : List IoResult}
    {st st' : ProcessingState} (h : processMessages cx config (msg :: msgs) st = some st') :
    ∃ mid out, Handles cx config st msg mid out ∧
      processMessages cx config msgs mid = some st' := by
  unfold processMessages at h
  rw [List.foldlM_cons, Option.bind_eq_bind, Option.bind_eq_some_iff] at h
  obtain ⟨mid, hstep, hrest⟩ := h
  obtain ⟨r, hr, rfl⟩ := Option.map_eq_some_iff.mp hstep
  exact ⟨r.1, r.2, processSingleMessage_handles cx hr, hrest⟩

/-- The answers of the IO thread, with the fetches of `rpc.rs` behind them. -/
inductive Answers : IoCommand → List IoResult → Prop
  | block (height : Height) (retries h : Nat) (b : Block) :
      Answers (.fetchBlock height retries) [.block h b]
  | blockFailed (height : Height) (retries : Nat) (error : String) :
      Answers (.fetchBlock height retries) [.fetchError height retries error]
  | results (height : Nat) (polls : List PollData) (retries : Nat) (results : BlockResults) :
      Answers (.fetchBlockResults height polls retries) [.blockResults height results polls]
  | resultsFailed (height : Nat) (polls : List PollData) (retries : Nat) (error : String) :
      Answers (.fetchBlockResults height polls retries)
        [.fetchBlockResultsError height polls retries error]
  | chainList (chains : List String) : Answers .fetchChainList [.chainList chains]
  | chainListFailed (error : String) : Answers .fetchChainList [.fetchChainListError error]
  | head (height : Nat) : Answers .fetchHead [.head height]
  | headFailed : Answers .fetchHead []
  | chainParams (chain : String) (params : ChainParams) :
      Answers (.fetchChainParams chain) [.chainParams params]
  | chainParamsFailed (chain : String) : Answers (.fetchChainParams chain) []

theorem processSingleIoCommand_answers {http : Http} {cmd : IoCommand} {rpcUrl lcdUrl : String}
    {out : List IoResult} (h : processSingleIoCommand cx http cmd rpcUrl lcdUrl = some out) :
    Answers cmd out := by
  cases cmd with
  | fetchBlock height retries =>
      simp only [processSingleIoCommand] at h
      split at h <;> cases h
      · exact .block ..
      · exact .blockFailed ..
  | fetchBlockResults height polls retries =>
      simp only [processSingleIoCommand] at h
      split at h <;> cases h
      · exact .results ..
      · exact .resultsFailed ..
  | fetchChainList =>
      simp only [processSingleIoCommand] at h
      split at h <;> cases h
      · exact .chainList ..
      · exact .chainListFailed ..
  | fetchHead =>
      simp only [processSingleIoCommand] at h
      split at h <;> cases h
      · exact .head ..
      · exact .headFailed
  | fetchChainParams chain =>
      simp only [processSingleIoCommand] at h
      split at h
      · simp only [Option.map_eq_some_iff] at h
        obtain ⟨p, -, rfl⟩ := h
        exact .chainParams ..
      · cases h
        exact .chainParamsFailed chain

theorem step_handles {cx : Codecs} {config : Config} {s t : System} {msg : IoResult}
    {out : List IoCommand} (h : Step (monitor cx config) s (.handled msg out) t) :
    Handles cx config s.state msg t.state out :=
  processSingleMessage_handles cx h.handle_eq

theorem exec_answers {cx : Codecs} {config : Config} {http : Http} {cmd : IoCommand}
    {out : List IoResult} (h : (monitor cx config).exec http cmd = some out) : Answers cmd out :=
  processSingleIoCommand_answers cx h

theorem step_answers {cx : Codecs} {config : Config} {s t : System} {cmd : IoCommand}
    {out : List IoResult} (h : Step (monitor cx config) s (.answered cmd out) t) :
    Answers cmd out := by
  obtain ⟨http, hexec⟩ := h.exec_eq
  exact exec_answers hexec

end AxelarMonitor
