import AxelarMonitor.Handlers
import Mathlib.Data.Finset.Lattice.Lemmas

/-!
What the analysis of closed polls adds to the vote results. Both of its loops
are tallies: one over the configured broadcasters, one over the poll's votes.
-/

namespace AxelarMonitor

variable (cx : Codecs)

def seriesOf (broadcasters : List Broadcaster) (chains : List String) : List VoteResult :=
  broadcasters.flatMap (fun b => chains.flatMap (fun c =>
    VoteResultType.all.map (fun r => ⟨b.name, c, r⟩)))

theorem mem_seriesOf {broadcasters : List Broadcaster} {chains : List String}
    {key : VoteResult} :
    key ∈ seriesOf broadcasters chains ↔
      (∃ b ∈ broadcasters, b.name = key.broadcaster) ∧ key.chain ∈ chains := by
  obtain ⟨name, chain, result⟩ := key
  simp only [seriesOf, List.mem_flatMap, List.mem_map, VoteResult.mk.injEq]
  constructor
  · rintro ⟨b, hb, c, hc, r, -, hname, rfl, -⟩
    exact ⟨⟨b, hb, hname⟩, hc⟩
  · rintro ⟨⟨b, hb, hname⟩, hc⟩
    have hall : result ∈ VoteResultType.all := by cases result <;> decide
    exact ⟨b, hb, chain, hc, result, hall, hname, rfl, rfl⟩

theorem configVoteResults_eq (config : Config) :
    configVoteResults cx config =
      (seriesOf config.broadcaster (config.chainParams.map (fun p => cx.toLowercase p.name))).foldl
        (fun m key => m.insert key 0) .empty := by
  simp only [configVoteResults, seriesOf, List.foldl_flatMap, List.foldl_map]

theorem contains_configChainParams {config : Config} {c : String} :
    (configChainParams cx config).contains c = true ↔
      c ∈ config.chainParams.map (fun p => cx.toLowercase p.name) := by
  have hfold (ps : List ChainParams) (m : OrderedMap String ChainParams) :
      (ps.foldl (fun m p => m.insert (cx.toLowercase p.name) p) m).contains c = true ↔
        c ∈ ps.map (fun p => cx.toLowercase p.name) ∨ m.contains c = true := by
    induction ps generalizing m with
    | nil => simp
    | cons p rest ih =>
        rw [List.foldl_cons, ih, OrderedMap.contains_insert, List.map_cons, List.mem_cons]
        tauto
  exact (hfold config.chainParams .empty).trans (by simp [OrderedMap.contains])

theorem contains_processChainParams {chain : ChainParams} {st : ProcessingState}
    {config : Config} {c : String} :
    (processChainParamsMessage cx chain st config).chainParams.contains c = true ↔
      c = cx.toLowercase chain.name ∨ st.chainParams.contains c = true :=
  OrderedMap.contains_insert

@[simp] theorem processChainParams_polls (chain : ChainParams) (st : ProcessingState)
    (config : Config) : (processChainParamsMessage cx chain st config).polls = st.polls := rfl

theorem processChainParams_voteResults (chain : ChainParams) (st : ProcessingState)
    (config : Config) :
    (processChainParamsMessage cx chain st config).voteResults =
      (seriesOf config.broadcaster [cx.toLowercase chain.name]).foldl
        (fun m key => m.orInsert key 0) st.voteResults := by
  simp only [processChainParamsMessage, seriesOf, List.foldl_flatMap, List.foldl_map,
    List.foldl_cons, List.foldl_nil]

theorem count_configVoteResults (config : Config) (key : VoteResult) :
    (configVoteResults cx config).count key = 0 := by
  rw [configVoteResults_eq, OrderedMap.count, OrderedMap.get?_foldl_insert]
  split <;> rfl

/-- Fetched parameters add series but no counts. -/
theorem count_processChainParams (chain : ChainParams) (st : ProcessingState) (config : Config)
    (key : VoteResult) :
    (processChainParamsMessage cx chain st config).voteResults.count key =
      st.voteResults.count key := by
  rw [processChainParams_voteResults, OrderedMap.count, OrderedMap.get?_foldl_orInsert]
  split <;> rfl

/-- The configured name behind a vote. -/
def owner (config : Config) (vote : PollVote) : Option String :=
  (senderToBroadcaster config).get? vote.senderId

def missedKey (config : Config) (poll : Poll) (broadcaster : Broadcaster) : Option VoteResult :=
  if broadcaster.name ∈ voters config poll.votes then none
  else some ⟨broadcaster.name, cx.toLowercase poll.data.chain, .missed⟩

def voteKey (config : Config) (majority : String) (vote : PollVote) : Option VoteResult :=
  (owner config vote).map (fun name =>
    ⟨name, cx.toLowercase vote.chain, if vote.txId = majority then .agreed else .disagreed⟩)

theorem countMissed_eq_tally (poll : Poll) (config : Config)
    (voteResults : OrderedMap VoteResult Nat) :
    countMissed cx poll config voteResults =
      OrderedMap.tally (missedKey cx config poll) config.broadcaster voteResults := by
  unfold countMissed OrderedMap.tally
  congr 1
  funext m broadcaster
  unfold missedKey
  split <;> rfl

theorem countVotes_eq_tally (config : Config) (majority : String) (votes : List PollVote)
    (voteResults : OrderedMap VoteResult Nat) :
    votes.foldl (countVote cx config majority) voteResults =
      OrderedMap.tally (voteKey cx config majority) votes voteResults := by
  unfold OrderedMap.tally
  congr 1
  funext m vote
  unfold countVote voteKey owner
  cases (senderToBroadcaster config).get? vote.senderId <;> rfl

theorem txIdCounts_eq_tally (votes : List PollVote) :
    txIdCounts votes = OrderedMap.tally (fun vote => some vote.txId) votes .empty := rfl

/-- There is a majority as soon as there is a vote. -/
theorem majorityTxId_isSome {votes : List PollVote} (h : votes ≠ []) :
    ∃ majority, majorityTxId votes = some majority := by
  obtain ⟨vote, rest, rfl⟩ := List.exists_cons_of_ne_nil h
  have hkey : (txIdCounts (vote :: rest)).contains vote.txId = true := by
    rw [txIdCounts_eq_tally, OrderedMap.contains_tally]
    exact Or.inr ⟨vote, List.mem_cons_self, rfl⟩
  obtain ⟨n, hn⟩ := OrderedMap.contains_iff.mp hkey
  unfold majorityTxId
  cases hentries : (txIdCounts (vote :: rest)).entries with
  | nil =>
      rw [← OrderedMap.mem_entries, hentries] at hn
      simp at hn
  | cons e es => exact ⟨_, rfl⟩

theorem majorityTxId_nil : majorityTxId [] = none := rfl

/-- The series of a broadcaster and chain that the outcome of a vote goes to. -/
def countedVotes (m : OrderedMap VoteResult Nat) (name chain : String) : Nat :=
  m.count ⟨name, chain, .agreed⟩ + m.count ⟨name, chain, .disagreed⟩

def isVoteOf (config : Config) (name chain : String) (vote : PollVote) : Bool :=
  decide (owner config vote = some name) && decide (cx.toLowercase vote.chain = chain)

theorem countP_missedKey_eq_zero (config : Config) (poll : Poll) {key : VoteResult}
    (hkey : key.result ≠ .missed) :
    config.broadcaster.countP (fun b => decide (missedKey cx config poll b = some key)) = 0 := by
  rw [List.countP_eq_zero]
  intro broadcaster _
  have hne : missedKey cx config poll broadcaster ≠ some key := by
    unfold missedKey
    split
    · simp
    · rintro h
      cases h
      exact hkey rfl
  simpa using hne

/-- Each entry of a name that did not vote is missed once, on the poll's chain. -/
theorem countP_missedKey (config : Config) (poll : Poll) (name chain : String) :
    config.broadcaster.countP (fun b =>
        decide (missedKey cx config poll b = some ⟨name, chain, .missed⟩)) =
      if name ∉ voters config poll.votes ∧ cx.toLowercase poll.data.chain = chain then
        config.broadcaster.countP (fun b => b.name = name)
      else 0 := by
  split_ifs with hcond
  · apply List.countP_congr
    intro b _
    unfold missedKey
    by_cases hname : b.name = name
    · simp [hname, hcond.1, hcond.2]
    · split <;> simp [hname]
  · rw [List.countP_eq_zero]
    intro b _ hkey
    apply hcond
    unfold missedKey at hkey
    split at hkey
    · simp at hkey
    · simp only [decide_eq_true_eq, Option.some.injEq, VoteResult.mk.injEq, and_true] at hkey
      obtain ⟨rfl, hchain⟩ := hkey
      exact ⟨‹_›, hchain⟩

theorem countP_voteKey_missed (config : Config) (majority name chain : String)
    (votes : List PollVote) :
    votes.countP (fun v =>
      decide (voteKey cx config majority v = some ⟨name, chain, .missed⟩)) = 0 := by
  rw [List.countP_eq_zero]
  intro v _
  unfold voteKey
  cases owner config v with
  | none => simp
  | some n => split <;> simp

theorem count_countMissed (poll : Poll) (config : Config) (m : OrderedMap VoteResult Nat)
    {key : VoteResult} (hkey : key.result ≠ .missed) :
    (countMissed cx poll config m).count key = m.count key := by
  rw [countMissed_eq_tally, OrderedMap.count_tally, countP_missedKey_eq_zero cx config poll hkey,
    Nat.add_zero]

/-- A vote counts once, as agreement or as disagreement. -/
theorem countP_voteKey (config : Config) (majority name chain : String)
    (votes : List PollVote) :
    votes.countP (fun v => decide (voteKey cx config majority v = some ⟨name, chain, .agreed⟩)) +
      votes.countP (fun v =>
        decide (voteKey cx config majority v = some ⟨name, chain, .disagreed⟩)) =
      votes.countP (isVoteOf cx config name chain) := by
  induction votes with
  | nil => rfl
  | cons vote rest ih =>
      simp only [List.countP_cons, ← ih]
      unfold voteKey isVoteOf
      cases howner : owner config vote with
      | none => simp
      | some n =>
          by_cases hname : n = name
          · by_cases hchain : cx.toLowercase vote.chain = chain
            · by_cases hagree : vote.txId = majority
              · simp [hname, hchain, hagree]
                omega
              · simp [hname, hchain, hagree]
                omega
            · simp [hchain]
          · simp [hname]

theorem countedVotes_analyze (poll : Poll) (config : Config) (m : OrderedMap VoteResult Nat)
    (name chain : String) :
    countedVotes (analyzePollCompletion cx poll config m) name chain =
      countedVotes m name chain + poll.votes.countP (isVoteOf cx config name chain) := by
  unfold analyzePollCompletion
  rcases List.eq_nil_or_concat poll.votes with hnil | ⟨init, last, hvotes⟩
  · simp [hnil, majorityTxId_nil, countedVotes, count_countMissed]
  · have hne : poll.votes ≠ [] := by simp [hvotes]
    obtain ⟨majority, hmajority⟩ := majorityTxId_isSome hne
    simp only [hmajority, countVotes_eq_tally, countedVotes, OrderedMap.count_tally]
    rw [count_countMissed cx poll config m (by simp), count_countMissed cx poll config m (by simp),
      ← countP_voteKey cx config majority]
    omega

/-- One analysis counts a name as missing at most once for each entry it has in
the configuration, and not at all when one of its addresses voted. -/
theorem count_missed_analyze (poll : Poll) (config : Config) (m : OrderedMap VoteResult Nat)
    (name chain : String) :
    (analyzePollCompletion cx poll config m).count ⟨name, chain, .missed⟩ =
      m.count ⟨name, chain, .missed⟩ +
        if name ∉ voters config poll.votes ∧ cx.toLowercase poll.data.chain = chain then
          config.broadcaster.countP (fun b => b.name = name)
        else 0 := by
  have hmissed : (countMissed cx poll config m).count ⟨name, chain, .missed⟩ =
      m.count ⟨name, chain, .missed⟩ +
        if name ∉ voters config poll.votes ∧ cx.toLowercase poll.data.chain = chain then
          config.broadcaster.countP (fun b => b.name = name)
        else 0 := by
    rw [countMissed_eq_tally, OrderedMap.count_tally, countP_missedKey]
  unfold analyzePollCompletion
  cases majorityTxId poll.votes with
  | none => exact hmissed
  | some majority =>
      simp only [countVotes_eq_tally, OrderedMap.count_tally, countP_voteKey_missed, hmissed,
        Nat.add_zero]

/-- The polls a block at `height` closes, in the order of their ids. -/
def closingPolls (polls : OrderedMap Nat Poll) (height : Nat) : List Poll :=
  (polls.entries.filter (fun e => e.2.data.expiryHeight ≤ height)).map Prod.snd

private theorem foldl_expirePoll (config : Config) (polls : OrderedMap Nat Poll)
    (entries : List (Nat × Poll)) (hsub : ∀ e ∈ entries, e ∈ polls.entries)
    (closed : OrderedMap VoteResult Nat × Finset Nat) :
    (entries.map Prod.fst).foldl (expirePoll cx config polls) closed =
      ((entries.map Prod.snd).foldl (fun m p => analyzePollCompletion cx p config m) closed.1,
        closed.2 ∪ (entries.map Prod.fst).toFinset) := by
  induction entries generalizing closed with
  | nil => simp
  | cons e rest ih =>
      obtain ⟨id, poll⟩ := e
      have hget : polls.get? id = some poll :=
        OrderedMap.mem_entries.mp (hsub (id, poll) List.mem_cons_self)
      have hstep : expirePoll cx config polls closed id =
          (analyzePollCompletion cx poll config closed.1, insert id closed.2) := by
        simp [expirePoll, hget]
      simp only [List.map_cons, List.foldl_cons, hstep]
      rw [ih (fun e he => hsub e (List.mem_cons_of_mem _ he))]
      simp [Finset.insert_union, Finset.union_insert]

theorem expirePolls_eq (config : Config) (height : Nat) (polls : OrderedMap Nat Poll)
    (st : ProcessingState) :
    expirePolls cx config height polls st =
      { st with
        polls := polls.retain (fun _ poll => height < poll.data.expiryHeight)
        voteResults := (closingPolls polls height).foldl
          (fun m p => analyzePollCompletion cx p config m) st.voteResults
        expiredPollIds := st.expiredPollIds ∪ (expiringPollIds polls height).toFinset } := by
  unfold expirePolls expiringPollIds closingPolls
  rw [foldl_expirePoll cx config polls _ (fun e he => (List.mem_filter.mp he).1)]

end AxelarMonitor
