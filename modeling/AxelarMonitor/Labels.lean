import AxelarMonitor.PollStore

/-!
The label space of the vote results, over arbitrary sequences of messages. The
chain of a missed vote is that of its poll, the chain of a cast vote is the one
the voter wrote. Only the latter can lead to a chain that is not known.
-/

namespace AxelarMonitor

variable (cx : Codecs) (config : Config)

structure MessageStep where
  before : ProcessingState
  msg : IoResult
  out : List IoCommand
  after : ProcessingState

/-- The processing thread alone, handed any messages from its start on. -/
inductive MessageRun : List MessageStep → ProcessingState → Prop
  | nil : MessageRun [] (.new cx config)
  | snoc {trace st} (msg st' out) (hrun : MessageRun trace st)
      (hstep : processSingleMessage cx msg st config = some (st', out)) :
      MessageRun (trace ++ [⟨st, msg, out, st'⟩]) st'

def replayMessages (msgs : List IoResult) : Option (List MessageStep × ProcessingState) :=
  msgs.foldl (fun done msg => done.bind (fun r =>
    (processSingleMessage cx msg r.2 config).map (fun next =>
      (r.1 ++ [⟨r.2, msg, next.2, next.1⟩], next.1)))) (some ([], .new cx config))

theorem replayMessages_run {msgs : List IoResult} {r : List MessageStep × ProcessingState}
    (h : replayMessages cx config msgs = some r) : MessageRun cx config r.1 r.2 := by
  induction msgs using List.reverseRecOn generalizing r with
  | nil =>
      obtain rfl := Option.some.inj h
      exact .nil
  | append_singleton msgs msg ih =>
      unfold replayMessages at h ih
      rw [List.foldl_append, List.foldl_cons, List.foldl_nil, Option.bind_eq_some_iff] at h
      obtain ⟨r', hr', hstep⟩ := h
      obtain ⟨next, hnext, rfl⟩ := Option.map_eq_some_iff.mp hstep
      exact .snoc msg next.1 next.2 (ih hr') hnext

def IoCommand.bundlePolls? : IoCommand → Option (List PollData)
  | .fetchBlockResults _ polls _ => some polls
  | _ => none

/-- The poll creations returned in commands that fetch block results. -/
def returnedPolls (trace : List MessageStep) : List (List PollData) :=
  trace.flatMap (fun x => x.out.filterMap IoCommand.bundlePolls?)

def IoResult.resultsPolls? : IoResult → Option (List PollData)
  | .blockResults _ _ polls => some polls
  | _ => none

def IoResult.errorPolls? : IoResult → Option (List PollData)
  | .fetchBlockResultsError _ polls _ _ => some polls
  | _ => none

def carriedFrom (carries : IoResult → Option (List PollData)) :
    List (List PollData) → List MessageStep → Bool
  | _, [] => true
  | known, x :: rest =>
      (carries x.msg).all (· ∈ known) &&
        carriedFrom carries (known ++ x.out.filterMap IoCommand.bundlePolls?) rest

/-- Every block result carries poll creations that were returned before it. -/
def ResultsCarried (trace : List MessageStep) : Prop :=
  carriedFrom IoResult.resultsPolls? [] trace

/-- So does every failure to fetch block results. -/
def ErrorsCarried (trace : List MessageStep) : Prop :=
  carriedFrom IoResult.errorPolls? [] trace

theorem carriedFrom_snoc {carries : IoResult → Option (List PollData)}
    {known : List (List PollData)} {trace : List MessageStep} {x : MessageStep}
    (h : carriedFrom carries known (trace ++ [x])) :
    carriedFrom carries known trace ∧
      ∀ polls, carries x.msg = some polls → polls ∈ known ++ returnedPolls trace := by
  induction trace generalizing known with
  | nil =>
      refine ⟨rfl, ?_⟩
      intro polls hpolls
      simpa [carriedFrom, hpolls, returnedPolls] using h
  | cons y rest ih =>
      rw [List.cons_append, carriedFrom, Bool.and_eq_true] at h
      obtain ⟨hrest, hx⟩ := ih h.2
      refine ⟨?_, ?_⟩
      · rw [carriedFrom, h.1, hrest]
        rfl
      · intro polls hpolls
        simpa [returnedPolls] using hx polls hpolls

def touchedKeys (poll : Poll) : List VoteResult :=
  config.broadcaster.filterMap (missedKey cx config poll) ++
    match majorityTxId poll.votes with
    | none => []
    | some majority => poll.votes.filterMap (voteKey cx config majority)

variable {cx config}

theorem contains_analyze (poll : Poll) (m : OrderedMap VoteResult Nat) (key : VoteResult) :
    (analyzePollCompletion cx poll config m).contains key = true ↔
      m.contains key = true ∨ key ∈ touchedKeys cx config poll := by
  unfold analyzePollCompletion touchedKeys
  cases majorityTxId poll.votes with
  | none =>
      rw [countMissed_eq_tally, OrderedMap.contains_tally]
      simp
  | some majority =>
      simp only [countVotes_eq_tally, countMissed_eq_tally, OrderedMap.contains_tally]
      simp [or_assoc]

theorem contains_closing (polls : List Poll) (m : OrderedMap VoteResult Nat)
    (key : VoteResult) :
    (polls.foldl (fun m p => analyzePollCompletion cx p config m) m).contains key = true ↔
      m.contains key = true ∨ ∃ p ∈ polls, key ∈ touchedKeys cx config p := by
  induction polls generalizing m with
  | nil => simp
  | cons poll rest ih =>
      rw [List.foldl_cons, ih, contains_analyze]
      simp [or_assoc]

theorem get?_analyze_of_some (poll : Poll) {m : OrderedMap VoteResult Nat} {key : VoteResult}
    {n : Nat} (h : m.get? key = some n) :
    ∃ n', (analyzePollCompletion cx poll config m).get? key = some n' ∧ n ≤ n' := by
  unfold analyzePollCompletion
  rw [countMissed_eq_tally]
  obtain ⟨n', hn', hle⟩ := OrderedMap.get?_tally_of_some (missedKey cx config poll)
    config.broadcaster h
  cases majorityTxId poll.votes with
  | none => exact ⟨n', hn', hle⟩
  | some majority =>
      obtain ⟨n'', hn'', hle'⟩ := OrderedMap.get?_tally_of_some (voteKey cx config majority)
        poll.votes hn'
      refine ⟨n'', ?_, hle.trans hle'⟩
      simp only [countVotes_eq_tally]
      exact hn''

theorem get?_closing_of_some (polls : List Poll) {m : OrderedMap VoteResult Nat}
    {key : VoteResult} {n : Nat} (h : m.get? key = some n) :
    ∃ n', (polls.foldl (fun m p => analyzePollCompletion cx p config m) m).get? key = some n' ∧
      n ≤ n' := by
  induction polls generalizing m n with
  | nil => exact ⟨n, h, Nat.le_refl n⟩
  | cons poll rest ih =>
      obtain ⟨n', hn', hle⟩ := get?_analyze_of_some poll h
      obtain ⟨n'', hn'', hle'⟩ := ih hn'
      exact ⟨n'', hn'', hle.trans hle'⟩

/-- The names of an analysis come from the configuration. -/
theorem touchedKeys_configured {poll : Poll} {key : VoteResult}
    (h : key ∈ touchedKeys cx config poll) :
    ∃ b ∈ config.broadcaster, b.name = key.broadcaster := by
  rcases List.mem_append.mp h with hmissed | hvote
  · obtain ⟨b, hb, hkey⟩ := List.mem_filterMap.mp hmissed
    unfold missedKey at hkey
    split at hkey
    · cases hkey
    · cases hkey
      exact ⟨b, hb, rfl⟩
  · cases hmajority : majorityTxId poll.votes with
    | none => simp [hmajority] at hvote
    | some majority =>
        rw [hmajority] at hvote
        obtain ⟨vote, -, hkey⟩ := List.mem_filterMap.mp hvote
        obtain ⟨name, hname, rfl⟩ := Option.map_eq_some_iff.mp hkey
        obtain ⟨b, hb, hpair⟩ := List.mem_map.mp (OrderedMap.get?_ofList_mem hname)
        exact ⟨b, hb, (Prod.mk.inj hpair).2⟩

variable (cx config)

def MessageStep.closed (x : MessageStep) : List Poll := closedBy cx x.before.polls x.msg

/-- Every vote of a configured sender names a known chain. -/
def VotesOnKnownChains (x : MessageStep) : Prop :=
  ∀ p ∈ x.closed cx, ∀ v ∈ p.votes, (owner config v).isSome →
    x.before.chainParams.contains (cx.toLowercase v.chain)

/-- A poll that somebody missed is on a known chain. -/
def MissesOnKnownChains (x : MessageStep) : Prop :=
  ∀ p ∈ x.closed cx, (∃ b ∈ config.broadcaster, b.name ∉ voters config p.votes) →
    x.before.chainParams.contains (cx.toLowercase p.data.chain)

instance (x : MessageStep) : Decidable (VotesOnKnownChains cx config x) :=
  inferInstanceAs (Decidable (∀ p ∈ x.closed cx, ∀ v ∈ p.votes, (owner config v).isSome →
    x.before.chainParams.contains (cx.toLowercase v.chain)))

variable {cx config}

theorem touchedKeys_known_iff {poll : Poll} {params : OrderedMap String ChainParams} :
    (∀ key ∈ touchedKeys cx config poll, params.contains key.chain = true) ↔
      (∀ v ∈ poll.votes, (owner config v).isSome → params.contains (cx.toLowercase v.chain)) ∧
        ((∃ b ∈ config.broadcaster, b.name ∉ voters config poll.votes) →
          params.contains (cx.toLowercase poll.data.chain)) := by
  constructor
  · intro hall
    constructor
    · intro v hv howner
      obtain ⟨name, hname⟩ := Option.isSome_iff_exists.mp howner
      obtain ⟨majority, hmajority⟩ := majorityTxId_isSome (List.ne_nil_of_mem hv)
      have hkey : ⟨name, cx.toLowercase v.chain,
          if v.txId = majority then .agreed else .disagreed⟩ ∈ touchedKeys cx config poll := by
        apply List.mem_append_right
        rw [hmajority]
        exact List.mem_filterMap.mpr ⟨v, hv, by simp [voteKey, hname]⟩
      exact hall _ hkey
    · rintro ⟨b, hb, hmissed⟩
      have hkey : ⟨b.name, cx.toLowercase poll.data.chain, .missed⟩ ∈
          touchedKeys cx config poll := by
        apply List.mem_append_left
        exact List.mem_filterMap.mpr ⟨b, hb, by rw [missedKey, if_neg hmissed]⟩
      exact hall _ hkey
  · rintro ⟨hvotes, hmisses⟩ key hkey
    rcases List.mem_append.mp hkey with hmissed | hvote
    · obtain ⟨b, hb, hkey⟩ := List.mem_filterMap.mp hmissed
      unfold missedKey at hkey
      split at hkey
      · cases hkey
      · cases hkey
        exact hmisses ⟨b, hb, ‹_›⟩
    · cases hmajority : majorityTxId poll.votes with
      | none => simp [hmajority] at hvote
      | some majority =>
          rw [hmajority] at hvote
          obtain ⟨v, hv, hkey⟩ := List.mem_filterMap.mp hvote
          obtain ⟨name, hname, rfl⟩ := Option.map_eq_some_iff.mp hkey
          exact hvotes v hv (Option.isSome_iff_exists.mpr ⟨name, hname⟩)

/-- A series for each configured name, known chain and outcome, and no other. -/
def ExactLabels (config : Config) (st : ProcessingState) : Prop :=
  ∀ key, st.voteResults.contains key = true ↔
    (∃ b ∈ config.broadcaster, b.name = key.broadcaster) ∧
      st.chainParams.contains key.chain = true

/-- No series is reset, and a new one starts at zero. -/
structure SeriesKept (st st' : ProcessingState) : Prop where
  kept : ∀ key n, st.voteResults.get? key = some n →
    ∃ n', st'.voteResults.get? key = some n' ∧ n ≤ n'
  zero : ∀ key n, st.voteResults.get? key = none → st'.voteResults.get? key = some n → n = 0

def LabelSpace (cx : Codecs) (config : Config) (trace : List MessageStep) : Prop :=
  ExactLabels config (.new cx config) ∧
    ∀ x ∈ trace, ExactLabels config x.after ∧ SeriesKept x.before x.after

theorem exactLabels_new : ExactLabels config (.new cx config) := by
  intro key
  have hresults : (ProcessingState.new cx config).voteResults.contains key = true ↔
      key ∈ seriesOf config.broadcaster
        (config.chainParams.map (fun p => cx.toLowercase p.name)) := by
    unfold OrderedMap.contains ProcessingState.new
    simp only
    rw [configVoteResults_eq, OrderedMap.get?_foldl_insert]
    split <;> simp_all
  have hchains : (ProcessingState.new cx config).chainParams.contains key.chain = true ↔
      key.chain ∈ config.chainParams.map (fun p => cx.toLowercase p.name) :=
    contains_configChainParams cx
  rw [hresults, hchains, mem_seriesOf]

theorem ExactLabels.chainParams {st : ProcessingState} (hexact : ExactLabels config st)
    (q : ChainParams) :
    ExactLabels config (processChainParamsMessage cx q st config) ∧
      SeriesKept st (processChainParamsMessage cx q st config) := by
  have hget (key : VoteResult) :
      (processChainParamsMessage cx q st config).voteResults.get? key =
        if key ∈ seriesOf config.broadcaster [cx.toLowercase q.name] then
          some ((st.voteResults.get? key).getD 0)
        else st.voteResults.get? key := by
    rw [processChainParams_voteResults, OrderedMap.get?_foldl_orInsert]
  constructor
  · intro key
    have hold := hexact key
    have hresults : (processChainParamsMessage cx q st config).voteResults.contains key = true ↔
        key ∈ seriesOf config.broadcaster [cx.toLowercase q.name] ∨
          st.voteResults.contains key = true := by
      rw [OrderedMap.contains, hget]
      split <;> simp_all [OrderedMap.contains]
    rw [hresults, contains_processChainParams, hold, mem_seriesOf, List.mem_singleton]
    exact and_or_left.symm
  · constructor
    · intro key n hn
      refine ⟨n, ?_, Nat.le_refl n⟩
      rw [hget, hn]
      split <;> rfl
    · intro key n hnone hn
      rw [hget, hnone] at hn
      split at hn
      · exact (Option.some.inj hn).symm
      · cases hn

/-- A block keeps the label space exact as long as the polls it closes touch
known chains only, and only then. -/
theorem exactLabels_block_iff {st : ProcessingState} (hexact : ExactLabels config st)
    (h : Nat) (data : RawBlockData) :
    ExactLabels config (applyBlock cx config h data st) ↔
      ∀ p ∈ closingPolls (data.votes.foldl pushVote st.polls) h,
        ∀ key ∈ touchedKeys cx config p, st.chainParams.contains key.chain = true := by
  unfold ExactLabels
  simp only [applyBlock_voteResults, contains_closing, applyBlock_chainParams, hexact _]
  constructor
  · intro hnew p hp key hkey
    exact ((hnew key).mp (Or.inr ⟨p, hp, hkey⟩)).2
  · intro hknown key
    constructor
    · rintro (hold | ⟨p, hp, hkey⟩)
      · exact hold
      · exact ⟨touchedKeys_configured hkey, hknown p hp key hkey⟩
    · exact Or.inl

theorem seriesKept_block {st : ProcessingState} (hexact : ExactLabels config st)
    (h : Nat) (data : RawBlockData)
    (hexact' : ExactLabels config (applyBlock cx config h data st)) :
    SeriesKept st (applyBlock cx config h data st) := by
  constructor
  · intro key n hn
    rw [applyBlock_voteResults]
    exact get?_closing_of_some _ hn
  · intro key n hnone hn
    -- the exact label space has no room for a series that the block adds
    have hnow : (applyBlock cx config h data st).voteResults.contains key = true :=
      OrderedMap.contains_iff.mpr ⟨n, hn⟩
    have hbefore : st.voteResults.contains key = true := by
      rw [hexact key]
      exact (hexact' key).mp hnow
    obtain ⟨m, hm⟩ := OrderedMap.contains_iff.mp hbefore
    rw [hnone] at hm
    cases hm

/-- A message keeps an exact label space exactly when the polls it closes touch
known chains only; then it resets no series either. -/
theorem exactLabels_step_iff {x : MessageStep}
    (hstep : processSingleMessage cx x.msg x.before config = some (x.after, x.out))
    (hexact : ExactLabels config x.before) :
    (ExactLabels config x.after ∧ SeriesKept x.before x.after) ↔
      VotesOnKnownChains cx config x ∧ MissesOnKnownChains cx config x := by
  obtain ⟨st, msg, out, st'⟩ := x
  simp only at hstep hexact ⊢
  have hclosed : VotesOnKnownChains cx config ⟨st, msg, out, st'⟩ ∧
      MissesOnKnownChains cx config ⟨st, msg, out, st'⟩ ↔
        ∀ p ∈ MessageStep.closed cx ⟨st, msg, out, st'⟩, ∀ key ∈ touchedKeys cx config p,
          st.chainParams.contains key.chain = true := by
    simp only [VotesOnKnownChains, MissesOnKnownChains]
    constructor
    · rintro ⟨hvotes, hmisses⟩ p hp
      exact touchedKeys_known_iff.mpr ⟨hvotes p hp, hmisses p hp⟩
    · intro hall
      exact ⟨fun p hp => (touchedKeys_known_iff.mp (hall p hp)).1,
        fun p hp => (touchedKeys_known_iff.mp (hall p hp)).2⟩
  rw [hclosed]
  have hidle (hresults : st'.voteResults = st.voteResults)
      (hparams : st'.chainParams = st.chainParams) :
      ExactLabels config st' ∧ SeriesKept st st' := by
    refine ⟨?_, ?_, ?_⟩
    · intro key
      rw [hresults, hparams]
      exact hexact key
    · intro key n hn
      exact ⟨n, by rw [hresults, hn], Nat.le_refl n⟩
    · intro key n hnone hn
      rw [hresults, hnone] at hn
      cases hn
  cases processSingleMessage_handles cx hstep with
  | block h b data hdata =>
      have hiff := @exactLabels_block_iff cx config st hexact h data
      rw [hdata.votes_eq] at hiff
      constructor
      · intro hnew
        exact hiff.mp hnew.1
      · intro hknown
        have hexact' := hiff.mpr hknown
        exact ⟨hexact', seriesKept_block hexact h data hexact'⟩
  | chainParams q =>
      constructor
      · intro _ p hp
        cases hp
      · intro _
        exact hexact.chainParams q
  | _ =>
      constructor
      · intro _ p hp
        cases hp
      · intro _
        exact hidle rfl rfl

/-- The open polls and the returned creations are on known chains. -/
structure KnownPolls (cx : Codecs) (trace : List MessageStep) (st : ProcessingState) :
    Prop where
  opened : ∀ id poll, st.polls.get? id = some poll →
    st.chainParams.contains (cx.toLowercase poll.data.chain) = true
  returned : ∀ polls ∈ returnedPolls trace, ∀ d ∈ polls,
    st.chainParams.contains (cx.toLowercase d.chain) = true

theorem ReadsAs.creations_known {block : Block} {params : OrderedMap String ChainParams}
    {height : Nat} {data : RawBlockData} (h : ReadsAs cx block params height data) :
    ∀ d ∈ data.pollCreations, params.contains (cx.toLowercase d.chain) = true := by
  obtain ⟨requests, -, hcreations⟩ := h.creations_eq
  intro d hd
  rw [hcreations] at hd
  obtain ⟨r, -, hcreate⟩ := List.mem_filterMap.mp hd
  obtain ⟨q, hq, rfl⟩ := Option.map_eq_some_iff.mp hcreate
  exact OrderedMap.contains_iff.mpr ⟨q, hq⟩

theorem returnedPolls_snoc (trace : List MessageStep) (x : MessageStep) :
    returnedPolls (trace ++ [x]) =
      returnedPolls trace ++ x.out.filterMap IoCommand.bundlePolls? := by
  simp [returnedPolls]

/-- The creations that a message returns are its block's own or those it was
given to try again. -/
theorem Handles.bundlePolls {st st' : ProcessingState} {msg : IoResult} {out : List IoCommand}
    (h : Handles cx config st msg st' out) :
    ∀ polls ∈ out.filterMap IoCommand.bundlePolls?,
      msg.errorPolls? = some polls ∨
        ∀ d ∈ polls, st.chainParams.contains (cx.toLowercase d.chain) = true := by
  intro polls hpolls
  rcases h.filterMap_bundles IoCommand.bundlePolls? (fun _ _ => rfl) (fun _ => rfl) rfl with
    ⟨height, block, data, rfl, hdata, hout⟩ | ⟨height, polls', retries, error, rfl, hout⟩ | hout
  · right
    rw [hout] at hpolls
    obtain ⟨cmd, hcmd, heq⟩ := List.mem_filterMap.mp hpolls
    rw [mem_bundleFor hcmd] at heq
    obtain rfl := Option.some.inj heq
    exact hdata.creations_known
  · left
    rw [hout] at hpolls
    exact Option.mem_toList.mp hpolls
  · rw [hout] at hpolls
    cases hpolls

theorem KnownPolls.step {trace : List MessageStep} {st st' : ProcessingState} {msg : IoResult}
    {out : List IoCommand} (hknown : KnownPolls cx trace st)
    (h : Handles cx config st msg st' out)
    (hresults : ∀ polls, msg.resultsPolls? = some polls → polls ∈ returnedPolls trace)
    (herrors : ∀ polls, msg.errorPolls? = some polls → polls ∈ returnedPolls trace) :
    KnownPolls cx (trace ++ [⟨st, msg, out, st'⟩]) st' := by
  have hgrow {c : String} (hc : st.chainParams.contains c = true) :
      st'.chainParams.contains c = true := h.contains_chainParams hc
  constructor
  · intro id poll hget
    cases h with
    | block height block data hdata =>
        rw [get?_applyBlock, Option.filter_eq_some_iff, Option.map_eq_some_iff] at hget
        obtain ⟨⟨old, hold, rfl⟩, -⟩ := hget
        exact hgrow (hknown.opened id old hold)
    | blockResults height results polls =>
        rcases get?_blockResults cx hget with hold | ⟨⟨creation, hcreation, rfl⟩, -⟩
        · exact hgrow (hknown.opened id poll hold)
        · exact hgrow (hknown.returned polls (hresults polls rfl) creation hcreation)
    | _ => exact hgrow (hknown.opened id poll hget)
  · intro polls hpolls d hd
    rw [returnedPolls_snoc, List.mem_append] at hpolls
    rcases hpolls with hold | hnew
    · exact hgrow (hknown.returned polls hold d hd)
    · rcases h.bundlePolls polls hnew with hretry | hblock
      · exact hgrow (hknown.returned polls (herrors polls hretry) d hd)
      · exact hgrow (hblock d hd)

/-- Where all creations come from commands, closed polls are on known chains. -/
theorem misses_on_known_chains {trace : List MessageStep} {st : ProcessingState}
    (hrun : MessageRun cx config trace st) (hresults : ResultsCarried trace)
    (herrors : ErrorsCarried trace) :
    KnownPolls cx trace st ∧ ∀ x ∈ trace, MissesOnKnownChains cx config x := by
  induction hrun with
  | nil =>
      refine ⟨⟨?_, ?_⟩, by simp⟩
      · intro id poll hget
        simp [ProcessingState.new] at hget
      · intro polls hpolls
        cases hpolls
  | @snoc trace st msg st' out hrun hstep ih =>
      obtain ⟨hresults', hcarried⟩ := carriedFrom_snoc hresults
      obtain ⟨herrors', hcarried'⟩ := carriedFrom_snoc herrors
      obtain ⟨hknown, hmisses⟩ := ih hresults' herrors'
      have hhandles := processSingleMessage_handles cx hstep
      refine ⟨hknown.step hhandles hcarried hcarried', ?_⟩
      intro x hx
      rcases List.mem_append.mp hx with hold | hnew
      · exact hmisses x hold
      · obtain rfl := List.mem_singleton.mp hnew
        intro p hp _
        cases msg with
        | block h b =>
            obtain ⟨⟨id, p'⟩, he, rfl⟩ := List.mem_map.mp hp
            have hget := OrderedMap.mem_entries.mp (List.mem_filter.mp he).1
            obtain ⟨old, hold, rfl⟩ := get?_pushVotes_eq_some hget
            exact hknown.opened id old hold
        | _ => cases hp

theorem label_space_closed_iff {trace : List MessageStep} {st : ProcessingState}
    (hrun : MessageRun cx config trace st) :
    (LabelSpace cx config trace → ExactLabels config st) ∧
      (LabelSpace cx config trace ↔
        ∀ x ∈ trace, VotesOnKnownChains cx config x ∧ MissesOnKnownChains cx config x) := by
  induction hrun with
  | nil => exact ⟨fun h => h.1, fun _ => by simp, fun _ => ⟨exactLabels_new, by simp⟩⟩
  | @snoc trace st msg st' out hrun hstep ih =>
      obtain ⟨hfinal, hiff⟩ := ih
      have hstepIff := @exactLabels_step_iff cx config ⟨st, msg, out, st'⟩ hstep
      have hsplit : LabelSpace cx config (trace ++ [⟨st, msg, out, st'⟩]) ↔
          LabelSpace cx config trace ∧ ExactLabels config st' ∧ SeriesKept st st' := by
        simp only [LabelSpace, List.forall_mem_append, List.forall_mem_singleton, and_assoc]
      constructor
      · intro hspace
        exact (hsplit.mp hspace).2.1
      · rw [hsplit, List.forall_mem_append, List.forall_mem_singleton]
        constructor
        · rintro ⟨hspace, hlast⟩
          exact ⟨hiff.mp hspace, (hstepIff (hfinal hspace)).mp hlast⟩
        · rintro ⟨hall, hlast⟩
          have hspace := hiff.mpr hall
          exact ⟨hspace, (hstepIff (hfinal hspace)).mpr hlast⟩

/-- The label space is exact throughout, every series starting at zero and none
reset, exactly when each closing block finds only known chains on the votes of
configured senders and on the polls that somebody missed. The latter is certain
when failures to fetch block results carry returned creations too. -/
theorem label_space_iff {trace : List MessageStep} {st : ProcessingState}
    (hrun : MessageRun cx config trace st) (hresults : ResultsCarried trace) :
    (LabelSpace cx config trace ↔
      ∀ x ∈ trace, VotesOnKnownChains cx config x ∧ MissesOnKnownChains cx config x) ∧
      (ErrorsCarried trace →
        (LabelSpace cx config trace ↔ ∀ x ∈ trace, VotesOnKnownChains cx config x)) := by
  refine ⟨(label_space_closed_iff hrun).2, ?_⟩
  intro herrors
  have hmisses := (misses_on_known_chains hrun hresults herrors).2
  rw [(label_space_closed_iff hrun).2]
  constructor
  · intro hall x hx
    exact (hall x hx).1
  · intro hvotes x hx
    exact ⟨hvotes x hx, hmisses x hx⟩

/-- Poll 1 is opened by block 5, voted on by a block 6 and closed by block 7. -/
def Sample.pollMessages (voteText : String) : List IoResult :=
  [.block 5 (Sample.block 5), .blockResults 5 Sample.results [⟨.gatewayTx, "eth", "01", 7⟩],
    .block 6 ⟨⟨"6"⟩, ⟨[voteText]⟩⟩, .block 7 (Sample.block 7)]

theorem label_space_of_eth_vote :
    ∃ r : List MessageStep × ProcessingState, MessageRun Sample.codecs Sample.config r.1 r.2 ∧
      r.2.voteResults.count ⟨"chorus", "eth", .agreed⟩ = 1 ∧
      LabelSpace Sample.codecs Sample.config r.1 := by
  have hreplay : ∃ r ∈ replayMessages Sample.codecs Sample.config
        (Sample.pollMessages Sample.ethVote),
      carriedFrom IoResult.resultsPolls? [] r.1 ∧ carriedFrom IoResult.errorPolls? [] r.1 ∧
      (∀ x ∈ r.1, VotesOnKnownChains Sample.codecs Sample.config x) ∧
      r.2.voteResults.count ⟨"chorus", "eth", .agreed⟩ = 1 := by
    decide +kernel
  obtain ⟨r, hr, hresults, herrors, hvotes, hcount⟩ := hreplay
  have hrun := replayMessages_run Sample.codecs Sample.config hr
  exact ⟨r, hrun, hcount, ((label_space_iff hrun hresults).2 herrors).mpr hvotes⟩

/-- A vote that names another chain than its poll makes a series for it. -/
theorem stray_vote_adds_series :
    ∃ r : List MessageStep × ProcessingState, MessageRun Sample.codecs Sample.config r.1 r.2 ∧
      ResultsCarried r.1 ∧ ErrorsCarried r.1 ∧
      r.2.voteResults.get? ⟨"chorus", "bsc", .agreed⟩ = some 1 ∧
      r.2.chainParams.contains "bsc" = false ∧
      ¬ LabelSpace Sample.codecs Sample.config r.1 := by
  have hreplay : ∃ r ∈ replayMessages Sample.codecs Sample.config
        (Sample.pollMessages Sample.bscVote),
      carriedFrom IoResult.resultsPolls? [] r.1 ∧ carriedFrom IoResult.errorPolls? [] r.1 ∧
      r.2.voteResults.get? ⟨"chorus", "bsc", .agreed⟩ = some 1 ∧
      r.2.chainParams.contains "bsc" = false := by
    decide +kernel
  obtain ⟨r, hr, hresults, herrors, hseries, hunknown⟩ := hreplay
  have hrun := replayMessages_run Sample.codecs Sample.config hr
  refine ⟨r, hrun, hresults, herrors, hseries, hunknown, ?_⟩
  intro hspace
  have hexact := (label_space_closed_iff hrun).1 hspace ⟨"chorus", "bsc", .agreed⟩
  have hknown := (hexact.mp (OrderedMap.contains_iff.mpr ⟨1, hseries⟩)).2
  rw [hunknown] at hknown
  cases hknown

end AxelarMonitor
