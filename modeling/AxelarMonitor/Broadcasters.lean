import AxelarMonitor.Accounting
import AxelarMonitor.Lib.FifoMaps

/-!
The broadcasters of a configuration do not influence one another. Watching
many of them is watching each alone, and the order of the entries is
irrelevant, as long as no address belongs to two names.
-/

namespace AxelarMonitor

open FifoLoop

variable (cx : Codecs)

/-- The configuration with the entries of one name. -/
def Config.only (config : Config) (name : String) : Config :=
  { config with broadcaster := config.broadcaster.filter (fun b => b.name = name) }

/-- The series of one name. -/
def onlySeries (name : String) (m : OrderedMap VoteResult Nat) : OrderedMap VoteResult Nat :=
  m.retain (fun key _ => key.broadcaster = name)

def ProcessingState.only (name : String) (st : ProcessingState) : ProcessingState :=
  { st with voteResults := onlySeries name st.voteResults }

/-- No address is configured under two names. -/
def NamedOnce (config : Config) : Prop :=
  ∀ b ∈ config.broadcaster, ∀ b' ∈ config.broadcaster, b.address = b'.address → b.name = b'.name

instance (config : Config) : Decidable (NamedOnce config) :=
  inferInstanceAs (Decidable (∀ b ∈ config.broadcaster, ∀ b' ∈ config.broadcaster, _ → _))

variable {cx} {config : Config} {name : String}

theorem get?_onlySeries (m : OrderedMap VoteResult Nat) (key : VoteResult) :
    (onlySeries name m).get? key = if key.broadcaster = name then m.get? key else none := by
  rw [onlySeries, OrderedMap.get?_retain]
  cases m.get? key with
  | none => simp
  | some n => by_cases hkey : key.broadcaster = name <;> simp [hkey]

theorem lastOwner_only (hnamed : NamedOnce config) (address : String) :
    lastOwner (config.only name) address = some name ↔ lastOwner config address = some name := by
  have howner (config' : Config) (hsub : config'.broadcaster ⊆ config.broadcaster) :
      lastOwner config' address = some name ↔
        ∃ b ∈ config'.broadcaster, b.address = address ∧ b.name = name := by
    unfold lastOwner
    rw [Option.map_eq_some_iff]
    constructor
    · rintro ⟨b, hfind, hname⟩
      obtain ⟨hmem, haddress⟩ := OrderedMap.lastMatch_spec hfind
      exact ⟨b, hmem, haddress, hname⟩
    · rintro ⟨b, hmem, haddress, hname⟩
      obtain ⟨b', hfind⟩ :=
        OrderedMap.exists_lastMatch (fun b => b.address = address) hmem haddress
      obtain ⟨hmem', haddress'⟩ := OrderedMap.lastMatch_spec hfind
      refine ⟨b', hfind, ?_⟩
      rw [← hname]
      exact hnamed b' (hsub hmem') b (hsub hmem) (haddress'.trans haddress.symm)
  rw [howner _ (List.filter_sublist.subset), howner _ (List.Subset.refl _)]
  simp only [Config.only, List.mem_filter, decide_eq_true_eq]
  constructor
  · rintro ⟨b, ⟨hmem, -⟩, hb⟩
    exact ⟨b, hmem, hb⟩
  · rintro ⟨b, hmem, haddress, hname⟩
    exact ⟨b, ⟨hmem, hname⟩, haddress, hname⟩

theorem lastOwner_only_eq {address owner : String}
    (h : lastOwner (config.only name) address = some owner) : owner = name := by
  unfold lastOwner at h
  obtain ⟨b, hfind, rfl⟩ := Option.map_eq_some_iff.mp h
  have hmem := (OrderedMap.lastMatch_spec hfind).1
  exact of_decide_eq_true (List.mem_filter.mp hmem).2

/-- A poll adds to the series of a name what it adds when that name is watched
alone, and then to no other series. -/
theorem growth_only (hnamed : NamedOnce config) (poll : Poll) (leader : String)
    (key : VoteResult) :
    growth cx (config.only name) poll leader key =
      if key.broadcaster = name then growth cx config poll leader key else 0 := by
  obtain ⟨n, chain, result⟩ := key
  by_cases hname : n = name
  · subst hname
    simp only [if_true]
    cases result with
    | missed =>
        simp only [growth, ne_eq, lastOwner_only hnamed]
        congr 1
        simp only [Config.only, List.countP_filter]
        exact List.countP_congr (fun b _ => by simp)
    | _ => simp only [growth, lastOwner_only hnamed]
  · have hnobody (v : PollVote) : lastOwner (config.only name) v.senderId ≠ some n :=
      fun howner => hname (lastOwner_only_eq howner)
    have hnone : (config.only name).broadcaster.countP (fun b => decide (b.name = n)) = 0 := by
      rw [List.countP_eq_zero]
      intro b hb heq
      have hb' := of_decide_eq_true (List.mem_filter.mp hb).2
      exact hname ((of_decide_eq_true heq).symm.trans hb')
    cases result <;> simp [growth, hname, hnobody, hnone]

theorem analyze_only (hnamed : NamedOnce config) (poll : Poll) (m : OrderedMap VoteResult Nat) :
    analyzePollCompletion cx poll (config.only name) (onlySeries name m) =
      onlySeries name (analyzePollCompletion cx poll config m) := by
  obtain ⟨leader, hleader⟩ := exists_leader poll.votes
  apply OrderedMap.ext
  intro key
  rw [get?_onlySeries, get?_analyze cx hleader, get?_analyze cx hleader, growth_only hnamed,
    OrderedMap.count, get?_onlySeries]
  by_cases hname : key.broadcaster = name
  · simp only [hname, if_true]
    rfl
  · simp [hname]

theorem closing_only (hnamed : NamedOnce config) (polls : List Poll)
    (m : OrderedMap VoteResult Nat) :
    polls.foldl (fun m p => analyzePollCompletion cx p (config.only name) m) (onlySeries name m) =
      onlySeries name (polls.foldl (fun m p => analyzePollCompletion cx p config m) m) := by
  induction polls generalizing m with
  | nil => rfl
  | cons poll rest ih => rw [List.foldl_cons, List.foldl_cons, analyze_only hnamed, ih]

theorem expirePolls_only (hnamed : NamedOnce config) (height : Nat)
    (polls : OrderedMap Nat Poll) (st : ProcessingState) :
    expirePolls cx (config.only name) height polls (st.only name) =
      (expirePolls cx config height polls st).only name := by
  rw [expirePolls_eq, expirePolls_eq]
  simp only [ProcessingState.only, closing_only hnamed]

theorem mem_seriesOf_only {chains : List String} {key : VoteResult} :
    key ∈ seriesOf (config.only name).broadcaster chains ↔
      key.broadcaster = name ∧ key ∈ seriesOf config.broadcaster chains := by
  rw [mem_seriesOf, mem_seriesOf]
  simp only [Config.only, List.mem_filter, decide_eq_true_eq]
  constructor
  · rintro ⟨⟨b, ⟨hb, hname⟩, hkey⟩, hchain⟩
    exact ⟨hkey.symm.trans hname, ⟨b, hb, hkey⟩, hchain⟩
  · rintro ⟨hname, ⟨b, hb, hkey⟩, hchain⟩
    exact ⟨⟨b, ⟨hb, hkey.trans hname⟩, hkey⟩, hchain⟩

theorem processChainParams_only (q : ChainParams) (st : ProcessingState) :
    processChainParamsMessage cx q (st.only name) (config.only name) =
      (processChainParamsMessage cx q st config).only name := by
  have hresults : (processChainParamsMessage cx q (st.only name) (config.only name)).voteResults =
      onlySeries name (processChainParamsMessage cx q st config).voteResults := by
    apply OrderedMap.ext
    intro key
    rw [get?_onlySeries, processChainParams_voteResults, processChainParams_voteResults,
      OrderedMap.get?_foldl_orInsert, OrderedMap.get?_foldl_orInsert, ProcessingState.only,
      get?_onlySeries]
    simp only [mem_seriesOf_only]
    by_cases hname : key.broadcaster = name <;> simp [hname]
  exact congrArg (fun results => { processChainParamsMessage cx q st config with
    voteResults := results }) hresults

theorem processHead_only (height : Nat) (st : ProcessingState) :
    processHeadMessage height (st.only name) =
      ((processHeadMessage height st).1.only name, (processHeadMessage height st).2) := by
  rw [processHeadMessage_eq, processHeadMessage_eq]
  rfl

theorem processFetchError_only (height : Height) (retries : Nat) (st : ProcessingState) :
    processFetchErrorMessage height retries (st.only name) =
      ((processFetchErrorMessage height retries st).1.only name,
        (processFetchErrorMessage height retries st).2) := by
  cases height with
  | latest => rfl
  | specific h =>
      simp only [processFetchErrorMessage]
      split
      · rfl
      · rfl

theorem new_only :
    ProcessingState.new cx (config.only name) = (ProcessingState.new cx config).only name := by
  have hresults : configVoteResults cx (config.only name) =
      onlySeries name (configVoteResults cx config) := by
    apply OrderedMap.ext
    intro key
    rw [get?_onlySeries, configVoteResults_eq, configVoteResults_eq, OrderedMap.get?_foldl_insert,
      OrderedMap.get?_foldl_insert, OrderedMap.get?_empty]
    have hchains : (config.only name).chainParams = config.chainParams := rfl
    rw [hchains]
    simp only [mem_seriesOf_only]
    by_cases hname : key.broadcaster = name <;> simp [hname]
  exact congrArg (fun results => { ProcessingState.new cx config with
    voteResults := results }) hresults

/-- Handling commutes with looking at one name. -/
theorem monitor_only (hnamed : NamedOnce config) :
    (monitor cx config).Hom (monitor cx (config.only name)) (ProcessingState.only name) where
  feed_eq := rfl
  exec_eq _ _ := rfl
  handle_eq msg st := by
    simp only [monitor]
    cases msg with
    | block height b =>
        simp only [processSingleMessage, processBlockMessage, Option.map_map]
        apply Option.map_congr
        intro parsed _
        cases parsed with
        | ok data =>
            simp only [Function.comp_apply, ← expirePolls_only hnamed]
            rfl
        | error e =>
            simp only [Function.comp_apply, ← expirePolls_only hnamed]
            rfl
    | chainParams q =>
        simp only [processSingleMessage, Option.map_some, processChainParams_only]
    | fetchError height retries error =>
        simp only [processSingleMessage, processFetchError_only, Option.map_some]
    | head h => simp only [processSingleMessage, processHead_only, Option.map_some]
    | _ => rfl

/-- A run that watches many broadcasters looks, for each name, like the run that
watches this name alone, and each such run is one of these. -/
theorem watched_alone (hnamed : NamedOnce config) (name : String) :
    (∀ trace s, MonitorRun cx config trace s →
      MonitorRun cx (config.only name)
        (trace.map (Transition.map (ProcessingState.only name)))
        (s.map (ProcessingState.only name))) ∧
    ∀ trace s, MonitorRun cx (config.only name) trace s → ∃ trace' s',
      MonitorRun cx config trace' s' ∧
        trace = trace'.map (Transition.map (ProcessingState.only name)) ∧
        s = s'.map (ProcessingState.only name) := by
  have hhom : (monitor cx config).Hom (monitor cx (config.only name))
      (ProcessingState.only name) := monitor_only hnamed
  have hstart : startUp cx (config.only name) =
      (startUp cx config).map (ProcessingState.only name) := by
    unfold startUp
    rw [new_only]
    rfl
  constructor
  · intro trace s hrun
    have himage := hrun.map hhom
    rwa [← hstart] at himage
  · intro trace s hrun
    apply Run.lift hhom
    rwa [← hstart]

namespace Sample

/-- The broadcaster of the sample deployment and one that never votes. -/
def twoBroadcasters : Config :=
  { Sample.config with broadcaster := Sample.config.broadcaster ++ [⟨"00", "idle"⟩] }

end Sample

theorem voter_watched_alone :
    ∃ trace s, MonitorRun Sample.codecs (Sample.twoBroadcasters.only "chorus") trace s ∧
      s.state.voteResults.get? ⟨"chorus", "eth", .agreed⟩ = some 1 ∧
      s.state.voteResults.get? ⟨"idle", "eth", .missed⟩ = none := by
  have hreplay : ∃ r ∈ Sample.replay Sample.twoBroadcasters
      (Sample.openAndClose (Sample.block 6)),
      r.2.state.voteResults.get? ⟨"chorus", "eth", .agreed⟩ = some 1 ∧
      r.2.state.voteResults.get? ⟨"idle", "eth", .missed⟩ = some 1 := by
    decide +kernel
  obtain ⟨r, hrun, hagreed, -⟩ := Sample.run_of_replay hreplay
  have hnamed : NamedOnce Sample.twoBroadcasters := by decide +kernel
  refine ⟨_, _, (watched_alone hnamed "chorus").1 r.1 r.2 hrun, ?_, ?_⟩
  · exact (get?_onlySeries _ _).trans ((if_pos rfl).trans hagreed)
  · exact (get?_onlySeries _ _).trans (if_neg (by decide +kernel))

/-- The same entries in another order. -/
structure Reordered (cx : Codecs) (config config' : Config) : Prop where
  rpcUrl_eq : config'.rpcUrl = config.rpcUrl
  lcdUrl_eq : config'.lcdUrl = config.lcdUrl
  broadcasters : config.broadcaster.Perm config'.broadcaster
  chains : config.chainParams.Perm config'.chainParams
  addresses_nodup : (config.broadcaster.map Broadcaster.address).Nodup
  names_nodup : (config.chainParams.map (fun p => cx.toLowercase p.name)).Nodup

variable {config' : Config}

theorem lastOwner_eq_get? (config : Config) (address : String) :
    lastOwner config address = (senderToBroadcaster config).get? address := by
  unfold senderToBroadcaster lastOwner
  rw [OrderedMap.get?_ofList, ← List.map_reverse, List.find?_map, Option.map_map]
  rfl

namespace Reordered

theorem senderToBroadcaster_eq (h : Reordered cx config config') :
    senderToBroadcaster config' = senderToBroadcaster config := by
  unfold senderToBroadcaster
  apply Eq.symm
  apply OrderedMap.ofList_perm (h.broadcasters.map _)
  rw [List.map_map]
  exact h.addresses_nodup

theorem growth_eq (h : Reordered cx config config') (poll : Poll) (leader : String)
    (key : VoteResult) : growth cx config' poll leader key = growth cx config poll leader key := by
  obtain ⟨name, chain, result⟩ := key
  have hentries : config'.broadcaster.countP (fun b => decide (b.name = name)) =
      config.broadcaster.countP (fun b => decide (b.name = name)) :=
    (h.broadcasters.countP_eq _).symm
  cases result <;>
    simp only [growth, lastOwner_eq_get?, h.senderToBroadcaster_eq, hentries]

theorem analyze_eq (h : Reordered cx config config') (poll : Poll)
    (m : OrderedMap VoteResult Nat) :
    analyzePollCompletion cx poll config' m = analyzePollCompletion cx poll config m := by
  obtain ⟨leader, hleader⟩ := exists_leader poll.votes
  apply OrderedMap.ext
  intro key
  rw [get?_analyze cx hleader, get?_analyze cx hleader, h.growth_eq]

theorem mem_seriesOf_iff (h : Reordered cx config config') {chains : List String}
    {key : VoteResult} :
    key ∈ seriesOf config'.broadcaster chains ↔ key ∈ seriesOf config.broadcaster chains := by
  simp only [mem_seriesOf, h.broadcasters.mem_iff]

theorem new_eq (h : Reordered cx config config') :
    ProcessingState.new cx config' = ProcessingState.new cx config := by
  have hparams : configChainParams cx config' = configChainParams cx config := by
    have hofList (config : Config) : configChainParams cx config =
        .ofList (config.chainParams.map (fun p => (cx.toLowercase p.name, p))) := by
      rw [configChainParams, OrderedMap.ofList, List.foldl_map]
    rw [hofList, hofList]
    apply Eq.symm
    apply OrderedMap.ofList_perm (h.chains.map _)
    rw [List.map_map]
    exact h.names_nodup
  have hchain (c : String) : c ∈ config'.chainParams.map (fun p => cx.toLowercase p.name) ↔
      c ∈ config.chainParams.map (fun p => cx.toLowercase p.name) := (h.chains.map _).mem_iff.symm
  have hresults : configVoteResults cx config' = configVoteResults cx config := by
    apply OrderedMap.ext
    intro key
    rw [configVoteResults_eq, configVoteResults_eq, OrderedMap.get?_foldl_insert,
      OrderedMap.get?_foldl_insert]
    simp only [h.mem_seriesOf_iff]
    simp only [mem_seriesOf, hchain]
  simp only [ProcessingState.new, hparams, hresults]

theorem processSingleMessage_eq (h : Reordered cx config config') (msg : IoResult)
    (st : ProcessingState) :
    processSingleMessage cx msg st config' = processSingleMessage cx msg st config := by
  have hexpire (height : Nat) (polls : OrderedMap Nat Poll) (st : ProcessingState) :
      expirePolls cx config' height polls st = expirePolls cx config height polls st := by
    rw [expirePolls_eq, expirePolls_eq]
    simp only [h.analyze_eq]
  cases msg with
  | block height b => simp only [processSingleMessage, processBlockMessage, hexpire]
  | chainParams q =>
      have hresults : (processChainParamsMessage cx q st config').voteResults =
          (processChainParamsMessage cx q st config).voteResults := by
        apply OrderedMap.ext
        intro key
        rw [processChainParams_voteResults, processChainParams_voteResults,
          OrderedMap.get?_foldl_orInsert, OrderedMap.get?_foldl_orInsert]
        simp only [h.mem_seriesOf_iff]
      simp only [processSingleMessage]
      exact congrArg (fun results => some ({ processChainParamsMessage cx q st config with
        voteResults := results }, [])) hresults
  | _ => rfl

end Reordered

/-- With distinct addresses and distinct chains, the order of the entries in the
configuration file changes no run. -/
theorem entry_order_irrelevant (h : Reordered cx config config') (trace : Trace) (s : System) :
    MonitorRun cx config' trace s ↔ MonitorRun cx config trace s := by
  have hmonitor : monitor cx config' = monitor cx config := by
    unfold monitor
    simp only [h.processSingleMessage_eq, h.rpcUrl_eq, h.lcdUrl_eq]
  have hstart : startUp cx config' = startUp cx config := by
    unfold startUp
    rw [h.new_eq]
  unfold MonitorRun
  rw [hmonitor, hstart]

def Sample.swappedBroadcasters : Config :=
  { Sample.config with broadcaster := ⟨"00", "idle"⟩ :: Sample.config.broadcaster }

theorem swapped_entries_irrelevant :
    ∃ trace s, MonitorRun Sample.codecs Sample.swappedBroadcasters trace s ∧
      s.state.voteResults.get? ⟨"idle", "eth", .missed⟩ = some 1 := by
  have hreplay : ∃ r ∈ Sample.replay Sample.twoBroadcasters
      (Sample.openAndClose (Sample.block 6)),
      r.2.state.voteResults.get? ⟨"idle", "eth", .missed⟩ = some 1 := by
    decide +kernel
  obtain ⟨r, hrun, hmissed⟩ := Sample.run_of_replay hreplay
  have hreordered :
      Reordered Sample.codecs Sample.twoBroadcasters Sample.swappedBroadcasters :=
    ⟨rfl, rfl, List.Perm.swap _ _ _, List.Perm.refl _, by decide +kernel, by decide +kernel⟩
  exact ⟨r.1, r.2, (entry_order_irrelevant hreordered r.1 r.2).mpr hrun, hmissed⟩

end AxelarMonitor
