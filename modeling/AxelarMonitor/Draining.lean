import AxelarMonitor.ChainParameters
import AxelarMonitor.Isolation
import AxelarMonitor.Retries

/-!
The exchange drains. Each token is given a weight that covers all the work it
can still cause: the remaining heights up to the tip, the retries that are left
and the block results a block may ask for. Once the chain list is received no
token can cause itself again.
-/

namespace AxelarMonitor

open FifoLoop

variable {cx : Codecs} {config : Config}

/-- The weights for tips of at most `tip`. A block may start the fetch of its
results, of weight 8, and the fetch of the next block. -/
def drainWeights (tip : Nat) : Weights IoCommand IoResult where
  cmd
    | .fetchBlock (.specific h) retries =>
        2 * (maxFetchRetries - retries) + 10 + 16 * (tip - h)
    | .fetchBlock .latest _ => 10 + 16 * tip
    | .fetchBlockResults _ _ retries => 2 * (maxFetchRetries - retries) + 2
    | .fetchChainList => 0
    | .fetchChainParams _ => 2
    | .fetchHead => 18 + 16 * tip
  result
    | .block h _ => 9 + 16 * (tip - h)
    | .blockResults _ _ _ => 1
    | .fetchError (.specific h) retries _ =>
        2 * (maxFetchRetries - retries) + 9 + 16 * (tip - h)
    | .fetchError .latest _ _ => 1
    | .fetchBlockResultsError _ _ retries _ => 2 * (maxFetchRetries - retries) + 1
    | .chainList chains => 1 + 2 * chains.length
    | .fetchChainListError _ => 0
    | .chainParams _ => 1
    | .head _ => 17 + 16 * tip

/-- The tips are bounded and the chain list is not being fetched any more. -/
structure Quiet (tip : Nat) (s : System) : Prop where
  chainTip_le : s.state.chainTip ≤ tip
  heads_le : ∀ h, .head h ∈ s.results → h ≤ tip
  no_fetch : .fetchChainList ∉ s.cmds
  no_error : ∀ error, .fetchChainListError error ∉ s.results

theorem fetchAfter_weight {tip bound h : Nat} (htip : tip ≤ bound) :
    ((fetchAfter tip h).map (drainWeights bound).cmd).sum ≤ 16 * (bound - h) := by
  unfold fetchAfter
  split
  · simp only [drainWeights, maxFetchRetries, List.map_cons, List.map_nil, List.sum_cons,
      List.sum_nil]
    omega
  · simp

theorem bundleFor_weight (tip h : Nat) (data : RawBlockData) :
    ((bundleFor h data).map (drainWeights tip).cmd).sum ≤ 8 := by
  unfold bundleFor
  split <;> simp [drainWeights, maxFetchRetries]

theorem paramFetches_weight (tip : Nat) (chains : List String) :
    ((chains.map IoCommand.fetchChainParams).map (drainWeights tip).cmd).sum =
      2 * chains.length := by
  induction chains with
  | nil => rfl
  | cons c rest ih =>
      simp only [List.map_cons, List.sum_cons, List.length_cons, ih]
      simp only [drainWeights]
      omega

/-- The commands issued for a message weigh less than the message. -/
theorem Handles.pays {tip : Nat} {st st' : ProcessingState} {msg : IoResult}
    {out : List IoCommand} (h : Handles cx config st msg st' out) (htip : st.chainTip ≤ tip)
    (herror : ∀ error, msg ≠ .fetchChainListError error) :
    (drainWeights tip).Pays (.handled msg out) := by
  cases h with
  | retryChainList error => exact absurd rfl (herror error)
  | retryBlock h retries error hretry =>
      simp only [Weights.Pays, drainWeights, maxFetchRetries, List.map_cons, List.map_nil,
        List.sum_cons, List.sum_nil] at hretry ⊢
      omega
  | skipBlock h retries error hgiveup =>
      have hnext := @fetchAfter_weight st.chainTip tip h htip
      simp only [Weights.Pays, drainWeights] at hnext ⊢
      omega
  | retryResults height polls retries error hretry =>
      simp only [Weights.Pays, drainWeights, maxFetchRetries, List.map_cons, List.map_nil,
        List.sum_cons, List.sum_nil] at hretry ⊢
      omega
  | chainList chains =>
      simp only [Weights.Pays, paramFetches_weight]
      simp only [drainWeights]
      omega
  | block height block data hdata =>
      have hnext := @fetchAfter_weight st.chainTip tip height htip
      have hbundle := bundleFor_weight tip height data
      simp only [Weights.Pays, List.map_append, List.sum_append]
      simp only [drainWeights] at hnext hbundle ⊢
      omega
  | firstHead height hsentinel =>
      simp only [Weights.Pays, drainWeights, maxFetchRetries, List.map_cons, List.map_nil,
        List.sum_cons, List.sum_nil]
      omega
  | nextHead height hstarted hahead hcaughtUp =>
      simp only [Weights.Pays, drainWeights, maxFetchRetries, List.map_cons, List.map_nil,
        List.sum_cons, List.sum_nil]
      omega
  | _ => simp [Weights.Pays, drainWeights]

/-- An answer weighs less than its command. -/
theorem Answers.pays {tip : Nat} {cmd : IoCommand} {out : List IoResult}
    (h : Answers cmd out) (hhonest : requestedHeight (.answered cmd out))
    (hlist : cmd ≠ .fetchChainList) : (drainWeights tip).Pays (.answered cmd out) := by
  cases h with
  | chainList chains => exact absurd rfl hlist
  | chainListFailed error => exact absurd rfl hlist
  | block height retries n b =>
      cases height with
      | latest =>
          simp only [Weights.Pays, drainWeights, List.map_cons, List.map_nil, List.sum_cons,
            List.sum_nil]
          omega
      | specific m =>
          obtain rfl : n = m := of_decide_eq_true hhonest
          simp only [Weights.Pays, drainWeights, List.map_cons, List.map_nil, List.sum_cons,
            List.sum_nil]
          omega
  | blockFailed height retries error =>
      cases height with
      | latest =>
          simp only [Weights.Pays, drainWeights, List.map_cons, List.map_nil, List.sum_cons,
            List.sum_nil]
          omega
      | specific m =>
          simp only [Weights.Pays, drainWeights, List.map_cons, List.map_nil, List.sum_cons,
            List.sum_nil]
          omega
  | results height polls retries results =>
      simp only [Weights.Pays, drainWeights, List.map_cons, List.map_nil, List.sum_cons,
        List.sum_nil]
      omega
  | resultsFailed height polls retries error =>
      simp only [Weights.Pays, drainWeights, List.map_cons, List.map_nil, List.sum_cons,
        List.sum_nil]
      omega
  | _ => simp [Weights.Pays, drainWeights]

theorem Handles.chainTip_eq {st st' : ProcessingState} {msg : IoResult} {out : List IoCommand}
    (h : Handles cx config st msg st' out) :
    st'.chainTip = st.chainTip ∨ msg = .head st'.chainTip := by
  cases h with
  | firstHead height hsentinel => exact Or.inr rfl
  | nextHead height hstarted hahead hcaughtUp => exact Or.inr rfl
  | moveTip height hstarted hidle => exact Or.inr rfl
  | _ => exact Or.inl rfl

theorem Handles.fetchChainList_issued {st st' : ProcessingState} {msg : IoResult}
    {out : List IoCommand} (h : Handles cx config st msg st' out)
    (hmem : .fetchChainList ∈ out) : ∃ error, msg = .fetchChainListError error := by
  cases h with
  | retryChainList error => exact ⟨error, rfl⟩
  | skipBlock h retries error hgiveup => cases mem_fetchAfter hmem
  | block height block data hdata =>
      rcases List.mem_append.mp hmem with hmem | hmem
      · cases mem_bundleFor hmem
      · cases mem_fetchAfter hmem
  | _ => simp at hmem

theorem Quiet.step {tip : Nat} {s t : System} {e : Event IoCommand IoResult}
    (hquiet : Quiet tip s) (hstep : Step (monitor cx config) s e t)
    (hheads : ∀ cmd out, e = .answered cmd out → ∀ h, .head h ∈ out → h ≤ tip) :
    Quiet tip t := by
  obtain ⟨htip, hresults, hfetch, herror⟩ := hquiet
  cases e with
  | fed =>
      cases hstep
      refine ⟨htip, hresults, ?_, herror⟩
      simpa [monitor] using hfetch
  | answered cmd out =>
      have hanswers := step_answers hstep
      cases hstep with
      | answer env st cmd cmds results out hexec =>
          refine ⟨htip, ?_, ?_, ?_⟩
          · intro h hmem
            rcases List.mem_append.mp hmem with hold | hnew
            · exact hresults h hold
            · exact hheads cmd out rfl h hnew
          · intro hmem
            exact hfetch (List.mem_cons_of_mem _ hmem)
          · intro error hmem
            rcases List.mem_append.mp hmem with hold | hnew
            · exact herror error hold
            · cases hanswers with
              | chainListFailed _ => exact hfetch List.mem_cons_self
              | _ => simp at hnew
  | handled msg out =>
      have hhandles := step_handles hstep
      cases hstep with
      | handle st st' msg cmds out results hhandle =>
          refine ⟨?_, ?_, ?_, ?_⟩
          · rcases hhandles.chainTip_eq with hsame | rfl
            · exact hsame.trans_le htip
            · exact hresults _ List.mem_cons_self
          · intro h hmem
            exact hresults h (List.mem_cons_of_mem _ hmem)
          · intro hmem
            rcases List.mem_append.mp hmem with hold | hnew
            · exact hfetch hold
            · obtain ⟨error, rfl⟩ := hhandles.fetchChainList_issued hnew
              exact herror error List.mem_cons_self
          · intro error hmem
            exact herror error (List.mem_cons_of_mem _ hmem)

theorem Quiet.pays {tip : Nat} {s t : System} {e : Event IoCommand IoResult}
    (hquiet : Quiet tip s) (hstep : Step (monitor cx config) s e t)
    (hhonest : requestedHeight e) : (drainWeights tip).Pays e := by
  cases e with
  | fed => trivial
  | answered cmd out =>
      apply (step_answers hstep).pays hhonest
      rintro rfl
      apply hquiet.no_fetch
      cases hstep
      exact List.mem_cons_self
  | handled msg out =>
      apply (step_handles hstep).pays hquiet.chainTip_le
      rintro error rfl
      apply hquiet.no_error error
      cases hstep
      exact List.mem_cons_self

theorem Quiet.run {tip : Nat} {s t : System} {trace : Trace} (hquiet : Quiet tip s)
    (hrun : Run (monitor cx config) s trace t) (hhonest : HonestHeights trace)
    (hheads : ∀ h ∈ fetchedHeads trace, h ≤ tip) :
    Quiet tip t ∧ ∀ x ∈ trace, (drainWeights tip).Pays x.event := by
  induction hrun with
  | nil => exact ⟨hquiet, by simp⟩
  | @snoc trace u e t hrun hstep ih =>
      have hfetched : fetchedHeads (trace ++ [⟨u, e⟩]) = fetchedHeads trace ++
          (e.answer?.toList.flatMap Prod.snd).filterMap IoResult.head? := by
        simp [fetchedHeads]
      rw [hfetched] at hheads
      obtain ⟨hquiet', hpays⟩ := ih (fun x hx => hhonest x (List.mem_append_left _ hx))
        (fun h hh => hheads h (List.mem_append_left _ hh))
      constructor
      · apply hquiet'.step hstep
        rintro cmd out rfl h hmem
        apply hheads h
        apply List.mem_append_right
        simp only [answer?_answered, Option.toList_some, List.flatMap_singleton]
        exact List.mem_filterMap.mpr ⟨.head h, hmem, rfl⟩
      · intro x hx
        rcases List.mem_append.mp hx with hold | hnew
        · exact hpays x hold
        · obtain rfl := List.mem_singleton.mp hnew
          exact hquiet'.pays hstep (hhonest _ hx)

def IoResult.isListError : IoResult → Bool
  | .fetchChainListError _ => true
  | _ => false

theorem listToken_length (results : List IoResult) :
    (results.filterMap IoResult.listToken?).length =
      results.countP IoResult.isChainList + results.countP IoResult.isListError := by
  induction results with
  | nil => rfl
  | cons msg rest ih =>
      rw [List.filterMap_cons, List.countP_cons, List.countP_cons]
      cases msg <;>
        simp only [IoResult.listToken?, IoResult.isChainList, IoResult.isListError,
          List.length_cons, if_true, Bool.false_eq_true, if_false] <;> omega

/-- A received chain list is the end of the attempts to fetch it. -/
theorem quiet_of_received {trace : Trace} {s : System} (hrun : MonitorRun cx config trace s)
    (hlist : ∃ chains, .chainList chains ∈ (answers trace).flatMap Prod.snd) {tip : Nat}
    (htip : s.state.chainTip ≤ tip) (hheads : ∀ h, .head h ∈ s.results → h ≤ tip) :
    Quiet tip s := by
  obtain ⟨chains, hmem⟩ := hlist
  have hfifo := hrun.handled_append_results
  rw [show (startUp cx config).results = [] from rfl, List.nil_append] at hfifo
  rw [← hfifo] at hmem
  have hpos : 0 < (handledMsgs trace ++ s.results).countP IoResult.isChainList :=
    List.countP_pos_iff.mpr ⟨.chainList chains, hmem, rfl⟩
  have hone := run_listToken hrun
  rw [List.countP_append] at hpos
  simp only [Probe.view, listProbe, List.length_append, listToken_length] at hone
  refine ⟨htip, hheads, ?_, ?_⟩
  · intro hfetch
    have htoken : () ∈ s.cmds.filterMap IoCommand.listToken? :=
      List.mem_filterMap.mpr ⟨.fetchChainList, hfetch, rfl⟩
    have := List.length_pos_of_mem htoken
    omega
  · intro error herror
    have : 0 < s.results.countP IoResult.isListError :=
      List.countP_pos_iff.mpr ⟨.fetchChainListError error, herror, rfl⟩
    omega

/-- Unless the processing thread panics on a block, a configuration in which
neither thread can move has empty queues. -/
theorem drained_of_stuck {t : System}
    (hstuck : ∀ e u, e ≠ .fed → ¬ Step (monitor cx config) t e u) :
    t.cmds = [] ∧ (t.results = [] ∨
      ∃ h b rest, t.results = .block h b :: rest ∧ blockRequests cx b = none) := by
  obtain ⟨st, cmds, results⟩ := t
  constructor
  · cases cmds with
    | nil => rfl
    | cons cmd rest =>
        exfalso
        have hfails : ∃ out, (monitor cx config).exec (fun _ => .error "") cmd = some out := by
          cases cmd <;> exact ⟨_, rfl⟩
        obtain ⟨out, hexec⟩ := hfails
        exact hstuck (.answered cmd out) _ (by simp)
          (.answer (fun _ => .error "") st cmd rest results out hexec)
  · cases results with
    | nil => exact Or.inl rfl
    | cons msg rest =>
        right
        have hpanic : processSingleMessage cx msg st config = none := by
          cases hmsg : processSingleMessage cx msg st config with
          | none => rfl
          | some r =>
              exfalso
              exact hstuck (.handled msg r.2) _ (by simp)
                (.handle st r.1 msg cmds r.2 rest hmsg)
        cases msg with
        | block h b =>
            refine ⟨h, b, rest, rfl, ?_⟩
            simpa [processSingleMessage, processBlockMessage, processBlock_eq] using hpanic
        | _ => cases hpanic

theorem heads_bounded (results : List IoResult) :
    ∃ top, ∀ h, .head h ∈ results → h ≤ top := by
  induction results with
  | nil => exact ⟨0, by simp⟩
  | cons msg rest ih =>
      obtain ⟨top, htop⟩ := ih
      refine ⟨max top (msg.head?.getD 0), ?_⟩
      intro h hmem
      rcases List.mem_cons.mp hmem with rfl | hlater
      · exact le_max_right _ _
      · exact (htop h hlater).trans (le_max_left _ _)

/-- Once the chain list is received the exchange drains: with at most `n` more
head fetches, all of heights up to `H`, the number of steps is bounded, and a
configuration without a further step has empty queues. Before that, every fetch
of a block or of block results is attempted a bounded number of times. -/
theorem exchange_drains {trace : Trace} {s : System} (hrun : MonitorRun cx config trace s) :
    ((∃ chains, .chainList chains ∈ (answers trace).flatMap Prod.snd) → ∀ n H, ∃ N,
      ∀ more t, Run (monitor cx config) s more t → HonestHeights more → feeds more ≤ n →
        (∀ h ∈ fetchedHeads more, h ≤ H) →
          more.length ≤ N ∧
            ((∀ e u, e ≠ .fed → ¬ Step (monitor cx config) t e u) →
              t.cmds = [] ∧ (t.results = [] ∨
                ∃ h b rest, t.results = .block h b :: rest ∧ blockRequests cx b = none))) ∧
      ∀ h, RetriesBounded (fun r => .fetchBlock (.specific h) r) (IoResult.isFetchError h) trace ∧
        ∀ polls, RetriesBounded (fun r => .fetchBlockResults h polls r)
          (IoResult.isBundleError h polls) trace := by
  refine ⟨?_, retries_bounded hrun⟩
  intro hlist n H
  -- a bound on every tip the monitor has, is about to handle or can still fetch
  obtain ⟨top, htop⟩ := heads_bounded s.results
  have hquiet : Quiet (max H (max s.state.chainTip top)) s := by
    apply quiet_of_received hrun hlist
    · omega
    · intro h hmem
      have := htop h hmem
      omega
  let w := drainWeights (max H (max s.state.chainTip top))
  refine ⟨w.load s + n * (w.cmd .fetchHead + 1), ?_⟩
  intro more t hmore hhonest hfeeds hheads
  refine ⟨?_, drained_of_stuck⟩
  have hpays := (hquiet.run hmore hhonest (fun h hh => (hheads h hh).trans (le_max_left _ _))).2
  have hlength := hmore.length_add_load_le w hpays
  have hfed : feeds more * (w.cmd .fetchHead + 1) ≤ n * (w.cmd .fetchHead + 1) :=
    Nat.mul_le_mul_right _ hfeeds
  have hfeed : (monitor cx config).feed = .fetchHead := rfl
  rw [hfeed] at hlength
  omega

theorem exchange_drains_after_catchUp :
    ∃ r : Trace × System, MonitorRun Sample.codecs Sample.config r.1 r.2 ∧ ∃ N,
      ∀ more t, Run (monitor Sample.codecs Sample.config) r.2 more t → HonestHeights more →
        feeds more ≤ 3 → (∀ h ∈ fetchedHeads more, h ≤ 9) → more.length ≤ N := by
  have hreplay : ∃ r ∈ Sample.replay Sample.config Sample.catchUp,
      .chainList ["eth"] ∈ (answers r.1).flatMap Prod.snd := by
    decide +kernel
  obtain ⟨r, hrun, hlist⟩ := Sample.run_of_replay hreplay
  obtain ⟨N, hN⟩ := (exchange_drains hrun).1 ⟨["eth"], hlist⟩ 3 9
  refine ⟨r, hrun, N, ?_⟩
  intro more t hmore hhonest hfeeds hheads
  exact (hN more t hmore hhonest hfeeds hheads).1

/-- Head 5 is followed by a block 5 that the processing thread cannot decode, and
by head 6. -/
def Sample.cutOffRun : List (Action Http) :=
  [.feed, serves chainListJson, servesBlock 5, .handle, .handle, serves chainParamsJson,
    serves (blockJson cutOffBlock), .handle, .feed, servesBlock 6]

/-- The chain list is received, nothing more is fed, and the two threads stop
with results left in the queue. -/
theorem undecodable_request_halts :
    ∃ r : Trace × System, MonitorRun Sample.cutOffCodecs Sample.config r.1 r.2 ∧
      HonestHeights r.1 ∧ (∃ chains, .chainList chains ∈ (answers r.1).flatMap Prod.snd) ∧
      r.2.results = [.block 5 Sample.cutOffBlock, .head 6] ∧
      ∀ e u, e ≠ .fed → ¬ Step (monitor Sample.cutOffCodecs Sample.config) r.2 e u := by
  have hreplay : ∃ r ∈ (monitor Sample.cutOffCodecs Sample.config).replay
      (startUp Sample.cutOffCodecs Sample.config) Sample.cutOffRun, HonestHeights r.1 ∧
      .chainList ["eth"] ∈ (answers r.1).flatMap Prod.snd ∧ r.2.cmds = [] ∧
      r.2.results = [.block 5 Sample.cutOffBlock, .head 6] := by
    decide +kernel
  have hpanic : blockRequests Sample.cutOffCodecs Sample.cutOffBlock = none := by
    decide +kernel
  obtain ⟨⟨trace, st, cmds, results⟩, hr, hhonest, hlist, hcmds, hresults⟩ := hreplay
  subst hcmds hresults
  refine ⟨_, replay_run hr, hhonest, ⟨["eth"], hlist⟩, rfl, ?_⟩
  intro e u hfed hstep
  cases hstep with
  | feed => exact hfed rfl
  | handle _ _ _ _ _ _ hhandle =>
      simp [monitor, processSingleMessage, processBlockMessage, processBlock_eq, hpanic] at hhandle

end AxelarMonitor
