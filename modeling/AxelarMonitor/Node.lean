import AxelarMonitor.Draining
import AxelarMonitor.Sequential
import AxelarMonitor.Texts

/-!
The monitor in front of a node. The node holds one chain that only grows; it
may leave any request unanswered, and what it does serve is that chain. The
assumptions that the other modules make on the answers of a run are then facts,
and what the monitor comes to rest with depends on the chain alone.
-/

namespace AxelarMonitor

open FifoLoop

/-- A chain with its blocks, the results of their execution and the chains
that it confirms transactions of. Each header carries its height. -/
structure Node where
  block : Nat → Block
  results : Nat → BlockResults
  chains : List String
  params : String → ChainParamsJson
  height_eq : ∀ h, (block h).header.height = toString h

section Documents

variable (cx : Codecs) (config : Config) (node : Node)

/-- Whatever `http` serves at the monitor's URLs is a document of the node while
its last block is at `tip`. Errors and unreadable documents may come at any
time. -/
structure Serves (tip : Nat) (http : Http) : Prop where
  latest : ∀ body b, http (config.rpcUrl ++ "/cosmos/base/tendermint/v1beta1/blocks/latest") =
    .ok body → parseBlock cx body = .ok b → b = node.block tip
  block : ∀ h body b, http (config.rpcUrl ++ "/cosmos/base/tendermint/v1beta1/blocks/" ++
    toString h) = .ok body → parseBlock cx body = .ok b → b = node.block h
  results : ∀ h body r, http (config.lcdUrl ++ "/block_results?height=" ++ toString h) =
    .ok body → cx.jsonBlockResultsResponse body = .ok r → r.result = node.results h
  chains : ∀ body r, http (config.rpcUrl ++ "/axelar/evm/v1beta1/chains") = .ok body →
    cx.jsonChainListResponse body = .ok r → r.chains = node.chains
  params : ∀ c body r, http (config.rpcUrl ++ "/axelar/evm/v1beta1/params/" ++ c) = .ok body →
    cx.jsonChainParamsResponse body = .ok r → r.params = node.params c

/-- The answers of the IO thread in front of the node. -/
inductive NodeAnswers (tip : Nat) : IoCommand → List IoResult → Prop
  | block (h retries : Nat) :
      NodeAnswers tip (.fetchBlock (.specific h) retries) [.block h (node.block h)]
  | latest (retries : Nat) :
      NodeAnswers tip (.fetchBlock .latest retries) [.block tip (node.block tip)]
  | blockFailed (height : Height) (retries : Nat) (error : String) :
      NodeAnswers tip (.fetchBlock height retries) [.fetchError height retries error]
  | results (h : Nat) (polls : List PollData) (retries : Nat) :
      NodeAnswers tip (.fetchBlockResults h polls retries)
        [.blockResults h (node.results h) polls]
  | resultsFailed (h : Nat) (polls : List PollData) (retries : Nat) (error : String) :
      NodeAnswers tip (.fetchBlockResults h polls retries)
        [.fetchBlockResultsError h polls retries error]
  | chainList : NodeAnswers tip .fetchChainList [.chainList node.chains]
  | chainListFailed (error : String) :
      NodeAnswers tip .fetchChainList [.fetchChainListError error]
  | head : NodeAnswers tip .fetchHead [.head tip]
  | headFailed : NodeAnswers tip .fetchHead []
  | chainParams (c : String) (q : ChainParams) (hinto : (node.params c).into = some q) :
      NodeAnswers tip (.fetchChainParams c) [.chainParams q]
  | chainParamsFailed (c : String) : NodeAnswers tip (.fetchChainParams c) []

/-- The monitor with an IO thread that only reaches the node. -/
def facing (tip : Nat) :
    Machine ProcessingState IoCommand IoResult { http // Serves cx config node tip http } where
  feed := (monitor cx config).feed
  exec http := (monitor cx config).exec http.1
  handle := (monitor cx config).handle

/-- A run in front of the node, whose chain has at least two blocks from the start
on and may grow between any two steps. -/
inductive Faces : Nat → Trace → System → Prop
  | nil (tip : Nat) (htwo : 2 ≤ tip) : Faces tip [] (startUp cx config)
  | grow {tip tip' trace s} (hrun : Faces tip trace s) (hle : tip ≤ tip') : Faces tip' trace s
  | snoc {tip trace s e t} (hrun : Faces tip trace s)
      (hstep : Step (facing cx config node tip) s e t) : Faces tip (trace ++ [⟨s, e⟩]) t

end Documents

section Facing

variable {cx : Codecs} {config : Config} {node : Node}

/-- A chain of fallible steps that comes to a result has one at each step. -/
theorem exists_of_bind {α β : Type} {first : Except String α} {next : α → Except String β}
    {r : β} (h : first.bind next = .ok r) : ∃ a, first = .ok a ∧ next a = .ok r := by
  cases hfirst : first with
  | error e => simp [hfirst, Except.bind] at h
  | ok a =>
      rw [hfirst] at h
      exact ⟨a, rfl, h⟩

theorem Serves.getBlock_specific {tip : Nat} {http : Http}
    (hserves : Serves cx config node tip http) {h k : Nat} {b : Block}
    (hget : getBlock cx http config.rpcUrl (.specific h) = .ok (b, k)) :
    b = node.block h ∧ k = h := by
  obtain ⟨body, hbody, hget⟩ := exists_of_bind hget
  obtain ⟨b', hparse, hget⟩ := exists_of_bind hget
  obtain ⟨k', hheight, hget⟩ := exists_of_bind hget
  cases hget
  obtain rfl := hserves.block h body b hbody hparse
  rw [node.height_eq] at hheight
  exact ⟨rfl, parseU64_toString hheight⟩

theorem Serves.getBlock_latest {tip : Nat} {http : Http} (hserves : Serves cx config node tip http)
    {k : Nat} {b : Block} (hget : getBlock cx http config.rpcUrl .latest = .ok (b, k)) :
    b = node.block tip ∧ k = tip := by
  obtain ⟨body, hbody, hget⟩ := exists_of_bind hget
  obtain ⟨b', hparse, hget⟩ := exists_of_bind hget
  obtain ⟨k', hheight, hget⟩ := exists_of_bind hget
  cases hget
  rw [String.append_assoc] at hbody
  obtain rfl := hserves.latest body b hbody hparse
  rw [node.height_eq] at hheight
  exact ⟨rfl, parseU64_toString hheight⟩

theorem Serves.getHead {tip : Nat} {http : Http} (hserves : Serves cx config node tip http)
    {k : Nat} (hget : getHead cx http config.rpcUrl = .ok k) : k = tip := by
  obtain ⟨body, hbody, hget⟩ := exists_of_bind hget
  obtain ⟨b, hparse, hget⟩ := exists_of_bind hget
  obtain rfl := hserves.latest body b hbody hparse
  rw [node.height_eq] at hget
  exact parseU64_toString hget

theorem Serves.answers {tip : Nat} {http : Http} (hserves : Serves cx config node tip http)
    {cmd : IoCommand} {out : List IoResult} (hexec : (monitor cx config).exec http cmd = some out) :
    NodeAnswers node tip cmd out := by
  cases cmd with
  | fetchBlock height retries =>
      simp only [monitor, processSingleIoCommand] at hexec
      split at hexec <;> cases hexec
      · next b k hget =>
        cases height with
        | latest =>
            obtain ⟨rfl, rfl⟩ := hserves.getBlock_latest hget
            exact .latest retries
        | specific h =>
            obtain ⟨rfl, rfl⟩ := hserves.getBlock_specific hget
            exact .block k retries
      · exact .blockFailed ..
  | fetchBlockResults h polls retries =>
      simp only [monitor, processSingleIoCommand] at hexec
      split at hexec <;> cases hexec
      · next results hget =>
        obtain ⟨body, hbody, hget⟩ := exists_of_bind hget
        obtain ⟨r, hparse, hget⟩ := exists_of_bind hget
        cases hget
        rw [hserves.results h body r hbody hparse]
        exact .results ..
      · exact .resultsFailed ..
  | fetchChainList =>
      simp only [monitor, processSingleIoCommand] at hexec
      split at hexec <;> cases hexec
      · next chains hget =>
        obtain ⟨body, hbody, hget⟩ := exists_of_bind hget
        obtain ⟨r, hparse, hget⟩ := exists_of_bind hget
        cases hget
        rw [hserves.chains body r hbody hparse]
        exact .chainList
      · exact .chainListFailed ..
  | fetchHead =>
      simp only [monitor, processSingleIoCommand] at hexec
      split at hexec <;> cases hexec
      · next k hget =>
        obtain rfl := hserves.getHead hget
        exact .head
      · exact .headFailed
  | fetchChainParams c =>
      simp only [monitor, processSingleIoCommand] at hexec
      split at hexec
      · next params hget =>
        obtain ⟨body, hbody, hget⟩ := exists_of_bind hget
        obtain ⟨r, hparse, hget⟩ := exists_of_bind hget
        cases hget
        obtain ⟨q, hinto, rfl⟩ := Option.map_eq_some_iff.mp hexec
        rw [hserves.params c body r hbody hparse] at hinto
        exact .chainParams c q hinto
      · cases hexec
        exact .chainParamsFailed c

theorem facing_step {tip : Nat} {s t : System} {e : Event IoCommand IoResult}
    (h : Step (facing cx config node tip) s e t) : Step (monitor cx config) s e t := by
  cases h with
  | feed => exact .feed ..
  | answer env st cmd cmds results out hexec => exact .answer env.1 st cmd cmds results out hexec
  | handle st st' msg cmds out results hhandle => exact .handle st st' msg cmds out results hhandle

theorem facing_answers {tip : Nat} {s t : System} {cmd : IoCommand} {out : List IoResult}
    (h : Step (facing cx config node tip) s (.answered cmd out) t) :
    NodeAnswers node tip cmd out := by
  obtain ⟨env, hexec⟩ := h.exec_eq
  exact env.2.answers hexec

theorem Faces.run {tip : Nat} {trace : Trace} {s : System}
    (h : Faces cx config node tip trace s) : MonitorRun cx config trace s := by
  induction h with
  | nil tip htwo => exact .nil
  | grow hrun hle ih => exact ih
  | snoc hrun hstep ih => exact ih.snoc (facing_step hstep)

theorem Faces.append {tip : Nat} {trace more : Trace} {s t : System}
    (h : Faces cx config node tip trace s) (hmore : Run (facing cx config node tip) s more t) :
    Faces cx config node tip (trace ++ more) t := by
  induction hmore with
  | nil => simpa using h
  | snoc hrun hstep ih =>
      rw [← List.append_assoc]
      exact ih.snoc hstep

/-- Every answer of the run was the node's at some time. -/
theorem Faces.answered {tip : Nat} {trace : Trace} {s : System}
    (h : Faces cx config node tip trace s) :
    ∀ x ∈ trace, ∀ cmd out, x.event = .answered cmd out →
      ∃ tip', NodeAnswers node tip' cmd out := by
  induction h with
  | nil tip htwo => simp
  | grow hrun hle ih => exact ih
  | @snoc tip trace s e t hrun hstep ih =>
      intro x hx cmd out hevent
      rcases List.mem_append.mp hx with hold | hnew
      · exact ih x hold cmd out hevent
      · obtain rfl := List.mem_singleton.mp hnew
        obtain rfl : e = .answered cmd out := hevent
        exact ⟨tip, facing_answers hstep⟩

theorem fetchedHeads_snoc (trace : Trace) (x : Transition ProcessingState IoCommand IoResult) :
    fetchedHeads (trace ++ [x]) = fetchedHeads trace ++
      (x.event.answer?.toList.flatMap Prod.snd).filterMap IoResult.head? := by
  simp [fetchedHeads]

theorem NodeAnswers.heads {tip : Nat} {cmd : IoCommand} {out : List IoResult}
    (h : NodeAnswers node tip cmd out) : ∀ k ∈ out.filterMap IoResult.head?, k = tip := by
  cases h <;> simp [IoResult.head?]

/-- The heads follow the growth of the chain. -/
theorem Faces.heads {tip : Nat} {trace : Trace} {s : System}
    (h : Faces cx config node tip trace s) :
    2 ≤ tip ∧ (fetchedHeads trace).Pairwise (· ≤ ·) ∧
      ∀ k ∈ fetchedHeads trace, 2 ≤ k ∧ k ≤ tip := by
  induction h with
  | nil tip htwo => exact ⟨htwo, List.Pairwise.nil, by simp [fetchedHeads]⟩
  | grow hrun hle ih =>
      obtain ⟨htwo, hsorted, hbounds⟩ := ih
      exact ⟨htwo.trans hle, hsorted, fun k hk => ⟨(hbounds k hk).1, (hbounds k hk).2.trans hle⟩⟩
  | @snoc tip trace s e t hrun hstep ih =>
      obtain ⟨htwo, hsorted, hbounds⟩ := ih
      have hnew : ∀ k ∈ (e.answer?.toList.flatMap Prod.snd).filterMap IoResult.head?,
          k = tip := by
        cases e with
        | answered cmd out => simpa using (facing_answers hstep).heads
        | _ => simp
      rw [fetchedHeads_snoc]
      refine ⟨htwo, List.pairwise_append.mpr ⟨hsorted, ?_, ?_⟩, ?_⟩
      · apply List.pairwise_of_forall_mem_list
        intro k hk n hn
        rw [hnew k hk, hnew n hn]
      · intro k hk n hn
        rw [hnew n hn]
        exact (hbounds k hk).2
      · intro k hk
        rcases List.mem_append.mp hk with hold | hlast
        · exact hbounds k hold
        · obtain rfl := hnew k hlast
          exact ⟨htwo, Nat.le_refl k⟩

theorem Faces.steady {tip : Nat} {trace : Trace} {s : System}
    (h : Faces cx config node tip trace s) : Steady trace := by
  obtain ⟨-, hsorted, hbounds⟩ := h.heads
  refine ⟨?_, hsorted, fun k hk => (hbounds k hk).1⟩
  rintro ⟨u, e⟩ hx
  cases e with
  | answered cmd out =>
      obtain ⟨tip', hanswers⟩ := h.answered _ hx cmd out rfl
      cases hanswers with
      | block k retries => exact decide_eq_true rfl
      | blockFailed height retries error => cases height <;> rfl
      | _ => rfl
  | _ => rfl

theorem Faces.honestResults {tip : Nat} {trace : Trace} {s : System}
    (h : Faces cx config node tip trace s) : HonestResults node.results trace := by
  rintro ⟨u, e⟩ hx
  cases e with
  | answered cmd out =>
      obtain ⟨tip', hanswers⟩ := h.answered _ hx cmd out rfl
      cases hanswers with
      | results k polls retries => exact decide_eq_true rfl
      | _ => rfl
  | _ => rfl

/-- A handled message came from the node. -/
theorem Faces.handled {tip : Nat} {trace : Trace} {s : System}
    (h : Faces cx config node tip trace s) {msg : IoResult} (hmsg : msg ∈ handledMsgs trace) :
    ∃ tip' cmd out, NodeAnswers node tip' cmd out ∧ msg ∈ out := by
  obtain ⟨x, hx, http, cmd, out, hevent, hexec, hout⟩ := h.run.handled_answered rfl hmsg
  obtain ⟨tip', hanswers⟩ := h.answered x hx cmd out hevent
  exact ⟨tip', cmd, out, hanswers, hout⟩

theorem Faces.processed {tip : Nat} {trace : Trace} {s : System}
    (h : Faces cx config node tip trace s) :
    processedBlocks trace = (processedHeights trace).map (fun k => (k, node.block k)) := by
  have hnode : ∀ p ∈ processedBlocks trace, (p.1, node.block p.1) = p := by
    rintro ⟨k, b⟩ hp
    obtain ⟨msg, hmsg, hblock⟩ := List.mem_filterMap.mp hp
    cases msg with
    | block k' b' =>
        cases hblock
        obtain ⟨tip', cmd, out, hanswers, hout⟩ := h.handled hmsg
        cases hanswers <;> simp at hout
        all_goals
          obtain ⟨rfl, rfl⟩ := hout
          rfl
    | _ => cases hblock
  unfold processedHeights
  rw [List.map_map]
  exact (List.map_id' _).symm.trans (List.map_congr_left (fun p hp => (hnode p hp).symm))

/-- The parameters of the node's chains, in the order of its list. -/
def listedParams (node : Node) : List ChainParams :=
  node.chains.filterMap (fun c => (node.params c).into)

/-- The configured chain parameters, overridden by those of the node. -/
def nodeParams (cx : Codecs) (config : Config) (node : Node) : OrderedMap String ChainParams :=
  (listedParams node).foldl (fun m q => m.insert (cx.toLowercase q.name) q)
    (configChainParams cx config)

def IoCommand.chain? : IoCommand → Option String
  | .fetchChainParams c => some c
  | _ => none

/-- The parameters that are to be fetched or installed. -/
def paramsProbe (node : Node) : Probe IoCommand IoResult ChainParams :=
  ⟨fun cmd => cmd.chain?.bind (fun c => (node.params c).into), IoResult.params?⟩

theorem NodeAnswers.keepsParams {tip : Nat} {cmd : IoCommand} {out : List IoResult}
    (h : NodeAnswers node tip cmd out) (hsucceed : failsParams (.answered cmd out) = false) :
    (paramsProbe node).Keeps (.answered cmd out) := by
  cases h with
  | chainParams c q hinto => simp [Probe.Keeps, paramsProbe, IoCommand.chain?, IoResult.params?,
      hinto]
  | chainParamsFailed c => cases hsucceed
  | _ => rfl

def IoResult.paramFetches (node : Node) : IoResult → List ChainParams
  | .chainList chains => chains.filterMap (fun c => (node.params c).into)
  | _ => []

theorem Handles.paramFetches {st st' : ProcessingState} {msg : IoResult} {out : List IoCommand}
    (h : Handles cx config st msg st' out) :
    out.filterMap (paramsProbe node).ofCmd = msg.paramFetches node := by
  cases h with
  | chainList chains =>
      rw [List.filterMap_map]
      rfl
  | skipBlock h retries error hgiveup =>
      exact filterMap_fetchAfter (fun _ => rfl) _ _
  | block height block data hdata =>
      rw [List.filterMap_append, filterMap_fetchAfter (fun _ => rfl),
        filterMap_bundleFor (fun _ _ => rfl)]
      rfl
  | _ => rfl

theorem Faces.chainList {tip : Nat} {trace : Trace} {s : System}
    (h : Faces cx config node tip trace s) {chains : List String}
    (hmem : .chainList chains ∈ handledMsgs trace) : chains = node.chains := by
  obtain ⟨tip', cmd, out, hanswers, hout⟩ := h.handled hmem
  cases hanswers <;> simp at hout
  exact hout

/-- Parameters are installed in the order of the chain list, and none is lost. -/
theorem Faces.params {tip : Nat} {trace : Trace} {s : System}
    (h : Faces cx config node tip trace s) (hsucceed : ParamsSucceed trace) :
    (¬ Listed trace → (handledMsgs trace).filterMap IoResult.params? = [] ∧
        (paramsProbe node).view s = []) ∧
      (Listed trace → (handledMsgs trace).filterMap IoResult.params? ++
        (paramsProbe node).view s = listedParams node) := by
  induction h with
  | nil tip htwo =>
      refine ⟨fun _ => ⟨rfl, rfl⟩, ?_⟩
      rintro ⟨chains, hmem⟩
      cases hmem
  | grow hrun hle ih => exact ih hsucceed
  | @snoc tip trace s e t hrun hstep ih =>
      have hplain := facing_step hstep
      obtain ⟨hbefore, hafter⟩ := ih (fun x hx => hsucceed x (List.mem_append_left _ hx))
      rw [filterMap_handledMsgs_snoc]
      cases e with
      | fed =>
          rw [listed_snoc (by simp), (paramsProbe node).view_fed hplain]
          simpa [paramsProbe, monitor, IoCommand.chain?] using And.intro hbefore hafter
      | answered cmd out =>
          have hkeep := (facing_answers hstep).keepsParams (hsucceed _ List.mem_concat_self)
          rw [listed_snoc (by simp), (paramsProbe node).view_answered hplain hkeep]
          simpa using And.intro hbefore hafter
      | handled msg out =>
          obtain ⟨rest, hview, hview'⟩ := (paramsProbe node).view_handled hplain
          have hfetches : out.filterMap (paramsProbe node).ofCmd = msg.paramFetches node :=
            (step_handles hplain).paramFetches
          by_cases hlist : ∃ chains, msg = .chainList chains
          · obtain ⟨chains, rfl⟩ := hlist
            have hmem : .chainList chains ∈
                handledMsgs (trace ++ [⟨s, .handled (.chainList chains) out⟩]) :=
              mem_handledMsgs_last ..
            obtain rfl := (hrun.snoc hstep).chainList hmem
            obtain ⟨hnone, hidle⟩ := hbefore (not_listed_before hrun.run hplain)
            rw [hidle] at hview
            have hrest : rest = [] := (List.append_eq_nil_iff.mp hview.symm).2
            refine ⟨fun hno => absurd ⟨node.chains, hmem⟩ hno, fun _ => ?_⟩
            rw [hnone, hview', hrest, hfetches]
            rfl
          · have hnone : out.filterMap (paramsProbe node).ofCmd = [] := by
              rw [hfetches]
              cases msg with
              | chainList chains => exact absurd ⟨chains, rfl⟩ hlist
              | _ => rfl
            have hsame : (handledMsgs trace).filterMap IoResult.params? ++
                (msg.params?.toList ++ rest) =
                  (handledMsgs trace).filterMap IoResult.params? ++ (paramsProbe node).view s := by
              rw [hview]
              rfl
            rw [listed_snoc (by
              intro chains hmsg
              exact hlist ⟨chains, Option.some.inj hmsg⟩), hview', hnone, List.append_nil]
            refine ⟨?_, ?_⟩
            · intro hno
              obtain ⟨hhandled, hidle⟩ := hbefore hno
              rw [hhandled, hidle] at hsame
              obtain ⟨-, hempty⟩ := List.append_eq_nil_iff.mp hsame
              obtain ⟨hmsg, hrest⟩ := List.append_eq_nil_iff.mp hempty
              exact ⟨by simp [hhandled, Option.toList_eq_nil_iff.mp hmsg], hrest⟩
            · intro hlisted
              rw [List.append_assoc]
              exact hsame.trans (hafter hlisted)

def IoResult.skipped? : IoResult → Option Nat
  | .fetchError (.specific h) retries _ => if retries < maxFetchRetries then none else some h
  | _ => none

/-- The heights whose block could not be fetched after the last retry. -/
def skippedHeights (trace : Trace) : List Nat :=
  (handledMsgs trace).filterMap IoResult.skipped?

/-- What is settled and not skipped has been processed. -/
theorem processed_of_settled (msgs : List IoResult)
    (hnodup : (msgs.filterMap IoResult.settled?).Nodup) :
    (msgs.filterMap IoResult.processed?).map Prod.fst =
      (msgs.filterMap IoResult.settled?).filter
        (fun h => h ∉ msgs.filterMap IoResult.skipped?) := by
  induction msgs with
  | nil => rfl
  | cons msg rest ih =>
      have hsub : ∀ h ∈ rest.filterMap IoResult.skipped?, h ∈ rest.filterMap IoResult.settled? := by
        intro h hh
        obtain ⟨m, hm, hskipped⟩ := List.mem_filterMap.mp hh
        refine List.mem_filterMap.mpr ⟨m, hm, ?_⟩
        cases m with
        | fetchError height retries error => cases height <;> exact hskipped
        | _ => cases hskipped
      cases msg with
      | block h b =>
          obtain ⟨hnew, hrest⟩ := List.nodup_cons.mp hnodup
          have hkept : h ∉ rest.filterMap IoResult.skipped? := fun hh => hnew (hsub h hh)
          have hskipped : (IoResult.block h b :: rest).filterMap IoResult.skipped? =
              rest.filterMap IoResult.skipped? := rfl
          have hsettled : (IoResult.block h b :: rest).filterMap IoResult.settled? =
              h :: rest.filterMap IoResult.settled? := rfl
          rw [hskipped, hsettled, List.filter_cons_of_pos (by rw [decide_eq_true hkept])]
          exact congrArg (h :: ·) (ih hrest)
      | fetchError height retries error =>
          cases height with
          | latest => exact ih hnodup
          | specific h =>
              by_cases hretry : retries < maxFetchRetries
              · simp only [List.filterMap_cons, IoResult.processed?, IoResult.settled?,
                  IoResult.skipped?, hretry, if_true] at hnodup ⊢
                exact ih hnodup
              · simp only [List.filterMap_cons, IoResult.processed?, IoResult.settled?,
                  IoResult.skipped?, hretry, if_false] at hnodup ⊢
                obtain ⟨hnew, hrest⟩ := List.nodup_cons.mp hnodup
                rw [ih hrest, List.filter_cons_of_neg (by simp)]
                apply List.filter_congr
                intro k hk
                have hne : k ≠ h := by
                  rintro rfl
                  exact hnew hk
                simp [hne]
      | _ => exact ih hnodup

def AtRest (s : System) : Prop := s.cmds = [] ∧ s.results = []

theorem AtRest.view_eq {s : System} (hrest : AtRest s) {β : Type} (p : Probe IoCommand IoResult β) :
    p.view s = [] := by
  simp [Probe.view, hrest.1, hrest.2]

/-- At rest every fetched head has been handled. -/
theorem AtRest.handledHeads_eq {trace : Trace} {s : System} (hrest : AtRest s)
    (hrun : MonitorRun cx config trace s) : handledHeads trace = fetchedHeads trace := by
  have hfifo := hrun.handled_append_results
  rw [hrest.2, List.append_nil] at hfifo
  unfold handledHeads fetchedHeads
  rw [hfifo]
  rfl

/-- At rest no block is missing up to the tip. -/
theorem AtRest.caughtUp {trace : Trace} {s : System} (hrest : AtRest s)
    (hrun : MonitorRun cx config trace s) (hsteady : Steady trace) :
    s.state.lastProcessedHeight = s.state.chainTip := by
  obtain ⟨f, hf, ⟨-, -, rfl⟩ | ⟨first, later, -, hin⟩⟩ := monitor_inStep hrun hsteady
  · rw [← hf.processed_eq, ← hf.tip_eq]
    rfl
  · have hpending := hin.pending_eq
    have hbounded := hin.bounded
    have hidle : f.pending.map Height.specific = [] :=
      hf.pending_eq.symm.trans (hrest.view_eq fetchProbe)
    rw [List.map_eq_nil_iff] at hidle
    rw [hidle] at hpending
    rw [← hf.processed_eq, ← hf.tip_eq]
    by_contra hne
    rw [if_pos (by omega)] at hpending
    cases hpending

/-- The blocks of the node from `first` to `last`, without those given up. -/
def segment (node : Node) (skipped : List Nat) (first last : Nat) : List (Nat × Block) :=
  ((List.range' first (last + 1 - first)).filter (fun h => h ∉ skipped)).map
    (fun h => (h, node.block h))

/-- The monitor has read the node's chain from the first head it was told of up
to the last one, in one pass. -/
structure Mirrors (cx : Codecs) (config : Config) (node : Node) (skipped : List Nat)
    (first last : Nat) (st : ProcessingState) : Prop where
  processed_eq : st.lastProcessedHeight = last
  tip_eq : st.chainTip = last
  params_eq : st.chainParams = nodeParams cx config node
  ledger_eq : ledgerOf st = .ofBlocks cx config node.results (nodeParams cx config node)
    (segment node skipped first last)

theorem Faces.listed {tip : Nat} {trace : Trace} {s : System}
    (hfaces : Faces cx config node tip trace s) (hlist : FirstListSucceeds trace)
    (hstarted : handledHeads trace ≠ []) : Listed trace := by
  obtain ⟨k, hk⟩ := List.exists_mem_of_ne_nil _ hstarted
  obtain ⟨msg, hmsg, hhead⟩ := List.mem_filterMap.mp hk
  cases msg <;> cases hhead
  exact list_of_head ((hlist.listBeforeHeads hfaces.run).handled hfaces.run) hmsg

/-- What the monitor rests with between a first and a last head. -/
theorem Faces.mirrors {tip first last : Nat} {trace : Trace} {s : System}
    (hfaces : Faces cx config node tip trace s) (hlist : FirstListSucceeds trace)
    (hparams : ParamsSucceed trace) (hresults : ResultsSucceed trace) (hrest : AtRest s)
    (hfirst : (fetchedHeads trace).head? = some first)
    (hlast : (fetchedHeads trace).getLast? = some last) :
    first ≤ last ∧ last ≤ tip ∧
      Mirrors cx config node (skippedHeights trace) first last s.state := by
  have hrun := hfaces.run
  have hsteady := hfaces.steady
  have hhandled := hrest.handledHeads_eq hrun
  have hcaught := hrest.caughtUp hrun hsteady
  have htip : s.state.chainTip = last := by
    rw [chainTip_handled hrun, hhandled, hlast, Option.getD_some]
  obtain ⟨f, hf, ⟨hnone, -⟩ | ⟨first', later, hfirst', hin⟩⟩ := monitor_inStep hrun hsteady
  · rw [← hhandled, hnone] at hfirst
    cases hfirst
  rw [hhandled] at hfirst'
  obtain rfl : first' = first := by
    rw [hfirst', List.head?_cons] at hfirst
    exact Option.some.inj hfirst
  obtain ⟨-, hsorted, hbounds⟩ := hfaces.heads
  have hmem : last ∈ fetchedHeads trace := List.mem_of_getLast? hlast
  have hordered : first' ≤ last := by
    rw [hfirst'] at hmem hsorted
    rcases List.mem_cons.mp hmem with heq | hlater
    · exact heq.ge
    · exact (List.pairwise_cons.mp hsorted).1 _ hlater
  have hblocks : processedBlocks trace = segment node (skippedHeights trace) first' last := by
    have hsettled : settledHeights trace = List.range' first' (last + 1 - first') := by
      rw [← settledHeights_moves, hin.settled_eq, hf.processed_eq, hcaught, htip]
    have hkept := processed_of_settled (handledMsgs trace)
      ((settledHeights_increasing hrun hsteady).1.imp ne_of_lt)
    rw [hfaces.processed, segment, ← hsettled]
    exact congrArg _ hkept
  have hstarted : handledHeads trace ≠ [] := by simp [hhandled, hfirst']
  have hfixed : fixedParams cx config trace = nodeParams cx config node := by
    have hall := (hfaces.params hparams).2 (hfaces.listed hlist hstarted)
    rw [hrest.view_eq, List.append_nil] at hall
    rw [fixedParams, hall, nodeParams]
  have hseq := run_inSequence hrun hsteady hfaces.honestResults hresults
    ((hlist.listBeforeHeads hrun).handled hrun)
  have hledger : ledgerOf s.state =
      .ofBlocks cx config node.results s.state.chainParams (processedBlocks trace) := by
    cases hseq with
    | settled _ hledger => exact hledger
    | opening _ _ _ _ hbundles _ =>
        rw [bundles, hrest.view_eq] at hbundles
        cases hbundles
  refine ⟨hordered, (hbounds _ hmem).2, hcaught.trans htip, htip,
    (chainParams_eq hrun).trans hfixed, ?_⟩
  rw [hledger, chainParams_eq hrun, hfixed, hblocks]

theorem facing_run {tip : Nat} {s t : System} {more : Trace}
    (h : Run (facing cx config node tip) s more t) : Run (monitor cx config) s more t := by
  induction h with
  | nil => exact .nil
  | snoc hrun hstep ih => exact ih.snoc (facing_step hstep)

theorem Serves.fails {tip : Nat} (error : String) :
    Serves cx config node tip (fun _ => .error error) := by
  constructor <;> intros <;> contradiction

/-- The next message is a block of the node that cannot be read, so that handling it
panics, and no command is queued. -/
def BeforeUnreadable (cx : Codecs) (node : Node) (s : System) : Prop :=
  s.cmds = [] ∧ ∃ k rest, s.results = .block k (node.block k) :: rest ∧
    blockRequests cx (node.block k) = none

/-- A monitor that cannot move in front of the node is about to panic or at rest. -/
theorem Faces.stops {tip : Nat} {trace : Trace} {t : System}
    (hfaces : Faces cx config node tip trace t)
    (hstuck : ∀ e u, e ≠ .fed → ¬ Step (facing cx config node tip) t e u) :
    BeforeUnreadable cx node t ∨ AtRest t := by
  have hcmds : t.cmds = [] := by
    obtain ⟨st, cmds, results⟩ := t
    cases cmds with
    | nil => rfl
    | cons cmd rest =>
        exfalso
        let env : { http // Serves cx config node tip http } := ⟨_, Serves.fails ""⟩
        have hfails : ∃ out, (facing cx config node tip).exec env cmd = some out := by
          cases cmd <;> exact ⟨_, rfl⟩
        obtain ⟨out, hexec⟩ := hfails
        exact hstuck (.answered cmd out) _ (by simp) (.answer env st cmd rest results out hexec)
  have hhandle : ∀ e u, e ≠ .fed → ¬ Step (monitor cx config) t e u := by
    intro e u hfed hstep
    cases hstep with
    | feed => exact hfed rfl
    | answer => cases hcmds
    | handle st st' msg cmds out results hhandle =>
        exact hstuck _ _ hfed (.handle st st' msg cmds out results hhandle)
  obtain ⟨-, hnone | ⟨k, b, rest, hresults, hunreadable⟩⟩ := drained_of_stuck hhandle
  · exact Or.inr ⟨hcmds, hnone⟩
  · have hfifo := hfaces.run.handled_append_results
    have hmem : .block k b ∈ (answers trace).flatMap Prod.snd := by
      rw [show (startUp cx config).results = [] from rfl, List.nil_append] at hfifo
      rw [← hfifo, hresults]
      simp
    obtain ⟨⟨cmd, out⟩, hanswer, hout⟩ := List.mem_flatMap.mp hmem
    obtain ⟨x, hx, hevent⟩ := mem_answers hanswer
    obtain ⟨tip', hanswers⟩ := hfaces.answered x hx cmd out hevent
    cases hanswers <;> simp at hout
    all_goals
      obtain ⟨rfl, rfl⟩ := hout
      exact Or.inl ⟨hcmds, _, rest, hresults, hunreadable⟩

/-- The heads of a stretch without growth are all at the tip. -/
theorem facing_heads {tip : Nat} {s t : System} {more : Trace}
    (h : Run (facing cx config node tip) s more t) : ∀ k ∈ fetchedHeads more, k = tip := by
  induction h with
  | nil => simp [fetchedHeads]
  | @snoc more u e t hrun hstep ih =>
      intro k hk
      rw [fetchedHeads_snoc] at hk
      rcases List.mem_append.mp hk with hold | hnew
      · exact ih k hold
      · cases e with
        | answered cmd out =>
            exact (facing_answers hstep).heads k (by simpa using hnew)
        | _ => simp at hnew

/-- Once the chain list has been received and the chain stands still, every
schedule with finitely many more head fetches ends after a bounded number of
steps, before a block that cannot be read or with all blocks settled up to the tip
that the monitor knows; one more successful head fetch makes this the tip of the
node. -/
theorem reaches_tip {tip : Nat} {trace : Trace} {s : System}
    (hfaces : Faces cx config node tip trace s)
    (hlist : ∃ chains, .chainList chains ∈ (answers trace).flatMap Prod.snd) (n : Nat) :
    ∃ N, ∀ more t, Run (facing cx config node tip) s more t → feeds more ≤ n →
      more.length ≤ N ∧ ((∀ e u, e ≠ .fed → ¬ Step (facing cx config node tip) t e u) →
        BeforeUnreadable cx node t ∨
          AtRest t ∧ t.state.lastProcessedHeight = t.state.chainTip ∧
            (fetchedHeads more ≠ [] → t.state.lastProcessedHeight = tip)) := by
  obtain ⟨top, htop⟩ := heads_bounded s.results
  have hquiet : Quiet (max tip (max s.state.chainTip top)) s := by
    apply quiet_of_received hfaces.run hlist
    · omega
    · intro h hmem
      have := htop h hmem
      omega
  let w := drainWeights (max tip (max s.state.chainTip top))
  refine ⟨w.load s + n * (w.cmd .fetchHead + 1), ?_⟩
  intro more t hmore hfeeds
  have hall := hfaces.append hmore
  constructor
  · have hhonest : HonestHeights more := fun x hx =>
      hall.steady.honest x (List.mem_append_right _ hx)
    have hpays := (hquiet.run (facing_run hmore) hhonest (fun h hh =>
      (facing_heads hmore h hh).le.trans (le_max_left _ _))).2
    have hlength := (facing_run hmore).length_add_load_le w hpays
    have hfed : feeds more * (w.cmd .fetchHead + 1) ≤ n * (w.cmd .fetchHead + 1) :=
      Nat.mul_le_mul_right _ hfeeds
    have hfeed : (monitor cx config).feed = .fetchHead := rfl
    rw [hfeed] at hlength
    omega
  · intro hstuck
    rcases hall.stops hstuck with hbefore | hrest
    · exact Or.inl hbefore
    have hcaught := hrest.caughtUp hall.run hall.steady
    refine Or.inr ⟨hrest, hcaught, ?_⟩
    intro hheads
    have hsplit : fetchedHeads (trace ++ more) = fetchedHeads trace ++ fetchedHeads more := by
      simp [fetchedHeads, answers]
    obtain ⟨k, hk⟩ := Option.ne_none_iff_exists'.mp
      (fun hnone => hheads (List.getLast?_eq_none_iff.mp hnone))
    rw [hcaught, chainTip_handled hall.run, hrest.handledHeads_eq hall.run, hsplit,
      List.getLast?_append, hk]
    exact facing_heads hmore k (List.mem_of_getLast? hk)

end Facing

namespace Sample

def node : Node where
  block := block
  results := resultsAt
  chains := ["eth"]
  params _ := ⟨"eth", "1", "1"⟩
  height_eq _ := rfl

def blockUrl : String := config.rpcUrl ++ "/cosmos/base/tendermint/v1beta1/blocks/"

def latestUrl : String := config.rpcUrl ++ "/cosmos/base/tendermint/v1beta1/blocks/latest"

def resultsUrl : String := config.lcdUrl ++ "/block_results?height="

/-- The blocks 5 to 7, the results of block 5, the list and the parameters. -/
def nodeHttp (tip : Nat) : Http := fun url =>
  if url = latestUrl then .ok (blockJson (block tip))
  else if url = resultsUrl ++ "5" then .ok resultsJson
  else if url = config.rpcUrl ++ "/axelar/evm/v1beta1/chains" then .ok chainListJson
  else if url = config.rpcUrl ++ "/axelar/evm/v1beta1/params/eth" then .ok chainParamsJson
  else match [5, 6, 7].find? (fun h => url = blockUrl ++ toString h) with
    | some h => .ok (blockJson (block h))
    | none => .error "status code 404"

/-- What the sample node serves, and where. -/
theorem nodeHttp_ok {tip : Nat} {url body : String} (h : nodeHttp tip url = .ok body) :
    (url = latestUrl ∧ body = blockJson (block tip)) ∨
      (url = resultsUrl ++ "5" ∧ body = resultsJson) ∨ body = chainListJson ∨
      body = chainParamsJson ∨
      ∃ k ∈ [5, 6, 7], url = blockUrl ++ toString k ∧ body = blockJson (block k) := by
  unfold nodeHttp at h
  split_ifs at h with h1 h2 h3 h4
  · exact .inl ⟨h1, (Except.ok.inj h).symm⟩
  · exact .inr (.inl ⟨h2, (Except.ok.inj h).symm⟩)
  · exact .inr (.inr (.inl (Except.ok.inj h).symm))
  · exact .inr (.inr (.inr (.inl (Except.ok.inj h).symm)))
  · split at h
    · next k hk =>
      have hurl := List.find?_some (p := fun h => decide (url = blockUrl ++ toString h)) hk
      exact .inr (.inr (.inr (.inr ⟨k, List.mem_of_find?_eq_some hk, of_decide_eq_true hurl,
        (Except.ok.inj h).symm⟩)))
    · cases h

theorem toString_injective {m n : Nat} (h : toString m = toString n) : m = n := by
  rw [← (decimalText_toString m).value, h, (decimalText_toString n).value]

theorem toString_ne_latest (n : Nat) : toString n ≠ "latest" := by
  intro h
  have hdigits := (decimalText_toString n).digits
  rw [h] at hdigits
  exact absurd (hdigits 'l' (by decide)) (by decide)

theorem blockUrl_ne_latestUrl (n : Nat) : blockUrl ++ toString n ≠ latestUrl := by
  intro h
  have hlatest : latestUrl = blockUrl ++ "latest" := by decide +kernel
  rw [hlatest, String.append_right_inj] at h
  exact toString_ne_latest n h

/-- Only block documents are read as blocks. -/
theorem parseBlock_others {s : String} (hs : s = resultsJson ∨ s = chainListJson ∨
    s = chainParamsJson) (b : Block) : parseBlock codecs s ≠ .ok b := by
  have hresults : parseBlock codecs resultsJson = .error "expected value at line 1 column 1" := by
    decide +kernel
  have hlist : parseBlock codecs chainListJson = .error "expected value at line 1 column 1" := by
    decide +kernel
  have hparams : parseBlock codecs chainParamsJson =
      .error "expected value at line 1 column 1" := by
    decide +kernel
  rcases hs with rfl | rfl | rfl
  · simp [hresults]
  · simp [hlist]
  · simp [hparams]

theorem nodeHttp_serves {tip : Nat}
    (htip : parseBlock codecs (blockJson (block tip)) = .ok (block tip)) :
    Serves codecs config node tip (nodeHttp tip) := by
  have hblocks : ∀ k ∈ [5, 6, 7], parseBlock codecs (blockJson (block k)) = .ok (block k) := by
    decide +kernel
  constructor
  case latest =>
    intro body b hserved hparse
    rcases nodeHttp_ok hserved with ⟨-, rfl⟩ | ⟨-, rfl⟩ | rfl | rfl | ⟨k, -, hurl, -⟩
    · exact Except.ok.inj (hparse.symm.trans htip)
    · exact absurd hparse (parseBlock_others (.inl rfl) b)
    · exact absurd hparse (parseBlock_others (.inr (.inl rfl)) b)
    · exact absurd hparse (parseBlock_others (.inr (.inr rfl)) b)
    · exact absurd hurl.symm (blockUrl_ne_latestUrl k)
  case block =>
    intro h body b hserved hparse
    rcases nodeHttp_ok hserved with ⟨hurl, -⟩ | ⟨-, rfl⟩ | rfl | rfl | ⟨k, hk, hurl, rfl⟩
    · exact absurd hurl (blockUrl_ne_latestUrl h)
    · exact absurd hparse (parseBlock_others (.inl rfl) b)
    · exact absurd hparse (parseBlock_others (.inr (.inl rfl)) b)
    · exact absurd hparse (parseBlock_others (.inr (.inr rfl)) b)
    · obtain rfl := toString_injective ((String.append_right_inj _).mp hurl)
      exact Except.ok.inj (hparse.symm.trans (hblocks h hk))
  case results =>
    intro h body r hserved hparse
    have hread : body = resultsJson ∧ r = ⟨results⟩ := by
      simp only [codecs] at hparse
      split at hparse
      · next hbody => exact ⟨hbody, (Except.ok.inj hparse).symm⟩
      · cases hparse
    obtain ⟨rfl, rfl⟩ := hread
    rcases nodeHttp_ok hserved with ⟨-, hbody⟩ | ⟨hurl, -⟩ | hbody | hbody | ⟨k, hk, -, hbody⟩
    · rw [← hbody] at htip
      exact absurd htip (parseBlock_others (.inl rfl) _)
    · obtain rfl := toString_injective (n := 5) ((String.append_right_inj _).mp hurl)
      rfl
    · exact absurd hbody (by decide +kernel)
    · exact absurd hbody (by decide +kernel)
    · have hread := hblocks k hk
      rw [← hbody] at hread
      exact absurd hread (parseBlock_others (.inl rfl) _)
  case chains =>
    intro body r hserved hparse
    simp only [codecs] at hparse
    split at hparse
    · rw [← Except.ok.inj hparse]
      rfl
    · cases hparse
  case params =>
    intro c body r hserved hparse
    simp only [codecs] at hparse
    split at hparse
    · rw [← Except.ok.inj hparse]
      rfl
    · cases hparse

/-- A node at height 5 or 7, which answers or fails to answer one request. -/
def asks (tip : Nat) (htip : parseBlock codecs (blockJson (block tip)) = .ok (block tip)) :
    Action { http // Serves codecs config node tip http } :=
  .answer ⟨nodeHttp tip, nodeHttp_serves htip⟩

def unanswered (tip : Nat) : Action { http // Serves codecs config node tip http } :=
  .answer ⟨_, Serves.fails "connection refused"⟩

theorem readable_five : parseBlock codecs (blockJson (block 5)) = .ok (block 5) := by
  decide +kernel

theorem readable_seven : parseBlock codecs (blockJson (block 7)) = .ok (block 7) := by
  decide +kernel

/-- The first head is 5; the chain then grows to 7, and one block fetch fails. -/
def untilFive : List (Action { http // Serves codecs config node 5 http }) :=
  let ask := asks 5 readable_five
  [.feed, ask, ask, .handle, .handle, .feed]

def untilSeven : List (Action { http // Serves codecs config node 7 http }) :=
  let ask := asks 7 readable_seven
  [ask, ask, ask, .handle, .handle, .handle, ask, unanswered 7, .handle, .handle, ask, .handle,
    ask, .handle]

end Sample

theorem Sample.node_readable (k : Nat) :
    blockRequests Sample.codecs (Sample.node.block k) ≠ none := by
  have hall : ∀ txs ∈ [[Sample.confirmTxText], [Sample.ethVote], []],
      blockRequests Sample.codecs ⟨⟨""⟩, ⟨txs⟩⟩ ≠ none := by
    decide +kernel
  apply hall (Sample.block k).data.txs
  unfold Sample.block
  split_ifs <;> simp

theorem reaches_tip_seven :
    ∃ trace s, Faces Sample.codecs Sample.config Sample.node 7 trace s ∧
      s.state.lastProcessedHeight = 4 ∧ ∃ N, ∀ more t,
        Run (facing Sample.codecs Sample.config Sample.node 7) s more t → feeds more ≤ 3 →
        more.length ≤ N ∧
          ((∀ e u, e ≠ .fed → ¬ Step (facing Sample.codecs Sample.config Sample.node 7) t e u) →
            fetchedHeads more ≠ [] → t.state.lastProcessedHeight = 7) := by
  have hreplay : ∃ r ∈ (facing Sample.codecs Sample.config Sample.node 5).replay
        (startUp Sample.codecs Sample.config) Sample.untilFive,
      .chainList ["eth"] ∈ (answers r.1).flatMap Prod.snd ∧
        r.2.state.lastProcessedHeight = 4 := by
    decide +kernel
  obtain ⟨r, hr, hlist, hlast⟩ := hreplay
  have hfaces := ((Faces.nil 5 (by decide)).append (replay_run hr)).grow
    (show 5 ≤ 7 by decide)
  obtain ⟨N, hN⟩ := reaches_tip hfaces ⟨["eth"], hlist⟩ 3
  refine ⟨_, _, hfaces, hlast, N, ?_⟩
  intro more t hmore hfeeds
  obtain ⟨hlength, hrests⟩ := hN more t hmore hfeeds
  refine ⟨hlength, fun hstuck => ?_⟩
  rcases hrests hstuck with ⟨-, k, -, -, hunreadable⟩ | ⟨-, -, htip⟩
  · exact absurd hunreadable (Sample.node_readable k)
  · exact htip

end AxelarMonitor
