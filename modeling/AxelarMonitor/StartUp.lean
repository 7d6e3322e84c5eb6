import AxelarMonitor.AppliedOnce
import AxelarMonitor.ChainParameters

/-!
The order of the start. While no head is fetched before the chain list, the
parameter fetches are ahead of every block fetch in the queues, so the listed
parameters are installed before the first block is processed. A chain list
that fails once lets a head overtake it.
-/

namespace AxelarMonitor

open FifoLoop

variable {cx : Codecs} {config : Config}

/-- A chain list comes before the first head. -/
def listFirst : List IoResult → Bool
  | [] => true
  | .chainList _ :: _ => true
  | .head _ :: _ => false
  | _ :: rest => listFirst rest

theorem listFirst_of_append {l l' : List IoResult} (h : listFirst (l ++ l')) : listFirst l := by
  induction l with
  | nil => rfl
  | cons msg rest ih =>
      cases msg with
      | chainList chains => rfl
      | head n => exact h
      | _ => exact ih h

theorem list_of_head {l : List IoResult} {n : Nat} (h : listFirst l) (hmem : .head n ∈ l) :
    ∃ chains, .chainList chains ∈ l := by
  induction l with
  | nil => cases hmem
  | cons msg rest ih =>
      cases msg with
      | chainList chains => exact ⟨chains, List.mem_cons_self⟩
      | head m => exact absurd h (by simp [listFirst])
      | _ =>
          obtain ⟨chains, hchains⟩ := ih h ((List.mem_cons.mp hmem).resolve_left (by simp))
          exact ⟨chains, List.mem_cons_of_mem _ hchains⟩

/-- The first chain list is fetched before the first head. -/
def ListBeforeHeads (trace : Trace) : Prop := listFirst ((answers trace).flatMap Prod.snd)

theorem ListBeforeHeads.handled {trace : Trace} {s : System} (hfirst : ListBeforeHeads trace)
    (hrun : MonitorRun cx config trace s) : listFirst (handledMsgs trace) := by
  unfold ListBeforeHeads at hfirst
  have hfifo := hrun.handled_append_results
  rw [show (startUp cx config).results = [] from rfl, List.nil_append] at hfifo
  rw [← hfifo] at hfirst
  exact listFirst_of_append hfirst

def failsParams : Event IoCommand IoResult → Bool
  | .answered (.fetchChainParams _) [] => true
  | _ => false

def ParamsSucceed (trace : Trace) : Prop := ∀ x ∈ trace, failsParams x.event = false

instance (trace : Trace) : Decidable (ParamsSucceed trace) :=
  inferInstanceAs (Decidable (∀ x ∈ trace, failsParams x.event = false))

/-- A parameter fetch and a block fetch are tokens of two kinds. -/
inductive StartToken where
  | params
  | block
  deriving DecidableEq

def IoCommand.startToken? : IoCommand → Option StartToken
  | .fetchChainParams _ => some .params
  | .fetchBlock _ _ => some .block
  | _ => none

def IoResult.startToken? : IoResult → Option StartToken
  | .chainParams _ => some .params
  | .block _ _ => some .block
  | .fetchError _ _ _ => some .block
  | _ => none

def startProbe : Probe IoCommand IoResult StartToken :=
  ⟨IoCommand.startToken?, IoResult.startToken?⟩

/-- Only heads and the replies to block fetches start block fetches. -/
theorem Handles.startTokens {st st' : ProcessingState} {msg : IoResult} {out : List IoCommand}
    (h : Handles cx config st msg st' out) (hmsg : ∀ chains, msg ≠ .chainList chains) :
    ∃ k, out.filterMap IoCommand.startToken? = List.replicate k .block ∧
      (k = 0 ∨ msg.startToken? = some .block ∨ ∃ n, msg = .head n) := by
  have hfetch (tip n : Nat) : ∃ k, (fetchAfter tip n).filterMap IoCommand.startToken? =
      List.replicate k .block := by
    unfold fetchAfter
    split
    · exact ⟨1, rfl⟩
    · exact ⟨0, rfl⟩
  cases h with
  | chainList chains => exact absurd rfl (hmsg chains)
  | retryBlock h retries error hretry => exact ⟨1, rfl, Or.inr (Or.inl rfl)⟩
  | skipBlock h retries error hgiveup =>
      obtain ⟨k, hk⟩ := hfetch st.chainTip h
      exact ⟨k, hk, Or.inr (Or.inl rfl)⟩
  | block height block data hdata =>
      obtain ⟨k, hk⟩ := hfetch st.chainTip height
      refine ⟨k, ?_, Or.inr (Or.inl rfl)⟩
      rw [List.filterMap_append, filterMap_bundleFor (fun _ _ => rfl), hk, List.nil_append]
  | firstHead n hsentinel => exact ⟨1, rfl, Or.inr (Or.inr ⟨n, rfl⟩)⟩
  | nextHead n hstarted hahead hcaughtUp => exact ⟨1, rfl, Or.inr (Or.inr ⟨n, rfl⟩)⟩
  | _ => exact ⟨0, rfl, Or.inl rfl⟩

/-- A message other than the chain list leaves the list as received as it was. -/
theorem chainList_mem_snoc {trace : Trace} {s : System} {e : Event IoCommand IoResult}
    (he : ∀ chains, e.handledMsg? ≠ some (.chainList chains)) {chains : List String} :
    .chainList chains ∈ handledMsgs (trace ++ [⟨s, e⟩]) ↔
      .chainList chains ∈ handledMsgs trace := by
  rw [handledMsgs_snoc, List.mem_append, or_iff_left]
  intro hmem
  exact he chains (Option.mem_toList.mp hmem)

theorem listed_snoc {trace : Trace} {s : System} {e : Event IoCommand IoResult}
    (he : ∀ chains, e.handledMsg? ≠ some (.chainList chains)) :
    Listed (trace ++ [⟨s, e⟩]) ↔ Listed trace := by
  unfold Listed
  simp only [chainList_mem_snoc he]

/-- No parameter fetch is behind a block fetch, and none is left once a block
has been processed. -/
structure ParamsAhead (trace : Trace) (s : System) : Prop where
  unlisted : ¬ Listed trace → startProbe.view s = []
  ordered : (startProbe.view s).Pairwise (fun a b => a = .block → b = .block)
  settled : processedBlocks trace ≠ [] → Listed trace ∧ ∀ w ∈ startProbe.view s, w = .block

theorem ParamsAhead.sublist {trace : Trace} {s t : System} {e : Event IoCommand IoResult}
    (hahead : ParamsAhead trace s) (he : e.handledMsg? = none)
    (hsub : (startProbe.view t).Sublist (startProbe.view s)) :
    ParamsAhead (trace ++ [⟨s, e⟩]) t := by
  have hlisted := @listed_snoc trace s e (by simp [he])
  constructor
  · intro hnone
    rw [hlisted] at hnone
    rw [hahead.unlisted hnone] at hsub
    exact List.sublist_nil.mp hsub
  · exact hahead.ordered.sublist hsub
  · rw [hlisted, processedBlocks_snoc, he, Option.bind_none, Option.toList_none, List.append_nil]
    intro hsome
    obtain ⟨hlist, hall⟩ := hahead.settled hsome
    exact ⟨hlist, fun w hw => hall w (hsub.subset hw)⟩

theorem ParamsAhead.answered {trace : Trace} {s t : System} {cmd : IoCommand}
    {out : List IoResult} (hahead : ParamsAhead trace s)
    (hstep : Step (monitor cx config) s (.answered cmd out) t) :
    ParamsAhead (trace ++ [⟨s, .answered cmd out⟩]) t := by
  apply hahead.sublist rfl
  obtain ⟨rest, hbefore, hafter⟩ := startProbe.view_replaced hstep
  rw [hbefore, hafter]
  apply List.Sublist.append_right
  apply List.Sublist.append_left
  cases step_answers hstep with
  | chainParamsFailed chain => exact List.nil_sublist _
  | _ => exact List.Sublist.refl _

theorem ParamsAhead.chainList {trace : Trace} {s t : System} {chains : List String}
    {out : List IoCommand} (hahead : ParamsAhead trace s) (hunlisted : ¬ Listed trace)
    (hstep : Step (monitor cx config) s (.handled (.chainList chains) out) t) :
    ParamsAhead (trace ++ [⟨s, .handled (.chainList chains) out⟩]) t := by
  obtain ⟨rest, hbefore, hafter⟩ := startProbe.view_handled hstep
  have hrest : rest = [] := by
    rw [hahead.unlisted hunlisted] at hbefore
    exact (List.append_eq_nil_iff.mp hbefore.symm).2
  have hparams : ∀ w ∈ startProbe.view t, w = .params := by
    rw [hafter, hrest, (step_handles hstep).chainList_issued, List.nil_append]
    intro w hw
    obtain ⟨cmd, hcmd, htoken⟩ := List.mem_filterMap.mp hw
    obtain ⟨c, -, rfl⟩ := List.mem_map.mp hcmd
    exact (Option.some.inj htoken).symm
  have hnow : Listed (trace ++ [⟨s, .handled (.chainList chains) out⟩]) := ⟨chains, by simp⟩
  constructor
  · intro h
    exact absurd hnow h
  · rw [List.pairwise_iff_forall_sublist]
    intro a b hab ha
    rw [hparams a (hab.subset List.mem_cons_self)] at ha
    cases ha
  · intro hsome
    rw [processedBlocks_snoc] at hsome
    exact absurd (hahead.settled (by simpa [IoResult.processed?] using hsome)).1 hunlisted

/-- When a block is processed the list is known and no parameter fetch is left. -/
theorem ParamsAhead.at_block {trace : Trace} {s t : System} {h : Nat} {b : Block}
    {out : List IoCommand} (hahead : ParamsAhead trace s)
    (hstep : Step (monitor cx config) s (.handled (.block h b) out) t) :
    Listed trace ∧ ∀ w ∈ startProbe.view s, w = .block := by
  obtain ⟨rest, hbefore, -⟩ := startProbe.view_handled hstep
  have hordered := hahead.ordered
  rw [hbefore] at hordered
  constructor
  · by_contra hunlisted
    rw [hahead.unlisted hunlisted] at hbefore
    cases hbefore
  · rw [hbefore]
    intro w hw
    rcases List.mem_cons.mp hw with rfl | hlater
    · rfl
    · exact (List.pairwise_cons.mp hordered).1 w hlater rfl

theorem ParamsAhead.handled {trace : Trace} {s t : System} {msg : IoResult}
    {out : List IoCommand} (hahead : ParamsAhead trace s)
    (hstep : Step (monitor cx config) s (.handled msg out) t)
    (hmsg : ∀ chains, msg ≠ .chainList chains) (hhead : ∀ n, msg = .head n → Listed trace) :
    ParamsAhead (trace ++ [⟨s, .handled msg out⟩]) t := by
  have hlisted : Listed (trace ++ [⟨s, .handled msg out⟩]) ↔ Listed trace := by
    apply listed_snoc
    intro chains h
    exact hmsg chains (Option.some.inj h)
  obtain ⟨rest, hbefore, hafter⟩ := startProbe.view_handled hstep
  obtain ⟨k, hissued, hk⟩ := (step_handles hstep).startTokens hmsg
  have hblocks : startProbe.view t = rest ++ List.replicate k .block := by
    rw [hafter]
    simp only [startProbe]
    rw [hissued]
  constructor
  · rw [hlisted, hblocks]
    intro hunlisted
    rw [hahead.unlisted hunlisted] at hbefore
    obtain ⟨hnone, rfl⟩ := List.append_eq_nil_iff.mp hbefore.symm
    have hzero : k = 0 := by
      rcases hk with hzero | hblock | ⟨n, rfl⟩
      · exact hzero
      · simp [startProbe, hblock] at hnone
      · exact absurd (hhead n rfl) hunlisted
    rw [hzero]
    rfl
  · have hordered := hahead.ordered
    rw [hbefore] at hordered
    rw [hblocks, List.pairwise_append]
    refine ⟨(List.pairwise_append.mp hordered).2.1, ?_, ?_⟩
    · rw [List.pairwise_replicate]
      exact Or.inr id
    · intro a _ b hb _
      exact List.eq_of_mem_replicate hb
  · rw [hlisted, hblocks, processedBlocks_snoc]
    intro hsome
    have hall : Listed trace ∧ ∀ w ∈ startProbe.view s, w = .block := by
      cases msg with
      | block h b => exact hahead.at_block hstep
      | _ => exact hahead.settled (by simpa [IoResult.processed?] using hsome)
    refine ⟨hall.1, ?_⟩
    intro w hw
    rcases List.mem_append.mp hw with hw | hw
    · apply hall.2 w
      rw [hbefore]
      exact List.mem_append_right _ hw
    · exact List.eq_of_mem_replicate hw

theorem run_paramsAhead {trace : Trace} {s : System} (hrun : MonitorRun cx config trace s)
    (hfirst : listFirst (handledMsgs trace)) : ParamsAhead trace s := by
  induction hrun with
  | nil =>
      constructor
      · intro _
        rfl
      · exact List.Pairwise.nil
      · intro hsome
        exact absurd rfl hsome
  | @snoc trace s e t hrun hstep ih =>
      have hfirst' := hfirst
      rw [handledMsgs_snoc] at hfirst'
      have hahead := ih (listFirst_of_append hfirst')
      cases e with
      | fed =>
          have hview : startProbe.view t = startProbe.view s :=
            (startProbe.view_fed hstep).trans (List.append_nil _)
          exact hahead.sublist rfl (by rw [hview])
      | answered cmd out => exact hahead.answered hstep
      | handled msg out =>
          cases msg with
          | chainList chains => exact hahead.chainList (not_listed_before hrun hstep) hstep
          | head n =>
              apply hahead.handled hstep (by simp)
              intro m hm
              have hmem : .head n ∈ handledMsgs (trace ++ [⟨s, .handled (.head n) out⟩]) := by
                simp
              obtain ⟨chains, hmem⟩ := list_of_head hfirst hmem
              exact ⟨chains, (chainList_mem_snoc (by simp)).mp hmem⟩
          | _ => exact hahead.handled hstep (by simp) (by simp)

/-- Parameters arrive only before the first block. -/
theorem ParamsAhead.no_blocks {trace : Trace} {s t : System} {q : ChainParams}
    {out : List IoCommand} (hahead : ParamsAhead trace s)
    (hstep : Step (monitor cx config) s (.handled (.chainParams q) out) t) :
    processedBlocks trace = [] := by
  by_contra hsome
  obtain ⟨rest, hbefore, -⟩ := startProbe.view_handled hstep
  have hmem : .params ∈ startProbe.view s := by
    rw [hbefore]
    exact List.mem_cons_self
  cases (hahead.settled hsome).2 .params hmem

/-- Once a chain list is handled, no other one follows. -/
theorem chainList_only {earlier later : Trace} {s : System}
    (hrun : MonitorRun cx config (earlier ++ later) s) (hlisted : Listed earlier)
    {chains : List String} (hmem : .chainList chains ∈ handledMsgs (earlier ++ later)) :
    .chainList chains ∈ handledMsgs earlier := by
  rw [handledMsgs_append, List.mem_append] at hmem
  apply hmem.resolve_right
  intro hlater
  obtain ⟨between, u, out, rest, rfl⟩ := mem_handledMsgs hlater
  have hsplit : earlier ++ (between ++ ⟨u, .handled (.chainList chains) out⟩ :: rest) =
      (earlier ++ between) ++ ⟨u, .handled (.chainList chains) out⟩ :: rest := by simp
  obtain ⟨hreach, v, hstep, -⟩ := hrun.before_reached hsplit
  apply not_listed_before hreach hstep
  obtain ⟨chains', hold⟩ := hlisted
  refine ⟨chains', ?_⟩
  rw [handledMsgs_append]
  exact List.mem_append_left _ hold

/-- Whenever a block is processed the fetched parameters of every listed chain
are installed, and each of the block's poll requests on a listed chain is kept
with the expiry that these parameters give. -/
def ParamsLoaded (cx : Codecs) (trace : Trace) : Prop :=
  ∀ earlier u h b out later, trace = earlier ++ ⟨u, .handled (.block h b) out⟩ :: later →
    ∀ chains, .chainList chains ∈ handledMsgs trace → ∀ c ∈ chains,
      ∃ q, .chainParams q ∈ handledMsgs earlier ∧
        cx.toLowercase q.name = cx.toLowercase c ∧
        u.state.chainParams.get? (cx.toLowercase c) = some q ∧
        ∀ requests, blockRequests cx b = some requests → ∀ r ∈ requests,
          cx.toLowercase r.chain = cx.toLowercase c →
            ∃ creations, .fetchBlockResults h creations 0 ∈ out ∧
              r.withExpiry (u64Add (u64Add h q.revoteLockingPeriod.toNat)
                q.votingGracePeriod.toNat) ∈ creations

theorem Handles.request_kept {st st' : ProcessingState} {h : Nat} {b : Block}
    {out : List IoCommand} (hhandles : Handles cx config st (.block h b) st' out)
    {requests : List PollRequest} (hrequests : blockRequests cx b = some requests)
    {r : PollRequest} (hr : r ∈ requests) {q : ChainParams}
    (hget : st.chainParams.get? (cx.toLowercase r.chain) = some q) :
    ∃ creations, .fetchBlockResults h creations 0 ∈ out ∧
      r.withExpiry (u64Add (u64Add h q.revoteLockingPeriod.toNat) q.votingGracePeriod.toNat) ∈
        creations := by
  cases hhandles with
  | block _ _ data hdata =>
      obtain ⟨requests', hrequests', hcreations⟩ := hdata.creations_eq
      obtain rfl := Option.some.inj (hrequests.symm.trans hrequests')
      have hkept : r.withExpiry (u64Add (u64Add h q.revoteLockingPeriod.toNat)
          q.votingGracePeriod.toNat) ∈ data.pollCreations := by
        rw [hcreations, List.mem_filterMap]
        exact ⟨r, hr, by simp [createPoll, hget]⟩
      refine ⟨data.pollCreations, ?_, hkept⟩
      have hne : data.pollCreations.isEmpty = false := by
        simpa using List.ne_nil_of_mem hkept
      simp [bundleFor, hne]

/-- No parameter fetch that succeeds is a forgetting failure. -/
theorem ParamsSucceed.not_forgetting {trace : Trace} (hparams : ParamsSucceed trace)
    {earlier : Trace} {x : Transition ProcessingState IoCommand IoResult} (hx : x ∈ trace) :
    ¬ ForgettingFailure cx earlier x := by
  rintro ⟨c, hevent, -⟩
  have hok := hparams x hx
  rw [hevent] at hok
  cases hok

theorem params_loaded_before_blocks {trace : Trace} {s : System}
    (hrun : MonitorRun cx config trace s) (hnamed : NamesChains cx trace)
    (hparams : ParamsSucceed trace) (hlist : ListBeforeHeads trace) : ParamsLoaded cx trace := by
  have hfirst := hlist.handled hrun
  rintro earlier u h b out later rfl chains hmem c hc
  obtain ⟨hreach, v, hstep, -⟩ := hrun.before_reached rfl
  rw [handledMsgs_append] at hfirst
  have hahead := run_paramsAhead hreach (listFirst_of_append hfirst)
  obtain ⟨hlisted, hblocks⟩ := hahead.at_block hstep
  have hmem' := chainList_only hrun hlisted hmem
  have hremembered : Remembered cx earlier u c := by
    apply run_remembered hreach _ _ hmem' hc
    · intro x hx
      exact hnamed x (List.mem_append_left _ hx)
    · rintro before x after rfl
      exact hparams.not_forgetting (by simp)
  -- a parameter fetch that is still under way would be a token behind the block
  have hinstalled : Installed cx earlier u c := by
    rcases hremembered with hin | ⟨q, hq, -⟩ | hcmd
    · exact hin
    · cases hblocks .params (List.mem_append_left _ (List.mem_filterMap.mpr ⟨_, hq, rfl⟩))
    · cases hblocks .params (List.mem_append_right _ (List.mem_filterMap.mpr ⟨_, hcmd, rfl⟩))
  obtain ⟨q, hq, hname, hget⟩ := hinstalled
  refine ⟨q, hq, hname, hget, ?_⟩
  intro requests hrequests r hr hchain
  rw [← hchain] at hget
  exact (step_handles hstep).request_kept hrequests hr hget

/-- The first attempt to fetch the chain list fails before the feeder starts. -/
def Sample.listRetried : List (Action Http) :=
  [fails, .handle, .feed, serves chainListJson, servesBlock 5, .handle, .handle,
    serves chainParamsJson, servesBlock 5, .handle, .handle]

def Sample.bareConfig : Config := { Sample.config with chainParams := [] }

theorem params_loaded_after_list_retry :
    ∃ r : Trace × System, MonitorRun Sample.codecs Sample.bareConfig r.1 r.2 ∧
      .block 5 (Sample.block 5) ∈ handledMsgs r.1 ∧ ParamsLoaded Sample.codecs r.1 := by
  have hreplay : ∃ r ∈ Sample.replay Sample.bareConfig Sample.listRetried,
      NamesChains Sample.codecs r.1 ∧ ParamsSucceed r.1 ∧
      listFirst ((answers r.1).flatMap Prod.snd) ∧
      .block 5 (Sample.block 5) ∈ handledMsgs r.1 := by
    decide +kernel
  obtain ⟨r, hrun, hnamed, hparams, hlist, hblock⟩ := Sample.run_of_replay hreplay
  exact ⟨r, hrun, hblock, params_loaded_before_blocks hrun hnamed hparams hlist⟩

/-- The chain list fails once, and the head behind it in the queue does not. -/
def Sample.headOvertakesList : List (Action Http) :=
  [.feed, fails, servesBlock 5, .handle, .handle, serves chainListJson, servesBlock 5, .handle,
    .handle]

/-- The block's only poll request is dropped: no block results are fetched. -/
theorem block_before_params :
    ∃ r : Trace × System, MonitorRun Sample.codecs Sample.bareConfig r.1 r.2 ∧
      NamesChains Sample.codecs r.1 ∧ ParamsSucceed r.1 ∧
      .chainList ["eth"] ∈ handledMsgs r.1 ∧
      .block 5 (Sample.block 5) ∈ handledMsgs r.1 ∧
      (blockRequests Sample.codecs (Sample.block 5)).map (List.map PollRequest.chain) =
        some ["eth"] ∧
      freshBundles r.1 = [] ∧ ¬ ParamsLoaded Sample.codecs r.1 := by
  have hreplay : ∃ r ∈ Sample.replay Sample.bareConfig Sample.headOvertakesList,
      NamesChains Sample.codecs r.1 ∧ ParamsSucceed r.1 ∧
      .chainList ["eth"] ∈ handledMsgs r.1 ∧
      .block 5 (Sample.block 5) ∈ handledMsgs r.1 ∧
      (blockRequests Sample.codecs (Sample.block 5)).map (List.map PollRequest.chain) =
        some ["eth"] ∧
      freshBundles r.1 = [] ∧ ∀ msg ∈ handledMsgs r.1, msg.startToken? ≠ some .params := by
    decide +kernel
  obtain ⟨r, hrun, hnamed, hparams, hlist, hblock, hrequest, hbundles, hnone⟩ :=
    Sample.run_of_replay hreplay
  refine ⟨r, hrun, hnamed, hparams, hlist, hblock, hrequest, hbundles, ?_⟩
  intro hloaded
  obtain ⟨earlier, u, out, later, hsplit⟩ := mem_handledMsgs hblock
  obtain ⟨q, hq, -⟩ := hloaded earlier u 5 _ out later hsplit ["eth"] hlist "eth"
    List.mem_cons_self
  have hq' : .chainParams q ∈ handledMsgs r.1 := by
    rw [hsplit, handledMsgs_append]
    exact List.mem_append_left _ hq
  exact hnone _ hq' rfl

end AxelarMonitor
