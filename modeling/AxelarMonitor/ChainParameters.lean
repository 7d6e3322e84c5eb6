import AxelarMonitor.BlockFetches

/-!
The parameters of the listed chains. A received chain list is a set of
obligations: one parameter fetch for each chain, then its installation. The
failure of such a fetch is the only thing that can lose one.
-/

namespace AxelarMonitor

open FifoLoop

variable {cx : Codecs} {config : Config}

/-- The parameters fetched for a chain name that chain up to letter case. -/
def namesChain (cx : Codecs) : Event IoCommand IoResult → Bool
  | .answered (.fetchChainParams c) [.chainParams q] =>
      cx.toLowercase q.name = cx.toLowercase c
  | _ => true

def NamesChains (cx : Codecs) (trace : Trace) : Prop := ∀ x ∈ trace, namesChain cx x.event

instance (trace : Trace) : Decidable (NamesChains cx trace) :=
  inferInstanceAs (Decidable (∀ x ∈ trace, namesChain cx x.event))

def IoResult.isChainList : IoResult → Bool
  | .chainList _ => true
  | _ => false

def IoCommand.listToken? : IoCommand → Option Unit
  | .fetchChainList => some ()
  | _ => none

def IoResult.listToken? : IoResult → Option Unit
  | .chainList _ => some ()
  | .fetchChainListError _ => some ()
  | _ => none

/-- The attempt to fetch the chain list is a token that failures keep alive. -/
def listProbe : Probe IoCommand IoResult Unit := ⟨IoCommand.listToken?, IoResult.listToken?⟩

theorem Handles.listTokens {st st' : ProcessingState} {msg : IoResult} {out : List IoCommand}
    (h : Handles cx config st msg st' out) :
    (out.filterMap IoCommand.listToken?).length + [msg].countP IoResult.isChainList =
      msg.listToken?.toList.length := by
  cases h with
  | chainList chains =>
      rw [filterMap_paramFetches (fun _ => rfl)]
      rfl
  | skipBlock h retries error hgiveup =>
      rw [filterMap_fetchAfter (fun _ => rfl)]
      rfl
  | block height block data hdata =>
      rw [List.filterMap_append, filterMap_fetchAfter (fun _ => rfl),
        filterMap_bundleFor (fun _ _ => rfl)]
      rfl
  | _ => rfl

theorem run_listToken {trace : Trace} {s : System} (hrun : MonitorRun cx config trace s) :
    (listProbe.view s).length + (handledMsgs trace).countP IoResult.isChainList = 1 := by
  induction hrun with
  | nil => rfl
  | @snoc trace s e t hrun hstep ih =>
      rw [handledMsgs_snoc, List.countP_append]
      cases e with
      | fed =>
          rw [listProbe.view_fed hstep]
          simpa [listProbe, monitor, IoCommand.listToken?] using ih
      | answered cmd out =>
          have hkeep : listProbe.Keeps (.answered cmd out) := by
            cases step_answers hstep <;> rfl
          rw [listProbe.view_answered hstep hkeep]
          simpa using ih
      | handled msg out =>
          obtain ⟨rest, hbefore, hafter⟩ := listProbe.view_handled hstep
          have htokens := (step_handles hstep).listTokens
          rw [hbefore] at ih
          rw [hafter]
          simp only [listProbe, List.length_append, handledMsg?_handled, Option.toList_some]
            at ih ⊢
          omega

def Listed (trace : Trace) : Prop := ∃ chains, .chainList chains ∈ handledMsgs trace

/-- Once a chain list is handled no other is fetched. -/
theorem listed_view {trace : Trace} {s : System} (hrun : MonitorRun cx config trace s)
    (hlisted : Listed trace) : listProbe.view s = [] := by
  obtain ⟨chains, hmem⟩ := hlisted
  have hpos : 0 < (handledMsgs trace).countP IoResult.isChainList :=
    List.countP_pos_iff.mpr ⟨.chainList chains, hmem, rfl⟩
  have hone := run_listToken hrun
  apply List.eq_nil_of_length_eq_zero
  omega

theorem not_listed_before {trace : Trace} {s t : System} {chains : List String}
    {out : List IoCommand} (hrun : MonitorRun cx config trace s)
    (hstep : Step (monitor cx config) s (.handled (.chainList chains) out) t) :
    ¬ Listed trace := by
  intro hlisted
  obtain ⟨rest, hbefore, -⟩ := listProbe.view_handled hstep
  rw [listed_view hrun hlisted] at hbefore
  cases hbefore

/-- The last parameters fetched for the chain are in the state. -/
def Installed (cx : Codecs) (trace : Trace) (s : System) (c : String) : Prop :=
  ∃ q, .chainParams q ∈ handledMsgs trace ∧ cx.toLowercase q.name = cx.toLowercase c ∧
    s.state.chainParams.get? (cx.toLowercase c) = some q

theorem installed_of_handled {trace : Trace} {s t : System} {q : ChainParams} {c : String}
    {out : List IoCommand} (hstep : Step (monitor cx config) s (.handled (.chainParams q) out) t)
    (hname : cx.toLowercase q.name = cx.toLowercase c) :
    Installed cx (trace ++ [⟨s, .handled (.chainParams q) out⟩]) t c := by
  refine ⟨q, by simp, hname, ?_⟩
  rw [(step_handles hstep).chainParams_insert, hname, OrderedMap.get?_insert_self]

/-- Installed parameters are only ever replaced by newer ones. -/
theorem Installed.step {trace : Trace} {s t : System} {e : Event IoCommand IoResult}
    {c : String} (hin : Installed cx trace s c) (hstep : Step (monitor cx config) s e t) :
    Installed cx (trace ++ [⟨s, e⟩]) t c := by
  obtain ⟨q, hq, hname, hget⟩ := hin
  have hq' : .chainParams q ∈ handledMsgs (trace ++ [⟨s, e⟩]) := by
    rw [handledMsgs_snoc]
    exact List.mem_append_left _ hq
  cases e with
  | fed => exact ⟨q, hq', hname, by rwa [hstep.state_fed]⟩
  | answered cmd out => exact ⟨q, hq', hname, by rwa [hstep.state_answered]⟩
  | handled msg out =>
      cases msg with
      | chainParams q' =>
          by_cases hsame : cx.toLowercase q'.name = cx.toLowercase c
          · exact installed_of_handled hstep hsame
          · refine ⟨q, hq', hname, ?_⟩
            rw [(step_handles hstep).chainParams_insert,
              OrderedMap.get?_insert_ne _ _ (Ne.symm hsame), hget]
      | _ =>
          refine ⟨q, hq', hname, ?_⟩
          rw [(step_handles hstep).chainParams_eq (by simp), hget]

/-- The parameters of the chain are installed, fetched but not yet handled, or
still to be fetched. -/
def Remembered (cx : Codecs) (trace : Trace) (s : System) (c : String) : Prop :=
  Installed cx trace s c ∨
    (∃ q, .chainParams q ∈ s.results ∧ cx.toLowercase q.name = cx.toLowercase c) ∨
      .fetchChainParams c ∈ s.cmds

/-- A parameter fetch that fails although nothing else remembers its chain. -/
def ForgettingFailure (cx : Codecs) (earlier : Trace)
    (x : Transition ProcessingState IoCommand IoResult) : Prop :=
  ∃ c, x.event = .answered (.fetchChainParams c) [] ∧ ¬ Installed cx earlier x.before c ∧
    (∀ q, .chainParams q ∈ x.before.results → cx.toLowercase q.name ≠ cx.toLowercase c) ∧
      .fetchChainParams c ∉ x.before.cmds.tail

theorem Handles.fetchChainParams_issued {st st' : ProcessingState} {msg : IoResult}
    {out : List IoCommand} {c : String} (h : Handles cx config st msg st' out)
    (hmem : .fetchChainParams c ∈ out) : ∃ chains, msg = .chainList chains ∧ c ∈ chains := by
  cases h with
  | chainList chains => exact ⟨chains, rfl, by simpa using hmem⟩
  | skipBlock h retries error hgiveup => cases mem_fetchAfter hmem
  | block height block data hdata =>
      rcases List.mem_append.mp hmem with hmem | hmem
      · cases mem_bundleFor hmem
      · cases mem_fetchAfter hmem
  | _ => simp at hmem

theorem Handles.chainList_issued {st st' : ProcessingState} {chains : List String}
    {out : List IoCommand} (h : Handles cx config st (.chainList chains) st' out) :
    out = chains.map .fetchChainParams := by
  cases h
  rfl

/-- Only listed chains have their parameters fetched. -/
theorem fetchChainParams_listed {trace : Trace} {s : System} {c : String}
    (hrun : MonitorRun cx config trace s) (hmem : .fetchChainParams c ∈ s.cmds) :
    ∃ chains, .chainList chains ∈ handledMsgs trace ∧ c ∈ chains := by
  induction hrun with
  | nil => simp [startUp] at hmem
  | @snoc trace s e t hrun hstep ih =>
      rw [handledMsgs_snoc]
      have hold (h : .fetchChainParams c ∈ s.cmds) :
          ∃ chains, .chainList chains ∈ handledMsgs trace ++ e.handledMsg?.toList ∧
            c ∈ chains := by
        obtain ⟨chains, hlist, hc⟩ := ih h
        exact ⟨chains, List.mem_append_left _ hlist, hc⟩
      cases e with
      | fed =>
          apply hold
          cases hstep
          simpa [monitor] using hmem
      | answered cmd out =>
          apply hold
          cases hstep
          exact List.mem_cons_of_mem _ hmem
      | handled msg out =>
          have hcmds : t.cmds = s.cmds ++ out := by
            cases hstep
            rfl
          rw [hcmds] at hmem
          rcases List.mem_append.mp hmem with hmem | hmem
          · exact hold hmem
          · obtain ⟨chains, rfl, hc⟩ := (step_handles hstep).fetchChainParams_issued hmem
            exact ⟨chains, by simp, hc⟩

theorem Remembered.answered {trace : Trace} {s t : System} {cmd : IoCommand}
    {out : List IoResult} {c : String} (hrem : Remembered cx trace s c)
    (hstep : Step (monitor cx config) s (.answered cmd out) t)
    (hnamed : namesChain cx (.answered cmd out))
    (hno : ¬ ForgettingFailure cx trace ⟨s, .answered cmd out⟩) :
    Remembered cx (trace ++ [⟨s, .answered cmd out⟩]) t c := by
  rcases hrem with hin | ⟨q, hq, hname⟩ | hcmd
  · exact Or.inl (hin.step hstep)
  · right
    left
    cases hstep
    exact ⟨q, List.mem_append_left _ hq, hname⟩
  · have hanswers := step_answers hstep
    by_contra hforgotten
    apply hno
    have hinstalled : ¬ Installed cx trace s c := by
      intro hin
      exact hforgotten (Or.inl (hin.step hstep))
    cases hstep with
    | answer env st cmd cmds results out hexec =>
        have hlater : .fetchChainParams c ∉ cmds := by
          intro hlater
          exact hforgotten (Or.inr (Or.inr hlater))
        have hresults (q : ChainParams) (hq : .chainParams q ∈ results ++ out) :
            cx.toLowercase q.name ≠ cx.toLowercase c := by
          intro hname
          exact hforgotten (Or.inr (Or.inl ⟨q, hq, hname⟩))
        obtain rfl : cmd = .fetchChainParams c :=
          ((List.mem_cons.mp hcmd).resolve_right hlater).symm
        cases hanswers with
        | chainParams _ q =>
            exact absurd (of_decide_eq_true hnamed) (hresults q (by simp))
        | chainParamsFailed _ =>
            refine ⟨c, rfl, hinstalled, ?_, hlater⟩
            intro q hq
            exact hresults q (List.mem_append_left _ hq)

theorem Remembered.handled {trace : Trace} {s t : System} {msg : IoResult}
    {out : List IoCommand} {c : String} (hrem : Remembered cx trace s c)
    (hstep : Step (monitor cx config) s (.handled msg out) t) :
    Remembered cx (trace ++ [⟨s, .handled msg out⟩]) t c := by
  rcases hrem with hin | ⟨q, hq, hname⟩ | hcmd
  · exact Or.inl (hin.step hstep)
  · have hstep' := hstep
    cases hstep with
    | handle st st' msg cmds out results hhandle =>
        rcases List.mem_cons.mp hq with rfl | hlater
        · exact Or.inl (installed_of_handled hstep' hname)
        · exact Or.inr (Or.inl ⟨q, hlater, hname⟩)
  · right
    right
    cases hstep
    exact List.mem_append_left _ hcmd

theorem remembered_of_listed {trace : Trace} {s t : System} {chains : List String}
    {out : List IoCommand} {c : String}
    (hstep : Step (monitor cx config) s (.handled (.chainList chains) out) t)
    (hc : c ∈ chains) : Remembered cx (trace ++ [⟨s, .handled (.chainList chains) out⟩]) t c := by
  right
  right
  have hout : .fetchChainParams c ∈ out := by
    rw [(step_handles hstep).chainList_issued]
    exact List.mem_map_of_mem hc
  cases hstep
  exact List.mem_append_right _ hout

theorem run_remembered {trace : Trace} {s : System} {chains : List String} {c : String}
    (hrun : MonitorRun cx config trace s) (hnamed : NamesChains cx trace)
    (hno : ∀ earlier x later, trace = earlier ++ x :: later → ¬ ForgettingFailure cx earlier x)
    (hlist : .chainList chains ∈ handledMsgs trace) (hc : c ∈ chains) :
    Remembered cx trace s c := by
  induction hrun with
  | nil => simp at hlist
  | @snoc trace s e t hrun hstep ih =>
      have hold (h : .chainList chains ∈ handledMsgs trace) : Remembered cx trace s c := by
        apply ih _ _ h
        · intro x hx
          exact hnamed x (List.mem_append_left _ hx)
        · intro earlier x later hsplit
          exact hno earlier x (later ++ [⟨s, e⟩]) (by simp [hsplit])
      have hlast := hno trace ⟨s, e⟩ [] rfl
      have hname := hnamed ⟨s, e⟩ (List.mem_append_right _ List.mem_cons_self)
      rw [handledMsgs_snoc, List.mem_append] at hlist
      cases e with
      | fed =>
          rcases hold (by simpa using hlist) with hin | hresult | hcmd
          · exact Or.inl (hin.step hstep)
          · right
            left
            cases hstep
            exact hresult
          · right
            right
            cases hstep
            exact List.mem_append_left _ hcmd
      | answered cmd out => exact (hold (by simpa using hlist)).answered hstep hname hlast
      | handled msg out =>
          rcases hlist with hlist | hlist
          · exact (hold hlist).handled hstep
          · obtain rfl : IoResult.chainList chains = msg := by simpa using hlist
            exact remembered_of_listed hstep hc

/-- Every chain of a received list stays remembered in every configuration of
a run, exactly when no parameter fetch of the run is a forgetting failure. -/
theorem chains_remembered_iff {trace : Trace} {s : System}
    (hrun : MonitorRun cx config trace s) (hnamed : NamesChains cx trace) :
    (∀ earlier later t, trace = earlier ++ later → MonitorRun cx config earlier t →
      ∀ chains, .chainList chains ∈ handledMsgs earlier → ∀ c ∈ chains,
        Remembered cx earlier t c) ↔
      ∀ earlier x later, trace = earlier ++ x :: later → ¬ ForgettingFailure cx earlier x := by
  constructor
  · rintro hall earlier ⟨u, e⟩ later rfl ⟨c, rfl, hinstalled, hresults, hcmds⟩
    obtain ⟨hreach, v, hstep, -⟩ := hrun.before_reached rfl
    have hcmd : .fetchChainParams c ∈ u.cmds := by
      cases hstep
      exact List.mem_cons_self
    obtain ⟨chains, hlist, hc⟩ := fetchChainParams_listed hreach hcmd
    have hlist' : .chainList chains ∈
        handledMsgs (earlier ++ [⟨u, .answered (.fetchChainParams c) []⟩]) := by
      simpa using hlist
    have hrem := hall _ later v (by simp) (hreach.snoc hstep) chains hlist' c hc
    rcases hrem with ⟨q, hq, hname, hget⟩ | ⟨q, hq, hname⟩ | hcmd'
    · apply hinstalled
      rw [hstep.state_answered] at hget
      exact ⟨q, by simpa using hq, hname, hget⟩
    · cases hstep
      exact hresults q (by simpa using hq) hname
    · cases hstep
      exact hcmds hcmd'
  · rintro hno earlier later t rfl hreach chains hlist c hc
    apply run_remembered hreach _ _ hlist hc
    · intro x hx
      exact hnamed x (List.mem_append_left _ hx)
    · intro before x after hsplit
      exact hno before x (after ++ later) (by simp [hsplit])

/-- The only parameter fetch of the run fails. -/
def Sample.paramsFail : List (Action Http) := [serves chainListJson, .handle, fails]

theorem forgetting_failure_of_params_fail :
    ∃ r : Trace × System, MonitorRun Sample.codecs Sample.config r.1 r.2 ∧
      ∃ earlier x later, r.1 = earlier ++ x :: later ∧
        ForgettingFailure Sample.codecs earlier x := by
  have hreplay : ∃ r ∈ Sample.replay Sample.config Sample.paramsFail,
      NamesChains Sample.codecs r.1 ∧ handledMsgs r.1 = [.chainList ["eth"]] ∧
      r.2.cmds = [] ∧ r.2.results = [] := by
    decide +kernel
  obtain ⟨r, hrun, hnamed, hhandled, hcmds, hresults⟩ := Sample.run_of_replay hreplay
  refine ⟨r, hrun, ?_⟩
  by_contra hno
  have hall := (chains_remembered_iff hrun hnamed).mpr fun earlier x later hsplit hfail =>
    hno ⟨earlier, x, later, hsplit, hfail⟩
  have hrem := hall r.1 [] r.2 (by simp) hrun ["eth"] (by simp [hhandled]) "eth"
    List.mem_cons_self
  simp [Remembered, Installed, hhandled, hcmds, hresults] at hrem

/-- Nothing is queued for the chain, and no error has been counted. -/
theorem listed_chain_forgotten :
    ∃ r : Trace × System, MonitorRun Sample.codecs Sample.config r.1 r.2 ∧
      NamesChains Sample.codecs r.1 ∧ .chainList ["eth"] ∈ handledMsgs r.1 ∧
      r.2.state.fetchErrorCount = 0 ∧ ¬ Remembered Sample.codecs r.1 r.2 "eth" := by
  have hreplay : ∃ r ∈ Sample.replay Sample.config Sample.paramsFail,
      NamesChains Sample.codecs r.1 ∧ handledMsgs r.1 = [.chainList ["eth"]] ∧
      r.2.state.fetchErrorCount = 0 ∧ r.2.cmds = [] ∧ r.2.results = [] := by
    decide +kernel
  obtain ⟨r, hrun, hnamed, hhandled, hcount, hcmds, hresults⟩ := Sample.run_of_replay hreplay
  refine ⟨r, hrun, hnamed, by simp [hhandled], hcount, ?_⟩
  intro hrem
  simp [Remembered, Installed, hhandled, hcmds, hresults] at hrem

end AxelarMonitor
