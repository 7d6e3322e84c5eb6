import AxelarMonitor.AppliedOnce

/-!
Bundles: the poll creations of a block on their way to the block results that
open them. A height has one bundle at most, and a bundle stays ahead of the
next block fetch in the queues until its first failure sends it to the end.
-/

namespace AxelarMonitor

open FifoLoop

variable {cx : Codecs} {config : Config}

inductive Work where
  | fetch
  | bundle (height : Nat) (polls : List PollData)
  deriving DecidableEq

def IoCommand.work? : IoCommand → Option Work
  | .fetchBlock _ _ => some .fetch
  | .fetchBlockResults height polls _ => some (.bundle height polls)
  | _ => none

def IoResult.work? : IoResult → Option Work
  | .block _ _ => some .fetch
  | .fetchError _ _ _ => some .fetch
  | .blockResults height _ polls => some (.bundle height polls)
  | .fetchBlockResultsError height polls _ _ => some (.bundle height polls)
  | _ => none

def workProbe : Probe IoCommand IoResult Work := ⟨IoCommand.work?, IoResult.work?⟩

theorem workProbe_keeps {s t : System} {cmd : IoCommand} {out : List IoResult}
    (hstep : Step (monitor cx config) s (.answered cmd out) t) :
    workProbe.Keeps (.answered cmd out) := by
  cases step_answers hstep <;> rfl

/-- Feeding and answering leave the outstanding work as it is. -/
theorem work_unchanged {s t : System} {e : Event IoCommand IoResult}
    (hstep : Step (monitor cx config) s e t) (he : e.handledMsg? = none) :
    workProbe.view t = workProbe.view s := by
  cases e with
  | fed => exact (workProbe.view_fed hstep).trans (List.append_nil _)
  | answered cmd out => exact workProbe.view_answered hstep (workProbe_keeps hstep)
  | handled msg out => cases he

theorem fetch_not_mem_work {s : System} (hidle : blockFetches s = []) :
    .fetch ∉ workProbe.view s := by
  obtain ⟨hresults, hcmds⟩ := List.append_eq_nil_iff.mp hidle
  intro hmem
  rcases List.mem_append.mp hmem with hmem | hmem
  · obtain ⟨msg, hmsg, hfetch⟩ := List.mem_filterMap.mp hmem
    have hnone := List.filterMap_eq_nil_iff.mp hresults msg hmsg
    cases msg <;> cases hfetch
    all_goals cases hnone
  · obtain ⟨cmd, hcmd, hfetch⟩ := List.mem_filterMap.mp hmem
    have hnone := List.filterMap_eq_nil_iff.mp hcmds cmd hcmd
    cases cmd <;> cases hfetch
    cases hnone

def Work.bundle? : Work → Option (Nat × List PollData)
  | .fetch => none
  | .bundle height polls => some (height, polls)

/-- The outstanding bundles with their heights: those of the results not yet
processed, then those of the queued commands. -/
def bundles (s : System) : List (Nat × List PollData) :=
  (workProbe.view s).filterMap Work.bundle?

def bundleHeights (s : System) : List Nat := (bundles s).map Prod.fst

theorem mem_bundles {s : System} {h : Nat} {polls : List PollData} :
    (h, polls) ∈ bundles s ↔ .bundle h polls ∈ workProbe.view s := by
  unfold bundles
  rw [List.mem_filterMap]
  constructor
  · rintro ⟨w, hw, heq⟩
    cases w with
    | fetch => cases heq
    | bundle h' polls' =>
        cases heq
        exact hw
  · intro hw
    exact ⟨_, hw, rfl⟩

theorem bundles_unchanged {s t : System} {e : Event IoCommand IoResult}
    (hstep : Step (monitor cx config) s e t) (he : e.handledMsg? = none) :
    bundles t = bundles s := by
  unfold bundles
  rw [work_unchanged hstep he]

def IoCommand.bundle? (cmd : IoCommand) : Option (Nat × List PollData) :=
  cmd.work?.bind Work.bundle?

def IoResult.bundle? (msg : IoResult) : Option (Nat × List PollData) :=
  msg.work?.bind Work.bundle?

/-- A handled message takes its bundle off the queues and adds those it asks
block results for. -/
theorem bundles_handled {s t : System} {msg : IoResult} {out : List IoCommand}
    (hstep : Step (monitor cx config) s (.handled msg out) t) :
    ∃ rest, bundles s = msg.bundle?.toList ++ rest ∧
      bundles t = rest ++ out.filterMap IoCommand.bundle? := by
  obtain ⟨rest, hbefore, hafter⟩ := workProbe.view_handled hstep
  refine ⟨rest.filterMap Work.bundle?, ?_, ?_⟩
  · rw [bundles, hbefore, List.filterMap_append]
    congr 1
    unfold IoResult.bundle?
    simp only [workProbe]
    cases msg.work? with
    | none => rfl
    | some w => cases w <;> rfl
  · rw [bundles, hafter, List.filterMap_append]
    congr 1
    simp only [workProbe, List.filterMap_filterMap]
    rfl

/-- A message asks for the bundle it brings back or for that of its block. -/
theorem Handles.bundle_issued {st st' : ProcessingState} {msg : IoResult}
    {out : List IoCommand} (h : Handles cx config st msg st' out) :
    ∀ p ∈ out.filterMap IoCommand.bundle?, msg.bundle? = some p ∨ ∃ b, msg = .block p.1 b := by
  intro p hp
  rcases h.filterMap_bundles IoCommand.bundle? (fun _ _ => rfl) (fun _ => rfl) rfl with
    ⟨height, block, data, rfl, -, hout⟩ | ⟨height, polls, retries, error, rfl, hout⟩ | hout
  · rw [hout] at hp
    obtain ⟨cmd, hcmd, heq⟩ := List.mem_filterMap.mp hp
    rw [mem_bundleFor hcmd] at heq
    cases heq
    exact Or.inr ⟨block, rfl⟩
  · rw [hout] at hp
    exact Or.inl (Option.mem_toList.mp hp)
  · rw [hout] at hp
    cases hp

def IoResult.opened? : IoResult → Option Nat
  | .blockResults height _ _ => some height
  | _ => none

/-- The heights whose block results have been handled. -/
def openedHeights (trace : Trace) : List Nat := (handledMsgs trace).filterMap IoResult.opened?

theorem openedHeights_snoc (trace : Trace)
    (x : Transition ProcessingState IoCommand IoResult) :
    openedHeights (trace ++ [x]) =
      openedHeights trace ++ (x.event.handledMsg?.bind IoResult.opened?).toList :=
  filterMap_handledMsgs_snoc IoResult.opened? trace x

theorem openedHeights_subset_snoc {trace : Trace}
    {x : Transition ProcessingState IoCommand IoResult} {h : Nat} (hh : h ∈ openedHeights trace) :
    h ∈ openedHeights (trace ++ [x]) := by
  rw [openedHeights_snoc]
  exact List.mem_append_left _ hh

/-- A message asks again for the bundle it brings back, or for a fresh one. -/
theorem Handles.count_bundles {st st' : ProcessingState} {msg : IoResult}
    {out : List IoCommand} (h : Handles cx config st msg st' out) (n : Nat) :
    ((out.filterMap IoCommand.bundle?).map Prod.fst).count n + msg.opened?.toList.count n ≤
      (msg.bundle?.toList.map Prod.fst).count n +
        (out.filterMap IoCommand.freshBundle?).count n := by
  have hfetch := @filterMap_fetchAfter _ IoCommand.bundle? (fun _ => rfl)
  cases h with
  | skipBlock h retries error hgiveup => simp [hfetch, IoResult.opened?]
  | chainList chains =>
      rw [filterMap_paramFetches (fun _ => rfl)]
      exact Nat.zero_le _
  | block height block data hdata =>
      rw [List.filterMap_append, hfetch, List.filterMap_append,
        @filterMap_fetchAfter _ IoCommand.freshBundle? (fun _ => rfl)]
      unfold bundleFor
      split <;> simp [IoResult.opened?, IoCommand.bundle?, IoCommand.work?, Work.bundle?,
        IoCommand.freshBundle?]
  | retryResults height polls retries error hretry => exact Nat.le_refl _
  | blockResults height results polls =>
      simp [IoResult.opened?, IoResult.bundle?, IoResult.work?, Work.bundle?]
  | _ => exact Nat.zero_le _

theorem count_bundles {trace : Trace} {s : System} (hrun : MonitorRun cx config trace s)
    (n : Nat) :
    (openedHeights trace).count n + (bundleHeights s).count n ≤ (freshBundles trace).count n := by
  induction hrun with
  | nil => exact Nat.le_refl _
  | @snoc trace s e t hrun hstep ih =>
      rw [openedHeights_snoc, freshBundles, issued_snoc, List.filterMap_append]
      cases e with
      | handled msg out =>
          obtain ⟨rest, hbefore, hafter⟩ := bundles_handled hstep
          have hstepCount := (step_handles hstep).count_bundles n
          rw [bundleHeights, hbefore, freshBundles] at ih
          rw [bundleHeights, hafter]
          simp only [List.map_append, List.count_append, handledMsg?_handled,
            Option.bind_some, issued_handled] at ih ⊢
          omega
      | _ =>
          rw [bundleHeights, bundles_unchanged hstep rfl]
          simpa [bundleHeights, freshBundles] using ih

theorem processedHeights_increasing {trace : Trace} {s : System}
    (hrun : MonitorRun cx config trace s) (hsteady : Steady trace) :
    (processedHeights trace).Pairwise (· < ·) :=
  (settledHeights_increasing hrun hsteady).1.sublist (processedHeights_sublist trace)

theorem processedHeights_lt {trace : Trace} {s t : System} {h : Nat} {b : Block}
    {out : List IoCommand} (hrun : MonitorRun cx config trace s)
    (hstep : Step (monitor cx config) s (.handled (.block h b) out) t)
    (hsteady : Steady (trace ++ [⟨s, .handled (.block h b) out⟩])) :
    ∀ n ∈ processedHeights trace, n < h := by
  have hincreasing := processedHeights_increasing (hrun.snoc hstep) hsteady
  rw [processedHeights, processedBlocks_snoc, List.map_append] at hincreasing
  intro n hn
  exact (List.pairwise_append.mp hincreasing).2.2 n hn h List.mem_cons_self

/-- The block results of a height are handled once at most, and not while its
bundle is still under way. -/
theorem openedHeights_nodup {trace : Trace} {s : System} (hrun : MonitorRun cx config trace s)
    (hsteady : Steady trace) : (openedHeights trace ++ bundleHeights s).Nodup := by
  have hfresh : (freshBundles trace).Nodup :=
    ((processedHeights_increasing hrun hsteady).sublist (freshBundles_sublist hrun)).imp ne_of_lt
  rw [List.nodup_iff_count_le_one]
  intro n
  rw [List.count_append]
  exact (count_bundles hrun n).trans (List.nodup_iff_count_le_one.mp hfresh n)

def IoResult.failed? : IoResult → Option Nat
  | .fetchBlockResultsError height _ _ _ => some height
  | _ => none

/-- The heights whose block results could not be fetched at some attempt. -/
def failedBundles (trace : Trace) : List Nat := (handledMsgs trace).filterMap IoResult.failed?

theorem failedBundles_snoc (trace : Trace)
    (x : Transition ProcessingState IoCommand IoResult) :
    failedBundles (trace ++ [x]) =
      failedBundles trace ++ (x.event.handledMsg?.bind IoResult.failed?).toList :=
  filterMap_handledMsgs_snoc IoResult.failed? trace x

theorem failedBundles_append (first second : Trace) :
    failedBundles (first ++ second) = failedBundles first ++ failedBundles second := by
  rw [failedBundles, handledMsgs_append, List.filterMap_append]
  rfl

/-- Only bundles that failed before are behind a block fetch, and there is one
block fetch at most. -/
def InOrder (failed : List Nat) : List Work → Prop
  | [] => True
  | .bundle _ _ :: rest => InOrder failed rest
  | .fetch :: rest => ∀ w ∈ rest, ∃ h polls, w = .bundle h polls ∧ h ∈ failed

theorem inOrder_of_no_fetch {failed : List Nat} {work : List Work} (h : .fetch ∉ work) :
    InOrder failed work := by
  induction work with
  | nil => trivial
  | cons w rest ih =>
      rw [List.mem_cons, not_or] at h
      cases w with
      | fetch => exact absurd rfl h.1
      | bundle height polls => exact ih h.2

theorem InOrder.no_fetch_behind {failed : List Nat} {rest : List Work}
    (h : InOrder failed (.fetch :: rest)) : .fetch ∉ rest := by
  intro hmem
  obtain ⟨height, polls, heq, -⟩ := h .fetch hmem
  cases heq

theorem InOrder.mono {failed failed' : List Nat} {work : List Work}
    (hsub : ∀ n ∈ failed, n ∈ failed') (h : InOrder failed work) : InOrder failed' work := by
  induction work with
  | nil => trivial
  | cons w rest ih =>
      cases w with
      | fetch =>
          intro w hw
          obtain ⟨height, polls, heq, hfailed⟩ := h w hw
          exact ⟨height, polls, heq, hsub height hfailed⟩
      | bundle height polls => exact ih h

/-- A fetch may join where there is none. -/
theorem inOrder_append_fetch {failed : List Nat} {work : List Work} (h : .fetch ∉ work) :
    InOrder failed (work ++ [.fetch]) := by
  induction work with
  | nil =>
      intro w hw
      cases hw
  | cons w rest ih =>
      rw [List.mem_cons, not_or] at h
      cases w with
      | fetch => exact absurd rfl h.1
      | bundle height polls => exact ih h.2

/-- A failed bundle may join anywhere. -/
theorem InOrder.append_failed {failed : List Nat} {work : List Work} {height : Nat}
    {polls : List PollData} (h : InOrder failed work) (hfailed : height ∈ failed) :
    InOrder failed (work ++ [.bundle height polls]) := by
  induction work with
  | nil => trivial
  | cons w rest ih =>
      cases w with
      | fetch =>
          intro w hw
          rcases List.mem_append.mp hw with hw | hw
          · exact h w hw
          · exact ⟨height, polls, List.mem_singleton.mp hw, hfailed⟩
      | bundle height polls => exact ih h

/-- The work that a settled block leaves is in order whatever it adds. -/
theorem inOrder_of_block {failed : List Nat} {rest : List Work} {height : Nat}
    (data : RawBlockData) (tip : Nat) (h : .fetch ∉ rest) :
    InOrder failed (rest ++
      (bundleFor height data ++ fetchAfter tip height).filterMap IoCommand.work?) := by
  have hbundle : .fetch ∉ rest ++ (bundleFor height data).filterMap IoCommand.work? := by
    rw [List.mem_append, not_or]
    refine ⟨h, ?_⟩
    unfold bundleFor
    split <;> simp [IoCommand.work?]
  rw [List.filterMap_append, ← List.append_assoc]
  unfold fetchAfter
  split
  · exact inOrder_append_fetch hbundle
  · simpa using inOrder_of_no_fetch hbundle

theorem InOrder.handled {failed : List Nat} {s t : System} {msg : IoResult}
    {out : List IoCommand} (hin : InOrder failed (workProbe.view s))
    (hstep : Step (monitor cx config) s (.handled msg out) t)
    (hidle : s.state.lastProcessedHeight = 0 ∨
      s.state.chainTip = s.state.lastProcessedHeight → .fetch ∉ workProbe.view s) :
    InOrder (failed ++ msg.failed?.toList) (workProbe.view t) := by
  obtain ⟨rest, hbefore, hafter⟩ := workProbe.view_handled hstep
  rw [hafter]
  rw [hbefore] at hin hidle
  generalize hst : t.state = st'
  have hhandles := step_handles hstep
  rw [hst] at hhandles
  simp only [workProbe] at hin hidle ⊢
  cases hhandles with
  | retryBlock h retries error hretry => exact inOrder_append_fetch hin.no_fetch_behind
  | skipBlock h retries error hgiveup =>
      exact inOrder_of_block ⟨[], []⟩ s.state.chainTip hin.no_fetch_behind
  | block height block data hdata =>
      exact inOrder_of_block data s.state.chainTip hin.no_fetch_behind
  | retryResults height polls retries error hretry =>
      have hrest : InOrder (failed ++ [height]) rest :=
        InOrder.mono (fun n hn => List.mem_append_left _ hn) hin
      exact hrest.append_failed (List.mem_append_right _ List.mem_cons_self)
  | dropResults height polls retries error hgiveup =>
      rw [List.filterMap_nil, List.append_nil]
      exact InOrder.mono (fun n hn => List.mem_append_left _ hn) hin
  | latestError retries error =>
      exact inOrder_of_no_fetch (by simpa using hin.no_fetch_behind)
  | chainList chains =>
      rw [filterMap_paramFetches (fun _ => rfl), List.append_nil]
      simpa [IoResult.work?, IoResult.failed?] using hin
  | firstHead height hsentinel => exact inOrder_append_fetch (hidle (Or.inl hsentinel))
  | nextHead height hstarted hahead hcaughtUp =>
      exact inOrder_append_fetch (hidle (Or.inr hcaughtUp))
  | _ =>
      simpa [IoResult.work?, IoResult.failed?, IoCommand.work?, List.filterMap_cons, InOrder]
        using hin

theorem work_inOrder {trace : Trace} {s : System} (hrun : MonitorRun cx config trace s)
    (hsteady : Steady trace) : InOrder (failedBundles trace) (workProbe.view s) := by
  induction hrun with
  | nil => trivial
  | @snoc trace s e t hrun hstep ih =>
      have hearlier := hsteady.earlier
      rw [failedBundles_snoc]
      cases e with
      | handled msg out =>
          apply (ih hearlier).handled hstep
          intro hidle
          exact fetch_not_mem_work (idle_when_caughtUp hrun hearlier hidle)
      | _ =>
          rw [work_unchanged hstep rfl]
          simpa using ih hearlier

/-- Whatever is still under way when a block is processed has failed before. -/
theorem bundles_at_block {trace : Trace} {s t : System} {h : Nat} {b : Block}
    {out : List IoCommand} (hrun : MonitorRun cx config trace s) (hsteady : Steady trace)
    (hstep : Step (monitor cx config) s (.handled (.block h b) out) t) :
    ∀ n ∈ bundleHeights s, n ∈ failedBundles trace := by
  obtain ⟨rest, hbefore, -⟩ := workProbe.view_handled hstep
  have hin := work_inOrder hrun hsteady
  rw [hbefore] at hin
  intro n hn
  obtain ⟨⟨k, polls⟩, hmem, rfl⟩ := List.mem_map.mp hn
  rw [mem_bundles, hbefore] at hmem
  obtain ⟨k', polls', heq, hfailed⟩ := hin _ ((List.mem_cons.mp hmem).resolve_left (by simp))
  cases heq
  exact hfailed

/-- The RPC node returns the block results of the requested height. -/
def returnsResults (results : Nat → BlockResults) : Event IoCommand IoResult → Bool
  | .answered (.fetchBlockResults h _ _) [.blockResults _ br _] => br = results h
  | _ => true

def HonestResults (results : Nat → BlockResults) (trace : Trace) : Prop :=
  ∀ x ∈ trace, returnsResults results x.event

instance (results : Nat → BlockResults) (trace : Trace) :
    Decidable (HonestResults results trace) :=
  inferInstanceAs (Decidable (∀ x ∈ trace, returnsResults results x.event))

/-- The poll events of different heights have different poll ids. -/
def UniquePollIds (cx : Codecs) (results : Nat → BlockResults) : Prop :=
  ∀ h h' id, id ∈ eventIds cx (results h) → id ∈ eventIds cx (results h') → h = h'

def Sample.resultsAt (h : Nat) : BlockResults := if h = 5 then Sample.results else ⟨none⟩

theorem Sample.resultsAt_unique : UniquePollIds Sample.codecs Sample.resultsAt := by
  have hfive {h id : Nat} (hid : id ∈ eventIds Sample.codecs (Sample.resultsAt h)) : h = 5 := by
    unfold Sample.resultsAt at hid
    split at hid
    · assumption
    · cases hid
  intro h h' id hid hid'
  rw [hfive hid, hfive hid']

theorem HonestResults.earlier {results : Nat → BlockResults} {first second : Trace}
    (h : HonestResults results (first ++ second)) : HonestResults results first := by
  intro x hx
  exact h x (List.mem_append_left _ hx)

theorem HonestResults.handled {results : Nat → BlockResults} {trace : Trace} {s : System}
    (hhonest : HonestResults results trace) (hrun : MonitorRun cx config trace s) {h : Nat}
    {br : BlockResults} {polls : List PollData}
    (hmem : .blockResults h br polls ∈ handledMsgs trace) : br = results h := by
  obtain ⟨x, hx, http, cmd, out, hevent, hexec, hout⟩ := hrun.handled_answered rfl hmem
  have hreturns := hhonest x hx
  rw [hevent] at hreturns
  cases exec_answers hexec with
  | results height polls' retries br' =>
      cases List.mem_singleton.mp hout
      exact of_decide_eq_true hreturns
  | _ => simp at hout

/-- No attempt to fetch block results fails. -/
def failsResults : Event IoCommand IoResult → Bool
  | .answered (.fetchBlockResults _ _ _) [.fetchBlockResultsError _ _ _ _] => true
  | _ => false

def ResultsSucceed (trace : Trace) : Prop := ∀ x ∈ trace, failsResults x.event = false

instance (trace : Trace) : Decidable (ResultsSucceed trace) :=
  inferInstanceAs (Decidable (∀ x ∈ trace, failsResults x.event = false))

theorem ResultsSucceed.failedBundles_eq {trace : Trace} {s : System}
    (hsucceed : ResultsSucceed trace) (hrun : MonitorRun cx config trace s) :
    failedBundles trace = [] := by
  rw [failedBundles, List.filterMap_eq_nil_iff]
  intro msg hmsg
  cases msg with
  | fetchBlockResultsError height polls retries error =>
      obtain ⟨x, hx, http, cmd, out, hevent, hexec, hout⟩ := hrun.handled_answered rfl hmsg
      have hok := hsucceed x hx
      rw [hevent] at hok
      cases exec_answers hexec with
      | resultsFailed _ _ _ _ => cases hok
      | _ => simp at hout
  | _ => rfl

end AxelarMonitor
