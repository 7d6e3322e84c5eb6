import AxelarMonitor.AppliedOnce
import AxelarMonitor.Retries

/-!
The counters behind the metrics. Each failed attempt at a block, at block results
or at the chain list is counted once and is either repeated or given up. A failed
head or parameter fetch has no result, so nothing counts or repeats it.
-/

namespace AxelarMonitor

open FifoLoop

variable {cx : Codecs} {config : Config}

def IoResult.isError : IoResult → Bool
  | .fetchError _ _ _ => true
  | .fetchBlockResultsError _ _ _ _ => true
  | .fetchChainListError _ => true
  | _ => false

/-- An error after which nothing is fetched again. -/
def IoResult.isGivenUp : IoResult → Bool
  | .fetchError .latest _ _ => true
  | .fetchError (.specific _) retries _ => maxFetchRetries ≤ retries
  | .fetchBlockResultsError _ _ retries _ => maxFetchRetries ≤ retries
  | _ => false

/-- A command that repeats an earlier one. The chain list is asked for at the start
and after that only when it could not be fetched. -/
def IoCommand.isRetry : IoCommand → Bool
  | .fetchBlock _ retries => retries ≠ 0
  | .fetchBlockResults _ _ retries => retries ≠ 0
  | .fetchChainList => true
  | _ => false

/-- What is fetched again after a command has failed: the same, with one more attempt
behind it, or nothing. -/
def IoCommand.again : IoCommand → List IoCommand
  | .fetchBlock (.specific h) retries =>
      if retries < maxFetchRetries then [.fetchBlock (.specific h) (retries + 1)] else []
  | .fetchBlockResults height polls retries =>
      if retries < maxFetchRetries then [.fetchBlockResults height polls (retries + 1)] else []
  | .fetchChainList => [.fetchChainList]
  | _ => []

/-- The command that an error reports. -/
def IoResult.failedCmd? : IoResult → Option IoCommand
  | .fetchError height retries _ => some (.fetchBlock height retries)
  | .fetchBlockResultsError height polls retries _ => some (.fetchBlockResults height polls retries)
  | .fetchChainListError _ => some .fetchChainList
  | _ => none

theorem Answers.failedCmd {cmd cmd' : IoCommand} {out : List IoResult} (h : Answers cmd out)
    {msg : IoResult} (hmsg : msg ∈ out) (hfailed : msg.failedCmd? = some cmd') :
    cmd' = cmd ∧ out = [msg] := by
  cases h with
  | headFailed => cases hmsg
  | chainParamsFailed chain => cases hmsg
  | _ =>
      obtain rfl := List.mem_singleton.mp hmsg
      cases hfailed <;> exact ⟨rfl, rfl⟩

theorem filter_isRetry_fetchAfter (tip h : Nat) :
    (fetchAfter tip h).filter IoCommand.isRetry = [] := by
  unfold fetchAfter
  split <;> rfl

theorem filter_isRetry_bundleFor (height : Nat) (data : RawBlockData) :
    (bundleFor height data).filter IoCommand.isRetry = [] := by
  unfold bundleFor
  split <;> rfl

/-- Handling an error repeats what has failed, or gives up; nothing else does. -/
theorem Handles.retried {st st' : ProcessingState} {msg : IoResult} {out : List IoCommand}
    (h : Handles cx config st msg st' out) :
    out.filter IoCommand.isRetry = msg.failedCmd?.toList.flatMap IoCommand.again := by
  cases h with
  | retryBlock h retries error hretry =>
      simp [IoCommand.isRetry, IoResult.failedCmd?, IoCommand.again, hretry]
  | skipBlock h retries error hgiveup =>
      rw [filter_isRetry_fetchAfter]
      simp [IoResult.failedCmd?, IoCommand.again, hgiveup]
  | retryResults height polls retries error hretry =>
      simp [IoCommand.isRetry, IoResult.failedCmd?, IoCommand.again, hretry]
  | dropResults height polls retries error hgiveup =>
      simp [IoResult.failedCmd?, IoCommand.again, hgiveup]
  | block height block data hdata =>
      rw [List.filter_append, filter_isRetry_bundleFor, filter_isRetry_fetchAfter]
      rfl
  | chainList chains =>
      rw [List.filter_eq_nil_iff.mpr]
      · rfl
      · intro cmd hcmd
        obtain ⟨c, -, rfl⟩ := List.mem_map.mp hcmd
        simp [IoCommand.isRetry]
  | _ => rfl

/-- Handling an error counts it, and repeats the fetch or gives up. -/
theorem Handles.error_counted {st st' : ProcessingState} {msg : IoResult}
    {out : List IoCommand} (h : Handles cx config st msg st' out) :
    st'.fetchErrorCount = st.fetchErrorCount + [msg].countP IoResult.isError ∧
      out.countP IoCommand.isRetry + [msg].countP IoResult.isGivenUp =
        [msg].countP IoResult.isError := by
  constructor
  · cases h <;> rfl
  rw [List.countP_eq_length_filter, h.retried]
  cases msg with
  | fetchError height retries error =>
      cases height with
      | latest => rfl
      | specific h =>
          by_cases hretry : retries < maxFetchRetries
          · simp [IoResult.failedCmd?, IoCommand.again, IoResult.isGivenUp, IoResult.isError,
              hretry]
          · simp [IoResult.failedCmd?, IoCommand.again, IoResult.isGivenUp, IoResult.isError,
              hretry, Nat.not_lt.mp hretry]
  | fetchBlockResultsError height polls retries error =>
      by_cases hretry : retries < maxFetchRetries
      · simp [IoResult.failedCmd?, IoCommand.again, IoResult.isGivenUp, IoResult.isError, hretry]
      · simp [IoResult.failedCmd?, IoCommand.again, IoResult.isGivenUp, IoResult.isError, hretry,
          Nat.not_lt.mp hretry]
  | _ => rfl

/-- The counters that do not belong to polls, as sums over the run, and what each
error of the run has led to. -/
structure Counters (trace : Trace) (s : System) : Prop where
  /-- Errors still in the queue are the only ones not counted yet. -/
  failed : s.state.fetchErrorCount + s.results.countP IoResult.isError =
    failures trace IoResult.isError
  /-- An error that is handled is the answer to some command, and this one alone is
  repeated. -/
  each : ∀ u msg out, ⟨u, .handled msg out⟩ ∈ trace → msg.isError →
    ∃ cmd, (cmd, [msg]) ∈ answers trace ∧ out.filter IoCommand.isRetry = cmd.again
  followed : (issued trace).countP IoCommand.isRetry +
    (handledMsgs trace).countP IoResult.isGivenUp = s.state.fetchErrorCount
  height : s.state.chainHeight = (processedHeights trace).foldl max 0
  tip : s.state.chainTip = (handledHeads trace).getLast?.getD 0

theorem errors_counted {trace : Trace} {s : System} (hrun : MonitorRun cx config trace s) :
    s.state.fetchErrorCount = (handledMsgs trace).countP IoResult.isError ∧
      (issued trace).countP IoCommand.isRetry + (handledMsgs trace).countP IoResult.isGivenUp =
        (handledMsgs trace).countP IoResult.isError := by
  induction hrun with
  | nil => exact ⟨rfl, rfl⟩
  | @snoc trace s e t hrun hstep ih =>
      cases e with
      | fed => simpa [hstep.state_fed] using ih
      | answered cmd out => simpa [hstep.state_answered] using ih
      | handled msg out =>
          obtain ⟨hcount, hfollowed⟩ := (step_handles hstep).error_counted
          simp only [handledMsgs_snoc, issued_snoc, handledMsg?_handled, issued_handled,
            Option.toList_some, List.countP_append]
          omega

theorem errors_followed {trace : Trace} {s : System} (hrun : MonitorRun cx config trace s)
    {u : System} {msg : IoResult} {out : List IoCommand}
    (hx : ⟨u, .handled msg out⟩ ∈ trace) (herror : msg.isError) :
    ∃ cmd, (cmd, [msg]) ∈ answers trace ∧ out.filter IoCommand.isRetry = cmd.again := by
  obtain ⟨earlier, later, rfl⟩ := List.append_of_mem hx
  obtain ⟨-, t, hstep, -⟩ := hrun.before_reached rfl
  obtain ⟨failed, hfailed⟩ : ∃ failed, msg.failedCmd? = some failed := by
    cases msg <;> first | exact ⟨_, rfl⟩ | cases herror
  have hmsg : msg ∈ handledMsgs (earlier ++ ⟨u, .handled msg out⟩ :: later) :=
    List.mem_filterMap.mpr ⟨_, hx, rfl⟩
  obtain ⟨x, hanswered, http, cmd, sent, hevent, hexec, hsent⟩ := hrun.handled_answered rfl hmsg
  obtain ⟨rfl, rfl⟩ := (exec_answers hexec).failedCmd hsent hfailed
  refine ⟨failed, List.mem_filterMap.mpr ⟨x, hanswered, by rw [hevent]; rfl⟩, ?_⟩
  rw [(step_handles hstep).retried, hfailed, Option.toList_some, List.flatMap_singleton]

theorem chainHeight_eq {trace : Trace} {s : System} (hrun : MonitorRun cx config trace s) :
    s.state.chainHeight = (processedHeights trace).foldl max 0 := by
  induction hrun with
  | nil => rfl
  | @snoc trace s e t hrun hstep ih =>
      unfold processedHeights at ih ⊢
      rw [processedBlocks_snoc, List.map_append, List.foldl_append, ← ih]
      cases e with
      | fed => rw [hstep.state_fed]; rfl
      | answered cmd out => rw [hstep.state_answered]; rfl
      | handled msg out =>
          have hhandles := step_handles hstep
          generalize t.state = st' at hhandles
          cases hhandles <;> rfl

/-- In every run the error metric is the number of failed attempts whose results
have been processed, each followed by a repetition or by giving up, and the two
heights are the highest block and the last head. -/
theorem counters_exact {trace : Trace} {s : System} (hrun : MonitorRun cx config trace s) :
    Counters trace s where
  failed := by
    have hfifo := hrun.handled_append_results
    rw [show (startUp cx config).results = [] from rfl, List.nil_append] at hfifo
    rw [failures, ← hfifo, List.countP_append, (errors_counted hrun).1]
  each _ _ _ hx herror := errors_followed hrun hx herror
  followed := (errors_counted hrun).2.trans (errors_counted hrun).1.symm
  height := chainHeight_eq hrun
  tip := chainTip_handled hrun

/-- One failure of a block fetch and one of a head fetch; only the first counts. -/
def Sample.twoFailures : List (Action Http) :=
  [.feed, .feed, serves chainListJson, servesBlock 5, fails, .handle, .handle,
    serves chainParamsJson, fails, .handle, .handle]

theorem counters_after_two_failures :
    ∃ r : Trace × System, MonitorRun Sample.codecs Sample.config r.1 r.2 ∧
      r.2.state.fetchErrorCount = 1 ∧ Counters r.1 r.2 := by
  have hreplay : ∃ r ∈ Sample.replay Sample.config Sample.twoFailures,
      r.2.state.fetchErrorCount = 1 := by
    decide +kernel
  obtain ⟨r, hrun, hcount⟩ := Sample.run_of_replay hreplay
  exact ⟨r, hrun, hcount, counters_exact hrun⟩

end AxelarMonitor
