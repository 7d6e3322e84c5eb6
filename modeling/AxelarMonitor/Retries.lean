import AxelarMonitor.Handlers
import AxelarMonitor.Lib.FifoWeights

/-!
Bounded retries. Blocks and block results are fetched in families of attempts;
the retry count travels with the command, so each attempt can be charged to the
failure of the one before it.
-/

namespace AxelarMonitor

open FifoLoop

variable {cx : Codecs} {config : Config}

def attempts (trace : Trace) (cmd : IoCommand) : Nat :=
  ((answers trace).map Prod.fst).count cmd

def failures (trace : Trace) (failed : IoResult → Bool) : Nat :=
  ((answers trace).flatMap Prod.snd).countP failed

/-- The attempts at one fetch: each but the first is issued for the failure of
the one before, and the last retry is not repeated. -/
structure RetryFamily (cx : Codecs) (config : Config) (attempt : Nat → IoCommand)
    (failed : Nat → IoResult → Bool) : Prop where
  not_fed : ∀ r, attempt r ≠ .fetchHead ∧ attempt r ≠ .fetchChainList
  reissued : ∀ st st' msg out r, Handles cx config st msg st' out →
    out.count (attempt (r + 1)) ≤ [msg].countP (failed r)
  given_up : ∀ st st' msg out r, Handles cx config st msg st' out → maxFetchRetries < r →
    out.count (attempt r) = 0
  reported : ∀ cmd out r, Answers cmd out → out.countP (failed r) ≤ [cmd].count (attempt r)

/-- Each retry is paid for by a failure of the attempt before it, so a fetch
that is issued once is attempted at most `MAX_FETCH_RETRIES + 1` times. -/
structure RetriesBounded (attempt : Nat → IoCommand) (failed : Nat → IoResult → Bool)
    (trace : Trace) : Prop where
  first : attempts trace (attempt 0) ≤ (issued trace).count (attempt 0)
  retried : ∀ r, attempts trace (attempt (r + 1)) ≤ failures trace (failed r)
  reported : ∀ r, failures trace (failed r) ≤ attempts trace (attempt r)
  given_up : ∀ r, maxFetchRetries < r → attempts trace (attempt r) = 0
  total : ((List.range (maxFetchRetries + 1)).map (fun r => attempts trace (attempt r))).sum ≤
    (maxFetchRetries + 1) * (issued trace).count (attempt 0)

section RetryFamily

variable {attempt : Nat → IoCommand} {failed : Nat → IoResult → Bool} {trace : Trace}
  {s : System}

theorem RetryFamily.attempts_le_issued (hfam : RetryFamily cx config attempt failed)
    (hrun : MonitorRun cx config trace s) (r : Nat) :
    attempts trace (attempt r) ≤ (issued trace).count (attempt r) := by
  have hcount := hrun.count_answered (hfam.not_fed r).1
  have hstart : (startUp cx config).cmds.count (attempt r) = 0 := by
    rw [List.count_eq_zero]
    intro hmem
    exact (hfam.not_fed r).2 (List.mem_singleton.mp hmem)
  unfold attempts
  omega

theorem RetryFamily.issued_le_handled (hfam : RetryFamily cx config attempt failed)
    (hrun : MonitorRun cx config trace s) (r : Nat) :
    (issued trace).count (attempt (r + 1)) ≤ (handledMsgs trace).countP (failed r) := by
  induction hrun with
  | nil => exact Nat.le_refl 0
  | @snoc trace s e t hrun hstep ih =>
      rw [issued_snoc, handledMsgs_snoc, List.count_append, List.countP_append]
      cases e with
      | handled msg out =>
          exact Nat.add_le_add ih (hfam.reissued _ _ msg out r (step_handles hstep))
      | _ => simpa using ih

theorem handled_le_failures (hrun : MonitorRun cx config trace s) (p : IoResult → Bool) :
    (handledMsgs trace).countP p ≤ failures trace p := by
  have hfifo := hrun.handled_append_results
  rw [show (startUp cx config).results = [] from rfl, List.nil_append] at hfifo
  rw [failures, ← hfifo, List.countP_append]
  exact Nat.le_add_right _ _

theorem RetryFamily.failures_le_attempts (hfam : RetryFamily cx config attempt failed)
    (hrun : MonitorRun cx config trace s) (r : Nat) :
    failures trace (failed r) ≤ attempts trace (attempt r) := by
  unfold failures attempts
  induction hrun with
  | nil => exact Nat.le_refl 0
  | @snoc trace s e t hrun hstep ih =>
      rw [answers_snoc, List.flatMap_append, List.countP_append, List.map_append,
        List.count_append]
      cases e with
      | answered cmd out =>
          refine Nat.add_le_add ih ?_
          simpa using hfam.reported cmd out r (step_answers hstep)
      | _ => simpa using ih

theorem RetryFamily.issued_given_up (hfam : RetryFamily cx config attempt failed)
    (hrun : MonitorRun cx config trace s) {r : Nat} (hr : maxFetchRetries < r) :
    (issued trace).count (attempt r) = 0 := by
  induction hrun with
  | nil => rfl
  | @snoc trace s e t hrun hstep ih =>
      rw [issued_snoc, List.count_append, ih, Nat.zero_add]
      cases e with
      | handled msg out => exact hfam.given_up _ _ msg out r (step_handles hstep) hr
      | _ => rfl

theorem RetryFamily.bounded (hfam : RetryFamily cx config attempt failed)
    (hrun : MonitorRun cx config trace s) : RetriesBounded attempt failed trace := by
  have hfirst := hfam.attempts_le_issued hrun 0
  have hretried (r : Nat) : attempts trace (attempt (r + 1)) ≤ failures trace (failed r) :=
    calc attempts trace (attempt (r + 1))
        ≤ (issued trace).count (attempt (r + 1)) := hfam.attempts_le_issued hrun (r + 1)
      _ ≤ (handledMsgs trace).countP (failed r) := hfam.issued_le_handled hrun r
      _ ≤ failures trace (failed r) := handled_le_failures hrun _
  have hreported := hfam.failures_le_attempts hrun
  refine ⟨hfirst, hretried, hreported, ?_, ?_⟩
  · intro r hr
    have hle := hfam.attempts_le_issued hrun r
    rw [hfam.issued_given_up hrun hr] at hle
    exact Nat.le_zero.mp hle
  · have hall (r : Nat) :
        attempts trace (attempt r) ≤ (issued trace).count (attempt 0) := by
      induction r with
      | zero => exact hfirst
      | succ r ih => exact (hretried r).trans ((hreported r).trans ih)
    have h0 := hall 0
    have h1 := hall 1
    have h2 := hall 2
    have h3 := hall 3
    simp only [maxFetchRetries, List.range_succ, List.range_zero, List.nil_append,
      List.cons_append, List.map_cons, List.map_nil, List.sum_cons, List.sum_nil]
    omega

end RetryFamily

def IoResult.isFetchError (h r : Nat) : IoResult → Bool
  | .fetchError height retries _ => height = .specific h ∧ retries = r
  | _ => false

def IoResult.isBundleError (h : Nat) (polls : List PollData) (r : Nat) : IoResult → Bool
  | .fetchBlockResultsError height polls' retries _ =>
      height = h ∧ polls' = polls ∧ retries = r
  | _ => false

theorem count_fetchAfter {cmd : IoCommand} (hcmd : ∀ h, cmd ≠ .fetchBlock (.specific h) 0)
    (tip h : Nat) : (fetchAfter tip h).count cmd = 0 := by
  rw [List.count_eq_zero]
  intro hmem
  exact hcmd _ (mem_fetchAfter hmem)

theorem count_bundleFor {cmd : IoCommand}
    (hcmd : ∀ h polls, cmd ≠ .fetchBlockResults h polls 0) (h : Nat) (data : RawBlockData) :
    (bundleFor h data).count cmd = 0 := by
  rw [List.count_eq_zero]
  intro hmem
  exact hcmd _ _ (mem_bundleFor hmem)

/-- A command that no handler issues afresh is only issued as a retry. -/
theorem Handles.count_retry {st st' : ProcessingState} {msg : IoResult} {out : List IoCommand}
    (h : Handles cx config st msg st' out) {cmd : IoCommand}
    (hblock : ∀ n, cmd ≠ .fetchBlock (.specific n) 0)
    (hbundle : ∀ n polls, cmd ≠ .fetchBlockResults n polls 0)
    (hlist : cmd ≠ .fetchChainList) (hparams : ∀ c, cmd ≠ .fetchChainParams c) :
    out.count cmd = 0 ∨
      (∃ n r error, r < maxFetchRetries ∧ msg = .fetchError (.specific n) r error ∧
        out = [.fetchBlock (.specific n) (r + 1)]) ∨
      ∃ n polls r error, r < maxFetchRetries ∧ msg = .fetchBlockResultsError n polls r error ∧
        out = [.fetchBlockResults n polls (r + 1)] := by
  cases h with
  | retryBlock n r error hretry => exact Or.inr (Or.inl ⟨n, r, error, hretry, rfl, rfl⟩)
  | retryResults n polls r error hretry =>
      exact Or.inr (Or.inr ⟨n, polls, r, error, hretry, rfl, rfl⟩)
  | skipBlock n retries error hgiveup => exact Or.inl (count_fetchAfter hblock _ _)
  | block height block data hdata =>
      left
      rw [List.count_append, count_fetchAfter hblock, count_bundleFor hbundle]
  | chainList chains =>
      left
      rw [List.count_eq_zero]
      intro hmem
      obtain ⟨c, -, hc⟩ := List.mem_map.mp hmem
      exact hparams c hc.symm
  | retryChainList error =>
      left
      rw [List.count_eq_zero]
      intro hmem
      exact hlist (List.mem_singleton.mp hmem)
  | firstHead n hsentinel =>
      left
      rw [List.count_eq_zero]
      intro hmem
      exact hblock n (List.mem_singleton.mp hmem)
  | nextHead n hstarted hahead hcaughtUp =>
      left
      rw [List.count_eq_zero]
      intro hmem
      exact hblock _ (List.mem_singleton.mp hmem)
  | _ => exact Or.inl rfl

theorem blockRetries (h : Nat) : RetryFamily cx config
    (fun r => .fetchBlock (.specific h) r) (IoResult.isFetchError h) := by
  constructor
  · intro r
    exact ⟨by simp, by simp⟩
  · intro st st' msg out r hhandles
    have hcount := @Handles.count_retry cx config st st' msg out hhandles
      (.fetchBlock (.specific h) (r + 1)) (by simp) (by simp) (by simp) (by simp)
    rcases hcount with hzero | ⟨n, r', error, -, rfl, rfl⟩ | ⟨n, polls, r', error, -, rfl, rfl⟩
    · rw [hzero]
      exact Nat.zero_le _
    · by_cases hsame : n = h ∧ r' = r
      · obtain ⟨rfl, rfl⟩ := hsame
        simp [IoResult.isFetchError]
      · have hne : IoCommand.fetchBlock (.specific n) (r' + 1) ≠
            .fetchBlock (.specific h) (r + 1) := by
          simpa using hsame
        simp [hne]
    · simp
  · intro st st' msg out r hhandles hr
    have hpos : r ≠ 0 := by omega
    have hcount := @Handles.count_retry cx config st st' msg out hhandles
      (.fetchBlock (.specific h) r) (by simp [hpos]) (by simp) (by simp) (by simp)
    rcases hcount with hzero | ⟨n, r', error, hlt, rfl, rfl⟩ |
      ⟨n, polls, r', error, -, rfl, rfl⟩
    · exact hzero
    · have hne : IoCommand.fetchBlock (.specific n) (r' + 1) ≠ .fetchBlock (.specific h) r := by
        simp
        omega
      simp [hne]
    · simp
  · intro cmd out r hanswers
    cases hanswers with
    | blockFailed height retries error =>
        by_cases hsame : height = .specific h ∧ retries = r
        · obtain ⟨rfl, rfl⟩ := hsame
          simp [IoResult.isFetchError]
        · simp [IoResult.isFetchError, hsame]
    | _ => exact Nat.zero_le _

theorem bundleRetries (h : Nat) (polls : List PollData) : RetryFamily cx config
    (fun r => .fetchBlockResults h polls r) (IoResult.isBundleError h polls) := by
  constructor
  · intro r
    exact ⟨by simp, by simp⟩
  · intro st st' msg out r hhandles
    have hcount := @Handles.count_retry cx config st st' msg out hhandles
      (.fetchBlockResults h polls (r + 1)) (by simp) (by simp) (by simp) (by simp)
    rcases hcount with hzero | ⟨n, r', error, -, rfl, rfl⟩ | ⟨n, ps, r', error, -, rfl, rfl⟩
    · rw [hzero]
      exact Nat.zero_le _
    · simp
    · by_cases hsame : n = h ∧ ps = polls ∧ r' = r
      · obtain ⟨rfl, rfl, rfl⟩ := hsame
        simp [IoResult.isBundleError]
      · have hne : IoCommand.fetchBlockResults n ps (r' + 1) ≠
            .fetchBlockResults h polls (r + 1) := by
          simpa using hsame
        simp [hne]
  · intro st st' msg out r hhandles hr
    have hpos : r ≠ 0 := by omega
    have hcount := @Handles.count_retry cx config st st' msg out hhandles
      (.fetchBlockResults h polls r) (by simp) (by simp [hpos]) (by simp) (by simp)
    rcases hcount with hzero | ⟨n, r', error, -, rfl, rfl⟩ |
      ⟨n, ps, r', error, hlt, rfl, rfl⟩
    · exact hzero
    · simp
    · have hne : IoCommand.fetchBlockResults n ps (r' + 1) ≠ .fetchBlockResults h polls r := by
        simp
        omega
      simp [hne]
  · intro cmd out r hanswers
    cases hanswers with
    | resultsFailed height ps retries error =>
        by_cases hsame : height = h ∧ ps = polls ∧ retries = r
        · obtain ⟨rfl, rfl, rfl⟩ := hsame
          simp [IoResult.isBundleError]
        · simp [IoResult.isBundleError, hsame]
    | _ => exact Nat.zero_le _

/-- In every run each block fetch and each block-results fetch is attempted
again only after a failure, and at most `MAX_FETCH_RETRIES` times. -/
theorem retries_bounded {trace : Trace} {s : System} (hrun : MonitorRun cx config trace s)
    (h : Nat) :
    RetriesBounded (fun r => .fetchBlock (.specific h) r) (IoResult.isFetchError h) trace ∧
      ∀ polls, RetriesBounded (fun r => .fetchBlockResults h polls r)
        (IoResult.isBundleError h polls) trace :=
  ⟨(blockRetries h).bounded hrun, fun polls => (bundleRetries h polls).bounded hrun⟩

end AxelarMonitor
