import AxelarMonitor.Follower
import AxelarMonitor.Handlers

/-!
The block fetches of the monitor. A run whose RPC node returns the requested
heights simulates the abstract follower: the fetches outstanding anywhere in
the two queues are the follower's pending requests.
-/

namespace AxelarMonitor

open FifoLoop

def IoCommand.fetchHeight? : IoCommand → Option Height
  | .fetchBlock height _ => some height
  | _ => none

def IoResult.fetchHeight? : IoResult → Option Height
  | .block h _ => some (.specific h)
  | .fetchError height _ _ => some height
  | _ => none

def fetchProbe : Probe IoCommand IoResult Height := ⟨IoCommand.fetchHeight?, IoResult.fetchHeight?⟩

/-- The heights of the outstanding block fetches: of the `Block` and
`FetchError` results not yet processed, then of the queued commands. -/
def blockFetches (s : System) : List Height := fetchProbe.view s

@[simp] theorem fetchAfter_heights (tip h : Nat) :
    (fetchAfter tip h).filterMap IoCommand.fetchHeight? =
      if h < tip then [.specific (h + 1)] else [] := by
  unfold fetchAfter
  split <;> rfl

/-- The RPC node returns the requested height. -/
def requestedHeight : Event IoCommand IoResult → Bool
  | .answered (.fetchBlock (.specific h) _) [.block k _] => k = h
  | _ => true

def HonestHeights (trace : Trace) : Prop := ∀ x ∈ trace, requestedHeight x.event

instance (trace : Trace) : Decidable (HonestHeights trace) :=
  inferInstanceAs (Decidable (∀ x ∈ trace, requestedHeight x.event))

def IoResult.head? : IoResult → Option Nat
  | .head h => some h
  | _ => none

/-- The heights of the successful head fetches, in order. -/
def fetchedHeads (trace : Trace) : List Nat :=
  ((answers trace).flatMap Prod.snd).filterMap IoResult.head?

def handledHeads (trace : Trace) : List Nat := (handledMsgs trace).filterMap IoResult.head?

def IoResult.settled? : IoResult → Option Nat
  | .block h _ => some h
  | .fetchError (.specific h) retries _ => if retries < maxFetchRetries then none else some h
  | _ => none

/-- The heights that were processed or, after the last retry, skipped. -/
def settledHeights (trace : Trace) : List Nat :=
  (handledMsgs trace).filterMap IoResult.settled?

theorem handledHeads_initial {cx : Codecs} {config : Config} {trace : Trace} {s : System}
    (hrun : MonitorRun cx config trace s) : handledHeads trace <+: fetchedHeads trace := by
  have hfifo := hrun.handled_append_results
  refine ⟨s.results.filterMap IoResult.head?, ?_⟩
  unfold handledHeads fetchedHeads
  rw [← List.filterMap_append, hfifo]
  rfl

/-- The tip is the last head that was handled. -/
theorem chainTip_handled {cx : Codecs} {config : Config} {trace : Trace}
    {s : System} (hrun : MonitorRun cx config trace s) :
    s.state.chainTip = (handledHeads trace).getLast?.getD 0 := by
  induction hrun with
  | nil => rfl
  | @snoc trace s e t hrun hstep ih =>
      unfold handledHeads at ih ⊢
      rw [filterMap_handledMsgs_snoc]
      cases e with
      | fed => simpa [hstep.state_fed] using ih
      | answered cmd out => simpa [hstep.state_answered] using ih
      | handled msg out =>
          have hhandles := step_handles hstep
          generalize t.state = st' at hhandles
          cases hhandles with
          | firstHead h hsentinel => simp [IoResult.head?]
          | nextHead h hstarted hahead hcaughtUp => simp [IoResult.head?]
          | moveTip h hstarted hstay => simp [IoResult.head?]
          | _ =>
              simp only [handledMsg?_handled, Option.bind_some, IoResult.head?,
                Option.toList_none, List.append_nil]
              exact ih

/-- A reply to a block fetch settles its height, unless it is an error that
leaves retries. -/
def IoResult.move? : IoResult → Option Follower.Move
  | .head h => some (.announced h)
  | .block h _ => some (.settled h)
  | .fetchError (.specific h) retries _ =>
      some (if retries < maxFetchRetries then .retried else .settled h)
  | _ => none

def moves (trace : Trace) : List Follower.Move := (handledMsgs trace).filterMap IoResult.move?

structure Follows (f : Follower) (s : System) : Prop where
  processed_eq : f.processed = s.state.lastProcessedHeight
  tip_eq : f.tip = s.state.chainTip
  pending_eq : blockFetches s = f.pending.map Height.specific

theorem Follows.keeps {cx : Codecs} {config : Config} {f : Follower} {s t : System}
    {cmd : IoCommand} {out : List IoResult} (hf : Follows f s)
    (hstep : Step (monitor cx config) s (.answered cmd out) t)
    (hhonest : requestedHeight (.answered cmd out)) : fetchProbe.Keeps (.answered cmd out) := by
  cases step_answers hstep with
  | block height retries h b =>
      have hmem : height ∈ blockFetches s := by
        cases hstep
        simp [blockFetches, Probe.view, fetchProbe, IoCommand.fetchHeight?]
      rw [hf.pending_eq, List.mem_map] at hmem
      obtain ⟨n, -, rfl⟩ := hmem
      obtain rfl : h = n := of_decide_eq_true hhonest
      rfl
  | _ => rfl

private theorem oldest_pending {pending : List Nat} {h : Nat} {rest : List Height}
    (hview : pending.map Height.specific = (some (Height.specific h)).toList ++ rest) :
    ∃ xs, pending = h :: xs ∧ rest = xs.map Height.specific := by
  obtain ⟨x, xs, rfl, hx, hxs⟩ := List.map_eq_cons_iff.mp hview
  cases hx
  exact ⟨xs, rfl, hxs.symm⟩

/-- Handling one message is one move of the follower or none. -/
theorem Follows.handled {cx : Codecs} {config : Config} {f : Follower} {s t : System}
    {msg : IoResult} {out : List IoCommand} (hf : Follows f s)
    (hstep : Step (monitor cx config) s (.handled msg out) t)
    (hpos : ∀ h, msg = .head h → 1 ≤ h) :
    ∃ g, Follows g t ∧
      ((msg.move? = none ∧ g = f) ∨ ∃ mv, msg.move? = some mv ∧ Follower.Step f mv g) := by
  obtain ⟨rest, hbefore, hafter⟩ := fetchProbe.view_handled hstep
  obtain ⟨p, tip, pending⟩ := f
  obtain ⟨hprocessed, htip, hpending⟩ := hf
  simp only at hprocessed htip hpending
  have hview : pending.map Height.specific = msg.fetchHeight?.toList ++ rest :=
    hpending.symm.trans hbefore
  have hidle (hnone : msg.fetchHeight? = none) (hout : out.filterMap IoCommand.fetchHeight? = []) :
      blockFetches t = pending.map Height.specific := by
    rw [blockFetches, hafter, hview, hnone]
    simp [fetchProbe, hout]
  generalize hst : t.state = st' at *
  have hhandles := step_handles hstep
  rw [hst] at hhandles
  cases hhandles with
  | retryBlock h retries error hretry =>
      obtain ⟨xs, rfl, rfl⟩ := oldest_pending hview
      have hmove : (IoResult.fetchError (.specific h) retries error).move? = some .retried := by
        simp [IoResult.move?, hretry]
      refine ⟨_, ⟨?_, ?_, ?_⟩, Or.inr ⟨.retried, hmove, .retried p tip h xs⟩⟩
      · rw [hst, countError, hprocessed]
      · rw [hst, countError, htip]
      · rw [blockFetches, hafter, List.map_append]
        rfl
  | skipBlock h retries error hgiveup =>
      obtain ⟨xs, rfl, rfl⟩ := oldest_pending hview
      have hmove : (IoResult.fetchError (.specific h) retries error).move? =
          some (.settled h) := by
        simp [IoResult.move?, Nat.not_lt.mpr hgiveup]
      refine ⟨_, ⟨?_, ?_, ?_⟩, Or.inr ⟨.settled h, hmove, .settled p tip h xs⟩⟩
      · rw [hst]
      · rw [hst, countError, htip]
      · rw [blockFetches, hafter]
        simp only [fetchProbe, fetchAfter_heights, List.map_append, htip]
        split <;> rfl
  | block h b data hdata =>
      obtain ⟨xs, rfl, rfl⟩ := oldest_pending hview
      refine ⟨_, ⟨?_, ?_, ?_⟩, Or.inr ⟨.settled h, rfl, .settled p tip h xs⟩⟩
      · rw [hst, applyBlock_lastProcessedHeight]
      · rw [hst, applyBlock_chainTip, htip]
      · rw [blockFetches, hafter, List.filterMap_append, filterMap_bundleFor (fun _ _ => rfl)]
        simp only [fetchProbe, fetchAfter_heights, List.nil_append, List.map_append, htip]
        split <;> rfl
  | firstHead h hsentinel =>
      have h1 : 1 ≤ h := hpos h rfl
      have hpred : u64Pred h = h - 1 := by
        cases h with
        | zero => omega
        | succ n => rfl
      have hzero : p = 0 := hprocessed.trans hsentinel
      refine ⟨_, ⟨?_, ?_, ?_⟩, Or.inr ⟨.announced h, rfl, .announced _ h⟩⟩
      all_goals simp only [Follower.announce, hzero, if_true]
      · rw [hst, hpred]
      · rw [hst]
      · rw [blockFetches, hafter, List.map_append, hview]
        rfl
  | nextHead h hstarted hahead hcaughtUp =>
      have hne : p ≠ 0 := fun h0 => hstarted (hprocessed.symm.trans h0)
      have hcond : tip < h ∧ tip = p := by
        rw [htip, hprocessed]
        exact ⟨hahead, hcaughtUp⟩
      refine ⟨_, ⟨?_, ?_, ?_⟩, Or.inr ⟨.announced h, rfl, .announced _ h⟩⟩
      all_goals simp only [Follower.announce, if_neg hne, if_pos hcond]
      · rw [hst, hprocessed]
      · rw [hst]
      · rw [blockFetches, hafter, List.map_append, hview, hprocessed]
        rfl
  | moveTip h hstarted hstay =>
      have hne : p ≠ 0 := fun h0 => hstarted (hprocessed.symm.trans h0)
      have hcond : ¬ (tip < h ∧ tip = p) := by rwa [htip, hprocessed]
      refine ⟨_, ⟨?_, ?_, ?_⟩, Or.inr ⟨.announced h, rfl, .announced _ h⟩⟩
      all_goals simp only [Follower.announce, if_neg hne, if_neg hcond]
      · rw [hst, hprocessed]
      · rw [hst]
      · exact hidle rfl rfl
  | chainList chains =>
      refine ⟨_, ⟨?_, ?_, ?_⟩, Or.inl ⟨rfl, rfl⟩⟩
      · rw [hst, hprocessed]
      · rw [hst, htip]
      · exact hidle rfl (filterMap_paramFetches (fun _ => rfl) chains)
  | latestError retries error =>
      -- a `Latest` fetch is never outstanding
      simp only [IoResult.fetchHeight?, Option.toList_some] at hview
      obtain ⟨x, xs, -, hx, -⟩ := List.map_eq_cons_iff.mp hview
      cases hx
  | _ =>
      refine ⟨_, ⟨?_, ?_, ?_⟩, Or.inl ⟨rfl, rfl⟩⟩
      · rw [hst]
        exact hprocessed
      · rw [hst]
        exact htip
      · exact hidle rfl rfl

theorem announcements_moves (trace : Trace) :
    Follower.announcements (moves trace) = handledHeads trace := by
  unfold Follower.announcements moves handledHeads
  rw [List.filterMap_filterMap]
  congr 1
  funext msg
  cases msg with
  | fetchError height retries error =>
      cases height with
      | latest => rfl
      | specific h => by_cases hr : retries < maxFetchRetries <;> simp [IoResult.move?, hr] <;> rfl
  | _ => rfl

theorem settledHeights_moves (trace : Trace) :
    Follower.settledHeights (moves trace) = settledHeights trace := by
  unfold Follower.settledHeights moves settledHeights
  rw [List.filterMap_filterMap]
  congr 1
  funext msg
  cases msg with
  | fetchError height retries error =>
      cases height with
      | latest => rfl
      | specific h =>
          by_cases hr : retries < maxFetchRetries <;>
            simp [IoResult.move?, IoResult.settled?, hr] <;> rfl
  | _ => rfl

/-- A move that is handled in the configurations the follower may be in. -/
def MovesAllowed (allowed : Follower → Follower.Move → Prop) (trace : Trace) : Prop :=
  ∀ x ∈ trace, ∀ msg out, x.event = .handled msg out → ∀ mv, msg.move? = some mv →
    ∀ f, Follows f x.before → allowed f mv

/-- Every run simulates a run of the follower. -/
theorem monitor_follows {cx : Codecs} {config : Config} {trace : Trace} {s : System}
    {allowed : Follower → Follower.Move → Prop} (hrun : MonitorRun cx config trace s)
    (hhonest : HonestHeights trace) (hpos : ∀ h ∈ handledHeads trace, 1 ≤ h)
    (hallowed : MovesAllowed allowed trace) :
    ∃ f, Follower.Run allowed (moves trace) f ∧ Follows f s := by
  induction hrun with
  | nil => exact ⟨.start, .nil, rfl, rfl, rfl⟩
  | @snoc trace s e t hrun hstep ih =>
      obtain ⟨f, hfrun, hf⟩ := ih (fun x hx => hhonest x (List.mem_append_left _ hx))
        (fun h hh => hpos h (by
          unfold handledHeads at hh ⊢
          rw [handledMsgs_snoc, List.filterMap_append]
          exact List.mem_append_left _ hh))
        (fun x hx => hallowed x (List.mem_append_left _ hx))
      have hlast : (⟨s, e⟩ : Transition _ _ _) ∈ trace ++ [⟨s, e⟩] :=
        List.mem_append_right _ List.mem_cons_self
      cases e with
      | fed =>
          have hstate := hstep.state_fed
          have hview := fetchProbe.view_fed hstep
          refine ⟨f, by simpa [moves] using hfrun, ?_, ?_, ?_⟩
          · rw [hstate, hf.processed_eq]
          · rw [hstate, hf.tip_eq]
          · exact hview.trans ((List.append_nil _).trans hf.pending_eq)
      | answered cmd out =>
          have hstate := hstep.state_answered
          have hview := fetchProbe.view_answered hstep (hf.keeps hstep (hhonest _ hlast))
          refine ⟨f, by simpa [moves] using hfrun, ?_, ?_, ?_⟩
          · rw [hstate, hf.processed_eq]
          · rw [hstate, hf.tip_eq]
          · exact hview.trans hf.pending_eq
      | handled msg out =>
          have hmsg : ∀ h, msg = .head h → 1 ≤ h := by
            rintro h rfl
            exact hpos h (by simp [handledHeads, IoResult.head?])
          obtain ⟨g, hgt, ⟨hnone, rfl⟩ | ⟨mv, hmv, hg⟩⟩ := hf.handled hstep hmsg
          · exact ⟨g, by simpa [moves, hnone] using hfrun, hgt⟩
          · refine ⟨g, ?_, hgt⟩
            have hok := hallowed _ hlast msg out rfl mv hmv f hf
            simpa [moves, hmv] using hfrun.snoc hok hg

/-- The node answers block requests with the requested heights, and the heads
it reports never decrease and are at least two. -/
structure Steady (trace : Trace) : Prop where
  honest : HonestHeights trace
  sorted : (fetchedHeads trace).Pairwise (· ≤ ·)
  two_le : ∀ h ∈ fetchedHeads trace, 2 ≤ h

theorem fetchedHeads_append (first second : Trace) :
    fetchedHeads (first ++ second) = fetchedHeads first ++ fetchedHeads second := by
  simp [fetchedHeads, answers]

theorem Steady.earlier {first second : Trace} (h : Steady (first ++ second)) : Steady first := by
  obtain ⟨hhonest, hsorted, htwo⟩ := h
  rw [fetchedHeads_append] at hsorted htwo
  refine ⟨?_, (List.pairwise_append.mp hsorted).1, ?_⟩
  · intro x hx
    exact hhonest x (List.mem_append_left _ hx)
  · intro n hn
    exact htwo n (List.mem_append_left _ hn)

/-- In a steady run the follower is in step, or has not heard of a head yet. -/
theorem monitor_inStep {cx : Codecs} {config : Config} {trace : Trace} {s : System}
    (hrun : MonitorRun cx config trace s) (hsteady : Steady trace) :
    ∃ f, Follows f s ∧ ((handledHeads trace = [] ∧ settledHeights trace = [] ∧ f = .start) ∨
      ∃ first rest, handledHeads trace = first :: rest ∧
        Follower.InStep first (moves trace) f) := by
  have hinitial := handledHeads_initial hrun
  have htwo : ∀ h ∈ handledHeads trace, 2 ≤ h :=
    fun h hh => hsteady.two_le h (hinitial.subset hh)
  have hany : MovesAllowed (fun _ _ => True) trace := fun _ _ _ _ _ _ _ _ _ => trivial
  obtain ⟨f, hfrun, hf⟩ := monitor_follows hrun hsteady.honest
    (fun h hh => (Nat.le_succ 1).trans (htwo h hh)) hany
  refine ⟨f, hf, ?_⟩
  have hinStep := Follower.run_inStep hfrun
    (by rw [announcements_moves]; exact hsteady.sorted.sublist hinitial.sublist)
    (by rw [announcements_moves]; exact htwo)
  rwa [announcements_moves, settledHeights_moves] at hinStep

theorem settledHeights_increasing {cx : Codecs} {config : Config} {trace : Trace} {s : System}
    (hrun : MonitorRun cx config trace s) (hsteady : Steady trace) :
    (settledHeights trace).Pairwise (· < ·) ∧
      ∀ h ∈ settledHeights trace, h ≤ s.state.lastProcessedHeight := by
  obtain ⟨f, hf, ⟨-, hnone, -⟩ | ⟨first, rest, -, hin⟩⟩ := monitor_inStep hrun hsteady
  · simp [hnone]
  · rw [← settledHeights_moves, hin.settled_eq, ← hf.processed_eq]
    refine ⟨List.pairwise_lt_range', ?_⟩
    intro h hh
    rw [List.mem_range'_1] at hh
    omega

/-- A monitor that has caught up, or has not started, waits for no block. -/
theorem idle_when_caughtUp {cx : Codecs} {config : Config} {trace : Trace} {s : System}
    (hrun : MonitorRun cx config trace s) (hsteady : Steady trace)
    (hidle : s.state.lastProcessedHeight = 0 ∨
      s.state.chainTip = s.state.lastProcessedHeight) : blockFetches s = [] := by
  obtain ⟨f, hf, ⟨-, -, rfl⟩ | ⟨first, rest, -, hin⟩⟩ := monitor_inStep hrun hsteady
  · exact hf.pending_eq
  · rw [← hf.processed_eq, ← hf.tip_eq] at hidle
    have hstarted := hin.started
    have hpending := hin.pending_eq
    rw [if_neg (by omega)] at hpending
    rw [hf.pending_eq, hpending]
    rfl

/-- With nondecreasing heads of at least two the monitor never runs ahead of
the tip, has exactly the next fetch outstanding while it is behind and none
when it has caught up, and settles each height once, in order, from the first
head on. -/
theorem one_fetch_iff_behind {cx : Codecs} {config : Config} {trace : Trace} {s : System}
    (hrun : MonitorRun cx config trace s) (hhonest : HonestHeights trace)
    (hsorted : (fetchedHeads trace).Pairwise (· ≤ ·)) (htwo : ∀ h ∈ fetchedHeads trace, 2 ≤ h)
    (hstarted : handledHeads trace ≠ []) :
    s.state.lastProcessedHeight ≤ s.state.chainTip ∧
      (s.state.lastProcessedHeight < s.state.chainTip →
        blockFetches s = [.specific (s.state.lastProcessedHeight + 1)]) ∧
      (s.state.lastProcessedHeight = s.state.chainTip → blockFetches s = []) ∧
      ∃ first rest, handledHeads trace = first :: rest ∧
        settledHeights trace =
          List.range' first (s.state.lastProcessedHeight + 1 - first) := by
  obtain ⟨f, hf, ⟨hnone, -⟩ | ⟨first, rest, hfirst, hin⟩⟩ :=
    monitor_inStep hrun ⟨hhonest, hsorted, htwo⟩
  · exact absurd hnone hstarted
  · have hpending := hin.pending_eq
    rw [← hf.processed_eq, ← hf.tip_eq, hf.pending_eq]
    refine ⟨hin.bounded, ?_, ?_, first, rest, hfirst, ?_⟩
    · intro hlt
      simp [hpending, hlt]
    · intro heq
      simp [hpending, heq]
    · rw [← settledHeights_moves]
      exact hin.settled_eq

/-- A second head and a retry arrive while block 5 is being fetched. -/
def Sample.catchUp : List (Action Http) :=
  [.feed, .feed, serves chainListJson, servesBlock 5, .handle, .handle, servesBlock 7,
    serves chainParamsJson, fails, .handle, .handle, .handle, servesBlock 5, .handle]

theorem one_fetch_while_behind :
    ∃ r : Trace × System, MonitorRun Sample.codecs Sample.config r.1 r.2 ∧
      r.2.state.lastProcessedHeight < r.2.state.chainTip ∧ blockFetches r.2 = [.specific 6] := by
  have hreplay : ∃ r ∈ Sample.replay Sample.config Sample.catchUp, HonestHeights r.1 ∧
      (fetchedHeads r.1).Pairwise (· ≤ ·) ∧ (∀ h ∈ fetchedHeads r.1, 2 ≤ h) ∧
      handledHeads r.1 ≠ [] ∧ r.2.state.chainTip = 7 ∧ r.2.state.lastProcessedHeight = 5 := by
    decide +kernel
  obtain ⟨r, hrun, hhonest, hsorted, htwo, hstarted, htip, hlast⟩ := Sample.run_of_replay hreplay
  have hbehind : r.2.state.lastProcessedHeight < r.2.state.chainTip := by omega
  obtain ⟨-, hfetch, -⟩ := one_fetch_iff_behind hrun hhonest hsorted htwo hstarted
  exact ⟨r, hrun, hbehind, by rw [hfetch hbehind, hlast]⟩

end AxelarMonitor
