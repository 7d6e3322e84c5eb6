import AxelarMonitor.BlockFetches

/-!
Keeping up with tips in any order. No assumption is made on the heights of the
returned blocks, so an outstanding fetch is counted under the height it was
requested for. The only message that can leave the monitor behind without a
fetch is a head above the last processed height that follows a tip below it.
-/

namespace AxelarMonitor

open FifoLoop

variable {cx : Codecs} {config : Config}

/-- The requested heights of the outstanding block fetches. -/
def requestedBlocks (trace : Trace) (s : System) : List Height :=
  requests IoCommand.fetchHeight? trace s

def KeepsUp (trace : Trace) (s : System) : Prop :=
  s.state.chainTip > s.state.lastProcessedHeight →
    .specific (s.state.lastProcessedHeight + 1) ∈ requestedBlocks trace s

/-- A head that raises the tip from below the last processed height to above
it while the next block is not being fetched. -/
def StallingHead (earlier : Trace)
    (x : Transition ProcessingState IoCommand IoResult) : Prop :=
  ∃ h out, x.event = .handled (.head h) out ∧
    x.before.state.lastProcessedHeight ≠ 0 ∧
    x.before.state.chainTip < x.before.state.lastProcessedHeight ∧
    x.before.state.lastProcessedHeight < h ∧
    .specific (x.before.state.lastProcessedHeight + 1) ∉ requestedBlocks earlier x.before

/-- Every result but a block tells which fetch it answers. -/
theorem Answers.fetchHeight?_eq {cmd : IoCommand} {out : List IoResult} {msg : IoResult}
    (h : Answers cmd out) (hmem : msg ∈ out) (hblock : ∀ n b, msg ≠ .block n b) :
    cmd.fetchHeight? = msg.fetchHeight? := by
  cases h with
  | block height retries n b => exact absurd (List.mem_singleton.mp hmem) (hblock n b)
  | headFailed => cases hmem
  | chainParamsFailed chain => cases hmem
  | _ =>
      obtain rfl := List.mem_singleton.mp hmem
      rfl

theorem Answers.fetch_answered_once {cmd : IoCommand} {out : List IoResult}
    (h : Answers cmd out) : cmd.fetchHeight? = none ∨ out.length = 1 := by
  cases h with
  | headFailed => exact Or.inl rfl
  | chainParamsFailed chain => exact Or.inl rfl
  | _ => exact Or.inr rfl

theorem mem_fetchAfter_heights {tip h : Nat} (hlt : h < tip) :
    .specific (h + 1) ∈ (fetchAfter tip h).filterMap IoCommand.fetchHeight? := by
  simp [hlt]

theorem KeepsUp.handled {trace : Trace} {s t : System} {msg : IoResult} {out : List IoCommand}
    (hrun : MonitorRun cx config trace s) (hup : KeepsUp trace s)
    (hstep : Step (monitor cx config) s (.handled msg out) t)
    (hno : ¬ StallingHead trace ⟨s, .handled msg out⟩) :
    KeepsUp (trace ++ [⟨s, .handled msg out⟩]) t := by
  obtain ⟨cmd, rest, ⟨http, sent, hexec, hmem⟩, hbefore, hafter⟩ :=
    requests_handled IoCommand.fetchHeight? hrun rfl hstep
  have hanswers : Answers cmd sent := exec_answers hexec
  have hissued (x : Height) (hx : x ∈ out.filterMap IoCommand.fetchHeight?) :
      x ∈ requestedBlocks (trace ++ [⟨s, .handled msg out⟩]) t := by
    rw [requestedBlocks, hafter]
    exact List.mem_append_right _ hx
  -- an outstanding fetch that the message does not answer stays outstanding
  have hkept (x : Height) (hblock : ∀ n b, msg ≠ .block n b) (hx : x ∈ requestedBlocks trace s) :
      msg.fetchHeight? = some x ∨ x ∈ requestedBlocks (trace ++ [⟨s, .handled msg out⟩]) t := by
    rw [requestedBlocks, hbefore, hanswers.fetchHeight?_eq hmem hblock] at hx
    rcases List.mem_append.mp hx with hhead | hrest
    · exact Or.inl (Option.mem_toList.mp hhead)
    · rw [requestedBlocks, hafter]
      exact Or.inr (List.mem_append_left _ hrest)
  intro hbehind
  generalize hst : t.state = st' at *
  have hhandles := step_handles hstep
  rw [hst] at hhandles
  cases hhandles with
  | block h b data hdata =>
      refine hissued _ ?_
      rw [List.filterMap_append]
      exact List.mem_append_right _ (mem_fetchAfter_heights hbehind)
  | skipBlock h retries error hgiveup => exact hissued _ (mem_fetchAfter_heights hbehind)
  | retryBlock h retries error hretry =>
      rcases hkept _ (by simp) (hup hbehind) with hsame | hstays
      · cases hsame
        exact hissued _ List.mem_cons_self
      · exact hstays
  | firstHead h hsentinel =>
      refine hissued _ ?_
      cases h with
      | zero => exact absurd hbehind (Nat.not_lt_zero _)
      | succ n => exact List.mem_cons_self
  | nextHead h hstarted hahead hcaughtUp => exact hissued _ List.mem_cons_self
  | moveTip h hstarted hidle =>
      have hfetch : .specific (s.state.lastProcessedHeight + 1) ∈ requestedBlocks trace s := by
        by_contra hnone
        have hle : s.state.chainTip ≤ s.state.lastProcessedHeight :=
          Nat.not_lt.mp (fun hlt => hnone (hup hlt))
        have hbelow : s.state.lastProcessedHeight < h := hbehind
        exact hno ⟨h, _, rfl, hstarted, by simp only; omega, hbelow, hnone⟩
      exact (hkept _ (by simp) hfetch).resolve_left (by simp [IoResult.fetchHeight?])
  | latestError retries error =>
      exact (hkept _ (by simp) (hup hbehind)).resolve_left (by simp [IoResult.fetchHeight?])
  | _ => exact (hkept _ (by simp) (hup hbehind)).resolve_left (by simp [IoResult.fetchHeight?])

theorem KeepsUp.step {trace : Trace} {s t : System} {e : Event IoCommand IoResult}
    (hrun : MonitorRun cx config trace s) (hup : KeepsUp trace s)
    (hstep : Step (monitor cx config) s e t) (hno : ¬ StallingHead trace ⟨s, e⟩) :
    KeepsUp (trace ++ [⟨s, e⟩]) t := by
  cases e with
  | fed =>
      intro hbehind
      rw [hstep.state_fed] at hbehind ⊢
      rw [requestedBlocks, requests_fed _ hstep]
      exact List.mem_append_left _ (hup hbehind)
  | answered cmd out =>
      intro hbehind
      rw [hstep.state_answered] at hbehind ⊢
      rw [requestedBlocks,
        requests_answered _ hrun rfl hstep (step_answers hstep).fetch_answered_once]
      exact hup hbehind
  | handled msg out => exact hup.handled hrun hstep hno

/-- A stalling head does leave the monitor behind. -/
theorem StallingHead.behind {trace : Trace} {s t : System} {e : Event IoCommand IoResult}
    (hrun : MonitorRun cx config trace s) (hstep : Step (monitor cx config) s e t)
    (hstall : StallingHead trace ⟨s, e⟩) : ¬ KeepsUp (trace ++ [⟨s, e⟩]) t := by
  obtain ⟨h, out, rfl, hstarted, hbelow, habove, hnone⟩ := hstall
  obtain ⟨cmd, rest, ⟨http, sent, hexec, hmem⟩, hbefore, hafter⟩ :=
    requests_handled IoCommand.fetchHeight? hrun rfl hstep
  rw [(exec_answers hexec).fetchHeight?_eq hmem (by simp)] at hbefore
  intro hup
  generalize hst : t.state = st' at *
  have hhandles := step_handles hstep
  rw [hst] at hhandles
  cases hhandles with
  | firstHead _ hsentinel => exact hstarted hsentinel
  | nextHead _ _ _ hcaughtUp => exact absurd hcaughtUp (Nat.ne_of_lt hbelow)
  | moveTip _ _ _ =>
      apply hnone
      have hmem := hup (by simpa [hst] using habove)
      rw [requestedBlocks, hafter, hst] at hmem
      rw [requestedBlocks, hbefore]
      simpa [IoResult.fetchHeight?] using hmem

/-- Behind the tip the next block is being fetched, in every configuration of a
run after its first head, exactly when no head of the run is a stalling one. -/
theorem keeps_up_iff {trace : Trace} {s : System} (hrun : MonitorRun cx config trace s) :
    (∀ earlier later t, trace = earlier ++ later → MonitorRun cx config earlier t →
      handledHeads earlier ≠ [] → KeepsUp earlier t) ↔
      ∀ earlier x later, trace = earlier ++ x :: later → ¬ StallingHead earlier x := by
  constructor
  · rintro hup earlier ⟨u, e⟩ later rfl hstall
    obtain ⟨hreach, v, hstep, -⟩ := hrun.before_reached rfl
    have hheads : handledHeads (earlier ++ [⟨u, e⟩]) ≠ [] := by
      obtain ⟨h, out, rfl, -⟩ := hstall
      simp [handledHeads, IoResult.head?]
    exact hstall.behind hreach hstep
      (hup (earlier ++ [⟨u, e⟩]) later v (by simp) (hreach.snoc hstep) hheads)
  · rintro hno earlier later t rfl hreach -
    have go (earlier : Trace) (t : System) (hreach : MonitorRun cx config earlier t)
        (hno : ∀ before x after, earlier = before ++ x :: after → ¬ StallingHead before x) :
        KeepsUp earlier t := by
      induction hreach with
      | nil => exact fun hbehind => absurd hbehind (Nat.not_lt_zero _)
      | @snoc prior u e v hprior hstep ih =>
          refine (ih fun before x after hsplit => ?_).step hprior hstep (hno prior _ [] rfl)
          exact hno before x (after ++ [⟨u, e⟩]) (by simp [hsplit])
    exact go earlier t hreach fun before x after hsplit =>
      hno before x (after ++ later) (by simp [hsplit])

/-- Heads 5, 4 and 6, the last two around the processing of block 5. -/
def Sample.laggingNode : List (Action Http) :=
  [.feed, .feed, serves chainListJson, servesBlock 5, servesBlock 4, .handle, .handle, .handle,
    serves chainParamsJson, servesBlock 5, .handle, .handle, .feed, serves resultsJson,
    servesBlock 6, .handle, .handle]

theorem stalling_head_of_lagging_node :
    ∃ r : Trace × System, MonitorRun Sample.codecs Sample.config r.1 r.2 ∧
      fetchedHeads r.1 = [5, 4, 6] ∧
      ∃ earlier x later, r.1 = earlier ++ x :: later ∧ StallingHead earlier x := by
  have hreplay : ∃ r ∈ Sample.replay Sample.config Sample.laggingNode,
      fetchedHeads r.1 = [5, 4, 6] ∧
      handledHeads r.1 ≠ [] ∧ r.2.state.chainTip > r.2.state.lastProcessedHeight ∧
      .specific (r.2.state.lastProcessedHeight + 1) ∉ requestedBlocks r.1 r.2 := by
    decide +kernel
  obtain ⟨r, hrun, hheads, hstarted, hbehind, hnone⟩ := Sample.run_of_replay hreplay
  refine ⟨r, hrun, hheads, ?_⟩
  by_contra hno
  have hup := (keeps_up_iff hrun).mpr fun earlier x later hsplit hstall =>
    hno ⟨earlier, x, later, hsplit, hstall⟩
  exact hnone (hup r.1 [] r.2 (by simp) hrun hstarted hbehind)

/-- The queues are empty and the monitor is one block behind. -/
theorem lagging_node_stalls :
    ∃ r : Trace × System, MonitorRun Sample.codecs Sample.config r.1 r.2 ∧
      fetchedHeads r.1 = [5, 4, 6] ∧ handledHeads r.1 ≠ [] ∧ r.2.cmds = [] ∧
      r.2.results = [] ∧ r.2.state.chainTip = 6 ∧ r.2.state.lastProcessedHeight = 5 ∧
      ¬ KeepsUp r.1 r.2 := by
  have hreplay : ∃ r ∈ Sample.replay Sample.config Sample.laggingNode,
      fetchedHeads r.1 = [5, 4, 6] ∧
      handledHeads r.1 ≠ [] ∧ r.2.cmds = [] ∧ r.2.results = [] ∧ r.2.state.chainTip = 6 ∧
      r.2.state.lastProcessedHeight = 5 ∧ requestedBlocks r.1 r.2 = [] := by
    decide +kernel
  obtain ⟨r, hrun, hheads, hstarted, hcmds, hresults, htip, hlast, hnone⟩ :=
    Sample.run_of_replay hreplay
  refine ⟨r, hrun, hheads, hstarted, hcmds, hresults, htip, hlast, fun hup => ?_⟩
  have hfetch := hup (by omega)
  rw [hnone] at hfetch
  cases hfetch

end AxelarMonitor
