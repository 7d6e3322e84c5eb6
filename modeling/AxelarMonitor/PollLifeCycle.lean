import AxelarMonitor.Bundles

/-!
The life of a poll. It is opened by the block results of one height, collects
votes, and is analysed and removed by the first block at its expiry height. The
insert into the poll store is unguarded, so this rests on each height having
one bundle and on the chain giving out each poll id once.
-/

namespace AxelarMonitor

open FifoLoop

section Events

variable (cx : Codecs)

/-- The poll ids under which a message opens polls. -/
def openedBy : Event IoCommand IoResult → List Nat
  | .handled (.blockResults _ results creations) _ =>
      (assignedIds (txToPollIds cx results) creations).dedup
  | _ => []

def votesBy (id : Nat) : Event IoCommand IoResult → List PollVote
  | .handled (.block _ b) _ => (blockVotes cx b).filter (fun v => v.pollId = id)
  | _ => []

/-- The polls that are analysed, with all their votes. -/
def closedIn (polls : OrderedMap Nat Poll) : Event IoCommand IoResult → List Poll
  | .handled msg _ => closedBy cx polls msg
  | _ => []

def openedIds (trace : Trace) : List Nat := trace.flatMap (fun x => openedBy cx x.event)

def closedPolls (trace : Trace) : List Poll :=
  trace.flatMap (fun x => closedIn cx x.before.state.polls x.event)

def closedIds (trace : Trace) : List Nat := (closedPolls cx trace).map Poll.pollId

end Events

variable {cx : Codecs} {config : Config}

@[simp] theorem openedIds_snoc (trace : Trace)
    (x : Transition ProcessingState IoCommand IoResult) :
    openedIds cx (trace ++ [x]) = openedIds cx trace ++ openedBy cx x.event := by
  simp [openedIds]

@[simp] theorem closedPolls_snoc (trace : Trace)
    (x : Transition ProcessingState IoCommand IoResult) :
    closedPolls cx (trace ++ [x]) =
      closedPolls cx trace ++ closedIn cx x.before.state.polls x.event := by
  simp [closedPolls]

/-- Only blocks and block results touch the poll store. -/
inductive StoreStep (cx : Codecs) (config : Config) (st : ProcessingState) :
    Event IoCommand IoResult → ProcessingState → Prop
  | block (h : Nat) (b : Block) (out : List IoCommand) (data : RawBlockData)
      (hvotes : data.votes = blockVotes cx b) :
      StoreStep cx config st (.handled (.block h b) out) (applyBlock cx config h data st)
  | results (h : Nat) (results : BlockResults) (creations : List PollData)
      (out : List IoCommand) :
      StoreStep cx config st (.handled (.blockResults h results creations) out)
        (processBlockResultsMessage cx results creations st)
  | quiet (e : Event IoCommand IoResult) (st' : ProcessingState)
      (hopened : openedBy cx e = []) (hvotes : ∀ id, votesBy cx id e = [])
      (hclosed : closedIn cx st.polls e = []) (hpolls : st'.polls = st.polls)
      (hexpired : st'.expiredPollIds = st.expiredPollIds)
      (hcount : ∀ key, st'.voteResults.count key = st.voteResults.count key) :
      StoreStep cx config st e st'

theorem store_step {s t : System} {e : Event IoCommand IoResult}
    (hstep : Step (monitor cx config) s e t) : StoreStep cx config s.state e t.state := by
  cases e with
  | fed =>
      rw [hstep.state_fed]
      exact .quiet _ _ rfl (fun _ => rfl) rfl rfl rfl (fun _ => rfl)
  | answered cmd out =>
      rw [hstep.state_answered]
      exact .quiet _ _ rfl (fun _ => rfl) rfl rfl rfl (fun _ => rfl)
  | handled msg out =>
      have hhandles := step_handles hstep
      generalize t.state = st' at hhandles
      cases hhandles with
      | block h b data hdata => exact .block h b _ data hdata.votes_eq
      | blockResults h results creations => exact .results h results creations []
      | chainParams params =>
          refine .quiet _ _ rfl (fun _ => rfl) rfl rfl rfl ?_
          exact count_processChainParams cx params s.state config
      | _ => exact .quiet _ _ rfl (fun _ => rfl) rfl rfl rfl (fun _ => rfl)

inductive PollStep (cx : Codecs) (config : Config) (id : Nat) (st : ProcessingState) :
    Event IoCommand IoResult → ProcessingState → Prop
  | absent (e : Event IoCommand IoResult) (st' : ProcessingState)
      (hbefore : st.polls.get? id = none) (hafter : st'.polls.get? id = none) :
      PollStep cx config id st e st'
  | opened (h : Nat) (results : BlockResults) (creations : List PollData)
      (out : List IoCommand) (creation : PollData) (st' : ProcessingState)
      (hnew : st.polls.get? id = none) (hfresh : id ∉ st.expiredPollIds)
      (hcreation : creation ∈ creations)
      (hassigned : (txToPollIds cx results).get? creation.tx = some id)
      (hafter : st'.polls.get? id = some ⟨id, creation, []⟩) :
      PollStep cx config id st (.handled (.blockResults h results creations) out) st'
  | kept (e : Event IoCommand IoResult) (st' : ProcessingState) (poll : Poll)
      (hbefore : st.polls.get? id = some poll)
      (hafter : st'.polls.get? id = some { poll with votes := poll.votes ++ votesBy cx id e }) :
      PollStep cx config id st e st'
  /-- The poll is analysed once, with the block's own votes. -/
  | closed (h : Nat) (b : Block) (out : List IoCommand) (st' : ProcessingState) (poll : Poll)
      (hbefore : st.polls.get? id = some poll) (hdue : poll.data.expiryHeight ≤ h)
      (hanalysed : { poll with
        votes := poll.votes ++ votesBy cx id (.handled (.block h b) out) } ∈
          closedBy cx st.polls (.block h b))
      (honce : ((closedBy cx st.polls (.block h b)).map Poll.pollId).count id = 1)
      (hresults : st'.voteResults = (closedBy cx st.polls (.block h b)).foldl
        (fun m p => analyzePollCompletion cx p config m) st.voteResults)
      (hafter : st'.polls.get? id = none) (hexpired : id ∈ st'.expiredPollIds) :
      PollStep cx config id st (.handled (.block h b) out) st'

structure Lived (cx : Codecs) (results : Nat → BlockResults) (trace : Trace) (s : System) :
    Prop where
  opened_nodup : (openedIds cx trace).Nodup
  opened_heights : ∀ id ∈ openedIds cx trace,
    ∃ h ∈ openedHeights trace, id ∈ eventIds cx (results h)
  open_opened : ∀ id poll, s.state.polls.get? id = some poll → id ∈ openedIds cx trace
  keyed : ∀ id poll, s.state.polls.get? id = some poll →
    poll.pollId = id ∧ ∀ v ∈ poll.votes, v.pollId = id
  expired_eq : s.state.expiredPollIds = (closedIds cx trace).toFinset
  expired_opened : ∀ id ∈ s.state.expiredPollIds, id ∈ openedIds cx trace
  disjoint : ∀ id ∈ s.state.expiredPollIds, s.state.polls.get? id = none
  closed_nodup : (closedIds cx trace).Nodup

/-- Block results that are new to the run: no other ones of their height came
before, and they are those of the chain. -/
def NewResults (results : Nat → BlockResults) (trace : Trace) : Event IoCommand IoResult → Prop
  | .handled (.blockResults h br _) _ => br = results h ∧ h ∉ openedHeights trace
  | _ => True

theorem newResults_of_steady {results : Nat → BlockResults} {trace : Trace} {s t : System}
    {e : Event IoCommand IoResult} (hrun : MonitorRun cx config trace s)
    (hstep : Step (monitor cx config) s e t) (hsteady : Steady (trace ++ [⟨s, e⟩]))
    (hhonest : HonestResults results (trace ++ [⟨s, e⟩])) : NewResults results trace e := by
  cases e with
  | handled msg out =>
      cases msg with
      | blockResults h br creations =>
          have hnext := hrun.snoc hstep
          constructor
          · exact hhonest.handled hnext (mem_handledMsgs_last ..)
          · have hnodup := (List.nodup_append.mp (openedHeights_nodup hnext hsteady)).1
            rw [openedHeights_snoc] at hnodup
            intro hmem
            exact (List.nodup_append.mp hnodup).2.2 h hmem h List.mem_cons_self rfl
      | _ => trivial
  | _ => trivial

/-- The ids that a message assigns were not in use before. -/
theorem Lived.fresh {results : Nat → BlockResults} {trace : Trace} {s : System}
    (hl : Lived cx results trace s) (hunique : UniquePollIds cx results) {h : Nat}
    {br : BlockResults} {creations : List PollData} {out : List IoCommand}
    (hnew : NewResults results trace (.handled (.blockResults h br creations) out)) {id : Nat}
    (hid : id ∈ assignedIds (txToPollIds cx br) creations) : id ∉ openedIds cx trace := by
  obtain ⟨rfl, hnot⟩ := hnew
  intro hmem
  obtain ⟨h', hh', hevent⟩ := hl.opened_heights id hmem
  have hsame := hunique h h' id (assignedIds_subset cx (results h) creations id hid) hevent
  exact hnot (hsame ▸ hh')

theorem Lived.pushed_keyed {results : Nat → BlockResults} {trace : Trace} {s : System}
    (hl : Lived cx results trace s) (votes : List PollVote) {id : Nat} {poll : Poll}
    (hget : (votes.foldl pushVote s.state.polls).get? id = some poll) :
    poll.pollId = id ∧ ∀ v ∈ poll.votes, v.pollId = id := by
  obtain ⟨old, hold, rfl⟩ := get?_pushVotes_eq_some hget
  obtain ⟨hid, hvotes⟩ := hl.keyed id old hold
  refine ⟨hid, ?_⟩
  intro v hv
  rcases List.mem_append.mp hv with hv | hv
  · exact hvotes v hv
  · exact of_decide_eq_true (List.mem_filter.mp hv).2

/-- The polls that a block closes have the ids that it expires. -/
theorem Lived.closedBy_ids {results : Nat → BlockResults} {trace : Trace} {s : System}
    (hl : Lived cx results trace s) (h : Nat) (b : Block) :
    (closedBy cx s.state.polls (.block h b)).map Poll.pollId =
      expiringPollIds ((blockVotes cx b).foldl pushVote s.state.polls) h := by
  apply closingPolls_ids
  intro id poll hget
  exact (hl.pushed_keyed (blockVotes cx b) hget).1

theorem Lived.pollStep {results : Nat → BlockResults} {trace : Trace} {s t : System}
    {e : Event IoCommand IoResult} (hl : Lived cx results trace s)
    (hstep : Step (monitor cx config) s e t) (hunique : UniquePollIds cx results)
    (hnew : NewResults results trace e) (id : Nat) :
    PollStep cx config id s.state e t.state := by
  have hstore := store_step hstep
  generalize t.state = st' at hstore
  cases hstore with
  | quiet _ _ hopened hvotes hclosed hpolls hexpired hcount =>
      cases hget : s.state.polls.get? id with
      | none => exact .absent _ _ hget (by rw [hpolls, hget])
      | some poll => exact .kept _ _ poll hget (by rw [hpolls, hget, hvotes, List.append_nil])
  | results h br creations out =>
      by_cases hid : id ∈ assignedIds (txToPollIds cx br) creations
      · have hunused := hl.fresh hunique hnew hid
        obtain ⟨creation, hcreation, hassigned, hafter⟩ :=
          @get?_openPolls_of_mem _ _ s.state.polls _ hid
        apply PollStep.opened h br creations out creation _ _ _ hcreation hassigned hafter
        · cases hget : s.state.polls.get? id with
          | none => rfl
          | some poll => exact absurd (hl.open_opened id poll hget) hunused
        · intro hmem
          exact hunused (hl.expired_opened id hmem)
      · have hsame : (processBlockResultsMessage cx br creations s.state).polls.get? id =
            s.state.polls.get? id := get?_openPolls_of_not_mem hid
        cases hget : s.state.polls.get? id with
        | none => exact .absent _ _ hget (hsame.trans hget)
        | some poll =>
            apply PollStep.kept _ _ poll hget
            rw [hsame, hget]
            simp [votesBy]
  | block h b out data hvotes =>
      have hafter := get?_applyBlock cx config h data s.state id
      rw [hvotes] at hafter
      cases hget : s.state.polls.get? id with
      | none =>
          rw [hget] at hafter
          exact .absent _ _ hget hafter
      | some poll =>
          have hpushed : ((blockVotes cx b).foldl pushVote s.state.polls).get? id =
              some { poll with
                votes := poll.votes ++ votesBy cx id (.handled (.block h b) out) } := by
            rw [get?_pushVotes, hget]
            rfl
          rw [hget, Option.map_some] at hafter
          by_cases hdue : poll.data.expiryHeight ≤ h
          · have hexpiring : id ∈
                expiringPollIds ((blockVotes cx b).foldl pushVote s.state.polls) h :=
              mem_expiringPollIds.mpr ⟨_, hpushed, hdue⟩
            apply PollStep.closed h b out _ poll hget hdue
            · exact mem_closingPolls.mpr ⟨id, hpushed, hdue⟩
            · rw [hl.closedBy_ids]
              exact List.count_eq_one_of_mem (expiringPollIds_nodup _ _) hexpiring
            · rw [applyBlock_voteResults, hvotes]
              rfl
            · rw [hafter, Option.filter_some, if_neg (by simpa using hdue)]
            · rw [applyBlock_expiredPollIds, hvotes, Finset.mem_union, List.mem_toFinset]
              exact Or.inr hexpiring
          · apply PollStep.kept _ _ poll hget
            rw [hafter, Option.filter_some, if_pos (by simpa using hdue)]
            rfl

/-- A step that leaves the store alone keeps the invariant. -/
theorem Lived.unchanged {results : Nat → BlockResults} {trace : Trace} {s t : System}
    {e : Event IoCommand IoResult} (hl : Lived cx results trace s) (hopened : openedBy cx e = [])
    (hclosed : closedIn cx s.state.polls e = []) (hpolls : t.state.polls = s.state.polls)
    (hexpired : t.state.expiredPollIds = s.state.expiredPollIds) :
    Lived cx results (trace ++ [⟨s, e⟩]) t := by
  have hids : openedIds cx (trace ++ [⟨s, e⟩]) = openedIds cx trace := by
    rw [openedIds_snoc, hopened, List.append_nil]
  have hclosedIds : closedIds cx (trace ++ [⟨s, e⟩]) = closedIds cx trace := by
    rw [closedIds, closedPolls_snoc, hclosed, List.append_nil, closedIds]
  constructor
  case opened_heights =>
    rw [hids]
    intro id hid
    obtain ⟨h, hh, hevent⟩ := hl.opened_heights id hid
    exact ⟨h, openedHeights_subset_snoc hh, hevent⟩
  all_goals simp only [hids, hclosedIds, hpolls, hexpired]
  · exact hl.opened_nodup
  · exact hl.open_opened
  · exact hl.keyed
  · exact hl.expired_eq
  · exact hl.expired_opened
  · exact hl.disjoint
  · exact hl.closed_nodup

/-- Opening polls under ids that were not in use before. -/
theorem Lived.openPolls {results : Nat → BlockResults} {trace : Trace} {s t : System} {h : Nat}
    {br : BlockResults} {creations : List PollData} {out : List IoCommand}
    (hl : Lived cx results trace s) (hunique : UniquePollIds cx results)
    (hnew : NewResults results trace (.handled (.blockResults h br creations) out))
    (hstate : t.state = processBlockResultsMessage cx br creations s.state) :
    Lived cx results (trace ++ [⟨s, .handled (.blockResults h br creations) out⟩]) t := by
  have hids {id : Nat} :
      id ∈ openedIds cx (trace ++ [⟨s, .handled (.blockResults h br creations) out⟩]) ↔
        id ∈ openedIds cx trace ∨ id ∈ assignedIds (txToPollIds cx br) creations := by
    rw [openedIds_snoc, List.mem_append]
    exact or_congr_right List.mem_dedup
  have hclosed : closedIds cx (trace ++ [⟨s, .handled (.blockResults h br creations) out⟩]) =
      closedIds cx trace := by
    rw [closedIds, closedPolls_snoc]
    exact congrArg (List.map Poll.pollId) (List.append_nil _)
  have hpolls : t.state.polls = (processBlockResultsMessage cx br creations s.state).polls := by
    rw [hstate]
  have hexpired : t.state.expiredPollIds = s.state.expiredPollIds := by
    rw [hstate]
    rfl
  constructor
  · rw [openedIds_snoc, List.nodup_append]
    refine ⟨hl.opened_nodup, List.nodup_dedup _, ?_⟩
    rintro id hold _ hnewId rfl
    exact hl.fresh hunique hnew (List.mem_dedup.mp hnewId) hold
  · intro id hid
    rcases hids.mp hid with hid | hid
    · obtain ⟨k, hk, hevent⟩ := hl.opened_heights id hid
      exact ⟨k, openedHeights_subset_snoc hk, hevent⟩
    · refine ⟨h, ?_, ?_⟩
      · rw [openedHeights_snoc]
        exact List.mem_append_right _ List.mem_cons_self
      · rw [← hnew.1]
        exact assignedIds_subset cx br creations id hid
  · intro id poll hget
    rw [hpolls] at hget
    by_cases hid : id ∈ assignedIds (txToPollIds cx br) creations
    · exact hids.mpr (Or.inr hid)
    · have hold := (get?_openPolls_of_not_mem hid).symm.trans hget
      exact hids.mpr (Or.inl (hl.open_opened id poll hold))
  · intro id poll hget
    rw [hpolls] at hget
    rcases get?_blockResults cx hget with hold | ⟨⟨creation, -, rfl⟩, -⟩
    · exact hl.keyed id poll hold
    · exact ⟨rfl, by simp⟩
  · rw [hclosed, hexpired]
    exact hl.expired_eq
  · intro id hid
    rw [hexpired] at hid
    exact hids.mpr (Or.inl (hl.expired_opened id hid))
  · intro id hid
    rw [hexpired] at hid
    have hunassigned : id ∉ assignedIds (txToPollIds cx br) creations := by
      intro hmem
      exact hl.fresh hunique hnew hmem (hl.expired_opened id hid)
    rw [hpolls]
    exact (get?_openPolls_of_not_mem hunassigned).trans (hl.disjoint id hid)
  · rw [hclosed]
    exact hl.closed_nodup

/-- Closing takes the expiring polls out of the store and marks their ids. -/
theorem Lived.closePolls {results : Nat → BlockResults} {trace : Trace} {s t : System} {h : Nat}
    {b : Block} {data : RawBlockData} {out : List IoCommand} (hl : Lived cx results trace s)
    (hvotes : data.votes = blockVotes cx b)
    (hstate : t.state = applyBlock cx config h data s.state) :
    Lived cx results (trace ++ [⟨s, .handled (.block h b) out⟩]) t := by
  have hopened : openedIds cx (trace ++ [⟨s, .handled (.block h b) out⟩]) =
      openedIds cx trace := by
    rw [openedIds_snoc]
    exact List.append_nil _
  have hclosed : closedIds cx (trace ++ [⟨s, .handled (.block h b) out⟩]) =
      closedIds cx trace ++
        expiringPollIds ((blockVotes cx b).foldl pushVote s.state.polls) h := by
    rw [closedIds, closedPolls_snoc, List.map_append, ← hl.closedBy_ids]
    rfl
  have hexpired : t.state.expiredPollIds = s.state.expiredPollIds ∪
      (expiringPollIds ((blockVotes cx b).foldl pushVote s.state.polls) h).toFinset := by
    rw [hstate, applyBlock_expiredPollIds, hvotes]
  have hwasOpen {id : Nat} {poll : Poll}
      (hget : ((blockVotes cx b).foldl pushVote s.state.polls).get? id = some poll) :
      ∃ old, s.state.polls.get? id = some old := by
    obtain ⟨old, hold, -⟩ := get?_pushVotes_eq_some hget
    exact ⟨old, hold⟩
  have hremains {id : Nat} {poll : Poll} (hget : t.state.polls.get? id = some poll) :
      ((blockVotes cx b).foldl pushVote s.state.polls).get? id = some poll ∧
        h < poll.data.expiryHeight := by
    rw [hstate, applyBlock_polls, hvotes, OrderedMap.get?_retain_eq_some] at hget
    exact ⟨hget.1, of_decide_eq_true hget.2⟩
  constructor
  · rw [hopened]
    exact hl.opened_nodup
  · rw [hopened]
    intro id hid
    obtain ⟨k, hk, hevent⟩ := hl.opened_heights id hid
    exact ⟨k, openedHeights_subset_snoc hk, hevent⟩
  · rw [hopened]
    intro id poll hget
    obtain ⟨old, hold⟩ := hwasOpen (hremains hget).1
    exact hl.open_opened id old hold
  · intro id poll hget
    exact hl.pushed_keyed (blockVotes cx b) (hremains hget).1
  · rw [hexpired, hclosed, hl.expired_eq, List.toFinset_append]
  · rw [hopened, hexpired]
    intro id hid
    rcases Finset.mem_union.mp hid with hid | hid
    · exact hl.expired_opened id hid
    · obtain ⟨poll, hget, -⟩ := mem_expiringPollIds.mp (List.mem_toFinset.mp hid)
      obtain ⟨old, hold⟩ := hwasOpen hget
      exact hl.open_opened id old hold
  · rw [hexpired]
    intro id hid
    apply Option.eq_none_iff_forall_ne_some.mpr
    intro poll hget
    obtain ⟨hpushed, hlater⟩ := hremains hget
    rcases Finset.mem_union.mp hid with hid | hid
    · obtain ⟨old, hold⟩ := hwasOpen hpushed
      rw [hl.disjoint id hid] at hold
      cases hold
    · obtain ⟨poll', hget', hdue⟩ := mem_expiringPollIds.mp (List.mem_toFinset.mp hid)
      obtain rfl := Option.some.inj (hpushed.symm.trans hget')
      omega
  · rw [hclosed, List.nodup_append]
    refine ⟨hl.closed_nodup, expiringPollIds_nodup _ _, ?_⟩
    rintro id hold _ hnewId rfl
    rw [← List.mem_toFinset, ← hl.expired_eq] at hold
    obtain ⟨poll, hget, -⟩ := mem_expiringPollIds.mp hnewId
    obtain ⟨old, hwas⟩ := hwasOpen hget
    rw [hl.disjoint id hold] at hwas
    cases hwas

theorem Lived.step {results : Nat → BlockResults} {trace : Trace} {s t : System}
    {e : Event IoCommand IoResult} (hl : Lived cx results trace s)
    (hstep : Step (monitor cx config) s e t) (hunique : UniquePollIds cx results)
    (hnew : NewResults results trace e) : Lived cx results (trace ++ [⟨s, e⟩]) t := by
  have hstore := store_step hstep
  generalize hst : t.state = st' at hstore
  cases hstore with
  | quiet _ _ hopened hvotes hclosed hpolls hexpired hcount =>
      exact hl.unchanged hopened hclosed (by rw [hst, hpolls]) (by rw [hst, hexpired])
  | results h br creations out => exact hl.openPolls hunique hnew hst
  | block h b out data hvotes => exact hl.closePolls hvotes hst

theorem run_lived {results : Nat → BlockResults} {trace : Trace} {s : System}
    (hrun : MonitorRun cx config trace s) (hsteady : Steady trace)
    (hhonest : HonestResults results trace) (hunique : UniquePollIds cx results) :
    Lived cx results trace s := by
  induction hrun with
  | nil =>
      constructor
      case expired_eq => rfl
      all_goals simp [openedIds, closedIds, closedPolls, startUp, ProcessingState.new]
  | @snoc trace s e t hrun hstep ih =>
      have hnew := newResults_of_steady hrun hstep hsteady hhonest
      exact (ih hsteady.earlier hhonest.earlier).step hstep hunique hnew

def missedBy (cx : Codecs) (config : Config) (name chain : String) (poll : Poll) : Bool :=
  name ∉ voters config poll.votes ∧ cx.toLowercase poll.data.chain = chain

/-- A name that the configuration has once is counted as missing once for each
closed poll that it did not vote on. -/
theorem missed_eq {trace : Trace} {s : System} (hrun : MonitorRun cx config trace s)
    {name : String} (hone : config.broadcaster.countP (fun b => b.name = name) = 1)
    (chain : String) :
    s.state.voteResults.count ⟨name, chain, .missed⟩ =
      (closedPolls cx trace).countP (missedBy cx config name chain) := by
  induction hrun with
  | nil => exact count_configVoteResults cx config _
  | @snoc trace s e t hrun hstep ih =>
      rw [closedPolls_snoc, List.countP_append, ← ih]
      have hstore := store_step hstep
      generalize t.state = st' at hstore
      cases hstore with
      | quiet _ _ hopened hvotes hclosed hpolls hexpired hcount =>
          rw [hclosed, hcount]
          rfl
      | results h br creations out => rfl
      | block h b out data hvotes =>
          rw [applyBlock_voteResults, hvotes, count_missed_closing, hone, Nat.mul_one]
          rfl

/-- No poll is opened or closed twice over the whole run; each step opens it,
adds votes, closes it or leaves it alone; what is expired is what was closed. -/
structure PollLifeCycle (cx : Codecs) (config : Config) (trace : Trace) (s : System) :
    Prop where
  opened_once : (openedIds cx trace).Nodup
  closed_once : (closedIds cx trace).Nodup
  steps : ∀ earlier x later, trace = earlier ++ x :: later →
    ∃ u, Step (monitor cx config) x.before x.event u ∧ Run (monitor cx config) u later s ∧
      (∀ id, PollStep cx config id x.before.state x.event u.state) ∧
      x.before.state.expiredPollIds ⊆ u.state.expiredPollIds ∧
      ∀ h b out, x.event = .handled (.block h b) out →
        ∀ id poll, u.state.polls.get? id = some poll → h < poll.data.expiryHeight
  expired_closed : s.state.expiredPollIds = (closedIds cx trace).toFinset
  disjoint : ∀ id ∈ s.state.expiredPollIds, s.state.polls.get? id = none
  votes_carry_id : ∀ id poll, s.state.polls.get? id = some poll →
    poll.pollId = id ∧ ∀ v ∈ poll.votes, v.pollId = id
  missed_once : (config.broadcaster.map Broadcaster.name).Nodup →
    ∀ b ∈ config.broadcaster, ∀ chain,
      s.state.voteResults.count ⟨b.name, chain, .missed⟩ =
        (closedPolls cx trace).countP (missedBy cx config b.name chain)

theorem expiredPollIds_subset {s t : System} {e : Event IoCommand IoResult}
    (hstep : Step (monitor cx config) s e t) :
    s.state.expiredPollIds ⊆ t.state.expiredPollIds := by
  have hstore := store_step hstep
  generalize t.state = st' at hstore
  cases hstore with
  | quiet _ _ hopened hvotes hclosed hpolls hexpired hcount => rw [hexpired]
  | results h br creations out => exact Finset.Subset.refl _
  | block h b out data hvotes =>
      rw [applyBlock_expiredPollIds]
      exact Finset.subset_union_left

/-- Polls that a block leaves open expire later. -/
theorem later_expiry {s t : System} {h : Nat} {b : Block} {out : List IoCommand}
    (hstep : Step (monitor cx config) s (.handled (.block h b) out) t) {id : Nat} {poll : Poll}
    (hget : t.state.polls.get? id = some poll) : h < poll.data.expiryHeight := by
  have hhandles := step_handles hstep
  generalize t.state = st' at hhandles hget
  cases hhandles with
  | block _ _ data hdata =>
      rw [applyBlock_polls, OrderedMap.get?_retain_eq_some] at hget
      exact of_decide_eq_true hget.2

theorem name_counted_once {broadcasters : List Broadcaster}
    (hnames : (broadcasters.map Broadcaster.name).Nodup) {b : Broadcaster}
    (hb : b ∈ broadcasters) : broadcasters.countP (fun c => c.name = b.name) = 1 := by
  have hcount := List.count_eq_one_of_mem hnames (List.mem_map_of_mem hb)
  rw [List.count_eq_countP, List.countP_map] at hcount
  exact hcount

theorem poll_life_cycle {results : Nat → BlockResults} {trace : Trace} {s : System}
    (hrun : MonitorRun cx config trace s) (hhonest : HonestHeights trace)
    (hsorted : (fetchedHeads trace).Pairwise (· ≤ ·)) (htwo : ∀ h ∈ fetchedHeads trace, 2 ≤ h)
    (hresults : HonestResults results trace) (hunique : UniquePollIds cx results) :
    PollLifeCycle cx config trace s := by
  have hsteady : Steady trace := ⟨hhonest, hsorted, htwo⟩
  have hlived := run_lived hrun hsteady hresults hunique
  constructor
  · exact hlived.opened_nodup
  · exact hlived.closed_nodup
  · rintro earlier ⟨u, e⟩ later rfl
    obtain ⟨hreach, v, hstep, hrest⟩ := hrun.before_reached rfl
    have hcons : earlier ++ ⟨u, e⟩ :: later = (earlier ++ [⟨u, e⟩]) ++ later := by simp
    rw [hcons] at hsteady hresults
    have hbefore := run_lived hreach hsteady.earlier.earlier hresults.earlier.earlier hunique
    have hnew := newResults_of_steady hreach hstep hsteady.earlier hresults.earlier
    refine ⟨v, hstep, hrest, ?_, expiredPollIds_subset hstep, ?_⟩
    · intro id
      exact hbefore.pollStep hstep hunique hnew id
    · rintro h b out rfl id poll hget
      exact later_expiry hstep hget
  · exact hlived.expired_eq
  · exact hlived.disjoint
  · exact hlived.keyed
  · intro hnames b hb chain
    exact missed_eq hrun (name_counted_once hnames hb) chain

/-- The first attempt at the block results of height 5 fails, so block 6, with
the vote on their poll, is processed before they arrive. -/
def Sample.lateResults : List (Action Http) :=
  [.feed, .feed, serves chainListJson, servesBlock 5, servesBlock 7, .handle, .handle, .handle,
    serves chainParamsJson, servesBlock 5, .handle, .handle, fails, servesBlock 6, .handle,
    .handle, serves resultsJson, servesBlock 7, .handle, .handle]

theorem poll_life_cycle_late_results :
    ∃ r : Trace × System, MonitorRun Sample.codecs Sample.config r.1 r.2 ∧
      openedIds Sample.codecs r.1 = [1] ∧ closedIds Sample.codecs r.1 = [1] ∧
      PollLifeCycle Sample.codecs Sample.config r.1 r.2 := by
  have hreplay : ∃ r ∈ Sample.replay Sample.config Sample.lateResults, HonestHeights r.1 ∧
      (fetchedHeads r.1).Pairwise (· ≤ ·) ∧ (∀ h ∈ fetchedHeads r.1, 2 ≤ h) ∧
      HonestResults Sample.resultsAt r.1 ∧ openedIds Sample.codecs r.1 = [1] ∧
      closedIds Sample.codecs r.1 = [1] := by
    decide +kernel
  obtain ⟨r, hrun, hhonest, hsorted, htwo, hresults, hopened, hclosed⟩ :=
    Sample.run_of_replay hreplay
  exact ⟨r, hrun, hopened, hclosed,
    poll_life_cycle hrun hhonest hsorted htwo hresults Sample.resultsAt_unique⟩

end AxelarMonitor
