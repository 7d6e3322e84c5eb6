import AxelarMonitor.Analysis

/-!
The poll store: what voting, opening and closing do to each poll, and how many
votes the open polls hold.
-/

namespace AxelarMonitor

variable (cx : Codecs)

/-- Voting appends to each open poll the votes that name it, in block order. -/
theorem get?_pushVotes (votes : List PollVote) (polls : OrderedMap Nat Poll) (id : Nat) :
    (votes.foldl pushVote polls).get? id =
      (polls.get? id).map (fun poll =>
        { poll with votes := poll.votes ++ votes.filter (fun v => v.pollId = id) }) := by
  induction votes generalizing polls with
  | nil => simp
  | cons vote rest ih =>
      rw [List.foldl_cons, ih, pushVote, OrderedMap.get?_modify]
      by_cases hid : id = vote.pollId
      · cases polls.get? id <;> simp [hid]
      · have hne : vote.pollId ≠ id := fun h => hid h.symm
        simp [hid, hne]

/-- Voting on related polls, with what it appends to each. -/
theorem related_pushVotes {R S : Nat → Poll → Poll → Prop} {polls polls' : OrderedMap Nat Poll}
    {votes votes' : List PollVote} (h : OrderedMap.Related R polls polls')
    (hpush : ∀ id p q, R id p q →
      S id { p with votes := p.votes ++ votes.filter (fun v => v.pollId = id) }
        { q with votes := q.votes ++ votes'.filter (fun v => v.pollId = id) }) :
    OrderedMap.Related S (votes.foldl pushVote polls) (votes'.foldl pushVote polls') :=
  h.map_values (get?_pushVotes votes polls) (get?_pushVotes votes' polls') hpush

/-- A poll that is open after some votes was open before them. -/
theorem get?_pushVotes_eq_some {votes : List PollVote} {polls : OrderedMap Nat Poll} {id : Nat}
    {poll : Poll} (h : (votes.foldl pushVote polls).get? id = some poll) :
    ∃ old, polls.get? id = some old ∧
      poll = { old with votes := old.votes ++ votes.filter (fun v => v.pollId = id) } := by
  rw [get?_pushVotes, Option.map_eq_some_iff] at h
  obtain ⟨old, hold, heq⟩ := h
  exact ⟨old, hold, heq.symm⟩

/-- The ids that the creations of a block are assigned, with repetitions. -/
def assignedIds (ids : OrderedMap String Nat) (creations : List PollData) : List Nat :=
  creations.filterMap (fun creation => ids.get? creation.tx)

theorem get?_openPoll (ids : OrderedMap String Nat) (polls : OrderedMap Nat Poll)
    (creation : PollData) (id : Nat) :
    (openPoll ids polls creation).get? id =
      if ids.get? creation.tx = some id then some ⟨id, creation, []⟩ else polls.get? id := by
  unfold openPoll
  cases hget : ids.get? creation.tx with
  | none => simp
  | some pollId =>
      by_cases hid : pollId = id
      · simp [hid]
      · have hne : id ≠ pollId := fun h => hid h.symm
        simp [OrderedMap.get?_insert, hid, hne]

/-- Of the creations that are assigned one id the last one is opened. -/
theorem get?_openPolls (ids : OrderedMap String Nat) (creations : List PollData)
    (polls : OrderedMap Nat Poll) (id : Nat) :
    (creations.foldl (openPoll ids) polls).get? id =
      match creations.reverse.find? (fun c => decide (ids.get? c.tx = some id)) with
      | some creation => some ⟨id, creation, []⟩
      | none => polls.get? id := by
  induction creations using List.reverseRecOn with
  | nil => rfl
  | append_singleton creations creation ih =>
      rw [List.foldl_append, List.foldl_cons, List.foldl_nil, get?_openPoll, ih,
        List.reverse_append, List.reverse_singleton, List.singleton_append, List.find?_cons]
      by_cases hassigned : ids.get? creation.tx = some id <;> simp [hassigned]

theorem get?_openPolls_of_not_mem {ids : OrderedMap String Nat} {creations : List PollData}
    {polls : OrderedMap Nat Poll} {id : Nat} (h : id ∉ assignedIds ids creations) :
    (creations.foldl (openPoll ids) polls).get? id = polls.get? id := by
  have hnone : creations.reverse.find? (fun c => decide (ids.get? c.tx = some id)) = none := by
    rw [OrderedMap.lastMatch_eq_none]
    intro c hc hassigned
    exact h (List.mem_filterMap.mpr ⟨c, hc, hassigned⟩)
  rw [get?_openPolls, hnone]

/-- An assigned id is opened without votes, for a creation it was assigned to. -/
theorem get?_openPolls_of_mem {ids : OrderedMap String Nat} {creations : List PollData}
    {polls : OrderedMap Nat Poll} {id : Nat} (h : id ∈ assignedIds ids creations) :
    ∃ creation ∈ creations, ids.get? creation.tx = some id ∧
      (creations.foldl (openPoll ids) polls).get? id = some ⟨id, creation, []⟩ := by
  obtain ⟨assigned, hmem, hget⟩ := List.mem_filterMap.mp h
  obtain ⟨creation, hlast⟩ :=
    OrderedMap.exists_lastMatch (fun c : PollData => ids.get? c.tx = some id) hmem hget
  obtain ⟨hcreation, hassigned⟩ := OrderedMap.lastMatch_spec hlast
  refine ⟨creation, hcreation, hassigned, ?_⟩
  rw [get?_openPolls, hlast]

/-- Opening related creations under the same ids. -/
theorem related_openPolls {R : Nat → Poll → Poll → Prop} {D : PollData → PollData → Prop}
    (hnew : ∀ id c c', D c c' → c.tx = c'.tx ∧ R id ⟨id, c, []⟩ ⟨id, c', []⟩)
    (ids : OrderedMap String Nat) {creations creations' : List PollData}
    (hcreations : List.Forall₂ D creations creations') {polls polls' : OrderedMap Nat Poll}
    (h : OrderedMap.Related R polls polls') :
    OrderedMap.Related R (creations.foldl (openPoll ids) polls)
      (creations'.foldl (openPoll ids) polls') := by
  induction hcreations generalizing polls polls' with
  | nil => exact h
  | @cons c c' rest rest' hc _ ih =>
      apply ih
      intro id
      obtain ⟨htx, hopened⟩ := hnew id c c' hc
      rw [get?_openPoll, get?_openPoll, htx]
      split
      · exact .some hopened
      · exact h id

/-- A block appends its votes to the open polls and closes those it expires. -/
theorem get?_applyBlock (config : Config) (height : Nat) (data : RawBlockData)
    (st : ProcessingState) (id : Nat) :
    (applyBlock cx config height data st).polls.get? id =
      ((st.polls.get? id).map (fun poll =>
        { poll with votes := poll.votes ++ data.votes.filter (fun v => v.pollId = id) })).filter
          (fun poll => height < poll.data.expiryHeight) := by
  rw [applyBlock_polls, OrderedMap.get?_retain, get?_pushVotes]

/-- The poll ids of the poll events in a block's results. -/
def eventIds (results : BlockResults) : List Nat :=
  (extractAllPollEvents cx results).map PollEvent.pollId

theorem assignedIds_subset (results : BlockResults) (creations : List PollData) :
    ∀ id ∈ assignedIds (txToPollIds cx results) creations, id ∈ eventIds cx results := by
  intro id hid
  obtain ⟨creation, -, hget⟩ := List.mem_filterMap.mp hid
  obtain ⟨event, hevent, heq⟩ := List.mem_map.mp (OrderedMap.get?_ofList_mem hget)
  rw [← (Prod.mk.inj heq).2]
  exact List.mem_map_of_mem hevent

theorem get?_blockResults {results : BlockResults} {creations : List PollData}
    {st : ProcessingState} {id : Nat} {poll : Poll}
    (h : (processBlockResultsMessage cx results creations st).polls.get? id = some poll) :
    st.polls.get? id = some poll ∨
      (∃ creation ∈ creations, poll = ⟨id, creation, []⟩) ∧ id ∈ eventIds cx results := by
  by_cases hid : id ∈ assignedIds (txToPollIds cx results) creations
  · obtain ⟨creation, hcreation, -, hopen⟩ :=
      @get?_openPolls_of_mem _ _ st.polls _ hid
    obtain rfl := Option.some.inj (h.symm.trans hopen)
    exact Or.inr ⟨⟨creation, hcreation, rfl⟩, assignedIds_subset cx results creations id hid⟩
  · exact Or.inl ((get?_openPolls_of_not_mem hid).symm.trans h)

def openVotes (p : PollVote → Bool) (polls : OrderedMap Nat Poll) : Nat :=
  polls.sum (fun poll => poll.votes.countP p)

theorem openVotes_pushVotes (p : PollVote → Bool) (votes : List PollVote)
    (polls : OrderedMap Nat Poll) :
    openVotes p (votes.foldl pushVote polls) ≤ openVotes p polls + votes.countP p := by
  induction votes generalizing polls with
  | nil => simp
  | cons vote rest ih =>
      have hpush : openVotes p (pushVote polls vote) ≤
          openVotes p polls + if p vote then 1 else 0 := by
        refine OrderedMap.sum_modify_le _ polls vote.pollId _ _ (fun poll => ?_)
        simp [List.countP_append, List.countP_singleton]
      have hrest := ih (pushVote polls vote)
      rw [List.foldl_cons, List.countP_cons]
      omega

theorem openVotes_openPolls (p : PollVote → Bool) (ids : OrderedMap String Nat)
    (creations : List PollData) (polls : OrderedMap Nat Poll) :
    openVotes p (creations.foldl (openPoll ids) polls) ≤ openVotes p polls := by
  induction creations generalizing polls with
  | nil => exact Nat.le_refl _
  | cons creation rest ih =>
      refine (ih (openPoll ids polls creation)).trans ?_
      unfold openPoll
      split
      · exact Nat.le_refl _
      · next pollId _ =>
        exact OrderedMap.sum_insert_le _ polls pollId ⟨pollId, creation, []⟩

/-- Closing takes the votes of the closed polls out of the store. -/
theorem openVotes_retain (p : PollVote → Bool) (polls : OrderedMap Nat Poll) (height : Nat) :
    openVotes p (polls.retain (fun _ poll => height < poll.data.expiryHeight)) +
      ((closingPolls polls height).map (fun poll => poll.votes.countP p)).sum =
        openVotes p polls := by
  have hsplit := OrderedMap.sum_retain (fun poll : Poll => poll.votes.countP p) polls
    (fun _ poll => decide (height < poll.data.expiryHeight))
  have hclosing : (closingPolls polls height).map (fun poll => poll.votes.countP p) =
      (polls.entries.filter (fun e => !decide (height < e.2.data.expiryHeight))).map
        (fun e => e.2.votes.countP p) := by
    unfold closingPolls
    rw [List.map_map]
    congr 2
    funext e
    rw [← decide_not]
    exact decide_eq_decide.mpr Nat.not_lt.symm
  rw [hclosing]
  exact hsplit

theorem countedVotes_closing (config : Config) (name chain : String) (polls : List Poll)
    (m : OrderedMap VoteResult Nat) :
    countedVotes (polls.foldl (fun m p => analyzePollCompletion cx p config m) m) name chain =
      countedVotes m name chain +
        (polls.map (fun p => p.votes.countP (isVoteOf cx config name chain))).sum := by
  induction polls generalizing m with
  | nil => rfl
  | cons poll rest ih =>
      rw [List.foldl_cons, ih, countedVotes_analyze, List.map_cons, List.sum_cons]
      omega

theorem applyBlock_voteResults (config : Config) (height : Nat) (data : RawBlockData)
    (st : ProcessingState) :
    (applyBlock cx config height data st).voteResults =
      (closingPolls (data.votes.foldl pushVote st.polls) height).foldl
        (fun m p => analyzePollCompletion cx p config m) st.voteResults := by
  rw [applyBlock, expirePolls_eq]

theorem applyBlock_expiredPollIds (config : Config) (height : Nat) (data : RawBlockData)
    (st : ProcessingState) :
    (applyBlock cx config height data st).expiredPollIds = st.expiredPollIds ∪
      (expiringPollIds (data.votes.foldl pushVote st.polls) height).toFinset := by
  rw [applyBlock, expirePolls_eq]

/-- The polls that a message closes: those a block expires once its votes are
appended. -/
def closedBy (polls : OrderedMap Nat Poll) : IoResult → List Poll
  | .block h b => closingPolls ((blockVotes cx b).foldl pushVote polls) h
  | _ => []

theorem mem_closingPolls {polls : OrderedMap Nat Poll} {height : Nat} {poll : Poll} :
    poll ∈ closingPolls polls height ↔
      ∃ id, polls.get? id = some poll ∧ poll.data.expiryHeight ≤ height := by
  unfold closingPolls
  simp only [List.mem_map, List.mem_filter, decide_eq_true_eq]
  constructor
  · rintro ⟨⟨id, poll⟩, ⟨hmem, hdue⟩, rfl⟩
    exact ⟨id, OrderedMap.mem_entries.mp hmem, hdue⟩
  · rintro ⟨id, hget, hdue⟩
    exact ⟨(id, poll), ⟨OrderedMap.mem_entries.mpr hget, hdue⟩, rfl⟩

theorem mem_expiringPollIds {polls : OrderedMap Nat Poll} {height id : Nat} :
    id ∈ expiringPollIds polls height ↔
      ∃ poll, polls.get? id = some poll ∧ poll.data.expiryHeight ≤ height := by
  unfold expiringPollIds
  simp only [List.mem_map, List.mem_filter, decide_eq_true_eq]
  constructor
  · rintro ⟨⟨id, poll⟩, ⟨hmem, hdue⟩, rfl⟩
    exact ⟨poll, OrderedMap.mem_entries.mp hmem, hdue⟩
  · rintro ⟨poll, hget, hdue⟩
    exact ⟨(id, poll), ⟨OrderedMap.mem_entries.mpr hget, hdue⟩, rfl⟩

theorem expiringPollIds_nodup (polls : OrderedMap Nat Poll) (height : Nat) :
    (expiringPollIds polls height).Nodup :=
  polls.keys_nodup.sublist (List.filter_sublist.map Prod.fst)

section Related

variable {R : Poll → Poll → Prop} (hR : ∀ p q, R p q → p.data.expiryHeight = q.data.expiryHeight)
  {polls polls' : OrderedMap Nat Poll} (h : OrderedMap.Related (fun _ => R) polls polls')

include hR h

theorem due_related (height : Nat) :
    List.Forall₂ (fun e e' => e.1 = e'.1 ∧ R e.2 e'.2)
      (polls.entries.filter (fun e => e.2.data.expiryHeight ≤ height))
      (polls'.entries.filter (fun e => e.2.data.expiryHeight ≤ height)) := by
  refine List.rel_filter (fun _ _ he => ?_) h.forall₂_entries
  simp only [hR _ _ he.2]

/-- Of pairwise related polls with the same expiry the same ones close. -/
theorem closingPolls_related (height : Nat) :
    List.Forall₂ R (closingPolls polls height) (closingPolls polls' height) :=
  List.rel_map (fun _ _ he => he.2) (due_related hR h height)

theorem expiringPollIds_related (height : Nat) :
    expiringPollIds polls height = expiringPollIds polls' height := by
  rw [← List.forall₂_eq_eq_eq]
  exact List.rel_map (fun _ _ he => he.1) (due_related hR h height)

end Related

/-- Where each poll is stored under its own id, the closed polls have the
expiring ids. -/
theorem closingPolls_ids {polls : OrderedMap Nat Poll} (height : Nat)
    (hkeyed : ∀ id poll, polls.get? id = some poll → poll.pollId = id) :
    (closingPolls polls height).map Poll.pollId = expiringPollIds polls height := by
  unfold closingPolls expiringPollIds
  rw [List.map_map]
  apply List.map_congr_left
  intro e he
  exact hkeyed e.1 e.2 (OrderedMap.mem_entries.mp (List.mem_filter.mp he).1)

/-- The entries of a name in the configuration are counted as missing once for
each closed poll that none of its addresses voted on. -/
theorem count_missed_closing (config : Config) (name chain : String) (polls : List Poll)
    (m : OrderedMap VoteResult Nat) :
    (polls.foldl (fun m p => analyzePollCompletion cx p config m) m).count
        ⟨name, chain, .missed⟩ =
      m.count ⟨name, chain, .missed⟩ +
        polls.countP (fun p => decide (name ∉ voters config p.votes ∧
          cx.toLowercase p.data.chain = chain)) *
            config.broadcaster.countP (fun b => b.name = name) := by
  induction polls generalizing m with
  | nil => simp
  | cons poll rest ih =>
      rw [List.foldl_cons, ih, count_missed_analyze, List.countP_cons, Nat.add_mul]
      split_ifs with hmissed
      all_goals simp_all
      omega

/-- A block's votes are counted at most once, in an open poll or in the
results of the polls it closes. -/
theorem applyBlock_votes_le (config : Config) (height : Nat) (data : RawBlockData)
    (st : ProcessingState) (name chain : String) :
    countedVotes (applyBlock cx config height data st).voteResults name chain +
        openVotes (isVoteOf cx config name chain) (applyBlock cx config height data st).polls ≤
      countedVotes st.voteResults name chain +
        openVotes (isVoteOf cx config name chain) st.polls +
          data.votes.countP (isVoteOf cx config name chain) := by
  rw [applyBlock_voteResults, countedVotes_closing, applyBlock_polls]
  have hpush := openVotes_pushVotes (isVoteOf cx config name chain) data.votes st.polls
  have hclose := openVotes_retain (isVoteOf cx config name chain)
    (data.votes.foldl pushVote st.polls) height
  omega

end AxelarMonitor
