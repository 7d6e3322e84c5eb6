import AxelarMonitor.Ledger
import AxelarMonitor.Lib.DisjointMaps
import AxelarMonitor.Scoreboard

/-!
Polls do not meet. Where the chain gives out each poll id once, a ledger that
opens the polls of all heights is two ledgers on top of each other, one that
opens those of some heights and one that opens those of the others, whichever
way the heights are divided.
-/

namespace AxelarMonitor

variable {cx : Codecs} {config : Config}

/-- The block results of some heights, and nothing at the others. -/
def onlyAt (opens : Nat → Bool) (results : Nat → BlockResults) (h : Nat) : BlockResults :=
  if opens h then results h else ⟨none⟩

theorem onlyAt_of {opens : Nat → Bool} {h : Nat} (hopens : opens h = true)
    (results : Nat → BlockResults) : onlyAt opens results h = results h := by
  rw [onlyAt, if_pos hopens]

theorem onlyAt_of_not {opens : Nat → Bool} {h : Nat} (hopens : opens h = false)
    (results : Nat → BlockResults) : onlyAt opens results h = ⟨none⟩ := by
  rw [onlyAt, hopens, if_neg (by simp)]

/-- The poll ids given out at some heights of the blocks. -/
def GivenOut (cx : Codecs) (results : Nat → BlockResults) (opens : Nat → Bool)
    (blocks : List (Nat × Block)) (id : Nat) : Prop :=
  ∃ b ∈ blocks, opens b.1 = true ∧ id ∈ eventIds cx (results b.1)

theorem GivenOut.more {results : Nat → BlockResults} {opens : Nat → Bool}
    {blocks : List (Nat × Block)} {id : Nat} (h : GivenOut cx results opens blocks id)
    (b : Nat × Block) : GivenOut cx results opens (blocks ++ [b]) id := by
  obtain ⟨c, hc, hopens, hid⟩ := h
  exact ⟨c, List.mem_append_left _ hc, hopens, hid⟩

theorem openAll_none (polls : List PollData) (l : Ledger) :
    Ledger.openAll cx ⟨none⟩ polls l = l := by
  have hassigned : txToPollIds cx ⟨none⟩ = .empty := rfl
  rw [Ledger.openAll_eq, hassigned]
  have hpolls : polls.foldl (openPoll .empty) l.polls = l.polls := by
    induction polls with
    | nil => rfl
    | cons creation rest ih => exact ih
  rw [hpolls]

/-- The poll that is opened under an id, if any. -/
def openedUnder (ids : OrderedMap String Nat) (creations : List PollData) (id : Nat) :
    Option Poll :=
  (creations.reverse.find? (fun c => decide (ids.get? c.tx = some id))).map (fun c => ⟨id, c, []⟩)

theorem get?_openPolls_or (ids : OrderedMap String Nat) (creations : List PollData)
    (polls : OrderedMap Nat Poll) (id : Nat) :
    (creations.foldl (openPoll ids) polls).get? id =
      (openedUnder ids creations id).or (polls.get? id) := by
  rw [get?_openPolls, openedUnder]
  cases creations.reverse.find? (fun c => decide (ids.get? c.tx = some id)) <;> rfl

theorem mem_assignedIds_of_opened {ids : OrderedMap String Nat} {creations : List PollData}
    {id : Nat} (h : (openedUnder ids creations id).isSome = true) :
    id ∈ assignedIds ids creations := by
  rw [openedUnder, Option.isSome_map] at h
  obtain ⟨creation, hlast⟩ := Option.isSome_iff_exists.mp h
  obtain ⟨hcreation, hassigned⟩ := OrderedMap.lastMatch_spec hlast
  exact List.mem_filterMap.mpr ⟨creation, hcreation, hassigned⟩

/-- The ids that a ledger has seen: open or closed. -/
def Ledger.Knows (l : Ledger) (id : Nat) : Prop :=
  id ∈ l.expired ∨ (l.polls.get? id).isSome = true

/-- `l` is `a` on top of `b`. The polls of `a` were opened at the heights that
`opens` names, those of `b` at the others. -/
structure Superposed (cx : Codecs) (results : Nat → BlockResults) (opens : Nat → Bool)
    (blocks : List (Nat × Block)) (l a b : Ledger) : Prop where
  polls : OrderedMap.Splits l.polls a.polls b.polls
  expired : l.expired = a.expired ∪ b.expired
  counts : ∀ key, l.voteResults.count key = a.voteResults.count key + b.voteResults.count key
  left : ∀ id, a.Knows id → GivenOut cx results opens blocks id
  right : ∀ id, b.Knows id → GivenOut cx results (fun h => !opens h) blocks id

/-- A ledger after the votes of a block and its closings. -/
theorem settle_polls (l : Ledger) (height : Nat) (b : Block) :
    (Ledger.settle cx config height b l).polls =
      ((blockVotes cx b).foldl pushVote l.polls).retain
        (fun _ poll => height < poll.data.expiryHeight) := by
  rw [Ledger.settle, foldl_castVote]
  rfl

theorem settle_expired (l : Ledger) (height : Nat) (b : Block) :
    (Ledger.settle cx config height b l).expired = l.expired ∪
      (expiringPollIds ((blockVotes cx b).foldl pushVote l.polls) height).toFinset := by
  rw [Ledger.settle, foldl_castVote]
  rfl

theorem settle_count (l : Ledger) (height : Nat) (b : Block) (key : VoteResult) :
    (Ledger.settle cx config height b l).voteResults.count key = l.voteResults.count key +
      ((closingPolls ((blockVotes cx b).foldl pushVote l.polls) height).map
        (share cx config key)).sum := by
  rw [Ledger.settle, foldl_castVote]
  exact count_closing _ _ _

/-- What is due was open. -/
theorem Ledger.Knows.of_settle {l : Ledger} {height : Nat} {b : Block} {id : Nat}
    (h : (Ledger.settle cx config height b l).Knows id) : l.Knows id := by
  have hopen {poll : Poll}
      (hget : ((blockVotes cx b).foldl pushVote l.polls).get? id = some poll) :
      (l.polls.get? id).isSome = true := by
    obtain ⟨old, hold, -⟩ := get?_pushVotes_eq_some hget
    rw [hold, Option.isSome_some]
  rcases h with hexpired | hpolls
  · rw [settle_expired, Finset.mem_union, List.mem_toFinset, mem_expiringPollIds] at hexpired
    rcases hexpired with hold | ⟨poll, hget, -⟩
    · exact .inl hold
    · exact .inr (hopen hget)
  · rw [settle_polls] at hpolls
    obtain ⟨poll, hget⟩ := Option.isSome_iff_exists.mp hpolls
    exact .inr (hopen (OrderedMap.get?_retain_eq_some.mp hget).1)

namespace Superposed

variable {results : Nat → BlockResults} {opens : Nat → Bool} {blocks : List (Nat × Block)}
  {l a b : Ledger}

theorem symm (h : Superposed cx results opens blocks l a b) :
    Superposed cx results (fun k => !opens k) blocks l b a where
  polls := h.polls.symm
  expired := by rw [h.expired, Finset.union_comm]
  counts key := by rw [h.counts, Nat.add_comm]
  left := h.right
  right := by simpa only [Bool.not_not] using h.left

theorem settle (h : Superposed cx results opens blocks l a b) (height : Nat) (block : Block) :
    Superposed cx results opens blocks (Ledger.settle cx config height block l)
      (Ledger.settle cx config height block a) (Ledger.settle cx config height block b) := by
  have hpushed : OrderedMap.Splits ((blockVotes cx block).foldl pushVote l.polls)
      ((blockVotes cx block).foldl pushVote a.polls)
      ((blockVotes cx block).foldl pushVote b.polls) :=
    h.polls.map_values _ (get?_pushVotes _ _) (get?_pushVotes _ _) (get?_pushVotes _ _)
  have hdue := hpushed.entries_perm.filter (fun e => e.2.data.expiryHeight ≤ height)
  rw [List.filter_append] at hdue
  constructor
  · simp only [settle_polls]
    exact hpushed.retain _
  · simp only [settle_expired, h.expired]
    have hids := hdue.map Prod.fst
    rw [List.map_append] at hids
    have hfinset : (expiringPollIds ((blockVotes cx block).foldl pushVote l.polls)
        height).toFinset = _ := List.toFinset_eq_of_perm _ _ hids
    rw [hfinset, List.toFinset_append]
    exact Finset.union_union_union_comm _ _ _ _
  · intro key
    have hpolls := (hdue.map Prod.snd).map (share cx config key)
    rw [List.map_append, List.map_append] at hpolls
    have hsum := hpolls.sum_nat
    rw [List.sum_append] at hsum
    simp only [settle_count, h.counts, closingPolls]
    omega
  · exact fun id hid => h.left id hid.of_settle
  · exact fun id hid => h.right id hid.of_settle

theorem more (h : Superposed cx results opens blocks l a b) (c : Nat × Block) :
    Superposed cx results opens (blocks ++ [c]) l a b :=
  { h with
    left := fun id hid => (h.left id hid).more c
    right := fun id hid => (h.right id hid).more c }

/-- Opening the polls of a height that belongs to the first ledger. -/
theorem openAll (h : Superposed cx results opens blocks l a b) (hunique : UniquePollIds cx results)
    {c : Nat × Block} (hopens : opens c.1 = true) (creations : List PollData) :
    Superposed cx results opens (blocks ++ [c]) (Ledger.openAll cx (results c.1) creations l)
      (Ledger.openAll cx (results c.1) creations a) b := by
  have hassigned : ∀ id ∈ assignedIds (txToPollIds cx (results c.1)) creations,
      GivenOut cx results opens (blocks ++ [c]) id ∧ b.polls.get? id = none := by
    intro id hid
    have hevent := assignedIds_subset cx (results c.1) creations id hid
    refine ⟨⟨c, List.mem_append_right _ List.mem_cons_self, hopens, hevent⟩, ?_⟩
    by_contra hsome
    obtain ⟨d, -, hother, hid'⟩ := h.right id (.inr (Option.isSome_iff_ne_none.mpr hsome))
    rw [hunique d.1 c.1 id hid' hevent] at hother
    simp [hopens] at hother
  have hpolls : OrderedMap.Splits (Ledger.openAll cx (results c.1) creations l).polls
      (Ledger.openAll cx (results c.1) creations a).polls b.polls := by
    simp only [Ledger.openAll_eq]
    refine h.polls.overlay _ (get?_openPolls_or _ _ _) (get?_openPolls_or _ _ _) ?_
    intro id hid
    exact (hassigned id (mem_assignedIds_of_opened hid)).2
  refine ⟨hpolls, ?_, ?_, ?_, (h.more c).right⟩
  · simpa only [Ledger.openAll_eq] using h.expired
  · simpa only [Ledger.openAll_eq] using h.counts
  · intro id hid
    by_cases hnew : id ∈ assignedIds (txToPollIds cx (results c.1)) creations
    · exact (hassigned id hnew).1
    · apply (h.more c).left
      simpa only [Ledger.Knows, Ledger.openAll_eq, get?_openPolls_of_not_mem hnew] using hid

theorem addBlock (h : Superposed cx results opens blocks l a b) (hunique : UniquePollIds cx results)
    (params : OrderedMap String ChainParams) (c : Nat × Block) :
    Superposed cx results opens (blocks ++ [c]) (Ledger.addBlock cx config results params l c)
      (Ledger.addBlock cx config (onlyAt opens results) params a c)
      (Ledger.addBlock cx config (onlyAt (fun k => !opens k) results) params b c) := by
  have hsettled : Superposed cx results opens blocks (Ledger.settle cx config c.1 c.2 l)
      (Ledger.settle cx config c.1 c.2 a) (Ledger.settle cx config c.1 c.2 b) := h.settle c.1 c.2
  unfold Ledger.addBlock
  cases hopens : opens c.1 with
  | true =>
      rw [onlyAt_of hopens, onlyAt_of_not (by rw [hopens, Bool.not_true]), openAll_none]
      exact hsettled.openAll hunique hopens _
  | false =>
      have hothers : (fun k => !opens k) c.1 = true := by simp [hopens]
      rw [onlyAt_of_not hopens, onlyAt_of hothers, openAll_none]
      have hswapped := hsettled.symm.openAll hunique hothers (Ledger.creations cx params c.1 c.2)
      simpa only [Bool.not_not] using hswapped.symm

end Superposed

theorem superposed_start (params : OrderedMap String ChainParams) (results : Nat → BlockResults)
    (opens : Nat → Bool) :
    Superposed cx results opens [] (Ledger.start config params) (Ledger.start config params)
      (Ledger.start config params) where
  polls := OrderedMap.splits_empty
  expired := rfl
  counts key := by
    have hzero : (Ledger.start config params).voteResults.count key = 0 := by
      rw [Ledger.start, OrderedMap.count, OrderedMap.get?_foldl_insert]
      split <;> rfl
    rw [hzero]
  left id hid := by
    rcases hid with hexpired | hopen
    · simp [Ledger.start] at hexpired
    · simp [Ledger.start] at hopen
  right id hid := by
    rcases hid with hexpired | hopen
    · simp [Ledger.start] at hexpired
    · simp [Ledger.start] at hopen

/-- The ledger of a chain, as the ledger of the polls that some heights open on
top of the ledger of those that the others open. -/
theorem polls_superpose {results : Nat → BlockResults} (hunique : UniquePollIds cx results)
    (params : OrderedMap String ChainParams) (opens : Nat → Bool) (blocks : List (Nat × Block)) :
    Superposed cx results opens blocks (.ofBlocks cx config results params blocks)
      (.ofBlocks cx config (onlyAt opens results) params blocks)
      (.ofBlocks cx config (onlyAt (fun k => !opens k) results) params blocks) := by
  induction blocks using List.reverseRecOn with
  | nil => exact superposed_start params results opens
  | append_singleton blocks c ih =>
      simp only [Ledger.ofBlocks_snoc]
      exact ih.addBlock hunique params c

end AxelarMonitor
