import AxelarMonitor.Analysis
import AxelarMonitor.Lib.Plurality

/-!
The analysis of a closed poll to the last increment: which transaction id
counts as the majority, and by how much every series grows. Transaction ids are
compared by code points, which is the byte order of their UTF-8 text.
-/

namespace AxelarMonitor

open Plurality

variable (cx : Codecs)

theorem get?_txIdCounts (votes : List PollVote) (id : String) :
    (txIdCounts votes).get? id =
      if id ∈ votes.map PollVote.txId then some ((votes.map PollVote.txId).count id) else none := by
  rw [txIdCounts_eq_tally, OrderedMap.get?_tally]
  have hmem : (∃ v ∈ votes, some v.txId = some id) ↔ id ∈ votes.map PollVote.txId := by
    simp
  have hcount : votes.countP (fun v => decide (some v.txId = some id)) =
      (votes.map PollVote.txId).count id := by
    rw [List.count, List.countP_map]
    apply List.countP_congr
    intro v _
    simp
  simp only [hmem, hcount, OrderedMap.count, OrderedMap.get?_empty, Option.getD_none, Nat.zero_add]

theorem isLeader_of_majority {votes : List PollVote} {majority : String}
    (h : majorityTxId votes = some majority) : IsLeader (votes.map PollVote.txId) majority := by
  unfold majorityTxId at h
  cases hentries : (txIdCounts votes).entries with
  | nil =>
      rw [hentries] at h
      cases h
  | cons e rest =>
      rw [hentries] at h
      obtain rfl : (lastMax Prod.snd e rest).1 = majority := Option.some.inj h
      exact isLeader_lastMax (get?_txIdCounts votes) hentries

theorem majority_eq_some {votes : List PollVote} {majority : String} :
    majorityTxId votes = some majority ↔ IsLeader (votes.map PollVote.txId) majority := by
  constructor
  · exact isLeader_of_majority
  · intro h
    have hne : votes ≠ [] := by
      rintro rfl
      exact absurd h.mem (by simp)
    obtain ⟨other, hother⟩ := majorityTxId_isSome hne
    rw [hother, (isLeader_of_majority hother).unique h]

/-- The name of the last configured broadcaster with an address. -/
def lastOwner (config : Config) (address : String) : Option String :=
  (config.broadcaster.reverse.find? (fun b => decide (b.address = address))).map Broadcaster.name

theorem owner_eq_lastOwner (config : Config) (vote : PollVote) :
    owner config vote = lastOwner config vote.senderId := by
  unfold owner senderToBroadcaster lastOwner
  rw [OrderedMap.get?_ofList, ← List.map_reverse, List.find?_map, Option.map_map]
  rfl

/-- What closing the poll adds to each series when `leader` is the majority. -/
def growth (config : Config) (poll : Poll) (leader : String) : VoteResult → Nat
  | ⟨n, c, .agreed⟩ => poll.votes.countP (fun v => decide (lastOwner config v.senderId = some n ∧
      cx.toLowercase v.chain = c ∧ v.txId = leader))
  | ⟨n, c, .disagreed⟩ => poll.votes.countP (fun v =>
      decide (lastOwner config v.senderId = some n ∧ cx.toLowercase v.chain = c ∧
        v.txId ≠ leader))
  | ⟨n, c, .missed⟩ =>
      if c = cx.toLowercase poll.data.chain ∧
          ∀ v ∈ poll.votes, lastOwner config v.senderId ≠ some n then
        config.broadcaster.countP (fun b => decide (b.name = n))
      else 0

theorem mem_voters_iff {config : Config} {votes : List PollVote} {name : String} :
    name ∈ voters config votes ↔ ∃ v ∈ votes, lastOwner config v.senderId = some name := by
  simp only [voters, List.mem_filterMap, ← owner_eq_lastOwner]
  rfl

/-- The analysis is one tally over the broadcasters and one over the votes; no
series grows in both. -/
theorem growth_eq_tallies (config : Config) (poll : Poll) (leader : String) (key : VoteResult) :
    growth cx config poll leader key =
      config.broadcaster.countP (fun b => decide (missedKey cx config poll b = some key)) +
        poll.votes.countP (fun v => decide (voteKey cx config leader v = some key)) := by
  obtain ⟨name, chain, result⟩ := key
  cases result with
  | agreed =>
      rw [countP_missedKey_eq_zero cx config poll (by simp), Nat.zero_add]
      apply List.countP_congr
      intro v _
      by_cases hagree : v.txId = leader <;>
        simp [voteKey, ← owner_eq_lastOwner, hagree]
  | disagreed =>
      rw [countP_missedKey_eq_zero cx config poll (by simp), Nat.zero_add]
      apply List.countP_congr
      intro v _
      by_cases hagree : v.txId = leader <;>
        simp [voteKey, ← owner_eq_lastOwner, hagree]
  | missed =>
      have hcond : (chain = cx.toLowercase poll.data.chain ∧
          ∀ v ∈ poll.votes, lastOwner config v.senderId ≠ some name) ↔
            (name ∉ voters config poll.votes ∧ cx.toLowercase poll.data.chain = chain) := by
        rw [mem_voters_iff, eq_comm]
        push Not
        exact And.comm
      rw [countP_missedKey, countP_voteKey_missed, Nat.add_zero]
      simp only [growth, hcond]

theorem get?_analyze {config : Config} {poll : Poll} {leader : String}
    (hleader : poll.votes ≠ [] → IsLeader (poll.votes.map PollVote.txId) leader)
    (m : OrderedMap VoteResult Nat) (key : VoteResult) :
    (analyzePollCompletion cx poll config m).get? key =
      if growth cx config poll leader key = 0 then m.get? key
      else some (m.count key + growth cx config poll leader key) := by
  rw [growth_eq_tallies]
  by_cases hnil : poll.votes = []
  · simp only [analyzePollCompletion, hnil, majorityTxId_nil, countMissed_eq_tally,
      List.countP_nil, Nat.add_zero, OrderedMap.get?_tally_count]
  · simp only [analyzePollCompletion, majority_eq_some.mpr (hleader hnil), countMissed_eq_tally,
      countVotes_eq_tally, OrderedMap.get?_tally_count, OrderedMap.count_tally]
    split_ifs <;> first | rfl | omega | (congr 1; omega)

theorem exists_leader (votes : List PollVote) :
    ∃ leader, votes ≠ [] → IsLeader (votes.map PollVote.txId) leader := by
  by_cases hnil : votes = []
  · exact ⟨"", fun hne => absurd hnil hne⟩
  · obtain ⟨leader, hleader⟩ := majorityTxId_isSome hnil
    exact ⟨leader, fun _ => isLeader_of_majority hleader⟩

theorem growth_perm (config : Config) (poll : Poll) (leader : String) {votes : List PollVote}
    (hperm : votes.Perm poll.votes) (key : VoteResult) :
    growth cx config { poll with votes := votes } leader key =
      growth cx config poll leader key := by
  obtain ⟨name, chain, result⟩ := key
  cases result with
  | agreed => exact hperm.countP_eq _
  | disagreed => exact hperm.countP_eq _
  | missed => simp only [growth, hperm.mem_iff]

theorem analyze_perm (config : Config) (poll : Poll) (m : OrderedMap VoteResult Nat)
    {votes : List PollVote} (hperm : votes.Perm poll.votes) :
    analyzePollCompletion cx { poll with votes := votes } config m =
      analyzePollCompletion cx poll config m := by
  obtain ⟨leader, hleader⟩ := exists_leader poll.votes
  have hleader' : votes ≠ [] → IsLeader (votes.map PollVote.txId) leader := by
    intro hne
    exact (hleader (fun hnil => hne (List.perm_nil.mp (hnil ▸ hperm)))).perm
      (hperm.map PollVote.txId).symm
  apply OrderedMap.ext
  intro key
  rw [get?_analyze cx hleader, get?_analyze cx hleader', growth_perm cx config poll leader hperm]

/-- Each series grows by exactly the votes or the absences that belong to it,
and the order of the votes is irrelevant. -/
theorem analysis_exact (config : Config) (poll : Poll) (m : OrderedMap VoteResult Nat) :
    (∃ leader, (poll.votes ≠ [] → IsLeader (poll.votes.map PollVote.txId) leader) ∧
      ∀ key, (analyzePollCompletion cx poll config m).get? key =
        if growth cx config poll leader key = 0 then m.get? key
        else some (m.count key + growth cx config poll leader key)) ∧
      ∀ votes, votes.Perm poll.votes →
        analyzePollCompletion cx { poll with votes := votes } config m =
          analyzePollCompletion cx poll config m := by
  obtain ⟨leader, hleader⟩ := exists_leader poll.votes
  exact ⟨⟨leader, hleader, get?_analyze cx hleader m⟩, fun votes => analyze_perm cx config poll m⟩

/-- Two ids with one vote each: the greater one is the majority. -/
example :
    let votes : List PollVote := [⟨1, "eth", "ab", "x", none⟩, ⟨1, "eth", "aa", "y", none⟩]
    majorityTxId votes = some "ab" := by
  decide +kernel

end AxelarMonitor
