import AxelarMonitor.Conservation
import AxelarMonitor.Popularity

/-!
The vote results of a whole run. They are sums over the polls that were closed,
so neither the order in which polls close nor what else happens in between
matters; and each vote of a configured broadcaster that a block brought is
counted once, or is in one of the places where a vote can wait or get lost.
-/

namespace AxelarMonitor

open FifoLoop Plurality

variable (cx : Codecs)

def leaderOf (poll : Poll) : String := (majorityTxId poll.votes).getD ""

/-- What closing the poll adds to a series. -/
def share (config : Config) (key : VoteResult) (poll : Poll) : Nat :=
  growth cx config poll (leaderOf poll) key

theorem leaderOf_isLeader {poll : Poll} (hne : poll.votes ≠ []) :
    IsLeader (poll.votes.map PollVote.txId) (leaderOf poll) := by
  obtain ⟨leader, hleader⟩ := majorityTxId_isSome hne
  rw [leaderOf, hleader]
  exact isLeader_of_majority hleader

variable {cx} {config : Config}

theorem count_analyze_share (poll : Poll) (m : OrderedMap VoteResult Nat) (key : VoteResult) :
    (analyzePollCompletion cx poll config m).count key =
      m.count key + share cx config key poll :=
  count_analyze leaderOf_isLeader m key

theorem count_closing (polls : List Poll) (m : OrderedMap VoteResult Nat) (key : VoteResult) :
    (polls.foldl (fun m p => analyzePollCompletion cx p config m) m).count key =
      m.count key + (polls.map (share cx config key)).sum := by
  induction polls generalizing m with
  | nil => rfl
  | cons poll rest ih =>
      rw [List.foldl_cons, ih, count_analyze_share, List.map_cons, List.sum_cons, Nat.add_assoc]

/-- Over one poll, the outcomes of a name on a chain are its votes there. -/
theorem share_outcomes (name chain : String) (poll : Poll) :
    share cx config ⟨name, chain, .agreed⟩ poll + share cx config ⟨name, chain, .disagreed⟩ poll =
      poll.votes.countP (isVoteOf cx config name chain) := by
  have hanalysis := countedVotes_analyze cx poll config .empty name chain
  have hempty (key : VoteResult) : (OrderedMap.empty : OrderedMap VoteResult Nat).count key = 0 :=
    rfl
  simpa only [countedVotes, count_analyze_share, hempty, Nat.zero_add] using hanalysis

/-- Each series is the sum of the shares of the closed polls. -/
theorem results_eq_shares {trace : Trace} {s : System} (hrun : MonitorRun cx config trace s)
    (key : VoteResult) :
    s.state.voteResults.count key = ((closedPolls cx trace).map (share cx config key)).sum := by
  induction hrun with
  | nil => exact count_configVoteResults cx config key
  | @snoc trace s e t hrun hstep ih =>
      rw [closedPolls_snoc, List.map_append, List.sum_append, ← ih]
      have hstore := store_step hstep
      generalize t.state = st' at hstore
      cases hstore with
      | quiet _ _ hopened hvotes hclosed hpolls hexpired hcount =>
          rw [hclosed, hcount]
          rfl
      | results h br creations out => rfl
      | block h b out data hvotes =>
          rw [applyBlock_voteResults, hvotes, count_closing]
          rfl

theorem counted_eq_analysed {trace : Trace} {s : System} (hrun : MonitorRun cx config trace s)
    (name chain : String) :
    countedVotes s.state.voteResults name chain =
      (analysedVotes cx trace).countP (isVoteOf cx config name chain) := by
  rw [countedVotes, results_eq_shares hrun, results_eq_shares hrun, analysedVotes,
    List.countP_flatMap]
  induction closedPolls cx trace with
  | nil => rfl
  | cons poll rest ih =>
      have hpoll := @share_outcomes cx config name chain poll
      simp only [List.map_cons, List.sum_cons, Function.comp_apply] at ih ⊢
      omega

def isOn (cx : Codecs) (chain : String) (poll : Poll) : Bool :=
  cx.toLowercase poll.data.chain = chain

def votedIn (config : Config) (name : String) (poll : Poll) : Bool :=
  name ∈ voters config poll.votes

theorem missed_add_voted {trace : Trace} {s : System} (hrun : MonitorRun cx config trace s)
    {name : String} (hone : config.broadcaster.countP (fun b => b.name = name) = 1)
    (chain : String) :
    s.state.voteResults.count ⟨name, chain, .missed⟩ +
        (closedPolls cx trace).countP (fun p => isOn cx chain p && votedIn config name p) =
      (closedPolls cx trace).countP (isOn cx chain) := by
  rw [missed_eq hrun hone]
  induction closedPolls cx trace with
  | nil => rfl
  | cons poll rest ih =>
      have hone : (missedBy cx config name chain poll).toNat +
          (isOn cx chain poll && votedIn config name poll).toNat = (isOn cx chain poll).toNat := by
        unfold missedBy isOn votedIn
        by_cases hchain : cx.toLowercase poll.data.chain = chain <;>
          by_cases hvoted : name ∈ voters config poll.votes <;> simp [hchain, hvoted]
      have hcons (p : Poll → Bool) : (poll :: rest).countP p = rest.countP p + (p poll).toNat := by
        rw [List.countP_cons]
        cases p poll <;> rfl
      rw [hcons, hcons, hcons]
      omega

/-- The vote results in full: each series is the sum of the shares of the closed
polls, every vote that was cast is counted once or named among those that wait
or were dropped, and every closed poll is attended or missed. -/
structure Scoreboard (cx : Codecs) (config : Config) (trace : Trace) (s : System) : Prop where
  shares : ∀ key, s.state.voteResults.count key =
    ((closedPolls cx trace).map (share cx config key)).sum
  placed : ∀ name chain, (castVotes cx trace).countP (isVoteOf cx config name chain) =
    countedVotes s.state.voteResults name chain +
      (heldVotes s.state.polls).countP (isVoteOf cx config name chain) +
      (unheardVotes cx trace).countP (isVoteOf cx config name chain) +
      (displacedVotes cx trace).countP (isVoteOf cx config name chain)
  attendance : ∀ name, config.broadcaster.countP (fun b => b.name = name) = 1 → ∀ chain,
    s.state.voteResults.count ⟨name, chain, .missed⟩ +
        (closedPolls cx trace).countP (fun p => isOn cx chain p && votedIn config name p) =
      (closedPolls cx trace).countP (isOn cx chain)

theorem scoreboard {trace : Trace} {s : System} (hrun : MonitorRun cx config trace s) :
    Scoreboard cx config trace s where
  shares := results_eq_shares hrun
  placed name chain := by
    have hplaces := (run_conserves hrun).countP_eq (isVoteOf cx config name chain)
    simp only [List.countP_append] at hplaces
    rw [hplaces, counted_eq_analysed hrun]
  attendance name hone chain := missed_add_voted hrun hone chain

/-- The results of block 5 come after block 6; its vote is dropped and the poll
is missed. -/
theorem scoreboard_of_late_results :
    ∃ r : Trace × System, MonitorRun Sample.codecs Sample.config r.1 r.2 ∧
      r.2.state.voteResults.count ⟨"chorus", "eth", .missed⟩ = 1 ∧
      Scoreboard Sample.codecs Sample.config r.1 r.2 := by
  have hreplay : ∃ r ∈ Sample.replay Sample.config Sample.lateResults,
      r.2.state.voteResults.count ⟨"chorus", "eth", .missed⟩ = 1 := by
    decide +kernel
  obtain ⟨r, hrun, hmissed⟩ := Sample.run_of_replay hreplay
  exact ⟨r, hrun, hmissed, scoreboard hrun⟩

end AxelarMonitor
