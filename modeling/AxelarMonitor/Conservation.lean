import AxelarMonitor.Lib.MapContents
import AxelarMonitor.PollLifeCycle

/-!
Where the votes go. Every vote of a processed block is in exactly one of four
places: with a poll that was analysed, with a poll that is open, among those
dropped because their poll was not open, or with a poll that another one
replaced under its id. No run loses a vote otherwise, and none gains one.
-/

namespace AxelarMonitor

open FifoLoop

variable (cx : Codecs)

/-- The votes of all open polls. -/
def heldVotes (polls : OrderedMap Nat Poll) : List PollVote := polls.gather Poll.votes

/-- The votes of a block whose polls are not open. -/
def unheard (polls : OrderedMap Nat Poll) (votes : List PollVote) : List PollVote :=
  votes.filter (fun v => !polls.contains v.pollId)

/-- The votes of the polls that are replaced when creations are opened one after
the other. -/
def displaced (ids : OrderedMap String Nat) : OrderedMap Nat Poll → List PollData →
    List PollVote
  | _, [] => []
  | polls, creation :: rest =>
      (match ids.get? creation.tx with
        | none => []
        | some id => ((polls.get? id).map Poll.votes).getD []) ++
      displaced ids (openPoll ids polls creation) rest

variable {cx} {config : Config}

theorem contains_pushVote (polls : OrderedMap Nat Poll) (vote : PollVote) (id : Nat) :
    (pushVote polls vote).contains id = polls.contains id := by
  unfold OrderedMap.contains pushVote
  rw [OrderedMap.get?_modify]
  split <;> simp [*]

theorem heldVotes_pushVote (polls : OrderedMap Nat Poll) (vote : PollVote) :
    (heldVotes (pushVote polls vote)).Perm
      (heldVotes polls ++ if polls.contains vote.pollId then [vote] else []) := by
  unfold heldVotes pushVote OrderedMap.contains
  cases hget : polls.get? vote.pollId with
  | none => simp [OrderedMap.modify_of_get?_none hget]
  | some poll => exact OrderedMap.gather_modify hget (List.Perm.refl _)

/-- Casting votes files those of open polls. -/
theorem heldVotes_pushVotes (votes : List PollVote) (polls : OrderedMap Nat Poll) :
    (heldVotes polls ++ votes).Perm
      (heldVotes (votes.foldl pushVote polls) ++ unheard polls votes) := by
  induction votes generalizing polls with
  | nil => simp [unheard]
  | cons vote rest ih =>
      have hunheard : unheard (pushVote polls vote) rest = unheard polls rest := by
        simp only [unheard, contains_pushVote]
      rw [List.perm_iff_count]
      intro v
      have hpush := (heldVotes_pushVote polls vote).count_eq v
      have hrest := (ih (pushVote polls vote)).count_eq v
      rw [hunheard] at hrest
      rw [List.foldl_cons]
      have hhead : unheard polls (vote :: rest) =
          (if polls.contains vote.pollId then [] else [vote]) ++ unheard polls rest := by
        cases hopen : polls.contains vote.pollId <;> simp [unheard, hopen]
      rw [hhead]
      cases hopen : polls.contains vote.pollId <;>
        simp only [hopen, if_true, Bool.false_eq_true, if_false, List.count_append,
          List.count_cons, List.count_nil] at hpush hrest ⊢ <;> omega

theorem heldVotes_closing (polls : OrderedMap Nat Poll) (height : Nat) :
    (heldVotes polls).Perm
      (heldVotes (polls.retain (fun _ poll => height < poll.data.expiryHeight)) ++
        (closingPolls polls height).flatMap Poll.votes) := by
  have hsplit := OrderedMap.gather_retain (m := polls) (g := Poll.votes)
    (fun _ poll => decide (height < poll.data.expiryHeight))
  have hclosing : (closingPolls polls height).flatMap Poll.votes =
      (polls.entries.filter (fun e => !decide (height < e.2.data.expiryHeight))).flatMap
        (fun e => e.2.votes) := by
    unfold closingPolls
    rw [List.flatMap_map]
    congr 2
    funext e
    rw [← decide_not]
    exact decide_eq_decide.mpr Nat.not_lt.symm
  rw [hclosing]
  exact hsplit

theorem heldVotes_openPolls (ids : OrderedMap String Nat) (creations : List PollData)
    (polls : OrderedMap Nat Poll) :
    (heldVotes polls).Perm
      (heldVotes (creations.foldl (openPoll ids) polls) ++ displaced ids polls creations) := by
  induction creations generalizing polls with
  | nil => simp [displaced]
  | cons creation rest ih =>
      rw [List.foldl_cons, displaced]
      have hrest := ih (openPoll ids polls creation)
      unfold openPoll at hrest ⊢
      cases hassigned : ids.get? creation.tx with
      | none => simpa [hassigned] using hrest
      | some id =>
          simp only [hassigned] at hrest ⊢
          refine (OrderedMap.gather_insert_nil rfl).trans ((hrest.append_right _).trans ?_)
          rw [List.append_assoc]
          exact List.perm_append_comm.append_left _

section Events

variable (cx)

/-- The votes of a handled block. -/
def castIn : Event IoCommand IoResult → List PollVote
  | .handled (.block _ b) _ => blockVotes cx b
  | _ => []

def unheardIn (polls : OrderedMap Nat Poll) : Event IoCommand IoResult → List PollVote
  | .handled (.block _ b) _ => unheard polls (blockVotes cx b)
  | _ => []

def displacedIn (polls : OrderedMap Nat Poll) : Event IoCommand IoResult → List PollVote
  | .handled (.blockResults _ results creations) _ =>
      displaced (txToPollIds cx results) polls creations
  | _ => []

def castVotes (trace : Trace) : List PollVote := trace.flatMap (fun x => castIn cx x.event)

def unheardVotes (trace : Trace) : List PollVote :=
  trace.flatMap (fun x => unheardIn cx x.before.state.polls x.event)

def displacedVotes (trace : Trace) : List PollVote :=
  trace.flatMap (fun x => displacedIn cx x.before.state.polls x.event)

def analysedVotes (trace : Trace) : List PollVote := (closedPolls cx trace).flatMap Poll.votes

end Events

/-- The four places, for one step: what is held before and what is cast. -/
theorem step_conserves {s t : System} {e : Event IoCommand IoResult}
    (hstep : Step (monitor cx config) s e t) :
    (heldVotes s.state.polls ++ castIn cx e).Perm
      ((closedIn cx s.state.polls e).flatMap Poll.votes ++ heldVotes t.state.polls ++
        unheardIn cx s.state.polls e ++ displacedIn cx s.state.polls e) := by
  cases e with
  | fed => simp [castIn, closedIn, unheardIn, displacedIn, hstep.state_fed]
  | answered cmd out => simp [castIn, closedIn, unheardIn, displacedIn, hstep.state_answered]
  | handled msg out =>
      have hhandles := step_handles hstep
      generalize t.state = st' at hhandles
      cases hhandles with
      | block h b data hdata =>
          have hcast := heldVotes_pushVotes (blockVotes cx b) s.state.polls
          have hclose := heldVotes_closing ((blockVotes cx b).foldl pushVote s.state.polls) h
          simp only [castIn, closedIn, closedBy, unheardIn, displacedIn, applyBlock_polls,
            List.append_nil, hdata.votes_eq]
          exact hcast.trans ((hclose.trans List.perm_append_comm).append_right _)
      | blockResults h results creations =>
          simp only [castIn, closedIn, closedBy, unheardIn, displacedIn, List.flatMap_nil,
            List.nil_append, List.append_nil]
          exact heldVotes_openPolls (txToPollIds cx results) creations s.state.polls
      | _ => simp [castIn, closedIn, closedBy, unheardIn, displacedIn, countError]

/-- The conservation law over a run, from its start. -/
theorem run_conserves {trace : Trace} {s : System} (hrun : MonitorRun cx config trace s) :
    (castVotes cx trace).Perm
      (analysedVotes cx trace ++ heldVotes s.state.polls ++ unheardVotes cx trace ++
        displacedVotes cx trace) := by
  induction hrun with
  | nil => simp [castVotes, analysedVotes, unheardVotes, displacedVotes, closedPolls, heldVotes,
      startUp, ProcessingState.new, OrderedMap.gather, OrderedMap.values, OrderedMap.empty]
  | @snoc trace s e t hrun hstep ih =>
      have hone := step_conserves hstep
      simp only [castVotes, analysedVotes, unheardVotes, displacedVotes, closedPolls_snoc,
        List.flatMap_append, List.flatMap_singleton] at ih ⊢
      rw [List.perm_iff_count]
      intro v
      have hbefore := ih.count_eq v
      have hnow := hone.count_eq v
      simp only [List.count_append] at hbefore hnow ⊢
      omega

/-- Two creations of one message may share an id; the first is opened without
votes, so the second one takes nothing from it. -/
theorem displaced_eq_nil {ids : OrderedMap String Nat} {creations : List PollData}
    {polls : OrderedMap Nat Poll}
    (hempty : ∀ id ∈ assignedIds ids creations, ∀ poll, polls.get? id = some poll →
      poll.votes = []) :
    displaced ids polls creations = [] := by
  induction creations generalizing polls with
  | nil => rfl
  | cons creation rest ih =>
      have hrest : displaced ids (openPoll ids polls creation) rest = [] := by
        apply ih
        intro id hid poll hget
        rw [get?_openPoll] at hget
        split at hget
        · rw [← Option.some.inj hget]
        · apply hempty id _ poll hget
          obtain ⟨c, hc, hassigned⟩ := List.mem_filterMap.mp hid
          exact List.mem_filterMap.mpr ⟨c, List.mem_cons_of_mem _ hc, hassigned⟩
      rw [displaced, hrest, List.append_nil]
      cases hassigned : ids.get? creation.tx with
      | none => rfl
      | some id =>
          have hmem : id ∈ assignedIds ids (creation :: rest) :=
            List.mem_filterMap.mpr ⟨creation, List.mem_cons_self, hassigned⟩
          cases hget : polls.get? id with
          | none => simp [hget]
          | some poll => simp [hget, hempty id hmem poll hget]

theorem Lived.displacedIn_eq_nil {results : Nat → BlockResults} {trace : Trace} {s : System}
    {e : Event IoCommand IoResult} (hl : Lived cx results trace s)
    (hunique : UniquePollIds cx results) (hnew : NewResults results trace e) :
    displacedIn cx s.state.polls e = [] := by
  cases e with
  | handled msg out =>
      cases msg with
      | blockResults h br creations =>
          apply displaced_eq_nil
          intro id hid poll hget
          exact absurd (hl.open_opened id poll hget) (hl.fresh hunique hnew hid)
      | _ => rfl
  | _ => rfl

/-- While the chain gives out each id once, no open poll is ever replaced. -/
theorem displacedVotes_eq_nil {results : Nat → BlockResults} {trace : Trace} {s : System}
    (hrun : MonitorRun cx config trace s) (hsteady : Steady trace)
    (hhonest : HonestResults results trace) (hunique : UniquePollIds cx results) :
    displacedVotes cx trace = [] := by
  induction hrun with
  | nil => rfl
  | @snoc trace s e t hrun hstep ih =>
      have hlived := run_lived hrun hsteady.earlier hhonest.earlier hunique
      have hnew := newResults_of_steady hrun hstep hsteady hhonest
      rw [displacedVotes, List.flatMap_append, List.flatMap_singleton,
        hlived.displacedIn_eq_nil hunique hnew, List.append_nil]
      exact ih hsteady.earlier hhonest.earlier

/-- Every vote of a processed block is in exactly one place, and none is
displaced while each height has one bundle and each poll its own id. -/
theorem votes_conserved {trace : Trace} {s : System} (hrun : MonitorRun cx config trace s) :
    (castVotes cx trace).Perm
        (analysedVotes cx trace ++ heldVotes s.state.polls ++ unheardVotes cx trace ++
          displacedVotes cx trace) ∧
      ∀ results, Steady trace → HonestResults results trace → UniquePollIds cx results →
        displacedVotes cx trace = [] := by
  refine ⟨run_conserves hrun, ?_⟩
  intro results hsteady hhonest hunique
  exact displacedVotes_eq_nil hrun hsteady hhonest hunique

/-- The results of block 5 come after block 6, whose vote is dropped. -/
theorem votes_conserved_when_late :
    ∃ r : Trace × System, MonitorRun Sample.codecs Sample.config r.1 r.2 ∧
      (unheardVotes Sample.codecs r.1).length = 1 ∧
      (castVotes Sample.codecs r.1).Perm
        (analysedVotes Sample.codecs r.1 ++ heldVotes r.2.state.polls ++
          unheardVotes Sample.codecs r.1 ++ displacedVotes Sample.codecs r.1) := by
  have hreplay : ∃ r ∈ Sample.replay Sample.config Sample.lateResults,
      (unheardVotes Sample.codecs r.1).length = 1 := by
    decide +kernel
  obtain ⟨r, hrun, hunheard⟩ := Sample.run_of_replay hreplay
  exact ⟨r, hrun, hunheard, (votes_conserved hrun).1⟩

end AxelarMonitor
