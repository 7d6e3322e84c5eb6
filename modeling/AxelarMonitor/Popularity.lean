import AxelarMonitor.Accounting
import AxelarMonitor.Contributions

/-!
From vote requests to the majority. Extraction turns a request into one vote for
each of its events, so the analysis weighs a voter by the number of events and
not once.
-/

namespace AxelarMonitor

open Plurality

variable (cx : Codecs)

/-- The account that sent a request. -/
def voterOf (r : VoteRequest) : Option String := decodeBech32ToHex cx r.sender

/-- The transaction ids a request names, one for each event. Without events it
names the empty id. -/
def namedIds (r : VoteRequest) : List String :=
  match voteEventsOf cx r with
  | none => []
  | some voteEvents =>
      if voteEvents.events = [] then [""]
      else voteEvents.events.map (fun event => hexEncode event.txId)

def Supports (r : VoteRequest) (id : String) : Prop :=
  namedIds cx r ≠ [] ∧ ∀ named ∈ namedIds cx r, named = id

instance (r : VoteRequest) (id : String) : Decidable (Supports cx r id) :=
  inferInstanceAs (Decidable (_ ∧ _))

/-- The requests that support an id. -/
def supporters (requests : List VoteRequest) (id : String) : Nat :=
  requests.countP (fun r => decide (Supports cx r id))

theorem Supports.unique {r : VoteRequest} {a b : String} (ha : Supports cx r a)
    (hb : Supports cx r b) : a = b := by
  obtain ⟨named, hnamed⟩ := List.exists_mem_of_ne_nil _ ha.1
  exact (ha.2 named hnamed).symm.trans (hb.2 named hnamed)

theorem map_txId_votesOfRequest {r : VoteRequest} {voter : String}
    (hvoter : voterOf cx r = some voter) :
    (votesOfRequest cx r).map PollVote.txId = namedIds cx r := by
  have hdecode : decodeVote cx r = some ⟨voter, r.pollId, voteEventsOf cx r⟩ := by
    rw [decodeVote_eq, show decodeBech32ToHex cx r.sender = some voter from hvoter,
      Option.map_some]
  simp only [votesOfRequest, hdecode, Option.toList_some, List.flatMap_singleton, namedIds,
    votesOfDecoded]
  cases voteEventsOf cx r with
  | none => rfl
  | some voteEvents =>
      cases hevents : voteEvents.events with
      | nil => simp [hevents]
      | cons event rest => simp [hevents]

theorem voterOf_of_mem {r : VoteRequest} {v : PollVote} (hv : v ∈ votesOfRequest cx r) :
    voterOf cx r = some v.senderId := by
  obtain ⟨decoded, hdecoded, hv⟩ := List.mem_flatMap.mp hv
  obtain ⟨sender, hsender, rfl⟩ := Option.map_eq_some_iff.mp (Option.mem_toList.mp hdecoded)
  have hid : v.senderId = sender := by
    unfold votesOfDecoded at hv
    split at hv
    · cases hv
    · split at hv
      · obtain rfl := List.mem_singleton.mp hv
        rfl
      · obtain ⟨event, -, rfl⟩ := List.mem_map.mp hv
        rfl
  rw [hid]
  exact hsender

/-- The ids that the analysis counts, one for each event of a request whose
sender can be read. -/
def countedIds (requests : List VoteRequest) : List String :=
  (requests.filter (fun r => (voterOf cx r).isSome)).flatMap (namedIds cx)

theorem map_txId_votes (requests : List VoteRequest) :
    (requests.flatMap (votesOfRequest cx)).map PollVote.txId = countedIds cx requests := by
  induction requests with
  | nil => rfl
  | cons r rest ih =>
      rw [List.flatMap_cons, List.map_append, ih, countedIds, countedIds]
      cases hvoter : voterOf cx r with
      | none =>
          have hnil : votesOfRequest cx r = [] := by
            rw [List.eq_nil_iff_forall_not_mem]
            intro v hv
            rw [voterOf_of_mem cx hv] at hvoter
            cases hvoter
          simp [hnil, hvoter]
      | some voter =>
          rw [map_txId_votesOfRequest cx hvoter, List.filter_cons_of_pos (by simp [hvoter]),
            List.flatMap_cons]

theorem lastOwner_eq_some {config : Config} {address name : String}
    (h : lastOwner config address = some name) :
    ∃ b ∈ config.broadcaster, b.address = address ∧ b.name = name := by
  obtain ⟨b, hfind, rfl⟩ := Option.map_eq_some_iff.mp h
  obtain ⟨hb, haddress⟩ := OrderedMap.lastMatch_spec hfind
  exact ⟨b, hb, haddress, rfl⟩

theorem lastOwner_of_mem {config : Config}
    (haddresses : (config.broadcaster.map Broadcaster.address).Nodup) {b : Broadcaster}
    (hb : b ∈ config.broadcaster) : lastOwner config b.address = some b.name := by
  obtain ⟨c, hfind⟩ :=
    OrderedMap.exists_lastMatch (fun c : Broadcaster => c.address = b.address) hb rfl
  obtain ⟨hc, haddress⟩ := OrderedMap.lastMatch_spec hfind
  rw [lastOwner, hfind, List.inj_on_of_nodup_map haddresses hc hb haddress]
  rfl

/-- Votes of distinct senders on one poll, for one id each. -/
structure SingleVotes (config : Config) (requests : List VoteRequest) : Prop where
  names : (config.broadcaster.map Broadcaster.name).Nodup
  addresses : (config.broadcaster.map Broadcaster.address).Nodup
  senders : (requests.map VoteRequest.sender).Nodup
  single : ∀ r ∈ requests, ∃ id, Supports cx r id

/-- The broadcaster sent a request that supports `id`. -/
def VotedFor (requests : List VoteRequest) (b : Broadcaster) (id : String) : Prop :=
  ∃ r ∈ requests, voterOf cx r = some b.address ∧ Supports cx r id

/-- The configured broadcasters that voted for `id` have agreed with the
consensus and those that voted for another id have not. -/
def FollowsVoters (config : Config) (requests : List VoteRequest) (id : String)
    (before after : OrderedMap VoteResult Nat) : Prop :=
  ∀ b ∈ config.broadcaster,
    (VotedFor cx requests b id →
      (∀ c, after.count ⟨b.name, c, .disagreed⟩ = before.count ⟨b.name, c, .disagreed⟩) ∧
        ∃ c, before.count ⟨b.name, c, .agreed⟩ < after.count ⟨b.name, c, .agreed⟩) ∧
    ∀ other, other ≠ id → VotedFor cx requests b other →
      (∀ c, after.count ⟨b.name, c, .agreed⟩ = before.count ⟨b.name, c, .agreed⟩) ∧
        ∃ c, before.count ⟨b.name, c, .disagreed⟩ < after.count ⟨b.name, c, .disagreed⟩

variable {cx} {config : Config}

/-- The result of a vote for `id` when `leader` is the majority. -/
def verdict (leader id : String) : VoteResultType :=
  if id = leader then .agreed else .disagreed

theorem growth_pos_iff {poll : Poll} {leader name : String} {result : VoteResultType}
    (hresult : result ≠ .missed) :
    (∃ c, 0 < growth cx config poll leader ⟨name, c, result⟩) ↔
      ∃ v ∈ poll.votes, lastOwner config v.senderId = some name ∧
        verdict leader v.txId = result := by
  cases result with
  | agreed => simp [growth, List.countP_pos_iff, verdict]
  | disagreed => simp [growth, List.countP_pos_iff, verdict]
  | missed => exact absurd rfl hresult

section Outcome

variable {requests : List VoteRequest} {b : Broadcaster} {poll : Poll}

theorem VotedFor.exists_vote {id : String} (h : VotedFor cx requests b id) :
    ∃ v ∈ requests.flatMap (votesOfRequest cx), v.senderId = b.address ∧ v.txId = id := by
  obtain ⟨r, hr, hvoter, hid⟩ := h
  obtain ⟨named, hnamed⟩ := List.exists_mem_of_ne_nil _ hid.1
  have hmem := hnamed
  rw [← map_txId_votesOfRequest cx hvoter] at hmem
  obtain ⟨v, hv, rfl⟩ := List.mem_map.mp hmem
  refine ⟨v, List.mem_flatMap.mpr ⟨r, hr, hv⟩, ?_, hid.2 _ hnamed⟩
  exact Option.some.inj ((voterOf_of_mem cx hv).symm.trans hvoter)

/-- With one request for each account a broadcaster votes for one id. -/
theorem VotedFor.unique (hvoters : (requests.map (voterOf cx)).Nodup) {x y : String}
    (hx : VotedFor cx requests b x) (hy : VotedFor cx requests b y) : x = y := by
  obtain ⟨r, hr, hvoter, hx⟩ := hx
  obtain ⟨r', hr', hvoter', hy⟩ := hy
  obtain rfl := List.inj_on_of_nodup_map hvoters hr hr' (hvoter.trans hvoter'.symm)
  exact hx.unique cx hy

/-- The votes counted for a broadcaster are those of its own requests. -/
theorem SingleVotes.votedFor_of_mem (h : SingleVotes cx config requests)
    (hb : b ∈ config.broadcaster) {v : PollVote}
    (hv : v ∈ requests.flatMap (votesOfRequest cx))
    (howner : lastOwner config v.senderId = some b.name) : VotedFor cx requests b v.txId := by
  obtain ⟨r, hr, hv⟩ := List.mem_flatMap.mp hv
  obtain ⟨b', hb', haddress, hname⟩ := lastOwner_eq_some howner
  obtain rfl := List.inj_on_of_nodup_map h.names hb' hb hname
  have hvoter : voterOf cx r = some b'.address := by
    rw [voterOf_of_mem cx hv, haddress]
  obtain ⟨id, hid⟩ := h.single r hr
  have hnamed : v.txId ∈ namedIds cx r := by
    rw [← map_txId_votesOfRequest cx hvoter]
    exact List.mem_map_of_mem hv
  exact ⟨r, hr, hvoter, hid.2 _ hnamed ▸ hid⟩

/-- A broadcaster's series grow as the ids it voted for compare to the majority. -/
theorem SingleVotes.grows_iff (h : SingleVotes cx config requests)
    (hb : b ∈ config.broadcaster) (hvotes : poll.votes = requests.flatMap (votesOfRequest cx))
    {leader : String} {result : VoteResultType} (hresult : result ≠ .missed) :
    (∃ c, 0 < growth cx config poll leader ⟨b.name, c, result⟩) ↔
      ∃ id, VotedFor cx requests b id ∧ verdict leader id = result := by
  rw [growth_pos_iff hresult, hvotes]
  constructor
  · rintro ⟨v, hv, howner, hverdict⟩
    exact ⟨v.txId, h.votedFor_of_mem hb hv howner, hverdict⟩
  · rintro ⟨id, hid, hverdict⟩
    obtain ⟨v, hv, hsender, rfl⟩ := hid.exists_vote
    exact ⟨v, hv, hsender ▸ lastOwner_of_mem h.addresses hb, hverdict⟩

end Outcome

theorem count_analyze {poll : Poll} {leader : String}
    (hleader : poll.votes ≠ [] → IsLeader (poll.votes.map PollVote.txId) leader)
    (m : OrderedMap VoteResult Nat) (key : VoteResult) :
    (analyzePollCompletion cx poll config m).count key =
      m.count key + growth cx config poll leader key := by
  rw [OrderedMap.count, get?_analyze cx hleader]
  split_ifs with hzero
  · rw [hzero]
    rfl
  · rfl

/-- Strictly more requests support `id` than support any other id. -/
def MostVoters (cx : Codecs) (requests : List VoteRequest) (id : String) : Prop :=
  ∀ other, other ≠ id → supporters cx requests other < supporters cx requests id

section Follows

variable {requests : List VoteRequest} {poll : Poll} {leader : String}

/-- A series of a broadcaster grows if one of its ids has that result. -/
theorem SingleVotes.grown_iff (h : SingleVotes cx config requests)
    (hvotes : poll.votes = requests.flatMap (votesOfRequest cx))
    (hleader : poll.votes ≠ [] → IsLeader (poll.votes.map PollVote.txId) leader)
    (m : OrderedMap VoteResult Nat) {b : Broadcaster} (hb : b ∈ config.broadcaster)
    {result : VoteResultType} (hresult : result ≠ .missed) :
    (∃ c, m.count ⟨b.name, c, result⟩ <
      (analyzePollCompletion cx poll config m).count ⟨b.name, c, result⟩) ↔
        ∃ id, VotedFor cx requests b id ∧ verdict leader id = result := by
  simp only [count_analyze hleader, Nat.lt_add_right_iff_pos]
  exact h.grows_iff hb hvotes hresult

theorem SingleVotes.unchanged_iff (h : SingleVotes cx config requests)
    (hvotes : poll.votes = requests.flatMap (votesOfRequest cx))
    (hleader : poll.votes ≠ [] → IsLeader (poll.votes.map PollVote.txId) leader)
    (m : OrderedMap VoteResult Nat) {b : Broadcaster} (hb : b ∈ config.broadcaster)
    {result : VoteResultType} (hresult : result ≠ .missed) :
    (∀ c, (analyzePollCompletion cx poll config m).count ⟨b.name, c, result⟩ =
      m.count ⟨b.name, c, result⟩) ↔
        ∀ id, VotedFor cx requests b id → verdict leader id ≠ result := by
  have hgrows := @SingleVotes.grows_iff _ _ _ _ _ h hb hvotes leader _ hresult
  simp only [count_analyze hleader, Nat.add_eq_left]
  constructor
  · intro hzero id hid hverdict
    obtain ⟨c, hpos⟩ := hgrows.mpr ⟨id, hid, hverdict⟩
    exact hpos.ne' (hzero c)
  · intro hnone c
    by_contra hne
    obtain ⟨id, hid, hverdict⟩ := hgrows.mp ⟨c, Nat.pos_of_ne_zero hne⟩
    exact hnone id hid hverdict

/-- The analysis follows the voters for the majority, unless a broadcaster also
voted for a second id, and for an id that no broadcaster voted for. -/
theorem SingleVotes.follows_iff (h : SingleVotes cx config requests)
    (hvotes : poll.votes = requests.flatMap (votesOfRequest cx))
    (hleader : poll.votes ≠ [] → IsLeader (poll.votes.map PollVote.txId) leader)
    (m : OrderedMap VoteResult Nat) (id : String) :
    FollowsVoters cx config requests id m (analyzePollCompletion cx poll config m) ↔
      (leader = id ∧ ∀ b ∈ config.broadcaster, VotedFor cx requests b id →
        ∀ other, VotedFor cx requests b other → other = id) ∨
      ∀ b ∈ config.broadcaster, ¬ VotedFor cx requests b id ∧
        ¬ VotedFor cx requests b leader := by
  have hagreed : verdict leader leader = .agreed := if_pos rfl
  have hdisagreed {other : String} (hne : other ≠ leader) : verdict leader other = .disagreed :=
    if_neg hne
  have hgrown (b : Broadcaster) (hb : b ∈ config.broadcaster) (result : VoteResultType) :=
    @SingleVotes.grown_iff _ _ _ _ _ h hvotes hleader m b hb result
  have hsame (b : Broadcaster) (hb : b ∈ config.broadcaster) (result : VoteResultType) :=
    @SingleVotes.unchanged_iff _ _ _ _ _ h hvotes hleader m b hb result
  constructor
  · intro hfollows
    by_cases heq : leader = id
    · subst heq
      refine Or.inl ⟨rfl, fun b hb hid other hother => ?_⟩
      by_contra hne
      have hnone := (hsame b hb .disagreed (by simp)).mp ((hfollows b hb).1 hid).1
      exact hnone other hother (hdisagreed hne)
    · refine Or.inr (fun b hb => ⟨fun hid => ?_, fun hleads => ?_⟩)
      · have hnone := (hsame b hb .disagreed (by simp)).mp ((hfollows b hb).1 hid).1
        exact hnone id hid (hdisagreed (Ne.symm heq))
      · have hnone := (hsame b hb .agreed (by simp)).mp ((hfollows b hb).2 leader heq hleads).1
        exact hnone leader hleads hagreed
  · intro hcondition b hb
    constructor
    · intro hid
      rcases hcondition with ⟨rfl, honly⟩ | hneither
      · refine ⟨(hsame b hb .disagreed (by simp)).mpr (fun other hother => ?_),
          (hgrown b hb .agreed (by simp)).mpr ⟨leader, hid, hagreed⟩⟩
        rw [honly b hb hid other hother, hagreed]
        simp
      · exact absurd hid (hneither b hb).1
    · intro other hne hother
      have hleads : ¬ VotedFor cx requests b leader := by
        rcases hcondition with ⟨rfl, honly⟩ | hneither
        · exact fun hleads => hne (honly b hb hleads other hother)
        · exact (hneither b hb).2
      have hnotLeader {x : String} (hx : VotedFor cx requests b x) : x ≠ leader :=
        fun heq => hleads (heq ▸ hx)
      refine ⟨(hsame b hb .agreed (by simp)).mpr (fun x hx => ?_),
        (hgrown b hb .disagreed (by simp)).mpr ⟨other, hother, hdisagreed (hnotLeader hother)⟩⟩
      rw [hdisagreed (hnotLeader hx)]
      simp

end Follows

/-- The analysis follows the voters if and only if the id with the most voters
also has the most events and no broadcaster voted for a second id beside it, or
no broadcaster voted for the id with the most voters or the one with the most
events. -/
theorem popularity_iff {txs : List TxBody} {poll : Poll}
    (h : SingleVotes cx config (requestsOf cx txs)) (hvotes : poll.votes = getVotesFromTxs cx txs)
    (m : OrderedMap VoteResult Nat) :
    (∀ id, MostVoters cx (requestsOf cx txs) id →
      FollowsVoters cx config (requestsOf cx txs) id m (analyzePollCompletion cx poll config m)) ↔
    ∀ id leader, MostVoters cx (requestsOf cx txs) id →
      IsLeader (countedIds cx (requestsOf cx txs)) leader →
        (leader = id ∧ ∀ b ∈ config.broadcaster, VotedFor cx (requestsOf cx txs) b id →
          ∀ other, VotedFor cx (requestsOf cx txs) b other → other = id) ∨
        ∀ b ∈ config.broadcaster, ¬ VotedFor cx (requestsOf cx txs) b id ∧
          ¬ VotedFor cx (requestsOf cx txs) b leader := by
  rw [getVotesFromTxs_eq] at hvotes
  have hids : poll.votes.map PollVote.txId = countedIds cx (requestsOf cx txs) := by
    rw [hvotes, map_txId_votes]
  constructor
  · intro hfollows id leader hmost hleader
    exact (h.follows_iff hvotes (fun _ => hids ▸ hleader) m id).mp (hfollows id hmost)
  · intro hcondition id hmost
    obtain ⟨leader, hleader⟩ := exists_leader poll.votes
    by_cases hnil : poll.votes = []
    · -- Nobody with an account voted, so there is nothing to follow.
      intro b _
      have hnone (x : String) : ¬ VotedFor cx (requestsOf cx txs) b x := by
        intro hx
        obtain ⟨v, hv, -⟩ := hx.exists_vote
        rw [← hvotes, hnil] at hv
        cases hv
      exact ⟨fun hid => absurd hid (hnone id), fun other _ hother => absurd hother (hnone other)⟩
    · exact (h.follows_iff hvotes hleader m id).mpr
        (hcondition id leader hmost (hids ▸ hleader hnil))

theorem supporters_add_le (cx : Codecs) (requests : List VoteRequest) {a b : String}
    (hne : a ≠ b) :
    supporters cx requests a + supporters cx requests b ≤ requests.length := by
  unfold supporters
  induction requests with
  | nil => exact Nat.le_refl 0
  | cons r rest ih =>
      simp only [List.countP_cons, List.length_cons, decide_eq_true_eq]
      have hone : ¬ (Supports cx r a ∧ Supports cx r b) := fun h => hne (h.1.unique cx h.2)
      split_ifs <;> first | exact absurd ⟨‹_›, ‹_›⟩ hone | omega

/-- More than half of the voters are most voters. -/
theorem mostVoters_of_half {requests : List VoteRequest} {id : String}
    (h : requests.length < 2 * supporters cx requests id) : MostVoters cx requests id := by
  intro other hne
  have := supporters_add_le cx requests hne
  omega

namespace Sample

/-- A vote of one of three voters. The first two vote for transaction 1, the third
for transaction 2. -/
structure Ballot where
  sender : String
  account : UInt8
  tx : UInt8
  events : Nat

def Ballot.eventsBytes (b : Ballot) : Bytes :=
  field 10 eth ++ (List.replicate b.events (field 18 (field 18 [b.tx]))).flatten

def Ballot.requestBytes (b : Ballot) : Bytes :=
  [32, 1] ++
    field 42 (field 10 (ascii "/axelar.evm.v1beta1.VoteEvents") ++ field 18 b.eventsBytes) ++
    field 50 (ascii b.sender)

def Ballot.refundBytes (b : Ballot) : Bytes :=
  field 18 (field 10 (ascii "/axelar.vote.v1beta1.VoteRequest") ++ field 18 b.requestBytes)

def ballotCodecs (ballots : List Ballot) : Codecs :=
  { codecs with
    bech32Decode := fun s =>
      (ballots.find? (fun b => s = b.sender)).map (fun b => List.replicate 20 b.account)
    decodeRefundMsgRequest := fun bytes =>
      (ballots.find? (fun b => bytes = b.refundBytes)).map (fun b =>
        ⟨some ⟨"/axelar.vote.v1beta1.VoteRequest", b.requestBytes⟩⟩)
    decodeVoteRequest := fun bytes =>
      (ballots.find? (fun b => bytes = b.requestBytes)).map (fun b =>
        ⟨b.sender, 1, some ⟨"/axelar.evm.v1beta1.VoteEvents", b.eventsBytes⟩⟩)
    decodeVoteEvents := fun bytes =>
      (ballots.find? (fun b => bytes = b.eventsBytes)).map (fun b =>
        ⟨"eth", List.replicate b.events ⟨[b.tx], none⟩⟩) }

def ballotTxs (ballots : List Ballot) : List TxBody :=
  [⟨ballots.map (fun b => ⟨"/axelar.reward.v1beta1.RefundMsgRequest", b.refundBytes⟩)⟩]

/-- The third voter names its transaction in `events` events. -/
def threeBallots (events : Nat) : List Ballot :=
  [⟨"axelar1qyqszqgpqyqszqgpqyqszqgpqyqszqgpkahkxa", 1, 1, 1⟩,
   ⟨"axelar1qgpqyqszqgpqyqszqgpqyqszqgpqyqsz8e3ndt", 2, 1, 1⟩,
   ⟨"axelar1qvpsxqcrqvpsxqcrqvpsxqcrqvpsxqcrxfsj82", 3, 2, events⟩]

def threeVoters : Config :=
  { Sample.config with
    broadcaster :=
      [⟨"0101010101010101010101010101010101010101", "one"⟩,
       ⟨"0202020202020202020202020202020202020202", "two"⟩,
       ⟨"0303030303030303030303030303030303030303", "three"⟩] }

def pollWith (votes : List PollVote) : Poll := ⟨1, ⟨.gatewayTx, "eth", "01", 9⟩, votes⟩

theorem pollWith_votes (votes : List PollVote) : (pollWith votes).votes = votes := rfl

/-- The codecs and the requests of `threeBallots events`. -/
abbrev threeCodecs (events : Nat) : Codecs := ballotCodecs (threeBallots events)

abbrev threeRequests (events : Nat) : List VoteRequest :=
  requestsOf (threeCodecs events) (ballotTxs (threeBallots events))

/-- The poll after the votes of `threeBallots events`. -/
abbrev threeBallotPoll (events : Nat) : Poll :=
  pollWith (getVotesFromTxs (threeCodecs events) (ballotTxs (threeBallots events)))

abbrev OneVoteEach (events : Nat) : Prop :=
  ((threeRequests events).map (voterOf (threeCodecs events))).Nodup

abbrev NameOne (events : Nat) : Prop :=
  ∀ r ∈ threeRequests events, ∃ id ∈ ["01", "02"], Supports (threeCodecs events) r id

theorem threeBallots_singleVotes (events : Nat) (hvoters : OneVoteEach events)
    (hnamed : NameOne events) :
    SingleVotes (threeCodecs events) threeVoters (threeRequests events) where
  names := by decide
  addresses := by decide
  senders := by
    apply List.Nodup.of_map (decodeBech32ToHex (threeCodecs events))
    rw [List.map_map]
    exact hvoters
  single := by
    intro r hr
    obtain ⟨id, -, hid⟩ := hnamed r hr
    exact ⟨id, hid⟩

end Sample

/-- One event for each voter: transaction 1 wins and the third voter disagrees. -/
theorem popularity_of_single_events :
    FollowsVoters (Sample.threeCodecs 1) Sample.threeVoters (Sample.threeRequests 1) "01" .empty
      (analyzePollCompletion (Sample.threeCodecs 1) (Sample.threeBallotPoll 1)
        Sample.threeVoters .empty) := by
  obtain ⟨hvoters, hnamed, hids, hhalf⟩ : Sample.OneVoteEach 1 ∧ Sample.NameOne 1 ∧
      countedIds (Sample.threeCodecs 1) (Sample.threeRequests 1) = ["01", "01", "02"] ∧
      (Sample.threeRequests 1).length <
        2 * supporters (Sample.threeCodecs 1) (Sample.threeRequests 1) "01" := by
    decide +kernel
  have hsingle := Sample.threeBallots_singleVotes 1 hvoters hnamed
  have hleads : IsLeader ["01", "01", "02"] "01" := ⟨by simp, by simp [List.count_cons]⟩
  have hone : MostVoters (Sample.threeCodecs 1) (Sample.threeRequests 1) "01" :=
    mostVoters_of_half hhalf
  refine (popularity_iff hsingle (Sample.pollWith_votes _) .empty).mpr ?_ "01" hone
  intro id leader hmost hleader
  left
  rw [hids] at hleader
  refine ⟨?_, fun b _ hid other hother => hother.unique hvoters hid⟩
  rw [hleader.unique hleads]
  by_contra hne
  exact absurd (hmost "01" hne) (Nat.lt_asymm (hone id (Ne.symm hne)))

/-- The third voter's vote has three events and outweighs the other two. -/
theorem events_outvote_voters :
    SingleVotes (Sample.threeCodecs 3) Sample.threeVoters (Sample.threeRequests 3) ∧
      MostVoters (Sample.threeCodecs 3) (Sample.threeRequests 3) "01" ∧
      (analyzePollCompletion (Sample.threeCodecs 3) (Sample.threeBallotPoll 3)
        Sample.threeVoters .empty).count ⟨"one", "eth", .disagreed⟩ = 1 ∧
      ¬ FollowsVoters (Sample.threeCodecs 3) Sample.threeVoters (Sample.threeRequests 3) "01"
        .empty (analyzePollCompletion (Sample.threeCodecs 3) (Sample.threeBallotPoll 3)
          Sample.threeVoters .empty) := by
  obtain ⟨hvoters, hnamed, hhalf, hcount, hone⟩ :
      Sample.OneVoteEach 3 ∧ Sample.NameOne 3 ∧
      (Sample.threeRequests 3).length <
        2 * supporters (Sample.threeCodecs 3) (Sample.threeRequests 3) "01" ∧
      (analyzePollCompletion (Sample.threeCodecs 3) (Sample.threeBallotPoll 3)
        Sample.threeVoters .empty).count ⟨"one", "eth", .disagreed⟩ = 1 ∧
      ∃ r ∈ Sample.threeRequests 3, voterOf (Sample.threeCodecs 3) r =
        some "0101010101010101010101010101010101010101" ∧
          Supports (Sample.threeCodecs 3) r "01" := by
    decide +kernel
  refine ⟨Sample.threeBallots_singleVotes 3 hvoters hnamed, mostVoters_of_half hhalf, hcount, ?_⟩
  intro hfollows
  have hsame := ((hfollows _ List.mem_cons_self).1 hone).1 "eth"
  rw [hcount] at hsame
  cases hsame

end AxelarMonitor
