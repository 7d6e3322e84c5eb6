import AxelarMonitor.PollStore

/-!
How a block's poll events are joined with its poll requests. The join goes
through the transaction id alone, so of several events or requests with one
transaction id only the last counts.
-/

namespace AxelarMonitor

variable (cx : Codecs)

/-- Two polls were asked for by the same kind of request. Events do not carry
the burner address of a deposit. -/
def PollKind.sameRequest : PollKind → PollKind → Prop
  | .gatewayTx, .gatewayTx => True
  | .deposit _, .deposit _ => True
  | .transferKey, .transferKey => True
  | .token, .token => True
  | _, _ => False

/-- The events of some block results, each with the creation of the block it
stands for. Creations without an event belong to failed transactions. -/
structure Started (results : BlockResults) (creations : List PollData)
    (pairs : List (PollEvent × PollData)) : Prop where
  events : pairs.map Prod.fst = extractAllPollEvents cx results
  requests : (pairs.map Prod.snd).Sublist creations
  tx : ∀ p ∈ pairs, p.2.tx = hexEncode p.1.txId
  kind : ∀ p ∈ pairs, p.1.kind.sameRequest p.2.kind
  distinct : (pairs.map (fun p => p.1.pollId)).Nodup

variable {cx} {results : BlockResults} {creations : List PollData}
variable {pairs : List (PollEvent × PollData)}

theorem Started.txToPollIds_eq (h : Started cx results creations pairs) (tx : String) :
    (txToPollIds cx results).get? tx =
      (pairs.reverse.find? (fun p => decide (p.2.tx = tx))).map (fun p => p.1.pollId) := by
  have hassoc : (extractAllPollEvents cx results).map (fun e => (hexEncode e.txId, e.pollId)) =
      pairs.map (fun p => (p.2.tx, p.1.pollId)) := by
    rw [← h.events, List.map_map]
    apply List.map_congr_left
    intro p hp
    simp [h.tx p hp]
  rw [txToPollIds, hassoc, OrderedMap.get?_ofList, ← List.map_reverse, List.find?_map,
    Option.map_map]
  rfl

/-- A poll id is assigned to the transaction id of its own event only. -/
theorem Started.assigned_tx (h : Started cx results creations pairs) {p : PollEvent × PollData}
    (hp : p ∈ pairs) {tx : String} (hget : (txToPollIds cx results).get? tx = some p.1.pollId) :
    tx = p.2.tx := by
  rw [h.txToPollIds_eq, Option.map_eq_some_iff] at hget
  obtain ⟨q, hfind, hid⟩ := hget
  obtain ⟨hq, htx⟩ := OrderedMap.lastMatch_spec hfind
  rw [← htx, List.inj_on_of_nodup_map h.distinct hq hp hid]

variable {front back : List (PollEvent × PollData)} {p : PollEvent × PollData}

theorem Started.assigned_last (h : Started cx results creations (front ++ p :: back))
    (hlast : ∀ q ∈ back, q.2.tx ≠ p.2.tx) :
    (txToPollIds cx results).get? p.2.tx = some p.1.pollId := by
  have hnone : back.reverse.find? (fun q => decide (q.2.tx = p.2.tx)) = none :=
    OrderedMap.lastMatch_eq_none.mpr hlast
  rw [h.txToPollIds_eq, List.reverse_append, List.reverse_cons, List.find?_append,
    List.find?_append, hnone]
  simp

theorem Started.not_assigned (h : Started cx results creations (front ++ p :: back))
    (hlater : ∃ q ∈ back, q.2.tx = p.2.tx) (tx : String) :
    (txToPollIds cx results).get? tx ≠ some p.1.pollId := by
  intro hget
  obtain rfl := h.assigned_tx (List.mem_append_right _ List.mem_cons_self) hget
  rw [h.txToPollIds_eq, List.reverse_append, List.reverse_cons, List.find?_append,
    List.find?_append] at hget
  obtain ⟨later, hlater, htx⟩ := hlater
  obtain ⟨q, hfind⟩ := OrderedMap.exists_lastMatch (fun q => q.2.tx = p.2.tx) hlater htx
  have hq := (OrderedMap.lastMatch_spec hfind).1
  have hid : q.1.pollId = p.1.pollId := by simpa [hfind] using hget
  have hdistinct := h.distinct
  rw [List.map_append, List.map_cons, List.nodup_append] at hdistinct
  exact (List.nodup_cons.mp hdistinct.2.1).1 (hid ▸ List.mem_map_of_mem hq)

/-- The poll of an event is open with the data of the event's own request. -/
def RegisteredAs (polls : OrderedMap Nat Poll) (p : PollEvent × PollData) : Prop :=
  ∃ poll, polls.get? p.1.pollId = some poll ∧ poll.data = p.2

theorem Started.registeredAs_iff (h : Started cx results creations (front ++ p :: back))
    (st : ProcessingState) :
    RegisteredAs (processBlockResultsMessage cx results creations st).polls p ↔
      if ∃ q ∈ back, q.2.tx = p.2.tx then RegisteredAs st.polls p
      else creations.reverse.find? (fun c => decide (c.tx = p.2.tx)) = some p.2 := by
  unfold RegisteredAs processBlockResultsMessage
  dsimp only
  rw [get?_openPolls]
  split_ifs with hlater
  · have hnone : creations.reverse.find? (fun c =>
        decide ((txToPollIds cx results).get? c.tx = some p.1.pollId)) = none :=
      OrderedMap.lastMatch_eq_none.mpr (fun c _ => h.not_assigned hlater c.tx)
    rw [hnone]
  · have hlast : ∀ q ∈ back, q.2.tx ≠ p.2.tx := fun q hq htx => hlater ⟨q, hq, htx⟩
    have hassigned : (fun c : PollData =>
        decide ((txToPollIds cx results).get? c.tx = some p.1.pollId)) =
          fun c => decide (c.tx = p.2.tx) := by
      funext c
      apply decide_eq_decide.mpr
      constructor
      · exact h.assigned_tx (List.mem_append_right _ List.mem_cons_self)
      · intro htx
        rw [htx]
        exact h.assigned_last hlast
    have hmem : p.2 ∈ creations := h.requests.subset
      (List.mem_map_of_mem (List.mem_append_right _ List.mem_cons_self))
    obtain ⟨creation, hfind⟩ :=
      OrderedMap.exists_lastMatch (fun c : PollData => c.tx = p.2.tx) hmem rfl
    rw [hassigned, hfind]
    simp

/-- Every started poll is registered with the data of its own request if and
only if no later event names its transaction id and, of the block's creations
with that id, the last one has these data. An event that is followed by one
with its transaction id is left as it was. -/
theorem registered_iff (h : Started cx results creations pairs) (st : ProcessingState) :
    (∀ p ∈ pairs,
      RegisteredAs (processBlockResultsMessage cx results creations st).polls p) ↔
    ∀ front p back, pairs = front ++ p :: back →
      if ∃ q ∈ back, q.2.tx = p.2.tx then RegisteredAs st.polls p
      else creations.reverse.find? (fun c => decide (c.tx = p.2.tx)) = some p.2 := by
  constructor
  · rintro hall front p back rfl
    exact (h.registeredAs_iff st).mp (hall p (List.mem_append_right _ List.mem_cons_self))
  · intro hsplit p hp
    obtain ⟨front, back, rfl⟩ := List.mem_iff_append.mp hp
    exact (h.registeredAs_iff st).mpr (hsplit front p back rfl)

namespace Sample

def participantsJson (id : String) : String := "\x7b\"poll_id\":\"" ++ id ++ "\"\x7d"

def pollCodecs : Codecs :=
  { codecs with
    jsonPollParticipants := fun s =>
      (["1", "2"].find? (fun id => s = participantsJson id)).map (fun id => ⟨id⟩) }

def startedEvent (type id : String) : TendermintEvent :=
  ⟨type, [⟨"tx_id", some "[1]"⟩, ⟨"participants", some (participantsJson id)⟩]⟩

def startedResults (events : List TendermintEvent) : BlockResults :=
  ⟨some (events.map (fun event => ⟨some [event]⟩))⟩

def deposit (burner : String) : PollData := ⟨.deposit burner, "eth", "01", 7⟩

def gatewayTx : PollData := ⟨.gatewayTx, "eth", "01", 7⟩

/-- Of a deposit and a gateway transaction only the second started a poll. -/
def oneGateway : BlockResults :=
  startedResults [startedEvent "axelar.evm.v1beta1.ConfirmGatewayTxStarted" "1"]

/-- Two deposits of one transaction started a poll each. -/
def twoDeposits : BlockResults :=
  startedResults [startedEvent "axelar.evm.v1beta1.ConfirmDepositStarted" "1",
    startedEvent "axelar.evm.v1beta1.ConfirmDepositStarted" "2"]

def depositPairs : List (PollEvent × PollData) :=
  [(⟨.deposit "", [1], 1⟩, deposit "aa"), (⟨.deposit "", [1], 2⟩, deposit "bb")]

end Sample

theorem registered_after_failed_deposit :
    RegisteredAs (processBlockResultsMessage Sample.pollCodecs Sample.oneGateway
        [Sample.deposit "aa", Sample.gatewayTx] (.new Sample.pollCodecs Sample.config)).polls
      (⟨.gatewayTx, [1], 1⟩, Sample.gatewayTx) := by
  have hevents : extractAllPollEvents Sample.pollCodecs Sample.oneGateway =
      [⟨.gatewayTx, [1], 1⟩] := by
    decide +kernel
  have hstarted : Started Sample.pollCodecs Sample.oneGateway
      [Sample.deposit "aa", Sample.gatewayTx] [(⟨.gatewayTx, [1], 1⟩, Sample.gatewayTx)] := by
    refine ⟨hevents.symm, by decide, by decide, ?_, by decide⟩
    intro p hp
    obtain rfl := List.mem_singleton.mp hp
    trivial
  apply (registered_iff hstarted _).mpr ?_ _ List.mem_cons_self
  intro front p back hsplit
  rcases front with _ | ⟨q, front⟩
  · obtain ⟨rfl, rfl⟩ := List.cons.inj hsplit
    rw [if_neg (by simp)]
    decide
  · simp at hsplit

/-- The first deposit's poll is not registered at all. -/
theorem first_deposit_lost :
    Started Sample.pollCodecs Sample.twoDeposits [Sample.deposit "aa", Sample.deposit "bb"]
        Sample.depositPairs ∧
      (processBlockResultsMessage Sample.pollCodecs Sample.twoDeposits
        [Sample.deposit "aa", Sample.deposit "bb"]
        (.new Sample.pollCodecs Sample.config)).polls.entries =
          [(2, ⟨2, Sample.deposit "bb", []⟩)] ∧
      ¬ ∀ p ∈ Sample.depositPairs, RegisteredAs (processBlockResultsMessage Sample.pollCodecs
        Sample.twoDeposits [Sample.deposit "aa", Sample.deposit "bb"]
        (.new Sample.pollCodecs Sample.config)).polls p := by
  have hevents : extractAllPollEvents Sample.pollCodecs Sample.twoDeposits =
      Sample.depositPairs.map Prod.fst := by
    decide +kernel
  have hentries : (processBlockResultsMessage Sample.pollCodecs Sample.twoDeposits
      [Sample.deposit "aa", Sample.deposit "bb"]
      (.new Sample.pollCodecs Sample.config)).polls.entries =
        [(2, ⟨2, Sample.deposit "bb", []⟩)] := by
    decide +kernel
  refine ⟨⟨hevents.symm, by decide, by decide, ?_, by decide⟩, hentries, ?_⟩
  · intro p hp
    simp only [Sample.depositPairs, List.mem_cons, List.not_mem_nil, or_false] at hp
    rcases hp with rfl | rfl <;> trivial
  · intro hall
    obtain ⟨poll, hget, -⟩ := hall _ List.mem_cons_self
    rw [← OrderedMap.mem_entries, hentries] at hget
    simp at hget

end AxelarMonitor
