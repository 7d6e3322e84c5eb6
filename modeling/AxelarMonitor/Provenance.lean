import AxelarMonitor.Contributions
import AxelarMonitor.PollLifeCycle
import AxelarMonitor.Texts

/-!
Where polls come from. An open poll joins three things that reach the monitor on
different ways: a message of a processed block, the parameters of its chain, and
an event in the block results of the same height. The join compares texts, but
these are the texts of the same bytes.
-/

namespace AxelarMonitor

open FifoLoop

variable {cx : Codecs} {config : Config}

/-- The polls a request asks for, with the bytes of their transaction ids. -/
def RawPollRequests.asks : RawPollRequests → List (PollKind × String × Bytes)
  | .gatewayTx g => [(.gatewayTx, g.chain, g.txId)]
  | .gatewayTxs g => g.txIds.map (fun txId => (.gatewayTx, g.chain, txId))
  | .deposit d => [(.deposit (hexEncode d.burnerAddress), d.chain, d.txId)]
  | .transferKey t => [(.transferKey, t.chain, t.txId)]
  | .token t => [(.token, t.chain, t.txId)]

theorem pollRequestsOf_asks (raw : RawPollRequests) :
    pollRequestsOf raw = raw.asks.map (fun a => ⟨a.1, a.2.1, hexEncode a.2.2⟩) := by
  cases raw with
  | gatewayTxs g => simp [pollRequestsOf, RawPollRequests.asks]
  | _ => rfl

theorem mem_pollRequestsOfMessage {msg : Any} {request : PollRequest}
    (h : request ∈ pollRequestsOfMessage cx msg) :
    ∃ raw txId, rawPollRequest cx msg = some (some raw) ∧
      (request.kind, request.chain, txId) ∈ raw.asks ∧ request.tx = hexEncode txId := by
  unfold pollRequestsOfMessage at h
  obtain ⟨raw, hraw, hrequest⟩ := List.mem_flatMap.mp h
  rw [Option.mem_toList] at hraw
  have hread : rawPollRequest cx msg = some (some raw) := by
    cases hcase : rawPollRequest cx msg with
    | none =>
        rw [hcase] at hraw
        cases hraw
    | some read =>
        rw [hcase] at hraw
        exact congrArg some hraw
  rw [pollRequestsOf_asks] at hrequest
  obtain ⟨⟨kind, chain, txId⟩, hask, rfl⟩ := List.mem_map.mp hrequest
  exact ⟨raw, txId, hread, hask, rfl⟩

theorem ReadsAs.mem_creations {b : Block} {params : OrderedMap String ChainParams} {height : Nat}
    {data : RawBlockData} (h : ReadsAs cx b params height data) {c : PollData}
    (hc : c ∈ data.pollCreations) :
    ∃ msg ∈ blockMessages cx b, c ∈ createdBy cx params height msg := by
  rw [ReadsAs, processBlock_messages] at h
  split at h
  · cases h
    exact List.mem_flatMap.mp hc
  · cases h

/-- A bundle holds what the block of its height created when it was handled. -/
theorem bundles_read {trace : Trace} {s : System} (hrun : MonitorRun cx config trace s) :
    ∀ p ∈ bundles s, ∃ x ∈ trace, ∃ b out data, x.event = .handled (.block p.1 b) out ∧
      ReadsAs cx b x.before.state.chainParams p.1 data ∧ p.2 = data.pollCreations := by
  induction hrun with
  | nil =>
      intro p hp
      cases hp
  | @snoc trace s e t hrun hstep ih =>
      have hearlier : ∀ p ∈ bundles s, ∃ x ∈ trace ++ [⟨s, e⟩], ∃ b out data,
          x.event = .handled (.block p.1 b) out ∧
          ReadsAs cx b x.before.state.chainParams p.1 data ∧ p.2 = data.pollCreations := by
        intro p hp
        obtain ⟨x, hx, hread⟩ := ih p hp
        exact ⟨x, List.mem_append_left _ hx, hread⟩
      cases e with
      | fed => rwa [bundles_unchanged hstep rfl]
      | answered cmd out => rwa [bundles_unchanged hstep rfl]
      | handled msg out =>
          obtain ⟨rest, hbefore, hafter⟩ := bundles_handled hstep
          rw [hbefore] at hearlier
          rw [hafter]
          intro p hp
          rcases List.mem_append.mp hp with hp | hp
          · exact hearlier p (List.mem_append_right _ hp)
          · rcases (step_handles hstep).filterMap_bundles IoCommand.bundle? (fun _ _ => rfl)
                (fun _ => rfl) rfl with
              ⟨height, block, data, rfl, hdata, hout⟩ |
              ⟨height, polls, retries, error, rfl, hout⟩ | hout
            · rw [hout] at hp
              obtain ⟨cmd, hcmd, hbundle⟩ := List.mem_filterMap.mp hp
              rw [mem_bundleFor hcmd] at hbundle
              cases hbundle
              exact ⟨_, List.mem_append_right _ List.mem_cons_self, block, out, data, rfl, hdata,
                rfl⟩
            · rw [hout] at hp
              cases List.mem_singleton.mp hp
              exact hearlier (height, polls) List.mem_cons_self
            · rw [hout] at hp
              cases hp

/-- The data of a poll, as a message of a handled block asks for it under the
chain parameters of that moment, and the event that gives it its id. -/
inductive Backed (cx : Codecs) (trace : Trace) (id : Nat) : PollData → Prop
  | intro (x : Transition ProcessingState IoCommand IoResult) (h : Nat) (b : Block)
      (out : List IoCommand) (msg : Any) (raw : RawPollRequests) (kind : PollKind)
      (chain : String) (txId : Bytes) (params : ChainParams) (br : BlockResults)
      (creations : List PollData) (event : PollEvent)
      (hx : x ∈ trace) (hblock : x.event = .handled (.block h b) out)
      (hmsg : msg ∈ blockMessages cx b) (hraw : rawPollRequest cx msg = some (some raw))
      (hask : (kind, chain, txId) ∈ raw.asks)
      (hparams : x.before.state.chainParams.get? (cx.toLowercase chain) = some params)
      (hresults : .blockResults h br creations ∈ handledMsgs trace)
      (hevent : event ∈ extractAllPollEvents cx br) (htx : event.txId = txId)
      (hid : event.pollId = id) :
      Backed cx trace id ⟨kind, chain, hexEncode txId,
        u64Add (u64Add h params.revoteLockingPeriod.toNat) params.votingGracePeriod.toNat⟩

theorem Backed.snoc {trace : Trace} {id : Nat} {data : PollData} (hbacked : Backed cx trace id data)
    (x : Transition ProcessingState IoCommand IoResult) : Backed cx (trace ++ [x]) id data := by
  cases hbacked with
  | intro y h b out msg raw kind chain txId params br creations event hy hblock hmsg hraw hask
      hparams hresults hevent htx hid =>
      refine .intro y h b out msg raw kind chain txId params br creations event
        (List.mem_append_left _ hy) hblock hmsg hraw hask hparams ?_ hevent htx hid
      rw [handledMsgs_snoc]
      exact List.mem_append_left _ hresults

/-- A poll that block results open is backed by the block of their height. -/
theorem backed_of_opened {trace : Trace} {s t : System} {h : Nat} {br : BlockResults}
    {creations : List PollData} {out : List IoCommand} (hrun : MonitorRun cx config trace s)
    (hstep : Step (monitor cx config) s (.handled (.blockResults h br creations) out) t)
    {creation : PollData} (hcreation : creation ∈ creations) {id : Nat}
    (hassigned : (txToPollIds cx br).get? creation.tx = some id) :
    Backed cx (trace ++ [⟨s, .handled (.blockResults h br creations) out⟩]) id creation := by
  obtain ⟨rest, hbefore, -⟩ := bundles_handled hstep
  have hbundle : (h, creations) ∈ bundles s := by
    rw [hbefore]
    exact List.mem_cons_self
  obtain ⟨x, hx, b, out', data, hblock, hread, rfl⟩ := bundles_read hrun _ hbundle
  obtain ⟨msg, hmsg, hcreated⟩ := hread.mem_creations hcreation
  obtain ⟨request, hrequest, hcreate⟩ := List.mem_filterMap.mp hcreated
  obtain ⟨raw, txId, hraw, hask, htx⟩ := mem_pollRequestsOfMessage hrequest
  obtain ⟨params, hparams, rfl⟩ := Option.map_eq_some_iff.mp hcreate
  obtain ⟨event, hevent, hpair⟩ := List.mem_map.mp (OrderedMap.get?_ofList_mem hassigned)
  obtain ⟨htext, hid⟩ := Prod.mk.inj hpair
  obtain ⟨kind, chain, tx⟩ := request
  obtain rfl : tx = hexEncode txId := htx
  exact .intro x h b out' msg raw kind chain txId params br _ event
    (List.mem_append_left _ hx) hblock hmsg hraw hask hparams (mem_handledMsgs_last _ _ _ _)
    hevent (hexEncode_injective htext) hid

/-- A poll that is backed, with votes on it that handled blocks held. -/
structure PollBacked (cx : Codecs) (trace : Trace) (id : Nat) (poll : Poll) : Prop where
  data : Backed cx trace id poll.data
  keyed : poll.pollId = id
  votes : ∀ v ∈ poll.votes, v.pollId = id ∧ ∃ c ∈ processedBlocks trace, v ∈ blockVotes cx c.2

theorem PollBacked.snoc {trace : Trace} {id : Nat} {poll : Poll}
    (hbacked : PollBacked cx trace id poll)
    (x : Transition ProcessingState IoCommand IoResult) : PollBacked cx (trace ++ [x]) id poll := by
  refine ⟨hbacked.data.snoc x, hbacked.keyed, ?_⟩
  intro v hv
  obtain ⟨hid, c, hc, hheld⟩ := hbacked.votes v hv
  rw [processedBlocks_snoc]
  exact ⟨hid, c, List.mem_append_left _ hc, hheld⟩

/-- The votes of a block join. -/
theorem PollBacked.pushed {trace : Trace} {s : System} {id : Nat} {poll : Poll}
    (hbacked : PollBacked cx trace id poll) (h : Nat) (b : Block) (out : List IoCommand) :
    PollBacked cx (trace ++ [⟨s, .handled (.block h b) out⟩]) id
      { poll with votes := poll.votes ++ (blockVotes cx b).filter (fun v => v.pollId = id) } := by
  have hold := hbacked.snoc ⟨s, .handled (.block h b) out⟩
  refine ⟨hold.data, hold.keyed, ?_⟩
  intro v hv
  rcases List.mem_append.mp hv with hv | hv
  · exact hold.votes v hv
  · obtain ⟨hheld, hid⟩ := List.mem_filter.mp hv
    refine ⟨of_decide_eq_true hid, (h, b), ?_, hheld⟩
    rw [processedBlocks_snoc]
    exact List.mem_append_right _ List.mem_cons_self

/-- All polls, the open ones and those that were analysed. -/
structure PollsBacked (cx : Codecs) (trace : Trace) (s : System) : Prop where
  opened : ∀ id poll, s.state.polls.get? id = some poll → PollBacked cx trace id poll
  analysed : ∀ poll ∈ closedPolls cx trace, PollBacked cx trace poll.pollId poll

theorem PollsBacked.block {trace : Trace} {s : System} {h : Nat} {b : Block}
    {out : List IoCommand} {data : RawBlockData} (hbacked : PollsBacked cx trace s)
    (hvotes : data.votes = blockVotes cx b) {t : System}
    (ht : t.state = applyBlock cx config h data s.state) :
    PollsBacked cx (trace ++ [⟨s, .handled (.block h b) out⟩]) t := by
  constructor
  · intro id poll hget
    rw [ht, get?_applyBlock, hvotes, Option.filter_eq_some_iff, Option.map_eq_some_iff] at hget
    obtain ⟨⟨old, hold, rfl⟩, -⟩ := hget
    exact (hbacked.opened id old hold).pushed h b out
  · intro poll hpoll
    rw [closedPolls_snoc, List.mem_append] at hpoll
    rcases hpoll with hpoll | hpoll
    · exact (hbacked.analysed poll hpoll).snoc _
    · obtain ⟨id, hpushed, -⟩ := mem_closingPolls.mp hpoll
      obtain ⟨old, hold, heq⟩ := get?_pushVotes_eq_some hpushed
      have hclosed : PollBacked cx (trace ++ [⟨s, .handled (.block h b) out⟩]) id poll := by
        rw [heq]
        exact (hbacked.opened id old hold).pushed h b out
      rwa [hclosed.keyed]

/-- No poll comes out of thin air: in every run each one stands for a request in a
handled block and for an event with the bytes of its transaction id in the
results of that block. -/
theorem polls_backed {trace : Trace} {s : System} (hrun : MonitorRun cx config trace s) :
    PollsBacked cx trace s := by
  induction hrun with
  | nil =>
      constructor
      · intro id poll hget
        simp [startUp, ProcessingState.new] at hget
      · intro poll hpoll
        cases hpoll
  | @snoc trace s e t hrun hstep ih =>
      have hstore := store_step hstep
      generalize hst : t.state = st' at hstore
      cases hstore with
      | block h b out data hvotes => exact ih.block hvotes hst
      | results h br creations out =>
          constructor
          · intro id poll hget
            rw [hst] at hget
            by_cases hid : id ∈ assignedIds (txToPollIds cx br) creations
            · obtain ⟨creation, hcreation, hassigned, hopen⟩ :=
                @get?_openPolls_of_mem _ _ s.state.polls _ hid
              obtain rfl := Option.some.inj (hget.symm.trans hopen)
              refine ⟨backed_of_opened hrun hstep hcreation hassigned, rfl, ?_⟩
              intro v hv
              cases hv
            · exact (ih.opened id poll ((get?_openPolls_of_not_mem hid).symm.trans hget)).snoc _
          · intro poll hpoll
            rw [closedPolls_snoc, List.mem_append] at hpoll
            exact (ih.analysed poll (hpoll.resolve_right List.not_mem_nil)).snoc _
      | quiet _ _ hopened hvotes hclosed hpolls hexpired hcount =>
          constructor
          · intro id poll hget
            rw [hst, hpolls] at hget
            exact (ih.opened id poll hget).snoc _
          · intro poll hpoll
            rw [closedPolls_snoc, hclosed, List.append_nil] at hpoll
            exact (ih.analysed poll hpoll).snoc _

theorem polls_backed_when_late :
    ∃ r : Trace × System, MonitorRun Sample.codecs Sample.config r.1 r.2 ∧
      closedIds Sample.codecs r.1 = [1] ∧ PollsBacked Sample.codecs r.1 r.2 := by
  have hreplay : ∃ r ∈ Sample.replay Sample.config Sample.lateResults,
      closedIds Sample.codecs r.1 = [1] := by
    decide +kernel
  obtain ⟨r, hrun, hclosed⟩ := Sample.run_of_replay hreplay
  exact ⟨r, hrun, hclosed, polls_backed hrun⟩

end AxelarMonitor
