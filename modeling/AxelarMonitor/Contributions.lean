import AxelarMonitor.Handlers

/-!
What each message of a block adds to the block's poll requests and votes. Both
results of `process_block` are concatenations over the messages in block order,
provided that every confirmation request can be decoded.
-/

namespace AxelarMonitor

variable (cx : Codecs)

def requestsOf (txs : List TxBody) : List VoteRequest := txs.flatMap (extractVoteRequests cx)

def voteEventsOf (r : VoteRequest) : Option VoteEvents :=
  r.vote.bind (fun voteData =>
    if voteData.typeUrl = "/axelar.evm.v1beta1.VoteEvents" then
      cx.decodeVoteEvents voteData.value
    else none)

def votesOfRequest (r : VoteRequest) : List PollVote :=
  (decodeVote cx r).toList.flatMap votesOfDecoded

theorem getVotesFromTxs_eq (txs : List TxBody) :
    getVotesFromTxs cx txs = (requestsOf cx txs).flatMap (votesOfRequest cx) := by
  have hdecoded : extractDecodedVotes cx txs = (requestsOf cx txs).filterMap (decodeVote cx) := by
    simp only [extractDecodedVotes, requestsOf, List.filterMap_flatMap]
    rfl
  rw [getVotesFromTxs, hdecoded, List.filterMap_eq_flatMap_toList, List.flatMap_assoc]
  rfl

theorem decodeVote_eq (r : VoteRequest) :
    decodeVote cx r =
      (decodeBech32ToHex cx r.sender).map (fun sender => ⟨sender, r.pollId, voteEventsOf cx r⟩) :=
  rfl

theorem votesOfRequest_of_no_events {r : VoteRequest} (h : voteEventsOf cx r = none) :
    votesOfRequest cx r = [] := by
  unfold votesOfRequest
  rw [decodeVote_eq, h]
  cases decodeBech32ToHex cx r.sender <;> rfl

def votesOfRefund (msg : Any) : List PollVote :=
  (extractVoteRequest cx msg).toList.flatMap (votesOfRequest cx)

/-- The refund messages that a message is or holds. -/
def refundsOf (msg : Any) : List Any := extractRefundMessages cx ⟨[msg]⟩

def votesOfMessage (msg : Any) : List PollVote := (refundsOf cx msg).flatMap (votesOfRefund cx)

def isRefund (msg : Any) : Bool := decide (msg.typeUrl = "/axelar.reward.v1beta1.RefundMsgRequest")

def isBatch (msg : Any) : Bool :=
  decide (msg.typeUrl = "/axelar.auxiliary.v1beta1.BatchRequest")

theorem votesOfMessage_refund {msg : Any} (h : isRefund msg = true) :
    votesOfMessage cx msg = votesOfRefund cx msg := by
  have hurl : msg.typeUrl = "/axelar.reward.v1beta1.RefundMsgRequest" := of_decide_eq_true h
  simp [votesOfMessage, refundsOf, extractRefundMessages, hurl]

/-- The messages of a batch that can be decoded. -/
def innerMessages (msg : Any) : List Any :=
  ((cx.decodeBatchRequest msg.value).map BatchRequest.messages).getD []

theorem votesOfMessage_batch {msg : Any} (h : isBatch msg = true) :
    votesOfMessage cx msg =
      ((innerMessages cx msg).filter isRefund).flatMap (votesOfRefund cx) := by
  have hurl : msg.typeUrl = "/axelar.auxiliary.v1beta1.BatchRequest" := of_decide_eq_true h
  have hrefunds : refundsOf cx msg = (innerMessages cx msg).filter isRefund := by
    unfold refundsOf extractRefundMessages innerMessages decodeBatchRequest
    rw [List.flatMap_singleton, if_neg (by rw [hurl]; decide), if_pos hurl]
    cases cx.decodeBatchRequest msg.value <;> rfl
  rw [votesOfMessage, hrefunds]

theorem votesOfMessage_other {msg : Any} (hrefund : isRefund msg = false)
    (hbatch : isBatch msg = false) : votesOfMessage cx msg = [] := by
  have hurl := of_decide_eq_false hrefund
  have hurl' := of_decide_eq_false hbatch
  simp [votesOfMessage, refundsOf, extractRefundMessages, hurl, hurl']

/-- Outside batches only refund messages carry votes. -/
theorem votesOfMessages_of_no_batch {msgs : List Any} (h : ∀ msg ∈ msgs, isBatch msg = false) :
    msgs.flatMap (votesOfMessage cx) = (msgs.filter isRefund).flatMap (votesOfRefund cx) := by
  induction msgs with
  | nil => rfl
  | cons msg rest ih =>
      rw [List.flatMap_cons, ih (fun m hm => h m (List.mem_cons_of_mem _ hm))]
      cases hrefund : isRefund msg with
      | true => rw [votesOfMessage_refund cx hrefund, List.filter_cons_of_pos hrefund,
          List.flatMap_cons]
      | false => rw [votesOfMessage_other cx hrefund (h msg List.mem_cons_self),
          List.filter_cons_of_neg (by simp [hrefund]), List.nil_append]

theorem getVotesFromTxs_messages (txs : List TxBody) :
    getVotesFromTxs cx txs = (txs.flatMap TxBody.messages).flatMap (votesOfMessage cx) := by
  have hrefunds (tx : TxBody) :
      extractRefundMessages cx tx = tx.messages.flatMap (refundsOf cx) := by
    unfold extractRefundMessages
    congr 1
    funext msg
    simp [refundsOf, extractRefundMessages]
  rw [getVotesFromTxs_eq, requestsOf, List.flatMap_assoc, List.flatMap_assoc]
  congr 1
  funext tx
  rw [extractVoteRequests, hrefunds, List.filterMap_eq_flatMap_toList, List.flatMap_assoc,
    List.flatMap_assoc]
  rfl

/-- Whether the payload of a confirmation request decodes; any other message
passes. -/
def confirmDecodes (msg : Any) : Bool :=
  match msg.typeUrl with
  | "/axelar.evm.v1beta1.ConfirmGatewayTxRequest" =>
      (cx.decodeConfirmGatewayTxRequest msg.value).isSome
  | "/axelar.evm.v1beta1.ConfirmGatewayTxsRequest" =>
      (cx.decodeConfirmGatewayTxsRequest msg.value).isSome
  | "/axelar.evm.v1beta1.ConfirmDepositRequest" =>
      (cx.decodeConfirmDepositRequest msg.value).isSome
  | "/axelar.evm.v1beta1.ConfirmTransferKeyRequest" =>
      (cx.decodeConfirmTransferKeyRequest msg.value).isSome
  | "/axelar.evm.v1beta1.ConfirmTokenRequest" =>
      (cx.decodeConfirmTokenRequest msg.value).isSome
  | _ => true

theorem rawPollRequest_isSome (msg : Any) :
    (rawPollRequest cx msg).isSome = confirmDecodes cx msg := by
  obtain ⟨url, value⟩ := msg
  unfold rawPollRequest confirmDecodes
  dsimp only
  split <;> simp

/-- The poll requests of a message whose payload decodes. -/
def pollRequestsOfMessage (msg : Any) : List PollRequest :=
  ((rawPollRequest cx msg).getD none).toList.flatMap pollRequestsOf

theorem pollRequests_of_batch {msg : Any} (h : isBatch msg = true) :
    pollRequestsOfMessage cx msg = [] := by
  have hurl : msg.typeUrl = "/axelar.auxiliary.v1beta1.BatchRequest" := of_decide_eq_true h
  simp [pollRequestsOfMessage, rawPollRequest, hurl]

theorem confirmDecodes_of_batch {msg : Any} (h : isBatch msg = true) :
    confirmDecodes cx msg = true := by
  have hurl : msg.typeUrl = "/axelar.auxiliary.v1beta1.BatchRequest" := of_decide_eq_true h
  simp [confirmDecodes, hurl]

theorem pollRequests_of_refund {msg : Any} (h : isRefund msg = true) :
    pollRequestsOfMessage cx msg = [] := by
  have hurl : msg.typeUrl = "/axelar.reward.v1beta1.RefundMsgRequest" := of_decide_eq_true h
  simp [pollRequestsOfMessage, rawPollRequest, hurl]

theorem readRequests_eq (msgs : List Any) :
    (msgs.mapM (rawPollRequest cx)).map (fun raw => (raw.filterMap id).flatMap pollRequestsOf) =
      if msgs.all (confirmDecodes cx) then some (msgs.flatMap (pollRequestsOfMessage cx))
      else none := by
  induction msgs with
  | nil => rfl
  | cons msg rest ih =>
      have hmsg := rawPollRequest_isSome cx msg
      rw [List.mapM_cons, List.all_cons, ← hmsg]
      cases hraw : rawPollRequest cx msg with
      | none => rfl
      | some raw =>
          simp only [Option.isSome_some, Bool.true_and, List.flatMap_cons, pollRequestsOfMessage,
            hraw, Option.getD_some]
          cases hrest : rest.mapM (rawPollRequest cx) with
          | none =>
              rw [hrest] at ih
              split_ifs at ih ⊢ with hall
              · cases ih
              · rfl
          | some raws =>
              rw [hrest] at ih
              split_ifs at ih ⊢ with hall
              · have htail := Option.some.inj ih
                simp only [← htail]
                cases raw with
                | none => rfl
                | some request => simp
              · cases ih

/-- The body of a transaction text, if it decodes and has one. -/
def txBodyOf (text : String) : Option TxBody :=
  (cx.base64Decode text).bind (fun bytes => (cx.decodeTx bytes).bind Tx.body)

def messagesOfText (text : String) : List Any :=
  ((txBodyOf cx text).map TxBody.messages).getD []

def blockMessages (block : Block) : List Any := (blockTxs cx block).flatMap TxBody.messages

theorem blockMessages_texts (block : Block) :
    blockMessages cx block = block.data.txs.flatMap (messagesOfText cx) := by
  have htxs : blockTxs cx block = block.data.txs.filterMap (txBodyOf cx) := rfl
  rw [blockMessages, htxs, List.filterMap_eq_flatMap_toList, List.flatMap_assoc]
  congr 1
  funext text
  unfold messagesOfText
  cases txBodyOf cx text <;> simp

/-- The polls that a message asks for on the chains with parameters. -/
def createdBy (params : OrderedMap String ChainParams) (height : Nat) (msg : Any) :
    List PollData :=
  (pollRequestsOfMessage cx msg).filterMap (createPoll cx params height)

theorem blockRequests_messages (block : Block) :
    blockRequests cx block =
      if (blockMessages cx block).all (confirmDecodes cx) then
        some ((blockMessages cx block).flatMap (pollRequestsOfMessage cx))
      else none := by
  rw [← readRequests_eq, blockRequests, extractRawPollRequests, Option.map_map]
  rfl

theorem processBlock_messages (block : Block) (params : OrderedMap String ChainParams)
    (height : Nat) :
    processBlock cx block params height =
      if (blockMessages cx block).all (confirmDecodes cx) then
        some (.ok ⟨(blockMessages cx block).flatMap (createdBy cx params height),
          (blockMessages cx block).flatMap (votesOfMessage cx)⟩)
      else none := by
  rw [processBlock_eq, blockRequests_messages, blockVotes, getVotesFromTxs_messages]
  split_ifs
  · simp only [Option.map_some, List.filterMap_flatMap]
    rfl
  · rfl

/-- Messages that `process_block` cannot tell apart. -/
structure SameContributions (old new : List Any) : Prop where
  decodes : old.all (confirmDecodes cx) = new.all (confirmDecodes cx)
  requests : old.flatMap (pollRequestsOfMessage cx) = new.flatMap (pollRequestsOfMessage cx)
  votes : old.flatMap (votesOfMessage cx) = new.flatMap (votesOfMessage cx)

theorem SameContributions.refl (msgs : List Any) : SameContributions cx msgs msgs :=
  ⟨rfl, rfl, rfl⟩

theorem processBlock_congr {b b' : Block}
    (h : SameContributions cx (blockMessages cx b) (blockMessages cx b'))
    (params : OrderedMap String ChainParams) (height : Nat) :
    processBlock cx b params height = processBlock cx b' params height := by
  have hcreated (msgs : List Any) : msgs.flatMap (createdBy cx params height) =
      (msgs.flatMap (pollRequestsOfMessage cx)).filterMap (createPoll cx params height) := by
    rw [List.filterMap_flatMap]
    rfl
  rw [processBlock_messages, processBlock_messages, hcreated, hcreated, h.decodes, h.requests,
    h.votes]

end AxelarMonitor
