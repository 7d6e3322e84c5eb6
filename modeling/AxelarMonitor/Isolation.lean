import AxelarMonitor.Contributions

/-!
Malformed content of a block. Undecodable transactions, batches, refunds, votes
and senders leave no trace in what `process_block` returns; an undecodable
confirmation request takes the whole call down.
-/

namespace AxelarMonitor

variable (cx : Codecs)

/-- A message whose payload, or a layer inside it, cannot be decoded. -/
inductive MalformedMessage : Any → Prop
  | confirm {msg : Any} (h : confirmDecodes cx msg = false) : MalformedMessage msg
  | batch {msg : Any} (hbatch : isBatch msg = true)
      (h : cx.decodeBatchRequest msg.value = none) : MalformedMessage msg
  | refund {msg : Any} (hrefund : isRefund msg = true)
      (h : cx.decodeRefundMsgRequest msg.value = none) : MalformedMessage msg
  | voteRequest {msg inner : Any} (hrefund : isRefund msg = true)
      (hinner : cx.decodeRefundMsgRequest msg.value = some ⟨some inner⟩)
      (hurl : inner.typeUrl = "/axelar.vote.v1beta1.VoteRequest")
      (h : cx.decodeVoteRequest inner.value = none) : MalformedMessage msg
  | voteEvents {msg inner payload : Any} {vote : VoteRequest} (hrefund : isRefund msg = true)
      (hinner : cx.decodeRefundMsgRequest msg.value = some ⟨some inner⟩)
      (hurl : inner.typeUrl = "/axelar.vote.v1beta1.VoteRequest")
      (hvote : cx.decodeVoteRequest inner.value = some vote) (hpayload : vote.vote = some payload)
      (hevents : payload.typeUrl = "/axelar.evm.v1beta1.VoteEvents")
      (h : cx.decodeVoteEvents payload.value = none) : MalformedMessage msg
  | sender {msg inner : Any} {vote : VoteRequest} (hrefund : isRefund msg = true)
      (hinner : cx.decodeRefundMsgRequest msg.value = some ⟨some inner⟩)
      (hurl : inner.typeUrl = "/axelar.vote.v1beta1.VoteRequest")
      (hvote : cx.decodeVoteRequest inner.value = some vote)
      (h : cx.bech32Decode vote.sender = none) : MalformedMessage msg

/-- `WithoutUnit b b'` says that `b'` is `b` with one malformed unit taken out,
at the level of the texts, of the messages of a transaction, or of the messages
of a batch. -/
inductive WithoutUnit : Block → Block → Prop
  | base64 {header : Header} {front back : List String} {text : String}
      (h : cx.base64Decode text = none) :
      WithoutUnit ⟨header, ⟨front ++ text :: back⟩⟩ ⟨header, ⟨front ++ back⟩⟩
  | tx {header : Header} {front back : List String} {text : String} {bytes : Bytes}
      (hbytes : cx.base64Decode text = some bytes) (h : cx.decodeTx bytes = none) :
      WithoutUnit ⟨header, ⟨front ++ text :: back⟩⟩ ⟨header, ⟨front ++ back⟩⟩
  | message {header : Header} {front back : List String} {text text' : String}
      {before after : List Any} {msg : Any}
      (hwith : txBodyOf cx text = some ⟨before ++ msg :: after⟩)
      (hwithout : txBodyOf cx text' = some ⟨before ++ after⟩) (h : MalformedMessage cx msg) :
      WithoutUnit ⟨header, ⟨front ++ text :: back⟩⟩ ⟨header, ⟨front ++ text' :: back⟩⟩
  | inner {header : Header} {front back : List String} {text text' : String}
      {before after : List Any} {batch batch' : Any} {first last : List Any} {msg : Any}
      (hwith : txBodyOf cx text = some ⟨before ++ batch :: after⟩)
      (hwithout : txBodyOf cx text' = some ⟨before ++ batch' :: after⟩)
      (hbatch : isBatch batch = true) (hbatch' : isBatch batch' = true)
      (hdecode : cx.decodeBatchRequest batch.value = some ⟨first ++ msg :: last⟩)
      (hdecode' : cx.decodeBatchRequest batch'.value = some ⟨first ++ last⟩)
      (h : MalformedMessage cx msg) :
      WithoutUnit ⟨header, ⟨front ++ text :: back⟩⟩ ⟨header, ⟨front ++ text' :: back⟩⟩

theorem votesOfRefund_of_vote {msg inner : Any} {vote : VoteRequest}
    (hinner : cx.decodeRefundMsgRequest msg.value = some ⟨some inner⟩)
    (hurl : inner.typeUrl = "/axelar.vote.v1beta1.VoteRequest")
    (hvote : cx.decodeVoteRequest inner.value = some vote) :
    votesOfRefund cx msg = votesOfRequest cx vote := by
  simp [votesOfRefund, extractVoteRequest, hinner, hurl, hvote]

theorem MalformedMessage.votesOfRefund_eq_nil {msg : Any} (h : MalformedMessage cx msg)
    (hrefund : isRefund msg = true) : votesOfRefund cx msg = [] := by
  have hurl : msg.typeUrl = "/axelar.reward.v1beta1.RefundMsgRequest" := of_decide_eq_true hrefund
  cases h with
  | confirm h => simp [confirmDecodes, hurl] at h
  | batch hbatch _ => simp [isBatch, hurl] at hbatch
  | refund _ h => simp [votesOfRefund, extractVoteRequest, h]
  | voteRequest _ hinner hvoteUrl h =>
      simp [votesOfRefund, extractVoteRequest, hinner, hvoteUrl, h]
  | voteEvents _ hinner hvoteUrl hvote hpayload hevents h =>
      rw [votesOfRefund_of_vote cx hinner hvoteUrl hvote]
      apply votesOfRequest_of_no_events
      simp [voteEventsOf, hpayload, hevents, h]
  | sender _ hinner hvoteUrl hvote h =>
      rw [votesOfRefund_of_vote cx hinner hvoteUrl hvote]
      simp [votesOfRequest, decodeVote_eq, decodeBech32ToHex, h]

/-- A malformed message adds no vote and, unless it is a confirmation request,
no poll request. -/
theorem MalformedMessage.adds_nothing {msg : Any} (h : MalformedMessage cx msg)
    (hdecodes : confirmDecodes cx msg = true) :
    votesOfMessage cx msg = [] ∧ pollRequestsOfMessage cx msg = [] := by
  have refunds (hrefund : isRefund msg = true) :
      votesOfMessage cx msg = [] ∧ pollRequestsOfMessage cx msg = [] := by
    rw [votesOfMessage_refund cx hrefund, h.votesOfRefund_eq_nil cx hrefund]
    exact ⟨rfl, pollRequests_of_refund cx hrefund⟩
  cases h with
  | confirm h =>
      rw [h] at hdecodes
      cases hdecodes
  | batch hbatch h =>
      refine ⟨?_, pollRequests_of_batch cx hbatch⟩
      rw [votesOfMessage_batch cx hbatch, innerMessages, h]
      rfl
  | refund hrefund _ => exact refunds hrefund
  | voteRequest hrefund _ _ _ => exact refunds hrefund
  | voteEvents hrefund _ _ _ _ _ _ => exact refunds hrefund
  | sender hrefund _ _ _ _ => exact refunds hrefund

theorem WithoutUnit.sameContributions {b b' : Block} (h : WithoutUnit cx b b')
    (hdecodes : ∀ msg ∈ blockMessages cx b, confirmDecodes cx msg = true) :
    SameContributions cx (blockMessages cx b) (blockMessages cx b') := by
  cases h with
  | @base64 header front back text h =>
      have hnone : messagesOfText cx text = [] := by simp [messagesOfText, txBodyOf, h]
      simpa [blockMessages_texts, hnone] using SameContributions.refl cx _
  | @tx header front back text bytes hbytes h =>
      have hnone : messagesOfText cx text = [] := by simp [messagesOfText, txBodyOf, hbytes, h]
      simpa [blockMessages_texts, hnone] using SameContributions.refl cx _
  | @message header front back text text' before after msg hwith hwithout h =>
      have hold : messagesOfText cx text = before ++ msg :: after := by
        simp [messagesOfText, hwith]
      have hnew : messagesOfText cx text' = before ++ after := by
        simp [messagesOfText, hwithout]
      simp only [blockMessages_texts, List.flatMap_append, List.flatMap_cons, hold, hnew]
        at hdecodes ⊢
      have hmsg : confirmDecodes cx msg = true := hdecodes msg (by simp)
      obtain ⟨hvotes, hrequests⟩ := h.adds_nothing cx hmsg
      constructor <;> simp [hmsg, hvotes, hrequests]
  | @inner header front back text text' before after batch batch' first last msg hwith hwithout
      hbatch hbatch' hdecode hdecode' h =>
      have hold : messagesOfText cx text = before ++ batch :: after := by
        simp [messagesOfText, hwith]
      have hnew : messagesOfText cx text' = before ++ batch' :: after := by
        simp [messagesOfText, hwithout]
      have hvotes : votesOfMessage cx batch = votesOfMessage cx batch' := by
        rw [votesOfMessage_batch cx hbatch, votesOfMessage_batch cx hbatch', innerMessages,
          innerMessages, hdecode, hdecode']
        cases hrefund : isRefund msg with
        | true => simp [hrefund, h.votesOfRefund_eq_nil cx hrefund]
        | false => simp [hrefund]
      simp only [blockMessages_texts, List.flatMap_append, List.flatMap_cons, hold, hnew]
      constructor <;>
        simp [hvotes, confirmDecodes_of_batch, pollRequests_of_batch, hbatch, hbatch']

/-- `process_block` reads the block without a panic or an overflow, and the
result is the same without any one of the block's malformed units. -/
structure Isolated (params : OrderedMap String ChainParams) (height : Nat) (b : Block) : Prop where
  reads : ∃ data, processBlock cx b params height = some (.ok data)
  no_overflow : ∀ chain p, params.get? chain = some p →
    height + p.revoteLockingPeriod.toNat + p.votingGracePeriod.toNat < 2 ^ 64
  isolated : ∀ b', WithoutUnit cx b b' →
    processBlock cx b' params height = processBlock cx b params height

/-- Malformed content is isolated if and only if every confirmation request at
the top level of a transaction decodes. -/
theorem isolated_iff {params : OrderedMap String ChainParams} {height : Nat}
    (hheight : height < 2 ^ 63) (b : Block) :
    Isolated cx params height b ↔
      ∀ msg ∈ blockMessages cx b, confirmDecodes cx msg = true := by
  constructor
  · intro h
    obtain ⟨data, hdata⟩ := h.reads
    rw [processBlock_messages] at hdata
    split_ifs at hdata with hall
    exact List.all_eq_true.mp hall
  · intro hdecodes
    refine ⟨?_, ?_, ?_⟩
    · rw [processBlock_messages, if_pos (List.all_eq_true.mpr hdecodes)]
      exact ⟨_, rfl⟩
    · intro chain p _
      have hrevote := p.revoteLockingPeriod.toNat_lt
      have hgrace := p.votingGracePeriod.toNat_lt
      omega
    · intro b' hwithout
      exact (processBlock_congr cx (hwithout.sameContributions cx hdecodes) params height).symm

/-- An unreadable text beside the sample's poll request. -/
theorem isolated_of_unreadable_text :
    Isolated Sample.codecs (configChainParams Sample.codecs Sample.config) 5
      ⟨⟨"5"⟩, ⟨["-", Sample.confirmTxText]⟩⟩ := by
  have hdecodes : ∀ msg ∈ blockMessages Sample.codecs ⟨⟨"5"⟩, ⟨["-", Sample.confirmTxText]⟩⟩,
      confirmDecodes Sample.codecs msg = true := by
    decide +kernel
  exact (isolated_iff Sample.codecs (by omega) _).mpr hdecodes

/-- A transaction whose only message is a poll request cut off in mid-field. -/
def Sample.cutOffTxBytes : Bytes :=
  [10, 50, 10, 48, 10, 43, 47, 97, 120, 101, 108, 97, 114, 46, 101, 118, 109, 46, 118, 49, 98,
   101, 116, 97, 49, 46, 67, 111, 110, 102, 105, 114, 109, 71, 97, 116, 101, 119, 97, 121, 84,
   120, 82, 101, 113, 117, 101, 115, 116, 18, 1, 255]

def Sample.cutOffTxText : String :=
  "CjIKMAorL2F4ZWxhci5ldm0udjFiZXRhMS5Db25maXJtR2F0ZXdheVR4UmVxdWVzdBIB/w=="

def Sample.cutOffBlock : Block := ⟨⟨"5"⟩, ⟨[Sample.cutOffTxText]⟩⟩

def Sample.cutOffCodecs : Codecs :=
  { Sample.codecs with
    base64Decode := fun s =>
      if s = Sample.cutOffTxText then some Sample.cutOffTxBytes else Sample.codecs.base64Decode s
    decodeTx := fun b =>
      if b = Sample.cutOffTxBytes then
        some ⟨some ⟨[⟨"/axelar.evm.v1beta1.ConfirmGatewayTxRequest", [255]⟩]⟩⟩
      else Sample.codecs.decodeTx b
    jsonResponse := fun s =>
      if s = Sample.blockJson Sample.cutOffBlock then .ok ⟨Sample.cutOffBlock⟩
      else Sample.codecs.jsonResponse s }

theorem cut_off_request_panics :
    processBlock Sample.cutOffCodecs Sample.cutOffBlock
        (configChainParams Sample.cutOffCodecs Sample.config) 5 = none ∧
      ¬ Isolated Sample.cutOffCodecs (configChainParams Sample.cutOffCodecs Sample.config) 5
        Sample.cutOffBlock := by
  have hpanics : processBlock Sample.cutOffCodecs Sample.cutOffBlock
      (configChainParams Sample.cutOffCodecs Sample.config) 5 = none := by
    rw [processBlock_messages, if_neg (by decide +kernel)]
  refine ⟨hpanics, ?_⟩
  intro h
  obtain ⟨data, hdata⟩ := h.reads
  rw [hpanics] at hdata
  cases hdata

end AxelarMonitor
