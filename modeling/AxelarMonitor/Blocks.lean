import AxelarMonitor.Lib.OrderedMap
import AxelarMonitor.Polls
import AxelarMonitor.Rpc
import Mathlib.Data.String.Basic

/-!
`blocks.rs`: the poll requests and the votes of a block. Where the source
unwraps a decoder's result the model returns `none`, which stands for the
panic of the thread that runs it.
-/

namespace AxelarMonitor

variable (cx : Codecs)

def decodeBech32ToHex (bech32Addr : String) : Option String :=
  (cx.bech32Decode bech32Addr).map hexEncode

structure DecodedVote where
  sender : String
  pollId : Nat
  voteEvents : Option VoteEvents
  deriving DecidableEq

def decodeBatchRequest (data : Bytes) : Option (List Any) :=
  (cx.decodeBatchRequest data).map BatchRequest.messages

def extractRefundMessages (txBody : TxBody) : List Any :=
  txBody.messages.flatMap (fun msg =>
    if msg.typeUrl = "/axelar.reward.v1beta1.RefundMsgRequest" then [msg]
    else if msg.typeUrl = "/axelar.auxiliary.v1beta1.BatchRequest" then
      match decodeBatchRequest cx msg.value with
      | none => []
      | some batch =>
          batch.filter (fun inner => inner.typeUrl = "/axelar.reward.v1beta1.RefundMsgRequest")
    else [])

def extractVoteRequest (refundMsg : Any) : Option VoteRequest := do
  let refund ← cx.decodeRefundMsgRequest refundMsg.value
  let inner ← refund.innerMessage
  if inner.typeUrl ≠ "/axelar.vote.v1beta1.VoteRequest" then none
  else cx.decodeVoteRequest inner.value

def extractVoteRequests (tx : TxBody) : List VoteRequest :=
  (extractRefundMessages cx tx).filterMap (extractVoteRequest cx)

/-- A vote whose payload is not a readable `VoteEvents` keeps its sender and
loses its events; a vote without a readable sender is dropped. -/
def decodeVote (vote : VoteRequest) : Option DecodedVote :=
  let voteEvents := vote.vote.bind (fun voteData =>
    if voteData.typeUrl = "/axelar.evm.v1beta1.VoteEvents" then
      cx.decodeVoteEvents voteData.value
    else none)
  (decodeBech32ToHex cx vote.sender).map (fun sender => ⟨sender, vote.pollId, voteEvents⟩)

def extractDecodedVotesFromTx (tx : TxBody) : List DecodedVote :=
  (extractVoteRequests cx tx).filterMap (decodeVote cx)

def extractDecodedVotes (txs : List TxBody) : List DecodedVote :=
  txs.flatMap (extractDecodedVotesFromTx cx)

inductive RawPollRequests where
  | gatewayTx (request : ConfirmGatewayTxRequest)
  | gatewayTxs (request : ConfirmGatewayTxsRequest)
  | deposit (request : ConfirmDepositRequest)
  | transferKey (request : ConfirmTransferKeyRequest)
  | token (request : ConfirmTokenRequest)
  deriving DecidableEq

/-- The closure of `extract_raw_poll_requests`. The outer `none` is the panic
of an unwrapped decoder, the inner one a message of another type. -/
def rawPollRequest (msg : Any) : Option (Option RawPollRequests) :=
  match msg.typeUrl with
  | "/axelar.evm.v1beta1.ConfirmGatewayTxRequest" =>
      (cx.decodeConfirmGatewayTxRequest msg.value).map (fun r => some (.gatewayTx r))
  | "/axelar.evm.v1beta1.ConfirmGatewayTxsRequest" =>
      (cx.decodeConfirmGatewayTxsRequest msg.value).map (fun r => some (.gatewayTxs r))
  | "/axelar.evm.v1beta1.ConfirmDepositRequest" =>
      (cx.decodeConfirmDepositRequest msg.value).map (fun r => some (.deposit r))
  | "/axelar.evm.v1beta1.ConfirmTransferKeyRequest" =>
      (cx.decodeConfirmTransferKeyRequest msg.value).map (fun r => some (.transferKey r))
  | "/axelar.evm.v1beta1.ConfirmTokenRequest" =>
      (cx.decodeConfirmTokenRequest msg.value).map (fun r => some (.token r))
  | _ => some none

def extractRawPollRequests (txs : List TxBody) : Option (List RawPollRequests) :=
  ((txs.flatMap TxBody.messages).mapM (rawPollRequest cx)).map (List.filterMap id)

def payloadHash : Option EventBody → Option String
  | some (.contractCall hash) => some (hexEncode hash)
  | some (.contractCallWithToken hash) => some (hexEncode hash)
  | _ => none

/-- The votes of one request: one for each event, or a single vote for the
empty transaction id when the request confirms nothing. -/
def votesOfDecoded (vote : DecodedVote) : List PollVote :=
  match vote.voteEvents with
  | none => []
  | some voteEvents =>
      if voteEvents.events.isEmpty then
        [⟨vote.pollId, voteEvents.chain, "", vote.sender, none⟩]
      else
        voteEvents.events.map (fun event =>
          ⟨vote.pollId, voteEvents.chain, hexEncode event.txId, vote.sender,
            payloadHash event.event⟩)

def getVotesFromTxs (txs : List TxBody) : List PollVote :=
  (extractDecodedVotes cx txs).flatMap votesOfDecoded

/-- Undecodable transactions are logged and skipped; the result is never an
error. -/
def getTxs (block : Block) : Except String (List TxBody) :=
  .ok (block.data.txs.filterMap (fun txBase64 =>
    (cx.base64Decode txBase64).bind (fun txBytes => (cx.decodeTx txBytes).bind Tx.body)))

structure RawBlockData where
  pollCreations : List PollData
  votes : List PollVote
  deriving DecidableEq

def pollRequestsOf : RawPollRequests → List PollRequest
  | .gatewayTx g => [⟨.gatewayTx, g.chain, hexEncode g.txId⟩]
  | .gatewayTxs g => g.txIds.map (fun txId => ⟨.gatewayTx, g.chain, hexEncode txId⟩)
  | .deposit d => [⟨.deposit (hexEncode d.burnerAddress), d.chain, hexEncode d.txId⟩]
  | .transferKey t => [⟨.transferKey, t.chain, hexEncode t.txId⟩]
  | .token t => [⟨.token, t.chain, hexEncode t.txId⟩]

/-- A request on a chain without parameters is dropped. -/
def createPoll (chainParams : OrderedMap String ChainParams) (height : Nat)
    (request : PollRequest) : Option PollData :=
  (chainParams.get? (cx.toLowercase request.chain)).map (fun params =>
    request.withExpiry
      (u64Add (u64Add height params.revoteLockingPeriod.toNat) params.votingGracePeriod.toNat))

def processBlock (block : Block) (chainParams : OrderedMap String ChainParams) (height : Nat) :
    Option (Except String RawBlockData) :=
  match getTxs cx block with
  | .error e => some (.error e)
  | .ok txs =>
      (extractRawPollRequests cx txs).map (fun rawReqs =>
        let pollRequests := rawReqs.flatMap pollRequestsOf
        let pollCreations := pollRequests.filterMap (createPoll cx chainParams height)
        .ok ⟨pollCreations, getVotesFromTxs cx txs⟩)

end AxelarMonitor
