import Mathlib.Algebra.Ring.Nat
import Mathlib.Data.List.Basic

/-!
What crosses the monitor's boundary. The protobuf messages carry the fields
that the monitor reads, the JSON documents those that its serde structs name.
The decoders themselves are third-party code and stay parameters, collected in
`Codecs`; every result below holds for arbitrary partial decoders. Unsigned
integers of the source are `Nat`, and parsing bounds them. Expiry heights and the
predecessor of a head wrap; a height or an attempt is counted up only below a
bound that the code checks. The error counter and the vote results are `u64`
counters that are only ever incremented: that they wrap at 2^64 is out of scope.
-/

namespace AxelarMonitor

abbrev Bytes := List UInt8

def hexDigit (n : Nat) : Char :=
  if n < 10 then Char.ofNat ('0'.toNat + n) else Char.ofNat ('a'.toNat + (n - 10))

def hexEncode (bytes : Bytes) : String :=
  String.ofList (bytes.flatMap (fun b => [hexDigit (b.toNat / 16), hexDigit (b.toNat % 16)]))

/-- Digits are checked before overflow, from left to right, so an overflow
hides an invalid digit that comes later. -/
def parseDigits (bound : Nat) : Nat → List Char → Except String Nat
  | acc, [] => .ok acc
  | acc, c :: rest =>
      if c.isDigit then
        let next := acc * 10 + (c.toNat - '0'.toNat)
        if next < bound then parseDigits bound next rest
        else .error "number too large to fit in target type"
      else .error "invalid digit found in string"

/-- `str::parse` at an unsigned type whose values lie below `bound`. One
leading plus sign is accepted in front of a digit sequence. -/
def parseUnsigned (bound : Nat) (s : String) : Except String Nat :=
  match s.toList with
  | [] => .error "cannot parse integer from empty string"
  | '+' :: c :: rest => parseDigits bound 0 (c :: rest)
  | cs => parseDigits bound 0 cs

def parseU64 (s : String) : Except String Nat := parseUnsigned (2 ^ 64) s

def parseU16 (s : String) : Except String UInt16 := (parseUnsigned (2 ^ 16) s).map UInt16.ofNat

/-- Release-build addition of 64-bit integers, which wraps. A build with
overflow checks panics instead; no other addition of the source can overflow
before 2^64 messages are processed. -/
def u64Add (a b : Nat) : Nat := (a + b) % 2 ^ 64

/-- Release-build predecessor of a 64-bit integer, which wraps at zero. -/
def u64Pred : Nat → Nat
  | 0 => 2 ^ 64 - 1
  | n + 1 => n

structure Any where
  typeUrl : String
  value : Bytes
  deriving DecidableEq

structure TxBody where
  messages : List Any
  deriving DecidableEq

structure Tx where
  body : Option TxBody
  deriving DecidableEq

structure BatchRequest where
  messages : List Any
  deriving DecidableEq

structure RefundMsgRequest where
  innerMessage : Option Any
  deriving DecidableEq

structure VoteRequest where
  sender : String
  pollId : Nat
  vote : Option Any
  deriving DecidableEq

inductive EventBody where
  | contractCall (payloadHash : Bytes)
  | contractCallWithToken (payloadHash : Bytes)
  | multisigOperatorshipTransferred
  | multisigOwnershipTransferred
  | transfer
  | tokenSent
  | tokenDeployed
  deriving DecidableEq

structure EvmEvent where
  txId : Bytes
  event : Option EventBody
  deriving DecidableEq

structure VoteEvents where
  chain : String
  events : List EvmEvent
  deriving DecidableEq

structure ConfirmGatewayTxRequest where
  chain : String
  txId : Bytes
  deriving DecidableEq

structure ConfirmGatewayTxsRequest where
  chain : String
  txIds : List Bytes
  deriving DecidableEq

structure ConfirmDepositRequest where
  chain : String
  txId : Bytes
  burnerAddress : Bytes
  deriving DecidableEq

structure ConfirmTransferKeyRequest where
  chain : String
  txId : Bytes
  deriving DecidableEq

structure ConfirmTokenRequest where
  chain : String
  txId : Bytes
  deriving DecidableEq

structure Header where
  height : String
  deriving DecidableEq

structure Data where
  txs : List String
  deriving DecidableEq

structure Block where
  header : Header
  data : Data
  deriving DecidableEq

structure Response where
  block : Block
  deriving DecidableEq

structure EventAttribute where
  key : String
  value : Option String
  deriving DecidableEq

structure TendermintEvent where
  type : String
  attributes : List EventAttribute
  deriving DecidableEq

structure TxResult where
  events : Option (List TendermintEvent)
  deriving DecidableEq

structure BlockResults where
  txsResults : Option (List TxResult)
  deriving DecidableEq

structure BlockResultsResponse where
  result : BlockResults
  deriving DecidableEq

structure ChainListResponse where
  chains : List String
  deriving DecidableEq

structure ChainParamsJson where
  chain : String
  revoteLockingPeriod : String
  votingGracePeriod : String
  deriving DecidableEq

structure ChainParamsResponse where
  params : ChainParamsJson
  deriving DecidableEq

structure PollMappingJson where
  txId : Bytes
  pollId : String
  deriving DecidableEq

structure PollParticipantsJson where
  pollId : String
  deriving DecidableEq

/-- The decoders of `base64`, `bech32`, `prost` and `serde_json`, and the
Unicode tables behind `from_utf8` and `to_lowercase`. A decoder whose error
reaches a message of the monitor returns the error's text. -/
structure Codecs where
  base64Decode : String → Option Bytes
  bech32Decode : String → Option Bytes
  fromUtf8 : Bytes → Option String
  toLowercase : String → String
  decodeTx : Bytes → Option Tx
  decodeBatchRequest : Bytes → Option BatchRequest
  decodeRefundMsgRequest : Bytes → Option RefundMsgRequest
  decodeVoteRequest : Bytes → Option VoteRequest
  decodeVoteEvents : Bytes → Option VoteEvents
  decodeConfirmGatewayTxRequest : Bytes → Option ConfirmGatewayTxRequest
  decodeConfirmGatewayTxsRequest : Bytes → Option ConfirmGatewayTxsRequest
  decodeConfirmDepositRequest : Bytes → Option ConfirmDepositRequest
  decodeConfirmTransferKeyRequest : Bytes → Option ConfirmTransferKeyRequest
  decodeConfirmTokenRequest : Bytes → Option ConfirmTokenRequest
  jsonResponse : String → Except String Response
  jsonBlockResultsResponse : String → Except String BlockResultsResponse
  jsonChainListResponse : String → Except String ChainListResponse
  jsonChainParamsResponse : String → Except String ChainParamsResponse
  jsonBytes : String → Option Bytes
  jsonPollMappings : String → Option (List PollMappingJson)
  jsonPollParticipants : String → Option PollParticipantsJson

end AxelarMonitor
