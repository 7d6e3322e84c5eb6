import AxelarMonitor.Wire

/-!
`polls.rs`: polls, votes, and the poll events of a block's results.
-/

namespace AxelarMonitor

structure PollVote where
  pollId : Nat
  chain : String
  txId : String
  senderId : String
  payloadHash : Option String
  deriving DecidableEq

inductive PollKind where
  | gatewayTx
  | deposit (burnerAddress : String)
  | transferKey
  | token
  deriving DecidableEq

structure PollData where
  kind : PollKind
  chain : String
  tx : String
  expiryHeight : Nat
  deriving DecidableEq

structure PollRequest where
  kind : PollKind
  chain : String
  tx : String
  deriving DecidableEq

def PollRequest.withExpiry (r : PollRequest) (expiryHeight : Nat) : PollData :=
  ⟨r.kind, r.chain, r.tx, expiryHeight⟩

structure Poll where
  pollId : Nat
  data : PollData
  votes : List PollVote
  deriving DecidableEq

structure PollEvent where
  kind : PollKind
  txId : Bytes
  pollId : Nat
  deriving DecidableEq

section Attributes

variable (cx : Codecs)

def decodeAttributeKey (attr : EventAttribute) : String :=
  ((cx.base64Decode attr.key).bind cx.fromUtf8).getD attr.key

/-- `fromStr` is the JSON reader of the wanted type. The text behind the
base64 reading wins; the plain text is the fallback. -/
def decodeAttributeValue {α : Type} (fromStr : String → Option α) (attr : EventAttribute) :
    Option α :=
  match attr.value with
  | none => none
  | some value =>
      match ((cx.base64Decode value).bind cx.fromUtf8).bind fromStr with
      | some parsed => some parsed
      | none => fromStr value

def extractPollMappingsFromJson (event : TendermintEvent) : List PollEvent :=
  event.attributes.flatMap (fun attr =>
    if decodeAttributeKey cx attr = "poll_mappings" then
      match decodeAttributeValue cx cx.jsonPollMappings attr with
      | none => []
      | some mappings => mappings.filterMap (fun mapping =>
          match parseU64 mapping.pollId with
          | .ok pollId => some ⟨.gatewayTx, mapping.txId, pollId⟩
          | .error _ => none)
    else [])

/-- One round of the attribute loop. A later `tx_id` always overwrites, a
later `participants` only when its value can be read. -/
def readAttribute (found : Option Bytes × Option Nat) (attr : EventAttribute) :
    Option Bytes × Option Nat :=
  match decodeAttributeKey cx attr with
  | "tx_id" => (decodeAttributeValue cx cx.jsonBytes attr, found.2)
  | "participants" =>
      match decodeAttributeValue cx cx.jsonPollParticipants attr with
      | some json => (found.1, (parseU64 json.pollId).toOption)
      | none => found
  | _ => found

def extractPollEventFromAttributes (event : TendermintEvent) (kind : PollKind) :
    Option PollEvent :=
  match event.attributes.foldl (readAttribute cx) (none, none) with
  | (some txId, some pollId) => some ⟨kind, txId, pollId⟩
  | _ => none

def pollEventsOfEvent (event : TendermintEvent) : List PollEvent :=
  let pollEvent := match event.type with
    | "axelar.evm.v1beta1.ConfirmGatewayTxStarted" =>
        extractPollEventFromAttributes cx event .gatewayTx
    | "axelar.evm.v1beta1.ConfirmDepositStarted" =>
        extractPollEventFromAttributes cx event (.deposit "")
    | "axelar.evm.v1beta1.ConfirmKeyTransferStarted" =>
        extractPollEventFromAttributes cx event .transferKey
    | "axelar.evm.v1beta1.ConfirmTokenStarted" =>
        extractPollEventFromAttributes cx event .token
    | _ => none
  pollEvent.toList ++
    if event.type = "axelar.evm.v1beta1.ConfirmGatewayTxsStarted" then
      extractPollMappingsFromJson cx event
    else []

def extractAllPollEvents (blockResults : BlockResults) : List PollEvent :=
  match blockResults.txsResults with
  | none => []
  | some txsResults => txsResults.flatMap (fun txResult =>
      match txResult.events with
      | none => []
      | some events => events.flatMap (pollEventsOfEvent cx))

end Attributes

end AxelarMonitor
