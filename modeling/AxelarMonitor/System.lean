import AxelarMonitor.Lib.FifoLoop
import AxelarMonitor.Monitor

/-!
`main.rs`: the IO thread, the processing thread and the feeder, joined by the
two channels. A step in which a thread panics has no successor.
-/

namespace AxelarMonitor

open FifoLoop

abbrev System := Loop ProcessingState IoCommand IoResult

abbrev Trace := List (Transition ProcessingState IoCommand IoResult)

/-- The channels carry whole replies: what one message or command produces is
sent before its thread receives again. -/
def monitor (cx : Codecs) (config : Config) :
    Machine ProcessingState IoCommand IoResult Http where
  feed := .fetchHead
  exec http cmd := processSingleIoCommand cx http cmd config.rpcUrl config.lcdUrl
  handle msg state := processSingleMessage cx msg state config

/-- `main` sends `FetchChainList` before it starts the feeder. -/
def startUp (cx : Codecs) (config : Config) : System where
  state := .new cx config
  cmds := [.fetchChainList]
  results := []

/-- The runs of the whole program from its start. -/
abbrev MonitorRun (cx : Codecs) (config : Config) (trace : Trace) (s : System) : Prop :=
  Run (monitor cx config) (startUp cx config) trace s

namespace Sample

-- One broadcaster and one chain. Block 5 asks for the confirmation of a gateway
-- transaction, block 6 holds the broadcaster's vote, the others are empty; a vote
-- on a second chain is in no block. The decoders are tables of what the real ones
-- make of these texts and bytes.

def config : Config where
  rpcUrl := "http://localhost:1317"
  lcdUrl := "http://localhost:26657"
  broadcaster := [⟨"be932e6de9f924116df2afc1829506ac853956e3", "chorus"⟩]
  chainParams := [⟨"eth", 1, 1⟩]

def confirmBytes : Bytes := [18, 3, 101, 116, 104, 26, 1, 1]

def confirmTxBytes : Bytes :=
  [10, 57, 10, 55, 10, 43, 47, 97, 120, 101, 108, 97, 114, 46, 101, 118, 109, 46, 118, 49, 98,
   101, 116, 97, 49, 46, 67, 111, 110, 102, 105, 114, 109, 71, 97, 116, 101, 119, 97, 121, 84,
   120, 82, 101, 113, 117, 101, 115, 116, 18, 8, 18, 3, 101, 116, 104, 26, 1, 1]

def confirmTxText : String :=
  "CjkKNworL2F4ZWxhci5ldm0udjFiZXRhMS5Db25maXJtR2F0ZXdheVR4UmVxdWVzdBIIEgNldGgaAQE="

def ascii (s : String) : Bytes := s.toList.map (fun c => UInt8.ofNat c.toNat)

/-- A length-delimited protobuf field of at most 16383 bytes. -/
def field (tag : UInt8) (payload : Bytes) : Bytes :=
  let n := payload.length
  tag :: (if n < 128 then [UInt8.ofNat n] else [UInt8.ofNat (n % 128 + 128), UInt8.ofNat (n / 128)])
    ++ payload

def eth : Bytes := [101, 116, 104]

def bsc : Bytes := [98, 115, 99]

/-- The events of a vote on transaction 1 of a chain. -/
def voteEventsBytes (chain : Bytes) : Bytes := [10, 3] ++ chain ++ [18, 3, 18, 1, 1]

def voteBytes (chain : Bytes) : Bytes :=
  [32, 1, 42, 44, 10, 30, 47, 97, 120, 101, 108, 97, 114, 46, 101, 118, 109, 46, 118, 49, 98,
   101, 116, 97, 49, 46, 86, 111, 116, 101, 69, 118, 101, 110, 116, 115, 18, 10] ++
  voteEventsBytes chain ++
  [50, 45, 97, 120, 101, 108, 97, 114, 49, 104, 54, 102, 106, 117, 109, 48, 102, 108, 121, 106,
   112, 122, 109, 48, 106, 52, 108, 113, 99, 57, 57, 103, 120, 52, 106, 122, 110, 106, 52, 104,
   114, 56, 121, 106, 48, 103, 53]

def refundBytes (chain : Bytes) : Bytes :=
  [18, 131, 1, 10, 32, 47, 97, 120, 101, 108, 97, 114, 46, 118, 111, 116, 101, 46, 118, 49, 98,
   101, 116, 97, 49, 46, 86, 111, 116, 101, 82, 101, 113, 117, 101, 115, 116, 18, 95] ++
  voteBytes chain

def voteTxBytes (chain : Bytes) : Bytes :=
  [10, 181, 1, 10, 178, 1, 10, 39, 47, 97, 120, 101, 108, 97, 114, 46, 114, 101, 119, 97, 114,
   100, 46, 118, 49, 98, 101, 116, 97, 49, 46, 82, 101, 102, 117, 110, 100, 77, 115, 103, 82,
   101, 113, 117, 101, 115, 116, 18, 134, 1] ++
  refundBytes chain

def voteTxText (chainText : String) : String :=
  "CrUBCrIBCicvYXhlbGFyLnJld2FyZC52MWJldGExLlJlZnVuZE1zZ1JlcXVlc3QShgESgwEKIC9heGVsYXIudm90" ++
    "ZS52MWJldGExLlZvdGVSZXF1ZXN0El8gASosCh4vYXhlbGFyLmV2bS52MWJldGExLlZvdGVFdmVudHMSCgoD" ++
    chainText ++
    "EgMSAQEyLWF4ZWxhcjFoNmZqdW0wZmx5anB6bTBqNGxxYzk5Z3g0anpuajRocjh5ajBnNQ=="

def ethVote : String := voteTxText "ZXRo"

def bscVote : String := voteTxText "YnNj"

def block (height : Nat) : Block :=
  ⟨⟨toString height⟩, ⟨if height = 5 then [confirmTxText]
    else if height = 6 then [ethVote] else []⟩⟩

def blockJson (b : Block) : String :=
  "\x7b\"block\":\x7b\"header\":\x7b\"height\":\"" ++ b.header.height ++
    "\"\x7d,\"data\":\x7b\"txs\":[" ++
    String.intercalate "," (b.data.txs.map (fun t => "\"" ++ t ++ "\"")) ++ "]\x7d\x7d\x7d"

def results : BlockResults :=
  ⟨some [⟨some [⟨"axelar.evm.v1beta1.ConfirmGatewayTxStarted",
    [⟨"tx_id", some "[1]"⟩, ⟨"participants", some "\x7b\"poll_id\":\"1\"\x7d"⟩]⟩]⟩]⟩

def resultsJson : String :=
  "\x7b\"result\":\x7b\"txs_results\":[\x7b\"events\":[\x7b" ++
    "\"type\":\"axelar.evm.v1beta1.ConfirmGatewayTxStarted\",\"attributes\":[" ++
    "\x7b\"key\":\"tx_id\",\"value\":\"[1]\"\x7d," ++
    "\x7b\"key\":\"participants\",\"value\":\"\x7b\\\"poll_id\\\":\\\"1\\\"\x7d\"\x7d" ++
    "]\x7d]\x7d]\x7d\x7d"

def chainListJson : String := "\x7b\"chains\":[\"eth\"]\x7d"

def chainParamsJson : String :=
  "\x7b\"params\":\x7b\"chain\":\"eth\",\"revote_locking_period\":\"1\"," ++
    "\"voting_grace_period\":\"1\"\x7d\x7d"

def codecs : Codecs where
  base64Decode s :=
    if s = confirmTxText then some confirmTxBytes
    else if s = ethVote then some (voteTxBytes eth)
    else if s = bscVote then some (voteTxBytes bsc)
    else if s = "participants" then some [165, 170, 237, 137, 200, 169, 106, 123, 108]
    else none
  bech32Decode s :=
    if s = "axelar1h6fjum0flyjpzm0j4lqc99gx4jznj4hr8yj0g5" then
      some [190, 147, 46, 109, 233, 249, 36, 17, 109, 242, 175, 193, 130, 149, 6, 172, 133, 57,
        86, 227]
    else none
  fromUtf8 _ := none
  toLowercase := id
  decodeTx b :=
    if b = confirmTxBytes then
      some ⟨some ⟨[⟨"/axelar.evm.v1beta1.ConfirmGatewayTxRequest", confirmBytes⟩]⟩⟩
    else ([eth, bsc].find? (fun c => b = voteTxBytes c)).map (fun c =>
      ⟨some ⟨[⟨"/axelar.reward.v1beta1.RefundMsgRequest", refundBytes c⟩]⟩⟩)
  decodeBatchRequest _ := none
  decodeRefundMsgRequest b :=
    ([eth, bsc].find? (fun c => b = refundBytes c)).map (fun c =>
      ⟨some ⟨"/axelar.vote.v1beta1.VoteRequest", voteBytes c⟩⟩)
  decodeVoteRequest b :=
    ([eth, bsc].find? (fun c => b = voteBytes c)).map (fun c =>
      ⟨"axelar1h6fjum0flyjpzm0j4lqc99gx4jznj4hr8yj0g5", 1,
        some ⟨"/axelar.evm.v1beta1.VoteEvents", voteEventsBytes c⟩⟩)
  decodeVoteEvents b :=
    if b = voteEventsBytes eth then some ⟨"eth", [⟨[1], none⟩]⟩
    else if b = voteEventsBytes bsc then some ⟨"bsc", [⟨[1], none⟩]⟩
    else none
  decodeConfirmGatewayTxRequest b := if b = confirmBytes then some ⟨"eth", [1]⟩ else none
  decodeConfirmGatewayTxsRequest _ := none
  decodeConfirmDepositRequest _ := none
  decodeConfirmTransferKeyRequest _ := none
  decodeConfirmTokenRequest _ := none
  jsonResponse s :=
    match [4, 5, 6, 7].find? (fun h => s = blockJson (block h)) with
    | some h => .ok ⟨block h⟩
    | none => .error "expected value at line 1 column 1"
  jsonBlockResultsResponse s :=
    if s = resultsJson then .ok ⟨results⟩ else .error "expected value at line 1 column 1"
  jsonChainListResponse s :=
    if s = chainListJson then .ok ⟨["eth"]⟩ else .error "expected value at line 1 column 1"
  jsonChainParamsResponse s :=
    if s = chainParamsJson then .ok ⟨⟨"eth", "1", "1"⟩⟩
    else .error "expected value at line 1 column 1"
  jsonBytes s := if s = "[1]" then some [1] else none
  jsonPollMappings _ := none
  jsonPollParticipants s := if s = "\x7b\"poll_id\":\"1\"\x7d" then some ⟨"1"⟩ else none

/-- A node that answers the next request with the given body. -/
def serves (body : String) : Action Http := .answer (fun _ => .ok body)

def fails : Action Http := .answer (fun _ => .error "connection refused")

def servesBlock (height : Nat) : Action Http := serves (blockJson (block height))

/-- Block 5 opens a poll, block 7 closes it, and `sixth` comes in between. -/
def openAndClose (sixth : Block) : List (Action Http) :=
  [.feed, .feed, serves chainListJson, servesBlock 5, servesBlock 7, .handle, .handle, .handle,
    serves chainParamsJson, servesBlock 5, .handle, .handle, serves resultsJson,
    serves (blockJson sixth), .handle, .handle, servesBlock 7, .handle]

def replay (config : Config) (schedule : List (Action Http)) : Option (Trace × System) :=
  (monitor codecs config).replay (startUp codecs config) schedule

/-- What a replayed schedule ends in is reached by a run. -/
theorem run_of_replay {config : Config} {schedule : List (Action Http)}
    {P : Trace × System → Prop} (h : ∃ r ∈ replay config schedule, P r) :
    ∃ r : Trace × System, MonitorRun codecs config r.1 r.2 ∧ P r := by
  obtain ⟨r, hr, hP⟩ := h
  exact ⟨r, FifoLoop.replay_run hr, hP⟩

end Sample

end AxelarMonitor
