import AxelarMonitor.Wire

/-!
`config.rs` and `rpc.rs`. `Http` answers a GET request with the response body
or with the error's text; each call of the monitor may meet another `Http`.
-/

namespace AxelarMonitor

structure ChainParams where
  name : String
  revoteLockingPeriod : UInt16
  votingGracePeriod : UInt16
  deriving DecidableEq

structure Broadcaster where
  address : String
  name : String
  deriving DecidableEq

structure Config where
  rpcUrl : String
  lcdUrl : String
  broadcaster : List Broadcaster
  chainParams : List ChainParams
  deriving DecidableEq

inductive Height where
  | latest
  | specific (h : Nat)
  deriving DecidableEq

abbrev Http := String → Except String String

/-- `From<ChainParamsJson>`. Both periods are unwrapped: `none` when one of
them is not the text of a 16-bit integer, where the source panics. -/
def ChainParamsJson.into (j : ChainParamsJson) : Option ChainParams :=
  match parseU16 j.revoteLockingPeriod, parseU16 j.votingGracePeriod with
  | .ok revote, .ok grace => some ⟨j.chain, revote, grace⟩
  | _, _ => none

def parseBlock (cx : Codecs) (jsonData : String) : Except String Block := do
  let data ← cx.jsonResponse jsonData
  return data.block

def getBlock (cx : Codecs) (http : Http) (baseUrl : String) (height : Height) :
    Except String (Block × Nat) := do
  let heightStr := match height with
    | .latest => "latest"
    | .specific n => toString n
  let body ← http (baseUrl ++ "/cosmos/base/tendermint/v1beta1/blocks/" ++ heightStr)
  let b ← parseBlock cx body
  let h ← parseU64 b.header.height
  return (b, h)

def getHead (cx : Codecs) (http : Http) (baseUrl : String) : Except String Nat := do
  let body ← http (baseUrl ++ "/cosmos/base/tendermint/v1beta1/blocks/latest")
  let b ← parseBlock cx body
  let h ← parseU64 b.header.height
  return h

def getChainList (cx : Codecs) (http : Http) (baseUrl : String) :
    Except String (List String) := do
  let body ← http (baseUrl ++ "/axelar/evm/v1beta1/chains")
  let parsed ← cx.jsonChainListResponse body
  return parsed.chains

def getChainParams (cx : Codecs) (http : Http) (baseUrl chain : String) :
    Except String ChainParamsJson := do
  let body ← http (baseUrl ++ "/axelar/evm/v1beta1/params/" ++ chain)
  let parsed ← cx.jsonChainParamsResponse body
  return parsed.params

def getBlockResults (cx : Codecs) (http : Http) (lcdUrl : String) (height : Nat) :
    Except String BlockResults := do
  let body ← http (lcdUrl ++ "/block_results?height=" ++ toString height)
  let parsed ← cx.jsonBlockResultsResponse body
  return parsed.result

end AxelarMonitor
