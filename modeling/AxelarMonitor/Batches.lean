import AxelarMonitor.Contributions

/-!
Batches of messages. Votes are collected inside a batch as they are outside;
poll requests are only read at the top level of a transaction.
-/

namespace AxelarMonitor

variable {cx : Codecs}

/-- A block and the same block with a run of messages of one transaction put
into a batch. -/
structure Batching (cx : Codecs) where
  header : Header
  front : List String
  back : List String
  plain : String
  batched : String
  before : List Any
  run : List Any
  after : List Any
  batch : Any
  plain_body : txBodyOf cx plain = some ⟨before ++ run ++ after⟩
  batched_body : txBodyOf cx batched = some ⟨before ++ batch :: after⟩
  is_batch : isBatch batch = true
  decodes : cx.decodeBatchRequest batch.value = some ⟨run⟩
  flat : ∀ msg ∈ run, isBatch msg = false

namespace Batching

variable (x : Batching cx)

def plainBlock : Block := ⟨x.header, ⟨x.front ++ x.plain :: x.back⟩⟩

def batchedBlock : Block := ⟨x.header, ⟨x.front ++ x.batched :: x.back⟩⟩

/-- The messages of the block ahead of the run. -/
def ahead : List Any := x.front.flatMap (messagesOfText cx) ++ x.before

/-- The messages of the block behind the run. -/
def behind : List Any := x.after ++ x.back.flatMap (messagesOfText cx)

theorem plain_messages : blockMessages cx x.plainBlock = x.ahead ++ x.run ++ x.behind := by
  have htext : messagesOfText cx x.plain = x.before ++ x.run ++ x.after := by
    simp [messagesOfText, x.plain_body]
  simp [blockMessages_texts, plainBlock, htext, ahead, behind]

theorem batched_messages : blockMessages cx x.batchedBlock = x.ahead ++ x.batch :: x.behind := by
  have htext : messagesOfText cx x.batched = x.before ++ x.batch :: x.after := by
    simp [messagesOfText, x.batched_body]
  simp [blockMessages_texts, batchedBlock, htext, ahead, behind]

/-- The batch carries the votes of its messages. -/
theorem batch_votes : votesOfMessage cx x.batch = x.run.flatMap (votesOfMessage cx) := by
  rw [votesOfMessage_batch cx x.is_batch, votesOfMessages_of_no_batch cx x.flat, innerMessages,
    x.decodes]
  rfl

/-- The batch hides the poll requests of its messages. -/
theorem batch_created (params : OrderedMap String ChainParams) (height : Nat) :
    createdBy cx params height x.batch = [] := by
  rw [createdBy, pollRequests_of_batch cx x.is_batch]
  rfl

end Batching

theorem createdBy_eq_nil {params : OrderedMap String ChainParams} {height : Nat} {msg : Any} :
    createdBy cx params height msg = [] ↔
      ∀ request ∈ pollRequestsOfMessage cx msg,
        params.get? (cx.toLowercase request.chain) = none := by
  simp [createdBy, createPoll, List.filterMap_eq_nil_iff]

namespace Batching

variable (x : Batching cx) (params : OrderedMap String ChainParams) (height : Nat)

theorem plain_eq :
    processBlock cx x.plainBlock params height =
      if (x.ahead ++ x.behind).all (confirmDecodes cx) && x.run.all (confirmDecodes cx) then
        some (.ok ⟨x.ahead.flatMap (createdBy cx params height) ++
          (x.run.flatMap (createdBy cx params height) ++
            x.behind.flatMap (createdBy cx params height)),
          (x.ahead ++ x.run ++ x.behind).flatMap (votesOfMessage cx)⟩)
      else none := by
  have hall : (x.ahead ++ x.run ++ x.behind).all (confirmDecodes cx) =
      ((x.ahead ++ x.behind).all (confirmDecodes cx) && x.run.all (confirmDecodes cx)) := by
    rw [List.all_append, List.all_append, List.all_append, Bool.and_right_comm]
  rw [processBlock_messages, x.plain_messages, hall, List.flatMap_append, List.flatMap_append,
    List.append_assoc]

theorem batched_eq :
    processBlock cx x.batchedBlock params height =
      if (x.ahead ++ x.behind).all (confirmDecodes cx) then
        some (.ok ⟨x.ahead.flatMap (createdBy cx params height) ++
            x.behind.flatMap (createdBy cx params height),
          (x.ahead ++ x.run ++ x.behind).flatMap (votesOfMessage cx)⟩)
      else none := by
  have hall : (x.ahead ++ x.batch :: x.behind).all (confirmDecodes cx) =
      (x.ahead ++ x.behind).all (confirmDecodes cx) := by
    simp [confirmDecodes_of_batch cx x.is_batch]
  rw [processBlock_messages, x.batched_messages, hall]
  simp [x.batch_votes, x.batch_created]

end Batching

/-- A batch is transparent if and only if its messages ask for no poll on a
chain with parameters, or another message of the block makes reading it panic. -/
theorem batching_iff (x : Batching cx) (params : OrderedMap String ChainParams) (height : Nat) :
    processBlock cx x.batchedBlock params height = processBlock cx x.plainBlock params height ↔
      (∀ msg ∈ x.run, confirmDecodes cx msg = true ∧
        ∀ request ∈ pollRequestsOfMessage cx msg,
          params.get? (cx.toLowercase request.chain) = none) ∨
      ∃ msg ∈ x.ahead ++ x.behind, confirmDecodes cx msg = false := by
  rw [x.plain_eq, x.batched_eq]
  cases hothers : (x.ahead ++ x.behind).all (confirmDecodes cx) with
  | false =>
      have hbad : ∃ msg ∈ x.ahead ++ x.behind, confirmDecodes cx msg = false := by
        simpa using List.all_eq_false.mp hothers
      exact iff_of_true rfl (Or.inr hbad)
  | true =>
      have hgood : ¬ ∃ msg ∈ x.ahead ++ x.behind, confirmDecodes cx msg = false := by
        rintro ⟨msg, hmsg, hbad⟩
        rw [List.all_eq_true.mp hothers msg hmsg] at hbad
        cases hbad
      rw [or_iff_left hgood, Bool.true_and, if_pos rfl]
      cases hrun : x.run.all (confirmDecodes cx) with
      | false =>
          obtain ⟨msg, hmsg, hbad⟩ := List.all_eq_false.mp hrun
          constructor
          · intro heq
            cases heq
          · intro h
            exact absurd (h msg hmsg).1 hbad
      | true =>
          have hcreated : x.run.flatMap (createdBy cx params height) = [] ↔
              ∀ msg ∈ x.run, ∀ request ∈ pollRequestsOfMessage cx msg,
                params.get? (cx.toLowercase request.chain) = none := by
            simp only [List.flatMap_eq_nil_iff, createdBy_eq_nil]
          constructor
          · intro heq
            simp only [if_true, Option.some.injEq, Except.ok.injEq, RawBlockData.mk.injEq,
              List.append_cancel_left_eq, List.self_eq_append_left, and_true] at heq
            intro msg hmsg
            exact ⟨List.all_eq_true.mp hrun msg hmsg, hcreated.mp heq msg hmsg⟩
          · intro h
            rw [hcreated.mpr fun msg hmsg => (h msg hmsg).2]
            rfl

namespace Sample

def confirm : Any := ⟨"/axelar.evm.v1beta1.ConfirmGatewayTxRequest", confirmBytes⟩

def batchBytes : Bytes :=
  field 18 (field 10 (ascii "/axelar.evm.v1beta1.ConfirmGatewayTxRequest") ++
    field 18 confirmBytes)

def batchTxBytes : Bytes :=
  field 10 (field 10 (field 10 (ascii "/axelar.auxiliary.v1beta1.BatchRequest") ++
    field 18 batchBytes))

def batchTxText : String :=
  "CmUKYwomL2F4ZWxhci5hdXhpbGlhcnkudjFiZXRhMS5CYXRjaFJlcXVlc3QSORI3CisvYXhlbGFyLmV2bS52MWJl" ++
    "dGExLkNvbmZpcm1HYXRld2F5VHhSZXF1ZXN0EggSA2V0aBoBAQ=="

def batchCodecs : Codecs :=
  { codecs with
    base64Decode := fun s => if s = batchTxText then some batchTxBytes else codecs.base64Decode s
    decodeTx := fun b =>
      if b = batchTxBytes then
        some ⟨some ⟨[⟨"/axelar.auxiliary.v1beta1.BatchRequest", batchBytes⟩]⟩⟩
      else codecs.decodeTx b
    decodeBatchRequest := fun b => if b = batchBytes then some ⟨[confirm]⟩ else none }

def batching : Batching batchCodecs where
  header := ⟨"5"⟩
  front := []
  back := []
  plain := confirmTxText
  batched := batchTxText
  before := []
  run := [confirm]
  after := []
  batch := ⟨"/axelar.auxiliary.v1beta1.BatchRequest", batchBytes⟩
  plain_body := by decide +kernel
  batched_body := by decide +kernel
  is_batch := by decide
  decodes := by decide +kernel
  flat := by decide

end Sample

/-- The plain block asks for a poll on a known chain, the batched one does not. -/
theorem batch_hides_request :
    (∃ data, processBlock Sample.batchCodecs Sample.batching.plainBlock
        (configChainParams Sample.batchCodecs Sample.config) 5 = some (.ok data) ∧
      data.pollCreations = [⟨.gatewayTx, "eth", "01", 7⟩]) ∧
      processBlock Sample.batchCodecs Sample.batching.batchedBlock
          (configChainParams Sample.batchCodecs Sample.config) 5 = some (.ok ⟨[], []⟩) ∧
      processBlock Sample.batchCodecs Sample.batching.batchedBlock
          (configChainParams Sample.batchCodecs Sample.config) 5 ≠
        processBlock Sample.batchCodecs Sample.batching.plainBlock
          (configChainParams Sample.batchCodecs Sample.config) 5 := by
  have hplain : processBlock Sample.batchCodecs Sample.batching.plainBlock
      (configChainParams Sample.batchCodecs Sample.config) 5 =
        some (.ok ⟨[⟨.gatewayTx, "eth", "01", 7⟩], []⟩) := by
    decide +kernel
  have hbatched : processBlock Sample.batchCodecs Sample.batching.batchedBlock
      (configChainParams Sample.batchCodecs Sample.config) 5 = some (.ok ⟨[], []⟩) := by
    decide +kernel
  refine ⟨⟨_, hplain, rfl⟩, hbatched, ?_⟩
  rw [hplain, hbatched]
  simp

namespace Sample

def batchedVoteBytes : Bytes :=
  field 18 (field 10 (ascii "/axelar.reward.v1beta1.RefundMsgRequest") ++
    field 18 (refundBytes eth))

def batchedVoteTxBytes : Bytes :=
  field 10 (field 10 (field 10 (ascii "/axelar.auxiliary.v1beta1.BatchRequest") ++
    field 18 batchedVoteBytes))

def batchedVoteTxText : String :=
  "CuMBCuABCiYvYXhlbGFyLmF1eGlsaWFyeS52MWJldGExLkJhdGNoUmVxdWVzdBK1ARKyAQonL2F4ZWxhci5yZXdh" ++
    "cmQudjFiZXRhMS5SZWZ1bmRNc2dSZXF1ZXN0EoYBEoMBCiAvYXhlbGFyLnZvdGUudjFiZXRhMS5Wb3RlUmVx" ++
    "dWVzdBJfIAEqLAoeL2F4ZWxhci5ldm0udjFiZXRhMS5Wb3RlRXZlbnRzEgoKA2V0aBIDEgEBMi1heGVsYXIx" ++
    "aDZmanVtMGZseWpwem0wajRscWM5OWd4NGp6bmo0aHI4eWowZzU="

def batchedVoteCodecs : Codecs :=
  { codecs with
    base64Decode := fun s =>
      if s = batchedVoteTxText then some batchedVoteTxBytes else codecs.base64Decode s
    decodeTx := fun b =>
      if b = batchedVoteTxBytes then
        some ⟨some ⟨[⟨"/axelar.auxiliary.v1beta1.BatchRequest", batchedVoteBytes⟩]⟩⟩
      else codecs.decodeTx b
    decodeBatchRequest := fun b =>
      if b = batchedVoteBytes then
        some ⟨[⟨"/axelar.reward.v1beta1.RefundMsgRequest", refundBytes eth⟩]⟩
      else none }

/-- The vote of block 6, plain and in a batch. -/
def voteBatching : Batching batchedVoteCodecs where
  header := ⟨"6"⟩
  front := []
  back := []
  plain := ethVote
  batched := batchedVoteTxText
  before := []
  run := [⟨"/axelar.reward.v1beta1.RefundMsgRequest", refundBytes eth⟩]
  after := []
  batch := ⟨"/axelar.auxiliary.v1beta1.BatchRequest", batchedVoteBytes⟩
  plain_body := by decide +kernel
  batched_body := by decide +kernel
  is_batch := by decide
  decodes := by decide +kernel
  flat := by decide

end Sample

/-- A vote is counted inside a batch as it is outside. -/
theorem batched_vote_counts :
    processBlock Sample.batchedVoteCodecs Sample.voteBatching.batchedBlock
        (configChainParams Sample.batchedVoteCodecs Sample.config) 6 =
      processBlock Sample.batchedVoteCodecs Sample.voteBatching.plainBlock
        (configChainParams Sample.batchedVoteCodecs Sample.config) 6 ∧
      processBlock Sample.batchedVoteCodecs Sample.voteBatching.batchedBlock
          (configChainParams Sample.batchedVoteCodecs Sample.config) 6 =
        some (.ok ⟨[],
          [⟨1, "eth", "01", "be932e6de9f924116df2afc1829506ac853956e3", none⟩]⟩) := by
  have hvote : ∀ msg ∈ Sample.voteBatching.run,
      confirmDecodes Sample.batchedVoteCodecs msg = true ∧
        pollRequestsOfMessage Sample.batchedVoteCodecs msg = [] := by
    decide +kernel
  constructor
  · apply (batching_iff Sample.voteBatching _ 6).mpr
    refine Or.inl (fun msg hmsg => ?_)
    obtain ⟨hdecodes, hnone⟩ := hvote msg hmsg
    exact ⟨hdecodes, by simp [hnone]⟩
  · decide +kernel

end AxelarMonitor
