import AxelarMonitor.Handlers

/-!
Expiry heights from the texts of the chain parameters to the polls. The chain
keeps both periods as 64-bit integers, the monitor as 16-bit ones.
-/

namespace AxelarMonitor

variable {cx : Codecs}

/-- The number whose decimal digits are those of `acc` followed by `cs`. -/
def decimalValue (acc : Nat) (cs : List Char) : Nat :=
  cs.foldl (fun acc c => acc * 10 + (c.toNat - '0'.toNat)) acc

theorem le_decimalValue (acc : Nat) (cs : List Char) : acc ≤ decimalValue acc cs := by
  induction cs generalizing acc with
  | nil => exact Nat.le_refl acc
  | cons c rest ih =>
      have hrest := ih (acc * 10 + (c.toNat - '0'.toNat))
      simp only [decimalValue, List.foldl_cons] at hrest ⊢
      omega

/-- Reading digits succeeds exactly when the whole number is below the bound. -/
theorem parseDigits_eq {bound acc : Nat} (hacc : acc < bound) {cs : List Char}
    (hdigits : ∀ c ∈ cs, c.isDigit = true) :
    parseDigits bound acc cs =
      if decimalValue acc cs < bound then .ok (decimalValue acc cs)
      else .error "number too large to fit in target type" := by
  induction cs generalizing acc with
  | nil => simp [parseDigits, decimalValue, hacc]
  | cons c rest ih =>
      have hvalue : decimalValue acc (c :: rest) =
          decimalValue (acc * 10 + (c.toNat - '0'.toNat)) rest := rfl
      rw [parseDigits, if_pos (hdigits c List.mem_cons_self), hvalue]
      dsimp only
      split_ifs with hnext hall
      · rw [ih hnext (fun d hd => hdigits d (List.mem_cons_of_mem _ hd)), if_pos hall]
      · rw [ih hnext (fun d hd => hdigits d (List.mem_cons_of_mem _ hd)), if_neg hall]
      · have := le_decimalValue (acc * 10 + (c.toNat - '0'.toNat)) rest
        omega
      · rfl

/-- `text` is the decimal text of the non-negative 64-bit integer `n`. -/
structure IsInt64Text (text : String) (n : Nat) : Prop where
  nonempty : text.toList ≠ []
  digits : ∀ c ∈ text.toList, c.isDigit = true
  value : decimalValue 0 text.toList = n
  bounded : n < 2 ^ 63

theorem IsInt64Text.parseUnsigned_eq {text : String} {n : Nat} (h : IsInt64Text text n)
    {bound : Nat} (hbound : 0 < bound) :
    parseUnsigned bound text =
      if n < bound then .ok n else .error "number too large to fit in target type" := by
  rw [← h.value, ← parseDigits_eq hbound h.digits]
  unfold parseUnsigned
  split
  · next hnil => exact absurd hnil h.nonempty
  · next c rest hplus =>
      have hdigit := h.digits '+' (hplus ▸ List.mem_cons_self)
      exact absurd hdigit (by decide)
  · rfl

theorem IsInt64Text.parseU16_eq {text : String} {n : Nat} (h : IsInt64Text text n) :
    parseU16 text = if n < 2 ^ 16 then .ok (UInt16.ofNat n)
      else .error "number too large to fit in target type" := by
  rw [parseU16, h.parseUnsigned_eq (by omega)]
  split_ifs <;> rfl

/-- Both periods must fit in 16 bits, or the conversion panics. -/
theorem ChainParamsJson.into_eq {name revote grace : String} {R G : Nat}
    (hR : IsInt64Text revote R) (hG : IsInt64Text grace G) :
    ChainParamsJson.into ⟨name, revote, grace⟩ =
      if R < 2 ^ 16 ∧ G < 2 ^ 16 then some ⟨name, UInt16.ofNat R, UInt16.ofNat G⟩ else none := by
  simp only [ChainParamsJson.into, hR.parseU16_eq, hG.parseU16_eq]
  by_cases hrevote : R < 2 ^ 16
  · by_cases hgrace : G < 2 ^ 16
    · rw [if_pos hrevote, if_pos hgrace, if_pos ⟨hrevote, hgrace⟩]
    · rw [if_pos hrevote, if_neg hgrace, if_neg (fun h => hgrace h.2)]
  · rw [if_neg hrevote, if_neg (fun h : R < 2 ^ 16 ∧ G < 2 ^ 16 => hrevote h.1)]

/-- Parameters stay in force until others arrive under the same name. -/
theorem chainParams_kept {config : Config} {name : String} {p : ChainParams}
    {msgs : List IoResult} {st st' : ProcessingState}
    (hrun : processMessages cx config msgs st = some st')
    (hothers : ∀ q, .chainParams q ∈ msgs → cx.toLowercase q.name ≠ name)
    (hget : st.chainParams.get? name = some p) : st'.chainParams.get? name = some p := by
  induction msgs generalizing st with
  | nil =>
      obtain rfl := Option.some.inj hrun
      exact hget
  | cons msg rest ih =>
      obtain ⟨mid, out, hstep, hrest⟩ := processMessages_cons cx hrun
      refine ih hrest (fun q hq => hothers q (List.mem_cons_of_mem _ hq)) ?_
      by_cases hparams : ∃ q, msg = .chainParams q
      · obtain ⟨q, rfl⟩ := hparams
        rw [hstep.chainParams_insert, OrderedMap.get?_insert_ne _ _
          (hothers q List.mem_cons_self).symm]
        exact hget
      · rw [hstep.chainParams_eq (fun q hq => hparams ⟨q, hq⟩)]
        exact hget

/-- The expiry of a creation on a chain with parameters `p`. -/
theorem expiry_of_creation {params : OrderedMap String ChainParams} {height : Nat} {b : Block}
    {data : RawBlockData} (hdata : processBlock cx b params height = some (.ok data))
    {c : PollData} (hc : c ∈ data.pollCreations) {p : ChainParams}
    (hp : params.get? (cx.toLowercase c.chain) = some p) :
    c.expiryHeight =
      u64Add (u64Add height p.revoteLockingPeriod.toNat) p.votingGracePeriod.toNat := by
  obtain ⟨requests, -, hcreations⟩ := ReadsAs.creations_eq cx hdata
  rw [hcreations] at hc
  obtain ⟨request, -, hcreate⟩ := List.mem_filterMap.mp hc
  obtain ⟨q, hq, rfl⟩ := Option.map_eq_some_iff.mp hcreate
  obtain rfl := Option.some.inj (hq.symm.trans hp)
  rfl

/-- From the fetch of the parameters on, every poll on the chain expires exactly
its two periods after its block. -/
def ExpiresExactly (cx : Codecs) (http : Http) (rpcUrl lcdUrl chain name : String)
    (R G : Nat) : Prop :=
  ∃ p, processSingleIoCommand cx http (.fetchChainParams chain) rpcUrl lcdUrl =
      some [.chainParams p] ∧
    ∀ config st msgs st', processMessages cx config (.chainParams p :: msgs) st = some st' →
      (∀ q, .chainParams q ∈ msgs → cx.toLowercase q.name ≠ cx.toLowercase name) →
      ∀ height b data, height + R + G < 2 ^ 64 →
        processBlock cx b st'.chainParams height = some (.ok data) →
          ∀ c ∈ data.pollCreations, cx.toLowercase c.chain = cx.toLowercase name →
            c.expiryHeight = height + R + G

/-- Expiry heights are exact if and only if both periods fit in 16 bits; the IO
thread panics on any other response. -/
theorem expires_exactly_iff {http : Http} {rpcUrl lcdUrl chain name revote grace : String}
    {R G : Nat} (hR : IsInt64Text revote R) (hG : IsInt64Text grace G)
    (hfetch : getChainParams cx http rpcUrl chain = .ok ⟨name, revote, grace⟩) :
    ExpiresExactly cx http rpcUrl lcdUrl chain name R G ↔ R < 2 ^ 16 ∧ G < 2 ^ 16 := by
  have hexec : processSingleIoCommand cx http (.fetchChainParams chain) rpcUrl lcdUrl =
      (if R < 2 ^ 16 ∧ G < 2 ^ 16 then some (⟨name, UInt16.ofNat R, UInt16.ofNat G⟩ : ChainParams)
        else none).map (fun p => [.chainParams p]) := by
    rw [← ChainParamsJson.into_eq hR hG, processSingleIoCommand, hfetch]
  constructor
  · rintro ⟨p, hp, -⟩
    rw [hexec] at hp
    split_ifs at hp with hfits
    · exact hfits
    · cases hp
  · intro hfits
    refine ⟨⟨name, UInt16.ofNat R, UInt16.ofNat G⟩, ?_, ?_⟩
    · rw [hexec, if_pos hfits]
      rfl
    · intro config st msgs st' hrun hothers height b data hsum hdata c hc hchain
      obtain ⟨mid, out, hstep, hrest⟩ := processMessages_cons cx hrun
      have hmid : mid.chainParams.get? (cx.toLowercase name) =
          some ⟨name, UInt16.ofNat R, UInt16.ofNat G⟩ := by
        rw [hstep.chainParams_insert]
        exact OrderedMap.get?_insert_self _ _ _
      have hforce := chainParams_kept hrest hothers hmid
      rw [expiry_of_creation hdata hc (hchain ▸ hforce)]
      have hrevote : (UInt16.ofNat R).toNat = R := UInt16.toNat_ofNat_of_lt' hfits.1
      have hgrace : (UInt16.ofNat G).toNat = G := UInt16.toNat_ofNat_of_lt' hfits.2
      simp only [hrevote, hgrace, u64Add]
      rw [Nat.mod_eq_of_lt (by omega), Nat.mod_eq_of_lt (by omega)]

theorem expires_after_one_and_one :
    ExpiresExactly Sample.codecs (fun _ => .ok Sample.chainParamsJson) Sample.config.rpcUrl
      Sample.config.lcdUrl "eth" "eth" 1 1 := by
  have hone : IsInt64Text "1" 1 :=
    ⟨by decide +kernel, List.all_eq_true.mp (by decide +kernel), by decide +kernel, by omega⟩
  have hfetch : getChainParams Sample.codecs (fun _ => .ok Sample.chainParamsJson)
      Sample.config.rpcUrl "eth" = .ok ⟨"eth", "1", "1"⟩ := by
    decide +kernel
  exact (expires_exactly_iff hone hone hfetch).mpr ⟨by omega, by omega⟩

namespace Sample

/-- A locking period of one more than 16 bits can hold. -/
def longPeriodJson : String :=
  "\x7b\"params\":\x7b\"chain\":\"eth\",\"revote_locking_period\":\"65536\"," ++
    "\"voting_grace_period\":\"1\"\x7d\x7d"

def longPeriodCodecs : Codecs :=
  { codecs with
    jsonChainParamsResponse := fun s =>
      if s = longPeriodJson then .ok ⟨⟨"eth", "65536", "1"⟩⟩ else codecs.jsonChainParamsResponse s }

end Sample

theorem long_period_panics :
    getChainParams Sample.longPeriodCodecs (fun _ => .ok Sample.longPeriodJson)
        Sample.config.rpcUrl "eth" = .ok ⟨"eth", "65536", "1"⟩ ∧
      IsInt64Text "65536" 65536 ∧ IsInt64Text "1" 1 ∧
      processSingleIoCommand Sample.longPeriodCodecs (fun _ => .ok Sample.longPeriodJson)
        (.fetchChainParams "eth") Sample.config.rpcUrl Sample.config.lcdUrl = none ∧
      ¬ ExpiresExactly Sample.longPeriodCodecs (fun _ => .ok Sample.longPeriodJson)
        Sample.config.rpcUrl Sample.config.lcdUrl "eth" "eth" 65536 1 := by
  have hpanics : processSingleIoCommand Sample.longPeriodCodecs
      (fun _ => .ok Sample.longPeriodJson) (.fetchChainParams "eth") Sample.config.rpcUrl
        Sample.config.lcdUrl = none := by
    decide +kernel
  have hlong : IsInt64Text "65536" 65536 :=
    ⟨by decide +kernel, List.all_eq_true.mp (by decide +kernel), by decide +kernel, by omega⟩
  have hone : IsInt64Text "1" 1 :=
    ⟨by decide +kernel, List.all_eq_true.mp (by decide +kernel), by decide +kernel, by omega⟩
  refine ⟨by decide +kernel, hlong, hone, hpanics, ?_⟩
  rintro ⟨p, hp, -⟩
  rw [hpanics] at hp
  cases hp

end AxelarMonitor
