import AxelarMonitor.Lib.TextCodecs
import AxelarMonitor.System

/-!
Block results with base64 attributes and with plain ones. The three attribute
keys that matter are told apart in either form, and the values under them are
arrays or objects, whose brackets no base64 text has.
-/

namespace AxelarMonitor

def base64Text (bytes : Bytes) : String := String.ofList (Base64.encode bytes)

def base64Of (text : String) : String := base64Text (Utf8.bytes text)

def EventAttribute.toBase64 (attr : EventAttribute) : EventAttribute :=
  ⟨base64Of attr.key, attr.value.map base64Of⟩

def TendermintEvent.toBase64 (event : TendermintEvent) : TendermintEvent :=
  { event with attributes := event.attributes.map EventAttribute.toBase64 }

def TxResult.toBase64 (result : TxResult) : TxResult :=
  ⟨result.events.map (List.map TendermintEvent.toBase64)⟩

def BlockResults.toBase64 (results : BlockResults) : BlockResults :=
  ⟨results.txsResults.map (List.map TxResult.toBase64)⟩

/-- After blanks the text opens with a bracket, as JSON arrays and objects do. -/
def OpensBracket (text : String) : Prop :=
  (text.toList.dropWhile (fun c => c ∈ [' ', '\t', '\n', '\r'])).head? ∈ [some '[', some '{']

instance (text : String) : Decidable (OpensBracket text) :=
  inferInstanceAs (Decidable (_ ∈ [some '[', some '{']))

/-- Base64 and UTF-8 as the standard has them. Bytes and poll mappings are read
from arrays, participants from an object or the array of its fields. -/
structure StandardCodecs (cx : Codecs) : Prop where
  base64 : ∀ text bytes, cx.base64Decode text = some bytes ↔ text = base64Text bytes
  utf8 : ∀ bytes text, cx.fromUtf8 bytes = some text ↔ bytes = Utf8.bytes text
  bytes : ∀ text x, cx.jsonBytes text = some x → OpensBracket text
  pollMappings : ∀ text x, cx.jsonPollMappings text = some x → OpensBracket text
  pollParticipants : ∀ text x, cx.jsonPollParticipants text = some x → OpensBracket text

def pollKeys : List String := ["tx_id", "participants", "poll_mappings"]

/-- The key is not the base64 form of a key that matters, and a value under such
a key is an array or an object. -/
structure EventAttribute.Plain (attr : EventAttribute) : Prop where
  key : ∀ name ∈ pollKeys, attr.key ≠ base64Of name
  value : attr.key ∈ pollKeys → ∀ value ∈ attr.value, OpensBracket value

def BlockResults.attributes (results : BlockResults) : List EventAttribute :=
  (results.txsResults.getD []).flatMap (fun result =>
    (result.events.getD []).flatMap TendermintEvent.attributes)

theorem mem_of_opensBracket {text : String} (h : OpensBracket text) :
    ∃ c ∈ text.toList, c = '[' ∨ c = '{' := by
  simp only [OpensBracket, List.mem_cons, List.not_mem_nil, or_false] at h
  rcases h with h | h
  · exact ⟨_, (List.dropWhile_suffix _).subset (List.mem_of_head? h), .inl rfl⟩
  · exact ⟨_, (List.dropWhile_suffix _).subset (List.mem_of_head? h), .inr rfl⟩

/-- No base64 text opens with a bracket. -/
theorem not_opensBracket_base64Text (bytes : Bytes) : ¬ OpensBracket (base64Text bytes) := by
  intro h
  obtain ⟨c, hc, hbracket⟩ := mem_of_opensBracket h
  rw [base64Text, String.toList_ofList] at hc
  have hchar := Base64.mem_encode c hc
  rcases hbracket with rfl | rfl
  · exact absurd hchar (by decide +kernel)
  · exact absurd hchar (by decide +kernel)

theorem readAttribute_other {cx : Codecs} {attr : EventAttribute}
    (htx : decodeAttributeKey cx attr ≠ "tx_id")
    (hpart : decodeAttributeKey cx attr ≠ "participants") (found : Option Bytes × Option Nat) :
    readAttribute cx found attr = found := by
  unfold readAttribute
  split
  · exact absurd ‹_› htx
  · exact absurd ‹_› hpart
  · rfl

section Reading

variable {cx : Codecs} (hcx : StandardCodecs cx)

include hcx

theorem decodeAttributeKey_toBase64 (attr : EventAttribute) :
    decodeAttributeKey cx attr.toBase64 = attr.key := by
  have hbytes : cx.base64Decode attr.toBase64.key = some (Utf8.bytes attr.key) :=
    (hcx.base64 _ _).mpr rfl
  have htext : cx.fromUtf8 (Utf8.bytes attr.key) = some attr.key := (hcx.utf8 _ _).mpr rfl
  rw [decodeAttributeKey, hbytes, Option.bind_some, htext, Option.getD_some]

/-- A key that matters is read as itself: two of them have an underscore, and
`participants` is base64 for bytes that are not UTF-8. -/
theorem pollKeys_undecodable {name : String} (h : name ∈ pollKeys) :
    (cx.base64Decode name).bind cx.fromUtf8 = none := by
  have hunderscore (name : String) (hname : '_' ∈ name.toList) : cx.base64Decode name = none := by
    rw [Option.eq_none_iff_forall_ne_some]
    intro bytes hbytes
    rw [(hcx.base64 _ _).mp hbytes, base64Text, String.toList_ofList] at hname
    exact absurd (Base64.mem_encode _ hname) (by decide +kernel)
  simp only [pollKeys, List.mem_cons, List.not_mem_nil, or_false] at h
  rcases h with rfl | rfl | rfl
  · rw [hunderscore _ (by decide), Option.bind_none]
  · have hbytes : cx.base64Decode "participants" =
        some [165, 170, 237, 137, 200, 169, 106, 123, 108] :=
      (hcx.base64 _ _).mpr (by decide +kernel)
    rw [hbytes, Option.bind_some, Option.eq_none_iff_forall_ne_some]
    intro text htext
    exact absurd (Utf8.isFirstByte_of_bytes ((hcx.utf8 _ _).mp htext).symm) (by decide)
  · rw [hunderscore _ (by decide), Option.bind_none]

/-- Of a plain attribute, a key that matters is read exactly where it stands. -/
theorem decodeAttributeKey_plain {attr : EventAttribute} (h : attr.Plain) (name : String)
    (hname : name ∈ pollKeys) : decodeAttributeKey cx attr = name ↔ attr.key = name := by
  constructor
  · intro hread
    cases hdecoded : (cx.base64Decode attr.key).bind cx.fromUtf8 with
    | none => rwa [decodeAttributeKey, hdecoded, Option.getD_none] at hread
    | some text =>
        obtain ⟨bytes, hbytes, htext⟩ := Option.bind_eq_some_iff.mp hdecoded
        rw [decodeAttributeKey, hdecoded, Option.getD_some] at hread
        rw [hcx.base64, (hcx.utf8 _ _).mp htext, hread] at hbytes
        exact absurd hbytes (h.key name hname)
  · rintro rfl
    rw [decodeAttributeKey, pollKeys_undecodable hcx hname, Option.getD_none]

variable {α : Type}

theorem decodeAttributeValue_toBase64 {fromStr : String → Option α}
    (hreader : ∀ text x, fromStr text = some x → OpensBracket text) (attr : EventAttribute) :
    decodeAttributeValue cx fromStr attr.toBase64 = attr.value.bind fromStr := by
  unfold decodeAttributeValue EventAttribute.toBase64
  cases attr.value with
  | none => rfl
  | some value =>
      have hbytes : cx.base64Decode (base64Of value) = some (Utf8.bytes value) :=
        (hcx.base64 _ _).mpr rfl
      have htext : cx.fromUtf8 (Utf8.bytes value) = some value := (hcx.utf8 _ _).mpr rfl
      simp only [Option.map_some, hbytes, Option.bind_some, htext]
      cases hvalue : fromStr value with
      | some x => rfl
      | none =>
          -- The fallback reads the base64 text itself.
          rw [Option.eq_none_iff_forall_ne_some]
          exact fun x hx => not_opensBracket_base64Text _ (hreader _ x hx)

theorem decodeAttributeValue_plain (fromStr : String → Option α) {attr : EventAttribute}
    (h : ∀ value ∈ attr.value, OpensBracket value) :
    decodeAttributeValue cx fromStr attr = attr.value.bind fromStr := by
  unfold decodeAttributeValue
  cases hvalue : attr.value with
  | none => rfl
  | some value =>
      have hnone : cx.base64Decode value = none := by
        rw [Option.eq_none_iff_forall_ne_some]
        intro bytes hbytes
        rw [hcx.base64] at hbytes
        exact not_opensBracket_base64Text bytes (hbytes ▸ h value hvalue)
      simp [hnone]

theorem readAttribute_toBase64 {attr : EventAttribute} (h : attr.Plain)
    (found : Option Bytes × Option Nat) :
    readAttribute cx found attr.toBase64 = readAttribute cx found attr := by
  have hread := decodeAttributeKey_toBase64 hcx attr
  have htx := decodeAttributeKey_plain hcx h "tx_id" (by decide)
  have hpart := decodeAttributeKey_plain hcx h "participants" (by decide)
  by_cases htxId : attr.key = "tx_id"
  · have hvalue := decodeAttributeValue_plain hcx cx.jsonBytes
      (h.value (by simp [htxId, pollKeys]))
    simp only [readAttribute, hread, htx.mpr htxId, htxId, hvalue,
      decodeAttributeValue_toBase64 hcx hcx.bytes]
  · by_cases hparticipants : attr.key = "participants"
    · have hvalue := decodeAttributeValue_plain hcx cx.jsonPollParticipants
        (h.value (by simp [hparticipants, pollKeys]))
      simp only [readAttribute, hread, hpart.mpr hparticipants, hparticipants, hvalue,
        decodeAttributeValue_toBase64 hcx hcx.pollParticipants]
    · rw [readAttribute_other (hread ▸ htxId) (hread ▸ hparticipants),
        readAttribute_other (mt htx.mp htxId) (mt hpart.mp hparticipants)]

theorem extractPollMappings_toBase64 {event : TendermintEvent}
    (h : ∀ attr ∈ event.attributes, attr.Plain) :
    extractPollMappingsFromJson cx event.toBase64 = extractPollMappingsFromJson cx event := by
  unfold extractPollMappingsFromJson TendermintEvent.toBase64
  rw [List.flatMap_map]
  refine List.flatMap_congr (fun attr hattr => ?_)
  have hplain := h attr hattr
  have hkey := decodeAttributeKey_plain hcx hplain "poll_mappings" (by decide)
  rw [decodeAttributeKey_toBase64 hcx]
  by_cases hmappings : attr.key = "poll_mappings"
  · rw [if_pos hmappings, if_pos (hkey.mpr hmappings),
      decodeAttributeValue_toBase64 hcx hcx.pollMappings,
      decodeAttributeValue_plain hcx _ (hplain.value (by simp [hmappings, pollKeys]))]
  · rw [if_neg hmappings, if_neg (mt hkey.mp hmappings)]

theorem pollEventsOfEvent_toBase64 {event : TendermintEvent}
    (h : ∀ attr ∈ event.attributes, attr.Plain) :
    pollEventsOfEvent cx event.toBase64 = pollEventsOfEvent cx event := by
  have hattributes (kind : PollKind) : extractPollEventFromAttributes cx event.toBase64 kind =
      extractPollEventFromAttributes cx event kind := by
    unfold extractPollEventFromAttributes TendermintEvent.toBase64
    rw [List.foldl_map, List.foldl_ext _ _ _ (fun found attr hattr =>
      readAttribute_toBase64 hcx (h attr hattr) found)]
  have htype : event.toBase64.type = event.type := rfl
  simp only [pollEventsOfEvent, hattributes, extractPollMappings_toBase64 hcx h, htype]

end Reading

/-- Plain and base64 block results have the same poll events. -/
theorem encodings_agree {cx : Codecs} (hcx : StandardCodecs cx) (results : BlockResults)
    (hplain : ∀ attr ∈ results.attributes, attr.Plain) :
    extractAllPollEvents cx results.toBase64 = extractAllPollEvents cx results := by
  obtain ⟨txsResults⟩ := results
  cases txsResults with
  | none => rfl
  | some txsResults =>
      simp only [extractAllPollEvents, BlockResults.toBase64, Option.map_some, List.flatMap_map]
      refine List.flatMap_congr (fun result hresult => ?_)
      cases hevents : result.events with
      | none => simp [TxResult.toBase64, hevents]
      | some events =>
          simp only [TxResult.toBase64, hevents, Option.map_some, List.flatMap_map]
          refine List.flatMap_congr (fun event hevent => ?_)
          refine pollEventsOfEvent_toBase64 hcx (fun attr hattr => hplain attr ?_)
          refine List.mem_flatMap.mpr ⟨result, hresult, List.mem_flatMap.mpr ⟨event, ?_, hattr⟩⟩
          rwa [hevents]

namespace Sample

/-- A transaction in an event of its own and one in a list of mappings. -/
def bothShapes : BlockResults :=
  ⟨some [⟨some [⟨"axelar.evm.v1beta1.ConfirmGatewayTxStarted",
      [⟨"tx_id", some "[1]"⟩, ⟨"participants", some "\x7b\"poll_id\":\"1\"\x7d"⟩]⟩]⟩,
    ⟨some [⟨"axelar.evm.v1beta1.ConfirmGatewayTxsStarted",
      [⟨"poll_mappings", some "[\x7b\"tx_id\":[2],\"poll_id\":\"2\"\x7d]"⟩]⟩]⟩]⟩

def textCodecs : Codecs :=
  { codecs with
    base64Decode := fun s => Base64.decode s.toList
    fromUtf8 := Utf8.decode
    jsonPollMappings := fun s =>
      if s = "[\x7b\"tx_id\":[2],\"poll_id\":\"2\"\x7d]" then some [⟨[2], "2"⟩] else none }

theorem textCodecs_standard : StandardCodecs textCodecs where
  base64 := by
    intro text bytes
    rw [← String.toList_inj, base64Text, String.toList_ofList]
    exact Base64.decode_eq_some_iff
  utf8 _ _ := Utf8.decode_eq_some_iff
  bytes := by
    intro text x h
    simp only [textCodecs, codecs] at h
    split_ifs at h with htext
    subst htext
    decide +kernel
  pollMappings := by
    intro text x h
    simp only [textCodecs] at h
    split_ifs at h with htext
    subst htext
    decide +kernel
  pollParticipants := by
    intro text x h
    simp only [textCodecs, codecs] at h
    split_ifs at h with htext
    subst htext
    decide +kernel

end Sample

theorem encodings_agree_on_both_shapes :
    extractAllPollEvents Sample.textCodecs Sample.bothShapes.toBase64 =
        extractAllPollEvents Sample.textCodecs Sample.bothShapes ∧
      extractAllPollEvents Sample.textCodecs Sample.bothShapes =
        [⟨.gatewayTx, [1], 1⟩, ⟨.gatewayTx, [2], 2⟩] := by
  have hkeys : ∀ attr ∈ Sample.bothShapes.attributes, ∀ name ∈ pollKeys,
      attr.key ≠ base64Of name := by
    decide +kernel
  have hvalues : ∀ attr ∈ Sample.bothShapes.attributes, ∀ value ∈ attr.value,
      OpensBracket value := by
    decide +kernel
  have hplain : ∀ attr ∈ Sample.bothShapes.attributes, attr.Plain :=
    fun attr hattr => ⟨hkeys attr hattr, fun _ => hvalues attr hattr⟩
  exact ⟨encodings_agree Sample.textCodecs_standard Sample.bothShapes hplain, by decide +kernel⟩

end AxelarMonitor
