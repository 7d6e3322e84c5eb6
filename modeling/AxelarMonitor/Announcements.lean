import AxelarMonitor.EventEncodings
import AxelarMonitor.Texts
import Mathlib.Data.List.ReduceOption

/-!
How the chain announces polls and how the monitor reads them back. An
announcement is an event whose attributes come in any order, each plain or in
base64, among others that do not matter; a block's results hold such events
among events of other types.
-/

namespace AxelarMonitor

inductive Announcement where
  | one (kind : PollKind) (txId : Bytes) (pollId : Nat)
  | many (polls : List (Bytes × Nat))

def PollKind.startedType : PollKind → String
  | .gatewayTx => "axelar.evm.v1beta1.ConfirmGatewayTxStarted"
  | .deposit _ => "axelar.evm.v1beta1.ConfirmDepositStarted"
  | .transferKey => "axelar.evm.v1beta1.ConfirmKeyTransferStarted"
  | .token => "axelar.evm.v1beta1.ConfirmTokenStarted"

def manyStartedType : String := "axelar.evm.v1beta1.ConfirmGatewayTxsStarted"

/-- The kind as an event has it: the burner address of a deposit is not announced. -/
def PollKind.announced : PollKind → PollKind
  | .deposit _ => .deposit ""
  | kind => kind

def Announcement.pollEvents : Announcement → List PollEvent
  | .one kind txId pollId => [⟨kind.announced, txId, pollId⟩]
  | .many polls => polls.map (fun p => ⟨.gatewayTx, p.1, p.2⟩)

/-- An attribute with a text under a name, plain or in base64. -/
inductive Holds (name text : String) : EventAttribute → Prop
  | plain : Holds name text ⟨name, some text⟩
  | base64 : Holds name text ⟨base64Of name, some (base64Of text)⟩

def IdText (text : String) (pollId : Nat) : Prop := pollId < 2 ^ 64 ∧ DecimalText text pollId

section Announces

variable (cx : Codecs)

/-- What an event announces: one poll, the polls of several transactions, or
nothing. -/
inductive Carries : TendermintEvent → Option Announcement → Prop
  | one (event : TendermintEvent) (kind : PollKind) (txId : Bytes) (pollId : Nat)
      (txText idText partText : String) (tx part : EventAttribute) (others : List EventAttribute)
      (htype : event.type = kind.startedType)
      (htx : Holds "tx_id" txText tx) (htxText : cx.jsonBytes txText = some txId)
      (hpart : Holds "participants" partText part)
      (hpartText : cx.jsonPollParticipants partText = some ⟨idText⟩) (hid : IdText idText pollId)
      (hothers : ∀ a ∈ others, decodeAttributeKey cx a ≠ "tx_id" ∧
        decodeAttributeKey cx a ≠ "participants")
      (hattributes : event.attributes.Perm (tx :: part :: others)) :
      Carries event (some (.one kind txId pollId))
  | many (event : TendermintEvent) (polls : List (Bytes × Nat)) (text : String)
      (mappings : List PollMappingJson) (attr : EventAttribute) (others : List EventAttribute)
      (htype : event.type = manyStartedType) (hattr : Holds "poll_mappings" text attr)
      (htext : cx.jsonPollMappings text = some mappings)
      (hpolls : List.Forall₂ (fun m p => m.txId = p.1 ∧ IdText m.pollId p.2) mappings polls)
      (hothers : ∀ a ∈ others, decodeAttributeKey cx a ≠ "poll_mappings")
      (hattributes : event.attributes.Perm (attr :: others)) :
      Carries event (some (.many polls))
  | other (event : TendermintEvent) (hone : ∀ kind, event.type ≠ PollKind.startedType kind)
      (hmany : event.type ≠ manyStartedType) : Carries event none

inductive TxAnnounces : TxResult → List (Option Announcement) → Prop
  | none : TxAnnounces ⟨none⟩ []
  | some (events : List TendermintEvent) (announced : List (Option Announcement))
      (hevents : List.Forall₂ (Carries cx) events announced) :
      TxAnnounces ⟨some events⟩ announced

/-- What the transactions of a block announce, in order. -/
inductive Announces : BlockResults → List (List (Option Announcement)) → Prop
  | none : Announces ⟨none⟩ []
  | some (results : List TxResult) (announced : List (List (Option Announcement)))
      (hresults : List.Forall₂ (TxAnnounces cx) results announced) :
      Announces ⟨some results⟩ announced

end Announces

section Loops

variable (cx : Codecs)

/-- The values of the `tx_id` attributes; one that cannot be read clears the
value before it. -/
def txIdsRead (attrs : List EventAttribute) : List (Option Bytes) :=
  attrs.filterMap (fun attr =>
    if decodeAttributeKey cx attr = "tx_id" then some (decodeAttributeValue cx cx.jsonBytes attr)
    else none)

/-- The poll ids of the `participants` attributes that can be read. -/
def pollIdsRead (attrs : List EventAttribute) : List (Option Nat) :=
  attrs.filterMap (fun attr =>
    if decodeAttributeKey cx attr = "participants" then
      (decodeAttributeValue cx cx.jsonPollParticipants attr).map
        (fun json => (parseU64 json.pollId).toOption)
    else none)

def mappingsRead (attrs : List EventAttribute) : List (List PollMappingJson) :=
  attrs.filterMap (fun attr =>
    if decodeAttributeKey cx attr = "poll_mappings" then
      decodeAttributeValue cx cx.jsonPollMappings attr
    else none)

/-- Of each of the two keys the last attribute counts. -/
theorem readAttributes_eq (attrs : List EventAttribute) :
    attrs.foldl (readAttribute cx) (none, none) =
      ((txIdsRead cx attrs).getLast?.join, (pollIdsRead cx attrs).getLast?.join) := by
  induction attrs using List.reverseRecOn with
  | nil => rfl
  | append_singleton attrs attr ih =>
      rw [List.foldl_append, ih, List.foldl_cons, List.foldl_nil]
      unfold txIdsRead pollIdsRead
      rw [List.filterMap_append, List.filterMap_append]
      unfold readAttribute
      split
      · next htx => simp [htx]
      · next hpart =>
        cases hvalue : decodeAttributeValue cx cx.jsonPollParticipants attr with
        | none => simp [hpart, hvalue]
        | some json => simp [hpart, hvalue]
      · next htx hpart =>
        have htx' : decodeAttributeKey cx attr ≠ "tx_id" := htx
        have hpart' : decodeAttributeKey cx attr ≠ "participants" := hpart
        simp [htx', hpart']

theorem extractPollMappings_eq (event : TendermintEvent) :
    extractPollMappingsFromJson cx event =
      (mappingsRead cx event.attributes).flatMap (List.filterMap (fun m =>
        (parseU64 m.pollId).toOption.map (fun pollId => ⟨.gatewayTx, m.txId, pollId⟩))) := by
  unfold extractPollMappingsFromJson mappingsRead
  induction event.attributes with
  | nil => rfl
  | cons attr rest ih =>
      rw [List.flatMap_cons, List.filterMap_cons, ih]
      by_cases hkey : decodeAttributeKey cx attr = "poll_mappings"
      · rw [if_pos hkey, if_pos hkey]
        cases decodeAttributeValue cx cx.jsonPollMappings attr with
        | none => rfl
        | some mappings =>
            rw [List.flatMap_cons]
            congr 1
            apply List.filterMap_congr
            intro m _
            cases parseU64 m.pollId <;> rfl
      · rw [if_neg hkey, if_neg hkey]
        rfl

end Loops

section Reading

variable {cx : Codecs} (hcx : StandardCodecs cx)

include hcx

theorem Holds.key {name text : String} {attr : EventAttribute} (h : Holds name text attr)
    (hname : name ∈ pollKeys) : decodeAttributeKey cx attr = name := by
  cases h with
  | plain => rw [decodeAttributeKey, pollKeys_undecodable hcx hname, Option.getD_none]
  | base64 => exact decodeAttributeKey_toBase64 hcx ⟨name, some text⟩

theorem Holds.value {α : Type} {fromStr : String → Option α} {name text : String}
    {attr : EventAttribute} (h : Holds name text attr)
    (hreader : ∀ text x, fromStr text = some x → OpensBracket text) {x : α}
    (htext : fromStr text = some x) : decodeAttributeValue cx fromStr attr = some x := by
  cases h with
  | plain =>
      have hbracket : ∀ value ∈ some text, OpensBracket value := by
        intro value hvalue
        cases hvalue
        exact hreader _ _ htext
      exact (@decodeAttributeValue_plain cx hcx _ fromStr ⟨name, some text⟩ hbracket).trans htext
  | base64 =>
      exact (decodeAttributeValue_toBase64 hcx hreader ⟨name, some text⟩).trans htext

omit hcx in
theorem IdText.parse_eq {text : String} {pollId : Nat} (h : IdText text pollId) :
    (parseU64 text).toOption = some pollId := by
  rw [show parseU64 text = .ok pollId from (parseUnsigned_ok_iff (Nat.two_pow_pos 64)).mpr h]
  rfl

omit hcx in
/-- A reading that finds one attribute finds it wherever it stands. -/
theorem filterMap_eq_singleton {β : Type} {f : EventAttribute → Option β}
    {attrs others : List EventAttribute} {attr : EventAttribute} {x : β}
    (hperm : attrs.Perm (attr :: others)) (hattr : f attr = some x)
    (hothers : ∀ a ∈ others, f a = none) : attrs.filterMap f = [x] := by
  have hread := hperm.filterMap f
  rw [List.filterMap_cons_some hattr, List.filterMap_eq_nil_iff.mpr hothers] at hread
  exact List.perm_singleton.mp hread

theorem Carries.pollEvents_eq {event : TendermintEvent} {announced : Option Announcement}
    (h : Carries cx event announced) :
    pollEventsOfEvent cx event = announced.toList.flatMap Announcement.pollEvents := by
  cases h with
  | one kind txId pollId txText idText partText tx part others htype htx htxText hpart hpartText
      hid hothers hattributes =>
      have htxKey := htx.key hcx (by decide)
      have hpartKey := hpart.key hcx (by decide)
      have htxIds : txIdsRead cx event.attributes = [some txId] := by
        apply filterMap_eq_singleton hattributes
        · rw [if_pos htxKey, htx.value hcx hcx.bytes htxText]
        · intro a ha
          rcases List.mem_cons.mp ha with rfl | ha
          · rw [if_neg]
            rw [hpartKey]
            decide
          · exact if_neg (hothers a ha).1
      have hpollIds : pollIdsRead cx event.attributes = [some pollId] := by
        apply filterMap_eq_singleton (hattributes.trans (List.Perm.swap part tx others))
        · rw [if_pos hpartKey, hpart.value hcx hcx.pollParticipants hpartText, Option.map_some,
            hid.parse_eq]
        · intro a ha
          rcases List.mem_cons.mp ha with rfl | ha
          · rw [if_neg]
            rw [htxKey]
            decide
          · exact if_neg (hothers a ha).2
      have hevent (k : PollKind) :
          extractPollEventFromAttributes cx event k = some ⟨k, txId, pollId⟩ := by
        rw [extractPollEventFromAttributes, readAttributes_eq, htxIds, hpollIds]
        rfl
      unfold pollEventsOfEvent
      cases kind <;>
        simp [htype, hevent, PollKind.startedType, Announcement.pollEvents, PollKind.announced]
  | many polls text mappings attr others htype hattr htext hpolls hothers hattributes =>
      have hmappings : mappingsRead cx event.attributes = [mappings] := by
        apply filterMap_eq_singleton hattributes
        · rw [if_pos (hattr.key hcx (by decide)), hattr.value hcx hcx.pollMappings htext]
        · intro a ha
          exact if_neg (hothers a ha)
      have hevents : extractPollMappingsFromJson cx event =
          polls.map (fun p => ⟨.gatewayTx, p.1, p.2⟩) := by
        rw [extractPollMappings_eq, hmappings, List.flatMap_singleton]
        clear hmappings htext
        induction hpolls with
        | nil => rfl
        | cons hpoll _ ih =>
            obtain ⟨htxId, hid⟩ := hpoll
            rw [List.filterMap_cons_some (by rw [hid.parse_eq, Option.map_some]), ih, htxId]
            rfl
      unfold pollEventsOfEvent
      simp [htype, hevents, manyStartedType, Announcement.pollEvents]
  | other hone hmany =>
      have hmany' : event.type ≠ "axelar.evm.v1beta1.ConfirmGatewayTxsStarted" := hmany
      rw [pollEventsOfEvent, if_neg hmany', List.append_nil]
      split
      · exact absurd ‹_› (hone .gatewayTx)
      · exact absurd ‹_› (hone (.deposit ""))
      · exact absurd ‹_› (hone .transferKey)
      · exact absurd ‹_› (hone .token)
      · rfl

theorem flatMap_pollEvents {events : List TendermintEvent} {announced : List (Option Announcement)}
    (h : List.Forall₂ (Carries cx) events announced) :
    events.flatMap (pollEventsOfEvent cx) =
      announced.reduceOption.flatMap Announcement.pollEvents := by
  induction h with
  | nil => rfl
  | @cons event ann events announced hcarries _ ih =>
      rw [List.flatMap_cons, ih, hcarries.pollEvents_eq hcx]
      cases ann with
      | none => rfl
      | some ann => simp [List.reduceOption_cons_of_some]

end Reading

/-- Round trip: the poll events read from the results of a block are those of its
announcements, in order, whatever the encoding of each attribute, the order of
the attributes and what else the events contain. -/
theorem announcements_read_back {cx : Codecs} (hcx : StandardCodecs cx) {results : BlockResults}
    {announced : List (List (Option Announcement))} (h : Announces cx results announced) :
    extractAllPollEvents cx results =
      announced.flatten.reduceOption.flatMap Announcement.pollEvents := by
  cases h with
  | none => rfl
  | some txsResults announced hresults =>
      simp only [extractAllPollEvents]
      induction hresults with
      | nil => rfl
      | cons htx _ ih =>
          rw [List.flatMap_cons, ih, List.flatten_cons, List.reduceOption_append,
            List.flatMap_append]
          congr 1
          cases htx with
          | none => rfl
          | some events anns hevents => exact flatMap_pollEvents hcx hevents

namespace Sample

def announcingOne : TendermintEvent :=
  ⟨"axelar.evm.v1beta1.ConfirmGatewayTxStarted",
    [⟨"participants", some "\x7b\"poll_id\":\"1\"\x7d"⟩, ⟨"tx_id", some "[1]"⟩]⟩

def announcingMany : TendermintEvent :=
  ⟨"axelar.evm.v1beta1.ConfirmGatewayTxsStarted",
    [⟨base64Of "chain", none⟩,
      ⟨base64Of "poll_mappings",
        some (base64Of "[\x7b\"tx_id\":[2],\"poll_id\":\"2\"\x7d]")⟩]⟩

/-- A poll in plain attributes after an event of another type, a transaction without
events, and a list of polls in base64. -/
def announcing : BlockResults :=
  ⟨some [⟨some [⟨"message", [⟨"action", some "ConfirmGatewayTx"⟩]⟩, announcingOne]⟩, ⟨none⟩,
    ⟨some [announcingMany]⟩]⟩

theorem idText_toString {n : Nat} (h : n < 2 ^ 64) : IdText (toString n) n :=
  ⟨h, decimalText_toString n⟩

theorem announcing_announces :
    Announces textCodecs announcing
      [[none, some (.one .gatewayTx [1] 1)], [], [some (.many [([2], 2)])]] := by
  have hmessage : Carries textCodecs ⟨"message", [⟨"action", some "ConfirmGatewayTx"⟩]⟩ none := by
    refine .other _ (fun kind => ?_) (by decide)
    cases kind <;> simp [PollKind.startedType]
  have hone : Carries textCodecs announcingOne (some (.one .gatewayTx [1] 1)) :=
    .one announcingOne .gatewayTx [1] 1 "[1]" "1" "\x7b\"poll_id\":\"1\"\x7d" _ _ [] rfl .plain
      (by decide +kernel) .plain (by decide +kernel) (idText_toString (by decide)) (by simp)
      (List.Perm.swap _ _ _)
  have hchain : decodeAttributeKey textCodecs ⟨base64Of "chain", none⟩ = "chain" :=
    decodeAttributeKey_toBase64 textCodecs_standard ⟨"chain", none⟩
  have hmany : Carries textCodecs announcingMany (some (.many [([2], 2)])) :=
    .many announcingMany [([2], 2)] "[\x7b\"tx_id\":[2],\"poll_id\":\"2\"\x7d]" [⟨[2], "2"⟩] _
      [⟨base64Of "chain", none⟩] rfl .base64 (by decide +kernel)
      (.cons ⟨rfl, idText_toString (by decide)⟩ .nil)
      (by simp [hchain]) (List.Perm.swap _ _ _)
  exact .some _ _ (.cons (.some _ _ (.cons hmessage (.cons hone .nil)))
    (.cons .none (.cons (.some _ _ (.cons hmany .nil)) .nil)))

end Sample

theorem two_announcements_read_back :
    extractAllPollEvents Sample.textCodecs Sample.announcing =
      [⟨.gatewayTx, [1], 1⟩, ⟨.gatewayTx, [2], 2⟩] :=
  announcements_read_back Sample.textCodecs_standard Sample.announcing_announces

end AxelarMonitor
