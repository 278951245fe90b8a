import ServerKit.Rpc.ResponseReads
import ServerKit.Rpc.Verify.ClientCalls

/-!
# The two response paths

Both loops match the same packets with the same contexts, and parse the same contents into the same
objects: `responses` says which. They differ in what they do with a response. The channel runs the
done closure of a response that was parsed, and deletes the context; the session runs the done
closure in any case, and deletes nothing.
-/

namespace ServerKit

variable {T Msg : Type} {pb : Protobuf T Msg} {isNull : ℕ → Bool}

/-! ## The responses among the packets -/

/-- A packet that is the response to a pending call, and whether its content was parsed. -/
structure Response where
  guid : UInt64
  context : RequestContext
  parsed : Bool

/-- The map without the guids of the packets. -/
def withoutGuids (contexts : UInt64 → Option RequestContext) (packets : List Packet) :
    UInt64 → Option RequestContext :=
  fun guid => if guid ∈ packets.map Packet.guid then none else contexts guid

/-- The responses among the packets, in order. -/
def responses (pb : Protobuf T Msg) :
    (UInt64 → Option RequestContext) → (ℕ → Msg) → List Packet → List Response
  | _, _, [] => []
  | contexts, object, packet :: packets =>
    match contexts packet.guid with
    | none => responses pb contexts object packets
    | some context =>
      let (ret, value) := pb.parse (pb.typeOf (object context.response)) packet.content
      ⟨packet.guid, context, ret⟩ :: responses pb (Function.update contexts packet.guid none)
        (Function.update object context.response value) packets

section Responses

variable {contexts : UInt64 → Option RequestContext} {object : ℕ → Msg} {packet : Packet}
  {packets : List Packet}

theorem responses_none (h : contexts packet.guid = none) :
    responses pb contexts object (packet :: packets) = responses pb contexts object packets := by
  rw [responses, h]

theorem responses_some {context : RequestContext} {ret : Bool} {value : Msg}
    (h : contexts packet.guid = some context)
    (hparse : pb.parse (pb.typeOf (object context.response)) packet.content = (ret, value)) :
    responses pb contexts object (packet :: packets) =
      ⟨packet.guid, context, ret⟩ :: responses pb (Function.update contexts packet.guid none)
        (Function.update object context.response value) packets := by
  rw [responses, h]
  simp only [hparse]

theorem withoutGuids_nil : withoutGuids contexts [] = contexts := by
  funext guid
  exact if_neg List.not_mem_nil

/-- A guid that is not pending need not be taken out. -/
theorem withoutGuids_none (h : contexts packet.guid = none) :
    withoutGuids contexts (packet :: packets) = withoutGuids contexts packets := by
  funext guid
  by_cases hg : guid = packet.guid
  · subst hg
    simp [withoutGuids, h]
  · simp [withoutGuids, hg]

theorem withoutGuids_cons :
    withoutGuids contexts (packet :: packets) =
      withoutGuids (Function.update contexts packet.guid none) packets := by
  funext guid
  by_cases hg : guid = packet.guid
  · subst hg
    simp [withoutGuids]
  · simp [withoutGuids, hg]

/-- A call that is pending, and whose guid a packet has, gets a response. -/
theorem mem_responses {guid : UInt64} {context : RequestContext}
    (hpending : contexts guid = some context) (hguid : guid ∈ packets.map Packet.guid) :
    (guid, context) ∈ (responses pb contexts object packets).map fun r => (r.guid, r.context) := by
  induction packets generalizing contexts object with
  | nil => cases hguid
  | cons packet packets ih =>
    rw [List.map_cons, List.mem_cons] at hguid
    cases hcontext : contexts packet.guid with
    | none =>
      rw [responses_none hcontext]
      refine ih hpending (hguid.resolve_left fun heq => ?_)
      rw [heq, hcontext] at hpending
      cases hpending
    | some context' =>
      obtain ⟨ret, value, hparse⟩ :
          ∃ ret value, pb.parse (pb.typeOf (object context'.response)) packet.content =
            (ret, value) := ⟨_, _, rfl⟩
      rw [responses_some hcontext hparse, List.map_cons, List.mem_cons]
      by_cases heq : guid = packet.guid
      · rw [heq, hcontext] at hpending
        exact .inl (by rw [heq, Option.some.inj hpending])
      · refine .inr (ih ?_ (hguid.resolve_left heq))
        rwa [Function.update_of_ne heq]

/-- There are no responses exactly if no packet has the guid of a pending call. -/
theorem responses_eq_nil_iff :
    responses pb contexts object packets = [] ↔ ∀ p ∈ packets, contexts p.guid = none := by
  constructor
  · intro hnil p hp
    cases hcontext : contexts p.guid with
    | none => rfl
    | some context =>
      have hmem : (p.guid, context) ∈ (responses pb contexts object packets).map
          fun r => (r.guid, r.context) := mem_responses hcontext (List.mem_map_of_mem hp)
      rw [hnil] at hmem
      cases hmem
  · intro h
    induction packets with
    | nil => rfl
    | cons packet packets ih =>
      rw [responses_none (h packet (by simp))]
      exact ih fun p hp => h p (List.mem_cons_of_mem _ hp)

end Responses

/-! ## The loops -/

section Loops

variable {C : Type} {step : ReadState C Msg → Packet → ReadState C Msg}
  (contextsOf : C → UInt64 → Option RequestContext) {runs : Response → List ℕ}
  {deletes : Response → List (UInt64 × RequestContext)}

/-- A loop that drops the packets without a pending call, and takes the context of a response out of
the map: what it does is told response by response. -/
theorem foldl_responses
    (hnone : ∀ {r packet}, packet.methodId = 0 → contextsOf r.self packet.guid = none →
      step r packet = r)
    (hsome : ∀ {r packet context ret value}, packet.methodId = 0 →
      contextsOf r.self packet.guid = some context →
      pb.parse (pb.typeOf (r.object context.response)) packet.content = (ret, value) →
      contextsOf (step r packet).self = Function.update (contextsOf r.self) packet.guid none ∧
        (step r packet).object = Function.update r.object context.response value ∧
        (step r packet).ran = r.ran ++ runs ⟨packet.guid, context, ret⟩ ∧
        (step r packet).deleted = r.deleted ++ deletes ⟨packet.guid, context, ret⟩)
    {packets : List Packet} (hzero : ∀ p ∈ packets, p.methodId = 0) (r : ReadState C Msg) :
    contextsOf (packets.foldl step r).self = withoutGuids (contextsOf r.self) packets ∧
      (packets.foldl step r).ran =
        r.ran ++ (responses pb (contextsOf r.self) r.object packets).flatMap runs ∧
      (packets.foldl step r).deleted =
        r.deleted ++ (responses pb (contextsOf r.self) r.object packets).flatMap deletes := by
  induction packets generalizing r with
  | nil => simp [responses, withoutGuids_nil]
  | cons packet packets ih =>
    have hpacket : packet.methodId = 0 := hzero packet (by simp)
    obtain ⟨hmap, hran, hdeleted⟩ :=
      ih (fun p hp => hzero p (List.mem_cons_of_mem _ hp)) (step r packet)
    rw [List.foldl_cons, hmap, hran, hdeleted]
    cases hcontext : contextsOf r.self packet.guid with
    | none =>
      rw [hnone hpacket hcontext, responses_none hcontext, withoutGuids_none hcontext]
      exact ⟨rfl, rfl, rfl⟩
    | some context =>
      obtain ⟨ret, value, hparse⟩ :
          ∃ ret value, pb.parse (pb.typeOf (r.object context.response)) packet.content =
            (ret, value) := ⟨_, _, rfl⟩
      obtain ⟨hmap, hobject, hran, hdeleted⟩ := hsome hpacket hcontext hparse
      rw [hmap, hobject, hran, hdeleted, responses_some hcontext hparse, withoutGuids_cons]
      simp only [List.flatMap_cons, List.append_assoc, and_self]

end Loops

theorem RpcChannel.onRead_eq (pb : Protobuf T Msg) (isNull : ℕ → Bool) {packets : List Packet}
    (hzero : ∀ p ∈ packets, p.methodId = 0) (ch : RpcChannel) (object : ℕ → Msg) :
    (ch.onRead pb isNull object packets).self.requestContext =
        withoutGuids ch.requestContext packets ∧
      (ch.onRead pb isNull object packets).ran =
        (responses pb ch.requestContext object packets).flatMap
          (fun x => if x.parsed then x.context.run isNull else []) ∧
      (ch.onRead pb isNull object packets).deleted =
        (responses pb ch.requestContext object packets).flatMap
          fun x => [(x.guid, x.context)] := by
  refine foldl_responses requestContext (fun {r packet} hpacket hcontext => ?_)
    (fun {r packet context ret value} hpacket hcontext hparse => ?_) hzero
    { self := ch, object := object, ran := [], deleted := [] }
  · rw [readPacket, onPacket, if_neg (not_not.mpr hpacket), hcontext]
  · have hstep : readPacket pb isNull r packet =
        { self := r.self.setContext packet.guid none
          object := Function.update r.object context.response value
          ran := if ret then r.ran ++ context.run isNull else r.ran
          deleted := r.deleted ++ [(packet.guid, context)] } := by
      rw [readPacket, onPacket, if_neg (not_not.mpr hpacket), hcontext]
      simp only [hparse]
    rw [hstep]
    refine ⟨rfl, rfl, ?_, rfl⟩
    cases ret with
    | false => exact (List.append_nil _).symm
    | true => rfl

theorem RpcSession.onRead_eq (pb : Protobuf T Msg) (isNull : ℕ → Bool) {packets : List Packet}
    (hzero : ∀ p ∈ packets, p.methodId = 0) (s : RpcSession T) (object : ℕ → Msg) :
    (s.onRead pb isNull object packets).self.requestContext =
        withoutGuids s.requestContext packets ∧
      (s.onRead pb isNull object packets).ran =
        (responses pb s.requestContext object packets).flatMap (fun x => x.context.run isNull) ∧
      (s.onRead pb isNull object packets).deleted =
        (responses pb s.requestContext object packets).flatMap fun _ => [] := by
  refine foldl_responses requestContext (fun {r packet} hpacket hcontext => ?_)
    (fun {r packet context ret value} hpacket hcontext hparse => ?_) hzero
    { self := s, object := object, ran := [], deleted := [] }
  · rw [readPacket, onPacket, if_neg (not_not.mpr hpacket), hcontext]
  · have hstep : readPacket pb isNull r packet =
        { r with
          self := { r.self with
            requestContext := Function.update r.self.requestContext packet.guid none }
          object := Function.update r.object context.response value
          ran := r.ran ++ context.run isNull } := by
      rw [readPacket, onPacket, if_neg (not_not.mpr hpacket), hcontext]
      simp only [hparse]
    rw [hstep]
    exact ⟨rfl, rfl, rfl, (List.append_nil _).symm⟩

/-! ## Agreement -/

/-- What the two loops leave and do agrees: the guids left in `request_context_`, the closures run,
and that the context of every removed call has been deleted. `contexts` is the map before. -/
structure ResponsesAgree (contexts : UInt64 → Option RequestContext) (a : ReadState RpcChannel Msg)
    (b : ReadState (RpcSession T) Msg) : Prop where
  guids : ∀ guid, a.self.requestContext guid = none ↔ b.self.requestContext guid = none
  ran : a.ran = b.ran
  released : ∀ guid context, contexts guid = some context →
    (a.self.requestContext guid = none → (guid, context) ∈ a.deleted) ∧
      (b.self.requestContext guid = none → (guid, context) ∈ b.deleted)

/-- Leaving out the images of some elements leaves the whole if and only if they are empty. -/
theorem flatMap_ite_eq_iff {α β : Type} {p : α → Bool} {f : α → List β} {l : List α} :
    (l.flatMap fun x => if p x then f x else []) = l.flatMap f ↔
      ∀ x ∈ l, p x = true ∨ f x = [] := by
  have hle : ∀ l : List α, (l.flatMap fun x => if p x then f x else []).length ≤
      (l.flatMap f).length := by
    intro l
    induction l with
    | nil => exact Nat.le_refl _
    | cons x l ih =>
      rw [List.flatMap_cons, List.flatMap_cons, List.length_append, List.length_append]
      split
      · omega
      · rw [List.length_nil]; omega
  induction l with
  | nil => simp
  | cons x l ih =>
    rw [List.forall_mem_cons, List.flatMap_cons, List.flatMap_cons]
    cases hx : p x with
    | true =>
      rw [if_pos rfl, List.append_cancel_left_eq]
      exact ⟨fun heq => ⟨.inl rfl, ih.mp heq⟩, fun h => ih.mpr h.2⟩
    | false =>
      rw [if_neg (by simp), List.nil_append]
      refine ⟨fun heq => ?_, fun ⟨hnil, hrest⟩ => ?_⟩
      · -- the images of the rest are no shorter, so that of the element is empty
        have hlen := congrArg List.length heq
        rw [List.length_append] at hlen
        have hnil : f x = [] := List.length_eq_zero_iff.mp (by have := hle l; omega)
        exact ⟨.inr hnil, ih.mp (by rw [heq, hnil, List.nil_append])⟩
      · rw [hnil.resolve_left nofun, List.nil_append]
        exact ih.mpr hrest

theorem RequestContext.run_eq_nil_iff {context : RequestContext} :
    context.run isNull = [] ↔ isNull context.done = true := by
  rw [run]
  split <;> simp [*]

/-- **The two response paths.** For every map of pending calls and any response packets: the two
loops agree if and only if no packet has the guid of a pending call. They always leave the same map;
they run the same closures if and only if every response is parsed or has no closure; and the
channel alone deletes the contexts. -/
theorem response_paths_agree_iff {ch : RpcChannel} {s : RpcSession T} {packets : List Packet}
    (hmap : s.requestContext = ch.requestContext) (hzero : ∀ p ∈ packets, p.methodId = 0)
    (object : ℕ → Msg) :
    (ResponsesAgree ch.requestContext (ch.onRead pb isNull object packets)
        (s.onRead pb isNull object packets) ↔
      ∀ p ∈ packets, ch.requestContext p.guid = none) ∧
    (ch.onRead pb isNull object packets).self.requestContext =
        (s.onRead pb isNull object packets).self.requestContext ∧
    ((ch.onRead pb isNull object packets).ran = (s.onRead pb isNull object packets).ran ↔
      ∀ r ∈ responses pb ch.requestContext object packets,
        r.parsed = true ∨ isNull r.context.done = true) ∧
    (∀ guid context, ch.requestContext guid = some context →
      (ch.onRead pb isNull object packets).self.requestContext guid = none →
      (guid, context) ∈ (ch.onRead pb isNull object packets).deleted) ∧
    (s.onRead pb isNull object packets).deleted = [] := by
  obtain ⟨hmapCh, hranCh, hdelCh⟩ := RpcChannel.onRead_eq pb isNull hzero ch object
  obtain ⟨hmapS, hranS, hdelS⟩ := RpcSession.onRead_eq pb isNull hzero s object
  rw [hmap] at hmapS hranS
  rw [List.flatMap_eq_nil_iff.mpr fun _ _ => rfl] at hdelS
  rw [← List.map_eq_flatMap] at hdelCh
  have hsame : (ch.onRead pb isNull object packets).self.requestContext =
      (s.onRead pb isNull object packets).self.requestContext := hmapCh.trans hmapS.symm
  have hran : (ch.onRead pb isNull object packets).ran = (s.onRead pb isNull object packets).ran ↔
      ∀ r ∈ responses pb ch.requestContext object packets,
        r.parsed = true ∨ isNull r.context.done = true := by
    rw [hranCh, hranS, flatMap_ite_eq_iff]
    simp only [RequestContext.run_eq_nil_iff]
  have hreleased : ∀ guid context, ch.requestContext guid = some context →
      (ch.onRead pb isNull object packets).self.requestContext guid = none →
      (guid, context) ∈ (ch.onRead pb isNull object packets).deleted := by
    intro guid context hpending hgone
    rw [hdelCh]
    refine mem_responses hpending ?_
    by_contra hguid
    rw [hmapCh, withoutGuids, if_neg hguid, hpending] at hgone
    cases hgone
  refine ⟨⟨fun h p hp => ?_, fun hnone => ?_⟩, hsame, hran, hreleased, hdelS⟩
  · cases hpending : ch.requestContext p.guid with
    | none => rfl
    | some context =>
      -- the session has taken the call out, and deletes nothing
      have hgone : (s.onRead pb isNull object packets).self.requestContext p.guid = none := by
        rw [hmapS, withoutGuids, if_pos (List.mem_map_of_mem hp)]
      have hmem := (h.released p.guid context hpending).2 hgone
      rw [hdelS] at hmem
      cases hmem
  · have hnil : responses pb ch.requestContext object packets = [] :=
      responses_eq_nil_iff.mpr hnone
    refine ⟨fun guid => by rw [hsame], hran.mpr (by rw [hnil]; exact nofun), ?_⟩
    intro guid context hpending
    have hkept : (ch.onRead pb isNull object packets).self.requestContext guid ≠ none := by
      intro hgone
      have hmem := hreleased guid context hpending hgone
      rw [hdelCh, hnil] at hmem
      cases hmem
    exact ⟨fun hgone => absurd hgone hkept, fun hgone => absurd hgone (hsame ▸ hkept)⟩

/-- A message is one byte, and nothing else is parsed. -/
def Protobuf.onlyByte : Protobuf Unit UInt8 where
  typeOf := fun _ => ()
  serialize := fun m => [m]
  parse := fun _ bytes => (bytes.length == 1, bytes.headD 0)

/-- A channel with one pending call. -/
def RpcChannel.onePending : RpcChannel :=
  (RpcChannel.new 3).setContext 1 (some ⟨0, 0, 0⟩)

/-- A session with the same pending call. -/
def RpcSession.onePending : RpcSession Unit :=
  { RpcSession.new (.new Unit) with requestContext := RpcChannel.onePending.requestContext }

/-- A response that is not pending: both loops drop it. -/
theorem response_paths_agree_stranger :
    ResponsesAgree RpcChannel.onePending.requestContext
      (RpcChannel.onePending.onRead Protobuf.onlyByte (fun _ => false) (fun _ => 0)
        [⟨kPacketMagicNum, 2, 0, 1, [9], true⟩])
      (RpcSession.onePending.onRead Protobuf.onlyByte (fun _ => false) (fun _ => 0)
        [⟨kPacketMagicNum, 2, 0, 1, [9], true⟩]) := by
  refine (response_paths_agree_iff rfl ?_ _).1.mpr ?_
  · simp
  · intro p hp
    obtain rfl := List.mem_singleton.mp hp
    rfl

/-- A response that cannot be parsed: only the session runs the done closure, and only the channel
deletes the context. -/
theorem response_paths_disagree :
    ¬ ResponsesAgree RpcChannel.onePending.requestContext
      (RpcChannel.onePending.onRead Protobuf.onlyByte (fun _ => false) (fun _ => 0)
        [⟨kPacketMagicNum, 1, 0, 2, [9, 9], true⟩])
      (RpcSession.onePending.onRead Protobuf.onlyByte (fun _ => false) (fun _ => 0)
        [⟨kPacketMagicNum, 1, 0, 2, [9, 9], true⟩]) ∧
    (RpcChannel.onePending.onRead Protobuf.onlyByte (fun _ => false) (fun _ => 0)
        [⟨kPacketMagicNum, 1, 0, 2, [9, 9], true⟩]).ran = [] ∧
    (RpcSession.onePending.onRead Protobuf.onlyByte (fun _ => false) (fun _ => 0)
        [⟨kPacketMagicNum, 1, 0, 2, [9, 9], true⟩]).ran = [0] := by
  refine ⟨fun h => ?_, rfl, rfl⟩
  cases h.ran

end ServerKit
