import ServerKit.Rpc.TwoWay
import ServerKit.Rpc.Verify.Matching

/-!
# Calls of a session

The requests of a session share the wire with its responses. The channel drops them, as
`RpcChannel::OnRead` takes no packet with a method id: a call of a session is never answered, and
the calls of the client go on as if there were none. The proof looks at the system without the
requests of the session (`RpcSystem.responsesOnly`), for which the invariant of one-way calls holds.
-/

namespace ServerKit

open Lib

variable {T Msg : Type} {pb : Protobuf T Msg}

/-! ## The packets of a session -/

/-- The responses among the packets of a session. -/
def responsesOf (ps : List Packet) : List Packet := ps.filter fun p => p.methodId = 0

theorem responsesOf_append (ps ps' : List Packet) :
    responsesOf (ps ++ ps') = responsesOf ps ++ responsesOf ps' :=
  List.filter_append ..

theorem responsesOf_request {p : Packet} (hp : p.methodId ≠ 0) (ps : List Packet) :
    responsesOf (p :: ps) = responsesOf ps :=
  List.filter_cons_of_neg (by simpa using hp)

theorem responsesOf_response {p : Packet} (hp : p.methodId = 0) (ps : List Packet) :
    responsesOf (p :: ps) = p :: responsesOf ps :=
  List.filter_cons_of_pos (by simpa using hp)

/-- The responses behind the first packets. -/
theorem responsesOf_drop (ps : List Packet) (n : ℕ) :
    (responsesOf ps).drop (responsesOf (ps.take n)).length = responsesOf (ps.drop n) := by
  have hsplit := responsesOf_append (ps.take n) (ps.drop n)
  rw [List.take_append_drop] at hsplit
  rw [hsplit, List.drop_left]

/-- The next packet is counted if it is a response. -/
theorem responsesOf_take_succ {ps : List Packet} {n : ℕ} {p : Packet} (hp : ps[n]? = some p) :
    (responsesOf (ps.take (n + 1))).length =
      (responsesOf (ps.take n)).length + if p.methodId = 0 then 1 else 0 := by
  have htake : ps.take (n + 1) = ps.take n ++ [p] := by
    rw [List.take_add_one, hp]
    rfl
  rw [htake, responsesOf_append, List.length_append]
  split
  · next hzero => rw [responsesOf_response hzero]; rfl
  · next hne => rw [responsesOf_request hne]; rfl

/-! ## Other received bytes -/

/-- The channel with other received bytes. -/
def RpcChannel.withReceived (ch : RpcChannel) (parser : PacketParser) (readList : List UInt8) :
    RpcChannel :=
  { ch with parser := parser, readList := readList }

def RpcClient.withReceived (c : RpcClient T Msg) (parser : PacketParser) (readList : List UInt8) :
    RpcClient T Msg :=
  c.setChannel (c.channel.withReceived parser readList)

namespace RpcChannel

variable {ch ch' : RpcChannel} (parser : PacketParser) (readList : List UInt8)

theorem connect_withReceived (err : ℤ) :
    (ch.withReceived parser readList).connect err =
      (ch.connect err).withReceived parser readList := by
  unfold connect
  change (if ch.status ≠ .init then _ else _) = _
  split
  · rfl
  · split <;> rfl

theorem pushRequestToQueue_withReceived {method : MethodDescriptor T} {request : Msg}
    {context : RequestContext} {controller : RpcController}
    (h : ch.pushRequestToQueue pb method request context = .ok (controller, ch')) :
    (ch.withReceived parser readList).pushRequestToQueue pb method request context =
      .ok (controller, ch'.withReceived parser readList) := by
  obtain ⟨packet, hpacket, rfl, rfl⟩ := pushRequestToQueue_eq h
  have hpacket : Packet.new pb ((ch.withReceived parser readList).allocateGuid + 1) (some method)
      request = .ok packet := hpacket
  simp only [pushRequestToQueue, incAllocateGuid, hpacket, ok_bind]
  rfl

/-- `CallMethod` does not look at the received bytes. -/
theorem callMethod_withReceived {method : MethodDescriptor T} {request : Msg}
    {context : RequestContext} {err : ℤ} {controller : Option RpcController}
    (h : ch.callMethod pb method request context err = .ok (controller, ch')) :
    (ch.withReceived parser readList).callMethod pb method request context err =
      .ok (controller, ch'.withReceived parser readList) := by
  have hsame : (ch.withReceived parser readList).status = ch.status := rfl
  cases called_of_callMethod h with
  | closed hstatus =>
    rw [callMethod, hsame, hstatus]
  | connected hstatus hpacket => exact callMethod_connected hstatus hpacket
  | init hstatus hpush =>
    rw [callMethod, hsame, hstatus]
    simp only [pushRequestToQueue_withReceived parser readList hpush, ok_bind,
      connect_withReceived]
    rfl
  | connecting hstatus hpush =>
    rw [callMethod, hsame, hstatus]
    simp only [pushRequestToQueue_withReceived parser readList hpush, ok_bind]
    rfl

theorem onPacket_withReceived {object : ℕ → Msg} {packet : Packet}
    {context : Option (RequestContext × Bool × Msg)}
    (h : ch.onPacket pb object packet = (context, ch')) :
    (ch.withReceived parser readList).onPacket pb object packet =
      (context, ch'.withReceived parser readList) := by
  cases context with
  | none =>
    obtain ⟨rfl, hnone⟩ := onPacket_none h
    by_cases hzero : packet.methodId = 0
    · have hcontext : (ch'.withReceived parser readList).requestContext packet.guid = none :=
        hnone hzero
      rw [onPacket, if_neg (not_not.mpr hzero), hcontext]
    · exact if_pos hzero
  | some pending =>
    obtain ⟨hzero, hcontext, hparse, rfl⟩ := onPacket_some h
    exact onPacket_response packet hzero hcontext hparse

end RpcChannel

/-- No step of the client looks at the received bytes: `OnRead` is given the packet. -/
theorem ClientStep.withReceived {c c' : RpcClient T Msg} {e : ClientEvent T Msg}
    (hs : ClientStep pb c e c') (parser : PacketParser) (readList : List UInt8) :
    ClientStep pb (c.withReceived parser readList) e (c'.withReceived parser readList) := by
  cases hs with
  | call huser hcall =>
    exact .call huser (RpcChannel.callMethod_withReceived parser readList hcall)
  | callClosed huser hcall =>
    exact .callClosed huser (RpcChannel.callMethod_withReceived parser readList hcall)
  | out hpc hstatus => exact .out hpc hstatus
  | @sendQueued _ channel hpc hstep =>
    obtain ⟨packet, rest, hqueue, rfl⟩ := RpcChannel.onConnectStep_eq hstep
    refine .sendQueued hpc ?_
    have hqueue : (c.withReceived parser readList).channel.packetQueue = packet :: rest := hqueue
    rw [RpcChannel.onConnectStep, hqueue]
    simp only [RpcChannel.sendPacket_eq, ok_bind]
    rfl
  | connected hpc hstep =>
    refine .connected hpc ?_
    have hqueue := RpcChannel.onConnectStep_none hstep
    have hqueue : (c.withReceived parser readList).channel.packetQueue = [] := hqueue
    rw [RpcChannel.onConnectStep, hqueue]
  | skip hpc hpacket => exact .skip hpc (RpcChannel.onPacket_withReceived parser readList hpacket)
  | unparsed hpc hpacket =>
    exact .unparsed hpc (RpcChannel.onPacket_withReceived parser readList hpacket)
  | response hpc hpacket =>
    exact .response hpc (RpcChannel.onPacket_withReceived parser readList hpacket)
  | ret hpc => exact .ret hpc

/-! ## The system without the requests of the session -/

/-- All packets on the way have arrived. -/
theorem InFlight.arrived (ps : List Packet) : InFlight true .new (encodeAll ps) [] ps :=
  ⟨encodeAll ps, .header _ _, List.append_nil _, nofun⟩

namespace RpcSystem

variable {s s' : RpcSystem T Msg} {order : List ℕ} {n : ℕ}

/-- The system in which the session has sent nothing but its responses, and those behind its first
`n` packets have reached the client. -/
def responsesOnly (s : RpcSystem T Msg) (n : ℕ) : RpcSystem T Msg :=
  { s with
    client := s.client.withReceived .new (encodeAll (responsesOf (s.session.sent.drop n)))
    clientReads := true
    session := { s.session with sent := responsesOf s.session.sent, writeList := [] } }

theorem responsesOnly_inFlight (s : RpcSystem T Msg) (n : ℕ) :
    InFlight true .new (encodeAll (responsesOf (s.session.sent.drop n))) []
      ((responsesOf s.session.sent).drop (responsesOf (s.session.sent.take n)).length) := by
  rw [responsesOf_drop]
  exact .arrived _

/-- The packets of the session are on the way from the `n`-th one on, and its responses are those
of one-way calls. -/
structure MixedResponses (pb : Protobuf T Msg) (order : List ℕ) (n : ℕ) (s : RpcSystem T Msg) :
    Prop where
  isFrame : ∀ p ∈ s.session.sent, p.IsFrame
  le : n ≤ s.session.sent.length
  inFlight : InFlight s.clientReads s.client.channel.parser s.client.channel.readList
    s.session.writeList (s.session.sent.drop n)
  responses : (s.responsesOnly n).Responses pb order (responsesOf (s.session.sent.take n)).length

namespace MixedResponses

theorem isFrame_drop (h : s.MixedResponses pb order n) :
    ∀ p ∈ s.session.sent.drop n, p.IsFrame :=
  fun p hp => h.isFrame p (List.mem_of_mem_drop hp)

/-- A step that changes nothing of what the client has got, and only moves bytes. -/
theorem keep (h : s.MixedResponses pb order n) (hcalls : s'.client.calls = s.client.calls)
    (hinvocations : s'.invocations = s.invocations) (hsent : s'.session.sent = s.session.sent)
    (hruns : s'.client.runs = s.client.runs) (hobject : s'.client.object = s.client.object)
    (hcontext : s'.client.channel.requestContext = s.client.channel.requestContext)
    (hinFlight : InFlight s'.clientReads s'.client.channel.parser s'.client.channel.readList
      s'.session.writeList (s'.session.sent.drop n)) : s'.MixedResponses pb order n := by
  refine ⟨hsent ▸ h.isFrame, hsent ▸ h.le, hinFlight, ?_⟩
  have hsame : (s'.responsesOnly n).session.sent = (s.responsesOnly n).session.sent :=
    congrArg responsesOf hsent
  have hresponses := h.responses
  rw [← hsent] at hresponses
  exact hresponses.keep hcalls hinvocations hsame hruns hobject hcontext
    (s'.responsesOnly_inFlight n)

/-- A call of the client. -/
theorem call (h : s.MixedResponses pb order n) (hcontexts : s.client.ContextsOk)
    (hsend : s.client.SendOk pb) {c : RpcClient T Msg} {method : MethodDescriptor T}
    {request response : Msg} {err : ℤ} (hfresh : s.Fresh (.call method request response))
    (hlegal : s.Legal pb method request response)
    (hs : ClientStep pb s.client (.call method request response err) c) :
    (s.setClient c).MixedResponses pb order n := by
  obtain ⟨-, -, -, hparser, hread⟩ := RpcClient.wire_step hs
  refine ⟨h.isFrame, h.le, ?_, ?_⟩
  · change InFlight s.clientReads c.channel.parser c.channel.readList _ _
    rw [hparser, hread]
    exact h.inFlight
  · have hs := hs.withReceived .new (encodeAll (responsesOf (s.session.sent.drop n)))
    exact h.responses.call
      ⟨hcontexts.guid, hcontexts.context, hcontexts.runs_le, hcontexts.runs_new⟩
      ⟨hsend.allocateGuid, hsend.packets, hsend.queue, hsend.onConnect⟩ hfresh
      ⟨hlegal.registered, hlegal.inputType, hlegal.outputType⟩ hs

/-- The session sends a request. -/
theorem sessionCall (h : s.MixedResponses pb order n) {session : RpcSession T} {packet : Packet}
    (hframe : packet.IsFrame) (hid : packet.methodId ≠ 0)
    (hsent : session.sent = s.session.sent ++ [packet])
    (hwrite : session.writeList = s.session.writeList ++ packet.encode) :
    (s.setSession session).MixedResponses pb order n := by
  have hresponses : responsesOf (s.session.sent ++ [packet]) = responsesOf s.session.sent := by
    rw [responsesOf_append, responsesOf_request hid]
    exact List.append_nil _
  refine ⟨?_, ?_, ?_, ?_⟩
  · change ∀ p ∈ session.sent, p.IsFrame
    rw [hsent]
    intro p hp
    rcases List.mem_append.mp hp with hp | hp
    · exact h.isFrame p hp
    · rw [List.mem_singleton.mp hp]
      exact hframe
  · change n ≤ session.sent.length
    rw [hsent, List.length_append]
    exact Nat.le_add_right_of_le h.le
  · change InFlight _ _ _ session.writeList (session.sent.drop n)
    have hsend := h.inFlight.send [packet]
    rw [encodeAll_cons, encodeAll_nil, List.append_nil] at hsend
    rw [hsent, hwrite, List.drop_append_of_le_length h.le]
    exact hsend
  · have hsame : ((s.setSession session).responsesOnly n).session.sent =
        (s.responsesOnly n).session.sent := by
      change responsesOf session.sent = _
      rw [hsent, hresponses]
      rfl
    have htake : session.sent.take n = s.session.sent.take n := by
      rw [hsent, List.take_append_of_le_length h.le]
    have hkept := h.responses
    rw [← htake] at hkept
    exact hkept.keep rfl rfl hsame rfl rfl rfl ((s.setSession session).responsesOnly_inFlight n)

/-- The session sends a response. -/
theorem respond (h : s.MixedResponses pb order n) (hpb : pb.RoundTrips) (hrequests : s.Requests pb)
    {i : ℕ} {invocation : Invocation T Msg} {response : Msg} {session : RpcSession T}
    (hi : s.invocations[i]? = some invocation) (hnone : invocation.response = none)
    (htype : pb.typeOf response = invocation.method.method.outputType)
    (hresponse : s.session.onResponse pb invocation.context response = .ok session) :
    ((s.setSession session).complete i invocation response).MixedResponses pb (order ++ [i]) n := by
  obtain ⟨packet, hpacket, rfl⟩ := RpcSession.onResponse_eq hresponse
  obtain ⟨-, -, -, -, -, hzero⟩ := Packet.new_eq hpacket
  have hsent : responsesOf (s.session.sent ++ [packet]) =
      responsesOf s.session.sent ++ [packet] := by
    rw [responsesOf_append, responsesOf_response (hzero rfl)]
    rfl
  refine ⟨?_, ?_, ?_, ?_⟩
  · change ∀ p ∈ s.session.sent ++ [packet], p.IsFrame
    intro p hp
    rcases List.mem_append.mp hp with hp | hp
    · exact h.isFrame p hp
    · rw [List.mem_singleton.mp hp]
      exact Packet.new_isFrame hpb hpacket
  · change n ≤ (s.session.sent ++ [packet]).length
    rw [List.length_append]
    exact Nat.le_add_right_of_le h.le
  · change InFlight _ _ _ (s.session.writeList ++ packet.encode)
      ((s.session.sent ++ [packet]).drop n)
    have hsend := h.inFlight.send [packet]
    rw [encodeAll_cons, encodeAll_nil, List.append_nil] at hsend
    rw [List.drop_append_of_le_length h.le]
    exact hsend
  · have hsend := hrequests.send
    have hrequests' : (s.responsesOnly n).Requests pb :=
      hrequests.keep ⟨hsend.allocateGuid, hsend.packets, hsend.queue, hsend.onConnect⟩ rfl rfl rfl
        rfl hrequests.inFlight
    have hresponses := h.responses.respond hrequests' hi hnone htype
      (RpcSession.onResponse_ok hpacket)
    have htake : (s.session.sent ++ [packet]).take n = s.session.sent.take n :=
      List.take_append_of_le_length h.le
    rw [← htake] at hresponses
    exact hresponses.keep rfl rfl hsent rfl rfl rfl (responsesOnly_inFlight _ n)

/-- A call of a service, which has not answered yet. -/
theorem serverCall (h : s.MixedResponses pb order n) {session : RpcSession T}
    (method : RpcMeta T) (context : ResponseContext Msg)
    (hsent : session.sent = s.session.sent) (hwrite : session.writeList = s.session.writeList) :
    (((s.setSession session).invoke method context).setInService true).MixedResponses pb order
      n := by
  refine ⟨hsent ▸ h.isFrame, hsent ▸ h.le, ?_, ?_⟩
  · change InFlight _ _ _ session.writeList (session.sent.drop n)
    rw [hsent, hwrite]
    exact h.inFlight
  · have hinvoked := @Responses.serverCall _ _ _ _ _ _ h.responses
      { session with sent := responsesOf session.sent, writeList := [] } method context
      (congrArg responsesOf hsent) rfl
    rw [← hsent] at hinvoked
    exact hinvoked.keep rfl rfl rfl rfl rfl rfl (responsesOnly_inFlight _ n)

/-- **The channel drops a request of the session, and takes a response.** -/
theorem clientPacket (h : s.MixedResponses pb order n) (hpb : pb.RoundTrips) {channel : RpcChannel}
    {c : RpcClient T Msg} (hrecv : s.client.channel.recvPacket = .ok (true, channel))
    (hreads : s.clientReads = true)
    (hs : ClientStep pb (s.client.setChannel channel) (.packet channel.parser.getPacket) c) :
    (s.setClient c).MixedResponses pb order (n + 1) := by
  obtain ⟨parser, readList, hr, rfl⟩ := RpcChannel.recvPacket_eq hrecv
  obtain ⟨packet, qs, hdrop, hpacket, hflight⟩ := h.inFlight.recv_true h.isFrame_drop hr
  have hget : s.session.sent[n]? = some packet := by
    rw [← List.head?_drop, hdrop]
    rfl
  have hqs : qs = s.session.sent.drop (n + 1) := by
    rw [← List.tail_drop, hdrop]
    rfl
  have hlt := (List.getElem?_eq_some_iff.mp hget).1
  have hcount := responsesOf_take_succ hget
  rw [PacketParser.getPacket, hpacket] at hs
  obtain ⟨-, -, -, hparser, hread⟩ := RpcClient.wire_step hs
  refine ⟨h.isFrame, hlt, ?_, ?_⟩
  · change InFlight s.clientReads c.channel.parser c.channel.readList s.session.writeList
      (s.session.sent.drop (n + 1))
    rw [hparser, hread, hreads, ← hqs]
    exact hflight
  · by_cases hzero : packet.methodId = 0
    · -- the response is the next one of the system without the requests
      rw [if_pos hzero] at hcount
      have hbytes : encodeAll (responsesOf (s.session.sent.drop n)) =
          packet.encode ++ encodeAll (responsesOf qs) := by
        rw [hdrop, responsesOf_response hzero, encodeAll_cons]
      have hrecv' : (s.responsesOnly n).client.channel.recvPacket = .ok (true,
          { (s.responsesOnly n).client.channel with
            parser := ⟨.recvHeader, packet.received⟩
            readList := encodeAll (responsesOf qs) }) := by
        refine RpcChannel.recvPacket_frame ?_ (h.isFrame packet (List.mem_of_getElem? hget))
        rw [← hbytes]
        exact .header _ _
      have hnext := h.responses.clientPacket hpb hrecv' rfl
        (hs.withReceived ⟨.recvHeader, packet.received⟩ (encodeAll (responsesOf qs)))
      rw [← hcount] at hnext
      exact hnext.keep rfl rfl rfl rfl rfl rfl (responsesOnly_inFlight (s.setClient c) (n + 1))
    · rw [if_neg hzero] at hcount
      have hcount := hcount.trans (Nat.add_zero _)
      have hkept := h.responses
      rw [← hcount] at hkept
      cases hs with
      | skip _ honPacket =>
        obtain ⟨rfl, -⟩ := RpcChannel.onPacket_none honPacket
        exact hkept.keep rfl rfl rfl rfl rfl rfl (responsesOnly_inFlight (s.setClient _) (n + 1))
      | unparsed _ honPacket | response _ honPacket =>
        exact absurd (RpcChannel.onPacket_some honPacket).1 hzero

/-- The step lemma for a step without a call of the session. -/
theorem step (h : s.MixedResponses pb order n) (hpb : pb.RoundTrips) (hrequests : s.Requests pb)
    (hcontexts : s.client.ContextsOk) {e : RpcEvent T Msg} (hfresh : s.Fresh e)
    (hs : RpcStep pb s e s') : ∃ order n, s'.MixedResponses pb order n := by
  cases hs with
  | call _ hlegal hs => exact ⟨order, n, h.call hcontexts hrequests.send hfresh hlegal hs⟩
  | out _ hs =>
    cases hs
    exact ⟨order, n, h.keep rfl rfl rfl rfl rfl rfl h.inFlight⟩
  | sendQueued hs =>
    cases hs with
    | sendQueued _ hstep =>
      obtain ⟨_, _, -, rfl⟩ := RpcChannel.onConnectStep_eq hstep
      exact ⟨order, n, h.keep rfl rfl rfl rfl rfl rfl h.inFlight⟩
  | connected hs | ret hs =>
    cases hs
    exact ⟨order, n, h.keep rfl rfl rfl rfl rfl rfl h.inFlight⟩
  | clientPacket hreads _ hrecv hs => exact ⟨order, n + 1, h.clientPacket hpb hrecv hreads hs⟩
  | clientDone _ _ hrecv =>
    obtain ⟨parser, readList, hr, rfl⟩ := RpcChannel.recvPacket_eq hrecv
    exact ⟨order, n, h.keep rfl rfl rfl rfl rfl rfl (h.inFlight.recv_false h.isFrame_drop hr)⟩
  | serverCall _ _ hrecv hcall =>
    obtain ⟨call, service, -, honPacket, -, -, hwrite, hsent, -⟩ :=
      hrequests.serverPacket hpb hrecv _
    rw [hcall] at honPacket
    obtain ⟨-, rfl⟩ := Prod.mk.inj honPacket
    exact ⟨order, n, h.serverCall _ _ hsent hwrite⟩
  | serverSkip _ _ hrecv hskip =>
    obtain ⟨call, service, -, honPacket, -⟩ := hrequests.serverPacket hpb hrecv _
    rw [hskip] at honPacket
    cases (Prod.mk.inj honPacket).1
  | serverDone _ _ hrecv =>
    obtain ⟨parser, readList, -, rfl⟩ := RpcSession.recvPacket_eq hrecv
    exact ⟨order, n, h.keep rfl rfl rfl rfl rfl rfl h.inFlight⟩
  | serviceRet => exact ⟨order, n, h.keep rfl rfl rfl rfl rfl rfl h.inFlight⟩
  | respond _ hi hnone htype hresponse =>
    exact ⟨_, n, h.respond hpb hrequests hi hnone htype hresponse⟩
  | toServer _ _ _ => exact ⟨order, n, h.keep rfl rfl rfl rfl rfl rfl h.inFlight⟩
  | toClient _ _ _ _ => exact ⟨order, n, h.keep rfl rfl rfl rfl rfl rfl (h.inFlight.move _)⟩

end MixedResponses

theorem mixedResponses_new {service : RpcService T} {guid : UInt64} {object : ℕ → Msg} :
    (RpcSystem.new service guid object).MixedResponses pb [] 0 where
  isFrame := nofun
  le := Nat.le_refl _
  inFlight := .new
  responses := responses_new.keep rfl rfl rfl rfl rfl rfl (.arrived [])

/-- When all bytes have been delivered, the responses have been delivered with them. -/
theorem MixedResponses.settled (h : s.MixedResponses pb order n) (hs : s.Settled) {k : ℕ}
    {invocation : Invocation T Msg} (hk : s.invocations[k]? = some invocation) :
    s.client.runs k = 1 := by
  have hmem := h.responses.complete k invocation hk (hs.answered _ (List.mem_of_getElem? hk))
  have hflight := h.inFlight
  rw [hs.clientReads, hs.serverBytes] at hflight
  have hnil := hflight.eq_nil h.isFrame_drop
  have hall : s.session.sent.take n = s.session.sent :=
    List.take_of_length_le (List.drop_eq_nil_iff.mp hnil)
  have hlength : (responsesOf s.session.sent).length = order.length := h.responses.length
  have hran := h.responses.ran k
  rw [hall, hlength, List.take_length] at hran
  exact (hran hmem).1

/-- Only the calls of the session and `OnRead` change its `request_context_`. -/
theorem requestContext_step (hrequests : s.Requests pb) (hpb : pb.RoundTrips) {e : RpcEvent T Msg}
    (hs : RpcStep pb s e s') : s'.session.requestContext = s.session.requestContext := by
  cases hs with
  | serverCall _ _ hrecv hcall =>
    obtain ⟨call, service, -, honPacket, -⟩ := hrequests.serverPacket hpb hrecv _
    obtain ⟨parser, readList, -, rfl⟩ := RpcSession.recvPacket_eq hrecv
    rw [hcall] at honPacket
    obtain ⟨-, rfl⟩ := Prod.mk.inj honPacket
    rfl
  | serverSkip _ _ hrecv hskip =>
    obtain ⟨call, service, -, honPacket, -⟩ := hrequests.serverPacket hpb hrecv _
    rw [hskip] at honPacket
    cases (Prod.mk.inj honPacket).1
  | serverDone _ _ hrecv =>
    obtain ⟨parser, readList, -, rfl⟩ := RpcSession.recvPacket_eq hrecv
    rfl
  | respond _ _ _ _ hresponse =>
    obtain ⟨packet, -, rfl⟩ := RpcSession.onResponse_eq hresponse
    rfl
  | _ => rfl

end RpcSystem

/-! ## Calls of the session -/

/-- The ways through `RpcSession::CallMethod`. -/
theorem RpcSession.callMethod_eq {session session' : RpcSession T} {status : SocketStatus}
    {allocateGuid allocateGuid' : UInt64} {method : MethodDescriptor T} {request : Msg}
    {context : RequestContext} {controller : RpcController}
    (h : session.callMethod pb status allocateGuid method request context =
      .ok (some controller, allocateGuid', session')) :
    ∃ packet, Packet.new pb (allocateGuid + 1) (some method) request = .ok packet ∧
      allocateGuid' = allocateGuid + 1 ∧ session' = { session with
        requestContext := Function.update session.requestContext (allocateGuid + 1) (some context)
        writeList := session.writeList ++ packet.encode
        sent := session.sent ++ [packet] } := by
  rw [callMethod] at h
  split at h
  · cases (Prod.mk.inj (Except.ok.inj h)).1
  · cases hpacket : Packet.new pb (allocateGuid + 1) (some method) request with
    | error f =>
      simp only [hpacket] at h
      cases h
    | ok packet =>
      simp only [hpacket, ok_bind, sendPacket, sendPacket_byteQueue] at h
      obtain ⟨-, h⟩ := Prod.mk.inj (Except.ok.inj h)
      obtain ⟨rfl, rfl⟩ := Prod.mk.inj h
      exact ⟨packet, rfl, rfl, rfl⟩

/-- A call of the session on a connected socket. -/
theorem RpcSession.callMethod_connected {session : RpcSession T}
    {allocateGuid : UInt64} {method : MethodDescriptor T} {request : Msg} {context : RequestContext}
    {packet : Packet}
    (hpacket : Packet.new pb (allocateGuid + 1) (some method) request = .ok packet) :
    session.callMethod pb .connected allocateGuid method request context =
      .ok (some ⟨session.guid, allocateGuid + 1⟩, allocateGuid + 1, { session with
        requestContext := Function.update session.requestContext (allocateGuid + 1) (some context)
        writeList := session.writeList ++ packet.encode
        sent := session.sent ++ [packet] }) := by
  rw [RpcSession.callMethod, if_neg nofun]
  simp only [hpacket, ok_bind, RpcSession.sendPacket, sendPacket_byteQueue]
  rfl

namespace TwoWay

variable {t t' : TwoWay T Msg}

/-- The contexts of the last `2 ^ 64` calls of the session are in its `request_context_`, and no
done closure has run. -/
structure Unanswered (t : TwoWay T Msg) : Prop where
  allocateGuid : t.allocateGuid = UInt64.ofNat t.calls.length
  context : ∀ j, j < t.calls.length → t.calls.length ≤ j + 2 ^ 64 →
    t.system.session.requestContext (UInt64.ofNat (j + 1)) = some ⟨j, j, j⟩
  runs : ∀ j, t.runs j = 0

/-- No packet that reaches the session is a response. -/
theorem not_sessionResponse (hrequests : t.system.Requests pb) (hpb : pb.RoundTrips) :
    ¬ TwoWayStep pb t .sessionResponse t' := by
  intro hs
  cases hs with
  | sessionResponse _ _ hrecv hresponse =>
    obtain ⟨call, service, -, honPacket, -⟩ := hrequests.serverPacket hpb hrecv t.objects
    rw [hresponse] at honPacket
    cases (Prod.mk.inj honPacket).1

theorem ofNat_ne_of_lt {j n : ℕ} (hlt : j < n) (hle : n < j + 2 ^ 64) :
    UInt64.ofNat (j + 1) ≠ UInt64.ofNat (n + 1) := by
  intro heq
  have heq := congrArg UInt64.toNat heq
  rw [UInt64.toNat_ofNat', UInt64.toNat_ofNat'] at heq
  omega

theorem Unanswered.step (h : t.Unanswered) (hrequests : t.system.Requests pb)
    (hpb : pb.RoundTrips) {e : TwoWayEvent T Msg} (hs : TwoWayStep pb t e t') : t'.Unanswered := by
  cases hs with
  | base hs =>
    have hcontext := RpcSystem.requestContext_step hrequests hpb hs
    refine ⟨h.allocateGuid, fun j hj hle => ?_, h.runs⟩
    exact (congrFun hcontext _).trans (h.context j hj hle)
  | sessionCall _ _ hcall =>
    obtain ⟨packet, -, rfl, rfl⟩ := RpcSession.callMethod_eq hcall
    have hguid : t.allocateGuid + 1 = UInt64.ofNat (t.calls.length + 1) := by
      rw [h.allocateGuid, UInt64.ofNat_add]
      rfl
    refine ⟨?_, fun j hj hle => ?_, h.runs⟩
    · change t.allocateGuid + 1 = UInt64.ofNat (t.calls ++ [_]).length
      rw [hguid, List.length_append]
      rfl
    · change j < (t.calls ++ [_]).length at hj
      change (t.calls ++ [_]).length ≤ j + 2 ^ 64 at hle
      rw [List.length_append, List.length_singleton] at hj hle
      change Function.update t.system.session.requestContext (t.allocateGuid + 1) _ _ = _
      rw [hguid]
      rcases Nat.lt_succ_iff_lt_or_eq.mp hj with hj | rfl
      · rw [Function.update_of_ne (ofNat_ne_of_lt hj hle)]
        exact h.context j hj (Nat.le_of_lt hle)
      · rw [Function.update_self]
        rfl
  | sessionCallClosed => exact h
  | sessionResponse hreads hin hrecv hresponse =>
    exact absurd (.sessionResponse hreads hin hrecv hresponse) (not_sessionResponse hrequests hpb)

/-- The requests of the client are not changed by a call of the session. -/
theorem requests_step (h : t.system.Requests pb) (hcontexts : t.system.client.ContextsOk)
    (hpb : pb.RoundTrips) {e : TwoWayEvent T Msg} (hs : TwoWayStep pb t e t') :
    t'.system.Requests pb ∧ t'.system.client.ContextsOk := by
  cases hs with
  | base hs => exact ⟨h.step hpb hs, RpcSystem.contextsOk_step hcontexts h hs⟩
  | sessionCall _ _ hcall =>
    obtain ⟨packet, -, rfl, rfl⟩ := RpcSession.callMethod_eq hcall
    exact ⟨h.keep h.send rfl rfl rfl rfl h.inFlight, hcontexts⟩
  | sessionCallClosed => exact ⟨h, hcontexts⟩
  | sessionResponse hreads hin hrecv hresponse =>
    exact absurd (.sessionResponse hreads hin hrecv hresponse) (not_sessionResponse h hpb)

theorem mixedResponses_step {order : List ℕ} {n : ℕ} (h : t.system.MixedResponses pb order n)
    (hrequests : t.system.Requests pb) (hcontexts : t.system.client.ContextsOk)
    (hpb : pb.RoundTrips) {e : TwoWayEvent T Msg} (hlt : t.system.client.calls.length < 2 ^ 64)
    (hs : TwoWayStep pb t e t') : ∃ order n, t'.system.MixedResponses pb order n := by
  cases hs with
  | base hs =>
    exact h.step hpb hrequests hcontexts (RpcSystem.fresh_of_calls_lt hrequests hcontexts hlt _) hs
  | sessionCall _ hid hcall =>
    obtain ⟨packet, hpacket, rfl, rfl⟩ := RpcSession.callMethod_eq hcall
    obtain ⟨-, -, -, -, hmethodId, -⟩ := Packet.new_eq hpacket
    have hne : packet.methodId ≠ 0 := by
      intro hzero
      rw [hmethodId _ rfl, hzero] at hid
      exact hid rfl
    exact ⟨order, n, h.sessionCall (Packet.new_isFrame hpb hpacket) hne rfl rfl⟩
  | sessionCallClosed => exact ⟨order, n, h⟩
  | sessionResponse hreads hin hrecv hresponse =>
    exact absurd (.sessionResponse hreads hin hrecv hresponse) (not_sessionResponse hrequests hpb)

theorem calls_le {e : TwoWayEvent T Msg} (hs : TwoWayStep pb t e t') :
    t.system.client.calls.length ≤ t'.system.client.calls.length := by
  cases hs with
  | base hs => exact RpcSystem.calls_le hs
  | _ => exact Nat.le_refl _

variable {service : RpcService T} {guid : UInt64} {object objects : ℕ → Msg}
  {es : List (TwoWayEvent T Msg)}

theorem requests_of_run (hpb : pb.RoundTrips)
    (hrun : Run (TwoWayStep pb) (.new service guid object objects) es t) :
    t.system.Requests pb ∧ t.system.client.ContextsOk := by
  refine hrun.invariant (fun t => t.system.Requests pb ∧ t.system.client.ContextsOk) ?_
    ⟨RpcSystem.requests_new, RpcClient.contextsOk_new guid object⟩
  intro t e t' h hs
  exact requests_step h.1 h.2 hpb hs

theorem mixedResponses_of_run (hpb : pb.RoundTrips)
    (hrun : Run (TwoWayStep pb) (.new service guid object objects) es t) :
    t.system.client.calls.length < 2 ^ 64 → ∃ order n, t.system.MixedResponses pb order n := by
  refine Run.snoc_induction (P := fun _ t => t.system.client.calls.length < 2 ^ 64 →
    ∃ order n, t.system.MixedResponses pb order n)
    (fun _ => ⟨[], 0, RpcSystem.mixedResponses_new⟩) ?_ hrun
  intro es t e t' hrun ih hs hlt
  have hlt := Nat.lt_of_le_of_lt (calls_le hs) hlt
  obtain ⟨hrequests, hcontexts⟩ := requests_of_run hpb hrun
  obtain ⟨order, n, h⟩ := ih hlt
  exact mixedResponses_step h hrequests hcontexts hpb hlt hs

theorem unanswered_of_run (hpb : pb.RoundTrips)
    (hrun : Run (TwoWayStep pb) (.new service guid object objects) es t) :
    .sessionResponse ∉ es ∧ t.Unanswered := by
  refine Run.snoc_induction (P := fun es t => .sessionResponse ∉ es ∧ t.Unanswered) ?_ ?_ hrun
  · exact ⟨List.not_mem_nil, rfl, fun j hj => absurd hj (Nat.not_lt_zero j), fun _ => rfl⟩
  · intro es t e t' hrun ih hs
    obtain ⟨hrequests, -⟩ := requests_of_run hpb hrun
    refine ⟨fun hmem => ?_, ih.2.step hrequests hpb hs⟩
    rcases List.mem_append.mp hmem with hmem | hmem
    · exact ih.1 hmem
    · rw [← List.mem_singleton.mp hmem] at hs
      exact not_sessionResponse hrequests hpb hs

end TwoWay

/-- **Calls of a session are never answered, and the calls of the client go on beside them.** In
every run of a client and a server whose session makes calls too, the session runs no done closure
and keeps the contexts of its last `2 ^ 64` calls in `request_context_`. Although both sides give
their calls the same guids, a done closure of the client runs at most once, and in a run of fewer
than `2 ^ 64` calls of the client its response object then holds the response of the service to its
request; once all bytes have been delivered and every done closure of the services has run, all of
those of the client have run. -/
theorem session_calls_unanswered (hpb : pb.RoundTrips) {service : RpcService T} {guid : UInt64}
    {object objects : ℕ → Msg} {es : List (TwoWayEvent T Msg)} {t : TwoWay T Msg}
    (hrun : Run (TwoWayStep pb) (.new service guid object objects) es t) :
    .sessionResponse ∉ es ∧ (∀ j, t.runs j = 0) ∧
      (∀ j, j < t.calls.length → t.calls.length ≤ j + 2 ^ 64 →
        t.system.session.requestContext (UInt64.ofNat (j + 1)) = some ⟨j, j, j⟩) ∧
      (∀ k, t.system.client.runs k ≤ 1) ∧
      (t.system.client.calls.length < 2 ^ 64 →
        (∀ k, t.system.client.runs k = 1 →
          ∃ call, t.system.Answered k call (t.system.client.object k)) ∧
        (t.system.Settled → ∀ k, k < t.system.client.calls.length →
          t.system.client.runs k = 1)) := by
  obtain ⟨hnone, hsession⟩ := TwoWay.unanswered_of_run hpb hrun
  obtain ⟨hrequests, hcontexts⟩ := TwoWay.requests_of_run hpb hrun
  refine ⟨hnone, hsession.runs, hsession.context, hcontexts.runs_le, fun hlt => ?_⟩
  obtain ⟨order, n, h⟩ := TwoWay.mixedResponses_of_run hpb hrun hlt
  refine ⟨fun k hk => ?_, fun hsettled k hk => ?_⟩
  · by_cases hmem : k ∈ order.take (responsesOf (t.system.session.sent.take n)).length
    · exact (h.responses.ran k hmem).2
    · have hzero : t.system.client.runs k = 0 := by
        rcases Nat.lt_or_ge k t.system.client.calls.length with hlt | hge
        · exact (h.responses.pending k _ (List.getElem?_eq_getElem hlt) hmem).1
        · exact hcontexts.runs_new k hge
      rw [hzero] at hk
      cases hk
  · obtain ⟨invocation, hget⟩ := hrequests.settled hpb hsettled hk
    exact h.settled hsettled hget

namespace TwoWay

variable {t : TwoWay T Msg}

/-- A run without calls of the session. -/
theorem run_base {s s' : RpcSystem T Msg} {es : List (RpcEvent T Msg)} (hs : t.system = s)
    (hrun : Run (RpcStep pb) s es s') :
    Run (TwoWayStep pb) t (es.map .base) (t.setSystem s') := by
  induction hrun generalizing t with
  | nil s =>
    subst hs
    exact .nil t
  | @cons s s₁ _ _ _ hstep _ ih =>
    subst hs
    exact .cons (.base hstep) (ih (t := t.setSystem s₁) rfl)

/-- A request of the session at the front of the wire is dropped. -/
theorem drop {s : RpcSystem T Msg} (packet : Packet) (hreads : s.clientReads = false)
    (hpc : s.client.pc = .idle) (hparser : s.client.channel.parser.state = .recvHeader)
    (hread : s.client.channel.readList = []) (hwrite : s.session.writeList = packet.encode)
    (hframe : packet.IsFrame) (hid : packet.methodId ≠ 0) :
    ∃ s', Run (RpcStep pb) s [.toClient packet.encode.length, .clientPacket, .clientDone] s' ∧
      s'.client = s.client.withReceived ⟨.recvHeader, packet.received⟩ [] ∧
      s'.clientReads = false ∧ s'.serverReads = s.serverReads ∧ s'.inService = s.inService ∧
      s'.invocations = s.invocations ∧ s'.session = { s.session with writeList := [] } := by
  have hle : packet.encode.length ≤ s.session.writeList.length := Nat.le_of_eq (by rw [hwrite])
  have hnil : s.session.writeList.drop packet.encode.length = [] := by
    rw [hwrite, List.drop_length]
  have hwrite' : s.session.writeList = packet.encode ++ [] := by
    rw [hwrite, List.append_nil]
  have hskip : ∀ ch : RpcChannel, ch.onPacket pb s.client.object packet.received = (none, ch) :=
    fun ch => if_pos hid
  refine ⟨_, .cons (.toClient hreads hpc packet.encode_length_pos hle) <|
    .cons (.clientPacket rfl hpc
      (RpcChannel.recvPacket_frame (RpcSystem.pending_take hparser hread hwrite') hframe)
      (.skip hpc (hskip _))) <| .single (.clientDone rfl hpc rfl), rfl, rfl, rfl, rfl, rfl, ?_⟩
  change { s.session with writeList := s.session.writeList.drop packet.encode.length } = _
  rw [hnil]

/-- The call of `echo` in `RpcSystem.EchoCall`, and a call of the session with the same guid, whose
request reaches the client first. -/
theorem both_call : ∃ es t, Run (TwoWayStep Protobuf.oneByte)
    (.new (.single .echo 16150113815174350619) 3 (fun _ => 0) fun _ => 0) es t ∧
      t.calls.length = 1 ∧ t.system.client.calls.length = 1 ∧ t.system.client.object 0 = 9 ∧
      t.system.client.runs 0 = 1 ∧ t.system.Settled := by
  obtain ⟨es, s, hrun, h⟩ := RpcSystem.echoCall
  have hnew : Packet.new Protobuf.oneByte (0 + 1) (some .echo) 5 = .ok (.echo 1 5) :=
    Packet.new_single MethodDescriptor.hash_echo _ _
  have hid : hashString MethodDescriptor.echo.fullName ≠ .ok 0 := by
    rw [MethodDescriptor.hash_echo]
    intro heq
    cases heq
  have hwrite₁ : s.session.writeList ++ (Packet.echo 1 5).encode = (Packet.echo 1 5).encode := by
    rw [h.session]
    rfl
  obtain ⟨s₁, hs₁⟩ : ∃ s₁, s₁ = s.setSession { s.session with
      requestContext := Function.update s.session.requestContext (0 + 1) (some ⟨0, 0, 0⟩)
      writeList := s.session.writeList ++ (Packet.echo 1 5).encode
      sent := s.session.sent ++ [.echo 1 5] } := ⟨_, rfl⟩
  have hclient₁ : s₁.client = s.client := by rw [hs₁]; rfl
  obtain ⟨s₂, hrun₂, hclient, hreads, hserver, hservice, hinvocations, hsession⟩ :=
    @drop _ _ Protobuf.oneByte s₁ (.echo 1 5) (by rw [hs₁]; exact h.client.reads)
      (by rw [hclient₁]; exact h.client.pc) (by rw [hclient₁]; exact h.client.parser)
      (by rw [hclient₁]; exact h.client.readList) (by rw [hs₁]; exact hwrite₁) ⟨rfl, rfl⟩
      (by decide)
  have hready₂ : s₂.ServerReady := by
    refine ⟨?_, ?_, ?_, ?_⟩
    · rw [hserver, hs₁]
      exact h.server.reads
    · rw [hservice, hs₁]
      exact h.server.inService
    · rw [hsession, hs₁]
      exact h.server.parser
    · rw [hsession, hs₁]
      exact h.server.readList
  have hget : s₂.session.service.getService 16150113815174350619 = some ⟨9, .echo⟩ := by
    rw [hsession, hs₁]
    change s.session.service.getService _ = _
    rw [h.session]
    exact RpcSystem.getService_echo
  obtain ⟨es₃, s₃, hrun₃, hready₃, hclient₃, hreads₃, -, hwrite₃, hinvocations₃⟩ :=
    RpcSystem.serve Protobuf.oneByte_roundTrips (.echo 1 7) (.echoResponse 1) 9 hready₂
      (by rw [hclient, hclient₁]; exact h.writeList) ⟨rfl, rfl⟩ (by decide) hget rfl rfl rfl rfl
  have hwire : s₃.session.writeList = (Packet.echoResponse 1).encode ++ [] := by
    rw [hwrite₃, hsession]
    rfl
  have hchannel₃ : s₃.client.channel = { s.client.channel with
      parser := ⟨.recvHeader, (Packet.echo 1 5).received⟩, readList := [], writeList := [] } := by
    rw [hclient₃, hclient, hclient₁]
    rfl
  have hclientReady₃ : s₃.ClientReady := by
    refine ⟨hreads₃.trans hreads, ?_, by rw [hchannel₃], by rw [hchannel₃]⟩
    rw [hclient₃, hclient, hclient₁]
    exact h.client.pc
  have hcontext₃ : s₃.client.channel.requestContext 1 = some ⟨0, 0, 0⟩ := by
    rw [hchannel₃]
    change s.client.channel.requestContext 1 = _
    rw [h.requestContext, Function.update_self]
  have hparse : Protobuf.oneByte.parse (Protobuf.oneByte.typeOf (s₃.client.object 0)) [9] =
      (true, 9) := rfl
  obtain ⟨es₄, s₄, hrun₄, hready₄, hruns, hobject, hcalls, hchannel₄, hsession₄, hserver₄, -,
      hinvocations₄⟩ :=
    RpcSystem.deliver (.echoResponse 1) ⟨0, 0, 0⟩ 9 hclientReady₃ hwire
      ⟨rfl, rfl⟩ rfl hcontext₃ hparse
  refine ⟨_, _, (run_base rfl hrun).append <|
    .cons (@TwoWayStep.sessionCall _ _ _ _ .connected .echo 5 0 _ _ _ (.inl h.server.reads) hid
      (RpcSession.callMethod_connected hnew)) <|
    run_base hs₁.symm (hrun₂.append (hrun₃.append hrun₄)), rfl, ?_, ?_, ?_, ?_⟩
  · change s₄.client.calls.length = 1
    rw [hcalls, hclient₃, hclient, hclient₁]
    exact h.length
  · change s₄.client.object 0 = 9
    rw [hobject, Function.update_self]
  · change s₄.client.runs 0 = 1
    rw [hruns, Function.update_self, hclient₃, hclient, hclient₁]
    change s.client.runs 0 + 1 = 1
    rw [h.runs]
  · refine ⟨?_, hready₄.pc, hready₄.reads, hserver₄.trans hready₃.reads, ?_, ?_, ?_⟩
    · change s₄.client.channel.status = .connected
      rw [hchannel₄, hchannel₃]
      exact h.status
    · change s₄.client.channel.writeList = []
      rw [hchannel₄, hchannel₃]
    · change s₄.session.writeList = []
      rw [hsession₄]
    · change ∀ invocation ∈ s₄.invocations, _
      rw [hinvocations₄, hinvocations₃, hinvocations, hs₁]
      change ∀ invocation ∈ s.invocations ++ _, _
      rw [h.invocations]
      intro invocation hmem
      rw [List.mem_singleton.mp hmem]
      nofun

end TwoWay

/-- Both sides call `echo` under the guid 1. -/
theorem session_calls_unanswered_echo : ∃ es t, Run (TwoWayStep Protobuf.oneByte)
    (.new (.single .echo 16150113815174350619) 3 (fun _ => 0) fun _ => 0) es t ∧
      t.system.Settled ∧ t.system.client.object 0 = 9 ∧ .sessionResponse ∉ es ∧
      (∀ j, t.runs j = 0) ∧ t.system.session.requestContext 1 = some ⟨0, 0, 0⟩ ∧
      (∀ k, t.system.client.runs k ≤ 1) ∧ t.system.client.runs 0 = 1 ∧
      ∃ call, t.system.Answered 0 call (t.system.client.object 0) := by
  obtain ⟨es, t, hrun, hcalls, hlength, hobject, hran, hsettled⟩ := TwoWay.both_call
  obtain ⟨hnone, hruns, hcontext, hle, hmeet⟩ :=
    session_calls_unanswered Protobuf.oneByte_roundTrips hrun
  obtain ⟨hanswered, -⟩ := hmeet (by rw [hlength]; decide)
  exact ⟨es, t, hrun, hsettled, hobject, hnone, hruns,
    hcontext 0 (by rw [hcalls]; decide) (by rw [hcalls]; decide), hle, hran, hanswered 0 hran⟩

end ServerKit
