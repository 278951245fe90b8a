import ServerKit.Rpc.Verify.Requests

/-!
# One exchange

What a request at the front of the wire leads to (`reach`), also when its service answers at once
(`serve`), and what a response at the front of the wire leads to (`deliver`).
-/

namespace ServerKit

open Lib

variable {T Msg : Type} {pb : Protobuf T Msg}

theorem Packet.encode_length_pos (packet : Packet) : 0 < packet.encode.length := by
  rw [encode_length]
  exact Nat.lt_of_lt_of_le (by decide) (Nat.le_add_right kMetaSize _)

/-- A call of `RecvPacket` with a frame at the front of the pending bytes. -/
theorem RpcChannel.recvPacket_frame {ch : RpcChannel} {packet : Packet} {rest : List UInt8}
    (hp : PacketParser.Pending ch.parser ch.readList (packet.encode ++ rest))
    (hf : packet.IsFrame) :
    ch.recvPacket = .ok (true,
      { ch with parser := ⟨.recvHeader, packet.received⟩, readList := rest }) := by
  have hrecv := PacketParser.recvPacket_spec hp
  unfold PacketParser.Receives at hrecv
  rw [nextFrame_encode hf] at hrecv
  rw [recvPacket, hrecv]
  rfl

theorem RpcSession.onResponse_ok {session : RpcSession T} {context : ResponseContext Msg}
    {response : Msg}
    {packet : Packet} (h : Packet.new pb context.guid none response = .ok packet) :
    session.onResponse pb context response = .ok { session with
        writeList := session.writeList ++ packet.encode
        sent := session.sent ++ [packet] } := by
  rw [onResponse, h, ok_bind, sendPacket, sendPacket_byteQueue]
  rfl

theorem RpcChannel.onPacket_response {ch : RpcChannel} {object : ℕ → Msg} (packet : Packet)
    {context : RequestContext} {ret : Bool} {value : Msg} (hzero : packet.methodId = 0)
    (hcontext : ch.requestContext packet.guid = some context)
    (hparse : pb.parse (pb.typeOf (object context.response)) packet.content = (ret, value)) :
    ch.onPacket pb object packet =
      (some (context, ret, value), ch.setContext packet.guid none) := by
  rw [onPacket, if_neg (not_not.mpr hzero), hcontext]
  simp only [hparse]

/-- A call in state `CONNECTED`. -/
theorem RpcChannel.callMethod_connected {ch : RpcChannel} {method : MethodDescriptor T}
    {request : Msg} {context : RequestContext} {packet : Packet} {err : ℤ}
    (hstatus : ch.status = .connected)
    (hpacket : Packet.new pb (ch.allocateGuid + 1) (some method) request = .ok packet) :
    ch.callMethod pb method request context err =
      .ok (some ⟨ch.guid, ch.allocateGuid + 1⟩,
        { ch.incAllocateGuid.setContext (ch.allocateGuid + 1) (some context) with
          writeList := ch.writeList ++ packet.encode
          sent := ch.sent ++ [packet] }) := by
  rw [callMethod, hstatus]
  simp only [incAllocateGuid, hpacket, ok_bind, sendPacket_eq]
  rfl

namespace RpcSystem

variable {s : RpcSystem T Msg}

theorem pending_take {parser : PacketParser} {readList writeList : List UInt8} {packet : Packet}
    {rest : List UInt8} (hparser : parser.state = .recvHeader) (hread : readList = [])
    (hwrite : writeList = packet.encode ++ rest) :
    PacketParser.Pending parser (readList ++ writeList.take packet.encode.length)
      (packet.encode ++ []) := by
  obtain ⟨state, old⟩ := parser
  obtain rfl : state = .recvHeader := hparser
  rw [hread, hwrite, List.take_left, List.append_nil]
  exact .header _ _

/-- The server has read all that has come, and is at rest. -/
structure ServerReady (s : RpcSystem T Msg) : Prop where
  reads : s.serverReads = false
  inService : s.inService = false
  parser : s.session.parser.state = .recvHeader
  readList : s.session.readList = []

/-- The client has read all that has come, and is at rest. -/
structure ClientReady (s : RpcSystem T Msg) : Prop where
  reads : s.clientReads = false
  pc : s.client.pc = .idle
  parser : s.client.channel.parser.state = .recvHeader
  readList : s.client.channel.readList = []

/-- The request at the front of the wire reaches its service, which does not answer yet. -/
theorem reach (hpb : pb.RoundTrips) (packet : Packet) {rest : List UInt8} {service : ServicePtr}
    {method : MethodDescriptor T} {request : Msg} (h : s.ServerReady)
    (hwrite : s.client.channel.writeList = packet.encode ++ rest) (hframe : packet.IsFrame)
    (hzero : packet.methodId ≠ 0)
    (hget : s.session.service.getService packet.methodId = some ⟨service, method⟩)
    (hcontent : packet.content = pb.serialize request)
    (hinput : pb.typeOf request = method.inputType) :
    ∃ es s', Run (RpcStep pb) s es s' ∧ s'.ServerReady ∧
      s'.client = s.client.setChannel { s.client.channel with writeList := rest } ∧
      s'.clientReads = s.clientReads ∧ s'.session.service = s.session.service ∧
      s'.session.writeList = s.session.writeList ∧
      s'.invocations = s.invocations ++
        [⟨⟨service, method⟩, ⟨s.session.guid, packet.guid, request⟩, none⟩] := by
  have hle : packet.encode.length ≤ s.client.channel.writeList.length := by
    rw [hwrite, List.length_append]
    exact Nat.le_add_right _ _
  have hrest : s.client.channel.writeList.drop packet.encode.length = rest := by
    rw [hwrite, List.drop_left]
  refine ⟨[.toServer packet.encode.length, .serverPacket, .serviceRet, .serverDone], _,
    .cons (.toServer h.reads packet.encode_length_pos hle) <|
    .cons (@RpcStep.serverCall _ _ _ _ _ _ s.client.object _ _ rfl h.inService
      (RpcSession.recvPacket_frame (pending_take h.parser h.readList hwrite) hframe)
      (RpcSession.onPacket_request hpb _ packet.received hzero hget hcontent hinput)) <|
    .cons (.serviceRet rfl) <| .single (.serverDone rfl rfl rfl), ⟨rfl, rfl, rfl, rfl⟩, ?_, rfl,
    rfl, rfl, rfl⟩
  change s.client.setChannel { s.client.channel with
    writeList := s.client.channel.writeList.drop packet.encode.length } = _
  rw [hrest]

/-- The request at the front of the wire reaches its service, which answers. -/
theorem serve (hpb : pb.RoundTrips) (packet packet' : Packet) (response : Msg) {rest : List UInt8}
    {service : ServicePtr} {method : MethodDescriptor T} {request : Msg} (h : s.ServerReady)
    (hwrite : s.client.channel.writeList = packet.encode ++ rest) (hframe : packet.IsFrame)
    (hzero : packet.methodId ≠ 0)
    (hget : s.session.service.getService packet.methodId = some ⟨service, method⟩)
    (hcontent : packet.content = pb.serialize request)
    (hinput : pb.typeOf request = method.inputType)
    (houtput : pb.typeOf response = method.outputType)
    (hpacket : Packet.new pb packet.guid none response = .ok packet') :
    ∃ es s', Run (RpcStep pb) s es s' ∧ s'.ServerReady ∧
      s'.client = s.client.setChannel { s.client.channel with writeList := rest } ∧
      s'.clientReads = s.clientReads ∧ s'.session.service = s.session.service ∧
      s'.session.writeList = s.session.writeList ++ packet'.encode ∧
      s'.invocations = s.invocations ++
        [⟨⟨service, method⟩, ⟨s.session.guid, packet.guid, request⟩, some response⟩] := by
  obtain ⟨es, s₁, hrun, h₁, hclient, hreads, hservice, hsession, hinvocations⟩ :=
    reach hpb packet h hwrite hframe hzero hget hcontent hinput
  have hlast : s₁.invocations[s.invocations.length]? =
      some ⟨⟨service, method⟩, ⟨s.session.guid, packet.guid, request⟩, none⟩ := by
    rw [hinvocations]
    exact List.getElem?_concat_length
  refine ⟨_, _, hrun.snoc (.respond (.inl h₁.reads) hlast rfl houtput
    (RpcSession.onResponse_ok hpacket)), ⟨h₁.reads, h₁.inService, h₁.parser, h₁.readList⟩, hclient,
    hreads, hservice, ?_, ?_⟩
  · change s₁.session.writeList ++ packet'.encode = _
    rw [hsession]
  · change s₁.invocations.set s.invocations.length _ = _
    rw [hinvocations, List.set_append_right _ _ (Nat.le_refl _), Nat.sub_self]
    rfl

/-- The response at the front of the wire reaches its pending call. -/
theorem deliver (packet : Packet) (context : RequestContext) (response : Msg) {rest : List UInt8}
    (h : s.ClientReady) (hwrite : s.session.writeList = packet.encode ++ rest)
    (hframe : packet.IsFrame) (hzero : packet.methodId = 0)
    (hcontext : s.client.channel.requestContext packet.guid = some context)
    (hparse : pb.parse (pb.typeOf (s.client.object context.response)) packet.content =
      (true, response)) :
    ∃ es s', Run (RpcStep pb) s es s' ∧ s'.ClientReady ∧
      s'.client.runs = Function.update s.client.runs context.done (s.client.runs context.done + 1) ∧
      s'.client.object = Function.update s.client.object context.response response ∧
      s'.client.calls = s.client.calls ∧
      s'.client.channel = { s.client.channel with
        parser := ⟨.recvHeader, packet.received⟩
        readList := []
        requestContext := Function.update s.client.channel.requestContext packet.guid none } ∧
      s'.session = { s.session with writeList := rest } ∧ s'.serverReads = s.serverReads ∧
      s'.inService = s.inService ∧ s'.invocations = s.invocations := by
  have hle : packet.encode.length ≤ s.session.writeList.length := by
    rw [hwrite, List.length_append]
    exact Nat.le_add_right _ _
  have hrest : s.session.writeList.drop packet.encode.length = rest := by
    rw [hwrite, List.drop_left]
  refine ⟨[.toClient packet.encode.length, .clientPacket, .ret, .clientDone], _,
    .cons (.toClient h.reads h.pc packet.encode_length_pos hle) <|
    .cons (.clientPacket rfl h.pc
      (RpcChannel.recvPacket_frame (pending_take h.parser h.readList hwrite) hframe)
      (.response h.pc (RpcChannel.onPacket_response packet.received hzero hcontext hparse))) <|
    .cons (.ret (.ret rfl)) <| .single (.clientDone rfl rfl rfl),
    ⟨rfl, rfl, rfl, rfl⟩, rfl, rfl, rfl, rfl, ?_, rfl, rfl, rfl⟩
  change { s.session with writeList := s.session.writeList.drop packet.encode.length } = _
  rw [hrest]

end RpcSystem

end ServerKit
