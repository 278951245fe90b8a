import ServerKit.Rpc.RpcSession
import ServerKit.Rpc.Verify.Framing

/-!
# Requests reach their own method

`Register` keeps the hashes of the names apart, so a method id in `method_map_` is that of one
method. A method whose hash is 0 has the id that marks a response.
-/

namespace ServerKit

open Lib

variable {T Msg : Type}

/-! ## Registration -/

namespace RpcService

variable {s s' : RpcService T}

/-- The id of the name leads to the method and its service. -/
def Has (s : RpcService T) (service : ServicePtr) (method : MethodDescriptor T) : Prop :=
  ∃ methodId, hashString method.fullName = .ok methodId ∧
    s.getService methodId = some ⟨service, method⟩

/-- What `Register` of one method does when the `ASSERT` does not fire. -/
theorem registerMethod_eq {service : ServicePtr} {method : MethodDescriptor T}
    (h : s.registerMethod service method = .ok s') :
    ∃ methodId, hashString method.fullName = .ok methodId ∧ s.methodMap methodId = none ∧
      s' = ⟨Function.update s.methodMap methodId (some ⟨service, method⟩)⟩ := by
  rw [registerMethod] at h
  cases hid : hashString method.fullName with
  | error f =>
    rw [hid] at h
    cases h
  | ok methodId =>
    rw [hid, ok_bind] at h
    cases hfree : s.methodMap methodId with
    | none =>
      rw [hfree] at h
      exact ⟨methodId, rfl, hfree, (Except.ok.inj h).symm⟩
    | some method' =>
      rw [hfree] at h
      cases h

/-- A method that is there stays there: `Register` never writes its key again. -/
theorem Has.registerMethod {service service' : ServicePtr} {method method' : MethodDescriptor T}
    (h : s.Has service method) (hs : s.registerMethod service' method' = .ok s') :
    s'.Has service method := by
  obtain ⟨methodId, hid, hget⟩ := h
  obtain ⟨methodId', -, hfree, rfl⟩ := registerMethod_eq hs
  refine ⟨methodId, hid, ?_⟩
  have hne : methodId ≠ methodId' := by
    rintro rfl
    rw [getService, hfree] at hget
    cases hget
  exact (Function.update_of_ne hne ..).trans hget

theorem has_registerMethod {service : ServicePtr} {method : MethodDescriptor T}
    (hs : s.registerMethod service method = .ok s') : s'.Has service method := by
  obtain ⟨methodId, hid, -, rfl⟩ := registerMethod_eq hs
  exact ⟨methodId, hid, Function.update_self ..⟩

theorem registerMethods_has {service : ServicePtr} (methods : List (MethodDescriptor T)) :
    ∀ {s s' : RpcService T}, s.registerMethods service methods = .ok s' →
      (∀ method ∈ methods, s'.Has service method) ∧
        ∀ service' method', s.Has service' method' → s'.Has service' method' := by
  induction methods with
  | nil =>
    intro s s' h
    obtain rfl := Except.ok.inj h
    exact ⟨by simp, fun _ _ h => h⟩
  | cons method methods ih =>
    intro s s' h
    rw [registerMethods] at h
    cases hs : s.registerMethod service method with
    | error f =>
      rw [hs] at h
      cases h
    | ok s₁ =>
      rw [hs, ok_bind] at h
      obtain ⟨hnew, hold⟩ := ih h
      refine ⟨fun m hm => ?_, fun service' method' h => hold _ _ (h.registerMethod hs)⟩
      rcases List.mem_cons.mp hm with rfl | hm
      · exact hold _ _ (has_registerMethod hs)
      · exact hnew m hm

/-- **Every registered method is found** under the hash of its name. -/
theorem registerAll_has (services : List (Service T)) :
    ∀ {s s' : RpcService T}, s.registerAll services = .ok s' →
      (∀ service ∈ services, ∀ method ∈ service.methods, s'.Has service.ptr method) ∧
        ∀ service' method', s.Has service' method' → s'.Has service' method' := by
  induction services with
  | nil =>
    intro s s' h
    obtain rfl := Except.ok.inj h
    exact ⟨by simp, fun _ _ h => h⟩
  | cons service services ih =>
    intro s s' h
    rw [registerAll] at h
    cases hs : s.register service with
    | error f =>
      rw [hs] at h
      cases h
    | ok s₁ =>
      rw [hs, ok_bind] at h
      obtain ⟨hnew, hold⟩ := ih h
      obtain ⟨hmethods, hkeeps⟩ := registerMethods_has service.methods hs
      refine ⟨fun x hx method hmethod => ?_, fun service' method' h => hold _ _ (hkeeps _ _ h)⟩
      rcases List.mem_cons.mp hx with rfl | hx
      · exact hold _ _ (hmethods method hmethod)
      · exact hnew x hx method hmethod

end RpcService

/-! ## Packets -/

/-- What the constructor makes of a method and a message. -/
theorem Packet.new_eq {pb : Protobuf T Msg} {id : UInt64} {method : Option (MethodDescriptor T)}
    {req : Msg} {packet : Packet} (h : Packet.new pb id method req = .ok packet) :
    packet.magic = kPacketMagicNum ∧ packet.guid = id ∧ packet.content = pb.serialize req ∧
      packet.size = UInt32.ofNat (pb.serialize req).length ∧
      (∀ m, method = some m → hashString m.fullName = .ok packet.methodId) ∧
      (method = none → packet.methodId = 0) := by
  cases method with
  | none =>
    obtain rfl := Except.ok.inj h
    exact ⟨rfl, rfl, rfl, rfl, nofun, fun _ => rfl⟩
  | some m =>
    rw [Packet.new] at h
    cases hid : hashString m.fullName with
    | error f =>
      rw [hid] at h
      cases h
    | ok methodId =>
      rw [hid] at h
      obtain rfl := Except.ok.inj h
      refine ⟨rfl, rfl, rfl, rfl, fun m' hm => ?_, nofun⟩
      rw [← Option.some.inj hm]
      exact hid

/-- A packet of a message of less than 2 GiB is a frame. -/
theorem Packet.new_isFrame {pb : Protobuf T Msg} (hpb : pb.RoundTrips) {id : UInt64}
    {method : Option (MethodDescriptor T)} {req : Msg} {packet : Packet}
    (h : Packet.new pb id method req = .ok packet) : packet.IsFrame := by
  obtain ⟨hmagic, -, hcontent, hsize, -⟩ := Packet.new_eq h
  have hlen := hpb.serialize_length req
  refine ⟨hmagic, ?_⟩
  rw [hsize, hcontent, UInt32.toNat_ofNat_of_lt']
  exact Nat.lt_trans hlen (by decide)

/-! ## Dispatch -/

namespace RpcSession

variable {s : RpcSession T} {pb : Protobuf T Msg}

/-- A call of `RecvPacket` with a frame at the front of the pending bytes. -/
theorem recvPacket_frame {packet : Packet} {rest : List UInt8}
    (hp : PacketParser.Pending s.parser s.readList (packet.encode ++ rest)) (hf : packet.IsFrame) :
    s.recvPacket = .ok (true,
      { s with parser := ⟨.recvHeader, packet.received⟩, readList := rest }) := by
  have hrecv := PacketParser.recvPacket_spec hp
  unfold PacketParser.Receives at hrecv
  rw [nextFrame_encode hf] at hrecv
  rw [recvPacket, hrecv]
  rfl

/-- A request whose method id is not 0 goes to the method with that id. -/
theorem onPacket_request (hpb : pb.RoundTrips) (object : ℕ → Msg) (packet : Packet)
    {service : ServicePtr} {method : MethodDescriptor T} {request : Msg}
    (hzero : packet.methodId ≠ 0)
    (hget : s.service.getService packet.methodId = some ⟨service, method⟩)
    (hcontent : packet.content = pb.serialize request)
    (htype : pb.typeOf request = method.inputType) :
    s.onPacket pb object packet =
      (.callService ⟨service, method⟩ ⟨s.guid, packet.guid, request⟩, s) := by
  have hparse := hpb.parse_serialize request
  rw [htype] at hparse
  rw [onPacket, if_pos hzero, runService, hget, hcontent]
  simp only [hparse]
  rfl

/-- A packet whose method id is 0 is taken for a response. -/
theorem onPacket_zero {object : ℕ → Msg} {packet : Packet} (hzero : packet.methodId = 0)
    (method : RpcMeta T) (context : ResponseContext Msg) :
    (s.onPacket pb object packet).1 ≠ .callService method context := by
  rw [onPacket, if_neg (not_not.mpr hzero)]
  cases s.requestContext packet.guid with
  | none => nofun
  | some c => nofun

end RpcSession

/-- **Exactly when dispatch is faithful.** After any `Register` calls whose `ASSERT` does not fire,
a request packet of a registered method that `OnRead` receives is handed to the service and the
descriptor of that method if and only if the hash of its name is not 0. -/
theorem request_dispatch_iff {pb : Protobuf T Msg} (hpb : pb.RoundTrips)
    {services : List (Service T)} {session : RpcSession T}
    (hregister : RpcService.registerAll (.new T) services = .ok session.service)
    {service : Service T} (hservice : service ∈ services) {method : MethodDescriptor T}
    (hmethod : method ∈ service.methods) {guid : UInt64} {request : Msg}
    (htype : pb.typeOf request = method.inputType) {packet : Packet}
    (hpacket : Packet.new pb guid (some method) request = .ok packet) {rest : List UInt8}
    (hpending : PacketParser.Pending session.parser session.readList (packet.encode ++ rest))
    (object : ℕ → Msg) :
    ∃ session', session.recvPacket = .ok (true, session') ∧
      ((session'.onPacket pb object session'.parser.getPacket).1 =
          .callService ⟨service.ptr, method⟩ ⟨session.guid, guid, request⟩ ↔
        hashString method.fullName ≠ .ok 0) := by
  obtain ⟨methodId, hid, hget⟩ := (RpcService.registerAll_has services hregister).1 service hservice
    method hmethod
  obtain ⟨-, hguid, hcontent, -, hmethodId, -⟩ := Packet.new_eq hpacket
  have hmethodId := Except.ok.inj ((hmethodId method rfl).symm.trans hid)
  refine ⟨_, RpcSession.recvPacket_frame hpending (Packet.new_isFrame hpb hpacket), ?_⟩
  constructor
  · intro hcall hzero
    have hzero := Except.ok.inj (hid.symm.trans hzero)
    exact RpcSession.onPacket_zero (hmethodId.trans hzero) _ _ hcall
  · intro hne
    have hzero : packet.received.methodId ≠ 0 := by
      intro h
      rw [hid, ← hmethodId] at hne
      exact hne (congrArg _ h)
    have hget : session.service.getService packet.received.methodId =
        some ⟨service.ptr, method⟩ := by
      rw [← hmethodId] at hget
      exact hget
    have hcall := RpcSession.onPacket_request
      (s := { session with parser := ⟨.recvHeader, packet.received⟩, readList := rest })
      hpb object packet.received hzero hget hcontent htype
    rw [PacketParser.getPacket, hcall, ← hguid]
    rfl

/-- Messages of one byte. -/
def Protobuf.oneByte : Protobuf Unit UInt8 where
  typeOf := fun _ => ()
  serialize := fun m => [m]
  parse := fun _ bytes => (true, bytes.headD 0)

theorem Protobuf.oneByte_roundTrips : Protobuf.oneByte.RoundTrips where
  parse_serialize := fun _ => rfl
  serialize_length := by
    intro m
    change 1 < 2 ^ 31
    decide

/-- A method with the name `echo`. -/
def MethodDescriptor.echo : MethodDescriptor Unit where
  fullName := [101, 99, 104, 111]
  inputType := ()
  outputType := ()

/-- A method with the name `rpc.EchoService.GCmsvoYL4wPhS7r9`. -/
def MethodDescriptor.zero : MethodDescriptor Unit where
  fullName := [114, 112, 99, 46, 69, 99, 104, 111, 83, 101, 114, 118, 105, 99, 101, 46,
    71, 67, 109, 115, 118, 111, 89, 76, 52, 119, 80, 104, 83, 55, 114, 57]
  inputType := ()
  outputType := ()

theorem MethodDescriptor.hash_echo :
    hashString MethodDescriptor.echo.fullName = .ok 16150113815174350619 := by decide

theorem MethodDescriptor.hash_zero : hashString MethodDescriptor.zero.fullName = .ok 0 := by decide

/-- A server with one method, the service 9 of which has the id `methodId`. -/
def RpcService.single (method : MethodDescriptor Unit) (methodId : UInt64) : RpcService Unit :=
  ⟨Function.update (RpcService.new Unit).methodMap methodId (some ⟨9, method⟩)⟩

theorem RpcService.registerAll_single {method : MethodDescriptor Unit} {methodId : UInt64}
    (hid : hashString method.fullName = .ok methodId) :
    RpcService.registerAll (.new Unit) [⟨9, [method]⟩] = .ok (.single method methodId) := by
  simp only [registerAll, register, registerMethods, registerMethod, hid, ok_bind]
  rfl

theorem Packet.new_single {method : MethodDescriptor Unit} {methodId : UInt64}
    (hid : hashString method.fullName = .ok methodId) (guid : UInt64) (request : UInt8) :
    Packet.new Protobuf.oneByte guid (some method) request =
      .ok ⟨kPacketMagicNum, guid, methodId, 1, [request], false⟩ := by
  simp only [Packet.new, hid, ok_bind]
  rfl

/-- A session of this server, whose socket has one request for the method. -/
def RpcSession.withRequest (method : MethodDescriptor Unit) (methodId : UInt64) :
    RpcSession Unit :=
  { RpcSession.new (.single method methodId) with
    readList := (Packet.mk kPacketMagicNum 1 methodId 1 [7] false).encode ++ [] }

/-- A request for the method `echo` of the service 9. -/
theorem request_dispatch_iff_echo : ∃ session',
    (RpcSession.withRequest .echo 16150113815174350619).recvPacket = .ok (true, session') ∧
      ((session'.onPacket Protobuf.oneByte (fun _ => 0) session'.parser.getPacket).1 =
          .callService ⟨9, .echo⟩ ⟨0, 1, 7⟩ ↔
        hashString MethodDescriptor.echo.fullName ≠ .ok 0) := by
  have hregister : RpcService.registerAll (.new Unit) [⟨9, [.echo]⟩] =
      .ok (RpcSession.withRequest .echo 16150113815174350619).service :=
    RpcService.registerAll_single MethodDescriptor.hash_echo
  have hservice : (⟨9, [.echo]⟩ : Service Unit) ∈ [⟨9, [.echo]⟩] := List.mem_singleton.mpr rfl
  have hmethod : MethodDescriptor.echo ∈ [MethodDescriptor.echo] := List.mem_singleton.mpr rfl
  exact request_dispatch_iff Protobuf.oneByte_roundTrips hregister hservice hmethod rfl
    (Packet.new_single MethodDescriptor.hash_echo 1 7) (.header _ _) _

/-- A request for a method whose name has the hash 0 is dropped: it is taken for a response. -/
theorem request_taken_for_response :
    RpcService.registerAll (.new Unit) [⟨9, [.zero]⟩] =
        .ok (RpcSession.withRequest .zero 0).service ∧
      Packet.new Protobuf.oneByte 1 (some .zero) 7 = .ok ⟨kPacketMagicNum, 1, 0, 1, [7], false⟩ ∧
      ∃ session', (RpcSession.withRequest .zero 0).recvPacket = .ok (true, session') ∧
        (session'.onPacket Protobuf.oneByte (fun _ => 0) session'.parser.getPacket).1 = .skip :=
  ⟨RpcService.registerAll_single MethodDescriptor.hash_zero,
    Packet.new_single MethodDescriptor.hash_zero 1 7, _,
    RpcSession.recvPacket_frame (.header _ _) ⟨rfl, rfl⟩, rfl⟩

end ServerKit
