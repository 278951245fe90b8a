import ServerKit.Rpc.RpcSystem
import ServerKit.Rpc.Verify.ClientCalls
import ServerKit.Rpc.Verify.InFlight

/-!
# Requests reach the services in call order

The first part of the invariant of a client and a server: the services have been called for the
first of the calls, and the requests behind these are on the way.
-/

namespace ServerKit

open Lib

variable {T Msg : Type} {pb : Protobuf T Msg}

/-- The packet sent at place `i` is that of the `i`-th call. -/
theorem RpcClient.SendOk.sent_get {c : RpcClient T Msg} (h : c.SendOk pb) {i : ℕ} {packet : Packet}
    (hpacket : c.channel.sent[i]? = some packet) :
    ∃ call, c.calls[i]? = some call ∧ RpcClient.requestPacket pb i call = .ok packet := by
  have hlt := (List.getElem?_eq_some_iff.mp hpacket).1
  have hget : ((c.channel.sent ++ c.channel.packetQueue).map Except.ok)[i]? =
      some (.ok packet : Except Fault Packet) := by
    rw [List.getElem?_map, List.getElem?_append_left hlt, hpacket]
    rfl
  rw [h.packets, List.getElem?_mapIdx] at hget
  obtain ⟨call, hcall, heq⟩ := Option.map_eq_some_iff.mp hget
  exact ⟨call, hcall, heq⟩

theorem RpcClient.SendOk.isFrame {c : RpcClient T Msg} (h : c.SendOk pb) (hpb : pb.RoundTrips) :
    ∀ packet ∈ c.channel.sent, packet.IsFrame := by
  intro packet hmem
  obtain ⟨i, hi⟩ := List.mem_iff_getElem?.mp hmem
  obtain ⟨call, -, hpacket⟩ := h.sent_get hi
  exact Packet.new_isFrame hpb hpacket

/-- Whether a step accepts a call or not, the calls stay as they are otherwise. -/
theorem RpcClient.calls_step {c c' : RpcClient T Msg} {e : ClientEvent T Msg}
    (hs : ClientStep pb c e c') :
    c'.calls = c.calls ∨ ∃ method request response err controller,
      e = .call method request response err ∧ c'.calls = c.calls ++
        [⟨method, request, controller⟩] := by
  cases hs with
  | call => exact .inr ⟨_, _, _, _, _, rfl, rfl⟩
  | _ => exact .inl rfl

theorem RpcClient.calls_get {c c' : RpcClient T Msg} {e : ClientEvent T Msg}
    (hs : ClientStep pb c e c') {k : ℕ} {call : RpcCall T Msg} (hk : c.calls[k]? = some call) :
    c'.calls[k]? = some call := by
  rcases RpcClient.calls_step hs with heq | ⟨_, _, _, _, _, -, heq⟩
  · rw [heq]
    exact hk
  · rw [heq]
    exact getElem?_snoc.mpr (.inl hk)

/-! ## The functions of the session -/

theorem RpcChannel.recvPacket_eq {ch ch' : RpcChannel} {ret : Bool}
    (h : ch.recvPacket = .ok (ret, ch')) : ∃ parser readList,
      PacketParser.recvPacket byteQueue ch.parser ch.readList = .ok (ret, parser, readList) ∧
      ch' = { ch with parser := parser, readList := readList } := by
  rw [RpcChannel.recvPacket] at h
  cases hr : PacketParser.recvPacket byteQueue ch.parser ch.readList with
  | error f =>
    rw [hr] at h
    cases h
  | ok r =>
    rw [hr] at h
    obtain ⟨rfl, rfl⟩ := Prod.mk.inj (Except.ok.inj h)
    exact ⟨_, _, rfl, rfl⟩

namespace RpcSession

variable {session session' : RpcSession T}

theorem recvPacket_eq {ret : Bool} (h : session.recvPacket = .ok (ret, session')) :
    ∃ parser readList, PacketParser.recvPacket byteQueue session.parser session.readList =
        .ok (ret, parser, readList) ∧
      session' = { session with parser := parser, readList := readList } := by
  rw [recvPacket] at h
  cases hr : PacketParser.recvPacket byteQueue session.parser session.readList with
  | error f =>
    rw [hr] at h
    cases h
  | ok r =>
    rw [hr] at h
    obtain ⟨rfl, rfl⟩ := Prod.mk.inj (Except.ok.inj h)
    exact ⟨_, _, rfl, rfl⟩

/-- `onResponse` sends a packet with the guid of the request and the method id 0. -/
theorem onResponse_eq {context : ResponseContext Msg} {response : Msg}
    (h : session.onResponse pb context response = .ok session') :
    ∃ packet, Packet.new pb context.guid none response = .ok packet ∧
      session' = { session with
        writeList := session.writeList ++ packet.encode
        sent := session.sent ++ [packet] } := by
  rw [onResponse] at h
  cases hpacket : Packet.new pb context.guid none response with
  | error f =>
    rw [hpacket] at h
    cases h
  | ok packet =>
    rw [hpacket, ok_bind, sendPacket, sendPacket_byteQueue] at h
    exact ⟨packet, rfl, (Except.ok.inj h).symm⟩

end RpcSession

/-! ## The invariant -/

namespace RpcSystem

variable {s s' : RpcSystem T Msg}

/-- The calls are legal, and the services have been called for the first of them, in order. The
requests behind these are on the way. -/
structure Requests (pb : Protobuf T Msg) (s : RpcSystem T Msg) : Prop where
  send : s.client.SendOk pb
  legal : ∀ (k : ℕ) (call : RpcCall T Msg), s.client.calls[k]? = some call →
    ∃ response : Msg, s.Legal pb call.method call.request response
  invoked : ∀ (k : ℕ) (invocation : Invocation T Msg), s.invocations[k]? = some invocation → ∃ call,
    s.client.calls[k]? = some call ∧ invocation.method.method = call.method ∧
    invocation.context.request = call.request ∧ invocation.context.guid = UInt64.ofNat (k + 1)
  invocations_le : s.invocations.length ≤ s.client.channel.sent.length
  inFlight : InFlight s.serverReads s.session.parser s.session.readList s.client.channel.writeList
    (s.client.channel.sent.drop s.invocations.length)

/-- A step of the client. -/
theorem Requests.client (h : s.Requests pb) {c : RpcClient T Msg} {e : ClientEvent T Msg}
    (hlegal : ∀ method request response err, e = .call method request response err →
      s.Legal pb method request response)
    (hs : ClientStep pb s.client e c) : (s.setClient c).Requests pb := by
  obtain ⟨packets, hsent, hwrite, -⟩ := RpcClient.wire_step hs
  have hle : s.invocations.length ≤ c.channel.sent.length := by
    rw [hsent, List.length_append]
    exact Nat.le_add_right_of_le h.invocations_le
  refine ⟨h.send.step hs, fun k call hk => ?_, fun k invocation hk => ?_, hle, ?_⟩
  · have hk : c.calls[k]? = some call := hk
    rcases RpcClient.calls_step hs with heq | ⟨method, request, response, err, controller, he, heq⟩
    · rw [heq] at hk
      obtain ⟨response, hl⟩ := h.legal k call hk
      exact ⟨response, hl.registered, hl.inputType, hl.outputType⟩
    · rw [heq] at hk
      rcases getElem?_snoc.mp hk with hk | ⟨-, rfl⟩
      · obtain ⟨response, hl⟩ := h.legal k call hk
        exact ⟨response, hl.registered, hl.inputType, hl.outputType⟩
      · have hl := hlegal _ _ _ _ he
        exact ⟨response, hl.registered, hl.inputType, hl.outputType⟩
  · obtain ⟨call, hcall, hrest⟩ := h.invoked k invocation hk
    exact ⟨call, RpcClient.calls_get hs hcall, hrest⟩
  · change InFlight s.serverReads s.session.parser s.session.readList c.channel.writeList
      (c.channel.sent.drop s.invocations.length)
    rw [hsent, hwrite, List.drop_append_of_le_length h.invocations_le]
    exact h.inFlight.send packets

/-- A step that changes neither the history of the client nor that of the services. -/
theorem Requests.keep (h : s.Requests pb) (hsend : s'.client.SendOk pb)
    (hcalls : s'.client.calls = s.client.calls)
    (hsent : s'.client.channel.sent = s.client.channel.sent)
    (hservice : s'.session.service = s.session.service)
    (hinvocations : s'.invocations = s.invocations)
    (hinFlight : InFlight s'.serverReads s'.session.parser s'.session.readList
      s'.client.channel.writeList (s'.client.channel.sent.drop s'.invocations.length)) :
    s'.Requests pb := by
  refine ⟨hsend, fun k call hk => ?_, fun k invocation hk => ?_, ?_, hinFlight⟩
  · rw [hcalls] at hk
    obtain ⟨response, hl⟩ := h.legal k call hk
    exact ⟨response, hservice ▸ hl.registered, hl.inputType, hl.outputType⟩
  · rw [hinvocations] at hk
    rw [hcalls]
    exact h.invoked k invocation hk
  · rw [hinvocations, hsent]
    exact h.invocations_le

/-- **A request is handed to the service of its method.** -/
theorem Requests.serverPacket (h : s.Requests pb) (hpb : pb.RoundTrips) {session : RpcSession T}
    (hrecv : s.session.recvPacket = .ok (true, session)) (object : ℕ → Msg) :
    ∃ call service, s.client.calls[s.invocations.length]? = some call ∧
      session.onPacket pb object session.parser.getPacket =
        (.callService ⟨service, call.method⟩
          ⟨session.guid, UInt64.ofNat (s.invocations.length + 1), call.request⟩, session) ∧
      s.client.channel.sent.drop s.invocations.length ≠ [] ∧
      session.service = s.session.service ∧ session.writeList = s.session.writeList ∧
      session.sent = s.session.sent ∧
      InFlight true session.parser session.readList s.client.channel.writeList
        (s.client.channel.sent.drop (s.invocations.length + 1)) := by
  obtain ⟨parser, readList, hr, rfl⟩ := RpcSession.recvPacket_eq hrecv
  have hframes : ∀ p ∈ s.client.channel.sent.drop s.invocations.length, p.IsFrame :=
    fun p hp => h.send.isFrame hpb p (List.mem_of_mem_drop hp)
  obtain ⟨packet, qs, hdrop, hpacket, hflight⟩ := h.inFlight.recv_true hframes hr
  have hget : s.client.channel.sent[s.invocations.length]? = some packet := by
    rw [← List.head?_drop, hdrop]
    rfl
  have hqs : qs = s.client.channel.sent.drop (s.invocations.length + 1) := by
    rw [← List.tail_drop, hdrop]
    rfl
  obtain ⟨call, hcall, hnew⟩ := h.send.sent_get hget
  obtain ⟨-, hguid, hcontent, -, hmethodId, -⟩ := Packet.new_eq hnew
  obtain ⟨response, ⟨methodId, service, hid, hzero, hservice⟩, htype, -⟩ := h.legal _ _ hcall
  have hmethodId := Except.ok.inj ((hmethodId _ rfl).symm.trans hid)
  subst hmethodId
  have hrequest := RpcSession.onPacket_request
    (s := { s.session with parser := parser, readList := readList }) hpb object packet.received
    hzero
    hservice hcontent htype
  refine ⟨call, service, hcall, ?_, by simp [hdrop], rfl, rfl, rfl, hqs ▸ hflight⟩
  rw [PacketParser.getPacket, hpacket, hrequest, ← hguid]
  rfl

theorem complete_self {i : ℕ} {invocation : Invocation T Msg} (response : Msg)
    (hi : s.invocations[i]? = some invocation) :
    (s.complete i invocation response).invocations[i]? =
      some { invocation with response := some response } := by
  rw [complete, List.getElem?_set, if_pos rfl, if_pos (List.getElem?_eq_some_iff.mp hi).1]

theorem complete_of_ne {i k : ℕ} {invocation : Invocation T Msg} {response : Msg} (hne : k ≠ i) :
    (s.complete i invocation response).invocations[k]? = s.invocations[k]? := by
  rw [complete, List.getElem?_set, if_neg hne.symm]

/-- The step lemma for requests. -/
theorem Requests.step (h : s.Requests pb) (hpb : pb.RoundTrips) {e : RpcEvent T Msg}
    (hs : RpcStep pb s e s') : s'.Requests pb := by
  have hsend := h.send
  cases hs with
  | call _ hlegal hs =>
    refine h.client (fun method request response err he => ?_) hs
    cases he
    exact hlegal
  | out _ hs | sendQueued hs | connected hs | ret hs =>
    refine h.client (fun method request response err he => ?_) hs
    cases he
  | clientPacket _ _ hrecv hs =>
    obtain ⟨parser, readList, -, rfl⟩ := RpcChannel.recvPacket_eq hrecv
    have hkeep : (s.setChannel { s.client.channel with
        parser := parser, readList := readList }).Requests pb :=
      h.keep ⟨hsend.allocateGuid, hsend.packets, hsend.queue, hsend.onConnect⟩ rfl rfl rfl rfl
        h.inFlight
    refine hkeep.client (fun method request response err he => ?_) hs
    cases he
  | clientDone _ _ hrecv =>
    obtain ⟨parser, readList, -, rfl⟩ := RpcChannel.recvPacket_eq hrecv
    exact h.keep ⟨hsend.allocateGuid, hsend.packets, hsend.queue, hsend.onConnect⟩ rfl rfl rfl rfl
      h.inFlight
  | @serverCall _ session session' object method context hreads _ hrecv hcall =>
    obtain ⟨call, service, hget, honPacket, hdrop, hservice, -, -, hflight⟩ :=
      h.serverPacket hpb hrecv object
    rw [hcall] at honPacket
    obtain ⟨haction, rfl⟩ := Prod.mk.inj honPacket
    obtain ⟨rfl, rfl⟩ := SessionAction.callService.inj haction
    refine ⟨hsend, fun k call hk => ?_, fun k invocation hk => ?_, ?_, ?_⟩
    · obtain ⟨response, hl⟩ := h.legal k call hk
      exact ⟨response, hservice ▸ hl.registered, hl.inputType, hl.outputType⟩
    · rcases getElem?_snoc.mp hk with hk | ⟨rfl, rfl⟩
      · exact h.invoked k invocation hk
      · exact ⟨call, hget, rfl, rfl, rfl⟩
    · change (s.invocations ++ [_]).length ≤ s.client.channel.sent.length
      rw [List.length_append]
      exact Nat.lt_of_not_le fun hge => hdrop (List.drop_eq_nil_of_le hge)
    · change InFlight s.serverReads _ _ _ (s.client.channel.sent.drop (s.invocations ++ [_]).length)
      rw [List.length_append, hreads]
      exact hflight
  | serverSkip _ _ hrecv hskip =>
    obtain ⟨call, service, -, honPacket, -⟩ := h.serverPacket hpb hrecv _
    rw [hskip] at honPacket
    cases (Prod.mk.inj honPacket).1
  | serverDone hreads _ hrecv =>
    obtain ⟨parser, readList, hr, rfl⟩ := RpcSession.recvPacket_eq hrecv
    have hframes : ∀ p ∈ s.client.channel.sent.drop s.invocations.length, p.IsFrame :=
      fun p hp => hsend.isFrame hpb p (List.mem_of_mem_drop hp)
    exact h.keep hsend rfl rfl rfl rfl (h.inFlight.recv_false hframes hr)
  | serviceRet => exact h.keep hsend rfl rfl rfl rfl h.inFlight
  | @respond _ i invocation response session _ hi _ _ hresponse =>
    obtain ⟨packet, -, rfl⟩ := RpcSession.onResponse_eq hresponse
    refine ⟨hsend, fun k call hk => ?_, fun k invocation' hk => ?_, ?_, ?_⟩
    · obtain ⟨response, hl⟩ := h.legal k call hk
      exact ⟨response, hl.registered, hl.inputType, hl.outputType⟩
    · by_cases heq : k = i
      · subst heq
        have hself := complete_self (s := s) response hi
        have hk := hself.symm.trans hk
        obtain rfl := Option.some.inj hk
        exact h.invoked k invocation hi
      · exact h.invoked k invocation' ((complete_of_ne heq).symm.trans hk)
    · change (s.invocations.set _ _).length ≤ _
      rw [List.length_set]
      exact h.invocations_le
    · change InFlight _ _ _ _ (s.client.channel.sent.drop (s.invocations.set _ _).length)
      rw [List.length_set]
      exact h.inFlight
  | toServer _ _ _ =>
    refine h.keep ⟨hsend.allocateGuid, hsend.packets, hsend.queue, hsend.onConnect⟩ rfl rfl rfl rfl
      ?_
    exact h.inFlight.move _
  | toClient _ _ _ _ =>
    exact h.keep ⟨hsend.allocateGuid, hsend.packets, hsend.queue, hsend.onConnect⟩ rfl rfl rfl rfl
      h.inFlight

end RpcSystem

end ServerKit
