import ServerKit.Rpc.Verify.Dispatch
import ServerKit.Rpc.Verify.Segments

/-!
# The calls of a client

What the functions of the channel do (`RpcChannel.Accepts`, `onConnectStep_eq`, `onPacket_eq`), and
the invariant they keep: the packets sent and queued are those of the calls, and every context in
`request_context_` is that of a call with its guid, whose done closure has not run.
-/

namespace ServerKit

open Lib

variable {T Msg : Type} {pb : Protobuf T Msg}

/-! ## The functions of the channel -/

namespace RpcChannel

variable {ch ch' : RpcChannel} {packet : Packet}

theorem sendPacket_eq (ch : RpcChannel) (packet : Packet) :
    ch.sendPacket packet =
      .ok { ch with writeList := ch.writeList ++ packet.encode, sent := ch.sent ++ [packet] } := by
  rw [sendPacket, sendPacket_byteQueue]
  rfl

/-- What accepting a call does: its context is stored under the next guid, and its packet is sent
when the socket is connected, and queued before. -/
structure Accepts (ch : RpcChannel) (packet : Packet) (context : RequestContext)
    (ch' : RpcChannel) : Prop where
  guid : ch'.guid = ch.guid
  allocateGuid : ch'.allocateGuid = ch.allocateGuid + 1
  requestContext : ch'.requestContext =
    Function.update ch.requestContext (ch.allocateGuid + 1) (some context)
  parser : ch'.parser = ch.parser
  readList : ch'.readList = ch.readList
  status : ch.status ≠ .closed
  packets :
    ch.status = .connected ∧ ch'.status = .connected ∧ ch'.sent = ch.sent ++ [packet] ∧
        ch'.writeList = ch.writeList ++ packet.encode ∧ ch'.packetQueue = ch.packetQueue ∨
      ch.status ≠ .connected ∧ ch'.status ≠ .connected ∧ ch'.status ≠ .init ∧ ch'.sent = ch.sent ∧
        ch'.writeList = ch.writeList ∧ ch'.packetQueue = ch.packetQueue ++ [packet]

theorem pushRequestToQueue_eq {method : MethodDescriptor T} {request : Msg}
    {context : RequestContext} {controller : RpcController}
    (h : ch.pushRequestToQueue pb method request context = .ok (controller, ch')) :
    ∃ packet, Packet.new pb (ch.allocateGuid + 1) (some method) request = .ok packet ∧
      controller = ⟨ch.guid, ch.allocateGuid + 1⟩ ∧
      ch' = (ch.incAllocateGuid.setPacketQueue (ch.packetQueue ++ [packet])).setContext
        (ch.allocateGuid + 1) (some context) := by
  rw [pushRequestToQueue] at h
  cases hpacket : Packet.new pb (ch.allocateGuid + 1) (some method) request with
  | error f =>
    simp only [incAllocateGuid, hpacket] at h
    cases h
  | ok packet =>
    simp only [incAllocateGuid, hpacket, ok_bind] at h
    obtain ⟨rfl, rfl⟩ := Prod.mk.inj (Except.ok.inj h)
    exact ⟨packet, rfl, rfl, rfl⟩

theorem pushRequestToQueue_status {method : MethodDescriptor T} {request : Msg}
    {context : RequestContext} {controller : RpcController}
    (h : ch.pushRequestToQueue pb method request context = .ok (controller, ch')) :
    ch'.status = ch.status := by
  obtain ⟨-, -, -, rfl⟩ := pushRequestToQueue_eq h
  rfl

/-- `Connect` of a socket that is `INIT` only changes its status. -/
theorem connect_eq (hinit : ch.status = .init) (err : ℤ) :
    ∃ status, ch.connect err = ch.setStatus status ∧ status ≠ .connected ∧ status ≠ .init := by
  unfold connect
  rw [if_neg (not_not.mpr hinit)]
  by_cases herr : err = kOK
  · exact ⟨.connecting, if_pos herr, nofun, nofun⟩
  · exact ⟨.closed, if_neg herr, nofun, nofun⟩

/-- A call that is queued is accepted, whatever `Connect` does to the status. -/
theorem accepts_of_push {method : MethodDescriptor T} {request : Msg} {context : RequestContext}
    {controller : RpcController} {status : SocketStatus}
    (h : ch.pushRequestToQueue pb method request context = .ok (controller, ch'))
    (hclosed : ch.status ≠ .closed) (hunconnected : ch.status ≠ .connected)
    (hstatus : status ≠ .connected ∧ status ≠ .init) :
    ∃ packet, Packet.new pb (ch.allocateGuid + 1) (some method) request = .ok packet ∧
      some controller = some ⟨ch.guid, ch.allocateGuid + 1⟩ ∧
      ch.Accepts packet context (ch'.setStatus status) := by
  obtain ⟨packet, hpacket, rfl, rfl⟩ := pushRequestToQueue_eq h
  exact ⟨packet, hpacket, rfl, rfl, rfl, rfl, rfl, rfl, hclosed,
    .inr ⟨hunconnected, hstatus.1, hstatus.2, rfl, rfl, rfl⟩⟩

/-- The ways through `CallMethod`, by the status of the socket: the controller and the channel. -/
inductive Called (pb : Protobuf T Msg) (ch : RpcChannel) (method : MethodDescriptor T)
    (request : Msg) (context : RequestContext) (err : ℤ) :
    Option RpcController → RpcChannel → Prop
  | closed : ch.status = .closed → Called pb ch method request context err none ch
  | connected {packet : Packet} : ch.status = .connected →
      Packet.new pb (ch.allocateGuid + 1) (some method) request = .ok packet →
      Called pb ch method request context err (some ⟨ch.guid, ch.allocateGuid + 1⟩)
        { ch.incAllocateGuid.setContext (ch.allocateGuid + 1) (some context) with
          writeList := ch.writeList ++ packet.encode
          sent := ch.sent ++ [packet] }
  | init {controller : RpcController} {queued : RpcChannel} : ch.status = .init →
      ch.pushRequestToQueue pb method request context = .ok (controller, queued) →
      Called pb ch method request context err (some controller) (queued.connect err)
  | connecting {controller : RpcController} {queued : RpcChannel} : ch.status = .connecting →
      ch.pushRequestToQueue pb method request context = .ok (controller, queued) →
      Called pb ch method request context err (some controller) queued

theorem called_of_callMethod {method : MethodDescriptor T} {request : Msg}
    {context : RequestContext} {err : ℤ} {controller : Option RpcController}
    (h : ch.callMethod pb method request context err = .ok (controller, ch')) :
    Called pb ch method request context err controller ch' := by
  unfold callMethod at h
  cases hstatus : ch.status with
  | closed =>
    rw [hstatus] at h
    obtain ⟨rfl, rfl⟩ := Prod.mk.inj (Except.ok.inj h)
    exact .closed hstatus
  | connected =>
    rw [hstatus] at h
    cases hpacket : Packet.new pb (ch.allocateGuid + 1) (some method) request with
    | error f =>
      simp only [incAllocateGuid, hpacket] at h
      cases h
    | ok packet =>
      simp only [incAllocateGuid, hpacket, ok_bind, sendPacket_eq] at h
      obtain ⟨rfl, rfl⟩ := Prod.mk.inj (Except.ok.inj h)
      exact .connected hstatus hpacket
  | init =>
    rw [hstatus] at h
    cases hpush : ch.pushRequestToQueue pb method request context with
    | error f =>
      simp only [hpush] at h
      cases h
    | ok r =>
      simp only [hpush, ok_bind] at h
      obtain ⟨rfl, rfl⟩ := Prod.mk.inj (Except.ok.inj h)
      exact .init hstatus hpush
  | connecting =>
    rw [hstatus] at h
    cases hpush : ch.pushRequestToQueue pb method request context with
    | error f =>
      simp only [hpush] at h
      cases h
    | ok r =>
      simp only [hpush, ok_bind] at h
      obtain ⟨rfl, rfl⟩ := Prod.mk.inj (Except.ok.inj h)
      exact .connecting hstatus hpush

/-- **`CallMethod`** does nothing when the socket is closed, and accepts the call otherwise. -/
theorem callMethod_eq {method : MethodDescriptor T} {request : Msg} {context : RequestContext}
    {err : ℤ} {controller : Option RpcController}
    (h : ch.callMethod pb method request context err = .ok (controller, ch')) :
    (ch.status = .closed ∧ controller = none ∧ ch' = ch) ∨
      ∃ packet, Packet.new pb (ch.allocateGuid + 1) (some method) request = .ok packet ∧
        controller = some ⟨ch.guid, ch.allocateGuid + 1⟩ ∧ ch.Accepts packet context ch' := by
  cases called_of_callMethod h with
  | closed hstatus => exact .inl ⟨hstatus, rfl, rfl⟩
  | connected hstatus hpacket =>
    exact .inr ⟨_, hpacket, rfl, rfl, rfl, rfl, rfl, rfl, by simp [hstatus],
      .inl ⟨hstatus, hstatus, rfl, rfl, rfl⟩⟩
  | init hstatus hpush =>
    obtain ⟨status, hconnect, hafter⟩ :=
      connect_eq ((pushRequestToQueue_status hpush).trans hstatus) err
    rw [hconnect]
    exact .inr (accepts_of_push hpush (by simp [hstatus]) (by simp [hstatus]) hafter)
  | connecting hstatus hpush =>
    have hsame : ch'.status = .connecting := (pushRequestToQueue_status hpush).trans hstatus
    have hkept : ch' = ch'.setStatus .connecting := by rw [setStatus, ← hsame]
    rw [hkept]
    exact .inr (accepts_of_push hpush (by simp [hstatus]) (by simp [hstatus])
      ⟨by simp, by simp⟩)

/-- An iteration of the loop of `OnConnect` sends the front of the queue. -/
theorem onConnectStep_eq (h : ch.onConnectStep = .ok (some ch')) :
    ∃ packet rest, ch.packetQueue = packet :: rest ∧
      ch' = { ch with
        writeList := ch.writeList ++ packet.encode
        sent := ch.sent ++ [packet]
        packetQueue := rest } := by
  rw [onConnectStep] at h
  cases hqueue : ch.packetQueue with
  | nil =>
    rw [hqueue] at h
    cases h
  | cons packet rest =>
    rw [hqueue] at h
    simp only [sendPacket_eq, ok_bind] at h
    exact ⟨packet, rest, rfl, (Option.some.inj (Except.ok.inj h)).symm⟩

theorem onConnectStep_none (h : ch.onConnectStep = .ok none) : ch.packetQueue = [] := by
  rw [onConnectStep] at h
  cases hqueue : ch.packetQueue with
  | nil => rfl
  | cons packet rest =>
    rw [hqueue] at h
    simp only [sendPacket_eq, ok_bind] at h
    cases h

/-- A packet that is not the response to a pending call does nothing. -/
theorem onPacket_none {object : ℕ → Msg} (h : ch.onPacket pb object packet = (none, ch')) :
    ch' = ch ∧ (packet.methodId = 0 → ch.requestContext packet.guid = none) := by
  rw [onPacket] at h
  by_cases hid : packet.methodId = 0
  · rw [if_neg (not_not.mpr hid)] at h
    cases hcontext : ch.requestContext packet.guid with
    | none =>
      rw [hcontext] at h
      exact ⟨(Prod.mk.inj h).2.symm, fun _ => rfl⟩
    | some context =>
      rw [hcontext] at h
      cases (Prod.mk.inj h).1
  · rw [if_pos hid] at h
    exact ⟨(Prod.mk.inj h).2.symm, fun hzero => absurd hzero hid⟩

/-- The response to a pending call removes its context. -/
theorem onPacket_some {object : ℕ → Msg} {context : RequestContext} {ret : Bool} {value : Msg}
    (h : ch.onPacket pb object packet = (some (context, ret, value), ch')) :
    packet.methodId = 0 ∧ ch.requestContext packet.guid = some context ∧
      pb.parse (pb.typeOf (object context.response)) packet.content = (ret, value) ∧
      ch' = ch.setContext packet.guid none := by
  rw [onPacket] at h
  by_cases hid : packet.methodId = 0
  · rw [if_neg (not_not.mpr hid)] at h
    cases hcontext : ch.requestContext packet.guid with
    | none =>
      rw [hcontext] at h
      cases (Prod.mk.inj h).1
    | some context' =>
      rw [hcontext] at h
      obtain ⟨hsome, hch⟩ := Prod.mk.inj h
      obtain ⟨rfl, hparse⟩ := Prod.mk.inj (Option.some.inj hsome)
      exact ⟨hid, rfl, hparse, hch.symm⟩
  · rw [if_pos hid] at h
    cases (Prod.mk.inj h).1

end RpcChannel

/-! ## The client -/

namespace RpcClient

variable {c c' : RpcClient T Msg} {e : ClientEvent T Msg}

/-- The packet of the `k`-th call. -/
def requestPacket (pb : Protobuf T Msg) (k : ℕ) (call : RpcCall T Msg) : Except Fault Packet :=
  Packet.new pb (UInt64.ofNat (k + 1)) (some call.method) call.request

/-- The packets sent and queued are those of the calls. -/
structure SendOk (pb : Protobuf T Msg) (c : RpcClient T Msg) : Prop where
  allocateGuid : c.channel.allocateGuid = UInt64.ofNat c.calls.length
  packets : (c.channel.sent ++ c.channel.packetQueue).map Except.ok =
    c.calls.mapIdx (requestPacket pb)
  queue : c.channel.status = .connected → c.pc ≠ .onConnect → c.channel.packetQueue = []
  onConnect : c.pc = .onConnect → c.channel.status = .connected

/-- Every context is that of a call with its guid that has not been answered, and every done
closure has run at most once. -/
structure ContextsOk (c : RpcClient T Msg) : Prop where
  guid : ∀ k call, c.calls[k]? = some call → call.controller.callGuid = UInt64.ofNat (k + 1)
  context : ∀ guid context, c.channel.requestContext guid = some context →
    context.response = context.done ∧ c.runs context.done = 0 ∧
      ∃ call, c.calls[context.done]? = some call ∧ call.controller.callGuid = guid
  runs_le : ∀ k, c.runs k ≤ 1
  runs_new : ∀ k, c.calls.length ≤ k → c.runs k = 0

/-- What a step that accepts a call does. -/
theorem call_eq {method : MethodDescriptor T} {request : Msg} {err : ℤ}
    {controller : RpcController} {channel : RpcChannel} (h : c.SendOk pb)
    (hcall : c.channel.callMethod pb method request c.nextContext err =
      .ok (some controller, channel)) :
    ∃ packet, requestPacket pb c.calls.length ⟨method, request, controller⟩ = .ok packet ∧
      controller.callGuid = UInt64.ofNat (c.calls.length + 1) ∧
      c.channel.Accepts packet c.nextContext channel := by
  have hguid : c.channel.allocateGuid + 1 = UInt64.ofNat (c.calls.length + 1) := by
    rw [h.allocateGuid, UInt64.ofNat_add]
    rfl
  rcases RpcChannel.callMethod_eq hcall with ⟨-, hnone, -⟩
    | ⟨packet, hpacket, hcontroller, haccepts⟩
  · cases hnone
  · obtain rfl := Option.some.inj hcontroller
    refine ⟨packet, ?_, hguid, haccepts⟩
    rw [requestPacket, ← hguid]
    exact hpacket

theorem callClosed_eq {method : MethodDescriptor T} {request : Msg} {err : ℤ}
    {channel : RpcChannel}
    (hcall : c.channel.callMethod pb method request c.nextContext err = .ok (none, channel)) :
    c.channel.status = .closed ∧ channel = c.channel := by
  rcases RpcChannel.callMethod_eq hcall with ⟨hstatus, -, hch⟩ | ⟨packet, -, hcontroller, -⟩
  · exact ⟨hstatus, hch⟩
  · cases hcontroller

/-! ### Sending -/

theorem SendOk.accept (h : c.SendOk pb) {call : RpcCall T Msg} {packet : Packet}
    {context : RequestContext} {channel : RpcChannel} (hpc : c.pc ≠ .onConnect)
    (hpacket : requestPacket pb c.calls.length call = .ok packet)
    (haccepts : c.channel.Accepts packet context channel) (response : Msg) :
    (((c.setObject c.calls.length response).setChannel channel).addCall call).SendOk pb := by
  have hguid : channel.allocateGuid = UInt64.ofNat (c.calls ++ [call]).length := by
    rw [haccepts.allocateGuid, h.allocateGuid, List.length_append, UInt64.ofNat_add]
    rfl
  have hpackets : (c.channel.sent ++ c.channel.packetQueue ++ [packet]).map Except.ok =
      (c.calls ++ [call]).mapIdx (requestPacket pb) := by
    rw [List.map_append, h.packets, List.mapIdx_append]
    simp [hpacket]
  rcases haccepts.packets with ⟨hstatus, -, hsent, -, hqueue⟩ | ⟨-, hstatus, -, hsent, -, hqueue⟩
  · -- nothing is queued, so the packet goes behind all the others
    have hnil := h.queue hstatus hpc
    refine ⟨hguid, ?_, fun _ _ => hqueue.trans hnil, fun hpc' => absurd hpc' hpc⟩
    change (channel.sent ++ channel.packetQueue).map Except.ok = _
    rw [hsent, hqueue, hnil, List.append_nil]
    rw [hnil, List.append_nil] at hpackets
    exact hpackets
  · refine ⟨hguid, ?_, fun hconnected _ => absurd hconnected hstatus, fun hpc' => absurd hpc' hpc⟩
    change (channel.sent ++ channel.packetQueue).map Except.ok = _
    rw [hsent, hqueue, ← List.append_assoc]
    exact hpackets

/-- The step lemma for sending. -/
theorem SendOk.step (h : c.SendOk pb) (hs : ClientStep pb c e c') : c'.SendOk pb := by
  cases hs with
  | call huser hcall =>
    obtain ⟨packet, hpacket, -, haccepts⟩ := call_eq h hcall
    exact h.accept huser hpacket haccepts _
  | callClosed huser hcall =>
    obtain ⟨-, rfl⟩ := callClosed_eq hcall
    exact h
  | out hpc hstatus =>
    exact ⟨h.allocateGuid, h.packets, fun _ hne => absurd rfl hne, fun _ => rfl⟩
  | sendQueued hpc hstep =>
    obtain ⟨packet, rest, hqueue, rfl⟩ := RpcChannel.onConnectStep_eq hstep
    refine ⟨h.allocateGuid, ?_, fun _ hne => absurd hpc hne, h.onConnect⟩
    have hpackets := h.packets
    rw [hqueue] at hpackets
    change (c.channel.sent ++ [packet] ++ rest).map Except.ok = _
    rw [List.append_assoc]
    exact hpackets
  | connected hpc hstep =>
    exact ⟨h.allocateGuid, h.packets, fun _ _ => RpcChannel.onConnectStep_none hstep, nofun⟩
  | skip hpc hpacket =>
    obtain ⟨rfl, -⟩ := RpcChannel.onPacket_none hpacket
    exact h
  | unparsed hpc hpacket =>
    obtain ⟨-, -, -, rfl⟩ := RpcChannel.onPacket_some hpacket
    exact ⟨h.allocateGuid, h.packets, h.queue, h.onConnect⟩
  | response hpc hpacket =>
    obtain ⟨-, -, -, rfl⟩ := RpcChannel.onPacket_some hpacket
    exact ⟨h.allocateGuid, h.packets, fun hstatus _ => h.queue hstatus (by simp [hpc]), nofun⟩
  | ret hpc =>
    exact ⟨h.allocateGuid, h.packets, fun hstatus _ => h.queue hstatus (by simp [hpc]), nofun⟩

theorem sendOk_new (guid : UInt64) (object : ℕ → Msg) : (RpcClient.new guid object).SendOk pb where
  allocateGuid := rfl
  packets := rfl
  queue := nofun
  onConnect := nofun

/-! ### Contexts -/

theorem ContextsOk.accept (h : c.ContextsOk) {call : RpcCall T Msg} {packet : Packet}
    {channel : RpcChannel} (hguid : call.controller.callGuid = c.channel.allocateGuid + 1)
    (hguid' : call.controller.callGuid = UInt64.ofNat (c.calls.length + 1))
    (haccepts : c.channel.Accepts packet c.nextContext channel) (response : Msg) :
    (((c.setObject c.calls.length response).setChannel channel).addCall call).ContextsOk := by
  refine ⟨fun k call' hk => ?_, fun guid context hcontext => ?_, h.runs_le, fun k hk => ?_⟩
  · rcases getElem?_snoc.mp hk with hk | ⟨rfl, rfl⟩
    · exact h.guid k call' hk
    · exact hguid'
  · have hcontext : channel.requestContext guid = some context := hcontext
    rw [haccepts.requestContext] at hcontext
    by_cases heq : guid = c.channel.allocateGuid + 1
    · subst heq
      rw [Function.update_self] at hcontext
      obtain rfl := Option.some.inj hcontext
      exact ⟨rfl, h.runs_new _ (Nat.le_refl _), call, by simp [addCall, nextContext, setChannel,
        setObject], hguid⟩
    · rw [Function.update_of_ne heq] at hcontext
      obtain ⟨hresponse, hruns, call', hcall', hg⟩ := h.context guid context hcontext
      have hlt := (List.getElem?_eq_some_iff.mp hcall').1
      exact ⟨hresponse, hruns, call', (List.getElem?_append_left hlt).trans hcall', hg⟩
  · have hk : (c.calls ++ [call]).length ≤ k := hk
    exact h.runs_new k (by rw [List.length_append] at hk; omega)

/-- The response to a pending call: its context goes, and its done closure may run. -/
theorem ContextsOk.respond (h : c.ContextsOk) {guid : UInt64} {context : RequestContext}
    (hcontext : c.channel.requestContext guid = some context) {runs : ℕ → ℕ}
    (hruns : ∀ k, k ≠ context.done → runs k = c.runs k) (hone : runs context.done ≤ 1)
    (hchannel : c'.channel = c.channel.setContext guid none) (hcalls : c'.calls = c.calls)
    (hruns' : c'.runs = runs) : c'.ContextsOk := by
  obtain ⟨-, -, call, hcall, hguid⟩ := h.context guid context hcontext
  refine ⟨by rw [hcalls]; exact h.guid, fun guid' context' hcontext' => ?_, fun k => ?_,
    fun k hk => ?_⟩
  · rw [hchannel] at hcontext'
    by_cases heq : guid' = guid
    · subst heq
      cases (Function.update_self ..).symm.trans hcontext'
    · have hold : c.channel.requestContext guid' = some context' :=
        (Function.update_of_ne heq ..).symm.trans hcontext'
      obtain ⟨hresponse, hzero, call', hcall', hguid'⟩ := h.context guid' context' hold
      have hne : context'.done ≠ context.done := by
        intro hdone
        rw [hdone, hcall] at hcall'
        rw [← Option.some.inj hcall', hguid] at hguid'
        exact heq hguid'.symm
      rw [hruns', hcalls]
      exact ⟨hresponse, (hruns _ hne).trans hzero, call', hcall', hguid'⟩
  · rw [hruns']
    by_cases hk : k = context.done
    · rw [hk]
      exact hone
    · rw [hruns k hk]
      exact h.runs_le k
  · have hlt : context.done < c.calls.length := (List.getElem?_eq_some_iff.mp hcall).1
    rw [hcalls] at hk
    rw [hruns', hruns k (by omega)]
    exact h.runs_new k hk

/-- The step lemma for contexts. -/
theorem ContextsOk.step (h : c.ContextsOk) (hsend : c.SendOk pb) (hs : ClientStep pb c e c') :
    c'.ContextsOk := by
  cases hs with
  | call huser hcall =>
    obtain ⟨packet, -, hguid, haccepts⟩ := call_eq hsend hcall
    have hnext : c.channel.allocateGuid + 1 = UInt64.ofNat (c.calls.length + 1) := by
      rw [hsend.allocateGuid, UInt64.ofNat_add]
      rfl
    exact h.accept (hguid.trans hnext.symm) hguid haccepts _
  | callClosed huser hcall =>
    obtain ⟨-, rfl⟩ := callClosed_eq hcall
    exact h
  | out | connected | ret => exact ⟨h.guid, h.context, h.runs_le, h.runs_new⟩
  | sendQueued hpc hstep =>
    obtain ⟨packet, rest, -, rfl⟩ := RpcChannel.onConnectStep_eq hstep
    exact ⟨h.guid, h.context, h.runs_le, h.runs_new⟩
  | skip hpc hpacket =>
    obtain ⟨rfl, -⟩ := RpcChannel.onPacket_none hpacket
    exact h
  | unparsed hpc hpacket =>
    obtain ⟨-, hcontext, -, rfl⟩ := RpcChannel.onPacket_some hpacket
    exact h.respond hcontext (fun _ _ => rfl) (h.runs_le _) rfl rfl rfl
  | response hpc hpacket =>
    obtain ⟨-, hcontext, -, rfl⟩ := RpcChannel.onPacket_some hpacket
    obtain ⟨-, hzero, -⟩ := h.context _ _ hcontext
    refine h.respond hcontext (fun k hk => Function.update_of_ne hk ..) ?_ rfl rfl rfl
    simp [run, setObject, setChannel, hzero]

theorem contextsOk_new (guid : UInt64) (object : ℕ → Msg) :
    (RpcClient.new (T := T) guid object).ContextsOk where
  guid := by simp [RpcClient.new]
  context := nofun
  runs_le := fun _ => Nat.zero_le _
  runs_new := fun _ _ => rfl

/-- Both invariants after any run. -/
theorem ok_of_run {guid : UInt64} {object : ℕ → Msg} {es : List (ClientEvent T Msg)}
    (hrun : Run (ClientStep pb) (.new guid object) es c) : c.SendOk pb ∧ c.ContextsOk :=
  hrun.invariant (fun c => c.SendOk pb ∧ c.ContextsOk)
    (fun _ _ _ h hs => ⟨h.1.step hs, h.2.step h.1 hs⟩) ⟨sendOk_new guid object,
      contextsOk_new guid object⟩

/-! ### The wire -/

/-- A step writes the packets it sends, and leaves the receiving side alone. -/
theorem wire_step (hs : ClientStep pb c e c') :
    ∃ packets, c'.channel.sent = c.channel.sent ++ packets ∧
      c'.channel.writeList = c.channel.writeList ++ encodeAll packets ∧
      c'.channel.parser = c.channel.parser ∧ c'.channel.readList = c.channel.readList := by
  have hnone : ∀ {ch : RpcChannel}, ch.sent = c.channel.sent → ch.writeList = c.channel.writeList →
      ch.parser = c.channel.parser → ch.readList = c.channel.readList →
      ∃ packets, ch.sent = c.channel.sent ++ packets ∧
        ch.writeList = c.channel.writeList ++ encodeAll packets ∧
        ch.parser = c.channel.parser ∧ ch.readList = c.channel.readList := by
    intro ch hsent hwrite hparser hread
    exact ⟨[], by simp [hsent], by simp [hwrite], hparser, hread⟩
  cases hs with
  | call huser hcall =>
    rcases RpcChannel.callMethod_eq hcall with ⟨-, hc, -⟩ | ⟨packet, -, -, haccepts⟩
    · cases hc
    · rcases haccepts.packets with ⟨-, -, hsent, hwrite, -⟩ | ⟨-, -, -, hsent, hwrite, -⟩
      · refine ⟨[packet], hsent, ?_, haccepts.parser, haccepts.readList⟩
        rw [encodeAll_cons, encodeAll_nil, List.append_nil]
        exact hwrite
      · exact hnone hsent hwrite haccepts.parser haccepts.readList
  | callClosed huser hcall =>
    obtain ⟨-, rfl⟩ := callClosed_eq hcall
    exact hnone rfl rfl rfl rfl
  | out | connected | ret => exact hnone rfl rfl rfl rfl
  | sendQueued hpc hstep =>
    obtain ⟨packet, rest, -, rfl⟩ := RpcChannel.onConnectStep_eq hstep
    exact ⟨[packet], rfl, by simp [setChannel], rfl, rfl⟩
  | skip hpc hpacket =>
    obtain ⟨rfl, -⟩ := RpcChannel.onPacket_none hpacket
    exact hnone rfl rfl rfl rfl
  | unparsed hpc hpacket =>
    obtain ⟨-, -, -, rfl⟩ := RpcChannel.onPacket_some hpacket
    exact hnone rfl rfl rfl rfl
  | response hpc hpacket =>
    obtain ⟨-, -, -, rfl⟩ := RpcChannel.onPacket_some hpacket
    exact hnone rfl rfl rfl rfl

end RpcClient

/-! ## Response matching -/

/-- **Response matching.** In every run of a channel with any packets of its peer: every done
closure has run at most once; every key of `request_context_` is the guid of the call in its
context, allocated by the channel; a step that runs a done closure is the handling of a packet with
method id 0 and the guid of the call, whose content has been parsed into the response object of the
call, and removes exactly that guid; and a packet that is a request or matches no pending guid
leaves `request_context_` and the response objects alone. -/
theorem response_matching {guid : UInt64} {object : ℕ → Msg} {es : List (ClientEvent T Msg)}
    {c : RpcClient T Msg} (hrun : Run (ClientStep pb) (.new guid object) es c) :
    (∀ k, c.runs k ≤ 1) ∧
      (∀ g context, c.channel.requestContext g = some context →
        context.done < c.calls.length ∧ g = UInt64.ofNat (context.done + 1)) ∧
      (∀ e c', ClientStep pb c e c' → ∀ k, c'.runs k ≠ c.runs k →
        ∃ packet call, e = .packet packet ∧ packet.methodId = 0 ∧ c.calls[k]? = some call ∧
          packet.guid = call.controller.callGuid ∧
          pb.parse (pb.typeOf (c.object k)) packet.content = (true, c'.object k) ∧
          c'.channel.requestContext =
            Function.update c.channel.requestContext packet.guid none) ∧
      ∀ packet c', ClientStep pb c (.packet packet) c' →
        packet.methodId ≠ 0 ∨ c.channel.requestContext packet.guid = none →
        c'.channel.requestContext = c.channel.requestContext ∧ c'.object = c.object := by
  obtain ⟨-, hok⟩ := RpcClient.ok_of_run hrun
  refine ⟨hok.runs_le, fun g context hcontext => ?_, fun e c' hs k hk => ?_,
    fun packet c' hs hunmatched => ?_⟩
  · obtain ⟨-, -, call, hcall, rfl⟩ := hok.context g context hcontext
    exact ⟨(List.getElem?_eq_some_iff.mp hcall).1, hok.guid _ _ hcall⟩
  · cases hs with
    | call | callClosed | out | connected | ret | sendQueued | skip | unparsed =>
      exact absurd rfl hk
    | @response _ packet context value channel hidle hpacket =>
      obtain ⟨hzero, hcontext, hparse, rfl⟩ := RpcChannel.onPacket_some hpacket
      obtain ⟨hresponse, -, call, hcall, hguid⟩ := hok.context _ _ hcontext
      have hk : k = context.done := by
        by_contra hne
        exact hk (Function.update_of_ne hne ..)
      subst hk
      rw [hresponse] at hparse
      refine ⟨packet, call, rfl, hzero, hcall, hguid.symm, ?_, rfl⟩
      rw [hparse]
      simp [RpcClient.run, RpcClient.setObject, hresponse]
  · cases hs with
    | skip hidle hpacket =>
      obtain ⟨rfl, -⟩ := RpcChannel.onPacket_none hpacket
      exact ⟨rfl, rfl⟩
    | unparsed hidle hpacket | response hidle hpacket =>
      obtain ⟨hzero, hcontext, -⟩ := RpcChannel.onPacket_some hpacket
      rcases hunmatched with hrequest | hnone
      · exact absurd hzero hrequest
      · rw [hnone] at hcontext
        cases hcontext

/-- A call in state `INIT` is queued, and then the socket is connected. -/
theorem RpcChannel.callMethod_init_connect {ch : RpcChannel} {method : MethodDescriptor T}
    {request : Msg} {context : RequestContext} {packet : Packet} (err : ℤ)
    (hstatus : ch.status = .init)
    (hpacket : Packet.new pb (ch.allocateGuid + 1) (some method) request = .ok packet) :
    ch.callMethod pb method request context err =
      .ok (some ⟨ch.guid, ch.allocateGuid + 1⟩,
        ((ch.incAllocateGuid.setPacketQueue (ch.packetQueue ++ [packet])).setContext
          (ch.allocateGuid + 1) (some context)).connect err) := by
  have hpush : ch.pushRequestToQueue pb method request context =
      .ok (⟨ch.guid, ch.allocateGuid + 1⟩,
        (ch.incAllocateGuid.setPacketQueue (ch.packetQueue ++ [packet])).setContext
          (ch.allocateGuid + 1) (some context)) := by
    simp only [pushRequestToQueue, incAllocateGuid, hpacket, ok_bind]
    rfl
  rw [callMethod, hstatus]
  simp only [hpush, ok_bind]
  rfl

/-- A call in state `INIT`, when `ConnectAsync` succeeds. -/
theorem RpcChannel.callMethod_init {ch : RpcChannel} {method : MethodDescriptor T} {request : Msg}
    {context : RequestContext} {packet : Packet} (hstatus : ch.status = .init)
    (hpacket : Packet.new pb (ch.allocateGuid + 1) (some method) request = .ok packet) :
    ch.callMethod pb method request context kOK =
      .ok (some ⟨ch.guid, ch.allocateGuid + 1⟩,
        ((ch.incAllocateGuid.setPacketQueue (ch.packetQueue ++ [packet])).setContext
          (ch.allocateGuid + 1) (some context)).setStatus .connecting) := by
  have hinit : ((ch.incAllocateGuid.setPacketQueue (ch.packetQueue ++ [packet])).setContext
      (ch.allocateGuid + 1) (some context)).status = .init := hstatus
  rw [callMethod_init_connect kOK hstatus hpacket, connect, if_neg (not_not.mpr hinit), if_pos rfl]

/-- One call. A request that bears its guid is dropped, and so is the second of two responses. -/
theorem response_matching_two_responses :
    ∃ c₀ c₁ c : RpcClient Unit UInt8, Run (ClientStep Protobuf.oneByte) (.new 3 fun _ => 0)
        [.call .echo 7 0 kOK, .out, .sendQueued, .connected] c₀ ∧
      ClientStep Protobuf.oneByte c₀ (.packet ⟨kPacketMagicNum, 1, 5, 1, [6], true⟩) c₁ ∧
      Run (ClientStep Protobuf.oneByte) c₁
        [.packet ⟨kPacketMagicNum, 1, 0, 1, [9], true⟩, .ret,
          .packet ⟨kPacketMagicNum, 1, 0, 1, [8], true⟩] c ∧
      c₁.channel.requestContext = c₀.channel.requestContext ∧ c₁.object = c₀.object ∧
      c.object 0 = 9 ∧ c.runs 0 = 1 ∧ ∀ k, c.runs k ≤ 1 := by
  have hrun : ∃ c₀ c₁ c : RpcClient Unit UInt8,
      Run (ClientStep Protobuf.oneByte) (.new 3 fun _ => 0)
        [.call .echo 7 0 kOK, .out, .sendQueued, .connected] c₀ ∧
      ClientStep Protobuf.oneByte c₀ (.packet ⟨kPacketMagicNum, 1, 5, 1, [6], true⟩) c₁ ∧
      Run (ClientStep Protobuf.oneByte) c₁
        [.packet ⟨kPacketMagicNum, 1, 0, 1, [9], true⟩, .ret,
          .packet ⟨kPacketMagicNum, 1, 0, 1, [8], true⟩] c ∧
      c.object 0 = 9 ∧ c.runs 0 = 1 :=
    ⟨_, _, _, .cons (.call nofun (RpcChannel.callMethod_init rfl
        (Packet.new_single MethodDescriptor.hash_echo _ _))) <|
      .cons (.out rfl rfl) <| .cons (.sendQueued rfl rfl) <| .single (.connected rfl rfl),
      .skip rfl rfl, .cons (.response rfl rfl) <| .cons (.ret rfl) <| .single (.skip rfl rfl),
      rfl, rfl⟩
  obtain ⟨c₀, c₁, c, hrun, hrequest, hrest, hobject, hruns⟩ := hrun
  obtain ⟨hcontext, hsame⟩ := (response_matching hrun).2.2.2 _ c₁ hrequest (.inl (by decide))
  exact ⟨c₀, c₁, c, hrun, hrequest, hrest, hcontext, hsame, hobject, hruns,
    (response_matching (hrun.append (.cons hrequest hrest))).1⟩

/-! ## Requests on the wire -/

end ServerKit
