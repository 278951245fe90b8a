import ServerKit.Rpc.Verify.Exchange

/-!
# Responses meet their calls

The second part of the invariant of a client and a server: the responses reach the client in the
order in which the services ran the done closures (`RpcSystem.Responses`). It is kept as long as no
call is given the guid of a pending one (`RpcSystem.Fresh`).
-/

namespace ServerKit

open Lib

variable {T Msg : Type} {pb : Protobuf T Msg}

namespace RpcSystem

variable {s s' : RpcSystem T Msg}

/-- The service has been called for the `k`-th call, with its method and request, and has answered
with `response`. -/
def Answered (s : RpcSystem T Msg) (k : ℕ) (call : RpcCall T Msg) (response : Msg) : Prop :=
  s.client.calls[k]? = some call ∧ ∃ invocation, s.invocations[k]? = some invocation ∧
    invocation.method.method = call.method ∧ invocation.context.request = call.request ∧
    invocation.response = some response

/-- The connect has completed, all bytes have been delivered, and every done closure of a service
has run. -/
structure Settled (s : RpcSystem T Msg) : Prop where
  connected : s.client.channel.status = .connected
  pc : s.client.pc = .idle
  clientReads : s.clientReads = false
  serverReads : s.serverReads = false
  clientBytes : s.client.channel.writeList = []
  serverBytes : s.session.writeList = []
  answered : ∀ invocation ∈ s.invocations, invocation.response ≠ none

/-- A call is not given the guid of a pending call. -/
def Fresh (s : RpcSystem T Msg) : RpcEvent T Msg → Prop
  | .call .. => s.client.channel.requestContext (s.client.channel.allocateGuid + 1) = none
  | _ => True

/-! ## Responses -/

/-- The packet of the response to the `k`-th call. -/
def ResponsePacket (pb : Protobuf T Msg) (s : RpcSystem T Msg) (k : ℕ) (packet : Packet) : Prop :=
  ∃ call response, s.Answered k call response ∧ pb.typeOf response = call.method.outputType ∧
    Packet.new pb (UInt64.ofNat (k + 1)) none response = .ok packet

/-- The calls in `order` have been answered, in this order, and the client has got the first `m` of
the responses. The context of every other call is still in `request_context_`. -/
structure Responses (pb : Protobuf T Msg) (order : List ℕ) (m : ℕ) (s : RpcSystem T Msg) :
    Prop where
  nodup : order.Nodup
  length : s.session.sent.length = order.length
  sent : ∀ (i k : ℕ) (packet : Packet), order[i]? = some k → s.session.sent[i]? = some packet →
    s.ResponsePacket pb k packet
  complete : ∀ (k : ℕ) (invocation : Invocation T Msg), s.invocations[k]? = some invocation →
    invocation.response ≠ none → k ∈ order
  le : m ≤ order.length
  inFlight : InFlight s.clientReads s.client.channel.parser s.client.channel.readList
    s.session.writeList (s.session.sent.drop m)
  ran : ∀ k ∈ order.take m, s.client.runs k = 1 ∧ ∃ call, s.Answered k call (s.client.object k)
  pending : ∀ (k : ℕ) (call : RpcCall T Msg), s.client.calls[k]? = some call → k ∉ order.take m →
    s.client.runs k = 0 ∧ s.client.channel.requestContext (UInt64.ofNat (k + 1)) = some ⟨k, k, k⟩ ∧
      pb.typeOf (s.client.object k) = call.method.outputType

variable {order : List ℕ} {m : ℕ}

theorem Answered.lt {k : ℕ} {call : RpcCall T Msg} {response : Msg}
    (h : s.Answered k call response) : k < s.client.calls.length :=
  (List.getElem?_eq_some_iff.mp h.1).1

/-- A step that keeps the calls and invocations of before keeps the answers. -/
theorem Answered.mono {k : ℕ} {call : RpcCall T Msg} {response : Msg}
    (h : s.Answered k call response)
    (hcalls : s.client.calls[k]? = some call → s'.client.calls[k]? = some call)
    (hinvocations : ∀ invocation, s.invocations[k]? = some invocation →
      invocation.response = some response → s'.invocations[k]? = some invocation) :
    s'.Answered k call response := by
  obtain ⟨hcall, invocation, hget, hmethod, hrequest, hresponse⟩ := h
  exact ⟨hcalls hcall, invocation, hinvocations _ hget hresponse, hmethod, hrequest, hresponse⟩

theorem ResponsePacket.mono {k : ℕ} {packet : Packet} (h : s.ResponsePacket pb k packet)
    (hmono : ∀ call response, s.Answered k call response → s'.Answered k call response) :
    s'.ResponsePacket pb k packet := by
  obtain ⟨call, response, hanswered, hrest⟩ := h
  exact ⟨call, response, hmono call response hanswered, hrest⟩

/-- The calls in `order` have been answered. -/
theorem Responses.answered (h : s.Responses pb order m) {k : ℕ} (hk : k ∈ order) :
    ∃ call response, s.Answered k call response := by
  obtain ⟨i, hi⟩ := List.mem_iff_getElem?.mp hk
  have hlt : i < s.session.sent.length := by
    rw [h.length]
    exact (List.getElem?_eq_some_iff.mp hi).1
  obtain ⟨call, response, hanswered, -⟩ := h.sent i k _ hi (List.getElem?_eq_getElem hlt)
  exact ⟨call, response, hanswered⟩

theorem Responses.isFrame (h : s.Responses pb order m) (hpb : pb.RoundTrips) :
    ∀ packet ∈ s.session.sent.drop m, packet.IsFrame := by
  intro packet hmem
  obtain ⟨i, hi⟩ := List.mem_iff_getElem?.mp (List.mem_of_mem_drop hmem)
  have hlt : i < order.length := by
    rw [← h.length]
    exact (List.getElem?_eq_some_iff.mp hi).1
  obtain ⟨call, response, -, -, hpacket⟩ := h.sent i _ packet (List.getElem?_eq_getElem hlt) hi
  exact Packet.new_isFrame hpb hpacket

/-- A step that changes nothing of what the client has got, and only moves bytes. -/
theorem Responses.keep (h : s.Responses pb order m) (hcalls : s'.client.calls = s.client.calls)
    (hinvocations : s'.invocations = s.invocations) (hsent : s'.session.sent = s.session.sent)
    (hruns : s'.client.runs = s.client.runs) (hobject : s'.client.object = s.client.object)
    (hcontext : s'.client.channel.requestContext = s.client.channel.requestContext)
    (hinFlight : InFlight s'.clientReads s'.client.channel.parser s'.client.channel.readList
      s'.session.writeList (s'.session.sent.drop m)) : s'.Responses pb order m := by
  have hmono : ∀ {k call response}, s.Answered k call response → s'.Answered k call response := by
    intro k call response hanswered
    exact hanswered.mono (hcalls ▸ id) (fun _ hget _ => hinvocations ▸ hget)
  refine ⟨h.nodup, hsent ▸ h.length, fun i k packet hi hpacket => ?_, ?_, h.le, hinFlight,
    fun k hk => ?_, fun k call hk hnot => ?_⟩
  · rw [hsent] at hpacket
    exact (h.sent i k packet hi hpacket).mono fun _ _ => hmono
  · rw [hinvocations]
    exact h.complete
  · obtain ⟨hrun, call, hanswered⟩ := h.ran k hk
    rw [hruns, hobject]
    exact ⟨hrun, call, hmono hanswered⟩
  · rw [hcalls] at hk
    rw [hruns, hobject, hcontext]
    exact h.pending k call hk hnot

/-- A call that is given the guid of no pending call. -/
theorem Responses.call (h : s.Responses pb order m) (hcontexts : s.client.ContextsOk)
    (hsend : s.client.SendOk pb) {c : RpcClient T Msg} {method : MethodDescriptor T}
    {request response : Msg} {err : ℤ} (hfresh : s.Fresh (.call method request response))
    (hlegal : s.Legal pb method request response)
    (hs : ClientStep pb s.client (.call method request response err) c) :
    (s.setClient c).Responses pb order m := by
  cases hs with
  | callClosed _ hcall =>
    obtain ⟨-, rfl⟩ := RpcClient.callClosed_eq hcall
    exact h.keep rfl rfl rfl rfl rfl rfl h.inFlight
  | @call _ _ _ _ _ controller channel _ hcall =>
    obtain ⟨packet, -, -, haccepts⟩ := RpcClient.call_eq hsend hcall
    have hguid : s.client.channel.allocateGuid + 1 = UInt64.ofNat (s.client.calls.length + 1) := by
      rw [hsend.allocateGuid, UInt64.ofNat_add]
      rfl
    have hmono : ∀ {k call response'}, s.Answered k call response' →
        (s.setClient (((s.client.setObject s.client.calls.length response).setChannel
        channel).addCall
          ⟨method, request, controller⟩)).Answered k call response' := by
      intro k call response' hanswered
      exact hanswered.mono (fun hget => getElem?_snoc.mpr (.inl hget)) fun _ hget _ => hget
    refine ⟨h.nodup, h.length, fun i k packet hi hpacket => ?_, h.complete, h.le, ?_,
      fun k hk => ?_, fun k call hk hnot => ?_⟩
    · exact (h.sent i k packet hi hpacket).mono fun _ _ => hmono
    · change InFlight s.clientReads channel.parser channel.readList _ _
      rw [haccepts.parser, haccepts.readList]
      exact h.inFlight
    · obtain ⟨hrun, call, hanswered⟩ := h.ran k hk
      refine ⟨hrun, call, ?_⟩
      change RpcSystem.Answered _ k call (Function.update s.client.object s.client.calls.length
        response k)
      rw [Function.update_of_ne (Nat.ne_of_lt hanswered.lt)]
      exact hmono hanswered
    · change s.client.runs k = 0 ∧ channel.requestContext _ = _ ∧
        pb.typeOf (Function.update s.client.object s.client.calls.length response k) = _
      have hk : (s.client.calls ++ [⟨method, request, controller⟩])[k]? = some call := hk
      rw [haccepts.requestContext, hguid]
      rcases getElem?_snoc.mp hk with hk | ⟨rfl, rfl⟩
      · obtain ⟨hrun, hcontext, htype⟩ := h.pending k call hk hnot
        have hne : UInt64.ofNat (k + 1) ≠ UInt64.ofNat (s.client.calls.length + 1) := by
          intro heq
          have hnone : s.client.channel.requestContext (s.client.channel.allocateGuid + 1) = none :=
            hfresh
          rw [hguid, ← heq, hcontext] at hnone
          cases hnone
        rw [Function.update_of_ne hne,
          Function.update_of_ne (Nat.ne_of_lt (List.getElem?_eq_some_iff.mp hk).1)]
        exact ⟨hrun, hcontext, htype⟩
      · rw [Function.update_self, Function.update_self]
        exact ⟨hcontexts.runs_new _ (Nat.le_refl _), rfl, hlegal.outputType⟩

/-- The service answers a call that it has not answered yet. -/
theorem Responses.respond (h : s.Responses pb order m) (hrequests : s.Requests pb) {i : ℕ}
    {invocation : Invocation T Msg} {response : Msg} {session : RpcSession T}
    (hi : s.invocations[i]? = some invocation) (hnone : invocation.response = none)
    (htype : pb.typeOf response = invocation.method.method.outputType)
    (hresponse : s.session.onResponse pb invocation.context response = .ok session) :
    ((s.setSession session).complete i invocation response).Responses pb (order ++ [i]) m := by
  obtain ⟨packet, hpacket, rfl⟩ := RpcSession.onResponse_eq hresponse
  obtain ⟨call, hcall, hmethod, hrequest, hguid⟩ := hrequests.invoked i invocation hi
  have hnot : i ∉ order := by
    intro hmem
    obtain ⟨call, response, -, invocation', hget, -, -, hsome⟩ := h.answered hmem
    obtain rfl := Option.some.inj (hi.symm.trans hget)
    rw [hnone] at hsome
    cases hsome
  have htake : (order ++ [i]).take m = order.take m := List.take_append_of_le_length h.le
  have hmono : ∀ {k call response'}, s.Answered k call response' →
      ((s.setSession { s.session with
        writeList := s.session.writeList ++ packet.encode
        sent := s.session.sent ++ [packet] }).complete i invocation response).Answered k call
          response' := by
    intro k call response' hanswered
    refine hanswered.mono id fun invocation' hget hsome => ?_
    have hne : k ≠ i := by
      rintro rfl
      obtain rfl := Option.some.inj (hi.symm.trans hget)
      rw [hnone] at hsome
      cases hsome
    exact (complete_of_ne hne).trans hget
  refine ⟨?_, ?_, fun j k packet' hj hpacket' => ?_, fun k invocation' hk hsome => ?_, ?_, ?_,
    fun k hk => ?_, fun k call hk hk' => ?_⟩
  · exact List.nodup_append.mpr ⟨h.nodup, List.pairwise_singleton _ i, by
      rintro k hk _ hmem rfl
      exact hnot (List.mem_singleton.mp hmem ▸ hk)⟩
  · change (s.session.sent ++ [packet]).length = _
    rw [List.length_append, List.length_append, h.length]
    rfl
  · rcases getElem?_snoc.mp hj with hj' | ⟨rfl, rfl⟩
    · rcases getElem?_snoc.mp hpacket' with hpacket' | ⟨rfl, rfl⟩
      · exact (h.sent j k packet' hj' hpacket').mono fun _ _ => hmono
      · have hlt := (List.getElem?_eq_some_iff.mp hj').1
        rw [h.length] at hlt
        exact absurd hlt (Nat.lt_irrefl _)
    · rcases getElem?_snoc.mp hpacket' with hpacket' | ⟨-, rfl⟩
      · have hlt := (List.getElem?_eq_some_iff.mp hpacket').1
        rw [h.length] at hlt
        exact absurd hlt (Nat.lt_irrefl _)
      · refine ⟨call, response, ⟨hcall, _, complete_self response hi, hmethod, hrequest, rfl⟩, ?_,
          ?_⟩
        · rw [htype, hmethod]
        · rw [← hguid]
          exact hpacket
  · by_cases heq : k = i
    · rw [heq]
      exact List.mem_append_right _ (List.mem_singleton.mpr rfl)
    · exact List.mem_append_left _ (h.complete k invocation'
        ((complete_of_ne heq).symm.trans hk) hsome)
  · rw [List.length_append]
    exact Nat.le_add_right_of_le h.le
  · change InFlight s.clientReads _ _ (s.session.writeList ++ packet.encode)
      ((s.session.sent ++ [packet]).drop m)
    have hsend := h.inFlight.send [packet]
    rw [encodeAll_cons, encodeAll_nil, List.append_nil] at hsend
    rw [List.drop_append_of_le_length (h.length.symm ▸ h.le)]
    exact hsend
  · rw [htake] at hk
    obtain ⟨hrun, call, hanswered⟩ := h.ran k hk
    exact ⟨hrun, call, hmono hanswered⟩
  · rw [htake] at hk'
    exact h.pending k call hk hk'

/-- **A response meets its call.** The client gets the next response, and runs the done closure of
its call. -/
theorem Responses.clientPacket (h : s.Responses pb order m) (hpb : pb.RoundTrips)
    {channel : RpcChannel} {c : RpcClient T Msg}
    (hrecv : s.client.channel.recvPacket = .ok (true, channel)) (hreads : s.clientReads = true)
    (hs : ClientStep pb (s.client.setChannel channel) (.packet channel.parser.getPacket) c) :
    (s.setClient c).Responses pb order (m + 1) := by
  obtain ⟨parser, readList, hr, rfl⟩ := RpcChannel.recvPacket_eq hrecv
  obtain ⟨packet, qs, hdrop, hpacket, hflight⟩ := h.inFlight.recv_true (h.isFrame hpb) hr
  have hget : s.session.sent[m]? = some packet := by
    rw [← List.head?_drop, hdrop]
    rfl
  have hqs : qs = s.session.sent.drop (m + 1) := by
    rw [← List.tail_drop, hdrop]
    rfl
  have hm : m < order.length := by
    rw [← h.length]
    exact (List.getElem?_eq_some_iff.mp hget).1
  obtain ⟨k, hk⟩ : ∃ k, order[m]? = some k := ⟨_, List.getElem?_eq_getElem hm⟩
  have htake : order.take (m + 1) = order.take m ++ [k] := by
    rw [List.take_add_one, hk]
    rfl
  have hnot : k ∉ order.take m := by
    intro hmem
    have hnodup : (order.take (m + 1)).Nodup := h.nodup.sublist (List.take_sublist _ _)
    rw [htake] at hnodup
    exact (List.nodup_append.mp hnodup).2.2 k hmem k (List.mem_singleton.mpr rfl) rfl
  obtain ⟨call, response, hanswered, htype, hnew⟩ := h.sent m k packet hk hget
  obtain ⟨-, hguid, hcontent, -, -, hmethodId⟩ := Packet.new_eq hnew
  obtain ⟨hruns, hcontext, hobject⟩ := h.pending k call hanswered.1 hnot
  have hparse : pb.parse (pb.typeOf (s.client.object k)) packet.content = (true, response) := by
    rw [hobject, ← htype, hcontent]
    exact hpb.parse_serialize response
  have hmethodId : packet.received.methodId = 0 := hmethodId rfl
  have hguid : packet.received.guid = UInt64.ofNat (k + 1) := hguid
  rw [PacketParser.getPacket, hpacket] at hs
  cases hs with
  | skip _ honPacket =>
    obtain ⟨-, hnone⟩ := RpcChannel.onPacket_none honPacket
    have hnone := hnone hmethodId
    rw [hguid] at hnone
    cases hcontext.symm.trans hnone
  | unparsed _ honPacket =>
    obtain ⟨-, hsome, hparse', -⟩ := RpcChannel.onPacket_some honPacket
    rw [hguid] at hsome
    obtain rfl := Option.some.inj (hcontext.symm.trans hsome)
    cases hparse.symm.trans hparse'
  | response _ honPacket =>
    obtain ⟨-, hsome, hparse', rfl⟩ := RpcChannel.onPacket_some honPacket
    rw [hguid] at hsome
    obtain rfl := Option.some.inj (hcontext.symm.trans hsome)
    obtain rfl := (Prod.mk.inj (hparse.symm.trans hparse')).2
    rw [hguid]
    refine ⟨h.nodup, h.length, h.sent, h.complete, hm, ?_, fun k' hk' => ?_,
      fun k' call' hcall' hk' => ?_⟩
    · change InFlight s.clientReads _ _ _ (s.session.sent.drop (m + 1))
      rw [hreads, ← hqs]
      exact hflight
    · change Function.update s.client.runs k (s.client.runs k + 1) k' = 1 ∧
        ∃ call, s.Answered k' call (Function.update s.client.object k response k')
      rw [htake] at hk'
      by_cases heq : k' = k
      · subst heq
        rw [Function.update_self, Function.update_self, hruns]
        exact ⟨rfl, call, hanswered⟩
      · rw [Function.update_of_ne heq, Function.update_of_ne heq]
        rcases List.mem_append.mp hk' with hk' | hk'
        · exact h.ran k' hk'
        · exact absurd (List.mem_singleton.mp hk') heq
    · rw [htake] at hk'
      have hne : k' ≠ k := fun heq => hk' (List.mem_append_right _ (List.mem_singleton.mpr heq))
      obtain ⟨hruns', hcontext', hobject'⟩ := h.pending k' call' hcall' fun hmem =>
        hk' (List.mem_append_left _ hmem)
      have hguid' : UInt64.ofNat (k' + 1) ≠ UInt64.ofNat (k + 1) := by
        intro heq
        rw [heq, hcontext] at hcontext'
        exact hne (RequestContext.mk.inj (Option.some.inj hcontext')).1.symm
      change Function.update s.client.runs k (s.client.runs k + 1) k' = 0 ∧
        Function.update s.client.channel.requestContext (UInt64.ofNat (k + 1)) none
          (UInt64.ofNat (k' + 1)) = _ ∧
        pb.typeOf (Function.update s.client.object k response k') = _
      rw [Function.update_of_ne hne, Function.update_of_ne hne, Function.update_of_ne hguid']
      exact ⟨hruns', hcontext', hobject'⟩

/-- A call of a service, which has not answered yet. -/
theorem Responses.serverCall (h : s.Responses pb order m) {session : RpcSession T}
    (method : RpcMeta T) (context : ResponseContext Msg)
    (hsent : session.sent = s.session.sent) (hwrite : session.writeList = s.session.writeList) :
    (((s.setSession session).invoke method context).setInService true).Responses pb order m := by
  have hmono : ∀ {k call response}, s.Answered k call response →
      (((s.setSession session).invoke method context).setInService true).Answered
        k call response := by
    intro k call response hanswered
    exact hanswered.mono id fun _ hget _ => getElem?_snoc.mpr (.inl hget)
  refine ⟨h.nodup, hsent ▸ h.length, fun i k packet hi hpacket => ?_,
    fun k invocation hk hsome => ?_, h.le, ?_, fun k hk => ?_, h.pending⟩
  · have hpacket : session.sent[i]? = some packet := hpacket
    rw [hsent] at hpacket
    exact (h.sent i k packet hi hpacket).mono fun _ _ => hmono
  · rcases getElem?_snoc.mp hk with hk | ⟨-, rfl⟩
    · exact h.complete k invocation hk hsome
    · exact absurd rfl hsome
  · change InFlight s.clientReads _ _ session.writeList (session.sent.drop m)
    rw [hsent, hwrite]
    exact h.inFlight
  · obtain ⟨hrun, call, hanswered⟩ := h.ran k hk
    exact ⟨hrun, call, hmono hanswered⟩

/-- The step lemma for responses. -/
theorem Responses.step (h : s.Responses pb order m) (hpb : pb.RoundTrips)
    (hrequests : s.Requests pb) (hcontexts : s.client.ContextsOk) {e : RpcEvent T Msg}
    (hfresh : s.Fresh e) (hs : RpcStep pb s e s') : ∃ order m, s'.Responses pb order m := by
  cases hs with
  | call _ hlegal hs => exact ⟨order, m, h.call hcontexts hrequests.send hfresh hlegal hs⟩
  | out _ hs =>
    cases hs
    exact ⟨order, m, h.keep rfl rfl rfl rfl rfl rfl h.inFlight⟩
  | sendQueued hs =>
    cases hs with
    | sendQueued _ hstep =>
      obtain ⟨_, _, -, rfl⟩ := RpcChannel.onConnectStep_eq hstep
      exact ⟨order, m, h.keep rfl rfl rfl rfl rfl rfl h.inFlight⟩
  | connected hs =>
    cases hs
    exact ⟨order, m, h.keep rfl rfl rfl rfl rfl rfl h.inFlight⟩
  | ret hs =>
    cases hs
    exact ⟨order, m, h.keep rfl rfl rfl rfl rfl rfl h.inFlight⟩
  | clientPacket hreads _ hrecv hs =>
    exact ⟨order, m + 1, h.clientPacket hpb hrecv hreads hs⟩
  | clientDone _ _ hrecv =>
    obtain ⟨parser, readList, hr, rfl⟩ := RpcChannel.recvPacket_eq hrecv
    exact ⟨order, m, h.keep rfl rfl rfl rfl rfl rfl (h.inFlight.recv_false (h.isFrame hpb) hr)⟩
  | serverCall _ _ hrecv hcall =>
    obtain ⟨call, service, -, honPacket, -, -, hwrite, hsent, -⟩ :=
      hrequests.serverPacket hpb hrecv _
    rw [hcall] at honPacket
    obtain ⟨-, rfl⟩ := Prod.mk.inj honPacket
    exact ⟨order, m, h.serverCall _ _ hsent hwrite⟩
  | serverSkip _ _ hrecv hskip =>
    obtain ⟨call, service, -, honPacket, -⟩ := hrequests.serverPacket hpb hrecv _
    rw [hskip] at honPacket
    cases (Prod.mk.inj honPacket).1
  | serverDone _ _ hrecv =>
    obtain ⟨parser, readList, -, rfl⟩ := RpcSession.recvPacket_eq hrecv
    exact ⟨order, m, h.keep rfl rfl rfl rfl rfl rfl h.inFlight⟩
  | serviceRet => exact ⟨order, m, h.keep rfl rfl rfl rfl rfl rfl h.inFlight⟩
  | respond _ hi hnone htype hresponse =>
    exact ⟨_, m, h.respond hrequests hi hnone htype hresponse⟩
  | toServer _ _ _ => exact ⟨order, m, h.keep rfl rfl rfl rfl rfl rfl h.inFlight⟩
  | toClient _ _ _ _ => exact ⟨order, m, h.keep rfl rfl rfl rfl rfl rfl (h.inFlight.move _)⟩

/-! ## Runs -/

theorem contextsOk_step (h : s.client.ContextsOk) (hrequests : s.Requests pb)
    {e : RpcEvent T Msg} (hs : RpcStep pb s e s') : s'.client.ContextsOk := by
  have hsend := hrequests.send
  cases hs with
  | call _ _ hs | out _ hs | sendQueued hs | connected hs | ret hs => exact h.step hsend hs
  | clientPacket _ _ hrecv hs =>
    obtain ⟨parser, readList, -, rfl⟩ := RpcChannel.recvPacket_eq hrecv
    have hkeep : (s.client.setChannel { s.client.channel with
        parser := parser, readList := readList }).ContextsOk :=
      ⟨h.guid, h.context, h.runs_le, h.runs_new⟩
    exact hkeep.step ⟨hsend.allocateGuid, hsend.packets, hsend.queue, hsend.onConnect⟩ hs
  | clientDone _ _ hrecv =>
    obtain ⟨parser, readList, -, rfl⟩ := RpcChannel.recvPacket_eq hrecv
    exact ⟨h.guid, h.context, h.runs_le, h.runs_new⟩
  | serverCall | serverSkip | serverDone | serviceRet | respond => exact h
  | toServer | toClient => exact ⟨h.guid, h.context, h.runs_le, h.runs_new⟩

theorem calls_le {e : RpcEvent T Msg} (hs : RpcStep pb s e s') :
    s.client.calls.length ≤ s'.client.calls.length := by
  have hclient : ∀ {c c' : RpcClient T Msg} {e : ClientEvent T Msg}, ClientStep pb c e c' →
      c.calls.length ≤ c'.calls.length := by
    intro c c' e hs
    rcases RpcClient.calls_step hs with heq | ⟨_, _, _, _, _, -, heq⟩
    · exact Nat.le_of_eq (congrArg _ heq.symm)
    · rw [heq, List.length_append]
      exact Nat.le_add_right _ _
  cases hs with
  | call _ _ hs | out _ hs | sendQueued hs | connected hs | ret hs => exact hclient hs
  | clientPacket _ _ _ hs =>
    have hle := hclient hs
    exact hle
  | _ => exact Nat.le_refl _

variable {service : RpcService T} {guid : UInt64} {object : ℕ → Msg} {es : List (RpcEvent T Msg)}

theorem requests_new : (RpcSystem.new service guid object).Requests pb where
  send := RpcClient.sendOk_new guid object
  legal := nofun
  invoked := nofun
  invocations_le := Nat.le_refl _
  inFlight := .new

theorem responses_new : (RpcSystem.new service guid object).Responses pb [] 0 where
  nodup := .nil
  length := rfl
  sent := nofun
  complete := nofun
  le := Nat.le_refl _
  inFlight := .new
  ran := nofun
  pending := nofun

/-- The part of the invariant that holds in every run. -/
theorem requests_of_run (hpb : pb.RoundTrips)
    (hrun : Run (RpcStep pb) (.new service guid object) es s) :
    s.Requests pb ∧ s.client.ContextsOk := by
  refine hrun.invariant (fun s => s.Requests pb ∧ s.client.ContextsOk) ?_
    ⟨requests_new, RpcClient.contextsOk_new guid object⟩
  intro s e s' h hs
  exact ⟨h.1.step hpb hs, contextsOk_step h.2 h.1 hs⟩

theorem responses_of_run (hpb : pb.RoundTrips)
    (hrun : Run (Lts.restrict (RpcStep pb) Fresh) (.new service guid object) es s) :
    ∃ order m, s.Responses pb order m := by
  have hboth : s.Requests pb ∧ s.client.ContextsOk ∧ ∃ order m, s.Responses pb order m := by
    refine hrun.invariant (fun s => s.Requests pb ∧ s.client.ContextsOk ∧
      ∃ order m, s.Responses pb order m) ?_
      ⟨requests_new, RpcClient.contextsOk_new guid object, [], 0, responses_new⟩
    rintro s e s' ⟨hrequests, hcontexts, order, m, h⟩ ⟨hfresh, hs⟩
    exact ⟨hrequests.step hpb hs, contextsOk_step hcontexts hrequests hs,
      h.step hpb hrequests hcontexts hfresh hs⟩
  exact hboth.2.2

/-- Below `2 ^ 64` calls the next guid is that of no call. -/
theorem fresh_of_calls_lt (hrequests : s.Requests pb) (hcontexts : s.client.ContextsOk)
    (hlt : s.client.calls.length < 2 ^ 64) (e : RpcEvent T Msg) : s.Fresh e := by
  cases e with
  | call =>
    change s.client.channel.requestContext (s.client.channel.allocateGuid + 1) = none
    cases hcontext : s.client.channel.requestContext (s.client.channel.allocateGuid + 1) with
    | none => rfl
    | some context =>
      obtain ⟨-, -, call, hcall, hguid⟩ := hcontexts.context _ _ hcontext
      have hdone := (List.getElem?_eq_some_iff.mp hcall).1
      rw [hcontexts.guid _ _ hcall, hrequests.send.allocateGuid] at hguid
      have heq := congrArg UInt64.toNat hguid
      rw [UInt64.toNat_add, UInt64.toNat_ofNat', UInt64.toNat_ofNat'] at heq
      have hone : (1 : UInt64).toNat = 1 := rfl
      rw [hone] at heq
      omega
  | _ => trivial

theorem fresh_of_run (hpb : pb.RoundTrips)
    (hrun : Run (RpcStep pb) (.new service guid object) es s) :
    s.client.calls.length < 2 ^ 64 →
      Run (Lts.restrict (RpcStep pb) Fresh) (.new service guid object) es s := by
  refine Run.snoc_induction (P := fun es s => s.client.calls.length < 2 ^ 64 →
    Run (Lts.restrict (RpcStep pb) Fresh) (.new service guid object) es s) (fun _ => .nil _) ?_ hrun
  intro es s e s' hrun ih hs hlt
  have hlt' := Nat.lt_of_le_of_lt (calls_le hs) hlt
  obtain ⟨hrequests, hcontexts⟩ := requests_of_run hpb hrun
  exact (ih hlt').snoc ⟨fresh_of_calls_lt hrequests hcontexts hlt' e, hs⟩

/-- When all bytes have been delivered, the services have been called for every call. -/
theorem Requests.settled (h : s.Requests pb) (hpb : pb.RoundTrips) (hs : s.Settled) {k : ℕ}
    (hk : k < s.client.calls.length) : ∃ invocation, s.invocations[k]? = some invocation := by
  have hqueue := h.send.queue hs.connected (by rw [hs.pc]; nofun)
  have hlength := congrArg List.length h.send.packets
  rw [hqueue, List.append_nil, List.length_map, List.length_mapIdx] at hlength
  have hflight := h.inFlight
  rw [hs.serverReads, hs.clientBytes] at hflight
  have hnil := hflight.eq_nil fun p hp => h.send.isFrame hpb p (List.mem_of_mem_drop hp)
  have hle := List.drop_eq_nil_iff.mp hnil
  exact ⟨_, List.getElem?_eq_getElem (by omega)⟩

/-- When the responses have been delivered too, every done closure has run. -/
theorem Responses.settled (h : s.Responses pb order m) (hpb : pb.RoundTrips) (hs : s.Settled)
    {k : ℕ} {invocation : Invocation T Msg} (hk : s.invocations[k]? = some invocation) :
    s.client.runs k = 1 := by
  have hmem := h.complete k invocation hk (hs.answered _ (List.mem_of_getElem? hk))
  have hflight := h.inFlight
  rw [hs.clientReads, hs.serverBytes] at hflight
  have hle := List.drop_eq_nil_iff.mp (hflight.eq_nil (h.isFrame hpb))
  rw [h.length] at hle
  rw [← List.take_of_length_le hle] at hmem
  exact (h.ran k hmem).1

end RpcSystem

/-- **Responses meet their calls.** In every run of a client whose connect succeeds and a server,
every client done closure has run at most once. In every run in which no call is given the guid of a
pending call, when the done closure of a call has run, its response object holds the response of the
service to the request of that call; and once all bytes have been delivered and every done closure
of the services has run, every client done closure has run exactly once. Runs of fewer than `2 ^ 64`
calls are of this kind. -/
theorem responses_meet_calls (hpb : pb.RoundTrips) {service : RpcService T} {guid : UInt64}
    {object : ℕ → Msg} {es : List (RpcEvent T Msg)} {s : RpcSystem T Msg}
    (hrun : Run (RpcStep pb) (.new service guid object) es s) :
    (∀ k, s.client.runs k ≤ 1) ∧
      (Run (Lts.restrict (RpcStep pb) RpcSystem.Fresh) (.new service guid object) es s →
        (∀ k, s.client.runs k = 1 → ∃ call, s.Answered k call (s.client.object k)) ∧
          (s.Settled → ∀ k, k < s.client.calls.length → s.client.runs k = 1)) ∧
      (s.client.calls.length < 2 ^ 64 →
        Run (Lts.restrict (RpcStep pb) RpcSystem.Fresh) (.new service guid object) es s) := by
  obtain ⟨hrequests, hcontexts⟩ := RpcSystem.requests_of_run hpb hrun
  refine ⟨hcontexts.runs_le, fun hfresh => ?_, RpcSystem.fresh_of_run hpb hrun⟩
  obtain ⟨order, m, hresponses⟩ := RpcSystem.responses_of_run hpb hfresh
  refine ⟨fun k hk => ?_, fun hsettled k hk => ?_⟩
  · by_cases hmem : k ∈ order.take m
    · exact (hresponses.ran k hmem).2
    · have hzero : s.client.runs k = 0 := by
        rcases Nat.lt_or_ge k s.client.calls.length with hlt | hge
        · exact (hresponses.pending k _ (List.getElem?_eq_getElem hlt) hmem).1
        · exact hcontexts.runs_new k hge
      rw [hzero] at hk
      cases hk
  · obtain ⟨invocation, hget⟩ := hrequests.settled hpb hsettled hk
    exact hresponses.settled hpb hsettled hget

/-! ## Echoes -/

/-- A request for the method `echo`. -/
def Packet.echo (guid : UInt64) (request : UInt8) : Packet :=
  ⟨kPacketMagicNum, guid, 16150113815174350619, 1, [request], false⟩

/-- The response 9. -/
def Packet.echoResponse (guid : UInt64) : Packet := ⟨kPacketMagicNum, guid, 0, 1, [9], false⟩

theorem Packet.echo_methodId (guid : UInt64) (request : UInt8) :
    (echo guid request).methodId ≠ 0 := by
  change (16150113815174350619 : UInt64) ≠ 0
  decide

namespace RpcSystem

/-- The client has called `echo` with 7, and nothing has reached the server. -/
structure EchoCall (s : RpcSystem Unit UInt8) : Prop where
  status : s.client.channel.status = .connected
  allocateGuid : s.client.channel.allocateGuid = 1
  requestContext : s.client.channel.requestContext =
    Function.update (fun _ => none) 1 (some ⟨0, 0, 0⟩)
  writeList : s.client.channel.writeList = (Packet.echo 1 7).encode ++ []
  length : s.client.calls.length = 1
  runs : s.client.runs = fun _ => 0
  client : s.ClientReady
  server : s.ServerReady
  session : s.session = .new (.single .echo 16150113815174350619)
  invocations : s.invocations = []

theorem getService_echo :
    (RpcService.single .echo 16150113815174350619).getService 16150113815174350619 =
      some ⟨9, .echo⟩ := by
  change Function.update (RpcService.new Unit).methodMap 16150113815174350619 (some ⟨9, .echo⟩)
    16150113815174350619 = _
  rw [Function.update_self]

theorem legal_echo {s : RpcSystem Unit UInt8}
    (hservice : s.session.service = .single .echo 16150113815174350619) (request response : UInt8) :
    s.Legal Protobuf.oneByte .echo request response := by
  refine ⟨⟨_, 9, MethodDescriptor.hash_echo, by decide, ?_⟩, rfl, rfl⟩
  rw [hservice]
  exact getService_echo

theorem echoCall : ∃ es s, Run (RpcStep Protobuf.oneByte)
    (.new (.single .echo 16150113815174350619) 3 fun _ => 0) es s ∧ EchoCall s := by
  refine ⟨[.call .echo 7 0, .out, .sendQueued, .connected], _,
    .cons (.call (.inl rfl) (legal_echo rfl 7 0) (.call nofun (RpcChannel.callMethod_init rfl
      (Packet.new_single MethodDescriptor.hash_echo _ _)))) <|
    .cons (.out (.inl rfl) (.out rfl rfl)) <| .cons (.sendQueued (.sendQueued rfl rfl)) <|
    .single (.connected (.connected rfl rfl)), ?_⟩
  exact ⟨rfl, rfl, rfl, rfl, rfl, rfl, ⟨rfl, rfl, rfl, rfl⟩, ⟨rfl, rfl, rfl, rfl⟩, rfl, rfl⟩

/-- The service has been called for the first call. -/
def echoInvocation : Invocation Unit UInt8 := ⟨⟨9, .echo⟩, ⟨0, 1, 7⟩, none⟩

/-- The client has called `echo` `n + 1` times, first with 7 and then with 8. The service still owes
the response to the first request, and the others have been answered. -/
structure EchoPending (n : ℕ) (s : RpcSystem Unit UInt8) : Prop where
  status : s.client.channel.status = .connected
  allocateGuid : s.client.channel.allocateGuid = UInt64.ofNat (n + 1)
  requestContext : s.client.channel.requestContext =
    Function.update (fun _ => none) 1 (some ⟨0, 0, 0⟩)
  writeList : s.client.channel.writeList = []
  length : s.client.calls.length = n + 1
  runs : ∀ k, k = 0 ∨ n < k → s.client.runs k = 0
  client : s.ClientReady
  server : s.ServerReady
  service : s.session.service = .single .echo 16150113815174350619
  sessionWrite : s.session.writeList = []
  invocations : ∃ rest, s.invocations = echoInvocation :: rest ∧ rest.length = n

/-- The request reaches the service. -/
theorem EchoCall.pending {s : RpcSystem Unit UInt8} (h : EchoCall s) :
    ∃ es s', Run (RpcStep Protobuf.oneByte) s es s' ∧ EchoPending 0 s' := by
  obtain ⟨es, s', hrun, hserver, hclient, hreads, hservice, hwrite, hinvocations⟩ :=
    reach Protobuf.oneByte_roundTrips (.echo 1 7) h.server h.writeList ⟨rfl, rfl⟩ (by decide)
      (by rw [h.session]; exact getService_echo) rfl rfl
  refine ⟨es, s', hrun, ?_⟩
  rw [h.session] at hservice hwrite hinvocations
  rw [h.invocations] at hinvocations
  refine ⟨?_, ?_, ?_, ?_, ?_, ?_, ⟨hreads.trans h.client.reads, ?_, ?_, ?_⟩, hserver, hservice,
    hwrite, [], hinvocations, rfl⟩
  all_goals rw [hclient]
  · exact h.status
  · exact h.allocateGuid
  · exact h.requestContext
  · rfl
  · exact h.length
  · exact fun k _ => congrFun h.runs k
  · exact h.client.pc
  · exact h.client.parser
  · exact h.client.readList

/-- What one more call leaves. -/
structure EchoNext (n : ℕ) (s s' : RpcSystem Unit UInt8) : Prop where
  status : s'.client.channel.status = .connected
  allocateGuid : s'.client.channel.allocateGuid = UInt64.ofNat (n + 2)
  requestContext : s'.client.channel.requestContext = Function.update
    (Function.update (fun _ => none) 1 (some ⟨0, 0, 0⟩)) (UInt64.ofNat (n + 2))
    (some ⟨n + 1, n + 1, n + 1⟩)
  writeList : s'.client.channel.writeList = (Packet.echo (UInt64.ofNat (n + 2)) 8).encode ++ []
  calls : ∃ call, s'.client.calls = s.client.calls ++ [call] ∧ call.request = 8
  runs : s'.client.runs = s.client.runs
  client : s'.ClientReady
  server : s'.ServerReady
  session : s'.session = s.session
  invocations : s'.invocations = s.invocations

theorem EchoPending.call {n : ℕ} {s : RpcSystem Unit UInt8} (h : EchoPending n s) :
    ∃ s', RpcStep Protobuf.oneByte s (.call .echo 8 0) s' ∧ EchoNext n s s' := by
  have huser : s.client.UserRuns := by
    rw [RpcClient.UserRuns, h.client.pc]
    nofun
  have hguid : s.client.channel.allocateGuid + 1 = UInt64.ofNat (n + 2) := by
    rw [h.allocateGuid]
    exact (UInt64.ofNat_add (n + 1) 1).symm
  refine ⟨_, .call (.inl h.client.reads) (legal_echo h.service 8 0)
    (.call huser (RpcChannel.callMethod_connected h.status
      (Packet.new_single MethodDescriptor.hash_echo _ _))), ?_⟩
  refine ⟨h.status, hguid, ?_, ?_, ⟨_, rfl, rfl⟩, rfl,
    ⟨h.client.reads, h.client.pc, h.client.parser, h.client.readList⟩,
    ⟨h.server.reads, h.server.inService, h.server.parser, h.server.readList⟩, rfl, rfl⟩
  · change Function.update s.client.channel.requestContext _ _ = _
    rw [hguid, h.requestContext, RpcClient.nextContext, h.length]
  · change s.client.channel.writeList ++ (Packet.echo _ 8).encode = _
    rw [hguid, h.writeList, List.nil_append, List.append_nil]

/-- One more call, which is answered. -/
theorem EchoPending.next {n : ℕ} {s : RpcSystem Unit UInt8} (h : EchoPending n s)
    (hn : n + 1 < 2 ^ 64) :
    ∃ es s', Run (RpcStep Protobuf.oneByte) s es s' ∧ EchoPending (n + 1) s' := by
  have hne : UInt64.ofNat (n + 2) ≠ 1 := by
    intro heq
    have hmod := congrArg UInt64.toNat heq
    rw [UInt64.toNat_ofNat'] at hmod
    have hone : (1 : UInt64).toNat = 1 := rfl
    omega
  obtain ⟨s₁, hcall, h₁⟩ := h.call
  obtain ⟨es₂, s₂, hrun₂, hserver₂, hclient₂, hreads₂, hservice₂, hwrite₂, hinvocations₂⟩ :=
    serve Protobuf.oneByte_roundTrips (.echo (UInt64.ofNat (n + 2)) 8)
      (.echoResponse (UInt64.ofNat (n + 2))) 9 h₁.server h₁.writeList ⟨rfl, rfl⟩
      (Packet.echo_methodId _ _) (by rw [h₁.session, h.service]; exact getService_echo) rfl rfl rfl
      rfl
  have hready₂ : s₂.ClientReady := by
    refine ⟨hreads₂.trans h₁.client.reads, ?_, ?_, ?_⟩
    all_goals rw [hclient₂]
    · exact h₁.client.pc
    · exact h₁.client.parser
    · exact h₁.client.readList
  have hwire : s₂.session.writeList =
      (Packet.echoResponse (UInt64.ofNat (n + 2))).encode ++ [] := by
    rw [hwrite₂, h₁.session, h.sessionWrite, List.nil_append, List.append_nil]
  have hcontext₂ : s₂.client.channel.requestContext (UInt64.ofNat (n + 2)) =
      some ⟨n + 1, n + 1, n + 1⟩ := by
    rw [hclient₂]
    change s₁.client.channel.requestContext _ = _
    rw [h₁.requestContext, Function.update_self]
  have hparse : Protobuf.oneByte.parse (Protobuf.oneByte.typeOf (s₂.client.object (n + 1))) [9] =
      (true, 9) := rfl
  obtain ⟨es₃, s₃, hrun₃, hready₃, hruns₃, -, hcalls₃, hchannel₃, hsession₃, hreads₃, hin₃,
      hinvocations₃⟩ :=
    deliver (.echoResponse (UInt64.ofNat (n + 2))) _ 9 hready₂ hwire ⟨rfl, rfl⟩ rfl hcontext₂ hparse
  obtain ⟨call, hcalls₁, -⟩ := h₁.calls
  obtain ⟨rest, hfirst, hlength⟩ := h.invocations
  refine ⟨_, s₃, (Run.single hcall).append (hrun₂.append hrun₃), ?_⟩
  refine ⟨?_, ?_, ?_, ?_, ?_, ?_, hready₃, ?_, ?_, ?_, ?_⟩
  · rw [hchannel₃, hclient₂]
    exact h₁.status
  · rw [hchannel₃, hclient₂]
    exact h₁.allocateGuid
  · rw [hchannel₃, hclient₂]
    change Function.update s₁.client.channel.requestContext (UInt64.ofNat (n + 2)) none = _
    rw [h₁.requestContext, Function.update_idem]
    exact Function.update_eq_self_iff.mpr (by rw [Function.update_of_ne hne])
  · rw [hchannel₃, hclient₂]
    rfl
  · rw [hcalls₃, hclient₂]
    change s₁.client.calls.length = _
    rw [hcalls₁, List.length_append, h.length]
    rfl
  · intro k hk
    have hlast : k ≠ n + 1 := by omega
    rw [hruns₃, Function.update_of_ne hlast, hclient₂]
    change s₁.client.runs k = 0
    rw [h₁.runs]
    exact h.runs k (hk.imp_right Nat.lt_of_succ_lt)
  · refine ⟨hreads₃.trans hserver₂.reads, hin₃.trans hserver₂.inService, ?_, ?_⟩
    all_goals rw [hsession₃]
    · exact hserver₂.parser
    · exact hserver₂.readList
  · rw [hsession₃]
    change s₂.session.service = _
    rw [hservice₂, h₁.session, h.service]
  · rw [hsession₃]
  · rw [hinvocations₃, hinvocations₂, h₁.invocations, hfirst]
    exact ⟨_, List.cons_append, by rw [List.length_append, hlength]; rfl⟩

theorem echoPending (n : ℕ) (hn : n < 2 ^ 64) : ∃ es s, Run (RpcStep Protobuf.oneByte)
    (.new (.single .echo 16150113815174350619) 3 fun _ => 0) es s ∧ EchoPending n s := by
  induction n with
  | zero =>
    obtain ⟨es, s, hrun, h⟩ := echoCall
    obtain ⟨es', s', hrun', h'⟩ := h.pending
    exact ⟨es ++ es', s', hrun.append hrun', h'⟩
  | succ n ih =>
    obtain ⟨es, s, hrun, h⟩ := ih (Nat.lt_of_succ_lt hn)
    obtain ⟨es', s', hrun', h'⟩ := h.next hn
    exact ⟨es ++ es', s', hrun.append hrun', h'⟩

/-- The service answers the first request with 9. The response goes to the call that has the context
of guid 1. -/
theorem answer_first {s : RpcSystem Unit UInt8} {k : ℕ} {rest : List (Invocation Unit UInt8)}
    (hserver : s.ServerReady) (hclient : s.ClientReady) (hwrite : s.session.writeList = [])
    (hinvocations : s.invocations = echoInvocation :: rest)
    (hcontext : s.client.channel.requestContext 1 = some ⟨k, k, k⟩) :
    ∃ es s', Run (RpcStep Protobuf.oneByte) s es s' ∧ s'.ClientReady ∧
      s'.client.runs = Function.update s.client.runs k (s.client.runs k + 1) ∧
      s'.client.object k = 9 ∧ s'.client.calls = s.client.calls ∧
      s'.client.channel.requestContext = Function.update s.client.channel.requestContext 1 none ∧
      s'.client.channel.status = s.client.channel.status ∧
      s'.client.channel.writeList = s.client.channel.writeList ∧ s'.serverReads = false ∧
      s'.session.writeList = [] ∧
      s'.invocations = { echoInvocation with response := some 9 } :: rest := by
  obtain ⟨s₁, hs₁⟩ : ∃ s₁, s₁ = (s.setSession { s.session with
      writeList := s.session.writeList ++ (Packet.echoResponse 1).encode
      sent := s.session.sent ++ [.echoResponse 1] }).complete 0 echoInvocation 9 := ⟨_, rfl⟩
  have hstep : RpcStep Protobuf.oneByte s (.respond 0 9) s₁ := by
    rw [hs₁]
    exact .respond (.inl hserver.reads) (by rw [hinvocations]; rfl) rfl rfl
      (RpcSession.onResponse_ok rfl)
  have hclient₁ : s₁.client = s.client := by rw [hs₁]; rfl
  have hready₁ : s₁.ClientReady := by
    rw [hs₁]
    exact ⟨hclient.reads, hclient.pc, hclient.parser, hclient.readList⟩
  have hwire : s₁.session.writeList = (Packet.echoResponse 1).encode ++ [] := by
    rw [hs₁, List.append_nil]
    change s.session.writeList ++ _ = _
    rw [hwrite, List.nil_append]
  have hparse : Protobuf.oneByte.parse (Protobuf.oneByte.typeOf (s₁.client.object k)) [9] =
      (true, 9) := rfl
  obtain ⟨es, s', hrun, hready, hruns, hobject, hcalls, hchannel, hsession, hreads, -,
      hinvocations'⟩ :=
    deliver (.echoResponse 1) ⟨k, k, k⟩ 9 hready₁ hwire ⟨rfl, rfl⟩ rfl
      (by rw [hclient₁]; exact hcontext) hparse
  rw [hclient₁] at hruns hcalls hchannel
  refine ⟨_, s', .cons hstep hrun, hready, hruns, ?_, hcalls, ?_, ?_, ?_, ?_, ?_, ?_⟩
  · rw [hobject, Function.update_self]
  · rw [hchannel]
    rfl
  · rw [hchannel]
  · rw [hchannel]
  · rw [hreads, hs₁]
    exact hserver.reads
  · rw [hsession]
  · rw [hinvocations', hs₁]
    change s.invocations.set 0 _ = _
    rw [hinvocations]
    rfl

end RpcSystem

/-- One call, up to the end. -/
theorem responses_meet_calls_echo : ∃ es s,
    Run (RpcStep Protobuf.oneByte) (.new (.single .echo 16150113815174350619) 3 fun _ => 0) es s ∧
      s.Settled ∧ s.client.calls.length = 1 ∧ s.client.object 0 = 9 ∧
      (∀ k, s.client.runs k ≤ 1) ∧ (∀ k, k < 1 → s.client.runs k = 1) ∧
      ∃ call, s.Answered 0 call (s.client.object 0) := by
  obtain ⟨es, s, hrun, h⟩ := RpcSystem.echoPending 0 (by decide)
  obtain ⟨rest, hinvocations, hlength⟩ := h.invocations
  obtain rfl := List.length_eq_zero_iff.mp hlength
  obtain ⟨es', s', hrun', hready, hruns, hobject, hcalls, -, hstatus, hwrite, hserver, hsession,
      hinvocations'⟩ :=
    RpcSystem.answer_first h.server h.client h.sessionWrite hinvocations
      (by rw [h.requestContext, Function.update_self])
  have hrun₀ : s'.client.runs 0 = 1 := by
    rw [hruns, Function.update_self, h.runs 0 (.inl rfl)]
  have hsettled : s'.Settled := by
    refine ⟨hstatus.trans h.status, hready.pc, hready.reads, hserver, hwrite.trans h.writeList,
      hsession, ?_⟩
    rw [hinvocations']
    intro invocation hmem
    rw [List.mem_singleton.mp hmem]
    nofun
  have hlength : s'.client.calls.length = 1 := by
    rw [hcalls]
    exact h.length
  obtain ⟨hle, hmeet, hfresh⟩ :=
    responses_meet_calls Protobuf.oneByte_roundTrips (hrun.append hrun')
  obtain ⟨hanswered, hall⟩ := hmeet (hfresh (by rw [hlength]; decide))
  have hall := hall hsettled
  rw [hlength] at hall
  exact ⟨_, s', hrun.append hrun', hsettled, hlength, hobject, hle, hall, hanswered 0 hrun₀⟩

/-- The first of `2 ^ 64 + 1` calls is still pending when the last one is made, and all others have
been answered: the last one has the guid of the first, and gets the response to it. -/
theorem response_of_another_call : ∃ es s call,
    Run (RpcStep Protobuf.oneByte) (.new (.single .echo 16150113815174350619) 3 fun _ => 0) es s ∧
      s.client.calls[2 ^ 64]? = some call ∧ call.request = 8 ∧ s.client.runs (2 ^ 64) = 1 ∧
      s.client.object (2 ^ 64) = 9 ∧ s.invocations[2 ^ 64]? = none ∧
      (∀ guid, s.client.channel.requestContext guid = none) ∧
      ¬ s.Answered (2 ^ 64) call (s.client.object (2 ^ 64)) := by
  obtain ⟨es, s, hrun, h⟩ := RpcSystem.echoPending (2 ^ 64 - 1) (by decide)
  obtain ⟨s₁, hcall, h₁⟩ := h.call
  obtain ⟨rest, hinvocations, hlength⟩ := h.invocations
  obtain ⟨call, hcalls₁, hrequest⟩ := h₁.calls
  have hcontext : s₁.client.channel.requestContext 1 = some ⟨2 ^ 64, 2 ^ 64, 2 ^ 64⟩ := by
    rw [h₁.requestContext]
    exact Function.update_self ..
  obtain ⟨es', s', hrun', -, hruns, hobject, hcalls, hcontexts, -, -, -, -, hinvocations'⟩ :=
    RpcSystem.answer_first h₁.server h₁.client (by rw [h₁.session]; exact h.sessionWrite)
      (h₁.invocations.trans hinvocations) hcontext
  have hnone : s'.invocations[2 ^ 64]? = none := by
    rw [hinvocations', List.getElem?_eq_none_iff, List.length_cons, hlength]
    decide
  refine ⟨_, s', call, hrun.append (.cons hcall hrun'), ?_, hrequest, ?_, hobject, hnone, ?_, ?_⟩
  · rw [hcalls, hcalls₁]
    exact getElem?_snoc.mpr (.inr ⟨h.length.symm, rfl⟩)
  · rw [hruns, Function.update_self, h₁.runs, h.runs _ (.inr (by decide))]
  · intro guid
    have hlast : UInt64.ofNat (2 ^ 64 - 1 + 2) = 1 := rfl
    rw [hcontexts, h₁.requestContext, hlast]
    by_cases hguid : guid = 1
    · rw [hguid, Function.update_self]
    · rw [Function.update_of_ne hguid, Function.update_of_ne hguid, Function.update_of_ne hguid]
  · rintro ⟨-, invocation, hget, -⟩
    rw [hnone] at hget
    cases hget

end ServerKit
