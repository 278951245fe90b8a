import ServerKit.Rpc.Verify.ClientCalls

/-!
# Connects that fail

`CallMethod` of a channel in state `INIT` queues the call and then calls `Connect`. When
`ConnectAsync` fails, the socket is closed before `CallMethod` returns, and `OnConnect` only logs
the error: the packet stays in `packet_queue_` and the context in `request_context_`, and nothing
later takes them out, because the loop of `OnConnect` runs on a connected socket only.
-/

namespace ServerKit

open Lib

variable {T Msg : Type} {pb : Protobuf T Msg}

/-- `CallMethod` changes the status of the socket in state `INIT` only, to what `Connect` makes
it. -/
theorem RpcChannel.callMethod_status {ch ch' : RpcChannel} {method : MethodDescriptor T}
    {request : Msg} {context : RequestContext} {err : ℤ} {controller : Option RpcController}
    (h : ch.callMethod pb method request context err = .ok (controller, ch')) :
    ch'.status =
      if ch.status = .init then if err = kOK then .connecting else .closed else ch.status := by
  cases called_of_callMethod h with
  | closed hstatus => rw [hstatus, if_neg (by simp)]
  | connected hstatus =>
    rw [hstatus, if_neg (by simp)]
    exact hstatus
  | init hstatus hpush =>
    rw [connect, if_neg (not_not.mpr ((pushRequestToQueue_status hpush).trans hstatus)),
      if_pos hstatus]
    by_cases herr : err = kOK
    · rw [if_pos herr, if_pos herr]
      rfl
    · rw [if_neg herr, if_neg herr]
      rfl
  | connecting hstatus hpush =>
    rw [hstatus, if_neg (by simp)]
    exact (pushRequestToQueue_status hpush).trans hstatus

/-- What `ConnectAsync` returns in a run, if it is called: the first `CallMethod` calls it. -/
def connectResult (es : List (ClientEvent T Msg)) : Option ℤ :=
  es.findSome? fun
    | .call _ _ _ err => some err
    | _ => none

theorem connectResult_snoc (es : List (ClientEvent T Msg)) (e : ClientEvent T Msg) :
    connectResult (es ++ [e]) = (connectResult es).or (connectResult [e]) := List.findSome?_append

/-- No call is left in `packet_queue_` or in `request_context_`. -/
def RpcChannel.AllResolved (ch : RpcChannel) : Prop :=
  ch.packetQueue = [] ∧ ∀ guid, ch.requestContext guid = none

namespace RpcClient

variable {c c' : RpcClient T Msg} {e : ClientEvent T Msg}

/-- The state of the client after what `ConnectAsync` has returned. -/
inductive AfterConnect (c : RpcClient T Msg) : Option ℤ → Prop
  | untried : c.channel.status = .init → c.pc = .idle → c.channel.AllResolved → c.calls = [] →
      AfterConnect c none
  | connects : c.channel.status ≠ .init → c.channel.status ≠ .closed → AfterConnect c (some kOK)
  | failed {err : ℤ} : err ≠ kOK → c.channel.status = .closed → c.channel.packetQueue ≠ [] →
      AfterConnect c (some err)

/-- A call in state `INIT` is queued, and `Connect` called. -/
theorem AfterConnect.call {method : MethodDescriptor T} {request response : Msg} {err : ℤ}
    {controller : RpcController} {channel : RpcChannel} (h : c.AfterConnect none)
    (hcall : c.channel.callMethod pb method request c.nextContext err =
      .ok (some controller, channel)) :
    (((c.setObject c.calls.length response).setChannel channel).addCall
      ⟨method, request, controller⟩).AfterConnect (some err) := by
  cases h with
  | untried hstatus hpc hnone hcalls =>
    have hafter := RpcChannel.callMethod_status hcall
    rw [if_pos hstatus] at hafter
    by_cases herr : err = kOK
    · rw [if_pos herr] at hafter
      rw [herr]
      refine .connects ?_ ?_
      · change channel.status ≠ .init
        rw [hafter]; nofun
      · change channel.status ≠ .closed
        rw [hafter]; nofun
    · rw [if_neg herr] at hafter
      refine .failed herr hafter ?_
      rcases RpcChannel.callMethod_eq hcall with ⟨-, hc, -⟩ | ⟨packet, -, -, haccepts⟩
      · cases hc
      · rcases haccepts.packets with ⟨hconnected, -⟩ | ⟨-, -, -, -, -, hqueue⟩
        · rw [hstatus] at hconnected
          cases hconnected
        · change channel.packetQueue ≠ []
          rw [hqueue]
          simp

/-- Once the socket is not in state `INIT`, a step keeps what has come of `Connect`. -/
theorem AfterConnect.later {err : ℤ} (h : c.AfterConnect (some err)) (hsend : c.SendOk pb)
    (hs : ClientStep pb c e c') : c'.AfterConnect (some err) := by
  have hinit : c.channel.status ≠ .init := by
    cases h with
    | connects hinit => exact hinit
    | failed _ hstatus => rw [hstatus]; nofun
  -- a step that keeps the status, and does not empty the queue of a closed socket
  have hkeep : ∀ {d : RpcClient T Msg}, d.channel.status = c.channel.status →
      (c.channel.status = .closed → d.channel.packetQueue = c.channel.packetQueue) →
      d.AfterConnect (some err) := by
    intro d hd hqueue
    cases h with
    | connects hinit hclosed => exact .connects (by rwa [hd]) (by rwa [hd])
    | failed herr hstatus hne => exact .failed herr (hd.trans hstatus) (by rwa [hqueue hstatus])
  cases hs with
  | call huser hcall =>
    have hafter := RpcChannel.callMethod_status hcall
    rw [if_neg hinit] at hafter
    refine hkeep hafter fun hclosed => ?_
    rcases RpcChannel.callMethod_eq hcall with ⟨-, hc, -⟩ | ⟨packet, -, -, haccepts⟩
    · cases hc
    · exact absurd hclosed haccepts.status
  | callClosed huser hcall =>
    obtain ⟨-, rfl⟩ := callClosed_eq hcall
    exact hkeep rfl fun _ => rfl
  | out hpc hconnecting =>
    cases h with
    | connects => exact .connects nofun nofun
    | failed _ hstatus =>
      rw [hstatus] at hconnecting
      cases hconnecting
  | sendQueued hpc hstep =>
    obtain ⟨packet, rest, -, rfl⟩ := RpcChannel.onConnectStep_eq hstep
    refine hkeep rfl fun hclosed => ?_
    rw [hsend.onConnect hpc] at hclosed
    cases hclosed
  | connected | ret => exact hkeep rfl fun _ => rfl
  | skip hpc hpacket =>
    obtain ⟨rfl, -⟩ := RpcChannel.onPacket_none hpacket
    exact hkeep rfl fun _ => rfl
  | unparsed hpc hpacket =>
    obtain ⟨-, -, -, rfl⟩ := RpcChannel.onPacket_some hpacket
    exact hkeep rfl fun _ => rfl
  | response hpc hpacket =>
    obtain ⟨-, -, -, rfl⟩ := RpcChannel.onPacket_some hpacket
    exact hkeep rfl fun _ => rfl

/-- The step lemma. -/
theorem AfterConnect.step {es : List (ClientEvent T Msg)} (h : c.AfterConnect (connectResult es))
    (hsend : c.SendOk pb) (hs : ClientStep pb c e c') :
    c'.AfterConnect (connectResult (es ++ [e])) := by
  rw [connectResult_snoc]
  cases hresult : connectResult es with
  | some err =>
    rw [hresult] at h
    exact h.later hsend hs
  | none =>
    rw [hresult] at h
    cases h with
    | untried hstatus hpc hnone hcalls =>
      cases hs with
      | call huser hcall => exact AfterConnect.call (.untried hstatus hpc hnone hcalls) hcall
      | callClosed huser hcall =>
        rw [(callClosed_eq hcall).1] at hstatus
        cases hstatus
      | out hidle hconnecting =>
        rw [hstatus] at hconnecting
        cases hconnecting
      | sendQueued hpc' | connected hpc' | ret hpc' =>
        rw [hpc] at hpc'
        cases hpc'
      | skip hidle hpacket =>
        obtain ⟨rfl, -⟩ := RpcChannel.onPacket_none hpacket
        exact .untried hstatus hpc hnone hcalls
      | unparsed hidle hpacket | response hidle hpacket =>
        obtain ⟨-, hcontext, -⟩ := RpcChannel.onPacket_some hpacket
        rw [hnone.2] at hcontext
        cases hcontext

/-- What has come of `Connect` after any run. -/
theorem afterConnect_of_run {guid : UInt64} {object : ℕ → Msg} {es : List (ClientEvent T Msg)}
    (hrun : Run (ClientStep pb) (.new guid object) es c) : c.AfterConnect (connectResult es) := by
  refine Run.snoc_induction (P := fun es c => c.AfterConnect (connectResult es))
    (.untried rfl rfl ⟨rfl, fun _ => rfl⟩ rfl) ?_ hrun
  intro es c e c' hrun h hs
  exact h.step (ok_of_run hrun).1 hs

end RpcClient

/-- **A failed connect strands its call.** In every run of a channel: that no call is left behind
once `Connect` has closed the socket holds if and only if `ConnectAsync` has not failed. -/
theorem resolved_after_connect_iff {guid : UInt64} {object : ℕ → Msg}
    {es : List (ClientEvent T Msg)} {c : RpcClient T Msg}
    (hrun : Run (ClientStep pb) (.new guid object) es c) :
    (c.channel.status = .closed → c.channel.AllResolved) ↔
      ∀ err, connectResult es = some err → err = kOK := by
  have hafter := RpcClient.afterConnect_of_run hrun
  generalize connectResult es = result at hafter
  cases hafter with
  | untried hstatus =>
    exact ⟨fun _ => nofun, fun _ hclosed => by rw [hstatus] at hclosed; cases hclosed⟩
  | connects _ hne =>
    exact ⟨fun _ _ heq => (Option.some.inj heq).symm, fun _ hclosed => absurd hclosed hne⟩
  | failed herr hclosed hqueue =>
    exact ⟨fun h => absurd (h hclosed).1 hqueue, fun h => absurd (h _ rfl) herr⟩

/-- One call, with a connect that succeeds: nothing is closed. -/
theorem resolved_after_connect_ok :
    ∃ c : RpcClient Unit UInt8, Run (ClientStep Protobuf.oneByte) (.new 3 fun _ => 0)
        [.call .echo 7 0 kOK] c ∧ c.channel.status = .connecting ∧
      (c.channel.status = .closed → c.channel.AllResolved) := by
  have hrun : ∃ c : RpcClient Unit UInt8, Run (ClientStep Protobuf.oneByte) (.new 3 fun _ => 0)
        [.call .echo 7 0 kOK] c ∧ c.channel.status = .connecting :=
    ⟨_, .single (.call nofun (RpcChannel.callMethod_init rfl
      (Packet.new_single MethodDescriptor.hash_echo _ _))), rfl⟩
  obtain ⟨c, hrun, hstatus⟩ := hrun
  refine ⟨c, hrun, hstatus, (resolved_after_connect_iff hrun).mpr fun err herr => ?_⟩
  exact (Option.some.inj herr).symm

/-- One call, with a connect that fails: its packet stays queued, and its context pending. -/
theorem resolved_after_connect_failed :
    ∃ c : RpcClient Unit UInt8, Run (ClientStep Protobuf.oneByte) (.new 3 fun _ => 0)
        [.call .echo 7 0 111] c ∧ c.channel.status = .closed ∧
      c.channel.packetQueue ≠ [] ∧ c.channel.requestContext 1 = some ⟨0, 0, 0⟩ ∧ c.runs 0 = 0 :=
  ⟨_, .single (.call nofun (RpcChannel.callMethod_init_connect 111 rfl
    (Packet.new_single MethodDescriptor.hash_echo _ _))), rfl, List.cons_ne_nil _ _, rfl, rfl⟩

/-! ## The stranded call -/

/-- `OnRead` runs only while the socket is connected. -/
def RpcClient.ReadsConnected (c : RpcClient T Msg) (e : ClientEvent T Msg) : Prop :=
  ∀ packet, e = .packet packet → c.channel.status = .connected

/-- **The stranded call stays pending.** In every state with a closed socket the packet of the first
call is queued, its context is in `request_context_`, and its done closure has not run. -/
theorem stranded_call {guid : UInt64} {object : ℕ → Msg} {es : List (ClientEvent T Msg)}
    {c : RpcClient T Msg}
    (hrun : Run ((ClientStep pb).restrict RpcClient.ReadsConnected) (.new guid object) es c)
    (hclosed : c.channel.status = .closed) :
    ∃ packet, c.channel.packetQueue = [packet] ∧
      c.channel.requestContext packet.guid = some ⟨0, 0, 0⟩ ∧ c.runs 0 = 0 := by
  refine Run.snoc_induction (P := fun _ c => c.channel.status = .closed →
    ∃ packet, c.channel.packetQueue = [packet] ∧
      c.channel.requestContext packet.guid = some ⟨0, 0, 0⟩ ∧ c.runs 0 = 0)
    (fun hnew => by cases hnew) ?_ hrun hclosed
  rintro es c e c' hrun ih ⟨hreads, hs⟩ hclosed
  have hafter := RpcClient.afterConnect_of_run hrun.of_restrict
  have hok := RpcClient.ok_of_run hrun.of_restrict
  cases hs with
  | @call _ method request response err controller channel huser hcall =>
    have hstatus := RpcChannel.callMethod_status hcall
    rcases RpcChannel.callMethod_eq hcall with ⟨-, hc, -⟩ | ⟨packet, hpacket, -, haccepts⟩
    · cases hc
    · by_cases hinit : c.channel.status = .init
      · generalize connectResult es = result at hafter
        cases hafter with
        | untried _ _ hnone hcalls =>
          rcases haccepts.packets with ⟨hconnected, -⟩ | ⟨-, -, -, -, -, hqueue⟩
          · rw [hinit] at hconnected
            cases hconnected
          · refine ⟨packet, ?_, ?_, hok.2.runs_new 0 (by simp [hcalls])⟩
            · rw [hnone.1] at hqueue
              exact hqueue
            · have hguid : packet.guid = c.channel.allocateGuid + 1 :=
                (Packet.new_eq hpacket).2.1
              change channel.requestContext packet.guid = _
              rw [haccepts.requestContext, hguid, Function.update_self, RpcClient.nextContext,
                hcalls]
              rfl
        | connects hne => exact absurd hinit hne
        | failed _ hfailed =>
          rw [hinit] at hfailed
          cases hfailed
      · rw [if_neg hinit] at hstatus
        exact absurd (hstatus.symm.trans hclosed) haccepts.status
  | callClosed huser hcall =>
    obtain ⟨hwas, rfl⟩ := RpcClient.callClosed_eq hcall
    exact ih hwas
  | out => cases hclosed
  | sendQueued hpc hstep =>
    obtain ⟨packet, rest, -, rfl⟩ := RpcChannel.onConnectStep_eq hstep
    exact absurd ((hok.1.onConnect hpc).symm.trans hclosed) (by simp)
  | connected | ret => exact ih hclosed
  | skip hpc hpacket =>
    obtain ⟨rfl, -⟩ := RpcChannel.onPacket_none hpacket
    exact ih hclosed
  | unparsed hpc hpacket | response hpc hpacket =>
    obtain ⟨-, -, -, rfl⟩ := RpcChannel.onPacket_some hpacket
    exact absurd ((hreads _ rfl).symm.trans hclosed) (by simp)

end ServerKit
