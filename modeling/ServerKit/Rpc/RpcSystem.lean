import ServerKit.Rpc.RpcSession

/-!
# A client and a server

One channel, one session, and the transport between them, which moves bytes of one side's
`write_list_` to the other side's `read_list_` in order and then has `OnRead` called. Each side is
one thread; the steps of the two sides interleave in any order.
-/

namespace ServerKit

open Lib

/-- A call of a service: `response` is what the service has put into the response message, once it
has run the done closure. -/
structure Invocation (T Msg : Type) where
  method : RpcMeta T
  context : ResponseContext Msg
  response : Option Msg

/-- The two sides. `clientReads` and `serverReads` say that a side is in `OnRead`, and `inService`
that the session is in the `CallMethod` of a service. `invocations` is the history of these
calls. -/
structure RpcSystem (T Msg : Type) where
  client : RpcClient T Msg
  clientReads : Bool
  session : RpcSession T
  serverReads : Bool
  inService : Bool
  invocations : List (Invocation T Msg)

/-- A step of the system. -/
inductive RpcEvent (T Msg : Type)
  /-- `CallMethod`, with the initial value of the response object. -/
  | call (method : MethodDescriptor T) (request response : Msg)
  | out
  | sendQueued
  | connected
  /-- The transport moves `n` bytes to the server. -/
  | toServer (n : ℕ)
  | serverPacket
  /-- `OnRead` of the session returns. -/
  | serverDone
  /-- `CallMethod` of the service returns. -/
  | serviceRet
  /-- The service runs the done closure of its `i`-th call. -/
  | respond (i : ℕ) (response : Msg)
  /-- The transport moves `n` bytes to the client. -/
  | toClient (n : ℕ)
  | clientPacket
  /-- `OnRead` of the channel returns. -/
  | clientDone
  /-- The done closure of a call returns. -/
  | ret

namespace RpcSystem

variable {T Msg : Type}

/-- A new channel, and a new session of the service. -/
def new (service : RpcService T) (guid : UInt64) (object : ℕ → Msg) : RpcSystem T Msg where
  client := .new guid object
  clientReads := false
  session := .new service
  serverReads := false
  inService := false
  invocations := []

def setClient (s : RpcSystem T Msg) (client : RpcClient T Msg) : RpcSystem T Msg :=
  { s with client := client }

def setChannel (s : RpcSystem T Msg) (channel : RpcChannel) : RpcSystem T Msg :=
  { s with client := s.client.setChannel channel }

def setSession (s : RpcSystem T Msg) (session : RpcSession T) : RpcSystem T Msg :=
  { s with session := session }

def setClientReads (s : RpcSystem T Msg) (reads : Bool) : RpcSystem T Msg :=
  { s with clientReads := reads }

def setServerReads (s : RpcSystem T Msg) (reads : Bool) : RpcSystem T Msg :=
  { s with serverReads := reads }

def setInService (s : RpcSystem T Msg) (inService : Bool) : RpcSystem T Msg :=
  { s with inService := inService }

/-- A service is called. -/
def invoke (s : RpcSystem T Msg) (method : RpcMeta T) (context : ResponseContext Msg) :
    RpcSystem T Msg :=
  { s with invocations := s.invocations ++ [⟨method, context, none⟩] }

/-- A service has run a done closure. -/
def complete (s : RpcSystem T Msg) (i : ℕ) (invocation : Invocation T Msg) (response : Msg) :
    RpcSystem T Msg :=
  { s with invocations := s.invocations.set i { invocation with response := some response } }

/-- Code of the client's user may run, or the event loop of the client. -/
def ClientRuns (s : RpcSystem T Msg) : Prop := s.clientReads = false ∨ s.client.pc ≠ .idle

/-- Code of the services may run. -/
def ServicesRun (s : RpcSystem T Msg) : Prop := s.serverReads = false ∨ s.inService = true

/-- A call of a registered method whose id is not 0, with objects of its types. -/
structure Legal (pb : Protobuf T Msg) (s : RpcSystem T Msg) (method : MethodDescriptor T)
    (request response : Msg) : Prop where
  registered : ∃ methodId service, hashString method.fullName = .ok methodId ∧ methodId ≠ 0 ∧
    s.session.service.getService methodId = some ⟨service, method⟩
  inputType : pb.typeOf request = method.inputType
  outputType : pb.typeOf response = method.outputType

end RpcSystem

/-- One step of one side, or of the transport. -/
inductive RpcStep {T Msg : Type} (pb : Protobuf T Msg) : Lts (RpcSystem T Msg) (RpcEvent T Msg)
  /- The client. Its connect succeeds. -/
  | call {s : RpcSystem T Msg} {method : MethodDescriptor T} {request response : Msg}
      {client : RpcClient T Msg} : s.ClientRuns → s.Legal pb method request response →
      ClientStep pb s.client (.call method request response kOK) client →
      RpcStep pb s (.call method request response) (s.setClient client)
  | out {s : RpcSystem T Msg} {client : RpcClient T Msg} : s.ClientRuns →
      ClientStep pb s.client .out client → RpcStep pb s .out (s.setClient client)
  | sendQueued {s : RpcSystem T Msg} {client : RpcClient T Msg} :
      ClientStep pb s.client .sendQueued client → RpcStep pb s .sendQueued (s.setClient client)
  | connected {s : RpcSystem T Msg} {client : RpcClient T Msg} :
      ClientStep pb s.client .connected client → RpcStep pb s .connected (s.setClient client)
  | clientPacket {s : RpcSystem T Msg} {channel : RpcChannel} {client : RpcClient T Msg} :
      s.clientReads = true → s.client.pc = .idle →
      s.client.channel.recvPacket = .ok (true, channel) →
      ClientStep pb (s.client.setChannel channel) (.packet channel.parser.getPacket) client →
      RpcStep pb s .clientPacket (s.setClient client)
  | clientDone {s : RpcSystem T Msg} {channel : RpcChannel} : s.clientReads = true →
      s.client.pc = .idle → s.client.channel.recvPacket = .ok (false, channel) →
      RpcStep pb s .clientDone ((s.setChannel channel).setClientReads false)
  | ret {s : RpcSystem T Msg} {client : RpcClient T Msg} :
      ClientStep pb s.client .ret client → RpcStep pb s .ret (s.setClient client)
  /- The server. It makes no calls itself. -/
  | serverCall {s : RpcSystem T Msg} {session session' : RpcSession T} {object : ℕ → Msg}
      {method : RpcMeta T} {context : ResponseContext Msg} : s.serverReads = true →
      s.inService = false → s.session.recvPacket = .ok (true, session) →
      session.onPacket pb object session.parser.getPacket =
        (.callService method context, session') →
      RpcStep pb s .serverPacket (((s.setSession session').invoke method context).setInService true)
  | serverSkip {s : RpcSystem T Msg} {session session' : RpcSession T} {object : ℕ → Msg} :
      s.serverReads = true → s.inService = false → s.session.recvPacket = .ok (true, session) →
      session.onPacket pb object session.parser.getPacket = (.skip, session') →
      RpcStep pb s .serverPacket (s.setSession session')
  | serverDone {s : RpcSystem T Msg} {session : RpcSession T} : s.serverReads = true →
      s.inService = false → s.session.recvPacket = .ok (false, session) →
      RpcStep pb s .serverDone ((s.setSession session).setServerReads false)
  | serviceRet {s : RpcSystem T Msg} : s.inService = true →
      RpcStep pb s .serviceRet (s.setInService false)
  | respond {s : RpcSystem T Msg} {i : ℕ} {invocation : Invocation T Msg} {response : Msg}
      {session : RpcSession T} : s.ServicesRun → s.invocations[i]? = some invocation →
      invocation.response = none →
      pb.typeOf response = invocation.method.method.outputType →
      s.session.onResponse pb invocation.context response = .ok session →
      RpcStep pb s (.respond i response) ((s.setSession session).complete i invocation response)
  /- The transport. -/
  | toServer {s : RpcSystem T Msg} {n : ℕ} : s.serverReads = false → 0 < n →
      n ≤ s.client.channel.writeList.length →
      RpcStep pb s (.toServer n)
        (((s.setChannel { s.client.channel with
            writeList := s.client.channel.writeList.drop n }).setSession
          { s.session with
            readList := s.session.readList ++ s.client.channel.writeList.take n }).setServerReads
          true)
  | toClient {s : RpcSystem T Msg} {n : ℕ} : s.clientReads = false → s.client.pc = .idle → 0 < n →
      n ≤ s.session.writeList.length →
      RpcStep pb s (.toClient n)
        (((s.setChannel { s.client.channel with
            readList := s.client.channel.readList ++ s.session.writeList.take n }).setSession
          { s.session with writeList := s.session.writeList.drop n }).setClientReads true)

end ServerKit
