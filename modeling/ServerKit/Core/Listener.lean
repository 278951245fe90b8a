import ServerKit.Base.Net
import Mathlib.Data.Fin.Basic

/-!
# `core/listener.cc`, and `AcceptNewSession` of `core/application.cc`

`Listener::In` runs when connections wait on the listening socket, in the thread of the
`Application`, which hands their Sessions round its Workers.
-/

namespace ServerKit

/-- A `Worker*`. -/
abbrev WorkerPtr := ℕ

/-- A `Session*`. -/
abbrev SessionPtr := ℕ

/-- An `Application` that has started its Workers. -/
structure Application where
  workers : List WorkerPtr
  index : Fin workers.length

/-- `Application::selectWorker`. -/
def Application.selectWorker (a : Application) : WorkerPtr × Application :=
  let index : Fin a.workers.length :=
    ⟨(a.index + 1) % a.workers.length, Nat.mod_lt _ (Nat.zero_lt_of_lt a.index.isLt)⟩
  (a.workers.get index, { a with index := index })

/-- What `Listener::In` does to others. -/
inductive ListenerEffect
  /-- `handler_->OnAccept(fd)`, and the Session it returns. -/
  | onAccept (fd : ℤ) (session : SessionPtr)
  /-- `worker->Send` of an `AcceptMessage`. -/
  | send (worker : WorkerPtr) (session : SessionPtr)
  /-- `handler_->OnError(err)`. -/
  | onError (err : ℤ)
deriving DecidableEq, Repr

/-- `Application::AcceptNewSession`. -/
def Application.acceptNewSession (a : Application) (session : SessionPtr) :
    Application × List ListenerEffect :=
  let (worker, a) := a.selectWorker
  (a, [.send worker session])

/-- A `Listener` and what it works on: the process, the results `::accept` will give, and its
application. `OnAccept` makes a new Session each time; `nextSession` is the address of the next. -/
structure Listener where
  process : Process
  results : List AcceptResult
  application : Application
  nextSession : SessionPtr
  effects : List ListenerEffect

namespace Listener

/-- One iteration of the loop of `Listener::In`. -/
def inOnce (l : Listener) : Listener :=
  let ((fd, err), process, results) := accept l.process l.results
  let l := { l with process := process, results := results }
  if err = kOK then
    let session := l.nextSession
    let (application, effects) := l.application.acceptNewSession session
    { l with
      application := application
      nextSession := session + 1
      effects := l.effects ++ .onAccept fd session :: effects }
  else { l with effects := l.effects ++ [.onError err] }

/-- `Listener::In`, with the iterations it may still make. -/
def in_ : ℕ → Listener → Except Fault Listener
  | 0, _ => .error .noReturn
  | fuel + 1, l => in_ fuel l.inOnce

end Listener

end ServerKit
