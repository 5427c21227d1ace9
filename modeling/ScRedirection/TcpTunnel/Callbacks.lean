import ScRedirection.Base64
import ScRedirection.Json.Value
import ScRedirection.Websocketpp.Endpoint

/-! # tcptunnel.cpp: the queues and the callbacks that fill them

`CTMultiThreadSingleQueue` with `Push` and `Pop` taken as atomic is a list, oldest item first.
-/

namespace ScRedirection

open Json Websocketpp

/-- What may be thrown; the last one is no exception but undefined behaviour. -/
inductive Exn
  | charLiteral
  | json (error : JsonError)
  | websocketpp (error : SendError)
  | undefinedBehaviour
  deriving DecidableEq, Repr

namespace TcpTunnel

structure Queues where
  clientSocketData : List Bytes := []
  remoteSocketData : List Bytes := []
  deriving DecidableEq, Repr

/-- `rc.client_socket` or `rc.remote_socket`, and the queue named after it. -/
inductive Socket
  | client
  | remote
  deriving DecidableEq, Repr

def Socket.opposite : Socket → Socket
  | .client => .remote
  | .remote => .client

namespace Queues

def data (queues : Queues) : Socket → List Bytes
  | .client => queues.clientSocketData
  | .remote => queues.remoteSocketData

def setData (queues : Queues) : Socket → List Bytes → Queues
  | .client, items => { queues with clientSocketData := items }
  | .remote, items => { queues with remoteSocketData := items }

@[simp] theorem data_setData (queues : Queues) (sock sock' : Socket) (items : List Bytes) :
    (queues.setData sock items).data sock' = if sock' = sock then items else queues.data sock' := by
  cases sock <;> cases sock' <;> rfl

def push (queues : Queues) (sock : Socket) (item : Bytes) : Queues :=
  queues.setData sock (queues.data sock ++ [item])

theorem push_ne (queues : Queues) (sock : Socket) (item : Bytes) :
    queues.push sock item ≠ queues := by
  intro h
  have hData := congrArg (fun q => (q.data sock).length) h
  simp [push] at hData

end Queues

inductive Callback
  | rcvCallback
  | sendCallback
  deriving DecidableEq, Repr

/-- `base64_decode(str)`: its only throw is the `const char *` of `pos_of_char`. -/
def decodeOrThrow (str : Bytes) : Except Exn Bytes :=
  match Base64.base64Decode str with
  | .ok decoded => .ok decoded
  | .error .badChar => .error .charLiteral
  | .error _ => .error .undefinedBehaviour

def rcvCallback (str : Bytes) (queues : Queues) : Except Exn Queues := do
  let decoded ← decodeOrThrow str
  return { queues with clientSocketData := queues.clientSocketData ++ [decoded] }

def sendCallback (str : Bytes) (queues : Queues) : Except Exn Queues := do
  let decoded ← decodeOrThrow str
  return { queues with remoteSocketData := queues.remoteSocketData ++ [decoded] }

namespace Callback

def run : Callback → Bytes → Queues → Except Exn Queues
  | .rcvCallback => TcpTunnel.rcvCallback
  | .sendCallback => TcpTunnel.sendCallback

def queue : Callback → Socket
  | .rcvCallback => .client
  | .sendCallback => .remote

theorem run_eq (callback : Callback) (str : Bytes) (queues : Queues) :
    callback.run str queues = (decodeOrThrow str).map (queues.push callback.queue) := by
  cases callback with
  | rcvCallback => rw [run, TcpTunnel.rcvCallback]; cases decodeOrThrow str <;> rfl
  | sendCallback => rw [run, TcpTunnel.sendCallback]; cases decodeOrThrow str <;> rfl

end Callback

end TcpTunnel

end ScRedirection
