import ScRedirection.Websocketpp.Utf8Validator

/-! # websocketpp: sending on a connection handle

A handle is a weak pointer. It locks while the connection object lives, and the pointer it locks
to is the object's identity, so two live handles lock to the same pointer exactly when they are
handles of one connection. `none` is an expired handle.
-/

namespace ScRedirection.Websocketpp

abbrev ConnectionHdl := Nat

inductive SessionState
  | connecting
  | open
  | closing
  | closed
  deriving DecidableEq, Repr

structure Connection where
  state : SessionState
  sendQueue : List Bytes := []
  deriving DecidableEq, Repr

def Connection.writePush (con : Connection) (payload : Bytes) : Connection :=
  { con with sendQueue := con.sendQueue ++ [payload] }

inductive SendError
  | badConnection
  | invalidState
  | invalidPayload
  deriving DecidableEq, Repr

@[ext]
structure Endpoint where
  connections : ConnectionHdl → Option Connection

namespace Endpoint

def empty : Endpoint := ⟨fun _ => none⟩

def set (endpoint : Endpoint) (hdl : ConnectionHdl) (con : Option Connection) : Endpoint :=
  ⟨fun h => if h = hdl then con else endpoint.connections h⟩

/-- `hdl.lock()`: the connection object, by its identity. -/
def lock (endpoint : Endpoint) (hdl : ConnectionHdl) : Option ConnectionHdl :=
  (endpoint.connections hdl).map fun _ => hdl

def isOpen (endpoint : Endpoint) (hdl : ConnectionHdl) : Bool :=
  match endpoint.connections hdl with
  | some con => con.state == .open
  | none => false

/-- `endpoint::send` of a text payload, down to `write_push`; the error is thrown by the
three-argument overload. -/
def send (endpoint : Endpoint) (hdl : ConnectionHdl) (payload : Bytes) :
    Except SendError Endpoint :=
  match endpoint.connections hdl with
  | none => .error .badConnection
  | some con =>
    if con.state ≠ .open then .error .invalidState
    else if Utf8Validator.validate payload = false then .error .invalidPayload
    else .ok (endpoint.set hdl (some (con.writePush payload)))

@[simp] theorem connections_set (endpoint : Endpoint) (hdl h : ConnectionHdl)
    (con : Option Connection) :
    (endpoint.set hdl con).connections h = if h = hdl then con else endpoint.connections h :=
  rfl

theorem isOpen_iff {endpoint : Endpoint} {hdl : ConnectionHdl} :
    endpoint.isOpen hdl = true ↔
      ∃ con, endpoint.connections hdl = some con ∧ con.state = .open := by
  unfold isOpen
  split <;> simp_all

/-! The effect of a send on some of the connections. -/

def enqueue (endpoint : Endpoint) (hdls : List ConnectionHdl) (payload : Bytes) : Endpoint :=
  ⟨fun h =>
    if h ∈ hdls then (endpoint.connections h).map (·.writePush payload)
    else endpoint.connections h⟩

@[simp] theorem connections_enqueue (endpoint : Endpoint) (hdls : List ConnectionHdl)
    (payload : Bytes) (h : ConnectionHdl) :
    (endpoint.enqueue hdls payload).connections h =
      if h ∈ hdls then (endpoint.connections h).map (·.writePush payload)
      else endpoint.connections h :=
  rfl

theorem enqueue_nil (endpoint : Endpoint) (payload : Bytes) :
    endpoint.enqueue [] payload = endpoint := by
  ext1
  funext h
  simp

theorem enqueue_enqueue {endpoint : Endpoint} {hdl : ConnectionHdl} {hdls : List ConnectionHdl}
    (hNew : hdl ∉ hdls) (payload : Bytes) :
    (endpoint.enqueue [hdl] payload).enqueue hdls payload =
      endpoint.enqueue (hdl :: hdls) payload := by
  ext1
  funext h
  by_cases hh : h = hdl
  · subst hh
    simp [hNew]
  · simp [hh]

@[simp] theorem isOpen_enqueue (endpoint : Endpoint) (hdls : List ConnectionHdl)
    (payload : Bytes) (h : ConnectionHdl) :
    (endpoint.enqueue hdls payload).isOpen h = endpoint.isOpen h := by
  unfold isOpen
  rw [connections_enqueue]
  split_ifs
  · cases endpoint.connections h <;> rfl
  · rfl

theorem send_eq_ok {endpoint endpoint' : Endpoint} {hdl : ConnectionHdl} {payload : Bytes} :
    endpoint.send hdl payload = .ok endpoint' ↔
      endpoint.isOpen hdl = true ∧ Utf8Validator.validate payload = true ∧
        endpoint' = endpoint.enqueue [hdl] payload := by
  unfold send isOpen
  cases hCon : endpoint.connections hdl with
  | none => simp
  | some con =>
    have hEnqueue : endpoint.set hdl (some (con.writePush payload)) =
        endpoint.enqueue [hdl] payload := by
      ext1
      funext h
      by_cases hh : h = hdl
      · subst hh
        simp [hCon]
      · simp [hh]
    by_cases hState : con.state = .open
    · cases hPayload : Utf8Validator.validate payload with
      | false => simp [hState]
      | true => simp [hState, hEnqueue, eq_comm]
    · simp [hState]

end Endpoint

end ScRedirection.Websocketpp
