import Mathlib.Data.Set.Basic
import ScRedirection.Library.EventMachine
import ScRedirection.TcpTunnel.BinData
import ScRedirection.WebsocketServer.Lifecycle

/-! # A session served in a forked process

The thread that serves a session shares its memory with the network thread and the main thread,
or, once `fork` has copied it, has one of its own, where no other thread runs. What a session
shows of itself is compared between the two.
-/

namespace ScRedirection.TcpTunnel

open Json Websocketpp WebsocketServer

/-- What the network thread does to its memory when a connection opens or closes. -/
def Memory.life (m : Memory) (e : LifeEvent) : Option Memory := do
  let server ← m.server
  let (server, endpoint) ← lifeStep server m.endpoint e
  return { m with server := server, endpoint := endpoint }

/-- The task that `onOpen` posts to the main thread. -/
def Memory.hello (m : Memory) (conn : ConnectionHdl) : Except Exn Memory :=
  (sendMessage Doubles.absent m.endpoint conn (bytes "LOGIN|hello") .null).map fun endpoint =>
    { m with endpoint := endpoint }

namespace Fork

/-- The `P` of a text `BIN_DATA:P`, and what stands behind the text in its string. -/
structure Frame where
  data : Bytes
  noColon : ch ':' ∉ data
  spare : Spare := .none

def Frame.payload (frame : Frame) : StdString :=
  ⟨commands .bin ++ ch ':' :: frame.data, frame.spare⟩

/-- What is still to arrive: frames on open connections, and bytes on each socket. -/
structure Inputs where
  frames : List Frame
  received : Socket → Bytes

structure Observation where
  life : List LifeEvent := []
  popped : List Bytes := []
  sent : List (Socket × Bytes) := []
  flushed : List (ConnectionHdl × Bytes) := []
  deriving DecidableEq, Repr

/-- Where the network thread and the main thread run: in the process that serves the session, or
in the one it was forked from, until an exception ends that one. -/
inductive NetworkThread
  | serving
  | parent (memory : Memory)
  | ended

/-- `broadcasting` is what a broadcast of the serving thread, which holds the mutex of its
process's list, has still to send to; `hellos` are the tasks that `onOpen` has posted to the main
thread. -/
structure Session where
  serving : Process
  broadcasting : Option (List ConnectionHdl) := none
  network : NetworkThread
  hellos : List ConnectionHdl := []
  inputs : Inputs
  observation : Observation := {}

inductive Event
  | tunnel (a : Action)
  | broadcast
  | sendNext
  | life (e : LifeEvent)
  | hello
  | frame (conn : ConnectionHdl)
  | flush (conn : ConnectionHdl)
  deriving DecidableEq, Repr

def sends : Action → List (Socket × Bytes)
  | .send sock data => [(sock, data)]
  | _ => []

/-- `recv` cuts its chunk off what is still to arrive. -/
def take (received : Socket → Bytes) : Action → Option (Socket → Bytes)
  | .recv sock (some chunk) =>
    if chunk <+: received sock then
      some (Function.update received sock ((received sock).drop chunk.length))
    else none
  | _ => some received

/-- The oldest text of a send queue, and the endpoint without it. Nothing is written any more to
a connection that is closed. -/
def writeOut (endpoint : Endpoint) (conn : ConnectionHdl) : Option (Bytes × Endpoint) :=
  match endpoint.connections conn with
  | some ⟨.closed, _⟩ => none
  | some ⟨state, text :: queue⟩ => some (text, endpoint.set conn (some ⟨state, queue⟩))
  | _ => none

/-- The chunk of the `broadcastMessage` the thread is about to make, or in. -/
def toBroadcast : Pc → Option Bytes
  | .broadcast _ _ chunk => some chunk
  | _ => none

def greeted : LifeEvent → List ConnectionHdl
  | .onOpen conn => [conn]
  | _ => []

namespace Session

def networkMemory (session : Session) : Option Memory :=
  match session.network with
  | .serving =>
    if session.serving.pc = .terminated then none else some session.serving.toMemory
  | .parent memory => some memory
  | .ended => none

def setNetworkMemory (session : Session) (memory : Memory) : Session :=
  match session.network with
  | .serving => { session with serving := { memory with pc := session.serving.pc } }
  | .parent _ => { session with network := .parent memory }
  | .ended => session

/-- What the network thread or the main thread throws ends its process. -/
def endNetwork (session : Session) : Session :=
  match session.network with
  | .serving => { session with serving := { session.serving with pc := .terminated } }
  | .parent _ => { session with network := .ended }
  | .ended => session

def settle (session : Session) : Except Exn Memory → Session
  | .ok memory => session.setNetworkMemory memory
  | .error _ => session.endNetwork

/-- Any call of `use_tunnel` but `broadcastMessage`. -/
def tunnel (session : Session) (a : Action) : Option Session :=
  if (toBroadcast session.serving.pc).isSome then none
  else do
    let received ← take session.inputs.received a
    let process ← session.serving.useTunnel a
    return { session with
      serving := process
      inputs := { session.inputs with received := received }
      observation := { session.observation with
        popped := session.observation.popped ++ poppedBy a
        sent := session.observation.sent ++ sends a } }

def broadcast (session : Session) : Option Session :=
  match session.serving.pc, session.broadcasting with
  | .broadcast _ _ _, none =>
    some { session with broadcasting := some session.serving.openConnections }
  | _, _ => none

/-- One turn of the loop in `broadcastMessage`, or its return to `use_tunnel`. -/
def sendNext (session : Session) : Option Session :=
  match session.serving.pc, session.broadcasting with
  | .broadcast sock io _, some [] => some { session with
      serving := { session.serving with pc := next session.serving.serverType io sock }
      broadcasting := none }
  | .broadcast _ _ chunk, some (conn :: conns) =>
    match sendMessage Doubles.absent session.serving.endpoint conn (Memory.binData chunk) .null with
    | .ok endpoint => some { session with
        serving := { session.serving with endpoint := endpoint }
        broadcasting := some conns }
    | .error _ => some { session with serving := { session.serving with pc := .terminated } }
  | _, _ => none

/-- `onOpen` and `onClose` wait for the mutex, if their own process broadcasts. -/
def blocked (session : Session) : LifeEvent → Bool
  | .onOpen _ | .onClose _ =>
    match session.network with
    | .serving => session.broadcasting.isSome
    | _ => false
  | _ => false

def life (session : Session) (e : LifeEvent) : Option Session :=
  if session.blocked e then none
  else do
    let memory ← session.networkMemory
    let memory ← memory.life e
    return { session.setNetworkMemory memory with
      hellos := session.hellos ++ greeted e
      observation := { session.observation with life := session.observation.life ++ [e] } }

def hello (session : Session) : Option Session :=
  match session.networkMemory, session.hellos with
  | some memory, conn :: hellos =>
    some { session.settle (memory.hello conn) with hellos := hellos }
  | _, _ => none

variable {D : Type} (doubles : Doubles D)

/-- A data message is handed over while its connection is open. -/
def frame (session : Session) (conn : ConnectionHdl) : Option Session :=
  match session.networkMemory, session.inputs.frames with
  | some memory, frame :: frames =>
    if memory.endpoint.isOpen conn then
      (memory.deliver doubles conn frame.payload).map fun result =>
        { session.settle result with inputs := { session.inputs with frames := frames } }
    else none
  | _, _ => none

def flush (session : Session) (conn : ConnectionHdl) : Option Session := do
  let memory ← session.networkMemory
  let (text, endpoint) ← writeOut memory.endpoint conn
  return { session.setNetworkMemory { memory with endpoint := endpoint } with
    observation := { session.observation with
      flushed := session.observation.flushed ++ [(conn, text)] } }

def step (session : Session) : Event → Option Session
  | .tunnel a => session.tunnel a
  | .broadcast => session.broadcast
  | .sendNext => session.sendNext
  | .life e => session.life e
  | .hello => session.hello
  | .frame conn => session.frame doubles conn
  | .flush conn => session.flush conn

end Session

def machine {D : Type} (doubles : Doubles D) : EventMachine Session Event :=
  ⟨Session.step doubles⟩

/-- The memory of the program as a session begins in it, with any server or none, and the hellos
not yet sent. There is always a handle that is not in use. -/
structure Accepted where
  server : Option Server
  queues : Queues
  endpoint : Endpoint
  hellos : List ConnectionHdl := []
  listed : ∀ s, server = some s → Listed s endpoint
  fresh : ∃ conn, endpoint.connections conn = none

def Accepted.memory (accepted : Accepted) : Memory where
  server := accepted.server.map Server.setCallbacks
  queues := accepted.queues
  endpoint := accepted.endpoint

/-- The session as `use_tunnel` begins, in a forked process or not. -/
def start (fork : Bool) (accepted : Accepted) (inputs : Inputs) : Session where
  serving := { accepted.memory with pc := .select }
  network := if fork then .parent accepted.memory else .serving
  hellos := accepted.hellos
  inputs := inputs

/-- What a session can be seen to do on these inputs: to pop, to send, and to write out to the
peers as they come and go, whatever the order of the threads and however much of the inputs has
been taken. -/
def observed {D : Type} (doubles : Doubles D) (fork : Bool) (accepted : Accepted)
    (inputs : Inputs) : Set Observation :=
  { o | ∃ es session, (machine doubles).run (start fork accepted inputs) es = some session ∧
    session.observation = o }

def Decodes (frame : Frame) : Prop :=
  ∃ item, decodeOrThrow (removeTail frame.data) = .ok item

/-- Nothing that the network thread has to do with: no frame that can be decoded before one that
ends the process, and no bytes to broadcast. -/
def Unaffected (accepted : Accepted) (inputs : Inputs) : Prop :=
  ∀ s : Side, accepted.memory.serverType = some s.type →
    (∀ frame ∈ inputs.frames.head?, ¬ Decodes frame) ∧ inputs.received s.socket = []

/-! ## The steps of a session -/

theorem take_recv {received received' : Socket → Bytes} {sock : Socket} {chunk : Bytes}
    (h : take received (.recv sock (some chunk)) = some received') :
    chunk <+: received sock ∧
      received' = Function.update received sock ((received sock).drop chunk.length) := by
  simp only [take, Option.ite_none_right_eq_some, Option.some.injEq] at h
  exact ⟨h.1, h.2.symm⟩

theorem life_eq_some {m m' : Memory} {e : LifeEvent} :
    m.life e = some m' ↔ ∃ server server' endpoint', m.server = some server ∧
      lifeStep server m.endpoint e = some (server', endpoint') ∧
      m' = { m with server := some server', endpoint := endpoint' } := by
  simp only [Memory.life, Option.bind_eq_bind, Option.bind_eq_some_iff, Option.pure_def,
    Option.some.injEq, Prod.exists]
  constructor
  · rintro ⟨server, hServer, server', endpoint', hStep, rfl⟩
    exact ⟨server, server', endpoint', hServer, hStep, rfl⟩
  · rintro ⟨server, server', endpoint', hServer, hStep, rfl⟩
    exact ⟨server, hServer, server', endpoint', hStep, rfl⟩

/-- Nothing else of the server and of the memory takes part in the life of a connection. -/
theorem life_server {m m' : Memory} {e : LifeEvent} (h : m.life e = some m') :
    ∃ server conns endpoint', m.server = some server ∧ m' = { m with
      server := some { server with openConnections := conns }
      endpoint := endpoint' } := by
  obtain ⟨server, server', endpoint', hServer, hStep, rfl⟩ := life_eq_some.mp h
  have hOnly := lifeStep_congr rfl hStep
  rw [hStep, Option.some.injEq, Prod.mk.injEq] at hOnly
  exact ⟨server, server'.openConnections, endpoint', hServer, by rw [← hOnly.1]⟩

theorem life_registered {m m' : Memory} {e : LifeEvent} (hRegistered : m.Registered)
    (h : m.life e = some m') : m'.Registered := by
  obtain ⟨server, conns, endpoint', hServer, rfl⟩ := life_server h
  rintro _ ⟨rfl⟩
  have hSame := hRegistered server hServer
  rw [← hSame]
  rfl

theorem life_serverType {m m' : Memory} {e : LifeEvent} (h : m.life e = some m') :
    m'.serverType = m.serverType := by
  obtain ⟨server, conns, endpoint', hServer, rfl⟩ := life_server h
  simp [Memory.serverType, hServer]

theorem life_queues {m m' : Memory} {e : LifeEvent} (h : m.life e = some m') :
    m'.queues = m.queues := by
  obtain ⟨server, conns, endpoint', hServer, rfl⟩ := life_server h
  rfl

theorem hello_eq_ok {m m' : Memory} {conn : ConnectionHdl} (h : m.hello conn = .ok m') :
    ∃ endpoint', sendMessage Doubles.absent m.endpoint conn (bytes "LOGIN|hello") .null =
      .ok endpoint' ∧ m' = { m with endpoint := endpoint' } := by
  unfold Memory.hello at h
  cases hSend : sendMessage Doubles.absent m.endpoint conn (bytes "LOGIN|hello") .null with
  | error exn => rw [hSend] at h; cases h
  | ok endpoint' => rw [hSend] at h; cases h; exact ⟨endpoint', rfl, rfl⟩

section Steps

variable {D : Type} {doubles : Doubles D} {session session' : Session}

theorem tunnel_eq_some {a : Action} (h : session.tunnel a = some session') :
    toBroadcast session.serving.pc = none ∧ ∃ received process,
      take session.inputs.received a = some received ∧
      session.serving.useTunnel a = some process ∧
      session' = { session with
        serving := process
        inputs := { session.inputs with received := received }
        observation := { session.observation with
          popped := session.observation.popped ++ poppedBy a
          sent := session.observation.sent ++ sends a } } := by
  simp only [Session.tunnel, Option.ite_none_left_eq_some, Option.bind_eq_bind,
    Option.bind_eq_some_iff, Option.pure_def, Option.some.injEq] at h
  obtain ⟨hPc, received, hTake, process, hStep, rfl⟩ := h
  exact ⟨by simpa using hPc, received, process, hTake, hStep, rfl⟩

theorem life_eq_of_step {e : LifeEvent} (h : session.life e = some session') :
    session.blocked e = false ∧ ∃ memory memory', session.networkMemory = some memory ∧
      memory.life e = some memory' ∧ session' = { session.setNetworkMemory memory' with
        hellos := session.hellos ++ greeted e
        observation := { session.observation with life := session.observation.life ++ [e] } } := by
  simp only [Session.life, Option.ite_none_left_eq_some, Option.bind_eq_bind,
    Option.bind_eq_some_iff, Option.pure_def, Option.some.injEq] at h
  obtain ⟨hFree, memory, hMemory, memory', hLife, rfl⟩ := h
  exact ⟨by simpa using hFree, memory, memory', hMemory, hLife, rfl⟩

theorem hello_eq_some (h : session.hello = some session') : ∃ memory conn hellos,
    session.networkMemory = some memory ∧ session.hellos = conn :: hellos ∧
      session' = { session.settle (memory.hello conn) with hellos := hellos } := by
  unfold Session.hello at h
  split at h
  · rename_i memory conn hellos hMemory hHellos
    exact ⟨memory, conn, hellos, hMemory, hHellos, (Option.some.inj h).symm⟩
  · cases h

theorem frame_eq_some {conn : ConnectionHdl} (h : session.frame doubles conn = some session') :
    ∃ memory frame frames result, session.networkMemory = some memory ∧
      session.inputs.frames = frame :: frames ∧
      memory.deliver doubles conn frame.payload = some result ∧
      session' =
        { session.settle result with inputs := { session.inputs with frames := frames } } := by
  unfold Session.frame at h
  split at h
  · rename_i memory frame frames hMemory hFrames
    rw [Option.ite_none_right_eq_some] at h
    obtain ⟨result, hDeliver, rfl⟩ := Option.map_eq_some_iff.mp h.2
    exact ⟨memory, frame, frames, result, hMemory, hFrames, hDeliver, rfl⟩
  · cases h

theorem flush_eq_some {conn : ConnectionHdl} (h : session.flush conn = some session') :
    ∃ memory text endpoint, session.networkMemory = some memory ∧
      writeOut memory.endpoint conn = some (text, endpoint) ∧
      session' = { session.setNetworkMemory { memory with endpoint := endpoint } with
        observation := { session.observation with
          flushed := session.observation.flushed ++ [(conn, text)] } } := by
  simp only [Session.flush, Option.bind_eq_bind, Option.bind_eq_some_iff, Option.pure_def,
    Option.some.injEq, Prod.exists] at h
  obtain ⟨memory, hMemory, text, endpoint, hWrite, rfl⟩ := h
  exact ⟨memory, text, endpoint, hMemory, hWrite, rfl⟩

theorem broadcast_eq_some (h : session.broadcast = some session') :
    (∃ sock io chunk, session.serving.pc = .broadcast sock io chunk) ∧
      session' = { session with broadcasting := some session.serving.openConnections } := by
  unfold Session.broadcast at h
  split at h
  · rename_i sock io chunk hPc _
    exact ⟨⟨sock, io, chunk, hPc⟩, (Option.some.inj h).symm⟩
  · cases h

theorem sendNext_eq_some (h : session.sendNext = some session') :
    ∃ sock io chunk, session.serving.pc = .broadcast sock io chunk ∧
      ((session.broadcasting = some [] ∧ session' = { session with
          serving := { session.serving with pc := next session.serving.serverType io sock }
          broadcasting := none }) ∨
        ∃ conn conns, session.broadcasting = some (conn :: conns) ∧
          ((∃ endpoint, sendMessage Doubles.absent session.serving.endpoint conn
              (Memory.binData chunk) .null = .ok endpoint ∧ session' = { session with
                serving := { session.serving with endpoint := endpoint }
                broadcasting := some conns }) ∨
            session' = { session with
              serving := { session.serving with pc := .terminated } })) := by
  unfold Session.sendNext at h
  split at h
  · rename_i sock io chunk hPc hDone
    exact ⟨sock, io, chunk, hPc, .inl ⟨hDone, (Option.some.inj h).symm⟩⟩
  · rename_i sock io chunk conn conns hPc hNext
    refine ⟨sock, io, chunk, hPc, .inr ⟨conn, conns, hNext, ?_⟩⟩
    split at h
    · rename_i endpoint hSend
      exact .inl ⟨endpoint, hSend, (Option.some.inj h).symm⟩
    · exact .inr (Option.some.inj h).symm
  · cases h

theorem broadcasts_of_step (h : session.broadcast = some session' ∨
    session.sendNext = some session') : toBroadcast session.serving.pc ≠ none := by
  rcases h with h | h
  · obtain ⟨⟨sock, io, chunk, hPc⟩, -⟩ := broadcast_eq_some h
    simp [hPc, toBroadcast]
  · obtain ⟨sock, io, chunk, hPc, -⟩ := sendNext_eq_some h
    simp [hPc, toBroadcast]

theorem networkMemory_serving {memory : Memory} (hNetwork : session.network = .serving)
    (h : session.networkMemory = some memory) :
    session.serving.pc ≠ .terminated ∧ memory = session.serving.toMemory := by
  rw [Session.networkMemory, hNetwork] at h
  simp only [Option.ite_none_left_eq_some, Option.some.injEq] at h
  exact ⟨h.1, h.2.symm⟩

theorem networkMemory_parent {memory : Memory} (hNetwork : session.network ≠ .serving)
    (h : session.networkMemory = some memory) : session.network = .parent memory := by
  rw [Session.networkMemory] at h
  split at h
  · rename_i hServing
    exact absurd hServing hNetwork
  · rename_i hParent
    rw [hParent, Option.some.inj h]
  · cases h

theorem networkMemory_of_parent {memory : Memory} (h : session.network = .parent memory) :
    session.networkMemory = some memory := by
  rw [Session.networkMemory, h]

theorem networkMemory_of_serving (hNetwork : session.network = .serving)
    (hAlive : session.serving.pc ≠ .terminated) :
    session.networkMemory = some session.serving.toMemory := by
  rw [Session.networkMemory, hNetwork]
  exact if_neg hAlive

theorem setNetworkMemory_serving (h : session.network = .serving) (memory : Memory) :
    session.setNetworkMemory memory =
      { session with serving := { memory with pc := session.serving.pc } } := by
  rw [Session.setNetworkMemory, h]

theorem setNetworkMemory_parent {old : Memory} (h : session.network = .parent old)
    (memory : Memory) :
    session.setNetworkMemory memory = { session with network := .parent memory } := by
  rw [Session.setNetworkMemory, h]

theorem endNetwork_serving (h : session.network = .serving) : session.endNetwork =
    { session with serving := { session.serving with pc := .terminated } } := by
  rw [Session.endNetwork, h]

theorem endNetwork_parent {old : Memory} (h : session.network = .parent old) :
    session.endNetwork = { session with network := .ended } := by
  rw [Session.endNetwork, h]

theorem blocked_apart (h : session.network ≠ .serving) (e : LifeEvent) :
    session.blocked e = false := by
  cases hNetwork : session.network with
  | serving => exact absurd hNetwork h
  | parent _ | ended => cases e <;> simp [Session.blocked, hNetwork]

theorem blocked_serving (h : session.broadcasting = none) (e : LifeEvent) :
    session.blocked e = false := by
  cases e <;> simp only [Session.blocked, h] <;> split <;> rfl

theorem run_one {e : Event} (h : session.step doubles e = some session') :
    (machine doubles).run session [e] = some session' := by
  rw [EventMachine.run_cons_eq_some]
  exact ⟨session', h, rfl⟩

theorem reaches_one {e : Event} (h : session.step doubles e = some session') :
    (machine doubles).Reaches session session' := ⟨[e], run_one h⟩

theorem reaches_sent {before : Session} {sock : Socket} {io : FdSet} {chunk : Bytes}
    {conns : List ConnectionHdl} : ∀ {session : Session}, (machine doubles).Reaches before session →
      session.serving.pc = .broadcast sock io chunk → session.broadcasting = some conns →
      ∃ broadcasting, (machine doubles).Reaches before { session with
        serving := { session.serving with
          endpoint := (broadcastMessage Doubles.absent (Memory.binData chunk) .null
            session.serving.endpoint conns).2
          pc := if (broadcastMessage Doubles.absent (Memory.binData chunk) .null
              session.serving.endpoint conns).1.isOk then
            next session.serving.serverType io sock else .terminated }
        broadcasting := broadcasting } := by
  induction conns with
  | nil =>
    intro session hReaches hPc hSending
    refine ⟨none, hReaches.trans (reaches_one (e := .sendNext) ?_)⟩
    simp [Session.step, Session.sendNext, hPc, hSending, broadcastMessage, Except.isOk,
      Except.toBool]
  | cons conn conns ih =>
    intro session hReaches hPc hSending
    rw [broadcastMessage]
    cases hSend : sendMessage Doubles.absent session.serving.endpoint conn (Memory.binData chunk)
        .null with
    | error exn =>
      refine ⟨some (conn :: conns), hReaches.trans (reaches_one (e := .sendNext) ?_)⟩
      simp [Session.step, Session.sendNext, hPc, hSending, hSend, Except.isOk, Except.toBool]
    | ok endpoint =>
      have hStep : session.step doubles .sendNext = some { session with
          serving := { session.serving with endpoint := endpoint }
          broadcasting := some conns } := by
        simp [Session.step, Session.sendNext, hPc, hSending, hSend]
      exact ih (hReaches.trans (reaches_one hStep)) hPc rfl

variable (doubles) in
/-- With no step of another thread among them, the sends come to the one call of `use_tunnel`. -/
theorem reaches_useTunnel {chunk : Bytes} {returned : Bool} {process : Process}
    (hIdle : session.broadcasting = none)
    (h : session.serving.useTunnel (.broadcast chunk returned) = some process) :
    ∃ broadcasting, (machine doubles).Reaches session
      { session with serving := process, broadcasting := broadcasting } := by
  have hBegin : ∀ {sock : Socket} {io : FdSet}, session.serving.pc = .broadcast sock io chunk →
      session.step doubles .broadcast =
        some { session with broadcasting := some session.serving.openConnections } := by
    intro sock io hPc
    simp [Session.step, Session.broadcast, hPc, hIdle]
  cases Process.useTunnel_step h with
  | broadcastReturned hPc hReturn =>
    obtain ⟨broadcasting, hAll⟩ := reaches_sent (reaches_one (hBegin hPc)) hPc rfl
    rw [Memory.broadcast] at hReturn
    rw [hReturn] at hAll
    exact ⟨broadcasting, hAll⟩
  | broadcastThrew hPc hThrow =>
    obtain ⟨broadcasting, hAll⟩ := reaches_sent (reaches_one (hBegin hPc)) hPc rfl
    rw [Memory.broadcast] at hThrow
    rw [hThrow] at hAll
    exact ⟨broadcasting, hAll⟩

end Steps

end Fork

end ScRedirection.TcpTunnel
