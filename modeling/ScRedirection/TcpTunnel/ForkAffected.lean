import ScRedirection.TcpTunnel.ForkUnaffected

/-! # What a fork takes from a session

The payloads that arrive are pushed in the parent, and what the child broadcasts stays in its own
copy of the send queues. A direct session pops the former and writes out the latter.
-/

namespace ScRedirection.TcpTunnel.Fork

open Json Websocketpp WebsocketServer

def flushedTo (conn : ConnectionHdl) (o : Observation) : List Bytes :=
  o.flushed.filterMap fun (k, text) => if k = conn then some text else none

def sendQueue (endpoint : Endpoint) (conn : ConnectionHdl) : List Bytes :=
  match endpoint.connections conn with
  | some con => con.sendQueue
  | none => []

theorem sendQueue_set {endpoint : Endpoint} {conn : ConnectionHdl} {con : Connection}
    (h : sendQueue endpoint conn = con.sendQueue) (k : ConnectionHdl) :
    sendQueue (endpoint.set conn (some con)) k = sendQueue endpoint k := by
  rcases eq_or_ne k conn with rfl | hk
  · rw [h]
    simp [sendQueue]
  · simp [sendQueue, hk]

theorem sendQueue_enqueue (endpoint : Endpoint) (conns : List ConnectionHdl) (text : Bytes)
    (k : ConnectionHdl) : sendQueue (endpoint.enqueue conns text) k = sendQueue endpoint k ++
      if k ∈ conns ∧ (endpoint.connections k).isSome then [text] else [] := by
  unfold sendQueue
  rw [Endpoint.connections_enqueue]
  by_cases hk : k ∈ conns <;> cases endpoint.connections k <;> simp [hk, Connection.writePush]

theorem writeOut_eq_some {endpoint endpoint' : Endpoint} {conn : ConnectionHdl} {text : Bytes}
    (h : writeOut endpoint conn = some (text, endpoint')) (k : ConnectionHdl) :
    (if conn = k then [text] else []) ++ sendQueue endpoint' k = sendQueue endpoint k := by
  unfold writeOut at h
  split at h
  · cases h
  · rename_i state text' queue _ hCon
    cases h
    unfold sendQueue
    rw [Endpoint.connections_set]
    rcases eq_or_ne k conn with rfl | hk
    · simp [hCon]
    · simp [hk, hk.symm]
  · cases h

/-- What is queued for a connection stays while it opens and closes, until its object goes. -/
theorem lifeStep_sendQueue {server server' : Server} {endpoint endpoint' : Endpoint}
    {e : LifeEvent} (h : lifeStep server endpoint e = some (server', endpoint'))
    (k : ConnectionHdl) :
    sendQueue endpoint' k = sendQueue endpoint k ∨ sendQueue endpoint' k = [] := by
  cases lifeStep_eq_some.mp h with
  | onOpen hNew => exact .inl (sendQueue_set (by simp [sendQueue, hNew]) k)
  | leaveOpenState hCon | onClose hCon => exact .inl (sendQueue_set (by simp [sendQueue, hCon]) k)
  | @expire conn =>
    rcases eq_or_ne k conn with rfl | hk
    · exact .inr (by simp [sendQueue])
    · exact .inl (by simp [sendQueue, hk])

/-! ## The forked session -/

def helloText : Bytes := bytes "\x7b\"__MESSAGE__\":\"LOGIN|hello\"\x7d"

theorem messageText_hello :
    messageText Doubles.absent (bytes "LOGIN|hello") .null = .ok helloText := by
  rfl

theorem broadcastText_ne_hello (chunk : Bytes) : broadcastText chunk ≠ helloText := by
  intro hSame
  have hHead := congrArg (List.take 17) hSame
  rw [broadcastText, List.append_assoc, List.take_append_of_le_length (by decide)] at hHead
  exact absurd hHead (by decide)

theorem deliver_endpoint {D : Type} {doubles : Doubles D} {memory memory' : Memory}
    {conn : ConnectionHdl} {payload : StdString}
    (h : memory.deliver doubles conn payload = some (.ok memory')) :
    memory'.endpoint = memory.endpoint := by
  obtain ⟨server, -, hMessage⟩ := Option.map_eq_some_iff.mp h
  split at hMessage <;> cases hMessage
  rfl

/-- The two processes of a forked session draw on what there was at the fork: no payload is popped
beyond it, and a text is written out no more often than it was queued. -/
structure Apart (s : Side) (accepted : Accepted) (text : Bytes) (session : Session) : Prop where
  serverType : session.serving.serverType = some s.type
  fits : session.serving.pc.Fits s
  pending : session.serving.Pending s
  network : session.network ≠ .serving
  popped : session.observation.popped ++ session.serving.queues.data s.socket.opposite =
    accepted.queues.data s.socket.opposite
  flushed : ∀ conn, (flushedTo conn session.observation).count text ≤
    (sendQueue accepted.endpoint conn).count text
  parent : ∀ memory, session.network = .parent memory → ∀ conn,
    (flushedTo conn session.observation).count text +
      (sendQueue memory.endpoint conn).count text ≤ (sendQueue accepted.endpoint conn).count text

variable {D : Type} {doubles : Doubles D} {s : Side} {accepted : Accepted} {text : Bytes}
  {before session session' : Session}

/-- Every step of the parent's threads that keeps or shortens what is queued of the text. -/
theorem Apart.parent_step {memory memory' : Memory} {hellos : List ConnectionHdl}
    {inputs : Inputs} {life : List LifeEvent} (h : Apart s accepted text session)
    (hParent : session.network = .parent memory)
    (hQueues : ∀ conn, (sendQueue memory'.endpoint conn).count text ≤
      (sendQueue memory.endpoint conn).count text) :
    Apart s accepted text { session with
      network := .parent memory'
      hellos := hellos
      inputs := inputs
      observation := { session.observation with life := life } } :=
  { h with
    network := NetworkThread.noConfusion
    parent := by
      rintro _ ⟨rfl⟩ conn
      have hNow := h.parent memory hParent conn
      have hLess := hQueues conn
      simp only [flushedTo] at hNow ⊢
      omega }

theorem Apart.parent_ended {hellos : List ConnectionHdl} {inputs : Inputs}
    (h : Apart s accepted text session) : Apart s accepted text
      { session with network := .ended, hellos := hellos, inputs := inputs } :=
  { h with
    network := NetworkThread.noConfusion
    parent := fun _ hEnded => NetworkThread.noConfusion hEnded }

theorem apart_tunnel {a : Action} (h : Apart s accepted text session)
    (hStep : session.tunnel a = some session') : Apart s accepted text session' := by
  obtain ⟨-, received, process, -, hUse, rfl⟩ := tunnel_eq_some hStep
  have hMove := Process.useTunnel_step hUse
  exact { h with
    serverType := by rw [Memory.serverType, hMove.server_eq]; exact h.serverType
    fits := hMove.fits h.serverType h.fits
    pending := hMove.pending s
    popped := by
      rw [List.append_assoc, ← hMove.queue_eq h.fits h.pending]
      exact h.popped }

theorem apart_sendNext (h : Apart s accepted text session)
    (hStep : session.sendNext = some session') : Apart s accepted text session' := by
  obtain ⟨sock, io, chunk, hPc, ⟨-, rfl⟩ | ⟨conn, conns, -, ⟨endpoint, -, rfl⟩ | rfl⟩⟩ :=
    sendNext_eq_some hStep
  · exact { h with
      fits := by rw [h.serverType]; exact fits_next s io sock
      pending := by
        intro io' hPop
        have hBegins := begins_next session.serving.serverType io sock
        simp only at hPop
        rw [hPop] at hBegins
        cases hBegins }
  · exact { h with }
  · exact { h with
      fits := .terminated
      pending := by
        intro io' hPop
        cases hPop }

theorem apart_flush {conn : ConnectionHdl} (h : Apart s accepted text session)
    (hStep : session.flush conn = some session') : Apart s accepted text session' := by
  obtain ⟨memory, old, endpoint, hMemory, hWrite, rfl⟩ := flush_eq_some hStep
  have hParent := networkMemory_parent h.network hMemory
  have hBalance : ∀ k, (flushedTo k { session.observation with
      flushed := session.observation.flushed ++ [(conn, old)] }).count text +
        (sendQueue endpoint k).count text ≤ (sendQueue accepted.endpoint k).count text := by
    intro k
    have hNow := h.parent memory hParent k
    rw [← writeOut_eq_some hWrite k, List.count_append, ← Nat.add_assoc, ← List.count_append]
      at hNow
    convert hNow using 3
    by_cases hk : conn = k <;> simp [flushedTo, hk]
  rw [setNetworkMemory_parent hParent]
  exact { h with
    network := NetworkThread.noConfusion
    flushed := fun k => (Nat.le_add_right _ _).trans (hBalance k)
    parent := by
      rintro _ ⟨rfl⟩
      exact hBalance }

/-- Any text will do but a hello, which the parent goes on to queue. -/
theorem apart_step {e : Event} (hText : text ≠ helloText) (h : Apart s accepted text session)
    (hStep : (machine doubles).step session e = some session') :
    Apart s accepted text session' := by
  cases e with
  | tunnel a => exact apart_tunnel h hStep
  | broadcast =>
    obtain ⟨-, rfl⟩ := broadcast_eq_some hStep
    exact { h with }
  | sendNext => exact apart_sendNext h hStep
  | life e =>
    obtain ⟨-, memory, memory', hMemory, hLife, rfl⟩ := life_eq_of_step hStep
    have hParent := networkMemory_parent h.network hMemory
    obtain ⟨server, server', endpoint', -, hNow, rfl⟩ := life_eq_some.mp hLife
    rw [setNetworkMemory_parent hParent]
    refine h.parent_step hParent fun conn => ?_
    rcases lifeStep_sendQueue hNow conn with hKept | hGone
    · rw [hKept]
    · rw [hGone]
      exact Nat.zero_le _
  | hello =>
    obtain ⟨memory, conn, hellos, hMemory, -, rfl⟩ := hello_eq_some hStep
    have hParent := networkMemory_parent h.network hMemory
    cases hHello : memory.hello conn with
    | error exn =>
      rw [Session.settle, endNetwork_parent hParent]
      exact h.parent_ended
    | ok memory' =>
      obtain ⟨endpoint', hSend, rfl⟩ := hello_eq_ok hHello
      obtain ⟨sent, hSent, -, -, rfl⟩ := sendMessage_eq_ok.mp hSend
      obtain rfl := Except.ok.inj (messageText_hello.symm.trans hSent)
      rw [Session.settle, setNetworkMemory_parent hParent]
      refine h.parent_step hParent fun k => ?_
      rw [sendQueue_enqueue, List.count_append]
      split_ifs <;> simp [Ne.symm hText]
  | frame conn =>
    obtain ⟨memory, frame, frames, result, hMemory, -, hDeliver, rfl⟩ := frame_eq_some hStep
    have hParent := networkMemory_parent h.network hMemory
    cases result with
    | error exn =>
      rw [Session.settle, endNetwork_parent hParent]
      exact h.parent_ended
    | ok memory' =>
      rw [Session.settle, setNetworkMemory_parent hParent]
      refine h.parent_step hParent fun k => ?_
      rw [deliver_endpoint hDeliver]
  | flush conn => exact apart_flush h hStep

theorem apart_of_observed {inputs : Inputs} (hType : accepted.memory.serverType = some s.type)
    {o : Observation} (h : o ∈ observed doubles true accepted inputs) (hText : text ≠ helloText) :
    o.popped <+: accepted.queues.data s.socket.opposite ∧ ∀ conn,
      (flushedTo conn o).count text ≤ (sendQueue accepted.endpoint conn).count text := by
  obtain ⟨es, session, hRun, rfl⟩ := h
  have hStart : Apart s accepted text (start true accepted inputs) := {
    serverType := hType
    fits := .select
    pending := by
      intro io hPc
      cases hPc
    network := NetworkThread.noConfusion
    popped := rfl
    flushed := fun conn => Nat.zero_le _
    parent := by
      rintro _ ⟨rfl⟩ conn
      exact (Nat.zero_add _).le }
  have hApart := (machine doubles).run_invariant (P := Apart s accepted text)
    (fun _ _ _ hNow hStep => apart_step hText hNow hStep) hStart hRun
  exact ⟨⟨_, hApart.popped⟩, hApart.flushed⟩

/-! ## The direct session -/

/-- Nothing but the socket that is never read has become ready. -/
def idleIo : Side → FdSet
  | .linux => ⟨false, true⟩
  | .windows => ⟨true, false⟩

def popTurn (s : Side) (x : Bytes) (size : Nat) : List Event :=
  [.tunnel (.select (some (idleIo s))), .tunnel (.getSize s.socket.opposite size),
    .tunnel (.pop s.socket.opposite x), .tunnel (.send s.socket x)]

variable (doubles) in
theorem run_popTurn {x : Bytes} {xs : List Bytes}
    (hType : session.serving.serverType = some s.type) (hPc : session.serving.pc = .select)
    (hQueue : session.serving.queues.data s.socket.opposite = x :: xs) :
    (machine doubles).run session (popTurn s x (xs.length + 1)) = some { session with
      serving := { session.serving with
        queues := session.serving.queues.setData s.socket.opposite xs }
      observation := { session.observation with
        popped := session.observation.popped ++ [x]
        sent := session.observation.sent ++ [(s.socket, x)] } } := by
  have hEnter : enterClient (some s.type) (idleIo s) = .getSize s.socket.opposite (idleIo s) := by
    cases s <;> rfl
  have hNext : next (some s.type) (idleIo s) s.socket.opposite = .select := by cases s <;> rfl
  have hBack : s.socket.opposite.opposite = s.socket := by cases s <;> rfl
  have hSameType : ∀ m : Memory, m.server = session.serving.server →
      m.serverType = some s.type := by
    intro m hServer
    rw [Memory.serverType, hServer]
    exact hType
  simp [popTurn, machine, EventMachine.run, Session.step, Session.tunnel, take, toBroadcast,
    Process.useTunnel, step, Memory.effect, hPc, hQueue, hType, hSameType, hEnter, hNext, hBack,
    poppedBy, sends]

variable (doubles) in
/-- Turn after turn, a session can pop all there is. -/
theorem reaches_drained (items : List Bytes) :
    ∀ session : Session, session.serving.serverType = some s.type →
      session.serving.pc = .select → session.serving.queues.data s.socket.opposite = items →
      (machine doubles).Reaches session { session with
        serving := { session.serving with
          queues := session.serving.queues.setData s.socket.opposite [] }
        observation := { session.observation with
          popped := session.observation.popped ++ items
          sent := session.observation.sent ++ items.map fun item => (s.socket, item) } } := by
  induction items with
  | nil =>
    intro session _ _ hQueue
    have hSame : session.serving.queues.setData s.socket.opposite [] = session.serving.queues := by
      rw [← hQueue]
      cases s <;> rfl
    rw [hSame, List.append_nil, List.map_nil, List.append_nil]
    exact .refl session
  | cons x xs ih =>
    intro session hType hPc hQueue
    have hTurn : (machine doubles).Reaches session _ :=
      ⟨_, run_popTurn doubles hType hPc hQueue⟩
    have hSet : (session.serving.queues.setData s.socket.opposite xs).setData s.socket.opposite [] =
        session.serving.queues.setData s.socket.opposite [] := by
      cases s <;> rfl
    have hAll := hTurn.trans (ih _ hType hPc (by simp))
    simpa only [hSet, List.append_assoc, List.singleton_append, List.map_cons] using hAll

/-- The network thread of the serving process can write out a whole send queue. -/
theorem reaches_flushed {conn : ConnectionHdl} {texts : List Bytes} :
    ∀ {session : Session}, (machine doubles).Reaches before session →
      session.network = .serving → session.serving.pc ≠ .terminated →
      session.serving.endpoint.isOpen conn = true →
      sendQueue session.serving.endpoint conn = texts →
      ∃ flushed, (machine doubles).Reaches before flushed ∧
        flushedTo conn flushed.observation = flushedTo conn session.observation ++ texts := by
  induction texts with
  | nil =>
    intro session hReaches _ _ _ _
    exact ⟨session, hReaches, (List.append_nil _).symm⟩
  | cons text texts ih =>
    intro session hReaches hNetwork hAlive hOpen hQueue
    obtain ⟨⟨state, queue⟩, hCon, hState⟩ := Endpoint.isOpen_iff.mp hOpen
    obtain rfl : queue = text :: texts := by rw [← hQueue, sendQueue, hCon]
    obtain rfl : state = .open := hState
    have hStep : session.step doubles (.flush conn) = some { session with
        serving := { session.serving with
          endpoint := session.serving.endpoint.set conn (some ⟨.open, texts⟩) }
        observation := { session.observation with
          flushed := session.observation.flushed ++ [(conn, text)] } } := by
      simp [Session.step, Session.flush, networkMemory_of_serving hNetwork hAlive, writeOut, hCon,
        setNetworkMemory_serving hNetwork]
    obtain ⟨flushed, hRest, hFlushed⟩ := ih (hReaches.trans (reaches_one hStep)) hNetwork hAlive
      (Endpoint.isOpen_iff.mpr ⟨_, if_pos rfl, rfl⟩) (by simp [sendQueue])
    refine ⟨flushed, hRest, ?_⟩
    rw [hFlushed]
    simp [flushedTo]

variable (doubles) in
/-- What a connection's life does to a direct session that is not broadcasting. -/
theorem step_life {server server' : Server} {endpoint' : Endpoint} {e : LifeEvent}
    (hNetwork : session.network = .serving) (hAlive : session.serving.pc ≠ .terminated)
    (hIdle : session.broadcasting = none) (hServer : session.serving.server = some server)
    (hLife : lifeStep server session.serving.endpoint e = some (server', endpoint')) :
    session.step doubles (.life e) = some { session with
      serving := { session.serving with server := some server', endpoint := endpoint' }
      hellos := session.hellos ++ greeted e
      observation := { session.observation with life := session.observation.life ++ [e] } } := by
  simp [Session.step, Session.life, blocked_serving hIdle,
    networkMemory_of_serving hNetwork hAlive, Memory.life, hServer, hLife,
    setNetworkMemory_serving hNetwork]

theorem lifeStep_onOpen {server : Server} {endpoint : Endpoint} {conn : ConnectionHdl}
    (hListed : Listed server endpoint) (hNew : endpoint.connections conn = none) :
    lifeStep server endpoint (.onOpen conn) =
      some (onOpen server conn, endpoint.set conn (some { state := .open })) := by
  refine lifeStep_eq_some.mpr (.onOpen hNew fun hMem => ?_)
  obtain ⟨con, hCon, -⟩ := hListed.live conn hMem
  cases hNew.symm.trans hCon

variable (doubles) in
/-- Connections can come and go until the first one listed is open. -/
theorem reaches_opened {conns : List ConnectionHdl} :
    ∀ {session : Session} {server : Server}, (machine doubles).Reaches before session →
      session.network = .serving → session.serving.pc ≠ .terminated →
      session.broadcasting = none → session.serving.server = some server →
      Listed server session.serving.endpoint →
      (∃ conn, session.serving.endpoint.connections conn = none) →
      server.openConnections = conns →
      ∃ server' endpoint' hellos life conn conns', (machine doubles).Reaches before
          { session with
            serving := { session.serving with server := some server', endpoint := endpoint' }
            hellos := hellos
            observation := { session.observation with life := life } } ∧
        server'.type = server.type ∧ server'.openConnections = conn :: conns' ∧
        endpoint'.isOpen conn = true ∧
        ∀ k, sendQueue endpoint' k = sendQueue session.serving.endpoint k := by
  induction conns with
  | nil =>
    intro session server hReaches hNetwork hAlive hIdle hServer hListed hFresh hConns
    -- nobody is listed, and a peer opens
    obtain ⟨conn, hConn⟩ := hFresh
    have hStep := step_life doubles hNetwork hAlive hIdle hServer
      (lifeStep_onOpen hListed hConn)
    refine ⟨_, _, _, _, conn, [], hReaches.trans (reaches_one hStep), rfl, ?_,
      Endpoint.isOpen_iff.mpr ⟨_, if_pos rfl, rfl⟩, ?_⟩
    · rw [onOpen, hConns]
      rfl
    · exact sendQueue_set (by simp [sendQueue, hConn])
  | cons first conns ih =>
    intro session server hReaches hNetwork hAlive hIdle hServer hListed hFresh hConns
    obtain ⟨⟨state, queue⟩, hCon, hState | hState⟩ := hListed.live first (by simp [hConns])
    · refine ⟨server, session.serving.endpoint, session.hellos, session.observation.life,
        first, conns, ?_, rfl, hConns, Endpoint.isOpen_iff.mpr ⟨_, hCon, hState⟩, fun _ => rfl⟩
      rw [← hServer]
      exact hReaches
    · obtain rfl : state = .closing := hState
      -- its `onClose` runs, which leaves a shorter list and every send queue as it was
      have hLife : lifeStep server session.serving.endpoint (.onClose first) = some _ :=
        lifeStep_eq_some.mpr (.onClose hCon)
      have hStep := step_life doubles hNetwork hAlive hIdle hServer hLife
      have hRest : (onClose session.serving.endpoint server first).openConnections = conns := by
        have hNodup := hListed.nodup
        rw [hConns, List.nodup_cons] at hNodup
        rw [hListed.onClose_eq, hConns, List.filter_cons_of_neg (by simp), List.filter_eq_self]
        intro k hk
        rw [decide_eq_true_eq]
        rintro rfl
        exact hNodup.1 hk
      have hKept : ∀ k, sendQueue (session.serving.endpoint.set first (some ⟨.closed, queue⟩)) k =
          sendQueue session.serving.endpoint k := sendQueue_set (by simp [sendQueue, hCon])
      obtain ⟨conn, hConn⟩ := hFresh
      have hOther : conn ≠ first := by
        rintro rfl
        cases hConn.symm.trans hCon
      obtain ⟨server', endpoint', hellos, life, conn', conns', hThen, hType, hNow, hOpen,
        hQueues⟩ := ih (hReaches.trans (reaches_one hStep)) hNetwork hAlive hIdle rfl
          (hListed.lifeStep hLife) ⟨conn, (if_neg hOther).trans hConn⟩ hRest
      exact ⟨server', endpoint', hellos, life, conn', conns', hThen, hType, hNow, hOpen,
        fun k => (hQueues k).trans (hKept k)⟩

def readIo : Side → FdSet
  | .linux => ⟨true, false⟩
  | .windows => ⟨false, true⟩

def readTurn (s : Side) (chunk : Bytes) : List Event :=
  match s with
  | .linux => [.tunnel (.select (some (readIo s))), .tunnel (.recv s.socket (some chunk))]
  | .windows => [.tunnel (.select (some (readIo s))), .tunnel (.getSize .client 0),
      .tunnel (.recv s.socket (some chunk))]

variable (doubles) in
/-- A turn with an empty queue reads the socket and goes on to broadcast. -/
theorem run_readTurn {c : UInt8} {rest : Bytes}
    (hType : session.serving.serverType = some s.type) (hPc : session.serving.pc = .select)
    (hQueue : session.serving.queues.data s.socket.opposite = [])
    (hReceived : session.inputs.received s.socket = c :: rest) :
    (machine doubles).run session (readTurn s (c :: rest)) = some { session with
      serving := { session.serving with pc := .broadcast s.socket (readIo s) (c :: rest) }
      inputs := { session.inputs with
        received := Function.update session.inputs.received s.socket [] } } := by
  have hForwards : forwards (some s.type) s.socket = true := (s.forwards_iff s.socket).mpr rfl
  cases s with
  | linux =>
    have hEnter : enterClient (some Side.linux.type) (readIo .linux) =
        .recv .client (readIo .linux) := rfl
    simp only [Side.socket] at hReceived hForwards
    simp [readTurn, machine, EventMachine.run, Session.step, Session.tunnel, take, toBroadcast,
      Side.socket, Process.useTunnel, step, Memory.effect, hPc, hType, hEnter, hReceived,
      hForwards, poppedBy, sends]
  | windows =>
    have hEnter : enterClient (some Side.windows.type) (readIo .windows) =
        .getSize .client (readIo .windows) := rfl
    have hNext : next (some Side.windows.type) (readIo .windows) .client =
        .recv .remote (readIo .windows) := rfl
    simp only [Side.socket, Socket.opposite] at hReceived hForwards hQueue
    simp [readTurn, machine, EventMachine.run, Session.step, Session.tunnel, take, toBroadcast,
      Side.socket, Process.useTunnel, step, Memory.effect, hPc, hType, hQueue, hEnter, hNext,
      hReceived, hForwards, poppedBy, sends]

variable (doubles) in
/-- A broadcast sends to the first listed connection, if that is open. -/
theorem run_broadcast {sock : Socket} {io : FdSet} {chunk : Bytes} {conn : ConnectionHdl}
    {conns : List ConnectionHdl} (hPc : session.serving.pc = .broadcast sock io chunk)
    (hIdle : session.broadcasting = none)
    (hConns : session.serving.openConnections = conn :: conns)
    (hOpen : session.serving.endpoint.isOpen conn = true) :
    (machine doubles).run session [.broadcast, .sendNext] = some { session with
      serving := { session.serving with
        endpoint := session.serving.endpoint.enqueue [conn] (broadcastText chunk) }
      broadcasting := some conns } := by
  have hSend : sendMessage Doubles.absent session.serving.endpoint conn (Memory.binData chunk)
      .null = .ok (session.serving.endpoint.enqueue [conn] (broadcastText chunk)) :=
    sendMessage_eq_ok.mpr ⟨_, messageText_binData _ chunk, hOpen, validate_broadcastText chunk, rfl⟩
  simp [machine, EventMachine.run, Session.step, Session.broadcast, Session.sendNext, hPc, hIdle,
    hConns, hSend]

theorem Accepted.listed_server (accepted : Accepted) {server : Server}
    (h : accepted.memory.server = some server) : Listed server accepted.endpoint := by
  obtain ⟨old, hOld, rfl⟩ := Option.map_eq_some_iff.mp h
  have hListed := accepted.listed old hOld
  exact ⟨hListed.nodup, hListed.live⟩

variable (doubles) in
theorem step_frame {conn : ConnectionHdl} {frame : Frame} {frames : List Frame} {item : Bytes}
    (hNetwork : session.network = .serving) (hAlive : session.serving.pc ≠ .terminated)
    (hRuns : session.serving.RunsOn s) (hOpen : session.serving.endpoint.isOpen conn = true)
    (hFrames : session.inputs.frames = frame :: frames)
    (hDecode : decodeOrThrow (removeTail frame.data) = .ok item) :
    session.step doubles (.frame conn) = some { session with
      serving := { session.serving with
        queues := session.serving.queues.push s.socket.opposite item }
      inputs := { session.inputs with frames := frames } } := by
  have hDeliver := hRuns.deliver_binData doubles conn frame.noColon frame.spare
  rw [hDecode] at hDeliver
  simp [Session.step, Session.frame, networkMemory_of_serving hNetwork hAlive, hFrames, hOpen,
    Frame.payload, hDeliver, Except.map, Session.settle, setNetworkMemory_serving hNetwork]

theorem observed_of_reaches {fork : Bool} {inputs : Inputs}
    (h : (machine doubles).Reaches (start fork accepted inputs) session) :
    session.observation ∈ observed doubles fork accepted inputs := by
  obtain ⟨es, hRun⟩ := h
  exact ⟨es, session, hRun, rfl⟩

/-- A peer comes and brings the first frame, which is then popped like all that was queued. -/
theorem exists_popped {inputs : Inputs} {frame : Frame} {frames : List Frame} {item : Bytes}
    (hType : accepted.memory.serverType = some s.type) (hFrames : inputs.frames = frame :: frames)
    (hDecode : decodeOrThrow (removeTail frame.data) = .ok item) :
    ∃ o ∈ observed doubles false accepted inputs,
      o.popped = accepted.queues.data s.socket.opposite ++ [item] := by
  obtain ⟨server, hServer, hSide⟩ := accepted.registered.runsOn hType
  obtain ⟨conn, hConn⟩ := accepted.fresh
  have hStep : (start false accepted inputs).step doubles (.life (.onOpen conn)) = _ :=
    step_life doubles rfl Pc.noConfusion rfl hServer
      (lifeStep_onOpen (accepted.listed_server hServer) hConn)
  have hPushed := (reaches_one hStep).trans (reaches_one (step_frame doubles rfl Pc.noConfusion
    ⟨onOpen server conn, rfl, hSide⟩ (Endpoint.isOpen_iff.mpr ⟨_, if_pos rfl, rfl⟩) hFrames
    hDecode))
  have hDrained := hPushed.trans (reaches_drained doubles
    (accepted.queues.data s.socket.opposite ++ [item]) _ (congrArg some hSide) rfl
    (by simp [Queues.push]; rfl))
  exact ⟨_, observed_of_reaches hDrained, rfl⟩

/-- The list comes to begin with an open connection, and then what arrives is broadcast to it. -/
theorem exists_written {inputs : Inputs} (hType : accepted.memory.serverType = some s.type)
    (hReceived : inputs.received s.socket ≠ []) :
    ∃ o ∈ observed doubles false accepted inputs, ∃ conn, flushedTo conn o =
      sendQueue accepted.endpoint conn ++ [broadcastText (inputs.received s.socket)] := by
  obtain ⟨c, rest, hChunk⟩ := List.exists_cons_of_ne_nil hReceived
  obtain ⟨server, hServer, hSide⟩ := Option.map_eq_some_iff.mp hType
  obtain ⟨server', endpoint', hellos, life, conn, conns, hOpened, hType', hConns, hOpen, hQueues⟩ :=
    reaches_opened doubles (.refl (start false accepted inputs)) rfl Pc.noConfusion rfl
      hServer (accepted.listed_server hServer) accepted.fresh rfl
  have hSame : ∀ m : Memory, m.server = some server' → m.serverType = some s.type := by
    intro m hNow
    rw [Memory.serverType, hNow, Option.map_some, hType', hSide]
  -- the Windows side comes to its socket only with an empty queue
  have hDrained := hOpened.trans (reaches_drained doubles (s := s)
    (accepted.queues.data s.socket.opposite) _ (hSame _ rfl) rfl rfl)
  have hRead := hDrained.trans ⟨_, run_readTurn doubles (s := s) (hSame _ rfl) rfl
    (by simp) hChunk⟩
  have hSent := hRead.trans ⟨_, run_broadcast doubles rfl rfl hConns hOpen⟩
  obtain ⟨con, hCon, -⟩ := Endpoint.isOpen_iff.mp hOpen
  obtain ⟨flushed, hFlush, hFlushed⟩ := reaches_flushed hSent rfl Pc.noConfusion
    ((Endpoint.isOpen_enqueue ..).trans hOpen)
    (sendQueue_enqueue endpoint' [conn] (broadcastText (c :: rest)) conn)
  refine ⟨_, observed_of_reaches hFlush, conn, ?_⟩
  rw [hFlushed, hQueues, if_pos ⟨List.mem_singleton_self conn, by rw [hCon]; rfl⟩, hChunk]
  rfl

/-- The two show the same exactly when the network thread has no part in the session. -/
theorem observed_eq_iff (doubles : Doubles D) (accepted : Accepted) (inputs : Inputs) :
    observed doubles true accepted inputs = observed doubles false accepted inputs ↔
      Unaffected accepted inputs := by
  refine ⟨fun hEq s hType => ⟨?_, ?_⟩, observed_eq_of_unaffected⟩
  · rintro frame hFrame ⟨item, hDecode⟩
    obtain ⟨frames, hFrames⟩ := List.head?_eq_some_iff.mp hFrame
    obtain ⟨o, ho, hPopped⟩ := exists_popped hType hFrames hDecode
    rw [← hEq] at ho
    have hLength := (apart_of_observed hType ho (broadcastText_ne_hello [])).1.length_le
    rw [hPopped, List.length_append, List.length_singleton] at hLength
    omega
  · by_contra hReceived
    obtain ⟨o, ho, conn, hFlushed⟩ := exists_written hType hReceived
    rw [← hEq] at ho
    have hText := broadcastText_ne_hello (inputs.received s.socket)
    have hCount := (apart_of_observed hType ho hText).2 conn
    rw [hFlushed, List.count_append, List.count_singleton_self] at hCount
    omega

theorem fork_pops_nothing : ¬ ∀ accepted inputs,
    observed Doubles.absent true accepted inputs =
      observed Doubles.absent false accepted inputs := by
  intro hAll
  let accepted : Accepted := {
    server := some { type := .linux }
    queues := {}
    endpoint := .empty
    listed := by rintro s ⟨rfl⟩; exact ⟨List.nodup_nil, by simp⟩
    fresh := ⟨0, rfl⟩ }
  let inputs : Inputs := ⟨[⟨bytes "aGk=", by decide, .none⟩], fun _ => []⟩
  have hDirect : ((machine Doubles.absent).run (start false accepted inputs)
      [.life (.onOpen 0), .frame 0, .tunnel (.select (some ⟨false, true⟩)),
        .tunnel (.getSize .remote 1), .tunnel (.pop .remote (bytes "hi"))]).map
          (·.observation.popped) = some [bytes "hi"] := by
    decide +kernel
  obtain ⟨session, hRun, hPopped⟩ := Option.map_eq_some_iff.mp hDirect
  have hForked : session.observation ∈ observed Doubles.absent true accepted inputs := by
    rw [hAll]
    exact ⟨_, session, hRun, rfl⟩
  have hPrefix := (apart_of_observed (s := .linux) rfl hForked (broadcastText_ne_hello [])).1
  rw [hPopped] at hPrefix
  cases List.prefix_nil.mp hPrefix

end ScRedirection.TcpTunnel.Fork
