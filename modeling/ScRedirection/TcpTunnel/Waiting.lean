import ScRedirection.Library.EventMachine
import ScRedirection.TcpTunnel.BinData

/-! # Payloads waiting for the loop

The thread sleeps in `select` until one of its two sockets is readable, and the network thread
pushes whenever it likes. A socket that is not read stays readable.
-/

namespace ScRedirection.TcpTunnel.Waiting

open Json Websocketpp WebsocketServer

/-- `turnStart` is the queue as it was when `select` last returned, `turnPops` what was popped
since, and `arrived` what the network thread pushed. -/
structure Session where
  process : Process
  readable : FdSet
  turnStart : List Bytes := []
  turnPops : List Bytes := []
  arrived : List Bytes := []

inductive Event
  | tunnel (a : Action)
  | arrive (sock : Socket)
  | deliver (conn : ConnectionHdl) (payload : StdString)
  | connections (conns : List ConnectionHdl) (endpoint : Endpoint)

def setReadable (readable : FdSet) (value : Bool) : Socket → FdSet
  | .client => { readable with client := value }
  | .remote => { readable with remote := value }

@[simp] theorem isSet_setReadable (readable : FdSet) (value : Bool) (sock sock' : Socket) :
    (setReadable readable value sock).isSet sock' =
      if sock' = sock then value else readable.isSet sock' := by
  cases sock <;> cases sock' <;> rfl

/-- `select` reports what is readable, and does not return while nothing is. -/
def canReturn (readable : FdSet) : Action → Bool
  | .select (some io) => io == readable && (io.client || io.remote)
  | _ => true

namespace Session

variable {D : Type} (doubles : Doubles D) (s : Side)

def queue (session : Session) : List Bytes := session.process.queues.data s.socket.opposite

def tunnel (session : Session) (a : Action) : Option Session :=
  if canReturn session.readable a then
    (session.process.useTunnel a).map fun process =>
      match a with
      | .select _ =>
        { session with process := process, turnStart := session.queue s, turnPops := [] }
      | .pop _ item =>
        { session with process := process, turnPops := session.turnPops ++ [item] }
      | .recv sock _ =>
        { session with process := process, readable := setReadable session.readable false sock }
      | _ => { session with process := process }
  else none

def step (session : Session) : Event → Option Session
  | .tunnel a => session.tunnel s a
  | .arrive sock => some { session with readable := setReadable session.readable true sock }
  | .deliver conn payload =>
    (session.process.deliver doubles conn payload).map fun process =>
      { session with
        process := process
        arrived := session.arrived ++
          (process.queues.data s.socket.opposite).drop (session.queue s).length }
  | .connections conns endpoint =>
    some { session with process := { session.process with
      server := session.process.server.map ({ · with openConnections := conns })
      endpoint := endpoint } }

def Blocked (session : Session) : Prop :=
  session.process.pc = .select ∧ ∀ sock, session.readable.isSet sock = false

/-- The queue is drained, or the thread is not waiting, or `select` has something to report. -/
def ReadyWhenPending (session : Session) : Prop :=
  session.queue s ≠ [] → session.process.pc = .select → ∃ sock, session.readable.isSet sock = true

end Session

def machine {D : Type} (doubles : Doubles D) (s : Side) : EventMachine Session Event :=
  ⟨Session.step doubles s⟩

def start (s : Side) (server : Server) (queues : Queues) (endpoint : Endpoint)
    (readable : FdSet) : Session where
  process :=
    { server := some (Server.setCallbacks { server with type := s.type })
      queues := queues
      endpoint := endpoint
      pc := .select }
  readable := readable

inductive BeforePop (s : Side) : Pc → Prop
  | getSize (io : FdSet) : BeforePop s (.getSize s.socket.opposite io)
  | pop (io : FdSet) : BeforePop s (.pop s.socket.opposite io)
  | recv (io : FdSet) (hSide : s = .linux) : BeforePop s (.recv s.socket io)
  | broadcast (io : FdSet) (chunk : Bytes) (hSide : s = .linux) :
      BeforePop s (.broadcast s.socket io chunk)

inductive AfterPop (s : Side) : Pc → Prop
  | select : AfterPop s .select
  | send (io : FdSet) (decoded : Bytes) : AfterPop s (.send s.socket.opposite io decoded)
  | recv (io : FdSet) (hSide : s = .windows) : AfterPop s (.recv s.socket io)
  | broadcast (io : FdSet) (chunk : Bytes) (hSide : s = .windows) :
      AfterPop s (.broadcast s.socket io chunk)

theorem beforePop_enterClient (s : Side) (io : FdSet) :
    BeforePop s (enterClient (some s.type) io) := by
  cases s with
  | linux =>
    rw [Side.type, enterClient_linux]
    split_ifs
    · exact .recv io rfl
    · exact .getSize io
  | windows => exact .getSize io

theorem afterPop_next (s : Side) (io : FdSet) :
    AfterPop s (next (some s.type) io s.socket.opposite) := by
  cases s with
  | linux => exact .select
  | windows =>
    change AfterPop .windows (next (some .windows) io .client)
    rw [next_windows_client]
    split_ifs
    · exact .recv io rfl
    · exact .select

/-- The read of a turn comes before its pop on the Linux side and after it on the Windows side. -/
theorem read_half (s : Side) (io : FdSet) (chunk : Bytes) :
    (BeforePop s (.recv s.socket io) ∧ BeforePop s (.broadcast s.socket io chunk) ∧
      BeforePop s (next (some s.type) io s.socket)) ∨
    (AfterPop s (.recv s.socket io) ∧ AfterPop s (.broadcast s.socket io chunk) ∧
      AfterPop s (next (some s.type) io s.socket)) := by
  cases s with
  | linux => exact .inl ⟨.recv io rfl, .broadcast io chunk rfl, .getSize io⟩
  | windows => exact .inr ⟨.recv io rfl, .broadcast io chunk rfl, .select⟩

/-- What the turn has popped, by where it stands. -/
structure Turn (s : Side) (session : Session) : Prop where
  before : BeforePop s session.process.pc →
    session.turnPops = [] ∧ session.turnStart <+: session.queue s
  after : AfterPop s session.process.pc →
    session.turnStart ≠ [] → session.turnPops = session.turnStart.take 1

namespace Turn

variable {s : Side} {session session' : Session}

theorem of_before (hPc : BeforePop s session.process.pc)
    (h : session.turnPops = [] ∧ session.turnStart <+: session.queue s) : Turn s session where
  before _ := h
  after hAfter := by
    generalize session.process.pc = pc at hPc hAfter
    cases hPc with
    | getSize => cases hAfter
    | pop => cases hAfter
    | recv _ hLinux =>
      subst hLinux
      cases hAfter with
      | recv _ hWindows => cases hWindows
    | broadcast _ _ hLinux =>
      subst hLinux
      cases hAfter with
      | broadcast _ _ hWindows => cases hWindows

theorem of_after (hPc : AfterPop s session.process.pc)
    (h : session.turnStart ≠ [] → session.turnPops = session.turnStart.take 1) :
    Turn s session where
  before hBefore := by
    generalize session.process.pc = pc at hPc hBefore
    cases hPc with
    | select => cases hBefore
    | send => cases hBefore
    | recv _ hWindows =>
      subst hWindows
      cases hBefore with
      | recv _ hLinux => cases hLinux
    | broadcast _ _ hWindows =>
      subst hWindows
      cases hBefore with
      | broadcast _ _ hLinux => cases hLinux
  after _ := h

theorem move (hTurn : Turn s session) (hStart : session'.turnStart = session.turnStart)
    (hPops : session'.turnPops = session.turnPops) (hQueue : session'.queue s = session.queue s)
    (hPc : BeforePop s session.process.pc ∧ BeforePop s session'.process.pc ∨
      AfterPop s session.process.pc ∧ AfterPop s session'.process.pc) : Turn s session' := by
  rcases hPc with ⟨hOld, hNew⟩ | ⟨hOld, hNew⟩
  · apply of_before hNew
    rw [hStart, hPops, hQueue]
    exact hTurn.before hOld
  · apply of_after hNew
    rw [hStart, hPops]
    exact hTurn.after hOld

theorem of_end (hPc : (∃ sock ret, session.process.pc = .close sock ret) ∨
    (∃ ret, session.process.pc = .returned ret) ∨ session.process.pc = .terminated) :
    Turn s session where
  before hBefore := by
    rcases hPc with ⟨_, _, hPc⟩ | ⟨_, hPc⟩ | hPc <;> rw [hPc] at hBefore <;> cases hBefore
  after hAfter := by
    rcases hPc with ⟨_, _, hPc⟩ | ⟨_, hPc⟩ | hPc <;> rw [hPc] at hAfter <;> cases hAfter

theorem tunnel {a : Action} (hSide : session.process.RunsOn s)
    (hFits : session.process.pc.Fits s) (hTurn : Turn s session)
    (h : session.tunnel s a = some session') : Turn s session' := by
  rw [Session.tunnel, Option.ite_none_right_eq_some] at h
  obtain ⟨-, h⟩ := h
  obtain ⟨process, hMove, rfl⟩ := Option.map_eq_some_iff.mp h
  have hStep := Process.useTunnel_step hMove
  have hType := hSide.serverType
  cases hStep with
  | selectFailed => exact of_end (.inr (.inl ⟨0, rfl⟩))
  | selectReady hPc =>
    rename_i io
    refine of_before ?_ ⟨rfl, List.prefix_refl _⟩
    simpa [hType] using beforePop_enterClient s io
  | queueEmpty hPc hData =>
    rename_i sock io
    rw [hPc] at hFits
    cases hFits
    refine of_after ?_ fun hStart => ?_
    · simpa [hType] using afterPop_next s io
    · have hPrefix := (hTurn.before (hPc ▸ .getSize io)).2
      rw [Session.queue, hData, List.prefix_nil] at hPrefix
      exact absurd hPrefix hStart
  | queueNonempty hPc hData =>
    rename_i sock io
    rw [hPc] at hFits
    cases hFits
    exact hTurn.move rfl rfl rfl (.inl ⟨hPc ▸ .getSize io, .pop io⟩)
  | popped hPc =>
    rename_i sock io
    rw [hPc] at hFits
    cases hFits
    obtain ⟨hPops, hPrefix⟩ := hTurn.before (hPc ▸ .pop io)
    refine of_after (.send io _) fun hStart => ?_
    obtain ⟨x, rest, hCons⟩ := List.exists_cons_of_ne_nil hStart
    obtain ⟨more, hMore⟩ := hPrefix
    simp only at hCons
    rw [hCons] at hMore
    rw [Session.queue] at hMore
    simp [hPops, hCons, ← hMore]
  | sent hPc =>
    rename_i sock io decoded
    rw [hPc] at hFits
    cases hFits
    refine hTurn.move rfl rfl rfl (.inr ⟨hPc ▸ .send io decoded, ?_⟩)
    simpa [hType] using afterPop_next s io
  | recvFailed => exact of_end (.inl ⟨_, _, rfl⟩)
  | recvEnded => exact of_end (.inl ⟨_, _, rfl⟩)
  | forwarded hPc hChunk hForwards =>
    rename_i sock io chunk
    rw [hPc] at hFits
    cases hFits
    refine hTurn.move rfl rfl rfl ?_
    rcases read_half s io chunk with ⟨hRecv, hBroadcast, -⟩ | ⟨hRecv, hBroadcast, -⟩
    · exact .inl ⟨hPc ▸ hRecv, hBroadcast⟩
    · exact .inr ⟨hPc ▸ hRecv, hBroadcast⟩
  | dropped hPc hChunk hForwards =>
    rw [hPc] at hFits
    cases hFits
    rw [hType, (s.forwards_iff s.socket).mpr rfl] at hForwards
    cases hForwards
  | broadcastReturned hPc hReturn =>
    rename_i sock io chunk
    rw [hPc] at hFits
    cases hFits
    refine hTurn.move rfl rfl rfl ?_
    rcases read_half s io chunk with ⟨-, hBroadcast, hNext⟩ | ⟨-, hBroadcast, hNext⟩
    · refine .inl ⟨hPc ▸ hBroadcast, ?_⟩
      simpa [hType] using hNext
    · refine .inr ⟨hPc ▸ hBroadcast, ?_⟩
      simpa [hType] using hNext
  | broadcastThrew => exact of_end (.inr (.inr rfl))
  | closeClient => exact of_end (.inl ⟨_, _, rfl⟩)
  | closeRemote => exact of_end (.inr (.inl ⟨_, rfl⟩))

end Turn

/-! ## Whole runs -/

def poppedOf (es : List Event) : List Bytes :=
  es.flatMap fun | .tunnel a => poppedBy a | _ => []

theorem poppedOf_concat (es : List Event) (e : Event) :
    poppedOf (es ++ [e]) = poppedOf es ++ match e with | .tunnel a => poppedBy a | _ => [] := by
  simp [poppedOf]

structure Keeps (s : Side) (first : Session) (es : List Event) (session : Session) : Prop where
  side : session.process.RunsOn s
  fits : session.process.pc.Fits s
  turn : Turn s session
  pending : session.process.Pending s
  order : first.queue s ++ session.arrived = poppedOf es ++ session.queue s
  unread : first.readable.isSet s.socket.opposite = true ∨ .arrive s.socket.opposite ∈ es →
    session.readable.isSet s.socket.opposite = true

namespace Keeps

variable {s : Side} {first session session' : Session} {es : List Event}

theorem tunnel {a : Action} (h : Keeps s first es session)
    (hStep : session.tunnel s a = some session') :
    Keeps s first (es ++ [.tunnel a]) session' := by
  have hTurn := Turn.tunnel h.side h.fits h.turn hStep
  rw [Session.tunnel, Option.ite_none_right_eq_some] at hStep
  obtain ⟨-, hStep⟩ := hStep
  obtain ⟨process, hMove, rfl⟩ := Option.map_eq_some_iff.mp hStep
  have hMove := Process.useTunnel_step hMove
  have hQueue := hMove.queue_eq h.fits h.pending
  have hFits := h.fits
  have hUnread : first.readable.isSet s.socket.opposite = true ∨
      Event.arrive s.socket.opposite ∈ es ++ [.tunnel a] →
      session.readable.isSet s.socket.opposite = true := by
    intro hBefore
    exact h.unread (by simpa using hBefore)
  have hOrder : first.queue s ++ session.arrived =
      poppedOf (es ++ [.tunnel a]) ++ process.queues.data s.socket.opposite := by
    rw [h.order, poppedOf_concat, Session.queue, hQueue, List.append_assoc]
  have hSide : process.RunsOn s := by
    rw [Memory.RunsOn, hMove.server_eq]
    exact h.side
  constructor
  · cases a <;> exact hSide
  · cases a <;> exact hMove.fits h.side.serverType h.fits
  · exact hTurn
  · cases a <;> exact hMove.pending s
  · cases a <;> exact hOrder
  · cases a with
    | recv sock result =>
      intro hBefore
      have hSock : sock = s.socket := by
        cases hMove with
        | recvFailed hPc => rw [hPc] at hFits; cases hFits; rfl
        | recvEnded hPc => rw [hPc] at hFits; cases hFits; rfl
        | forwarded hPc => rw [hPc] at hFits; cases hFits; rfl
        | dropped hPc => rw [hPc] at hFits; cases hFits; rfl
      have hOpposite : s.socket.opposite ≠ sock := by
        rw [hSock]
        cases s <;> decide
      simpa [hOpposite] using hUnread hBefore
    | _ => exact hUnread

theorem arrive {sock : Socket} (h : Keeps s first es session) :
    Keeps s first (es ++ [.arrive sock])
      { session with readable := setReadable session.readable true sock } where
  side := h.side
  fits := h.fits
  turn := ⟨h.turn.before, h.turn.after⟩
  pending := h.pending
  order := by
    rw [poppedOf_concat, List.append_nil]
    exact h.order
  unread hBefore := by
    rw [isSet_setReadable]
    split_ifs with hSock
    · rfl
    · exact h.unread (by simpa [hSock] using hBefore)

theorem connections {conns : List ConnectionHdl} {endpoint : Endpoint}
    (h : Keeps s first es session) :
    Keeps s first (es ++ [.connections conns endpoint]) { session with
      process := { session.process with
        server := session.process.server.map ({ · with openConnections := conns })
        endpoint := endpoint } } := by
  obtain ⟨server, hServer, hType⟩ := h.side
  constructor
  · exact ⟨{ server with openConnections := conns }, by simp [hServer, Server.setCallbacks], hType⟩
  · exact h.fits
  · exact ⟨h.turn.before, h.turn.after⟩
  · exact h.pending
  · rw [poppedOf_concat, List.append_nil]
    exact h.order
  · intro hBefore
    exact h.unread (by simpa using hBefore)

theorem deliver {D : Type} {doubles : Doubles D} {conn : ConnectionHdl} {payload : StdString}
    (h : Keeps s first es session)
    (hStep : session.step doubles s (.deliver conn payload) = some session') :
    Keeps s first (es ++ [.deliver conn payload]) session' := by
  obtain ⟨process, hDeliver, rfl⟩ := Option.map_eq_some_iff.mp hStep
  -- the queue has grown at its end
  obtain ⟨hSide, ⟨pushed, hGrown⟩, hPc⟩ := Process.deliver_eq_some h.side hDeliver
  have hQueue : process.queues.data s.socket.opposite = session.queue s ++ pushed := hGrown
  have hUnread : first.readable.isSet s.socket.opposite = true ∨
      Event.arrive s.socket.opposite ∈ es ++ [.deliver conn payload] →
      session.readable.isSet s.socket.opposite = true := by
    intro hBefore
    exact h.unread (by simpa using hBefore)
  have hOrder : first.queue s ++ (session.arrived ++
      (process.queues.data s.socket.opposite).drop (session.queue s).length) =
      poppedOf (es ++ [.deliver conn payload]) ++ process.queues.data s.socket.opposite := by
    rw [hQueue, List.drop_left, ← List.append_assoc, h.order]
    simp [poppedOf_concat]
  rcases hPc with hPc | hEnd
  · refine ⟨hSide, hPc ▸ h.fits, ⟨fun hBefore => ?_, fun hAfter => ?_⟩, ?_, hOrder, hUnread⟩
    · obtain ⟨hPops, hPrefix⟩ := h.turn.before (hPc ▸ hBefore)
      refine ⟨hPops, hPrefix.trans ?_⟩
      simp only [Session.queue] at hQueue ⊢
      exact ⟨pushed, hQueue.symm⟩
    · exact h.turn.after (hPc ▸ hAfter)
    · intro io hPop
      rw [hQueue]
      exact List.append_ne_nil_of_left_ne_nil (h.pending io (hPc ▸ hPop)) pushed
  · refine ⟨hSide, ?_, .of_end (.inr (.inr hEnd)), ?_, hOrder, hUnread⟩
    · simpa [hEnd] using Pc.Fits.terminated
    · intro io hPop
      cases hEnd.symm.trans hPop

end Keeps

theorem keeps_run {D : Type} {doubles : Doubles D} {s : Side} {server : Server}
    {queues : Queues} {endpoint : Endpoint} {readable : FdSet} {es : List Event} {session : Session}
    (h : (machine doubles s).run (start s server queues endpoint readable) es = some session) :
    Keeps s (start s server queues endpoint readable) es session := by
  refine (machine doubles s).run_history
    (P := Keeps s (start s server queues endpoint readable)) ?_ ?_ h
  · refine ⟨⟨{ server with type := s.type }, rfl, rfl⟩, .select, ?_, ?_, ?_, ?_⟩
    · exact .of_after .select fun hStart => absurd rfl hStart
    · intro io hPop
      cases hPop
    · simp [start, poppedOf, Session.queue]
    · simp
  · intro es session e session' _ hKeeps hStep
    cases e with
    | tunnel a => exact hKeeps.tunnel hStep
    | arrive sock =>
      obtain rfl := Option.some.inj hStep
      exact hKeeps.arrive
    | deliver conn payload => exact hKeeps.deliver hStep
    | connections conns endpoint =>
      obtain rfl := Option.some.inj hStep
      exact hKeeps.connections

/-! ## While nothing arrives -/

/-- Not what wakes the thread: bytes on a socket, or a `select` that fails. -/
def Event.Silent : Event → Prop
  | .arrive _ | .tunnel (.select none) => False
  | _ => True

/-- The thread is where it was blocked, or its process was ended by an exception, and what was
queued is queued. -/
structure Asleep (s : Side) (blocked session : Session) : Prop where
  side : session.process.RunsOn s
  thread : session.Blocked ∨ session.process.pc = .terminated
  queue : blocked.queue s <+: session.queue s

theorem Asleep.no_call {s : Side} {blocked session session' : Session} {a : Action}
    (h : Asleep s blocked session) (hSilent : (Event.tunnel a).Silent) :
    session.tunnel s a ≠ some session' := by
  intro hStep
  rw [Session.tunnel, Option.ite_none_right_eq_some] at hStep
  obtain ⟨hReturn, hStep⟩ := hStep
  obtain ⟨process, hMove, -⟩ := Option.map_eq_some_iff.mp hStep
  have hMove := Process.useTunnel_step hMove
  rcases h.thread with ⟨hPc, hNone⟩ | hEnd
  · cases hMove with
    | selectFailed => exact hSilent
    | selectReady =>
      rename_i io _
      simp only [canReturn, Bool.and_eq_true, beq_iff_eq, Bool.or_eq_true] at hReturn
      obtain ⟨rfl, hClient | hRemote⟩ := hReturn
      · cases (hNone .client).symm.trans hClient
      · cases (hNone .remote).symm.trans hRemote
    | _ => simp_all
  · cases hMove <;> simp_all

theorem Asleep.step {D : Type} {doubles : Doubles D} {s : Side} {blocked session session' : Session}
    {e : Event} (h : Asleep s blocked session) (hSilent : e.Silent)
    (hStep : session.step doubles s e = some session') :
    (∀ a, e ≠ .tunnel a) ∧ Asleep s blocked session' := by
  cases e with
  | tunnel a => exact absurd hStep (h.no_call hSilent)
  | arrive sock => exact hSilent.elim
  | deliver conn payload =>
    refine ⟨fun a hTunnel => (by cases hTunnel), ?_⟩
    obtain ⟨process, hDeliver, rfl⟩ := Option.map_eq_some_iff.mp hStep
    obtain ⟨hSide, ⟨pushed, hGrown⟩, hPc⟩ := Process.deliver_eq_some h.side hDeliver
    refine ⟨hSide, ?_, h.queue.trans ⟨pushed, hGrown.symm⟩⟩
    rcases hPc with hPc | hEnd
    · exact h.thread.imp (fun hBlocked => ⟨hPc.trans hBlocked.1, hBlocked.2⟩) hPc.trans
    · exact .inr hEnd
  | connections conns endpoint =>
    refine ⟨fun a hTunnel => (by cases hTunnel), ?_⟩
    obtain rfl := Option.some.inj hStep
    obtain ⟨server, hServer, hType⟩ := h.side
    exact ⟨⟨{ server with openConnections := conns }, by simp [hServer, Server.setCallbacks],
      hType⟩, h.thread, h.queue⟩

/-- Until bytes arrive on one of its sockets, or its `select` fails, a blocked thread makes no
call. -/
theorem asleep_of_run {D : Type} {doubles : Doubles D} {s : Side} {blocked session : Session}
    {es : List Event} (hSide : blocked.process.RunsOn s) (hBlocked : blocked.Blocked)
    (hSilent : ∀ e ∈ es, e.Silent) (h : (machine doubles s).run blocked es = some session) :
    (∀ a, .tunnel a ∉ es) ∧ Asleep s blocked session := by
  refine (machine doubles s).run_history
    (P := fun es session => (∀ e ∈ es, e.Silent) →
      (∀ a, .tunnel a ∉ es) ∧ Asleep s blocked session) ?start ?step h hSilent
  case start =>
    exact fun _ => ⟨fun _ => List.not_mem_nil, hSide, .inl hBlocked, List.prefix_refl _⟩
  case step =>
    intro es session e session' _ hAsleep hStep hAll
    obtain ⟨hBefore, hNow⟩ := List.forall_mem_append.mp hAll
    obtain ⟨hNoCall, hAsleep⟩ := hAsleep hBefore
    obtain ⟨hOther, hNext⟩ := hAsleep.step (hNow e (List.mem_singleton_self e)) hStep
    refine ⟨fun a hMem => ?_, hNext⟩
    rcases List.mem_append.mp hMem with hMem | hMem
    · exact hNoCall a hMem
    · exact hOther a (List.mem_singleton.mp hMem).symm

/-- Payloads keep their order and none is lost; a turn that begins with one pending pops exactly
the oldest; once the socket that a side does not read has become readable, its thread is not
blocked again; and before that, a blocked thread makes no call, and what is pushed waits, until one
of its sockets becomes readable or `select` fails. -/
theorem pending_payloads {D : Type} {doubles : Doubles D} {s : Side} {server : Server}
    {queues : Queues} {endpoint : Endpoint} {readable : FdSet} {es : List Event} {session : Session}
    (h : (machine doubles s).run (start s server queues endpoint readable) es = some session) :
    queues.data s.socket.opposite ++ session.arrived = poppedOf es ++ session.queue s ∧
      (session.process.pc = .select → session.turnStart ≠ [] →
        session.turnPops = session.turnStart.take 1) ∧
      (readable.isSet s.socket.opposite = true ∨ .arrive s.socket.opposite ∈ es →
        session.ReadyWhenPending s ∧ ¬ session.Blocked) ∧
      (session.Blocked → ∀ later session', (machine doubles s).run session later = some session' →
        (∀ e ∈ later, e.Silent) → (∀ a, .tunnel a ∉ later) ∧
          (session'.Blocked ∨ session'.process.pc = .terminated) ∧
          session.queue s <+: session'.queue s) := by
  have hKeeps := keeps_run h
  refine ⟨hKeeps.order, fun hPc => hKeeps.turn.after (hPc ▸ .select), fun hUnread => ?_,
    fun hBlocked later session' hLater hSilent => ?_⟩
  · have hReady := hKeeps.unread hUnread
    refine ⟨fun _ _ => ⟨_, hReady⟩, fun hBlocked => ?_⟩
    cases hReady.symm.trans (hBlocked.2 s.socket.opposite)
  · obtain ⟨hNoCall, hAsleep⟩ := asleep_of_run hKeeps.side hBlocked hSilent hLater
    exact ⟨hNoCall, hAsleep.thread, hAsleep.queue⟩

/-- A payload is pushed, and nothing arrives. -/
def stalledRun : List Event := [.deliver 0 ⟨frame .bare (bytes "aGk="), .none⟩]

/-- The same, with bytes on the socket that the side does not read. -/
def exampleRun : List Event :=
  .arrive .client :: stalledRun ++
    [.tunnel (.select (some ⟨true, false⟩)), .tunnel (.getSize .client 1),
      .tunnel (.pop .client (bytes "hi")), .tunnel (.send .remote (bytes "hi"))]

def exampleStart : Session := start .windows { type := .windows } {} .empty ⟨false, false⟩

theorem pending_payloads_exampleRun :
    (∃ session, (machine Doubles.absent .windows).run exampleStart exampleRun = some session ∧
      ([] : List Bytes) ++ session.arrived = poppedOf exampleRun ++ session.queue .windows ∧
      (session.process.pc = .select → session.turnStart ≠ [] →
        session.turnPops = session.turnStart.take 1) ∧
      ((⟨false, false⟩ : FdSet).isSet .client = true ∨ .arrive .client ∈ exampleRun →
        session.ReadyWhenPending .windows ∧ ¬ session.Blocked)) ∧
      ∃ session, (machine Doubles.absent .windows).run exampleStart stalledRun = some session ∧
        session.Blocked ∧ session.queue .windows = [bytes "hi"] ∧
        ∀ later session', (machine Doubles.absent .windows).run session later = some session' →
          (∀ e ∈ later, e.Silent) → (∀ a, .tunnel a ∉ later) ∧
            (session'.Blocked ∨ session'.process.pc = .terminated) ∧
            session.queue .windows <+: session'.queue .windows := by
  have hSome : ((machine Doubles.absent .windows).run exampleStart exampleRun).isSome := by
    decide +kernel
  have hStalled : ((machine Doubles.absent .windows).run exampleStart stalledRun).map
      (fun session => (session.process.pc, session.readable, session.queue .windows)) =
      some (.select, ⟨false, false⟩, [bytes "hi"]) := by
    decide +kernel
  obtain ⟨session, hRun⟩ := Option.isSome_iff_exists.mp hSome
  obtain ⟨stalled, hStalledRun, hSession⟩ := Option.map_eq_some_iff.mp hStalled
  simp only [Prod.mk.injEq] at hSession
  obtain ⟨hPc, hReadable, hQueue⟩ := hSession
  have hBlocked : stalled.Blocked := ⟨hPc, fun sock => by rw [hReadable]; cases sock <;> rfl⟩
  obtain ⟨hOrder, hTurn, hReady, -⟩ := pending_payloads hRun
  obtain ⟨-, -, -, hWaits⟩ := pending_payloads hStalledRun
  exact ⟨⟨session, hRun, hOrder, hTurn, hReady⟩,
    ⟨stalled, hStalledRun, hBlocked, hQueue, hWaits hBlocked⟩⟩

theorem not_readyWhenPending :
    (¬ ∀ es session, (machine Doubles.absent .linux).run
        (start .linux { type := .linux } {} .empty ⟨false, false⟩) es = some session →
      session.ReadyWhenPending .linux) ∧
    ¬ ∀ es session, (machine Doubles.absent .windows).run
        (start .windows { type := .windows } {} .empty ⟨false, false⟩) es = some session →
      session.ReadyWhenPending .windows := by
  have hPushed : ∀ s : Side, ((machine Doubles.absent s).run
      (start s { type := s.type } {} .empty ⟨false, false⟩)
      [.deliver 0 ⟨frame .bare (bytes "aGk="), .none⟩]).map
        (fun session => (session.queue s, session.process.pc, session.readable)) =
      some ([bytes "hi"], .select, ⟨false, false⟩) := by
    intro s
    cases s <;> decide +kernel
  have hFails : ∀ s : Side, ¬ ∀ es session, (machine Doubles.absent s).run
      (start s { type := s.type } {} .empty ⟨false, false⟩) es = some session →
        session.ReadyWhenPending s := by
    intro s hAll
    obtain ⟨session, hRun, hSession⟩ := Option.map_eq_some_iff.mp (hPushed s)
    simp only [Prod.mk.injEq] at hSession
    obtain ⟨hQueue, hPc, hReadable⟩ := hSession
    obtain ⟨sock, hSock⟩ := hAll _ _ hRun (by simp [hQueue]) hPc
    rw [hReadable] at hSock
    cases sock <;> cases hSock
  exact ⟨hFails .linux, hFails .windows⟩

end ScRedirection.TcpTunnel.Waiting
