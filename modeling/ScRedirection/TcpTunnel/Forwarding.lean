import ScRedirection.Library.EventMachine
import ScRedirection.TcpTunnel.BinData
import ScRedirection.WebsocketServer.Lifecycle

/-! # Chunks read and not forwarded

A session with any server or none, while connections open and close. The bytes a `recv` returns
leave the process only through a broadcast, since the two `send` calls that followed are commented
out; so a chunk can be gone while the session goes on. The list is locked for the whole of a
broadcast, which is one step here: a connection that closes in the middle of it makes it throw, as
one that closed before does.
-/

namespace ScRedirection.TcpTunnel.Forwarding

open Json Websocketpp WebsocketServer

/-- `unforwarded` is set when a chunk is read and cleared when an open connection has it queued;
`skipped` is set when another chunk is read before that. -/
structure Session where
  process : Process
  unforwarded : Bool := false
  skipped : Bool := false

inductive Event
  | tunnel (a : Action)
  | life (e : LifeEvent)
  | queues (queues : Queues)

/-- One of the connections was open and has the text queued. -/
def carried (endpoint endpoint' : Endpoint) (conns : List ConnectionHdl) (text : Bytes) : Bool :=
  conns.any fun conn =>
    match endpoint.connections conn, endpoint'.connections conn with
    | some con, some con' =>
      con.state == .open && con'.sendQueue == con.sendQueue ++ [text]
    | _, _ => false

namespace Session

def tunnel (session : Session) (a : Action) : Option Session :=
  (session.process.useTunnel a).map fun process =>
    match a with
    | .recv _ (some (_ :: _)) =>
      { process := process, unforwarded := true
        skipped := session.skipped || session.unforwarded }
    | .broadcast chunk true =>
      { session with
        process := process
        unforwarded := session.unforwarded && !carried session.process.endpoint process.endpoint
          session.process.openConnections (broadcastText chunk) }
    | _ => { session with process := process }

def life (session : Session) (e : LifeEvent) : Option Session := do
  let server ← session.process.server
  let (server, endpoint) ← lifeStep server session.process.endpoint e
  return { session with process :=
    { session.process with server := some server, endpoint := endpoint } }

/-- An exception that escapes ends the process, network thread and all. -/
def step (session : Session) (e : Event) : Option Session :=
  if session.process.pc = .terminated then none
  else match e with
    | .tunnel a => session.tunnel a
    | .life e => session.life e
    | .queues queues => some { session with process := { session.process with queues := queues } }

end Session

def machine : EventMachine Session Event := ⟨Session.step⟩

def start (server : Option Server) (queues : Queues) : Session where
  process :=
    { server := server.map ({ · with openConnections := [] })
      queues := queues
      endpoint := .empty
      pc := .select }

/-- Where a chunk may be unforwarded without a gap: the thread has it in hand, or the session is
over, or makes the read that may yet end it. -/
inductive Keeping (server : Option ServerType) : Pc → Prop
  | broadcast (sock : Socket) (io : FdSet) (chunk : Bytes) :
    Keeping server (.broadcast sock io chunk)
  | recv (io : FdSet) (hForwards : forwards server .remote = false) :
      Keeping server (.recv .remote io)
  | close (sock : Socket) (ret : Nat) : Keeping server (.close sock ret)
  | returned (ret : Nat) : Keeping server (.returned ret)
  | terminated : Keeping server .terminated

structure NoGap (session : Session) : Prop where
  skipped : session.skipped = false
  keeping : session.unforwarded = true →
    Keeping session.process.serverType session.process.pc

/-- What each step must meet: a chunk is read from the socket whose chunks are broadcast, or from
`client_socket` in a turn that also reads `remote_socket`; and a broadcast has listeners. -/
def Condition (session : Session) : Event → Prop
  | .tunnel (.recv sock (some (_ :: _))) =>
    forwards session.process.serverType sock = true ∨
      ∃ io, session.process.pc = .recv .client io ∧ io.remote = true
  | .tunnel (.broadcast _ _) => session.process.openConnections ≠ []
  | _ => True

/-- What holds of every session reached, gap or not. -/
structure Sound (session : Session) : Prop where
  listed : session.process.pc ≠ .terminated → ∀ server, session.process.server = some server →
    Listed server session.process.endpoint
  fits : ∀ s : Side, session.process.serverType = some s.type → session.process.pc.Fits s
  held : ∀ sock io chunk, session.process.pc = .broadcast sock io chunk →
    session.unforwarded = true ∧ forwards session.process.serverType sock = true

theorem Sound.nodup {session : Session} (h : Sound session)
    (hAlive : session.process.pc ≠ .terminated) : session.process.openConnections.Nodup := by
  rw [Memory.openConnections]
  cases hServer : session.process.server with
  | none => exact List.nodup_nil
  | some server => exact (h.listed hAlive server hServer).nodup

theorem openConnections_ne_nil_of_threw {p : Process} {chunk : Bytes} {exn : Exn}
    (h : (p.broadcast chunk).1 = .error exn) : p.openConnections ≠ [] := by
  intro hNobody
  rw [Memory.broadcast, hNobody] at h
  cases h

theorem carried_iff {p : Process} {chunk : Bytes} (hNodup : p.openConnections.Nodup)
    (hReturn : (p.broadcast chunk).1 = .ok ()) :
    carried p.endpoint (p.broadcast chunk).2 p.openConnections (broadcastText chunk) = true ↔
      p.openConnections ≠ [] := by
  obtain ⟨hOpen, hEndpoint⟩ := (Memory.broadcast_eq_ok hNodup).mp
    (Prod.ext hReturn rfl : p.broadcast chunk = (.ok (), (p.broadcast chunk).2))
  rw [hEndpoint, carried, List.any_eq_true]
  constructor
  · rintro ⟨conn, hConn, -⟩
    exact List.ne_nil_of_mem hConn
  · intro hNe
    obtain ⟨conn, hConn⟩ := List.exists_mem_of_ne_nil _ hNe
    obtain ⟨con, hCon, hState⟩ := Endpoint.isOpen_iff.mp (hOpen conn hConn)
    refine ⟨conn, hConn, ?_⟩
    simp [hConn, hCon, hState, Connection.writePush]

theorem Sound.tunnel {session session' : Session} {a : Action} (h : Sound session)
    (hAlive : session.process.pc ≠ .terminated) (hStep : session.tunnel a = some session') :
    Sound session' := by
  obtain ⟨process, hMove, rfl⟩ := Option.map_eq_some_iff.mp hStep
  have hMove := Process.useTunnel_step hMove
  have hType : process.serverType = session.process.serverType := by
    rw [Memory.serverType, Memory.serverType, hMove.server_eq]
  have hListed : process.pc ≠ .terminated → ∀ server, process.server = some server →
      Listed server process.endpoint := by
    intro hEnd server hServer
    rw [hMove.server_eq] at hServer
    have hOld := h.listed hAlive server hServer
    cases hMove with
    | broadcastReturned hPc hReturn =>
      obtain ⟨-, hEndpoint⟩ := (Memory.broadcast_eq_ok (h.nodup hAlive)).mp
        (Prod.ext hReturn rfl : session.process.broadcast _ = (.ok (), _))
      simp only [hEndpoint]
      exact hOld.enqueue _ _
    | broadcastThrew => exact absurd rfl hEnd
    | _ => exact hOld
  have hFits : ∀ s : Side, process.serverType = some s.type → process.pc.Fits s := by
    intro s hSide
    rw [hType] at hSide
    exact hMove.fits hSide (h.fits s hSide)
  have hHeld : ∀ sock io chunk, process.pc = .broadcast sock io chunk →
      (∃ x xs, a = .recv sock (some (x :: xs))) ∧ forwards process.serverType sock = true := by
    intro sock io chunk hPc
    obtain ⟨rfl, hChunk, hForwards⟩ := hMove.read_of_broadcast hPc
    obtain ⟨x, xs, rfl⟩ := List.exists_cons_of_ne_nil hChunk
    rw [hType]
    exact ⟨⟨x, xs, rfl⟩, hForwards⟩
  split
  · refine ⟨hListed, hFits, fun sock io chunk hPc => ⟨rfl, (hHeld sock io chunk hPc).2⟩⟩
  · refine ⟨hListed, hFits, fun sock io chunk hPc => ?_⟩
    obtain ⟨⟨x, xs, hRecv⟩, -⟩ := hHeld sock io chunk hPc
    cases hRecv
  · rename_i hRecv _
    refine ⟨hListed, hFits, fun sock io chunk hPc => ?_⟩
    obtain ⟨⟨x, xs, rfl⟩, -⟩ := hHeld sock io chunk hPc
    exact absurd rfl (hRecv sock x xs)

theorem Sound.step {session session' : Session} {e : Event} (h : Sound session)
    (hStep : session.step e = some session') : Sound session' := by
  unfold Session.step at hStep
  split_ifs at hStep with hAlive
  cases e with
  | tunnel a => exact h.tunnel hAlive hStep
  | life e =>
    simp only [Session.life, Option.bind_eq_bind, Option.bind_eq_some_iff, Option.pure_def,
      Option.some.injEq, Prod.exists] at hStep
    obtain ⟨server, hServer, server', endpoint', hLife, rfl⟩ := hStep
    have hType := lifeStep_type hLife
    refine ⟨fun _ _ hSome => ?_, fun s hSide => h.fits s ?_, fun sock io chunk hPc => ?_⟩
    · cases hSome
      exact (h.listed hAlive server hServer).lifeStep hLife
    · rw [← hSide]
      simp [Memory.serverType, hServer, hType]
    · obtain ⟨hUnforwarded, hForwards⟩ := h.held sock io chunk hPc
      refine ⟨hUnforwarded, ?_⟩
      rw [← hForwards]
      simp [Memory.serverType, hServer, hType]
  | queues queues =>
    obtain rfl := Option.some.inj hStep
    exact ⟨h.listed, h.fits, h.held⟩

/-! ## Exactly when a step opens a gap -/

section Exact

variable {session session' : Session}

theorem NoGap.forwarded (h : NoGap session)
    (hPc : ¬ Keeping session.process.serverType session.process.pc) :
    session.unforwarded = false := by
  cases hUnforwarded : session.unforwarded with
  | false => rfl
  | true => exact absurd (h.keeping hUnforwarded) hPc

theorem NoGap.of_forwarded (h : NoGap session) {process : Process}
    (hForwarded : session.unforwarded = false) :
    NoGap { session with process := process } where
  skipped := h.skipped
  keeping hUnforwarded := by cases hForwarded.symm.trans hUnforwarded

theorem unsided {server : Option ServerType} (h : ∀ s : Side, server ≠ some s.type)
    (sock : Socket) : drains server sock = false ∧ forwards server sock = false := by
  cases server with
  | none => exact ⟨rfl, rfl⟩
  | some type =>
    cases type with
    | unknown => cases sock <;> exact ⟨rfl, rfl⟩
    | windows => exact absurd rfl (h .windows)
    | linux => exact absurd rfl (h .linux)

/-- Where a chunk is dropped there is no side, and the turn goes on to read the other socket or
is over. -/
theorem keeping_next_iff {server : Option ServerType} (h : ∀ s : Side, server ≠ some s.type)
    (sock : Socket) (io : FdSet) :
    Keeping server (next server io sock) ↔ sock = .client ∧ io.remote = true := by
  cases sock with
  | remote =>
    refine iff_of_false ?_ (by simp)
    rw [next_remote]
    rintro ⟨⟩
  | client =>
    rw [next, enterRemote, (unsided h .remote).1]
    cases hRemote : io.remote with
    | true => exact iff_of_true (.recv io (unsided h .remote).2) ⟨rfl, rfl⟩
    | false =>
      refine iff_of_false ?_ (by simp)
      rintro ⟨⟩

theorem not_keeping_next (s : Side) (io : FdSet) :
    ¬ Keeping (some s.type) (next (some s.type) io s.socket) := by
  cases s with
  | linux =>
    change ¬ Keeping _ (.getSize .remote io)
    rintro ⟨⟩
  | windows =>
    change ¬ Keeping _ .select
    rintro ⟨⟩

theorem noGap_dropped_iff {sock : Socket} {io : FdSet} {process : Process} (x : UInt8) (xs : Bytes)
    (hSound : Sound session) (hGap : NoGap session) (hPc : session.process.pc = .recv sock io)
    (hForwards : forwards session.process.serverType sock = false)
    (hType : process.serverType = session.process.serverType)
    (hNext : process.pc = next session.process.serverType io sock) :
    NoGap { process := process, unforwarded := true,
            skipped := session.skipped || session.unforwarded } ↔
      Condition session (.tunnel (.recv sock (some (x :: xs)))) := by
  have hUnsided : ∀ s : Side, session.process.serverType ≠ some s.type := by
    intro s hSide
    have hFits := hSound.fits s hSide
    rw [hPc] at hFits
    cases hFits
    rw [hSide, (s.forwards_iff s.socket).mpr rfl] at hForwards
    cases hForwards
  have hCondition : Condition session (.tunnel (.recv sock (some (x :: xs)))) ↔
      sock = .client ∧ io.remote = true := by
    simp only [Condition, hForwards, hPc, Pc.recv.injEq, Bool.false_eq_true, false_or]
    exact ⟨fun ⟨_, ⟨hSock, hIo⟩, hRemote⟩ => ⟨hSock, hIo ▸ hRemote⟩,
      fun ⟨hSock, hRemote⟩ => ⟨io, ⟨hSock, rfl⟩, hRemote⟩⟩
  rw [hCondition, ← keeping_next_iff hUnsided, ← hNext, ← hType]
  constructor
  · intro hNoGap
    exact hNoGap.keeping rfl
  · intro hKeeping
    refine ⟨?_, fun _ => hKeeping⟩
    rw [hType, hNext] at hKeeping
    have hForwarded : session.unforwarded = false := by
      apply hGap.forwarded
      rw [hPc, ((keeping_next_iff hUnsided sock io).mp hKeeping).1]
      rintro ⟨⟩
    simp [hGap.skipped, hForwarded]

theorem noGap_broadcast_iff {sock : Socket} {io : FdSet} {chunk : Bytes} {process : Process}
    {returned : Bool} (hSound : Sound session) (hAlive : session.process.pc ≠ .terminated)
    (hGap : NoGap session) (hPc : session.process.pc = .broadcast sock io chunk)
    (hReturn : (session.process.broadcast chunk).1 = .ok ())
    (hType : process.serverType = session.process.serverType)
    (hEndpoint : process.endpoint = (session.process.broadcast chunk).2)
    (hNext : process.pc = next session.process.serverType io sock) :
    NoGap { session with
        process := process
        unforwarded := session.unforwarded && !carried session.process.endpoint process.endpoint
          session.process.openConnections (broadcastText chunk) } ↔
      Condition session (.tunnel (.broadcast chunk returned)) := by
  obtain ⟨hUnforwarded, hForwards⟩ := hSound.held sock io chunk hPc
  obtain ⟨s, hSide, rfl⟩ := forwards_side hForwards
  rw [Condition, ← carried_iff (hSound.nodup hAlive) hReturn, ← hEndpoint]
  constructor
  · intro hNoGap
    by_contra hNot
    rw [Bool.not_eq_true] at hNot
    have hKeeping := hNoGap.keeping (by simp [hUnforwarded, hNot])
    simp only [hType, hNext, hSide] at hKeeping
    exact not_keeping_next s io hKeeping
  · intro hIs
    refine ⟨hGap.skipped, fun hStill => ?_⟩
    simp [hIs] at hStill

theorem noGap_tunnel_iff {a : Action} (hSound : Sound session)
    (hAlive : session.process.pc ≠ .terminated) (hGap : NoGap session)
    (hStep : session.tunnel a = some session') :
    NoGap session' ↔ Condition session (.tunnel a) := by
  obtain ⟨process, hMove, rfl⟩ := Option.map_eq_some_iff.mp hStep
  cases Process.useTunnel_step hMove with
  | selectFailed hPc | selectReady hPc | queueEmpty hPc | queueNonempty hPc | popped hPc
  | sent hPc =>
    have hForwarded := hGap.forwarded (by rw [hPc]; rintro ⟨⟩)
    exact iff_of_true (hGap.of_forwarded hForwarded) trivial
  | recvFailed => exact iff_of_true ⟨hGap.skipped, fun _ => .close _ _⟩ trivial
  | recvEnded => exact iff_of_true ⟨hGap.skipped, fun _ => .close _ _⟩ trivial
  | broadcastThrew hPc hThrow =>
    exact iff_of_true ⟨hGap.skipped, fun _ => .terminated⟩ (openConnections_ne_nil_of_threw hThrow)
  | closeClient => exact iff_of_true ⟨hGap.skipped, fun _ => .close _ _⟩ trivial
  | closeRemote => exact iff_of_true ⟨hGap.skipped, fun _ => .returned _⟩ trivial
  | forwarded hPc hChunk hForwards =>
    rename_i sock io chunk
    obtain ⟨x, xs, rfl⟩ := List.exists_cons_of_ne_nil hChunk
    have hForwarded : session.unforwarded = false := by
      apply hGap.forwarded
      rw [hPc]
      rintro ⟨⟩
      rename_i hNot
      cases hNot.symm.trans hForwards
    refine iff_of_true ⟨?_, fun _ => .broadcast _ _ _⟩ (.inl hForwards)
    simp [hGap.skipped, hForwarded]
  | dropped hPc hChunk hForwards =>
    obtain ⟨x, xs, rfl⟩ := List.exists_cons_of_ne_nil hChunk
    exact noGap_dropped_iff x xs hSound hGap hPc hForwards rfl rfl
  | broadcastReturned hPc hReturn =>
    exact noGap_broadcast_iff hSound hAlive hGap hPc hReturn rfl rfl rfl

theorem noGap_step_iff {e : Event} (hSound : Sound session) (hGap : NoGap session)
    (hStep : session.step e = some session') : NoGap session' ↔ Condition session e := by
  unfold Session.step at hStep
  split_ifs at hStep with hAlive
  cases e with
  | tunnel a => exact noGap_tunnel_iff hSound hAlive hGap hStep
  | life e =>
    simp only [Session.life, Option.bind_eq_bind, Option.bind_eq_some_iff, Option.pure_def,
      Option.some.injEq, Prod.exists] at hStep
    obtain ⟨server, hServer, server', endpoint', hLife, rfl⟩ := hStep
    refine iff_of_true ⟨hGap.skipped, fun hUnforwarded => ?_⟩ trivial
    have hKeeping := hGap.keeping hUnforwarded
    rw [Memory.serverType, hServer] at hKeeping
    simpa [Memory.serverType, lifeStep_type hLife] using hKeeping
  | queues queues =>
    obtain rfl := Option.some.inj hStep
    exact iff_of_true ⟨hGap.skipped, hGap.keeping⟩ trivial

end Exact

/-- In every configuration, a run leaves no gap in the forwarded stream exactly when every chunk
it reads has somewhere to go. -/
theorem noGap_throughout_iff (server : Option Server) (queues : Queues) (es : List Event) :
    machine.Throughout NoGap (start server queues) es ↔
      machine.StepsMeet Condition (start server queues) es := by
  refine machine.throughout_iff_stepsMeet (I := Sound)
    (fun _ _ _ hSound _ _ hStep => hSound.step hStep)
    (fun _ _ _ hSound hGap hStep => noGap_step_iff hSound hGap hStep) ?_ ?_
  · refine ⟨fun _ server' hServer => ?_, fun _ _ => .select, fun _ _ _ hPc => by cases hPc⟩
    obtain ⟨old, -, rfl⟩ := Option.map_eq_some_iff.mp hServer
    exact ⟨List.nodup_nil, fun conn hConn => absurd hConn List.not_mem_nil⟩
  · exact ⟨rfl, fun hUnforwarded => by cases hUnforwarded⟩

theorem gap_without_connections :
    ¬ ∀ es, machine.Throughout NoGap (start (some { type := .linux }) {}) es := by
  intro hAll
  have hRun : (machine.run (start (some { type := .linux }) {})
      [.tunnel (.select (some ⟨true, false⟩)), .tunnel (.recv .client (some (bytes "hi"))),
        .tunnel (.broadcast (bytes "hi") true), .tunnel (.getSize .remote 0)]).map
      (fun session => (session.process.pc, session.unforwarded)) = some (.select, true) := by
    decide +kernel
  obtain ⟨session, hSession, hLost⟩ := Option.map_eq_some_iff.mp hRun
  obtain ⟨hPc, hUnforwarded⟩ := Prod.mk.inj hLost
  have hKeeping := ((hAll _).last _ hSession).keeping hUnforwarded
  rw [hPc] at hKeeping
  cases hKeeping

end ScRedirection.TcpTunnel.Forwarding
