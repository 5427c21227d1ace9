import ScRedirection.TcpTunnel.Fork

/-! # Sessions that a fork changes nothing in

Where nothing arrives that the network thread has a part in, the forked session can do what the
direct one does, and the direct one what the forked one does.
-/

namespace ScRedirection.TcpTunnel.Fork

open Json Websocketpp WebsocketServer

/-! ## Two memories that are the same to the peers -/

structure Peers (m n : Memory) : Prop where
  server : n.server.isSome = m.server.isSome
  openConnections : n.openConnections = m.openConnections
  endpoint : n.endpoint = m.endpoint

theorem Peers.refl (m : Memory) : Peers m m := ⟨rfl, rfl, rfl⟩

theorem Peers.symm {m n : Memory} (h : Peers m n) : Peers n m :=
  ⟨h.server.symm, h.openConnections.symm, h.endpoint.symm⟩

theorem Peers.trans {l m n : Memory} (h : Peers l m) (h' : Peers m n) : Peers l n :=
  ⟨h'.server.trans h.server, h'.openConnections.trans h.openConnections,
    h'.endpoint.trans h.endpoint⟩

theorem Peers.life {m n m' : Memory} {e : LifeEvent} (h : Peers m n) (hLife : m.life e = some m') :
    ∃ n', n.life e = some n' ∧ Peers m' n' := by
  obtain ⟨server, server', endpoint', hServer, hStep, rfl⟩ := life_eq_some.mp hLife
  obtain ⟨other, hOther⟩ := Option.isSome_iff_exists.mp (h.server.trans (by rw [hServer]; rfl))
  have hConns := h.openConnections
  simp only [Memory.openConnections, hServer, hOther] at hConns
  have hStep' := lifeStep_congr hConns hStep
  rw [← h.endpoint] at hStep'
  exact ⟨_, life_eq_some.mpr ⟨other, _, endpoint', hOther, hStep', rfl⟩, rfl, rfl, rfl⟩

theorem Peers.hello {m n m' : Memory} {conn : ConnectionHdl} (h : Peers m n)
    (hHello : m.hello conn = .ok m') : ∃ n', n.hello conn = .ok n' ∧ Peers m' n' := by
  obtain ⟨endpoint', hSend, rfl⟩ := hello_eq_ok hHello
  rw [← h.endpoint] at hSend
  exact ⟨{ n with endpoint := endpoint' }, by rw [Memory.hello, hSend]; rfl, h.server,
    h.openConnections, rfl⟩

theorem Peers.deliver {D : Type} {doubles : Doubles D} {m m' : Memory} {conn : ConnectionHdl}
    {payload : StdString} (hRegistered : m.Registered)
    (h : m.deliver doubles conn payload = some (.ok m')) : Peers m m' := by
  obtain ⟨-, hEndpoint, hConns, hType, -⟩ := Memory.deliver_eq_ok hRegistered h
  refine ⟨?_, hConns, hEndpoint⟩
  have hSome := congrArg Option.isSome hType
  simpa only [Memory.serverType, Option.isSome_map] using hSome

/-! ## Two processes that cannot be told apart by the thread -/

structure Alike (p q : Process) : Prop where
  pc : q.pc = p.pc
  queues : q.queues = p.queues
  serverType : q.serverType = p.serverType

theorem Alike.refl (p : Process) : Alike p p := ⟨rfl, rfl, rfl⟩

theorem Alike.symm {p q : Process} (h : Alike p q) : Alike q p :=
  ⟨h.pc.symm, h.queues.symm, h.serverType.symm⟩

theorem Alike.useTunnel {p q p' : Process} {a : Action} (h : Alike p q)
    (hPc : toBroadcast p.pc = none) (hStep : p.useTunnel a = some p') :
    ∃ q', q.useTunnel a = some q' ∧ Alike p' q' := by
  have hMove := Process.useTunnel_step hStep
  simp only [Process.useTunnel, Option.bind_eq_bind, Option.bind_eq_some_iff, Option.pure_def,
    Option.some.injEq] at hStep
  obtain ⟨pc, hNext, memory, hEffect, rfl⟩ := hStep
  have hOf : ∀ memory' : Memory, q.effect a = some memory' →
      Alike { memory with pc := pc } { memory' with pc := pc } →
      ∃ q', q.useTunnel a = some q' ∧ Alike { memory with pc := pc } q' := by
    intro memory' hEffect' hAlike
    refine ⟨_, ?_, hAlike⟩
    simp [Process.useTunnel, h.pc, h.serverType, hNext, hEffect']
  have hSame : Alike { p.toMemory with pc := pc } { q.toMemory with pc := pc } :=
    { h with pc := rfl }
  cases a with
  | getSize sock size =>
    simp only [Memory.effect, Option.ite_none_right_eq_some, Option.some.injEq] at hEffect
    obtain ⟨hSize, rfl⟩ := hEffect
    exact hOf q.toMemory (by simp [Memory.effect, h.queues, hSize]) hSame
  | pop sock item =>
    simp only [Memory.effect, Option.ite_none_right_eq_some, Option.some.injEq] at hEffect
    obtain ⟨hItem, rfl⟩ := hEffect
    refine hOf { q.toMemory with queues := q.queues.setData sock (q.queues.data sock).tail }
      (by simp [Memory.effect, h.queues, hItem]) { hSame with queues := ?_ }
    simp only [h.queues]
  | broadcast chunk returned =>
    cases hMove with
    | broadcastReturned hNow | broadcastThrew hNow => rw [hNow] at hPc; cases hPc
  | select _ | send _ _ | recv _ _ | close _ =>
    cases hEffect
    exact hOf q.toMemory rfl hSame

/-! ## A session the network thread has no part in -/

/-- Nothing is broadcast, and nothing will be. -/
structure Dry (p : Process) (received : Socket → Bytes) : Prop where
  pc : toBroadcast p.pc = none
  received : ∀ sock, forwards p.serverType sock = true → received sock = []

theorem take_eq_nil {received received' : Socket → Bytes} {a : Action}
    (h : take received a = some received') {sock : Socket} (hNone : received sock = []) :
    received' sock = [] := by
  by_cases hRecv : ∃ sock' chunk, a = .recv sock' (some chunk)
  · obtain ⟨sock', chunk, rfl⟩ := hRecv
    obtain ⟨-, rfl⟩ := take_recv h
    rcases eq_or_ne sock sock' with rfl | hSock
    · rw [Function.update_self, hNone, List.drop_nil]
    · rwa [Function.update_of_ne hSock]
  · have hSame : received' = received := by
      unfold take at h
      split at h
      · exact absurd ⟨_, _, rfl⟩ hRecv
      · exact (Option.some.inj h).symm
    rwa [hSame]

theorem Dry.step {p p' : Process} {received received' : Socket → Bytes} {a : Action}
    (h : Dry p received) (hTake : take received a = some received') (hStep : p.Step a p') :
    Dry p' received' := by
  constructor
  · cases hNow : p'.pc with
    | broadcast sock io chunk =>
      obtain ⟨rfl, hChunk, hForwards⟩ := hStep.read_of_broadcast hNow
      have hPrefix := (take_recv hTake).1
      rw [h.received sock hForwards] at hPrefix
      exact absurd (List.prefix_nil.mp hPrefix) hChunk
    | _ => rfl
  · intro sock hForwards
    rw [Memory.serverType, hStep.server_eq] at hForwards
    exact take_eq_nil hTake (h.received sock hForwards)

/-- Only a broadcast touches the endpoint, and nothing else of the thread throws. -/
theorem endpoint_of_step {p p' : Process} {a : Action} (hPc : toBroadcast p.pc = none)
    (hStep : p.Step a p') : p'.endpoint = p.endpoint ∧ p'.pc ≠ .terminated := by
  constructor
  · cases hStep with
    | broadcastReturned hNow | broadcastThrew hNow => rw [hNow] at hPc; cases hPc
    | _ => rfl
  · intro hEnd
    obtain ⟨chunk, exn, rfl, -⟩ := hStep.threw_of_terminated hEnd
    cases hStep with
    | broadcastThrew hNow => rw [hNow] at hPc; cases hPc

theorem not_terminated_of_step {p p' : Process} {a : Action} (h : p.Step a p') :
    p.pc ≠ .terminated := by
  intro hPc
  cases h <;> simp_all

theorem peers_of_step {p p' : Process} {a : Action} (hPc : toBroadcast p.pc = none)
    (h : p.Step a p') : Peers p.toMemory p'.toMemory := by
  refine ⟨by rw [h.server_eq], ?_, (endpoint_of_step hPc h).1⟩
  rw [Memory.openConnections, Memory.openConnections, h.server_eq]

/-! ## The forked session follows the direct one, and the direct one the forked -/

/-- How a forked session stands to a direct one that has not ended. -/
structure Follows (direct forked : Session) : Prop where
  network : direct.network = .serving
  parent : ∃ memory, forked.network = .parent memory ∧ Peers direct.serving.toMemory memory
  hellos : forked.hellos = direct.hellos
  alike : Alike direct.serving forked.serving
  received : forked.inputs.received = direct.inputs.received
  registered : direct.serving.Registered
  dry : Dry direct.serving direct.inputs.received
  frames : ∀ s : Side, direct.serving.serverType = some s.type →
    ∀ frame ∈ direct.inputs.frames.head?, ¬ Decodes frame

/-- The two have shown the same, and unless the direct one has ended, the other can go on as it. -/
def Matched (direct forked : Session) : Prop :=
  forked.observation = direct.observation ∧ direct.network = .serving ∧
    (direct.serving.pc = .terminated ∨ Follows direct forked)

variable {D : Type} {doubles : Doubles D} {direct forked direct' forked' : Session}

theorem matched_tunnel {a : Action} (h : Follows direct forked)
    (hSame : forked.observation = direct.observation) (hStep : direct.tunnel a = some direct') :
    ∃ es forked', (machine doubles).run forked es = some forked' ∧ Matched direct' forked' := by
  obtain ⟨hPc, received, process, hTake, hUse, rfl⟩ := tunnel_eq_some hStep
  have hMove := Process.useTunnel_step hUse
  obtain ⟨process', hUse', hAlike⟩ := h.alike.useTunnel hPc hUse
  have hFork : forked.step doubles (.tunnel a) = some { forked with
      serving := process'
      inputs := { forked.inputs with received := received }
      observation := { forked.observation with
        popped := forked.observation.popped ++ poppedBy a
        sent := forked.observation.sent ++ sends a } } := by
    simp [Session.step, Session.tunnel, h.alike.pc, hPc, h.received, hTake, hUse']
  obtain ⟨memory, hParent, hPeers⟩ := h.parent
  refine ⟨[.tunnel a], _, run_one hFork, by simp [hSame], h.network, .inr ?_⟩
  exact {
    network := h.network
    parent := ⟨memory, hParent, (peers_of_step hPc hMove).symm.trans hPeers⟩
    hellos := h.hellos
    alike := hAlike
    received := rfl
    registered := by rw [Memory.Registered, hMove.server_eq]; exact h.registered
    dry := h.dry.step hTake hMove
    frames := by
      rw [Memory.serverType, hMove.server_eq]
      exact h.frames }

/-- A step of the network thread that changes no queue, and nothing that the session is served
by, is one that the parent can take too. -/
theorem Follows.network_step {memory memory' : Memory} {hellos : List ConnectionHdl}
    {frames : List Frame} {o o' : Observation} (h : Follows direct forked)
    (hPeers : Peers memory memory') (hRegistered : memory.Registered)
    (hQueues : memory.queues = direct.serving.queues)
    (hType : memory.serverType = direct.serving.serverType)
    (hFrames : ∀ s : Side, direct.serving.serverType = some s.type →
      ∀ frame ∈ frames.head?, ¬ Decodes frame) :
    Follows { direct with
        serving := { memory with pc := direct.serving.pc }
        hellos := hellos
        inputs := { direct.inputs with frames := frames }
        observation := o }
      { forked with network := .parent memory', hellos := hellos, observation := o' } where
  network := h.network
  parent := ⟨memory', rfl, hPeers⟩
  hellos := rfl
  alike := ⟨h.alike.pc, h.alike.queues.trans hQueues.symm, h.alike.serverType.trans hType.symm⟩
  received := h.received
  registered := hRegistered
  dry := ⟨h.dry.pc, fun sock hForwards => h.dry.received sock (by rwa [← hType])⟩
  frames := fun s hSide => hFrames s (hType.symm.trans hSide)

theorem matched_life {e : LifeEvent} (h : Follows direct forked)
    (hSame : forked.observation = direct.observation) (hStep : direct.life e = some direct') :
    ∃ es forked', (machine doubles).run forked es = some forked' ∧ Matched direct' forked' := by
  obtain ⟨-, memory, memory', hMemory, hLife, rfl⟩ := life_eq_of_step hStep
  obtain ⟨-, rfl⟩ := networkMemory_serving h.network hMemory
  obtain ⟨parent, hParent, hPeers⟩ := h.parent
  obtain ⟨parent', hLife', hPeers'⟩ := hPeers.life hLife
  have hApart : forked.network ≠ .serving := by simp [hParent]
  have hFork : forked.step doubles (.life e) = some { forked with
      network := .parent parent'
      hellos := direct.hellos ++ greeted e
      observation := { direct.observation with life := direct.observation.life ++ [e] } } := by
    simp [Session.step, Session.life, blocked_apart hApart, networkMemory_of_parent hParent, hLife',
      Session.setNetworkMemory, hParent, h.hellos, hSame]
  rw [setNetworkMemory_serving h.network]
  refine ⟨[.life e], _, run_one hFork, rfl, h.network, .inr ?_⟩
  exact h.network_step hPeers' (life_registered h.registered hLife) (life_queues hLife)
    (life_serverType hLife) h.frames

theorem matched_hello (h : Follows direct forked)
    (hSame : forked.observation = direct.observation) (hStep : direct.hello = some direct') :
    ∃ es forked', (machine doubles).run forked es = some forked' ∧ Matched direct' forked' := by
  obtain ⟨memory, conn, hellos, hMemory, hHellos, rfl⟩ := hello_eq_some hStep
  obtain ⟨-, rfl⟩ := networkMemory_serving h.network hMemory
  cases hHello : direct.serving.hello conn with
  | error exn =>
    rw [Session.settle, endNetwork_serving h.network]
    exact ⟨[], forked, rfl, hSame, h.network, .inl rfl⟩
  | ok memory =>
    obtain ⟨endpoint', -, rfl⟩ := hello_eq_ok hHello
    obtain ⟨parent, hParent, hPeers⟩ := h.parent
    obtain ⟨parent', hHello', hPeers'⟩ := hPeers.hello hHello
    have hFork : forked.step doubles .hello = some { forked with
        network := .parent parent'
        hellos := hellos
        observation := direct.observation } := by
      simp [Session.step, Session.hello, networkMemory_of_parent hParent, h.hellos, hHellos,
        hHello', Session.settle, Session.setNetworkMemory, hParent, ← hSame]
    rw [Session.settle, setNetworkMemory_serving h.network]
    refine ⟨[.hello], _, run_one hFork, rfl, h.network, .inr ?_⟩
    exact h.network_step hPeers' h.registered rfl rfl h.frames

theorem matched_frame {conn : ConnectionHdl} (h : Follows direct forked)
    (hSame : forked.observation = direct.observation)
    (hStep : direct.frame doubles conn = some direct') :
    Matched direct' forked := by
  obtain ⟨memory, frame, frames, result, hMemory, hFrames, hDeliver, rfl⟩ := frame_eq_some hStep
  obtain ⟨-, rfl⟩ := networkMemory_serving h.network hMemory
  cases result with
  | error exn =>
    rw [Session.settle, endNetwork_serving h.network]
    exact ⟨hSame, h.network, .inl rfl⟩
  | ok memory =>
    obtain ⟨hRegistered, -, -, hType, hQueues⟩ := Memory.deliver_eq_ok h.registered hDeliver
    -- a side would have decoded it
    have hNoSide : ∀ s : Side, direct.serving.serverType ≠ some s.type := by
      intro s hSide
      have hRuns := h.registered.runsOn hSide
      rw [Frame.payload, hRuns.deliver_binData doubles conn frame.noColon frame.spare,
        Option.some.injEq] at hDeliver
      apply h.frames s hSide frame (by rw [hFrames]; rfl)
      cases hDecode : decodeOrThrow (removeTail frame.data) with
      | error exn => rw [hDecode] at hDeliver; cases hDeliver
      | ok item => exact ⟨item, hDecode⟩
    have hQueues : memory.queues = direct.serving.queues :=
      hQueues.resolve_right fun ⟨s, hSide, _⟩ => hNoSide s hSide
    obtain ⟨parent, hParent, hPeers⟩ := h.parent
    have hPeers' := (Peers.deliver h.registered hDeliver).symm.trans hPeers
    have hFrames' : ∀ s : Side, direct.serving.serverType = some s.type →
        ∀ frame ∈ frames.head?, ¬ Decodes frame := fun s hSide => absurd hSide (hNoSide s)
    have hStays : { forked with network := .parent parent, hellos := direct.hellos } = forked := by
      rw [← hParent, ← h.hellos]
    rw [Session.settle, setNetworkMemory_serving h.network]
    refine ⟨hSame, h.network, .inr ?_⟩
    rw [← hStays]
    exact h.network_step hPeers' hRegistered hQueues hType hFrames'

theorem matched_flush {conn : ConnectionHdl} (h : Follows direct forked)
    (hSame : forked.observation = direct.observation) (hStep : direct.flush conn = some direct') :
    ∃ es forked', (machine doubles).run forked es = some forked' ∧ Matched direct' forked' := by
  obtain ⟨memory, text, endpoint, hMemory, hWrite, rfl⟩ := flush_eq_some hStep
  obtain ⟨-, rfl⟩ := networkMemory_serving h.network hMemory
  obtain ⟨parent, hParent, hPeers⟩ := h.parent
  have hFork : forked.step doubles (.flush conn) = some { forked with
      network := .parent { parent with endpoint := endpoint }
      hellos := direct.hellos
      observation := { direct.observation with
        flushed := direct.observation.flushed ++ [(conn, text)] } } := by
    simp [Session.step, Session.flush, networkMemory_of_parent hParent, hPeers.endpoint, hWrite,
      Session.setNetworkMemory, hParent, ← h.hellos, hSame]
  rw [setNetworkMemory_serving h.network]
  refine ⟨[.flush conn], _, run_one hFork, rfl, h.network, .inr ?_⟩
  exact h.network_step ⟨hPeers.server, hPeers.openConnections, rfl⟩ h.registered rfl rfl h.frames

theorem matched_step {e : Event} (h : Matched direct forked)
    (hStep : (machine doubles).step direct e = some direct') :
    ∃ es forked', (machine doubles).run forked es = some forked' ∧ Matched direct' forked' := by
  obtain ⟨hSame, hNetwork, hEnded | hFollows⟩ := h
  · exfalso
    have hNone : ∀ memory, direct.networkMemory ≠ some memory := fun memory hMemory =>
      (networkMemory_serving hNetwork hMemory).1 hEnded
    cases e with
    | tunnel a =>
      obtain ⟨-, _, process, -, hUse, -⟩ := tunnel_eq_some hStep
      exact not_terminated_of_step (Process.useTunnel_step hUse) hEnded
    | broadcast => exact broadcasts_of_step (.inl hStep) (by rw [hEnded]; rfl)
    | sendNext => exact broadcasts_of_step (.inr hStep) (by rw [hEnded]; rfl)
    | life e =>
      obtain ⟨-, memory, _, hMemory, -⟩ := life_eq_of_step hStep
      exact hNone memory hMemory
    | hello =>
      obtain ⟨memory, _, _, hMemory, -⟩ := hello_eq_some hStep
      exact hNone memory hMemory
    | frame conn =>
      obtain ⟨memory, _, _, _, hMemory, -⟩ := frame_eq_some hStep
      exact hNone memory hMemory
    | flush conn =>
      obtain ⟨memory, _, _, hMemory, -⟩ := flush_eq_some hStep
      exact hNone memory hMemory
  · cases e with
    | tunnel a => exact matched_tunnel hFollows hSame hStep
    | broadcast => exact absurd hFollows.dry.pc (broadcasts_of_step (.inl hStep))
    | sendNext => exact absurd hFollows.dry.pc (broadcasts_of_step (.inr hStep))
    | life e => exact matched_life hFollows hSame hStep
    | hello => exact matched_hello hFollows hSame hStep
    | frame conn => exact ⟨[], forked, rfl, matched_frame hFollows hSame hStep⟩
    | flush conn => exact matched_flush hFollows hSame hStep

/-- How a direct session that goes on stands to a forked one, whose parent may have ended. -/
structure Followed (forked direct : Session) : Prop where
  same : direct.observation = forked.observation
  network : direct.network = .serving
  alive : direct.serving.pc ≠ .terminated
  broadcasting : direct.broadcasting = none
  apart : forked.network ≠ .serving
  parent : ∀ memory, forked.network = .parent memory →
    memory.Registered ∧ Peers direct.serving.toMemory memory ∧ direct.hellos = forked.hellos
  alike : Alike direct.serving forked.serving
  received : forked.inputs.received = direct.inputs.received
  dry : Dry direct.serving direct.inputs.received

theorem followed_tunnel {a : Action} (h : Followed forked direct)
    (hStep : forked.tunnel a = some forked') :
    ∃ es direct', (machine doubles).run direct es = some direct' ∧ Followed forked' direct' := by
  obtain ⟨hPc, received, process, hTake, hUse, rfl⟩ := tunnel_eq_some hStep
  obtain ⟨process', hUse', hAlike⟩ := h.alike.symm.useTunnel hPc hUse
  have hMove := Process.useTunnel_step hUse'
  rw [h.received] at hTake
  have hDirect : direct.step doubles (.tunnel a) = some { direct with
      serving := process'
      inputs := { direct.inputs with received := received }
      observation := { direct.observation with
        popped := direct.observation.popped ++ poppedBy a
        sent := direct.observation.sent ++ sends a } } := by
    simp [Session.step, Session.tunnel, h.dry.pc, hTake, hUse']
  refine ⟨[.tunnel a], _, run_one hDirect, ?_⟩
  exact { h with
    same := by simp [h.same]
    alive := (endpoint_of_step h.dry.pc hMove).2
    parent := by
      intro memory hParent
      obtain ⟨hRegistered, hPeers, hHellos⟩ := h.parent memory hParent
      exact ⟨hRegistered, (peers_of_step h.dry.pc hMove).symm.trans hPeers, hHellos⟩
    alike := hAlike.symm
    received := rfl
    dry := h.dry.step hTake hMove }

/-- What the parent does that the queues have no part in, the direct session can do too. -/
theorem Followed.network_step {memory memory' : Memory} {hellos : List ConnectionHdl}
    {o : Observation} (h : Followed forked direct) (hPeers : Peers memory' memory)
    (hRegistered : memory.Registered) (hQueues : memory'.queues = direct.serving.queues)
    (hType : memory'.serverType = direct.serving.serverType) :
    Followed { forked with network := .parent memory, hellos := hellos, observation := o }
      { direct with
        serving := { memory' with pc := direct.serving.pc }
        hellos := hellos
        observation := o } where
  same := rfl
  network := h.network
  alive := h.alive
  broadcasting := h.broadcasting
  apart := NetworkThread.noConfusion
  parent := by
    rintro _ ⟨rfl⟩
    exact ⟨hRegistered, hPeers, rfl⟩
  alike := ⟨h.alike.pc, h.alike.queues.trans hQueues.symm, h.alike.serverType.trans hType.symm⟩
  received := h.received
  dry := ⟨h.dry.pc, fun sock hForwards => h.dry.received sock (by rwa [← hType])⟩

theorem followed_life {e : LifeEvent} (h : Followed forked direct)
    (hStep : forked.life e = some forked') :
    ∃ es direct', (machine doubles).run direct es = some direct' ∧ Followed forked' direct' := by
  obtain ⟨-, memory, memory', hMemory, hLife, rfl⟩ := life_eq_of_step hStep
  have hParent := networkMemory_parent h.apart hMemory
  obtain ⟨hRegistered, hPeers, hHellos⟩ := h.parent memory hParent
  obtain ⟨direct', hLife', hPeers'⟩ := hPeers.symm.life hLife
  have hDirect : direct.step doubles (.life e) = some { direct with
      serving := { direct' with pc := direct.serving.pc }
      hellos := forked.hellos ++ greeted e
      observation := { forked.observation with life := forked.observation.life ++ [e] } } := by
    simp [Session.step, Session.life, blocked_serving h.broadcasting,
      networkMemory_of_serving h.network h.alive, hLife', setNetworkMemory_serving h.network,
      hHellos, h.same]
  rw [setNetworkMemory_parent hParent]
  refine ⟨[.life e], _, run_one hDirect, ?_⟩
  exact h.network_step hPeers'.symm (life_registered hRegistered hLife) (life_queues hLife')
    (life_serverType hLife')

theorem followed_hello (h : Followed forked direct) (hStep : forked.hello = some forked') :
    ∃ es direct', (machine doubles).run direct es = some direct' ∧ Followed forked' direct' := by
  obtain ⟨memory, conn, hellos, hMemory, hHellos, rfl⟩ := hello_eq_some hStep
  have hParent := networkMemory_parent h.apart hMemory
  obtain ⟨hRegistered, hPeers, hSame⟩ := h.parent memory hParent
  cases hHello : memory.hello conn with
  | error exn =>
    rw [Session.settle, endNetwork_parent hParent]
    refine ⟨[], direct, rfl, ?_⟩
    exact { h with
      apart := NetworkThread.noConfusion
      parent := fun _ hEnded => NetworkThread.noConfusion hEnded }
  | ok memory' =>
    obtain ⟨endpoint', -, rfl⟩ := hello_eq_ok hHello
    obtain ⟨direct', hHello', hPeers'⟩ := hPeers.symm.hello hHello
    obtain ⟨endpoint'', -, rfl⟩ := hello_eq_ok hHello'
    have hDirect : direct.step doubles .hello = some { direct with
        serving := { direct.serving with endpoint := endpoint'' }
        hellos := hellos
        observation := forked.observation } := by
      simp [Session.step, Session.hello, networkMemory_of_serving h.network h.alive, hSame, hHellos,
        hHello', Session.settle, setNetworkMemory_serving h.network, ← h.same]
    rw [Session.settle, setNetworkMemory_parent hParent]
    refine ⟨[.hello], _, run_one hDirect, ?_⟩
    exact h.network_step hPeers'.symm hRegistered rfl rfl

theorem followed_frame {conn : ConnectionHdl} (h : Followed forked direct)
    (hStep : forked.frame doubles conn = some forked') : Followed forked' direct := by
  obtain ⟨memory, frame, frames, result, hMemory, -, hDeliver, rfl⟩ := frame_eq_some hStep
  have hParent := networkMemory_parent h.apart hMemory
  obtain ⟨hRegistered, hPeers, hSame⟩ := h.parent memory hParent
  cases result with
  | error exn =>
    rw [Session.settle, endNetwork_parent hParent]
    exact { h with
      apart := NetworkThread.noConfusion
      parent := fun _ hEnded => NetworkThread.noConfusion hEnded }
  | ok memory' =>
    rw [Session.settle, setNetworkMemory_parent hParent]
    exact { h with
      apart := NetworkThread.noConfusion
      parent := by
        rintro _ ⟨rfl⟩
        exact ⟨(Memory.deliver_eq_ok hRegistered hDeliver).1,
          hPeers.trans (Peers.deliver hRegistered hDeliver), hSame⟩ }

theorem followed_flush {conn : ConnectionHdl} (h : Followed forked direct)
    (hStep : forked.flush conn = some forked') :
    ∃ es direct', (machine doubles).run direct es = some direct' ∧ Followed forked' direct' := by
  obtain ⟨memory, text, endpoint, hMemory, hWrite, rfl⟩ := flush_eq_some hStep
  have hParent := networkMemory_parent h.apart hMemory
  obtain ⟨hRegistered, hPeers, hHellos⟩ := h.parent memory hParent
  rw [hPeers.endpoint] at hWrite
  have hDirect : direct.step doubles (.flush conn) = some { direct with
      serving := { direct.serving with endpoint := endpoint }
      hellos := forked.hellos
      observation := { forked.observation with
        flushed := forked.observation.flushed ++ [(conn, text)] } } := by
    simp [Session.step, Session.flush, networkMemory_of_serving h.network h.alive, hWrite,
      setNetworkMemory_serving h.network, ← hHellos, h.same]
  rw [setNetworkMemory_parent hParent]
  refine ⟨[.flush conn], _, run_one hDirect, ?_⟩
  exact h.network_step ⟨hPeers.server, hPeers.openConnections, rfl⟩ hRegistered rfl rfl

theorem followed_step {e : Event} (h : Followed forked direct)
    (hStep : (machine doubles).step forked e = some forked') :
    ∃ es direct', (machine doubles).run direct es = some direct' ∧ Followed forked' direct' := by
  have hPc : toBroadcast forked.serving.pc = none := by rw [h.alike.pc]; exact h.dry.pc
  cases e with
  | tunnel a => exact followed_tunnel h hStep
  | broadcast => exact absurd hPc (broadcasts_of_step (.inl hStep))
  | sendNext => exact absurd hPc (broadcasts_of_step (.inr hStep))
  | life e => exact followed_life h hStep
  | hello => exact followed_hello h hStep
  | frame conn => exact ⟨[], direct, rfl, followed_frame h hStep⟩
  | flush conn => exact followed_flush h hStep

theorem Accepted.registered (accepted : Accepted) : accepted.memory.Registered := by
  intro server hServer
  obtain ⟨old, -, rfl⟩ := Option.map_eq_some_iff.mp hServer
  rfl

theorem dry_start {accepted : Accepted} {inputs : Inputs} (h : Unaffected accepted inputs) :
    Dry { accepted.memory with pc := .select } inputs.received := by
  constructor
  · rfl
  · intro sock hForwards
    obtain ⟨s, hType, rfl⟩ : ∃ s : Side, accepted.memory.serverType = some s.type ∧
        sock = s.socket := forwards_side hForwards
    exact (h s hType).2

theorem observed_eq_of_unaffected {accepted : Accepted} {inputs : Inputs}
    (h : Unaffected accepted inputs) :
    observed doubles true accepted inputs = observed doubles false accepted inputs := by
  ext o
  constructor
  · rintro ⟨es, session, hRun, rfl⟩
    have hStart : Followed (start true accepted inputs) (start false accepted inputs) := {
      same := rfl
      network := rfl
      alive := by simp [start]
      broadcasting := rfl
      apart := by simp [start]
      parent := by
        rintro _ ⟨rfl⟩
        exact ⟨accepted.registered, .refl _, rfl⟩
      alike := .refl _
      received := rfl
      dry := dry_start h }
    obtain ⟨ds, direct, hDirect, hFollowed⟩ := (machine doubles).run_simulation (machine doubles)
      (fun _ _ _ _ hNow hStep => followed_step hNow hStep) hStart hRun
    exact ⟨ds, direct, hDirect, hFollowed.same⟩
  · rintro ⟨es, session, hRun, rfl⟩
    have hStart : Matched (start false accepted inputs) (start true accepted inputs) := by
      refine ⟨rfl, rfl, .inr ?_⟩
      exact {
        network := rfl
        parent := ⟨_, rfl, .refl _⟩
        hellos := rfl
        alike := .refl _
        received := rfl
        registered := accepted.registered
        dry := dry_start h
        frames := fun s hSide => (h s hSide).1 }
    obtain ⟨ds, forked, hForked, hMatched⟩ := (machine doubles).run_simulation (machine doubles)
      (fun _ _ _ _ hNow hStep => matched_step hNow hStep) hStart hRun
    exact ⟨ds, forked, hForked, hMatched.1⟩

end ScRedirection.TcpTunnel.Fork
