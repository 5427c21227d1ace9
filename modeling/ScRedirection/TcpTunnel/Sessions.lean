import ScRedirection.TcpTunnel.BinData
import ScRedirection.TcpTunnel.Loop

/-! # What a session is sent

The accept loop with the memory its processes share or copy. The queues belong to the program and
not to a session, so a ledger tells apart, in each process, what was sent before the session it
now serves was accepted, what was queued then, and what has arrived since.
-/

namespace ScRedirection.TcpTunnel.Sessions

open Json Websocketpp WebsocketServer

/-- `pushed` is everything put on the queue since the program started; the other fields of the
ledger begin anew with each client that is accepted, and `earlier` keeps what the last one got. -/
structure Data where
  memory : Memory
  pushed : List Bytes := []
  earlier : Bytes := []
  backlog : List Bytes := []
  arrived : List Bytes := []
  sent : Bytes := []

def inSession : LoopPc → Bool
  | .accept | .closeListener | .finished | .terminated => false
  | _ => true

def held (s : Side) : LoopPc → Bytes
  | .useTunnel pc => heldOut s pc
  | _ => []

/-- What the network thread does: a message arrives, or connections come, go and are flushed. -/
inductive NetworkEvent
  | deliver (conn : ConnectionHdl) (payload : StdString)
  | connections (conns : List ConnectionHdl) (endpoint : Endpoint)

section Machine

variable {D : Type} (doubles : Doubles D) (s : Side)

def Data.queue (d : Data) : List Bytes := d.memory.queues.data s.socket.opposite

def effect (d : Data) : LoopAction → Option Data
  | .accept (some _) =>
    some { d with
      earlier := d.earlier ++ d.sent
      backlog := d.queue s
      arrived := []
      sent := [] }
  | .tunnel a => (d.memory.effect a).map fun memory =>
    { d with memory := memory, sent := d.sent ++ sentOn s.socket [a] }
  | _ => some d

def network (p : Proc Data) : NetworkEvent → Option (Proc Data)
  | .deliver conn payload => (p.data.memory.deliver doubles conn payload).map fun
    | .error _ => { p with pc := .terminated }
    | .ok memory =>
      let items := (memory.queues.data s.socket.opposite).drop (p.data.queue s).length
      { p with data := { p.data with
          memory := memory
          pushed := p.data.pushed ++ items
          arrived := if inSession p.pc then p.data.arrived ++ items else p.data.arrived } }
  | .connections conns endpoint =>
    some { p with data := { p.data with memory := { p.data.memory with
      server := p.data.memory.server.map ({ · with openConnections := conns })
      endpoint := endpoint } } }

def machine (settings : Settings) : EventMachine (World Data) (WorldEvent NetworkEvent) :=
  loop settings (some s.type) (effect s) (network doubles s)

/-- The program as `tcptunnel_loop` comes to its `do`. -/
def start (server : Server) (endpoint : Endpoint) : World Data :=
  World.start { memory :=
    { server := some (Server.setCallbacks { server with type := s.type })
      queues := {}
      endpoint := endpoint } }

end Machine

/-- Every byte sent to the client of a session was pushed while the session was open. -/
def Isolated (d : Data) : Prop := ∀ c ∈ d.sent, ∃ item ∈ d.arrived, c ∈ item

/-- The client of a session gets, in order and from the start, what was queued when it was
accepted and then what arrives; no earlier client of the process got any of it. -/
structure Served (p : Proc Data) : Prop where
  sent : p.data.sent <+: (p.data.backlog ++ p.data.arrived).flatten
  once : inSession p.pc = true →
    p.data.pushed.flatten = p.data.earlier ++ (p.data.backlog ++ p.data.arrived).flatten

/-! ## The ledger balances -/

structure Balanced (s : Side) (p : Proc Data) : Prop where
  side : p.data.memory.RunsOn s
  sent : p.data.sent <+: (p.data.backlog ++ p.data.arrived).flatten
  total : p.pc ≠ .terminated → p.data.pushed.flatten =
    p.data.earlier ++ p.data.sent ++ held s p.pc ++ (p.data.queue s).flatten
  session : inSession p.pc = true → (p.data.backlog ++ p.data.arrived).flatten =
    p.data.sent ++ held s p.pc ++ (p.data.queue s).flatten

variable {D : Type} {doubles : Doubles D} {s : Side} {settings : Settings} {p p' : Proc Data}

theorem Balanced.served (h : Balanced s p) : Served p where
  sent := h.sent
  once := by
    intro hSession
    have hAlive : p.pc ≠ .terminated := by
      intro hPc
      rw [hPc] at hSession
      cases hSession
    rw [h.total hAlive, h.session hSession]
    simp only [List.append_assoc]

theorem Balanced.idle (h : Balanced s p) {pc : LoopPc} (hOld : p.pc ≠ .terminated)
    (hSession : inSession pc = true → inSession p.pc = true) (hHeld : held s pc = held s p.pc) :
    Balanced s { p with pc := pc } where
  side := h.side
  sent := h.sent
  total _ := by rw [hHeld]; exact h.total hOld
  session hNew := by rw [hHeld]; exact h.session (hSession hNew)

theorem held_inTunnel (settings : Settings) (role : Role) (pc : Pc) :
    held s (inTunnel settings role pc) = heldOut s pc := by
  cases pc with
  | returned ret => cases role <;> cases settings with | mk a b c => cases a <;> rfl
  | _ => rfl

theorem held_leaveTunnel (settings : Settings) (role : Role) :
    held s (leaveTunnel settings role) = [] := by
  cases role with
  | parent => rw [leaveTunnel, endRound]; split_ifs <;> rfl
  | child => rfl

theorem held_endRound (settings : Settings) : held s (endRound settings) = [] :=
  held_leaveTunnel settings .parent

theorem held_handleClient (settings : Settings) : held s (handleClient settings) = [] := by
  unfold handleClient
  split_ifs <;> rfl

theorem inSession_endRound (settings : Settings) : inSession (endRound settings) = false := by
  unfold endRound
  split_ifs <;> rfl

theorem Balanced.accepted (h : Balanced s p) {pc : LoopPc} {d : Data} {fd : Nat}
    (hPc : p.pc = .accept) (hHeld : held s pc = [])
    (hEffect : effect s p.data (.accept (some fd)) = some d) :
    Balanced s { p with pc := pc, data := d } := by
  cases hEffect
  have hTotal := h.total (by rw [hPc]; decide)
  rw [hPc] at hTotal
  refine ⟨h.side, List.nil_prefix, fun _ => ?_, fun _ => ?_⟩
  · rw [hHeld]
    simpa [held, Data.queue] using hTotal
  · rw [hHeld]
    simp [Data.queue]

theorem Balanced.tunnel (h : Balanced s p) {pc pc' : Pc} {a : Action} {d : Data}
    (hPc : p.pc = .useTunnel pc) (hMove : Move (some s.type) pc a pc')
    (hEffect : effect s p.data (.tunnel a) = some d) :
    Balanced s { p with pc := inTunnel settings p.role pc', data := d } := by
  obtain ⟨memory, hMemory, rfl⟩ := Option.map_eq_some_iff.mp hEffect
  rw [← h.side.serverType] at hMove
  have hStep := Process.Step.of_effect hMove hMemory
  have hInflow := hStep.inflow s
  have hTotal := h.total (by rw [hPc]; simp)
  have hSession := h.session (by rw [hPc]; rfl)
  rw [hPc] at hTotal hSession
  simp only [held, Data.queue, List.append_assoc] at hTotal hSession
  simp only at hInflow
  rw [hInflow] at hTotal hSession
  refine ⟨?_, ?_, fun _ => ?_, fun _ => ?_⟩
  · rw [Memory.RunsOn, hStep.server_eq]
    exact h.side
  · simp only
    rw [hSession, ← List.append_assoc]
    exact List.prefix_append _ _
  · rw [held_inTunnel]
    simpa [Data.queue] using hTotal
  · rw [held_inTunnel]
    simpa [Data.queue] using hSession

theorem Balanced.step (h : Balanced s p) {a : LoopAction}
    (hStep : p.step settings (some s.type) (effect s) a = some p') : Balanced s p' := by
  obtain ⟨hMove, hEffect, hRole⟩ := Proc.step_eq_some hStep
  obtain ⟨role, pc, d⟩ := p'
  obtain rfl : role = p.role := hRole
  simp only at hMove hEffect
  generalize hPc : p.pc = old at hMove
  have hIdle : ∀ {pc : LoopPc}, old ≠ .terminated → held s old = [] →
      (inSession pc = true → inSession old = true) → held s pc = [] →
      Balanced s { p with pc := pc } := by
    intro pc hAlive hOld hSession hNew
    subst hPc
    exact h.idle hAlive hSession (hNew.trans hOld.symm)
  cases hMove with
  | tunnel hMove => exact h.tunnel hPc hMove hEffect
  | accepted =>
    refine h.accepted hPc ?_ hEffect
    split_ifs
    · rfl
    · exact held_handleClient settings
  | acceptFailed =>
    cases hEffect
    refine hIdle (by simp) rfl ?_ (held_endRound settings)
    simp [inSession_endRound]
  | admitted => cases hEffect; exact hIdle (by simp) rfl (fun _ => rfl) (held_handleClient settings)
  | closeRefused => cases hEffect; exact hIdle (by simp) rfl (fun _ => rfl) (held_endRound settings)
  | closeClient => cases hEffect; exact hIdle (by simp) rfl (fun _ => rfl) (held_endRound settings)
  | hostNotFound | socketFailed | connectFailed =>
    cases hEffect
    exact hIdle (by simp) rfl (fun _ => rfl) (held_leaveTunnel settings p.role)
  | closeListener =>
    cases hEffect
    exact hIdle (by simp) rfl (by simp [inSession]) rfl
  | _ => cases hEffect; exact hIdle (by simp) rfl (fun _ => rfl) rfl

theorem Balanced.network (h : Balanced s p) {n : NetworkEvent}
    (hStep : network doubles s p n = some p') : Balanced s p' := by
  cases n with
  | connections conns endpoint =>
    cases hStep
    obtain ⟨server, hServer, hType⟩ := h.side
    refine ⟨⟨{ server with openConnections := conns }, ?_, hType⟩, h.sent, h.total, h.session⟩
    simp [hServer, Server.setCallbacks]
  | deliver conn payload =>
    obtain ⟨result, hDeliver, rfl⟩ := Option.map_eq_some_iff.mp hStep
    cases result with
    | error exn => exact ⟨h.side, h.sent, absurd rfl, by simp [inSession]⟩
    | ok memory =>
      obtain ⟨hSide, items, hItems⟩ := h.side.deliver hDeliver
      refine ⟨hSide, ?_, fun hAlive => ?_, fun hSession => ?_⟩
      · apply h.sent.trans
        simp only
        split_ifs
        · refine ⟨(List.drop (p.data.queue s).length
            (memory.queues.data s.socket.opposite)).flatten, ?_⟩
          simp
        · exact List.prefix_rfl
      · simp only [Data.queue] at hItems ⊢
        rw [hItems, List.drop_left, List.flatten_append, h.total hAlive]
        simp [Data.queue]
      · have hOld := h.session hSession
        simp only [Data.queue] at hItems hOld hSession ⊢
        rw [if_pos hSession, hItems, List.drop_left, ← List.append_assoc, List.flatten_append, hOld]
        simp

theorem Balanced.forked (h : Balanced s p) (hPc : p.pc = .closeClient) : Balanced s p.forked := by
  have hTotal := h.total (by rw [hPc]; simp)
  have hSession := h.session (by rw [hPc]; rfl)
  rw [hPc] at hTotal hSession
  exact ⟨h.side, h.sent, fun _ => hTotal, fun _ => hSession⟩

/-! ## Whole runs -/

def WorldBalanced (s : Side) (w : World Data) : Prop :=
  ∀ p ∈ w.parent :: w.children, Balanced s p

theorem worldBalanced_step {w w' : World Data} {e : WorldEvent NetworkEvent}
    (h : WorldBalanced s w) (hStep : (machine doubles s settings).step w e = some w') :
    WorldBalanced s w' := by
  have hMoved := World.step_moved hStep
  have hParent := h w.parent List.mem_cons_self
  have hChildren : ∀ c ∈ w.children, Balanced s c :=
    fun c hc => h c (List.mem_cons_of_mem _ hc)
  cases hMoved with
  | parent hOwn => exact List.forall_mem_cons.mpr ⟨hParent.step hOwn, hChildren⟩
  | fork hOwn =>
    rename_i p
    have hNew := hParent.step hOwn
    have hPc := Proc.closeClient_of_fork hOwn
    refine List.forall_mem_cons.mpr ⟨hNew, fun c hc => ?_⟩
    rcases List.mem_append.mp hc with hc | hc
    · exact hChildren c hc
    · rw [List.mem_singleton.mp hc]
      exact hNew.forked hPc
  | child hChild hOwn =>
    rename_i i a c c'
    refine List.forall_mem_cons.mpr ⟨hParent, fun k hk => ?_⟩
    rcases List.mem_or_eq_of_mem_set hk with hk | rfl
    · exact hChildren k hk
    · exact (hChildren c (List.mem_of_getElem? hChild)).step hOwn
  | network hNetwork => exact List.forall_mem_cons.mpr ⟨hParent.network hNetwork, hChildren⟩

theorem worldBalanced_start (s : Side) (server : Server) (endpoint : Endpoint) :
    WorldBalanced s (start s server endpoint) := by
  intro p hp
  obtain rfl := List.mem_singleton.mp hp
  refine ⟨⟨{ server with type := s.type }, rfl, rfl⟩, List.nil_prefix, fun _ => ?_, ?_⟩
  · cases s <;> rfl
  · intro hSession
    cases hSession

/-- Whatever the settings and the outcomes, every process at every moment of a run has served the
client of its session from the backlog and the arrivals of that session alone. -/
theorem served_throughout {doubles : Doubles D} {settings : Settings} {s : Side} {server : Server}
    {endpoint : Endpoint} {es : List (WorldEvent NetworkEvent)} {w : World Data}
    (h : (machine doubles s settings).run (start s server endpoint) es = some w) :
    ∀ p ∈ w.parent :: w.children, Served p := by
  have hBalanced : WorldBalanced s w :=
    (machine doubles s settings).run_invariant (fun _ _ _ hw hStep => worldBalanced_step hw hStep)
      (worldBalanced_start s server endpoint) h
  exact fun p hp => (hBalanced p hp).served

def betweenSessions : List (WorldEvent NetworkEvent) :=
  [.network (.deliver 0 ⟨frame .bare (bytes "aGk="), .none⟩), .parent (.accept (some 4)),
    .parent (.gethostbyname true), .parent (.socket (some 5)), .parent (.connect true),
    .parent (.tunnel (.select (some ⟨false, true⟩))), .parent (.tunnel (.getSize .remote 1)),
    .parent (.tunnel (.pop .remote (bytes "hi"))), .parent (.tunnel (.send .client (bytes "hi")))]

theorem served_throughout_betweenSessions :
    ∃ w, (machine Doubles.absent .linux ⟨true, false, false⟩).run
      (start .linux { type := .linux } .empty) betweenSessions = some w ∧
      ∀ p ∈ w.parent :: w.children, Served p := by
  have hSome : ((machine Doubles.absent .linux ⟨true, false, false⟩).run
      (start .linux { type := .linux } .empty) betweenSessions).isSome = true := by
    decide +kernel
  obtain ⟨w, hw⟩ := Option.isSome_iff_exists.mp hSome
  exact ⟨w, hw, served_throughout hw⟩

theorem not_isolated : ¬ ∀ (es : List (WorldEvent NetworkEvent)) (w : World Data),
    (machine Doubles.absent .linux ⟨true, false, false⟩).run
      (start .linux { type := .linux } .empty) es = some w → Isolated w.parent.data := by
  intro hAll
  have hRun : ((machine Doubles.absent .linux ⟨true, false, false⟩).run
      (start .linux { type := .linux } .empty) betweenSessions).map
      (fun w => (w.parent.data.sent, w.parent.data.arrived)) = some (bytes "hi", []) := by
    decide +kernel
  obtain ⟨w, hw, hLedger⟩ := Option.map_eq_some_iff.mp hRun
  obtain ⟨hSent, hArrived⟩ := Prod.mk.inj hLedger
  obtain ⟨item, hItem, -⟩ := hAll _ w hw (ch 'h') (by rw [hSent]; decide)
  rw [hArrived] at hItem
  cases hItem

end ScRedirection.TcpTunnel.Sessions
