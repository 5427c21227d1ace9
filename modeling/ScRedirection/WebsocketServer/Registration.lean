import ScRedirection.Library.EventMachine
import ScRedirection.WebsocketServer.Routing

/-! # BIN_DATA frames while the callbacks are being registered

`tcptunnel_loop` registers its two callbacks one after the other on its own thread, when the
network thread is already running. A frame is tested against `rcv_callback` in one step and handed
to the callback of its side in the next, and the tunnel thread may move in between.
-/

namespace ScRedirection.WebsocketServer.Registration

open Json Websocketpp TcpTunnel

/-! ## The BIN_DATA branches of `messageParse` -/

/-- The data of a frame that the side of the server takes. -/
def binFrame (server : Server) (message : Bytes) : Option Bytes :=
  match split message (ch ':') [] with
  | [code, data] =>
    if (server.isWindowsSide ∨ server.isLinuxSide) ∧ code = commands .bin then
      some (removeTail data)
    else none
  | _ => none

/-- The pointer that the branch of the side calls through. -/
def calledPointer (server : Server) : Option Callback :=
  if server.isWindowsSide then server.rcvCallback else server.sendCallback

theorem messageParse_of_binFrame {server : Server} {message data : Bytes}
    (h : binFrame server message = some data) :
    messageParse server message =
      if server.rcvCallback = none then .consumed
      else match calledPointer server with
        | some callback => .called callback data
        | none => .nullCall := by
  unfold binFrame at h
  split at h
  case h_2 => cases h
  case h_1 code text hSplit =>
    simp only [Option.ite_none_right_eq_some, Option.some.injEq] at h
    obtain ⟨⟨hSide, rfl⟩, rfl⟩ := h
    rw [messageParse, hSplit, calledPointer]
    by_cases hWindows : server.isWindowsSide = true
    · cases server.rcvCallback <;> simp [hWindows]
    · have hLinux := hSide.resolve_left hWindows
      cases server.rcvCallback <;> cases server.sendCallback <;> simp [hWindows, hLinux]

/-- No other message comes to a callback. -/
theorem messageParse_of_no_frame {server : Server} {message : Bytes}
    (h : binFrame server message = none) :
    messageParse server message = .consumed ∨ messageParse server message = .unknown := by
  unfold binFrame at h
  split at h
  case h_1 code text hSplit =>
    have hNone : ¬ ((server.isWindowsSide ∨ server.isLinuxSide) ∧ code = commands .bin) := by
      intro hSide
      rw [if_pos hSide] at h
      cases h
    rw [messageParse, hSplit]
    dsimp only
    rw [if_neg fun hSide => hNone ⟨.inl hSide.1, hSide.2⟩,
      if_neg fun hSide => hNone ⟨.inr hSide.1, hSide.2⟩]
    split_ifs
    · exact .inl rfl
    · exact .inr rfl
  case h_2 hSplit =>
    rw [messageParse]
    split
    · rename_i code text hPair
      exact absurd hPair (hSplit code text)
    · exact .inr rfl

/-! ## Two threads -/

/-- What the tunnel thread registers next. -/
inductive TunnelPc
  | setRcvCallback
  | setSendCallback
  | registered
  deriving DecidableEq

/-- The network thread waits for a payload, or has found `rcv_callback` set for a frame. `early`
tells that the tunnel thread had registered nothing when that was tested. -/
inductive NetworkPc
  | idle
  | call (early : Bool) (data : Bytes)
  deriving DecidableEq

/-- A BIN_DATA frame that `messageParse` returned true for, with the callbacks it called. -/
structure Frame where
  data : Bytes
  early : Bool
  called : List (Callback × Bytes)
  deriving DecidableEq

structure State where
  server : Server
  queues : Queues
  tunnel : TunnelPc := .setRcvCallback
  network : NetworkPc := .idle
  returned : List Frame := []
  nullCall : Bool := false
  threw : Bool := false

inductive Event
  | register
  | receive (payload : Bytes)
  | call

namespace State

def register (s : State) : Option State :=
  match s.tunnel with
  | .setRcvCallback => some { s with
      server := { s.server with rcvCallback := some .rcvCallback }
      tunnel := .setSendCallback }
  | .setSendCallback => some { s with
      server := { s.server with sendCallback := some .sendCallback }
      tunnel := .registered }
  | .registered => none

def receive (s : State) (payload : Bytes) : Option State :=
  match s.network with
  | .call _ _ => none
  | .idle =>
    match binFrame s.server payload with
    | none => some s
    | some data =>
      let early : Bool := s.tunnel = .setRcvCallback
      match s.server.rcvCallback with
      | none => some { s with returned := s.returned ++ [⟨data, early, []⟩] }
      | some _ => some { s with network := .call early data }

def call (s : State) : Option State :=
  match s.network with
  | .idle => none
  | .call early data =>
    match calledPointer s.server with
    | none => some { s with nullCall := true }
    | some callback =>
      match callback.run data s.queues with
      | .error _ => some { s with threw := true }
      | .ok queues => some { s with
          queues := queues
          network := .idle
          returned := s.returned ++ [⟨data, early, [(callback, data)]⟩] }

end State

/-- The program ends where a callback throws or a null pointer is called. -/
def machine : EventMachine State Event where
  step s e :=
    if s.nullCall ∨ s.threw then none
    else match e with
      | .register => s.register
      | .receive payload => s.receive payload
      | .call => s.call

def start (server : Server) (queues : Queues) : State where
  server := { server with rcvCallback := none, sendCallback := none }
  queues := queues

/-- What a step can do. -/
inductive Move (s : State) : Event → State → Prop
  | rcvSet (hTunnel : s.tunnel = .setRcvCallback) :
      Move s .register { s with
        server := { s.server with rcvCallback := some .rcvCallback }
        tunnel := .setSendCallback }
  | sendSet (hTunnel : s.tunnel = .setSendCallback) :
      Move s .register { s with
        server := { s.server with sendCallback := some .sendCallback }
        tunnel := .registered }
  | noFrame {payload : Bytes} : Move s (.receive payload) s
  | consumed {payload data : Bytes} (hFrame : binFrame s.server payload = some data)
      (hGuard : s.server.rcvCallback = none) :
      Move s (.receive payload) { s with
        returned := s.returned ++ [⟨data, decide (s.tunnel = .setRcvCallback), []⟩] }
  | tested {payload data : Bytes} (hFrame : binFrame s.server payload = some data)
      (hGuard : s.server.rcvCallback ≠ none) :
      Move s (.receive payload) { s with
        network := .call (decide (s.tunnel = .setRcvCallback)) data }
  | nullCalled {early : Bool} {data : Bytes} (hNetwork : s.network = .call early data)
      (hPointer : calledPointer s.server = none) : Move s .call { s with nullCall := true }
  | thrown : Move s .call { s with threw := true }
  | handed {early : Bool} {data : Bytes} {callback : Callback} {queues : Queues}
      (hNetwork : s.network = .call early data)
      (hPointer : calledPointer s.server = some callback) :
      Move s .call { s with
        queues := queues
        network := .idle
        returned := s.returned ++ [⟨data, early, [(callback, data)]⟩] }

theorem of_register {s t : State} (h : s.register = some t) : Move s .register t := by
  unfold State.register at h
  split at h
  case h_1 hTunnel => exact Option.some.inj h ▸ .rcvSet hTunnel
  case h_2 hTunnel => exact Option.some.inj h ▸ .sendSet hTunnel
  case h_3 => cases h

theorem of_receive {s t : State} {payload : Bytes} (h : s.receive payload = some t) :
    Move s (.receive payload) t := by
  unfold State.receive at h
  split at h
  case h_1 => cases h
  case h_2 =>
    split at h
    case h_1 => exact Option.some.inj h ▸ .noFrame
    case h_2 data hFrame =>
      dsimp only at h
      split at h
      case h_1 hGuard => exact Option.some.inj h ▸ .consumed hFrame hGuard
      case h_2 callback hGuard =>
        exact Option.some.inj h ▸ .tested hFrame (by simp [hGuard])

theorem of_call {s t : State} (h : s.call = some t) : Move s .call t := by
  unfold State.call at h
  split at h
  case h_1 => cases h
  case h_2 early data hNetwork =>
    split at h
    case h_1 hPointer => exact Option.some.inj h ▸ .nullCalled hNetwork hPointer
    case h_2 callback hPointer =>
      split at h
      case h_1 => exact Option.some.inj h ▸ .thrown
      case h_2 => exact Option.some.inj h ▸ .handed hNetwork hPointer

theorem move_of_step {s t : State} {e : Event} (h : machine.step s e = some t) : Move s e t := by
  simp only [machine, Option.ite_none_left_eq_some] at h
  obtain ⟨-, h⟩ := h
  cases e with
  | register => exact of_register h
  | receive payload => exact of_receive h
  | call => exact of_call h

/-! ## What becomes of a frame -/

structure Registering (server : Server) (s : State) : Prop where
  type : s.server.type = server.type
  rcv : s.server.rcvCallback = if s.tunnel = .setRcvCallback then none else some .rcvCallback
  send : s.server.sendCallback = if s.tunnel = .registered then some .sendCallback else none
  frame : ∀ early data, s.network = .call early data →
    early = false ∧ s.tunnel ≠ .setRcvCallback ∧ server.type ≠ .unknown
  returned : ∀ frame ∈ s.returned, ∃ callback, server.type.callback = some callback ∧
    frame.called = if frame.early then [] else [(callback, frame.data)]
  null : s.nullCall = true → server.type = .linux

variable {server : Server} {s t : State}

theorem binFrame_type {message data : Bytes} (h : binFrame server message = some data) :
    server.type ≠ .unknown := by
  rintro hType
  unfold binFrame at h
  split at h
  · simp [Server.isWindowsSide, Server.isLinuxSide, hType] at h
  · cases h

theorem exists_callback (h : server.type ≠ .unknown) :
    ∃ callback, server.type.callback = some callback := by
  cases hType : server.type with
  | unknown => exact absurd hType h
  | windows => exact ⟨_, rfl⟩
  | linux => exact ⟨_, rfl⟩

theorem registering_start (server : Server) (queues : Queues) :
    Registering server (start server queues) where
  type := rfl
  rcv := rfl
  send := rfl
  frame := by intro early data hNetwork; cases hNetwork
  returned := by simp [start]
  null := by intro hNull; cases hNull

namespace Registering

/-- The pointer is that of the callback of the side, as far as it is set. -/
theorem calledPointer_eq (h : Registering server s) (hSide : server.type ≠ .unknown)
    (hRcv : s.tunnel ≠ .setRcvCallback) :
    calledPointer s.server =
      if server.type = .windows ∨ s.tunnel = .registered then server.type.callback else none := by
  rw [calledPointer, Server.isWindowsSide, h.type, h.rcv, h.send, if_neg hRcv]
  cases hType : server.type with
  | unknown => exact absurd hType hSide
  | windows => rfl
  | linux => simp [ServerType.callback]

/-- One more frame, with what was called for it. -/
theorem returned_concat (h : Registering server s) {frame : Frame} {callback : Callback}
    (hCallback : server.type.callback = some callback)
    (hCalled : frame.called = if frame.early then [] else [(callback, frame.data)]) :
    ∀ r ∈ s.returned ++ [frame], ∃ callback, server.type.callback = some callback ∧
      r.called = if r.early then [] else [(callback, r.data)] := by
  intro r hMem
  rcases List.mem_append.mp hMem with hOld | hNew
  · exact h.returned r hOld
  · obtain rfl := List.mem_singleton.mp hNew
    exact ⟨callback, hCallback, hCalled⟩

/-- The guard of the frame is `rcv_callback`, whatever the side. -/
theorem guard_iff (h : Registering server s) :
    s.server.rcvCallback = none ↔ s.tunnel = .setRcvCallback := by
  rw [h.rcv]
  split_ifs with hTunnel
  · exact iff_of_true rfl hTunnel
  · exact iff_of_false (by simp) hTunnel

theorem step (h : Registering server s) {e : Event} (hStep : machine.step s e = some t) :
    Registering server t := by
  cases move_of_step hStep with
  | rcvSet hTunnel =>
    refine ⟨h.type, rfl, by simpa [hTunnel] using h.send, ?_, h.returned, h.null⟩
    intro early data hNetwork
    obtain ⟨hEarly, -, hSide⟩ := h.frame early data hNetwork
    exact ⟨hEarly, by simp, hSide⟩
  | sendSet hTunnel =>
    refine ⟨h.type, by simpa [hTunnel] using h.rcv, rfl, ?_, h.returned, h.null⟩
    intro early data hNetwork
    obtain ⟨hEarly, -, hSide⟩ := h.frame early data hNetwork
    exact ⟨hEarly, by simp, hSide⟩
  | noFrame => exact h
  | consumed hFrame hGuard =>
    obtain ⟨callback, hCallback⟩ := exists_callback (h.type ▸ binFrame_type hFrame)
    have hEarly := h.guard_iff.mp hGuard
    exact ⟨h.type, h.rcv, h.send, h.frame, h.returned_concat hCallback (by simp [hEarly]), h.null⟩
  | tested hFrame hGuard =>
    have hRcv := h.guard_iff.not.mp hGuard
    refine ⟨h.type, h.rcv, h.send, ?_, h.returned, h.null⟩
    rintro early data hCall
    cases hCall
    exact ⟨decide_eq_false hRcv, hRcv, h.type ▸ binFrame_type hFrame⟩
  | nullCalled hNetwork hPointer =>
    obtain ⟨-, hRcv, hSide⟩ := h.frame _ _ hNetwork
    refine ⟨h.type, h.rcv, h.send, h.frame, h.returned, fun _ => ?_⟩
    rw [h.calledPointer_eq hSide hRcv] at hPointer
    cases hType : server.type with
    | unknown => exact absurd hType hSide
    | windows => simp [hType, ServerType.callback] at hPointer
    | linux => rfl
  | thrown => exact ⟨h.type, h.rcv, h.send, h.frame, h.returned, h.null⟩
  | handed hNetwork hPointer =>
    obtain ⟨rfl, hRcv, hSide⟩ := h.frame _ _ hNetwork
    rw [h.calledPointer_eq hSide hRcv, Option.ite_none_right_eq_some] at hPointer
    refine ⟨h.type, h.rcv, h.send, ?_, h.returned_concat hPointer.2 rfl, h.null⟩
    intro early data hCall
    cases hCall

end Registering

/-- A call is made when both callbacks are registered. -/
def CalledRegistered (s : State) : Event → Prop
  | .call => s.tunnel = .registered
  | _ => True

theorem Registering.not_null (h : Registering server s) (hNull : s.nullCall = false) {e : Event}
    (hCalled : CalledRegistered s e) (hStep : machine.step s e = some t) : t.nullCall = false := by
  cases move_of_step hStep with
  | nullCalled hNetwork hPointer =>
    obtain ⟨-, hRcv, hSide⟩ := h.frame _ _ hNetwork
    obtain ⟨callback, hCallback⟩ := exists_callback hSide
    rw [h.calledPointer_eq hSide hRcv, if_pos (.inr hCalled), hCallback] at hPointer
    cases hPointer
  | _ => exact hNull

/-- A frame tested before `set_rcv_callback` is consumed without a call; any other frame that
`messageParse` returns true for was handed once to the callback of its side. The Windows side never
calls through a null pointer, and no side does when it calls with both callbacks registered. -/
theorem frames_handedOver {queues : Queues} {es : List Event}
    (h : machine.run (start server queues) es = some s) :
    (∀ frame ∈ s.returned, ∃ callback, server.type.callback = some callback ∧
      frame.called = if frame.early then [] else [(callback, frame.data)]) ∧
      (server.type = .windows → s.nullCall = false) ∧
      (machine.StepsMeet CalledRegistered (start server queues) es → s.nullCall = false) := by
  have hStart := registering_start server queues
  have hEnd := machine.run_invariant (P := Registering server) (fun _ _ _ hs => hs.step) hStart h
  refine ⟨hEnd.returned, fun hWindows => ?_, fun hSteps => ?_⟩
  · by_contra hNull
    have hLinux := hEnd.null (by simpa using hNull)
    rw [hWindows] at hLinux
    cases hLinux
  · have hAll : machine.Throughout (·.nullCall = false) (start server queues) es := by
      apply machine.throughout_of_stepsMeet
        (I := fun s => Registering server s ∧ s.nullCall = false) _ (fun _ hs => hs.2)
        ⟨hStart, rfl⟩ hSteps
      intro s e t hs hCalled hStep
      exact ⟨hs.1.step hStep, hs.1.not_null hs.2 hCalled hStep⟩
    exact hAll.last _ h

/-- The frame arrives between the two registrations and is handed over after the second. -/
def betweenRegistrations : List Event :=
  [.register, .receive (bytes "BIN_DATA:aGk="), .register, .call]

theorem frames_handedOver_betweenRegistrations :
    ∃ s, machine.run (start { type := .linux } {}) betweenRegistrations = some s ∧
      (∀ frame ∈ s.returned, ∃ callback, ServerType.linux.callback = some callback ∧
        frame.called = if frame.early then [] else [(callback, frame.data)]) ∧
      (ServerType.linux = .windows → s.nullCall = false) ∧
      (machine.StepsMeet CalledRegistered (start { type := .linux } {}) betweenRegistrations →
        s.nullCall = false) := by
  have hSome : (machine.run (start { type := .linux } {}) betweenRegistrations).isSome := by
    decide +kernel
  obtain ⟨s, hRun⟩ := Option.isSome_iff_exists.mp hSome
  exact ⟨s, hRun, frames_handedOver hRun⟩

/-- A frame that arrives before the registrations is consumed and handed to nobody. -/
theorem early_frame_is_lost :
    ¬ ∀ es s, machine.run (start { type := .linux } {}) es = some s →
      ∀ frame ∈ s.returned, frame.called = [(.sendCallback, frame.data)] := by
  intro hAll
  have hLost : ((machine.run (start { type := .linux } {})
      [.receive (bytes "BIN_DATA:aGk=")]).map (·.returned)) =
        some [⟨bytes "aGk=", true, []⟩] := by
    decide +kernel
  obtain ⟨s, hRun, hReturned⟩ := Option.map_eq_some_iff.mp hLost
  have hCalled := hAll _ s hRun ⟨bytes "aGk=", true, []⟩ (by simp [hReturned])
  cases hCalled

end ScRedirection.WebsocketServer.Registration
