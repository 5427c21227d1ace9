import ScRedirection.WebsocketServer

/-! # tcptunnel.cpp: use_tunnel

The loop as the thread that runs it, stopped before each call it makes. What a call returns is
part of the action, so the network thread may act between any two of them. Each turn of the loop
has two halves, one for each socket and the queue named after it; they differ in nothing else.
`send` takes its whole argument, and a chunk may have any length, whatever the buffer.
-/

namespace ScRedirection.TcpTunnel

open Json Websocketpp WebsocketServer

structure FdSet where
  client : Bool
  remote : Bool
  deriving DecidableEq, Repr

def FdSet.isSet (io : FdSet) : Socket → Bool
  | .client => io.client
  | .remote => io.remote

/-- The call the thread is about to make. `send sock` follows the pop of that socket's queue and
writes to the other socket. -/
inductive Pc
  | select
  | getSize (sock : Socket) (io : FdSet)
  | pop (sock : Socket) (io : FdSet)
  | send (sock : Socket) (io : FdSet) (decoded : Bytes)
  | recv (sock : Socket) (io : FdSet)
  | broadcast (sock : Socket) (io : FdSet) (chunk : Bytes)
  | close (sock : Socket) (ret : Nat)
  | returned (ret : Nat)
  | terminated
  deriving DecidableEq, Repr

/-- The calls. `select none` is a failure; `recv` gives an error, the end of the stream as the
empty string, or a chunk. -/
inductive Action
  | select (io : Option FdSet)
  | getSize (sock : Socket) (size : Nat)
  | pop (sock : Socket) (item : Bytes)
  | send (sock : Socket) (data : Bytes)
  | recv (sock : Socket) (result : Option Bytes)
  | broadcast (chunk : Bytes) (returned : Bool)
  | close (sock : Socket)
  deriving DecidableEq, Repr

/-- `IS_WINDOWS_SERVER` for the client half, `IS_LINUX_SERVER` for the remote half: the queue is
popped and the socket is not read. -/
def drains : Option ServerType → Socket → Bool
  | some .windows, .client => true
  | some .linux, .remote => true
  | _, _ => false

/-- The side whose chunks from this socket are broadcast. -/
def forwards : Option ServerType → Socket → Bool
  | some .linux, .client => true
  | some .windows, .remote => true
  | _, _ => false

/-! ## The two sides -/

inductive Side
  | linux
  | windows
  deriving DecidableEq, Repr

namespace Side

def type : Side → ServerType
  | linux => .linux
  | windows => .windows

def other : Side → Side
  | linux => windows
  | windows => linux

/-- The socket a side reads, and writes what it pops to. -/
def socket : Side → Socket
  | linux => .client
  | windows => .remote

def callback : Side → Callback
  | linux => .sendCallback
  | windows => .rcvCallback

theorem type_callback (s : Side) : s.type.callback = some s.callback := by cases s <;> rfl

theorem callback_queue (s : Side) : s.callback.queue = s.socket.opposite := by cases s <;> rfl

theorem other_ne (s : Side) : s.other ≠ s := by cases s <;> decide

@[simp] theorem other_other (s : Side) : s.other.other = s := by cases s <;> rfl

theorem eq_or_eq_other (r s : Side) : r = s ∨ r = s.other := by
  cases r <;> cases s <;> decide

theorem forwards_iff (s : Side) (sock : Socket) :
    forwards (some s.type) sock = true ↔ sock = s.socket := by
  cases s <;> cases sock <;> decide

end Side

theorem forwards_side {server : Option ServerType} {sock : Socket}
    (h : forwards server sock = true) : ∃ s : Side, server = some s.type ∧ sock = s.socket := by
  cases server with
  | none => cases h
  | some type =>
    cases type with
    | unknown => cases sock <;> cases h
    | windows => exact ⟨.windows, rfl, (Side.windows.forwards_iff sock).mp h⟩
    | linux => exact ⟨.linux, rfl, (Side.linux.forwards_iff sock).mp h⟩

/-! ## A turn of the loop -/

section Turn

variable (server : Option ServerType)

def enterRemote (io : FdSet) : Pc :=
  if drains server .remote then .getSize .remote io
  else if io.remote then .recv .remote io
  else .select

def enterClient (io : FdSet) : Pc :=
  if drains server .client then .getSize .client io
  else if io.client then .recv .client io
  else enterRemote server io

/-- Where a half ends. -/
def next (io : FdSet) : Socket → Pc
  | .client => enterRemote server io
  | .remote => .select

theorem enterClient_linux (io : FdSet) : enterClient (some .linux) io =
    if io.client then .recv .client io else .getSize .remote io := rfl

theorem next_windows_client (io : FdSet) : next (some .windows) io .client =
    if io.remote then .recv .remote io else .select := rfl

theorem next_remote (io : FdSet) : next server io .remote = .select := rfl

/-- The calls that begin a half or a turn: nothing is held at them. -/
inductive Pc.Begins : Pc → Prop
  | select : Begins .select
  | getSize (sock : Socket) (io : FdSet) : Begins (.getSize sock io)
  | recv (sock : Socket) (io : FdSet) : Begins (.recv sock io)

theorem begins_enterRemote (io : FdSet) : (enterRemote server io).Begins := by
  unfold enterRemote
  split_ifs <;> constructor

theorem begins_enterClient (io : FdSet) : (enterClient server io).Begins := by
  unfold enterClient
  split_ifs
  · constructor
  · constructor
  · exact begins_enterRemote server io

theorem begins_next (io : FdSet) (sock : Socket) : (next server io sock).Begins := by
  cases sock with
  | client => exact begins_enterRemote server io
  | remote => exact .select

def step : Pc → Action → Option Pc
  | .select, .select none => some (.returned 0)
  | .select, .select (some io) => some (enterClient server io)
  | .getSize sock io, .getSize sock' size =>
    if sock' = sock then some (if size > 0 then .pop sock io else next server io sock) else none
  | .pop sock io, .pop sock' item => if sock' = sock then some (.send sock io item) else none
  | .send sock io decoded, .send sock' data =>
    if sock' = sock.opposite ∧ data = decoded then some (next server io sock) else none
  | .recv sock io, .recv sock' result =>
    if sock' = sock then
      match result with
      | none => some (.close .client 1)
      | some [] => some (.close .client 0)
      | some chunk =>
        some (if forwards server sock then .broadcast sock io chunk else next server io sock)
    else none
  | .broadcast sock io chunk, .broadcast chunk' returned =>
    if chunk' = chunk then some (if returned then next server io sock else .terminated) else none
  | .close .client ret, .close .client => some (.close .remote ret)
  | .close .remote ret, .close .remote => some (.returned ret)
  | _, _ => none

inductive Move : Pc → Action → Pc → Prop
  | selectFailed : Move .select (.select none) (.returned 0)
  | selectReady {io : FdSet} : Move .select (.select (some io)) (enterClient server io)
  | queueEmpty {sock : Socket} {io : FdSet} :
      Move (.getSize sock io) (.getSize sock 0) (next server io sock)
  | queueNonempty {sock : Socket} {io : FdSet} {size : Nat} (hSize : size > 0) :
      Move (.getSize sock io) (.getSize sock size) (.pop sock io)
  | popped {sock : Socket} {io : FdSet} {item : Bytes} :
      Move (.pop sock io) (.pop sock item) (.send sock io item)
  | sent {sock : Socket} {io : FdSet} {decoded : Bytes} :
      Move (.send sock io decoded) (.send sock.opposite decoded) (next server io sock)
  | recvFailed {sock : Socket} {io : FdSet} :
      Move (.recv sock io) (.recv sock none) (.close .client 1)
  | recvEnded {sock : Socket} {io : FdSet} :
      Move (.recv sock io) (.recv sock (some [])) (.close .client 0)
  | forwarded {sock : Socket} {io : FdSet} {chunk : Bytes} (hChunk : chunk ≠ [])
      (hForwards : forwards server sock = true) :
      Move (.recv sock io) (.recv sock (some chunk)) (.broadcast sock io chunk)
  | dropped {sock : Socket} {io : FdSet} {chunk : Bytes} (hChunk : chunk ≠ [])
      (hForwards : forwards server sock = false) :
      Move (.recv sock io) (.recv sock (some chunk)) (next server io sock)
  | broadcastReturned {sock : Socket} {io : FdSet} {chunk : Bytes} :
      Move (.broadcast sock io chunk) (.broadcast chunk true) (next server io sock)
  | broadcastThrew {sock : Socket} {io : FdSet} {chunk : Bytes} :
      Move (.broadcast sock io chunk) (.broadcast chunk false) .terminated
  | closeClient {ret : Nat} : Move (.close .client ret) (.close .client) (.close .remote ret)
  | closeRemote {ret : Nat} : Move (.close .remote ret) (.close .remote) (.returned ret)

variable {server} in
theorem step_eq_some {pc pc' : Pc} {a : Action} :
    step server pc a = some pc' ↔ Move server pc a pc' := by
  constructor
  · intro h
    unfold step at h
    split at h
    · cases h; exact .selectFailed
    · cases h; exact .selectReady
    · rename_i sock io sock' size
      split_ifs at h with hSock hSize
      · cases h; subst hSock; exact .queueNonempty hSize
      · cases h; subst hSock
        obtain rfl : size = 0 := by omega
        exact .queueEmpty
    · split_ifs at h with hSock
      cases h; subst hSock; exact .popped
    · split_ifs at h with hSent
      obtain ⟨rfl, rfl⟩ := hSent
      cases h; exact .sent
    · rename_i sock io sock' result
      by_cases hSock : sock' = sock
      · rw [if_pos hSock] at h
        subst hSock
        match result with
        | none => cases h; exact .recvFailed
        | some [] => cases h; exact .recvEnded
        | some (x :: chunk) =>
          cases hForwards : forwards server sock' with
          | true => simp [hForwards] at h; subst h; exact .forwarded (by simp) hForwards
          | false => simp [hForwards] at h; subst h; exact .dropped (by simp) hForwards
      · rw [if_neg hSock] at h
        cases h
    · split_ifs at h with hChunk hReturned
      · subst hChunk hReturned; cases h; exact .broadcastReturned
      · subst hChunk
        obtain rfl : _ = false := by simpa using hReturned
        cases h; exact .broadcastThrew
    · cases h; exact .closeClient
    · cases h; exact .closeRemote
    · cases h
  · intro h
    cases h with
    | queueEmpty => simp [step]
    | queueNonempty hSize => simp [step, hSize]
    | forwarded hChunk hForwards => simp [step, hForwards]
    | dropped hChunk hForwards => simp [step, hForwards]
    | _ => simp [step]

end Turn

/-! ## The thread in its process -/

/-- The memory a fork copies. -/
structure Memory where
  server : Option Server
  queues : Queues
  endpoint : Endpoint

structure Process extends Memory where
  pc : Pc

namespace Memory

def serverType (m : Memory) : Option ServerType := m.server.map (·.type)

def openConnections (m : Memory) : List ConnectionHdl :=
  match m.server with
  | some server => server.openConnections
  | none => []

/-- `"BIN_DATA|" + base64_encode(buffer, count)`. -/
def binData (chunk : Bytes) : Bytes := bytes "BIN_DATA|" ++ Base64.base64Encode false chunk

def broadcast (m : Memory) (chunk : Bytes) : Except Exn Unit × Endpoint :=
  broadcastMessage Doubles.absent (binData chunk) .null m.endpoint m.openConnections

/-- What a call of the thread does to the memory, if it can return what the action says. -/
def effect (m : Memory) : Action → Option Memory
  | .getSize sock size => if size = (m.queues.data sock).length then some m else none
  | .pop sock item =>
    if item = (m.queues.data sock).headD [] then
      some { m with queues := m.queues.setData sock (m.queues.data sock).tail }
    else none
  | .broadcast chunk returned =>
    if returned = (m.broadcast chunk).1.isOk then
      some { m with endpoint := (m.broadcast chunk).2 }
    else none
  | _ => some m

end Memory

namespace Process

def useTunnel (p : Process) (a : Action) : Option Process := do
  let pc ← step p.serverType p.pc a
  let memory ← p.effect a
  return { memory with pc := pc }

inductive Step (p : Process) : Action → Process → Prop
  | selectFailed (hPc : p.pc = .select) : Step p (.select none) { p with pc := .returned 0 }
  | selectReady {io : FdSet} (hPc : p.pc = .select) :
      Step p (.select (some io)) { p with pc := enterClient p.serverType io }
  | queueEmpty {sock : Socket} {io : FdSet} (hPc : p.pc = .getSize sock io)
      (hData : p.queues.data sock = []) :
      Step p (.getSize sock 0) { p with pc := next p.serverType io sock }
  | queueNonempty {sock : Socket} {io : FdSet} (hPc : p.pc = .getSize sock io)
      (hData : p.queues.data sock ≠ []) :
      Step p (.getSize sock (p.queues.data sock).length) { p with pc := .pop sock io }
  | popped {sock : Socket} {io : FdSet} (hPc : p.pc = .pop sock io) :
      Step p (.pop sock ((p.queues.data sock).headD []))
        { p with
          queues := p.queues.setData sock (p.queues.data sock).tail
          pc := .send sock io ((p.queues.data sock).headD []) }
  | sent {sock : Socket} {io : FdSet} {decoded : Bytes} (hPc : p.pc = .send sock io decoded) :
      Step p (.send sock.opposite decoded) { p with pc := next p.serverType io sock }
  | recvFailed {sock : Socket} {io : FdSet} (hPc : p.pc = .recv sock io) :
      Step p (.recv sock none) { p with pc := .close .client 1 }
  | recvEnded {sock : Socket} {io : FdSet} (hPc : p.pc = .recv sock io) :
      Step p (.recv sock (some [])) { p with pc := .close .client 0 }
  | forwarded {sock : Socket} {io : FdSet} {chunk : Bytes} (hPc : p.pc = .recv sock io)
      (hChunk : chunk ≠ []) (hForwards : forwards p.serverType sock = true) :
      Step p (.recv sock (some chunk)) { p with pc := .broadcast sock io chunk }
  | dropped {sock : Socket} {io : FdSet} {chunk : Bytes} (hPc : p.pc = .recv sock io)
      (hChunk : chunk ≠ []) (hForwards : forwards p.serverType sock = false) :
      Step p (.recv sock (some chunk)) { p with pc := next p.serverType io sock }
  | broadcastReturned {sock : Socket} {io : FdSet} {chunk : Bytes}
      (hPc : p.pc = .broadcast sock io chunk) (hReturn : (p.broadcast chunk).1 = .ok ()) :
      Step p (.broadcast chunk true)
        { p with endpoint := (p.broadcast chunk).2, pc := next p.serverType io sock }
  | broadcastThrew {sock : Socket} {io : FdSet} {chunk : Bytes} {exn : Exn}
      (hPc : p.pc = .broadcast sock io chunk) (hThrow : (p.broadcast chunk).1 = .error exn) :
      Step p (.broadcast chunk false)
        { p with endpoint := (p.broadcast chunk).2, pc := .terminated }
  | closeClient {ret : Nat} (hPc : p.pc = .close .client ret) :
      Step p (.close .client) { p with pc := .close .remote ret }
  | closeRemote {ret : Nat} (hPc : p.pc = .close .remote ret) :
      Step p (.close .remote) { p with pc := .returned ret }

theorem useTunnel_step {p p' : Process} {a : Action} (h : p.useTunnel a = some p') :
    p.Step a p' := by
  simp only [useTunnel, Option.bind_eq_bind, Option.bind_eq_some_iff, Option.pure_def,
    Option.some.injEq] at h
  obtain ⟨pc, hMove, memory, hEffect, rfl⟩ := h
  rw [step_eq_some] at hMove
  generalize hPc : p.pc = old at hMove
  cases hMove with
  | selectFailed => cases hEffect; exact .selectFailed hPc
  | selectReady => cases hEffect; exact .selectReady hPc
  | queueEmpty =>
    simp only [Memory.effect, Option.ite_none_right_eq_some, Option.some.injEq] at hEffect
    obtain ⟨hSize, rfl⟩ := hEffect
    exact .queueEmpty hPc (List.length_eq_zero_iff.mp hSize.symm)
  | queueNonempty hSize =>
    simp only [Memory.effect, Option.ite_none_right_eq_some, Option.some.injEq] at hEffect
    obtain ⟨rfl, rfl⟩ := hEffect
    exact .queueNonempty hPc (List.length_pos_iff.mp hSize)
  | popped =>
    simp only [Memory.effect, Option.ite_none_right_eq_some, Option.some.injEq] at hEffect
    obtain ⟨rfl, rfl⟩ := hEffect
    exact .popped hPc
  | sent => cases hEffect; exact .sent hPc
  | recvFailed => cases hEffect; exact .recvFailed hPc
  | recvEnded => cases hEffect; exact .recvEnded hPc
  | forwarded hChunk hForwards => cases hEffect; exact .forwarded hPc hChunk hForwards
  | dropped hChunk hForwards => cases hEffect; exact .dropped hPc hChunk hForwards
  | broadcastReturned =>
    simp only [Memory.effect, Option.ite_none_right_eq_some, Option.some.injEq] at hEffect
    obtain ⟨hOk, rfl⟩ := hEffect
    cases hResult : (p.broadcast _).1 with
    | ok _ => exact .broadcastReturned hPc hResult
    | error exn => rw [hResult] at hOk; cases hOk
  | broadcastThrew =>
    simp only [Memory.effect, Option.ite_none_right_eq_some, Option.some.injEq] at hEffect
    obtain ⟨hOk, rfl⟩ := hEffect
    cases hResult : (p.broadcast _).1 with
    | ok _ => rw [hResult] at hOk; cases hOk
    | error exn => exact .broadcastThrew hPc hResult
  | closeClient => cases hEffect; exact .closeClient hPc
  | closeRemote => cases hEffect; exact .closeRemote hPc

/-- Every such move can be made. -/
theorem Step.useTunnel_eq {p p' : Process} {a : Action} (h : p.Step a p') :
    p.useTunnel a = some p' := by
  have hOf : ∀ {pc : Pc} {memory : Memory}, Move p.serverType p.pc a pc →
      p.effect a = some memory → p.useTunnel a = some { memory with pc := pc } := by
    intro pc memory hMove hEffect
    simp [Process.useTunnel, step_eq_some.mpr hMove, hEffect]
  cases h with
  | selectFailed hPc => exact hOf (hPc ▸ .selectFailed) rfl
  | selectReady hPc => exact hOf (hPc ▸ .selectReady) rfl
  | queueEmpty hPc hData => exact hOf (hPc ▸ .queueEmpty) (by simp [Memory.effect, hData])
  | queueNonempty hPc hData =>
    exact hOf (hPc ▸ .queueNonempty (List.length_pos_iff.mpr hData)) (by simp [Memory.effect])
  | popped hPc => exact hOf (hPc ▸ .popped) (by simp [Memory.effect])
  | sent hPc => exact hOf (hPc ▸ .sent) rfl
  | recvFailed hPc => exact hOf (hPc ▸ .recvFailed) rfl
  | recvEnded hPc => exact hOf (hPc ▸ .recvEnded) rfl
  | forwarded hPc hChunk hForwards => exact hOf (hPc ▸ .forwarded hChunk hForwards) rfl
  | dropped hPc hChunk hForwards => exact hOf (hPc ▸ .dropped hChunk hForwards) rfl
  | broadcastReturned hPc hReturn =>
    refine hOf (hPc ▸ .broadcastReturned) ?_
    simp [Memory.effect, hReturn, Except.isOk, Except.toBool]
  | broadcastThrew hPc hThrow =>
    exact hOf (hPc ▸ .broadcastThrew) (by simp [Memory.effect, hThrow, Except.isOk, Except.toBool])
  | closeClient hPc => exact hOf (hPc ▸ .closeClient) rfl
  | closeRemote hPc => exact hOf (hPc ▸ .closeRemote) rfl

theorem Step.of_effect {m m' : Memory} {pc pc' : Pc} {a : Action}
    (hMove : Move m.serverType pc a pc') (hEffect : m.effect a = some m') :
    Step { m with pc := pc } a { m' with pc := pc' } := by
  apply useTunnel_step
  simp [useTunnel, step_eq_some.mpr hMove, hEffect]

/-- The calls a move can lead to, and what each has from the move. -/
inductive Arrives (p p' : Process) : Action → Pc → Prop
  | begins {a : Action} {pc : Pc} (hBegins : pc.Begins) : Arrives p p' a pc
  | pop {a : Action} {sock : Socket} {io : FdSet} (hData : p'.queues.data sock ≠ []) :
      Arrives p p' a (.pop sock io)
  | send {sock : Socket} {io : FdSet} {item : Bytes} :
      Arrives p p' (.pop sock item) (.send sock io item)
  | broadcast {sock : Socket} {io : FdSet} {chunk : Bytes} (hChunk : chunk ≠ [])
      (hForwards : forwards p.serverType sock = true) :
      Arrives p p' (.recv sock (some chunk)) (.broadcast sock io chunk)
  | close {a : Action} {sock : Socket} {ret : Nat} : Arrives p p' a (.close sock ret)
  | returned {a : Action} {ret : Nat} : Arrives p p' a (.returned ret)
  | terminated {chunk : Bytes} {exn : Exn} (hThrow : (p.broadcast chunk).1 = .error exn) :
      Arrives p p' (.broadcast chunk false) .terminated

theorem Step.arrives {p p' : Process} {a : Action} (h : p.Step a p') : Arrives p p' a p'.pc := by
  cases h with
  | selectReady => exact .begins (begins_enterClient ..)
  | queueEmpty => exact .begins (begins_next ..)
  | queueNonempty _ hData => exact .pop hData
  | popped => exact .send
  | sent => exact .begins (begins_next ..)
  | forwarded _ hChunk hForwards => exact .broadcast hChunk hForwards
  | dropped => exact .begins (begins_next ..)
  | broadcastReturned => exact .begins (begins_next ..)
  | broadcastThrew _ hThrow => exact .terminated hThrow
  | selectFailed => exact .returned
  | recvFailed => exact .close
  | recvEnded => exact .close
  | closeClient => exact .close
  | closeRemote => exact .returned

theorem Step.server_eq {p p' : Process} {a : Action} (h : p.Step a p') : p'.server = p.server := by
  cases h <;> rfl

theorem Step.read_of_broadcast {p p' : Process} {a : Action} (h : p.Step a p') {sock : Socket}
    {io : FdSet} {chunk : Bytes} (hPc : p'.pc = .broadcast sock io chunk) :
    a = .recv sock (some chunk) ∧ chunk ≠ [] ∧ forwards p.serverType sock = true := by
  have hArrives := h.arrives
  rw [hPc] at hArrives
  cases hArrives with
  | begins hBegins => cases hBegins
  | broadcast hChunk hForwards => exact ⟨rfl, hChunk, hForwards⟩

theorem Step.threw_of_terminated {p p' : Process} {a : Action} (h : p.Step a p')
    (hPc : p'.pc = .terminated) :
    ∃ chunk exn, a = .broadcast chunk false ∧ (p.broadcast chunk).1 = .error exn := by
  have hArrives := h.arrives
  rw [hPc] at hArrives
  cases hArrives with
  | begins hBegins => cases hBegins
  | terminated hThrow => exact ⟨_, _, rfl, hThrow⟩

end Process

/-! ## The calls of one side -/

/-- A side reads its own socket and pops the queue of the other one, and does nothing else. -/
inductive Pc.Fits (s : Side) : Pc → Prop
  | select : Fits s .select
  | getSize (io : FdSet) : Fits s (.getSize s.socket.opposite io)
  | pop (io : FdSet) : Fits s (.pop s.socket.opposite io)
  | send (io : FdSet) (decoded : Bytes) : Fits s (.send s.socket.opposite io decoded)
  | recv (io : FdSet) : Fits s (.recv s.socket io)
  | broadcast (io : FdSet) (chunk : Bytes) : Fits s (.broadcast s.socket io chunk)
  | close (sock : Socket) (ret : Nat) : Fits s (.close sock ret)
  | returned (ret : Nat) : Fits s (.returned ret)
  | terminated : Fits s .terminated

theorem fits_enterClient (s : Side) (io : FdSet) : (enterClient (some s.type) io).Fits s := by
  cases s with
  | linux =>
    rw [Side.type, enterClient_linux]
    split_ifs
    · exact .recv io
    · exact .getSize io
  | windows => exact .getSize io

theorem fits_next (s : Side) (io : FdSet) (sock : Socket) :
    (next (some s.type) io sock).Fits s := by
  cases sock with
  | remote => exact .select
  | client =>
    cases s with
    | linux => exact .getSize io
    | windows =>
      rw [Side.type, next_windows_client]
      split_ifs
      · exact .recv io
      · exact .select

theorem Process.Step.fits {s : Side} {p p' : Process} {a : Action} (h : p.Step a p')
    (hType : p.serverType = some s.type) (hFits : p.pc.Fits s) : p'.pc.Fits s := by
  cases h with
  | selectReady => simpa [hType] using fits_enterClient s _
  | queueEmpty => simpa [hType] using fits_next s _ _
  | sent => simpa [hType] using fits_next s _ _
  | dropped => simpa [hType] using fits_next s _ _
  | broadcastReturned => simpa [hType] using fits_next s _ _
  | queueNonempty hPc => rw [hPc] at hFits; cases hFits; exact .pop _
  | popped hPc => rw [hPc] at hFits; cases hFits; exact .send _ _
  | forwarded hPc => rw [hPc] at hFits; cases hFits; exact .broadcast _ _
  | selectFailed => exact .returned _
  | recvFailed => exact .close _ _
  | recvEnded => exact .close _ _
  | broadcastThrew => exact .terminated
  | closeClient => exact .close _ _
  | closeRemote => exact .returned _

def poppedBy : Action → List Bytes
  | .pop _ item => [item]
  | _ => []

/-- No other thread pops, so what `GetSize` saw is still there. -/
def Process.Pending (s : Side) (p : Process) : Prop :=
  ∀ io, p.pc = .pop s.socket.opposite io → p.queues.data s.socket.opposite ≠ []

theorem Process.Step.pending {p p' : Process} {a : Action} (h : p.Step a p') (s : Side) :
    p'.Pending s := by
  intro io hPc
  have hArrives := h.arrives
  rw [hPc] at hArrives
  cases hArrives with
  | begins hBegins => cases hBegins
  | pop hData => exact hData

theorem Process.Step.queue_eq {s : Side} {p p' : Process} {a : Action} (h : p.Step a p')
    (hFits : p.pc.Fits s) (hPending : p.Pending s) :
    p.queues.data s.socket.opposite = poppedBy a ++ p'.queues.data s.socket.opposite := by
  cases h with
  | popped hPc =>
    rename_i sock io
    rw [hPc] at hFits
    cases hFits
    obtain ⟨x, rest, hCons⟩ := List.exists_cons_of_ne_nil (hPending io hPc)
    simp [poppedBy, hCons]
  | _ => rfl

/-! ## What a run writes and reads -/

def sentOn (sock : Socket) (as : List Action) : Bytes :=
  as.flatMap fun
    | .send sock' data => if sock' = sock then data else []
    | _ => []

def receivedOn (sock : Socket) (as : List Action) : Bytes :=
  as.flatMap fun
    | .recv sock' (some chunk) => if sock' = sock then chunk else []
    | _ => []

/-- Read and not yet broadcast. -/
def heldIn : Pc → Bytes
  | .broadcast _ _ chunk => chunk
  | _ => []

/-- Popped and not yet sent. -/
def heldOut (s : Side) : Pc → Bytes
  | .send sock _ decoded => if sock = s.socket.opposite then decoded else []
  | _ => []

theorem heldIn_begins {pc : Pc} (h : pc.Begins) : heldIn pc = [] := by cases h <;> rfl

theorem heldOut_begins (s : Side) {pc : Pc} (h : pc.Begins) : heldOut s pc = [] := by
  cases h <;> rfl

theorem Process.Step.inflow (s : Side) {p p' : Process} {a : Action} (hStep : p.Step a p') :
    heldOut s p.pc ++ (p.queues.data s.socket.opposite).flatten =
      sentOn s.socket [a] ++
        (heldOut s p'.pc ++ (p'.queues.data s.socket.opposite).flatten) := by
  have hOpposite : ∀ sock : Socket, sock.opposite = s.socket ↔ sock = s.socket.opposite := by
    intro sock
    cases sock <;> cases s.socket <;> decide
  cases hStep with
  | popped hPc =>
    rename_i sock io
    rw [hPc]
    by_cases hSock : s.socket.opposite = sock
    · subst hSock
      cases p.queues.data s.socket.opposite <;> simp [heldOut, sentOn]
    · simp [heldOut, sentOn, hSock, Ne.symm hSock]
  | sent hPc =>
    rw [heldOut_begins s (begins_next ..), hPc]
    simp [heldOut, sentOn, hOpposite]
  | _ =>
    simp_all only [heldOut_begins s (begins_next ..), heldOut_begins s (begins_enterClient ..)]
    simp [heldOut, sentOn]

end ScRedirection.TcpTunnel
