import ScRedirection.Library.EventMachine
import ScRedirection.TcpTunnel.UseTunnel

/-! # tcptunnel.cpp: the accept loop

`tcptunnel_loop` from its `do`, with `wait_for_clients`, `handle_client`, `build_tunnel` and
`use_tunnel` inlined, as the process that runs it stands before each call. What the calls act on
is left open: a use of this module says what a call does to its data, and `fork` copies them.
-/

namespace ScRedirection.TcpTunnel

open WebsocketServer

/-- Whether `options.client_address` is set and must be matched is `clientAddress`. -/
structure Settings where
  stayAlive : Bool
  fork : Bool
  clientAddress : Bool
  deriving DecidableEq, Repr

/-- The process started by the user, or one of those it forked. -/
inductive Role
  | parent
  | child
  deriving DecidableEq, Repr

inductive LoopPc
  | accept
  | checkAddress
  | closeRefused
  | fork
  | closeClient
  | closeServer
  | gethostbyname
  | socket
  | connect
  | useTunnel (pc : Pc)
  | exit
  | closeListener
  | finished
  | terminated
  deriving DecidableEq, Repr

/-- `fork none` is its failure, which the code takes for the parent's return. -/
inductive LoopAction
  | accept (fd : Option Nat)
  | checkAddress (admitted : Bool)
  | closeClient
  | fork (created : Bool)
  | closeServer
  | gethostbyname (found : Bool)
  | socket (fd : Option Nat)
  | connect (connected : Bool)
  | tunnel (a : Action)
  | exit
  deriving DecidableEq, Repr

section Step

variable (settings : Settings) (server : Option ServerType) (role : Role)

/-- `while (settings.stay_alive)`. -/
def endRound : LoopPc := if settings.stayAlive then .accept else .closeListener

/-- `handle_client`, once a client is admitted. -/
def handleClient : LoopPc := if settings.fork then .fork else .gethostbyname

/-- Where `handle_tunnel` returns to. -/
def leaveTunnel : LoopPc :=
  match role with
  | .parent => endRound settings
  | .child => .exit

def inTunnel : Pc → LoopPc
  | .returned _ => leaveTunnel settings role
  | .terminated => .terminated
  | pc => .useTunnel pc

def loopStep : LoopPc → LoopAction → Option LoopPc
  | .accept, .accept none => some (endRound settings)
  | .accept, .accept (some _) =>
    some (if settings.clientAddress then .checkAddress else handleClient settings)
  | .checkAddress, .checkAddress admitted =>
    some (if admitted then handleClient settings else .closeRefused)
  | .closeRefused, .closeClient => some (endRound settings)
  | .fork, .fork _ => some .closeClient
  | .closeClient, .closeClient => some (endRound settings)
  | .closeServer, .closeServer => some .gethostbyname
  | .gethostbyname, .gethostbyname found =>
    some (if found then .socket else leaveTunnel settings role)
  | .socket, .socket none => some (leaveTunnel settings role)
  | .socket, .socket (some _) => some .connect
  | .connect, .connect connected =>
    some (if connected then .useTunnel .select else leaveTunnel settings role)
  | .useTunnel pc, .tunnel a => (step server pc a).map (inTunnel settings role)
  | .exit, .exit => some .finished
  | .closeListener, .closeServer => some .finished
  | _, _ => none

inductive LoopMove : LoopPc → LoopAction → LoopPc → Prop
  | acceptFailed : LoopMove .accept (.accept none) (endRound settings)
  | accepted {fd : Nat} :
      LoopMove .accept (.accept (some fd))
        (if settings.clientAddress then .checkAddress else handleClient settings)
  | admitted : LoopMove .checkAddress (.checkAddress true) (handleClient settings)
  | refused : LoopMove .checkAddress (.checkAddress false) .closeRefused
  | closeRefused : LoopMove .closeRefused .closeClient (endRound settings)
  | fork {created : Bool} : LoopMove .fork (.fork created) .closeClient
  | closeClient : LoopMove .closeClient .closeClient (endRound settings)
  | closeServer : LoopMove .closeServer .closeServer .gethostbyname
  | hostFound : LoopMove .gethostbyname (.gethostbyname true) .socket
  | hostNotFound : LoopMove .gethostbyname (.gethostbyname false) (leaveTunnel settings role)
  | socketFailed : LoopMove .socket (.socket none) (leaveTunnel settings role)
  | socketCreated {fd : Nat} : LoopMove .socket (.socket (some fd)) .connect
  | connected : LoopMove .connect (.connect true) (.useTunnel .select)
  | connectFailed : LoopMove .connect (.connect false) (leaveTunnel settings role)
  | tunnel {pc pc' : Pc} {a : Action} (hMove : Move server pc a pc') :
      LoopMove (.useTunnel pc) (.tunnel a) (inTunnel settings role pc')
  | exit : LoopMove .exit .exit .finished
  | closeListener : LoopMove .closeListener .closeServer .finished

variable {settings server role} in
theorem loopStep_eq_some {pc pc' : LoopPc} {a : LoopAction} :
    loopStep settings server role pc a = some pc' ↔ LoopMove settings server role pc a pc' := by
  constructor
  · intro h
    unfold loopStep at h
    split at h
    · cases h; exact .acceptFailed
    · cases h; exact .accepted
    · rename_i admitted
      cases admitted
      · cases h; exact .refused
      · cases h; exact .admitted
    · cases h; exact .closeRefused
    · cases h; exact .fork
    · cases h; exact .closeClient
    · cases h; exact .closeServer
    · rename_i found
      cases found
      · cases h; exact .hostNotFound
      · cases h; exact .hostFound
    · cases h; exact .socketFailed
    · cases h; exact .socketCreated
    · rename_i connected
      cases connected
      · cases h; exact .connectFailed
      · cases h; exact .connected
    · obtain ⟨pc', hMove, rfl⟩ := Option.map_eq_some_iff.mp h
      exact .tunnel (step_eq_some.mp hMove)
    · cases h; exact .exit
    · cases h; exact .closeListener
    · cases h
  · intro h
    cases h with
    | tunnel hMove => simp [loopStep, step_eq_some.mpr hMove]
    | _ => rfl

end Step

/-! ## A process and its children -/

structure Proc (δ : Type) where
  role : Role
  pc : LoopPc
  data : δ

structure World (δ : Type) where
  parent : Proc δ
  children : List (Proc δ) := []

/-- A call of the parent, a call of a child, or something the parent's network thread does. -/
inductive WorldEvent (ν : Type)
  | parent (a : LoopAction)
  | child (i : Nat) (a : LoopAction)
  | network (n : ν)

section World

variable {δ ν : Type} (settings : Settings) (server : Option ServerType)
  (effect : δ → LoopAction → Option δ) (network : Proc δ → ν → Option (Proc δ))

def Proc.step (p : Proc δ) (a : LoopAction) : Option (Proc δ) := do
  let pc ← loopStep settings server p.role p.pc a
  let data ← effect p.data a
  return { p with pc := pc, data := data }

/-- A child begins with a copy of the data, in the one thread that called `fork`: the network
thread stays with the parent. -/
def Proc.forked (p : Proc δ) : Proc δ := { role := .child, pc := .closeServer, data := p.data }

def World.step (w : World δ) : WorldEvent ν → Option (World δ)
  | .parent a => do
    let p ← w.parent.step settings server effect a
    return { parent := p
             children := if a = .fork true then w.children ++ [p.forked] else w.children }
  | .child i a => do
    let c ← w.children[i]?
    let c ← c.step settings server effect a
    return { w with children := w.children.set i c }
  | .network n => do
    let p ← network w.parent n
    return { w with parent := p }

def loop : EventMachine (World δ) (WorldEvent ν) := ⟨World.step settings server effect network⟩

variable {settings server effect network}

theorem Proc.step_eq_some {p p' : Proc δ} {a : LoopAction}
    (h : p.step settings server effect a = some p') :
    LoopMove settings server p.role p.pc a p'.pc ∧ effect p.data a = some p'.data ∧
      p'.role = p.role := by
  simp only [Proc.step, Option.bind_eq_bind, Option.bind_eq_some_iff, Option.pure_def,
    Option.some.injEq] at h
  obtain ⟨pc, hPc, data, hData, rfl⟩ := h
  exact ⟨loopStep_eq_some.mp hPc, hData, rfl⟩

theorem Proc.closeClient_of_fork {p p' : Proc δ} {created : Bool}
    (h : p.step settings server effect (.fork created) = some p') : p'.pc = .closeClient := by
  obtain ⟨hMove, -⟩ := Proc.step_eq_some h
  generalize p.pc = pc at hMove
  generalize hNew : p'.pc = pc' at hMove
  cases hMove
  rfl

variable (settings server effect network) in
/-- An event moves one process, and a fork adds one. -/
inductive World.Moved (w : World δ) : WorldEvent ν → World δ → Prop
  | parent {a : LoopAction} {p : Proc δ} (hStep : w.parent.step settings server effect a = some p)
      (hFork : a ≠ .fork true) : Moved w (.parent a) { w with parent := p }
  | fork {p : Proc δ}
      (hStep : w.parent.step settings server effect (.fork true) = some p) :
      Moved w (.parent (.fork true)) { parent := p, children := w.children ++ [p.forked] }
  | child {i : Nat} {a : LoopAction} {c c' : Proc δ} (hChild : w.children[i]? = some c)
      (hStep : c.step settings server effect a = some c') :
      Moved w (.child i a) { w with children := w.children.set i c' }
  | network {n : ν} {p : Proc δ} (hNetwork : network w.parent n = some p) :
      Moved w (.network n) { w with parent := p }

theorem World.step_moved {w w' : World δ} {e : WorldEvent ν}
    (h : w.step settings server effect network e = some w') :
    w.Moved settings server effect network e w' := by
  cases e with
  | parent a =>
    simp only [World.step, Option.bind_eq_bind, Option.bind_eq_some_iff, Option.pure_def,
      Option.some.injEq] at h
    obtain ⟨p, hStep, rfl⟩ := h
    by_cases hFork : a = .fork true
    · subst hFork
      rw [if_pos rfl]
      exact .fork hStep
    · rw [if_neg hFork]
      exact .parent hStep hFork
  | child i a =>
    simp only [World.step, Option.bind_eq_bind, Option.bind_eq_some_iff, Option.pure_def,
      Option.some.injEq] at h
    obtain ⟨c, hChild, c', hStep, rfl⟩ := h
    exact .child hChild hStep
  | network n =>
    simp only [World.step, Option.bind_eq_bind, Option.bind_eq_some_iff, Option.pure_def,
      Option.some.injEq] at h
    obtain ⟨p, hNetwork, rfl⟩ := h
    exact .network hNetwork

def World.start (data : δ) : World δ :=
  { parent := { role := .parent, pc := .accept, data := data } }

end World

end ScRedirection.TcpTunnel
