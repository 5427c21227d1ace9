import Mathlib.Data.List.Nodup
import ScRedirection.WebsocketServer

/-! # The life of a connection

What the network thread does to the list and to the connection objects, one event at a time: a
connection opens, leaves the open state, is closed, and its object goes.
-/

namespace ScRedirection.WebsocketServer

open Websocketpp

inductive LifeEvent
  | onOpen (conn : ConnectionHdl)
  | leaveOpenState (conn : ConnectionHdl)
  | onClose (conn : ConnectionHdl)
  | expire (conn : ConnectionHdl)
  deriving DecidableEq, Repr

/-- The server and its endpoint after an event, if the connection is where the event finds it. -/
def lifeStep (server : Server) (endpoint : Endpoint) : LifeEvent → Option (Server × Endpoint)
  | .onOpen conn =>
    if endpoint.connections conn = none ∧ conn ∉ server.openConnections then
      some (onOpen server conn, endpoint.set conn (some { state := .open }))
    else none
  | .leaveOpenState conn =>
    match endpoint.connections conn with
    | some ⟨.open, sendQueue⟩ =>
      some (server, endpoint.set conn (some ⟨.closing, sendQueue⟩))
    | _ => none
  | .onClose conn =>
    match endpoint.connections conn with
    | some ⟨.closing, sendQueue⟩ =>
      some (onClose endpoint server conn, endpoint.set conn (some ⟨.closed, sendQueue⟩))
    | _ => none
  | .expire conn =>
    match endpoint.connections conn with
    | some ⟨.closed, _⟩ => some (server, endpoint.set conn none)
    | _ => none

/-- What an event finds and what it leaves. -/
inductive Lives (server : Server) (endpoint : Endpoint) : LifeEvent → Server → Endpoint → Prop
  | onOpen {conn : ConnectionHdl} (hNew : endpoint.connections conn = none)
      (hAbsent : conn ∉ server.openConnections) :
      Lives server endpoint (.onOpen conn) (WebsocketServer.onOpen server conn)
        (endpoint.set conn (some { state := .open }))
  | leaveOpenState {conn : ConnectionHdl} {sendQueue : List Bytes}
      (hOpen : endpoint.connections conn = some ⟨.open, sendQueue⟩) :
      Lives server endpoint (.leaveOpenState conn) server
        (endpoint.set conn (some ⟨.closing, sendQueue⟩))
  | onClose {conn : ConnectionHdl} {sendQueue : List Bytes}
      (hClosing : endpoint.connections conn = some ⟨.closing, sendQueue⟩) :
      Lives server endpoint (.onClose conn) (WebsocketServer.onClose endpoint server conn)
        (endpoint.set conn (some ⟨.closed, sendQueue⟩))
  | expire {conn : ConnectionHdl} {sendQueue : List Bytes}
      (hClosed : endpoint.connections conn = some ⟨.closed, sendQueue⟩) :
      Lives server endpoint (.expire conn) server (endpoint.set conn none)

theorem lifeStep_eq_some {server server' : Server} {endpoint endpoint' : Endpoint}
    {e : LifeEvent} : lifeStep server endpoint e = some (server', endpoint') ↔
      Lives server endpoint e server' endpoint' := by
  constructor
  · intro h
    cases e with
    | onOpen conn =>
      simp only [lifeStep, Option.ite_none_right_eq_some, Option.some.injEq, Prod.mk.injEq] at h
      obtain ⟨⟨hNew, hAbsent⟩, rfl, rfl⟩ := h
      exact .onOpen hNew hAbsent
    | leaveOpenState conn =>
      simp only [lifeStep] at h
      split at h <;> cases h
      exact .leaveOpenState ‹_›
    | onClose conn =>
      simp only [lifeStep] at h
      split at h <;> cases h
      exact .onClose ‹_›
    | expire conn =>
      simp only [lifeStep] at h
      split at h <;> cases h
      exact .expire ‹_›
  · intro h
    cases h with
    | onOpen hNew hAbsent => exact if_pos ⟨hNew, hAbsent⟩
    | leaveOpenState hCon | onClose hCon | expire hCon => simp only [lifeStep, hCon]

theorem lifeStep_type {server server' : Server} {endpoint endpoint' : Endpoint} {e : LifeEvent}
    (h : lifeStep server endpoint e = some (server', endpoint')) : server'.type = server.type := by
  cases lifeStep_eq_some.mp h <;> rfl

/-- An event looks at the list of the server only, and changes nothing else of the server. -/
theorem lifeStep_congr {server server' other : Server} {endpoint endpoint' : Endpoint}
    {e : LifeEvent} (hConns : other.openConnections = server.openConnections)
    (h : lifeStep server endpoint e = some (server', endpoint')) :
    lifeStep other endpoint e =
      some ({ other with openConnections := server'.openConnections }, endpoint') := by
  have hSame : { other with openConnections := server.openConnections } = other := by rw [← hConns]
  cases lifeStep_eq_some.mp h with
  | onOpen hNew hAbsent =>
    rw [← hConns] at hAbsent
    rw [lifeStep_eq_some.mpr (.onOpen hNew hAbsent), onOpen, onOpen, hConns]
  | leaveOpenState hOpen => rw [lifeStep_eq_some.mpr (.leaveOpenState hOpen), hSame]
  | onClose hClosing =>
    rw [lifeStep_eq_some.mpr (.onClose hClosing), onClose, onClose, hConns]
  | expire hClosed => rw [lifeStep_eq_some.mpr (.expire hClosed), hSame]

/-- The list holds live connections, each once, and none whose `onClose` has run. -/
structure Listed (server : Server) (endpoint : Endpoint) : Prop where
  nodup : server.openConnections.Nodup
  live : ∀ conn ∈ server.openConnections, ∃ con, endpoint.connections conn = some con ∧
    (con.state = .open ∨ con.state = .closing)

theorem Listed.alive {server : Server} {endpoint : Endpoint} (h : Listed server endpoint)
    {conn : ConnectionHdl} (hMem : conn ∈ server.openConnections) :
    (endpoint.connections conn).isSome := by
  obtain ⟨con, hCon, -⟩ := h.live conn hMem
  rw [hCon]
  rfl

theorem Listed.onClose_eq {server : Server} {endpoint : Endpoint} (h : Listed server endpoint)
    (conn : ConnectionHdl) :
    (onClose endpoint server conn).openConnections =
      server.openConnections.filter (· ≠ conn) := by
  apply List.filter_congr
  intro elem hElem
  have hRemovable := removable_iff (h.alive hElem) conn
  cases hCase : removable endpoint conn elem <;> simp_all

theorem Listed.lifeStep {server server' : Server} {endpoint endpoint' : Endpoint}
    {e : LifeEvent} (h : Listed server endpoint)
    (hStep : lifeStep server endpoint e = some (server', endpoint')) :
    Listed server' endpoint' := by
  cases lifeStep_eq_some.mp hStep with
  | onOpen hNew hAbsent =>
    constructor
    · rw [onOpen, ← List.concat_eq_append]
      exact h.nodup.concat hAbsent
    · intro k hk
      simp only [onOpen, List.mem_append, List.mem_singleton] at hk
      rw [Endpoint.connections_set]
      split_ifs with hConn
      · exact ⟨_, rfl, .inl rfl⟩
      · exact h.live k (hk.resolve_right hConn)
  | leaveOpenState hOpen =>
    refine ⟨h.nodup, fun k hk => ?_⟩
    rw [Endpoint.connections_set]
    split_ifs
    · exact ⟨_, rfl, .inr rfl⟩
    · exact h.live k hk
  | onClose hClosing =>
    constructor
    · rw [h.onClose_eq]
      exact h.nodup.filter _
    · intro k hk
      rw [h.onClose_eq, List.mem_filter, decide_eq_true_eq] at hk
      rw [Endpoint.connections_set, if_neg hk.2]
      exact h.live k hk.1
  | @expire conn sendQueue hClosed =>
    refine ⟨h.nodup, fun k hk => ?_⟩
    obtain ⟨con, hCon, hState⟩ := h.live k hk
    have hConn : k ≠ conn := by
      rintro rfl
      rw [hClosed, Option.some.injEq] at hCon
      subst hCon
      rcases hState with hState | hState <;> cases hState
    rw [Endpoint.connections_set, if_neg hConn]
    exact ⟨con, hCon, hState⟩

theorem Listed.enqueue {server : Server} {endpoint : Endpoint} (h : Listed server endpoint)
    (conns : List ConnectionHdl) (text : Bytes) : Listed server (endpoint.enqueue conns text) := by
  refine ⟨h.nodup, fun k hk => ?_⟩
  obtain ⟨con, hCon, hState⟩ := h.live k hk
  rw [Endpoint.connections_enqueue, hCon]
  split_ifs
  · exact ⟨_, rfl, hState⟩
  · exact ⟨_, rfl, hState⟩

end ScRedirection.WebsocketServer
