import ScRedirection.Library.Multicast
import ScRedirection.WebsocketServer

/-! # The list of open connections over a whole history

A connection object lives from before its `onOpen` until some time after its `onClose`, and may
leave the open state at any time in between. The send queues are not drained here, so each holds
all that was ever put on it.
-/

namespace ScRedirection.WebsocketServer

open Json Websocketpp Multicast

variable {D : Type}

inductive HubEvent (D : Type)
  | onOpen (conn : ConnectionHdl)
  | onClose (conn : ConnectionHdl)
  | broadcastMessage (messageType : Bytes) (arguments : Value D)
  | leaveOpenState (conn : ConnectionHdl)
  | expire (conn : ConnectionHdl)

structure Hub where
  server : Server
  endpoint : Endpoint
  sendsSucceeded : Bool

def Hub.start (server : Server) : Hub :=
  ⟨{ server with openConnections := [] }, .empty, true⟩

def Hub.step (doubles : Doubles D) (hub : Hub) : HubEvent D → Hub
  | .onOpen conn =>
    { hub with
      server := onOpen hub.server conn
      endpoint := hub.endpoint.set conn (some { state := .open }) }
  | .onClose conn =>
    { hub with
      server := onClose hub.endpoint hub.server conn
      endpoint := hub.endpoint.set conn
        ((hub.endpoint.connections conn).map ({ · with state := .closed })) }
  | .broadcastMessage messageType arguments =>
    let result := broadcastMessage doubles messageType arguments hub.endpoint
      hub.server.openConnections
    { hub with
      endpoint := result.2
      sendsSucceeded := hub.sendsSucceeded && result.1.isOk }
  | .leaveOpenState conn =>
    { hub with
      endpoint := hub.endpoint.set conn
        ((hub.endpoint.connections conn).map ({ · with state := .closing })) }
  | .expire conn => { hub with endpoint := hub.endpoint.set conn none }

def Hub.after (doubles : Doubles D) (server : Server) (events : List (HubEvent D)) : Hub :=
  events.foldl (Hub.step doubles) (Hub.start server)

/-- The history as the group of listeners sees it. -/
def history : List (HubEvent D) → List (Event ConnectionHdl (Bytes × Value D)) :=
  List.filterMap fun
    | .onOpen conn => some (.join conn)
    | .onClose conn => some (.leave conn)
    | .broadcastMessage messageType arguments => some (.cast (messageType, arguments))
    | _ => none

/-- What websocketpp promises: a handle is opened once, closed only after that, and expires only
after its `onClose`. -/
inductive Admissible : List (HubEvent D) → Prop
  | nil : Admissible []
  | onOpen {es : List (HubEvent D)} {conn : ConnectionHdl} (hes : Admissible es)
      (hFresh : conn ∉ joins (history es)) : Admissible (es ++ [.onOpen conn])
  | onClose {es : List (HubEvent D)} {conn : ConnectionHdl} (hes : Admissible es)
      (hOpened : conn ∈ joins (history es)) : Admissible (es ++ [.onClose conn])
  | broadcastMessage {es : List (HubEvent D)} {messageType : Bytes} {arguments : Value D}
      (hes : Admissible es) : Admissible (es ++ [.broadcastMessage messageType arguments])
  | leaveOpenState {es : List (HubEvent D)} {conn : ConnectionHdl} (hes : Admissible es) :
      Admissible (es ++ [.leaveOpenState conn])
  | expire {es : List (HubEvent D)} {conn : ConnectionHdl} (hes : Admissible es)
      (hClosed : conn ∈ leaves (history es)) : Admissible (es ++ [.expire conn])

section Snoc

variable (es : List (HubEvent D)) (conn : ConnectionHdl) (messageType : Bytes)
  (arguments : Value D)

@[simp] theorem history_onOpen :
    history (es ++ [.onOpen conn]) = history es ++ [.join conn] := by simp [history]

@[simp] theorem history_onClose :
    history (es ++ [.onClose conn]) = history es ++ [.leave conn] := by simp [history]

@[simp] theorem history_broadcastMessage :
    history (es ++ [.broadcastMessage messageType arguments]) =
      history es ++ [.cast (messageType, arguments)] := by simp [history]

@[simp] theorem history_leaveOpenState :
    history (es ++ [.leaveOpenState conn]) = history es := by simp [history]

@[simp] theorem history_expire : history (es ++ [.expire conn]) = history es := by
  simp [history]

end Snoc

theorem Admissible.orderly {es : List (HubEvent D)} (hes : Admissible es) :
    Orderly (history es) := by
  induction hes with
  | nil => exact .nil
  | onOpen _ hFresh ih => rw [history_onOpen]; exact ih.join hFresh
  | onClose _ hOpened ih => rw [history_onClose]; exact ih.leave hOpened
  | broadcastMessage _ ih => rw [history_broadcastMessage]; exact ih.cast
  | leaveOpenState _ ih => rwa [history_leaveOpenState]
  | expire _ _ ih => rwa [history_expire]

structure Hub.Reflects (doubles : Doubles D) (es : List (HubEvent D)) (hub : Hub) : Prop where
  list : hub.server.openConnections = members (history es)
  alive : ∀ h ∈ members (history es), (hub.endpoint.connections h).isSome
  unborn : ∀ h, h ∉ joins (history es) → hub.endpoint.connections h = none
  queues : hub.sendsSucceeded = true → ∀ h con, hub.endpoint.connections h = some con →
    con.sendQueue.map Except.ok =
      (inbox h (history es)).map fun message => messageText doubles message.1 message.2

namespace Hub.Reflects

variable {doubles : Doubles D} {es : List (HubEvent D)} {hub : Hub} {conn : ConnectionHdl}

theorem start (server : Server) : (Hub.start server).Reflects doubles [] where
  list := rfl
  alive h hMember := absurd hMember (List.not_mem_nil)
  unborn _ _ := rfl
  queues _ h con hCon := by cases hCon

theorem onOpen (hes : Orderly (history es)) (hHub : hub.Reflects doubles es)
    (hFresh : conn ∉ joins (history es)) :
    (hub.step doubles (.onOpen conn)).Reflects doubles (es ++ [.onOpen conn]) where
  list := by
    rw [history_onOpen, members_join hes hFresh, ← hHub.list]
    rfl
  alive h hMember := by
    rw [history_onOpen, members_join hes hFresh, List.mem_append, List.mem_singleton] at hMember
    simp only [step, Endpoint.connections_set]
    split_ifs with hConn
    · rfl
    · exact hHub.alive h (hMember.resolve_right hConn)
  unborn h hNew := by
    simp only [history_onOpen, joins_join, List.mem_append, List.mem_singleton, not_or] at hNew
    simp only [step, Endpoint.connections_set, if_neg hNew.2]
    exact hHub.unborn h hNew.1
  queues hSent h con hCon := by
    rw [history_onOpen, inbox_join]
    simp only [step, Endpoint.connections_set] at hCon
    split_ifs at hCon with hConn
    · cases hCon
      rw [hConn, hes.inbox_of_not_joined hFresh]
      rfl
    · exact hHub.queues hSent h con hCon

theorem queues_of_state (hHub : hub.Reflects doubles es) (state : SessionState)
    (hSent : hub.sendsSucceeded = true) {h : ConnectionHdl} {con : Connection}
    (hCon : (hub.endpoint.set conn
      ((hub.endpoint.connections conn).map ({ · with state := state }))).connections h = some con) :
    con.sendQueue.map Except.ok =
      (inbox h (history es)).map fun message => messageText doubles message.1 message.2 := by
  rw [Endpoint.connections_set] at hCon
  split_ifs at hCon with hConn
  · obtain ⟨old, hOld, rfl⟩ := Option.map_eq_some_iff.mp hCon
    exact hHub.queues hSent h old (hConn ▸ hOld)
  · exact hHub.queues hSent h con hCon

theorem alive_of_state (hHub : hub.Reflects doubles es) (state : SessionState) {h : ConnectionHdl}
    (hMember : h ∈ members (history es)) :
    ((hub.endpoint.set conn
      ((hub.endpoint.connections conn).map ({ · with state := state }))).connections h).isSome := by
  rw [Endpoint.connections_set]
  split_ifs with hConn
  · rw [Option.isSome_map, ← hConn]
    exact hHub.alive h hMember
  · exact hHub.alive h hMember

theorem unborn_of_state (hHub : hub.Reflects doubles es) (state : SessionState)
    {h : ConnectionHdl} (hNew : h ∉ joins (history es)) :
    (hub.endpoint.set conn
      ((hub.endpoint.connections conn).map ({ · with state := state }))).connections h = none := by
  rw [Endpoint.connections_set]
  split_ifs with hConn
  · rw [← hConn, hHub.unborn h hNew]
    rfl
  · exact hHub.unborn h hNew

theorem onClose (hHub : hub.Reflects doubles es) :
    (hub.step doubles (.onClose conn)).Reflects doubles (es ++ [.onClose conn]) where
  list := by
    rw [history_onClose, members_leave, ← hHub.list]
    apply List.filter_congr
    intro elem hElem
    rw [hHub.list] at hElem
    have hRemovable := removable_iff (hHub.alive elem hElem) conn
    cases hCase : removable hub.endpoint conn elem <;> simp_all
  alive h hMember := by
    rw [history_onClose, members_leave] at hMember
    exact hHub.alive_of_state .closed (List.mem_of_mem_filter hMember)
  unborn h hNew := by
    rw [history_onClose, joins_leave] at hNew
    exact hHub.unborn_of_state .closed hNew
  queues hSent h con hCon := by
    rw [history_onClose, inbox_leave]
    exact hHub.queues_of_state .closed hSent hCon

theorem leaveOpenState (hHub : hub.Reflects doubles es) :
    (hub.step doubles (.leaveOpenState conn)).Reflects doubles (es ++ [.leaveOpenState conn]) where
  list := by rw [history_leaveOpenState]; exact hHub.list
  alive h hMember := by
    rw [history_leaveOpenState] at hMember
    exact hHub.alive_of_state .closing hMember
  unborn h hNew := by
    rw [history_leaveOpenState] at hNew
    exact hHub.unborn_of_state .closing hNew
  queues hSent h con hCon := by
    rw [history_leaveOpenState]
    exact hHub.queues_of_state .closing hSent hCon

theorem expire (hHub : hub.Reflects doubles es) (hClosed : conn ∈ leaves (history es)) :
    (hub.step doubles (.expire conn)).Reflects doubles (es ++ [.expire conn]) where
  list := by rw [history_expire]; exact hHub.list
  alive h hMember := by
    rw [history_expire] at hMember
    have hConn : h ≠ conn := by
      rintro rfl
      exact (mem_members.mp hMember).2 hClosed
    simp only [step, Endpoint.connections_set, if_neg hConn]
    exact hHub.alive h hMember
  unborn h hNew := by
    rw [history_expire] at hNew
    simp only [step, Endpoint.connections_set, hHub.unborn h hNew, ite_self]
  queues hSent h con hCon := by
    rw [history_expire]
    simp only [step, Endpoint.connections_set] at hCon
    split_ifs at hCon
    exact hHub.queues hSent h con hCon

theorem broadcastMessage (hes : Orderly (history es)) (hHub : hub.Reflects doubles es)
    (messageType : Bytes) (arguments : Value D) :
    (hub.step doubles (.broadcastMessage messageType arguments)).Reflects doubles
      (es ++ [.broadcastMessage messageType arguments]) where
  list := by rw [history_broadcastMessage, members_cast]; exact hHub.list
  alive h hMember := by
    rw [history_broadcastMessage, members_cast] at hMember
    simp only [step, broadcastMessage_isSome]
    exact hHub.alive h hMember
  unborn h hNew := by
    rw [history_broadcastMessage, joins_cast] at hNew
    apply Option.not_isSome_iff_eq_none.mp
    simp only [step, broadcastMessage_isSome, hHub.unborn h hNew]
    decide
  queues hSent h con hCon := by
    rw [history_broadcastMessage, hes.inbox_cast]
    simp only [step, Bool.and_eq_true] at hSent hCon
    obtain ⟨hBefore, hNow⟩ := hSent
    have hNodup : hub.server.openConnections.Nodup := hHub.list ▸ hes.nodup_members
    cases hResult : WebsocketServer.broadcastMessage doubles messageType arguments hub.endpoint
        hub.server.openConnections with
    | mk result endpoint' =>
      rw [hResult] at hNow hCon
      cases result with
      | error exn => cases hNow
      | ok _ =>
        cases hText : messageText doubles messageType arguments with
        | error error =>
          obtain ⟨hNone, rfl⟩ := (broadcastMessage_error hText).mp hResult
          rw [← hHub.list, hNone, if_neg List.not_mem_nil]
          exact hHub.queues hBefore h con hCon
        | ok text =>
          obtain ⟨-, rfl⟩ := (broadcastMessage_eq_ok hText hNodup).mp hResult
          rw [Endpoint.connections_enqueue, hHub.list] at hCon
          split_ifs at hCon ⊢ with hMember
          · obtain ⟨old, hOld, rfl⟩ := Option.map_eq_some_iff.mp hCon
            simp [Connection.writePush, hHub.queues hBefore h old hOld, hText]
          · exact hHub.queues hBefore h con hCon

end Hub.Reflects

theorem Hub.after_reflects (doubles : Doubles D) (server : Server) {es : List (HubEvent D)}
    (hes : Admissible es) : (Hub.after doubles server es).Reflects doubles es := by
  have hSnoc : ∀ (es : List (HubEvent D)) e,
      Hub.after doubles server (es ++ [e]) = (Hub.after doubles server es).step doubles e := by
    intro es e
    simp [Hub.after]
  induction hes with
  | nil => exact .start server
  | onOpen hes hFresh ih => rw [hSnoc]; exact .onOpen hes.orderly ih hFresh
  | onClose _ _ ih => rw [hSnoc]; exact ih.onClose
  | broadcastMessage hes ih => rw [hSnoc]; exact .broadcastMessage hes.orderly ih _ _
  | leaveOpenState _ ih => rw [hSnoc]; exact ih.leaveOpenState
  | expire _ hClosed ih => rw [hSnoc]; exact ih.expire hClosed

/-- The list is the handles opened and not yet closed, in opening order; and as long as every
send succeeds, each connection holds the broadcasts issued while it was listed. -/
theorem openConnections_history (doubles : Doubles D) (server : Server) {es : List (HubEvent D)}
    (hes : Admissible es) :
    let hub := Hub.after doubles server es
    hub.server.openConnections = members (history es) ∧
      hub.server.openConnections.Nodup ∧
      numConnections hub.server + (leaves (history es)).dedup.length =
        (joins (history es)).length ∧
      (hub.sendsSucceeded = true → ∀ conn con, hub.endpoint.connections conn = some con →
        con.sendQueue.map Except.ok =
          (inbox conn (history es)).map fun message =>
            messageText doubles message.1 message.2) := by
  intro hub
  have hReflects : hub.Reflects doubles es := Hub.after_reflects doubles server hes
  refine ⟨hReflects.list, ?_, ?_, hReflects.queues⟩
  · rw [hReflects.list]
    exact hes.orderly.nodup_members
  · rw [numConnections, hReflects.list]
    exact hes.orderly.length_members

/-- Two connections; the second is closed between two broadcasts, and its object goes. -/
def exampleHistory : List (HubEvent Empty) :=
  [.onOpen 7, .onOpen 8, .broadcastMessage (bytes "m") .null, .leaveOpenState 8, .onClose 8,
    .broadcastMessage (bytes "n") .null, .expire 8, .broadcastMessage (bytes "o") .null]

theorem openConnections_history_example :
    let hub := Hub.after Doubles.absent { type := .linux } exampleHistory
    hub.sendsSucceeded = true ∧ hub.server.openConnections = [7] ∧
      (hub.endpoint.connections 7).isSome ∧ hub.endpoint.connections 8 = none ∧
      hub.server.openConnections = members (history exampleHistory) ∧
      hub.server.openConnections.Nodup ∧
      numConnections hub.server + (leaves (history exampleHistory)).dedup.length =
        (joins (history exampleHistory)).length ∧
      (hub.sendsSucceeded = true → ∀ conn con, hub.endpoint.connections conn = some con →
        con.sendQueue.map Except.ok =
          (inbox conn (history exampleHistory)).map fun message =>
            messageText Doubles.absent message.1 message.2) := by
  intro hub
  have hAdmissible : Admissible exampleHistory :=
    .broadcastMessage (.expire (.broadcastMessage (.onClose (.leaveOpenState (.broadcastMessage
      (.onOpen (.onOpen .nil (by decide)) (by decide)))) (by decide))) (by decide))
  exact ⟨by decide +kernel, by decide +kernel, by decide +kernel, by decide +kernel,
    openConnections_history Doubles.absent { type := .linux } hAdmissible⟩

end ScRedirection.WebsocketServer
