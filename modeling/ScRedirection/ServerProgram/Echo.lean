import ScRedirection.ServerProgram

/-! # What server.cpp sends

A connection is sent its hello, an echo of every message it sends, and the broadcasts. The tasks of
the main thread keep the order in which the network thread posted them, so that nothing is lost,
sent twice or sent to another connection.
-/

namespace ScRedirection.ServerProgram

open Json Websocketpp WebsocketServer TcpTunnel

variable {D : Type}

/-- What a connection is sent. -/
inductive Sent (D : Type)
  | hello
  | echo (args : Value D)
  | broadcast (b : Broadcast)

namespace Sent

def text (doubles : Doubles D) : Sent D → Except JsonError Bytes
  | .hello => messageText doubles (bytes "LOGIN|hello") .null
  | .echo args => messageText doubles (bytes "message") args
  | .broadcast b => messageText doubles b.messageType b.arguments

/-- Sent by a task, not by a broadcast. -/
def byTask : Sent D → Bool
  | .broadcast _ => false
  | _ => true

end Sent

/-- What is sent to one connection, of all that is sent. -/
def sentTo (conn : ConnectionHdl) (sent : List (ConnectionHdl × Sent D)) : List (Sent D) :=
  (sent.filter (·.1 = conn)).map Prod.snd

def Task.sent : Task D → Option (ConnectionHdl × Sent D)
  | .hello conn => some (conn, .hello)
  | .message conn args => some (conn, .echo args)
  | .closed | .userInput => none

section Machine

variable (doubles : Doubles D)

namespace App

/-- What a step sends, if it does not throw. -/
def sends (app : App D) : Event → List (ConnectionHdl × Sent D)
  | .runTask => (app.tasks.head?.bind Task.sent).toList
  | .sendNext =>
    match app.broadcasting with
    | some (b, conn :: _) => [(conn, .broadcast b)]
    | _ => []
  | _ => []

/-- The calls of the handler of messages in a step. -/
def calls (app : App D) : Event → List (HandlerCall D)
  | .receive conn payload =>
    match onMessage doubles app.server app.queues conn payload with
    | .ok (_, _, calls) => calls
    | .error _ => []
  | _ => []

end App

/-- The program with what its handler was called with and what it has sent. -/
structure Logged (D : Type) where
  app : App D
  calls : List (HandlerCall D) := []
  sent : List (ConnectionHdl × Sent D) := []

def Logged.step (s : Logged D) (e : Event) : Option (Logged D) :=
  (s.app.step doubles e).map fun app =>
    { app := app
      calls := s.calls ++ s.app.calls doubles e
      sent := s.sent ++ s.app.sends e }

def logged : EventMachine (Logged D) Event := ⟨Logged.step doubles⟩

end Machine

def Event.opens : Event → Option ConnectionHdl
  | .life (.onOpen conn) => some conn
  | _ => none

/-! ## What a step does -/

theorem sentTo_append (conn : ConnectionHdl) (xs ys : List (ConnectionHdl × Sent D)) :
    sentTo conn (xs ++ ys) = sentTo conn xs ++ sentTo conn ys := by
  rw [sentTo, List.filter_append, List.map_append]
  rfl

theorem sentTo_of_ne {conn : ConnectionHdl} {xs : List (ConnectionHdl × Sent D)}
    (h : ∀ x ∈ xs, x.1 ≠ conn) : sentTo conn xs = [] := by
  rw [sentTo, List.filter_eq_nil_iff.mpr fun x hx => by simpa using h x hx, List.map_nil]

variable {doubles : Doubles D} {endpoint endpoint' : Endpoint}

/-- What is sent is queued on its connection, which is open. -/
inductive Queued (doubles : Doubles D) (endpoint : Endpoint) :
    List (ConnectionHdl × Sent D) → Endpoint → Prop
  | nothing : Queued doubles endpoint [] endpoint
  | text {conn : ConnectionHdl} {x : Sent D} {text : Bytes} (hText : x.text doubles = .ok text)
      (hOpen : endpoint.isOpen conn = true) :
      Queued doubles endpoint [(conn, x)] (endpoint.enqueue [conn] text)

theorem queued_of_run {task : Task D} (h : task.run doubles endpoint = .ok endpoint') :
    Queued doubles endpoint task.sent.toList endpoint' := by
  cases task with
  | hello conn =>
    rw [Task.run] at h
    obtain ⟨text, hText, hOpen, -, rfl⟩ := sendMessage_eq_ok.mp h
    exact .text hText hOpen
  | message conn args =>
    rw [Task.run] at h
    cases hLog : logMembers doubles args with
    | error error =>
      rw [hLog] at h
      cases h
    | ok _ =>
      rw [hLog] at h
      obtain ⟨text, hText, hOpen, -, rfl⟩ := sendMessage_eq_ok.mp h
      exact .text hText hOpen
  | closed | userInput =>
    cases h
    exact .nothing

theorem queued_of_broadcast {b : Broadcast} {conn : ConnectionHdl}
    (h : sendMessage doubles endpoint conn b.messageType b.arguments = .ok endpoint') :
    Queued doubles endpoint [(conn, .broadcast b)] endpoint' := by
  obtain ⟨text, hText, hOpen, -, rfl⟩ := sendMessage_eq_ok.mp h
  exact .text hText hOpen

/-- The send queues hold the texts of what was sent. -/
def Holds (doubles : Doubles D) (endpoint : Endpoint) (sent : List (ConnectionHdl × Sent D)) :
    Prop :=
  ∀ conn con, endpoint.connections conn = some con →
    List.Forall₂ (fun (x : Sent D) text => x.text doubles = .ok text) (sentTo conn sent)
      con.sendQueue

theorem Holds.queued {sent new : List (ConnectionHdl × Sent D)} (h : Holds doubles endpoint sent)
    (hQueued : Queued doubles endpoint new endpoint') : Holds doubles endpoint' (sent ++ new) := by
  intro conn con hCon
  cases hQueued with
  | nothing =>
    rw [List.append_nil]
    exact h conn con hCon
  | @text target x text hText hOpen =>
    rw [Endpoint.connections_enqueue] at hCon
    rw [sentTo_append]
    rcases eq_or_ne target conn with rfl | hOther
    · rw [if_pos (List.mem_singleton_self _), Option.map_eq_some_iff] at hCon
      obtain ⟨before, hBefore, rfl⟩ := hCon
      have hNew : sentTo target [(target, x)] = [x] := by simp [sentTo]
      rw [hNew]
      exact List.rel_append (h target before hBefore) (.cons hText .nil)
    · rw [if_neg (by simpa using hOther.symm)] at hCon
      have hNew : sentTo conn [(target, x)] = [] := sentTo_of_ne (by simpa using hOther)
      rw [hNew, List.append_nil]
      exact h conn con hCon

theorem lifeStep_queue {server server' : Server} {e : LifeEvent}
    (h : lifeStep server endpoint e = some (server', endpoint'))
    (hOpens : (Event.life e).opens = none) (conn : ConnectionHdl) {con' : Connection}
    (hCon : endpoint'.connections conn = some con') :
    ∃ con, endpoint.connections conn = some con ∧ con.sendQueue = con'.sendQueue := by
  cases lifeStep_eq_some.mp h with
  | onOpen => cases hOpens
  | leaveOpenState hBefore | onClose hBefore =>
    rw [Endpoint.connections_set] at hCon
    split_ifs at hCon with hTarget
    · cases hCon
      rw [hTarget]
      exact ⟨_, hBefore, rfl⟩
    · exact ⟨con', hCon, rfl⟩
  | expire =>
    rw [Endpoint.connections_set] at hCon
    split_ifs at hCon with hTarget
    exact ⟨con', hCon, rfl⟩

theorem dispatchJson_conn {server server' : Server} {conn : ConnectionHdl} {payload : StdString}
    {calls : List (HandlerCall D)}
    (h : dispatchJson doubles server conn payload = .ok (server', calls)) :
    ∀ call ∈ calls, call.conn = conn := by
  unfold dispatchJson at h
  obtain ⟨root, -, h⟩ := bind_eq_ok h
  split at h
  · cases h
    exact List.forall_mem_nil _
  · obtain ⟨found, -, h⟩ := bind_eq_ok h
    split at h
    · obtain ⟨⟨object, field⟩, -, h⟩ := bind_eq_ok h
      obtain ⟨messageType, -, h⟩ := bind_eq_ok h
      obtain ⟨stripped, -, h⟩ := bind_eq_ok h
      cases h
      intro call hCall
      obtain ⟨handler, -, rfl⟩ := List.mem_map.mp hCall
      rfl
    · cases h
      exact List.forall_mem_nil _

theorem onMessage_conn {server server' : Server} {queues queues' : Queues} {conn : ConnectionHdl}
    {payload : StdString} {calls : List (HandlerCall D)}
    (h : onMessage doubles server queues conn payload = .ok (server', queues', calls)) :
    ∀ call ∈ calls, call.conn = conn := by
  unfold onMessage at h
  split at h
  · cases h
  · cases h
    exact List.forall_mem_nil _
  · split at h
    · cases h
      exact List.forall_mem_nil _
    · cases h
  · split at h
    · rename_i hCalls
      cases h
      exact dispatchJson_conn hCalls
    · cases h

/-- What a step does that does not throw. -/
inductive Moved (doubles : Doubles D) (s : Logged D) : Event → Logged D → Prop
  | opened {conn : ConnectionHdl} {server : Server} :
      Moved doubles s (.life (.onOpen conn)) { s with app := { s.app with
        server := server
        endpoint := s.app.endpoint.set conn (some { state := .open })
        tasks := s.app.tasks ++ [.hello conn] } }
  | lived {e : LifeEvent} {server : Server} {endpoint : Endpoint} {tasks : List (Task D)}
      (hOpens : (Event.life e).opens = none) (hSilent : tasks.filterMap Task.sent = [])
      (hQueues : ∀ conn con', endpoint.connections conn = some con' →
        ∃ con, s.app.endpoint.connections conn = some con ∧ con.sendQueue = con'.sendQueue) :
      Moved doubles s (.life e) { s with app := { s.app with
        server := server, endpoint := endpoint, tasks := s.app.tasks ++ tasks } }
  | received {conn : ConnectionHdl} {payload : StdString} {server : Server} {queues : Queues}
      {calls : List (HandlerCall D)} (hOpen : s.app.endpoint.isOpen conn = true)
      (hCalls : ∀ call ∈ calls, call.conn = conn) :
      Moved doubles s (.receive conn payload) { s with
        app := { s.app with
          server := server
          queues := queues
          tasks := s.app.tasks ++ calls.map fun call => .message call.conn call.arguments }
        calls := s.calls ++ calls }
  | ran {task : Task D} {tasks : List (Task D)} {endpoint : Endpoint}
      (hTasks : s.app.tasks = task :: tasks)
      (hQueued : Queued doubles s.app.endpoint task.sent.toList endpoint) :
      Moved doubles s .runTask { s with
        app := { s.app with endpoint := endpoint, tasks := tasks }
        sent := s.sent ++ task.sent.toList }
  | began {b : Broadcast} {conns : List ConnectionHdl} :
      Moved doubles s (.broadcast b) { s with
        app := { s.app with broadcasting := some (b, conns) } }
  | sent {b : Broadcast} {conn : ConnectionHdl} {conns : List ConnectionHdl}
      {endpoint : Endpoint} (hSending : s.app.broadcasting = some (b, conn :: conns))
      (hQueued : Queued doubles s.app.endpoint [(conn, .broadcast b)] endpoint) :
      Moved doubles s .sendNext { s with
        app := { s.app with endpoint := endpoint, broadcasting := some (b, conns) }
        sent := s.sent ++ [(conn, .broadcast b)] }
  | finished {tasks : List (Task D)} (hSilent : tasks.filterMap Task.sent = []) :
      Moved doubles s .sendNext { s with
        app := { s.app with broadcasting := none, tasks := s.app.tasks ++ tasks } }

variable {s : Logged D} {app : App D}

theorem life_moved {e : LifeEvent} (hApp : s.app.life e = some app) :
    Moved doubles s (.life e) { s with app := app } := by
  simp only [App.life, Option.ite_none_left_eq_some, Option.map_eq_some_iff] at hApp
  obtain ⟨-, ⟨server, endpoint⟩, hLife, rfl⟩ := hApp
  cases lifeStep_eq_some.mp hLife with
  | onOpen => exact .opened
  | leaveOpenState | onClose | expire =>
    exact .lived rfl rfl fun conn con' => lifeStep_queue hLife rfl conn

theorem receive_moved {conn : ConnectionHdl} {payload : StdString}
    (hApp : s.app.receive doubles conn payload = some app) :
    Moved doubles s (.receive conn payload) { s with
      app := app, calls := s.calls ++ s.app.calls doubles (.receive conn payload) } := by
  simp only [App.receive, Option.ite_none_right_eq_some] at hApp
  obtain ⟨hOpen, hApp⟩ := hApp
  rw [App.calls]
  cases hMessage : onMessage doubles s.app.server s.app.queues conn payload with
  | error exn =>
    rw [hMessage] at hApp
    cases hApp
  | ok result =>
    rw [hMessage] at hApp
    cases hApp
    exact .received hOpen (onMessage_conn hMessage)

theorem runTask_moved (hApp : s.app.runTask doubles = some app) (hQuiet : Quiet app) :
    Moved doubles s .runTask { s with app := app, sent := s.sent ++ s.app.sends .runTask } := by
  rw [App.runTask] at hApp
  rw [App.sends]
  cases hTasks : s.app.tasks with
  | nil =>
    rw [hTasks] at hApp
    cases hApp
  | cons task tasks =>
    rw [hTasks] at hApp
    dsimp only at hApp
    cases hRun : task.run doubles s.app.endpoint with
    | error exn =>
      rw [hRun] at hApp
      cases hApp
      cases hQuiet
    | ok endpoint =>
      rw [hRun] at hApp
      cases hApp
      exact .ran hTasks (queued_of_run hRun)

theorem sendNext_moved (hApp : s.app.sendNext doubles = some app) (hQuiet : Quiet app) :
    Moved doubles s .sendNext { s with app := app, sent := s.sent ++ s.app.sends .sendNext } := by
  simp only [App.sendNext] at hApp
  rw [App.sends]
  split at hApp
  · cases hApp
  · rename_i line hSending
    cases hApp
    rw [hSending]
    dsimp only
    rw [List.append_nil]
    exact .finished rfl
  · rename_i chunk hSending
    cases hApp
    rw [hSending]
    dsimp only
    rw [List.append_nil]
    have hDone : Moved doubles s .sendNext { s with
        app := { s.app with broadcasting := none, tasks := s.app.tasks ++ [] } } := .finished rfl
    rwa [List.append_nil] at hDone
  · rename_i b conn conns hSending
    cases hSend : sendMessage doubles s.app.endpoint conn b.messageType b.arguments with
    | error exn =>
      rw [hSend] at hApp
      cases hApp
      cases hQuiet
    | ok endpoint =>
      rw [hSend] at hApp
      cases hApp
      rw [hSending]
      exact .sent hSending (queued_of_broadcast hSend)

theorem step_moved {t : Logged D} {e : Event} (hStep : (logged doubles).step s e = some t)
    (hQuiet : Quiet t.app) : Moved doubles s e t := by
  obtain ⟨app, hApp, rfl⟩ := Option.map_eq_some_iff.mp hStep
  unfold App.step at hApp
  obtain ⟨-, hApp⟩ := Option.ite_none_left_eq_some.mp hApp
  cases e with
  | life e =>
    simp only [App.calls, App.sends, List.append_nil]
    exact life_moved hApp
  | receive conn payload =>
    simp only [App.sends, List.append_nil]
    exact receive_moved hApp
  | runTask =>
    simp only [App.calls, List.append_nil]
    exact runTask_moved hApp hQuiet
  | broadcast b =>
    simp only [App.broadcast] at hApp
    simp only [App.calls, App.sends, List.append_nil]
    split at hApp
    · cases hApp
    · cases hApp
      exact .began
  | sendNext =>
    simp only [App.calls, List.append_nil]
    exact sendNext_moved hApp hQuiet

/-! ## Whole runs -/

/-- The connections that have opened, in order. -/
def opened (es : List Event) : List ConnectionHdl := es.filterMap Event.opens

theorem opened_concat (es : List Event) (e : Event) :
    opened (es ++ [e]) = opened es ++ e.opens.toList := by
  rw [opened, List.filterMap_append]
  cases hOpens : e.opens <;> simp [opened, hOpens]

/-- No connection is known that has not opened. -/
structure Known (conns : List ConnectionHdl) (s : Logged D) : Prop where
  connections : ∀ conn con, s.app.endpoint.connections conn = some con → conn ∈ conns
  calls : ∀ call ∈ s.calls, call.conn ∈ conns
  sent : ∀ x ∈ s.sent, x.1 ∈ conns
  tasks : ∀ x ∈ s.app.tasks.filterMap Task.sent, x.1 ∈ conns

theorem Queued.known {conns : List ConnectionHdl} {new : List (ConnectionHdl × Sent D)}
    (h : Queued doubles endpoint new endpoint')
    (hKnown : ∀ conn con, endpoint.connections conn = some con → conn ∈ conns) :
    (∀ conn con, endpoint'.connections conn = some con → conn ∈ conns) ∧
      ∀ x ∈ new, x.1 ∈ conns := by
  cases h with
  | nothing => exact ⟨hKnown, List.forall_mem_nil _⟩
  | @text target x text hText hOpen =>
    obtain ⟨before, hBefore, -⟩ := Endpoint.isOpen_iff.mp hOpen
    refine ⟨fun conn con hCon => ?_, List.forall_mem_singleton.mpr (hKnown target before hBefore)⟩
    rw [Endpoint.connections_enqueue] at hCon
    split_ifs at hCon with hTarget
    · exact List.mem_singleton.mp hTarget ▸ hKnown target before hBefore
    · exact hKnown conn con hCon

theorem Known.moved {conns : List ConnectionHdl} {s t : Logged D} {e : Event}
    (h : Known conns s) (hMoved : Moved doubles s e t) : Known (conns ++ e.opens.toList) t := by
  cases hMoved with
  | @opened conn server =>
    have hOld : ∀ {c}, c ∈ conns → c ∈ conns ++ [conn] := List.mem_append_left [conn]
    have hNew : conn ∈ conns ++ [conn] := List.mem_append_right _ (List.mem_singleton_self _)
    refine ⟨fun c con hCon => ?_, fun call hCall => hOld (h.calls call hCall),
      fun x hx => hOld (h.sent x hx), fun x hx => ?_⟩
    · rw [Endpoint.connections_set] at hCon
      split_ifs at hCon with hConn
      · exact hConn ▸ hNew
      · exact hOld (h.connections c con hCon)
    · rw [List.filterMap_append] at hx
      rcases List.mem_append.mp hx with hx | hx
      · exact hOld (h.tasks x hx)
      · cases List.mem_singleton.mp hx
        exact hNew
  | @lived e server endpoint tasks hOpens hSilent hQueues =>
    rw [hOpens, Option.toList_none, List.append_nil]
    refine ⟨fun c con hCon => ?_, h.calls, h.sent, ?_⟩
    · obtain ⟨before, hBefore, -⟩ := hQueues c con hCon
      exact h.connections c before hBefore
    · rw [List.filterMap_append, hSilent, List.append_nil]
      exact h.tasks
  | @received conn payload server queues calls hOpen hCalls =>
    obtain ⟨con, hCon, -⟩ := Endpoint.isOpen_iff.mp hOpen
    have hKnown : conn ∈ conns := h.connections conn con hCon
    simp only [Event.opens, Option.toList_none, List.append_nil]
    refine ⟨h.connections, fun call hCall => ?_, h.sent, fun x hx => ?_⟩
    · rcases List.mem_append.mp hCall with hCall | hCall
      · exact h.calls call hCall
      · exact hCalls call hCall ▸ hKnown
    · rw [List.filterMap_append] at hx
      rcases List.mem_append.mp hx with hx | hx
      · exact h.tasks x hx
      · obtain ⟨task, hTask, hSent⟩ := List.mem_filterMap.mp hx
        obtain ⟨call, hCall, rfl⟩ := List.mem_map.mp hTask
        cases hSent
        exact hCalls call hCall ▸ hKnown
  | @ran task tasks endpoint hTasks hQueued =>
    obtain ⟨hConnections, hNew⟩ := hQueued.known h.connections
    simp only [Event.opens, Option.toList_none, List.append_nil]
    refine ⟨hConnections, h.calls, List.forall_mem_append.mpr ⟨h.sent, hNew⟩, fun x hx => ?_⟩
    apply h.tasks x
    rw [hTasks, List.filterMap_cons]
    cases task.sent with
    | none => exact hx
    | some _ => exact List.mem_cons_of_mem _ hx
  | began =>
    simp only [Event.opens, Option.toList_none, List.append_nil]
    exact ⟨h.connections, h.calls, h.sent, h.tasks⟩
  | sent hSending hQueued =>
    obtain ⟨hConnections, hNew⟩ := hQueued.known h.connections
    simp only [Event.opens, Option.toList_none, List.append_nil]
    exact ⟨hConnections, h.calls, List.forall_mem_append.mpr ⟨h.sent, hNew⟩, h.tasks⟩
  | finished hSilent =>
    simp only [Event.opens, Option.toList_none, List.append_nil]
    refine ⟨h.connections, h.calls, h.sent, ?_⟩
    rw [List.filterMap_append, hSilent, List.append_nil]
    exact h.tasks

theorem Holds.moved {s t : Logged D} {e : Event} (h : Holds doubles s.app.endpoint s.sent)
    (hMoved : Moved doubles s e t)
    (hFresh : ∀ conn, e.opens = some conn → sentTo conn s.sent = []) :
    Holds doubles t.app.endpoint t.sent := by
  cases hMoved with
  | @opened target server =>
    intro conn con hCon
    rw [Endpoint.connections_set] at hCon
    split_ifs at hCon with hTarget
    · cases hCon
      rw [hTarget, hFresh target rfl]
      exact .nil
    · exact h conn con hCon
  | lived hOpens hSilent hQueues =>
    intro conn con hCon
    obtain ⟨before, hBefore, hQueue⟩ := hQueues conn con hCon
    exact hQueue ▸ h conn before hBefore
  | received | began | finished => exact h
  | ran hTasks hQueued => exact h.queued hQueued
  | sent hSending hQueued => exact h.queued hQueued

/-- What tasks have sent to a connection, and what those that still wait will send. -/
def answers (s : Logged D) (conn : ConnectionHdl) : List (Sent D) :=
  (sentTo conn s.sent).filter Sent.byTask ++ sentTo conn (s.app.tasks.filterMap Task.sent)

/-- An echo of each message that the handler was called with. -/
def asked (s : Logged D) (conn : ConnectionHdl) : List (Sent D) :=
  (s.calls.filter (·.conn = conn)).map fun call => .echo call.arguments

def Answered (conns : List ConnectionHdl) (s : Logged D) : Prop :=
  ∀ conn, answers s conn = (if conn ∈ conns then [.hello] else []) ++ asked s conn

theorem sentTo_calls {conn target : ConnectionHdl} {calls : List (HandlerCall D)}
    (hCalls : ∀ call ∈ calls, call.conn = target) :
    sentTo conn ((calls.map fun call => Task.message call.conn call.arguments).filterMap
      Task.sent) = (calls.filter (·.conn = conn)).map fun call => .echo call.arguments := by
  induction calls with
  | nil => rfl
  | cons call calls ih =>
    obtain ⟨-, hRest⟩ := List.forall_mem_cons.mp hCalls
    have hSent : (Task.message call.conn call.arguments : Task D).sent =
        some (call.conn, .echo call.arguments) := rfl
    rw [List.map_cons, List.filterMap_cons, hSent, List.filter_cons]
    dsimp only
    rw [← List.singleton_append, sentTo_append, ih hRest]
    split_ifs with hConn
    · simp [sentTo, of_decide_eq_true hConn]
    · simp [sentTo, show call.conn ≠ conn by simpa using hConn]

theorem byTask_sentTo (conn : ConnectionHdl) (task : Task D) :
    (sentTo conn task.sent.toList).filter Sent.byTask = sentTo conn task.sent.toList := by
  refine List.filter_eq_self.mpr fun x hx => ?_
  obtain ⟨y, hy, rfl⟩ := List.mem_map.mp hx
  have hMem := (List.mem_filter.mp hy).1
  cases task with
  | hello _ | message _ _ =>
    cases List.mem_singleton.mp hMem
    rfl
  | closed | userInput => cases hMem

theorem Answered.moved {conns : List ConnectionHdl} {s t : Logged D} {e : Event}
    (h : Answered conns s) (hKnown : Known conns s) (hMoved : Moved doubles s e t)
    (hFresh : ∀ conn, e.opens = some conn → conn ∉ conns) :
    Answered (conns ++ e.opens.toList) t := by
  intro conn
  have hBefore := h conn
  unfold answers asked at hBefore ⊢
  cases hMoved with
  | @opened target server =>
    -- Its hello is the first task for a connection: nothing was heard from it before it opened.
    have hNew : target ∉ conns := hFresh target rfl
    rw [List.filterMap_append, sentTo_append, ← List.append_assoc, hBefore]
    rcases eq_or_ne target conn with rfl | hOther
    · have hNone : s.calls.filter (·.conn = target) = [] := by
        refine List.filter_eq_nil_iff.mpr fun call hCall hConn => hNew ?_
        exact of_decide_eq_true hConn ▸ hKnown.calls call hCall
      simp [hNone, hNew, sentTo, Task.sent, Event.opens]
    · simp [sentTo, Task.sent, Event.opens, hOther, hOther.symm]
  | lived hOpens hSilent hQueues =>
    rw [List.filterMap_append, hSilent, List.append_nil, hOpens, Option.toList_none,
      List.append_nil]
    exact hBefore
  | received hOpen hCalls =>
    rw [List.filterMap_append, sentTo_append, sentTo_calls hCalls, ← List.append_assoc, hBefore,
      List.filter_append, List.map_append]
    simp only [Event.opens, Option.toList_none, List.append_nil, List.append_assoc]
  | @ran task tasks endpoint hTasks hQueued =>
    -- What the task sends goes from the front of what waits to the end of what is sent.
    have hHead : s.app.tasks.filterMap Task.sent =
        task.sent.toList ++ tasks.filterMap Task.sent := by
      rw [hTasks, List.filterMap_cons]
      cases task.sent <;> rfl
    rw [hHead, sentTo_append, ← List.append_assoc] at hBefore
    rw [sentTo_append, List.filter_append, byTask_sentTo, hBefore]
    simp only [Event.opens, Option.toList_none, List.append_nil]
  | began =>
    simp only [Event.opens, Option.toList_none, List.append_nil]
    exact hBefore
  | @sent b target conns' endpoint hSending hQueued =>
    have hNone : (sentTo conn [(target, (.broadcast b : Sent D))]).filter Sent.byTask = [] := by
      rcases eq_or_ne target conn with rfl | hOther
      · simp [sentTo, Sent.byTask]
      · simp [sentTo, hOther]
    rw [sentTo_append, List.filter_append, hNone, List.append_nil, hBefore]
    simp only [Event.opens, Option.toList_none, List.append_nil]
  | finished hSilent =>
    rw [List.filterMap_append, hSilent, List.append_nil]
    simp only [Event.opens, Option.toList_none, List.append_nil]
    exact hBefore

/-- A broadcast that is sent was begun. -/
structure Announced (es : List Event) (s : Logged D) : Prop where
  sending : ∀ b conns, s.app.broadcasting = some (b, conns) → Event.broadcast b ∈ es
  sent : ∀ conn b, (conn, Sent.broadcast b) ∈ s.sent → Event.broadcast b ∈ es

theorem Announced.moved {es : List Event} {s t : Logged D} {e : Event} (h : Announced es s)
    (hMoved : Moved doubles s e t) : Announced (es ++ [e]) t := by
  have hOld : ∀ {b}, Event.broadcast b ∈ es → Event.broadcast b ∈ es ++ [e] :=
    List.mem_append_left [e]
  have hSent : ∀ conn b, (conn, Sent.broadcast b) ∈ s.sent → Event.broadcast b ∈ es ++ [e] :=
    fun conn b hMem => hOld (h.sent conn b hMem)
  have hSending : ∀ b conns, s.app.broadcasting = some (b, conns) →
      Event.broadcast b ∈ es ++ [e] := fun b conns hMem => hOld (h.sending b conns hMem)
  cases hMoved with
  | opened | lived | received => exact ⟨hSending, hSent⟩
  | @ran task tasks endpoint hTasks hQueued =>
    refine ⟨hSending, fun conn b hMem => ?_⟩
    rcases List.mem_append.mp hMem with hMem | hMem
    · exact hSent conn b hMem
    · cases task <;> simp [Task.sent] at hMem
  | @began b conns =>
    refine ⟨fun b' conns' hBegan => ?_, hSent⟩
    cases hBegan
    exact List.mem_append_right _ (List.mem_singleton_self _)
  | @sent b target conns endpoint hBegan hQueued =>
    have hBegun := hSending b _ hBegan
    refine ⟨fun b' conns' hNext => ?_, fun conn b' hMem => ?_⟩
    · cases hNext
      exact hBegun
    · rcases List.mem_append.mp hMem with hMem | hMem
      · exact hSent conn b' hMem
      · cases List.mem_singleton.mp hMem
        exact hBegun
  | finished hSilent => exact ⟨fun _ _ hNone => (by cases hNone), hSent⟩

theorem quiet_of_step {s t : Logged D} {e : Event} (hStep : (logged doubles).step s e = some t) :
    Quiet s.app := by
  obtain ⟨app, hApp, -⟩ := Option.map_eq_some_iff.mp hStep
  unfold App.step at hApp
  exact Bool.eq_false_iff.mpr (Option.ite_none_left_eq_some.mp hApp).1

/-- What the program keeps as long as nothing throws and no connection opens twice. -/
structure Sound (doubles : Doubles D) (es : List Event) (s : Logged D) : Prop where
  known : Known (opened es) s
  holds : Holds doubles s.app.endpoint s.sent
  answered : Answered (opened es) s
  announced : Announced es s

theorem Sound.moved {es : List Event} {s t : Logged D} {e : Event} (h : Sound doubles es s)
    (hMoved : Moved doubles s e t) (hOnce : (opened (es ++ [e])).Nodup) :
    Sound doubles (es ++ [e]) t := by
  rw [opened_concat] at hOnce
  have hFresh : ∀ conn, e.opens = some conn → conn ∉ opened es := by
    intro conn hOpens hMem
    rw [hOpens] at hOnce
    exact List.disjoint_of_nodup_append hOnce hMem (List.mem_singleton_self _)
  refine ⟨?_, ?_, ?_, h.announced.moved hMoved⟩
  · rw [opened_concat]
    exact h.known.moved hMoved
  · refine h.holds.moved hMoved fun conn hOpens => sentTo_of_ne fun x hx hConn => ?_
    exact hFresh conn hOpens (hConn ▸ h.known.sent x hx)
  · rw [opened_concat]
    exact h.answered.moved h.known hMoved hFresh

theorem sound_of_run {server : Server} {es : List Event} {s : Logged D}
    (hRun : (logged doubles).run { app := start server } es = some s) (hQuiet : Quiet s.app)
    (hOnce : (opened es).Nodup) : Sound doubles es s := by
  refine (logged doubles).run_history
    (P := fun es s => Quiet s.app → (opened es).Nodup → Sound doubles es s) ?start ?step hRun
    hQuiet hOnce
  case start =>
    intro _ _
    refine ⟨⟨fun conn con hCon => ?_, List.forall_mem_nil _, List.forall_mem_nil _,
      List.forall_mem_nil _⟩, fun conn con hCon => ?_, fun _ => rfl, fun b conns hNone => ?_,
      fun conn b hNone => ?_⟩
    · cases hCon
    · cases hCon
    · cases hNone
    · cases hNone
  case step =>
    intro es s e t _ hSound hStep hQuiet hOnce
    have hBefore := hOnce
    rw [opened_concat] at hBefore
    exact (hSound (quiet_of_step hStep) (List.Nodup.of_append_left hBefore)).moved
      (step_moved hStep hQuiet) hOnce

/-- As long as nothing throws, the texts that stand in the send queue of a connection are its hello,
an echo of each message it sent, in order, each once and with the arguments that came, and texts of
broadcasts that were begun; what is missing at the end is in the tasks that wait. -/
theorem echoed_of_run {server : Server} {es : List Event} {s : Logged D} {conn : ConnectionHdl}
    {con : Connection} (hRun : (logged doubles).run { app := start server } es = some s)
    (hQuiet : Quiet s.app) (hOnce : (opened es).Nodup)
    (hCon : s.app.endpoint.connections conn = some con) :
    ∃ sent : List (Sent D),
      List.Forall₂ (fun x text => x.text doubles = .ok text) sent con.sendQueue ∧
        sent.filter Sent.byTask ++ sentTo conn (s.app.tasks.filterMap Task.sent) =
          .hello :: asked s conn ∧
        ∀ b, Sent.broadcast b ∈ sent → Event.broadcast b ∈ es := by
  have hSound := sound_of_run hRun hQuiet hOnce
  refine ⟨sentTo conn s.sent, hSound.holds conn con hCon, ?_, fun b hMem => ?_⟩
  · have hAnswered := hSound.answered conn
    rwa [if_pos (hSound.known.connections conn con hCon)] at hAnswered
  · obtain ⟨x, hx, hBroadcast⟩ := List.mem_map.mp hMem
    exact hSound.announced.sent x.1 b (hBroadcast ▸ (List.mem_filter.mp hx).1)

/-- A connection opens and sends a message, and a line is typed before its echo. -/
def exampleEvents : List Event :=
  [.life (.onOpen 1), .receive 1 ⟨bytes "\x7b\"__MESSAGE__\":\"message\",\"n\":\"one\"\x7d", .none⟩,
    .runTask, .broadcast (.userInput (bytes "hi")), .sendNext, .runTask]

def exampleLogged : Logged Empty :=
  ((logged Doubles.absent).run { app := start { type := .linux } } exampleEvents).get
    (by decide +kernel)

theorem run_exampleEvents : (logged Doubles.absent).run { app := start { type := .linux } }
    exampleEvents = some exampleLogged :=
  (Option.some_get _).symm

theorem echoed_of_run_example : ∃ con sent,
    exampleLogged.app.endpoint.connections 1 = some con ∧ con.sendQueue.length = 3 ∧
      List.Forall₂ (fun x text => x.text Doubles.absent = .ok text) sent con.sendQueue ∧
      sent.filter Sent.byTask ++ sentTo 1 (exampleLogged.app.tasks.filterMap Task.sent) =
        .hello :: asked exampleLogged 1 ∧
      ∀ b, Sent.broadcast b ∈ sent → Event.broadcast b ∈ exampleEvents := by
  have hLength : (exampleLogged.app.endpoint.connections 1).map (·.sendQueue.length) = some 3 := by
    decide +kernel
  obtain ⟨con, hCon, hThree⟩ := Option.map_eq_some_iff.mp hLength
  have hQuiet : exampleLogged.app.threw = false := by decide +kernel
  obtain ⟨sent, hTexts, hAnswers, hBegun⟩ :=
    echoed_of_run run_exampleEvents hQuiet (by decide +kernel) hCon
  exact ⟨con, sent, hCon, hThree, hTexts, hAnswers, hBegun⟩

end ScRedirection.ServerProgram
