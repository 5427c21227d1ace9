import ScRedirection.Library.EventMachine
import ScRedirection.TcpTunnel.BinData
import ScRedirection.WebsocketServer.Lifecycle

/-! # server.cpp

Four threads: the network thread, which posts tasks to `mainEventLoop`; the main thread, which
runs them; and the input and tunnel threads, which broadcast. A broadcast holds the mutex of the
connection list for all its sends, but a connection can leave the open state between two of them,
so each send is a step. No thread catches anything: what is thrown ends the program.
-/

namespace ScRedirection.ServerProgram

open Json Websocketpp WebsocketServer TcpTunnel

variable {D : Type}

/-- What is posted to `mainEventLoop`; a task that only writes to the log keeps nothing. -/
inductive Task (D : Type)
  | hello (conn : ConnectionHdl)
  | closed
  | message (conn : ConnectionHdl) (args : Value D)
  | userInput

/-- A typed line, or a chunk of `use_tunnel`. -/
inductive Broadcast
  | userInput (line : Bytes)
  | binData (chunk : Bytes)
  deriving DecidableEq, Repr

def Broadcast.messageType : Broadcast → Bytes
  | .userInput _ => bytes "userInput"
  | .binData chunk => Memory.binData chunk

def Broadcast.arguments : Broadcast → Value D
  | .userInput line => .object [(bytes "input", .string line)]
  | .binData _ => .null

structure App (D : Type) where
  server : Server
  endpoint : Endpoint
  queues : Queues := {}
  tasks : List (Task D) := []
  broadcasting : Option (Broadcast × List ConnectionHdl) := none
  threw : Bool := false

inductive Event
  | life (e : LifeEvent)
  | receive (conn : ConnectionHdl) (payload : StdString)
  | runTask
  | broadcast (b : Broadcast)
  | sendNext
  deriving DecidableEq, Repr

section Machine

variable (doubles : Doubles D)

/-- `args[key].asString()`. -/
def logMember (args : Value D) (key : Bytes) : Except JsonError Unit := do
  let field ← args.find key
  let _ ← (field.getD .null).asString doubles

/-- The loop of the message handler over `args.getMemberNames()`. -/
def logMembers (args : Value D) : Except JsonError Unit := do
  let names ← args.getMemberNames
  names.forM (logMember doubles args)

def Task.run (endpoint : Endpoint) : Task D → Except Exn Endpoint
  | .hello conn => sendMessage doubles endpoint conn (bytes "LOGIN|hello") .null
  | .message conn args =>
    match logMembers doubles args with
    | .error error => .error (.json error)
    | .ok _ => sendMessage doubles endpoint conn (bytes "message") args
  | .closed | .userInput => .ok endpoint

namespace App

def posted : LifeEvent → List (Task D)
  | .onOpen conn => [.hello conn]
  | .onClose _ => [.closed]
  | _ => []

/-- `onOpen` and `onClose` change the list and wait for its mutex. -/
def blocked (app : App D) : LifeEvent → Bool
  | .onOpen _ | .onClose _ => app.broadcasting.isSome
  | _ => false

def life (app : App D) (e : LifeEvent) : Option (App D) :=
  if app.blocked e then none
  else (lifeStep app.server app.endpoint e).map fun (server, endpoint) =>
    { app with server := server, endpoint := endpoint, tasks := app.tasks ++ posted e }

/-- A data message is handed over while its connection is open. A message that `onMessage` throws on
ends the program, and a run with it. -/
def receive (app : App D) (conn : ConnectionHdl) (payload : StdString) : Option (App D) :=
  if app.endpoint.isOpen conn then
    match onMessage doubles app.server app.queues conn payload with
    | .error _ => none
    | .ok (server, queues, calls) =>
      some { app with
        server := server
        queues := queues
        tasks := app.tasks ++ calls.map fun call => .message call.conn call.arguments }
  else none

def runTask (app : App D) : Option (App D) :=
  match app.tasks with
  | [] => none
  | task :: tasks =>
    match task.run doubles app.endpoint with
    | .ok endpoint => some { app with endpoint := endpoint, tasks := tasks }
    | .error _ => some { app with threw := true }

def broadcast (app : App D) (b : Broadcast) : Option (App D) :=
  match app.broadcasting with
  | some _ => none
  | none => some { app with broadcasting := some (b, app.server.openConnections) }

def sendNext (app : App D) : Option (App D) :=
  match app.broadcasting with
  | none => none
  | some (.userInput _, []) =>
    some { app with broadcasting := none, tasks := app.tasks ++ [.userInput] }
  | some (.binData _, []) => some { app with broadcasting := none }
  | some (b, conn :: conns) =>
    match sendMessage doubles app.endpoint conn b.messageType b.arguments with
    | .ok endpoint => some { app with endpoint := endpoint, broadcasting := some (b, conns) }
    | .error _ => some { app with threw := true }

def step (app : App D) (e : Event) : Option (App D) :=
  if app.threw then none
  else match e with
    | .life e => app.life e
    | .receive conn payload => app.receive doubles conn payload
    | .runTask => app.runTask doubles
    | .broadcast b => app.broadcast b
    | .sendNext => app.sendNext doubles

end App

def machine : EventMachine (App D) Event := ⟨App.step doubles⟩

end Machine

def start (server : Server) : App D where
  server := { server with openConnections := [], messageHandlers := [(bytes "message", [0])] }
  endpoint := .empty

def Quiet (app : App D) : Prop := app.threw = false

/-! ## When a send throws -/

def Broadcast.Utf8 : Broadcast → Prop
  | .userInput line => Utf8Validator.validate line = true
  | .binData _ => True

/-- A task that sends finds its connection open, and one that sends arguments back has only
scalars to log and valid UTF-8 to send. -/
def Task.Fine (endpoint : Endpoint) : Task D → Prop
  | .hello conn => endpoint.isOpen conn = true
  | .message conn args => endpoint.isOpen conn = true ∧
      ∃ ms, args = .object ms ∧ ∀ m ∈ ms, memberUtf8 m = true
  | .closed | .userInput => True

/-- The next task is fine where it runs, and the next send of a broadcast goes to a connection
that is still open, with a line that is valid UTF-8 if it was typed. -/
def Condition (app : App D) : Event → Prop
  | .runTask => ∀ task ∈ app.tasks.head?, task.Fine app.endpoint
  | .sendNext => ∀ b conn conns, app.broadcasting = some (b, conn :: conns) →
      app.endpoint.isOpen conn = true ∧ b.Utf8
  | _ => True

variable {doubles : Doubles D} {endpoint : Endpoint} {conn : ConnectionHdl}

theorem sendMessage_object_iff {messageType : Bytes} {ms : Members D}
    (hType : Utf8Validator.validate messageType = true) (hNew : messageField ∉ ms.map Prod.fst)
    (hScalar : ∀ m ∈ ms, m.2.isContainer = false) :
    (∃ endpoint', sendMessage doubles endpoint conn messageType (.object ms) = .ok endpoint') ↔
      endpoint.isOpen conn = true ∧ ∀ m ∈ ms, memberUtf8 m = true := by
  have hField : Utf8Validator.validate messageField = true := by decide +kernel
  have hMem : ∀ {P : Bytes × Value D → Prop}, (∀ m ∈ setMember messageField
      (.string messageType) ms, P m) ↔ P (messageField, .string messageType) ∧ ∀ m ∈ ms, P m := by
    intro P
    simp only [mem_setMember_of_new hNew, forall_eq_or_imp]
  have hText : Utf8Validator.validate (stringifyJson doubles
      (.object (setMember messageField (.string messageType) ms))) = true ↔
        ∀ m ∈ ms, memberUtf8 m = true := by
    rw [stringifyJson, validate_writeValue_object doubles (hMem.mpr ⟨rfl, hScalar⟩),
      List.all_eq_true, hMem]
    simp [memberUtf8, Value.scalarUtf8, hField, hType]
  simp only [sendMessage_eq_ok, messageText, Value.assign, Except.map, Except.ok.injEq,
    exists_eq_left', hText]
  simp

theorem sendMessage_hello_iff :
    (∃ endpoint', sendMessage doubles endpoint conn (bytes "LOGIN|hello") .null = .ok endpoint') ↔
      endpoint.isOpen conn = true := by
  have hText : Utf8Validator.validate (stringifyJson doubles
      (.object [(messageField, .string (bytes "LOGIN|hello"))])) = true := by
    have hField : Utf8Validator.validate messageField = true := by decide +kernel
    have hHello : Utf8Validator.validate (bytes "LOGIN|hello") = true := by decide +kernel
    rw [stringifyJson, validate_writeValue_object doubles (by simp [Value.isContainer])]
    simp [memberUtf8, Value.scalarUtf8, hField, hHello]
  simp only [sendMessage_eq_ok, messageText, Value.assign, Except.map, Except.ok.injEq,
    exists_eq_left', hText]
  simp

variable (doubles) in
theorem sendMessage_broadcast_iff (b : Broadcast) :
    (∃ endpoint', sendMessage doubles endpoint conn b.messageType b.arguments = .ok endpoint') ↔
      endpoint.isOpen conn = true ∧ b.Utf8 := by
  cases b with
  | userInput line =>
    have hInput : Utf8Validator.validate (bytes "input") = true := by decide +kernel
    have hType : Utf8Validator.validate (bytes "userInput") = true := by decide +kernel
    have hNew : messageField ∉ ([(bytes "input", .string line)] : Members D).map Prod.fst := by
      change messageField ∉ [bytes "input"]
      decide
    rw [Broadcast.messageType, Broadcast.arguments,
      sendMessage_object_iff hType hNew (by simp [Value.isContainer])]
    simp [memberUtf8, Value.scalarUtf8, hInput, Broadcast.Utf8]
  | binData chunk =>
    simp only [sendMessage_eq_ok, Broadcast.messageType, Broadcast.arguments,
      messageText_binData, Except.ok.injEq, exists_eq_left', validate_broadcastText,
      Broadcast.Utf8]
    simp

variable (doubles) in
theorem logMember_iff {ms : Members D} (hOrdered : Ordered ms) {m : Bytes × Value D}
    (hMem : m ∈ ms) :
    logMember doubles (.object ms) m.1 = .ok () ↔ m.2.isContainer = false := by
  have hFind : (Value.object ms).find m.1 = .ok (some m.2) := by
    rw [Value.find, lookup_of_mem hOrdered hMem]
  rw [logMember, hFind]
  cases hValue : m.2 <;>
    simp [bind, Except.bind, pure, Except.pure, Value.asString, Value.isContainer]

variable (doubles) in
theorem logMembers_iff {ms : Members D} (hOrdered : Ordered ms) :
    logMembers doubles (.object ms) = .ok () ↔ ∀ m ∈ ms, m.2.isContainer = false := by
  have hLoop : ∀ ms' : Members D, (∀ m ∈ ms', m ∈ ms) →
      ((ms'.map Prod.fst).forM (logMember doubles (.object ms)) = .ok () ↔
        ∀ m ∈ ms', m.2.isContainer = false) := by
    intro ms' hSub
    induction ms' with
    | nil => exact iff_of_true rfl (by simp)
    | cons m ms' ih =>
      obtain ⟨hFirst, hRest⟩ := List.forall_mem_cons.mp hSub
      rw [List.forall_mem_cons, ← ih hRest, ← logMember_iff doubles hOrdered hFirst,
        List.map_cons]
      change (logMember doubles (.object ms) m.1 >>= fun _ =>
        (ms'.map Prod.fst).forM (logMember doubles (.object ms))) = .ok () ↔ _
      cases logMember doubles (.object ms) m.1 <;> simp [bind, Except.bind]
  exact hLoop ms fun _ hm => hm

def Task.WellFormed : Task D → Prop
  | .message _ args => IsArguments args
  | _ => True

variable (doubles) in
theorem Task.run_iff {task : Task D} (hTask : task.WellFormed) :
    (∃ endpoint', task.run doubles endpoint = .ok endpoint') ↔ task.Fine endpoint := by
  cases task with
  | hello conn => exact sendMessage_hello_iff
  | closed => exact iff_of_true ⟨_, rfl⟩ trivial
  | userInput => exact iff_of_true ⟨_, rfl⟩ trivial
  | message conn args =>
    obtain ⟨ms, rfl, hOrdered, hNew⟩ := hTask
    have hType : Utf8Validator.validate (bytes "message") = true := by decide +kernel
    have hUtf8 : ∀ m : Bytes × Value D, memberUtf8 m = true → m.2.isContainer = false := by
      rintro ⟨name, x⟩ hMember
      rw [memberUtf8, Bool.and_eq_true] at hMember
      cases x <;> simp_all [Value.scalarUtf8, Value.isContainer]
    simp only [Task.run, Task.Fine, Value.object.injEq, exists_eq_left']
    cases hLog : logMembers doubles (.object ms) with
    | error error =>
      apply iff_of_false (by simp)
      rintro ⟨-, hMembers⟩
      have hOk := (logMembers_iff doubles hOrdered).mpr
        fun m hm => hUtf8 m (hMembers m hm)
      cases hLog.symm.trans hOk
    | ok _ => exact sendMessage_object_iff hType hNew ((logMembers_iff doubles hOrdered).mp hLog)

/-! ## Whole runs -/

def WellPosted (app : App D) : Prop := ∀ task ∈ app.tasks, task.WellFormed

theorem wellPosted_append {app : App D} {tasks : List (Task D)} (h : WellPosted app)
    (hNew : ∀ task ∈ tasks, task.WellFormed) : ∀ task ∈ app.tasks ++ tasks, task.WellFormed := by
  intro task hTask
  rcases List.mem_append.mp hTask with hTask | hTask
  · exact h task hTask
  · exact hNew task hTask

theorem life_quiet {app app' : App D} {e : LifeEvent} (hQuiet : Quiet app) (h : WellPosted app)
    (hStep : app.life e = some app') : WellPosted app' ∧ Quiet app' := by
  simp only [App.life, Option.ite_none_left_eq_some, Option.map_eq_some_iff] at hStep
  obtain ⟨-, ⟨server, endpoint⟩, -, rfl⟩ := hStep
  refine ⟨wellPosted_append h ?_, hQuiet⟩
  cases e <;> simp [App.posted, Task.WellFormed]

theorem receive_quiet {app app' : App D} {payload : StdString} (hQuiet : Quiet app)
    (h : WellPosted app) (hStep : app.receive doubles conn payload = some app') :
    WellPosted app' ∧ Quiet app' := by
  simp only [App.receive, Option.ite_none_right_eq_some] at hStep
  obtain ⟨-, hStep⟩ := hStep
  split at hStep
  · cases hStep
  · rename_i server queues calls hMessage
    cases hStep
    refine ⟨wellPosted_append h fun task hTask => ?_, hQuiet⟩
    obtain ⟨call, hCall, rfl⟩ := List.mem_map.mp hTask
    exact onMessage_calls doubles hMessage call hCall

theorem broadcast_quiet {app app' : App D} {b : Broadcast} (hQuiet : Quiet app)
    (h : WellPosted app) (hStep : app.broadcast b = some app') : WellPosted app' ∧ Quiet app' := by
  simp only [App.broadcast] at hStep
  split at hStep
  · cases hStep
  · cases hStep
    exact ⟨h, hQuiet⟩

theorem runTask_quiet_iff {app app' : App D} (hQuiet : Quiet app) (h : WellPosted app)
    (hStep : app.runTask doubles = some app') :
    WellPosted app' ∧ (Quiet app' ↔ Condition app .runTask) := by
  simp only [App.runTask] at hStep
  split at hStep
  · cases hStep
  rename_i task tasks hTasks
  have hTask : task.WellFormed := h task (by rw [hTasks]; exact List.mem_cons_self)
  have hCondition : Condition app .runTask ↔ task.Fine app.endpoint := by
    simp [Condition, hTasks]
  rw [hCondition, ← Task.run_iff doubles hTask]
  split at hStep
  · rename_i endpoint hRun
    cases hStep
    refine ⟨fun t ht => h t ?_, iff_of_true hQuiet ⟨endpoint, hRun⟩⟩
    rw [hTasks]
    exact List.mem_cons_of_mem _ ht
  · rename_i exn hRun
    cases hStep
    exact ⟨h, iff_of_false (by simp [Quiet]) (by simp [hRun])⟩

theorem sendNext_quiet_iff {app app' : App D} (hQuiet : Quiet app) (h : WellPosted app)
    (hStep : app.sendNext doubles = some app') :
    WellPosted app' ∧ (Quiet app' ↔ Condition app .sendNext) := by
  simp only [App.sendNext] at hStep
  split at hStep
  · cases hStep
  · cases hStep
    rename_i line hSending
    refine ⟨wellPosted_append h (by simp [Task.WellFormed]), iff_of_true hQuiet ?_⟩
    simp [Condition, hSending]
  · cases hStep
    rename_i chunk hSending
    exact ⟨h, iff_of_true hQuiet (by simp [Condition, hSending])⟩
  rename_i b conn conns hSending
  have hCondition : Condition app .sendNext ↔
      app.endpoint.isOpen conn = true ∧ b.Utf8 := by
    simp only [Condition, hSending, Option.some.injEq, Prod.mk.injEq, List.cons.injEq]
    constructor
    · intro hNext
      exact hNext b conn conns ⟨rfl, rfl, rfl⟩
    · rintro hNext _ _ _ ⟨rfl, rfl, rfl⟩
      exact hNext
  rw [hCondition, ← sendMessage_broadcast_iff doubles]
  split at hStep
  · rename_i endpoint hSend
    cases hStep
    exact ⟨h, iff_of_true hQuiet ⟨endpoint, hSend⟩⟩
  · rename_i exn hSend
    cases hStep
    exact ⟨h, iff_of_false (by simp [Quiet]) (by simp [hSend])⟩

/-- Only a task or a send can be thrown out of, and does so where the condition fails. -/
theorem step_quiet_iff {app app' : App D} {e : Event} (hQuiet : Quiet app) (h : WellPosted app)
    (hStep : (machine doubles).step app e = some app') :
    WellPosted app' ∧ (Quiet app' ↔ Condition app e) := by
  change app.step doubles e = some app' at hStep
  unfold App.step at hStep
  rw [show app.threw = false from hQuiet, if_neg Bool.false_ne_true] at hStep
  cases e with
  | life e =>
    obtain ⟨hPosted, hQuiet'⟩ := life_quiet hQuiet h hStep
    exact ⟨hPosted, iff_of_true hQuiet' trivial⟩
  | receive conn payload =>
    obtain ⟨hPosted, hQuiet'⟩ := receive_quiet hQuiet h hStep
    exact ⟨hPosted, iff_of_true hQuiet' trivial⟩
  | broadcast b =>
    obtain ⟨hPosted, hQuiet'⟩ := broadcast_quiet hQuiet h hStep
    exact ⟨hPosted, iff_of_true hQuiet' trivial⟩
  | runTask => exact runTask_quiet_iff hQuiet h hStep
  | sendNext => exact sendNext_quiet_iff hQuiet h hStep

theorem run_sendNext {b : Broadcast} {conns : List ConnectionHdl} {endpoint' : Endpoint} :
    ∀ {app : App D}, Quiet app → app.broadcasting = some (b, conns) →
      broadcastMessage doubles b.messageType b.arguments app.endpoint conns = (.ok (), endpoint') →
      (machine doubles).run app (List.replicate conns.length .sendNext) =
        some { app with endpoint := endpoint', broadcasting := some (b, []) } := by
  induction conns with
  | nil =>
    intro app _ hSending h
    simp only [broadcastMessage, Prod.mk.injEq, true_and] at h
    subst h
    cases app
    simp_all
  | cons conn conns ih =>
    intro app hQuiet hSending h
    rw [broadcastMessage] at h
    cases hSend : sendMessage doubles app.endpoint conn b.messageType b.arguments with
    | error exn => simp [hSend] at h
    | ok endpoint =>
      rw [hSend] at h
      have hStep : (machine doubles).step app .sendNext =
          some { app with endpoint := endpoint, broadcasting := some (b, conns) } := by
        change app.step doubles .sendNext = _
        rw [App.step, show app.threw = false from hQuiet, if_neg Bool.false_ne_true]
        simp [App.sendNext, hSending, hSend, show app.threw = false from hQuiet]
      exact (machine doubles).run_cons_eq_some.mpr ⟨_, hStep, ih hQuiet rfl h⟩

/-- A run is quiet throughout exactly when each task it runs is fine where it runs and each send
it makes finds its connection open. -/
theorem quiet_throughout_iff (doubles : Doubles D) (server : Server) (es : List Event) :
    (machine doubles).Throughout Quiet (start server) es ↔
      (machine doubles).StepsMeet Condition (start server) es :=
  (machine doubles).throughout_iff_stepsMeet
    (fun _ _ _ hPosted hQuiet _ hStep => (step_quiet_iff hQuiet hPosted hStep).1)
    (fun _ _ _ hPosted hQuiet hStep => (step_quiet_iff hQuiet hPosted hStep).2)
    (fun _ hTask => absurd hTask List.not_mem_nil) rfl

theorem hello_throws : ¬ ∀ es,
    (machine Doubles.absent).Throughout Quiet (start { type := .linux }) es := by
  intro hAll
  have hRun : ((machine Doubles.absent).run (start { type := .linux })
      [.life (.onOpen 1), .life (.leaveOpenState 1), .runTask]).map App.threw = some true := by
    decide +kernel
  obtain ⟨app, hApp, hThrew⟩ := Option.map_eq_some_iff.mp hRun
  have hQuiet := (hAll _).last _ hApp
  rw [Quiet, hThrew] at hQuiet
  cases hQuiet

end ScRedirection.ServerProgram
