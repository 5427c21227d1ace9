import ScRedirection.Websocketpp.Parsing

/-! # What a session writes

The handlers of a session queue frames of the server, and one `write_frame` at a time takes what is
queued. What is written keeps the order of the queue and ends with the first close frame. While a
frame waits, a `write_frame` is on its way or the transport has a batch to report on.
-/

namespace ScRedirection.Websocketpp

open Websocketpp.Frame

/-- The messages that the server makes. -/
inductive OutMessage.Made : OutMessage → Prop
  | text {payload : Bytes} (h : Utf8Validator.validate payload = true) :
      Made (prepareFrame .text true none payload)
  | pong {payload : Bytes} (h : payload.length ≤ payloadSizeBasic) :
      Made (prepareFrame .pong true none payload)
  | close {payload : Bytes} (h : payload.length ≤ payloadSizeBasic) :
      Made { prepareFrame .close true none payload with terminal := true }

theorem OutMessage.Made.terminal_iff {msg : OutMessage} (h : msg.Made) :
    msg.terminal = true ↔ msg.opcode = .close := by
  cases h <;> simp [prepareFrame]

theorem prepareControl_made {op : Opcode} {payload : Bytes} {msg : OutMessage}
    (h : prepareControl true 0 op payload = .ok msg) :
    payload.length ≤ payloadSizeBasic ∧ msg = prepareFrame op true none payload := by
  unfold prepareControl at h
  by_cases hKind : op.isControl = false
  · rw [if_pos hKind] at h
    cases h
  by_cases hSize : payload.length > payloadSizeBasic
  · rw [if_neg hKind, if_pos hSize] at h
    cases h
  · rw [if_neg hKind, if_neg hSize] at h
    cases h
    exact ⟨Nat.le_of_not_lt hSize, rfl⟩

theorem prepareClose_made {code : Close.Status} {reason : Bytes} {msg : OutMessage}
    (h : prepareClose true 0 code reason = .ok msg) :
    { msg with terminal := true }.Made := by
  unfold prepareClose at h
  split_ifs at h
  all_goals
    obtain ⟨hFits, rfl⟩ := prepareControl_made h
    exact .close hFits

namespace WireSession

variable {con con' con'' : WireSession}

/-- The states only go on: to closing, and to closed for good. -/
inductive Goes : SessionState → SessionState → Prop
  | stays (state : SessionState) : Goes state state
  | closing {state : SessionState} (h : state ≠ .closed) : Goes state .closing
  | closed (state : SessionState) : Goes state .closed

theorem Goes.trans {a b c : SessionState} (h : Goes a b) (h' : Goes b c) : Goes a c := by
  cases h' with
  | stays => exact h
  | closed => exact .closed a
  | closing hOpen =>
    cases h with
    | stays => exact .closing hOpen
    | closing hState => exact .closing hState
    | closed => exact absurd rfl hOpen

theorem Goes.not_open {a b : SessionState} (h : Goes a b) (hClosed : a ≠ .open) : b ≠ .open := by
  cases h with
  | stays => exact hClosed
  | closing | closed => exact SessionState.noConfusion

theorem Goes.over {b : SessionState} (h : Goes .closed b) : b = .closed := by
  cases h with
  | stays | closed => rfl
  | closing h => exact absurd rfl h

theorem Goes.begun {a b : SessionState} (h : Goes a b) (hBegun : a ≠ .connecting) :
    b ≠ .connecting := by
  cases h with
  | stays => exact hBegun
  | closing | closed => exact SessionState.noConfusion

/-- What is pushed, and how it shows. The last thing an end can say is among it where the session
begins to close. -/
structure Queues (con con' : WireSession) (msgs : List OutMessage) : Prop where
  sendQueue : con'.sendQueue = con.sendQueue ++ msgs
  dispatched : con'.dispatched =
    if con.writeFlag then con.dispatched else con.dispatched + msgs.length
  writeFlag : con'.writeFlag = con.writeFlag
  current : con'.current = con.current
  written : con'.written = con.written
  goes : Goes con.state con'.state
  closing : con'.state = .closing → con.state = .closing ∨ ∃ msg ∈ msgs, msg.terminal = true

theorem queues_silent (hQueue : con'.sendQueue = con.sendQueue)
    (hDispatched : con'.dispatched = con.dispatched) (hFlag : con'.writeFlag = con.writeFlag)
    (hCurrent : con'.current = con.current) (hWritten : con'.written = con.written)
    (hState : con'.state = con.state ∨ con'.state = .closed) : Queues con con' [] := by
  refine ⟨by rw [hQueue, List.append_nil], hDispatched.trans (ite_self _).symm, hFlag, hCurrent,
    hWritten, ?_, fun hClosing => .inl ?_⟩
  · rcases hState with hState | hState
    · exact hState ▸ .stays _
    · exact hState ▸ .closed _
  · rcases hState with hState | hState
    · rw [← hState, hClosing]
    · rw [hState] at hClosing
      cases hClosing

theorem queues_writePush (con : WireSession) (msg : OutMessage) :
    Queues con (con.writePush msg) [msg] :=
  ⟨rfl, rfl, rfl, rfl, rfl, .stays _, .inl⟩

theorem Queues.trans {msgs more : List OutMessage} (h : Queues con con' msgs)
    (h' : Queues con' con'' more) : Queues con con'' (msgs ++ more) := by
  refine ⟨?_, ?_, h'.writeFlag.trans h.writeFlag, h'.current.trans h.current,
    h'.written.trans h.written, h.goes.trans h'.goes, fun hEnd => ?_⟩
  · rw [h'.sendQueue, h.sendQueue, List.append_assoc]
  · rw [h'.dispatched, h.writeFlag, h.dispatched, List.length_append]
    split_ifs
    · rfl
    · exact Nat.add_assoc _ _ _
  · rcases h'.closing hEnd with hEnd | ⟨msg, hMsg, hTerminal⟩
    · rcases h.closing hEnd with hEnd | ⟨msg, hMsg, hTerminal⟩
      · exact .inl hEnd
      · exact .inr ⟨msg, List.mem_append_left _ hMsg, hTerminal⟩
    · exact .inr ⟨msg, List.mem_append_right _ hMsg, hTerminal⟩

/-- A handler of a message pushes control frames. -/
def Handled (con con' : WireSession) : Prop :=
  ∃ msgs, Queues con con' msgs ∧ ∀ msg ∈ msgs, msg.Made ∧ msg.opcode ≠ .text

theorem Handled.closed (h : Handled con con') : con.state ≠ .open → con'.state ≠ .open := by
  obtain ⟨msgs, hQueues, -⟩ := h
  exact hQueues.goes.not_open

theorem handled_silent (hQueue : con'.sendQueue = con.sendQueue)
    (hDispatched : con'.dispatched = con.dispatched) (hFlag : con'.writeFlag = con.writeFlag)
    (hCurrent : con'.current = con.current) (hWritten : con'.written = con.written)
    (hState : con'.state = con.state ∨ con'.state = .closed) : Handled con con' :=
  ⟨[], queues_silent hQueue hDispatched hFlag hCurrent hWritten hState, List.forall_mem_nil _⟩

theorem Handled.refl (con : WireSession) : Handled con con :=
  handled_silent rfl rfl rfl rfl rfl (.inl rfl)

theorem Handled.trans (h : Handled con con') (h' : Handled con' con'') : Handled con con'' := by
  obtain ⟨msgs, hQueues, hMade⟩ := h
  obtain ⟨more, hQueues', hMade'⟩ := h'
  refine ⟨msgs ++ more, hQueues.trans hQueues', fun msg hMsg => ?_⟩
  rcases List.mem_append.mp hMsg with hMsg | hMsg
  · exact hMade msg hMsg
  · exact hMade' msg hMsg

theorem handled_terminate (con : WireSession) : Handled con con.terminate :=
  handled_silent rfl rfl rfl rfl rfl (.inr rfl)

theorem handled_pong (con : WireSession) (payload : Bytes) : Handled con (con.pong payload) := by
  unfold pong
  split_ifs
  · exact .refl con
  · cases hPong : prepareControl true 0 .pong payload with
    | error error => exact .refl con
    | ok msg =>
      obtain ⟨hFits, rfl⟩ := prepareControl_made hPong
      refine ⟨_, queues_writePush con _, ?_⟩
      rw [List.forall_mem_singleton]
      exact ⟨.pong hFits, Opcode.noConfusion⟩

theorem handled_sendCloseAck (con : WireSession) (code : Close.Status) (reason : Bytes)
    (hState : con.state ≠ .closed) : Handled con (con.sendCloseAck code reason) := by
  unfold sendCloseAck sendCloseFrame
  dsimp only
  cases hClose : prepareClose true 0 (con.closeInfo code reason true).1
    (con.closeInfo code reason true).2 with
  | error error => exact .refl con
  | ok msg =>
    refine ⟨_, ⟨rfl, rfl, rfl, rfl, rfl, .closing hState,
      fun _ => .inr ⟨_, List.mem_singleton_self _, rfl⟩⟩, ?_⟩
    rw [List.forall_mem_singleton]
    have hMade := prepareClose_made hClose
    refine ⟨hMade, fun hText => ?_⟩
    rw [hMade.terminal_iff.mp rfl] at hText
    cases hText

theorem handled_failRead (con : WireSession) (error : ProcessorError) :
    Handled con (con.failRead error) ∧ (con.failRead error).state ≠ .open := by
  by_cases hOpen : con.state = .open
  · rw [failRead_open hOpen]
    have hFits : (Octets.bigEndian 2 error.toWs ++ error.message.take closeReasonSize).length ≤
        payloadSizeBasic := by
      have hReason := List.length_take_le closeReasonSize error.message
      rw [List.length_append, Octets.length_bigEndian, payloadSizeBasic]
      rw [closeReasonSize] at hReason ⊢
      omega
    refine ⟨⟨_, ⟨rfl, rfl, rfl, rfl, rfl, .closing (hOpen ▸ SessionState.noConfusion),
      fun _ => .inr ⟨_, List.mem_singleton_self _, rfl⟩⟩, ?_⟩, SessionState.noConfusion⟩
    rw [List.forall_mem_singleton]
    exact ⟨.close hFits, Opcode.noConfusion⟩
  · rw [failRead, closeOrTerminate, if_pos hOpen]
    exact ⟨handled_terminate con, SessionState.noConfusion⟩

theorem handled_processControlFrame (con : WireSession) (op : Opcode) (payload : Bytes) :
    Handled con (con.processControlFrame op payload) := by
  have hNote : ∀ code reason clean, Handled con { con with
      remoteCloseCode := code, remoteCloseReason := reason, wasClean := clean } := fun _ _ _ =>
    handled_silent rfl rfl rfl rfl rfl (.inl rfl)
  unfold processControlFrame
  dsimp only
  split_ifs with hClosed
  · exact .refl con
  · exact .refl con
  · exact handled_pong con payload
  · exact (hNote _ con.remoteCloseReason con.wasClean).trans (handled_sendCloseAck _ _ _ hClosed)
  · exact (hNote _ _ con.wasClean).trans (handled_sendCloseAck _ _ _ hClosed)
  · exact (hNote _ _ con.wasClean).trans (handled_sendCloseAck _ _ _ hClosed)
  · exact (hNote _ _ true).trans (handled_terminate _)
  · exact hNote _ _ con.wasClean
  · exact .refl con

/-- The messages that are for the message handler. -/
def data (msgs : List WireMessage) : List WireMessage :=
  msgs.filter fun msg => !msg.opcode.isControl

theorem handleMessage_spec (con : WireSession) (msg : WireMessage) :
    Handled con (con.handleMessage msg).1 ∧
      (con.handleMessage msg).2 = if con.state = .open then data [msg] else [] := by
  rw [handleMessage, data, List.filter_singleton]
  by_cases hControl : msg.opcode.isControl = true
  · rw [if_pos hControl, hControl]
    exact ⟨handled_processControlFrame con _ _, (ite_self _).symm⟩
  · rw [if_neg hControl, Bool.eq_false_iff.mpr hControl]
    by_cases hOpen : con.state = .open
    · rw [if_neg fun h => h hOpen, if_pos hOpen]
      exact ⟨.refl con, rfl⟩
    · rw [if_pos hOpen, if_neg hOpen]
      exact ⟨.refl con, rfl⟩

/-- What is handed out are the data messages, up to where the session is not open any more. -/
theorem handleMessages_spec (con : WireSession) (msgs : List WireMessage) :
    Handled con (con.handleMessages msgs).1 ∧ (con.handleMessages msgs).2 <+: data msgs ∧
      ((con.handleMessages msgs).1.state = .open → (con.handleMessages msgs).2 = data msgs) ∧
      (con.state ≠ .open → (con.handleMessages msgs).2 = []) := by
  induction msgs generalizing con with
  | nil => exact ⟨.refl con, List.prefix_rfl, fun _ => rfl, fun _ => rfl⟩
  | cons msg msgs ih =>
    obtain ⟨hFirst, hOut⟩ := handleMessage_spec con msg
    obtain ⟨hRest, hPrefix, hAll, hNone⟩ := ih (con.handleMessage msg).1
    have hData : data (msg :: msgs) = data [msg] ++ data msgs := List.filter_append [msg] msgs
    rw [handleMessages, hData]
    dsimp only
    refine ⟨hFirst.trans hRest, ?_, fun hOpen => ?_, fun hClosed => ?_⟩
    · rw [hOut]
      split_ifs with hOpen
      · exact (List.prefix_append_right_inj _).mpr hPrefix
      · rw [hNone (hFirst.closed hOpen)]
        exact List.nil_prefix
    · have hStart : con.state = .open := by
        by_contra hClosed
        exact hRest.closed (hFirst.closed hClosed) hOpen
      rw [hOut, if_pos hStart, hAll hOpen]
    · rw [hOut, if_neg hClosed, hNone (hFirst.closed hClosed)]
      rfl

/-! The queue -/

/-- The messages of a session: what it wrote and what it will, the texts among them in the order
they were pushed, and a terminal message only at the end of what is written. -/
structure Ordered (con : WireSession) (pushed : List OutMessage) : Prop where
  made : ∀ msg ∈ con.written ++ con.sendQueue, msg.Made
  texts : (con.written ++ con.sendQueue).filter (fun msg => msg.opcode == .text) = pushed
  last : ∀ msg ∈ con.written.dropLast, msg.terminal = false
  flag : ∀ msg ∈ con.written, msg.terminal = true → con.writeFlag = true
  current : con.current ≠ [] →
    con.writeFlag = true ∧ con.current.getLast? = con.written.getLast?

variable {pushed : List OutMessage}

theorem Ordered.queues (h : Ordered con pushed) {msgs : List OutMessage}
    (hQueues : Queues con con' msgs) (hMade : ∀ msg ∈ msgs, msg.Made) :
    Ordered con' (pushed ++ msgs.filter fun msg => msg.opcode == .text) := by
  have hAll : con'.written ++ con'.sendQueue = con.written ++ con.sendQueue ++ msgs := by
    rw [hQueues.written, hQueues.sendQueue, List.append_assoc]
  constructor
  · rw [hAll]
    intro msg hMsg
    rcases List.mem_append.mp hMsg with hMsg | hMsg
    · exact h.made msg hMsg
    · exact hMade msg hMsg
  · rw [hAll, List.filter_append, h.texts]
  · rw [hQueues.written]
    exact h.last
  · rw [hQueues.written, hQueues.writeFlag]
    exact h.flag
  · rw [hQueues.written, hQueues.writeFlag, hQueues.current]
    exact h.current

theorem Ordered.handled (h : Ordered con pushed) (hHandled : Handled con con') :
    Ordered con' pushed := by
  obtain ⟨msgs, hQueues, hMade⟩ := hHandled
  have hNone : msgs.filter (fun msg => msg.opcode == .text) = [] := by
    rw [List.filter_eq_nil_iff]
    intro msg hMsg
    simpa using (hMade msg hMsg).2
  have hNext := h.queues hQueues fun msg hMsg => (hMade msg hMsg).1
  rwa [hNone, List.append_nil] at hNext

theorem Ordered.writePush (h : Ordered con pushed) {msg : OutMessage} (hMade : msg.Made)
    (hText : msg.opcode = .text) : Ordered (con.writePush msg) (pushed ++ [msg]) := by
  have hOne : [msg].filter (fun msg => msg.opcode == .text) = [msg] := by simp [hText]
  have hNext := h.queues (queues_writePush con msg) (List.forall_mem_singleton.mpr hMade)
  rwa [hOne] at hNext

theorem takeBatch_spec (queue : List OutMessage) :
    queue = (takeBatch queue).1 ++ (takeBatch queue).2 ∧
      ∀ msg ∈ (takeBatch queue).1.dropLast, msg.terminal = false := by
  induction queue with
  | nil => exact ⟨rfl, List.forall_mem_nil _⟩
  | cons msg queue ih =>
    rw [takeBatch]
    split_ifs with hTerminal
    · exact ⟨rfl, List.forall_mem_nil _⟩
    · refine ⟨congrArg (List.cons msg) ih.1, fun msg' hMsg => ?_⟩
      dsimp only at hMsg
      cases hBatch : (takeBatch queue).1 with
      | nil =>
        rw [hBatch] at hMsg
        cases hMsg
      | cons next batch =>
        rw [hBatch, List.dropLast_cons_cons] at hMsg
        rcases List.mem_cons.mp hMsg with rfl | hMsg
        · exact Bool.eq_false_iff.mpr hTerminal
        · exact ih.2 msg' (hBatch ▸ hMsg)

theorem Ordered.writeFrame (h : Ordered con pushed) : Ordered con.writeFrame pushed := by
  unfold WireSession.writeFrame
  dsimp only
  have hRest : Ordered { con with dispatched := con.dispatched - 1 } pushed :=
    ⟨h.made, h.texts, h.last, h.flag, h.current⟩
  split_ifs with hFlag hBatch
  · exact hRest
  · exact hRest
  obtain ⟨hQueue, hBefore⟩ := takeBatch_spec con.sendQueue
  have hAll : con.written ++ (takeBatch con.sendQueue).1 ++ (takeBatch con.sendQueue).2 =
      con.written ++ con.sendQueue := by
    rw [List.append_assoc, ← hQueue]
  refine ⟨?_, ?_, ?_, fun _ _ _ => rfl, fun _ => ⟨rfl, ?_⟩⟩
  · rw [hAll]
    exact h.made
  · rw [hAll]
    exact h.texts
  · intro msg hMsg
    rw [List.dropLast_append_of_ne_nil hBatch] at hMsg
    rcases List.mem_append.mp hMsg with hMsg | hMsg
    · by_contra hTerminal
      exact hFlag (h.flag msg hMsg (Bool.not_eq_false _ ▸ hTerminal))
    · exact hBefore msg hMsg
  · rw [List.getLast?_append_of_ne_nil _ hBatch]

theorem Ordered.handleWriteFrame (h : Ordered con pushed) (failed : Bool) :
    Ordered (con.handleWriteFrame failed) pushed := by
  unfold WireSession.handleWriteFrame
  cases hLast : con.current.getLast? with
  | none => exact h
  | some last =>
    dsimp only
    have hStill : Ordered { con with current := [] }.terminate pushed :=
      ⟨h.made, h.texts, h.last, h.flag, fun h => absurd rfl h⟩
    by_cases hFailed : failed = true
    · rw [if_pos hFailed]
      exact hStill
    by_cases hTerminal : last.terminal = true
    · rw [if_neg hFailed, if_pos hTerminal]
      exact hStill
    · rw [if_neg hFailed, if_neg hTerminal]
      refine ⟨h.made, h.texts, h.last, fun msg hMsg hEnd => ?_, fun h => absurd rfl h⟩
      have hCurrent : con.current ≠ [] := by
        intro hNone
        rw [hNone] at hLast
        cases hLast
      have hWritten := (h.current hCurrent).2
      rw [hLast] at hWritten
      obtain ⟨front, hFront⟩ := List.getLast?_eq_some_iff.mp hWritten.symm
      have hLater := h.last msg
      rw [hFront] at hMsg hLater
      rw [List.dropLast_concat] at hLater
      rcases List.mem_append.mp hMsg with hMsg | hMsg
      · rw [hLater hMsg] at hEnd
        cases hEnd
      · rw [List.mem_singleton.mp hMsg] at hEnd
        exact absurd hEnd hTerminal

theorem handled_handleCloseHandshakeTimeout (con : WireSession) :
    Handled con con.handleCloseHandshakeTimeout := by
  unfold handleCloseHandshakeTimeout
  split_ifs
  · exact handled_terminate con
  · exact .refl con

/-! Who writes next -/

theorem state_writeFrame (con : WireSession) : con.writeFrame.state = con.state := by
  unfold WireSession.writeFrame
  dsimp only
  split_ifs <;> rfl

theorem goes_handleWriteFrame (con : WireSession) (failed : Bool) :
    Goes con.state (con.handleWriteFrame failed).state := by
  unfold WireSession.handleWriteFrame
  cases con.current.getLast? with
  | none => exact .stays _
  | some last =>
    dsimp only
    by_cases hFailed : failed = true
    · rw [if_pos hFailed]
      exact .closed _
    by_cases hTerminal : last.terminal = true
    · rw [if_neg hFailed, if_pos hTerminal]
      exact .closed _
    · rw [if_neg hFailed, if_neg hTerminal]
      exact .stays _

/-- The write flag stands for a batch that the transport has, or for the end; while it is clear, a
`write_frame` is to come for what waits. A session that is closing has its last frame before it. -/
structure Prompt (con : WireSession) : Prop where
  flag : con.writeFlag = true → con.current ≠ [] ∨ con.state = .closed
  waits : con.sendQueue ≠ [] → con.writeFlag = false → con.dispatched ≠ 0
  closing : con.state = .closing → ∃ msg ∈ con.sendQueue ++ con.current, msg.terminal = true
  batch : ∀ msg ∈ con.current.dropLast, msg.terminal = false
  begun : con.state ≠ .connecting

theorem Prompt.queues (h : Prompt con) {msgs : List OutMessage} (hQueues : Queues con con' msgs) :
    Prompt con' where
  flag := by
    rw [hQueues.writeFlag, hQueues.current]
    intro hFlag
    refine (h.flag hFlag).imp_right fun hClosed => ?_
    exact (hClosed ▸ hQueues.goes).over
  waits := by
    rw [hQueues.sendQueue, hQueues.writeFlag, hQueues.dispatched]
    intro hWaits hFlag
    rw [hFlag, if_neg Bool.false_ne_true]
    cases msgs with
    | nil =>
      rw [List.append_nil] at hWaits
      exact h.waits hWaits hFlag
    | cons msg msgs => exact Nat.succ_ne_zero _
  closing := by
    intro hClosing
    rw [hQueues.sendQueue, hQueues.current]
    rcases hQueues.closing hClosing with hStart | ⟨msg, hMsg, hTerminal⟩
    · obtain ⟨msg, hMsg, hTerminal⟩ := h.closing hStart
      refine ⟨msg, ?_, hTerminal⟩
      rcases List.mem_append.mp hMsg with hMsg | hMsg
      · exact List.mem_append_left _ (List.mem_append_left _ hMsg)
      · exact List.mem_append_right _ hMsg
    · exact ⟨msg, List.mem_append_left _ (List.mem_append_right _ hMsg), hTerminal⟩
  batch := by
    rw [hQueues.current]
    exact h.batch
  begun := hQueues.goes.begun h.begun

theorem Prompt.handled (h : Prompt con) (hHandled : Handled con con') : Prompt con' := by
  obtain ⟨msgs, hQueues, -⟩ := hHandled
  exact h.queues hQueues

/-- A batch is only taken while none is out. -/
theorem Prompt.writeFrame (h : Prompt con) (hIdle : con.writeFlag = false → con.current = []) :
    Prompt con.writeFrame := by
  obtain ⟨hQueue, hBefore⟩ := takeBatch_spec con.sendQueue
  unfold WireSession.writeFrame
  dsimp only
  by_cases hFlag : con.writeFlag = true
  · rw [if_pos hFlag]
    refine ⟨h.flag, fun _ hClear => ?_, h.closing, h.batch, h.begun⟩
    rw [hFlag] at hClear
    cases hClear
  rw [if_neg hFlag]
  have hNone := hIdle (Bool.eq_false_iff.mpr hFlag)
  by_cases hBatch : (takeBatch con.sendQueue).1 = []
  · rw [if_pos hBatch]
    have hEmpty : con.sendQueue = [] := by
      cases hSend : con.sendQueue with
      | nil => rfl
      | cons msg queue =>
        rw [hSend, takeBatch] at hBatch
        split_ifs at hBatch
    refine ⟨h.flag, fun hWaits => absurd hEmpty hWaits, h.closing, h.batch, h.begun⟩
  · rw [if_neg hBatch]
    refine ⟨fun _ => .inl hBatch, fun _ hClear => ?_, fun hClosing => ?_, hBefore, h.begun⟩
    · cases hClear
    · obtain ⟨msg, hMsg, hTerminal⟩ := h.closing hClosing
      rw [hNone, List.append_nil, hQueue] at hMsg
      refine ⟨msg, ?_, hTerminal⟩
      dsimp only
      rcases List.mem_append.mp hMsg with hMsg | hMsg
      · exact List.mem_append_right _ hMsg
      · exact List.mem_append_left _ hMsg

theorem Prompt.handleWriteFrame (h : Prompt con) (failed : Bool) :
    Prompt (con.handleWriteFrame failed) := by
  unfold WireSession.handleWriteFrame
  cases hLast : con.current.getLast? with
  | none => exact h
  | some last =>
    dsimp only
    have hOver : Prompt { con with current := [] }.terminate :=
      ⟨fun _ => .inr rfl, h.waits, fun hClosing => SessionState.noConfusion hClosing,
        List.forall_mem_nil _, SessionState.noConfusion⟩
    by_cases hFailed : failed = true
    · rw [if_pos hFailed]
      exact hOver
    by_cases hTerminal : last.terminal = true
    · rw [if_neg hFailed, if_pos hTerminal]
      exact hOver
    rw [if_neg hFailed, if_neg hTerminal]
    refine ⟨fun hFlag => ?_, fun hWaits _ => ?_, fun hClosing => ?_, List.forall_mem_nil _, h.begun⟩
    · cases hFlag
    · dsimp only at hWaits ⊢
      rw [if_neg hWaits]
      exact Nat.succ_ne_zero _
    · obtain ⟨msg, hMsg, hEnd⟩ := h.closing hClosing
      dsimp only
      rw [List.append_nil]
      refine ⟨msg, (List.mem_append.mp hMsg).resolve_right fun hCurrent => ?_, hEnd⟩
      obtain ⟨front, hFront⟩ := List.getLast?_eq_some_iff.mp hLast
      have hBatch := h.batch msg
      rw [hFront, List.dropLast_concat] at hBatch
      rw [hFront] at hCurrent
      rcases List.mem_append.mp hCurrent with hCurrent | hCurrent
      · rw [hBatch hCurrent] at hEnd
        cases hEnd
      · rw [List.mem_singleton.mp hCurrent] at hEnd
        exact hTerminal hEnd

/-- A bound on the writes that are left to do. -/
def backlog (con : WireSession) : Nat :=
  con.dispatched + 2 * con.sendQueue.length + if con.current = [] then 0 else 2

theorem backlog_writeFrame (h : con.dispatched ≠ 0) : con.writeFrame.backlog < con.backlog := by
  have hFewer : con.dispatched - 1 < con.dispatched := Nat.sub_one_lt h
  obtain ⟨hQueue, -⟩ := takeBatch_spec con.sendQueue
  unfold WireSession.writeFrame
  dsimp only
  by_cases hFlag : con.writeFlag = true
  · rw [if_pos hFlag]
    exact Nat.add_lt_add_right (Nat.add_lt_add_right hFewer _) _
  rw [if_neg hFlag]
  by_cases hBatch : (takeBatch con.sendQueue).1 = []
  · rw [if_pos hBatch]
    exact Nat.add_lt_add_right (Nat.add_lt_add_right hFewer _) _
  · rw [if_neg hBatch, backlog, backlog]
    have hLength := congrArg List.length hQueue
    have hSome := List.length_pos_of_ne_nil hBatch
    rw [List.length_append] at hLength
    dsimp only
    rw [if_neg hBatch]
    omega

theorem backlog_handleWriteFrame (h : con.current ≠ []) (failed : Bool) :
    (con.handleWriteFrame failed).backlog < con.backlog := by
  have hLess : ∀ dispatched, dispatched ≤ con.dispatched + 1 →
      dispatched + 2 * con.sendQueue.length + 0 < con.backlog := by
    intro dispatched hDispatched
    rw [backlog, if_neg h]
    omega
  unfold WireSession.handleWriteFrame
  cases hLast : con.current.getLast? with
  | none => exact absurd (List.getLast?_eq_none_iff.mp hLast) h
  | some last =>
    dsimp only
    by_cases hFailed : failed = true
    · rw [if_pos hFailed]
      exact hLess _ (Nat.le_succ _)
    by_cases hTerminal : last.terminal = true
    · rw [if_neg hFailed, if_pos hTerminal]
      exact hLess _ (Nat.le_succ _)
    · rw [if_neg hFailed, if_neg hTerminal]
      refine hLess _ ?_
      split_ifs
      · exact Nat.le_succ _
      · exact Nat.le_refl _

end WireSession

end ScRedirection.Websocketpp
