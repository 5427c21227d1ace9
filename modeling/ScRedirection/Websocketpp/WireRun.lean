import ScRedirection.Library.EventMachine
import ScRedirection.Websocketpp.Writing

/-! # Runs of a connection

Reads, writes that the transport reports on, the timer of the close handshake and senders in other
threads, in any order. A sender holds no lock between the check of the state and the push of its
message, so that a message can be pushed behind a close frame; it is never written.
-/

namespace ScRedirection.Websocketpp

open Websocketpp.Frame

/-- A connection, the senders between their two locks, and what came of it: the bytes it was given,
the messages it handed out and the data messages that were pushed. -/
structure WireEndpoint where
  con : WireConnection
  sending : List OutMessage := []
  received : Bytes := []
  delivered : List WireMessage := []
  pushed : List OutMessage := []

inductive WireEvent
  | handleReadFrame (buf : Bytes)
  | handleReadError
  | prepareSend (payload : Bytes)
  | writePush (sender : Nat)
  | writeFrame
  | handleWriteFrame (failed : Bool)
  | handleCloseHandshakeTimeout
  deriving DecidableEq, Repr

namespace WireEndpoint

def opened (maxMessageSize : Nat) : WireEndpoint where
  con := .opened maxMessageSize

def withSession (s : WireEndpoint) (session : WireSession) : WireEndpoint :=
  { s with con := { s.con with session := session } }

/-- A handler of a read runs while a read is outstanding, one of a write while a write is, and
`write_frame` as often as it was dispatched. -/
def step (s : WireEndpoint) : WireEvent → Option WireEndpoint
  | .handleReadFrame buf =>
    if s.con.reading = none then none
    else some { s with
      con := (s.con.handleReadFrame buf).1
      received := s.received ++ buf
      delivered := s.delivered ++ (s.con.handleReadFrame buf).2 }
  | .handleReadError =>
    if s.con.reading = none then none else some { s with con := s.con.handleReadError }
  | .prepareSend payload =>
    match s.con.session.prepareSend payload with
    | .error _ => some s
    | .ok msg => some { s with sending := s.sending ++ [msg] }
  | .writePush sender =>
    match s.sending[sender]? with
    | none => none
    | some msg => some { s.withSession (s.con.session.writePush msg) with
        sending := s.sending.eraseIdx sender
        pushed := s.pushed ++ [msg] }
  | .writeFrame =>
    if s.con.session.dispatched = 0 then none
    else some (s.withSession s.con.session.writeFrame)
  | .handleWriteFrame failed =>
    if s.con.session.current = [] then none
    else some (s.withSession (s.con.session.handleWriteFrame failed))
  | .handleCloseHandshakeTimeout =>
    some (s.withSession s.con.session.handleCloseHandshakeTimeout)

def machine : EventMachine WireEndpoint WireEvent := ⟨step⟩

end WireEndpoint

/-! ## Runs -/

namespace WireEndpoint

variable {maxMessageSize : Nat} {s t : WireEndpoint} {event : WireEvent}

/-- All that was read, in one piece. -/
def heard (maxMessageSize : Nat) (s : WireEndpoint) : Reader × List WireMessage :=
  Reader.read (.ok (WireConnection.openedProcessor maxMessageSize)) s.received

/-- A text that a sender has prepared. -/
def IsText (msg : OutMessage) : Prop :=
  ∃ payload, Utf8Validator.validate payload = true ∧ msg = prepareFrame .text true none payload

structure Inv (maxMessageSize : Nat) (s : WireEndpoint) : Prop where
  ordered : s.con.session.Ordered s.pushed
  prompt : s.con.session.Prompt
  sending : ∀ msg ∈ s.sending, IsText msg
  waiting : s.con.Waiting
  reading : s.con.session.state = .open → ∃ p, s.con.reading = some p
  reader : ∀ p, s.con.reading = some p → (s.heard maxMessageSize).1 = .ok p
  delivered : s.delivered <+: WireSession.data (s.heard maxMessageSize).2
  complete : s.con.session.state = .open →
    s.delivered = WireSession.data (s.heard maxMessageSize).2

theorem openedProcessor_between (maxMessageSize : Nat) :
    (WireConnection.openedProcessor maxMessageSize).Between :=
  ⟨(WireConnection.waiting_opened maxMessageSize _ rfl).1, rfl, rfl⟩

theorem inv_opened (maxMessageSize : Nat) : (opened maxMessageSize).Inv maxMessageSize := by
  have hHeard : (opened maxMessageSize).heard maxMessageSize =
      (.ok (WireConnection.openedProcessor maxMessageSize), []) :=
    (openedProcessor_between maxMessageSize).read_nil
  refine ⟨⟨List.forall_mem_nil _, rfl, List.forall_mem_nil _, List.forall_mem_nil _,
    fun h => absurd rfl h⟩, ⟨fun h => (nomatch h), fun h => absurd rfl h, fun h => (nomatch h),
    List.forall_mem_nil _, SessionState.noConfusion⟩, List.forall_mem_nil _,
    WireConnection.waiting_opened maxMessageSize, fun _ => ⟨_, rfl⟩, fun p hp => ?_, ?_,
    fun _ => ?_⟩
  · cases hp
    rw [hHeard]
  · rw [hHeard]
    exact List.prefix_rfl
  · rw [hHeard]
    rfl

/-- A step that only a handler of the session takes. -/
theorem Inv.withSession (h : s.Inv maxMessageSize) {session : WireSession}
    (hOrdered : session.Ordered s.pushed) (hPrompt : session.Prompt)
    (hClosed : s.con.session.state ≠ .open → session.state ≠ .open) :
    (s.withSession session).Inv maxMessageSize where
  ordered := hOrdered
  prompt := hPrompt
  sending := h.sending
  waiting := h.waiting
  reading := fun hOpen => h.reading (not_imp_not.mp hClosed hOpen)
  reader := h.reader
  delivered := h.delivered
  complete := fun hOpen => h.complete (not_imp_not.mp hClosed hOpen)

theorem Inv.handleReadFrame (h : s.Inv maxMessageSize) {p : Hybi13}
    (hReading : s.con.reading = some p) (buf : Bytes) :
    { s with
      con := (s.con.handleReadFrame buf).1
      received := s.received ++ buf
      delivered := s.delivered ++ (s.con.handleReadFrame buf).2 : WireEndpoint }.Inv
      maxMessageSize := by
  obtain ⟨hValid, hNeeds⟩ := h.waiting p hReading
  have hHeard : Reader.read (.ok (WireConnection.openedProcessor maxMessageSize))
      (s.received ++ buf) = ((Reader.read (.ok p) buf).1,
        (s.heard maxMessageSize).2 ++ (Reader.read (.ok p) buf).2) := by
    have hAppend : Reader.scanner.read (.ok (WireConnection.openedProcessor maxMessageSize))
        (s.received ++ buf) = _ :=
      Reader.lawful.read_append (Reader.valid_ok (openedProcessor_between maxMessageSize).valid)
    have hReader := h.reader p hReading
    rw [heard, Reader.read] at hReader
    rw [hReader] at hAppend
    exact hAppend
  have hWaiting := h.waiting.handleReadFrame buf
  obtain ⟨hHandled, hPrefix, hAll, hNone⟩ :=
    s.con.session.handleMessages_spec (Reader.read (.ok p) buf).2
  have hData : WireSession.data ((s.heard maxMessageSize).2 ++ (Reader.read (.ok p) buf).2) =
      WireSession.data (s.heard maxMessageSize).2 ++
        WireSession.data (Reader.read (.ok p) buf).2 := List.filter_append _ _
  have hDelivered : s.delivered ++ (s.con.session.handleMessages (Reader.read (.ok p) buf).2).2 <+:
      WireSession.data (s.heard maxMessageSize).2 ++
        WireSession.data (Reader.read (.ok p) buf).2 := by
    by_cases hOpen : s.con.session.state = .open
    · rw [h.complete hOpen]
      exact (List.prefix_append_right_inj _).mpr hPrefix
    · rw [hNone hOpen, List.append_nil]
      exact h.delivered.trans (List.prefix_append _ _)
  rw [WireConnection.handleReadFrame_eq hReading hValid hNeeds, WireConnection.conclude]
    at hWaiting ⊢
  cases hResult : (Reader.read (.ok p) buf).1 with
  | error error =>
    rw [hResult] at hWaiting hHeard
    obtain ⟨hFail, hClosed⟩ := WireSession.handled_failRead
      (s.con.session.handleMessages (Reader.read (.ok p) buf).2).1 error
    refine ⟨h.ordered.handled (hHandled.trans hFail), h.prompt.handled (hHandled.trans hFail),
      h.sending, hWaiting,
      fun hOpen => absurd hOpen hClosed, fun _ hp => (by cases hp), ?_,
      fun hOpen => absurd hOpen hClosed⟩
    rw [heard, hHeard, hData]
    exact hDelivered
  | ok p' =>
    rw [hResult] at hWaiting hHeard
    refine ⟨h.ordered.handled hHandled, h.prompt.handled hHandled, h.sending, hWaiting,
      fun _ => ⟨p', rfl⟩, fun q hq => ?_, ?_, fun hOpen => ?_⟩
    · cases hq
      rw [heard, hHeard]
    · rw [heard, hHeard, hData]
      exact hDelivered
    · have hStart : s.con.session.state = .open := by
        by_contra hNot
        exact hHandled.closed hNot hOpen
      rw [heard, hHeard, hData]
      exact congrArg₂ (· ++ ·) (h.complete hStart) (hAll hOpen)

theorem prepareSend_eq (con : WireSession) (payload : Bytes) :
    con.prepareSend payload =
      if con.state ≠ .open then .error .invalidState
      else if Utf8Validator.validate payload = false then .error .invalidPayload
      else .ok (prepareFrame .text true none payload) := by
  have hKind : ¬Opcode.isControl .text = true := by decide
  rw [WireSession.prepareSend, prepareDataFrame, if_neg hKind]
  by_cases hOpen : con.state ≠ .open
  · rw [if_pos hOpen, if_pos hOpen]
  rw [if_neg hOpen, if_neg hOpen]
  by_cases hValid : Utf8Validator.validate payload = false
  · rw [if_pos ⟨rfl, hValid⟩, if_pos hValid]
  · rw [if_neg fun h => hValid h.2, if_neg hValid]
    rfl

theorem isText_of_prepareSend {con : WireSession} {payload : Bytes} {msg : OutMessage}
    (h : con.prepareSend payload = .ok msg) : IsText msg := by
  rw [prepareSend_eq] at h
  split_ifs at h with hOpen hValid
  cases h
  exact ⟨payload, Bool.of_not_eq_false hValid, rfl⟩

theorem Inv.handleReadError (h : s.Inv maxMessageSize) :
    { s with con := s.con.handleReadError : WireEndpoint }.Inv maxMessageSize where
  ordered := h.ordered.handled (WireSession.handled_terminate _)
  prompt := h.prompt.handled (WireSession.handled_terminate _)
  sending := h.sending
  waiting := fun _ hp => nomatch hp
  reading := fun hOpen => nomatch hOpen
  reader := fun _ hp => nomatch hp
  delivered := h.delivered
  complete := fun hOpen => nomatch hOpen

theorem Inv.writePush (h : s.Inv maxMessageSize) {sender : Nat} {msg : OutMessage}
    (hSender : s.sending[sender]? = some msg) :
    { s.withSession (s.con.session.writePush msg) with
      sending := s.sending.eraseIdx sender
      pushed := s.pushed ++ [msg] : WireEndpoint }.Inv maxMessageSize where
  ordered := by
    obtain ⟨payload, hText, rfl⟩ := h.sending msg (List.mem_of_getElem? hSender)
    exact h.ordered.writePush (.text hText) rfl
  prompt := h.prompt.queues (WireSession.queues_writePush _ msg)
  sending := fun msg hMsg => h.sending msg (List.mem_of_mem_eraseIdx hMsg)
  waiting := h.waiting
  reading := h.reading
  reader := h.reader
  delivered := h.delivered
  complete := h.complete

theorem Inv.step (h : s.Inv maxMessageSize) (hStep : machine.step s event = some t) :
    t.Inv maxMessageSize := by
  cases event with
  | handleReadFrame buf =>
    simp only [machine, WireEndpoint.step] at hStep
    split_ifs at hStep with hNone
    cases hStep
    obtain ⟨p, hReading⟩ := Option.ne_none_iff_exists'.mp hNone
    exact h.handleReadFrame hReading buf
  | handleReadError =>
    simp only [machine, WireEndpoint.step] at hStep
    split_ifs at hStep
    cases hStep
    exact h.handleReadError
  | prepareSend payload =>
    simp only [machine, WireEndpoint.step] at hStep
    cases hPrepare : s.con.session.prepareSend payload with
    | error error =>
      rw [hPrepare] at hStep
      cases hStep
      exact h
    | ok msg =>
      rw [hPrepare] at hStep
      cases hStep
      refine ⟨h.ordered, h.prompt, fun msg' hMsg => ?_, h.waiting, h.reading, h.reader, h.delivered,
        h.complete⟩
      rcases List.mem_append.mp hMsg with hMsg | hMsg
      · exact h.sending msg' hMsg
      · exact List.mem_singleton.mp hMsg ▸ isText_of_prepareSend hPrepare
  | writePush sender =>
    simp only [machine, WireEndpoint.step] at hStep
    cases hSender : s.sending[sender]? with
    | none =>
      rw [hSender] at hStep
      cases hStep
    | some msg =>
      rw [hSender] at hStep
      cases hStep
      exact h.writePush hSender
  | writeFrame =>
    simp only [machine, WireEndpoint.step] at hStep
    split_ifs at hStep
    cases hStep
    have hIdle : s.con.session.writeFlag = false → s.con.session.current = [] := by
      intro hClear
      by_contra hCurrent
      rw [(h.ordered.current hCurrent).1] at hClear
      cases hClear
    exact h.withSession h.ordered.writeFrame (h.prompt.writeFrame hIdle)
      fun hClosed => (WireSession.state_writeFrame _).symm ▸ hClosed
  | handleWriteFrame failed =>
    simp only [machine, WireEndpoint.step] at hStep
    split_ifs at hStep
    cases hStep
    exact h.withSession (h.ordered.handleWriteFrame failed) (h.prompt.handleWriteFrame failed)
      (WireSession.goes_handleWriteFrame _ failed).not_open
  | handleCloseHandshakeTimeout =>
    cases hStep
    have hHandled := s.con.session.handled_handleCloseHandshakeTimeout
    exact h.withSession (h.ordered.handled hHandled) (h.prompt.handled hHandled) hHandled.closed

theorem inv_of_run {events : List WireEvent}
    (hRun : machine.run (opened maxMessageSize) events = some t) : t.Inv maxMessageSize :=
  machine.run_invariant (fun _ _ _ h hStep => h.step hStep) (inv_opened maxMessageSize) hRun

end WireEndpoint

/-! ## What holds of every run -/

namespace WireEndpoint

variable {maxMessageSize : Nat} {t : WireEndpoint} {events : List WireEvent}

/-- The bytes of a run start with whole frames, and what is handed out is what those frames say, in
order and from the first on. As long as the connection is open it is all of it, and all the whole
frames that have come. -/
theorem delivered_of_run (hRun : machine.run (opened maxMessageSize) events = some t) :
    ∃ (frames : List WireFrame) (rest : Bytes) (assembly : Assembly) (msgs : List WireMessage),
      t.received = frames.flatMap WireFrame.wire ++ rest ∧
        Assembly.takeAll true maxMessageSize none frames = (.ok assembly, msgs) ∧
        t.delivered <+: WireSession.data msgs ∧
        (t.con.session.state = .open →
          t.delivered = WireSession.data msgs ∧ ¬Hybi13.StartsWhole rest) := by
  have hInv := inv_of_run hRun
  obtain ⟨frames, rest, assembly, hBytes, -, hTakes, hRest⟩ :=
    (openedProcessor_between maxMessageSize).read_parses t.received
  refine ⟨frames, rest, assembly, _, hBytes, hTakes, hInv.delivered, fun hOpen => ?_⟩
  obtain ⟨p, hReading⟩ := hInv.reading hOpen
  exact ⟨hInv.complete hOpen, hRest p (hInv.reader p hReading)⟩

theorem run_reads {s : WireEndpoint} {pieces : List Bytes} (hWaiting : s.con.Waiting)
    (hRun : machine.run s (pieces.map .handleReadFrame) = some t) :
    t = { s with
      con := (s.con.handleReadFrame pieces.flatten).1
      received := s.received ++ pieces.flatten
      delivered := s.delivered ++ (s.con.handleReadFrame pieces.flatten).2 } := by
  induction pieces generalizing s with
  | nil =>
    obtain rfl := Option.some.inj hRun
    have hNothing : s.con.handleReadFrame [] = (s.con, []) :=
      (WireConnection.handleReadFrames_eq hWaiting []).symm
    rw [List.flatten_nil, hNothing, List.append_nil, List.append_nil]
  | cons piece pieces ih =>
    obtain ⟨m, hStep, hRest⟩ := machine.run_cons_eq_some.mp hRun
    simp only [machine, step] at hStep
    split_ifs at hStep
    cases hStep
    rw [ih (hWaiting.handleReadFrame piece) hRest, List.flatten_cons,
      WireConnection.handleReadFrame_append hWaiting]
    simp only [List.append_assoc]

/-- Two runs that are the same but for how some bytes were cut into reads end the same: in what is
handed out, what is queued and written, and in whether and how the connection is closed. -/
theorem same_of_recut {t' : WireEndpoint} {pieces pieces' : List Bytes} {later : List WireEvent}
    (hBytes : pieces.flatten = pieces'.flatten)
    (hRun : machine.run (opened maxMessageSize)
      (events ++ pieces.map .handleReadFrame ++ later) = some t)
    (hRun' : machine.run (opened maxMessageSize)
      (events ++ pieces'.map .handleReadFrame ++ later) = some t') : t = t' := by
  rw [machine.run_append, Option.bind_eq_some_iff] at hRun hRun'
  obtain ⟨s, hReads, hLater⟩ := hRun
  obtain ⟨s', hReads', hLater'⟩ := hRun'
  rw [machine.run_append, Option.bind_eq_some_iff] at hReads hReads'
  obtain ⟨start, hStart, hReads⟩ := hReads
  obtain ⟨start', hStart', hReads'⟩ := hReads'
  obtain rfl := Option.some.inj (hStart.symm.trans hStart')
  have hWaiting := (inv_of_run hStart).waiting
  have hSame : s = s' := by rw [run_reads hWaiting hReads, run_reads hWaiting hReads', hBytes]
  rw [hSame] at hLater
  exact Option.some.inj (hLater.symm.trans hLater')

/-- A message and a close frame, whichever way they come. -/
def exampleReads (pieces : List Bytes) : List WireEvent :=
  [.prepareSend (bytes "on"), .writePush 0] ++ pieces.map .handleReadFrame ++ [.writeFrame]

def exampleWire : Bytes :=
  (WireFrame.mk .binary true (some 0x01020304) (bytes "in")).wire ++
    (WireFrame.mk .close true (some 0x05060708) [0x03, 0xE8]).wire

theorem same_of_recut_bytewise :
    ∃ t, machine.run (opened 16) (exampleReads [exampleWire]) = some t ∧
      machine.run (opened 16) (exampleReads (exampleWire.map fun byte => [byte])) = some t := by
  obtain ⟨t, hRun⟩ : ∃ t, machine.run (opened 16) (exampleReads [exampleWire]) = some t :=
    Option.isSome_iff_exists.mp (by decide +kernel)
  obtain ⟨t', hRun'⟩ : ∃ t', machine.run (opened 16)
      (exampleReads (exampleWire.map fun byte => [byte])) = some t' :=
    Option.isSome_iff_exists.mp (by decide +kernel)
  have hSame : t = t' := same_of_recut (by decide +kernel) hRun hRun'
  exact ⟨t, hRun, hSame ▸ hRun'⟩

/-- A sender that is late: a close frame comes between its two locks. -/
def exampleRun : List WireEvent :=
  [.prepareSend (bytes "on"), .writePush 0, .prepareSend (bytes "late"),
    .handleReadFrame ((WireFrame.mk .binary true (some 0x01020304) (bytes "in")).wire ++
      (WireFrame.mk .close true (some 0x05060708) [0x03, 0xE8]).wire),
    .writePush 0, .writeFrame]

def exampleEnd : WireEndpoint :=
  (machine.run (opened 16) exampleRun).get (by decide +kernel)

theorem run_exampleRun : machine.run (opened 16) exampleRun = some exampleEnd :=
  (Option.some_get _).symm

theorem delivered_of_run_example :
    ∃ (frames : List WireFrame) (rest : Bytes) (assembly : Assembly) (msgs : List WireMessage),
      exampleEnd.received = frames.flatMap WireFrame.wire ++ rest ∧
        Assembly.takeAll true 16 none frames = (.ok assembly, msgs) ∧
        exampleEnd.delivered <+: WireSession.data msgs ∧
        (exampleEnd.con.session.state = .open →
          exampleEnd.delivered = WireSession.data msgs ∧ ¬Hybi13.StartsWhole rest) :=
  delivered_of_run run_exampleRun

/-- Whatever is read, a handler sees only texts and binary messages within the limit, and texts that
are UTF-8 up to a last character that may be cut. The size is checked by a sum of `size_t`, which
fewer bytes than that cannot turn over. -/
theorem delivered_sound (hRun : machine.run (opened maxMessageSize) events = some t)
    (hReceived : t.received.length < 2 ^ 64) :
    ∀ msg ∈ t.delivered, (msg.opcode = .text ∨ msg.opcode = .binary) ∧
      msg.payload.length ≤ maxMessageSize ∧
      (msg.opcode = .text → ∃ rest : Bytes, ∃ text : List Char,
        msg.payload ++ rest = text.flatMap String.utf8EncodeChar) := by
  obtain ⟨frames, rest, assembly, hBytes, -, hTakes, -⟩ :=
    (openedProcessor_between maxMessageSize).read_parses t.received
  intro msg hMsg
  obtain ⟨hHeard, hData⟩ := List.mem_filter.mp ((inv_of_run hRun).delivered.subset hMsg)
  have hEmpty : ∀ msg ∈ (none : Assembly), msg.Sound maxMessageSize ∧ msg.payload.length ≤ 0 := by
    intro msg hNone
    cases hNone
  obtain ⟨hSound, hLength⟩ := Assembly.takeAll_sound hTakes hEmpty msg hHeard (by simpa using hData)
  have hShort : msg.payload.length < 2 ^ 64 := by
    rw [hBytes, List.length_append] at hReceived
    omega
  refine ⟨hSound.kind, ?_, fun hText => ?_⟩
  · have hSize := hSound.size
    rwa [Nat.mod_eq_of_lt hShort] at hSize
  · exact (Utf8Validator.advance_ne_none_iff _).mp (hSound.text hText)

theorem delivered_sound_example :
    exampleEnd.delivered ≠ [] ∧
      ∀ msg ∈ exampleEnd.delivered, (msg.opcode = .text ∨ msg.opcode = .binary) ∧
        msg.payload.length ≤ 16 ∧
        (msg.opcode = .text → ∃ rest : Bytes, ∃ text : List Char,
          msg.payload ++ rest = text.flatMap String.utf8EncodeChar) :=
  ⟨by decide +kernel, delivered_sound run_exampleRun (by decide +kernel)⟩

/-- Behind a close frame nothing is written, wherever a sender stands, and the texts that are
written are those that were pushed, each once and in order, up to some text. -/
theorem written_of_run (hRun : machine.run (opened maxMessageSize) events = some t) :
    (∀ front msg back, t.con.session.written = front ++ msg :: back → msg.opcode = .close →
        back = []) ∧
      t.con.session.written.filter (fun msg => msg.opcode == .text) <+: t.pushed ∧
      ∀ msg ∈ t.pushed, IsText msg := by
  have hOrdered := (inv_of_run hRun).ordered
  refine ⟨fun front msg back hWritten hClose => ?_, ?_, fun msg hMsg => ?_⟩
  · by_contra hBack
    have hMade := hOrdered.made msg (by rw [hWritten]; simp)
    have hLast := hOrdered.last msg (by
      rw [hWritten, List.dropLast_append_of_ne_nil (List.cons_ne_nil _ _),
        List.dropLast_cons_of_ne_nil hBack]
      simp)
    rw [hMade.terminal_iff.mpr hClose] at hLast
    cases hLast
  · rw [← hOrdered.texts, List.filter_append]
    exact List.prefix_append _ _
  · rw [← hOrdered.texts] at hMsg
    obtain ⟨hMsg, hText⟩ := List.mem_filter.mp hMsg
    have hMade := hOrdered.made msg hMsg
    cases hMade with
    | text hValid => exact ⟨_, hValid, rfl⟩
    | pong hFits | close hFits => cases hText

theorem written_of_run_example :
    (∀ front msg back, exampleEnd.con.session.written = front ++ msg :: back →
        msg.opcode = .close → back = []) ∧
      exampleEnd.con.session.written.filter (fun msg => msg.opcode == .text) <+:
        exampleEnd.pushed ∧
      ∀ msg ∈ exampleEnd.pushed, IsText msg :=
  written_of_run run_exampleRun

/-! The other end -/

/-- The processor of a client. -/
def client (maxMessageSize : Nat) : Hybi13 where
  server := false
  maxMessageSize := maxMessageSize

theorem client_between (maxMessageSize : Nat) :
    (client maxMessageSize).Between :=
  ⟨⟨rfl, fun _ h => (nomatch h), .headerBasic rfl (.inr rfl)⟩, rfl, rfl⟩

end WireEndpoint

namespace OutMessage

variable {msg : OutMessage} {maxMessageSize : Nat}

/-- A frame of the server is not masked. -/
def frame (msg : OutMessage) : WireFrame := ⟨msg.opcode, true, none, msg.payload⟩

def message (msg : OutMessage) : WireMessage := ⟨msg.opcode, msg.payload⟩

theorem Made.wire_eq (h : msg.Made) : msg.wire = msg.frame.wire := by
  cases h <;> rfl

theorem Made.take (h : msg.Made) (hMax : maxMessageSize < 2 ^ 64)
    (hSize : msg.opcode = .text → msg.payload.length ≤ maxMessageSize) :
    Assembly.take false maxMessageSize none msg.frame =
      .ok (none, [msg.message]) := by
  cases h with
  | @text payload hValid =>
    have hFits : payload.length ≤ maxMessageSize := hSize rfl
    have hWord : payload.length < 2 ^ 64 := Nat.lt_of_le_of_lt hFits hMax
    have hAdvance : Utf8Validator.advance Utf8Validator.utf8Accept payload ≠ none := by
      rw [(Utf8Validator.validate_eq_advance payload).mp hValid]
      exact Option.some_ne_none _
    have hKind : Opcode.isControl .text = false ∧ Opcode.reserved .text = false := by decide
    simp (disch := omega) [Assembly.take, Assembly.refuse, Assembly.takeData, Assembly.extend,
      Assembly.base, frame, prepareFrame, hKind, Nat.mod_eq_of_lt, hFits, hAdvance, hValid, message]
  | @pong payload hFits =>
    have hKind : Opcode.isControl .pong = true ∧ Opcode.reserved .pong = false := by decide
    simp [Assembly.take, Assembly.refuse, frame, prepareFrame, hKind, Nat.not_lt.mpr hFits, message]
  | @close payload hFits =>
    have hKind : Opcode.isControl .close = true ∧ Opcode.reserved .close = false := by decide
    simp [Assembly.take, Assembly.refuse, frame, prepareFrame, hKind, Nat.not_lt.mpr hFits, message]

theorem takeAll_made {msgs : List OutMessage} (hMade : ∀ msg ∈ msgs, msg.Made)
    (hMax : maxMessageSize < 2 ^ 64)
    (hSizes : ∀ msg ∈ msgs, msg.opcode = .text → msg.payload.length ≤ maxMessageSize) :
    Assembly.takeAll false maxMessageSize none (msgs.map frame) = (.ok none, msgs.map message) := by
  induction msgs with
  | nil => rfl
  | cons msg msgs ih =>
    rw [List.map_cons, Assembly.takeAll,
      (hMade msg List.mem_cons_self).take hMax (hSizes msg List.mem_cons_self)]
    dsimp only
    rw [ih (fun m hm => hMade m (List.mem_cons_of_mem _ hm))
      fun m hm => hSizes m (List.mem_cons_of_mem _ hm)]
    rfl

theorem Made.length_payload_lt (h : msg.Made) (hMax : maxMessageSize < 2 ^ 64)
    (hSize : msg.opcode = .text → msg.payload.length ≤ maxMessageSize) :
    msg.frame.payload.length < 2 ^ 64 := by
  cases h with
  | text hValid => exact Nat.lt_of_le_of_lt (hSize rfl) hMax
  | pong hFits | close hFits => exact Nat.lt_of_le_of_lt hFits (by decide)

end OutMessage

namespace WireEndpoint

/-- A client reads all that is written, a message for a frame. -/
theorem client_read_written {clientMax : Nat} {con : WireSession} {pushed : List OutMessage}
    (hOrdered : con.Ordered pushed) (hMax : clientMax < 2 ^ 64)
    (hSizes : ∀ msg ∈ pushed, msg.payload.length ≤ clientMax) :
    ∃ p, Reader.read (.ok (client clientMax)) (con.written.flatMap OutMessage.wire) =
      (.ok p, con.written.map OutMessage.message) := by
  have hMade : ∀ msg ∈ con.written, msg.Made :=
    fun msg hMsg => hOrdered.made msg (List.mem_append_left _ hMsg)
  have hShort : ∀ msg ∈ con.written, msg.opcode = .text → msg.payload.length ≤ clientMax := by
    intro msg hMsg hText
    refine hSizes msg ?_
    rw [← hOrdered.texts]
    exact List.mem_filter.mpr ⟨List.mem_append_left _ hMsg, beq_iff_eq.mpr hText⟩
  have hWire : con.written.flatMap OutMessage.wire =
      (con.written.map OutMessage.frame).flatMap WireFrame.wire := by
    rw [List.flatMap_map]
    exact List.flatMap_congr fun msg hMsg => (hMade msg hMsg).wire_eq
  have hFrames : ∀ frame ∈ con.written.map OutMessage.frame, frame.payload.length < 2 ^ 64 := by
    intro frame hFrame
    obtain ⟨msg, hMsg, rfl⟩ := List.mem_map.mp hFrame
    exact (hMade msg hMsg).length_payload_lt hMax (hShort msg hMsg)
  obtain ⟨reader, hReader, -, hRead⟩ := (client_between clientMax).read_wires hFrames
  have hTakes : (client clientMax).assembly.takeAll (client clientMax).server
      (client clientMax).maxMessageSize (con.written.map OutMessage.frame) =
      (.ok none, con.written.map OutMessage.message) :=
    OutMessage.takeAll_made hMade hMax hShort
  rw [hTakes] at hReader hRead
  cases reader with
  | error error => cases hReader
  | ok p => exact ⟨p, hWire ▸ hRead⟩

/-- A client reads what it gets of that, without an error. -/
theorem client_reads_prefix {clientMax : Nat} {con : WireSession} {pushed : List OutMessage}
    (hOrdered : con.Ordered pushed) (hMax : clientMax < 2 ^ 64)
    (hSizes : ∀ msg ∈ pushed, msg.payload.length ≤ clientMax) {pieces : List Bytes}
    (hPieces : pieces.flatten <+: con.written.flatMap OutMessage.wire) :
    ∃ p msgs, Reader.scanner.readAll (.ok (client clientMax)) pieces = (.ok p, msgs) ∧
      msgs.filter (fun msg => msg.opcode == .text) <+: pushed.map OutMessage.message := by
  have hClient := client_between clientMax
  obtain ⟨last, hRead⟩ := client_read_written hOrdered hMax hSizes
  obtain ⟨rest, hRest⟩ := hPieces
  rw [Reader.lawful.readAll_eq (Reader.valid_ok hClient.valid) rfl, ← Reader.read]
  rw [← hRest, Reader.read, Reader.lawful.read_append (Reader.valid_ok hClient.valid),
    ← Reader.read, ← Reader.read] at hRead
  obtain ⟨hLast, hMsgs⟩ := Prod.mk.inj hRead
  cases hFirst : Reader.read (.ok (client clientMax)) pieces.flatten with
  | mk reader msgs =>
    rw [hFirst] at hLast hMsgs
    cases reader with
    | error error =>
      rw [Reader.read_error] at hLast
      cases hLast
    | ok p =>
      refine ⟨p, msgs, rfl, ?_⟩
      have hTexts : (con.written.map OutMessage.message).filter
          (fun msg => msg.opcode == .text) <+: pushed.map OutMessage.message := by
        rw [List.filter_map, ← hOrdered.texts, List.filter_append, List.map_append]
        exact List.prefix_append _ _
      refine List.IsPrefix.trans ?_ hTexts
      rw [← hMsgs, List.filter_append]
      exact List.prefix_append _ _

/-- Whatever part of what was written has come to a client, in whatever pieces, it reads the texts
that were pushed, each once and in order, up to some text, and has no error to report. -/
theorem client_reads {maxMessageSize clientMax : Nat} {t : WireEndpoint}
    {events : List WireEvent} (hRun : machine.run (opened maxMessageSize) events = some t)
    (hMax : clientMax < 2 ^ 64) (hSizes : ∀ msg ∈ t.pushed, msg.payload.length ≤ clientMax)
    {pieces : List Bytes}
    (hPieces : pieces.flatten <+: t.con.session.written.flatMap OutMessage.wire) :
    (Reader.scanner.readAll (.ok (client clientMax)) pieces).2.filter
        (fun msg => msg.opcode == .text) <+: t.pushed.map OutMessage.message ∧
      ∃ p, (Reader.scanner.readAll (.ok (client clientMax)) pieces).1 = .ok p := by
  obtain ⟨p, msgs, hRead, hPrefix⟩ :=
    client_reads_prefix (inv_of_run hRun).ordered hMax hSizes hPieces
  rw [hRead]
  exact ⟨hPrefix, p, rfl⟩

/-- The client reads the text and the close frame, and of the late text nothing. -/
theorem client_reads_example :
    (Reader.scanner.readAll (.ok (client 16))
        [exampleEnd.con.session.written.flatMap OutMessage.wire]).2.filter
        (fun msg => msg.opcode == .text) <+: exampleEnd.pushed.map OutMessage.message ∧
      ∃ p, (Reader.scanner.readAll (.ok (client 16))
        [exampleEnd.con.session.written.flatMap OutMessage.wire]).1 = .ok p :=
  client_reads run_exampleRun (by decide) (by decide +kernel) ⟨[], by simp⟩

/-! Nothing is held back -/

end WireEndpoint

def WireEvent.writes : WireEvent → Bool
  | .writeFrame | .handleWriteFrame _ => true
  | _ => false

namespace WireEndpoint

variable {maxMessageSize clientMax : Nat} {t u : WireEndpoint} {events writes : List WireEvent}

/-- There is no write to run and none to report on. -/
def Quiet (s : WireEndpoint) : Prop :=
  s.con.session.dispatched = 0 ∧ s.con.session.current = []

theorem step_writes {s t : WireEndpoint} {event : WireEvent} (hWrites : event.writes = true)
    (hStep : machine.step s event = some t) :
    t.con.session.backlog < s.con.session.backlog ∧ t.pushed = s.pushed := by
  cases event with
  | writeFrame =>
    simp only [machine, WireEndpoint.step] at hStep
    split_ifs at hStep with hNone
    cases hStep
    exact ⟨WireSession.backlog_writeFrame hNone, rfl⟩
  | handleWriteFrame failed =>
    simp only [machine, WireEndpoint.step] at hStep
    split_ifs at hStep with hNone
    cases hStep
    exact ⟨WireSession.backlog_handleWriteFrame hNone failed, rfl⟩
  | handleReadFrame | handleReadError | prepareSend | writePush | handleCloseHandshakeTimeout =>
    cases hWrites

theorem pushed_of_writes (hWrites : ∀ event ∈ writes, event.writes = true)
    (hRun : machine.run t writes = some u) : u.pushed = t.pushed := by
  induction writes generalizing t with
  | nil => exact congrArg pushed (Option.some.inj hRun).symm
  | cons event writes ih =>
    obtain ⟨m, hStep, hRest⟩ := machine.run_cons_eq_some.mp hRun
    obtain ⟨hFirst, hLater⟩ := List.forall_mem_cons.mp hWrites
    exact (ih hLater hRest).trans (step_writes hFirst hStep).2

/-- An open connection with no write to come has written all it was given; one that is closing has
still a write to come. -/
theorem Inv.quiet (h : t.Inv maxMessageSize) (hQuiet : t.Quiet)
    (hState : t.con.session.state ≠ .closed) :
    t.con.session.state = .open ∧ t.con.session.sendQueue = [] := by
  obtain ⟨hDispatched, hCurrent⟩ := hQuiet
  have hClear : t.con.session.writeFlag = false := by
    by_contra hFlag
    rcases h.prompt.flag (Bool.not_eq_false _ ▸ hFlag) with hBatch | hClosed
    · exact hBatch hCurrent
    · exact hState hClosed
  have hEmpty : t.con.session.sendQueue = [] := by
    by_contra hWaits
    exact h.prompt.waits hWaits hClear hDispatched
  refine ⟨?_, hEmpty⟩
  cases hNow : t.con.session.state with
  | «open» => rfl
  | closed => exact absurd hNow hState
  | connecting => exact absurd hNow h.prompt.begun
  | closing =>
    obtain ⟨msg, hMsg, -⟩ := h.prompt.closing hNow
    rw [hEmpty, hCurrent] at hMsg
    cases hMsg

/-- From a quiet connection a client reads all the texts that were pushed. -/
theorem Inv.client_reads_all (h : t.Inv maxMessageSize) (hQuiet : t.Quiet)
    (hState : t.con.session.state ≠ .closed) (hMax : clientMax < 2 ^ 64)
    (hSizes : ∀ msg ∈ t.pushed, msg.payload.length ≤ clientMax) {pieces : List Bytes}
    (hPieces : pieces.flatten = t.con.session.written.flatMap OutMessage.wire) :
    (Reader.scanner.readAll (.ok (client clientMax)) pieces).2.filter
      (fun msg => msg.opcode == .text) = t.pushed.map OutMessage.message := by
  obtain ⟨-, hEmpty⟩ := h.quiet hQuiet hState
  obtain ⟨last, hRead⟩ := client_read_written h.ordered hMax hSizes
  have hTexts := h.ordered.texts
  rw [hEmpty, List.append_nil] at hTexts
  rw [Reader.lawful.readAll_eq (Reader.valid_ok (client_between clientMax).valid) rfl, hPieces,
    ← Reader.read, hRead, List.filter_map, ← hTexts]
  rfl

/-- From any state of any run, the writes come to an end, and where they have and the connection is
not closed, it is open and all that was pushed is on its way: a client that gets the bytes, in
whatever pieces, reads every text, each once and in order. -/
theorem nothing_held_back (hRun : machine.run (opened maxMessageSize) events = some t)
    (hWrites : ∀ event ∈ writes, event.writes = true) (hMore : machine.run t writes = some u)
    (hMax : clientMax < 2 ^ 64) (hSizes : ∀ msg ∈ t.pushed, msg.payload.length ≤ clientMax) :
    writes.length ≤ t.con.session.backlog ∧
      (u.Quiet → u.con.session.state ≠ .closed → u.con.session.state = .open ∧
        ∀ pieces : List Bytes, pieces.flatten = u.con.session.written.flatMap OutMessage.wire →
          (Reader.scanner.readAll (.ok (client clientMax)) pieces).2.filter
            (fun msg => msg.opcode == .text) = t.pushed.map OutMessage.message) := by
  have hInv : u.Inv maxMessageSize :=
    machine.run_invariant (fun _ _ _ h hStep => h.step hStep) (inv_of_run hRun) hMore
  have hPushed := pushed_of_writes hWrites hMore
  constructor
  · have hLength := machine.length_le_of_run
      (fun _ _ _ hWrite hStep => (step_writes hWrite hStep).1) hWrites hMore
    exact Nat.le_trans (Nat.le_add_right _ _) hLength
  · intro hQuiet hState
    refine ⟨(hInv.quiet hQuiet hState).1, fun pieces hPieces => ?_⟩
    rw [← hPushed]
    exact hInv.client_reads_all hQuiet hState hMax (hPushed ▸ hSizes) hPieces

def examplePushes : List WireEvent :=
  [.prepareSend (bytes "one"), .prepareSend (bytes "two"), .writePush 1, .writePush 0]

def exampleWrites : List WireEvent := [.writeFrame, .handleWriteFrame false, .writeFrame]

def examplePushed : WireEndpoint := (machine.run (opened 16) examplePushes).get (by decide +kernel)

def exampleWritten : WireEndpoint :=
  (machine.run examplePushed exampleWrites).get (by decide +kernel)

/-- Two senders at once; the texts go in the order of the second locks. -/
theorem nothing_held_back_example :
    (Reader.scanner.readAll (.ok (client 16))
        [exampleWritten.con.session.written.flatMap OutMessage.wire]).2.filter
      (fun msg => msg.opcode == .text) = [⟨.text, bytes "two"⟩, ⟨.text, bytes "one"⟩] := by
  have hRun : machine.run (opened 16) examplePushes = some examplePushed := (Option.some_get _).symm
  have hMore : machine.run examplePushed exampleWrites = some exampleWritten :=
    (Option.some_get _).symm
  have hQuiet : exampleWritten.Quiet := ⟨by decide +kernel, by decide +kernel⟩
  have hTexts : examplePushed.pushed.map OutMessage.message =
      [⟨.text, bytes "two"⟩, ⟨.text, bytes "one"⟩] := by decide +kernel
  rw [← hTexts]
  have hRead := nothing_held_back hRun (by decide) hMore (by decide : 16 < 2 ^ 64)
    (by decide +kernel)
  exact (hRead.2 hQuiet (by decide +kernel)).2 _ (List.append_nil _)

end WireEndpoint

end ScRedirection.Websocketpp
