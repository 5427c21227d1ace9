import ScRedirection.Json.Returned
import ScRedirection.WebsocketServer.Routing

/-! # Passing on what was received

The echo of the program and a server that forwards a message both print the arguments a handler was
called with. Whatever text they were read from, the receiver of that text calls its handlers with
the same arguments.
-/

namespace ScRedirection.WebsocketServer

open Json Websocketpp TcpTunnel

variable {D : Type} {doubles : Doubles D} {server server' : Server} {queues queues' : Queues}
  {conn : ConnectionHdl} {payload : StdString} {messageType : Bytes} {arguments : Members D}
  {calls : List (HandlerCall D)}

/-! ## Sending a value that was read -/

theorem returned_assign (h : Returned doubles 0 (.object arguments)) (messageType : Bytes) :
    Returned doubles 0 (.object (setMember messageField (.string messageType) arguments)) := by
  obtain ⟨hOrdered, hMembers⟩ := h.of_object
  have hDepth : 1 < stackLimit := by decide
  have hSet : ReturnedMembers doubles 1 (setMember messageField (.string messageType) arguments) :=
    ReturnedMembers.set ⟨hOrdered, hMembers⟩ (Returned.text messageType hDepth)
  exact Returned.object (Nat.zero_lt_of_lt hDepth) hSet.ordered hSet.members

theorem returned_eraseMember (h : Returned doubles 0 (.object arguments)) (key : Bytes) :
    Returned doubles 0 (.object (eraseMember key arguments)) := by
  obtain ⟨hOrdered, hMembers⟩ := h.of_object
  exact Returned.object (by decide) (ordered_eraseMember hOrdered)
    fun m hm => hMembers m (List.mem_of_mem_eraseP hm)

/-- The reader inverts the writer on what was read, with nothing assumed of either. -/
theorem inverts_returned (h : Returned doubles 0 (.object arguments)) (messageType : Bytes) :
    Inverts doubles (stringifyJson doubles)
      (.object (setMember messageField (.string messageType) arguments)) :=
  ⟨[], (returned_assign h messageType).parse_writeValue⟩

theorem routed_returned (h : Returned doubles 0 (.object arguments))
    (hField : messageField ∉ arguments.map Prod.fst) {spare : Spare} :
    Routed doubles server queues conn
      ⟨stringifyJson doubles (.object (setMember messageField (.string messageType) arguments)),
        spare⟩ messageType arguments :=
  (routed_sent rfl (inverts_returned h messageType) hField).mpr (.inr rfl)

/-! ## The arguments of a call -/

theorem onMessage_arguments (hExact : doubles.Exact)
    (h : onMessage doubles server queues conn payload = .ok (server', queues', calls)) :
    ∀ call ∈ calls, ∃ arguments, call.arguments = .object arguments ∧
      Returned doubles 0 (.object arguments) ∧ messageField ∉ arguments.map Prod.fst := by
  intro call hCall
  unfold onMessage at h
  split at h
  · cases h
  · cases h
    cases hCall
  · split at h
    · cases h
      cases hCall
    · cases h
  · split at h
    · rename_i hDispatch
      cases h
      obtain ⟨root, hRoot, -⟩ := bind_eq_ok hDispatch
      obtain ⟨members, field, type, rfl, hField, hType, -⟩ :=
        dispatchJson_reached hRoot hDispatch (List.ne_nil_of_mem hCall)
      rw [dispatchJson_object hRoot hField hType] at hDispatch
      cases hDispatch
      obtain ⟨handler, -, rfl⟩ := List.mem_map.mp hCall
      obtain ⟨outcome, hParse, hOutcome⟩ := (parseJson_eq_ok doubles).mp hRoot
      have hReturned : Returned doubles 0 (.object members) :=
        hOutcome ▸ parse_returned hExact hParse
      exact ⟨_, rfl, returned_eraseMember hReturned messageField,
        key_not_mem_eraseMember hReturned.of_object.1⟩
    · cases h

/-- Sent on under any type to any server, the arguments of a call are the arguments of the calls
made there, for every handler of that type. -/
theorem relayed (hExact : doubles.Exact)
    (h : onMessage doubles server queues conn payload = .ok (server', queues', calls)) :
    ∀ call ∈ calls, ∃ arguments text, call.arguments = .object arguments ∧
      messageText doubles messageType call.arguments = .ok text ∧
      ∀ (peer : Server) (peerQueues : Queues) (peerConn : ConnectionHdl) (spare : Spare),
        Routed doubles peer peerQueues peerConn ⟨text, spare⟩ messageType arguments := by
  intro call hCall
  obtain ⟨arguments, hArguments, hReturned, hField⟩ := onMessage_arguments hExact h call hCall
  refine ⟨arguments, _, hArguments, by rw [hArguments]; rfl, ?_⟩
  intro peer peerQueues peerConn spare
  exact routed_returned hReturned hField

/-! A message with a double -/

def exampleMessage : Bytes :=
  bytes "\x7b\"args\": [0.5, -3, null], \"__MESSAGE__\": \"message\"\x7d"

theorem onMessage_example : ∃ server' queues' calls,
    onMessage exampleDoubles listening {} 1 ⟨exampleMessage, .none⟩ =
        .ok (server', queues', calls) ∧
      calls.length = 1 := by
  have hUnknown : messageParse listening exampleMessage = .unknown := by decide +kernel
  have hRead : parse exampleDoubles exampleMessage = .ok (.done (.object
      [(messageField, .string (bytes "message")),
        (bytes "args", .array [.real false, .int (-3), .null])]) []) := by
    decide +kernel
  have hRead : parseString exampleDoubles ⟨exampleMessage, .none⟩ = _ := parseString_eq_done hRead
  have hRoot := (parseJson_eq_ok exampleDoubles).mpr ⟨_, hRead, rfl⟩
  rw [onMessage_unknown hUnknown, dispatchJson_object hRoot rfl rfl]
  exact ⟨_, _, _, rfl, by decide +kernel⟩

theorem relayed_example : ∃ server' queues' calls,
    onMessage exampleDoubles listening {} 1 ⟨exampleMessage, .none⟩ =
        .ok (server', queues', calls) ∧
      calls.length = 1 ∧
      ∀ call ∈ calls, ∃ arguments text, call.arguments = .object arguments ∧
        messageText exampleDoubles (bytes "message") call.arguments = .ok text ∧
        ∀ (peer : Server) (peerQueues : Queues) (peerConn : ConnectionHdl) (spare : Spare),
          Routed exampleDoubles peer peerQueues peerConn ⟨text, spare⟩ (bytes "message")
            arguments := by
  obtain ⟨server', queues', calls, hReturn, hLength⟩ := onMessage_example
  exact ⟨server', queues', calls, hReturn, hLength, relayed exact_exampleDoubles hReturn⟩

end ScRedirection.WebsocketServer
