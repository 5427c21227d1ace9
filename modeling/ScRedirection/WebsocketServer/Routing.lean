import ScRedirection.WebsocketServer.Dispatch
import ScRedirection.WebsocketServer.Split

/-! # From a sent message to the handlers of its type

Both senders add the type field to a copy of the arguments and print it as JSON: `sendMessage` with
the writer of jsoncpp, `SocketWrapper.prototype.send` of the client with `JSON.stringify`. The text
first meets the ':' split of the tunnel commands.
-/

namespace ScRedirection.WebsocketServer

open Json Websocketpp TcpTunnel

variable {D : Type} {doubles : Doubles D} {server : Server} {queues : Queues}
  {conn : ConnectionHdl} {messageType : Bytes}

/-! ## Only commands are consumed -/

/-- A message that `messageParse` does not leave to the JSON reader is a command, a colon and data
without a colon. -/
theorem command_of_messageParse {message : Bytes} (h : messageParse server message ≠ .unknown) :
    ∃ command data, ch ':' ∉ data ∧ message = commands command ++ ch ':' :: data := by
  obtain ⟨p, fields, -, hp, hFields, rfl⟩ := exists_fields message (ch ':')
  rw [messageParse, split_fields hp hFields] at h
  cases fields with
  | nil => exact absurd rfl h
  | cons data rest =>
    cases rest with
    | cons next rest => exact absurd rfl h
    | nil =>
      by_contra hNone
      have hCode : ∀ command, p ≠ commands command := by
        rintro command rfl
        exact hNone ⟨command, data, hFields data List.mem_cons_self, by simp⟩
      simp [hCode] at h

/-- A JSON object is no command, whatever its names and strings hold. -/
theorem messageParse_object (server : Server) (text : Bytes) :
    messageParse server (ch '{' :: text) = .unknown := by
  by_contra h
  obtain ⟨command, data, -, hText⟩ := command_of_messageParse h
  cases command <;> exact absurd (List.cons.inj hText).1 (by decide)

/-! ## The two senders -/

def protoField : Bytes := bytes "__proto__"

/-- `payloadCopy[key] = x` on the object made by `{}`. Under `__proto__` the assignment finds the
setter of `Object.prototype`, and no property is made. -/
def assignProperty (payloadCopy : Members D) (key : Bytes) (x : Value D) : Members D :=
  if key = protoField then payloadCopy else setMember key x payloadCopy

def copyPayload (payload : Members D) : Members D :=
  payload.foldl (fun payloadCopy m => assignProperty payloadCopy m.1 m.2) []

/-- `SocketWrapper.prototype.send`, down to the text it sends; `none` is a payload that is
undefined or null. The order of an object's properties is forgotten here, as it is in the map that
the text is read into. -/
def SocketWrapper.send (stringify : Value D → Bytes) (message : Bytes)
    (payload : Option (Members D)) : Bytes :=
  let payloadCopy := (payload.map copyPayload).getD []
  stringify (.object (assignProperty payloadCopy messageField (.string message)))

/-! ## The maps on the way -/

/-- Properties assigned in the order of the map come out in that order, all but one. -/
theorem copyPayload_eq {payload : Members D} (h : Ordered payload) :
    copyPayload payload = payload.filter fun m => m.1 ≠ protoField := by
  have hFold : ∀ (done rest : Members D), Ordered (done ++ rest) →
      rest.foldl (fun payloadCopy m => assignProperty payloadCopy m.1 m.2) done =
        done ++ rest.filter fun m => m.1 ≠ protoField := by
    intro done rest
    induction rest generalizing done with
    | nil => intro _; simp
    | cons m rest ih =>
      intro hOrdered
      rw [List.foldl_cons, assignProperty]
      by_cases hProto : m.1 = protoField
      · have hRest : Ordered (done ++ rest) :=
          hOrdered.sublist (((List.sublist_cons_self m rest).append_left done).map _)
        rw [if_pos hProto, ih done hRest]
        simp [hProto]
      · have hLast : ∀ k ∈ done.map Prod.fst, k < m.1 := by
          intro k hk
          rw [Ordered, List.map_append, List.pairwise_append] at hOrdered
          exact hOrdered.2.2 k hk m.1 (by simp)
        rw [if_neg hProto, setMember_concat hLast, ih _ (by simpa using hOrdered)]
        simp [hProto]
  exact hFold [] payload h

theorem lookup_setMember {key : Bytes} {x : Value D} {ms : Members D} :
    (setMember key x ms).lookup key = some x := by
  induction ms with
  | nil => simp [setMember]
  | cons m ms ih =>
    obtain ⟨k, y⟩ := m
    rw [setMember]
    split_ifs with hKey
    · simp
    · simpa [List.lookup_cons, beq_eq_false_iff_ne.mpr (Ne.symm hKey)] using ih
    · simp

theorem eraseMember_setMember {key : Bytes} {x : Value D} {ms : Members D}
    (hNew : key ∉ ms.map Prod.fst) : eraseMember key (setMember key x ms) = ms := by
  induction ms with
  | nil => simp [setMember, eraseMember]
  | cons m ms ih =>
    obtain ⟨k, y⟩ := m
    rw [List.map_cons, List.mem_cons, not_or] at hNew
    rw [setMember, if_neg (Ne.symm hNew.1)]
    split_ifs
    · simpa [eraseMember, Ne.symm hNew.1] using ih hNew.2
    · simp [eraseMember]

/-! ## Routing -/

/-- The payload is no tunnel command, and `onMessage` calls the handlers of the type, in the order
of their registration, with the arguments. -/
def Routed (doubles : Doubles D) (server : Server) (queues : Queues) (conn : ConnectionHdl)
    (payload : StdString) (messageType : Bytes) (arguments : Members D) : Prop :=
  messageParse server payload.text = .unknown ∧
    ∃ server', onMessage doubles server queues conn payload =
      .ok (server', queues, (handlersOf server messageType).map fun handler =>
        ⟨handler, conn, .object arguments⟩)

/-- The reader undoes what a printer made of a value. -/
def Inverts (doubles : Doubles D) (print : Value D → Bytes) (value : Value D) : Prop :=
  ∃ rest, parse doubles (print value) = .ok (.done value rest)

/-- The handlers get what was put beside the type field, whatever stands behind the text. -/
theorem routed_sent {print : Value D → Bytes} {sent arguments : Members D} {tail : Bytes}
    {spare : Spare}
    (hBrace : print (.object (setMember messageField (.string messageType) sent)) = ch '{' :: tail)
    (hInverts : Inverts doubles print (.object (setMember messageField (.string messageType) sent)))
    (hNew : messageField ∉ sent.map Prod.fst) :
    Routed doubles server queues conn
        ⟨print (.object (setMember messageField (.string messageType) sent)), spare⟩ messageType
        arguments ↔
      handlersOf server messageType = [] ∨ sent = arguments := by
  obtain ⟨rest, hRead⟩ := hInverts
  have hRead : parseString doubles
      ⟨print (.object (setMember messageField (.string messageType) sent)), spare⟩ = _ :=
    parseString_eq_done hRead
  have hUnknown : messageParse server
      (print (.object (setMember messageField (.string messageType) sent))) = .unknown := by
    rw [hBrace]
    exact messageParse_object server tail
  have hRoot := (parseJson_eq_ok doubles).mpr ⟨_, hRead, rfl⟩
  rw [Routed, onMessage_unknown hUnknown, dispatchJson_object hRoot lookup_setMember rfl,
    eraseMember_setMember hNew]
  constructor
  · rintro ⟨-, server', hReturn⟩
    simp only [Except.ok.injEq, Prod.mk.injEq, true_and] at hReturn
    cases hHandlers : handlersOf server messageType with
    | nil => exact .inl rfl
    | cons handler handlers =>
      rw [hHandlers] at hReturn
      simp at hReturn
      exact .inr hReturn.2.1
  · rintro (hNone | rfl)
    · exact ⟨hUnknown, _, by rw [hNone]; rfl⟩
    · exact ⟨hUnknown, _, rfl⟩

theorem messageField_ne_protoField : messageField ≠ protoField := by decide

theorem filter_protoField_eq_iff {A : Members D} :
    A.filter (fun m => m.1 ≠ protoField) = A ↔ protoField ∉ A.map Prod.fst := by
  simp only [List.filter_eq_self, decide_eq_true_eq, List.mem_map, not_exists, not_and]

/-- The client's text is routed unless the arguments have a member `__proto__` and somebody is
there to miss it; the server's text is always routed. Neither depends on what stands behind the
text in the string it is received into. -/
theorem routed_iff {A : Members D} (hOrdered : Ordered A) (hField : messageField ∉ A.map Prod.fst)
    {stringify : Value D → Bytes}
    (hBrace : ∀ members, ∃ tail, stringify (.object members) = ch '{' :: tail)
    (hClient : Inverts doubles stringify
      (.object (assignProperty (copyPayload A) messageField (.string messageType))))
    (hServer : Inverts doubles (stringifyJson doubles)
      (.object (setMember messageField (.string messageType) A))) (spare : Spare) :
    (Routed doubles server queues conn ⟨SocketWrapper.send stringify messageType (some A), spare⟩
        messageType A ↔ protoField ∉ A.map Prod.fst ∨ handlersOf server messageType = []) ∧
      ∀ text, messageText doubles messageType (.object A) = .ok text →
        Routed doubles server queues conn ⟨text, spare⟩ messageType A := by
  constructor
  · obtain ⟨tail, hTail⟩ := hBrace (setMember messageField (.string messageType) (copyPayload A))
    rw [assignProperty, if_neg messageField_ne_protoField] at hClient
    have hNew : messageField ∉ (copyPayload A).map Prod.fst := by
      rw [copyPayload_eq hOrdered]
      exact fun hMem => hField ((List.filter_sublist.map Prod.fst).subset hMem)
    have hSent : Routed doubles server queues conn
        ⟨stringify (.object (setMember messageField (.string messageType) (copyPayload A))), spare⟩
        messageType A ↔ handlersOf server messageType = [] ∨ copyPayload A = A :=
      routed_sent hTail hClient hNew
    rw [SocketWrapper.send, Option.map_some, Option.getD_some, assignProperty,
      if_neg messageField_ne_protoField, hSent, copyPayload_eq hOrdered, filter_protoField_eq_iff,
      or_comm]
  · intro text hText
    obtain rfl := Except.ok.inj hText
    exact (routed_sent rfl hServer hField).mpr (.inr rfl)

/-- A type that looks like a command, with two handlers, and one argument. -/
def exampleArguments : Members Empty := [(bytes "args", .boolean true)]

def exampleType : Bytes := bytes "ATRCODE:1"

def exampleListening : Server := message (message listening exampleType 1) exampleType 2

theorem setMember_example : setMember messageField (.string exampleType) exampleArguments =
    [(messageField, .string exampleType), (bytes "args", .boolean true)] := by
  rw [exampleArguments, setMember, if_neg (by decide +kernel), if_neg (by decide +kernel)]

theorem inverts_example : Inverts Doubles.absent (stringifyJson Doubles.absent)
    (.object (setMember messageField (.string exampleType) exampleArguments)) := by
  rw [setMember_example]
  exact ⟨[], by decide +kernel⟩

theorem routed_iff_example :
    handlersOf exampleListening exampleType = [1, 2] ∧
      (Routed Doubles.absent exampleListening {} 1
          ⟨SocketWrapper.send (stringifyJson Doubles.absent) exampleType (some exampleArguments),
            .none⟩ exampleType exampleArguments ↔
        protoField ∉ exampleArguments.map Prod.fst ∨
          handlersOf exampleListening exampleType = []) ∧
      ∀ text, messageText Doubles.absent exampleType (.object exampleArguments) = .ok text →
        Routed Doubles.absent exampleListening {} 1 ⟨text, .none⟩ exampleType exampleArguments := by
  have hOrdered : Ordered exampleArguments := List.pairwise_singleton _ _
  have hCopy : assignProperty (copyPayload exampleArguments) messageField (.string exampleType) =
      setMember messageField (.string exampleType) exampleArguments := by
    rw [assignProperty, if_neg messageField_ne_protoField, copyPayload_eq hOrdered,
      filter_protoField_eq_iff.mpr (by decide +kernel)]
  exact ⟨by decide +kernel, routed_iff hOrdered (by decide +kernel) (fun members => ⟨_, rfl⟩)
    (hCopy ▸ inverts_example) inverts_example .none⟩

theorem inverts_typeOnly : Inverts Doubles.absent (stringifyJson Doubles.absent)
    (.object (setMember messageField (.string (bytes "message")) [])) :=
  ⟨[], by decide +kernel⟩

/-- The client's copy loses `__proto__`, with a printer and a reader that lose nothing. -/
theorem proto_is_lost :
    Inverts Doubles.absent (stringifyJson Doubles.absent)
        (.object (setMember messageField (.string (bytes "message")) [])) ∧
      ¬ Routed Doubles.absent listening {} 1
        ⟨SocketWrapper.send (stringifyJson Doubles.absent) (bytes "message")
          (some [(protoField, .int 1)]), .none⟩ (bytes "message") [(protoField, .int 1)] := by
  refine ⟨inverts_typeOnly, ?_⟩
  have hCopy : assignProperty (copyPayload [(protoField, (.int 1 : Value Empty))]) messageField
      (.string (bytes "message")) = setMember messageField (.string (bytes "message")) [] := by
    rw [assignProperty, if_neg messageField_ne_protoField, copyPayload, List.foldl_cons,
      List.foldl_nil, assignProperty, if_pos rfl]
  rw [SocketWrapper.send, Option.map_some, Option.getD_some, hCopy,
    routed_sent rfl inverts_typeOnly List.not_mem_nil]
  rintro (hNone | hEqual)
  · exact absurd hNone (by decide +kernel)
  · cases hEqual

end ScRedirection.WebsocketServer
