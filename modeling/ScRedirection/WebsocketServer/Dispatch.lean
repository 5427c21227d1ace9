import ScRedirection.WebsocketServer

/-! # Which handlers a text reaches

`onMessage` looks at the root value that the reader leaves and never at the reader's verdict, so
what a document was read into before an error is dispatched like a whole document.
-/

namespace ScRedirection.WebsocketServer

open Json Websocketpp TcpTunnel

variable {D : Type} {doubles : Doubles D} {server server' : Server} {queues : Queues}
  {conn : ConnectionHdl} {payload : StdString}

/-! ## Registered handlers -/

def pushHandler (messageType : Bytes) (handler : HandlerId) :
    List (Bytes × List HandlerId) → List (Bytes × List HandlerId)
  | [] => [(messageType, [handler])]
  | (key, handlers) :: rest =>
    if messageType = key then (key, handlers ++ [handler]) :: rest
    else (key, handlers) :: pushHandler messageType handler rest

/-- `message`, as the task it posts does it on the network thread. -/
def message (server : Server) (messageType : Bytes) (handler : HandlerId) : Server :=
  { server with messageHandlers := pushHandler messageType handler server.messageHandlers }

def handlersOf (server : Server) (messageType : Bytes) : List HandlerId :=
  (lookupHandlers server.messageHandlers messageType).2

theorem handlersOf_eq (server : Server) (messageType : Bytes) :
    handlersOf server messageType = (server.messageHandlers.lookup messageType).getD [] := by
  rw [handlersOf, lookupHandlers]
  cases server.messageHandlers.lookup messageType <;> rfl

theorem lookup_pushHandler (messageType key : Bytes) (handler : HandlerId)
    (handlers : List (Bytes × List HandlerId)) :
    ((pushHandler messageType handler handlers).lookup key).getD [] =
      if key = messageType then (handlers.lookup key).getD [] ++ [handler]
      else (handlers.lookup key).getD [] := by
  induction handlers with
  | nil =>
    rw [pushHandler, List.lookup_cons]
    split_ifs with hKey
    · simp [hKey]
    · simp [beq_eq_false_iff_ne.mpr hKey]
  | cons entry rest ih =>
    obtain ⟨key', hs⟩ := entry
    rw [pushHandler]
    by_cases hHere : messageType = key'
    · rw [if_pos hHere, List.lookup_cons, List.lookup_cons, hHere]
      split_ifs with hKey
      · simp [hKey]
      · simp [beq_eq_false_iff_ne.mpr hKey]
    · rw [if_neg hHere, List.lookup_cons, List.lookup_cons]
      by_cases hKey : key = key'
      · have hOther : key ≠ messageType := fun h => hHere (h.symm.trans hKey)
        simp [hKey, Ne.symm hHere]
      · simpa [beq_eq_false_iff_ne.mpr hKey] using ih

/-- A registration comes last among the handlers of its type and changes no other type. -/
theorem handlersOf_message (server : Server) (messageType key : Bytes) (handler : HandlerId) :
    handlersOf (message server messageType handler) key =
      if key = messageType then handlersOf server key ++ [handler] else handlersOf server key := by
  simp only [handlersOf_eq, message, lookup_pushHandler]

/-- A look-up that inserts a type registers nothing for it. -/
theorem handlersOf_lookupHandlers (server : Server) (messageType key : Bytes) :
    handlersOf { server with
      messageHandlers := (lookupHandlers server.messageHandlers messageType).1 } key =
      handlersOf server key := by
  simp only [handlersOf_eq, lookupHandlers]
  cases hFound : server.messageHandlers.lookup messageType with
  | some hs => rfl
  | none =>
    rw [List.lookup_append]
    by_cases hKey : key = messageType
    · subst hKey
      simp [hFound]
    · simp [List.lookup_cons, beq_eq_false_iff_ne.mpr hKey]

/-! ## The handlers a root value reaches -/

/-- An object with a scalar type field is dispatched to the handlers of that type, without it. -/
theorem dispatchJson_object {members : Members D} {field : Value D} {messageType : Bytes}
    (hRoot : parseJson doubles payload = .ok (.object members))
    (hField : members.lookup messageField = some field)
    (hType : field.asString doubles = .ok messageType) :
    dispatchJson doubles server conn payload =
      .ok ({ server with messageHandlers := (lookupHandlers server.messageHandlers messageType).1 },
        (handlersOf server messageType).map fun handler =>
          ⟨handler, conn, .object (eraseMember messageField members)⟩) := by
  rw [dispatchJson, hRoot]
  simp only [bind, Except.bind, Value.isNull, Value.isMember, Value.find, hField, pure,
    Except.pure, Option.isSome_some, Value.resolveReference, if_true, Bool.false_eq_true,
    if_false, Value.removeMember, hType, handlersOf]

/-- Nothing else comes to the look-up. -/
theorem dispatchJson_cases {root : Value D} {calls : List (HandlerCall D)}
    (hRoot : parseJson doubles payload = .ok root)
    (h : dispatchJson doubles server conn payload = .ok (server', calls)) :
    (server' = server ∧ calls = []) ∨ ∃ members field messageType, root = .object members ∧
      members.lookup messageField = some field ∧ field.asString doubles = .ok messageType := by
  rw [dispatchJson, hRoot] at h
  cases root with
  | object members =>
    cases hField : members.lookup messageField with
    | none =>
      simp only [bind, Except.bind, Value.isNull, Value.isMember, Value.find, hField, pure,
        Except.pure, Option.isSome_none, Bool.false_eq_true, if_false] at h
      cases h
      exact .inl ⟨rfl, rfl⟩
    | some field =>
      cases hType : field.asString doubles with
      | error error =>
        simp only [bind, Except.bind, Value.isNull, Value.isMember, Value.find, hField, pure,
          Except.pure, Option.isSome_some, Value.resolveReference, if_true, Bool.false_eq_true,
          if_false, hType] at h
        cases h
      | ok messageType => exact .inr ⟨members, field, messageType, rfl, hField, hType⟩
  | null =>
    cases h
    exact .inl ⟨rfl, rfl⟩
  | _ => cases h

theorem dispatchJson_reached {root : Value D} {calls : List (HandlerCall D)}
    (hRoot : parseJson doubles payload = .ok root)
    (h : dispatchJson doubles server conn payload = .ok (server', calls)) (hCalls : calls ≠ []) :
    ∃ members field messageType, root = .object members ∧
      members.lookup messageField = some field ∧ field.asString doubles = .ok messageType ∧
      handlersOf server messageType ≠ [] := by
  rcases dispatchJson_cases hRoot h with
    ⟨-, hNone⟩ | ⟨members, field, messageType, rfl, hField, hType⟩
  · exact absurd hNone hCalls
  · rw [dispatchJson_object hRoot hField hType] at h
    cases h
    refine ⟨members, field, messageType, rfl, hField, hType, fun hNone => ?_⟩
    rw [hNone] at hCalls
    exact hCalls rfl

/-! ## Texts the reader rejects -/

def NoHandlerInvoked (doubles : Doubles D) (server : Server) (queues : Queues)
    (conn : ConnectionHdl) (payload : StdString) : Prop :=
  ∀ server' queues' calls,
    onMessage doubles server queues conn payload = .ok (server', queues', calls) → calls = []

theorem onMessage_unknown (hUnknown : messageParse server payload.text = .unknown) :
    onMessage doubles server queues conn payload =
      match dispatchJson doubles server conn payload with
      | .ok (server', calls) => .ok (server', queues, calls)
      | .error error => .error (.json error) := by
  cases hDispatch : dispatchJson doubles server conn payload with
  | ok returned => simp only [onMessage, hUnknown, hDispatch]
  | error error => simp only [onMessage, hUnknown, hDispatch]

/-- A payload that the reader rejects is kept from every handler exactly when the part of the buffer
that was read has no type field that somebody registered for. -/
theorem noHandlerInvoked_iff {root : Value D}
    (hUnknown : messageParse server payload.text = .unknown)
    (hFailed : parseString doubles payload = .ok (.failed root)) (queues : Queues)
    (conn : ConnectionHdl) :
    NoHandlerInvoked doubles server queues conn payload ↔
      ∀ members field messageType, root = .object members →
        members.lookup messageField = some field → field.asString doubles = .ok messageType →
          handlersOf server messageType = [] := by
  have hRoot : parseJson doubles payload = .ok root :=
    (parseJson_eq_ok doubles).mpr ⟨_, hFailed, rfl⟩
  rw [NoHandlerInvoked, onMessage_unknown hUnknown]
  constructor
  · rintro hNone members field messageType rfl hField hType
    rw [dispatchJson_object hRoot hField hType] at hNone
    exact List.map_eq_nil_iff.mp (hNone _ _ _ rfl)
  · intro hUnregistered server' queues' calls hReturn
    by_contra hCalls
    cases hDispatch : dispatchJson doubles server conn payload with
    | error error =>
      rw [hDispatch] at hReturn
      cases hReturn
    | ok result =>
      rw [hDispatch] at hReturn
      cases hReturn
      obtain ⟨members, field, messageType, hObject, hField, hType, hSome⟩ :=
        dispatchJson_reached hRoot hDispatch hCalls
      exact hSome (hUnregistered members field messageType hObject hField hType)

/-- An object cut off behind its type field, sent to the server that the program sets up. -/
def cutOff : Bytes := bytes "\x7b\"__MESSAGE__\":\"message\","

def listening : Server := { type := .linux, messageHandlers := [(bytes "message", [0])] }

theorem cutOff_tokens :
    skipCommentTokens cutOff = (⟨.objectBegin, bytes "\x7b"⟩, cutOff.drop 1) ∧
      skipCommentTokens (cutOff.drop 1) = (⟨.string, bytes "\"__MESSAGE__\""⟩, cutOff.drop 14) ∧
      decodeString (bytes "\"__MESSAGE__\"") = some messageField ∧
      readToken (cutOff.drop 14) = (⟨.memberSeparator, bytes ":"⟩, cutOff.drop 15) ∧
      readValue Doubles.absent 1 1 .null (cutOff.drop 15) =
        .ok (.done (.string (bytes "message")) (cutOff.drop 24)) ∧
      readToken (cutOff.drop 24) = (⟨.arraySeparator, bytes ","⟩, []) := by
  decide +kernel

theorem parseString_cutOff (spare : Spare) : parseString Doubles.absent ⟨cutOff, spare⟩ =
    .ok (.failed (.object [(messageField, .string (bytes "message"))])) := by
  obtain ⟨fuel, hFuel⟩ : ∃ fuel, 2 * (cutOff ++ spare.bytes).length + 1 = fuel + 3 :=
    ⟨2 * (cutOff ++ spare.bytes).length - 2, by
      have hText : cutOff.length = 25 := by decide +kernel
      rw [List.length_append]
      omega⟩
  obtain ⟨hOpen, hName, hDecoded, hColon, hValue, hComma⟩ := cutOff_tokens
  have hOpen := skipCommentTokens_append hOpen (fun _ => not_ended rfl) spare
  have hName := skipCommentTokens_append hName (fun _ => not_ended rfl) spare
  have hColon := readToken_append hColon (fun _ => not_ended rfl) spare
  have hValue := (readsOn Doubles.absent spare 1).value hValue (Nat.le_add_left 1 fuel)
  have hComma := readToken_append hComma (fun _ => not_ended rfl) spare
  rw [parseString, StdString.buffer, parse, hFuel, readValue, if_neg (by decide), hOpen]
  dsimp only
  rw [readObject, hName]
  simp only [hDecoded, hColon, hValue, hComma, List.lookup_nil, Option.getD_none, setMember]
  exact readObject_spare ..

theorem noHandlerInvoked_iff_cutOff :
    NoHandlerInvoked Doubles.absent listening {} 1 ⟨cutOff, .none⟩ ↔
      ∀ members field messageType,
        Value.object [(messageField, (.string (bytes "message") : Value Empty))] = .object members →
        members.lookup messageField = some field →
        field.asString Doubles.absent = .ok messageType → handlersOf listening messageType = [] :=
  noHandlerInvoked_iff (by decide +kernel) (parseString_cutOff .none) {} 1

theorem cutOff_invokes_handler :
    messageParse listening cutOff = .unknown ∧ ∀ spare,
      (∃ root, parseString Doubles.absent ⟨cutOff, spare⟩ = .ok (.failed root)) ∧
      ¬ NoHandlerInvoked Doubles.absent listening {} 1 ⟨cutOff, spare⟩ := by
  have hUnknown : messageParse listening cutOff = .unknown := by decide +kernel
  refine ⟨hUnknown, fun spare => ⟨⟨_, parseString_cutOff spare⟩, fun hNone => ?_⟩⟩
  have hRoot := (parseJson_eq_ok Doubles.absent).mpr ⟨_, parseString_cutOff spare, rfl⟩
  have hField : [(messageField, (.string (bytes "message") : Value Empty))].lookup messageField =
      some (.string (bytes "message")) := by
    simp
  rw [NoHandlerInvoked, onMessage_unknown hUnknown, dispatchJson_object hRoot hField rfl] at hNone
  have hCalls := List.map_eq_nil_iff.mp (hNone _ _ _ rfl)
  exact absurd hCalls (by decide +kernel)

/-! A comment, and a buffer that still holds the head of an object -/

example : parseString Doubles.absent ⟨bytes "//",
    .left (bytes "\n\x7b\"__MESSAGE__\":\"message\",")⟩ =
      .ok (.failed (.object [(messageField, .string (bytes "message"))])) := by
  decide +kernel

end ScRedirection.WebsocketServer
