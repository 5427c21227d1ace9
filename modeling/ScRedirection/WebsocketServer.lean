import ScRedirection.Library.Separator
import ScRedirection.Json.Document
import ScRedirection.Json.Writer
import ScRedirection.TcpTunnel.Callbacks

/-! # WebsocketServer.cpp

The server object and its handlers. A handler registered by the program is an identity; what it
does is the caller's matter. A method that throws leaves the object as it was, except
`broadcastMessage`, whose earlier sends stay. Logging is left out.
-/

namespace ScRedirection.WebsocketServer

open Json Websocketpp TcpTunnel

inductive ServerType
  | unknown
  | windows
  | linux
  deriving DecidableEq, Repr

abbrev HandlerId := Nat

structure Server where
  type : ServerType
  rcvCallback : Option Callback := none
  sendCallback : Option Callback := none
  openConnections : List ConnectionHdl := []
  messageHandlers : List (Bytes × List HandlerId) := []
  deriving DecidableEq, Repr

def Server.isWindowsSide (server : Server) : Bool := server.type == .windows

def Server.isLinuxSide (server : Server) : Bool := server.type == .linux

def messageField : Bytes := bytes "__MESSAGE__"

/-! ## Splitting a message -/

/-- `s.find(c, pos)`. -/
def find (s : Bytes) (c : UInt8) (pos : Nat) : Option Nat :=
  ((s.drop pos).findIdx? (· == c)).map (pos + ·)

/-- `s.substr(pos, len)`. -/
def substr (s : Bytes) (pos len : Nat) : Bytes := (s.drop pos).take len

/-- `while (j != npos)`, with a bound on the number of turns. -/
def splitLoop (s : Bytes) (c : UInt8) : Nat → Nat → Option Nat → List Bytes → List Bytes
  | 0, _, _, v => v
  | _ + 1, _, none, v => v
  | fuel + 1, i, some j, v =>
    let v := v ++ [substr s i (j - i)]
    let i := j + 1
    let j := find s c i
    let v := if j = none then v ++ [substr s i s.length] else v
    splitLoop s c fuel i j v

def split (s : Bytes) (c : UInt8) (v : List Bytes) : List Bytes :=
  splitLoop s c (s.length + 1) 0 (find s c 0) v

theorem find_field {s p : Bytes} {c : UInt8} {i : Nat} (rest : Bytes)
    (h : s.drop i = p ++ c :: rest) (hp : c ∉ p) : find s c i = some (i + p.length) := by
  rw [find, h, List.findIdx?_append, Separator.findIdx?_of_not_mem hp, List.findIdx?_cons]
  simp

theorem find_last {s p : Bytes} {c : UInt8} {i : Nat} (h : s.drop i = p) (hp : c ∉ p) :
    find s c i = none := by
  rw [find, h, Separator.findIdx?_of_not_mem hp]
  rfl

/-- From the start of a field, the loop collects that field and all that follow it. -/
theorem splitLoop_fields {s : Bytes} {c : UInt8} (fields : List Bytes) :
    ∀ (p : Bytes) (fuel i : Nat) (v : List Bytes), fields ≠ [] → c ∉ p → (∀ q ∈ fields, c ∉ q) →
      s.drop i = p ++ fields.flatMap (fun q => c :: q) → fields.length ≤ fuel →
      splitLoop s c fuel i (find s c i) v = v ++ p :: fields := by
  induction fields with
  | nil => intro p fuel i v hFields; exact absurd rfl hFields
  | cons q fields ih =>
    intro p fuel i v _ hp hFields hDrop hFuel
    obtain ⟨fuel, rfl⟩ : ∃ m, fuel = m + 1 := ⟨fuel - 1, by simp at hFuel; omega⟩
    have hq : c ∉ q := hFields q (by simp)
    have hRest : s.drop (i + p.length + 1) = q ++ fields.flatMap (fun q => c :: q) := by
      rw [← List.drop_drop, ← List.drop_drop, hDrop]
      simp
    have hField : substr s i (i + p.length - i) = p := by
      rw [substr, hDrop, Nat.add_sub_cancel_left]
      simp
    rw [find_field _ (by rw [hDrop]; rfl) hp, splitLoop, hField]
    cases fields with
    | nil =>
      simp only [List.flatMap_nil, List.append_nil] at hRest
      have hLast : substr s (i + p.length + 1) s.length = q := by
        rw [substr, hRest]
        apply List.take_of_length_le
        rw [← hRest, List.length_drop]
        omega
      rw [find_last hRest hq, if_pos rfl, hLast]
      cases fuel <;> simp [splitLoop]
    | cons r fields =>
      have hFind := find_field (r ++ fields.flatMap fun q => c :: q) hRest hq
      rw [if_neg (by rw [hFind]; simp), ih q fuel _ _ (by simp) hq
        (fun x hx => hFields x (by simp [hx])) hRest (by simpa using hFuel)]
      simp

/-- `split` undoes joining with the separator, except that a text without one has no field. -/
theorem split_fields {c : UInt8} {p : Bytes} {fields : List Bytes} (hp : c ∉ p)
    (hFields : ∀ q ∈ fields, c ∉ q) :
    split (p ++ fields.flatMap fun q => c :: q) c [] = if fields = [] then [] else p :: fields := by
  by_cases h : fields = []
  · subst h
    rw [split, find_last (p := p) (by simp) hp]
    simp [splitLoop]
  · rw [split, if_neg h, splitLoop_fields fields p _ 0 [] h hp hFields (by simp), List.nil_append]
    have hLength := Separator.length_le_flatMap_cons c fields
    simp only [List.length_append]
    omega

theorem split_pair {c : UInt8} {code data : Bytes} (hCode : c ∉ code) (hData : c ∉ data) :
    split (code ++ c :: data) c [] = [code, data] := by
  have h : split (code ++ [data].flatMap fun q => c :: q) c [] = _ :=
    split_fields hCode (by simpa using hData)
  simpa using h

/-! ## Tunnel commands -/

inductive Command
  | atr
  | viewCert
  | auth
  | sign
  | bin
  deriving DecidableEq, Repr

def commands : Command → Bytes
  | .atr => bytes "ATRCODE"
  | .viewCert => bytes "VIEWCERT"
  | .auth => bytes "AUTHENTICATE"
  | .sign => bytes "TOSIGN"
  | .bin => bytes "BIN_DATA"

/-- What `messageParse` does with a message: false, true, true after calling a callback, or a
call through a null pointer. -/
inductive Parsed
  | unknown
  | consumed
  | called (callback : Callback) (data : Bytes)
  | nullCall
  deriving DecidableEq, Repr

/-- The removal of the tail characters, a quote and a brace. -/
def removeTail (data : Bytes) : Bytes :=
  if data.length > 2 ∧ data.drop (data.length - 2) = [34, 125] then data.take (data.length - 2)
  else data

def messageParse (server : Server) (message : Bytes) : Parsed :=
  match split message (ch ':') [] with
  | [code, data] =>
    let data := removeTail data
    if server.isWindowsSide ∧ code = commands .bin then
      match server.rcvCallback with
      | some callback => .called callback data
      | none => .consumed
    else if server.isLinuxSide ∧ code = commands .bin then
      -- the pointer tested is not the pointer called
      match server.rcvCallback with
      | some _ =>
        match server.sendCallback with
        | some callback => .called callback data
        | none => .nullCall
      | none => .consumed
    else if code = commands .atr ∨ code = commands .viewCert ∨ code = commands .auth ∨
        code = commands .sign then
      .consumed
    else .unknown
  | _ => .unknown

/-- The two registrations at the head of `tcptunnel_loop`. -/
def Server.setCallbacks (server : Server) : Server :=
  { server with rcvCallback := some .rcvCallback, sendCallback := some .sendCallback }

def ServerType.callback : ServerType → Option Callback
  | .windows => some .rcvCallback
  | .linux => some .sendCallback
  | .unknown => none

theorem messageParse_binData {server : Server} {callback : Callback} {data : Bytes}
    (hType : server.type.callback = some callback) (hData : ch ':' ∉ data) :
    messageParse server.setCallbacks (commands .bin ++ ch ':' :: data) =
      .called callback (removeTail data) := by
  have hCode : ch ':' ∉ commands .bin := by decide
  rw [messageParse, split_pair hCode hData]
  cases hServer : server.type with
  | unknown => simp [hServer, ServerType.callback] at hType
  | windows =>
    simp only [hServer, ServerType.callback, Option.some.injEq] at hType
    simp [Server.setCallbacks, Server.isWindowsSide, hServer, hType]
  | linux =>
    simp only [hServer, ServerType.callback, Option.some.injEq] at hType
    simp [Server.setCallbacks, Server.isWindowsSide, Server.isLinuxSide, hServer, hType]

theorem messageParse_called {server : Server} {message data : Bytes} {callback : Callback}
    (h : messageParse server.setCallbacks message = .called callback data) :
    server.type.callback = some callback := by
  unfold messageParse at h
  split at h
  · cases hType : server.type with
    | unknown =>
      simp only [Server.setCallbacks, Server.isWindowsSide, Server.isLinuxSide, hType] at h
      split_ifs at h <;> simp_all
    | windows =>
      simp only [Server.setCallbacks, Server.isWindowsSide, Server.isLinuxSide, hType] at h
      split_ifs at h <;> simp_all [ServerType.callback]
    | linux =>
      simp only [Server.setCallbacks, Server.isWindowsSide, Server.isLinuxSide, hType] at h
      split_ifs at h <;> simp_all [ServerType.callback]
  · cases h

/-! ## Messages -/

section Messages

variable {D : Type} (doubles : Doubles D)

structure HandlerCall (D : Type) where
  handler : HandlerId
  conn : ConnectionHdl
  arguments : Value D

/-- The root value as the reader leaves it; the verdict of the reader is not looked at. -/
def parseJson (json : StdString) : Except JsonError (Value D) :=
  match parseString doubles json with
  | .ok outcome => .ok outcome.value
  | .error _ => .error (.runtimeError "Exceeded stackLimit in readValue().")

/-- `messageHandlers[messageType]`: the handlers, and the map with the key in it. -/
def lookupHandlers (handlers : List (Bytes × List HandlerId)) (messageType : Bytes) :
    List (Bytes × List HandlerId) × List HandlerId :=
  match handlers.lookup messageType with
  | some hs => (handlers, hs)
  | none => (handlers ++ [(messageType, [])], [])

/-- The second half of `onMessage`, after `messageParse` returned false. -/
def dispatchJson (server : Server) (conn : ConnectionHdl) (payload : StdString) :
    Except JsonError (Server × List (HandlerCall D)) := do
  let messageObject ← parseJson doubles payload
  if messageObject.isNull then return (server, [])
  if ← messageObject.isMember messageField then
    let (messageObject, field) ← messageObject.resolveReference messageField
    let messageType ← field.asString doubles
    let messageObject ← messageObject.removeMember messageField
    let (messageHandlers, handlers) := lookupHandlers server.messageHandlers messageType
    return ({ server with messageHandlers := messageHandlers },
      handlers.map fun handler => ⟨handler, conn, messageObject⟩)
  return (server, [])

/-- `messageParse` gets a copy of the text, `parseJson` the string itself. -/
def onMessage (server : Server) (queues : Queues) (conn : ConnectionHdl) (payload : StdString) :
    Except Exn (Server × Queues × List (HandlerCall D)) :=
  match messageParse server payload.text with
  | .nullCall => .error .undefinedBehaviour
  | .consumed => .ok (server, queues, [])
  | .called callback data =>
    match callback.run data queues with
    | .ok queues => .ok (server, queues, [])
    | .error exn => .error exn
  | .unknown =>
    match dispatchJson doubles server conn payload with
    | .ok (server, calls) => .ok (server, queues, calls)
    | .error error => .error (.json error)

theorem onMessage_binData {server : Server} {callback : Callback} {data : Bytes}
    (hType : server.type.callback = some callback) (hData : ch ':' ∉ data) (queues : Queues)
    (conn : ConnectionHdl) (spare : Spare) :
    onMessage doubles server.setCallbacks queues conn ⟨commands .bin ++ ch ':' :: data, spare⟩ =
      (decodeOrThrow (removeTail data)).map fun item =>
        (server.setCallbacks, queues.push callback.queue item, []) := by
  rw [onMessage, messageParse_binData hType hData]
  simp only [Callback.run_eq]
  cases decodeOrThrow (removeTail data) <;> rfl

theorem bind_eq_ok {ε α β : Type} {x : Except ε α} {f : α → Except ε β} {b : β}
    (h : (x >>= f) = .ok b) : ∃ a, x = .ok a ∧ f a = .ok b := by
  cases x with
  | error e => cases h
  | ok a => exact ⟨a, rfl, h⟩

theorem dispatchJson_effect {server server' : Server} {conn : ConnectionHdl} {payload : StdString}
    {calls : List (HandlerCall D)}
    (h : dispatchJson doubles server conn payload = .ok (server', calls)) :
    ∃ handlers, server' = { server with messageHandlers := handlers } := by
  unfold dispatchJson at h
  obtain ⟨root, -, h⟩ := bind_eq_ok h
  split at h
  · cases h
    exact ⟨_, rfl⟩
  · obtain ⟨found, -, h⟩ := bind_eq_ok h
    split at h
    · obtain ⟨⟨object, field⟩, -, h⟩ := bind_eq_ok h
      obtain ⟨messageType, -, h⟩ := bind_eq_ok h
      obtain ⟨stripped, -, h⟩ := bind_eq_ok h
      cases h
      exact ⟨_, rfl⟩
    · cases h
      exact ⟨_, rfl⟩

theorem parseJson_eq_ok {payload : StdString} {root : Value D} :
    parseJson doubles payload = .ok root ↔
      ∃ outcome, parseString doubles payload = .ok outcome ∧ outcome.value = root := by
  unfold parseJson
  cases parseString doubles payload <;> simp

/-- What a handler is given: an object in map order, its type field taken out. -/
def IsArguments (value : Value D) : Prop :=
  ∃ ms, value = .object ms ∧ Ordered ms ∧ messageField ∉ ms.map Prod.fst

theorem dispatchJson_calls {server server' : Server} {conn : ConnectionHdl} {payload : StdString}
    {calls : List (HandlerCall D)}
    (h : dispatchJson doubles server conn payload = .ok (server', calls)) :
    ∀ call ∈ calls, IsArguments call.arguments := by
  unfold dispatchJson at h
  obtain ⟨root, hRoot, h⟩ := bind_eq_ok h
  obtain ⟨outcome, hParse, hOutcome⟩ := (parseJson_eq_ok doubles).mp hRoot
  split at h
  · cases h
    simp
  · rename_i hNull
    obtain ⟨found, hFound, h⟩ := bind_eq_ok h
    split at h
    · obtain ⟨⟨object, field⟩, hObject, h⟩ := bind_eq_ok h
      obtain ⟨messageType, -, h⟩ := bind_eq_ok h
      obtain ⟨stripped, hStripped, h⟩ := bind_eq_ok h
      cases h
      intro call hCall
      obtain ⟨handler, -, rfl⟩ := List.mem_map.mp hCall
      cases root with
      | object members =>
        have hOrdered := parse_ordered hParse hOutcome
        obtain ⟨ms, rfl, hMs⟩ : ∃ ms, object = .object ms ∧ Ordered ms := by
          simp only [Value.resolveReference] at hObject
          split at hObject <;> cases hObject
          · exact ⟨_, rfl, hOrdered⟩
          · exact ⟨_, rfl, ordered_setMember hOrdered⟩
        cases hStripped
        exact ⟨_, rfl, ordered_eraseMember hMs, key_not_mem_eraseMember hMs⟩
      | null => exact absurd rfl hNull
      | _ => cases hObject
    · cases h
      simp

/-- Whatever the text, a handler that returns has at most registered an empty list of handlers
and pushed one item, on the queue of its side. -/
theorem onMessage_effect {server server' : Server} {queues queues' : Queues}
    {conn : ConnectionHdl} {payload : StdString} {calls : List (HandlerCall D)}
    (h : onMessage doubles server.setCallbacks queues conn payload =
      .ok (server', queues', calls)) :
    (∃ handlers, server' = Server.setCallbacks { server with messageHandlers := handlers }) ∧
      (queues' = queues ∨ ∃ callback item, server.type.callback = some callback ∧
        queues' = queues.push callback.queue item) := by
  unfold onMessage at h
  split at h
  · cases h
  · cases h
    exact ⟨⟨_, rfl⟩, .inl rfl⟩
  · rename_i callback data hCalled
    rw [Callback.run_eq] at h
    cases hDecode : decodeOrThrow data with
    | error exn => rw [hDecode] at h; cases h
    | ok item =>
      rw [hDecode] at h
      cases h
      exact ⟨⟨_, rfl⟩, .inr ⟨callback, item, messageParse_called hCalled, rfl⟩⟩
  · split at h
    · rename_i server'' calls' hDispatch
      cases h
      obtain ⟨handlers, rfl⟩ := dispatchJson_effect doubles hDispatch
      exact ⟨⟨handlers, rfl⟩, .inl rfl⟩
    · cases h

theorem onMessage_calls {server server' : Server} {queues queues' : Queues}
    {conn : ConnectionHdl} {payload : StdString} {calls : List (HandlerCall D)}
    (h : onMessage doubles server queues conn payload = .ok (server', queues', calls)) :
    ∀ call ∈ calls, IsArguments call.arguments := by
  unfold onMessage at h
  split at h
  · cases h
  · cases h
    simp
  · split at h
    · cases h
      simp
    · cases h
  · split at h
    · rename_i hDispatch
      cases h
      exact dispatchJson_calls doubles hDispatch
    · cases h

def stringifyJson (val : Value D) : Bytes := writeValue doubles val

def sendMessage (endpoint : Endpoint) (conn : ConnectionHdl) (messageType : Bytes)
    (arguments : Value D) : Except Exn Endpoint :=
  match arguments.assign messageField (.string messageType) with
  | .error error => .error (.json error)
  | .ok messageData =>
    match endpoint.send conn (stringifyJson doubles messageData) with
    | .error error => .error (.websocketpp error)
    | .ok endpoint => .ok endpoint

/-- The loop over `openConnections`; it stops where a send throws. -/
def broadcastMessage (messageType : Bytes) (arguments : Value D) :
    Endpoint → List ConnectionHdl → Except Exn Unit × Endpoint
  | endpoint, [] => (.ok (), endpoint)
  | endpoint, conn :: conns =>
    match sendMessage doubles endpoint conn messageType arguments with
    | .error exn => (.error exn, endpoint)
    | .ok endpoint => broadcastMessage messageType arguments endpoint conns

/-- The text of a message, where `arguments` takes a member. -/
def messageText (messageType : Bytes) (arguments : Value D) : Except JsonError Bytes :=
  (arguments.assign messageField (.string messageType)).map (stringifyJson doubles)

section Broadcast

variable {doubles} {endpoint endpoint' : Endpoint} {conn : ConnectionHdl} {messageType : Bytes}
  {arguments : Value D}

theorem sendMessage_eq_ok :
    sendMessage doubles endpoint conn messageType arguments = .ok endpoint' ↔
      ∃ text, messageText doubles messageType arguments = .ok text ∧
        endpoint.isOpen conn = true ∧ Utf8Validator.validate text = true ∧
        endpoint' = endpoint.enqueue [conn] text := by
  unfold sendMessage messageText
  cases arguments.assign messageField (.string messageType) with
  | error error => simp [Except.map]
  | ok messageData =>
    simp only [Except.map, Except.ok.injEq, exists_eq_left', ← Endpoint.send_eq_ok]
    cases endpoint.send conn (stringifyJson doubles messageData) <;> simp

/-- A broadcast returns exactly when every listed connection is open and takes its text, and
then it has queued the text once on each. -/
theorem broadcastMessage_eq_ok {text : Bytes}
    (hText : messageText doubles messageType arguments = .ok text) {conns : List ConnectionHdl}
    (hNodup : conns.Nodup) :
    broadcastMessage doubles messageType arguments endpoint conns = (.ok (), endpoint') ↔
      (∀ conn ∈ conns, endpoint.isOpen conn = true ∧ Utf8Validator.validate text = true) ∧
        endpoint' = endpoint.enqueue conns text := by
  induction conns generalizing endpoint with
  | nil => simp [broadcastMessage, Endpoint.enqueue_nil, eq_comm (a := endpoint)]
  | cons conn conns ih =>
    obtain ⟨hConn, hRest⟩ := List.nodup_cons.mp hNodup
    rw [broadcastMessage]
    cases hSend : sendMessage doubles endpoint conn messageType arguments with
    | error exn =>
      apply iff_of_false (by simp)
      rintro ⟨hOpen, -⟩
      obtain ⟨hConnOpen, hValid⟩ := hOpen conn (by simp)
      have hOk := sendMessage_eq_ok.mpr ⟨text, hText, hConnOpen, hValid, rfl⟩
      rw [hSend] at hOk
      cases hOk
    | ok middle =>
      obtain ⟨text', hText', hOpen, hValid, rfl⟩ := sendMessage_eq_ok.mp hSend
      obtain rfl : text = text' := Except.ok.inj (hText.symm.trans hText')
      simp only [ih hRest, Endpoint.isOpen_enqueue, Endpoint.enqueue_enqueue hConn,
        List.forall_mem_cons, hOpen, hValid, and_true, true_and]

theorem broadcastMessage_error {error : JsonError}
    (hText : messageText doubles messageType arguments = .error error)
    {conns : List ConnectionHdl} :
    broadcastMessage doubles messageType arguments endpoint conns = (.ok (), endpoint') ↔
      conns = [] ∧ endpoint' = endpoint := by
  cases conns with
  | nil => simpa [broadcastMessage] using eq_comm
  | cons conn conns =>
    rw [broadcastMessage]
    cases hSend : sendMessage doubles endpoint conn messageType arguments with
    | error exn => simp
    | ok middle =>
      obtain ⟨text, hOk, -⟩ := sendMessage_eq_ok.mp hSend
      cases hText.symm.trans hOk

theorem broadcastMessage_isSome (conns : List ConnectionHdl) (endpoint : Endpoint)
    (h : ConnectionHdl) :
    ((broadcastMessage doubles messageType arguments endpoint conns).2.connections h).isSome =
      (endpoint.connections h).isSome := by
  induction conns generalizing endpoint with
  | nil => rfl
  | cons conn conns ih =>
    rw [broadcastMessage]
    cases hSend : sendMessage doubles endpoint conn messageType arguments with
    | error exn => rfl
    | ok middle =>
      obtain ⟨text, -, -, -, rfl⟩ := sendMessage_eq_ok.mp hSend
      simp only [ih, Endpoint.connections_enqueue]
      split_ifs <;> simp

end Broadcast

end Messages

/-! ## Connections -/

def onOpen (server : Server) (conn : ConnectionHdl) : Server :=
  { server with openConnections := server.openConnections ++ [conn] }

/-- The predicate of `remove_if`: an expired handle, or one that locks to the pointer of the
closed connection. -/
def removable (endpoint : Endpoint) (conn elem : ConnectionHdl) : Bool :=
  (endpoint.lock elem).isNone || endpoint.lock elem == endpoint.lock conn

def onClose (endpoint : Endpoint) (server : Server) (conn : ConnectionHdl) : Server :=
  { server with
    openConnections := server.openConnections.filter fun elem => !removable endpoint conn elem }

/-- While an element lives, only the close of its own connection removes it, be the closed
handle expired or not. -/
theorem removable_iff {endpoint : Endpoint} {elem : ConnectionHdl}
    (hAlive : (endpoint.connections elem).isSome) (conn : ConnectionHdl) :
    removable endpoint conn elem = true ↔ elem = conn := by
  obtain ⟨con, hCon⟩ := Option.isSome_iff_exists.mp hAlive
  simp only [removable, Endpoint.lock, hCon, Option.map_some, Option.isNone_some, Bool.false_or,
    beq_iff_eq]
  constructor
  · intro h
    obtain ⟨_, _, hConn⟩ := Option.map_eq_some_iff.mp h.symm
    exact hConn.symm
  · rintro rfl
    rw [hCon]
    rfl

def numConnections (server : Server) : Nat := server.openConnections.length

end ScRedirection.WebsocketServer
