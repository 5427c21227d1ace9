import ScRedirection.WebsocketServer.Dispatch

/-! # What an inbound text can do to the server

A text reaches `onMessage` on the network thread, where nothing catches. A BIN_DATA text runs a
callback and so the base64 decoder; any other text runs the JSON reader and the accessors of the
value it leaves.
-/

namespace ScRedirection.WebsocketServer

open Json Websocketpp TcpTunnel

variable {D : Type}

/-! ## BIN_DATA texts -/

/-- Padded base64 over both alphabets, which `pos_of_char` accepts side by side. -/
def WellFormed (text : Bytes) : Prop := Radix64.WellFormed (Base64.alphabet false) text

theorem wellFormed_iff {text : Bytes} :
    WellFormed text ↔ text.length % 4 = 0 ∧ ∃ body pad, text = body ++ pad ∧
      (∀ c ∈ body, c ∈ Base64.base64Chars false ∨ c ∈ Base64.base64Chars true) ∧
      (∀ c ∈ pad, c = ch '=' ∨ c = ch '.') ∧ pad.length ≤ 2 := by
  have hPad : ∀ c, Base64.isTrailingChar c = true ↔ c = ch '=' ∨ c = ch '.' :=
    fun _ => Base64.isTrailingChar_iff
  simp only [WellFormed, Radix64.WellFormed, Base64.alphabet, Base64.sextet_isSome_iff, hPad]

def decoded (text : Bytes) : Bytes := Radix64.decode (Base64.alphabet false) text

/-- The handler returns, having queued the decoding of a well-formed text and nothing else. -/
def DecodedOrIgnored (doubles : Doubles D) (server : Server) (callback : Callback)
    (queues : Queues) (conn : ConnectionHdl) (data : Bytes) (spare : Spare) : Prop :=
  ∃ queues', onMessage doubles server queues conn ⟨commands .bin ++ ch ':' :: data, spare⟩ =
      .ok (server, queues', []) ∧
    (WellFormed (removeTail data) →
      queues' = queues.push callback.queue (decoded (removeTail data))) ∧
    (¬ WellFormed (removeTail data) → queues' = queues)

theorem decodeOrThrow_wellFormed {text : Bytes} (h : WellFormed text) :
    decodeOrThrow text = .ok (decoded text) := by
  rw [decodeOrThrow, Base64.base64Decode_wellFormed false h]
  rfl

theorem decodedOrIgnored_iff (doubles : Doubles D) {server : Server} {callback : Callback}
    (hType : server.type.callback = some callback) (queues : Queues) (conn : ConnectionHdl)
    {data : Bytes} (hData : ch ':' ∉ data) (spare : Spare) :
    DecodedOrIgnored doubles server.setCallbacks callback queues conn data spare ↔
      WellFormed (removeTail data) := by
  rw [DecodedOrIgnored, onMessage_binData doubles hType hData]
  constructor
  · rintro ⟨queues', hReturn, _, hIgnored⟩
    by_contra hBad
    -- whatever the decoder makes of the text, it throws or something is pushed
    cases hDecode : decodeOrThrow (removeTail data) with
    | error exn =>
      rw [hDecode] at hReturn
      cases hReturn
    | ok item =>
      rw [hDecode] at hReturn
      simp only [Except.map, Except.ok.injEq, Prod.mk.injEq, true_and, and_true] at hReturn
      exact queues.push_ne callback.queue item (hReturn.trans (hIgnored hBad))
  · intro hGood
    rw [decodeOrThrow_wellFormed hGood]
    exact ⟨_, rfl, fun _ => rfl, fun hBad => absurd hGood hBad⟩

theorem decodedOrIgnored_iff_hello :
    DecodedOrIgnored Doubles.absent
        (Server.setCallbacks { type := .linux }) .sendCallback {} 0 (bytes "aGVsbG8=\"\x7d") .none ↔
      WellFormed (removeTail (bytes "aGVsbG8=\"\x7d")) :=
  decodedOrIgnored_iff _ rfl _ _ (by decide) .none

theorem not_decodedOrIgnored_bang :
    ¬ DecodedOrIgnored Doubles.absent
        (Server.setCallbacks { type := .linux }) .sendCallback {} 0 (bytes "!") .none := by
  rintro ⟨queues', hReturn, -⟩
  rw [onMessage_binData _ rfl (by decide)] at hReturn
  have hThrow : decodeOrThrow (removeTail (bytes "!")) = .error .charLiteral := by decide
  rw [hThrow] at hReturn
  cases hReturn

/-! ## JSON texts -/

/-- The roots no accessor of `onMessage` throws on. -/
def DispatchableRoot : Value D → Prop
  | .null => True
  | .object members => ∀ field, members.lookup messageField = some field → ¬ field.isContainer
  | _ => False

theorem dispatchJson_of_root (doubles : Doubles D) (server : Server) (conn : ConnectionHdl)
    {payload : StdString} {root : Value D} (h : parseJson doubles payload = .ok root) :
    (∃ result, dispatchJson doubles server conn payload = .ok result) ↔ DispatchableRoot root := by
  rw [dispatchJson, h]
  cases root with
  | null => exact iff_of_true ⟨_, rfl⟩ trivial
  | object members =>
    cases hField : members.lookup messageField with
    | none =>
      refine iff_of_true ⟨(server, []), ?_⟩ ?_
      · simp [bind, Except.bind, Value.isNull, Value.isMember, Value.find, hField, pure,
          Except.pure]
      · intro field hSome
        cases hField.symm.trans hSome
    | some field =>
      simp only [bind, Except.bind, Value.isNull, Value.isMember, Value.find, hField, pure,
        Except.pure, Option.isSome_some, Value.resolveReference, if_true, Bool.false_eq_true,
        if_false, Value.removeMember, DispatchableRoot, Option.some.injEq, forall_eq']
      -- only the conversion of the member to a string is left to fail
      cases field <;> simp [Value.asString, Value.isContainer]
  | _ => simp [bind, Except.bind, Value.isNull, Value.isMember, Value.find, DispatchableRoot]

/-- A payload that is no command returns exactly when the reader stays within its stack limit, on
the whole buffer, and leaves a root the accessors accept. -/
theorem onMessage_json_returns_iff (doubles : Doubles D) {server : Server} {payload : StdString}
    (hParse : messageParse server payload.text = .unknown) (queues : Queues)
    (conn : ConnectionHdl) :
    (∃ result, onMessage doubles server queues conn payload = .ok result) ↔
      ∃ outcome, parseString doubles payload = .ok outcome ∧ DispatchableRoot outcome.value := by
  have hDispatch : (∃ result, onMessage doubles server queues conn payload = .ok result) ↔
      ∃ result, dispatchJson doubles server conn payload = .ok result := by
    rw [onMessage, hParse]
    cases dispatchJson doubles server conn payload <;> simp
  rw [hDispatch]
  cases hRead : parseString doubles payload with
  | error fault =>
    apply iff_of_false
    · rintro ⟨result, hResult⟩
      rw [dispatchJson, parseJson, hRead] at hResult
      cases hResult
    · rintro ⟨outcome, hOutcome, -⟩
      cases hOutcome
  | ok outcome =>
    have hParsed := (parseJson_eq_ok doubles).mpr ⟨outcome, hRead, rfl⟩
    rw [dispatchJson_of_root doubles server conn hParsed]
    simp

/-- A message of a type with a handler, in a buffer with bytes left behind it. -/
def exampleReceived : StdString :=
  ⟨bytes "\x7b\"__MESSAGE__\":\"message\",\"n\":1\x7d", .left (bytes "[\"")⟩

theorem onMessage_json_returns_iff_example :
    handlersOf listening (bytes "message") = [0] ∧
      (∃ outcome, parseString Doubles.absent exampleReceived = .ok outcome ∧
        outcome.value = .object [(messageField, .string (bytes "message")), (bytes "n", .int 1)]) ∧
      ((∃ result, onMessage Doubles.absent listening {} 0 exampleReceived = .ok result) ↔
        ∃ outcome, parseString Doubles.absent exampleReceived = .ok outcome ∧
          DispatchableRoot outcome.value) := by
  have hRead : parse Doubles.absent exampleReceived.text = .ok (.done (.object
      [(messageField, .string (bytes "message")), (bytes "n", .int 1)]) []) := by
    decide +kernel
  exact ⟨by decide +kernel, ⟨_, parseString_eq_done hRead, rfl⟩,
    onMessage_json_returns_iff _ (by decide +kernel) _ _⟩

theorem onMessage_json_throws_array :
    messageParse { type := .linux } (bytes "[]") = .unknown ∧ ∀ spare,
      ¬ ∃ result, onMessage Doubles.absent { type := .linux } {} 0 ⟨bytes "[]", spare⟩ =
        .ok result := by
  have hUnknown : messageParse { type := .linux } (bytes "[]") = .unknown := by decide
  refine ⟨hUnknown, fun spare => ?_⟩
  rintro ⟨result, hResult⟩
  have hArray : parse Doubles.absent (bytes "[]") = .ok (.done (.array []) []) := by rfl
  have hRoot : parseString Doubles.absent ⟨bytes "[]", spare⟩ = _ :=
    parseString_eq_done hArray
  rw [onMessage, hUnknown] at hResult
  simp only [dispatchJson, parseJson, hRoot] at hResult
  cases hResult

/-! One payload, with and without a quote left in the buffer behind it -/

example :
    (onMessage Doubles.absent listening {} 0 ⟨[ch '"'], .none⟩).isOk = true ∧
      (onMessage Doubles.absent listening {} 0 ⟨[ch '"'], .left [ch '"']⟩).isOk = false := by
  decide +kernel

end ScRedirection.WebsocketServer
