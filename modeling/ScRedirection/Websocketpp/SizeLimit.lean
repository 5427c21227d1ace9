import ScRedirection.Websocketpp.Conversation

/-! # The limit of a message

The size of a message is checked when a frame of it is announced, by a sum of `size_t`. A frame that
continues a message can announce so much that the sum turns over. What it brings is taken into
memory as long as it comes.
-/

namespace ScRedirection.Websocketpp

open Websocketpp.Frame

namespace Hybi13

variable {processor : Hybi13} {frame : WireFrame}

theorem appendPayload_binary (processor : Hybi13) {msg : MsgMetadata}
    (hKind : msg.opcode ≠ .text) (buf : Bytes) :
    ∃ msg', processor.appendPayload msg buf = some msg' ∧
      msg'.payload.length = msg.payload.length + buf.length := by
  have hLength : (processor.unmask buf msg.preparedKey).1.length = buf.length := by
    unfold unmask
    split_ifs
    · exact length_byteMaskCirc ..
    · rfl
  have hAppend : processor.appendPayload msg buf = some { msg with
      payload := msg.payload ++ (processor.unmask buf msg.preparedKey).1
      preparedKey := (processor.unmask buf msg.preparedKey).2 } := by
    rw [appendPayload]
    dsimp only
    rw [if_neg hKind]
    rfl
  exact ⟨_, hAppend, by rw [List.length_append, hLength]⟩

/-- The payload bytes of a frame that is not text are taken as they come. -/
theorem Measured.read_flood {msg : MsgMetadata} (h : processor.Measured frame msg)
    (hKind : msg.opcode ≠ .text) {flood : Bytes}
    (hFlood : flood.length < frame.payload.length) :
    ∃ p msg', Reader.read (.ok processor) flood = (.ok p, []) ∧ p.current = some msg' ∧
      p.currentMsg = processor.currentMsg ∧
      msg'.payload.length = msg.payload.length + flood.length := by
  have hShort : flood.length < processor.bytesNeeded := h.needed ▸ hFlood
  by_cases hNone : flood = []
  · refine ⟨processor, msg, ?_, h.current, rfl, by rw [hNone]; rfl⟩
    have hWaits : Reader.waits (.ok processor) = true :=
      bne_iff_ne.mpr (Nat.ne_of_gt (Nat.zero_lt_of_lt hShort))
    rw [hNone]
    exact Reader.lawful.read_nil (Reader.valid_ok h.valid) hWaits
  obtain ⟨msg', hAppend, hLength⟩ := appendPayload_binary processor hKind flood
  have hNeeds : 0 < (processor.takePayload msg' flood.length).bytesNeeded :=
    Nat.sub_pos_of_lt hShort
  have hTurn : processor.turn flood = .ok (processor.takePayload msg' flood.length, []) := by
    rw [turn_application h.state h.current h.msg, Nat.min_eq_right (Nat.le_of_lt hShort),
      List.take_length, List.drop_length, processPayloadBytes_eq h.current, hAppend]
    exact if_pos hNeeds
  have hSame : (processor.takePayload msg' flood.length).state = processor.state ∧
      (processor.takePayload msg' flood.length).currentMsg = processor.currentMsg := by
    unfold takePayload setCurrent
    cases processor.currentMsg <;> exact ⟨rfl, rfl⟩
  have hValid := (h.valid.turned (.inl hNone) hTurn).valid (hSame.1 ▸ h.valid.state_ne_ready)
  have hWaits : Reader.waits (.ok (processor.takePayload msg' flood.length)) = true :=
    bne_iff_ne.mpr (Nat.ne_of_gt hNeeds)
  refine ⟨processor.takePayload msg' flood.length, msg', ?_, current_setCurrent msg', hSame.2,
    hLength⟩
  rw [Reader.read_of_valid h.valid (.inl hNone) hTurn hValid]
  exact Reader.lawful.read_nil (Reader.valid_ok hValid) hWaits

end Hybi13

namespace WireConnection

/-- The bytes of the message that is under way. -/
def buffered (con : WireConnection) : Nat :=
  (con.reading.bind Hybi13.dataMsg).elim 0 fun msg => msg.payload.length

/-- The header of a frame that goes on with a message, and announces all that a size can say. -/
def hugeHeader (key : UInt32) : Bytes :=
  prepareHeader (.make .continuation (2 ^ 64 - 1) true true false) (.make (2 ^ 64 - 1) (some key))

/-- A message of one byte, and a frame that says it brings the rest of `size_t`. -/
theorem read_huge {processor : Hybi13} (h : processor.Between) (hServer : processor.server = true)
    {first : UInt8} (hBinary : processor.assembly = some ⟨.binary, [first]⟩) (key : UInt32)
    {flood : Bytes} (hFlood : flood.length < 2 ^ 64 - 1) :
    ∃ p msg, Reader.read (.ok processor) (hugeHeader key ++ flood) = (.ok p, []) ∧
      p.dataMsg = some msg ∧ msg.payload.length = 1 + flood.length := by
  obtain ⟨payload, hPayload⟩ : ∃ payload : Bytes, payload.length = 2 ^ 64 - 1 :=
    ⟨List.replicate (2 ^ 64 - 1) 0, List.length_replicate⟩
  obtain ⟨frame, hOpcode, hFin, hKey, hSize⟩ : ∃ frame : WireFrame,
      frame.opcode = .continuation ∧ frame.fin = true ∧ frame.key = some key ∧
        frame.payload.length = 2 ^ 64 - 1 := ⟨⟨.continuation, true, some key, payload⟩, rfl, rfl,
    rfl, hPayload⟩
  have hBytes : hugeHeader key ++ flood = frame.basicHeader.b0 :: frame.basicHeader.b1 ::
      (fields frame.payload.length frame.key ++ flood) := by
    have hHeader := prepareHeader_make .continuation (2 ^ 64 - 1) true false (some key)
    rw [WireFrame.basicHeader, hOpcode, hFin, hKey, hSize]
    exact congrArg (· ++ flood) hHeader
  have hRefuse : processor.assembly.refuse processor.server frame = none := by
    have hKind : Opcode.isControl .continuation = false ∧
        Opcode.reserved .continuation = false := by decide
    simp [Assembly.refuse, hOpcode, hKey, hBinary, hServer, hKind]
  have hTurn := @Hybi13.turn_basicHeader processor frame h
    (fields frame.payload.length frame.key ++ flood)
  rw [hRefuse, Option.elim_none] at hTurn
  have hGoes : frame.basicHeader.b0 :: frame.basicHeader.b1 ::
      (fields frame.payload.length frame.key ++ flood) ≠ [] ∨ processor.bytesNeeded = 0 :=
    .inl (List.cons_ne_nil _ _)
  have hAnnounced : (processor.announced frame).Valid :=
    (h.valid.turned hGoes hTurn).valid ProcessorState.noConfusion
  have hData : frame.opcode.isControl = false := by rw [hOpcode]; decide
  have hShort : frame.payload.length < 2 ^ 64 := by rw [hSize]; decide
  have hStart := @Hybi13.startPayload_measured processor frame hShort hData
  have hBase : processor.assembly.base frame = ⟨.binary, [first]⟩ := by rw [hBinary]; rfl
  have hJoined := (@Hybi13.joined_message processor frame).trans hBase
  have hTurnsOver : ¬((processor.assembly.base frame).payload.length + frame.payload.length) %
      2 ^ 64 > processor.maxMessageSize := by
    have hZero : (1 + (2 ^ 64 - 1)) % 2 ^ 64 = 0 := by decide
    rw [hBase, hSize, List.length_singleton, hZero]
    exact Nat.not_lt_zero _
  rw [if_neg hTurnsOver] at hStart
  obtain ⟨hMsg, -⟩ := @Hybi13.joined_valid (processor.announced frame) frame hAnnounced hData
  obtain ⟨hMeasured, hRead⟩ :=
    Hybi13.measured_of_start hAnnounced hShort hStart rfl rfl hMsg rfl rfl flood
  have hKind : (processor.joined frame).opcode ≠ .text := by
    rw [show (processor.joined frame).opcode = .binary from congrArg WireMessage.opcode hJoined]
    exact Opcode.noConfusion
  obtain ⟨p, msg, hFlooded, hCurrent, hSame, hLength⟩ :=
    hMeasured.read_flood hKind (hSize ▸ hFlood)
  refine ⟨p, msg, ?_, ?_, ?_⟩
  · rw [hBytes, Reader.read_of_valid h.valid hGoes hTurn hAnnounced, hRead, hFlooded]
  · rw [Hybi13.current, hSame] at hCurrent
    exact hCurrent
  · rw [hLength, show (processor.joined frame).payload = [first] from
      congrArg WireMessage.payload hJoined]
    rfl

/-- A client of one byte and a header makes the server take what it likes, whatever the limit is:
the bytes behind the header are kept, none of them is refused and the connection stays open. -/
theorem limit_bypassed {maxMessageSize : Nat} (hMax : 1 ≤ maxMessageSize) (first : UInt8)
    (key key' : UInt32) {flood : Bytes} (hFlood : flood.length < 2 ^ 64 - 1) {pieces : List Bytes}
    (hPieces : pieces.flatten =
      (WireFrame.mk .binary false (some key) [first]).wire ++ (hugeHeader key' ++ flood)) :
    ((opened maxMessageSize).handleReadFrames pieces).2 = [] ∧
      ((opened maxMessageSize).handleReadFrames pieces).1.session =
        (opened maxMessageSize).session ∧
      ((opened maxMessageSize).handleReadFrames pieces).1.buffered = 1 + flood.length := by
  have hWaiting := waiting_opened maxMessageSize
  obtain ⟨hValid, hNeeds⟩ := hWaiting _ rfl
  have hBetween : (openedProcessor maxMessageSize).Between := ⟨hValid, rfl, rfl⟩
  have hTake : Assembly.take true maxMessageSize none ⟨.binary, false, some key, [first]⟩ =
      .ok (some ⟨.binary, [first]⟩, []) := by
    have hKind : Opcode.isControl .binary = false ∧ Opcode.reserved .binary = false := by decide
    have hSome : maxMessageSize ≠ 0 := by omega
    simp [Assembly.take, Assembly.refuse, Assembly.takeData, Assembly.extend, Assembly.base, hKind,
      hSome]
  have hOne : (WireFrame.mk .binary false (some key) [first]).payload.length < 2 ^ 64 := by simp
  have hReads := Hybi13.read_wire hBetween hOne
  have hTakes : (openedProcessor maxMessageSize).assembly.take
      (openedProcessor maxMessageSize).server (openedProcessor maxMessageSize).maxMessageSize
      ⟨.binary, false, some key, [first]⟩ = .ok (some ⟨.binary, [first]⟩, []) := hTake
  rw [hTakes] at hReads
  rw [handleReadFrames_eq hWaiting, hPieces, handleReadFrame_eq rfl hValid hNeeds, Reader.read,
    Reader.lawful.read_append (Reader.valid_ok hValid), ← Reader.read, ← Reader.read]
  generalize Reader.read (.ok (openedProcessor maxMessageSize))
    (WireFrame.mk .binary false (some key) [first]).wire = result at hReads ⊢
  generalize hOutcome : some (WireMessage.mk .binary [first]) = assembly at hReads
  cases hReads with
  | @ok p msgs hNext hServer hLimit =>
    obtain ⟨q, msg, hFlooded, hData, hLength⟩ :=
      read_huge hNext hServer hOutcome.symm key' hFlood
    rw [hFlooded]
    refine ⟨rfl, rfl, ?_⟩
    show (q.dataMsg.elim 0 fun msg => msg.payload.length) = 1 + flood.length
    rw [hData]
    exact hLength

theorem limit_bypassed_example :
    ((opened 2).handleReadFrames [(WireFrame.mk .binary false (some 0x01020304) [7]).wire ++
        (hugeHeader 0x05060708 ++ bytes "as much as it likes")]).1.buffered = 20 :=
  (limit_bypassed (by decide) 7 0x01020304 0x05060708
    (by decide : (bytes "as much as it likes").length < 2 ^ 64 - 1) (List.append_nil _)).2.2

end WireConnection

end ScRedirection.Websocketpp
