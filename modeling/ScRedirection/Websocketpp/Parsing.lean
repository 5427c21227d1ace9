import ScRedirection.Websocketpp.Conversation

/-! # What any bytes are read as

Whatever a client sends, what is read of it is frames: the bytes of every frame that comes to its
end are those that its writer would write, and bytes that make no whole frame hand nothing out.
-/

namespace ScRedirection.Websocketpp

open Websocketpp.Frame

namespace Hybi13

variable {processor : Hybi13} {buf : Bytes}

/-! ## Bytes that are too few -/

/-- A turn that gets less than it needs waits for more, unless it fails. -/
theorem Valid.turn_short (h : processor.Valid) (hBuf : buf ≠ [])
    (hShort : buf.length < processor.bytesNeeded) :
    (∃ error, processor.turn buf = .error error) ∨
      ∃ p, processor.turn buf = .ok (p, []) ∧ 0 < p.bytesNeeded ∧ p.state = processor.state := by
  cases h.stage with
  | headerBasic hState hNeeded =>
    obtain ⟨b, rest, rfl⟩ := List.exists_cons_of_ne_nil hBuf
    rw [List.length_cons] at hShort
    have hRest : rest = [] := List.eq_nil_of_length_eq_zero (by omega)
    have hTwo : processor.bytesNeeded = 2 := by omega
    have hCopy : processor.copyBasicHeaderBytes [b] =
        ({ processor with
          basicHeader := { processor.basicHeader with b0 := b }
          bytesNeeded := processor.bytesNeeded - 1 }, []) :=
      (if_neg (by omega)).trans (if_pos hTwo)
    have hNeeds : 0 < processor.bytesNeeded - 1 := by omega
    right
    refine ⟨(processor.copyBasicHeaderBytes [b]).1, ?_, ?_, ?_⟩ <;> rw [hCopy]
    · rw [hRest, turn_headerBasic hState, hCopy, endBasicHeader, if_pos hNeeds]
    · exact hNeeds
  | headerExtended hState hNeeded =>
    have hLength := getHeaderLen_le processor.basicHeader
    have hHeader := h.header
    obtain ⟨hCopy, -⟩ := copyExtendedHeaderBytes_short [] hShort (by omega)
    right
    refine ⟨(processor.copyExtendedHeaderBytes buf).1, ?_, ?_, rfl⟩
    · rw [turn_headerExtended hState, hCopy, endExtendedHeader,
        if_pos (Nat.sub_pos_of_lt hShort)]
    · rw [hCopy]
      exact Nat.sub_pos_of_lt hShort
  | application hState hCurrent hMsg =>
    rw [turn_application hState hCurrent hMsg, Nat.min_eq_right (Nat.le_of_lt hShort),
      List.take_length, List.drop_length]
    rcases processPayloadBytes_cases hCurrent hMsg buf with hError | ⟨msg', -, -, -, hDone⟩
    · rw [hError]
      exact .inl ⟨_, rfl⟩
    · have hNeeds : (processor.takePayload msg' buf.length).bytesNeeded > 0 :=
        Nat.sub_pos_of_lt hShort
      have hSame : (processor.takePayload msg' buf.length).state = processor.state := by
        unfold takePayload setCurrent
        cases processor.currentMsg <;> rfl
      right
      refine ⟨processor.takePayload msg' buf.length, ?_, hNeeds, hSame⟩
      rw [hDone]
      exact if_pos hNeeds

theorem Valid.read_nil (h : processor.Valid) (hNeeds : 0 < processor.bytesNeeded) :
    Reader.read (.ok processor) [] = (.ok processor, []) :=
  Reader.lawful.read_nil (Reader.valid_ok h) (bne_iff_ne.mpr (Nat.ne_of_gt hNeeds))

theorem Valid.read_short (h : processor.Valid) (hShort : buf.length < processor.bytesNeeded) :
    (Reader.read (.ok processor) buf).2 = [] := by
  by_cases hBuf : buf = []
  · rw [hBuf, h.read_nil (Nat.zero_lt_of_lt hShort)]
  rcases h.turn_short hBuf hShort with ⟨error, hTurn⟩ | ⟨p, hTurn, hNeeds, hState⟩
  · rw [Reader.read_of_error h (.inl hBuf) hTurn]
  · have hNext := (h.turned (.inl hBuf) hTurn).valid (hState ▸ h.state_ne_ready)
    rw [Reader.read_of_valid h (.inl hBuf) hTurn hNext, hNext.read_nil hNeeds]

/-! ## A header that was read -/

/-- A check that is passed, and those behind it. -/
theorem passed_of_ite {c : Prop} [Decidable c] {error : ProcessorError}
    {next : Option ProcessorError} (h : (if c then some error else next) = none) :
    ¬c ∧ next = none := by
  split_ifs at h with hc
  exact ⟨hc, h⟩

theorem rsv_of_validate {header : BasicHeader} {server newMsg : Bool}
    (h : validateIncomingBasicHeader header server newMsg = none) :
    getRsv1 header = false ∧ getRsv2 header = false ∧ getRsv3 header = false := by
  obtain ⟨-, h⟩ := passed_of_ite h
  obtain ⟨hRsv1, h⟩ := passed_of_ite h
  obtain ⟨hRsv, -⟩ := passed_of_ite h
  rw [Bool.or_eq_true, not_or] at hRsv
  exact ⟨Bool.eq_false_iff.mpr hRsv1, Bool.eq_false_iff.mpr hRsv.1, Bool.eq_false_iff.mpr hRsv.2⟩

theorem minimal_of_validate {header : BasicHeader} {e : ExtendedHeader}
    (h : validateIncomingExtendedHeader header e = none) :
    (getBasicSize header = payloadSizeCode16bit → payloadSizeBasic < getPayloadSize header e) ∧
      (getBasicSize header = payloadSizeCode64bit →
        payloadSizeExtended < getPayloadSize header e) := by
  unfold validateIncomingExtendedHeader at h
  dsimp only at h
  split_ifs at h with hWord hJumbo
  exact ⟨fun hCode => Nat.lt_of_not_le fun hLow => hWord ⟨hCode, hLow⟩,
    fun hCode => Nat.lt_of_not_le fun hLow => hJumbo ⟨hCode, hLow⟩⟩

/-- The frame that a header and the bytes behind it are. -/
def frameOf (header : BasicHeader) (e : ExtendedHeader) (masked : Bytes) : WireFrame where
  opcode := getOpcode header
  fin := getFin header
  key := if getMasked header then some (getMaskingKey header e) else none
  payload := if getMasked header then byteMask (getMaskingKey header e) 0 masked else masked

theorem frameOf_wire {header : BasicHeader} {e : ExtendedHeader} {masked : Bytes}
    {server newMsg : Bool} (hBasic : validateIncomingBasicHeader header server newMsg = none)
    (hExtended : validateIncomingExtendedHeader header e = none)
    (hFields : getHeaderLen header - basicHeaderLength ≤ e.length)
    (hMasked : masked.length = getPayloadSize header e) :
    (frameOf header e masked).wire = header.b0 :: header.b1 ::
        (e.take (getHeaderLen header - basicHeaderLength) ++ masked) ∧
      (frameOf header e masked).payload.length = getPayloadSize header e := by
  obtain ⟨hRsv1, hRsv2, hRsv3⟩ := rsv_of_validate hBasic
  obtain ⟨hWord, hJumbo⟩ := minimal_of_validate hExtended
  have hLength : (frameOf header e masked).payload.length = getPayloadSize header e := by
    rw [← hMasked, frameOf]
    dsimp only
    split_ifs
    · rw [byteMask_eq _ 0, Octets.length_mask]
    · rfl
  have hHeader : (frameOf header e masked).basicHeader = header := by
    have hSome : (frameOf header e masked).key.isSome = getMasked header := by
      rw [frameOf]
      cases getMasked header <;> rfl
    rw [WireFrame.basicHeader, hLength, hSome]
    exact make_read hRsv1 hRsv2 hRsv3 (basicValue_read hWord hJumbo)
  have hPayload : (frameOf header e masked).wirePayload = masked := by
    rw [WireFrame.wirePayload, frameOf]
    cases getMasked header with
    | false => rfl
    | true =>
      simp only [if_true]
      rw [byteMask_eq _ 0, byteMask_eq _ 0, Octets.mask_mask]
  refine ⟨?_, hLength⟩
  rw [WireFrame.wire_eq, hHeader, hLength, hPayload, ← fields_read hWord hJumbo hFields]
  rfl

theorem startPayload_keeps {op : Opcode} {key : UInt32} {p : Hybi13}
    (h : processor.startPayload op key = .ok p) :
    p.state = processor.state ∧ p.bytesNeeded = processor.bytesNeeded := by
  unfold startPayload at h
  by_cases hControl : op.isControl = true
  · rw [if_pos hControl] at h
    cases h
    exact ⟨rfl, rfl⟩
  · rw [if_neg hControl] at h
    split at h <;> (split_ifs at h; cases h; exact ⟨rfl, rfl⟩)

/-- The processor behind an extended header, and the header it has. -/
theorem turn_headed (processor : Hybi13) {header : BasicHeader} {rest : Bytes}
    (hEnough : getHeaderLen header - basicHeaderLength ≤ rest.length) :
    ∃ e : ExtendedHeader,
      e.take (getHeaderLen header - basicHeaderLength) =
        rest.take (getHeaderLen header - basicHeaderLength) ∧
      getHeaderLen header - basicHeaderLength ≤ e.length ∧
      ((∃ error, (processor.headed header).turn rest = .error error) ∨
        validateIncomingExtendedHeader header e = none ∧
        ∃ p, (processor.headed header).turn rest =
            .ok (p, rest.drop (getHeaderLen header - basicHeaderLength)) ∧
          p.state = .application ∧ p.bytesNeeded = getPayloadSize header e) := by
  have hNeeded : (processor.headed header).bytesNeeded =
      getHeaderLen header - basicHeaderLength := rfl
  obtain ⟨hCopy, -⟩ := @copyExtendedHeaderBytes_enough (processor.headed header) rest [] hEnough
  have hTake : (rest.take (getHeaderLen header - basicHeaderLength)).length =
      getHeaderLen header - basicHeaderLength := by
    rw [List.length_take, Nat.min_eq_left hEnough]
  rw [turn_headerExtended rfl, hCopy, endExtendedHeader, if_neg (Nat.lt_irrefl 0)]
  dsimp only [headed]
  refine ⟨splice processor.extendedHeader 0
    (rest.take (getHeaderLen header - basicHeaderLength)), ?_, ?_, ?_⟩
  · rw [splice, List.take_zero, List.nil_append, List.take_left' hTake]
  · simp only [splice, List.length_append, hTake]
    omega
  · cases hExtended : validateIncomingExtendedHeader header (splice processor.extendedHeader 0
      (rest.take (getHeaderLen header - basicHeaderLength))) with
    | some error => exact .inl ⟨error, rfl⟩
    | none =>
      dsimp only
      cases hStart : startPayload _ _ _ with
      | error error => exact .inl ⟨error, rfl⟩
      | ok p =>
        obtain ⟨hState, hNeeds⟩ := startPayload_keeps hStart
        exact .inr ⟨rfl, p, rfl, hState, hNeeds⟩

/-- Bytes that start with a whole frame. -/
def StartsWhole (buf : Bytes) : Prop :=
  ∃ frame : WireFrame, frame.payload.length < 2 ^ 64 ∧ ∃ rest, buf = frame.wire ++ rest

theorem Valid.read_cases_headed {header : BasicHeader} {server newMsg : Bool}
    (h : (processor.headed header).Valid)
    (hBasic : validateIncomingBasicHeader header server newMsg = none) (rest : Bytes) :
    (Reader.read (.ok (processor.headed header)) rest).2 = [] ∨
      StartsWhole (header.b0 :: header.b1 :: rest) := by
  rcases Nat.lt_or_ge rest.length (getHeaderLen header - basicHeaderLength) with hShort | hEnough
  · exact .inl (h.read_short hShort)
  have hGoes : rest ≠ [] ∨ (processor.headed header).bytesNeeded = 0 := by
    by_cases hNone : getHeaderLen header - basicHeaderLength = 0
    · exact .inr hNone
    · exact .inl (List.ne_nil_of_length_pos (by omega))
  obtain ⟨e, hTake, hFields, ⟨error, hTurn⟩ | ⟨hExtended, p, hTurn, hState, hNeeded⟩⟩ :=
    turn_headed processor hEnough
  · exact .inl (congrArg Prod.snd (Reader.read_of_error h hGoes hTurn))
  have hNext : p.Valid := (h.turned hGoes hTurn).valid (by simp [hState])
  rw [Reader.read_of_valid h hGoes hTurn hNext]
  rcases Nat.lt_or_ge (rest.drop (getHeaderLen header - basicHeaderLength)).length
    (getPayloadSize header e) with hShort | hWhole
  · exact .inl (hNext.read_short (hNeeded ▸ hShort))
  right
  have hMasked : ((rest.drop (getHeaderLen header - basicHeaderLength)).take
      (getPayloadSize header e)).length = getPayloadSize header e := by
    rw [List.length_take, Nat.min_eq_left hWhole]
  obtain ⟨hWire, hLength⟩ := frameOf_wire hBasic hExtended hFields hMasked
  refine ⟨frameOf header e ((rest.drop (getHeaderLen header - basicHeaderLength)).take
    (getPayloadSize header e)), ?_, (rest.drop (getHeaderLen header - basicHeaderLength)).drop
    (getPayloadSize header e), ?_⟩
  · rw [hLength]
    exact getPayloadSize_lt header e
  · rw [hWire, hTake, List.cons_append, List.cons_append, List.append_assoc, List.take_append_drop,
      List.take_append_drop]

/-- From one frame to the next: the bytes start with a frame, or nothing is handed out. -/
theorem Between.read_cases (h : processor.Between) (buf : Bytes) :
    (Reader.read (.ok processor) buf).2 = [] ∨ StartsWhole buf := by
  by_cases hTwo : buf.length < basicHeaderLength
  · exact .inl (h.valid.read_short (h.needed ▸ hTwo))
  obtain ⟨b₀, b₁, rest, rfl⟩ : ∃ b₀ b₁ rest, buf = b₀ :: b₁ :: rest := by
    rcases buf with _ | ⟨b₀, _ | ⟨b₁, rest⟩⟩
    · exact absurd (Nat.succ_pos 1) hTwo
    · exact absurd (Nat.lt_succ_self 1) hTwo
    · exact ⟨b₀, b₁, rest, rfl⟩
  have hGoes : b₀ :: b₁ :: rest ≠ [] ∨ processor.bytesNeeded = 0 := .inl (List.cons_ne_nil _ _)
  have hTurn := turn_header h ⟨b₀, b₁⟩ rest
  cases hBasic : validateIncomingBasicHeader ⟨b₀, b₁⟩ processor.server processor.dataMsg.isNone with
  | some error =>
    rw [hBasic] at hTurn
    exact .inl (congrArg Prod.snd (Reader.read_of_error h.valid hGoes hTurn))
  | none =>
    rw [hBasic] at hTurn
    have hHeaded : (processor.headed ⟨b₀, b₁⟩).Valid :=
      (h.valid.turned hGoes hTurn).valid ProcessorState.noConfusion
    rw [Reader.read_of_valid h.valid hGoes hTurn hHeaded]
    exact hHeaded.read_cases_headed hBasic rest

theorem length_wire_pos (frame : WireFrame) : 0 < frame.wire.length := by
  rw [frame.wire_eq]
  exact Nat.succ_pos _

/-- The messages of any bytes are those of the whole frames at their front, all of them where there
is no error. -/
theorem Between.read_parses (h : processor.Between) (buf : Bytes) :
    ∃ (frames : List WireFrame) (rest : Bytes) (assembly : Assembly),
      buf = frames.flatMap WireFrame.wire ++ rest ∧
        (∀ frame ∈ frames, frame.payload.length < 2 ^ 64) ∧
        processor.assembly.takeAll processor.server processor.maxMessageSize frames =
          (.ok assembly, (Reader.read (.ok processor) buf).2) ∧
        ∀ p, (Reader.read (.ok processor) buf).1 = .ok p → ¬StartsWhole rest := by
  induction hLength : buf.length using Nat.strongRecOn generalizing processor buf with
  | ind n ih =>
    have hNone : (Reader.read (.ok processor) buf).2 = [] →
        (∀ p, (Reader.read (.ok processor) buf).1 = .ok p → ¬StartsWhole buf) →
        ∃ (frames : List WireFrame) (rest : Bytes) (assembly : Assembly),
          buf = frames.flatMap WireFrame.wire ++ rest ∧
            (∀ frame ∈ frames, frame.payload.length < 2 ^ 64) ∧
            processor.assembly.takeAll processor.server processor.maxMessageSize frames =
              (.ok assembly, (Reader.read (.ok processor) buf).2) ∧
            ∀ p, (Reader.read (.ok processor) buf).1 = .ok p → ¬StartsWhole rest := by
      intro hSilent hRest
      refine ⟨[], buf, processor.assembly, rfl, List.forall_mem_nil _, ?_, hRest⟩
      rw [hSilent]
      rfl
    by_cases hWhole : StartsWhole buf
    case neg =>
      exact hNone ((h.read_cases buf).resolve_right hWhole) fun _ _ => hWhole
    obtain ⟨frame, hSize, more, rfl⟩ := hWhole
    have hReads := read_wire h hSize
    have hAppend : Reader.read (.ok processor) (frame.wire ++ more) =
        ((Reader.read (Reader.read (.ok processor) frame.wire).1 more).1,
          (Reader.read (.ok processor) frame.wire).2 ++
            (Reader.read (Reader.read (.ok processor) frame.wire).1 more).2) :=
      Reader.lawful.read_append (Reader.valid_ok h.valid)
    cases hTake : processor.assembly.take processor.server processor.maxMessageSize frame with
    | error error =>
      rw [hTake] at hReads
      generalize Reader.read (.ok processor) frame.wire = first at hReads hAppend
      cases hReads
      rw [Reader.read_error] at hAppend
      refine hNone (congrArg Prod.snd hAppend) fun p hp => ?_
      rw [hAppend] at hp
      cases hp
    | ok result =>
      rw [hTake] at hReads
      generalize Reader.read (.ok processor) frame.wire = first at hReads hAppend
      cases hReads with
      | @ok p msgs hBetween hServer hMax =>
        have hShorter : more.length < n := by
          have hPos := length_wire_pos frame
          rw [← hLength, List.length_append]
          omega
        obtain ⟨frames, rest, assembly, hMore, hSizes, hTakes, hRest⟩ :=
          ih _ hShorter hBetween more rfl
        rw [hServer, hMax] at hTakes
        refine ⟨frame :: frames, rest, assembly, ?_, ?_, ?_, fun q hq => hRest q ?_⟩
        · rw [hMore, List.flatMap_cons, List.append_assoc]
        · intro frame' hFrame
          rcases List.mem_cons.mp hFrame with rfl | hFrame
          · exact hSize
          · exact hSizes frame' hFrame
        · rw [Assembly.takeAll, hTake, hAppend]
          dsimp only
          rw [hTakes]
        · rw [hAppend] at hq
          exact hq

end Hybi13

/-! ## What is handed out -/

/-- A data message within `size_t` of the limit; a text that can be completed. -/
structure WireMessage.Sound (maxMessageSize : Nat) (msg : WireMessage) : Prop where
  kind : msg.opcode = .text ∨ msg.opcode = .binary
  size : msg.payload.length % 2 ^ 64 ≤ maxMessageSize
  text : msg.opcode = .text →
    Utf8Validator.advance Utf8Validator.utf8Accept msg.payload ≠ none

namespace Assembly

variable {server : Bool} {maxMessageSize length : Nat} {assembly assembly' : Assembly}
  {frame : WireFrame} {msgs : List WireMessage}

theorem kind_of_refuse (h : refuse server assembly frame = none)
    (hData : frame.opcode.isControl = false) (hNone : assembly = none) :
    frame.opcode = .text ∨ frame.opcode = .binary := by
  have hKinds : ∀ op : Opcode, op.isControl = false → op.reserved = false → op ≠ .continuation →
      op = .text ∨ op = .binary := by
    intro op
    cases op <;> decide
  subst hNone
  obtain ⟨-, h⟩ := Hybi13.passed_of_ite h
  obtain ⟨hReserved, h⟩ := Hybi13.passed_of_ite h
  obtain ⟨-, h⟩ := Hybi13.passed_of_ite h
  obtain ⟨hContinues, -⟩ := Hybi13.passed_of_ite h
  refine hKinds _ hData (Bool.eq_false_iff.mpr hReserved) fun hContinuation => ?_
  exact hContinues ⟨rfl, hContinuation⟩

/-- What a frame leaves and hands out is sound, and no longer than what came. -/
theorem take_sound (h : assembly.take server maxMessageSize frame = .ok (assembly', msgs))
    (hSound : ∀ msg ∈ assembly, msg.Sound maxMessageSize ∧ msg.payload.length ≤ length) :
    (∀ msg ∈ assembly', msg.Sound maxMessageSize ∧
        msg.payload.length ≤ length + frame.payload.length) ∧
      ∀ msg ∈ msgs, msg.opcode.isControl = false →
        msg.Sound maxMessageSize ∧ msg.payload.length ≤ length + frame.payload.length := by
  rw [take] at h
  cases hRefuse : refuse server assembly frame with
  | some error =>
    rw [hRefuse] at h
    cases h
  | none =>
    rw [hRefuse] at h
    dsimp only at h
    by_cases hControl : frame.opcode.isControl = true
    · rw [if_pos hControl] at h
      cases h
      refine ⟨fun msg hMsg => ?_, fun msg hMsg hData => ?_⟩
      · obtain ⟨hGood, hLength⟩ := hSound msg hMsg
        exact ⟨hGood, Nat.le_trans hLength (Nat.le_add_right _ _)⟩
      · cases List.mem_singleton.mp hMsg
        exact absurd hControl (Bool.eq_false_iff.mp hData)
    · have hData := Bool.eq_false_iff.mpr hControl
      rw [if_neg hControl, takeData] at h
      have hKind : (extend assembly frame).opcode = .text ∨
          (extend assembly frame).opcode = .binary := by
        cases assembly with
        | none => exact kind_of_refuse hRefuse hData rfl
        | some msg => exact (hSound msg rfl).1.kind
      have hLength : (extend assembly frame).payload.length ≤ length + frame.payload.length := by
        rw [extend, List.length_append]
        cases assembly with
        | none => exact Nat.add_le_add_right (Nat.zero_le _) _
        | some msg => exact Nat.add_le_add_right (hSound msg rfl).2 _
      split_ifs at h with hBig hReject hPart hIncomplete
      all_goals
        have hExtend : (extend assembly frame).Sound maxMessageSize :=
          ⟨hKind, Nat.le_of_not_lt hBig, fun hText hNone => hReject ⟨hText, hNone⟩⟩
        cases h
      · refine ⟨fun msg hMsg => ?_, List.forall_mem_nil _⟩
        cases hMsg
        exact ⟨hExtend, hLength⟩
      · refine ⟨fun _ h => (by cases h), fun msg hMsg _ => ?_⟩
        cases List.mem_singleton.mp hMsg
        exact ⟨hExtend, hLength⟩

theorem takeAll_sound {frames : List WireFrame} {result : Except ProcessorError Assembly}
    (h : takeAll server maxMessageSize assembly frames = (result, msgs))
    (hSound : ∀ msg ∈ assembly, msg.Sound maxMessageSize ∧ msg.payload.length ≤ length) :
    ∀ msg ∈ msgs, msg.opcode.isControl = false → msg.Sound maxMessageSize ∧
      msg.payload.length ≤ length + (frames.flatMap WireFrame.wire).length := by
  induction frames generalizing assembly msgs length with
  | nil =>
    cases h
    exact List.forall_mem_nil _
  | cons frame frames ih =>
    have hFrame : frame.payload.length ≤ frame.wire.length := by
      rw [frame.wire_eq, List.length_cons, List.length_cons, List.length_append,
        frame.length_wirePayload]
      omega
    rw [takeAll] at h
    cases hTake : assembly.take server maxMessageSize frame with
    | error error =>
      rw [hTake] at h
      cases h
      exact List.forall_mem_nil _
    | ok first =>
      rw [hTake] at h
      obtain ⟨hResult, rfl⟩ := Prod.mk.inj h
      obtain ⟨hNext, hFirst⟩ := take_sound hTake hSound
      rw [List.flatMap_cons, List.length_append]
      intro msg hMsg hData
      rcases List.mem_append.mp hMsg with hMsg | hMsg
      · obtain ⟨hGood, hLength⟩ := hFirst msg hMsg hData
        exact ⟨hGood, by omega⟩
      · obtain ⟨hGood, hLength⟩ := ih (Prod.ext hResult rfl) hNext msg hMsg hData
        exact ⟨hGood, by omega⟩

end Assembly

end ScRedirection.Websocketpp
