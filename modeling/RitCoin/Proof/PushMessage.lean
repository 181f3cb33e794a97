import RitCoin.Proof.ProcessMessages

/-!
# Completed messages arrive

What is on the wire and in `vSend` is the messages that were completed, one after the other, and a receiver
that starts at a message start never loses its place.
-/

namespace RitCoin.Proof
open Lib Model Spec CMessageHeader
variable {pszCommand : List UInt8} {m : RawMessage}

theorem length_serialize_header {hdr : CMessageHeader} (start : hdr.pchMessageStart.length = 4)
    (command : hdr.pchCommand.length = COMMAND_SIZE) : hdr.serialize.length = nHeaderSize := by
  simp only [serialize, List.length_append, length_leBytes, start, command]
  rfl

theorem ofNat_ofLe_leBytes (n : UInt32) : UInt32.ofNat (ofLe (leBytes 4 n.toNat)) = n := by
  rw [ofLe_leBytes n.toNat_lt, UInt32.ofNat_toNat]

theorem headerOf_serialize {hdr : CMessageHeader} (start : hdr.pchMessageStart.length = 4)
    (command : hdr.pchCommand.length = COMMAND_SIZE) (rest : List UInt8) :
    headerOf (hdr.serialize ++ rest) = hdr := by
  have after4 : hdr.serialize.drop 4 = hdr.pchCommand ++ (leBytes 4 hdr.nMessageSize.toNat ++
      leBytes 4 hdr.nChecksum.toNat) := List.drop_left' start
  have after16 : hdr.serialize.drop 16 = leBytes 4 hdr.nMessageSize.toNat ++ leBytes 4 hdr.nChecksum.toNat := by
    rw [← List.drop_drop (i := 12) (j := 4), after4]
    exact List.drop_left' command
  have after20 : hdr.serialize.drop 20 = leBytes 4 hdr.nChecksum.toNat := by
    rw [← List.drop_drop (i := 4) (j := 16), after16, List.drop_left' (length_leBytes 4 _)]
  have front : hdr.serialize.take 4 = hdr.pchMessageStart := List.take_left' start
  rw [headerOf_append (length_serialize_header start command).ge, headerOf, after4, after16, after20, front,
    List.take_left' command, List.take_left' (length_leBytes 4 _),
    List.take_of_length_le (length_leBytes 4 _).le, ofNat_ofLe_leBytes, ofNat_ofLe_leBytes]

theorem new_pchCommand (short : pszCommand.length ≤ COMMAND_SIZE) (n : UInt32) :
    (CMessageHeader.new pszCommand n).pchCommand =
      pszCommand ++ List.replicate (COMMAND_SIZE - pszCommand.length) 0 := by
  change (pszCommand ++ List.replicate COMMAND_SIZE 0).take COMMAND_SIZE = _
  rw [List.take_append, List.take_of_length_le short, List.take_replicate, Nat.min_eq_left (Nat.sub_le _ _)]

theorem length_new_pchCommand (pszCommand : List UInt8) (n : UInt32) :
    (CMessageHeader.new pszCommand n).pchCommand.length = COMMAND_SIZE := by
  change ((pszCommand ++ List.replicate COMMAND_SIZE 0).take COMMAND_SIZE).length = _
  rw [List.length_take_of_le (by rw [List.length_append, List.length_replicate]; exact Nat.le_add_left _ _)]

theorem commandValid_padded : ∀ {pszCommand : List UInt8}, (∀ c ∈ pszCommand, 0x20 ≤ c ∧ c ≤ 0x7e) →
    ∀ zeros : ℕ, commandValid (pszCommand ++ List.replicate zeros 0) = true := by
  intro pszCommand
  induction pszCommand with
  | nil =>
    intro _ zeros
    cases zeros with
    | zero => rfl
    | succ zeros => simp [List.replicate_succ, commandValid]
  | cons c rest ih =>
    intro printable zeros
    rw [List.forall_mem_cons] at printable
    obtain ⟨⟨low, high⟩, others⟩ := printable
    have nonzero : c ≠ 0 := by
      rintro rfl
      exact absurd low (by decide)
    have range : ¬ (c < 0x20 ∨ c > 0x7e) := not_or.mpr ⟨UInt8.not_lt.mpr low, UInt8.not_lt.mpr high⟩
    rw [List.cons_append, commandValid, if_neg nonzero, if_neg range]
    exact ih others zeros

theorem getCommand_new (sendable : Sendable m) (hdr : CMessageHeader) (n : UInt32)
    (command : hdr.pchCommand = (CMessageHeader.new m.strCommand n).pchCommand) :
    hdr.getCommand = m.strCommand := by
  have nonzero : ∀ c ∈ m.strCommand, c ≠ 0 := by
    rintro c member rfl
    exact absurd (sendable.printable 0 member).1 (by decide)
  rw [new_pchCommand sendable.command] at command
  rw [getCommand, command]
  rcases sendable.command.lt_or_eq with shorter | full
  · obtain ⟨zeros, h⟩ : ∃ zeros, COMMAND_SIZE - m.strCommand.length = zeros + 1 :=
      Nat.exists_eq_add_one_of_ne_zero (Nat.sub_ne_zero_of_lt shorter)
    have last : (m.strCommand ++ List.replicate (COMMAND_SIZE - m.strCommand.length) 0)[COMMAND_SIZE - 1]? =
        some 0 := by
      rw [List.getElem?_append_right (Nat.le_sub_one_of_lt shorter), List.getElem?_replicate_of_lt (by omega)]
    rw [if_pos last, h, List.replicate_succ, List.takeWhile_append_of_pos (by simpa using nonzero),
      List.takeWhile_cons_of_neg (by simp), List.append_nil]
  · rw [full, Nat.sub_self, List.replicate_zero, List.append_nil, if_neg]
    intro last
    exact nonzero 0 (List.mem_of_getElem? last) rfl

section Frames
variable {hash : List UInt8 → Uint256} {s t : Sender} {written payload : List UInt8} {messages : List RawMessage}
variable (hash) in
theorem length_frameHeader_pchCommand (m : RawMessage) : (frameHeader hash m).pchCommand.length = COMMAND_SIZE :=
  length_new_pchCommand m.strCommand (UInt32.ofNat m.vMsg.length)

variable (hash) in
theorem length_frameHeader (m : RawMessage) : (frameHeader hash m).serialize.length = nHeaderSize :=
  length_serialize_header rfl (length_frameHeader_pchCommand hash m)

theorem length_frame (m : RawMessage) : (frame hash m).length = nHeaderSize + m.vMsg.length := by
  rw [frame, List.length_append, length_frameHeader]

theorem frameHeader_nMessageSize (sendable : Sendable m) :
    (frameHeader hash m).nMessageSize.toNat = m.vMsg.length := by
  have small : m.vMsg.length < 2 ^ 32 := sendable.payload.trans_lt (by decide)
  exact (UInt32.toNat_ofNat' ..).trans (Nat.mod_eq_of_lt small)

theorem isValid_frameHeader (sendable : Sendable m) : (frameHeader hash m).isValid = true := by
  have command : commandValid (frameHeader hash m).pchCommand = true := by
    change commandValid (CMessageHeader.new m.strCommand (UInt32.ofNat m.vMsg.length)).pchCommand = true
    rw [new_pchCommand sendable.command, commandValid_padded sendable.printable]
  rw [isValid, command, frameHeader_nMessageSize sendable, decide_eq_true sendable.payload]
  rfl

theorem step_frame (sendable : Sendable m) (rest : List UInt8) :
    (frames hash).step (frame hash m ++ rest) = some (some m, rest) := by
  have bytes : frame hash m ++ rest = (frameHeader hash m).serialize ++ (m.vMsg ++ rest) :=
    List.append_assoc ..
  have header : headerOf ((frameHeader hash m).serialize ++ (m.vMsg ++ rest)) = frameHeader hash m :=
    headerOf_serialize rfl (length_frameHeader_pchCommand hash m) _
  have here : fromStart (frame hash m ++ rest) = frame hash m ++ rest := by
    have first : Model.pchMessageStart <+: frame hash m ++ rest := by
      rw [bytes, serialize, List.append_assoc]
      exact List.prefix_append _ _
    rw [fromStart, search_eq_zero first, List.drop_zero]
  have length := length_frameHeader hash m
  have sum : checksum hash m.vMsg = (frameHeader hash m).nChecksum := rfl
  change takeFrame hash (fromStart (frame hash m ++ rest)) = _
  rw [here, bytes]
  dsimp only [takeFrame]
  rw [header, List.drop_left' length, frameHeader_nMessageSize sendable, List.take_left' rfl, List.drop_left' rfl,
    if_neg (by rw [List.length_append, length]; omega), if_neg (not_not_intro (isValid_frameHeader sendable)),
    if_neg (by rw [List.length_append]; omega), if_neg (not_not_intro sum),
    getCommand_new sendable (frameHeader hash m) (UInt32.ofNat m.vMsg.length) rfl]

theorem run_frames : ∀ {messages : List RawMessage}, (∀ m ∈ messages, Sendable m) →
    (frames hash).run (messages.flatMap (frame hash)) = (messages, []) := by
  intro messages
  induction messages with
  | nil => exact fun _ => Framer.run_wait rfl
  | cons m messages ih =>
    intro sendable
    rw [List.forall_mem_cons] at sendable
    rw [List.flatMap_cons, Framer.run_step (step_frame sendable.1 _), ih sendable.2]
    rfl

structure Idle (s : Sender) : Prop where
  nHeaderStart : s.nHeaderStart = -1
  unlocked : s.csVSend = 0
  small : s.vSend.vch.length < 2 ^ 32

structure Building (s : Sender) (pszCommand written : List UInt8) (t : Sender) : Prop where
  vSend : t.vSend = (s.vSend.write (CMessageHeader.new pszCommand 0).serialize).write written
  nHeaderStart : t.nHeaderStart = Int32.ofNat s.vSend.size
  nMessageStart : t.nMessageStart = UInt32.ofNat (s.vSend.size + nHeaderSize)
  room : s.vSend.size + nHeaderSize < 2 ^ 31
  locked : t.csVSend = 1
  wire : t.wire = s.wire

structure Appended (s : Sender) (bytes : List UInt8) (t : Sender) : Prop where
  bytes : t.vSend.bytes = s.vSend.bytes ++ bytes
  nReadPos : t.vSend.nReadPos = s.vSend.nReadPos
  nHeaderStart : t.nHeaderStart = -1
  unlocked : t.csVSend = 0
  wire : t.wire = s.wire

theorem vch_length (s : CDataStream) : s.vch.length = s.nReadPos.toNat + s.bytes.length := by
  have inside := s.inside
  rw [CDataStream.length_bytes, CDataStream.size]
  omega

theorem Appended.vch {bytes : List UInt8} (is : Appended s bytes t) :
    t.vSend.vch.length = s.vSend.vch.length + bytes.length := by
  rw [vch_length, vch_length, is.bytes, is.nReadPos, List.length_append, Nat.add_assoc]

theorem length_new_serialize (pszCommand : List UInt8) :
    (CMessageHeader.new pszCommand 0).serialize.length = nHeaderSize :=
  length_serialize_header rfl (length_new_pchCommand _ _)

theorem building_of_begin (idle : Idle s) (pszCommand written : List UInt8)
    (room : s.vSend.size + nHeaderSize < 2 ^ 31) :
    Building s pszCommand written
      { s.beginMessage pszCommand with vSend := (s.beginMessage pszCommand).vSend.write written } := by
  have begun : s.beginMessage pszCommand =
      { s with
        csVSend := s.csVSend + 1
        vSend := s.vSend.write (CMessageHeader.new pszCommand 0).serialize
        nHeaderStart := Int32.ofNat s.vSend.size
        nMessageStart := UInt32.ofNat (s.vSend.size + nHeaderSize) } := by
    rw [Sender.beginMessage, if_neg (not_not_intro idle.nHeaderStart)]
    dsimp only
    rw [← CDataStream.length_bytes (s.vSend.write _), CDataStream.bytes_write, List.length_append,
      length_new_serialize, CDataStream.length_bytes]
  rw [begun]
  constructor
  · rfl
  · rfl
  · rfl
  · exact room
  · exact congrArg (· + 1) idle.unlocked
  · rfl

namespace Building
variable {s t : Sender} {pszCommand written : List UInt8} (is : Building s pszCommand written t)
include is

theorem bytes : t.vSend.bytes = s.vSend.bytes ++ ((CMessageHeader.new pszCommand 0).serialize ++ written) := by
  rw [is.vSend, CDataStream.bytes_write, CDataStream.bytes_write, List.append_assoc]

theorem size : t.vSend.size = s.vSend.size + nHeaderSize + written.length := by
  rw [← CDataStream.length_bytes, is.bytes, List.length_append, List.length_append, length_new_serialize,
    CDataStream.length_bytes, Nat.add_assoc]

theorem nHeaderStart_toInt : t.nHeaderStart.toInt = s.vSend.size := by
  have room := is.room
  rw [is.nHeaderStart, Int32.toInt_ofNat_of_lt (by omega)]

theorem nHeaderStart_toNat : t.nHeaderStart.toInt.toNat = s.vSend.size := by
  rw [is.nHeaderStart_toInt, Int.toNat_natCast]

theorem not_neg : ¬ t.nHeaderStart < 0 := by
  rw [Int32.lt_iff_toInt_lt, is.nHeaderStart_toInt]
  exact Int.not_lt.mpr (Int.natCast_nonneg _)

theorem nMessageStart_toNat : t.nMessageStart.toNat = s.vSend.size + nHeaderSize := by
  have room := is.room
  rw [is.nMessageStart, UInt32.toNat_ofNat', Nat.mod_eq_of_lt (by omega)]

theorem nSize (small : written.length < 2 ^ 32) :
    UInt32.ofInt (t.vSend.size - t.nMessageStart.toNat) = UInt32.ofNat written.length := by
  rw [is.nMessageStart_toNat, is.size, UInt32.ofInt]
  congr 1
  omega

theorem gap : (t.nMessageStart - t.nHeaderStart.toUInt32).toNat = nHeaderSize := by
  have room := is.room
  have start : t.nHeaderStart.toUInt32.toNat = s.vSend.size := by
    rw [is.nHeaderStart, Int32.toUInt32_ofNat', UInt32.toNat_ofNat', Nat.mod_eq_of_lt (by omega)]
  have message := is.nMessageStart_toNat
  rw [UInt32.toNat_sub_of_le _ _ (by rw [UInt32.le_iff_toNat_le]; omega), start, message]
  omega

end Building

theorem abortMessage_building (is : Building s pszCommand written t) : Appended s [] t.abortMessage := by
  rw [Sender.abortMessage, if_neg is.not_neg]
  constructor
  · change (t.vSend.resize t.nHeaderStart.toInt.toNat).bytes = _
    have size := is.size
    rw [CDataStream.bytes_resize, is.nHeaderStart_toNat, is.bytes, List.take_left' s.vSend.length_bytes,
      Nat.sub_eq_zero_of_le (by omega)]
    rfl
  · change t.vSend.nReadPos = _
    rw [is.vSend]
    rfl
  · rfl
  · exact congrArg (· - 1) is.locked
  · exact is.wire

theorem overwrite_part {s : CDataStream} {front part part' rest : List UInt8} {pos : ℕ}
    (bytes : s.bytes = front ++ (part ++ rest)) (length : part'.length = part.length) (here : pos = front.length) :
    ∃ after, s.overwrite pos part' = .ok after ∧ after.bytes = front ++ (part' ++ rest) ∧
      after.nReadPos = s.nReadPos := by
  subst here
  have fits : front.length + part'.length ≤ s.size := by
    rw [← CDataStream.length_bytes, bytes, List.length_append, List.length_append]
    omega
  obtain ⟨after, write, result, position, -⟩ := CDataStream.overwrite_ok fits
  refine ⟨after, write, ?_, position⟩
  rw [result, bytes, List.take_left' rfl, length, ← List.drop_drop, List.drop_left' rfl, List.drop_left' rfl]

variable (hash) in
theorem endMessage_building (is : Building s pszCommand written t) (small : written.length < 2 ^ 32) :
    ∃ after, t.endMessage hash false = .ok after ∧ Appended s (frame hash ⟨pszCommand, written⟩) after := by
  obtain ⟨lead, isLead⟩ : ∃ lead, lead = s.vSend.bytes ++ (Model.pchMessageStart ++
    (CMessageHeader.new pszCommand 0).pchCommand) := ⟨_, rfl⟩
  have bytes : t.vSend.bytes = lead ++ (leBytes 4 0 ++ (leBytes 4 0 ++ written)) := by
    rw [is.bytes, isLead, serialize]
    simp only [List.append_assoc]
    rfl
  have length : s.vSend.size + MESSAGE_SIZE_OFFSET = lead.length := by
    rw [isLead, List.length_append, List.length_append, CDataStream.length_bytes, length_new_pchCommand]
    rfl
  have width : ∀ n : ℕ, (leBytes 4 n).length = (leBytes 4 0).length :=
    fun n => (length_leBytes 4 n).trans (length_leBytes 4 0).symm
  obtain ⟨sized, write, bytes₁, position₁⟩ :=
    overwrite_part bytes (width (UInt32.ofNat written.length).toNat) length
  rw [← List.append_assoc] at bytes₁
  have length₁ : s.vSend.size + CHECKSUM_OFFSET =
      (lead ++ leBytes 4 (UInt32.ofNat written.length).toNat).length := by
    rw [List.length_append, length_leBytes, ← length]
    rfl
  -- the checksum is taken after the size is written, and of the payload only
  have front : (lead ++ leBytes 4 (UInt32.ofNat written.length).toNat ++ leBytes 4 0).length =
      s.vSend.size + nHeaderSize := by
    rw [List.length_append, ← length₁, length_leBytes]
    rfl
  have payload : sized.bytes.drop (s.vSend.size + nHeaderSize) = written := by
    rw [bytes₁, ← List.append_assoc, List.drop_left' front]
  have inside : s.vSend.size + nHeaderSize ≤ sized.size := by
    rw [← CDataStream.length_bytes sized, bytes₁, ← List.append_assoc, List.length_append, front]
    exact Nat.le_add_right _ _
  obtain ⟨summed, write₁, bytes₂, position₂⟩ :=
    overwrite_part bytes₁ (width (checksum hash written).toNat) length₁
  let final : Sender :=
    { t with vSend := summed, nHeaderStart := -1, nMessageStart := -1, csVSend := t.csVSend - 1 }
  refine ⟨final, ?_, ?_⟩
  · rw [Sender.endMessage, if_neg Bool.false_ne_true, if_neg is.not_neg]
    dsimp only
    rw [is.nHeaderStart_toNat, is.nSize small, is.nMessageStart_toNat, is.gap]
    refine bind_eq_ok.mpr ⟨sized, write, seq_eq_ok.mpr ⟨failIf_of_not inside.not_gt, ?_⟩⟩
    refine seq_eq_ok.mpr ⟨failIf_of_not (by decide), bind_eq_ok.mpr ⟨summed, ?_, rfl⟩⟩
    rw [payload]
    exact write₁
  · constructor
    · change summed.bytes = _
      rw [bytes₂, isLead, frame, serialize]
      simp only [List.append_assoc]
      rfl
    · change summed.nReadPos = _
      rw [position₂, position₁, is.vSend]
      rfl
    · rfl
    · exact congrArg (· - 1) is.locked
    · exact is.wire

variable (hash) in
theorem pushMessage_ok (idle : Idle s) {ending : Ending} (room : Room s (.pushMessage pszCommand written ending)) :
    ∃ after, s.pushMessage hash pszCommand written ending = .ok after ∧
      Appended s ((completed (.pushMessage pszCommand written ending)).toList.flatMap (frame hash)) after := by
  have building := building_of_begin idle pszCommand written room.1
  match ending with
  | .thrown => exact ⟨_, rfl, abortMessage_building building⟩
  | .ended true => exact ⟨_, rfl, abortMessage_building building⟩
  | .ended false =>
    have small : written.length < 2 ^ 32 := by
      have := room.2
      omega
    obtain ⟨after, run, is⟩ := endMessage_building hash building small
    refine ⟨after, run, ?_⟩
    change Appended s (frame hash ⟨pszCommand, written⟩ ++ []) after
    rwa [List.append_nil]

variable (hash) in
theorem length_completed_le (pszCommand written : List UInt8) (ending : Ending) :
    ((completed (.pushMessage pszCommand written ending)).toList.flatMap (frame hash)).length ≤
      nHeaderSize + written.length := by
  match ending with
  | .thrown => exact Nat.zero_le _
  | .ended true => exact Nat.zero_le _
  | .ended false =>
    change (frame hash ⟨pszCommand, written⟩ ++ []).length ≤ _
    rw [List.append_nil, length_frame]

structure Conveys (hash : List UInt8 → Uint256) (s : Sender) (messages : List RawMessage) : Prop where
  idle : Idle s
  stream : s.wire ++ s.vSend.bytes = messages.flatMap (frame hash)

theorem idle_start : Idle .start := ⟨rfl, rfl, by decide⟩

theorem conveys_start : Conveys hash .start [] := ⟨idle_start, rfl⟩

theorem Conveys.socketSend (conveys : Conveys hash s messages) (nBytes : ℕ) :
    Conveys hash (s.socketSend nBytes) messages := by
  obtain ⟨idle, stream⟩ := conveys
  rw [Sender.socketSend]
  split_ifs
  · exact ⟨idle, stream⟩
  · have small := (s.vSend.length_vch_eraseFront nBytes).trans_lt idle.small
    refine ⟨⟨idle.nHeaderStart, idle.unlocked, small⟩, ?_⟩
    change s.wire ++ s.vSend.bytes.take nBytes ++ (s.vSend.eraseFront nBytes).bytes = _
    rw [CDataStream.bytes_eraseFront idle.small, List.append_assoc, List.take_append_drop, stream]

theorem Conveys.step (conveys : Conveys hash s messages) {event : SendEvent} (room : Room s event) :
    ∃ after, s.step hash event = .ok after ∧ Conveys hash after (messages ++ (completed event).toList) := by
  cases event with
  | socketSend nBytes =>
    refine ⟨_, rfl, ?_⟩
    change Conveys hash (s.socketSend nBytes) (messages ++ [])
    rw [List.append_nil]
    exact conveys.socketSend nBytes
  | pushMessage pszCommand written ending =>
    obtain ⟨after, run, is⟩ := pushMessage_ok hash conveys.idle room
    refine ⟨after, run, ⟨is.nHeaderStart, is.unlocked, ?_⟩, ?_⟩
    · have length := length_completed_le hash pszCommand written ending
      have fits := room.2
      rw [is.vch]
      omega
    · rw [is.wire, is.bytes, ← List.append_assoc, conveys.stream, List.flatMap_append]

theorem Conveys.run : ∀ {events : List SendEvent} {s : Sender} {messages : List RawMessage},
    Conveys hash s messages → RoomThroughout hash s events →
    ∃ after, s.run hash events = .ok after ∧ Conveys hash after (messages ++ events.filterMap completed) := by
  intro events
  induction events with
  | nil =>
    intro s messages conveys _
    exact ⟨s, rfl, by rwa [List.filterMap_nil, List.append_nil]⟩
  | cons event events ih =>
    intro s messages conveys room
    obtain ⟨next, step, conveys'⟩ := conveys.step room.1
    have room' := room.2
    rw [step] at room'
    obtain ⟨after, run, conveyed⟩ := ih conveys' room'
    refine ⟨after, ?_, ?_⟩
    · rw [Sender.run_cons, step]
      exact run
    · rw [List.append_assoc] at conveyed
      cases h : completed event <;> simpa [List.filterMap_cons, h] using conveyed

theorem Conveys.drained (conveys : Conveys hash s messages) :
    (s.socketSend s.vSend.size).wire = messages.flatMap (frame hash) := by
  rw [Sender.socketSend]
  split_ifs with blocked
  · have empty : s.vSend.bytes = [] := by
      rcases blocked with locked | empty
      · exact absurd conveys.idle.unlocked locked
      · exact List.eq_nil_of_length_eq_zero (by rwa [CDataStream.length_bytes])
    rw [← conveys.stream, empty, List.append_nil]
  · change s.wire ++ s.vSend.bytes.take s.vSend.size = _
    rw [List.take_of_length_le s.vSend.length_bytes.le, conveys.stream]

theorem pushed_of_completed {event : SendEvent} (h : completed event = some m) : pushed event = some m := by
  match event with
  | .pushMessage _ _ (.ended false) => exact h
  | .pushMessage _ _ (.ended true) => cases h
  | .pushMessage _ _ .thrown => cases h
  | .socketSend _ => cases h

theorem completed_messages_dispatched (hash : List UInt8 → Uint256) (nReceiveBufferSize : UInt32)
    (events : List SendEvent) (sendable : ∀ m ∈ events.filterMap pushed, Sendable m)
    (room : RoomThroughout hash .start events) :
    ∃ sender, Sender.start.run hash events = .ok sender ∧
      ∀ chunks : List (List UInt8), chunks.flatten = (sender.socketSend sender.vSend.size).wire →
        (∀ chunk ∈ chunks, chunk.length ≤ pchBufSize) →
        receiveChunks hash nReceiveBufferSize .clear chunks ≠ .error floodControl →
        ∃ after, receiveChunks hash nReceiveBufferSize .clear chunks = .ok (events.filterMap completed, after) := by
  obtain ⟨sender, run, conveys⟩ := conveys_start.run room
  rw [List.nil_append] at conveys
  refine ⟨sender, run, ?_⟩
  intro chunks stream chunked calm
  obtain ⟨after, received⟩ := receiveChunks_frames chunked calm
  have sendable' : ∀ m ∈ events.filterMap completed, Sendable m := by
    intro m member
    obtain ⟨event, here, h⟩ := List.mem_filterMap.mp member
    exact sendable m (List.mem_filterMap.mpr ⟨event, here, pushed_of_completed h⟩)
  rw [stream, conveys.drained, run_frames sendable'] at received
  exact ⟨after, received⟩

def smallTraffic : List SendEvent :=
  [.pushMessage [0x70, 0x69, 0x6e, 0x67] Model.pchMessageStart (.ended false), .socketSend 9,
    .pushMessage [0x74, 0x78] [1] .thrown, .pushMessage [0x76, 0x65, 0x72, 0x61, 0x63, 0x6b] [] (.ended true),
    .socketSend 10, .pushMessage [0x69, 0x6e, 0x76] [1, 2] (.ended false)]

theorem smallTraffic_dispatched :
    ∃ sender chunks after, Sender.start.run (fun _ => 7) smallTraffic = .ok sender ∧
      chunks.flatten = (sender.socketSend sender.vSend.size).wire ∧
      receiveChunks (fun _ => 7) 1000 .clear chunks = .ok (smallTraffic.filterMap completed, after) := by
  obtain ⟨sender, run, dispatch⟩ :=
    completed_messages_dispatched (fun _ => 7) 1000 smallTraffic (by decide +kernel) (by decide +kernel)
  have wire : (Sender.start.run (fun _ => 7) smallTraffic).map (fun s => (s.socketSend s.vSend.size).wire) =
      .ok ((smallTraffic.filterMap completed).flatMap (frame fun _ => 7)) := by
    decide +kernel
  rw [run] at wire
  have stream : [(smallTraffic.filterMap completed).flatMap (frame fun _ => 7)].flatten =
      (sender.socketSend sender.vSend.size).wire :=
    (List.append_nil _).trans (Except.ok.inj wire).symm
  obtain ⟨after, received⟩ := dispatch _ stream (by decide +kernel) (by decide +kernel)
  exact ⟨sender, _, after, run, stream, received⟩

theorem pushMessage_stuck (hash : List UInt8 → Uint256) (idle : Idle s) (large : Int32.ofNat s.vSend.size < 0)
    (pszCommand written : List UInt8) :
    ∃ after, s.pushMessage hash pszCommand written (.ended false) = .ok after ∧
      ∀ nBytes, after.socketSend nBytes = after ∧ after.wire = s.wire := by
  let begun := s.beginMessage pszCommand
  have start : begun.nHeaderStart = Int32.ofNat s.vSend.size ∧ begun.csVSend = 1 ∧ begun.wire = s.wire := by
    dsimp only [begun]
    rw [Sender.beginMessage, if_neg (not_not_intro idle.nHeaderStart)]
    exact ⟨rfl, congrArg (· + 1) idle.unlocked, rfl⟩
  refine ⟨{ begun with vSend := begun.vSend.write written }, ?_, fun nBytes => ⟨?_, start.2.2⟩⟩
  · change Sender.endMessage hash false { begun with vSend := begun.vSend.write written } = _
    rw [Sender.endMessage, if_neg Bool.false_ne_true, if_pos (by rw [start.1]; exact large)]
    rfl
  · rw [Sender.socketSend, if_pos (.inl (by rw [start.2.1]; exact one_ne_zero))]

theorem run_replicate (small : payload.length < 2 ^ 31) :
    ∀ (k : ℕ) {s : Sender}, Idle s →
      s.vSend.vch.length + k * (nHeaderSize + payload.length) < 2 ^ 31 + payload.length →
      ∃ after, s.run hash (List.replicate k (.pushMessage pszCommand payload (.ended false))) = .ok after ∧
        Idle after ∧ after.vSend.nReadPos = s.vSend.nReadPos ∧ after.wire = s.wire ∧
        after.vSend.vch.length = s.vSend.vch.length + k * (nHeaderSize + payload.length) := by
  intro k
  induction k with
  | zero => exact fun {s} idle _ => ⟨s, rfl, idle, rfl, rfl, by rw [Nat.zero_mul, Nat.add_zero]⟩
  | succ k ih =>
    intro s idle bound
    rw [Nat.succ_mul] at bound ⊢
    have inside := s.vSend.inside
    have room : Room s (.pushMessage pszCommand payload (.ended false)) := by
      constructor
      · rw [CDataStream.size]
        omega
      · omega
    obtain ⟨next, push, is⟩ := pushMessage_ok hash idle room
    have length : next.vSend.vch.length = s.vSend.vch.length + (nHeaderSize + payload.length) := by
      rw [is.vch]
      change s.vSend.vch.length + (frame hash ⟨pszCommand, payload⟩ ++ []).length = _
      rw [List.append_nil, length_frame]
    have idle' : Idle next := ⟨is.nHeaderStart, is.unlocked, by omega⟩
    obtain ⟨after, run, idle'', position, wire, total⟩ := ih idle' (by omega)
    refine ⟨after, ?_, idle'', position.trans is.nReadPos, wire.trans is.wire, by omega⟩
    rw [List.replicate_succ, Sender.run_cons, Sender.step, push]
    exact run

def overfull (payload : List UInt8) : List SendEvent :=
  List.replicate 64 (.pushMessage [0x74, 0x78] payload (.ended false)) ++
    [.pushMessage [0x70, 0x69, 0x6e, 0x67] [] (.ended false)]

theorem run_overfull (length : payload.length = MAX_SIZE) :
    ∃ sender, Sender.start.run hash (overfull payload) = .ok sender ∧
      (sender.socketSend sender.vSend.size).wire = [] := by
  have bound : Sender.start.vSend.vch.length + 64 * (nHeaderSize + payload.length) < 2 ^ 31 + payload.length := by
    rw [length]
    decide
  obtain ⟨full, fill, idle, position, wire, total⟩ :=
    run_replicate (by rw [length]; decide) 64 idle_start bound
  have size : full.vSend.size = 64 * (nHeaderSize + MAX_SIZE) := by
    rw [CDataStream.size, total, position, length]
    rfl
  obtain ⟨sender, push, stuck⟩ :=
    pushMessage_stuck hash idle (by rw [size]; decide) [0x70, 0x69, 0x6e, 0x67] []
  refine ⟨sender, ?_, ?_⟩
  · rw [overfull, Sender.run_append, fill]
    change full.run hash [_] = _
    rw [Sender.run_cons, Sender.step, push]
    rfl
  · rw [(stuck _).1, (stuck 0).2, wire]
    rfl

theorem sendable_overfull (length : payload.length = MAX_SIZE) :
    ∀ m ∈ (overfull payload).filterMap pushed, Sendable m := by
  have each : ∀ event ∈ overfull payload, ∀ m, pushed event = some m → Sendable m := by
    intro event member m h
    rw [overfull, List.mem_append, List.mem_replicate, List.mem_singleton] at member
    rcases member with ⟨-, rfl⟩ | rfl
    · have command : ([0x74, 0x78] : List UInt8).length ≤ COMMAND_SIZE := by decide
      have printable : ∀ c ∈ ([0x74, 0x78] : List UInt8), 0x20 ≤ c ∧ c ≤ 0x7e := by decide +kernel
      cases h
      exact ⟨command, printable, length.le⟩
    · cases h
      exact ⟨by decide, by decide +kernel, Nat.zero_le _⟩
  intro m member
  obtain ⟨event, here, h⟩ := List.mem_filterMap.mp member
  exact each event here m h

theorem overfull_not_dispatched :
    ∃ (events : List SendEvent) (sender : Sender) (chunks : List (List UInt8)) (messages : List RawMessage)
      (after : CDataStream),
      (∀ m ∈ events.filterMap pushed, Sendable m) ∧ Sender.start.run (fun _ => 0) events = .ok sender ∧
      chunks.flatten = (sender.socketSend sender.vSend.size).wire ∧
      receiveChunks (fun _ => 0) 1000 .clear chunks = .ok (messages, after) ∧
      messages ≠ events.filterMap completed := by
  have length : (List.replicate MAX_SIZE (0 : UInt8)).length = MAX_SIZE := List.length_replicate
  generalize List.replicate MAX_SIZE (0 : UInt8) = payload at length
  obtain ⟨sender, run, wire⟩ := run_overfull length
  refine ⟨overfull payload, sender, [], [], .clear, sendable_overfull length, run, wire.symm, rfl, ?_⟩
  intro none
  have last : (⟨[0x70, 0x69, 0x6e, 0x67], []⟩ : RawMessage) ∈ (overfull payload).filterMap completed :=
    List.mem_filterMap.mpr ⟨_, List.mem_append_right _ (List.mem_singleton_self _), rfl⟩
  rw [← none] at last
  cases last

end Frames

end RitCoin.Proof
