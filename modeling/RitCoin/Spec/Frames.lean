import RitCoin.Model.PushMessage

/-!
# The messages in a stream of bytes

What a peer's bytes mean, without buffers and positions: a message begins at the next message start, and
its header says how long it is. If the header is not valid, or the checksum is not that of the payload,
only the header is skipped, and the payload is searched for the next message.
-/

namespace RitCoin.Spec
open Lib Model CMessageHeader

def headerOf (bytes : List UInt8) : CMessageHeader where
  pchMessageStart := bytes.take 4
  pchCommand := (bytes.drop 4).take COMMAND_SIZE
  nMessageSize := UInt32.ofNat (ofLe ((bytes.drop 16).take 4))
  nChecksum := UInt32.ofNat (ofLe ((bytes.drop 20).take 4))

def fromStart (bytes : List UInt8) : List UInt8 := bytes.drop (search pchMessageStart bytes)

section Frames
variable (hash : List UInt8 → Uint256)

/-- The bytes that follow a message start, if they are enough to decide. -/
def takeFrame (frame : List UInt8) : Option (Option RawMessage × List UInt8) :=
  let hdr := headerOf frame
  let body := frame.drop nHeaderSize
  let vMsg := body.take hdr.nMessageSize.toNat
  if frame.length < nHeaderSize then none
  else if ¬ hdr.isValid then some (none, body)
  else if body.length < hdr.nMessageSize.toNat then none
  else if checksum hash vMsg ≠ hdr.nChecksum then some (none, body)
  else some (some ⟨hdr.getCommand, vMsg⟩, body.drop hdr.nMessageSize.toNat)

variable {hash}

theorem takeFrame_length {frame rest : List UInt8} {m : Option RawMessage}
    (taken : takeFrame hash frame = some (m, rest)) :
    nHeaderSize ≤ frame.length ∧ rest.length + nHeaderSize ≤ frame.length := by
  dsimp only [takeFrame] at taken
  split_ifs at taken with short <;> cases taken
  all_goals
    rw [not_lt] at short
    simp only [List.length_drop]
    omega

theorem headerOf_append {frame : List UInt8} (whole : nHeaderSize ≤ frame.length) (more : List UInt8) :
    headerOf (frame ++ more) = headerOf frame := by
  have part : ∀ from' n : ℕ, from' + n ≤ nHeaderSize →
      ((frame ++ more).drop from').take n = (frame.drop from').take n := by
    intro from' n inside
    have enough : n ≤ (frame.drop from').length := by
      rw [List.length_drop]
      omega
    rw [List.drop_append_of_le_length (by omega), List.take_append_of_le_length enough]
  rw [headerOf, headerOf, part 4 COMMAND_SIZE (by decide), part 16 4 (by decide), part 20 4 (by decide),
    List.take_append_of_le_length (le_trans (by decide) whole)]

theorem takeFrame_append {frame rest : List UInt8} {m : Option RawMessage} (more : List UInt8)
    (taken : takeFrame hash frame = some (m, rest)) :
    takeFrame hash (frame ++ more) = some (m, rest ++ more) := by
  have whole := (takeFrame_length taken).1
  dsimp only [takeFrame] at taken ⊢
  rw [headerOf_append whole, List.drop_append_of_le_length whole, if_neg (by rw [List.length_append]; omega)]
  rw [if_neg (by omega)] at taken
  by_cases valid : (headerOf frame).isValid
  swap
  · rw [if_pos valid] at taken ⊢
    cases taken
    rfl
  rw [if_neg (not_not_intro valid)] at taken ⊢
  by_cases short : (frame.drop nHeaderSize).length < (headerOf frame).nMessageSize.toNat
  · rw [if_pos short] at taken
    cases taken
  rw [if_neg short] at taken
  rw [not_lt] at short
  rw [if_neg (by rw [List.length_append]; omega), List.take_append_of_le_length short,
    List.drop_append_of_le_length short]
  split_ifs at taken ⊢ <;> cases taken <;> rfl

theorem fromStart_append {bytes : List UInt8} (found : 0 < (fromStart bytes).length) (more : List UInt8) :
    fromStart (bytes ++ more) = fromStart bytes ++ more := by
  have inside : search pchMessageStart bytes < bytes.length := by
    rw [fromStart, List.length_drop] at found
    omega
  rw [fromStart, search_append inside, List.drop_append_of_le_length inside.le, fromStart]

variable (hash) in
def frames : Framer UInt8 RawMessage where
  step bytes := takeFrame hash (fromStart bytes)
  shrinks taken := by
    have length := (takeFrame_length taken).2
    rw [fromStart, List.length_drop, nHeaderSize] at length
    omega
  decided more taken := by
    have whole := (takeFrame_length taken).1
    rw [fromStart_append (lt_of_lt_of_le (by decide) whole)]
    exact takeFrame_append more taken

end Frames

def frameHeader (hash : List UInt8 → Uint256) (m : RawMessage) : CMessageHeader :=
  { CMessageHeader.new m.strCommand (UInt32.ofNat m.vMsg.length) with nChecksum := checksum hash m.vMsg }

def frame (hash : List UInt8 → Uint256) (m : RawMessage) : List UInt8 :=
  (frameHeader hash m).serialize ++ m.vMsg

structure Sendable (m : RawMessage) : Prop where
  command : m.strCommand.length ≤ COMMAND_SIZE
  printable : ∀ c ∈ m.strCommand, 0x20 ≤ c ∧ c ≤ 0x7e
  payload : m.vMsg.length ≤ MAX_SIZE

instance (m : RawMessage) : Decidable (Sendable m) :=
  decidable_of_iff (m.strCommand.length ≤ COMMAND_SIZE ∧ (∀ c ∈ m.strCommand, 0x20 ≤ c ∧ c ≤ 0x7e) ∧
      m.vMsg.length ≤ MAX_SIZE)
    ⟨fun ⟨command, printable, payload⟩ => ⟨command, printable, payload⟩,
      fun sendable => ⟨sendable.command, sendable.printable, sendable.payload⟩⟩

def pushed : SendEvent → Option RawMessage
  | .pushMessage pszCommand written _ => some ⟨pszCommand, written⟩
  | .socketSend _ => none

def completed : SendEvent → Option RawMessage
  | .pushMessage pszCommand written (.ended false) => some ⟨pszCommand, written⟩
  | _ => none

/-- The size of `vSend` fits an `int` when a message begins, and the buffer behind it, with the bytes
that are sent already, can be indexed by `nReadPos`. -/
def Room (s : Sender) : SendEvent → Prop
  | .pushMessage _ written _ =>
    s.vSend.size + nHeaderSize < 2 ^ 31 ∧ s.vSend.vch.length + nHeaderSize + written.length < 2 ^ 32
  | .socketSend _ => True

def RoomThroughout (hash : List UInt8 → Uint256) : Sender → List SendEvent → Prop
  | _, [] => True
  | s, event :: rest => Room s event ∧ match s.step hash event with
      | .ok after => RoomThroughout hash after rest
      | .error _ => True

instance (s : Sender) : ∀ event, Decidable (Room s event)
  | .pushMessage _ _ _ => inferInstanceAs (Decidable (_ ∧ _))
  | .socketSend _ => inferInstanceAs (Decidable True)

instance decidableRoomThroughout (hash : List UInt8 → Uint256) :
    ∀ s events, Decidable (RoomThroughout hash s events)
  | _, [] => inferInstanceAs (Decidable True)
  | s, event :: rest =>
    @instDecidableAnd _ _ _ (match s.step hash event with
      | .ok after => decidableRoomThroughout hash after rest
      | .error _ => inferInstanceAs (Decidable True))

end RitCoin.Spec
