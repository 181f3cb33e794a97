import RitCoin.Model.Socket
import RitCoin.Proof.PushMessage
import RitCoin.Proof.Runs

namespace RitCoin.Proof
open Lib Model Spec CMessageHeader

variable {hash : List UInt8 → Uint256} {limit : UInt32} {m : RawMessage} {socket : Socket} {got : List UInt8}

structure Waiting (got : List UInt8) (socket : Socket) : Prop where
  bytes : socket.vRecv.bytes = got
  nReadPos : socket.vRecv.nReadPos = 0
  dispatched : socket.dispatched = []

theorem Waiting.size (waiting : Waiting got socket) : socket.vRecv.size = got.length := by
  rw [← CDataStream.length_bytes, waiting.bytes]

theorem Waiting.vch (waiting : Waiting got socket) : socket.vRecv.vch.length = got.length := by
  rw [vch_length, waiting.nReadPos, waiting.bytes, UInt32.toNat_zero, Nat.zero_add]

theorem Waiting.new : Waiting [] Socket.new := ⟨rfl, rfl, rfl⟩

variable (hash limit) in
theorem Waiting.recv (waiting : Waiting got socket) (pchBuf : List UInt8) (room : got.length ≤ limit.toNat)
    (small : got.length + pchBuf.length < 2 ^ 32) :
    ∃ after, socket.step hash limit (.recv pchBuf) = .ok after ∧ Waiting (got ++ pchBuf) after := by
  have fits : socket.vRecv.size + pchBuf.length < 2 ^ 32 := by rwa [waiting.size]
  obtain ⟨vRecv, recv, bytes, position⟩ := socketRecv_ok (by rwa [waiting.size]) fits
  refine ⟨{ socket with vRecv := vRecv }, ?_, ?_, position.trans waiting.nReadPos, waiting.dispatched⟩
  · rw [Socket.step, recv]
    rfl
  · rw [← waiting.bytes]
    exact bytes

variable (hash) in
theorem Waiting.flood (waiting : Waiting got socket) (full : limit.toNat < got.length) (small : got.length < 2 ^ 32)
    (pchBuf : List UInt8) : socket.step hash limit (.recv pchBuf) = .error floodControl := by
  rw [← waiting.size] at full small
  rw [Socket.step, socketRecv_flood small full]
  rfl

theorem exists_behind_header {bytes : List UInt8} (whole : nHeaderSize ≤ bytes.length) (part : bytes <+: frame hash m) :
    ∃ behind, bytes = (frameHeader hash m).serialize ++ behind ∧ behind <+: m.vMsg := by
  have header : (frameHeader hash m).serialize <+: bytes :=
    List.prefix_of_prefix_length_le (List.prefix_append _ _) part (by rwa [length_frameHeader])
  obtain ⟨behind, rfl⟩ := header
  exact ⟨behind, rfl, (List.prefix_append_right_inj _).mp part⟩

variable (hash) in
theorem processRound_waiting (sendable : Sendable m) {vRecv : CDataStream} (small : vRecv.vch.length < 2 ^ 32)
    (part : vRecv.bytes <+: frame hash m) (more : vRecv.size < (frame hash m).length) :
    ∃ after, processRound hash vRecv = .ok (.stop after) ∧ after.bytes = vRecv.bytes := by
  unfold processRound
  dsimp only
  by_cases short : vRecv.size < nHeaderSize
  · have keep : ¬ (Int32.ofNat vRecv.size).toInt > nHeaderSize := by
      rw [nHeaderSize] at short
      rw [Int32.toInt_ofNat_of_lt (by omega), nHeaderSize]
      omega
    rw [if_pos (by omega), if_neg keep]
    exact ⟨vRecv, rfl, rfl⟩
  rw [not_lt] at short
  obtain ⟨behind, bytes, behindPart⟩ := exists_behind_header (by rwa [CDataStream.length_bytes]) part
  have start : pchMessageStart <+: vRecv.bytes := by
    rw [bytes, CMessageHeader.serialize, List.append_assoc]
    exact List.prefix_append _ _
  rw [search_eq_zero start, Nat.sub_zero, if_neg short.not_gt]
  have frameBytes : (vRecv.eraseFront 0).bytes = vRecv.bytes := CDataStream.bytes_eraseFront small 0
  obtain ⟨body, read, rest, -⟩ := unserialize_header_ok (s := vRecv.eraseFront 0)
    (by rwa [← CDataStream.length_bytes, frameBytes, CDataStream.length_bytes])
    ((vRecv.length_vch_eraseFront 0).trans_lt small)
  have header : headerOf vRecv.bytes = frameHeader hash m := by
    rw [bytes]
    exact headerOf_serialize rfl (length_frameHeader_pchCommand hash m) _
  have size : body.size = vRecv.size - nHeaderSize := by
    rw [← CDataStream.length_bytes, rest, List.length_drop, frameBytes, CDataStream.length_bytes]
  have behindSize : body.size < (frameHeader hash m).nMessageSize.toNat := by
    rw [frameHeader_nMessageSize sendable, size]
    rw [length_frame] at more
    omega
  have tooLarge : ¬ (frameHeader hash m).nMessageSize.toNat > MAX_SIZE := by
    rw [frameHeader_nMessageSize sendable]
    exact sendable.payload.not_gt
  rw [read, frameBytes, header]
  refine ⟨body.insertFront (vRecv.bytes.take nHeaderSize), ?_, ?_⟩
  · change processHeader hash _ (frameHeader hash m) body = _
    rw [processHeader, if_neg (not_not_intro (isValid_frameHeader sendable)), if_neg tooLarge, if_pos behindSize]
    rfl
  · rw [CDataStream.bytes_insertFront, rest, frameBytes, List.take_append_drop]

theorem Waiting.process (sendable : Sendable m) (waiting : Waiting got socket) (part : got <+: frame hash m)
    (more : got.length < (frame hash m).length) (small : got.length < 2 ^ 32) :
    ∃ after, socket.step hash limit .processMessages = .ok after ∧ Waiting got after := by
  rw [Socket.step, Model.processMessages]
  split_ifs with empty
  · refine ⟨_, rfl, waiting.bytes, waiting.nReadPos, ?_⟩
    rw [List.append_nil]
    exact waiting.dispatched
  · obtain ⟨after, round, bytes⟩ := processRound_waiting hash sendable (by rwa [waiting.vch])
      (by rwa [waiting.bytes]) (by rwa [waiting.size])
    rw [processLoop, round]
    refine ⟨⟨after.compact, socket.dispatched ++ []⟩, rfl, bytes.trans waiting.bytes, rfl, ?_⟩
    rw [List.append_nil]
    exact waiting.dispatched

theorem received_append (events events' : List SocketEvent) :
    received (events ++ events') = received events ++ received events' := by
  induction events with
  | nil => rfl
  | cons event events ih => cases event <;> simp [received, ih]

theorem run_snoc (events : List SocketEvent) (event : SocketEvent) :
    Socket.run hash limit (events ++ [event]) =
      (Socket.run hash limit events >>= fun socket => socket.step hash limit event) := by
  rw [Socket.run, List.foldlM_append, Socket.run]
  congr 1
  funext socket
  rw [List.foldlM_cons]
  exact bind_pure _

variable (hash limit) in
theorem run_waiting (sendable : Sendable m) (events : List SocketEvent) (part : received events <+: frame hash m)
    (more : (received events).length < (frame hash m).length) (room : (received events).length ≤ limit.toNat) :
    ∃ socket, Socket.run hash limit events = .ok socket ∧ Waiting (received events) socket := by
  have bound := limit.toNat_lt
  induction events using List.reverseRecOn with
  | nil => exact ⟨.new, rfl, .new⟩
  | append_singleton events event ih =>
    rw [received_append] at part more room ⊢
    rw [List.length_append] at more room
    obtain ⟨socket, run, waiting⟩ := ih ((List.prefix_append _ _).trans part) (by omega) (by omega)
    rw [run_snoc, run, ok_bind]
    cases event with
    | recv pchBuf =>
      rw [received, received, List.append_nil] at room ⊢
      exact waiting.recv hash limit pchBuf (by omega) (by omega)
    | processMessages =>
      rw [received, received, List.append_nil]
      exact waiting.process sendable ((List.prefix_append _ _).trans part) (by omega) (by omega)

def blockMessage (block : CBlock) : RawMessage := ⟨[0x62, 0x6c, 0x6f, 0x63, 0x6b], block.serialize⟩

def ReadToTheEnd (hash : List UInt8 → Uint256) (limit : UInt32) (m : RawMessage) : Prop :=
  ∀ events pchBuf, (∀ event ∈ events ++ [.recv pchBuf], event.Possible) →
    received (events ++ [.recv pchBuf]) <+: frame hash m →
    ∃ socket, Socket.run hash limit (events ++ [.recv pchBuf]) = .ok socket

theorem readToTheEnd_of_le (sendable : Sendable m) (fits : (frame hash m).length ≤ limit.toNat + 1) :
    ReadToTheEnd hash limit m := by
  intro events pchBuf possible part
  have some : 0 < pchBuf.length := (possible (.recv pchBuf) (by simp)).1
  have length := part.length_le
  rw [received_append, received, received, List.append_nil] at part length
  rw [List.length_append] at length
  obtain ⟨socket, run, waiting⟩ := run_waiting hash limit sendable events
    ((List.prefix_append _ _).trans part) (by omega) (by omega)
  have payload := sendable.payload
  have total : (frame hash m).length = _ := length_frame m
  rw [MAX_SIZE] at payload
  rw [nHeaderSize] at total
  obtain ⟨after, step, -⟩ := waiting.recv hash limit pchBuf (by omega) (by omega)
  refine ⟨after, ?_⟩
  rw [run_snoc, run, ok_bind, step]

def bytewise (bytes : List UInt8) : List SocketEvent := bytes.map fun byte => .recv [byte]

theorem received_bytewise (bytes : List UInt8) : received (bytewise bytes) = bytes := by
  induction bytes with
  | nil => rfl
  | cons byte bytes ih => exact congrArg (byte :: ·) ih

variable (hash limit) in
theorem exists_flood (sendable : Sendable m) (large : limit.toNat + 2 ≤ (frame hash m).length) :
    ∃ events pchBuf, (∀ event ∈ events ++ [.recv pchBuf], event.Possible) ∧
      received (events ++ [.recv pchBuf]) <+: frame hash m ∧
      Socket.run hash limit (events ++ [.recv pchBuf]) = .error floodControl := by
  have bound := limit.toNat_lt
  have payload := sendable.payload
  rw [MAX_SIZE] at payload
  have total : (frame hash m).length = _ := length_frame m
  rw [nHeaderSize] at total
  obtain ⟨front, isFront⟩ : ∃ front, front = (frame hash m).take limit.toNat := ⟨_, rfl⟩
  have length : front.length = limit.toNat := by rw [isFront, List.length_take_of_le (by omega)]
  obtain ⟨byte, last, rest, behind⟩ : ∃ byte last rest, frame hash m = front ++ byte :: last :: rest := by
    have split := List.take_append_drop limit.toNat (frame hash m)
    rw [← isFront] at split
    have behind : 2 ≤ ((frame hash m).drop limit.toNat).length := by
      rw [List.length_drop]
      omega
    rcases found : (frame hash m).drop limit.toNat with _ | ⟨byte, _ | ⟨last, rest⟩⟩
    · simp [found] at behind
    · simp [found] at behind
    · exact ⟨byte, last, rest, by rw [← split, found]⟩
  have whole : received (bytewise front ++ [.recv [byte]] ++ [.recv [last]]) ++ rest = frame hash m := by
    rw [received_append, received_append, received_bytewise, behind]
    simp [received]
  refine ⟨bytewise front ++ [.recv [byte]], [last], ?_, ⟨rest, whole⟩, ?_⟩
  · intro event member
    simp only [bytewise, List.mem_append, List.mem_map, List.mem_singleton] at member
    rcases member with (⟨_, _, rfl⟩ | rfl) | rfl
    all_goals exact ⟨Nat.one_pos, by simp [pchBufSize]⟩
  · obtain ⟨socket, run, waiting⟩ := run_waiting hash limit sendable (bytewise front)
      (by rw [received_bytewise]; exact ⟨_, behind.symm⟩) (by rw [received_bytewise]; omega)
      (by rw [received_bytewise]; exact length.le)
    rw [received_bytewise] at waiting
    obtain ⟨after, step, waiting⟩ := waiting.recv hash limit [byte] length.le
      (by rw [List.length_singleton]; omega)
    rw [run_snoc, run_snoc, run, ok_bind, step, ok_bind]
    refine waiting.flood hash ?_ ?_ [last]
    all_goals rw [List.length_append, List.length_singleton]; omega

theorem readToTheEnd_iff (sendable : Sendable m) :
    ReadToTheEnd hash limit m ↔ (frame hash m).length ≤ limit.toNat + 1 := by
  refine ⟨fun calm => ?_, readToTheEnd_of_le sendable⟩
  by_contra large
  obtain ⟨events, pchBuf, possible, part, flood⟩ := exists_flood hash limit sendable (by omega)
  obtain ⟨socket, run⟩ := calm events pchBuf possible part
  rw [flood] at run
  cases run

theorem sendable_blockMessage {block : CBlock} (size : block.getSerializeSize ≤ MAX_BLOCK_SIZE) :
    Sendable (blockMessage block) where
  command := by
    change 5 ≤ COMMAND_SIZE
    decide
  printable := by
    change ∀ c ∈ [0x62, 0x6c, 0x6f, 0x63, 0x6b], (0x20 : UInt8) ≤ c ∧ c ≤ 0x7e
    decide +kernel
  payload := by
    change block.serialize.length ≤ MAX_SIZE
    rw [length_block]
    exact size.trans (by decide)

theorem length_blockMessage (block : CBlock) :
    (frame hash (blockMessage block)).length = nHeaderSize + block.getSerializeSize := by
  rw [length_frame, ← length_block]
  rfl

theorem receiveBufferSize_toNat : (receiveBufferSize).toNat = 10000000 := by decide

/-- Flood control lets a block through exactly if it leaves room for all but one of the bytes of its header. -/
theorem block_readToTheEnd_iff (hash : List UInt8 → Uint256) (P : Primitives) (now : Int) (block : CBlock)
    (checked : block.checkBlock P now = .ok ()) :
    ReadToTheEnd hash receiveBufferSize (blockMessage block) ↔ block.getSerializeSize ≤ 9999977 := by
  have size := (CBlock.checkBlock_eq_ok.mp checked).size
  rw [readToTheEnd_iff (sendable_blockMessage size), length_blockMessage, receiveBufferSize_toNat, nHeaderSize]
  omega

def paddedBlock (count : ℕ) : CBlock := { toyBlock 0 30 0 0 with integrity := List.replicate count 0 }

theorem paddedBlock_size (count : ℕ) :
    (paddedBlock count).getSerializeSize = 662 + (getSizeOfCompactSize count + count) := by
  have integrity : bytesSize (paddedBlock count).integrity = getSizeOfCompactSize count + count := by
    change bytesSize (List.replicate count 0) = _
    rw [bytesSize, List.length_replicate]
  have authenticity : bytesSize (paddedBlock count).authenticity = 515 := by
    change bytesSize (List.replicate 512 0) = _
    rw [bytesSize, List.length_replicate]
    rfl
  have vtx : vtxSize (paddedBlock count).vtx = 67 := rfl
  rw [CBlock.getSerializeSize, integrity, authenticity, vtx]
  omega

theorem paddedBlock_checked {count : ℕ} (size : (paddedBlock count).getSerializeSize ≤ MAX_BLOCK_SIZE) :
    (paddedBlock count).checkBlock toy toyNow = .ok () := by
  have valid : (toyBlock 0 30 0 0).Checked toy toyNow := CBlock.checkBlock_eq_ok.mp (by decide +kernel)
  exact CBlock.checkBlock_eq_ok.mpr { valid with size := size }

theorem paddedBlock_read : ReadToTheEnd (fun _ => 0) receiveBufferSize (blockMessage (paddedBlock 9999310)) :=
  (block_readToTheEnd_iff (fun _ => 0) toy toyNow _
    (paddedBlock_checked (by rw [paddedBlock_size]; decide))).mpr (by rw [paddedBlock_size]; decide)

theorem largest_block_flood : ∃ block, block.checkBlock toy toyNow = .ok () ∧
    block.getSerializeSize = MAX_BLOCK_SIZE ∧
    ∃ events pchBuf, (∀ event ∈ events ++ [.recv pchBuf], event.Possible) ∧
      received (events ++ [.recv pchBuf]) <+: frame (fun _ => 0) (blockMessage block) ∧
      Socket.run (fun _ => 0) receiveBufferSize (events ++ [.recv pchBuf]) = .error floodControl := by
  have size : (paddedBlock 9999333).getSerializeSize = MAX_BLOCK_SIZE := by rw [paddedBlock_size]; decide
  refine ⟨paddedBlock 9999333, paddedBlock_checked size.le, size, exists_flood _ _ (sendable_blockMessage size.le) ?_⟩
  rw [length_blockMessage, size, receiveBufferSize_toNat, nHeaderSize, MAX_BLOCK_SIZE]
  omega

end RitCoin.Proof
