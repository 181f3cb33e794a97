import RitCoin.Proof.Serialize
import RitCoin.Spec.Frames

namespace RitCoin.Proof
open Lib Model Spec CMessageHeader
variable {bytes : List UInt8}

theorem delivers_of_length {n : ℕ} (length : bytes.length = n) :
    Decodes StreamHolds (CDataStream.read n) bytes bytes := by
  subst length
  exact dataStream_delivers bytes

theorem decodes_header (whole : bytes.length = nHeaderSize) :
    Decodes StreamHolds (CMessageHeader.unserialize CDataStream.read) bytes (headerOf bytes) := by
  have part : ∀ from' n : ℕ, from' + n ≤ nHeaderSize → ((bytes.drop from').take n).length = n := by
    intro from' n inside
    rw [List.length_take_of_le (by rw [List.length_drop]; omega)]
  have fields : bytes = bytes.take 4 ++ ((bytes.drop 4).take COMMAND_SIZE ++
      ((bytes.drop 16).take 4 ++ (bytes.drop 20).take 4)) := by
    have last : (bytes.drop 20).take 4 = bytes.drop 20 :=
      List.take_of_length_le (by rw [List.length_drop, whole]; decide)
    have third : (bytes.drop 16).take 4 ++ bytes.drop 20 = bytes.drop 16 := by
      conv_rhs => rw [← List.take_append_drop 4 (bytes.drop 16), List.drop_drop]
    have second : (bytes.drop 4).take COMMAND_SIZE ++ bytes.drop 16 = bytes.drop 4 := by
      conv_rhs => rw [← List.take_append_drop COMMAND_SIZE (bytes.drop 4), List.drop_drop]
      rfl
    rw [last, third, second, List.take_append_drop]
  have number : ∀ from' : ℕ, from' + 4 ≤ nHeaderSize →
      Decodes StreamHolds (readNumber CDataStream.read 4) ((bytes.drop from').take 4)
        (ofLe ((bytes.drop from').take 4)) :=
    fun from' inside => (delivers_of_length (part from' 4 inside)).map
  have all : Decodes StreamHolds (CMessageHeader.unserialize CDataStream.read) _ (headerOf bytes) :=
    (delivers_of_length (part 0 4 (by decide))).bind
      ((delivers_of_length (part 4 COMMAND_SIZE (by decide))).bind
        ((number 16 (by decide)).bind (number 20 (by decide)).map))
  rw [List.drop_zero, ← fields] at all
  exact all

theorem unserialize_header_ok {s : CDataStream} (enough : nHeaderSize ≤ s.size) (small : s.vch.length < 2 ^ 32) :
    ∃ after, CMessageHeader.unserialize CDataStream.read s = .ok (headerOf s.bytes, after) ∧
      after.bytes = s.bytes.drop nHeaderSize ∧ after.vch.length < 2 ^ 32 := by
  have inside := s.inside
  have size : s.size = s.vch.length - s.nReadPos.toNat := rfl
  have length : (s.bytes.take nHeaderSize).length = nHeaderSize :=
    List.length_take_of_le (by rwa [CDataStream.length_bytes])
  have holds : StreamHolds s (s.bytes.take nHeaderSize ++ s.bytes.drop nHeaderSize) s.size :=
    ⟨(List.take_append_drop _ _).symm, by omega⟩
  obtain ⟨after, run, rest, wrap⟩ := decodes_header length s _ s.size (by rwa [length]) holds
  rw [← headerOf_append length.ge (s.bytes.drop nHeaderSize), List.take_append_drop] at run
  refine ⟨after, run, rest, ?_⟩
  have left : after.size = s.size - nHeaderSize := by
    rw [← CDataStream.length_bytes, rest, List.length_drop, CDataStream.length_bytes]
  have inside' := after.inside
  rw [length] at wrap
  rw [CDataStream.size] at left
  omega

section Frames
variable {hash : List UInt8 → Uint256} {vRecv : CDataStream} {nReceiveBufferSize : UInt32}

theorem same_of_fromStart {bytes' : List UInt8}
    (equal : ∀ more, fromStart (bytes ++ more) = fromStart (bytes' ++ more)) : (frames hash).Same bytes bytes' :=
  fun more => congrArg (takeFrame hash) (equal more)

theorem same_fromStart (found : 0 < (fromStart bytes).length) : (frames hash).Same bytes (fromStart bytes) := by
  refine same_of_fromStart fun more => ?_
  have inside : search pchMessageStart bytes < bytes.length := by
    rw [fromStart, List.length_drop] at found
    omega
  have here : pchMessageStart <+: fromStart bytes ++ more :=
    (at_search inside).trans (List.prefix_append _ _)
  rw [fromStart_append found, fromStart.eq_1 (fromStart bytes ++ more), search_eq_zero here, List.drop_zero]

theorem same_trimmed (none : (fromStart bytes).length < nHeaderSize) :
    (frames hash).Same bytes (bytes.drop (bytes.length - nHeaderSize)) := by
  refine same_of_fromStart fun more => ?_
  have absent : ∀ i < bytes.length - nHeaderSize, ¬ pchMessageStart <+: (bytes ++ more).drop i := by
    intro i before occurs
    rw [fromStart, List.length_drop] at none
    have ends : i + pchMessageStart.length ≤ bytes.length := by
      rw [nHeaderSize] at before
      rw [show pchMessageStart.length = 4 from rfl]
      omega
    exact not_before_search (by omega) (occurs_of_append ends occurs)
  have skip : bytes.length - nHeaderSize ≤ (bytes ++ more).length := by
    rw [List.length_append]
    omega
  rw [← List.drop_append_of_le_length (Nat.sub_le _ _), fromStart, fromStart,
    search_of_not_before skip absent, List.drop_drop]

inductive RoundOf (hash : List UInt8 → Uint256) (vRecv : CDataStream) : Round → Prop
  | stop {after} (wait : (frames hash).step vRecv.bytes = none)
      (same : (frames hash).Same vRecv.bytes after.bytes)
      (bound : vRecv.size < 2 ^ 31 → after.size ≤ nHeaderSize + MAX_SIZE) : RoundOf hash vRecv (.stop after)
  | next {after} (taken : (frames hash).step vRecv.bytes = some (none, after.bytes))
      (small : after.vch.length < 2 ^ 32) : RoundOf hash vRecv (.next after)
  | dispatch {message after} (taken : (frames hash).step vRecv.bytes = some (some message, after.bytes))
      (small : after.vch.length < 2 ^ 32) : RoundOf hash vRecv (.dispatch message after)

theorem processHeader_ok {body : CDataStream} (whole : nHeaderSize ≤ (fromStart vRecv.bytes).length)
    (rest : body.bytes = (fromStart vRecv.bytes).drop nHeaderSize) (small : body.vch.length < 2 ^ 32) :
    ∃ round, processHeader hash ((fromStart vRecv.bytes).take nHeaderSize) (headerOf (fromStart vRecv.bytes)) body =
      .ok round ∧ RoundOf hash vRecv round := by
  have step : (frames hash).step vRecv.bytes = takeFrame hash (fromStart vRecv.bytes) := rfl
  dsimp only [takeFrame] at step
  rw [if_neg whole.not_gt, ← rest, CDataStream.length_bytes] at step
  -- the buffer that is left if the message is not complete
  have rewound : (body.insertFront ((fromStart vRecv.bytes).take nHeaderSize)).bytes = fromStart vRecv.bytes := by
    rw [CDataStream.bytes_insertFront, rest, List.take_append_drop]
  generalize headerOf (fromStart vRecv.bytes) = hdr at step ⊢
  rw [processHeader]
  by_cases valid : hdr.isValid
  swap
  · rw [if_pos valid] at step ⊢
    exact ⟨_, rfl, .next step small⟩
  have size : hdr.nMessageSize.toNat ≤ MAX_SIZE := by
    simp only [isValid, Bool.and_eq_true, decide_eq_true_eq] at valid
    exact valid.2
  rw [if_neg (not_not_intro valid)] at step ⊢
  rw [if_neg size.not_gt]
  by_cases short : body.size < hdr.nMessageSize.toNat
  · rw [if_pos short] at step ⊢
    refine ⟨_, rfl, .stop step ?_ fun _ => ?_⟩
    · rw [rewound]
      exact same_fromStart (lt_of_lt_of_le (by decide) whole)
    · have length := congrArg List.length rest
      rw [CDataStream.length_bytes, List.length_drop] at length
      rw [← CDataStream.length_bytes, rewound]
      omega
  rw [if_neg short] at step ⊢
  dsimp only
  by_cases corrupt : checksum hash (body.bytes.take hdr.nMessageSize.toNat) ≠ hdr.nChecksum
  · rw [if_pos corrupt] at step ⊢
    exact ⟨_, rfl, .next step small⟩
  rw [if_neg corrupt] at step ⊢
  have inside := body.inside
  rw [not_lt] at short
  obtain ⟨after, ignore, is⟩ := advance_ok short (by rw [CDataStream.size] at short; omega)
    "CDataStream::ignore() : end of data"
  rw [← is.bytes] at step
  refine ⟨_, ?_, .dispatch step (is.vch.trans_lt small)⟩
  rw [CDataStream.ignore, ignore]
  rfl

variable (hash) in
theorem processRound_ok (small : vRecv.vch.length < 2 ^ 32) :
    ∃ round, processRound hash vRecv = .ok round ∧ RoundOf hash vRecv round := by
  have length : (fromStart vRecv.bytes).length = vRecv.size - search pchMessageStart vRecv.bytes := by
    rw [fromStart, List.length_drop, CDataStream.length_bytes]
  dsimp only [processRound]
  rw [← length]
  by_cases short : (fromStart vRecv.bytes).length < nHeaderSize
  · have wait : (frames hash).step vRecv.bytes = none := if_pos short
    rw [if_pos short]
    split_ifs with large
    · refine ⟨_, rfl, .stop wait ?_ fun _ => ?_⟩
      · rw [CDataStream.bytes_eraseFront small, ← CDataStream.length_bytes]
        exact same_trimmed short
      · rw [← CDataStream.length_bytes, CDataStream.bytes_eraseFront small, List.length_drop, CDataStream.length_bytes]
        omega
    · refine ⟨_, rfl, .stop wait (.refl _) fun below => ?_⟩
      rw [Int32.toInt_ofNat_of_lt below] at large
      omega
  rw [if_neg short]
  rw [not_lt] at short
  have frame : (vRecv.eraseFront (search pchMessageStart vRecv.bytes)).bytes = fromStart vRecv.bytes :=
    CDataStream.bytes_eraseFront small _
  have small' := (vRecv.length_vch_eraseFront (search pchMessageStart vRecv.bytes)).trans_lt small
  obtain ⟨body, read, rest, small''⟩ :=
    unserialize_header_ok (by rwa [← CDataStream.length_bytes, frame]) small'
  rw [read, frame]
  rw [frame] at rest
  exact processHeader_ok short rest small''

variable (hash) in
theorem processLoop_ok : ∀ (fuel : ℕ) {vRecv : CDataStream}, vRecv.size < fuel → vRecv.vch.length < 2 ^ 32 →
    ∃ after, processLoop hash fuel vRecv = .ok (((frames hash).run vRecv.bytes).1, after) ∧
      (frames hash).Same ((frames hash).run vRecv.bytes).2 after.bytes ∧
      (vRecv.size < 2 ^ 31 → after.size ≤ nHeaderSize + MAX_SIZE) := by
  intro fuel
  induction fuel with
  | zero => exact fun bound => absurd bound (Nat.not_lt_zero _)
  | succ fuel ih =>
    intro vRecv bound small
    have shorter : ∀ {m : Option RawMessage} {after : CDataStream},
        (frames hash).step vRecv.bytes = some (m, after.bytes) → after.size < vRecv.size := by
      intro m after taken
      have less := (frames hash).shrinks taken
      rwa [CDataStream.length_bytes, CDataStream.length_bytes] at less
    obtain ⟨round, run, is⟩ := processRound_ok hash small
    rw [processLoop, run]
    cases is with
    | @stop after wait same bounded =>
      refine ⟨after, ?_, ?_, bounded⟩
      · rw [Framer.run_wait wait]
        rfl
      · rwa [Framer.run_wait wait]
    | next taken small' =>
      have less := shorter taken
      obtain ⟨after, rest, same, bounded⟩ := ih (by omega) small'
      refine ⟨after, ?_, ?_, fun below => bounded (less.trans below)⟩
      · rw [Framer.run_step taken]
        exact rest
      · rwa [Framer.run_step taken]
    | dispatch taken small' =>
      have less := shorter taken
      obtain ⟨after, rest, same, bounded⟩ := ih (by omega) small'
      refine ⟨after, ?_, ?_, fun below => bounded (less.trans below)⟩
      · rw [Framer.run_step taken]
        change (processLoop hash fuel _ >>= _) = _
        rw [rest]
        rfl
      · rwa [Framer.run_step taken]

variable (hash) in
theorem processMessages_ok (compact : vRecv.nReadPos = 0) (small : vRecv.size < 2 ^ 31) :
    ∃ after, processMessages hash vRecv = .ok (((frames hash).run vRecv.bytes).1, after) ∧
      (frames hash).Same ((frames hash).run vRecv.bytes).2 after.bytes ∧ after.nReadPos = 0 ∧
      after.size ≤ nHeaderSize + MAX_SIZE := by
  rw [processMessages]
  split_ifs with empty
  · have nothing : vRecv.bytes = [] := List.eq_nil_of_length_eq_zero (by rwa [CDataStream.length_bytes])
    have wait : (frames hash).step vRecv.bytes = none := by
      rw [nothing]
      rfl
    rw [Framer.run_wait wait]
    exact ⟨vRecv, rfl, .refl _, compact, empty.le.trans (Nat.zero_le _)⟩
  · have length : vRecv.vch.length < 2 ^ 32 := by
      rw [CDataStream.size, compact, UInt32.toNat_zero] at small
      omega
    obtain ⟨after, run, same, bounded⟩ := processLoop_ok hash (vRecv.size + 1) (Nat.lt_succ_self _) length
    rw [run]
    refine ⟨after.compact, rfl, same, rfl, ?_⟩
    rw [← CDataStream.length_bytes]
    exact after.length_bytes.trans_le (bounded small)

theorem socketRecv_flood {limit : UInt32} (small : vRecv.size < 2 ^ 32) (full : limit.toNat < vRecv.size)
    (chunk : List UInt8) : socketRecv limit vRecv chunk = .error floodControl := by
  have nPos : UInt32.ofNat vRecv.size > limit := by
    rwa [gt_iff_lt, UInt32.lt_iff_toNat_lt, UInt32.toNat_ofNat', Nat.mod_eq_of_lt small]
  rw [socketRecv, failIf, if_pos nPos]
  rfl

theorem socketRecv_ok {limit : UInt32} {chunk : List UInt8} (room : vRecv.size ≤ limit.toNat)
    (small : vRecv.size + chunk.length < 2 ^ 32) :
    ∃ after, socketRecv limit vRecv chunk = .ok after ∧ after.bytes = vRecv.bytes ++ chunk ∧
      after.nReadPos = vRecv.nReadPos := by
  have nPos : (UInt32.ofNat vRecv.size).toNat = vRecv.size := by
    rw [UInt32.toNat_ofNat', Nat.mod_eq_of_lt (by omega)]
  have nBytes : (UInt32.ofNat vRecv.size + UInt32.ofNat chunk.length).toNat = vRecv.size + chunk.length := by
    rw [UInt32.toNat_add, nPos, UInt32.toNat_ofNat', Nat.add_mod_mod, Nat.mod_eq_of_lt small]
  have resized : (vRecv.resize (vRecv.size + chunk.length)).bytes = vRecv.bytes ++ List.replicate chunk.length 0 := by
    rw [CDataStream.bytes_resize, List.take_of_length_le (by rw [CDataStream.length_bytes]; omega),
      Nat.add_sub_cancel_left]
  have fits : vRecv.size + chunk.length ≤ (vRecv.resize (vRecv.size + chunk.length)).size := by
    rw [← CDataStream.length_bytes (vRecv.resize _), resized, List.length_append, List.length_replicate,
      CDataStream.length_bytes]
  obtain ⟨after, write, bytes, position, -⟩ := CDataStream.overwrite_ok fits
  refine ⟨after, ?_, ?_, position⟩
  · have calm : ¬ UInt32.ofNat vRecv.size > limit := by
      rw [gt_iff_lt, UInt32.lt_iff_toNat_lt, nPos]
      exact room.not_gt
    rw [socketRecv, failIf_of_not calm, nBytes, nPos]
    exact write
  · rw [bytes, resized, List.take_left' vRecv.length_bytes, List.drop_of_length_le, List.append_nil]
    rw [List.length_append, List.length_replicate, CDataStream.length_bytes]

theorem receiveChunks_cons {filled left : CDataStream} {chunk : List UInt8} {messages : List RawMessage}
    (recv : socketRecv nReceiveBufferSize vRecv chunk = .ok filled)
    (process : processMessages hash filled = .ok (messages, left)) (chunks : List (List UInt8)) :
    receiveChunks hash nReceiveBufferSize vRecv (chunk :: chunks) =
      (receiveChunks hash nReceiveBufferSize left chunks >>= fun r => pure (messages ++ r.1, r.2)) := by
  rw [receiveChunks, recv]
  change (processMessages hash filled >>= _) = _
  rw [process]
  rfl

theorem receiveChunks_ok : ∀ {chunks : List (List UInt8)} {vRecv : CDataStream}
    {stream : List UInt8} {found : List RawMessage}, (∀ chunk ∈ chunks, chunk.length ≤ pchBufSize) →
    vRecv.nReadPos = 0 → vRecv.size ≤ nHeaderSize + MAX_SIZE → (frames hash).Caught stream found vRecv.bytes →
    receiveChunks hash nReceiveBufferSize vRecv chunks ≠ .error floodControl →
    ∃ messages after, receiveChunks hash nReceiveBufferSize vRecv chunks = .ok (messages, after) ∧
      found ++ messages = ((frames hash).run (stream ++ chunks.flatten)).1 := by
  intro chunks
  induction chunks with
  | nil =>
    intro vRecv stream found _ _ _ caught _
    exact ⟨[], vRecv, rfl, by rw [List.append_nil, List.flatten_nil, List.append_nil, caught.found]⟩
  | cons chunk chunks ih =>
    intro vRecv stream found chunked compact bounded caught calm
    have fits : vRecv.size + chunk.length < 2 ^ 31 := by
      have chunkSize := chunked chunk List.mem_cons_self
      have most : nHeaderSize + MAX_SIZE + pchBufSize < 2 ^ 31 := by decide
      omega
    by_cases flood : nReceiveBufferSize.toNat < vRecv.size
    · rw [receiveChunks, socketRecv_flood (by omega) flood] at calm
      exact absurd rfl calm
    obtain ⟨filled, recv, bytes, position⟩ := socketRecv_ok (not_lt.mp flood) (fits.trans (by decide))
    have small : filled.size < 2 ^ 31 := by
      rwa [← CDataStream.length_bytes, bytes, List.length_append, CDataStream.length_bytes]
    obtain ⟨left, process, same, compact', bounded'⟩ := processMessages_ok hash (position.trans compact) small
    rw [receiveChunks_cons recv process] at calm ⊢
    rw [bytes] at same ⊢
    have calm' : receiveChunks hash nReceiveBufferSize left chunks ≠ .error floodControl := by
      intro flood
      rw [flood] at calm
      exact calm rfl
    obtain ⟨others, after, rest, all⟩ := ih (fun chunk here => chunked chunk (List.mem_cons_of_mem _ here))
      compact' bounded' (caught.next rfl same) calm'
    refine ⟨_ ++ others, after, by rw [rest]; rfl, ?_⟩
    rw [← List.append_assoc, all, List.flatten_cons, List.append_assoc]

theorem receiveChunks_frames {chunks : List (List UInt8)} (chunked : ∀ chunk ∈ chunks, chunk.length ≤ pchBufSize)
    (calm : receiveChunks hash nReceiveBufferSize .clear chunks ≠ .error floodControl) :
    ∃ after, receiveChunks hash nReceiveBufferSize .clear chunks =
      .ok (((frames hash).run chunks.flatten).1, after) := by
  have start : (frames hash).Caught [] [] CDataStream.clear.bytes := by
    have nothing : (frames hash).run [] = ([], []) := Framer.run_wait rfl
    have start := Framer.Caught.start (F := frames hash)
    rwa [nothing] at start
  obtain ⟨messages, after, run, all⟩ := receiveChunks_ok chunked rfl (Nat.zero_le _) start calm
  rw [List.nil_append, List.nil_append] at all
  exact ⟨after, by rw [run, all]⟩

theorem dispatch_independent_of_chunks (hash : List UInt8 → Uint256) (nReceiveBufferSize : UInt32)
    (chunks chunks' : List (List UInt8)) (stream : chunks.flatten = chunks'.flatten)
    (chunked : ∀ chunk ∈ chunks ++ chunks', chunk.length ≤ pchBufSize)
    (calm : receiveChunks hash nReceiveBufferSize .clear chunks ≠ .error floodControl)
    (calm' : receiveChunks hash nReceiveBufferSize .clear chunks' ≠ .error floodControl) :
    ∃ messages after after', receiveChunks hash nReceiveBufferSize .clear chunks = .ok (messages, after) ∧
      receiveChunks hash nReceiveBufferSize .clear chunks' = .ok (messages, after') := by
  obtain ⟨after, run⟩ := receiveChunks_frames
    (fun chunk here => chunked chunk (List.mem_append_left _ here)) calm
  obtain ⟨after', run'⟩ := receiveChunks_frames
    (fun chunk here => chunked chunk (List.mem_append_right _ here)) calm'
  rw [← stream] at run'
  exact ⟨_, after, after', run, run'⟩

end Frames

def pingStream : List UInt8 :=
  0xad :: (CMessageHeader.new [0x70, 0x69, 0x6e, 0x67] 4).serialize ++ Model.pchMessageStart

theorem pingStream_chunks :
    ∃ messages after after',
      receiveChunks (fun _ => 0) 1000 .clear [pingStream.take 3, pingStream.drop 3] = .ok (messages, after) ∧
      receiveChunks (fun _ => 0) 1000 .clear [pingStream.take 26, [], pingStream.drop 26] =
        .ok (messages, after') :=
  dispatch_independent_of_chunks (fun _ => 0) 1000 _ _ (by decide +kernel) (by decide +kernel)
    (by decide +kernel) (by decide +kernel)

example : ((frames fun _ => 0).run pingStream).1 = [⟨[0x70, 0x69, 0x6e, 0x67], pchMessageStart⟩] := by
  have taken : (frames fun _ => 0).step pingStream =
      some (some ⟨[0x70, 0x69, 0x6e, 0x67], pchMessageStart⟩, []) := by
    decide +kernel
  rw [Framer.run_step taken, Framer.run_wait (by decide +kernel)]
  rfl

end RitCoin.Proof
