import RitCoin.Model.DataStream
import RitCoin.Model.Serialize

namespace RitCoin.Proof
open Lib Model
variable {n : ℕ} {α : Type} {bytes : List UInt8} {s : CDataStream} {a : α} {size : α → ℕ}

structure Bounded (tx : CTransaction) : Prop where
  vin : tx.vin.length ≤ MAX_SIZE
  scriptSig : ∀ txin ∈ tx.vin, txin.scriptSig.length ≤ MAX_SIZE
  vout : tx.vout.length ≤ MAX_SIZE
  scriptPubKey : ∀ txout ∈ tx.vout, txout.scriptPubKey.length ≤ MAX_SIZE

structure BlockBounded (block : CBlock) : Prop where
  integrity : block.integrity.length ≤ MAX_SIZE
  authenticity : block.authenticity.length ≤ MAX_SIZE
  vtx : block.vtx.length ≤ MAX_SIZE
  txs : ∀ tx ∈ block.vtx, Bounded tx

section Reading
variable {σ : Type} {read : ℕ → StateT σ Check (List UInt8)} {Holds : σ → List UInt8 → ℕ → Prop}
  (delivers : ∀ bytes, Decodes Holds (read bytes.length) bytes bytes)
variable {encode : α → List UInt8} {elem : StateT σ Check α}

include delivers

theorem decodes_number {width : ℕ} (small : n < 256 ^ width) :
    Decodes Holds (readNumber read width) (leBytes width n) n := by
  have bytes := delivers (leBytes width n)
  rw [length_leBytes] at bytes
  have number := bytes.map (f := ofLe)
  rwa [ofLe_leBytes small] at number

theorem decodes_uint32 (x : UInt32) : Decodes Holds (readNumber read 4) (leBytes 4 x.toNat) x.toNat :=
  decodes_number delivers x.toNat_lt

theorem decodes_uint256 (x : Uint256) :
    Decodes Holds (readNumber read 32) (leBytes 32 x.toNat) x.toNat :=
  decodes_number delivers x.isLt

theorem decodes_compactSize (small : n ≤ MAX_SIZE) :
    Decodes Holds (readCompactSize read) (writeCompactSize n) n := by
  have accept : Decodes Holds (if n > MAX_SIZE then
      throw (.throw "ReadCompactSize() : size too large") else pure n : StateT σ Check ℕ) [] n := by
    rw [if_neg (Nat.not_lt.mpr small)]
    exact Decodes.pure n
  have after : ∀ (first : ℕ) (bytes : List UInt8), first < 256 ^ 1 →
      Decodes Holds (compactSizeAfter read first) bytes n →
      Decodes Holds (readCompactSize read) (leBytes 1 first ++ bytes) n := by
    intro first bytes byte rest
    have both : Decodes Holds (readCompactSize read) (leBytes 1 first ++ (bytes ++ [])) n :=
      (decodes_number delivers byte).bind (rest.bind accept)
    rwa [List.append_nil] at both
  rw [MAX_SIZE] at small
  rw [writeCompactSize]
  split_ifs with one two four
  · have single : Decodes Holds (compactSizeAfter read n) [] n := by
      rw [compactSizeAfter, if_pos one]
      exact Decodes.pure n
    have byte := after n [] (by omega) single
    rwa [List.append_nil] at byte
  · exact after 253 _ (by omega) (decodes_number delivers (by omega))
  · exact after 254 _ (by omega) (decodes_number delivers (by omega))
  · omega

theorem decodes_chunks : ∀ {fuel : ℕ} {bytes : List UInt8}, bytes.length ≤ fuel →
    Decodes Holds (readChunks read fuel bytes.length) bytes bytes := by
  intro fuel
  induction fuel with
  | zero =>
    intro bytes bound
    rw [List.length_eq_zero_iff.mp (Nat.le_zero.mp bound)]
    exact Decodes.pure []
  | succ fuel ih =>
    intro bytes bound
    rw [readChunks]
    split_ifs with done
    · rw [List.length_eq_zero_iff.mp done]
      exact Decodes.pure []
    · let blk := min bytes.length (1 + 4999999 / 1)
      have chunk := delivers (bytes.take blk)
      have rest : Decodes Holds (readChunks read fuel (bytes.drop blk).length) (bytes.drop blk)
          (bytes.drop blk) := ih (by rw [List.length_drop]; omega)
      rw [List.length_take, Nat.min_eq_left (Nat.min_le_left _ _)] at chunk
      rw [List.length_drop] at rest
      have both := chunk.bind (f := fun chunk => do
        let rest ← readChunks read fuel (bytes.length - blk)
        pure (chunk ++ rest)) rest.map
      rwa [List.take_append_drop] at both

theorem decodes_bytes (small : bytes.length ≤ MAX_SIZE) :
    Decodes Holds (unserializeBytes read) (serializeBytes bytes) bytes :=
  (decodes_compactSize delivers small).bind (decodes_chunks delivers le_rfl)

omit delivers in
theorem decodes_elements (sizeof : ElementSize) :
    ∀ {fuel nMid : ℕ} {items : List α}, items.length ≤ fuel →
      (∀ a ∈ items, Decodes Holds elem (encode a) a) →
      Decodes Holds (readElements elem sizeof fuel nMid (nMid + items.length)) (items.flatMap encode)
        items := by
  have progress : 0 < 5000000 / sizeof.bytes := Nat.div_pos sizeof.small sizeof.positive
  intro fuel
  induction fuel with
  | zero =>
    intro nMid items bound _
    rw [List.length_eq_zero_iff.mp (Nat.le_zero.mp bound)]
    exact Decodes.pure []
  | succ fuel ih =>
    intro nMid items bound each
    rw [readElements]
    split_ifs with more
    · generalize step : min (nMid + 5000000 / sizeof.bytes) (nMid + items.length) = nMidNext
      let blk := nMidNext - nMid
      have part : Decodes Holds (many elem (items.take blk).length) ((items.take blk).flatMap encode)
          (items.take blk) := Decodes.many fun a ha => each a (List.mem_of_mem_take ha)
      have rest : Decodes Holds
          (readElements elem sizeof fuel nMidNext (nMidNext + (items.drop blk).length))
          ((items.drop blk).flatMap encode) (items.drop blk) :=
        ih (by rw [List.length_drop]; omega) fun a ha => each a (List.mem_of_mem_drop ha)
      rw [List.length_take, Nat.min_eq_left (by omega)] at part
      rw [List.length_drop, show nMidNext + (items.length - blk) = nMid + items.length by omega] at rest
      have both := part.bind (f := fun part => do
        let rest ← readElements elem sizeof fuel nMidNext (nMid + items.length)
        pure (part ++ rest)) rest.map
      rwa [← List.flatMap_append, List.take_append_drop] at both
    · rw [List.length_eq_zero_iff.mp (show items.length = 0 by omega)]
      exact Decodes.pure []

theorem decodes_vector (sizeof : ElementSize) {items : List α} (small : items.length ≤ MAX_SIZE)
    (each : ∀ a ∈ items, Decodes Holds elem (encode a) a) :
    Decodes Holds (unserializeVector read elem sizeof) (serializeVector encode items) items := by
  have loop : Decodes Holds (readElements elem sizeof items.length 0 (0 + items.length))
      (items.flatMap encode) items := decodes_elements sizeof le_rfl each
  rw [Nat.zero_add] at loop
  exact (decodes_compactSize delivers small).bind loop

theorem decodes_outPoint (o : COutPoint) : Decodes Holds (COutPoint.unserialize read) o.serialize o := by
  have bytes := delivers o.serialize
  have length : o.serialize.length = 36 := by simp [COutPoint.serialize]
  have parts : (⟨BitVec.ofNat 256 (ofLe (o.serialize.take 32)),
      UInt32.ofNat (ofLe (o.serialize.drop 32))⟩ : COutPoint) = o := by
    rw [COutPoint.serialize, List.take_left' (length_leBytes 32 _), List.drop_left' (length_leBytes 32 _),
      ofLe_leBytes o.hash.isLt, ofLe_leBytes o.n.toNat_lt]
    simp
  rw [length] at bytes
  have both := bytes.map (f := fun bytes => (⟨BitVec.ofNat 256 (ofLe (bytes.take 32)),
    UInt32.ofNat (ofLe (bytes.drop 32))⟩ : COutPoint))
  rwa [parts] at both

theorem decodes_txIn {txin : CTxIn} (small : txin.scriptSig.length ≤ MAX_SIZE) :
    Decodes Holds (CTxIn.unserialize read) txin.serialize txin := by
  have value : (⟨txin.prevout, txin.scriptSig, UInt32.ofNat txin.nSequence.toNat⟩ : CTxIn) = txin := by
    rw [UInt32.ofNat_toNat]
  have last := (decodes_uint32 delivers txin.nSequence).map
    (f := fun nSequence => (⟨txin.prevout, txin.scriptSig, UInt32.ofNat nSequence⟩ : CTxIn))
  rw [value] at last
  exact (decodes_outPoint delivers txin.prevout).bind ((decodes_bytes delivers small).bind last)

theorem decodes_txOut {txout : CTxOut} (small : txout.scriptPubKey.length ≤ MAX_SIZE) :
    Decodes Holds (CTxOut.unserialize read) txout.serialize txout := by
  have value : (⟨(UInt64.ofNat txout.nValue.toUInt64.toNat).toInt64, txout.scriptPubKey⟩ : CTxOut) =
      txout := by
    rw [UInt64.ofNat_toNat, Int64.toInt64_toUInt64]
  have last := (decodes_bytes delivers small).map (f := fun scriptPubKey =>
    (⟨(UInt64.ofNat txout.nValue.toUInt64.toNat).toInt64, scriptPubKey⟩ : CTxOut))
  rw [value] at last
  have first : Decodes Holds (readNumber read 8) (leBytes 8 txout.nValue.toUInt64.toNat)
      txout.nValue.toUInt64.toNat := decodes_number delivers txout.nValue.toUInt64.toNat_lt
  exact first.bind last

theorem decodes_transaction (layout : Layout) {tx : CTransaction} (bounded : Bounded tx) :
    Decodes Holds (CTransaction.unserialize read layout) tx.serialize tx := by
  have value : (⟨(UInt32.ofNat tx.nVersion.toUInt32.toNat).toInt32, UInt32.ofNat tx.nTime.toNat, tx.vin,
      tx.vout, UInt32.ofNat tx.nLockTime.toNat⟩ : CTransaction) = tx := by
    rw [UInt32.ofNat_toNat, UInt32.ofNat_toNat, UInt32.ofNat_toNat, Int32.toInt32_toUInt32]
  have last := (decodes_uint32 delivers tx.nLockTime).map (f := fun nLockTime =>
    (⟨(UInt32.ofNat tx.nVersion.toUInt32.toNat).toInt32, UInt32.ofNat tx.nTime.toNat, tx.vin, tx.vout,
      UInt32.ofNat nLockTime⟩ : CTransaction))
  rw [value] at last
  have vin := decodes_vector delivers layout.txIn bounded.vin fun txin member =>
    decodes_txIn delivers (bounded.scriptSig txin member)
  have vout := decodes_vector delivers layout.txOut bounded.vout fun txout member =>
    decodes_txOut delivers (bounded.scriptPubKey txout member)
  exact (decodes_uint32 delivers tx.nVersion.toUInt32).bind
    ((decodes_uint32 delivers tx.nTime).bind (vin.bind (vout.bind last)))

theorem decodes_block (layout : Layout) {block : CBlock} (bounded : BlockBounded block) :
    Decodes Holds (CBlock.unserialize read layout) block.serialize block := by
  have vtx := decodes_vector delivers layout.transaction bounded.vtx fun tx member =>
    decodes_transaction delivers layout (bounded.txs tx member)
  let built (vtx : List CTransaction) : CBlock :=
    { nVersion := (UInt32.ofNat block.nVersion.toUInt32.toNat).toInt32
      hashPrevBlock := BitVec.ofNat 256 block.hashPrevBlock.toNat
      hashMerkleRoot := BitVec.ofNat 256 block.hashMerkleRoot.toNat
      nTime := UInt32.ofNat block.nTime.toNat
      nBits := UInt32.ofNat block.nBits.toNat
      nNonce := UInt32.ofNat block.nNonce.toNat
      integrity := block.integrity
      authenticity := block.authenticity
      vtx := vtx }
  have last := vtx.map (f := built)
  have value : built block.vtx = block := by
    simp [built]
  rw [value] at last
  exact (decodes_uint32 delivers block.nVersion.toUInt32).bind
    ((decodes_uint256 delivers block.hashPrevBlock).bind
      ((decodes_uint256 delivers block.hashMerkleRoot).bind
        ((decodes_uint32 delivers block.nTime).bind
          ((decodes_uint32 delivers block.nBits).bind
            ((decodes_uint32 delivers block.nNonce).bind
              ((decodes_bytes delivers bounded.integrity).bind
                ((decodes_bytes delivers bounded.authenticity).bind last)))))))

end Reading

structure After (s : CDataStream) (n : ℕ) (after : CDataStream) : Prop where
  bytes : after.bytes = s.bytes.drop n
  nReadPos : after.nReadPos.toNat ≤ s.nReadPos.toNat + n
  vch : after.vch.length ≤ s.vch.length

theorem advance_ok (enough : n ≤ s.size) (wrap : s.nReadPos.toNat + n < 2 ^ 32) (message : String) :
    ∃ after, s.advance (s.nReadPos + UInt32.ofNat n) message = .ok after ∧ After s n after := by
  have next : (s.nReadPos + UInt32.ofNat n).toNat = s.nReadPos.toNat + n := by
    rw [UInt32.toNat_add, UInt32.toNat_ofNat', Nat.add_mod_mod, Nat.mod_eq_of_lt (by omega)]
  have inside := s.inside
  rw [CDataStream.size] at enough
  generalize s.nReadPos + UInt32.ofNat n = nReadPosNext at next
  rw [CDataStream.advance]
  split_ifs with more beyond
  · refine ⟨_, rfl, ?_, next.le, le_rfl⟩
    change s.vch.drop nReadPosNext.toNat = _
    rw [next, CDataStream.bytes, List.drop_drop]
  · omega
  · have all : s.bytes.drop n = [] := by
      rw [List.drop_eq_nil_iff, CDataStream.length_bytes, CDataStream.size]
      omega
    exact ⟨_, rfl, all.symm, Nat.zero_le _, Nat.zero_le _⟩

theorem read_ok (enough : n ≤ s.size) (wrap : s.nReadPos.toNat + n < 2 ^ 32) :
    ∃ after, CDataStream.read n s = .ok (s.bytes.take n, after) ∧ After s n after := by
  obtain ⟨after, advance, is⟩ := advance_ok enough wrap "CDataStream::read() : end of data"
  have inside := s.inside
  have copy : s.copy n = .ok (s.bytes.take n) := by
    rw [CDataStream.copy, if_pos (by rw [CDataStream.size] at enough; omega)]
  refine ⟨after, ?_, is⟩
  rw [CDataStream.read, advance, copy]
  rfl

def StreamHolds (s : CDataStream) (bytes : List UInt8) (k : ℕ) : Prop :=
  s.bytes = bytes ∧ s.nReadPos.toNat + k < 2 ^ 32

theorem streamHolds_ofBytes (bytes : List UInt8) {k : ℕ} (small : k < 2 ^ 32) :
    StreamHolds (CDataStream.ofBytes bytes) bytes k :=
  ⟨rfl, by simpa [CDataStream.ofBytes] using small⟩

theorem dataStream_delivers (bytes : List UInt8) :
    Decodes StreamHolds (CDataStream.read bytes.length) bytes bytes := by
  rintro s tail k bound ⟨here, wrap⟩
  have enough : bytes.length ≤ s.size := by
    rw [← CDataStream.length_bytes, here, List.length_append]
    exact Nat.le_add_right _ _
  obtain ⟨after, read, is⟩ := read_ok enough (by omega)
  rw [here, List.take_left' rfl] at read
  refine ⟨after, read, ?_, ?_⟩
  · rw [is.bytes, here, List.drop_left' rfl]
  · have := is.nReadPos
    omega

def FileHolds (s bytes : List UInt8) (_ : ℕ) : Prop := s = bytes

theorem file_delivers (bytes : List UInt8) : Decodes FileHolds (CAutoFile.read bytes.length) bytes bytes := by
  rintro s tail k bound rfl
  refine ⟨tail, ?_, rfl⟩
  rw [CAutoFile.read, if_pos (by simp), List.take_left' rfl, List.drop_left' rfl]

theorem eq_of_decodes {decoder : StateT (List UInt8) Check α} {b : α} (first : Decodes FileHolds decoder bytes a)
    (second : Decodes FileHolds decoder bytes b) : a = b := by
  obtain ⟨_, run, _⟩ := first _ [] _ le_rfl rfl
  obtain ⟨_, run', _⟩ := second _ [] _ le_rfl rfl
  rw [run, Except.ok.injEq, Prod.mk.injEq] at run'
  exact run'.1

theorem length_writeCompactSize (n : ℕ) : (writeCompactSize n).length = getSizeOfCompactSize n := by
  rw [writeCompactSize, getSizeOfCompactSize]
  split_ifs
  all_goals simp

theorem getSizeOfCompactSize_le (n : ℕ) : getSizeOfCompactSize n ≤ 9 := by
  rw [getSizeOfCompactSize]
  split_ifs
  all_goals omega

theorem length_serializeBytes (bytes : List UInt8) : (serializeBytes bytes).length = bytesSize bytes := by
  rw [serializeBytes, List.length_append, length_writeCompactSize, bytesSize]

theorem length_serializeVector {elem : α → List UInt8} (each : ∀ a, (elem a).length = size a) (v : List α) :
    (serializeVector elem v).length = getSizeOfCompactSize v.length + (v.map size).sum := by
  rw [serializeVector, List.length_append, length_writeCompactSize, List.length_flatMap]
  simp only [each]

theorem length_txIn (txin : CTxIn) : txin.serialize.length = txin.getSerializeSize := by
  simp only [CTxIn.serialize, COutPoint.serialize, List.length_append, length_leBytes,
    length_serializeBytes, CTxIn.getSerializeSize]
  omega

theorem length_txOut (txout : CTxOut) : txout.serialize.length = txout.getSerializeSize := by
  simp only [CTxOut.serialize, List.length_append, length_leBytes, length_serializeBytes,
    CTxOut.getSerializeSize]

theorem length_transaction (tx : CTransaction) : tx.serialize.length = tx.getSerializeSize := by
  simp only [CTransaction.serialize, List.length_append, length_leBytes,
    length_serializeVector length_txIn, length_serializeVector length_txOut, CTransaction.getSerializeSize]
  omega

theorem length_block (block : CBlock) : block.serialize.length = block.getSerializeSize := by
  simp only [CBlock.serialize, List.length_append, length_leBytes, length_serializeBytes,
    length_serializeVector length_transaction, CBlock.getSerializeSize, vtxSize]
  omega

theorem vectorSize32_eq {elem : α → UInt32} (each : ∀ a, elem a = UInt32.ofNat (size a)) (v : List α) :
    vectorSize32 elem v = UInt32.ofNat (getSizeOfCompactSize v.length + (v.map size).sum) := by
  have loop : ∀ (v : List α) (n : ℕ), v.foldl (fun nSize a => nSize + elem a) (UInt32.ofNat n) =
      UInt32.ofNat (n + (v.map size).sum) := by
    intro v
    induction v with
    | nil => exact fun _ => rfl
    | cons a v ih =>
      intro n
      rw [List.foldl_cons, each, ← UInt32.ofNat_add, ih, List.map_cons, List.sum_cons, Nat.add_assoc]
  exact loop v _

theorem txIn_size32 (txin : CTxIn) : txin.getSerializeSize32 = UInt32.ofNat txin.getSerializeSize := by
  simp only [CTxIn.getSerializeSize32, CTxIn.getSerializeSize, bytesSize32, bytesSize, Nat.mul_one,
    UInt32.ofNat_add]
  rfl

theorem txOut_size32 (txout : CTxOut) : txout.getSerializeSize32 = UInt32.ofNat txout.getSerializeSize := by
  simp only [CTxOut.getSerializeSize32, CTxOut.getSerializeSize, bytesSize32, bytesSize, Nat.mul_one,
    UInt32.ofNat_add]
  rfl

theorem transaction_size32 (tx : CTransaction) :
    tx.getSerializeSize32 = UInt32.ofNat tx.getSerializeSize := by
  simp only [CTransaction.getSerializeSize32, CTransaction.getSerializeSize, vectorSize32_eq txIn_size32,
    vectorSize32_eq txOut_size32, UInt32.ofNat_add]
  rfl

theorem block_size32 (block : CBlock) : block.getSerializeSize32 = UInt32.ofNat block.getSerializeSize := by
  simp only [CBlock.getSerializeSize32, CBlock.getSerializeSize, vectorSize32_eq transaction_size32, vtxSize,
    bytesSize32, bytesSize, Nat.mul_one, UInt32.ofNat_add]
  rfl

/-- Decoding in front of anything gives the value back and leaves the rest, and the size is the number
of bytes written. -/
structure Faithful {α : Type} (serialize : α → List UInt8) (unserialize : StateT CDataStream Check α)
    (getSerializeSize : α → UInt32) (a : α) : Prop where
  decode : ∀ trailing, ∃ after,
    unserialize (CDataStream.ofBytes (serialize a ++ trailing)) = .ok (a, after) ∧ after.bytes = trailing
  size : (getSerializeSize a).toNat = (serialize a).length

theorem Faithful.of_decodes {serialize : α → List UInt8} {getSerializeSize : α → UInt32}
    {unserialize : StateT CDataStream Check α} (small : (serialize a).length < 2 ^ 32)
    (decodes : Decodes StreamHolds unserialize (serialize a) a)
    (size : getSerializeSize a = UInt32.ofNat (serialize a).length) :
    Faithful serialize unserialize getSerializeSize a where
  decode trailing := by
    obtain ⟨after, run, rest, _⟩ := decodes _ trailing _ le_rfl (streamHolds_ofBytes _ small)
    exact ⟨after, run, rest⟩
  size := by rw [size, UInt32.toNat_ofNat', Nat.mod_eq_of_lt small]

/-- Values whose vectors can be read at all are determined by their encodings, and the 32 bits of sizes
and positions are enough for encodings of less than `2 ^ 32` bytes. -/
theorem serialize_faithful (layout : Layout) :
    (∀ tx, Bounded tx → tx.serialize.length < 2 ^ 32 →
      Faithful CTransaction.serialize (CTransaction.unserialize CDataStream.read layout)
        CTransaction.getSerializeSize32 tx) ∧
    (∀ block, BlockBounded block → block.serialize.length < 2 ^ 32 →
      Faithful CBlock.serialize (CBlock.unserialize CDataStream.read layout)
        CBlock.getSerializeSize32 block) ∧
    Set.InjOn CTransaction.serialize {tx | Bounded tx} ∧
    Set.InjOn CBlock.serialize {block | BlockBounded block} := by
  refine ⟨?_, ?_, ?_, ?_⟩
  · intro tx bounded small
    refine .of_decodes small (decodes_transaction dataStream_delivers layout bounded) ?_
    rw [transaction_size32, length_transaction]
  · intro block bounded small
    refine .of_decodes small (decodes_block dataStream_delivers layout bounded) ?_
    rw [block_size32, length_block]
  · intro tx bounded tx' bounded' same
    refine eq_of_decodes (decodes_transaction file_delivers layout bounded) ?_
    rw [same]
    exact decodes_transaction file_delivers layout bounded'
  · intro block bounded block' bounded' same
    refine eq_of_decodes (decodes_block file_delivers layout bounded) ?_
    rw [same]
    exact decodes_block file_delivers layout bounded'

def toyLayout : Layout := ⟨⟨72, by decide, by decide⟩, ⟨32, by decide, by decide⟩, ⟨72, by decide, by decide⟩⟩

def smallTx : CTransaction := ⟨1, 5, [⟨⟨7, 1⟩, [1, 2, 3], 9⟩], [⟨-1, [4]⟩], 6⟩

theorem smallTx_faithful : Faithful CTransaction.serialize
    (CTransaction.unserialize CDataStream.read toyLayout) CTransaction.getSerializeSize32 smallTx := by
  have bounded : Bounded smallTx := ⟨by decide, by decide, by decide, by decide⟩
  exact (serialize_faithful toyLayout).1 smallTx bounded (by decide)

def manyInputs (count : ℕ) (scriptSig : CScript) : CTransaction :=
  ⟨1, 0, List.replicate count ⟨⟨0, 0⟩, scriptSig, 0⟩, [], 0⟩

theorem manyInputs_size (count : ℕ) (scriptSig : CScript) :
    count * scriptSig.length ≤ (manyInputs count scriptSig).getSerializeSize := by
  rw [CTransaction.getSerializeSize, manyInputs]
  simp only [List.map_replicate, List.sum_replicate, smul_eq_mul]
  have each : scriptSig.length ≤ CTxIn.getSerializeSize ⟨⟨0, 0⟩, scriptSig, 0⟩ := by
    simp only [CTxIn.getSerializeSize, bytesSize]
    omega
  have total := Nat.mul_le_mul_left count each
  omega

/-- 128 inputs with scripts of 32 megabytes are within the limit of every vector, but the size does not
fit 32 bits. -/
theorem manyInputs_size_wraps :
    let tx := manyInputs 128 (List.replicate MAX_SIZE 0)
    Bounded tx ∧ tx.getSerializeSize32.toNat ≠ tx.serialize.length := by
  intro tx
  have bounded : Bounded tx := by
    refine ⟨?_, ?_, Nat.zero_le _, fun _ member => nomatch member⟩
    · exact List.length_replicate.le.trans (by decide)
    · intro txin member
      rw [List.eq_of_mem_replicate member]
      exact List.length_replicate.le
  refine ⟨bounded, ?_⟩
  have large : 2 ^ 32 ≤ tx.getSerializeSize := by
    refine le_trans ?_ (manyInputs_size 128 (List.replicate MAX_SIZE 0))
    rw [List.length_replicate, MAX_SIZE]
    norm_num
  have fits := tx.getSerializeSize32.toNat_lt
  rw [length_transaction]
  omega

end RitCoin.Proof
