import RitCoin.Model.WalletSerialize
import RitCoin.Proof.Serialize

namespace RitCoin.Proof
open Lib Model Std
variable {wtx : Wallet.CWalletTx}

structure MerkleBounded (tx : CMerkleTx) : Prop where
  transaction : Bounded tx.toCTransaction
  vMerkleBranch : tx.vMerkleBranch.length ≤ MAX_SIZE
  /-- It is an `int`. -/
  nIndex : -2 ^ 31 ≤ tx.nIndex ∧ tx.nIndex < 2 ^ 31

def PairBounded (item : Wallet.CString × Wallet.CString) : Prop :=
  item.1.length ≤ MAX_SIZE ∧ item.2.length ≤ MAX_SIZE

structure Storable (wtx : Wallet.CWalletTx) : Prop where
  merkle : MerkleBounded wtx.toCMerkleTx
  vtxPrev : wtx.vtxPrev.length ≤ MAX_SIZE
  supporting : ∀ tx ∈ wtx.vtxPrev, MerkleBounded tx
  /-- There are two more entries when it is written. -/
  mapValue : wtx.mapValue.size + 2 ≤ MAX_SIZE
  values : ∀ (key value : Wallet.CString), wtx.mapValue[key]? = some value → PairBounded (key, value)
  vOrderForm : wtx.vOrderForm.length ≤ MAX_SIZE
  orders : ∀ item ∈ wtx.vOrderForm, PairBounded item
  strFromAccount : wtx.strFromAccount.length ≤ MAX_SIZE
  vfSpent : wtx.vfSpent.length ≤ MAX_SIZE

structure Unreserved (wtx : Wallet.CWalletTx) : Prop where
  fromaccount : Wallet.ascii "fromaccount" ∉ wtx.mapValue
  version : Wallet.ascii "version" ∉ wtx.mapValue
  spent : Wallet.ascii "spent" ∉ wtx.mapValue

section Reading
open Wallet
variable {σ : Type} {read : ℕ → StateT σ Check (List UInt8)} {Holds : σ → List UInt8 → ℕ → Prop}
  (delivers : ∀ bytes, Decodes Holds (read bytes.length) bytes bytes)
include delivers

theorem decodes_string {str : CString} (small : str.length ≤ MAX_SIZE) :
    Decodes Holds (unserializeString read) (serializeBytes str) str := by
  refine (decodes_compactSize delivers small).bind ?_
  split_ifs with some
  · exact delivers str
  · rw [not_not, List.length_eq_zero_iff] at some
    rw [some]
    exact Decodes.pure []

theorem decodes_pair {item : CString × CString} (bounded : PairBounded item) :
    Decodes Holds (unserializePair read) (serializePair item) item :=
  (decodes_string delivers bounded.1).bind (decodes_string delivers bounded.2).map

theorem decodes_map {m : ExtTreeMap CString CString} (small : m.size ≤ MAX_SIZE)
    (each : ∀ item ∈ m.toList, PairBounded item) :
    Decodes Holds (unserializeMap read) (serializeMap m) m := by
  have items : Decodes Holds (many (unserializePair read) m.toList.length)
      (m.toList.flatMap serializePair) m.toList :=
    Decodes.many fun item member => decodes_pair delivers (each item member)
  have built := items.map (f := List.foldl
    (fun (m : ExtTreeMap CString CString) item => m.insertIfNew item.1 item.2) ∅)
  rw [foldl_insertIfNew_toList, ExtTreeMap.length_toList] at built
  exact (decodes_compactSize delivers small).bind built

theorem decodes_merkleTx (layout : WalletLayout) {tx : CMerkleTx} (bounded : MerkleBounded tx)
    (fMerkleVerified : Bool) :
    Decodes Holds (CMerkleTx.unserialize read layout fMerkleVerified) tx.serialize
      { tx with fMerkleVerified := fMerkleVerified } := by
  have index : (UInt32.ofNat (Int32.ofInt tx.nIndex).toUInt32.toNat).toInt32.toInt = tx.nIndex := by
    obtain ⟨low, high⟩ := bounded.nIndex
    rw [UInt32.ofNat_toNat, Int32.toInt32_toUInt32, Int32.toInt_ofInt]
    exact Int.bmod_eq_of_le (by simp [Int32.size]; omega) (by simp [Int32.size]; omega)
  have last := (decodes_uint32 delivers (Int32.ofInt tx.nIndex).toUInt32).map (f := fun nIndex =>
    (⟨tx.toCTransaction, BitVec.ofNat 256 tx.hashBlock.toNat, tx.vMerkleBranch,
      (UInt32.ofNat nIndex).toInt32.toInt, fMerkleVerified⟩ : CMerkleTx))
  have value : (⟨tx.toCTransaction, BitVec.ofNat 256 tx.hashBlock.toNat, tx.vMerkleBranch,
      (UInt32.ofNat (Int32.ofInt tx.nIndex).toUInt32.toNat).toInt32.toInt, fMerkleVerified⟩ : CMerkleTx) =
      { tx with fMerkleVerified := fMerkleVerified } := by
    rw [index, BitVec.ofNat_toNat, BitVec.setWidth_eq]
  rw [value] at last
  have hash : ∀ hash : Uint256, Decodes Holds (do
      let hash ← readNumber read 32
      pure (BitVec.ofNat 256 hash)) (leBytes 32 hash.toNat) hash := by
    intro hash
    have read := (decodes_uint256 delivers hash).map (f := BitVec.ofNat 256)
    rwa [BitVec.ofNat_toNat, BitVec.setWidth_eq] at read
  have branch := decodes_vector delivers layout.uint256 bounded.vMerkleBranch
    fun (one : Uint256) _ => hash one
  exact (decodes_transaction delivers layout.toLayout bounded.transaction).bind
    ((decodes_uint256 delivers tx.hashBlock).bind (branch.bind last))

end Reading

theorem eraseReserved_putReserved (unreserved : Unreserved wtx) : wtx.putReserved.eraseReserved = wtx := by
  have same : wtx.putReserved.eraseReserved.mapValue = wtx.mapValue := by
    refine ExtTreeMap.ext_getElem? fun key => ?_
    simp only [Wallet.CWalletTx.eraseReserved, Wallet.CWalletTx.putReserved, ExtTreeMap.getElem?_erase,
      ExtTreeMap.getElem?_insert, Std.compare_eq_iff_eq]
    split_ifs with spent version account
    · rw [← spent, ExtTreeMap.getElem?_eq_none unreserved.spent]
    · rw [← version, ExtTreeMap.getElem?_eq_none unreserved.version]
    · rw [← account, ExtTreeMap.getElem?_eq_none unreserved.fromaccount]
    · rfl
  calc wtx.putReserved.eraseReserved
      = { wtx with mapValue := wtx.putReserved.eraseReserved.mapValue } := rfl
    _ = wtx := by rw [same]

theorem serReadWrite_unchanged {α : Type} (action : Wallet.CWalletTx → UInt8 → α) (unreserved : Unreserved wtx) :
    (wtx.serReadWrite action).2 = wtx :=
  eraseReserved_putReserved unreserved

theorem Storable.putReserved (storable : Storable wtx) :
    wtx.putReserved.mapValue.size ≤ MAX_SIZE ∧
      ∀ item ∈ wtx.putReserved.mapValue.toList, PairBounded item := by
  constructor
  · have room := storable.mapValue
    refine ExtTreeMap.size_insert_le.trans ((Nat.succ_le_succ ExtTreeMap.size_insert_le).trans ?_)
    omega
  · rintro ⟨key, value⟩ member
    rw [ExtTreeMap.mem_toList_iff_getElem?_eq_some] at member
    simp only [Wallet.CWalletTx.putReserved, ExtTreeMap.getElem?_insert, Std.compare_eq_iff_eq] at member
    split_ifs at member with spent account
    · obtain rfl := Option.some.inj member
      refine ⟨spent ▸ (by decide : (Wallet.ascii "spent").length ≤ MAX_SIZE), ?_⟩
      rw [List.length_map]
      exact storable.vfSpent
    · obtain rfl := Option.some.inj member
      exact ⟨account ▸ (by decide : (Wallet.ascii "fromaccount").length ≤ MAX_SIZE), storable.strFromAccount⟩
    · exact storable.values key value member

/-- What the file keeps of a record: everything but the remembered balances and the flags of verified branches. -/
def asStored (wtx : Wallet.CWalletTx) (fMerkleVerified : Bool) : Wallet.CWalletTx :=
  { wtx.markDirty with
    fMerkleVerified := fMerkleVerified
    vtxPrev := wtx.vtxPrev.map fun tx => { tx with fMerkleVerified := false } }

theorem takeReserved_putReserved (unreserved : Unreserved wtx) (fMerkleVerified : Bool) (fSpent : UInt8) :
    Wallet.CWalletTx.takeReserved
      { Wallet.CWalletTx.init { wtx.toCMerkleTx with fMerkleVerified := fMerkleVerified } with
        vtxPrev := (asStored wtx fMerkleVerified).vtxPrev
        mapValue := wtx.putReserved.mapValue
        vOrderForm := wtx.vOrderForm
        fTimeReceivedIsTxTime := wtx.fTimeReceivedIsTxTime
        nTimeReceived := wtx.nTimeReceived
        fFromMe := wtx.fFromMe } fSpent = asStored wtx fMerkleVerified := by
  have erased : wtx.putReserved.eraseReserved.mapValue = wtx.mapValue := by
    rw [eraseReserved_putReserved unreserved]
  have account : wtx.putReserved.mapValue.getD (Wallet.ascii "fromaccount") [] = wtx.strFromAccount := by
    rw [ExtTreeMap.getD_eq_getD_getElem?, Wallet.CWalletTx.putReserved, ExtTreeMap.getElem?_insert,
      if_neg (by rw [Std.compare_eq_iff_eq]; decide), ExtTreeMap.getElem?_insert_self, Option.getD_some]
  have flags : wtx.putReserved.mapValue[Wallet.ascii "spent"]? =
      some (wtx.vfSpent.map fun f => if f then 0x31 else 0x30) := ExtTreeMap.getElem?_insert_self
  have read : (wtx.vfSpent.map fun f => if f then (0x31 : UInt8) else 0x30).map (fun c => decide (c ≠ 0x30)) =
      wtx.vfSpent := by
    rw [List.map_map]
    refine (List.map_congr_left fun f _ => ?_).trans (List.map_id _)
    cases f <;> rfl
  simp only [Wallet.CWalletTx.takeReserved, account, flags, read]
  calc _ = { asStored wtx fMerkleVerified with mapValue := wtx.putReserved.eraseReserved.mapValue } := rfl
    _ = asStored wtx fMerkleVerified := by rw [erased]; rfl

section RoundTrip
variable {σ : Type} {read : ℕ → StateT σ Check (List UInt8)} {Holds : σ → List UInt8 → ℕ → Prop}
  (delivers : ∀ bytes, Decodes Holds (read bytes.length) bytes bytes)
include delivers

theorem decodes_walletTx (layout : WalletLayout) (unreserved : Unreserved wtx) (storable : Storable wtx)
    (fMerkleVerified : Bool) :
    Decodes Holds (Wallet.CWalletTx.unserialize read layout fMerkleVerified) wtx.serialize.1
      (asStored wtx fMerkleVerified) := by
  have prev : Decodes Holds
      (unserializeVector read (CMerkleTx.unserialize read layout false) layout.merkleTx)
      (serializeVector CMerkleTx.serialize wtx.vtxPrev) (asStored wtx fMerkleVerified).vtxPrev := by
    -- the flag is not written
    have same : serializeVector CMerkleTx.serialize wtx.vtxPrev =
        serializeVector CMerkleTx.serialize (asStored wtx fMerkleVerified).vtxPrev := by
      simp only [serializeVector, asStored, List.length_map, List.flatMap_map]
      rfl
    rw [same]
    refine decodes_vector delivers layout.merkleTx ?_ fun tx member => ?_
    · rw [asStored, List.length_map]
      exact storable.vtxPrev
    · obtain ⟨tx, known, rfl⟩ := List.mem_map.mp member
      exact decodes_merkleTx delivers layout (storable.supporting tx known) false
  have orders := decodes_vector delivers layout.stringPair storable.vOrderForm fun item member =>
    decodes_pair delivers (storable.orders item member)
  have values := decodes_map delivers storable.putReserved.1 storable.putReserved.2
  generalize spent : (if wtx.vfSpent.any id then 1 else 0 : UInt8) = fSpent
  let built := fun fSpent : ℕ => Wallet.CWalletTx.takeReserved
      { Wallet.CWalletTx.init { wtx.toCMerkleTx with fMerkleVerified := fMerkleVerified } with
        vtxPrev := (asStored wtx fMerkleVerified).vtxPrev
        mapValue := wtx.putReserved.mapValue
        vOrderForm := wtx.vOrderForm
        fTimeReceivedIsTxTime := UInt32.ofNat wtx.fTimeReceivedIsTxTime.toNat
        nTimeReceived := UInt32.ofNat wtx.nTimeReceived.toNat
        fFromMe := UInt8.ofNat wtx.fFromMe.toNat } (UInt8.ofNat fSpent)
  have value : built fSpent.toNat = asStored wtx fMerkleVerified := by
    simp only [built, UInt32.ofNat_toNat, UInt8.ofNat_toNat]
    exact takeReserved_putReserved unreserved fMerkleVerified fSpent
  have byte : Decodes Holds (readNumber read 1) (leBytes 1 fSpent.toNat) fSpent.toNat :=
    decodes_number delivers fSpent.toNat_lt
  have last := byte.map (f := built)
  rw [value] at last
  rw [Wallet.CWalletTx.serialize, Wallet.CWalletTx.serReadWrite, spent]
  exact (decodes_merkleTx delivers layout storable.merkle fMerkleVerified).bind
    (prev.bind (values.bind (orders.bind
      ((decodes_uint32 delivers wtx.fTimeReceivedIsTxTime).bind
        ((decodes_uint32 delivers wtx.nTimeReceived).bind
          ((decodes_number delivers wtx.fFromMe.toNat_lt).bind last))))))

theorem refuses_compactSize {n : ℕ} (large : MAX_SIZE < n) (representable : n < 2 ^ 64) :
    Refuses Holds (readCompactSize read) (writeCompactSize n) := by
  have refuse : Refuses Holds (if n > MAX_SIZE then
      throw (.throw "ReadCompactSize() : size too large") else pure n : StateT σ Check ℕ) [] := by
    intro s tail k _ _
    rw [if_pos large]
    exact ⟨_, rfl⟩
  have after : ∀ (first width : ℕ), first < 256 ^ 1 → n < 256 ^ width →
      compactSizeAfter read first = readNumber read width →
      Refuses Holds (readCompactSize read) (leBytes 1 first ++ leBytes width n) := by
    intro first width byte fits next
    have rest : Refuses Holds (compactSizeAfter read first >>= fun nSizeRet => if nSizeRet > MAX_SIZE then
        throw (.throw "ReadCompactSize() : size too large") else pure nSizeRet) (leBytes width n ++ []) := by
      rw [next]
      exact .after (decodes_number delivers fits) refuse
    rw [List.append_nil] at rest
    exact .after (decodes_number delivers byte) rest
  rw [MAX_SIZE] at large
  rw [writeCompactSize, if_neg (by omega), if_neg (by omega)]
  split_ifs with four
  · exact after 254 4 (by decide) (by omega) rfl
  · exact after 255 8 (by decide) (by omega) rfl

end RoundTrip

/-- Writing or measuring a record leaves it as it was, and a record with vectors and strings that can be read is
read back. The position in a `CDataStream` has 32 bits. -/
theorem walletTx_readBack (layout : WalletLayout) {wtx : Wallet.CWalletTx} (unreserved : Unreserved wtx) :
    wtx.serialize.2 = wtx ∧ wtx.getSerializeSize32.2 = wtx ∧
      (Storable wtx → ∀ (fMerkleVerified : Bool) (trailing : List UInt8),
        Wallet.CWalletTx.unserialize CAutoFile.read layout fMerkleVerified (wtx.serialize.1 ++ trailing) =
          .ok (asStored wtx fMerkleVerified, trailing) ∧
        (wtx.serialize.1.length < 2 ^ 32 → ∃ after,
          Wallet.CWalletTx.unserialize CDataStream.read layout fMerkleVerified
            (CDataStream.ofBytes (wtx.serialize.1 ++ trailing)) = .ok (asStored wtx fMerkleVerified, after) ∧
          after.bytes = trailing)) := by
  refine ⟨serReadWrite_unchanged _ unreserved, serReadWrite_unchanged _ unreserved, ?_⟩
  intro storable fMerkleVerified trailing
  constructor
  · obtain ⟨after, run, rest⟩ := decodes_walletTx file_delivers layout unreserved storable fMerkleVerified
      _ trailing _ le_rfl rfl
    rw [run, rest]
  · intro small
    obtain ⟨after, run, rest, _⟩ :=
      decodes_walletTx dataStream_delivers layout unreserved storable fMerkleVerified
        _ trailing _ le_rfl (streamHolds_ofBytes _ small)
    exact ⟨after, run, rest⟩

def toyWalletLayout : WalletLayout :=
  { toyLayout with
    uint256 := toyLayout.txOut
    merkleTx := ⟨136, by decide, by decide⟩
    stringPair := ⟨16, by decide, by decide⟩ }

def paidRecord : Wallet.CWalletTx :=
  { Wallet.CWalletTx.init (CMerkleTx.init smallTx) with
    vtxPrev := [⟨smallTx, 3, [4, 5], 1, false⟩]
    mapValue := ({} : ExtTreeMap (List UInt8) (List UInt8)).insert (Wallet.ascii "comment") (Wallet.ascii "tea")
    vOrderForm := [(Wallet.ascii "item", Wallet.ascii "tea")]
    nTimeReceived := 9
    fFromMe := 1
    strFromAccount := Wallet.ascii "shop"
    vfSpent := [false, true] }

theorem paidRecord_readBack : ∃ after,
    Wallet.CWalletTx.unserialize CDataStream.read toyWalletLayout false
      (CDataStream.ofBytes (paidRecord.serialize.1 ++ [7])) = .ok (asStored paidRecord false, after) ∧
    after.bytes = [7] := by
  have bounded : Bounded smallTx := ⟨by decide, by decide, by decide, by decide⟩
  have storable : Storable paidRecord :=
    { merkle := ⟨bounded, by decide, by decide⟩
      vtxPrev := by decide
      supporting := by
        intro tx member
        rw [List.mem_singleton.mp member]
        exact ⟨bounded, by decide, by decide⟩
      mapValue := by decide
      values := by
        intro key value known
        simp only [paidRecord, ExtTreeMap.getElem?_insert, ExtTreeMap.getElem?_empty] at known
        split_ifs at known with same
        cases LawfulEqCmp.eq_of_compare same
        cases known
        exact ⟨by decide, by decide⟩
      vOrderForm := by decide
      orders := by
        intro item member
        rw [List.mem_singleton.mp member]
        exact ⟨by decide, by decide⟩
      strFromAccount := by decide
      vfSpent := by decide }
  have unreserved : Unreserved paidRecord := ⟨by decide +kernel, by decide +kernel, by decide +kernel⟩
  exact ((walletTx_readBack toyWalletLayout unreserved).2.2 storable false [7]).2 (by decide +kernel)

def crowdedRecord : Wallet.CWalletTx :=
  { Wallet.CWalletTx.init (CMerkleTx.init smallTx) with
    vtxPrev := List.replicate (MAX_SIZE + 1) (CMerkleTx.init smallTx) }

theorem crowdedRecord_unreadable : Unreserved crowdedRecord ∧
    ∀ (layout : WalletLayout) (fMerkleVerified : Bool), ∃ e,
      Wallet.CWalletTx.unserialize CDataStream.read layout fMerkleVerified
        (CDataStream.ofBytes crowdedRecord.serialize.1) = .error e := by
  refine ⟨⟨ExtTreeMap.not_mem_empty, ExtTreeMap.not_mem_empty, ExtTreeMap.not_mem_empty⟩, ?_⟩
  intro layout fMerkleVerified
  have bounded : MerkleBounded crowdedRecord.toCMerkleTx :=
    ⟨⟨by decide, by decide, by decide, by decide⟩, by decide, by decide⟩
  have length : crowdedRecord.vtxPrev.length = MAX_SIZE + 1 := List.length_replicate
  have size : Refuses StreamHolds (readCompactSize CDataStream.read)
      (writeCompactSize crowdedRecord.vtxPrev.length) :=
    refuses_compactSize dataStream_delivers (by omega) (by rw [length, MAX_SIZE]; omega)
  have refuses : Refuses StreamHolds
      (Wallet.CWalletTx.unserialize CDataStream.read layout fMerkleVerified)
      (crowdedRecord.toCMerkleTx.serialize ++ (writeCompactSize crowdedRecord.vtxPrev.length ++ [] ++ [])) :=
    .after (decodes_merkleTx dataStream_delivers layout bounded fMerkleVerified) size.bind.bind
  rw [List.append_nil, List.append_nil] at refuses
  have start : ∀ wtx : Wallet.CWalletTx, ∃ rest, wtx.serialize.1 =
      (wtx.toCMerkleTx.serialize ++ writeCompactSize wtx.vtxPrev.length) ++ rest := by
    intro wtx
    rw [Wallet.CWalletTx.serialize, Wallet.CWalletTx.serReadWrite, serializeVector, List.append_assoc]
    exact ⟨_, (List.append_assoc _ _ _).symm⟩
  obtain ⟨rest, split⟩ := start crowdedRecord
  rw [split]
  refine refuses _ rest _ le_rfl (streamHolds_ofBytes _ ?_)
  rw [length]
  decide +kernel

end RitCoin.Proof
