import RitCoin.Model.Files

namespace RitCoin.Model
variable {writes : List (Nat × CBlock)} {nFile nBlockPos : Nat} {block : CBlock}

def Holds (writes : List (Nat × CBlock)) (nFile nBlockPos : Nat) (block : CBlock) : Prop :=
  ∃ newer older, writes = newer ++ (nFile, block) :: older ∧ nBlockPos = fileSize older nFile + 8

theorem Holds.cons (holds : Holds writes nFile nBlockPos block) (w : Nat × CBlock) :
    Holds (w :: writes) nFile nBlockPos block := by
  obtain ⟨newer, older, rfl, pos⟩ := holds
  exact ⟨w :: newer, older, rfl, pos⟩

theorem holds_writeToDisk (files : BlockFiles) (block : CBlock) :
    Holds (files.writeToDisk block).1.writes (files.writeToDisk block).2.1
      (files.writeToDisk block).2.2 block :=
  ⟨[], files.writes, rfl, rfl⟩

theorem Holds.writeToDisk {files : BlockFiles} (holds : Holds files.writes nFile nBlockPos block) (new : CBlock) :
    Holds (files.writeToDisk new).1.writes nFile nBlockPos block :=
  holds.cons _

theorem fileSize_le (newer older : List (Nat × CBlock)) (n : Nat) :
    fileSize older n ≤ fileSize (newer ++ older) n := by
  induction newer with
  | nil => exact le_rfl
  | cons w newer ih => exact ih.trans (Nat.le_add_right _ _)

theorem fileSize_cons_self (nFile : Nat) (block : CBlock) (older : List (Nat × CBlock)) :
    fileSize ((nFile, block) :: older) nFile =
      fileSize older nFile + 8 + block.getSerializeSize := by
  simp [fileSize, Nat.add_assoc]

theorem fileSize_newer (newer older : List (Nat × CBlock)) (nFile : Nat) (block : CBlock) :
    fileSize older nFile + 8 + block.getSerializeSize
      ≤ fileSize (newer ++ (nFile, block) :: older) nFile := by
  rw [← fileSize_cons_self]
  exact fileSize_le newer _ nFile

theorem Holds.readBlockAt (holds : Holds writes nFile nBlockPos block) :
    readBlockAt writes nFile nBlockPos = some block := by
  obtain ⟨newer, older, rfl, rfl⟩ := holds
  induction newer with
  | nil => simp [Model.readBlockAt]
  | cons w newer ih =>
    have behind := fileSize_newer newer older nFile block
    rw [List.cons_append, Model.readBlockAt, if_neg ?_, ih]
    rintro ⟨same, pos⟩
    rw [same] at pos
    omega

theorem Holds.unique {block' : CBlock} (holds : Holds writes nFile nBlockPos block)
    (holds' : Holds writes nFile nBlockPos block') : block = block' := by
  have := holds.readBlockAt
  rw [holds'.readBlockAt] at this
  exact (Option.some.inj this).symm

def CBlock.txOffset (block : CBlock) (i : Nat) : Nat :=
  block.txStart + ((block.vtx.take i).map CTransaction.getSerializeSize).sum

theorem getSerializeSize_pos (tx : CTransaction) : 0 < tx.getSerializeSize := by
  unfold CTransaction.getSerializeSize
  omega

theorem txAtOffset_eq_none {offset start : Nat} (before : offset < start) :
    ∀ txs : List CTransaction, txAtOffset offset start txs = none := by
  intro txs
  induction txs generalizing start with
  | nil => rfl
  | cons tx rest ih =>
    rw [txAtOffset, if_neg (by omega), ih (by omega)]

theorem txAtOffset_eq_getElem? (txs : List CTransaction) :
    ∀ start i, i < txs.length →
      txAtOffset (start + ((txs.take i).map CTransaction.getSerializeSize).sum) start txs = txs[i]? := by
  induction txs with
  | nil => intro start i bound; simp at bound
  | cons tx rest ih =>
    intro start i bound
    cases i with
    | zero => simp [txAtOffset]
    | succ i =>
      have step := ih (start + tx.getSerializeSize) i (by simpa using bound)
      have := getSerializeSize_pos tx
      rw [txAtOffset, if_neg (by simp; omega)]
      simpa [Nat.add_assoc] using step

theorem CBlock.txOffset_lt (block : CBlock) {i : Nat} (bound : i < block.vtx.length) :
    block.txOffset i < block.getSerializeSize := by
  have split : (block.vtx.map CTransaction.getSerializeSize).sum =
      ((block.vtx.take i).map CTransaction.getSerializeSize).sum +
        ((block.vtx.drop i).map CTransaction.getSerializeSize).sum := by
    rw [← List.sum_append, ← List.map_append, List.take_append_drop]
  have rest : 0 < ((block.vtx.drop i).map CTransaction.getSerializeSize).sum := by
    rw [List.drop_eq_getElem_cons bound, List.map_cons, List.sum_cons]
    have := getSerializeSize_pos block.vtx[i]
    omega
  unfold CBlock.txOffset CBlock.txStart CBlock.getSerializeSize vtxSize
  omega

theorem Holds.readTx {files : BlockFiles} (holds : Holds files.writes nFile nBlockPos block) {i : Nat}
    {tx : CTransaction} (found : block.vtx[i]? = some tx) :
    files.readTx (some ⟨nFile, nBlockPos, nBlockPos + block.txOffset i⟩) = some tx := by
  have bound : i < block.vtx.length := (List.getElem?_eq_some_iff.mp found).1
  obtain ⟨newer, older, writes, rfl⟩ := holds
  rw [BlockFiles.readTx, writes]
  clear writes
  induction newer with
  | nil =>
    have hit := txAtOffset_eq_getElem? block.vtx (fileSize older nFile + 8 + block.txStart) i bound
    rw [List.nil_append, readTxAt, if_pos rfl, CBlock.txOffset, ← Nat.add_assoc, hit, found]
  | cons w newer ih =>
    obtain ⟨n, other⟩ := w
    rw [List.cons_append, readTxAt]
    split
    · next same =>
        subst same
        have behind := fileSize_newer newer older n block
        have inside := block.txOffset_lt bound
        rw [txAtOffset_eq_none (by dsimp only; omega)]
        exact ih
    · exact ih

end RitCoin.Model
