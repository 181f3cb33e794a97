import RitCoin.Model.GetData
import RitCoin.Proof.Runs
import RitCoin.Proof.Serialize

namespace RitCoin.Proof
open Lib Model Std
variable {inv entry : CInv} {P : Primitives} {events : List Event} {node : Node} {chain : List Placed}
  {service : Service}

def held (node : Node) (mapRelay : ExtTreeMap CInv (List UInt8)) (inv : CInv) : Bool :=
  if inv.type = MSG_BLOCK then node.mapBlockIndex.contains inv.hash
  else decide (inv.type = MSG_TX) && mapRelay.contains inv

def Answers (P : Primitives) (mapRelay : ExtTreeMap CInv (List UInt8)) (inv : CInv) : Reply → Prop
  | .block block => inv.type = MSG_BLOCK ∧ P.getHash block = inv.hash
  | .relay command stream => inv.type = MSG_TX ∧ command = "tx" ∧ mapRelay[inv]? = some stream
  | .inv _ => False

def Reply.isData : Reply → Bool
  | .inv _ => false
  | _ => true

def Served (P : Primitives) (node : Node) (before after : Service) (vInv : List CInv) : Prop :=
  ∃ sent, after.vSend = before.vSend ++ sent ∧
    List.Forall₂ (Answers P before.mapRelay) (vInv.filter (held node before.mapRelay)) (sent.filter Reply.isData)

theorem isKnownType_iff (inv : CInv) : inv.isKnownType ↔ inv.type = MSG_TX ∨ inv.type = MSG_BLOCK := by
  have names : Int32.ofNat ppszTypeName.length = 3 := rfl
  have one : (1 : Int32).toInt = 1 := rfl
  have two : (2 : Int32).toInt = 2 := rfl
  have three : (3 : Int32).toInt = 3 := rfl
  simp only [CInv.isKnownType, names, Bool.and_eq_true, decide_eq_true_eq, ge_iff_le, MSG_TX, MSG_BLOCK,
    Int32.le_iff_toInt_le, Int32.lt_iff_toInt_lt, ← Int32.toInt_inj, one, two, three]
  omega

theorem toString_ok (known : inv.isKnownType) : ∃ text, inv.toString = .ok text := by
  have name : ∃ command, inv.getCommand = .ok command := by
    rw [CInv.getCommand, if_neg (not_not.mpr known)]
    rcases (isKnownType_iff inv).mp known with type | type
    all_goals rw [type]; exact ⟨_, rfl⟩
  obtain ⟨command, name⟩ := name
  rw [CInv.toString, name]
  exact ⟨_, rfl⟩

theorem getCommand_tx (type : inv.type = MSG_TX) : inv.getCommand = .ok "tx" := by
  rw [CInv.getCommand, if_neg (not_not.mpr ((isKnownType_iff inv).mpr (.inl type))), type]
  rfl

theorem toString_unknown (unknown : ¬ inv.isKnownType) :
    inv.toString = .error (.throw "CInv::GetCommand() : type=%d unknown type") := by
  rw [CInv.toString, CInv.getCommand, if_pos unknown]
  rfl

theorem Inv.getHash_blockAt (inv : Inv P events node chain) {h : Uint256} {e : CBlockIndex}
    (found : node.mapBlockIndex[h]? = some e) : P.getHash (node.blockAt e) = h := by
  obtain ⟨block, holds, header⟩ := inv.filed h e found
  rw [Node.blockAt, holds.readBlockAt, Option.getD_some, Primitives.getHash, header]
  exact inv.rooted.header h e found

theorem Service.inventory_same (service : Service) (hash : Uint256) :
    (service.inventory hash).vSend = service.vSend ∧ (service.inventory hash).mapRelay = service.mapRelay := by
  unfold Service.inventory
  split <;> exact ⟨rfl, rfl⟩

theorem Inv.sendBlock_ok (inv : Inv P events node chain) (service : Service) (type : entry.type = MSG_BLOCK) :
    ∃ after, service.sendBlock node entry.hash = .ok after ∧ after.mapRelay = service.mapRelay ∧
      Served P node service after [entry] := by
  have has : held node service.mapRelay entry = node.mapBlockIndex.contains entry.hash := if_pos type
  unfold Service.sendBlock Served
  cases found : node.mapBlockIndex[entry.hash]? with
  | none =>
    rw [contains_eq_false.mpr found] at has
    refine ⟨service, rfl, rfl, [], (List.append_nil _).symm, ?_⟩
    rw [List.filter_cons_of_neg (by simp [has])]
    exact .nil
  | some pindex =>
    have inside : node.mapBlockIndex.contains entry.hash := contains_eq_true.mpr ⟨pindex, found⟩
    have answer : Answers P service.mapRelay entry (.block (node.blockAt pindex)) :=
      ⟨type, inv.getHash_blockAt found⟩
    rw [List.filter_cons_of_pos (has.trans inside), List.filter_nil]
    dsimp only
    split_ifs with last
    · rw [inv.tip.pindexBest]
      refine ⟨_, rfl, rfl, [.block (node.blockAt pindex), .inv [⟨MSG_BLOCK, node.hashBestChain⟩]], ?_, ?_⟩
      · simp [Service.pushMessage]
      · exact .cons answer .nil
    · exact ⟨_, rfl, rfl, [.block (node.blockAt pindex)], rfl, .cons answer .nil⟩

theorem sendRelay_ok (node : Node) (service : Service) (type : entry.type = MSG_TX) :
    ∃ after, service.sendRelay entry = .ok after ∧ after.mapRelay = service.mapRelay ∧
      Served P node service after [entry] := by
  have has : held node service.mapRelay entry = service.mapRelay.contains entry := by
    simp [held, type, MSG_TX, MSG_BLOCK]
  unfold Service.sendRelay Served
  cases found : service.mapRelay[entry]? with
  | none =>
    rw [contains_eq_false.mpr found] at has
    refine ⟨service, rfl, rfl, [], (List.append_nil _).symm, ?_⟩
    rw [List.filter_cons_of_neg (by simp [has])]
    exact .nil
  | some stream =>
    have inside : service.mapRelay.contains entry := contains_eq_true.mpr ⟨stream, found⟩
    rw [List.filter_cons_of_pos (has.trans inside), List.filter_nil]
    dsimp only
    rw [getCommand_tx type]
    exact ⟨_, rfl, rfl, [.relay "tx" stream], rfl, .cons ⟨type, rfl, found⟩ .nil⟩

theorem Inv.reply_ok (inv : Inv P events node chain) (service : Service) (known : entry.isKnownType) :
    ∃ after, service.reply node entry = .ok after ∧ after.mapRelay = service.mapRelay ∧
      Served P node service after [entry] := by
  unfold Service.reply
  by_cases type : entry.type = MSG_BLOCK
  · rw [if_pos type]
    exact inv.sendBlock_ok service type
  · rw [if_neg type, if_pos known]
    exact sendRelay_ok node service (((isKnownType_iff entry).mp known).resolve_right type)

theorem Inv.entry_ok (inv : Inv P events node chain) (service : Service) (known : entry.isKnownType) :
    ∃ after, service.entry node entry = .ok after ∧ after.mapRelay = service.mapRelay ∧
      Served P node service after [entry] := by
  obtain ⟨text, printed⟩ := toString_ok known
  obtain ⟨after, reply, relay, sent, vSend, answers⟩ := inv.reply_ok service known
  obtain ⟨same, same'⟩ := Service.inventory_same after entry.hash
  refine ⟨after.inventory entry.hash, ?_, same'.trans relay, sent, same.trans vSend, answers⟩
  rw [Service.entry, printed, ok_bind, reply]
  rfl

theorem entry_unknown (node : Node) (service : Service) (unknown : ¬ entry.isKnownType) :
    service.entry node entry = .error (.throw "CInv::GetCommand() : type=%d unknown type") := by
  rw [Service.entry, toString_unknown unknown]
  rfl

theorem Served.append {before middle after : Service} {first second : List CInv}
    (relay : middle.mapRelay = before.mapRelay) (served : Served P node before middle first)
    (rest : Served P node middle after second) : Served P node before after (first ++ second) := by
  obtain ⟨sent, vSend, answers⟩ := served
  obtain ⟨sent', vSend', answers'⟩ := rest
  rw [relay] at answers'
  refine ⟨sent ++ sent', by rw [vSend', vSend, List.append_assoc], ?_⟩
  rw [List.filter_append, List.filter_append]
  exact List.rel_append answers answers'

theorem Inv.entries_served (inv : Inv P events node chain) {fShutdown : Nat → Bool}
    (running : ∀ left, fShutdown left = false) (vInv : List CInv) (service : Service) :
    Served P node service (service.entries node fShutdown vInv).2 (vInv.takeWhile CInv.isKnownType) := by
  induction vInv generalizing service with
  | nil => exact ⟨[], (List.append_nil _).symm, .nil⟩
  | cons entry vInv ih =>
    unfold Service.entries
    rw [running, if_neg Bool.false_ne_true]
    by_cases known : entry.isKnownType
    · obtain ⟨after, run, relay, served⟩ := inv.entry_ok service known
      rw [run, List.takeWhile_cons_of_pos known]
      exact served.append relay (ih after)
    · rw [entry_unknown node service known, List.takeWhile_cons_of_neg known]
      exact ⟨[], (List.append_nil _).symm, .nil⟩

theorem decodes_inv (entry : CInv) :
    Decodes StreamHolds (CInv.unserialize CDataStream.read) entry.serialize entry := by
  have value : (⟨(UInt32.ofNat entry.type.toUInt32.toNat).toInt32, BitVec.ofNat 256 entry.hash.toNat⟩ : CInv) =
      entry := by
    rw [UInt32.ofNat_toNat, Int32.toInt32_toUInt32, BitVec.ofNat_toNat, BitVec.setWidth_eq]
  have last := (decodes_uint256 dataStream_delivers entry.hash).map
    (f := fun hash => (⟨(UInt32.ofNat entry.type.toUInt32.toNat).toInt32, BitVec.ofNat 256 hash⟩ : CInv))
  rw [value] at last
  exact (decodes_uint32 dataStream_delivers _).bind last

theorem getdata_bytes (sizeof : ElementSize) (vInv : List CInv) (few : vInv.length ≤ 50000) :
    ∃ rest, unserializeVector CDataStream.read (CInv.unserialize CDataStream.read) sizeof
      (.ofBytes (serializeVector CInv.serialize vInv)) = .ok (vInv, rest) := by
  have size : (serializeVector CInv.serialize vInv).length < 2 ^ 32 := by
    have each : ∀ entry : CInv, entry.serialize.length = 36 := fun entry => by simp [CInv.serialize]
    have count := getSizeOfCompactSize_le vInv.length
    rw [length_serializeVector each, List.map_const', List.sum_replicate, smul_eq_mul]
    omega
  have decodes : Decodes StreamHolds _ _ vInv := decodes_vector dataStream_delivers sizeof
    (few.trans (by decide)) fun entry _ => decodes_inv entry
  obtain ⟨rest, run, -⟩ := decodes (.ofBytes _) [] _ le_rfl
    (by rw [List.append_nil]; exact streamHolds_ofBytes _ size)
  exact ⟨rest, run⟩

/-- Every entry that the node can answer is answered exactly if none of them is behind an entry of unknown
type. -/
theorem getdata_served_iff (P : Primitives) (events : List Event) (fShutdown : Nat → Bool) (sizeof : ElementSize)
    (service : Service) (vRecv rest : CDataStream) (vInv : List CInv) (running : ∀ left, fShutdown left = false)
    (message : unserializeVector CDataStream.read (CInv.unserialize CDataStream.read) sizeof vRecv = .ok (vInv, rest))
    (few : vInv.length ≤ 50000) :
    Served P (run P events) service (service.getdata (run P events) fShutdown sizeof vRecv).2 vInv ↔
      ∀ inv ∈ vInv.dropWhile CInv.isKnownType, ¬ held (run P events) service.mapRelay inv := by
  obtain ⟨chain, inv⟩ := exists_inv P events
  have served := inv.entries_served running vInv service
  rw [Service.getdata, message]
  dsimp only
  rw [if_neg (Nat.not_lt.mpr few)]
  rw [← List.filter_eq_nil_iff]
  have split : vInv.filter (held (run P events) service.mapRelay) =
      (vInv.takeWhile CInv.isKnownType).filter (held (run P events) service.mapRelay) ++
        (vInv.dropWhile CInv.isKnownType).filter (held (run P events) service.mapRelay) := by
    rw [← List.filter_append, List.takeWhile_append_dropWhile]
  obtain ⟨sent, vSend, answers⟩ := served
  constructor
  · rintro ⟨sent', vSend', answers'⟩
    obtain rfl := List.append_cancel_left (vSend.symm.trans vSend')
    have length := answers'.length_eq.trans answers.length_eq.symm
    rw [split, List.length_append] at length
    exact List.eq_nil_of_length_eq_zero (by omega)
  · intro none
    refine ⟨sent, vSend, ?_⟩
    rw [split, none, List.append_nil]
    exact answers

def unknownFirst : List CInv := [⟨3, 0⟩, ⟨MSG_BLOCK, hashGenesisBlock toy⟩]

def idle : Service := ⟨∅, ∅, 0, []⟩

theorem getdata_genesis : Served toy (run toy []) idle
    (idle.getdata (run toy []) (fun _ => false) ⟨36, by decide, by decide⟩
      (.ofBytes (serializeVector CInv.serialize unknownFirst.tail))).2 unknownFirst.tail := by
  obtain ⟨rest, message⟩ := getdata_bytes ⟨36, by decide, by decide⟩ unknownFirst.tail (by decide)
  exact (getdata_served_iff toy [] _ _ idle _ rest _ (fun _ => rfl) message (by decide)).mpr (by decide)

theorem unknownFirst_unanswered :
    ∃ entry ∈ unknownFirst, held (run toy []) idle.mapRelay entry ∧
      idle.getdata (run toy []) (fun _ => false) ⟨36, by decide, by decide⟩
          (.ofBytes (serializeVector CInv.serialize unknownFirst)) =
        (.error (.throw "CInv::GetCommand() : type=%d unknown type"), idle) := by
  obtain ⟨rest, message⟩ := getdata_bytes ⟨36, by decide, by decide⟩ unknownFirst (by decide)
  refine ⟨⟨MSG_BLOCK, hashGenesisBlock toy⟩, .tail _ (.head _), ?_, ?_⟩
  · rw [held, if_pos rfl]
    exact contains_eq_true.mpr ⟨_, genesisNode_self⟩
  · rw [Service.getdata, message]
    rfl

end RitCoin.Proof
