import RitCoin.Proof.TxIndex

namespace RitCoin.Proof
open Lib Model Spec

variable {P : Primitives} {blocks : List CBlock} {history : List (TxRef × CTransaction)}

theorem free_of_accepts {now : Int} {block : CBlock}
    (accepts : Accepts now (ledgerOf P blocks) (blocks.length + 1) block) :
    ∀ tx ∈ block.vtx, (ledgerOf P blocks).Free (P.hashTx tx) := by
  refine TxsOk.run (fun done _ => ∀ tx ∈ done, (ledgerOf P blocks).Free (P.hashTx tx)) ?_ accepts.txs (by simp)
  intro done tx _ _ _ _ free ok
  exact List.forall_mem_append.mpr ⟨free, List.forall_mem_singleton.mpr ok.free⟩

/-- Before an id is used again, every output of the transaction that has it is spent. -/
def SpentBefore (P : Primitives) (history : List (TxRef × CTransaction)) : Prop :=
  ∀ p ∈ history, ∀ q ∈ history, p.1 < q.1 → P.hashTx p.2 = P.hashTx q.2 → ∀ n < p.2.vout.length,
    ∃ r, Coins.Consumes (form P) history p r (P.hashTx p.2, n) ∧ r.1 < q.1

theorem consumes_append {p r : TxRef × CTransaction} {o : Uint256 × ℕ} {more : List (TxRef × CTransaction)}
    (consumes : Coins.Consumes (form P) history p r o) (later : ∀ e ∈ more, r.1 < e.1) :
    Coins.Consumes (form P) (history ++ more) p r o where
  creator := List.mem_append_left _ consumes.creator
  spender := List.mem_append_left _ consumes.spender
  before := consumes.before
  id_eq := consumes.id_eq
  spends := consumes.spends
  last e member same before := by
    rcases List.mem_append.mp member with old | new
    · exact consumes.last e old same before
    · exact absurd before (later e new).not_gt

theorem mem_historyOf_unique {p q : TxRef × CTransaction} (first : p ∈ historyOf blocks)
    (second : q ∈ historyOf blocks) (same : p.1 = q.1) : p = q := by
  obtain ⟨k, block, height, at_k, inVtx⟩ := mem_historyOf.mp first
  obtain ⟨k', block', height', at_k', inVtx'⟩ := mem_historyOf.mp second
  rw [same] at height inVtx
  obtain rfl : k = k' := by omega
  obtain rfl := Option.some.inj (at_k.symm.trans at_k')
  exact Prod.ext same (Option.some.inj (inVtx.symm.trans inVtx'))

/-- The block needs the last transaction under the id fully spent, and earlier ones were spent before that. -/
theorem exists_consumes_of_free (valid : ValidChain P blocks) (spent : SpentBefore P (historyOf blocks))
    {p : TxRef × CTransaction} (free : (ledgerOf P blocks).Free (P.hashTx p.2)) (member : p ∈ historyOf blocks)
    {n : ℕ} (output : n < p.2.vout.length) : ∃ r, Coins.Consumes (form P) (historyOf blocks) p r (P.hashTx p.2, n) := by
  obtain ⟨c, found⟩ := Option.isSome_iff_exists.mp (valid.applied.isSome p member)
  have records := valid.applied.records _ c found
  rcases (records.latest p member rfl).lt_or_eq with before | here
  · obtain ⟨r, consumes, -⟩ := spent p member _ records.created before records.id_eq.symm n output
    exact ⟨r, consumes⟩
  · obtain rfl : p = (c.loc, c.tx) := mem_historyOf_unique member records.created here
    have inside : n < c.spent.length := by
      rw [c.sized]
      simpa [form] using output
    cases mark : c.spent[n] with
    | none => exact absurd (mark ▸ List.getElem_mem inside) (free c found)
    | some r =>
      obtain ⟨tx, spender, later, spends⟩ := records.spender n r (by rw [List.getElem?_eq_getElem inside, mark])
      exact ⟨(r, tx), member, spender, later, rfl, spends, fun e inside same _ => records.latest e inside same⟩

theorem spentBefore (valid : ValidChain P blocks) : SpentBefore P (historyOf blocks) := by
  induction valid with
  | genesis =>
    intro p member
    cases member
  | @extend blocks block now valid accepts ih =>
    have later : ∀ e ∈ placedTxs (blocks.length + 1) block.vtx, ∀ p ∈ historyOf blocks, p.1 < e.1 := by
      intro e new p old
      obtain ⟨height, -⟩ := mem_placedTxs.mp new
      refine (historyOf_lt old).trans_le ?_
      rw [← place_height_index e.1, height]
      exact Prod.Lex.toLex_le_toLex.mpr (.inr ⟨rfl, Nat.zero_le _⟩)
    rw [historyOf_append]
    intro p memberP q memberQ before same n output
    rcases List.mem_append.mp memberP with oldP | newP
    · have old : ∃ r, Coins.Consumes (form P) (historyOf blocks) p r (P.hashTx p.2, n) ∧ r.1 < q.1 := by
        rcases List.mem_append.mp memberQ with oldQ | newQ
        · exact ih p oldP q oldQ before same n output
        · have free := free_of_accepts accepts _ (List.mem_of_getElem? (mem_placedTxs.mp newQ).2)
          obtain ⟨r, consumes⟩ := exists_consumes_of_free valid ih (same ▸ free) oldP output
          exact ⟨r, consumes, later q newQ r consumes.spender⟩
      obtain ⟨r, consumes, earlier⟩ := old
      exact ⟨r, consumes_append consumes fun e new => later e new r consumes.spender, earlier⟩
    · rcases List.mem_append.mp memberQ with oldQ | newQ
      · exact absurd before (later p newP q oldQ).not_gt
      · -- one block has no id twice
        obtain ⟨heightP, atP⟩ := mem_placedTxs.mp newP
        obtain ⟨heightQ, atQ⟩ := mem_placedTxs.mp newQ
        have inside : p.1.index < (block.vtx.map P.hashTx).length := by
          simpa using (List.getElem?_eq_some_iff.mp atP).1
        have index := (List.getElem?_inj (j := q.1.index) inside accepts.checked.nodup).mp (by simp [atP, atQ, same])
        rw [← place_height_index p.1, ← place_height_index q.1, place_lt_place] at before
        omega

/-- A transaction above genesis comes under the id of an earlier one only after all outputs of that are consumed. -/
def NoneOverwritten (P : Primitives) (blocks : List CBlock) : Prop :=
  ∀ p q tx tx', txAt blocks p = some tx → txAt blocks q = some tx' → 1 ≤ p.height → p < q →
    P.hashTx tx = P.hashTx tx' → ∀ n < tx.vout.length, ∃ r i, ConsumedBy P blocks p tx n r i ∧ r < q

theorem bestBlocks_noneOverwritten (P : Primitives) (events : List Event) :
    NoneOverwritten P (bestBlocks (run P events)) := by
  obtain ⟨chain, inv⟩ := exists_inv P events
  rw [inv.bestBlocks]
  intro p q tx tx' first second above before same n output
  have memberP : (p, tx) ∈ historyOf (blocksOf chain) := mem_historyOf_blocksOf.mpr ⟨above, first⟩
  have memberQ : (q, tx') ∈ historyOf (blocksOf chain) :=
    mem_historyOf_blocksOf.mpr ⟨above.trans (height_mono before.le), second⟩
  obtain ⟨⟨r, txr⟩, consumes, earlier⟩ := spentBefore inv.valid _ memberP _ memberQ before same n output
  obtain ⟨i, at_i⟩ := List.getElem?_of_mem consumes.spends
  have spends := (spendsAt_iff inv.path).mpr ⟨txr, consumes.spender, at_i⟩
  refine ⟨r, i, ⟨first, output, spends, consumes.before, ?_⟩, earlier⟩
  rintro p' ⟨txp', found, hash⟩ lower
  rcases Nat.eq_zero_or_pos p'.height with zero | pos
  · exact le_of_height_zero zero above
  · exact consumes.last (p', txp') (mem_historyOf_blocksOf.mpr ⟨pos, found⟩) hash lower

end RitCoin.Proof
