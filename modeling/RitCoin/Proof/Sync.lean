import RitCoin.Proof.Authenticity
import RitCoin.Proof.RequesterSteps
import RitCoin.Proof.ServerSteps

namespace RitCoin.Proof
open Lib Model Spec Std

variable {P : Primitives} {settings : Settings} {events : List Event} {server : Node}
  {chain : List Placed} {base : ℕ} {plan : Plan} {c : Connection} {stage : Stage}

theorem new_known (settings : Settings) (fInbound : Bool) (nBestHeight : Int) :
    Sound (CNode.new settings fInbound nBestHeight).setInventoryKnown ∧
      ∀ h, (CNode.new settings fInbound nBestHeight).setInventoryKnown.count h = false := by
  have known : (CNode.new settings fInbound nBestHeight).setInventoryKnown =
      ⟨∅, [], settings.sendBufferSize.toNat / 1000⟩ := by
    cases fInbound <;> simp [CNode.new, CNode.pushMessage, Mruset.maxSize, Mruset.empty, Mruset.evict]
  rw [known]
  exact ⟨⟨List.nodup_nil, by simp⟩, fun h => ExtTreeSet.contains_empty⟩

section Steps
variable (scene : Scene P settings events server chain base plan)
include scene

theorem Looks.act (height : plan.requesterHeight = base) (looks : Looks P server chain base plan c stage) {action : Action}
    (later : ∀ now block, Event.block now block ∈ events → now ≤ action.clock.now) :
    ∃ stage', Looks P server chain base plan (c.act P settings action) stage' := by
  cases action with
  | serverReceives clock => exact looks.serverReceives scene clock
  | requesterReceives clock => exact looks.requesterReceives scene height later
  | serverSends clock => exact looks.serverSends scene clock
  | requesterSends clock => exact looks.requesterSends scene clock

theorem Looks.run (height : plan.requesterHeight = base) {actions : List Action} :
    ∀ {c : Connection} {stage : Stage}, Looks P server chain base plan c stage →
      (∀ action ∈ actions, ∀ now block, Event.block now block ∈ events → now ≤ action.clock.now) →
      ∃ stage', Looks P server chain base plan (c.run P settings actions) stage' := by
  induction actions with
  | nil => exact fun looks _ => ⟨_, looks⟩
  | cons action actions ih =>
    intro c stage looks later
    rw [List.forall_mem_cons] at later
    obtain ⟨_, looks'⟩ := looks.act scene height later.1
    exact ih looks' later.2

theorem Scene.connect (height : plan.requesterHeight = base) {requester : Node}
    (reached : Reached P (chain.map Placed.block) (base + 1) requester) (fInbound : Bool) :
    Looks P server chain base plan (connect settings server requester fInbound)
      (if fInbound then .hailing else .greeting) := by
  obtain ⟨sound, _⟩ := new_known settings fInbound requester.nBestHeight
  obtain ⟨_, unknown⟩ := new_known settings (!fInbound) server.nBestHeight
  exact {
    fits := by cases fInbound <;> exact trivial
    roles := by cases fInbound <;> exact ⟨rfl, rfl⟩
    node := rfl
    serverVersion := by cases fInbound <;> rfl
    requesterVersion := by cases fInbound <;> rfl
    toServer := by
      cases fInbound with
      | true => rfl
      | false =>
        rw [if_neg Bool.false_ne_true, Stage.view, height, ← (scene.start_eq reached).2]
        rfl
    toRequester := by
      cases fInbound with
      | false => rfl
      | true =>
        rw [if_pos rfl, Stage.view, ← scene.height]
        rfl
    queued := by cases fInbound <;> rfl
    hashContinue := by cases fInbound <;> rfl
    toAsk := by cases fInbound <;> rfl
    reached := by cases fInbound <;> exact reached
    idle := by cases fInbound <;> exact ⟨rfl, rfl⟩
    sound := sound
    unannounced := fun _ => unknown
    unasked := fun _ => rfl
    serverSilent := by cases fInbound <;> exact fun _ => rfl
    requesterSilent := by cases fInbound <;> exact fun _ => rfl }

theorem Looks.quiet {c : Connection} {stage : Stage}
    (looks : Looks P server chain base plan c stage) (quiet : Quiet c) :
    Reached P (chain.map Placed.block) (base + 1 + (Stage.finished.view P plan).done) c.requester.node := by
  have toServer := looks.toServer
  have toRequester := looks.toRequester
  have queued := looks.queued
  have toAsk := looks.toAsk
  have reached := looks.reached
  rw [quiet.messages.2, signal_nil] at toServer
  rw [quiet.messages.1, signal_nil] at toRequester
  rw [quiet.inventory.1] at queued
  rw [quiet.requests.2, List.map_nil] at toAsk
  cases stage with
  | greeting | hailed | tipRequested => cases toServer
  | greeted | hailing | announced | tipSent => cases toRequester
  | queued => exact absurd (List.map_eq_nil_iff.mp queued.symm) looks.fits
  | tipWanted => cases toAsk
  | request =>
    have same : plan.start = plan.tip := by
      by_contra new
      simp [Stage.view, Plan.request, signal, noise, new] at toServer
    have none : 0 = plan.gap.length := by
      refine (scene.tip_iff (Nat.zero_le _) reached).mp ?_
      obtain ⟨p, found, hash⟩ := scene.start
      rw [reached.hashBestChain found, hash, same]
    simp only [Stage.view, ← none, Nat.zero_le, if_true]
    exact reached
  | loading done flying wanted toAsk' =>
    simp only [Stage.view] at toServer toRequester toAsk
    rw [eq_comm, List.map_eq_nil_iff] at toServer toAsk
    rw [eq_comm, List.append_eq_nil_iff, List.map_eq_nil_iff] at toRequester
    subst toServer toAsk
    obtain ⟨rfl, trailing⟩ := toRequester
    obtain rfl : plan.first = done := by simpa using looks.fits.1
    have uncut : plan.cut = false := by
      by_contra cut
      simp [trailer, cut] at trailing
    have whole := scene.whole uncut
    simp only [Stage.view, whole, Nat.le_succ, if_true] at reached ⊢
    exact reached
  | finished => exact reached

end Steps

theorem exists_scene (P : Primitives) (settings : Settings) (events events' : List Event)
    (behind : Behind P (run P events) (run P events')) :
    ∃ chain base plan, Scene P settings events (run P events) chain base plan ∧
      plan.requesterHeight = base ∧ plan.gap = gap (run P events) (run P events') ∧
      plan.first = getblocksAnswer settings plan.gap ∧
      Reached P (chain.map Placed.block) (base + 1) (run P events') := by
  obtain ⟨chain, inv, grown⟩ := exists_grown P events
  obtain ⟨own, inv'⟩ := exists_inv P events'
  have ancestor := behind.ancestor
  rw [inv.bestBlocks, inv'.bestBlocks] at ancestor
  obtain ⟨last, positive, atEnd, tip⟩ := inv'.tip_at
  -- the tip of the requester is at height `base`
  obtain ⟨base, length⟩ : ∃ base, own.length = base + 1 := ⟨own.length - 1, by omega⟩
  rw [length, Nat.add_sub_cancel] at atEnd
  have isGap : gap (run P events) (run P events') = (chain.drop (base + 1)).map Placed.block := by
    rw [gap, inv.bestBlocks, inv'.bestBlocks, List.length_map, length, List.map_drop]
  have missing := behind.missing
  have nonzero := behind.nonzero
  rw [isGap] at missing nonzero
  obtain ⟨cut, whole, nonempty, answers⟩ := inv.getBlocksLoop settings.sendBufferSize 500 0 base
    (by decide) (Nat.zero_le _) (fun p member => nonzero _ (List.mem_map_of_mem member)) _ rfl
  let blocks := (chain.drop (base + 1)).map Placed.block
  let plan : Plan :=
    { tip := (run P events).hashBestChain
      start := (run P events').hashBestChain
      serverHeight := (run P events).nBestHeight
      requesterHeight := base
      gap := blocks
      first := getblocksAnswer settings blocks
      last := blocks.getLast?.getD .null
      cut := cut }
  obtain ⟨p, found, same⟩ : ∃ p, chain[base]? = some p ∧ p.block = last.block := by
    obtain ⟨more, append⟩ := ancestor
    have here := congrArg (fun blocks => blocks[base]?) append
    simp only [List.getElem?_append, List.length_map, length, Nat.lt_succ_self, if_true,
      List.getElem?_map, atEnd, Option.map_some] at here
    exact Option.map_eq_some_iff.mp here.symm
  have reached : Reached P (chain.map Placed.block) (base + 1) (run P events') := by
    refine ⟨⟨events', own, inv', ?_⟩, fun block member => missing block (List.map_drop ▸ member)⟩
    rw [List.prefix_iff_eq_take.mp ancestor, List.length_map, length]
  refine ⟨chain, base, plan, ?_, rfl, isGap.symm, rfl, reached⟩
  exact {
    inv := inv
    grown := grown
    tip := rfl
    height := rfl
    start := ⟨p, found, by rw [same, ← tip]⟩
    gap := rfl
    last := fun more => by
      change blocks.getLast? = some (blocks.getLast?.getD .null)
      rw [List.getLast?_eq_some_getLast more, Option.getD_some]
    nonzero := nonzero
    initial := answer_prefix _ _ _ _
    short := answer_length _ _ _ _
    whole := whole
    nonempty := nonempty
    answers := answers }

/-- Once nothing is left to do, the requester has the tip of the server exactly when one answer to
`getblocks`, with one more block, was enough for all it lacked: the tip that is announced after a
longer answer's last block has an unknown parent, and no other `getblocks` follows. -/
theorem synced_iff_one_answer (P : Primitives) (settings : Settings) (events events' : List Event)
    (fInbound : Bool) (actions : List Action) (behind : Behind P (run P events) (run P events'))
    (clock : ∀ action ∈ actions, ∀ now block, Event.block now block ∈ events → now ≤ action.clock.now)
    (quiet : Quiet ((connect settings (run P events) (run P events') fInbound).run P settings actions)) :
    ((connect settings (run P events) (run P events') fInbound).run P settings
        actions).requester.node.hashBestChain = (run P events).hashBestChain ↔
      (gap (run P events) (run P events')).length ≤
        (getblocksAnswer settings (gap (run P events) (run P events'))).length + 1 := by
  obtain ⟨chain, base, plan, scene, height, isGap, first, reached⟩ :=
    exists_scene P settings events events' behind
  obtain ⟨stage, looks⟩ := Looks.run scene height (scene.connect height reached fInbound) clock
  have final := looks.quiet scene quiet
  have initial := scene.initial.length_le
  rw [← isGap, ← first]
  rw [scene.tip, scene.tip_iff ?_ final]
  · simp only [Stage.view]
    split_ifs <;> omega
  · simp only [Stage.view]
    split_ifs <;> omega

def fourthBlock : CBlock := toyBlock (toy.getHash thirdBlock) 120 0 1

def fifthBlock : CBlock := toyBlock (toy.getHash fourthBlock) 150 0 1

def sixthBlock : CBlock := toyBlock (toy.getHash fifthBlock) 180 0 1

def toHeight3 : List Event := [firstBlock, secondBlock, thirdBlock].map (.block toyNow)

def toHeight6 : List Event := toHeight3 ++ [fourthBlock, fifthBlock, sixthBlock].map (.block toyNow)

def tenTurns : List Action :=
  let clock : Clock := ⟨toyNow, toyNow⟩
  (List.replicate 10
    [.serverReceives clock, .requesterReceives clock, .serverSends clock, .requesterSends clock]).flatten

def exchange (settings : Settings) : Connection :=
  (connect settings (run toy toHeight6) (run toy toHeight3) false).run toy settings tenTurns

theorem toy_behind : Behind toy (run toy toHeight6) (run toy toHeight3) := by
  decide +kernel

theorem synced_iff_one_answer_six : Quiet (exchange {}) ∧
    (exchange {}).requester.node.hashBestChain = (run toy toHeight6).hashBestChain := by
  have quiet : Quiet (exchange {}) := by decide +kernel
  have clock : ∀ action ∈ tenTurns, ∀ now block, Event.block now block ∈ toHeight6 →
      now ≤ action.clock.now := by
    intro action member now block received
    have same : now = toyNow := by
      simp only [toHeight6, toHeight3, ← List.map_append, List.mem_map, Event.block.injEq] at received
      obtain ⟨_, _, rfl, _⟩ := received
      rfl
    have onTime : ∀ action ∈ tenTurns, toyNow ≤ action.clock.now := by decide
    exact same ▸ onTime action member
  have short : (gap (run toy toHeight6) (run toy toHeight3)).length ≤
      (getblocksAnswer {} (gap (run toy toHeight6) (run toy toHeight3))).length + 1 := by decide +kernel
  refine ⟨quiet, ?_⟩
  rw [exchange] at quiet ⊢
  exact (synced_iff_one_answer toy {} toHeight6 toHeight3 false tenTurns toy_behind clock quiet).mpr short

/-- With a send buffer of 1000 bytes, an answer is one block, and the third of the blocks that are
missing comes right after the first. -/
theorem shortBuffer_stalls : let settings : Settings := { maxSendBuffer := 1 }
    Behind toy (run toy toHeight6) (run toy toHeight3) ∧ Quiet (exchange settings) ∧
      (exchange settings).requester.node.nBestHeight = 4 ∧
      (exchange settings).requester.node.hashBestChain ≠ (run toy toHeight6).hashBestChain := by
  intro settings
  have stalled : Quiet (exchange settings) ∧ (exchange settings).requester.node.nBestHeight = 4 ∧
      (exchange settings).requester.node.hashBestChain ≠ (run toy toHeight6).hashBestChain := by
    decide +kernel
  exact ⟨toy_behind, stalled⟩

end RitCoin.Proof
