import RitCoin.Proof.Exchange

namespace RitCoin.Proof
open Lib Model Spec Std
variable {α : Type} {P : Primitives} {settings : Settings} {events : List Event} {server : Node}
  {chain : List Placed} {base : ℕ} {plan : Plan} {c : Connection} {stage : Stage}

theorem Looks.requesterDrops (looks : Looks P server chain base plan c stage) {message : Message}
    {rest : List Message} (sent : c.server.pfrom.vSend = message :: rest)
    (quiet : noise plan.tip message = true) :
    Looks P server chain base plan ⟨c.server.sent, c.requester⟩ stage :=
  { looks with
    toRequester := by
      rw [← looks.toRequester, sent, signal_cons_of_noise quiet, Party.sent, sent]
      rfl }

theorem pushGetBlocks_tip (pnode : CNode) (tip : Uint256) :
    ∃ hashBegin hashEnd vSend, pnode.pushGetBlocks tip 0 = { pnode with
        pindexLastGetBlocksBegin := hashBegin
        hashLastGetBlocksEnd := hashEnd
        vSend := vSend } ∧ signal tip vSend = signal tip pnode.vSend := by
  rw [CNode.pushGetBlocks]
  split_ifs
  · exact ⟨_, _, _, rfl, rfl⟩
  · exact ⟨_, _, _, rfl, by simp [signal, noise]⟩

theorem flatten_append_eq_nil {parts : List (List α)} {rest : List α} (nil : parts.flatten ++ rest = [])
    (nonempty : [] ∉ parts) : parts = [] ∧ rest = [] := by
  rw [List.append_eq_nil_iff, List.flatten_eq_nil_iff] at nil
  refine ⟨List.eq_nil_iff_forall_not_mem.mpr fun part member => ?_, nil.2⟩
  exact nonempty (nil.1 part member ▸ member)

theorem exists_parts {β : Type} {f : α → β} {parts : List (List β)} :
    ∀ {items : List α}, parts.flatten = items.map f →
      ∃ own : List (List α), own.flatten = items ∧ own.map (List.map f) = parts := by
  induction parts with
  | nil =>
    intro items same
    exact ⟨[], by simpa using same, rfl⟩
  | cons part parts ih =>
    intro items same
    obtain ⟨head, tail, rfl, rfl, rest⟩ := List.append_eq_map_iff.mp same
    obtain ⟨own, rfl, rfl⟩ := ih rest.symm
    exact ⟨head :: own, rfl, rfl⟩

section Steps
variable (scene : Scene P settings events server chain base plan)
variable {now : Int} {done flying toAsk : List CBlock} {wanted : List (List CBlock)}

include scene

theorem Looks.requesterGreeted (looks : Looks P server chain base plan c .greeted)
    (rest : signal plan.tip c.server.sent.pfrom.vSend = []) :
    Looks P server chain base plan ⟨c.server.sent, c.requester.version plan.serverHeight⟩
      .request := by
  have toServer : signal plan.tip c.requester.pfrom.vSend = [] := looks.toServer
  rw [version_eq (looks.requesterSilent rfl) (scene.start_eq looks.reached).1]
  exact { looks with
    roles := trivial
    requesterVersion := rfl
    toRequester := rest
    toServer := by
      simp only [looks.roles.2, signal_append, toServer]
      simp [signal, noise, Stage.view, Plan.request]
    requesterSilent := by simp [Stage.view] }

theorem Looks.requesterHailed (height : plan.requesterHeight = base) (looks : Looks P server chain base plan c .hailing)
    (rest : signal plan.tip c.server.sent.pfrom.vSend = []) :
    Looks P server chain base plan ⟨c.server.sent, c.requester.version plan.serverHeight⟩
      .hailed := by
  have toServer : signal plan.tip c.requester.pfrom.vSend = [] := looks.toServer
  obtain ⟨best, isBase⟩ := scene.start_eq looks.reached
  rw [version_eq (looks.requesterSilent rfl) best]
  exact { looks with
    requesterVersion := rfl
    toRequester := rest
    toServer := by
      simp only [looks.roles.2, signal_append, toServer, isBase, ← height]
      simp [signal, noise, Stage.view, Plan.request]
    requesterSilent := by simp [Stage.view] }

theorem Looks.requesterTold (time : Int)
    (looks : Looks P server chain base plan c .announced)
    (rest : signal plan.tip c.server.sent.pfrom.vSend = []) :
    Looks P server chain base plan
      ⟨c.server.sent, c.requester.inv time (plan.first.map P.getHash)⟩
      (.loading [] [] [] plan.first) := by
  have none : c.requester.pfrom.mapAskFor = [] := List.map_eq_nil_iff.mp looks.toAsk
  have new : ∀ h ∈ plan.first.map P.getHash, c.requester.alreadyHave h = false ∧
      c.requester.mapAlreadyAskedFor[h]? = Option.none := by
    intro h member
    obtain ⟨block, inFirst, rfl⟩ := List.mem_map.mp member
    obtain ⟨before, after, gap⟩ := List.append_of_mem (scene.initial.subset inFirst)
    refine ⟨contains_eq_false.mpr (scene.missing gap looks.reached (Nat.zero_le _)), ?_⟩
    rw [looks.unasked rfl]
    exact ExtTreeMap.getElem?_empty
  obtain ⟨asked, last, known, requests, step, order, sound⟩ := inv_new time _ c.requester new
    scene.first_nodup (by simp [none]) looks.sound
  rw [none, List.map_nil, List.nil_append] at order
  have fits : plan.first ≠ [] := looks.fits
  rw [step]
  exact { looks with
    fits := ⟨rfl, List.not_mem_nil⟩
    roles := trivial
    toRequester := by
      simp only [Stage.view, List.flatten_nil, List.nil_append, List.map_nil]
      rw [trailer_of_ne_nil fits]
      exact rest
    toAsk := order
    sound := sound
    unasked := by simp [Stage.unasked, Stage.unannounced] }

theorem Looks.requesterLoads (clock : ∀ now' block, Event.block now' block ∈ events → now' ≤ now) {block : CBlock}
    (looks : Looks P server chain base plan c (.loading done (block :: flying) wanted toAsk))
    (rest : signal plan.tip c.server.sent.pfrom.vSend = flying.map .block ++
      trailer plan.tip plan.cut (wanted.flatten ++ toAsk)) :
    Looks P server chain base plan ⟨c.server.sent, c.requester.block P settings now block⟩
      (.loading (done ++ [block]) flying wanted toAsk) := by
  obtain ⟨split, nonempty⟩ := looks.fits
  obtain ⟨more, gap⟩ := scene.initial
  rw [split, List.append_assoc, List.cons_append, List.cons_append] at gap
  obtain ⟨p, found, rfl⟩ := scene.exists_placed gap.symm
  have reached : Reached P (chain.map Placed.block) (base + done.length + 1) c.requester.node := by
    rw [Nat.add_right_comm]
    exact looks.reached
  rw [Nat.add_right_comm] at found
  obtain ⟨after, outcome, reached'⟩ := reached.next scene.inv scene.grown found clock
  obtain ⟨asked, step⟩ := block_eq (P := P) looks.sound settings now p.block
  rw [outcome] at step
  rw [step]
  exact { looks with
    fits := ⟨by rw [split, List.append_assoc]; rfl, nonempty⟩
    toRequester := rest
    reached := by
      simp only [Stage.view, List.length_append, List.length_singleton]
      rw [show base + 1 + (done.length + 1) = base + done.length + 2 by omega]
      exact reached'
    sound := (looks.sound.insert _).1
    unasked := by simp [Stage.unasked, Stage.unannounced] }

theorem Looks.requesterContinues (time : Int)
    (looks : Looks P server chain base plan c (.loading plan.first [] [] []))
    (rest : signal plan.tip c.server.sent.pfrom.vSend = []) (nonempty : plan.first ≠ []) :
    ∃ stage, Looks P server chain base plan ⟨c.server.sent, c.requester.inv time [plan.tip]⟩ stage := by
  obtain ⟨more, gap⟩ := scene.initial
  have lacking : plan.gap ≠ [] := by
    rw [← gap]
    exact List.append_ne_nil_of_left_ne_nil nonempty _
  obtain ⟨_, hash⟩ := scene.hash_last lacking
  have null : c.server.pfrom.hashContinue = 0 := by
    refine looks.hashContinue.trans ?_
    simp [Stage.view, continueAt]
  obtain ⟨before, split⟩ := List.getLast?_eq_some_iff.mp (scene.last lacking)
  obtain ⟨p, found, isLast⟩ := scene.exists_placed split
  have lengths := congrArg List.length gap
  have lengths' := congrArg List.length split
  rw [List.length_append] at lengths
  rw [List.length_append, List.length_singleton] at lengths'
  by_cases whole : plan.gap.length ≤ plan.first.length
  · have known : c.requester.alreadyHave plan.tip = true := by
      refine contains_eq_true.mpr ?_
      rw [← hash, ← isLast]
      refine looks.reached.have found ?_
      simp only [Stage.view]
      omega
    obtain ⟨_, _, vSend, push, same⟩ :=
      pushGetBlocks_tip (c.requester.pfrom.addInventoryKnown plan.tip) plan.tip
    refine ⟨.finished, ?_⟩
    rw [Party.inv, List.isEmpty_nil, inventory_last known, Party.inv, push]
    exact { looks with
      fits := trivial
      toServer := same.trans looks.toServer
      toRequester := rest
      hashContinue := null
      sound := (looks.sound.insert _).1
      reached := by
        have reached := looks.reached
        simp only [Stage.view] at reached ⊢
        rw [if_pos (by omega), show plan.gap.length = plan.first.length by omega]
        exact reached
      unasked := by simp [Stage.unasked, Stage.unannounced]
      requesterSilent := by simp [Stage.view] }
  · have new : c.requester.alreadyHave plan.tip = false := by
      rw [← hash]
      exact contains_eq_false.mpr (scene.missing split looks.reached (by simp only [Stage.view]; omega))
    have idle : c.requester.pfrom.mapAskFor = [] := List.map_eq_nil_iff.mp looks.toAsk
    obtain ⟨_, _, known, requests, step, asked, sound⟩ := inv_singleton new idle looks.sound time
    refine ⟨.tipWanted, ?_⟩
    rw [step]
    exact { looks with
      fits := Nat.not_le.mp whole
      toRequester := rest
      hashContinue := null
      toAsk := by rw [asked, ← hash]; rfl
      sound := sound
      unasked := by simp [Stage.unasked, Stage.unannounced] }

theorem Looks.requesterEnds (clock : ∀ now' block, Event.block now' block ∈ events → now' ≤ now)
    (looks : Looks P server chain base plan c .tipSent) (rest : signal plan.tip c.server.sent.pfrom.vSend = []) :
    Looks P server chain base plan ⟨c.server.sent, c.requester.block P settings now plan.last⟩
      .finished := by
  have lacking : plan.gap ≠ [] := List.ne_nil_of_length_pos (Nat.zero_lt_of_lt looks.fits)
  have fits : plan.first.length < plan.gap.length := looks.fits
  obtain ⟨before, split⟩ := List.getLast?_eq_some_iff.mp (scene.last lacking)
  obtain ⟨p, found, isLast⟩ := scene.exists_placed split
  have lengths := congrArg List.length split
  rw [List.length_append, List.length_singleton] at lengths
  have reached : Reached P (chain.map Placed.block) (base + 1 + plan.first.length) c.requester.node :=
    looks.reached
  obtain ⟨asked, step⟩ := block_eq (P := P) looks.sound settings now plan.last
  have after : Reached P (chain.map Placed.block) (base + 1 + (Stage.finished.view P plan).done)
      (processBlock P now c.requester.node plan.last).2 := by
    rw [← isLast]
    simp only [Stage.view]
    split_ifs with next
    · rw [show base + 1 + before.length = base + before.length + 1 by omega] at found
      rw [show base + 1 + plan.first.length = base + before.length + 1 by omega] at reached
      obtain ⟨_, outcome, reached'⟩ := reached.next scene.inv scene.grown found clock
      rw [outcome, show base + 1 + plan.gap.length = base + before.length + 2 by omega]
      exact reached'
    · rw [show base + 1 + before.length = base + before.length + 1 by omega] at found
      rw [reached.ahead scene.inv found (by omega)]
      exact reached
  rw [step]
  exact { looks with
    fits := trivial
    toRequester := rest
    reached := after
    sound := (looks.sound.insert _).1
    unasked := by simp [Stage.unasked, Stage.unannounced] }

theorem Looks.requesterReceives (height : plan.requesterHeight = base)
    (looks : Looks P server chain base plan c stage) {clock : Clock}
    (later : ∀ now block, Event.block now block ∈ events → now ≤ clock.now) :
    ∃ stage', Looks P server chain base plan (c.act P settings (.requesterReceives clock)) stage' := by
  rw [Connection.act]
  cases sent : c.server.pfrom.vSend with
  | nil => exact ⟨stage, looks⟩
  | cons message others =>
    simp only
    cases loud : noise plan.tip message with
    | true =>
      refine ⟨stage, ?_⟩
      rw [processMessage_noise clock loud fun e lookup =>
        looks.reached.pnext scene.inv (scene.tip.symm ▸ lookup)]
      exact looks.requesterDrops sent loud
    | false =>
      have view := looks.toRequester
      have silent := looks.requesterVersion
      have tail : c.server.sent.pfrom.vSend = others := by rw [Party.sent, sent]; rfl
      rw [sent, signal_cons_of_not_noise loud, ← tail] at view
      cases stage with
      | greeted =>
        obtain ⟨rfl, rest⟩ := List.cons.inj view
        rw [processMessage_version silent]
        exact ⟨_, looks.requesterGreeted scene rest⟩
      | hailing =>
        obtain ⟨rfl, rest⟩ := List.cons.inj view
        rw [processMessage_version silent]
        exact ⟨_, looks.requesterHailed scene height rest⟩
      | announced =>
        obtain ⟨rfl, rest⟩ := List.cons.inj view
        have short : ¬ (plan.first.map P.getHash).length > 50000 := by
          have := scene.short
          rw [List.length_map]
          omega
        simp only [Party.processMessage, silent, Stage.view, Bool.not_true, if_neg short]
        exact ⟨_, looks.requesterTold scene _ rest⟩
      | loading done flying wanted toAsk =>
        cases flying with
        | cons block flying =>
          obtain ⟨rfl, rest⟩ := List.cons.inj view
          simp only [Party.processMessage, silent, Stage.view, Bool.not_true]
          exact ⟨_, looks.requesterLoads scene later rest⟩
        | nil =>
          simp only [Stage.view, List.map_nil, List.nil_append, trailer] at view
          split_ifs at view with last
          obtain ⟨rfl, rest⟩ := List.cons.inj view
          obtain ⟨isCut, none⟩ := last
          obtain ⟨rfl, rfl⟩ := flatten_append_eq_nil none looks.fits.2
          obtain rfl : plan.first = done := by simpa using looks.fits.1
          simp only [Party.processMessage, silent, Stage.view, Bool.not_true, List.length_singleton]
          exact looks.requesterContinues scene _ rest (scene.nonempty isCut)
      | tipSent =>
        obtain ⟨rfl, rest⟩ := List.cons.inj view
        simp only [Party.processMessage, silent, Stage.view, Bool.not_true]
        exact ⟨_, looks.requesterEnds scene later rest⟩
      | greeting | hailed | request | queued | tipWanted | tipRequested | finished => cases view

theorem Looks.requesterAsks (time : Int)
    (looks : Looks P server chain base plan c (.loading done flying wanted toAsk)) :
    ∃ stage, Looks P server chain base plan { c with requester := c.requester.sendMessages time } stage := by
  obtain ⟨split, nonempty⟩ := looks.fits
  obtain ⟨more, gap⟩ := scene.initial
  have order : c.requester.pfrom.mapAskFor.map Prod.snd = toAsk.map P.getHash := looks.toAsk
  have new : ∀ request ∈ c.requester.pfrom.mapAskFor, c.requester.alreadyHave request.2 = false := by
    intro request member
    have asked := List.mem_map_of_mem (f := Prod.snd) member
    rw [order] at asked
    obtain ⟨block, inAsk, hash⟩ := List.mem_map.mp asked
    obtain ⟨before, after, rfl⟩ := List.append_of_mem inAsk
    have place : plan.gap =
        (done ++ (flying ++ (wanted.flatten ++ before))) ++ block :: (after ++ more) := by
      rw [← gap, split]
      simp
    rw [← hash]
    exact contains_eq_false.mpr (scene.missing place looks.reached (by simp [Stage.view]))
  have version : c.requester.pfrom.nVersion ≠ 0 := of_decide_eq_false looks.requesterVersion
  obtain ⟨_, due, later, requests, step⟩ := sendMessages_requests version looks.idle.2 new time
  rw [requests, List.map_append] at order
  obtain ⟨asked, rest, rfl, isDue, isLater⟩ := List.append_eq_map_iff.mp order
  obtain ⟨parts, rfl, chunks⟩ :=
    exists_parts ((flatten_inChunks (due.map Prod.snd) []).trans isDue.symm)
  refine ⟨.loading done flying (wanted ++ parts) rest, ?_⟩
  have same : (wanted ++ parts).flatten ++ rest = wanted.flatten ++ (parts.flatten ++ rest) := by
    rw [List.flatten_append, List.append_assoc]
  have toServer : signal plan.tip c.requester.pfrom.vSend =
      wanted.map fun blocks => .getdata (blocks.map P.getHash) := looks.toServer
  rw [step]
  exact { looks with
    fits := by
      refine ⟨by rw [split, same], ?_⟩
      rw [List.mem_append, not_or]
      refine ⟨nonempty, fun nil => nil_notMem_inChunks (due.map Prod.snd) [] ?_⟩
      rw [← chunks]
      exact List.mem_map_of_mem (f := List.map P.getHash) nil
    toServer := by
      simp only [signal_append, toServer, ← chunks, Stage.view, List.map_append,
        signal_map (f := Message.getdata) fun _ => rfl]
      rw [List.map_map]
      rfl
    toRequester := by
      have view := looks.toRequester
      simp only [Stage.view] at view ⊢
      rw [same]
      exact view
    hashContinue := by
      have view := looks.hashContinue
      simp only [Stage.view] at view ⊢
      rw [same]
      exact view
    toAsk := isLater.symm
    unasked := by simp [Stage.unasked, Stage.unannounced] }

theorem Looks.requesterAsksTip (time : Int)
    (looks : Looks P server chain base plan c .tipWanted) :
    ∃ stage, Looks P server chain base plan { c with requester := c.requester.sendMessages time } stage := by
  have fits : plan.first.length < plan.gap.length := looks.fits
  have lacking : plan.gap ≠ [] := List.ne_nil_of_length_pos (Nat.zero_lt_of_lt fits)
  obtain ⟨_, hash⟩ := scene.hash_last lacking
  obtain ⟨before, split⟩ := List.getLast?_eq_some_iff.mp (scene.last lacking)
  have lengths := congrArg List.length split
  rw [List.length_append, List.length_singleton] at lengths
  have order : c.requester.pfrom.mapAskFor.map Prod.snd = [plan.tip] := by
    rw [looks.toAsk, ← hash]
    rfl
  have new : ∀ request ∈ c.requester.pfrom.mapAskFor, c.requester.alreadyHave request.2 = false := by
    intro request member
    have asked := List.mem_map_of_mem (f := Prod.snd) member
    rw [order, List.mem_singleton] at asked
    rw [asked, ← hash]
    exact contains_eq_false.mpr (scene.missing split looks.reached (by simp only [Stage.view]; omega))
  have version : c.requester.pfrom.nVersion ≠ 0 := of_decide_eq_false looks.requesterVersion
  have toServer : signal plan.tip c.requester.pfrom.vSend = [] := looks.toServer
  obtain ⟨_, due, later, requests, step⟩ := sendMessages_requests version looks.idle.2 new time
  rw [requests, List.map_append] at order
  rw [step]
  cases due with
  | nil =>
    refine ⟨.tipWanted, ?_⟩
    exact { looks with
      toServer := by
        simp only [List.map_nil, inChunks, List.isEmpty_nil, if_true, List.append_nil]
        exact toServer
      toAsk := by
        rw [← hash] at order
        exact order
      unasked := by simp [Stage.unasked, Stage.unannounced] }
  | cons request due =>
    obtain ⟨isTip, rest⟩ := List.cons.inj order
    obtain ⟨none, none'⟩ := List.append_eq_nil_iff.mp rest
    refine ⟨.tipRequested, ?_⟩
    exact { looks with
      toServer := by
        simp only [signal_append, toServer, List.map_cons, none, isTip]
        rfl
      toAsk := none'
      unasked := by simp [Stage.unasked, Stage.unannounced] }

theorem Looks.requesterSends (looks : Looks P server chain base plan c stage) (clock : Clock) :
    ∃ stage', Looks P server chain base plan (c.act P settings (.requesterSends clock)) stage' := by
  rw [Connection.act]
  by_cases idle : c.requester.pfrom.mapAskFor = []
  · refine ⟨stage, ?_⟩
    rw [sendMessages_idle looks.idle.2 idle]
    exact looks
  · cases stage with
    | loading => exact looks.requesterAsks scene clock.time
    | tipWanted => exact looks.requesterAsksTip scene clock.time
    | _ => exact absurd (List.map_eq_nil_iff.mp looks.toAsk) idle

end Steps

end RitCoin.Proof
