import RitCoin.Proof.Exchange

namespace RitCoin.Proof
open Lib Model Spec Std

variable {P : Primitives} {settings : Settings} {events : List Event} {server : Node}
  {chain : List Placed} {base : ℕ} {plan : Plan} {c : Connection} {stage : Stage}

theorem Looks.serverDrops (looks : Looks P server chain base plan c stage) {message : Message}
    {rest : List Message} (sent : c.requester.pfrom.vSend = message :: rest)
    (quiet : noise plan.tip message = true) :
    Looks P server chain base plan ⟨c.server, c.requester.sent⟩ stage :=
  { looks with
    toServer := by
      rw [← looks.toServer, sent, signal_cons_of_noise quiet, Party.sent, sent]
      rfl }

theorem Looks.version_ne (looks : Looks P server chain base plan c stage)
    (told : (stage.view P plan).serverVersion = true) : c.server.pfrom.nVersion ≠ 0 := by
  have silent := looks.serverVersion
  rw [told, Bool.not_true, decide_eq_false_iff_not] at silent
  exact silent

section Steps
variable (scene : Scene P settings events server chain base plan)
include scene

theorem Looks.serverBest (looks : Looks P server chain base plan c stage) :
    c.server.node.pindexBest = some plan.tip := by
  rw [looks.node, scene.inv.tip.pindexBest, scene.tip]

theorem Looks.serverGreeted (looks : Looks P server chain base plan c .greeting)
    (rest : signal plan.tip c.requester.sent.pfrom.vSend = []) :
    Looks P server chain base plan ⟨c.server.version plan.requesterHeight, c.requester.sent⟩
      .greeted := by
  have toRequester : signal plan.tip c.server.pfrom.vSend = [] := looks.toRequester
  rw [version_eq (looks.serverSilent rfl) (looks.serverBest scene)]
  exact { looks with
    serverVersion := rfl
    toServer := rest
    toRequester := by
      simp only [looks.roles.1, signal_append, toRequester, looks.node, scene.height]
      simp [signal, noise, Stage.view]
    serverSilent := by simp [Stage.view] }

theorem Looks.serverHailed (looks : Looks P server chain base plan c .hailed)
    (rest : signal plan.tip c.requester.sent.pfrom.vSend = plan.request) :
    Looks P server chain base plan ⟨c.server.version plan.requesterHeight, c.requester.sent⟩
      .request := by
  have toRequester : signal plan.tip c.server.pfrom.vSend = [] := looks.toRequester
  rw [version_eq (looks.serverSilent rfl) (looks.serverBest scene)]
  exact { looks with
    roles := trivial
    serverVersion := rfl
    toServer := rest
    toRequester := by
      simp only [looks.roles.1, signal_append, toRequester]
      simp [signal, noise, Stage.view]
    serverSilent := by simp [Stage.view] }

theorem Looks.serverAnswers (looks : Looks P server chain base plan c .request) (new : plan.start ≠ plan.tip)
    (rest : signal plan.tip c.requester.sent.pfrom.vSend = []) :
    Looks P server chain base plan ⟨c.server.getblocks settings plan.start 0, c.requester.sent⟩
      .queued := by
  obtain ⟨p, found, hash⟩ := scene.start
  obtain ⟨e, lookup, _⟩ := scene.inv.path.entry base p found
  have more : plan.gap ≠ [] := by
    intro nil
    refine new ?_
    obtain ⟨last, _, atEnd, tip⟩ := scene.inv.tip_at
    have length := (congrArg List.length (scene.gap.symm.trans nil))
    have bound := (List.getElem?_eq_some_iff.mp found).1
    simp only [List.length_map, List.length_drop, List.length_nil] at length
    rw [show chain.length - 1 = base by omega, found] at atEnd
    cases atEnd
    rw [← hash, ← scene.tip, tip]
  have queued : c.server.pfrom.vInventoryToSend = [] := looks.queued
  have step : c.server.getblocks settings plan.start 0 = { c.server with pfrom := { c.server.pfrom with
      vInventoryToSend := plan.first.map P.getHash
      hashContinue := continueAt P plan.cut plan.first } } := by
    rw [hash] at lookup
    simp only [Party.getblocks, looks.node, lookup, scene.inv.pnext_eq found (hash ▸ lookup)]
    rw [scene.answers _ (looks.unannounced rfl) looks.hashContinue, queued, List.nil_append]
  rw [step]
  exact { looks with
    fits := scene.first_ne_nil more
    toServer := rest
    queued := rfl
    hashContinue := rfl }

theorem Looks.serverSendsBlocks {done flying toAsk blocks : List CBlock} {wanted : List (List CBlock)}
    (looks : Looks P server chain base plan c (.loading done flying (blocks :: wanted) toAsk))
    (rest : signal plan.tip c.requester.sent.pfrom.vSend =
      wanted.map fun blocks => .getdata (blocks.map P.getHash)) :
    Looks P server chain base plan
      ⟨(blocks.map P.getHash).foldl Party.data c.server, c.requester.sent⟩
      (.loading done (flying ++ blocks) wanted toAsk) := by
  obtain ⟨split, nonempty⟩ := looks.fits
  rw [List.mem_cons, not_or] at nonempty
  have blocks_ne : blocks ≠ [] := Ne.symm nonempty.1
  rw [List.flatten_cons, List.append_assoc] at split
  have members : ∀ block ∈ blocks, block ∈ chain.map Placed.block ∧ P.getHash block ≠ 0 := by
    intro block member
    have inGap : block ∈ plan.gap := scene.initial.subset (by rw [split]; simp [member])
    exact ⟨scene.mem inGap, scene.nonzero block inGap⟩
  have nodup : ((blocks ++ (wanted.flatten ++ toAsk)).map P.getHash).Nodup := by
    refine scene.first_nodup.sublist (List.Sublist.map _ ?_)
    rw [split]
    exact (List.sublist_append_right flying _).trans (List.sublist_append_right done _)
  have isContinue : c.server.pfrom.hashContinue =
      continueAt P plan.cut (blocks ++ (wanted.flatten ++ toAsk)) := by
    rw [← List.append_assoc]
    exact looks.hashContinue
  have toRequester : signal plan.tip c.server.pfrom.vSend = flying.map .block := by
    refine looks.toRequester.trans ?_
    simp only [Stage.view]
    rw [trailer_of_ne_nil (by simp [blocks_ne]), List.append_nil]
  rw [scene.inv.data_foldl blocks c.server looks.node members nodup isContinue blocks_ne]
  exact { looks with
    fits := ⟨by rw [split, List.append_assoc], nonempty.2⟩
    toServer := rest
    toRequester := by
      simp only [signal_append, toRequester, signal_map (f := Message.block) fun _ => rfl, scene.tip,
        signal_trailer, Stage.view, List.map_append, List.append_assoc]
    hashContinue := rfl }

theorem Looks.serverSendsTip (looks : Looks P server chain base plan c .tipRequested)
    (rest : signal plan.tip c.requester.sent.pfrom.vSend = []) :
    Looks P server chain base plan ⟨c.server.data plan.tip, c.requester.sent⟩ .tipSent := by
  have more : plan.gap ≠ [] := List.ne_nil_of_length_pos (Nat.zero_lt_of_lt looks.fits)
  obtain ⟨member, hash⟩ := scene.hash_last more
  have ne : P.getHash plan.last ≠ c.server.pfrom.hashContinue := by
    rw [show c.server.pfrom.hashContinue = 0 from looks.hashContinue]
    exact scene.nonzero _ member
  have toRequester : signal plan.tip c.server.pfrom.vSend = [] := looks.toRequester
  rw [← hash, scene.inv.data looks.node (scene.mem member), if_neg ne]
  exact { looks with
    toServer := rest
    toRequester := by
      simp only [signal_append, toRequester]
      rfl }

theorem Looks.serverReceives (looks : Looks P server chain base plan c stage) (clock : Clock) :
    ∃ stage', Looks P server chain base plan (c.act P settings (.serverReceives clock)) stage' := by
  rw [Connection.act]
  cases sent : c.requester.pfrom.vSend with
  | nil => exact ⟨stage, looks⟩
  | cons message others =>
    simp only
    cases loud : noise plan.tip message with
    | true =>
      refine ⟨stage, ?_⟩
      rw [processMessage_noise clock loud fun e lookup => scene.childless (looks.node ▸ lookup)]
      exact looks.serverDrops sent loud
    | false =>
      have view := looks.toServer
      have silent := looks.serverVersion
      have tail : c.requester.sent.pfrom.vSend = others := by rw [Party.sent, sent]; rfl
      rw [sent, signal_cons_of_not_noise loud, ← tail] at view
      cases stage with
      | greeting =>
        obtain ⟨rfl, rest⟩ := List.cons.inj view
        rw [processMessage_version silent]
        exact ⟨_, looks.serverGreeted scene rest⟩
      | hailed =>
        obtain ⟨rfl, rest⟩ := List.cons.inj view
        rw [processMessage_version silent]
        exact ⟨_, looks.serverHailed scene rest⟩
      | request =>
        simp only [Stage.view, Plan.request, signal, List.filter_cons, List.filter_nil] at view
        split_ifs at view with new
        obtain ⟨rfl, rest⟩ := List.cons.inj view
        simp only [Party.processMessage, silent, Stage.view, Bool.not_true]
        refine ⟨_, looks.serverAnswers scene ?_ rest⟩
        rintro same
        simp [noise, same] at new
      | loading done flying wanted toAsk =>
        cases wanted with
        | nil => cases view
        | cons blocks wanted =>
          obtain ⟨rfl, rest⟩ := List.cons.inj view
          have short : ¬ (blocks.map P.getHash).length > 50000 := by
            have length := congrArg List.length looks.fits.1
            have := scene.short
            simp only [List.length_append, List.flatten_cons] at length
            rw [List.length_map]
            omega
          simp only [Party.processMessage, silent, Stage.view, Bool.not_true, if_neg short]
          exact ⟨_, looks.serverSendsBlocks scene rest⟩
      | tipRequested =>
        obtain ⟨rfl, rest⟩ := List.cons.inj view
        simp only [Party.processMessage, silent, Stage.view, Bool.not_true]
        exact ⟨_, looks.serverSendsTip scene rest⟩
      | greeted | hailing | queued | announced | tipWanted | tipSent | finished => cases view

theorem Looks.serverSends (looks : Looks P server chain base plan c stage) (clock : Clock) :
    ∃ stage', Looks P server chain base plan (c.act P settings (.serverSends clock)) stage' := by
  rw [Connection.act]
  by_cases idle : c.server.pfrom.vInventoryToSend = []
  · refine ⟨stage, ?_⟩
    rw [sendMessages_idle idle looks.idle.1]
    exact looks
  · cases stage with
    | queued =>
      have queued : c.server.pfrom.vInventoryToSend = plan.first.map P.getHash := looks.queued
      have short := scene.short
      obtain ⟨known, step⟩ := sendMessages_inventory (looks.version_ne rfl) queued looks.idle.1
        scene.first_nodup (fun h _ => looks.unannounced rfl h) (by rw [List.length_map]; omega)
        (by rw [← queued]; exact idle) clock.time
      refine ⟨.announced, ?_⟩
      rw [step]
      have toRequester : signal plan.tip c.server.pfrom.vSend = [] := looks.toRequester
      exact { looks with
        toRequester := by
          simp only [signal_append, toRequester]
          rfl
        queued := rfl
        unannounced := by simp [Stage.unannounced]
        unasked := fun _ => looks.unasked rfl }
    | _ => exact absurd looks.queued idle

end Steps

end RitCoin.Proof
