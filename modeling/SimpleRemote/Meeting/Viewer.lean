import SimpleRemote.Meeting.Setting
import SimpleRemote.Transport.Waiting

namespace SimpleRemote
open ByteCodec Interaction

-- how far the viewer has come; `got` is what its peer handed out
inductive ViewerAt where
  | outside
  | joined
  | begun
  | asked
  | refused (ms : UInt64)
  | replied
  | finished
  | keyed
  | wrong
  | peered
  | offered
  | confirmed
  | answered
  | linked (got : List PeerEvent)
  | greeted (got : List PeerEvent)
  | closing (got : List PeerEvent)

namespace Viewer

def delivers (sent : Except LinkError Unit) : Prop := sent = .ok () ∨ ∃ code, sent = .error (.closed code)

end Viewer

namespace Setting
variable (W : Setting)

def heardHello : PeerEvent := .data (Control.encode (.hello W.hello))

def heardDecision (d : Decision) : PeerEvent := .data (Control.encode (.decision d))

-- what the viewer does next, and what it may be answered
inductive ViewerMove : ViewerAt → Ev ViewerSig → ViewerAt → Prop
  | join (t) : ViewerMove .outside ⟨.linkRecv t, .ok (some .joined)⟩ .joined
  | begin : ViewerMove .joined
      ⟨.partyAStart W.viewerScalar VIEWER_ID (hostIdBytes W.viewerCfg.hostId) AAD,
        .ok (W.spake.startA W.viewerInput)⟩ .begun
  | ask {sent} (h : Viewer.delivers sent) :
      ViewerMove .begun ⟨.linkSend (Viewer.relayOf W.start), sent⟩ .asked
  | refused (t) (ms : UInt64) :
      ViewerMove .asked ⟨.linkRecv t, .ok (some (.relay (relayText (.retryAfter ms))))⟩ (.refused ms)
  | replied (t) : ViewerMove .asked ⟨.linkRecv t, .ok (some (.relay (relayText W.reply)))⟩ .replied
  | finish : ViewerMove .replied
      ⟨.finish (W.spake.startA W.viewerInput).2 (W.spake.startB W.hostInput).1,
        .ok W.viewerOutput⟩ .finished
  | keyed (h : W.viewerInput = W.hostInput) : ViewerMove .finished
      ⟨.verifyPeerConfirmation W.viewerOutput W.hostOutput.confirmationMac, .ok ()⟩ .keyed
  | wrong (h : W.viewerInput ≠ W.hostInput) : ViewerMove .finished
      ⟨.verifyPeerConfirmation W.viewerOutput W.hostOutput.confirmationMac,
        .error .confirmationFailed⟩ .wrong
  | peer (ips) : ViewerMove .keyed ⟨.peerNew ips, .ok ()⟩ .peered
  | offer : ViewerMove .peered ⟨.createOffer, .ok (W.offer, W.pending)⟩ .offered
  | confirm : ViewerMove .offered ⟨.linkSend (Viewer.relayOf W.confirm), .ok ()⟩ .confirmed
  | answered (t) :
      ViewerMove .confirmed ⟨.linkRecv t, .ok (some (.relay (relayText W.answered)))⟩ .answered
  | accept : ViewerMove .answered ⟨.acceptAnswer W.pending W.answer, .ok ()⟩ (.linked [])
  | nowLinked (got) (now : Instant) : ViewerMove (.linked got) ⟨.now, now⟩ (.linked got)
  | pollLinked (got) (d : Duration) {es : List PeerEvent}
      (h : got ++ es.filter PeerEvent.carried <+: [W.heardHello]) :
      ViewerMove (.linked got) ⟨.poll d, .ok es⟩ (.linked (got ++ es.filter PeerEvent.carried))
  | localFp (got) : ViewerMove (.linked got) ⟨.localFingerprint, W.viewerFp⟩ (.linked got)
  | remoteFp (got) : ViewerMove (.linked got) ⟨.remoteFingerprint, some W.hostFp⟩ (.linked got)
  | greet (got) : ViewerMove (.linked got)
      ⟨.peerSend (Control.encode (.hello W.viewerHello)), .ok ()⟩ (.greeted got)
  | nowGreeted (got) (now : Instant) : ViewerMove (.greeted got) ⟨.now, now⟩ (.greeted got)
  | pollGreeted (got) (t : Duration) {es : List PeerEvent} (d : Decision)
      (h : got ++ es.filter PeerEvent.carried <+: [W.heardHello, heardDecision d, .closed]) :
      ViewerMove (.greeted got) ⟨.poll t, .ok es⟩ (.greeted (got ++ es.filter PeerEvent.carried))
  | close (got) (h : 2 ≤ got.length) : ViewerMove (.greeted got) ⟨.peerClose, ()⟩ (.closing got)
  | pollClosing (got) (d : Duration) (es : List PeerEvent) :
      ViewerMove (.closing got) ⟨.poll d, .ok es⟩ (.closing got)

def viewerJudges (d : Decision) (r : ConnectResult) : Prop :=
  match Viewer.judgeDecision W.host (.decision d) with
  | .ok host => ∃ ch, r = .ok ⟨host, ch, 0⟩
  | .error e => r = .error e

def viewerEnds : ViewerAt → ConnectResult → Prop
  | .refused ms, r => r = .error (.retryAfter (Duration.fromMillis ms.toNat))
  | .wrong, r => r = .error .wrongCode
  | .greeted got, r => ∃ d rest, got = W.heardHello :: heardDecision d :: rest ∧ W.viewerJudges d r
  | .closing got, r => ∃ d rest, got = W.heardHello :: heardDecision d :: rest ∧ W.viewerJudges d r
  | _, _ => False

end Setting

namespace Viewer
namespace Meets

def timedOut (r : ConnectResult) : Prop := ∃ stage, r = .error (.timeout stage)

-- a wait of the viewer has run into its deadline: it only closes its peer and says so
abbrev GivesUp (q : ViewerM ConnectResult) : Prop :=
  q.Settles (fun o : Op ViewerToServer => o.leaving = true) (fun _ => True) timedOut

variable {W : Setting} {fuel n : Nat} {s : ViewerAt}

abbrev Follows (W : Setting) (n : Nat) (s : ViewerAt) (q : ViewerM ConnectResult) : Prop :=
  q.Follows W.ViewerMove GivesUp W.viewerEnds n s

theorem close_gives_up (ch : Channel) (stage : Stage) :
    GivesUp (finishConnect (.error (.timeout stage), ch)) := by
  rw [GivesUp, finishConnect]
  have hclose : (Channel.close ch : ViewerM Channel).Settles
      (fun o : Op ViewerToServer => o.leaving = true) (fun _ => True) fun _ => True := by
    rw [Channel.close]
    split
    · trivial
    · exact ⟨rfl, fun _ _ => ⟨rfl, fun _ _ => trivial⟩⟩
  exact settles_bind hclose fun _ _ => ⟨stage, rfl⟩

-- the channel of a viewer that waits for the data channel to open
def Linked (W : Setting) (s : ViewerAt) (ch : Channel) : Prop :=
  ∃ got, s = .linked got ∧ got <+: [W.heardHello] ∧ ch.Holds got []

-- and of one that has read the messages `popped`
def Greeted (W : Setting) (popped : List Bytes) (s : ViewerAt) (ch : Channel) : Prop :=
  ∃ got d, s = .greeted got ∧ got <+: [W.heardHello, Setting.heardDecision d, .closed] ∧
    ch.Holds got popped

theorem linked_foreseen : Channel.Foreseen W.ViewerMove (Linked W) where
  now s ch h := by
    obtain ⟨got, rfl, hgot, hch⟩ := h
    refine ⟨⟨(0 : Nat), _, .nowLinked got _⟩, fun t s' hm => ?_⟩
    cases hm
    exact ⟨got, rfl, hgot, hch⟩
  poll s ch d h := by
    obtain ⟨got, rfl, hgot, hch⟩ := h
    refine ⟨⟨.ok [], _, .pollLinked got d (by simpa using hgot)⟩, fun r s' hm => ?_⟩
    cases hm with
    | pollLinked _ _ hes => exact ⟨_, rfl, _, rfl, hes, hch.absorb _⟩

theorem greeted_foreseen (popped : List Bytes) :
    Channel.Foreseen W.ViewerMove (Greeted W popped) where
  now s ch h := by
    obtain ⟨got, d, rfl, hgot, hch⟩ := h
    refine ⟨⟨(0 : Nat), _, .nowGreeted got _⟩, fun t s' hm => ?_⟩
    cases hm
    exact ⟨got, d, rfl, hgot, hch⟩
  poll s ch t h := by
    obtain ⟨got, d, rfl, hgot, hch⟩ := h
    refine ⟨⟨.ok [], _, .pollGreeted got t d (by simpa using hgot)⟩, fun r s' hm => ?_⟩
    cases hm with
    | pollGreeted _ _ d' hes => exact ⟨_, rfl, _, d', rfl, hes, hch.absorb _⟩

theorem finishConnect_follows {got : List PeerEvent} {ch : Channel} {e : ConnectError}
    (hlocal : ch.localClosed = false) (hgot : 2 ≤ got.length)
    (hend : W.viewerEnds (.closing got) (.error e)) :
    Follows W n (.greeted got) (finishConnect (.error e, ch)) := by
  rw [finishConnect, Channel.close, hlocal]
  refine follows_act ⟨(), _, .close got hgot⟩ fun r s hm => ?_
  cases hm
  refine follows_act ⟨.ok [], _, .pollClosing got 0 []⟩ fun r s hm => ?_
  cases hm
  exact follows_ret hend

theorem judgeDecision_follows {got : List PeerEvent} {d : Decision} {rest : List PeerEvent}
    {ch : Channel} (hlocal : ch.localClosed = false)
    (hgot : got = W.heardHello :: Setting.heardDecision d :: rest) :
    Follows W n (.greeted got) (finishConnect (judgeDecision W.host (.decision d), ch)) := by
  have hend (r : ConnectResult) (hr : W.viewerJudges d r) : W.viewerEnds (.closing got) r :=
    ⟨d, rest, hgot, hr⟩
  have hlength : 2 ≤ got.length := by simp [hgot]
  rcases d with _ | reason
  · exact follows_ret ⟨_, rest, hgot, ch, rfl⟩
  · cases reason <;> exact finishConnect_follows hlocal hlength (hend _ rfl)

theorem decision_read {s : ViewerAt} {ch : Channel} {data : Bytes} {rest : List Bytes}
    (h : Greeted W [Control.encode (.hello W.hello)] s ch) (hpending : ch.pending = data :: rest) :
    ∃ got d rest', s = .greeted got ∧ got = W.heardHello :: Setting.heardDecision d :: rest' ∧
      ch.localClosed = false ∧ data = Control.encode (.decision d) := by
  obtain ⟨got, d, rfl, hgot, hch⟩ := h
  have hpayloads := hch.pending
  rw [hpending] at hpayloads
  rcases prefix_script hgot with rfl | rfl | rfl | rfl
  · simp [payloads] at hpayloads
  · simp [payloads, Setting.heardHello] at hpayloads
  all_goals
    refine ⟨_, d, _, rfl, rfl, hch.localClosed, ?_⟩
    simp only [payloads, Setting.heardHello, Setting.heardDecision, List.cons_append,
      List.nil_append, List.cons.injEq, true_and] at hpayloads
    exact hpayloads.1.symm

theorem closed_read {popped : List Bytes} {s : ViewerAt} {ch : Channel} (h : Greeted W popped s ch)
    (hpending : ch.pending = []) (hclosed : ch.remoteClosed = true) : popped.length = 2 := by
  obtain ⟨got, d, rfl, hgot, hch⟩ := h
  have hcontains := hch.remoteClosed
  rw [hclosed] at hcontains
  have hpayloads := hch.pending
  rw [hpending, List.append_nil] at hpayloads
  rcases prefix_script hgot with rfl | rfl | rfl | rfl
  case inr.inr.inr =>
    rw [← hpayloads]
    rfl
  all_goals simp [Setting.heardHello, Setting.heardDecision] at hcontains

theorem awaitDecision_follows {cfg : Config} {ch : Channel} (hn : n ≤ fuel)
    (h : Greeted W [Control.encode (.hello W.hello)] s ch) :
    Follows W n s (awaitDecision fuel cfg W.host ch >>= finishConnect) := by
  have hI := greeted_foreseen (W := W) [Control.encode (.hello W.hello)]
  rw [awaitDecision, Prog.bind_assoc]
  obtain ⟨hallow, hnow⟩ := hI.now s ch h
  refine follows_call hallow fun t s₁ hm => ?_
  rw [nextControl, Prog.bind_assoc, Prog.bind_assoc]
  refine follows_bind (Channel.next_follows hI hn (hnow t s₁ hm)) fun s₂ r hr => ?_
  obtain ⟨data, rest, ch₂, h₂, hpending, rfl⟩ | ⟨h₂, hpending, htimeout | ⟨hclosed, hremote⟩⟩ := hr
  · obtain ⟨got, d, rest', rfl, hgot, hlocal, rfl⟩ := decision_read h₂ hpending
    rw [decodes, decode_decision]
    have hjudge : ({ ch₂ with pending := rest } : Channel).localClosed = false := hlocal
    exact judgeDecision_follows hjudge hgot
  · obtain ⟨r, ch₂⟩ := r
    obtain rfl : r = .ok .timedOut := htimeout
    exact follows_given_up (close_gives_up ch₂ .decision)
  · have := closed_read h₂ hpending hremote
    simp at this

theorem hello_read {s : ViewerAt} {ch : Channel} {data : Bytes} {rest : List Bytes}
    (h : Greeted W [] s ch) (hpending : ch.pending = data :: rest) :
    data = Control.encode (.hello W.hello) ∧ Greeted W [data] s { ch with pending := rest } := by
  obtain ⟨got, d, rfl, hgot, hch⟩ := h
  have hpayloads := hch.pending
  rw [hpending] at hpayloads
  refine ⟨?_, got, d, rfl, hgot, hpayloads, hch.remoteClosed, hch.localClosed⟩
  rcases prefix_script hgot with rfl | rfl | rfl | rfl
  · simp [payloads] at hpayloads
  all_goals
    simp only [payloads, Setting.heardHello, Setting.heardDecision, List.nil_append,
      List.cons.injEq] at hpayloads
    exact hpayloads.1.symm

theorem greeted_of_linked {got : List PeerEvent} {ch : Channel}
    (h : Linked W (.linked got) ch) : Greeted W [] (.greeted got) ch := by
  obtain ⟨got', hs, hgot, hch⟩ := h
  obtain rfl := ViewerAt.linked.inj hs
  exact ⟨got, .accepted, rfl, hgot.trans ⟨_, rfl⟩, hch⟩

theorem exchangeHello_follows (ideal : W.Ideal) (hsame : W.viewerInput = W.hostInput)
    {ch : Channel} (hn : n ≤ fuel) (h : Linked W s ch) :
    Follows W n s (exchangeHello W.C fuel W.viewerCfg W.viewerKeys ch >>= finishConnect) := by
  obtain ⟨got, rfl, hgot, hch⟩ := h
  rw [exchangeHello, Prog.bind_assoc]
  refine follows_call ⟨_, _, .localFp got⟩ fun r s hm => ?_
  cases hm
  refine follows_act ⟨_, _, .remoteFp got⟩ fun r s hm => ?_
  cases hm
  refine follows_act ⟨_, _, .greet got⟩ fun r s hm => ?_
  cases hm
  have hI := greeted_foreseen (W := W) []
  have h : Greeted W [] (.greeted got) ch := greeted_of_linked ⟨got, rfl, hgot, hch⟩
  obtain ⟨hallow, hnow⟩ := hI.now _ ch h
  refine follows_act hallow fun t s₁ hm => ?_
  change Follows W n s₁ ((nextControl fuel ch (t + W.viewerCfg.t.signalingStep) .hello >>= _) >>=
    finishConnect)
  rw [nextControl, Prog.bind_assoc, Prog.bind_assoc]
  refine follows_bind (Channel.next_follows hI hn (hnow t s₁ hm)) fun s₂ r hr => ?_
  obtain ⟨data, rest, ch₂, h₂, hpending, rfl⟩ | ⟨h₂, hpending, htimeout | ⟨hclosed, hremote⟩⟩ := hr
  · obtain ⟨rfl, h₃⟩ := hello_read h₂ hpending
    have hdecode : Control.decode (Control.encode (.hello W.hello)) = .ok (.hello W.hello) :=
      decode_hello W.hostCfg.protocolVersion
    have hjudge : judgeHello W.C fuel W.viewerCfg W.viewerKeys W.viewerFp W.hostFp W.hello
        { ch₂ with pending := rest } =
        awaitDecision fuel W.viewerCfg W.host { ch₂ with pending := rest } := by
      rw [judgeHello, ideal.hears_host hsame]
    rw [decodes, hdecode]
    change Follows W n s₂ (judgeHello W.C fuel W.viewerCfg W.viewerKeys W.viewerFp W.hostFp W.hello
      { ch₂ with pending := rest } >>= finishConnect)
    rw [hjudge]
    exact awaitDecision_follows hn h₃
  · obtain ⟨r, ch₂⟩ := r
    obtain rfl : r = .ok .timedOut := htimeout
    exact follows_given_up (close_gives_up ch₂ .hello)
  · have := closed_read h₂ hpending hremote
    simp at this

theorem waitReady_follows (ideal : W.Ideal) (hsame : W.viewerInput = W.hostInput)
    {ch : Channel} (hn : n ≤ fuel) (h : Linked W s ch) :
    Follows W n s (waitReady W.C fuel W.viewerCfg W.viewerKeys ch >>= finishConnect) := by
  rw [waitReady, Prog.bind_assoc]
  obtain ⟨hallow, hnow⟩ := (linked_foreseen (W := W)).now s ch h
  refine follows_call hallow fun t s₁ hm => ?_
  rw [Prog.bind_assoc]
  refine follows_bind (Channel.waitOpen_follows linked_foreseen hn (hnow t s₁ hm)) fun s₂ r hr => ?_
  obtain ⟨r, ch₂⟩ := r
  obtain ⟨h₂, hready | htimeout | ⟨hclosed, hremote⟩⟩ := hr
  · obtain rfl : r = .ok .ready := hready
    exact exchangeHello_follows ideal hsame hn h₂
  · obtain rfl : r = .ok .timedOut := htimeout
    exact follows_given_up (close_gives_up ch₂ .connect)
  · obtain ⟨got, rfl, hgot, hch⟩ := h₂
    have hcontains := hch.remoteClosed
    rw [show ch₂.remoteClosed = true from hremote] at hcontains
    have hmem : PeerEvent.closed ∈ got := by simpa using hcontains.symm
    have := hgot.subset hmem
    simp [Setting.heardHello] at this

theorem recvRelay_follows {α : Type} {Q : ViewerAt → α → Prop} {F : ViewerM α → Prop}
    {t : Duration} {stage : Stage} {f : Except ConnectError PakeMsg → ViewerM α}
    (hallow : ∃ r s', W.ViewerMove s ⟨.linkRecv t, r⟩ s')
    (h : ∀ r s', W.ViewerMove s ⟨.linkRecv t, r⟩ s' → ∃ msg, msg.fits ∧
      r = .ok (some (.relay (relayText msg))) ∧
      (f (.ok msg)).Follows W.ViewerMove F Q n s') :
    (recvRelay t stage >>= f).Follows W.ViewerMove F Q n s := by
  rw [recvRelay, Prog.bind_assoc]
  refine follows_call hallow fun r s' hm => ?_
  obtain ⟨msg, hfits, rfl, hf⟩ := h r s' hm
  dsimp only
  rw [viewer_decodes hfits]
  exact hf

theorem awaitAnswer_follows (ideal : W.Ideal) (hsame : W.viewerInput = W.hostInput)
    (hn : n ≤ fuel) :
    Follows W n .confirmed
      (awaitAnswer W.C fuel W.viewerCfg W.viewerKeys W.pending Channel.new >>= finishConnect) := by
  rw [awaitAnswer, Prog.bind_assoc]
  refine recvRelay_follows ⟨_, _, .answered _⟩ fun r s hm => ?_
  cases hm
  refine ⟨W.answered, ideal.answered_fits, rfl, ?_⟩
  change Follows W n .answered
    (takeAnswer W.C fuel W.viewerCfg W.viewerKeys W.pending W.sealedAnswer Channel.new >>=
      finishConnect)
  rw [takeAnswer, ideal.opens_answer hsame]
  refine follows_act ⟨_, _, .accept⟩ fun r s hm => ?_
  cases hm
  exact waitReady_follows ideal hsame hn ⟨[], rfl, List.nil_prefix, Channel.holds_new⟩

theorem openPeer_follows (ideal : W.Ideal) (hsame : W.viewerInput = W.hostInput) (hn : n ≤ fuel) :
    Follows W n .keyed (openPeer W.C fuel W.viewerCfg W.viewerKeys
      W.viewerOutput.confirmationMac.val) := by
  rw [openPeer]
  refine follows_call ⟨_, _, .peer _⟩ fun r s hm => ?_
  cases hm
  refine follows_act ⟨_, _, .offer⟩ fun r s hm => ?_
  cases hm
  have hseal : W.viewerKeys.viewerSide.1.seal W.C (utf8 W.offer) =
      some (W.sealedOffer, ⟨W.viewerKeys.viewerToHost, labelV2h, 1⟩) := rfl
  dsimp only [Prog.bind]
  rw [hseal]
  change Follows W n .offered (sendConfirm W.C fuel W.viewerCfg W.viewerKeys
    W.viewerOutput.confirmationMac.val W.sealedOffer W.pending Channel.new >>= finishConnect)
  rw [sendConfirm, sendRelay, Prog.bind_assoc, Prog.bind_assoc]
  refine follows_call ⟨_, _, .confirm⟩ fun r s hm => ?_
  cases hm
  exact awaitAnswer_follows ideal hsame hn

theorem awaitReply_follows (ideal : W.Ideal) (hn : n ≤ fuel) :
    Follows W n .asked
      (awaitReply W.C fuel W.viewerCfg ⟨(W.spake.startA W.viewerInput).2⟩) := by
  rw [awaitReply]
  refine recvRelay_follows ⟨_, _, .replied _⟩ fun r s hm => ?_
  cases hm with
  | refused t ms =>
      exact ⟨.retryAfter ms, trivial, rfl, follows_ret rfl⟩
  | replied t =>
      refine ⟨W.reply, ideal.reply_fits, rfl, ?_⟩
      change Follows W n .replied ((ViewerPake.finish W.C ⟨(W.spake.startA W.viewerInput).2⟩
        (W.spake.startB W.hostInput).1 W.hostOutput.confirmationMac.val) >>= _)
      rw [ViewerPake.finish, Prog.bind_assoc]
      refine follows_call ⟨_, _, .finish⟩ fun r s hm => ?_
      cases hm
      have hmac : toMac W.hostOutput.confirmationMac.val = .ok W.hostOutput.confirmationMac := by
        rw [toMac, toArr_val]
      simp only [hmac]
      rw [Prog.bind_assoc]
      refine follows_call ?_ fun r s hm => ?_
      · by_cases hsame : W.viewerInput = W.hostInput
        · exact ⟨_, _, .keyed hsame⟩
        · exact ⟨_, _, .wrong hsame⟩
      cases hm with
      | keyed hsame => exact openPeer_follows ideal hsame hn
      | wrong hne => exact follows_ret rfl

theorem connect_follows (ideal : W.Ideal) (hn : n ≤ fuel) :
    Follows W n .outside (connect W.C fuel W.viewerCfg) := by
  rw [connect]
  refine follows_call ⟨_, _, .join _⟩ fun r s hm => ?_
  cases hm
  dsimp only
  rw [joined, ViewerPake.start, ideal.viewerScalar]
  refine follows_act ⟨_, _, .begin⟩ fun r s hm => ?_
  cases hm
  change Follows W n .begun (sendStart W.C fuel W.viewerCfg ⟨(W.spake.startA W.viewerInput).2⟩
    (W.spake.startA W.viewerInput).1)
  rw [sendStart, sendRelay, Prog.bind_assoc]
  refine follows_call ⟨_, _, .ask (.inl rfl)⟩ fun r s hm => ?_
  cases hm with
  | ask h =>
      obtain rfl | ⟨code, rfl⟩ := h <;> exact awaitReply_follows ideal hn

end Meets
end Viewer

end SimpleRemote
