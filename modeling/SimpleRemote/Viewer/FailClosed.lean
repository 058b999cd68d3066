import SimpleRemote.Disclosure
import SimpleRemote.Transport.Control

namespace SimpleRemote
open ByteCodec Interaction

namespace Viewer

structure Answered (C : Crypto) (cfg : Config) extends Offered C cfg where
  startDelivered : delivered startSent = true
  confirmSent : Except LinkError Unit
  confirmDelivered : delivered confirmSent = true
  answerData : Text
  sealedAnswer : Bytes
  answered : decodeRelay answerData = some (.answer sealedAnswer)
  answer : Text
  opens : openAnswer C toKeyed.keys sealedAnswer = some answer

variable {C : Crypto} {fuel : Nat} {cfg : Config}

def Offered.confirm (o : Offered C cfg) : ViewerToServer :=
  relayOf (.confirm o.macA o.sealedOffer)

def Answered.trace (a : Answered C cfg) : List (Ev ViewerSig) :=
  a.toOffered.trace ++
  [⟨.linkSend a.confirm, a.confirmSent⟩,
    ⟨.linkRecv cfg.t.signalingStep, .ok (some (.relay a.answerData))⟩,
    ⟨.acceptAnswer a.pending a.answer, .ok ()⟩]

structure Linked (C : Crypto) (fuel : Nat) (cfg : Config) extends Answered C cfg where
  linkedAt : Instant
  opening : List (Ev ViewerSig)
  channel : Channel
  opened : Exec (Channel.new.waitOpen (linkedAt + cfg.t.connect) fuel) opening (.ok .ready, channel)

def Linked.trace (l : Linked C fuel cfg) : List (Ev ViewerSig) :=
  l.toAnswered.trace ++ ⟨.now, l.linkedAt⟩ :: l.opening

-- the viewer's own Hello and the wait for the host's
structure Greeting (C : Crypto) (fuel : Nat) (cfg : Config) extends Linked C fuel cfg where
  localFp : Bytes
  remoteFp : Bytes
  greetedAt : Instant

namespace Greeting

def hello (g : Greeting C fuel cfg) : Hello :=
  cfg.keys.makeHello C .viewer g.keys.helloBinding g.localFp g.remoteFp

def trace (g : Greeting C fuel cfg) : List (Ev ViewerSig) :=
  g.toLinked.trace ++
  [⟨.localFingerprint, g.localFp⟩, ⟨.remoteFingerprint, some g.remoteFp⟩,
    ⟨.peerSend (Control.encode (.hello g.hello)), .ok ()⟩, ⟨.now, g.greetedAt⟩]

def accepts (g : Greeting C fuel cfg) (hello : Hello) (host : PeerIdentity) : Prop :=
  verifyHello C hello .host g.keys.helloBinding g.remoteFp g.localFp = .ok host

end Greeting

structure Greeted (C : Crypto) (fuel : Nat) (cfg : Config) extends Greeting C fuel cfg where
  reading : List (Ev ViewerSig)
  hostHello : Hello
  greeted : Channel
  received : Exec (channel.next (greetedAt + cfg.t.signalingStep) fuel) reading
    (.ok (.msg (.hello hostHello)), greeted)
  host : PeerIdentity
  verified : toGreeting.accepts hostHello host

def Greeted.trace (g : Greeted C fuel cfg) : List (Ev ViewerSig) := g.toGreeting.trace ++ g.reading

structure Connected (C : Crypto) (fuel : Nat) (cfg : Config) extends Greeted C fuel cfg where
  decidedAt : Instant
  waiting : List (Ev ViewerSig)
  final : Channel
  decided : Exec (greeted.next (decidedAt + cfg.t.approval + cfg.t.signalingStep) fuel) waiting
    (.ok (.msg (.decision .accepted)), final)

namespace Connected

def trace (c : Connected C fuel cfg) : List (Ev ViewerSig) :=
  c.toGreeted.trace ++ ⟨.now, c.decidedAt⟩ :: c.waiting

def session (c : Connected C fuel cfg) : ViewerSession := ⟨c.host, c.final, 0⟩

end Connected

def IsOk : ConnectResult → Prop
  | .ok _ => True
  | .error _ => False

theorem steadyOk : Steady (fun _ => False) IsOk where
  recv _ := id
  partyAStart _ _ _ _ := id
  finish _ _ := id
  verify _ _ := id
  createOffer := id
  acceptAnswer _ _ := id
  onPeer _ _ := id
  error _ := id

theorem sendRelay_uses (msg : PakeMsg) :
    (sendRelay msg).Uses (S := ViewerSig) fun _ => ¬ False := by
  refine ⟨id, fun r => ?_⟩
  rcases r with e | u
  · cases e <;> trivial
  · trivial

theorem sendRelay_ok {msg : PakeMsg} {tr : List (Ev ViewerSig)}
    (h : Exec (sendRelay msg) tr (.ok ())) :
    ∃ sent, tr = [⟨.linkSend (relayOf msg), sent⟩] ∧ delivered sent = true := by
  obtain ⟨sent, tr', rfl, hsent⟩ := exec_call_bind.mp h
  rcases sent with e | u
  · cases e with
    | closed code =>
        obtain ⟨rfl, -⟩ := exec_ret.mp hsent
        exact ⟨_, rfl, rfl⟩
    | _ => simp at hsent
  · obtain ⟨rfl, -⟩ := exec_ret.mp hsent
    exact ⟨_, rfl, rfl⟩

theorem connected_of_ok {tr : List (Ev ViewerSig)} {s : ViewerSession}
    (h : Exec (connect C fuel cfg) tr (.ok s)) :
    ∃ c : Connected C fuel cfg, tr = c.trace ∧ s = c.session := by
  have hok : Hits (fun _ => False) IsOk tr (.ret (.ok s) : ViewerM ConnectResult) :=
    .inr ⟨_, rfl, trivial⟩
  obtain ⟨b, tr₁, rfl, hstart, hok⟩ := connect_hits steadyOk h hok
  rw [sendStart] at hstart
  obtain ⟨tr₂, started, tr₃, rfl, hsend, hreply, hreplied⟩ :=
    hits_bind hstart hok (sendRelay_uses _)
  rcases started with e | u
  · exact absurd hreplied (Prog.Never.not_hits (steadyOk.error_never e) hreply)
  obtain ⟨startSent, rfl, hstarted⟩ := sendRelay_ok hsend
  obtain ⟨replyData, pb, macB, output, mac, tr₄, rfl, hdecode, hmac, hpeer, hok⟩ :=
    awaitReply_hits steadyOk hreply hreplied
  obtain ⟨offer, pending, sealedOffer, sender, tr₅, rfl, hseal, hconfirm, hok⟩ :=
    openPeer_hits steadyOk (fun _ => id) hpeer hok
  rw [sendConfirm] at hconfirm
  obtain ⟨tr₆, confirmed, tr₇, rfl, hsend', hanswer, hanswered⟩ :=
    hits_bind_bind hconfirm hok (sendRelay_uses _)
  rcases confirmed with e | u
  · exact absurd hanswered (Prog.Never.not_hits (steadyOk.close_never e _) hanswer)
  obtain ⟨confirmSent, rfl, hconfirmed⟩ := sendRelay_ok hsend'
  obtain ⟨answerData, sealedAnswer, answer, tr₈, rfl, hdecode', hopen, hready, hok⟩ :=
    awaitAnswer_hits steadyOk hanswer hanswered
  obtain ⟨linkedAt, opening, channel, tr₉, rfl, hopened, hexchange, hok⟩ :=
    waitReady_hits steadyOk hready hok
  obtain ⟨localFp, remoteFp, greetedAt, reading, hostHello, greeted, host, tr₁₀, rfl, hreceived,
    hverified, hdecision, hok⟩ := exchangeHello_hits steadyOk hexchange hok
  obtain ⟨decidedAt, waiting, final, rfl, hdecided, hs, -⟩ := awaitDecision_hits steadyOk hdecision hok
  refine ⟨{ toBegan := b, startSent, replyData, pb, macB, replied := hdecode, output, mac
            isMac := hmac, offer, pending, sealedOffer, sender, sealed := hseal
            startDelivered := hstarted, confirmSent, confirmDelivered := hconfirmed, answerData
            sealedAnswer, answered := hdecode', answer, opens := hopen, linkedAt, opening, channel
            opened := hopened, localFp, remoteFp, greetedAt, reading, hostHello, greeted
            received := hreceived, host, verified := hverified, decidedAt, waiting, final
            decided := hdecided }, ?_, ?_⟩
  · simp only [Connected.trace, Greeted.trace, Greeting.trace, Linked.trace, Answered.trace,
      Offered.trace, Keyed.trace, List.append_assoc, List.cons_append, List.nil_append]
    rfl
  · exact Except.ok.inj (Prog.ret.inj hs)

-- whatever happens then, the peer is closed if there is one and an error comes back
def Fails (q : ViewerM ConnectResult) : Prop :=
  q.Must (fun o : Op ViewerToServer => o.waiting = true) fun r => ∃ e, r = .error e

theorem fails_error (e : ConnectError) : Fails (.ret (.error e)) := ⟨e, rfl⟩

theorem fails_close (e : ConnectError) (ch : Channel) : Fails (finishConnect (.error e, ch)) := by
  have hclose : (Channel.close ch : ViewerM Channel).Must
      (fun o : Op ViewerToServer => o.waiting = true) fun _ => True := by
    rw [Channel.close]
    split
    · trivial
    · exact ⟨rfl, fun _ => ⟨rfl, fun _ => trivial⟩⟩
  exact must_bind hclose fun _ _ => ⟨e, rfl⟩

theorem Fails.path {p q : ViewerM ConnectResult} {tr : List (Ev ViewerSig)} (hp : Fails p)
    (h : Path p tr q) : Fails q := (Prog.Must.path hp h).2

section Reaches

theorem sendRelay_reaches {α : Type} {msg : PakeMsg} {sent : Except LinkError Unit}
    (hs : delivered sent = true) (f : Except ConnectError Unit → ViewerM α) :
    Path (sendRelay msg >>= f) [⟨.linkSend (relayOf msg), sent⟩] (f (.ok ())) := by
  have hsend : Exec (sendRelay msg) [⟨.linkSend (relayOf msg), sent⟩] (.ok ()) := by
    refine .cons _ ?_
    rcases sent with e | u
    · cases e with
      | closed code => exact .nil _
      | _ => cases hs
    · exact .nil _
  exact Path.bind_left hsend f

theorem sendRelay_after {α : Type} {msg : PakeMsg} {sent : Except LinkError Unit}
    {f : Except ConnectError Unit → ViewerM α} {tr : List (Ev ViewerSig)} {q : ViewerM α}
    (hs : delivered sent = true)
    (h : Path (sendRelay msg >>= f) (⟨.linkSend (relayOf msg), sent⟩ :: tr) q) :
    Path (f (.ok ())) tr q :=
  Path.after (sendRelay_reaches hs f) h

theorem recvRelay_reaches {α : Type} {t : Duration} {stage : Stage} {data : Text} {m : PakeMsg}
    (hd : decodeRelay data = some m) (f : Except ConnectError PakeMsg → ViewerM α) :
    Path (recvRelay t stage >>= f) [⟨.linkRecv t, .ok (some (.relay data))⟩] (f (.ok m)) := by
  have hrecv : Exec (recvRelay t stage) [⟨.linkRecv t, .ok (some (.relay data))⟩] (.ok m) := by
    refine .cons _ ?_
    dsimp only [Prog.bind]
    rw [hd]
    exact .nil _
  exact Path.bind_left hrecv f

theorem answer_reaches {sk : SessionKeys} (pending : PendingOffer) (ch : Channel) {data : Text}
    {sealedAnswer : Bytes} {answer : Text} (r : Except TransportError Unit)
    (hd : decodeRelay data = some (.answer sealedAnswer))
    (ho : openAnswer C sk sealedAnswer = some answer) :
    Path (awaitAnswer C fuel cfg sk pending ch >>= finishConnect)
      [⟨.linkRecv cfg.t.signalingStep, .ok (some (.relay data))⟩, ⟨.acceptAnswer pending answer, r⟩]
      ((match r with
        | .error e => pure (.error (.transport e), ch)
        | .ok () => waitReady C fuel cfg sk ch) >>= finishConnect) := by
  rw [awaitAnswer, Prog.bind_assoc]
  refine (recvRelay_reaches hd _).trans ?_
  dsimp only
  rw [takeAnswer, ho]
  refine .cons _ ?_
  cases r <;> exact .nil _

theorem Began.reaches (b : Began C cfg) :
    Path (connect C fuel cfg) b.trace (sendStart C fuel cfg b.pake b.pa) := by
  refine .cons _ ?_
  have hstart : Exec (ViewerPake.start C cfg.code cfg.hostId)
      [⟨.partyAStart b.w VIEWER_ID (hostIdBytes cfg.hostId) AAD, .ok (b.pa, b.pake.state)⟩]
      (.ok (b.pake, b.pa)) := by
    rw [ViewerPake.start, b.scalar]
    exact .cons _ (.nil _)
  exact Path.bind_left hstart _

theorem Keyed.reaches (k : Keyed C cfg) (hs : delivered k.startSent = true) :
    Path (connect C fuel cfg) k.trace (openPeer C fuel cfg k.keys k.macA) := by
  have hfinish : Exec (k.pake.finish C k.pb k.macB)
      [⟨.finish k.pake.state k.pb, .ok k.output⟩, ⟨.verifyPeerConfirmation k.output k.mac, .ok ()⟩]
      (.ok (k.keys, k.macA)) := by
    refine .cons _ ?_
    dsimp only
    rw [k.isMac]
    exact .cons _ (.nil _)
  exact (k.toBegan.reaches).trans ((sendRelay_reaches hs _).trans
    ((recvRelay_reaches k.replied _).trans (Path.bind_left hfinish _)))

theorem Offered.reaches (o : Offered C cfg) (hs : delivered o.startSent = true) :
    Path (connect C fuel cfg) o.trace
      (sendConfirm C fuel cfg o.keys o.macA o.sealedOffer o.pending Channel.new >>=
        finishConnect) := by
  refine (o.toKeyed.reaches hs).trans (.cons _ (.cons _ ?_))
  dsimp only [Prog.bind]
  rw [o.sealed]
  exact .nil _

theorem Answered.reaches (a : Answered C cfg) :
    Path (connect C fuel cfg) a.trace
      (waitReady C fuel cfg a.keys Channel.new >>= finishConnect) := by
  refine (a.toOffered.reaches a.startDelivered).trans ?_
  rw [sendConfirm, Prog.bind_assoc]
  exact (sendRelay_reaches a.confirmDelivered _).trans (answer_reaches _ _ _ a.answered a.opens)

theorem Linked.reaches (l : Linked C fuel cfg) :
    Path (connect C fuel cfg) l.trace
      (exchangeHello C fuel cfg l.keys l.channel >>= finishConnect) := by
  refine (l.toAnswered.reaches).trans ?_
  rw [waitReady, Prog.bind_assoc]
  refine .cons _ ?_
  exact Path.bind_left (Path.bind_left l.opened _) finishConnect

theorem Greeted.reaches (g : Greeted C fuel cfg) :
    Path (connect C fuel cfg) g.trace
      (awaitDecision fuel cfg g.host g.greeted >>= finishConnect) := by
  rw [Greeted.trace, Greeting.trace, List.append_assoc]
  refine (g.toLinked.reaches).trans ?_
  rw [exchangeHello, Prog.bind_assoc]
  refine .cons _ ?_
  refine .cons _ ?_
  refine .cons _ ?_
  refine .cons _ ?_
  have hnext : Path (nextControl fuel g.channel (g.greetedAt + cfg.t.signalingStep) .hello)
      g.reading (.ret (.ok (.hello g.hostHello), g.greeted)) :=
    Path.bind_left g.received _
  have hjudge : judgeHello C fuel cfg g.keys g.localFp g.remoteFp g.hostHello g.greeted =
      awaitDecision fuel cfg g.host g.greeted := by
    have hverified : verifyHello C g.hostHello .host g.keys.helloBinding g.remoteFp g.localFp =
        .ok g.host := g.verified
    rw [judgeHello, hverified]
  rw [← hjudge]
  exact Path.bind_left (Path.bind_left hnext _) finishConnect

end Reaches

section Stages
variable {q : ViewerM ConnectResult}

theorem join_fails {r : Except LinkError (Option ServerToViewer)} (hr : r ≠ .ok (some .joined))
    (h : Path (connect C fuel cfg) [⟨.linkRecv cfg.t.signalingStep, r⟩] q) : Fails q := by
  obtain rfl := path_nil (Path.tail h)
  rcases r with e | _ | m
  · exact fails_error _
  · exact fails_error _
  · cases m with
    | joined => exact absurd rfl hr
    | _ => exact fails_error _

theorem recvRelay_fails {t : Duration} {stage : Stage}
    {f : Except ConnectError PakeMsg → ViewerM ConnectResult}
    {r : Except LinkError (Option ServerToViewer)} (he : ∀ e, Fails (f (.error e)))
    (hm : ∀ data m, r = .ok (some (.relay data)) → decodeRelay data = some m → Fails (f (.ok m)))
    (h : Path (recvRelay t stage >>= f) [⟨.linkRecv t, r⟩] q) : Fails q := by
  obtain rfl := path_nil (Path.tail h)
  rcases r with e | _ | m
  · exact he _
  · exact he _
  · cases m with
    | relay data =>
        dsimp only [Prog.bind]
        cases hd : decodeRelay data with
        | none => exact he _
        | some msg => exact hm data msg rfl hd
    | _ => exact he _

theorem reply_fails {pake : ViewerPake} {r : Except LinkError (Option ServerToViewer)}
    (hr : ∀ data pb macB, r = .ok (some (.relay data)) → decodeRelay data ≠ some (.reply pb macB))
    (h : Path (awaitReply C fuel cfg pake) [⟨.linkRecv cfg.t.signalingStep, r⟩] q) : Fails q := by
  refine recvRelay_fails (fun e => fails_error e) (fun data m hdata hd => ?_) h
  cases m with
  | reply pb macB => exact absurd hd (hr data pb macB hdata)
  | _ => exact fails_error _

theorem finish_fails {pake : ViewerPake} {data : Text} {pb macB : Bytes} {e : AuthError}
    {checking : List (Ev ViewerSig)} (hd : decodeRelay data = some (.reply pb macB))
    (hfinish : Exec (pake.finish C pb macB) checking (.error e))
    (h : Path (awaitReply C fuel cfg pake)
      (⟨.linkRecv cfg.t.signalingStep, .ok (some (.relay data))⟩ :: checking) q) : Fails q := by
  have hreply := Path.after (recvRelay_reaches hd _) h
  obtain rfl := Path.end_eq hfinish hreply
  exact fails_error _

theorem answer_fails {sk : SessionKeys} {pending : PendingOffer} {ch : Channel}
    {r : Except LinkError (Option ServerToViewer)}
    (hr : ∀ data sealedAnswer answer, r = .ok (some (.relay data)) →
      decodeRelay data = some (.answer sealedAnswer) → openAnswer C sk sealedAnswer ≠ some answer)
    (h : Path (awaitAnswer C fuel cfg sk pending ch >>= finishConnect)
      [⟨.linkRecv cfg.t.signalingStep, r⟩] q) : Fails q := by
  rw [awaitAnswer, Prog.bind_assoc] at h
  refine recvRelay_fails (fun e => fails_close e ch) (fun data m hdata hd => ?_) h
  cases m with
  | answer sealedAnswer =>
      cases ho : openAnswer C sk sealedAnswer with
      | some answer => exact absurd ho (hr data sealedAnswer answer hdata hd)
      | none =>
          simp only [takeAnswer, ho]
          exact fails_close _ ch
  | _ => exact fails_close _ ch

theorem sdp_fails {sk : SessionKeys} {pending : PendingOffer} {ch : Channel} {data : Text}
    {sealedAnswer : Bytes} {answer : Text} {e : TransportError}
    (hd : decodeRelay data = some (.answer sealedAnswer))
    (ho : openAnswer C sk sealedAnswer = some answer)
    (h : Path (awaitAnswer C fuel cfg sk pending ch >>= finishConnect)
      [⟨.linkRecv cfg.t.signalingStep, .ok (some (.relay data))⟩,
        ⟨.acceptAnswer pending answer, .error e⟩] q) : Fails q := by
  obtain rfl := path_nil (Path.after (answer_reaches pending ch (.error e) hd ho) h)
  exact fails_close _ ch

theorem open_fails {sk : SessionKeys} {ch ch' : Channel} {now : Instant}
    {opening : List (Ev ViewerSig)} {r : Except TransportError Opened} (hr : r ≠ .ok .ready)
    (hopened : Exec (ch.waitOpen (now + cfg.t.connect) fuel) opening (r, ch'))
    (h : Path (waitReady C fuel cfg sk ch >>= finishConnect) (⟨.now, now⟩ :: opening) q) :
    Fails q := by
  rw [waitReady, Prog.bind_assoc] at h
  obtain rfl := Path.end_eq_bind hopened (Path.answered h)
  rcases r with e | (_ | _ | _)
  case ok.ready => exact absurd rfl hr
  all_goals exact fails_close _ _

theorem nextControl_fails {ch ch' : Channel} {deadline : Instant} {stage : Stage}
    {f : Except ConnectError Control × Channel → ViewerM Handshake} {tr : List (Ev ViewerSig)}
    {r : Except TransportError Next} (hnext : Exec (ch.next deadline fuel) tr (r, ch'))
    (he : ∀ e, f (.error e, ch') = .ret (.error e, ch'))
    (hm : ∀ msg, r = .ok (.msg msg) → Fails (f (.ok msg, ch') >>= finishConnect))
    (h : Path ((nextControl fuel ch deadline stage >>= f) >>= finishConnect) tr q) : Fails q := by
  rw [Prog.bind_assoc, nextControl] at h
  obtain rfl := Path.end_eq_bind hnext h
  rcases r with e | (msg | _ | _ | _)
  case ok.msg => exact hm msg rfl
  all_goals
    change Fails (f (.error _, ch') >>= finishConnect)
    rw [he]
    exact fails_close _ ch'

theorem hello_fails {sk : SessionKeys} {localFp remoteFp : Bytes} {ch ch' : Channel}
    {now : Instant} {reading : List (Ev ViewerSig)} {r : Except TransportError Next}
    (hr : ∀ hello host, r = .ok (.msg (.hello hello)) →
      verifyHello C hello .host sk.helloBinding remoteFp localFp ≠ .ok host)
    (hnext : Exec (ch.next (now + cfg.t.signalingStep) fuel) reading (r, ch'))
    (h : Path (exchangeHello C fuel cfg sk ch >>= finishConnect)
      (⟨.localFingerprint, localFp⟩ :: ⟨.remoteFingerprint, some remoteFp⟩ ::
        ⟨.peerSend (Control.encode
          (.hello (cfg.keys.makeHello C .viewer sk.helloBinding localFp remoteFp))), .ok ()⟩ ::
        ⟨.now, now⟩ :: reading) q) : Fails q := by
  rw [exchangeHello, Prog.bind_assoc] at h
  have hread := Path.tail (Path.tail (Path.tail (Path.answered h)))
  refine nextControl_fails hnext (fun e => rfl) (fun msg hmsg => ?_) hread
  cases msg with
  | hello hello =>
      cases hv : verifyHello C hello .host sk.helloBinding remoteFp localFp with
      | ok host => exact absurd hv (hr hello host hmsg)
      | error e =>
          simp only [judgeHello, hv]
          exact fails_close _ ch'
  | _ => exact fails_close _ ch'

theorem decision_fails {host : PeerIdentity} {ch ch' : Channel} {now : Instant}
    {waiting : List (Ev ViewerSig)} {r : Except TransportError Next}
    (hr : r ≠ .ok (.msg (.decision .accepted)))
    (hnext : Exec (ch.next (now + cfg.t.approval + cfg.t.signalingStep) fuel) waiting (r, ch'))
    (h : Path (awaitDecision fuel cfg host ch >>= finishConnect) (⟨.now, now⟩ :: waiting) q) :
    Fails q := by
  rw [awaitDecision, Prog.bind_assoc] at h
  have hread := Path.answered h
  refine nextControl_fails hnext (fun e => rfl) (fun msg hmsg => ?_) hread
  rcases msg with _ | d | _ | _
  case decision =>
    rcases d with _ | reason
    · exact absurd hmsg hr
    · cases reason <;> exact fails_close _ ch'
  all_goals exact fails_close _ ch'

end Stages

-- the stages of a run and what goes wrong at each: what the link or the channel gave is not what
-- the stage waits for
inductive Deviates (C : Crypto) (fuel : Nat) (cfg : Config) : List (Ev ViewerSig) → Prop
  | join {r : Except LinkError (Option ServerToViewer)} (hr : r ≠ .ok (some .joined)) :
      Deviates C fuel cfg [⟨.linkRecv cfg.t.signalingStep, r⟩]
  | reply (b : Began C cfg) {sent : Except LinkError Unit} (hs : delivered sent = true)
      {r : Except LinkError (Option ServerToViewer)}
      (hr : ∀ data pb macB, r = .ok (some (.relay data)) →
        decodeRelay data ≠ some (.reply pb macB)) :
      Deviates C fuel cfg (b.trace ++
        [⟨.linkSend (relayOf (.start b.pa)), sent⟩, ⟨.linkRecv cfg.t.signalingStep, r⟩])
  | finish (b : Began C cfg) {sent : Except LinkError Unit} (hs : delivered sent = true)
      {data : Text} {pb macB : Bytes} (hd : decodeRelay data = some (.reply pb macB))
      {checking : List (Ev ViewerSig)} {e : AuthError}
      (hfinish : Exec (b.pake.finish C pb macB) checking (.error e)) :
      Deviates C fuel cfg (b.trace ++ ⟨.linkSend (relayOf (.start b.pa)), sent⟩ ::
        ⟨.linkRecv cfg.t.signalingStep, .ok (some (.relay data))⟩ :: checking)
  | answer (o : Offered C cfg) (hs : delivered o.startSent = true)
      {sent : Except LinkError Unit} (hs' : delivered sent = true)
      {r : Except LinkError (Option ServerToViewer)}
      (hr : ∀ data sealedAnswer answer, r = .ok (some (.relay data)) →
        decodeRelay data = some (.answer sealedAnswer) →
        openAnswer C o.keys sealedAnswer ≠ some answer) :
      Deviates C fuel cfg (o.trace ++
        [⟨.linkSend o.confirm, sent⟩, ⟨.linkRecv cfg.t.signalingStep, r⟩])
  | sdp (o : Offered C cfg) (hs : delivered o.startSent = true)
      {sent : Except LinkError Unit} (hs' : delivered sent = true) {data : Text}
      {sealedAnswer : Bytes} (hd : decodeRelay data = some (.answer sealedAnswer)) {answer : Text}
      (ho : openAnswer C o.keys sealedAnswer = some answer) (e : TransportError) :
      Deviates C fuel cfg (o.trace ++
        [⟨.linkSend o.confirm, sent⟩, ⟨.linkRecv cfg.t.signalingStep, .ok (some (.relay data))⟩,
          ⟨.acceptAnswer o.pending answer, .error e⟩])
  | opening (a : Answered C cfg) {now : Instant} {opening : List (Ev ViewerSig)}
      {r : Except TransportError Opened} {ch : Channel} (hr : r ≠ .ok .ready)
      (hopened : Exec (Channel.new.waitOpen (now + cfg.t.connect) fuel) opening (r, ch)) :
      Deviates C fuel cfg (a.trace ++ ⟨.now, now⟩ :: opening)
  | hello (g : Greeting C fuel cfg) {reading : List (Ev ViewerSig)}
      {r : Except TransportError Next} {ch : Channel}
      (hr : ∀ hello host, r = .ok (.msg (.hello hello)) → ¬ g.accepts hello host)
      (hnext : Exec (g.channel.next (g.greetedAt + cfg.t.signalingStep) fuel) reading (r, ch)) :
      Deviates C fuel cfg (g.trace ++ reading)
  | decision (g : Greeted C fuel cfg) {now : Instant} {waiting : List (Ev ViewerSig)}
      {r : Except TransportError Next} {ch : Channel} (hr : r ≠ .ok (.msg (.decision .accepted)))
      (hnext : Exec (g.greeted.next (now + cfg.t.approval + cfg.t.signalingStep) fuel) waiting
        (r, ch)) :
      Deviates C fuel cfg (g.trace ++ ⟨.now, now⟩ :: waiting)

theorem deviates_fails {tr : List (Ev ViewerSig)} {q : ViewerM ConnectResult}
    (h : Path (connect C fuel cfg) tr q) (hd : Deviates C fuel cfg tr) : Fails q := by
  cases hd with
  | join hr => exact join_fails hr h
  | reply b hs hr =>
      have hsend := Path.after b.reaches h
      exact reply_fails hr (sendRelay_after hs hsend)
  | finish b hs hdata hfinish =>
      have hsend := Path.after b.reaches h
      exact finish_fails hdata hfinish (sendRelay_after hs hsend)
  | answer o hs hs' hr =>
      have hsend := Path.after (o.reaches hs) h
      rw [sendConfirm, Prog.bind_assoc] at hsend
      exact answer_fails hr (sendRelay_after hs' hsend)
  | sdp o hs hs' hdata ho e =>
      have hsend := Path.after (o.reaches hs) h
      rw [sendConfirm, Prog.bind_assoc] at hsend
      exact sdp_fails hdata ho (sendRelay_after hs' hsend)
  | opening a hr hopened => exact open_fails hr hopened (Path.after a.reaches h)
  | hello g hr hnext =>
      rw [Greeting.trace, List.append_assoc] at h
      exact hello_fails hr hnext (Path.after g.toLinked.reaches h)
  | decision g hr hnext => exact decision_fails hr hnext (Path.after g.reaches h)

def linkRead : Ev ViewerSig → Option (Except LinkError (Option ServerToViewer))
  | ⟨.linkRecv _, r⟩ => some r
  | _ => none

-- what the run took from the signaling link
def linkReads (tr : List (Ev ViewerSig)) : List (Except LinkError (Option ServerToViewer)) :=
  tr.filterMap linkRead

theorem linkReads_waits {α : Type} {p : ViewerM α} {tr : List (Ev ViewerSig)} {a : α}
    (hp : Waits p) (h : Exec p tr a) : linkReads tr = [] := by
  refine List.filterMap_eq_nil_iff.mpr fun e he => ?_
  have hw := (hp.path h).1 e he
  obtain ⟨o, r⟩ := e
  cases o <;> first | rfl | cases hw

theorem Connected.linkReads_eq (c : Connected C fuel cfg) :
    linkReads c.trace = [.ok (some .joined), .ok (some (.relay c.replyData)),
      .ok (some (.relay c.answerData))] := by
  have hopening := linkReads_waits (Channel.waitOpen_uses _ _ _) c.opened
  have hreading := linkReads_waits (Channel.next_uses _ _ _) c.received
  have hwaiting := linkReads_waits (Channel.next_uses _ _ _) c.decided
  simp only [linkReads] at hopening hreading hwaiting ⊢
  simp [Connected.trace, Greeted.trace, Greeting.trace, Linked.trace, Answered.trace,
    Offered.trace, Keyed.trace, Began.trace, List.filterMap_cons, linkRead, hopening, hreading,
    hwaiting]

theorem Connected.polled_eq (c : Connected C fuel cfg) :
    ∃ first second, Channel.polled c.trace = first :: second :: c.final.pending ∧
      Control.decode first = .ok (.hello c.hostHello) ∧
      Control.decode second = .ok (.decision .accepted) := by
  have hopening := Channel.waitOpen_keeps c.opened
  obtain ⟨first, hfirst, hhello⟩ := Channel.next_msg_pops c.received
  obtain ⟨second, hsecond, haccepted⟩ := Channel.next_msg_pops c.decided
  have hpolled : Channel.polled c.trace = Channel.polled c.opening ++ Channel.polled c.reading ++
      Channel.polled c.waiting := by
    simp [Connected.trace, Greeted.trace, Greeting.trace, Linked.trace, Answered.trace,
      Offered.trace, Keyed.trace, Began.trace, Channel.polled, Channel.pollResults,
      Channel.pollResult, List.filterMap_cons]
  refine ⟨first, second, ?_, hhello, haccepted⟩
  have hpending : c.channel.pending = Channel.polled c.opening := hopening
  rw [hpolled, ← hpending, hfirst, List.cons_append, hsecond]

theorem viewer_gate {tr : List (Ev ViewerSig)} {q : ViewerM ConnectResult}
    (h : Path (connect C fuel cfg) tr q) :
    (∀ s, q = .ret (.ok s) → ∃ c : Connected C fuel cfg, tr = c.trace ∧ s = c.session ∧
      linkReads tr = [.ok (some .joined), .ok (some (.relay c.replyData)),
        .ok (some (.relay c.answerData))] ∧
      ∃ first second, Channel.polled tr = first :: second :: s.ch.pending ∧
        Control.decode first = .ok (.hello c.hostHello) ∧
        Control.decode second = .ok (.decision .accepted)) ∧
    (Deviates C fuel cfg tr → Fails q) := by
  constructor
  · rintro s rfl
    obtain ⟨c, rfl, rfl⟩ := connected_of_ok h
    exact ⟨c, rfl, rfl, c.linkReads_eq, c.polled_eq⟩
  · exact deviates_fails h

theorem sample_viewer_gate :
    (∃ c : Connected .sample 5 .sample, sampleConnect = c.trace ∧ sampleSession = c.session) ∧
    Fails (.ret (.error (.timeout .join))) := by
  constructor
  · obtain ⟨c, htr, hs, -⟩ := (viewer_gate sample_connect).1 _ rfl
    exact ⟨c, htr, hs⟩
  · have hjoin : Path (connect .sample 5 .sample)
        [⟨.linkRecv Config.sample.t.signalingStep, .ok none⟩] (.ret (.error (.timeout .join))) :=
      .cons _ (.nil _)
    exact (viewer_gate hjoin).2 (.join nofun)

end Viewer

end SimpleRemote
