import SimpleRemote.Viewer.Connect

namespace SimpleRemote
open ByteCodec Interaction

variable {C : Crypto}

namespace Viewer

structure Steady (P : Op ViewerToServer → Prop) (R : ConnectResult → Prop) : Prop where
  recv : ∀ t, ¬ P (.linkRecv t)
  partyAStart : ∀ w idA idB aad, ¬ P (.partyAStart w idA idB aad)
  finish : ∀ party msg, ¬ P (.finish party msg)
  verify : ∀ out mac, ¬ P (.verifyPeerConfirmation out mac)
  createOffer : ¬ P .createOffer
  acceptAnswer : ∀ pending sdp, ¬ P (.acceptAnswer pending sdp)
  onPeer : ∀ o, o.onPeer = true → ¬ P o
  error : ∀ e, ¬ R (.error e)

section
variable {P : Op ViewerToServer → Prop} {R : ConnectResult → Prop}

theorem Steady.error_never (B : Steady P R) (e : ConnectError) :
    (pure (.error e) : ViewerM ConnectResult).Never P R := only_ret.mpr (B.error e)

theorem Steady.recvRelay_uses (B : Steady P R) (t : Duration) (stage : Stage) :
    (recvRelay t stage).Uses (S := ViewerSig) fun o => ¬ P o := by
  refine ⟨B.recv t, fun r => ?_⟩
  rcases r with e | _ | m
  · trivial
  · trivial
  · cases m with
    | relay data =>
        dsimp only [Prog.bind]
        cases decodeRelay data <;> trivial
    | _ => trivial

theorem recvRelay_ok {t : Duration} {stage : Stage} {tr : List (Ev ViewerSig)} {m : PakeMsg}
    (h : Exec (recvRelay t stage) tr (.ok m)) :
    ∃ data, tr = [⟨.linkRecv t, .ok (some (.relay data))⟩] ∧ decodeRelay data = some m := by
  obtain ⟨r, tr₂, rfl, h'⟩ := exec_call_bind.mp h
  rcases r with e | _ | sm
  · simp at h'
  · simp at h'
  · cases sm with
    | relay data =>
        cases hd : decodeRelay data with
        | none => simp [hd] at h'
        | some m' =>
            simp only [hd, Prog.pure_eq, exec_ret, Except.ok.injEq] at h'
            obtain ⟨rfl, rfl⟩ := h'
            exact ⟨data, rfl, hd⟩
    | _ => simp at h'

theorem start_ok {code : OneTimeCode} {hostId : Text} {pake : ViewerPake} {pa : Bytes}
    {tr : List (Ev ViewerSig)} (h : Exec (ViewerPake.start C code hostId) tr (.ok (pake, pa))) :
    ∃ w, codeScalar C code = .ok w ∧
      tr = [⟨.partyAStart w VIEWER_ID (hostIdBytes hostId) AAD, .ok (pa, pake.state)⟩] := by
  rw [ViewerPake.start] at h
  split at h
  · simp at h
  · rename_i w hw
    obtain ⟨r, tr₂, rfl, h₁⟩ := exec_call_bind.mp h
    rcases r with e | ⟨pa', state⟩
    · simp at h₁
    · simp only [Prog.pure_eq, exec_ret, Except.ok.injEq, Prod.mk.injEq] at h₁
      obtain ⟨rfl, rfl, rfl⟩ := h₁
      exact ⟨w, hw, rfl⟩

theorem finish_ok {pake : ViewerPake} {pb macB macA : Bytes} {sk : SessionKeys}
    {tr : List (Ev ViewerSig)} (h : Exec (pake.finish C pb macB) tr (.ok (sk, macA))) :
    ∃ output mac, toMac macB = .ok mac ∧ sk = deriveSessionKeys C output.sessionKey ∧
      macA = output.confirmationMac.val ∧
      tr = [⟨.finish pake.state pb, .ok output⟩, ⟨.verifyPeerConfirmation output mac, .ok ()⟩] := by
  rw [ViewerPake.finish] at h
  obtain ⟨r, tr₁, rfl, h₁⟩ := exec_call_bind.mp h
  cases r with
  | error e => simp at h₁
  | ok output =>
      cases hmac : toMac macB with
      | error e => simp [hmac] at h₁
      | ok mac =>
          simp only [hmac] at h₁
          obtain ⟨r, tr₂, rfl, h₂⟩ := exec_call_bind.mp h₁
          cases r with
          | error e => simp at h₂
          | ok u =>
              simp only [Prog.pure_eq, exec_ret, Except.ok.injEq, Prod.mk.injEq] at h₂
              obtain ⟨rfl, rfl, rfl⟩ := h₂
              exact ⟨output, mac, rfl, rfl, rfl, rfl⟩

end

structure Began (C : Crypto) (cfg : Config) where
  w : Nat
  scalar : codeScalar C cfg.code = .ok w
  pa : Bytes
  pake : ViewerPake

def Began.trace {cfg : Config} (b : Began C cfg) : List (Ev ViewerSig) :=
  [⟨.linkRecv cfg.t.signalingStep, .ok (some .joined)⟩,
    ⟨.partyAStart b.w VIEWER_ID (hostIdBytes cfg.hostId) AAD, .ok (b.pa, b.pake.state)⟩]

def delivered (sent : Except LinkError Unit) : Bool :=
  match sent with
  | .ok () => true
  | .error (.closed _) => true
  | .error _ => false

structure Keyed (C : Crypto) (cfg : Config) extends Began C cfg where
  startSent : Except LinkError Unit
  replyData : Text
  pb : Bytes
  macB : Bytes
  replied : decodeRelay replyData = some (.reply pb macB)
  output : Spake2Output
  mac : ByteArr 32
  isMac : toMac macB = .ok mac

namespace Keyed
variable {cfg : Config}

def keys (k : Keyed C cfg) : SessionKeys := deriveSessionKeys C k.output.sessionKey

def macA (k : Keyed C cfg) : Bytes := k.output.confirmationMac.val

def trace (k : Keyed C cfg) : List (Ev ViewerSig) :=
  k.toBegan.trace ++
  [⟨.linkSend (relayOf (.start k.pa)), k.startSent⟩,
    ⟨.linkRecv cfg.t.signalingStep, .ok (some (.relay k.replyData))⟩,
    ⟨.finish k.pake.state k.pb, .ok k.output⟩,
    ⟨.verifyPeerConfirmation k.output k.mac, .ok ()⟩]

end Keyed

structure Offered (C : Crypto) (cfg : Config) extends Keyed C cfg where
  offer : Text
  pending : PendingOffer
  sealedOffer : Bytes
  sender : SealedSender
  sealed : toKeyed.keys.viewerSide.1.seal C (utf8 offer) = some (sealedOffer, sender)

def Offered.trace {cfg : Config} (o : Offered C cfg) : List (Ev ViewerSig) :=
  o.toKeyed.trace ++
  [⟨.peerNew cfg.bindIps, .ok ()⟩, ⟨.createOffer, .ok (o.offer, o.pending)⟩]

section Hits
variable {P : Op ViewerToServer → Prop} {R : ConnectResult → Prop} {fuel : Nat} {cfg : Config}

theorem connect_hits (B : Steady P R) {tr : List (Ev ViewerSig)} {q : ViewerM ConnectResult}
    (h : Path (connect C fuel cfg) tr q) (hh : Hits P R tr q) :
    ∃ (b : Began C cfg) (tr' : List (Ev ViewerSig)), tr = b.trace ++ tr' ∧
      Path (sendStart C fuel cfg b.pake b.pa) tr' q ∧ Hits P R tr' q := by
  rw [connect] at h
  obtain ⟨r, tr₁, rfl, h₁, hh₁⟩ := hits_call h hh (B.recv _)
  rcases r with e | _ | m
  · exact absurd hh₁ (Prog.Never.not_hits (B.error_never _) h₁)
  · exact absurd hh₁ (Prog.Never.not_hits (B.error_never _) h₁)
  cases m with
  | joined =>
      have huses : (ViewerPake.start C cfg.code cfg.hostId).Uses (S := ViewerSig) fun o => ¬ P o := by
        rw [ViewerPake.start]
        split
        · trivial
        · refine ⟨B.partyAStart _ _ _ _, fun r => ?_⟩
          cases r <;> trivial
      obtain ⟨tr₂, r, tr₃, rfl, hr, h₂, hh₂⟩ := hits_bind h₁ hh₁ huses
      rcases r with e | ⟨pake, pa⟩
      · exact absurd hh₂ (Prog.Never.not_hits (B.error_never _) h₂)
      · obtain ⟨w, hw, rfl⟩ := start_ok hr
        exact ⟨⟨w, hw, pa, pake⟩, tr₃, rfl, h₂, hh₂⟩
  | _ => exact absurd hh₁ (Prog.Never.not_hits (B.error_never _) h₁)

theorem awaitReply_hits (B : Steady P R) {pake : ViewerPake} {tr : List (Ev ViewerSig)}
    {q : ViewerM ConnectResult} (h : Path (awaitReply C fuel cfg pake) tr q)
    (hh : Hits P R tr q) :
    ∃ data pb macB output mac tr',
      tr = [⟨.linkRecv cfg.t.signalingStep, .ok (some (.relay data))⟩,
        ⟨.finish pake.state pb, .ok output⟩,
        ⟨.verifyPeerConfirmation output mac, .ok ()⟩] ++ tr' ∧
      decodeRelay data = some (.reply pb macB) ∧ toMac macB = .ok mac ∧
      Path (openPeer C fuel cfg (deriveSessionKeys C output.sessionKey)
        output.confirmationMac.val) tr' q ∧ Hits P R tr' q := by
  rw [awaitReply] at h
  obtain ⟨tr₁, r, tr₂, rfl, hr, h₁, hh₁⟩ := hits_bind h hh (B.recvRelay_uses _ _)
  rcases r with e | m
  · exact absurd hh₁ (Prog.Never.not_hits (B.error_never _) h₁)
  cases m with
  | reply pb macB =>
      have huses : (pake.finish C pb macB).Uses (S := ViewerSig) fun o => ¬ P o := by
        rw [ViewerPake.finish]
        refine ⟨B.finish _ _, fun r => ?_⟩
        cases r with
        | error e => trivial
        | ok output =>
            dsimp only [Prog.bind]
            cases toMac macB with
            | error e => trivial
            | ok mac =>
                refine ⟨B.verify _ _, fun r => ?_⟩
                cases r <;> trivial
      obtain ⟨data, rfl, hd⟩ := recvRelay_ok hr
      obtain ⟨tr₃, r, tr₄, rfl, hf, h₂, hh₂⟩ := hits_bind h₁ hh₁ huses
      rcases r with e | ⟨sk, macA⟩
      · exact absurd hh₂ (Prog.Never.not_hits (B.error_never _) h₂)
      · obtain ⟨output, mac, hmac, rfl, rfl, rfl⟩ := finish_ok hf
        exact ⟨data, pb, macB, output, mac, tr₄, rfl, hd, hmac, h₂, hh₂⟩
  | _ => exact absurd hh₁ (Prog.Never.not_hits (B.error_never _) h₁)

theorem sendRelay_path {α : Type} {msg : PakeMsg} {f : Except ConnectError Unit → ViewerM α}
    {tr : List (Ev ViewerSig)} {q : ViewerM α} (h : Path (sendRelay msg >>= f) tr q) :
    (tr = [] ∧ q = (sendRelay msg >>= f)) ∨
    ∃ sent tr', tr = ⟨.linkSend (relayOf msg), sent⟩ :: tr' ∧
      ((delivered sent = true ∧ Path (f (.ok ())) tr' q) ∨
        ∃ e, Path (f (.error e)) tr' q) := by
  rw [sendRelay, Prog.bind_assoc] at h
  rcases path_call h with ⟨rfl, rfl⟩ | ⟨sent, tr', rfl, h₁⟩
  · exact .inl ⟨rfl, by rw [sendRelay, Prog.bind_assoc]⟩
  · refine .inr ⟨sent, tr', rfl, ?_⟩
    rcases sent with e | u
    · cases e with
      | closed code => exact .inl ⟨rfl, h₁⟩
      | _ => exact .inr ⟨_, h₁⟩
    · exact .inl ⟨rfl, h₁⟩

theorem Steady.uses (B : Steady P R) {α : Type} {p : ViewerM α} (h : Waits p) :
    p.Uses fun o => ¬ P o := h.mono fun _ ho => B.onPeer _ (Op.onPeer_of_waiting ho)

theorem Steady.close_never (B : Steady P R) (e : ConnectError) (ch : Channel) :
    (finishConnect (.error e, ch)).Never P R :=
  uses_bind (B.uses (Channel.close_uses ch)) fun _ => B.error e

theorem openPeer_hits (B : Steady P R) (hpeer : ∀ ips, ¬ P (.peerNew ips)) {sk : SessionKeys}
    {macA : Bytes} {tr : List (Ev ViewerSig)} {q : ViewerM ConnectResult}
    (h : Path (openPeer C fuel cfg sk macA) tr q) (hh : Hits P R tr q) :
    ∃ offer pending sealedOffer sender tr',
      tr = [⟨.peerNew cfg.bindIps, .ok ()⟩, ⟨.createOffer, .ok (offer, pending)⟩] ++ tr' ∧
      sk.viewerSide.1.seal C (utf8 offer) = some (sealedOffer, sender) ∧
      Path (sendConfirm C fuel cfg sk macA sealedOffer pending Channel.new >>= finishConnect) tr' q ∧
      Hits P R tr' q := by
  rw [openPeer] at h
  obtain ⟨r, tr₁, rfl, h₁, hh₁⟩ := hits_call h hh (hpeer _)
  cases r with
  | error e => exact absurd hh₁ (Prog.Never.not_hits (B.error_never _) h₁)
  | ok u =>
      obtain ⟨tr₂, r, tr₃, rfl, hr, h₂, hh₂⟩ :=
        hits_bind_bind (p := call .createOffer) h₁ hh₁ (uses_call.mpr B.createOffer)
      obtain rfl := exec_call.mp hr
      rcases r with e | ⟨offer, pending⟩
      · exact absurd hh₂ (Prog.Never.not_hits (B.close_never _ _) h₂)
      · cases hs : sk.viewerSide.1.seal C (utf8 offer) with
        | none =>
            simp only [hs] at h₂
            exact absurd hh₂ (Prog.Never.not_hits only_halt h₂)
        | some p =>
            simp only [hs] at h₂
            exact ⟨offer, pending, p.1, p.2, tr₃, rfl, hs, h₂, hh₂⟩

theorem nextControl_uses (B : Steady P R) (ch : Channel) (deadline : Instant) (stage : Stage) :
    (nextControl fuel ch deadline stage).Uses (S := ViewerSig) fun o => ¬ P o := by
  refine uses_bind (B.uses (Channel.next_uses _ _ _)) fun r => ?_
  obtain ⟨r, ch'⟩ := r
  rcases r with e | (_ | _ | _ | _) <;> trivial

theorem nextControl_ok {ch ch' : Channel} {deadline : Instant} {stage : Stage} {msg : Control}
    {tr : List (Ev ViewerSig)} (h : Exec (nextControl fuel ch deadline stage) tr (.ok msg, ch')) :
    Exec (ch.next deadline fuel) tr (.ok (.msg msg), ch') := by
  obtain ⟨tr₁, ⟨r, ch₁⟩, tr₂, rfl, hr, h'⟩ := exec_bind.mp h
  rcases r with e | (c | _ | _ | _)
  case ok.msg =>
    obtain ⟨rfl, hp⟩ := exec_ret.mp h'
    cases hp
    simpa using hr
  all_goals simp at h'

theorem awaitAnswer_hits (B : Steady P R) {sk : SessionKeys} {pending : PendingOffer}
    {ch : Channel} {tr : List (Ev ViewerSig)} {q : ViewerM ConnectResult}
    (h : Path (awaitAnswer C fuel cfg sk pending ch >>= finishConnect) tr q)
    (hh : Hits P R tr q) :
    ∃ data sealedAnswer answer tr',
      tr = [⟨.linkRecv cfg.t.signalingStep, .ok (some (.relay data))⟩,
        ⟨.acceptAnswer pending answer, .ok ()⟩] ++ tr' ∧
      decodeRelay data = some (.answer sealedAnswer) ∧
      openAnswer C sk sealedAnswer = some answer ∧
      Path (waitReady C fuel cfg sk ch >>= finishConnect) tr' q ∧ Hits P R tr' q := by
  rw [awaitAnswer] at h
  obtain ⟨tr₁, r, tr₂, rfl, hr, h₁, hh₁⟩ := hits_bind_bind h hh (B.recvRelay_uses _ _)
  rcases r with e | m
  · exact absurd hh₁ (Prog.Never.not_hits (B.close_never _ _) h₁)
  cases m with
  | answer sealedAnswer =>
      obtain ⟨data, rfl, hd⟩ := recvRelay_ok hr
      cases ho : openAnswer C sk sealedAnswer with
      | none =>
          simp only [takeAnswer, ho] at h₁
          exact absurd hh₁ (Prog.Never.not_hits (B.close_never _ _) h₁)
      | some answer =>
          simp only [takeAnswer, ho] at h₁
          obtain ⟨tr₃, r, tr₄, rfl, hr', h₂, hh₂⟩ :=
            hits_bind_bind h₁ hh₁ (uses_call.mpr (B.acceptAnswer _ _))
          obtain rfl := exec_call.mp hr'
          cases r with
          | error e => exact absurd hh₂ (Prog.Never.not_hits (B.close_never _ _) h₂)
          | ok u => exact ⟨data, sealedAnswer, answer, tr₄, rfl, hd, ho, h₂, hh₂⟩
  | _ => exact absurd hh₁ (Prog.Never.not_hits (B.close_never _ _) h₁)

theorem waitReady_hits (B : Steady P R) {sk : SessionKeys} {ch : Channel}
    {tr : List (Ev ViewerSig)} {q : ViewerM ConnectResult}
    (h : Path (waitReady C fuel cfg sk ch >>= finishConnect) tr q) (hh : Hits P R tr q) :
    ∃ t tr₁ ch' tr₂, tr = ⟨.now, t⟩ :: (tr₁ ++ tr₂) ∧
      Exec (ch.waitOpen (t + cfg.t.connect) fuel) tr₁ (.ok .ready, ch') ∧
      Path (exchangeHello C fuel cfg sk ch' >>= finishConnect) tr₂ q ∧ Hits P R tr₂ q := by
  rw [waitReady, Prog.bind_assoc] at h
  obtain ⟨t, tr', rfl, h₁, hh₁⟩ := hits_call h hh (B.onPeer _ rfl)
  obtain ⟨tr₁, r, tr₂, rfl, hr, h₂, hh₂⟩ :=
    hits_bind_bind h₁ hh₁ (B.uses (Channel.waitOpen_uses _ _ _))
  obtain ⟨r, ch'⟩ := r
  rcases r with e | (_ | _ | _)
  case ok.ready => exact ⟨t, tr₁, ch', tr₂, rfl, hr, h₂, hh₂⟩
  all_goals exact absurd hh₂ (Prog.Never.not_hits (B.close_never _ _) h₂)

theorem exchangeHello_hits (B : Steady P R) {sk : SessionKeys} {ch : Channel}
    {tr : List (Ev ViewerSig)} {q : ViewerM ConnectResult}
    (h : Path (exchangeHello C fuel cfg sk ch >>= finishConnect) tr q) (hh : Hits P R tr q) :
    ∃ localFp remoteFp t tr₁ hello ch' host tr₂,
      tr = ⟨.localFingerprint, localFp⟩ :: ⟨.remoteFingerprint, some remoteFp⟩ ::
        ⟨.peerSend (Control.encode
          (.hello (cfg.keys.makeHello C .viewer sk.helloBinding localFp remoteFp))), .ok ()⟩ ::
        ⟨.now, t⟩ :: (tr₁ ++ tr₂) ∧
      Exec (ch.next (t + cfg.t.signalingStep) fuel) tr₁ (.ok (.msg (.hello hello)), ch') ∧
      verifyHello C hello .host sk.helloBinding remoteFp localFp = .ok host ∧
      Path (awaitDecision fuel cfg host ch' >>= finishConnect) tr₂ q ∧ Hits P R tr₂ q := by
  rw [exchangeHello, Prog.bind_assoc] at h
  obtain ⟨localFp, tr', rfl, h₁, hh₁⟩ := hits_call h hh (B.onPeer _ rfl)
  obtain ⟨r, tr', rfl, h₂, hh₂⟩ := hits_call h₁ hh₁ (B.onPeer _ rfl)
  cases r with
  | none => exact absurd hh₂ (Prog.Never.not_hits (B.close_never _ _) h₂)
  | some remoteFp =>
      obtain ⟨r, tr', rfl, h₃, hh₃⟩ := hits_call h₂ hh₂ (B.onPeer _ rfl)
      cases r with
      | error e => exact absurd hh₃ (Prog.Never.not_hits (B.close_never _ _) h₃)
      | ok u =>
          obtain ⟨t, tr', rfl, h₄, hh₄⟩ := hits_call h₃ hh₃ (B.onPeer _ rfl)
          obtain ⟨tr₁, r, tr₂, rfl, hr, h₅, hh₅⟩ :=
            hits_bind_bind (p := nextControl fuel ch (t + cfg.t.signalingStep) .hello) h₄ hh₄
              (nextControl_uses B _ _ _)
          rcases r with ⟨e | c, ch'⟩
          · exact absurd hh₅ (Prog.Never.not_hits (B.close_never _ _) h₅)
          cases c with
          | hello hello =>
              cases hv : verifyHello C hello .host sk.helloBinding remoteFp localFp with
              | error e =>
                  simp only [judgeHello, hv] at h₅
                  exact absurd hh₅ (Prog.Never.not_hits (B.close_never _ _) h₅)
              | ok host =>
                  simp only [judgeHello, hv] at h₅
                  exact ⟨localFp, remoteFp, t, tr₁, hello, ch', host, tr₂, rfl,
                    nextControl_ok hr, hv, h₅, hh₅⟩
          | _ => exact absurd hh₅ (Prog.Never.not_hits (B.close_never _ _) h₅)

theorem awaitDecision_hits (B : Steady P R) {host : PeerIdentity} {ch : Channel}
    {tr : List (Ev ViewerSig)} {q : ViewerM ConnectResult}
    (h : Path (awaitDecision fuel cfg host ch >>= finishConnect) tr q) (hh : Hits P R tr q) :
    ∃ t tr₁ ch', tr = ⟨.now, t⟩ :: tr₁ ∧
      Exec (ch.next (t + cfg.t.approval + cfg.t.signalingStep) fuel) tr₁
        (.ok (.msg (.decision .accepted)), ch') ∧
      q = .ret (.ok ⟨host, ch', 0⟩) ∧ R (.ok ⟨host, ch', 0⟩) := by
  rw [awaitDecision, Prog.bind_assoc] at h
  obtain ⟨t, tr', rfl, h₁, hh₁⟩ := hits_call h hh (B.onPeer _ rfl)
  obtain ⟨tr₁, r, tr₂, rfl, hr, h₂, hh₂⟩ := hits_bind_bind h₁ hh₁ (nextControl_uses B _ _ _)
  rcases r with ⟨e | c, ch'⟩
  · exact absurd hh₂ (Prog.Never.not_hits (B.close_never _ _) h₂)
  rcases c with _ | d | _ | _
  case decision =>
    rcases d with _ | reason
    · obtain ⟨rfl, rfl⟩ := path_ret h₂
      rcases hh₂ with ⟨e, he, -⟩ | ⟨a, ha, hR⟩
      · cases he
      · cases ha
        exact ⟨t, tr₁, ch', by simp, nextControl_ok hr, rfl, hR⟩
    · cases reason <;> exact absurd hh₂ (Prog.Never.not_hits (B.close_never _ _) h₂)
  all_goals exact absurd hh₂ (Prog.Never.not_hits (B.close_never _ _) h₂)

end Hits

end Viewer

end SimpleRemote
