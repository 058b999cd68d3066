import SimpleRemote.Host.Progress

namespace SimpleRemote
open ByteCodec Interaction

variable {C : Crypto}

structure Calm (P : Op HostToServer → Prop) (R : ServeResult × HostState → Prop)
    (st : HostState) : Prop extends Late P R st where
  waiting : ∀ o, o.waiting = true → ¬ P o
  peerNew : ∀ ips, ¬ P (.peerNew ips)
  acceptOffer : ∀ sdp, ¬ P (.acceptOffer sdp)
  localFp : ¬ P .localFingerprint
  remoteFp : ¬ P .remoteFingerprint
  send : ∀ c, c ≠ .decision .accepted → ¬ P (.peerSend (Control.encode c))

structure Silent (P : Op HostToServer → Prop) (R : ServeResult × HostState → Prop)
    (st : HostState) : Prop extends Calm P R st where
  answer : ∀ sealedAnswer, ¬ P (.linkSend (relayOf (.answer sealedAnswer)))

theorem linger_uses (fuel : Nat) (deadline : Instant) (n : Nat) (ch : Channel) :
    Waits (linger fuel deadline n ch) := by
  induction n generalizing ch with
  | zero => trivial
  | succ n ih =>
      refine uses_bind (Channel.next_uses deadline fuel ch) fun r => ?_
      obtain ⟨r, ch'⟩ := r
      rcases r with e | (_ | _ | _ | _)
      · trivial
      · exact ih ch'
      · exact ih ch'
      · trivial
      · trivial

def Op.isApprove {Out : Type} : Op Out → Bool
  | .approve _ => true
  | _ => false

theorem waitApproval_uses (fuel : Nat) (ch : Channel) (req : ApprovalRequest) (limit : Duration) :
    (waitApproval fuel ch req limit).Uses (S := HostSig)
      fun o => o.waiting = true ∨ o.isApprove = true := by
  have hloop (deadline : Instant) (n : Nat) (ch : Channel) :
      (waitApprovalLoop fuel req deadline n ch).Uses (S := HostSig)
        fun o => o.waiting = true ∨ o.isApprove = true := by
    induction n generalizing ch with
    | zero => trivial
    | succ n ih =>
        rw [waitApprovalLoop]
        refine uses_bind (uses_call.mpr (.inr rfl)) fun answer => ?_
        rcases answer with _ | (_ | _)
        · refine uses_bind (uses_call.mpr (.inl rfl)) fun now => ?_
          split
          · trivial
          · refine uses_bind ((Channel.next_uses _ _ _).mono fun _ => .inl) fun r => ?_
            obtain ⟨r, ch'⟩ := r
            rcases r with e | (_ | _ | _ | _)
            case ok.timedOut => exact ih ch'
            all_goals trivial
        · trivial
        · trivial
  exact uses_bind (uses_call.mpr (.inl rfl)) fun _ => hloop _ _ _

section Calm
variable {P : Op HostToServer → Prop} {R : ServeResult × HostState → Prop} {st : HostState}

theorem Calm.uses (L : Calm P R st) {α : Type} {p : HostM α} (h : Waits p) :
    p.Uses fun o => ¬ P o := h.mono L.waiting

theorem Calm.waitApproval_uses (L : Calm P R st) (happrove : ∀ req, ¬ P (.approve req))
    (fuel : Nat) (ch : Channel) (req : ApprovalRequest) (limit : Duration) :
    (waitApproval fuel ch req limit).Uses (S := HostSig) fun o => ¬ P o := by
  refine (SimpleRemote.waitApproval_uses fuel ch req limit).mono fun o ho => ?_
  rcases ho with hwaiting | hasks
  · exact L.waiting o hwaiting
  · cases o <;> first | exact happrove _ | cases hasks

theorem Calm.close_never (L : Calm P R st) {ch : Channel} {r : ServeResult × HostState}
    (hr : ¬ R r) : (ch.close >>= fun _ => (pure r : HostM _)).Never P R :=
  uses_bind (L.uses (Channel.close_uses ch)) fun _ => hr

theorem Calm.failWith_never (L : Calm P R st) (ch : Channel) (f : AttemptFailure) :
    ((failWith ch f >>= fun o => (pure (o, st) : HostM _)) >>= finishAttempt).Never P R := by
  rw [failWith, Prog.bind_assoc, Prog.bind_assoc]
  exact uses_bind (L.uses (Channel.close_uses ch)) fun _ => L.kicked_never f

theorem Calm.rejectDecision_never (L : Calm P R st) (fuel : Nat) (ch : Channel)
    (reason : RejectReason) (f : AttemptFailure) (t : Duration) :
    ((rejectDecision fuel ch reason f t >>= fun o => (pure (o, st) : HostM _)) >>=
      finishAttempt).Never P R := by
  refine ⟨L.send _ (by simp), fun r => ?_⟩
  cases r with
  | error e => exact L.failWith_never ch f
  | ok u =>
      refine ⟨L.now, fun start => ?_⟩
      change (((linger fuel (start + t) fuel ch >>= fun ch' => failWith ch' f) >>=
        fun o => (pure (o, st) : HostM _)) >>= finishAttempt).Never P R
      rw [Prog.bind_assoc, Prog.bind_assoc]
      exact uses_bind (L.uses (linger_uses _ _ _ _)) fun ch' => by
        rw [← Prog.bind_assoc]
        exact L.failWith_never ch' f

theorem answerOffer_hits (L : Calm P R st) {fuel : Nat} {cfg : HostConfig} {sk : SessionKeys}
    {offer : Text} {tr : List (Ev HostSig)} {q : HostM (ServeResult × HostState)}
    (h : Path (answerOffer C fuel cfg st sk offer) tr q) (hh : Hits P R tr q) :
    ∃ answer sealedAnswer sender tr',
      tr = ⟨.peerNew cfg.bindIps, .ok ()⟩ :: ⟨.acceptOffer offer, .ok answer⟩ :: tr' ∧
      sk.hostSide.1.seal C (utf8 answer) = some (sealedAnswer, sender) ∧
      Path (sendAnswer C fuel cfg st sk sealedAnswer Channel.new) tr' q ∧ Hits P R tr' q := by
  rw [answerOffer] at h
  obtain ⟨r, tr₁, rfl, h₁, hh₁⟩ := hits_call h hh (L.peerNew _)
  cases r with
  | error e => exact absurd hh₁ (Prog.Never.not_hits (L.kicked_never _) h₁)
  | ok u =>
      obtain ⟨r, tr₂, rfl, h₂, hh₂⟩ := hits_call h₁ hh₁ (L.acceptOffer _)
      cases r with
      | error e =>
          exact absurd hh₂ (Prog.Never.not_hits
            (L.reject_bind_never .malformed (fun e => L.close_never (L.error e))
              (fun f => L.close_never (L.failed f))) h₂)
      | ok answer =>
          cases hs : sk.hostSide.1.seal C (utf8 answer) with
          | none =>
              simp only [hs] at h₂
              exact absurd hh₂ (Prog.Never.not_hits only_halt h₂)
          | some p =>
              simp only [hs] at h₂
              exact ⟨answer, p.1, p.2, tr₂, rfl, hs, h₂, hh₂⟩

theorem sendAnswer_path (L : Calm P R st) {fuel : Nat} {cfg : HostConfig} {sk : SessionKeys}
    {sealedAnswer : Bytes} {ch : Channel} {tr : List (Ev HostSig)}
    {q : HostM (ServeResult × HostState)}
    (h : Path (sendAnswer C fuel cfg st sk sealedAnswer ch) tr q) :
    tr = [] ∨ ∃ sent tr', tr = ⟨.linkSend (relayOf (.answer sealedAnswer)), sent⟩ :: tr' ∧
      (Hits P R tr' q → sent = .ok () ∧
        Path (handshake C fuel cfg st sk ch >>= finishAttempt) tr' q) := by
  rcases path_call h with ⟨rfl, rfl⟩ | ⟨sent, tr', rfl, h₁⟩
  · exact .inl rfl
  · refine .inr ⟨sent, tr', rfl, fun hh => ?_⟩
    cases sent with
    | error e => exact absurd hh (Prog.Never.not_hits (L.close_never (L.error _)) h₁)
    | ok u => exact ⟨rfl, h₁⟩

theorem handshake_hits (L : Calm P R st) {fuel : Nat} {cfg : HostConfig} {sk : SessionKeys}
    {ch : Channel} {tr : List (Ev HostSig)} {q : HostM (ServeResult × HostState)}
    (h : Path (handshake C fuel cfg st sk ch >>= finishAttempt) tr q) (hh : Hits P R tr q) :
    ∃ t tr₁ ch' tr₂, tr = ⟨.now, t⟩ :: (tr₁ ++ tr₂) ∧
      Exec (ch.waitOpen (t + cfg.timeouts.connect) fuel) tr₁ (.ok .ready, ch') ∧
      Path (exchangeHello C fuel cfg st sk ch' >>= finishAttempt) tr₂ q ∧ Hits P R tr₂ q := by
  rw [handshake, Prog.bind_assoc] at h
  obtain ⟨t, tr', rfl, h₁, hh₁⟩ := hits_call h hh L.now
  obtain ⟨tr₁, r, tr₂, rfl, hr, h₂, hh₂⟩ :=
    hits_bind_bind h₁ hh₁ (L.uses (Channel.waitOpen_uses _ _ _))
  obtain ⟨r, ch'⟩ := r
  rcases r with e | (_ | _ | _)
  case ok.ready => exact ⟨t, tr₁, ch', tr₂, rfl, hr, h₂, hh₂⟩
  all_goals exact absurd hh₂ (Prog.Never.not_hits (L.failWith_never _ _) h₂)

theorem exchangeHello_hits (L : Calm P R st) {fuel : Nat} {cfg : HostConfig} {sk : SessionKeys}
    {ch : Channel} {tr : List (Ev HostSig)} {q : HostM (ServeResult × HostState)}
    (h : Path (exchangeHello C fuel cfg st sk ch >>= finishAttempt) tr q) (hh : Hits P R tr q) :
    ∃ localFp remoteFp t tr₁ viewerHello ch' tr₂,
      tr = ⟨.localFingerprint, localFp⟩ :: ⟨.remoteFingerprint, some remoteFp⟩ ::
        ⟨.peerSend (Control.encode (.hello (hostHello C cfg sk localFp remoteFp))), .ok ()⟩ ::
        ⟨.now, t⟩ :: (tr₁ ++ tr₂) ∧
      Exec (ch.next (t + cfg.timeouts.signalingStep) fuel) tr₁
        (.ok (.msg (.hello viewerHello)), ch') ∧
      Path (judgeHello C fuel cfg st sk localFp remoteFp viewerHello ch' >>= finishAttempt) tr₂ q ∧
      Hits P R tr₂ q := by
  rw [exchangeHello, Prog.bind_assoc] at h
  obtain ⟨localFp, tr', rfl, h₁, hh₁⟩ := hits_call h hh L.localFp
  obtain ⟨r, tr', rfl, h₂, hh₂⟩ := hits_call h₁ hh₁ L.remoteFp
  cases r with
  | none => exact absurd hh₂ (Prog.Never.not_hits (L.failWith_never _ _) h₂)
  | some remoteFp =>
      obtain ⟨r, tr', rfl, h₃, hh₃⟩ := hits_call h₂ hh₂ (L.send _ (by simp))
      cases r with
      | error e => exact absurd hh₃ (Prog.Never.not_hits (L.failWith_never _ _) h₃)
      | ok u =>
          obtain ⟨t, tr', rfl, h₄, hh₄⟩ := hits_call h₃ hh₃ L.now
          obtain ⟨tr₁, r, tr₂, rfl, hr, h₅, hh₅⟩ :=
            hits_bind_bind (p := ch.next (t + cfg.timeouts.signalingStep) fuel) h₄ hh₄ (L.uses (Channel.next_uses _ _ _))
          obtain ⟨r, ch'⟩ := r
          rcases r with e | (c | _ | _ | _)
          case ok.msg =>
            cases c with
            | hello viewerHello =>
                exact ⟨localFp, remoteFp, t, tr₁, viewerHello, ch', tr₂, rfl, hr, h₅, hh₅⟩
            | _ => exact absurd hh₅ (Prog.Never.not_hits (L.failWith_never _ _) h₅)
          all_goals exact absurd hh₅ (Prog.Never.not_hits (L.failWith_never _ _) h₅)

theorem judgeHello_hits (L : Calm P R st) {fuel : Nat} {cfg : HostConfig} {sk : SessionKeys}
    {localFp remoteFp : Bytes} {viewerHello : Hello} {ch : Channel} {tr : List (Ev HostSig)}
    {q : HostM (ServeResult × HostState)}
    (h : Path (judgeHello C fuel cfg st sk localFp remoteFp viewerHello ch >>= finishAttempt) tr q)
    (hh : Hits P R tr q) :
    ∃ viewer, verifyHello C viewerHello .viewer sk.helloBinding remoteFp localFp = .ok viewer ∧
      viewerHello.protocolVersion = cfg.protocolVersion ∧
      Path (askApproval C fuel cfg st viewer ch >>= finishAttempt) tr q := by
  rw [judgeHello] at h
  split at h
  · exact absurd hh (Prog.Never.not_hits (L.rejectDecision_never _ _ _ _ _) h)
  · rename_i viewer hv
    split at h
    · exact absurd hh (Prog.Never.not_hits (L.rejectDecision_never _ _ _ _ _) h)
    · rename_i hversion
      exact ⟨viewer, hv, not_not.mp hversion, h⟩

theorem askApproval_hits (L : Calm P R st) (happrove : ∀ req, ¬ P (.approve req)) {fuel : Nat}
    {cfg : HostConfig} {viewer : PeerIdentity} {ch : Channel} {tr : List (Ev HostSig)}
    {q : HostM (ServeResult × HostState)}
    (h : Path (askApproval C fuel cfg st viewer ch >>= finishAttempt) tr q) (hh : Hits P R tr q) :
    ∃ tr₁ ch' tr₂, tr = tr₁ ++ tr₂ ∧
      Exec (waitApproval fuel ch (approvalRequest C viewer) cfg.timeouts.approval) tr₁
        (.granted, ch') ∧
      Path (accept st viewer ch' >>= finishAttempt) tr₂ q ∧ Hits P R tr₂ q := by
  rw [askApproval] at h
  obtain ⟨tr₁, r, tr₂, rfl, ha, h₁, hh₁⟩ :=
    hits_bind_bind h hh (L.waitApproval_uses happrove fuel ch _ _)
  obtain ⟨a, ch'⟩ := r
  cases a with
  | granted => exact ⟨tr₁, ch', tr₂, rfl, ha, h₁, hh₁⟩
  | failed f => exact absurd hh₁ (Prog.Never.not_hits (L.failWith_never _ _) h₁)
  | _ => exact absurd hh₁ (Prog.Never.not_hits (L.rejectDecision_never _ _ _ _ _) h₁)

theorem askApproval_never (L : Calm P R st) (happrove : ∀ req, ¬ P (.approve req))
    (haccept : ¬ P (.peerSend (Control.encode (.decision .accepted))))
    (hcode : ¬ P .generateCode) (hR : ∀ r, ¬ R r) {fuel : Nat} {cfg : HostConfig}
    {viewer : PeerIdentity} {ch : Channel} {tr : List (Ev HostSig)}
    {q : HostM (ServeResult × HostState)}
    (h : Path (askApproval C fuel cfg st viewer ch >>= finishAttempt) tr q) : ¬ Hits P R tr q := by
  intro hh
  obtain ⟨tr₁, ch', tr₂, rfl, ha, h₁, hh₁⟩ := askApproval_hits L happrove h hh
  rw [accept, Prog.bind_assoc] at h₁
  obtain ⟨r, tr₃, rfl, h₂, hh₂⟩ := hits_call h₁ hh₁ haccept
  cases r with
  | error e => exact absurd hh₂ (Prog.Never.not_hits (L.failWith_never _ _) h₂)
  | ok u =>
      obtain ⟨code, tr₄, rfl, h₃, hh₃⟩ := hits_call h₂ hh₂ hcode
      exact absurd hh₃ (Prog.Never.not_hits (only_ret.mpr (hR _)) h₃)

end Calm

structure Answered (C : Crypto) (cfg : HostConfig) (st : HostState) extends
    Confirmed C cfg st where
  offer : Text
  opened : openOffer C toConfirmed.keys sealedOffer = some offer
  answer : Text
  sealedAnswer : Bytes
  sender : SealedSender
  sealed : toConfirmed.keys.hostSide.1.seal C (utf8 answer) = some (sealedAnswer, sender)

structure Gate (C : Crypto) (fuel : Nat) (cfg : HostConfig) (st : HostState) extends
    Answered C cfg st where
  answeredAt : Instant
  openTrace : List (Ev HostSig)
  openCh : Channel
  ready : Exec (Channel.new.waitOpen (answeredAt + cfg.timeouts.connect) fuel) openTrace
    (.ok .ready, openCh)
  localFp : Bytes
  remoteFp : Bytes
  helloAt : Instant
  helloTrace : List (Ev HostSig)
  viewerHello : Hello
  ch : Channel
  greeted : Exec (openCh.next (helloAt + cfg.timeouts.signalingStep) fuel) helloTrace
    (.ok (.msg (.hello viewerHello)), ch)
  viewer : PeerIdentity
  verified : verifyHello C viewerHello .viewer toConfirmed.keys.helloBinding remoteFp localFp =
    .ok viewer
  sameVersion : viewerHello.protocolVersion = cfg.protocolVersion

namespace Gate
variable {fuel : Nat} {cfg : HostConfig} {st : HostState}

def tailTrace (g : Gate C fuel cfg st) : List (Ev HostSig) :=
  ⟨.peerNew cfg.bindIps, .ok ()⟩ ::
  ⟨.acceptOffer g.offer, .ok g.answer⟩ ::
  ⟨.linkSend (relayOf (.answer g.sealedAnswer)), .ok ()⟩ ::
  ⟨.now, g.answeredAt⟩ ::
  (g.openTrace ++
    ⟨.localFingerprint, g.localFp⟩ ::
    ⟨.remoteFingerprint, some g.remoteFp⟩ ::
    ⟨.peerSend (Control.encode (.hello (hostHello C cfg g.keys g.localFp g.remoteFp))), .ok ()⟩ ::
    ⟨.now, g.helloAt⟩ ::
    g.helloTrace)

def trace (g : Gate C fuel cfg st) : List (Ev HostSig) := g.toConfirmed.trace ++ g.tailTrace

end Gate

theorem confirmed_gate {P : Op HostToServer → Prop} {R : ServeResult × HostState → Prop}
    {fuel : Nat} {cfg : HostConfig} {st : HostState} {c : Confirmed C cfg st}
    (L : Silent P R c.state) {tr : List (Ev HostSig)} {q : HostM (ServeResult × HostState)}
    (h : Path (confirmed C fuel cfg c.state c.keys c.sealedOffer) tr q) (hh : Hits P R tr q) :
    ∃ (g : Gate C fuel cfg st) (tr' : List (Ev HostSig)), g.toConfirmed = c ∧
      tr = g.tailTrace ++ tr' ∧
      Path (askApproval C fuel cfg g.state g.viewer g.ch >>= finishAttempt) tr' q ∧
      Hits P R tr' q := by
  obtain ⟨offer, ho, h₁⟩ := confirmed_hits L.toLate h hh
  obtain ⟨answer, sealedAnswer, sender, tr', rfl, hs, h₂, hh₂⟩ := answerOffer_hits L.toCalm h₁ hh
  obtain ⟨r, tr', rfl, h₂', hh₂'⟩ := hits_call h₂ hh₂ (L.answer _)
  cases r with
  | error e => exact absurd hh₂' (Prog.Never.not_hits (L.close_never (L.error _)) h₂')
  | ok u =>
  obtain ⟨t, trOpen, chOpen, tr', rfl, hopen, h₃, hh₃⟩ := handshake_hits L.toCalm h₂' hh₂'
  obtain ⟨localFp, remoteFp, t', trHello, viewerHello, ch, tr', rfl, hnext, h₄, hh₄⟩ :=
    exchangeHello_hits L.toCalm h₃ hh₃
  obtain ⟨viewer, hv, hversion, h₅⟩ := judgeHello_hits L.toCalm h₄ hh₄
  exact ⟨⟨⟨c, offer, ho, answer, sealedAnswer, sender, hs⟩, t, trOpen, chOpen, hopen, localFp,
    remoteFp, t', trHello, viewerHello, ch, hnext, viewer, hv, hversion⟩, tr', rfl,
    by simp [Gate.tailTrace, Confirmed.keys], h₅, hh₄⟩

def isSession : ServeResult × HostState → Prop
  | (.ok (.session _), _) => True
  | _ => False

def isDecisive (o : Op HostToServer) : Prop :=
  o.isApprove = true ∨ o = .peerSend (Control.encode (.decision .accepted))

theorem encode_ne_accepted {c : Control} (h : c ≠ .decision .accepted) :
    Control.encode c ≠ Control.encode (.decision .accepted) := by
  intro he
  have hd := Control.decode_encode (.decision .accepted)
  rw [if_neg (by decide), ← he] at hd
  exact h (Control.eq_of_decode_encode hd).symm

theorem not_decisive_of_waiting {o : Op HostToServer} (h : o.waiting = true) : ¬ isDecisive o := by
  rintro (h' | rfl)
  · cases o <;> simp_all [Op.isApprove, Op.waiting]
  · cases h

theorem not_decisive_send {c : Control} (h : c ≠ .decision .accepted) :
    ¬ isDecisive (.peerSend (Control.encode c)) := by
  rintro (h' | h')
  · cases h'
  · exact encode_ne_accepted h (Op.peerSend.inj h')

theorem decisive_silent (st : HostState) : Silent isDecisive isSession st where
  now := by simp [isDecisive, Op.isApprove]
  recv := by simp [isDecisive, Op.isApprove]
  kick := by simp [isDecisive, Op.isApprove]
  retryAfter := by simp [isDecisive, Op.isApprove]
  rejected := by simp [isDecisive, Op.isApprove]
  partyBStart := by simp [isDecisive, Op.isApprove]
  finish := by simp [isDecisive, Op.isApprove]
  error := by simp [isSession]
  failed := by simp [isSession]
  left := by simp [isSession]
  waiting := fun _ => not_decisive_of_waiting
  peerNew := by simp [isDecisive, Op.isApprove]
  acceptOffer := by simp [isDecisive, Op.isApprove]
  answer := by simp [isDecisive, Op.isApprove]
  localFp := by simp [isDecisive, Op.isApprove]
  remoteFp := by simp [isDecisive, Op.isApprove]
  send := fun _ => not_decisive_send

theorem decisive_deep : Deep isDecisive isSession where
  late st := (decisive_silent st).toLate
  generateCode := by simp [isDecisive, Op.isApprove]
  reply := by simp [isDecisive, Op.isApprove]
  verify := by simp [isDecisive, Op.isApprove]

theorem attempt_gate {fuel : Nat} {cfg : HostConfig} {st : HostState} {tr : List (Ev HostSig)}
    {q : HostM (ServeResult × HostState)} (h : Path (attempt C fuel cfg st) tr q)
    (hh : Hits isDecisive isSession tr q) :
    ∃ (g : Gate C fuel cfg st) (tr' : List (Ev HostSig)), tr = g.trace ++ tr' ∧
      Path (askApproval C fuel cfg g.state g.viewer g.ch >>= finishAttempt) tr' q := by
  obtain ⟨c, tr', rfl, h₁, hh₁⟩ := attempt_confirmed decisive_deep h hh
  obtain ⟨g, tr', rfl, rfl, h₂, -⟩ := confirmed_gate (decisive_silent _) h₁ hh₁
  exact ⟨g, tr', by simp [Gate.trace], h₂⟩

def asked : List (Ev HostSig) → List (ApprovalRequest × Option Bool)
  | [] => []
  | ⟨.approve req, answer⟩ :: tr => (req, answer) :: asked tr
  | _ :: tr => asked tr

theorem asked_append (tr tr' : List (Ev HostSig)) : asked (tr ++ tr') = asked tr ++ asked tr' := by
  induction tr with
  | nil => rfl
  | cons e tr ih =>
      obtain ⟨o, r⟩ := e
      cases o <;> simp [asked, ih]

theorem asked_cons {e : Ev HostSig} {tr : List (Ev HostSig)} (h : e.op.isApprove = false) :
    asked (e :: tr) = asked tr := by
  obtain ⟨o, r⟩ := e
  cases o <;> first | rfl | cases h

theorem asked_eq_nil {tr : List (Ev HostSig)} (h : ∀ e ∈ tr, e.op.isApprove = false) :
    asked tr = [] := by
  induction tr with
  | nil => rfl
  | cons e tr ih =>
      simp only [List.mem_cons, forall_eq_or_imp] at h
      rw [asked_cons h.1, ih h.2]

theorem asked_of_uses {α : Type} {P : Op HostToServer → Prop} {p q : HostM α}
    {tr : List (Ev HostSig)} (hp : p.Uses (S := HostSig) P)
    (hP : ∀ o, P o → o.isApprove = false) (h : Path p tr q) : asked tr = [] :=
  asked_eq_nil fun e he => hP _ ((hp.path h).1 e he)

theorem isApprove_of_waiting {o : Op HostToServer} (h : o.waiting = true) :
    o.isApprove = false := by
  cases o <;> first | rfl | cases h

def polled (req : ApprovalRequest) (k : Nat) (answer : Option Bool) :
    List (ApprovalRequest × Option Bool) :=
  List.replicate k (req, none) ++ (answer.map fun b => (req, some b)).toList

theorem polled_cons {req : ApprovalRequest} {k : Nat} {answer : Option Bool} :
    (req, none) :: polled req k answer = polled req (k + 1) answer := by
  simp [polled, List.replicate_succ]

structure Polls (req : ApprovalRequest) (tr : List (Ev HostSig)) (p : HostM (Approval × Channel)) :
    Prop where
  asked : ∃ k answer, asked tr = polled req k answer ∧
    ∀ ch, p = .ret (.granted, ch) → answer = some true

theorem polls_nil (req : ApprovalRequest) {tr : List (Ev HostSig)}
    {p : HostM (Approval × Channel)} (htr : asked tr = [])
    (hp : ∀ ch, p ≠ .ret (.granted, ch)) : Polls req tr p :=
  ⟨0, none, htr, fun ch h => absurd h (hp ch)⟩

theorem Polls.cons {req : ApprovalRequest} {pre tr : List (Ev HostSig)}
    {p : HostM (Approval × Channel)} (h : Polls req tr p) (hpre : SimpleRemote.asked pre = []) :
    Polls req (⟨.approve req, none⟩ :: (pre ++ tr)) p := by
  obtain ⟨k, answer, ha, hg⟩ := h
  refine ⟨k + 1, answer, ?_, hg⟩
  rw [SimpleRemote.asked, asked_append, hpre, ha, List.nil_append, polled_cons]

theorem waitApprovalLoop_polls {fuel n : Nat} {req : ApprovalRequest} {deadline : Instant}
    {ch : Channel} {tr : List (Ev HostSig)} {p : HostM (Approval × Channel)}
    (h : Path (waitApprovalLoop fuel req deadline n ch) tr p) : Polls req tr p := by
  induction n generalizing ch tr with
  | zero =>
      obtain ⟨rfl, rfl⟩ := path_halt h
      exact polls_nil req rfl fun _ hp => by cases hp
  | succ n ih =>
      rw [waitApprovalLoop] at h
      rcases path_call h with ⟨rfl, rfl⟩ | ⟨answer, tr₁, rfl, h₁⟩
      · exact polls_nil req rfl fun _ hp => by cases hp
      rcases answer with _ | (_ | _)
      case some.true =>
        obtain ⟨rfl, rfl⟩ := path_ret h₁
        exact ⟨0, some true, rfl, fun _ _ => rfl⟩
      case some.false =>
        obtain ⟨rfl, rfl⟩ := path_ret h₁
        exact ⟨0, some false, rfl, fun _ hp => by cases hp⟩
      case none =>
        have stop {q : HostM (Approval × Channel)} (hq : ∀ ch, q ≠ .ret (.granted, ch))
            {pre : List (Ev HostSig)} (hpre : asked pre = []) :
            Polls req (⟨.approve req, none⟩ :: pre) q := by
          have hnil : Polls req [] q := polls_nil req rfl hq
          simpa using hnil.cons hpre
        rcases path_call h₁ with ⟨rfl, rfl⟩ | ⟨now, tr₂, rfl, h₂⟩
        · exact stop (fun _ hp => by cases hp) rfl
        split at h₂
        · obtain ⟨rfl, rfl⟩ := path_ret h₂
          exact stop (fun _ hp => by cases hp) rfl
        · have hnext {q : HostM _} {tr : List (Ev HostSig)}
              (hq : Path (Channel.next (min (now + APPROVAL_POLL) deadline) fuel ch) tr q) :
              asked (⟨.now, now⟩ :: tr) = [] := by
            rw [asked_cons rfl]
            exact asked_of_uses (Channel.next_uses _ _ _) (fun _ => isApprove_of_waiting) hq
          rcases Path.bind_cases h₂ with ⟨p', hp, hne, rfl⟩ | ⟨tr₃, ⟨r, ch'⟩, tr₄, rfl, hr, h₃⟩
          · exact stop (fun _ => bind_ne_ret hne _ _) (hnext hp)
          · rcases r with e | (c | _ | _ | _)
            case ok.timedOut => exact (ih h₃).cons (hnext hr)
            all_goals
              obtain ⟨rfl, rfl⟩ := path_ret h₃
              exact stop (fun _ hp => by cases hp) (by simpa using hnext hr)

theorem waitApproval_polls {fuel : Nat} {ch : Channel} {req : ApprovalRequest} {limit : Duration}
    {tr : List (Ev HostSig)} {p : HostM (Approval × Channel)}
    (h : Path (waitApproval fuel ch req limit) tr p) : Polls req tr p := by
  rw [waitApproval] at h
  rcases path_call h with ⟨rfl, rfl⟩ | ⟨start, tr', rfl, h'⟩
  · exact polls_nil req rfl fun _ hp => by cases hp
  · obtain ⟨k, answer, ha, hg⟩ := waitApprovalLoop_polls h'
    exact ⟨k, answer, by rw [asked_cons rfl, ha], hg⟩

theorem isApprove_of_onPeer {o : Op HostToServer} (h : o.onPeer = true) : o.isApprove = false := by
  cases o <;> first | rfl | cases h

abbrev Fails (st : HostState) (p : HostM (ServeOutcome × HostState)) : Prop :=
  p.Only (fun o : Op HostToServer => o.onPeer = true) fun r => r.2 = st ∧ ∃ f, r.1 = .failed f

theorem failWith_fails (ch : Channel) (f : AttemptFailure) (st : HostState) :
    Fails st (failWith ch f >>= fun o => pure (o, st)) := by
  rw [failWith, Prog.bind_assoc]
  exact uses_bind ((Channel.close_uses ch).mono fun _ => Op.onPeer_of_waiting)
    fun _ => ⟨rfl, f, rfl⟩

theorem rejectDecision_fails (fuel : Nat) (ch : Channel) (reason : RejectReason)
    (f : AttemptFailure) (t : Duration) (st : HostState) :
    Fails st (rejectDecision fuel ch reason f t >>= fun o => pure (o, st)) := by
  refine ⟨rfl, fun r => ?_⟩
  cases r with
  | error e => exact failWith_fails ch f st
  | ok u =>
      refine ⟨rfl, fun start => ?_⟩
      change Fails st ((linger fuel (start + t) fuel ch >>= fun ch' => failWith ch' f) >>=
        fun o => pure (o, st))
      rw [Prog.bind_assoc]
      exact uses_bind ((linger_uses _ _ _ _).mono fun _ => Op.onPeer_of_waiting)
        fun ch' => failWith_fails ch' f st

theorem Fails.not_session {st st' : HostState} {p : HostM (ServeOutcome × HostState)}
    {tr : List (Ev HostSig)} {s : HostSession} (hp : Fails st p) :
    ¬ Exec p tr (.session s, st') := by
  intro h
  obtain ⟨-, f, hf⟩ := (hp.path h).2
  cases hf

theorem accept_uses (st : HostState) (viewer : PeerIdentity) (ch : Channel) :
    (accept st viewer ch).Uses (S := HostSig) fun o => o.isApprove = false := by
  refine uses_bind (uses_call.mpr rfl) fun r => ?_
  cases r with
  | error e => exact (failWith_fails ch _ st).mono (fun _ => isApprove_of_onPeer) fun _ _ => trivial
  | ok u => exact uses_bind (uses_call.mpr rfl) fun _ => trivial

theorem askApproval_polls {fuel : Nat} {cfg : HostConfig} {st : HostState} {viewer : PeerIdentity}
    {ch : Channel} {tr : List (Ev HostSig)} {p : HostM (ServeOutcome × HostState)}
    (h : Path (askApproval C fuel cfg st viewer ch) tr p) :
    ∃ k answer, asked tr = polled (approvalRequest C viewer) k answer := by
  rw [askApproval] at h
  rcases Path.bind_cases h with ⟨p', hp, -, rfl⟩ | ⟨tr₁, ⟨a, ch'⟩, tr₂, rfl, ha, h'⟩
  · obtain ⟨k, answer, hk, -⟩ := waitApproval_polls hp
    exact ⟨k, answer, hk⟩
  · obtain ⟨k, answer, hk, -⟩ := waitApproval_polls ha
    refine ⟨k, answer, ?_⟩
    have hfails {q : HostM (ServeOutcome × HostState)} (hq : Fails st q)
        (h : Path q tr₂ p) : asked tr₂ = [] :=
      asked_eq_nil fun e he => isApprove_of_onPeer ((hq.path h).1 e he)
    have hnil : asked tr₂ = [] := by
      cases a with
      | granted => exact asked_of_uses (accept_uses _ _ _) (fun _ => id) h'
      | denied => exact hfails (rejectDecision_fails _ _ _ _ _ _) h'
      | noResponse => exact hfails (rejectDecision_fails _ _ _ _ _ _) h'
      | failed f => exact hfails (failWith_fails _ _ _) h'
    rw [asked_append, hk, hnil, List.append_nil]

theorem accept_cases {st st' : HostState} {viewer : PeerIdentity} {ch : Channel}
    {tr : List (Ev HostSig)} {o : ServeOutcome} (h : Exec (accept st viewer ch) tr (o, st')) :
    (∃ e, Exec (failWith ch .transport >>= fun o => pure (o, st)) e (o, st') ∧
      ∃ err, tr = ⟨.peerSend (Control.encode (.decision .accepted)), .error err⟩ :: e) ∨
    ∃ code, tr = [⟨.peerSend (Control.encode (.decision .accepted)), .ok ()⟩,
        ⟨.generateCode, code⟩] ∧ o = .session ⟨viewer, ch⟩ ∧ st' = { st with code := code } := by
  obtain ⟨r, tr₂, rfl, h'⟩ := exec_call_bind.mp h
  cases r with
  | error err => exact .inl ⟨tr₂, h', err, rfl⟩
  | ok u =>
      obtain ⟨code, tr₂, rfl, h''⟩ := exec_call_bind.mp h'
      simp only [Prog.pure_eq, exec_ret, Prod.mk.injEq] at h''
      obtain ⟨rfl, rfl, rfl⟩ := h''
      exact .inr ⟨code, rfl, rfl, rfl⟩

theorem askApproval_session {fuel : Nat} {cfg : HostConfig} {st st' : HostState}
    {viewer : PeerIdentity} {ch : Channel} {tr : List (Ev HostSig)} {s : HostSession}
    (h : Exec (askApproval C fuel cfg st viewer ch) tr (.session s, st')) :
    ∃ tr' k code, tr = tr' ++ [⟨.peerSend (Control.encode (.decision .accepted)), .ok ()⟩,
        ⟨.generateCode, code⟩] ∧
      asked tr' = polled (approvalRequest C viewer) k (some true) ∧ s.viewer = viewer ∧
      st' = { st with code := code } := by
  obtain ⟨tr₁, ⟨a, ch'⟩, tr₂, rfl, ha, h'⟩ := exec_bind.mp h
  obtain ⟨k, answer, hk, hg⟩ := waitApproval_polls ha
  cases a with
  | granted =>
      rcases accept_cases h' with ⟨e, he, -⟩ | ⟨code, rfl, hs, rfl⟩
      · exact absurd he (failWith_fails _ _ _).not_session
      · obtain rfl := hg ch' rfl
        obtain rfl := ServeOutcome.session.inj hs
        exact ⟨tr₁, k, code, rfl, hk, rfl, rfl⟩
  | failed f => exact absurd h' (failWith_fails _ _ _).not_session
  | _ => exact absurd h' (rejectDecision_fails _ _ _ _ _ _).not_session

theorem Gate.asked_trace {fuel : Nat} {cfg : HostConfig} {st : HostState}
    (g : Gate C fuel cfg st) : asked g.trace = [] := by
  have hrecord : asked g.recordTrace = [] :=
    asked_of_uses (decisive_deep.toEarly.record_uses st) (fun o ho => by simpa using fun h => ho (.inl h))
      g.recorded
  have hopen : asked g.openTrace = [] :=
    asked_of_uses (Channel.waitOpen_uses _ _ _) (fun _ => isApprove_of_waiting) g.ready
  have hhello : asked g.helloTrace = [] :=
    asked_of_uses (Channel.next_uses _ _ _) (fun _ => isApprove_of_waiting) g.greeted
  simp [Gate.trace, Gate.tailTrace, Confirmed.trace, Started.trace, asked_append,
    asked, hrecord, hopen, hhello]

theorem finishAttempt_uses (r : ServeOutcome × HostState) :
    (finishAttempt r).Uses (S := HostSig) fun o => o.isApprove = false := by
  obtain ⟨s | f | _, st⟩ := r
  · trivial
  · exact uses_bind (uses_bind (uses_call.mpr rfl) fun r => by cases r <;> trivial)
      fun _ => trivial
  · trivial

theorem finishAttempt_session {o : ServeOutcome} {st st' : HostState} {tr : List (Ev HostSig)}
    {s : HostSession} (h : Exec (finishAttempt (o, st)) tr (.ok (.session s), st')) :
    tr = [] ∧ o = .session s ∧ st = st' := by
  cases o with
  | session s' =>
      simp only [finishAttempt, Prog.pure_eq, exec_ret, Prod.mk.injEq, Except.ok.injEq,
        ServeOutcome.session.injEq] at h
      obtain ⟨rfl, rfl, rfl⟩ := h
      exact ⟨rfl, rfl, rfl⟩
  | failed f => exact absurd trivial (Prog.Never.not_exec ((decisive_silent st).kicked_never f) h)
  | viewerLeft => simp [finishAttempt] at h

theorem asked_skipped {cfg : HostConfig} {tr : List (Ev HostSig)} (h : ∀ e ∈ tr, skips cfg e) :
    asked tr = [] := by
  refine asked_eq_nil fun e he => ?_
  obtain ⟨r, rfl, -⟩ := h e he
  rfl

def Granted (C : Crypto) (cfg : HostConfig) (st : HostState) (tr : List (Ev HostSig))
    (s : HostSession) (st' : HostState) : Prop :=
  ∃ (n : Nat) (g : Gate C n cfg st) (skipped approval : List (Ev HostSig)) (k : Nat)
    (code : OneTimeCode),
    tr = skipped ++ viewerJoined cfg :: (g.trace ++ approval ++
      [⟨.peerSend (Control.encode (.decision .accepted)), .ok ()⟩, ⟨.generateCode, code⟩]) ∧
    (∀ e ∈ skipped, skips cfg e) ∧ asked g.trace = [] ∧
    asked approval = polled (approvalRequest C g.viewer) k (some true) ∧
    s.viewer = g.viewer ∧ st'.code = code

def AskedPastGate (C : Crypto) (cfg : HostConfig) (st : HostState) (tr : List (Ev HostSig)) :
    Prop :=
  ∃ (n : Nat) (g : Gate C n cfg st) (skipped approval : List (Ev HostSig)) (k : Nat)
    (answer : Option Bool),
    tr = skipped ++ viewerJoined cfg :: (g.trace ++ approval) ∧
    asked skipped = [] ∧ asked g.trace = [] ∧
    asked approval = polled (approvalRequest C g.viewer) k answer

theorem serveNext_gate (C : Crypto) (fuel : Nat) (cfg : HostConfig) (st : HostState) :
    (∀ tr s st', Exec (serveNext C cfg st fuel) tr (.ok (.session s), st') →
      Granted C cfg st tr s st') ∧
    (∀ tr q, Path (serveNext C cfg st fuel) tr q → asked tr ≠ [] → AskedPastGate C cfg st tr) := by
  constructor
  · intro tr s st' h
    obtain ⟨n, skipped, tr', rfl, hs, h₁, hh₁⟩ :=
      serveNext_hits (decisive_deep.late st) h (.inr ⟨_, rfl, trivial⟩)
    obtain ⟨g, tail, rfl, h₂⟩ := attempt_gate h₁ hh₁
    obtain ⟨tr₁, r, tr₂, rfl, hr, hf⟩ := exec_bind.mp h₂
    obtain ⟨o, st₁⟩ := r
    obtain ⟨rfl, rfl, rfl⟩ := finishAttempt_session hf
    obtain ⟨approval, k, code, rfl, hk, hv, rfl⟩ := askApproval_session hr
    exact ⟨n, g, skipped, approval, k, code, by simp, hs, g.asked_trace, hk, hv, rfl⟩
  · intro tr q h ha
    have hh : Hits isDecisive isSession tr q :=
      .inl (Classical.byContradiction fun hno => ha (asked_eq_nil fun e he => by
        simpa using fun h => hno ⟨e, he, .inl h⟩))
    obtain ⟨n, skipped, tr', rfl, hs, h₁, hh₁⟩ := serveNext_hits (decisive_deep.late st) h hh
    obtain ⟨g, tail, rfl, h₂⟩ := attempt_gate h₁ hh₁
    refine ⟨n, g, skipped, tail, ?_⟩
    rcases Path.bind_cases h₂ with ⟨p, hp, -, rfl⟩ | ⟨tr₁, r, tr₂, rfl, hr, hf⟩
    · obtain ⟨k, answer, hk⟩ := askApproval_polls hp
      exact ⟨k, answer, rfl, asked_skipped hs, g.asked_trace, hk⟩
    · obtain ⟨k, answer, hk⟩ := askApproval_polls hr
      refine ⟨k, answer, rfl, asked_skipped hs, g.asked_trace, ?_⟩
      rw [asked_append, hk, asked_of_uses (finishAttempt_uses r) (fun _ => id) hf, List.append_nil]

def sampleIps : List IpAddr := [.v4 (filled 4 10)]

def HostConfig.sample : HostConfig where
  hostId := "h".toList
  keys := .sample 3 'h' host_name
  bindIps := sampleIps
  timeouts := .default
  protocolVersion := PROTOCOL_VERSION

def HostState.sample : HostState := ⟨.sample, .new⟩

section Sample

def sampleOutput : Spake2Output := ⟨0, [7], filled 32 5⟩

def sampleKeys : SessionKeys := deriveSessionKeys .sample sampleOutput.sessionKey

def sampleHello : Hello :=
  (DeviceKeys.sample 9 'v' viewer_name).makeHello .sample .viewer sampleKeys.helloBinding [2] [1]

def relayed (msg : PakeMsg) : Ev HostSig :=
  ⟨.linkRecv (Duration.fromSecs 15), .ok (some (.relay (hexEncode (PakeMsg.encode msg))))⟩

def relays (msg : PakeMsg) : Ev HostSig := ⟨.linkSend (relayOf msg), .ok ()⟩

def sampleSealed (key : ByteArr 32) (label : Bytes) : Bytes :=
  beBytes 8 0 ++ Crypto.sample.encrypt key (nonceFor 0) label (utf8 ['s'])

def sampleStart (t : Instant) (assigned : List (Ev HostSig)) : List (Ev HostSig) :=
  [viewerJoined .sample, ⟨.now, t⟩, relayed (.start [4]),
    ⟨.partyBStart (fromBe (CODE_CONTEXT ++ utf8 OneTimeCode.sample.digits)) VIEWER_ID
      (hostIdBytes HostConfig.sample.hostId) AAD, .ok ([6], ⟨0⟩)⟩,
    ⟨.finish ⟨0⟩ [4], .ok sampleOutput⟩, ⟨.now, t⟩] ++
  assigned ++ [relays (.reply [6] (filled 32 5).val)]

def sampleSession : List (Ev HostSig) :=
  sampleStart 10 [] ++
  [relayed (.confirm (filled 32 8).val (sampleSealed sampleKeys.viewerToHost labelV2h)),
    ⟨.verifyPeerConfirmation sampleOutput (filled 32 8), .ok ()⟩,
    ⟨.peerNew sampleIps, .ok ()⟩, ⟨.acceptOffer ['s'], .ok ['s']⟩,
    relays (.answer (sampleSealed sampleKeys.hostToViewer labelH2v)),
    ⟨.now, 12⟩, ⟨.now, 12⟩, ⟨.poll (Duration.fromSecs 10), .ok [.channelOpen]⟩,
    ⟨.localFingerprint, [1]⟩, ⟨.remoteFingerprint, some [2]⟩,
    ⟨.peerSend (Control.encode (.hello (hostHello .sample .sample sampleKeys [1] [2]))), .ok ()⟩,
    ⟨.now, 13⟩, ⟨.now, 13⟩,
    ⟨.poll (Duration.fromSecs 15), .ok [.data (Control.encode (.hello sampleHello))]⟩,
    ⟨.now, 14⟩,
    ⟨.approve (approvalRequest .sample
      ((DeviceKeys.sample 9 'v' viewer_name).identity .sample)), some true⟩,
    ⟨.peerSend (Control.encode (.decision .accepted)), .ok ()⟩, ⟨.generateCode, .sample⟩]

def sampleServed : HostSession := ⟨(DeviceKeys.sample 9 'v' viewer_name).identity .sample, .new⟩

theorem sample_session : Exec (serveNext .sample .sample .sample 5) sampleSession
    (.ok (.session sampleServed), HostState.sample) :=
  exec_of_replay (by decide +kernel)

theorem sample_session_granted :
    Granted .sample .sample .sample sampleSession sampleServed .sample ∧
      AskedPastGate .sample .sample .sample sampleSession := by
  obtain ⟨hsession, hasked⟩ := serveNext_gate .sample 5 .sample .sample
  exact ⟨hsession _ _ _ sample_session, hasked _ _ sample_session (by decide)⟩

end Sample

end SimpleRemote
