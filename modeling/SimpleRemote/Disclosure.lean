import SimpleRemote.Host.Guessing
import SimpleRemote.Viewer.Progress

namespace SimpleRemote
open ByteCodec Interaction

variable {C : Crypto}

def Op.isPeerNew {Out : Type} : Op Out → Bool
  | .peerNew _ => true
  | _ => false

def Op.isSend {Out : Type} : Op Out → Bool
  | .linkSend _ => true
  | _ => false

section Host

def isAnswer : Op HostToServer → Bool
  | .linkSend m => relayKind m == some 3
  | _ => false

def Plain (m : HostToServer) : Prop :=
  m = .kick ∨ m = relayOf .rejected ∨ (∃ ms, m = relayOf (.retryAfter ms)) ∨
    isReply (.linkSend m) = true ∨ isAnswer (.linkSend m) = true

theorem isAnswer_relayOf (msg : PakeMsg) :
    isAnswer (.linkSend (relayOf msg)) = (msg.index == 3) := by
  rw [isAnswer, relayKind_relayOf]
  simp

abbrev noResult (_ : ServeResult × HostState) : Prop := False

def strays (o : Op HostToServer) : Prop := ∃ m, o = .linkSend m ∧ ¬ Plain m

theorem not_strays {m : HostToServer} (h : Plain m) : ¬ strays (.linkSend m) := by
  rintro ⟨m', hm, hp⟩
  obtain rfl := Op.linkSend.inj hm
  exact hp h

theorem strays_silent (st : HostState) : Silent strays noResult st where
  now := nofun
  recv := nofun
  kick := not_strays (.inl rfl)
  retryAfter ms := not_strays (.inr (.inr (.inl ⟨ms, rfl⟩)))
  rejected := not_strays (.inr (.inl rfl))
  partyBStart := nofun
  finish := nofun
  error := nofun
  failed := nofun
  left := nofun
  waiting := by rintro _ h ⟨m, rfl, -⟩; cases h
  peerNew := nofun
  acceptOffer := nofun
  localFp := nofun
  remoteFp := nofun
  send := nofun
  answer _ := not_strays (.inr (.inr (.inr (.inr (by simp [isAnswer_relayOf, PakeMsg.index])))))

theorem strays_deep : Deep strays noResult where
  late st := (strays_silent st).toLate
  generateCode := nofun
  verify := nofun
  reply _ _ := not_strays (.inr (.inr (.inr (.inl (by simp [isReply_relayOf, PakeMsg.index])))))

theorem sends_plain {fuel : Nat} {cfg : HostConfig} {st : HostState} {tr : List (Ev HostSig)}
    {q : HostM (ServeResult × HostState)} (h : Path (serveNext C cfg st fuel) tr q)
    {e : Ev HostSig} (he : e ∈ tr) {m : HostToServer} (hm : e.op = .linkSend m) : Plain m := by
  by_contra hp
  have hh : Hits strays noResult tr q := .inl ⟨e, he, m, hm, hp⟩
  obtain ⟨n, skipped, tr', rfl, -, h₁, hh₁⟩ := serveNext_hits (strays_deep.late st) h hh
  obtain ⟨c, tr', rfl, h₂, hh₂⟩ := attempt_confirmed strays_deep h₁ hh₁
  obtain ⟨g, tr', rfl, rfl, h₃, hh₃⟩ := confirmed_gate (strays_silent _) h₂ hh₂
  exact askApproval_never (strays_silent _).toCalm nofun nofun nofun (fun _ => id) h₃ hh₃

abbrev answers (o : Op HostToServer) : Prop := isAnswer o = true

theorem not_answers_relay {msg : PakeMsg} (h : msg.index ≠ 3) :
    ¬ answers (.linkSend (relayOf msg)) := by
  simp [answers, isAnswer_relayOf, h]

theorem answers_calm (st : HostState) : Calm answers noResult st where
  now := nofun
  recv := nofun
  kick := nofun
  retryAfter _ := not_answers_relay (by simp [PakeMsg.index])
  rejected := not_answers_relay (by simp [PakeMsg.index])
  partyBStart := nofun
  finish := nofun
  error := nofun
  failed := nofun
  left := nofun
  waiting o h := by cases o <;> simp_all [answers, isAnswer, Op.waiting]
  peerNew := nofun
  acceptOffer := nofun
  localFp := nofun
  remoteFp := nofun
  send := nofun

theorem answers_deep : Deep answers noResult where
  late st := (answers_calm st).toLate
  generateCode := nofun
  verify := nofun
  reply _ _ := not_answers_relay (by simp [PakeMsg.index])

theorem handshake_not_answers {fuel : Nat} {cfg : HostConfig} {st : HostState} {sk : SessionKeys}
    {ch : Channel} {tr : List (Ev HostSig)} {q : HostM (ServeResult × HostState)}
    (h : Path (handshake C fuel cfg st sk ch >>= finishAttempt) tr q) :
    ¬ Hits answers noResult tr q := by
  intro hh
  have L := answers_calm st
  obtain ⟨t, tr₁, ch', tr₂, rfl, -, h₁, hh₁⟩ := handshake_hits L h hh
  obtain ⟨localFp, remoteFp, t', tr₃, hello, ch'', tr₄, rfl, -, h₂, hh₂⟩ :=
    exchangeHello_hits L h₁ hh₁
  obtain ⟨viewer, -, -, h₃⟩ := judgeHello_hits L h₂ hh₂
  exact askApproval_never L nofun nofun nofun (fun _ => id) h₃ hh₂

def Answered.trace {cfg : HostConfig} {st : HostState} (a : Answered C cfg st) :
    List (Ev HostSig) :=
  a.toConfirmed.trace ++
  [⟨.peerNew cfg.bindIps, .ok ()⟩, ⟨.acceptOffer a.offer, .ok a.answer⟩]

theorem attempt_answered {fuel : Nat} {cfg : HostConfig} {st : HostState} {tr : List (Ev HostSig)}
    {q : HostM (ServeResult × HostState)} (h : Path (attempt C fuel cfg st) tr q)
    (hh : ∃ e ∈ tr, answers e.op) :
    ∃ (a : Answered C cfg st) (sent : Except LinkError Unit) (rest : List (Ev HostSig)),
      tr = a.trace ++ ⟨.linkSend (relayOf (.answer a.sealedAnswer)), sent⟩ :: rest ∧
      ∀ e ∈ rest, isAnswer e.op = false := by
  obtain ⟨c, tr', rfl, h₁, hh₁⟩ := attempt_confirmed (R := noResult) answers_deep h (.inl hh)
  obtain ⟨offer, ho, h₂⟩ := confirmed_hits (answers_deep.late _) h₁ hh₁
  obtain ⟨answer, sealedAnswer, sender, tr', rfl, hs, h₃, hh₃⟩ :=
    answerOffer_hits (answers_calm _) h₂ hh₁
  rcases sendAnswer_path (answers_calm _) h₃ with rfl | ⟨sent, rest, rfl, hrest⟩
  · simp [Hits] at hh₃
  refine ⟨⟨c, offer, ho, answer, sealedAnswer, sender, hs⟩, sent, rest,
    by simp [Answered.trace], fun e he => ?_⟩
  by_contra hne
  have hh₄ : Hits answers noResult rest q := .inl ⟨e, he, by simpa using hne⟩
  exact handshake_not_answers (hrest hh₄).2 hh₄

abbrev peers {Out : Type} (o : Op Out) : Prop := o.isPeerNew = true

theorem peers_deep : Deep peers noResult where
  late _ := {
    now := nofun
    recv := nofun
    kick := nofun
    retryAfter := nofun
    rejected := nofun
    partyBStart := nofun
    finish := nofun
    error := nofun
    failed := nofun
    left := nofun }
  generateCode := nofun
  verify := nofun
  reply := nofun

theorem attempt_peered {fuel : Nat} {cfg : HostConfig} {st : HostState} {tr : List (Ev HostSig)}
    {q : HostM (ServeResult × HostState)} (h : Path (attempt C fuel cfg st) tr q)
    (hh : ∃ e ∈ tr, peers e.op) :
    ∃ (c : Confirmed C cfg st) (offer : Text) (r : Except TransportError Unit)
      (rest : List (Ev HostSig)), tr = c.trace ++ ⟨.peerNew cfg.bindIps, r⟩ :: rest ∧
      openOffer C c.keys c.sealedOffer = some offer := by
  obtain ⟨c, tr', rfl, h₁, hh₁⟩ := attempt_confirmed (R := noResult) peers_deep h (.inl hh)
  obtain ⟨offer, ho, h₂⟩ := confirmed_hits (peers_deep.late _) h₁ hh₁
  rcases path_call h₂ with ⟨rfl, -⟩ | ⟨r, rest, rfl, -⟩
  · simp [Hits] at hh₁
  · exact ⟨c, offer, r, rest, rfl, ho⟩

def onlyRecv (cfg : HostConfig) (tr : List (Ev HostSig)) : Prop :=
  ∀ e ∈ tr, e.op = .linkRecv cfg.timeouts.signalingStep

structure HostDiscloses (C : Crypto) (cfg : HostConfig) (st : HostState)
    (tr : List (Ev HostSig)) : Prop where
  plain : ∀ e ∈ tr, ∀ m, e.op = .linkSend m → Plain m
  replied : (∃ e ∈ tr, isReply e.op = true) →
    ∃ (pre : List (Ev HostSig)) (s : Started C cfg st) (sent : Except LinkError Unit)
      (rest : List (Ev HostSig)),
      tr = pre ++ (s.trace ++ ⟨.linkSend (relayOf s.reply), sent⟩ :: rest) ∧ onlyRecv cfg pre ∧
      (∀ e ∈ s.trace, e.op.isSend = false) ∧ (∀ e ∈ rest, isReply e.op = false)
  answered : (∃ e ∈ tr, isAnswer e.op = true) →
    ∃ (pre : List (Ev HostSig)) (a : Answered C cfg st) (sent : Except LinkError Unit)
      (rest : List (Ev HostSig)),
      tr = pre ++ (a.trace ++ ⟨.linkSend (relayOf (.answer a.sealedAnswer)), sent⟩ :: rest) ∧
      onlyRecv cfg pre ∧ (∀ e ∈ a.trace, isAnswer e.op = false) ∧
      (∀ e ∈ rest, isAnswer e.op = false)
  peered : (∃ e ∈ tr, e.op.isPeerNew = true) →
    ∃ (pre : List (Ev HostSig)) (c : Confirmed C cfg st) (offer : Text)
      (r : Except TransportError Unit) (rest : List (Ev HostSig)),
      tr = pre ++ (c.trace ++ ⟨.peerNew cfg.bindIps, r⟩ :: rest) ∧ onlyRecv cfg pre ∧
      openOffer C c.keys c.sealedOffer = some offer ∧ (∀ e ∈ c.trace, e.op.isPeerNew = false)

theorem skips_onlyRecv {cfg : HostConfig} {skipped : List (Ev HostSig)}
    (hs : ∀ e ∈ skipped, skips cfg e) : onlyRecv cfg (skipped ++ [viewerJoined cfg]) := by
  refine List.forall_mem_append.mpr ⟨fun e he => ?_, by simp [viewerJoined]⟩
  obtain ⟨r, rfl, -⟩ := hs e he
  rfl

theorem Started.trace_ops {cfg : HostConfig} {st : HostState} (s : Started C cfg st) :
    ∀ e ∈ s.trace, e.op.isSend = false ∧ e.op.isPeerNew = false := by
  obtain ⟨t, out, -, ⟨-, code, htr⟩ | ⟨-, htr⟩⟩ := recordAttempt_cases s.recorded <;>
    simp [Started.trace, htr, Op.isSend, Op.isPeerNew]

theorem Started.trace_not_answers {cfg : HostConfig} {st : HostState} (s : Started C cfg st) :
    ∀ e ∈ s.trace, isAnswer e.op = false := by
  intro e he
  have := (s.trace_ops e he).1
  obtain ⟨o, r⟩ := e
  cases o <;> simp_all [isAnswer, Op.isSend]

theorem serveNext_discloses {fuel : Nat} {cfg : HostConfig} {st : HostState}
    {tr : List (Ev HostSig)} {q : HostM (ServeResult × HostState)}
    (h : Path (serveNext C cfg st fuel) tr q) : HostDiscloses C cfg st tr where
  plain e he m hm := sends_plain h he hm
  replied hh := by
    obtain ⟨n, skipped, tr', rfl, hs, h₁, hh₁⟩ := serveNext_hits (replies_early.late st) h (.inl hh)
    obtain ⟨s, sent, rest, rfl, hrest⟩ := attempt_replied h₁ (hh₁.resolve_right nofun)
    exact ⟨skipped ++ [viewerJoined cfg], s, sent, rest, by simp, skips_onlyRecv hs,
      fun e he => (s.trace_ops e he).1, hrest⟩
  answered hh := by
    obtain ⟨n, skipped, tr', rfl, hs, h₁, hh₁⟩ :=
      serveNext_hits (R := noResult) (answers_deep.late st) h (.inl hh)
    obtain ⟨a, sent, rest, rfl, hrest⟩ := attempt_answered h₁ (hh₁.resolve_right nofun)
    refine ⟨skipped ++ [viewerJoined cfg], a, sent, rest, by simp, skips_onlyRecv hs, ?_, hrest⟩
    simp only [Answered.trace, Confirmed.trace, List.forall_mem_append]
    refine ⟨⟨a.trace_not_answers, ?_⟩, ?_⟩
    · simp [isAnswer, Started.reply, relayKind_relayOf, PakeMsg.index]
    · simp [isAnswer]
  peered hh := by
    obtain ⟨n, skipped, tr', rfl, hs, h₁, hh₁⟩ :=
      serveNext_hits (R := noResult) (peers_deep.late st) h (.inl hh)
    obtain ⟨c, offer, r, rest, rfl, ho⟩ := attempt_peered h₁ (hh₁.resolve_right nofun)
    refine ⟨skipped ++ [viewerJoined cfg], c, offer, r, rest, by simp, skips_onlyRecv hs, ho, ?_⟩
    simp only [Confirmed.trace, List.forall_mem_append]
    exact ⟨fun e he => (c.trace_ops e he).2, by simp [Op.isPeerNew]⟩

end Host

namespace Viewer

abbrev sends (o : Op ViewerToServer) : Prop := o.isSend = true

abbrev noResult (_ : ConnectResult) : Prop := False

theorem sends_steady : Steady sends noResult where
  recv := nofun
  partyAStart := nofun
  finish := nofun
  verify := nofun
  createOffer := nofun
  acceptAnswer := nofun
  onPeer o h := by cases o <;> simp_all [sends, Op.isSend, Op.onPeer, Op.waiting]
  error := nofun

theorem peers_steady : Steady (fun o => o.isPeerNew = true) noResult where
  recv := nofun
  partyAStart := nofun
  finish := nofun
  verify := nofun
  createOffer := nofun
  acceptAnswer := nofun
  onPeer o h := by cases o <;> simp_all [Op.isPeerNew, Op.onPeer, Op.waiting]
  error := nofun

inductive Discloses (C : Crypto) (cfg : Config) (tr : List (Ev ViewerSig)) : Prop
  | silent (h : ∀ e ∈ tr, e.op.isSend = false)
  | started (b : Began C cfg) (sent : Except LinkError Unit) (rest : List (Ev ViewerSig))
      (htr : tr = b.trace ++ ⟨.linkSend (relayOf (.start b.pa)), sent⟩ :: rest)
      (hrest : ∀ e ∈ rest, e.op.isSend = false)
  | confirmed (o : Offered C cfg) (sent : Except LinkError Unit) (rest : List (Ev ViewerSig))
      (htr : tr = o.trace ++ ⟨.linkSend (relayOf (.confirm o.macA o.sealedOffer)), sent⟩ :: rest)
      (hrest : ∀ e ∈ rest, e.op.isSend = false)

theorem not_sends_of_not_hits {tr : List (Ev ViewerSig)} {q : ViewerM ConnectResult}
    (h : ¬ Hits sends noResult tr q) : ∀ e ∈ tr, e.op.isSend = false :=
  fun e he => by simpa using fun hs => h (.inl ⟨e, he, hs⟩)

theorem afterConfirm_silent {fuel : Nat} {cfg : Config} {sk : SessionKeys} {pending : PendingOffer}
    {ch : Channel} {tr : List (Ev ViewerSig)} {q : ViewerM ConnectResult}
    (h : Path (awaitAnswer C fuel cfg sk pending ch >>= finishConnect) tr q) :
    ∀ e ∈ tr, e.op.isSend = false := by
  refine not_sends_of_not_hits (q := q) fun hh => ?_
  have B := sends_steady
  obtain ⟨data, sealedAnswer, answer, tr', rfl, -, -, h₁, hh₁⟩ := awaitAnswer_hits B h hh
  obtain ⟨t, tr₁, ch', tr₂, rfl, -, h₂, hh₂⟩ := waitReady_hits B h₁ hh₁
  obtain ⟨_, _, _, _, _, _, _, tr₃, rfl, -, -, h₃, hh₃⟩ := exchangeHello_hits B h₂ hh₂
  obtain ⟨_, _, _, -, -, -, hR⟩ := awaitDecision_hits B h₃ hh₃
  exact hR

theorem connect_discloses {fuel : Nat} {cfg : Config} {tr : List (Ev ViewerSig)}
    {q : ViewerM ConnectResult} (h : Path (connect C fuel cfg) tr q) : Discloses C cfg tr := by
  have B := sends_steady
  have hnew : ∀ ips, ¬ sends (.peerNew ips) := by
    intro ips hsends
    cases hsends
  by_cases hh : Hits sends noResult tr q
  swap
  · exact .silent (not_sends_of_not_hits hh)
  obtain ⟨b, tr₁, rfl, h₁, hh₁⟩ := connect_hits B h hh
  rcases sendRelay_path h₁ with ⟨rfl, rfl⟩ | ⟨sent, tr₂, rfl, ⟨-, h₂⟩ | ⟨e, h₂⟩⟩
  · simp [Hits] at hh₁
  · by_cases hh₂ : Hits sends noResult tr₂ q
    swap
    · exact .started b sent tr₂ rfl (not_sends_of_not_hits hh₂)
    obtain ⟨data, pb, macB, output, mac, tr₃, rfl, hd, hmac, h₃, hh₃⟩ := awaitReply_hits B h₂ hh₂
    obtain ⟨offer, pending, sealedOffer, sender, tr₄, rfl, hs, h₄, hh₄⟩ :=
      openPeer_hits B hnew h₃ hh₃
    let o : Offered C cfg := ⟨⟨b, sent, data, pb, macB, hd, output, mac, hmac⟩, offer, pending,
      sealedOffer, sender, hs⟩
    rw [sendConfirm, Prog.bind_assoc] at h₄
    rcases sendRelay_path h₄ with ⟨rfl, -⟩ | ⟨sent', tr₅, rfl, ⟨-, h₅⟩ | ⟨e, h₅⟩⟩
    · simp [Hits] at hh₄
    · exact .confirmed o sent' tr₅ (by simp [Offered.trace, Keyed.trace, o, Keyed.macA])
        (afterConfirm_silent h₅)
    · refine .confirmed o sent' tr₅ (by simp [Offered.trace, Keyed.trace, o, Keyed.macA])
        (not_sends_of_not_hits (Prog.Never.not_hits (sends_steady.close_never e Channel.new) h₅))
  · obtain ⟨rfl, -⟩ := path_ret h₂
    exact .started b sent [] rfl (by simp)

theorem connect_peered {fuel : Nat} {cfg : Config} {tr : List (Ev ViewerSig)}
    {q : ViewerM ConnectResult} (h : Path (connect C fuel cfg) tr q)
    (hh : ∃ e ∈ tr, e.op.isPeerNew = true) :
    ∃ (k : Keyed C cfg) (r : Except TransportError Unit) (rest : List (Ev ViewerSig)),
      tr = k.trace ++ ⟨.peerNew cfg.bindIps, r⟩ :: rest ∧
      (∀ e ∈ k.trace, e.op.isPeerNew = false) := by
  have B := peers_steady
  obtain ⟨b, tr₁, rfl, h₁, hh₁⟩ := connect_hits B h (.inl hh)
  rcases sendRelay_path h₁ with ⟨rfl, rfl⟩ | ⟨sent, tr₂, rfl, ⟨-, h₂⟩ | ⟨e, h₂⟩⟩
  · simp [Hits] at hh₁
  · have hh₂ : Hits (fun o : Op ViewerToServer => o.isPeerNew = true) noResult tr₂ q := by
      simpa [Hits, Op.isPeerNew] using hh₁
    obtain ⟨data, pb, macB, output, mac, tr₃, rfl, hd, hmac, h₃, hh₃⟩ := awaitReply_hits B h₂ hh₂
    rcases path_call h₃ with ⟨rfl, -⟩ | ⟨r, rest, rfl, -⟩
    · simp [Hits] at hh₃
    · exact ⟨⟨b, sent, data, pb, macB, hd, output, mac, hmac⟩, r, rest, by simp [Keyed.trace],
        by simp [Keyed.trace, Began.trace, Op.isPeerNew]⟩
  · obtain ⟨rfl, -⟩ := path_ret h₂
    simp [Hits, Op.isPeerNew] at hh₁

theorem connect_agrees (fuel : Nat) (cfg : Config) (ips : List IpAddr) :
    AgreeTill Op.isPeerNew (connect C fuel cfg) (connect C fuel { cfg with bindIps := ips }) := by
  have hreply (pake : ViewerPake) : AgreeTill Op.isPeerNew (awaitReply C fuel cfg pake)
      (awaitReply C fuel { cfg with bindIps := ips } pake) := by
    refine .bind fun r => ?_
    rcases r with e | m
    · exact .refl _
    · cases m with
      | reply pb macB =>
          refine .bind fun r => ?_
          cases r with
          | error e => exact .refl _
          | ok p => exact .stop rfl rfl
      | _ => exact .refl _
  refine .bind fun r => ?_
  rcases r with e | _ | m
  · exact .refl _
  · exact .refl _
  · cases m with
    | joined =>
        refine .bind fun r => ?_
        cases r with
        | error e => exact .refl _
        | ok p =>
            refine .bind fun r => ?_
            cases r with
            | error e => exact .refl _
            | ok u => exact hreply p.1
    | _ => exact .refl _

end Viewer

theorem confirmed_agrees (fuel : Nat) (cfg : HostConfig) (ips : List IpAddr) (st : HostState)
    (sk : SessionKeys) (sealedOffer : Bytes) :
    AgreeTill Op.isPeerNew (confirmed C fuel cfg st sk sealedOffer)
      (confirmed C fuel { cfg with bindIps := ips } st sk sealedOffer) := by
  rw [confirmed, confirmed]
  split
  · exact .refl _
  · exact .stop rfl rfl

theorem awaitConfirm_agrees (fuel : Nat) (cfg : HostConfig) (ips : List IpAddr) (st : HostState)
    (pake : HostPake) :
    AgreeTill Op.isPeerNew (awaitConfirm C fuel cfg st pake)
      (awaitConfirm C fuel { cfg with bindIps := ips } st pake) := by
  refine .bind fun r => ?_
  rcases r with e | ((_ | _ | ⟨macA, sealedOffer⟩ | _ | _ | _) | _ | _ | _)
  case ok.msg.confirm =>
    refine .bind fun r => ?_
    cases r with
    | error e => exact .refl _
    | ok sk => exact confirmed_agrees _ _ _ _ _ _
  all_goals exact .refl _

theorem attempt_agrees (fuel : Nat) (cfg : HostConfig) (ips : List IpAddr) (st : HostState) :
    AgreeTill Op.isPeerNew (attempt C fuel cfg st)
      (attempt C fuel { cfg with bindIps := ips } st) := by
  refine .bind fun now => ?_
  cases st.limiter.check now with
  | error wait => exact .refl _
  | ok u =>
      refine .bind fun r => ?_
      rcases r with e | ((_ | _ | _ | _ | _ | _) | _ | _ | _)
      case ok.msg.start pa =>
        refine .bind fun r => ?_
        rcases r with e | ⟨pake, pb, macB⟩
        · exact .refl _
        · refine .bind fun st' => .bind fun r => ?_
          cases r with
          | error e => exact .refl _
          | ok u => exact awaitConfirm_agrees _ _ _ _ _
      all_goals exact .refl _

theorem serveNext_agrees (fuel : Nat) (cfg : HostConfig) (ips : List IpAddr) (st : HostState) :
    AgreeTill Op.isPeerNew (serveNext C cfg st fuel)
      (serveNext C { cfg with bindIps := ips } st fuel) := by
  induction fuel with
  | zero => exact .refl _
  | succ fuel ih =>
      refine .bind fun r => ?_
      rcases r with e | _ | m
      · exact .refl _
      · exact ih
      · cases m with
        | viewerJoined => exact attempt_agrees _ _ _ _
        | _ => exact ih

def beforePeer {In Out : Type} (tr : List (Ev (conn In Out))) : List (Ev (conn In Out)) :=
  tr.takeWhile fun ⟨o, _⟩ => !Op.isPeerNew o

theorem no_address_before_confirmation (C : Crypto) (fuel : Nat) (vcfg : Viewer.Config)
    (hcfg : HostConfig) (st : HostState) :
    (∀ tr q, Path (Viewer.connect C fuel vcfg) tr q → Viewer.Discloses C vcfg tr ∧
      ((∃ e ∈ tr, e.op.isPeerNew = true) →
        ∃ (k : Viewer.Keyed C vcfg) (r : Except TransportError Unit) (rest : List (Ev ViewerSig)),
          tr = k.trace ++ ⟨.peerNew vcfg.bindIps, r⟩ :: rest ∧
          (∀ e ∈ k.trace, e.op.isPeerNew = false))) ∧
    (∀ tr q, Path (serveNext C hcfg st fuel) tr q → HostDiscloses C hcfg st tr) ∧
    (∀ env n past ips, beforePeer ((Viewer.connect C fuel vcfg).under env n past) =
      beforePeer ((Viewer.connect C fuel { vcfg with bindIps := ips }).under env n past)) ∧
    (∀ env n past ips, beforePeer ((serveNext C hcfg st fuel).under env n past) =
      beforePeer ((serveNext C { hcfg with bindIps := ips } st fuel).under env n past)) :=
  ⟨fun _ _ h => ⟨Viewer.connect_discloses h, Viewer.connect_peered h⟩,
    fun _ _ h => serveNext_discloses h,
    fun _ n past ips => (Viewer.connect_agrees fuel vcfg ips).under_eq n past,
    fun _ n past ips => (serveNext_agrees fuel hcfg ips st).under_eq n past⟩

namespace Viewer

def Config.sample : Config where
  hostId := "h".toList
  code := .sample
  keys := .sample 9 'v' viewer_name
  bindIps := sampleIps
  t := .default

def sampleOutput : Spake2Output := ⟨1, [7], filled 32 8⟩

def relayed (msg : PakeMsg) : Ev ViewerSig :=
  ⟨.linkRecv (Duration.fromSecs 15), .ok (some (.relay (hexEncode (PakeMsg.encode msg))))⟩

def relays (msg : PakeMsg) : Ev ViewerSig := ⟨.linkSend (relayOf msg), .ok ()⟩

def sampleConnect : List (Ev ViewerSig) :=
  [⟨.linkRecv (Duration.fromSecs 15), .ok (some .joined)⟩,
    ⟨.partyAStart (fromBe (CODE_CONTEXT ++ utf8 OneTimeCode.sample.digits)) VIEWER_ID
      (hostIdBytes Config.sample.hostId) AAD, .ok ([4], ⟨0⟩)⟩,
    relays (.start [4]), relayed (.reply [6] (filled 32 5).val),
    ⟨.finish ⟨0⟩ [6], .ok sampleOutput⟩, ⟨.verifyPeerConfirmation sampleOutput (filled 32 5), .ok ()⟩,
    ⟨.peerNew sampleIps, .ok ()⟩, ⟨.createOffer, .ok (['s'], ⟨0⟩)⟩,
    relays (.confirm (filled 32 8).val (sampleSealed sampleKeys.viewerToHost labelV2h)),
    relayed (.answer (sampleSealed sampleKeys.hostToViewer labelH2v)),
    ⟨.acceptAnswer ⟨0⟩ ['s'], .ok ()⟩, ⟨.now, 12⟩, ⟨.now, 12⟩,
    ⟨.poll (Duration.fromSecs 10), .ok [.channelOpen]⟩,
    ⟨.localFingerprint, [2]⟩, ⟨.remoteFingerprint, some [1]⟩,
    ⟨.peerSend (Control.encode (.hello sampleHello)), .ok ()⟩, ⟨.now, 13⟩, ⟨.now, 13⟩,
    ⟨.poll (Duration.fromSecs 15), .ok [.data (Control.encode
      (.hello (hostHello .sample .sample sampleKeys [1] [2])))]⟩,
    ⟨.now, 14⟩, ⟨.now, 14⟩,
    ⟨.poll (Duration.fromSecs 45), .ok [.data (Control.encode (.decision .accepted))]⟩]

def sampleSession : ViewerSession := ⟨HostConfig.sample.keys.identity .sample, .new, 0⟩

theorem sample_connect : Exec (connect .sample 5 .sample) sampleConnect (.ok sampleSession) :=
  exec_of_replay (by decide +kernel)

end Viewer

theorem sample_no_address_before_confirmation :
    Viewer.Discloses .sample .sample Viewer.sampleConnect ∧
    (∃ (k : Viewer.Keyed .sample .sample) (r : Except TransportError Unit)
      (rest : List (Ev ViewerSig)), Viewer.sampleConnect = k.trace ++ ⟨.peerNew sampleIps, r⟩ :: rest ∧
      (∀ e ∈ k.trace, e.op.isPeerNew = false)) ∧
    HostDiscloses .sample .sample .sample sampleSession := by
  obtain ⟨hviewer, hhost, -⟩ := no_address_before_confirmation .sample 5 .sample .sample .sample
  obtain ⟨hsends, hpeer⟩ := hviewer _ _ Viewer.sample_connect
  exact ⟨hsends, hpeer (by decide), hhost _ _ sample_session⟩

end SimpleRemote
