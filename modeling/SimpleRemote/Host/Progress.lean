import SimpleRemote.Host.Session

namespace SimpleRemote
open ByteCodec Interaction

variable {C : Crypto}

structure Late (P : Op HostToServer → Prop) (R : ServeResult × HostState → Prop)
    (st : HostState) : Prop where
  now : ¬ P .now
  recv : ∀ t, ¬ P (.linkRecv t)
  kick : ¬ P (.linkSend .kick)
  retryAfter : ∀ ms, ¬ P (.linkSend (relayOf (.retryAfter ms)))
  rejected : ¬ P (.linkSend (relayOf .rejected))
  partyBStart : ∀ w idA idB aad, ¬ P (.partyBStart w idA idB aad)
  finish : ∀ party msg, ¬ P (.finish party msg)
  error : ∀ e, ¬ R (.error e, st)
  failed : ∀ f, ¬ R (.ok (.failed f), st)
  left : ¬ R (.ok .viewerLeft, st)

section Late
variable {P : Op HostToServer → Prop} {R : ServeResult × HostState → Prop} {st : HostState}

theorem Late.kicked_bind_never (L : Late P R st) (f : AttemptFailure)
    {k : ServeResult → HostM (ServeResult × HostState)}
    (he : ∀ e, (k (.error e)).Never P R) (hf : ∀ f, (k (.ok (.failed f))).Never P R) :
    (kicked f >>= k).Never P R := by
  refine ⟨L.kick, fun r => ?_⟩
  cases r with
  | error e => exact he _
  | ok u => exact hf _

theorem Late.reject_bind_never (L : Late P R st) (f : AttemptFailure)
    {k : ServeResult → HostM (ServeResult × HostState)}
    (he : ∀ e, (k (.error e)).Never P R) (hf : ∀ f, (k (.ok (.failed f))).Never P R) :
    (rejectRelay f >>= k).Never P R := by
  refine ⟨L.rejected, fun r => ?_⟩
  cases r with
  | error e => exact he _
  | ok u => exact L.kicked_bind_never f he hf

theorem Late.kicked_never (L : Late P R st) (f : AttemptFailure) :
    (kicked f >>= fun r => (pure (r, st) : HostM _)).Never P R :=
  L.kicked_bind_never f L.error L.failed

theorem Late.reject_never (L : Late P R st) (f : AttemptFailure) :
    (rejectRelay f >>= fun r => (pure (r, st) : HostM _)).Never P R :=
  L.reject_bind_never f L.error L.failed

theorem Late.recvRelay_uses (L : Late P R st) (t : Duration) :
    (recvRelay t).Uses (S := HostSig) fun o => ¬ P o := by
  refine ⟨L.recv t, fun r => ?_⟩
  rcases r with e | _ | m
  · trivial
  · trivial
  · cases m <;> trivial

theorem recvRelay_msg {t : Duration} {tr : List (Ev HostSig)} {m : PakeMsg}
    (h : Exec (recvRelay t) tr (.ok (.msg m))) :
    ∃ data, tr = [⟨.linkRecv t, .ok (some (.relay data))⟩] ∧ decodeRelay data = .msg m := by
  obtain ⟨r, tr₂, rfl, h'⟩ := exec_call_bind.mp h
  rcases r with e | _ | sm
  · simp at h'
  · simp at h'
  · cases sm with
    | relay data =>
        simp only [Prog.pure_eq, exec_ret, Except.ok.injEq] at h'
        exact ⟨data, by rw [h'.1], h'.2⟩
    | _ => simp at h'

theorem attempt_hits (L : Late P R st) {fuel : Nat} {cfg : HostConfig}
    {tr : List (Ev HostSig)} {q : HostM (ServeResult × HostState)}
    (h : Path (attempt C fuel cfg st) tr q) (hh : Hits P R tr q) :
    ∃ t data pa tr', tr = ⟨.now, t⟩ ::
        ⟨.linkRecv cfg.timeouts.signalingStep, .ok (some (.relay data))⟩ :: tr' ∧
      st.limiter.check t = .ok () ∧ decodeRelay data = .msg (.start pa) ∧
      Path (answerStart C fuel cfg st pa) tr' q ∧ Hits P R tr' q := by
  rw [attempt] at h
  obtain ⟨t, tr₁, rfl, h, hh⟩ := hits_call h hh L.now
  cases hc : st.limiter.check t with
  | error wait =>
      simp only [hc] at h
      refine absurd hh (Prog.Never.not_hits ?_ h)
      refine ⟨L.retryAfter _, fun r => ?_⟩
      cases r with
      | error e => exact L.error _
      | ok u => exact L.kicked_never _
  | ok u =>
      simp only [hc] at h
      obtain ⟨tr₂, r, tr₃, rfl, hr, h', hh'⟩ := hits_bind h hh (L.recvRelay_uses _)
      clear h hh
      rcases r with e | ((_ | _ | _ | _ | _ | _) | _ | _ | _)
      case ok.msg.start pa =>
        obtain ⟨data, rfl, hd⟩ := recvRelay_msg hr
        exact ⟨t, data, pa, tr₃, rfl, hc, hd, h', hh'⟩
      case error => exact absurd hh' (Prog.Never.not_hits (only_ret.mpr (L.error _)) h')
      case ok.left => exact absurd hh' (Prog.Never.not_hits (only_ret.mpr L.left) h')
      case ok.timedOut => exact absurd hh' (Prog.Never.not_hits (L.kicked_never _) h')
      all_goals exact absurd hh' (Prog.Never.not_hits (L.reject_never _) h')

def viewerJoined (cfg : HostConfig) : Ev HostSig :=
  ⟨.linkRecv cfg.timeouts.signalingStep, .ok (some .viewerJoined)⟩

def skips (cfg : HostConfig) (e : Ev HostSig) : Prop :=
  ∃ r, e = ⟨.linkRecv cfg.timeouts.signalingStep, r⟩ ∧ r ≠ .ok (some .viewerJoined)

theorem serveNext_hits (L : Late P R st) {fuel : Nat} {cfg : HostConfig}
    {tr : List (Ev HostSig)} {q : HostM (ServeResult × HostState)}
    (h : Path (serveNext C cfg st fuel) tr q) (hh : Hits P R tr q) :
    ∃ n skipped tr', tr = skipped ++ viewerJoined cfg :: tr' ∧ (∀ e ∈ skipped, skips cfg e) ∧
      Path (attempt C n cfg st) tr' q ∧ Hits P R tr' q := by
  induction fuel generalizing tr with
  | zero => exact absurd hh (Prog.Never.not_hits only_halt h)
  | succ fuel ih =>
      rw [serveNext] at h
      obtain ⟨r, tr₁, rfl, h₁, hh₁⟩ := hits_call h hh (L.recv _)
      have again (hr : r ≠ .ok (some .viewerJoined)) (h₂ : Path (serveNext C cfg st fuel) tr₁ q) :
          ∃ n skipped tr', ⟨.linkRecv cfg.timeouts.signalingStep, r⟩ :: tr₁ =
              skipped ++ viewerJoined cfg :: tr' ∧ (∀ e ∈ skipped, skips cfg e) ∧
            Path (attempt C n cfg st) tr' q ∧ Hits P R tr' q := by
        obtain ⟨n, skipped, tr', rfl, hs, h₃, hh₃⟩ := ih h₂ hh₁
        exact ⟨n, _ :: skipped, tr', rfl,
          List.forall_mem_cons.mpr ⟨⟨r, rfl, hr⟩, hs⟩, h₃, hh₃⟩
      rcases r with e | _ | m
      · exact absurd hh₁ (Prog.Never.not_hits (only_ret.mpr (L.error _)) h₁)
      · exact again (by simp) h₁
      · cases m with
        | viewerJoined => exact ⟨fuel, [], tr₁, rfl, by simp, h₁, hh₁⟩
        | _ => exact again (by simp) h₁

theorem Late.respond_uses (L : Late P R st) (code : OneTimeCode) (hostId : Text) (pa : Bytes) :
    (HostPake.respond C code hostId pa).Uses (S := HostSig) fun o => ¬ P o := by
  rw [HostPake.respond]
  split
  · trivial
  · refine ⟨L.partyBStart _ _ _ _, fun r => ?_⟩
    cases r with
    | error e => trivial
    | ok p =>
        refine ⟨L.finish _ _, fun r => ?_⟩
        cases r <;> trivial

theorem answerStart_hits (L : Late P R st) {fuel : Nat} {cfg : HostConfig} {pa : Bytes}
    {tr : List (Ev HostSig)} {q : HostM (ServeResult × HostState)}
    (h : Path (answerStart C fuel cfg st pa) tr q) (hh : Hits P R tr q) :
    ∃ tr₁ pake pb macB tr', tr = tr₁ ++ tr' ∧
      Exec (HostPake.respond C st.code cfg.hostId pa) tr₁ (.ok (pake, pb, macB)) ∧
      Path (recordAttempt st >>= sendReply C fuel cfg pake pb macB) tr' q ∧ Hits P R tr' q := by
  rw [answerStart] at h
  obtain ⟨tr₁, r, tr', rfl, hr, h₁, hh₁⟩ := hits_bind h hh (L.respond_uses _ _ _)
  rcases r with e | ⟨pake, pb, macB⟩
  · exact absurd hh₁ (Prog.Never.not_hits (L.reject_never _) h₁)
  · exact ⟨tr₁, pake, pb, macB, tr', rfl, hr, h₁, hh₁⟩

theorem awaitConfirm_hits (L : Late P R st) {fuel : Nat} {cfg : HostConfig} {pake : HostPake}
    {tr : List (Ev HostSig)} {q : HostM (ServeResult × HostState)}
    (h : Path (awaitConfirm C fuel cfg st pake) tr q) (hh : Hits P R tr q) :
    ∃ data macA sealedOffer tr',
      tr = ⟨.linkRecv cfg.timeouts.signalingStep, .ok (some (.relay data))⟩ :: tr' ∧
      decodeRelay data = .msg (.confirm macA sealedOffer) ∧
      Path (judgeConfirm C fuel cfg st pake macA sealedOffer) tr' q ∧ Hits P R tr' q := by
  rw [awaitConfirm] at h
  obtain ⟨tr₀, r, tr', rfl, hr, h₁, hh₁⟩ := hits_bind h hh (L.recvRelay_uses _)
  clear h hh
  rcases r with e | ((_ | _ | ⟨macA, sealedOffer⟩ | _ | _ | _) | _ | _ | _)
  case ok.msg.confirm =>
    obtain ⟨data, rfl, hd⟩ := recvRelay_msg hr
    exact ⟨data, macA, sealedOffer, tr', rfl, hd, h₁, hh₁⟩
  case error => exact absurd hh₁ (Prog.Never.not_hits (only_ret.mpr (L.error _)) h₁)
  case ok.left => exact absurd hh₁ (Prog.Never.not_hits (only_ret.mpr (L.failed _)) h₁)
  case ok.timedOut => exact absurd hh₁ (Prog.Never.not_hits (L.kicked_never _) h₁)
  all_goals exact absurd hh₁ (Prog.Never.not_hits (L.reject_never _) h₁)

theorem confirmed_hits (L : Late P R st) {fuel : Nat} {cfg : HostConfig}
    {sk : SessionKeys} {sealedOffer : Bytes} {tr : List (Ev HostSig)}
    {q : HostM (ServeResult × HostState)}
    (h : Path (confirmed C fuel cfg st sk sealedOffer) tr q) (hh : Hits P R tr q) :
    ∃ offer, openOffer C sk sealedOffer = some offer ∧
      Path (answerOffer C fuel cfg st sk offer) tr q := by
  rw [confirmed] at h
  split at h
  · exact absurd hh (Prog.Never.not_hits (L.reject_never _) h)
  · rename_i offer ho
    exact ⟨offer, ho, h⟩

end Late

theorem respond_ok {code : OneTimeCode} {hostId : Text} {pa pb macB : Bytes} {pake : HostPake}
    {tr : List (Ev HostSig)} (h : Exec (HostPake.respond C code hostId pa) tr (.ok (pake, pb, macB))) :
    ∃ w state, codeScalar C code = .ok w ∧ macB = pake.output.confirmationMac.val ∧
      tr = [⟨.partyBStart w VIEWER_ID (hostIdBytes hostId) AAD, .ok (pb, state)⟩,
        ⟨.finish state pa, .ok pake.output⟩] := by
  rw [HostPake.respond] at h
  split at h
  · simp at h
  · rename_i w hw
    obtain ⟨r, tr₂, rfl, h₂⟩ := exec_call_bind.mp h
    rcases r with e | ⟨pb', state⟩
    · simp at h₂
    · obtain ⟨r, tr₂, rfl, h₃⟩ := exec_call_bind.mp h₂
      cases r with
      | error e => simp at h₃
      | ok output =>
          simp only [Prog.pure_eq, exec_ret, Except.ok.injEq, Prod.mk.injEq] at h₃
          obtain ⟨rfl, rfl, rfl, rfl⟩ := h₃
          exact ⟨w, state, hw, rfl, rfl⟩

theorem confirm_ok {pake : HostPake} {macA : Bytes} {sk : SessionKeys} {tr : List (Ev HostSig)}
    (h : Exec (pake.confirm C macA) tr (.ok sk)) :
    ∃ mac, toMac macA = .ok mac ∧ sk = deriveSessionKeys C pake.output.sessionKey ∧
      tr = [⟨.verifyPeerConfirmation pake.output mac, .ok ()⟩] := by
  rw [HostPake.confirm] at h
  split at h
  · simp at h
  · rename_i mac hmac
    obtain ⟨r, tr₂, rfl, h₂⟩ := exec_call_bind.mp h
    cases r with
    | error e => simp at h₂
    | ok u =>
        simp only [Prog.pure_eq, exec_ret, Except.ok.injEq] at h₂
        obtain ⟨rfl, rfl⟩ := h₂
        exact ⟨mac, hmac, rfl, rfl⟩

structure Started (C : Crypto) (cfg : HostConfig) (st : HostState) where
  checkedAt : Instant
  checked : st.limiter.check checkedAt = .ok ()
  startData : Text
  pa : Bytes
  started : decodeRelay startData = .msg (.start pa)
  w : Nat
  scalar : codeScalar C st.code = .ok w
  pb : Bytes
  party : PartyState
  output : Spake2Output
  recordTrace : List (Ev HostSig)
  recordedState : HostState
  recorded : Exec (recordAttempt st) recordTrace recordedState

namespace Started
variable {cfg : HostConfig} {st : HostState}

def reply (s : Started C cfg st) : PakeMsg := .reply s.pb s.output.confirmationMac.val

def pake (s : Started C cfg st) : HostPake := ⟨s.output⟩

def trace (s : Started C cfg st) : List (Ev HostSig) :=
  ⟨.now, s.checkedAt⟩ ::
  ⟨.linkRecv cfg.timeouts.signalingStep, .ok (some (.relay s.startData))⟩ ::
  ⟨.partyBStart s.w VIEWER_ID (hostIdBytes cfg.hostId) AAD, .ok (s.pb, s.party)⟩ ::
  ⟨.finish s.party s.pa, .ok s.output⟩ ::
  s.recordTrace

end Started

structure Confirmed (C : Crypto) (cfg : HostConfig) (st : HostState) extends Started C cfg st where
  confirmData : Text
  macA : Bytes
  sealedOffer : Bytes
  received : decodeRelay confirmData = .msg (.confirm macA sealedOffer)
  mac : ByteArr 32
  isMac : toMac macA = .ok mac

namespace Confirmed
variable {cfg : HostConfig} {st : HostState}

def keys (c : Confirmed C cfg st) : SessionKeys := deriveSessionKeys C c.output.sessionKey

def state (c : Confirmed C cfg st) : HostState :=
  { c.recordedState with limiter := c.recordedState.limiter.recordSuccess }

def trace (c : Confirmed C cfg st) : List (Ev HostSig) :=
  c.toStarted.trace ++
  [⟨.linkSend (relayOf c.reply), .ok ()⟩,
    ⟨.linkRecv cfg.timeouts.signalingStep, .ok (some (.relay c.confirmData))⟩,
    ⟨.verifyPeerConfirmation c.output c.mac, .ok ()⟩]

end Confirmed

structure Early (P : Op HostToServer → Prop) (R : ServeResult × HostState → Prop) : Prop where
  late : ∀ st, Late P R st
  generateCode : ¬ P .generateCode
  verify : ∀ out mac, ¬ P (.verifyPeerConfirmation out mac)

structure Deep (P : Op HostToServer → Prop) (R : ServeResult × HostState → Prop) : Prop
    extends Early P R where
  reply : ∀ pb macB, ¬ P (.linkSend (relayOf (.reply pb macB)))

section Deep
variable {P : Op HostToServer → Prop} {R : ServeResult × HostState → Prop}

theorem Early.record_uses (E : Early P R) (st : HostState) :
    (recordAttempt st).Uses (S := HostSig) fun o => ¬ P o := by
  refine ⟨(E.late st).now, fun t => ?_⟩
  dsimp only [Prog.bind]
  split
  · trivial
  · split
    · exact ⟨E.generateCode, fun _ => trivial⟩
    · trivial

theorem attempt_started (E : Early P R) {fuel : Nat} {cfg : HostConfig} {st : HostState}
    {tr : List (Ev HostSig)} {q : HostM (ServeResult × HostState)}
    (h : Path (attempt C fuel cfg st) tr q) (hh : Hits P R tr q) :
    ∃ (s : Started C cfg st) (tr' : List (Ev HostSig)), tr = s.trace ++ tr' ∧
      Path (sendReply C fuel cfg s.pake s.pb s.output.confirmationMac.val s.recordedState) tr' q ∧
      Hits P R tr' q := by
  obtain ⟨t, data, pa, tr', rfl, hc, hd, h₁, hh₁⟩ := attempt_hits (E.late st) h hh
  obtain ⟨tr₁, pake, pb, macB, tr', rfl, hr, h₂, hh₂⟩ := answerStart_hits (E.late st) h₁ hh₁
  obtain ⟨tr₂, st₁, tr₃, rfl, hrec, h₃, hh₃⟩ := hits_bind h₂ hh₂ (E.record_uses st)
  obtain ⟨w, party, hw, rfl, rfl⟩ := respond_ok hr
  exact ⟨⟨t, hc, data, pa, hd, w, hw, pb, party, pake.output, tr₂, st₁, hrec⟩, tr₃,
    by simp [Started.trace], h₃, hh₃⟩

theorem Early.confirm_uses (E : Early P R) (pake : HostPake) (macA : Bytes) :
    (pake.confirm C macA).Uses (S := HostSig) fun o => ¬ P o := by
  rw [HostPake.confirm]
  split
  · trivial
  · refine ⟨E.verify _ _, fun r => ?_⟩
    cases r <;> trivial

theorem judgeConfirm_hits (E : Early P R) {fuel : Nat} {cfg : HostConfig} {st : HostState}
    {pake : HostPake} {macA sealedOffer : Bytes} {tr : List (Ev HostSig)}
    {q : HostM (ServeResult × HostState)}
    (h : Path (judgeConfirm C fuel cfg st pake macA sealedOffer) tr q) (hh : Hits P R tr q) :
    ∃ mac tr', tr = ⟨.verifyPeerConfirmation pake.output mac, .ok ()⟩ :: tr' ∧
      toMac macA = .ok mac ∧
      Path (confirmed C fuel cfg { st with limiter := st.limiter.recordSuccess }
        (deriveSessionKeys C pake.output.sessionKey) sealedOffer) tr' q ∧ Hits P R tr' q := by
  rw [judgeConfirm] at h
  obtain ⟨tr₁, r, tr₂, rfl, hc, h₁, hh₁⟩ := hits_bind h hh (E.confirm_uses pake macA)
  cases r with
  | error e => exact absurd hh₁ (Prog.Never.not_hits ((E.late _).reject_never _) h₁)
  | ok sk =>
      obtain ⟨mac, hmac, rfl, rfl⟩ := confirm_ok hc
      exact ⟨mac, tr₂, rfl, hmac, h₁, hh₁⟩

theorem attempt_confirmed (D : Deep P R) {fuel : Nat} {cfg : HostConfig} {st : HostState}
    {tr : List (Ev HostSig)} {q : HostM (ServeResult × HostState)}
    (h : Path (attempt C fuel cfg st) tr q) (hh : Hits P R tr q) :
    ∃ (c : Confirmed C cfg st) (tr' : List (Ev HostSig)), tr = c.trace ++ tr' ∧
      Path (confirmed C fuel cfg c.state c.keys c.sealedOffer) tr' q ∧ Hits P R tr' q := by
  obtain ⟨s, tr', rfl, h₁, hh₁⟩ := attempt_started D.toEarly h hh
  obtain ⟨r, tr', rfl, h₂, hh₂⟩ := hits_call h₁ hh₁ (D.reply _ _)
  cases r with
  | error e => exact absurd hh₂ (Prog.Never.not_hits (only_ret.mpr ((D.late _).error _)) h₂)
  | ok u =>
      obtain ⟨data, macA, sealedOffer, tr', rfl, hd, h₃, hh₃⟩ := awaitConfirm_hits (D.late _) h₂ hh₂
      obtain ⟨mac, tr', rfl, hmac, h₄, hh₄⟩ := judgeConfirm_hits D.toEarly h₃ hh₃
      exact ⟨⟨s, data, macA, sealedOffer, hd, mac, hmac⟩, tr',
        by simp [Confirmed.trace, Started.reply, Started.pake], h₄, hh₄⟩

end Deep

end SimpleRemote
