import SimpleRemote.Host.Gate

namespace SimpleRemote
open ByteCodec Interaction

variable {C : Crypto}

def relayKind : HostToServer → Option Nat
  | .relay data => (hexDecode data).bind fun b => (tag.read b).map Prod.fst
  | _ => none

theorem relayKind_relayOf (msg : PakeMsg) : relayKind (relayOf msg) = some msg.index := by
  have hi : tag.fits msg.index := lt_trans msg.index_lt (by decide)
  rw [relayOf, relayKind, hexDecode_hexEncode, Option.bind_some, PakeMsg.encode,
    tag.read_write _ _ hi]
  rfl

def isReply : Op HostToServer → Bool
  | .linkSend m => relayKind m == some 1
  | _ => false

def isVerified : Ev HostSig → Bool
  | ⟨.verifyPeerConfirmation _ _, .ok _⟩ => true
  | _ => false

def isAssign : Op HostToServer → Bool
  | .generateCode => true
  | _ => false

def isAccepted : Ev HostSig → Bool
  | ⟨.peerSend data, .ok _⟩ => data == Control.encode (.decision .accepted)
  | _ => false

def quiet (e : Ev HostSig) : Bool :=
  !isReply e.op && !isVerified e && !isAssign e.op && !isAccepted e

def loud (o : Op HostToServer) : Prop := ¬ ∀ r, quiet ⟨o, r⟩ = true

theorem isReply_relayOf (msg : PakeMsg) : isReply (.linkSend (relayOf msg)) = (msg.index == 1) := by
  rw [isReply, relayKind_relayOf]
  simp

theorem quiet_relay {msg : PakeMsg} (h : msg.index ≠ 1) : ¬ loud (.linkSend (relayOf msg)) := by
  have hr : isReply (.linkSend (relayOf msg)) = false := by simp [isReply_relayOf, h]
  simp [loud, quiet, hr, isVerified, isAssign, isAccepted]

theorem quiet_waiting {o : Op HostToServer} (h : o.waiting = true) : ¬ loud o := by
  cases o <;> simp_all [loud, quiet, isReply, isVerified, isAssign, isAccepted, Op.waiting]

theorem quiet_send {c : Control} (h : c ≠ .decision .accepted) :
    ¬ loud (.peerSend (Control.encode c)) := by
  simp [loud, quiet, isReply, isVerified, isAssign]
  intro r
  cases r with
  | error e => rfl
  | ok u => simpa [isAccepted] using encode_ne_accepted h

theorem quiet_approve (req : ApprovalRequest) : ¬ loud (.approve req) := by
  simp [loud, quiet, isReply, isVerified, isAssign, isAccepted]

abbrev moves (st : HostState) (r : ServeResult × HostState) : Prop := r.2 ≠ st

theorem loud_silent (st : HostState) : Silent loud (moves st) st where
  now := quiet_waiting rfl
  recv := by simp [loud, quiet, isReply, isVerified, isAssign, isAccepted]
  kick := by simp [loud, quiet, isReply, isVerified, isAssign, isAccepted, relayKind]
  retryAfter _ := quiet_relay (by simp [PakeMsg.index])
  rejected := quiet_relay (by simp [PakeMsg.index])
  partyBStart := by simp [loud, quiet, isReply, isVerified, isAssign, isAccepted]
  finish := by simp [loud, quiet, isReply, isVerified, isAssign, isAccepted]
  error := by simp
  failed := by simp
  left := by simp
  waiting _ := quiet_waiting
  peerNew := by simp [loud, quiet, isReply, isVerified, isAssign, isAccepted]
  acceptOffer := by simp [loud, quiet, isReply, isVerified, isAssign, isAccepted]
  answer _ := quiet_relay (by simp [PakeMsg.index])
  localFp := by simp [loud, quiet, isReply, isVerified, isAssign, isAccepted]
  remoteFp := by simp [loud, quiet, isReply, isVerified, isAssign, isAccepted]
  send _ := quiet_send

inductive Served (C : Crypto) (cfg : HostConfig) (st : HostState) :
    List (Ev HostSig) → HostState → Prop
  | quiet {tr : List (Ev HostSig)} (h : ∀ e ∈ tr, quiet e = true) : Served C cfg st tr st
  | replied (s : Started C cfg st) {pre rest : List (Ev HostSig)}
      (sent : Except LinkError Unit) (hpre : ∀ e ∈ pre, quiet e = true)
      (hrest : ∀ e ∈ rest, quiet e = true) :
      Served C cfg st (pre ++ (s.trace ++ ⟨.linkSend (relayOf s.reply), sent⟩ :: rest))
        s.recordedState
  | confirmed (c : Confirmed C cfg st) {pre rest : List (Ev HostSig)}
      (hpre : ∀ e ∈ pre, quiet e = true) (hrest : ∀ e ∈ rest, quiet e = true) :
      Served C cfg st (pre ++ (c.trace ++ rest)) c.state
  | accepted (c : Confirmed C cfg st) {pre rest : List (Ev HostSig)} (code : OneTimeCode)
      (hpre : ∀ e ∈ pre, quiet e = true) (hrest : ∀ e ∈ rest, quiet e = true) :
      Served C cfg st (pre ++ (c.trace ++ (rest ++
        [⟨.peerSend (Control.encode (.decision .accepted)), .ok ()⟩, ⟨.generateCode, code⟩])))
        { c.state with code := code }

theorem quiet_of_only {α : Type} {p q : HostM α} {R : α → Prop} {tr : List (Ev HostSig)}
    (hp : p.Only (S := HostSig) (fun o => ¬ loud o) R) (h : Path p tr q) :
    ∀ e ∈ tr, quiet e = true :=
  fun e he => not_not.mp ((hp.path h).1 e he) e.res

theorem quiet_of_not_hits {st st' : HostState} {r : ServeResult} {tr : List (Ev HostSig)}
    (hh : ¬ Hits loud (moves st) tr (.ret (r, st'))) :
    (∀ e ∈ tr, quiet e = true) ∧ st' = st := by
  obtain ⟨hev, hst⟩ := not_or.mp hh
  refine ⟨fun e he => ?_, Classical.byContradiction fun h => hst ⟨_, rfl, h⟩⟩
  exact not_not.mp (fun h => hev ⟨e, he, h⟩) e.res

theorem quiet_of_never {st st' : HostState} {p : HostM (ServeResult × HostState)}
    {r : ServeResult} {tr : List (Ev HostSig)} (hp : p.Never loud (moves st))
    (h : Exec p tr (r, st')) : (∀ e ∈ tr, quiet e = true) ∧ st' = st :=
  quiet_of_not_hits (r := r) (hp.not_hits h)

theorem confirm_error {pake : HostPake} {macA : Bytes} {err : AuthError} {tr : List (Ev HostSig)}
    (h : Exec (pake.confirm C macA) tr (.error err)) : ∀ e ∈ tr, quiet e = true := by
  rw [HostPake.confirm] at h
  split at h
  · obtain ⟨rfl, -⟩ := exec_ret.mp h
    simp
  · obtain ⟨r, tr₂, rfl, h₂⟩ := exec_call_bind.mp h
    cases r with
    | error e =>
        obtain ⟨rfl, -⟩ := exec_ret.mp h₂
        simp [quiet, isReply, isVerified, isAssign, isAccepted]
    | ok u => simp at h₂

theorem waits_quiet {α : Type} {p : HostM α} (h : Waits p) :
    p.Uses (S := HostSig) fun o => ¬ loud o :=
  h.mono fun _ => quiet_waiting

theorem quiet_iff {o : Op HostToServer} : ¬ loud o ↔ ∀ r, quiet ⟨o, r⟩ = true := not_not

theorem Gate.quiet_tailTrace {fuel : Nat} {cfg : HostConfig} {st : HostState}
    (g : Gate C fuel cfg st) : ∀ e ∈ g.tailTrace, quiet e = true := by
  have L := loud_silent st
  have hopen := quiet_of_only (waits_quiet (Channel.waitOpen_uses _ _ _)) g.ready
  have hhello := quiet_of_only (waits_quiet (Channel.next_uses _ _ _)) g.greeted
  simp only [Gate.tailTrace, List.forall_mem_cons, List.forall_mem_append]
  exact ⟨quiet_iff.mp (L.peerNew _) _, quiet_iff.mp (L.acceptOffer _) _,
    quiet_iff.mp (L.answer _) _, rfl, hopen, rfl, rfl,
    quiet_iff.mp (L.send _ (by simp)) _, rfl, hhello⟩

theorem accept_served {st st' : HostState} {viewer : PeerIdentity} {ch : Channel}
    {tr : List (Ev HostSig)} {r : ServeResult}
    (h : Exec (accept st viewer ch >>= finishAttempt) tr (r, st')) :
    ((∀ e ∈ tr, quiet e = true) ∧ st' = st) ∨
    ∃ code, tr = [⟨.peerSend (Control.encode (.decision .accepted)), .ok ()⟩,
      ⟨.generateCode, code⟩] ∧ st' = { st with code := code } := by
  rw [accept, Prog.bind_assoc] at h
  obtain ⟨r, tr₁, rfl, h₁⟩ := exec_call_bind.mp h
  cases r with
  | error e =>
      obtain ⟨hq, rfl⟩ := quiet_of_never ((loud_silent st).failWith_never _ _) h₁
      exact .inl ⟨List.forall_mem_cons.mpr
        ⟨by simp [quiet, isReply, isVerified, isAssign, isAccepted], hq⟩, rfl⟩
  | ok u =>
      obtain ⟨code, tr₂, rfl, h₂⟩ := exec_call_bind.mp h₁
      obtain ⟨rfl, hr⟩ := exec_ret.mp h₂
      obtain ⟨-, rfl⟩ := Prod.mk.inj hr
      exact .inr ⟨code, rfl, rfl⟩

theorem confirmed_cases {fuel : Nat} {cfg : HostConfig} {st st' : HostState}
    {c : Confirmed C cfg st} {tr : List (Ev HostSig)} {r : ServeResult}
    (h : Exec (confirmed C fuel cfg c.state c.keys c.sealedOffer) tr (r, st')) :
    ((∀ e ∈ tr, quiet e = true) ∧ st' = c.state) ∨
    ∃ rest code, tr = rest ++ [⟨.peerSend (Control.encode (.decision .accepted)), .ok ()⟩,
        ⟨.generateCode, code⟩] ∧ (∀ e ∈ rest, quiet e = true) ∧
      st' = { c.state with code := code } := by
  by_cases hh : Hits loud (moves c.state) tr (.ret (r, st'))
  · have L := loud_silent c.state
    obtain ⟨g, tr', rfl, rfl, h₁, hh₁⟩ := confirmed_gate L h hh
    obtain ⟨tr₁, ch, tr₂, rfl, ha, h₂, hh₂⟩ := askApproval_hits L.toCalm quiet_approve h₁ hh₁
    have hq : ∀ e ∈ g.tailTrace ++ tr₁, quiet e = true := List.forall_mem_append.mpr
      ⟨g.quiet_tailTrace, quiet_of_only (L.waitApproval_uses quiet_approve _ _ _ _) ha⟩
    rcases accept_served h₂ with ⟨hq₂, rfl⟩ | ⟨code, rfl, rfl⟩
    · exact .inl ⟨by simpa using List.forall_mem_append.mpr ⟨hq, hq₂⟩, rfl⟩
    · exact .inr ⟨g.tailTrace ++ tr₁, code, by simp, hq, rfl⟩
  · exact .inl (quiet_of_not_hits hh)

theorem sendReply_served {fuel : Nat} {cfg : HostConfig} {st st' : HostState}
    {s : Started C cfg st} {pre tr : List (Ev HostSig)} {r : ServeResult}
    (hpre : ∀ e ∈ pre, quiet e = true)
    (h : Exec (sendReply C fuel cfg s.pake s.pb s.output.confirmationMac.val s.recordedState) tr
      (r, st')) :
    Served C cfg st (pre ++ (s.trace ++ tr)) st' := by
  obtain ⟨sent, tr₂, rfl, h₁⟩ := exec_call_bind.mp h
  by_cases hh : Hits loud (moves s.recordedState) tr₂ (.ret (r, st'))
  · cases sent with
    | error e => exact absurd hh (Prog.Never.not_hits (only_ret.mpr (by simp)) h₁)
    | ok u =>
        obtain ⟨data, macA, sealedOffer, tr₃, rfl, hd, h₂, hh₂⟩ :=
          awaitConfirm_hits (loud_silent s.recordedState).toLate h₁ hh
        obtain ⟨tr₄, sk, tr₅, rfl, hc, h₃⟩ := exec_bind.mp h₂
        cases sk with
        | error e =>
            obtain ⟨hq, rfl⟩ := quiet_of_never ((loud_silent _).reject_never _) h₃
            exact .replied s (.ok u) hpre
              (List.forall_mem_cons.mpr ⟨rfl, List.forall_mem_append.mpr ⟨confirm_error hc, hq⟩⟩)
        | ok sk =>
            obtain ⟨mac, hmac, rfl, rfl⟩ := confirm_ok hc
            let c : Confirmed C cfg st := ⟨s, data, macA, sealedOffer, hd, mac, hmac⟩
            have htrace : s.trace ++ ⟨.linkSend (relayOf s.reply), .ok u⟩ ::
                ⟨.linkRecv cfg.timeouts.signalingStep, .ok (some (.relay data))⟩ ::
                ([⟨.verifyPeerConfirmation s.pake.output mac, .ok ()⟩] ++ tr₅) = c.trace ++ tr₅ := by
              simp [Confirmed.trace, c, Started.pake]
            rw [← Started.reply, htrace]
            rcases confirmed_cases (c := c) h₃ with ⟨hq, rfl⟩ | ⟨rest, code, rfl, hq, rfl⟩
            · exact .confirmed c hpre hq
            · exact .accepted c code hpre hq
  · obtain ⟨hq, rfl⟩ := quiet_of_not_hits hh
    exact .replied s sent hpre hq

theorem serveNext_served {fuel : Nat} {cfg : HostConfig} {st st' : HostState}
    {tr : List (Ev HostSig)} {r : ServeResult}
    (h : Exec (serveNext C cfg st fuel) tr (r, st')) : Served C cfg st tr st' := by
  by_cases hh : Hits loud (moves st) tr (.ret (r, st'))
  · have L := (loud_silent st).toLate
    obtain ⟨n, skipped, tr', rfl, hs, h₁, hh₁⟩ := serveNext_hits L h hh
    obtain ⟨t, data, pa, tr', rfl, hc, hd, h₂, hh₂⟩ := attempt_hits L h₁ hh₁
    obtain ⟨tr₁, pake, pb, macB, tr', rfl, hr, h₃, hh₃⟩ := answerStart_hits L h₂ hh₂
    obtain ⟨w, party, hw, rfl, rfl⟩ := respond_ok hr
    obtain ⟨tr₂, st₁, tr₃, rfl, hrec, h₄⟩ := exec_bind.mp h₃
    let s : Started C cfg st := ⟨t, hc, data, pa, hd, w, hw, pb, party, pake.output, tr₂, st₁, hrec⟩
    have hpre : ∀ e ∈ skipped ++ [viewerJoined cfg], quiet e = true := by
      refine List.forall_mem_append.mpr ⟨fun e he => ?_, by simp [viewerJoined, quiet_iff.mp (L.recv _)]⟩
      obtain ⟨r, rfl, -⟩ := hs e he
      exact quiet_iff.mp (L.recv _) r
    have := sendReply_served (s := s) hpre h₄
    simpa [Started.trace, s] using this
  · obtain ⟨hq, rfl⟩ := quiet_of_not_hits hh
    exact .quiet hq

end SimpleRemote
