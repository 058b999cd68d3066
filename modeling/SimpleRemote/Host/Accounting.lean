import SimpleRemote.Host.Serve

namespace SimpleRemote
open ByteCodec Interaction

variable {C : Crypto}

-- `replied` is the clock reading the attempt was recorded at, once a Reply send was reached
structure Books where
  replied : Option Instant
  confirmed : Bool
  assigned : List OneTimeCode

structure Ledger where
  clock : Instant
  sent : List HostToServer
  left : Bool
  books : Books

namespace Ledger

def start : Ledger := ⟨0, [], false, ⟨none, false, []⟩⟩

def next (l : Ledger) : Ev HostSig → Ledger
  | ⟨.now, t⟩ => { l with clock := t }
  | ⟨.linkSend m, _⟩ =>
      { l with
        sent := l.sent ++ [m]
        books := if isReply (.linkSend m) then { l.books with replied := some l.clock } else l.books }
  | ⟨.linkRecv _, .ok (some .viewerLeft)⟩ => { l with left := true }
  | ⟨.verifyPeerConfirmation _ _, .ok _⟩ => { l with books := { l.books with confirmed := true } }
  | ⟨.generateCode, code⟩ =>
      { l with books := { l.books with assigned := l.books.assigned ++ [code] } }
  | _ => l

def watch : Monitor HostSig Ledger where
  allow _ _ := True
  valid _ _ := True
  next := next

end Ledger

def tally (tr : List (Ev HostSig)) : Ledger := Ledger.watch.run .start tr

structure Booked (st : HostState) (b : Books) (st' : HostState) (granted : Prop) : Prop where
  unreached : b.replied = none → st' = st ∧ b.assigned = []
  recorded : ∀ t, b.replied = some t → ∃ limiter out,
    st.limiter.recordFailure t = some (limiter, out) ∧
      if b.confirmed then
        st'.limiter = .new ∧ (b.assigned ≠ [] ↔ out.rotateCode = true ∨ granted)
      else st'.limiter = limiter ∧ (b.assigned ≠ [] ↔ out.rotateCode = true)
  confirmed : b.confirmed = true → b.replied ≠ none
  code : st'.code = b.assigned.getLast?.getD st.code

def isFailed : ServeOutcome → Bool
  | .failed _ => true
  | _ => false

def Kicks (l : Ledger) : ServeResult → Prop
  | .error (.link _) => True
  | .error (.transport _) => False
  | .ok outcome =>
      if isFailed outcome = true ∧ l.left = false then
        ∃ others, l.sent = others ++ [.kick] ∧ .kick ∉ others
      else .kick ∉ l.sent

structure Accounts (st : HostState) (l : Ledger) (r : ServeResult × HostState) : Prop where
  booked : Booked st l.books r.2 (isSession r)
  kicks : Kicks l r.1

namespace Booked
variable {st st' : HostState} {b : Books}

theorem new (st : HostState) : Booked st ⟨none, false, []⟩ st False where
  unreached _ := ⟨rfl, rfl⟩
  recorded := by
    intro t ht
    cases ht
  confirmed := by
    intro h
    cases h
  code := rfl

theorem replied {t : Instant} {limiter : AttemptLimiter} {out : FailureOutcome}
    {codes : List OneTimeCode} (hfailure : st.limiter.recordFailure t = some (limiter, out))
    (hcodes : codes ≠ [] ↔ out.rotateCode = true) :
    Booked st ⟨some t, false, codes⟩ ⟨codes.getLast?.getD st.code, limiter⟩ False where
  unreached := by
    intro hnone
    cases hnone
  recorded := by
    intro t' ht
    cases ht
    exact ⟨limiter, out, hfailure, rfl, hcodes⟩
  confirmed := by
    intro h
    cases h
  code := rfl

theorem success (h : Booked st b st' False) (hreplied : b.replied ≠ none)
    (hfirst : b.confirmed = false) :
    Booked st { b with confirmed := true } { st' with limiter := st'.limiter.recordSuccess }
      False where
  unreached hnone := absurd hnone hreplied
  recorded := by
    intro t ht
    obtain ⟨limiter, out, hfailure, hrest⟩ := h.recorded t ht
    rw [hfirst] at hrest
    refine ⟨limiter, out, hfailure, ?_⟩
    rw [if_pos rfl, or_false]
    exact ⟨rfl, hrest.2⟩
  confirmed _ := hreplied
  code := h.code

theorem granted (h : Booked st b st' False) (hconfirmed : b.confirmed = true)
    (code : OneTimeCode) :
    Booked st { b with assigned := b.assigned ++ [code] } { st' with code := code } True where
  unreached hnone := absurd hnone (h.confirmed hconfirmed)
  recorded := by
    intro t ht
    obtain ⟨limiter, out, hfailure, hrest⟩ := h.recorded t ht
    rw [hconfirmed] at hrest
    refine ⟨limiter, out, hfailure, ?_⟩
    rw [if_pos hconfirmed]
    exact ⟨hrest.1, by simp⟩
  confirmed := h.confirmed
  code := by simp

end Booked

namespace Ledger
variable {α : Type} {st st' : HostState} {l : Ledger}

structure Clean (l : Ledger) : Prop where
  left : l.left = false
  kick : .kick ∉ l.sent

theorem wp_call {Q : Ledger → α → Prop} {o : Op HostToServer} {k : HostSig.Res o → HostM α}
    (h : ∀ r, (k r).wp watch Q (l.next ⟨o, r⟩)) : (Prog.call o >>= k).wp watch Q l :=
  ⟨trivial, fun r _ => h r⟩

theorem wp_pass {γ : Type} {Q : Ledger → γ → Prop} {p : HostM α} {f : α → HostM γ}
    {I : Ledger → Prop} {P : Op HostToServer → Prop} {R : α → Prop} (hp : p.Only P R)
    (hI : ∀ l o, I l → P o → ∀ r, I (l.next ⟨o, r⟩)) (hl : I l)
    (hf : ∀ l a, I l → R a → (f a).wp watch Q l) : (p >>= f).wp watch Q l := by
  rw [wp_bind]
  refine Prog.wp_mono (wp_of_only hp (fun l o hl ho => ⟨trivial, fun r _ => hI l o hl ho r⟩) hl) ?_
  intro l a h
  exact hf l a h.1 h.2

def send (l : Ledger) (m : HostToServer) : Ledger := { l with sent := l.sent ++ [m] }

theorem next_send {m : HostToServer} (h : isReply (.linkSend m) = false)
    (r : Except LinkError Unit) : l.next ⟨.linkSend m, r⟩ = l.send m := by
  rw [next]
  simp [h, send]

theorem next_relay {msg : PakeMsg} (h : msg.index ≠ 1) (r : Except LinkError Unit) :
    l.next ⟨.linkSend (relayOf msg), r⟩ = l.send (relayOf msg) :=
  next_send (by simpa [isReply_relayOf] using h) r

theorem Clean.relayed (h : l.Clean) (msg : PakeMsg) : (l.send (relayOf msg)).Clean :=
  ⟨h.left, by simpa [send, relayOf] using h.kick⟩

theorem Clean.kicks (h : l.Clean) (f : AttemptFailure) : Kicks (l.send .kick) (.ok (.failed f)) := by
  have hsent : ∃ others, (l.send .kick).sent = others ++ [.kick] ∧ .kick ∉ others :=
    ⟨l.sent, rfl, h.kick⟩
  rw [Kicks, if_pos ⟨rfl, h.left⟩]
  exact hsent

theorem wp_kicked {k : ServeResult → HostM (ServeResult × HostState)} (l : Ledger)
    (hk : ∀ l r, Accounts st l (r, st') → (k r).wp watch (Accounts st) l)
    (hb : Booked st l.books st' False) (hc : l.Clean) (f : AttemptFailure) :
    (kicked f >>= k).wp watch (Accounts st) l := by
  refine wp_call fun r => ?_
  rw [next_send rfl]
  cases r with
  | error e => exact hk _ _ ⟨hb, trivial⟩
  | ok u => exact hk _ _ ⟨hb, hc.kicks f⟩

theorem wp_rejectRelay {k : ServeResult → HostM (ServeResult × HostState)} (l : Ledger)
    (hk : ∀ l r, Accounts st l (r, st') → (k r).wp watch (Accounts st) l)
    (hb : Booked st l.books st' False) (hc : l.Clean) (f : AttemptFailure) :
    (rejectRelay f >>= k).wp watch (Accounts st) l := by
  refine wp_call fun r => ?_
  rw [next_relay (by simp [PakeMsg.index])]
  cases r with
  | error e => exact hk _ _ ⟨hb, trivial⟩
  | ok u => exact wp_kicked (l.send (relayOf .rejected)) hk hb (hc.relayed .rejected) f

theorem wp_kicks (l : Ledger) (hb : Booked st l.books st' False) (hc : l.Clean)
    (f : AttemptFailure) :
    (kicked f >>= fun r => (pure (r, st') : HostM _)).wp watch (Accounts st) l :=
  wp_kicked (k := fun r => pure (r, st')) l (fun _ _ ha => ha) hb hc f

theorem wp_rejects (l : Ledger) (hb : Booked st l.books st' False) (hc : l.Clean)
    (f : AttemptFailure) :
    (rejectRelay f >>= fun r => (pure (r, st') : HostM _)).wp watch (Accounts st) l :=
  wp_rejectRelay (k := fun r => pure (r, st')) l (fun _ _ ha => ha) hb hc f

-- what the peer and the person at the host do moves the clock only
def Later (l l' : Ledger) : Prop := ∃ t, l' = { l with clock := t }

theorem later_refl (l : Ledger) : l.Later l := ⟨l.clock, rfl⟩

theorem Later.accounts {l' : Ledger} {r : ServeResult × HostState} (h : l.Later l')
    (ha : Accounts st l r) : Accounts st l' r := by
  obtain ⟨t, rfl⟩ := h
  exact ⟨ha.booked, ha.kicks⟩

theorem Later.next {l' : Ledger} {o : Op HostToServer} (h : l.Later l')
    (ho : o.onPeer = true ∨ o.isApprove = true) (r : HostSig.Res o) : l.Later (l'.next ⟨o, r⟩) := by
  obtain ⟨t, rfl⟩ := h
  cases o with
  | now => exact ⟨r, rfl⟩
  | poll => exact ⟨t, rfl⟩
  | peerSend => exact ⟨t, rfl⟩
  | localFingerprint => exact ⟨t, rfl⟩
  | remoteFingerprint => exact ⟨t, rfl⟩
  | peerClose => exact ⟨t, rfl⟩
  | approve => exact ⟨t, rfl⟩
  | _ => simp [Op.onPeer, Op.waiting, Op.isApprove] at ho

theorem wp_peer {γ : Type} {Q : Ledger → γ → Prop} {p : HostM α} {f : α → HostM γ}
    {R : α → Prop} {l₀ : Ledger} (hl : l₀.Later l)
    (hp : p.Only (S := HostSig) (fun o => o.onPeer = true ∨ o.isApprove = true) R)
    (hf : ∀ l a, l₀.Later l → R a → (f a).wp watch Q l) : (p >>= f).wp watch Q l :=
  wp_pass hp (fun _ _ h ho r => h.next ho r) hl hf

inductive Settled (st : HostState) (l : Ledger) : Ledger → ServeOutcome × HostState → Prop
  | failed {l' : Ledger} (f : AttemptFailure) (h : l.Later l') : Settled st l l' (.failed f, st)
  | session (s : HostSession) (t : Instant) (code : OneTimeCode) :
      Settled st l
        { l with clock := t, books := { l.books with assigned := l.books.assigned ++ [code] } }
        (.session s, { st with code := code })

theorem wp_fails {p : HostM (ServeOutcome × HostState)} {l₀ : Ledger} (hl : l₀.Later l)
    (hp : Fails st p) : p.wp watch (Settled st l₀) l := by
  have hwp := wp_of_only (M := watch) (I := l₀.Later) hp
    (fun l o h ho => ⟨trivial, fun r _ => h.next (.inl ho) r⟩) hl
  refine Prog.wp_mono hwp fun l' r h => ?_
  obtain ⟨hlater, hstate, f, hf⟩ := h
  obtain ⟨outcome, st'⟩ := r
  cases hstate
  cases hf
  exact .failed f hlater

theorem wp_accept {l₀ : Ledger} (hl : l₀.Later l) (viewer : PeerIdentity) (ch : Channel) :
    (accept st viewer ch).wp watch (Settled st l₀) l := by
  refine wp_call fun r => ?_
  cases r with
  | error e => exact wp_fails hl (failWith_fails ch _ st)
  | ok u =>
      refine wp_call fun code => ?_
      obtain ⟨t, rfl⟩ := hl
      exact .session ⟨viewer, ch⟩ t code

theorem wp_askApproval {fuel : Nat} {cfg : HostConfig} {l₀ : Ledger} (hl : l₀.Later l)
    (viewer : PeerIdentity) (ch : Channel) :
    (askApproval C fuel cfg st viewer ch).wp watch (Settled st l₀) l := by
  have huses := (waitApproval_uses fuel ch (approvalRequest C viewer) cfg.timeouts.approval).mono
    fun _ => Or.imp_left Op.onPeer_of_waiting
  refine wp_peer hl huses fun l a hl _ => ?_
  obtain ⟨answer, ch'⟩ := a
  cases answer with
  | granted => exact wp_accept hl viewer ch'
  | denied => exact wp_fails hl (rejectDecision_fails _ _ _ _ _ _)
  | noResponse => exact wp_fails hl (rejectDecision_fails _ _ _ _ _ _)
  | failed f => exact wp_fails hl (failWith_fails _ _ _)

theorem wp_judgeHello {fuel : Nat} {cfg : HostConfig} {sk : SessionKeys} {l₀ : Ledger}
    (hl : l₀.Later l) (localFp remoteFp : Bytes) (viewerHello : Hello) (ch : Channel) :
    (judgeHello C fuel cfg st sk localFp remoteFp viewerHello ch).wp watch (Settled st l₀) l := by
  rw [judgeHello]
  split
  · exact wp_fails hl (rejectDecision_fails _ _ _ _ _ _)
  · split
    · exact wp_fails hl (rejectDecision_fails _ _ _ _ _ _)
    · exact wp_askApproval hl _ ch

theorem Later.then {l₀ l' : Ledger} {o : Op HostToServer} (h : l₀.Later l')
    (ho : o.onPeer = true) (r : HostSig.Res o) : l₀.Later (l'.next ⟨o, r⟩) := h.next (.inl ho) r

theorem wp_waits {γ : Type} {Q : Ledger → γ → Prop} {p : HostM α} {f : α → HostM γ}
    {l₀ : Ledger} (hl : l₀.Later l) (hp : Waits p)
    (hf : ∀ l a, l₀.Later l → (f a).wp watch Q l) : (p >>= f).wp watch Q l :=
  wp_peer hl (hp.mono fun _ ho => .inl (Op.onPeer_of_waiting ho)) fun l a h _ => hf l a h

theorem wp_exchangeHello {fuel : Nat} {cfg : HostConfig} {sk : SessionKeys} {l₀ : Ledger}
    (hl : l₀.Later l) (ch : Channel) :
    (exchangeHello C fuel cfg st sk ch).wp watch (Settled st l₀) l := by
  refine wp_call fun localFp => ?_
  refine wp_call fun remoteFp => ?_
  have hfps := (hl.then rfl localFp).then rfl remoteFp
  cases remoteFp with
  | none => exact wp_fails hfps (failWith_fails _ _ _)
  | some remoteFp =>
      refine wp_call fun sent => ?_
      have hsent := hfps.then rfl sent
      cases sent with
      | error e => exact wp_fails hsent (failWith_fails _ _ _)
      | ok u =>
          refine wp_call fun start => ?_
          refine wp_waits (hsent.then rfl start) (Channel.next_uses _ _ _) fun l r hl => ?_
          obtain ⟨r, ch'⟩ := r
          rcases r with e | ((hello | _ | _ | _) | _ | _ | _)
          case ok.msg.hello => exact wp_judgeHello hl localFp remoteFp hello ch'
          all_goals exact wp_fails hl (failWith_fails _ _ _)

theorem wp_handshake {fuel : Nat} {cfg : HostConfig} {sk : SessionKeys} (ch : Channel) :
    (handshake C fuel cfg st sk ch).wp watch (Settled st l) l := by
  refine wp_call fun start => ?_
  refine wp_waits (l.later_refl.then rfl start) (Channel.waitOpen_uses _ _ _) fun l r hl => ?_
  obtain ⟨r, ch'⟩ := r
  rcases r with e | (_ | _ | _)
  case ok.ready => exact wp_exchangeHello hl ch'
  all_goals exact wp_fails hl (failWith_fails _ _ _)

theorem wp_finishAttempt (l₀ : Ledger) {r : ServeOutcome × HostState}
    (hb : Booked st l₀.books st' False) (hconfirmed : l₀.books.confirmed = true)
    (hc : l₀.Clean) (h : Settled st' l₀ l r) :
    (finishAttempt r).wp watch (Accounts st) l := by
  cases h with
  | failed f hlater =>
      obtain ⟨t, rfl⟩ := hlater
      exact wp_kicks { l₀ with clock := t } hb ⟨hc.left, hc.kick⟩ f
  | session s t code => exact ⟨hb.granted hconfirmed code, hc.kick⟩

theorem wp_sendAnswer {fuel : Nat} {cfg : HostConfig} {sk : SessionKeys} (l : Ledger)
    (hb : Booked st l.books st' False) (hconfirmed : l.books.confirmed = true) (hc : l.Clean)
    (sealedAnswer : Bytes) (ch : Channel) :
    (sendAnswer C fuel cfg st' sk sealedAnswer ch).wp watch (Accounts st) l := by
  refine wp_call fun r => ?_
  rw [next_relay (by simp [PakeMsg.index])]
  have hsent := hc.relayed (.answer sealedAnswer)
  cases r with
  | error e =>
      refine wp_waits (later_refl _) (Channel.close_uses ch) fun l' _ hlater => ?_
      exact hlater.accounts ⟨hb, trivial⟩
  | ok u =>
      dsimp only
      rw [wp_bind]
      refine Prog.wp_mono (wp_handshake ch) fun l' r h => ?_
      exact wp_finishAttempt (l.send (relayOf (.answer sealedAnswer))) hb hconfirmed hsent h

theorem wp_answerOffer {fuel : Nat} {cfg : HostConfig} {sk : SessionKeys} (l : Ledger)
    (hb : Booked st l.books st' False) (hconfirmed : l.books.confirmed = true) (hc : l.Clean)
    (offer : Text) :
    (answerOffer C fuel cfg st' sk offer).wp watch (Accounts st) l := by
  refine wp_call fun r => ?_
  cases r with
  | error e => exact wp_kicks l hb hc .transport
  | ok u =>
      refine wp_call fun r => ?_
      cases r with
      | error e =>
          refine wp_rejectRelay l (fun l' r ha => ?_) hb hc .malformed
          exact wp_waits (later_refl _) (Channel.close_uses _) fun _ _ hlater => hlater.accounts ha
      | ok answer =>
          dsimp only
          split
          · trivial
          · exact wp_sendAnswer l hb hconfirmed hc _ _

theorem wp_confirmed {fuel : Nat} {cfg : HostConfig} {sk : SessionKeys} (l : Ledger)
    (hb : Booked st l.books st' False) (hconfirmed : l.books.confirmed = true) (hc : l.Clean)
    (sealedOffer : Bytes) :
    (confirmed C fuel cfg st' sk sealedOffer).wp watch (Accounts st) l := by
  rw [confirmed]
  split
  · exact wp_rejects l hb hc .malformed
  · exact wp_answerOffer l hb hconfirmed hc _

theorem wp_judgeConfirm {fuel : Nat} {cfg : HostConfig} (l : Ledger)
    (hb : Booked st l.books st' False) (hreplied : l.books.replied ≠ none)
    (hfirst : l.books.confirmed = false) (hc : l.Clean) (pake : HostPake)
    (macA sealedOffer : Bytes) :
    (judgeConfirm C fuel cfg st' pake macA sealedOffer).wp watch (Accounts st) l := by
  rw [judgeConfirm, HostPake.confirm]
  split
  · exact wp_rejects l hb hc .wrongCode
  · refine wp_call fun r => ?_
    cases r with
    | error e => exact wp_rejects l hb hc .wrongCode
    | ok u =>
        let l' : Ledger := { l with books := { l.books with confirmed := true } }
        exact wp_confirmed l' (hb.success hreplied hfirst) rfl ⟨hc.left, hc.kick⟩ sealedOffer

theorem wp_recvRelay {Q : Ledger → α → Prop} {f : Except LinkError Relay → HostM α}
    (t : Duration) (herror : ∀ e, (f (.error e)).wp watch Q l)
    (hleft : (f (.ok .left)).wp watch Q { l with left := true })
    (hother : ∀ r, r ≠ .left → (f (.ok r)).wp watch Q l) :
    (recvRelay t >>= f).wp watch Q l := by
  refine wp_call fun r => ?_
  rcases r with e | (_ | m)
  · exact herror e
  · exact hother .timedOut (by simp)
  · cases m with
    | relay data =>
        refine hother (decodeRelay data) ?_
        rw [decodeRelay]
        split
        · simp
        · split <;> simp
    | viewerLeft => exact hleft
    | _ => exact hother .malformed (by simp)

theorem wp_awaitConfirm {fuel : Nat} {cfg : HostConfig} (l : Ledger)
    (hb : Booked st l.books st' False) (hreplied : l.books.replied ≠ none)
    (hfirst : l.books.confirmed = false) (hc : l.Clean) (pake : HostPake) :
    (awaitConfirm C fuel cfg st' pake).wp watch (Accounts st) l := by
  have hrejects := wp_rejects l hb hc .malformed
  refine wp_recvRelay _ (fun e => ⟨hb, trivial⟩) ⟨hb, hc.kick⟩ fun r hr => ?_
  cases r with
  | msg m =>
      cases m with
      | confirm macA sealedOffer => exact wp_judgeConfirm l hb hreplied hfirst hc pake _ _
      | _ => exact hrejects
  | malformed => exact hrejects
  | left => exact absurd rfl hr
  | timedOut => exact wp_kicks l hb hc .noConfirm

structure Opening (l : Ledger) : Prop where
  clean : l.Clean
  books : l.books = ⟨none, false, []⟩

theorem Opening.booked (h : l.Opening) (st : HostState) : Booked st l.books st False := by
  rw [h.books]
  exact .new st

theorem Opening.clock (h : l.Opening) (t : Instant) : Opening { l with clock := t } :=
  ⟨⟨h.clean.left, h.clean.kick⟩, h.books⟩

theorem wp_sendReply {fuel : Nat} {cfg : HostConfig} (pake : HostPake) (pb macB : Bytes)
    {codes : List OneTimeCode} (hbooks : l.books = ⟨none, false, codes⟩)
    (hb : Booked st ⟨some l.clock, false, codes⟩ st' False) (hc : l.Clean) :
    (sendReply C fuel cfg pake pb macB st').wp watch (Accounts st) l := by
  refine wp_call fun r => ?_
  have hreply : isReply (.linkSend (relayOf (.reply pb macB))) = true := isReply_relayOf _
  let l' : Ledger :=
    { l.send (relayOf (.reply pb macB)) with books := ⟨some l.clock, false, codes⟩ }
  have hnext : l.next ⟨.linkSend (relayOf (.reply pb macB)), r⟩ = l' := by
    rw [next]
    simp [hreply, hbooks, l', send]
  rw [hnext]
  cases r with
  | error e => exact ⟨hb, trivial⟩
  | ok u =>
      have hsent := hc.relayed (.reply pb macB)
      have hreplied : l'.books.replied ≠ none := by
        intro hnone
        cases hnone
      exact wp_awaitConfirm l' hb hreplied rfl ⟨hsent.left, hsent.kick⟩ pake

theorem wp_recordAttempt {f : HostState → HostM α} {Q : Ledger → α → Prop} (h : l.Opening)
    (hf : ∀ l codes st', l.Clean → l.books = ⟨none, false, codes⟩ →
      Booked st ⟨some l.clock, false, codes⟩ st' False → (f st').wp watch Q l) :
    (recordAttempt st >>= f).wp watch Q l := by
  rw [recordAttempt, Prog.bind_assoc]
  refine wp_call fun t => ?_
  have hopening : Opening { l with clock := t } := h.clock t
  cases hfailure : st.limiter.recordFailure t with
  | none => trivial
  | some recorded =>
      obtain ⟨limiter, out⟩ := recorded
      dsimp only
      by_cases hrotate : out.rotateCode = true
      · rw [if_pos hrotate]
        refine wp_call fun code => ?_
        let l' : Ledger := { l with clock := t, books := ⟨none, false, [code]⟩ }
        have hnext : Ledger.next { l with clock := t } ⟨.generateCode, code⟩ = l' := by
          rw [next]
          simp [h.books, l']
        have hrotated : [code] ≠ [] ↔ out.rotateCode = true := by simp [hrotate]
        exact hnext ▸ hf l' [code] _ ⟨h.clean.left, h.clean.kick⟩ rfl (.replied hfailure hrotated)
      · rw [if_neg hrotate]
        have hkept : ([] : List OneTimeCode) ≠ [] ↔ out.rotateCode = true := by simp [hrotate]
        exact hf _ [] _ hopening.clean hopening.books (.replied hfailure hkept)

theorem wp_answerStart {fuel : Nat} {cfg : HostConfig} (h : l.Opening) (pa : Bytes) :
    (answerStart C fuel cfg st pa).wp watch (Accounts st) l := by
  have hrejects := wp_rejects l (h.booked st) h.clean .malformed
  rw [answerStart, HostPake.respond]
  split
  · exact hrejects
  · refine wp_call fun r => ?_
    rcases r with e | ⟨pb, party⟩
    · exact hrejects
    · refine wp_call fun r => ?_
      rcases r with e | output
      · exact hrejects
      · exact wp_recordAttempt h fun l codes st' hc hbooks hb => wp_sendReply _ _ _ hbooks hb hc

theorem wp_attempt {fuel : Nat} {cfg : HostConfig} (h : l.Opening) :
    (attempt C fuel cfg st).wp watch (Accounts st) l := by
  refine wp_call fun t => ?_
  have hopening : (l.next ⟨.now, t⟩).Opening := h.clock t
  have hb := hopening.booked st
  split
  · refine wp_call fun r => ?_
    rw [next_relay (by simp [PakeMsg.index])]
    cases r with
    | error e => exact ⟨hb, trivial⟩
    | ok u =>
        let l' : Ledger := { l with clock := t }
        exact wp_kicks (l'.send (relayOf _)) hb (hopening.clean.relayed _) .waitRequired
  · have hrejects := wp_rejects _ hb hopening.clean .malformed
    refine wp_recvRelay _ (fun e => ⟨hb, trivial⟩) ⟨hb, hopening.clean.kick⟩ fun r hr => ?_
    cases r with
    | msg m =>
        cases m with
        | start pa => exact wp_answerStart hopening pa
        | _ => exact hrejects
    | malformed => exact hrejects
    | left => exact absurd rfl hr
    | timedOut => exact wp_kicks _ hb hopening.clean (.timeout .pake)

end Ledger

theorem attempt_accounts {fuel : Nat} {cfg : HostConfig} {st : HostState}
    {tr : List (Ev HostSig)} {r : ServeResult × HostState}
    (h : Exec (attempt C fuel cfg st) tr r) : Accounts st (tally tr) r := by
  have hvalid (l : Ledger) (tr : List (Ev HostSig)) : Ledger.watch.Valid l tr := by
    induction tr generalizing l with
    | nil => trivial
    | cons e tr ih => exact ⟨trivial, ih _⟩
  exact (wp_exec (Ledger.wp_attempt ⟨⟨rfl, by simp [Ledger.start]⟩, rfl⟩) h (hvalid _ _)).2

theorem sample_attempt_accounts :
    Accounts .sample (tally sampleSession.tail) (.ok (.session sampleServed), .sample) := by
  have hsession : Exec (attempt .sample 4 .sample .sample) sampleSession.tail
      (.ok (.session sampleServed), .sample) := exec_of_replay (by decide +kernel)
  exact attempt_accounts hsession

end SimpleRemote
