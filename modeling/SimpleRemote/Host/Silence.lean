import SimpleRemote.Host.Gate
import SimpleRemote.Transport.Queue

namespace SimpleRemote
open ByteCodec Interaction

variable {C : Crypto}

def sendsDecision : Op HostToServer → Bool
  | .peerSend data =>
      match Control.decode data with
      | .ok (.decision _) => true
      | _ => false
  | _ => false

def beforeDecision (tr : List (Ev HostSig)) : List (Ev HostSig) :=
  tr.takeWhile fun e => !sendsDecision e.op

def beforeApproval (tr : List (Ev HostSig)) : List (Ev HostSig) :=
  tr.takeWhile fun e => !e.op.isApprove

def firstAnswer (tr : List (Ev HostSig)) : Option (Option Bool) := (asked tr).head?.map Prod.snd

-- what the channel has absorbed beyond the first payload, which a viewer sends as its Hello
def further (ch : Channel) (tr : List (Ev HostSig)) : List Bytes :=
  (ch.pending ++ Channel.polled tr).tail

structure Refused (tr : List (Ev HostSig)) (outcome : ServeOutcome) : Prop where
  session : ∀ s, outcome ≠ .session s
  accepted : ∀ e ∈ tr, e.op ≠ .peerSend (Control.encode (.decision .accepted))

theorem sendsDecision_accepted :
    sendsDecision (.peerSend (Control.encode (.decision .accepted))) = true := by
  have hdecode := Control.decode_encode (.decision .accepted)
  rw [if_neg (by decide)] at hdecode
  rw [sendsDecision, hdecode]

theorem sendsDecision_hello (hello : Hello) :
    sendsDecision (.peerSend (Control.encode (.hello hello))) = false := by
  have hdecode := Control.decode_encode (.hello hello)
  rw [sendsDecision]
  split at hdecode
  · rw [hdecode]
  · rw [hdecode]

theorem sendsDecision_of_waiting {o : Op HostToServer} (h : o.waiting = true) :
    sendsDecision o = false := by
  cases o <;> first | rfl | cases h

def isAcceptance (o : Op HostToServer) : Prop :=
  o = .peerSend (Control.encode (.decision .accepted))

theorem acceptance_calm (st : HostState) : Calm isAcceptance isSession st where
  now := by simp [isAcceptance]
  recv := by simp [isAcceptance]
  kick := by simp [isAcceptance]
  retryAfter := by simp [isAcceptance]
  rejected := by simp [isAcceptance]
  partyBStart := by simp [isAcceptance]
  finish := by simp [isAcceptance]
  error := by simp [isSession]
  failed := by simp [isSession]
  left := by simp [isSession]
  waiting := fun _ hwaiting haccepted => not_decisive_of_waiting hwaiting (.inr haccepted)
  peerNew := by simp [isAcceptance]
  acceptOffer := by simp [isAcceptance]
  localFp := by simp [isAcceptance]
  remoteFp := by simp [isAcceptance]
  send := fun _ hne haccepted => not_decisive_send hne (.inr haccepted)

theorem waitApprovalLoop_granted {fuel n : Nat} {req : ApprovalRequest} {deadline : Instant}
    {ch ch' : Channel} {tr : List (Ev HostSig)}
    (h : Exec (waitApprovalLoop fuel req deadline n ch) tr (.granted, ch')) :
    tr = [⟨.approve req, some true⟩] ∨
      ((∃ tr', tr = ⟨.approve req, none⟩ :: tr') ∧ ch.pending = [] ∧ Channel.polled tr = []) := by
  induction n generalizing ch tr with
  | zero => exact absurd h exec_halt
  | succ n ih =>
      rw [waitApprovalLoop] at h
      obtain ⟨answer, tr₁, rfl, h₁⟩ := exec_call_bind.mp h
      rcases answer with _ | (_ | _)
      case some.true =>
        obtain ⟨rfl, -⟩ := exec_ret.mp h₁
        exact .inl rfl
      case some.false => simp at h₁
      case none =>
        obtain ⟨now, tr₂, rfl, h₂⟩ := exec_call_bind.mp h₁
        split at h₂
        · simp at h₂
        obtain ⟨tr₃, ⟨r, ch₁⟩, tr₄, rfl, hnext, h₃⟩ := exec_bind.mp h₂
        rcases r with e | (c | _ | _ | _)
        case ok.timedOut =>
          have hempty := (Channel.next_empties hnext fun n hn => by cases hn; rfl).1
          have hkept : ch.pending ++ Channel.polled tr₃ = [] := by
            rcases Channel.next_pops hnext with ⟨data, -, hdecodes⟩ | ⟨hsame, -⟩
            · have hdecoded := decoded_decodes data
              rw [← Except.ok.inj hdecodes] at hdecoded
              cases hdecoded
            · rw [hsame, hempty]
          obtain ⟨hpending, hpolled⟩ := List.append_eq_nil_iff.mp hkept
          have hrest : Channel.polled tr₄ = [] := by
            rcases ih h₃ with rfl | ⟨-, -, hrest⟩
            · rfl
            · exact hrest
          refine .inr ⟨⟨_, rfl⟩, hpending, ?_⟩
          calc Channel.polled (⟨.approve req, none⟩ :: ⟨.now, now⟩ :: (tr₃ ++ tr₄))
              = Channel.polled (tr₃ ++ tr₄) := rfl
            _ = [] := by rw [Channel.polled_append, hpolled, hrest, List.append_nil]
        all_goals simp at h₃

structure Quiet (tr : List (Ev HostSig)) : Prop where
  decision : ∀ e ∈ tr, sendsDecision e.op = false
  approval : ∀ e ∈ tr, e.op.isApprove = false

theorem Quiet.append {tr tr' : List (Ev HostSig)} (h : Quiet tr) (h' : Quiet tr') :
    Quiet (tr ++ tr') :=
  ⟨List.forall_mem_append.mpr ⟨h.decision, h'.decision⟩,
    List.forall_mem_append.mpr ⟨h.approval, h'.approval⟩⟩

theorem quiet_waits {α : Type} {p q : HostM α} {tr : List (Ev HostSig)} (hp : Waits p)
    (h : Path p tr q) : Quiet tr :=
  ⟨fun e he => sendsDecision_of_waiting ((hp.path h).1 e he),
    fun e he => isApprove_of_waiting ((hp.path h).1 e he)⟩

theorem quiet_single {e : Ev HostSig} (hdecision : sendsDecision e.op = false)
    (happroval : e.op.isApprove = false) : Quiet [e] :=
  ⟨by simpa using hdecision, by simpa using happroval⟩

structure Heard (ch : Channel) where
  pre : List (Ev HostSig)
  quiet : Quiet pre
  hello : Bytes
  heard : Channel
  absorbed : ch.pending ++ Channel.polled pre = hello :: heard.pending

theorem handshake_asks {P : Op HostToServer → Prop} {R : ServeResult × HostState → Prop}
    {fuel : Nat} {cfg : HostConfig} {st : HostState} {sk : SessionKeys} {ch : Channel}
    {tr : List (Ev HostSig)} {q : HostM (ServeResult × HostState)} (L : Calm P R st)
    (h : Path (handshake C fuel cfg st sk ch >>= finishAttempt) tr q) (hh : Hits P R tr q) :
    ∃ (g : Heard ch) (viewer : PeerIdentity) (rest : List (Ev HostSig)), tr = g.pre ++ rest ∧
      Path (askApproval C fuel cfg st viewer g.heard >>= finishAttempt) rest q ∧
      Hits P R rest q := by
  obtain ⟨start, tr₁, opened, tr₂, rfl, hopen, h₁, hh₁⟩ := handshake_hits L h hh
  obtain ⟨localFp, remoteFp, helloAt, tr₃, viewerHello, heard, rest, rfl, hnext, h₂, hh₂⟩ :=
    exchangeHello_hits L h₁ hh₁
  obtain ⟨viewer, -, -, h₃⟩ := judgeHello_hits L h₂ hh₂
  have hopened : ch.pending ++ Channel.polled tr₁ = opened.pending :=
    (Channel.waitOpen_keeps hopen).symm
  have hheard : ∃ hello, opened.pending ++ Channel.polled tr₃ = hello :: heard.pending := by
    rcases Channel.next_pops hnext with ⟨hello, hpopped, -⟩ | ⟨-, hnone⟩
    · exact ⟨hello, hpopped⟩
    · cases hnone _ rfl
  obtain ⟨hello, hhello⟩ := hheard
  let mine : List (Ev HostSig) := [⟨.localFingerprint, localFp⟩,
    ⟨.remoteFingerprint, some remoteFp⟩,
    ⟨.peerSend (Control.encode (.hello (hostHello C cfg sk localFp remoteFp))), .ok ()⟩,
    ⟨.now, helloAt⟩]
  have hmine : Quiet mine :=
    ⟨by simpa [mine, sendsDecision_hello] using ⟨rfl, rfl, rfl⟩, by simp [mine, Op.isApprove]⟩
  have hquiet : Quiet ([⟨.now, start⟩] ++ tr₁ ++ mine ++ tr₃) :=
    (((quiet_single rfl rfl).append (quiet_waits (Channel.waitOpen_uses _ _ _) hopen)).append
      hmine).append (quiet_waits (Channel.next_uses _ _ _) hnext)
  have hpolled : Channel.polled ([⟨.now, start⟩] ++ tr₁ ++ mine ++ tr₃) =
      Channel.polled tr₁ ++ Channel.polled tr₃ := by
    have hnow : Channel.polled ([⟨.now, start⟩] : List (Ev HostSig)) = [] := rfl
    have hsilent : Channel.polled mine = [] := rfl
    simp only [Channel.polled_append, hnow, hsilent, List.nil_append, List.append_nil]
  refine ⟨⟨_, hquiet, hello, heard, ?_⟩, viewer, rest, ?_, h₃, hh₂⟩
  · rw [hpolled, ← List.append_assoc, hopened, hhello]
  · simp [mine]

theorem finishAttempt_ne {r : ServeOutcome × HostState} {o : Op HostToServer}
    {k : HostSig.Res o → HostM (ServeResult × HostState)} (ho : o ≠ .linkSend .kick) :
    finishAttempt r ≠ .act o k := by
  obtain ⟨outcome, st⟩ := r
  intro h
  cases outcome with
  | failed f => exact ho (Prog.act.inj h).1.symm
  | _ => cases h

theorem finishAttempt_call {r : ServeOutcome × HostState} {o : Op HostToServer}
    {k : HostSig.Res o → HostM (ServeResult × HostState)} {tr : List (Ev HostSig)}
    (ho : o ≠ .linkSend .kick) (h : Path (Prog.call o >>= k) tr (finishAttempt r)) :
    ∃ a tr', tr = ⟨o, a⟩ :: tr' ∧ Path (k a) tr' (finishAttempt r) := by
  rcases path_call h with ⟨-, hq⟩ | hnext
  · exact absurd hq (finishAttempt_ne ho)
  · exact hnext

theorem accept_sends {st : HostState} {viewer : PeerIdentity} {ch : Channel}
    {tr : List (Ev HostSig)} {r : ServeOutcome × HostState}
    (h : Path (accept st viewer ch >>= finishAttempt) tr (finishAttempt r)) :
    ∃ sent tr', tr = ⟨.peerSend (Control.encode (.decision .accepted)), sent⟩ :: tr' := by
  rw [accept, Prog.bind_assoc] at h
  obtain ⟨sent, tr', rfl, -⟩ := finishAttempt_call (by simp) h
  exact ⟨sent, tr', rfl⟩

theorem takeWhile_stops {tr rest : List (Ev HostSig)} {e : Ev HostSig}
    {p : Ev HostSig → Bool} (htr : ∀ e ∈ tr, p e = true) (he : p e = false) :
    (tr ++ e :: rest).takeWhile p = tr := by
  rw [List.takeWhile_append_of_pos htr, List.takeWhile_cons_of_neg (by simp [he]), List.append_nil]

namespace Heard
variable {ch : Channel}

theorem further_eq (g : Heard ch) (waited : List (Ev HostSig)) :
    further ch (g.pre ++ waited) = g.heard.pending ++ Channel.polled waited := by
  rw [further, Channel.polled_append, ← List.append_assoc, g.absorbed]
  rfl

theorem firstAnswer_eq (g : Heard ch) (start : Instant) (req : ApprovalRequest)
    (answer : Option Bool) (rest : List (Ev HostSig)) :
    firstAnswer (g.pre ++ ⟨.now, start⟩ :: ⟨.approve req, answer⟩ :: rest) = some answer := by
  rw [firstAnswer, asked_append, asked_eq_nil g.quiet.approval]
  rfl

theorem beforeApproval_eq (g : Heard ch) (start : Instant) (req : ApprovalRequest)
    (answer : Option Bool) (rest : List (Ev HostSig)) :
    beforeApproval (g.pre ++ ⟨.now, start⟩ :: ⟨.approve req, answer⟩ :: rest) =
      g.pre ++ [⟨.now, start⟩] := by
  have hquiet : Quiet (g.pre ++ [⟨.now, start⟩]) := g.quiet.append (quiet_single rfl rfl)
  rw [List.append_cons, beforeApproval]
  exact takeWhile_stops (fun e he => by simp [hquiet.approval e he]) rfl

theorem beforeDecision_eq (g : Heard ch) {waited : List (Ev HostSig)}
    (hwaited : ∀ e ∈ waited, sendsDecision e.op = false) (sent : Except TransportError Unit)
    (rest : List (Ev HostSig)) :
    beforeDecision (g.pre ++ (waited ++
      ⟨.peerSend (Control.encode (.decision .accepted)), sent⟩ :: rest)) = g.pre ++ waited := by
  have hquiet := List.forall_mem_append.mpr ⟨g.quiet.decision, hwaited⟩
  rw [← List.append_assoc, beforeDecision]
  exact takeWhile_stops (fun e he => by simp [hquiet e he]) (by simp [sendsDecision_accepted])

end Heard

theorem waitApproval_silent {fuel : Nat} {ch : Channel} {req : ApprovalRequest} {limit : Duration}
    {tr : List (Ev HostSig)} {p : HostM (Approval × Channel)}
    (h : Path (waitApproval fuel ch req limit) tr p) : ∀ e ∈ tr, sendsDecision e.op = false := by
  intro e he
  rcases ((waitApproval_uses fuel ch req limit).path h).1 e he with hwaiting | hasks
  · exact sendsDecision_of_waiting hwaiting
  · obtain ⟨o, r⟩ := e
    cases o <;> first | rfl | cases hasks

theorem firstYes_accepts {fuel : Nat} {cfg : HostConfig} {st : HostState} {ch : Channel}
    {viewer : PeerIdentity} {g : Heard ch} {rest : List (Ev HostSig)}
    {r : ServeOutcome × HostState}
    (h : Path (askApproval C fuel cfg st viewer g.heard >>= finishAttempt) rest (finishAttempt r))
    (hfirst : firstAnswer (g.pre ++ rest) = some (some true)) :
    further ch (beforeDecision (g.pre ++ rest)) = further ch (beforeApproval (g.pre ++ rest)) ∧
      ∃ e ∈ g.pre ++ rest, e.op = .peerSend (Control.encode (.decision .accepted)) := by
  rw [askApproval, Prog.bind_assoc, waitApproval, Prog.bind_assoc] at h
  obtain ⟨start, tr₁, rfl, h₁⟩ := finishAttempt_call (by simp) h
  cases fuel with
  | zero =>
      obtain ⟨rfl, -⟩ := path_halt h₁
      rw [firstAnswer, asked_append, asked_eq_nil g.quiet.approval] at hfirst
      cases hfirst
  | succ n =>
      rw [waitApprovalLoop, Prog.bind_assoc] at h₁
      obtain ⟨answer, tr₂, rfl, h₂⟩ := finishAttempt_call (by simp) h₁
      rw [g.firstAnswer_eq] at hfirst
      cases hfirst
      obtain ⟨sent, tr₃, rfl⟩ := accept_sends h₂
      refine ⟨?_, ⟨.peerSend (Control.encode (.decision .accepted)), sent⟩, by simp, rfl⟩
      let waited : List (Ev HostSig) :=
        [⟨.now, start⟩, ⟨.approve (approvalRequest C viewer), some true⟩]
      have hwaited : ∀ e ∈ waited, sendsDecision e.op = false := by
        simp [waited, sendsDecision]
      have hdecision := g.beforeDecision_eq hwaited sent tr₃
      rw [g.beforeApproval_eq, g.further_eq]
      exact (congrArg (further ch) hdecision).trans (g.further_eq _)

theorem speaking_refused {fuel : Nat} {cfg : HostConfig} {st st' : HostState} {sk : SessionKeys}
    {ch : Channel} {tr : List (Ev HostSig)} {outcome : ServeOutcome}
    (h : Exec (handshake C fuel cfg st sk ch) tr (outcome, st')) :
    (further ch (beforeDecision tr) ≠ [] → Refused tr outcome) ↔
      (firstAnswer tr = some (some true) → further ch (beforeApproval tr) = []) := by
  have hpath : Path (handshake C fuel cfg st sk ch >>= finishAttempt) tr
      (finishAttempt (outcome, st')) := Path.bind_left h finishAttempt
  constructor
  · intro hrefused hfirst
    have hasks : Hits isDecisive isSession tr (finishAttempt (outcome, st')) := by
      refine .inl ?_
      by_contra hnone
      have hasked : asked tr = [] := asked_eq_nil fun e he => by
        by_contra happrove
        exact hnone ⟨e, he, .inl (by simpa using happrove)⟩
      rw [firstAnswer, hasked] at hfirst
      cases hfirst
    obtain ⟨g, viewer, rest, rfl, hask, -⟩ :=
      handshake_asks (decisive_silent st).toCalm hpath hasks
    obtain ⟨hsame, e, he, haccepted⟩ := firstYes_accepts hask hfirst
    by_contra hfurther
    rw [← hsame] at hfurther
    exact (hrefused hfurther).accepted e he haccepted
  · intro hfirst hfurther
    have hnever : ¬ Hits isAcceptance isSession tr (finishAttempt (outcome, st')) := by
      intro hhits
      obtain ⟨g, viewer, rest, rfl, hask, hh⟩ := handshake_asks (acceptance_calm st) hpath hhits
      obtain ⟨waited, heard, rest, rfl, hgranted, haccept, -⟩ :=
        askApproval_hits (acceptance_calm st) (by simp [isAcceptance]) hask hh
      obtain ⟨sent, tr', rfl⟩ := accept_sends haccept
      rw [g.beforeDecision_eq (waitApproval_silent hgranted), g.further_eq] at hfurther
      obtain ⟨start, looped, rfl, hloop⟩ := exec_call_bind.mp hgranted
      rcases waitApprovalLoop_granted hloop with rfl | ⟨-, hpending, hpolled⟩
      · have hsilent := hfirst (g.firstAnswer_eq start _ _ _)
        rw [List.cons_append, List.cons_append, g.beforeApproval_eq, g.further_eq] at hsilent
        exact hfurther hsilent
      · refine hfurther ?_
        rw [hpending]
        exact hpolled
    exact ⟨fun s hs => hnever (.inr ⟨(.ok (.session s), st'), by rw [hs]; rfl, trivial⟩),
      fun e he haccepted => hnever (.inl ⟨e, he, haccepted⟩)⟩

def sampleGreeted (early : List PeerEvent) : List (Ev HostSig) :=
  [⟨.now, 12⟩, ⟨.now, 12⟩, ⟨.poll (Duration.fromSecs 10), .ok [.channelOpen]⟩,
    ⟨.localFingerprint, [1]⟩, ⟨.remoteFingerprint, some [2]⟩,
    ⟨.peerSend (Control.encode (.hello (hostHello .sample .sample sampleKeys [1] [2]))), .ok ()⟩,
    ⟨.now, 13⟩, ⟨.now, 13⟩,
    ⟨.poll (Duration.fromSecs 15), .ok (.data (Control.encode (.hello sampleHello)) :: early)⟩,
    ⟨.now, 14⟩]

def sampleAsked (answer : Option Bool) : Ev HostSig :=
  ⟨.approve (approvalRequest .sample ((DeviceKeys.sample 9 'v' viewer_name).identity .sample)), answer⟩

def sampleTalk (early : List PeerEvent) : List (Ev HostSig) :=
  sampleGreeted early ++ [sampleAsked (some true),
    ⟨.peerSend (Control.encode (.decision .accepted)), .ok ()⟩, ⟨.generateCode, .sample⟩]

def earlyPing : List PeerEvent := [.data (Control.encode (.ping 0))]

-- the person has not answered yet, so that the ping is read first
def sampleSpoken : List (Ev HostSig) :=
  sampleGreeted earlyPing ++ [sampleAsked none, ⟨.now, 15⟩, ⟨.peerClose, ()⟩, ⟨.poll 0, .ok []⟩]

theorem sample_spoken : Exec (handshake .sample 5 .sample .sample sampleKeys .new) sampleSpoken
    (.failed .malformed, HostState.sample) :=
  exec_of_replay (by decide +kernel)

theorem sample_speaking_refused : Refused sampleSpoken (.failed .malformed) := by
  have hfurther : further .new (beforeDecision sampleSpoken) ≠ [] := by decide +kernel
  have hunanswered : firstAnswer sampleSpoken = some none := rfl
  refine (speaking_refused sample_spoken).mpr (fun hfirst => ?_) hfurther
  rw [hunanswered] at hfirst
  cases hfirst

def sampleEager : HostSession :=
  { sampleServed with ch := { sampleServed.ch with pending := [Control.encode (.ping 0)] } }

theorem early_message_accepted :
    Exec (handshake .sample 5 .sample .sample sampleKeys .new) (sampleTalk earlyPing)
        (.session sampleEager, HostState.sample) ∧
      ¬ (further .new (beforeDecision (sampleTalk earlyPing)) ≠ [] →
        Refused (sampleTalk earlyPing) (.session sampleEager)) := by
  refine ⟨exec_of_replay (by decide +kernel), fun hrefused => ?_⟩
  have hfurther : further .new (beforeDecision (sampleTalk earlyPing)) ≠ [] := by decide +kernel
  exact (hrefused hfurther).session sampleEager rfl

end SimpleRemote
