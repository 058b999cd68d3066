import SimpleRemote.Meeting.Setting
import SimpleRemote.Transport.Waiting

namespace SimpleRemote
open ByteCodec Interaction

-- how far the host has come; `got` is what its peer handed out and `said` what `approve` answered
inductive HostAt where
  | idle (skipped : List ServerToHost)
  | joined
  | waiting (wait : Duration)
  | refusing (wait : Duration)
  | refused (wait : Duration)
  | ready
  | started
  | chosen
  | responding
  | replied
  | left
  | confirmed
  | verified
  | peered
  | accepted
  | linked (got : List PeerEvent)
  | greeted (got : List PeerEvent) (said : List (Option Bool))
  | decided (d : Decision) (got : List PeerEvent) (said : List (Option Bool))
  | closing (d : Decision) (said : List (Option Bool))
  | dismissed (d : Decision) (said : List (Option Bool))

def silent (said : List (Option Bool)) : Prop := ∀ a ∈ said, a = none

namespace Setting
variable (W : Setting)

def heardViewer : PeerEvent := .data (Control.encode (.hello W.viewerHello))

-- the decision the host owes after the answers `said`
inductive Owes : List (Option Bool) → Decision → Prop
  | version (h : PROTOCOL_VERSION ≠ W.hostCfg.protocolVersion) :
      Owes [] (.rejected (.versionMismatch W.hostCfg.protocolVersion))
  | accepted {said} (h : PROTOCOL_VERSION = W.hostCfg.protocolVersion) (hs : silent said) :
      Owes (said ++ [some true]) .accepted
  | denied {said} (h : PROTOCOL_VERSION = W.hostCfg.protocolVersion) (hs : silent said) :
      Owes (said ++ [some false]) (.rejected .denied)
  | noResponse {said} (h : PROTOCOL_VERSION = W.hostCfg.protocolVersion) (hs : silent said) :
      Owes said (.rejected .noResponse)

def request : ApprovalRequest := approvalRequest W.C W.viewer

-- what the host does next, and what it may be answered
inductive HostMove : HostAt → Ev HostSig → HostAt → Prop
  | skip (t) {skipped m rest} (h : W.stale = skipped ++ m :: rest) :
      HostMove (.idle skipped) ⟨.linkRecv t, .ok (some m)⟩ (.idle (skipped ++ [m]))
  | join (t) : HostMove (.idle W.stale) ⟨.linkRecv t, .ok (some .viewerJoined)⟩ .joined
  | ready {now : Instant} (h : W.st.limiter.check now = .ok ()) : HostMove .joined ⟨.now, now⟩ .ready
  | waiting {now : Instant} {wait} (h : W.st.limiter.check now = .error wait) :
      HostMove .joined ⟨.now, now⟩ (.waiting wait)
  | refuse (wait) : HostMove (.waiting wait)
      ⟨.linkSend (relayOf (.retryAfter (retryAfterMs wait))), .ok ()⟩ (.refusing wait)
  | kickRefused (wait) : HostMove (.refusing wait) ⟨.linkSend .kick, .ok ()⟩ (.refused wait)
  | started (t) : HostMove .ready ⟨.linkRecv t, .ok (some (.relay (relayText W.start)))⟩ .started
  | choose : HostMove .started
      ⟨.partyBStart W.hostScalar VIEWER_ID (hostIdBytes W.hostCfg.hostId) AAD,
        .ok (W.spake.startB W.hostInput)⟩ .chosen
  | finish : HostMove .chosen
      ⟨.finish (W.spake.startB W.hostInput).2 (W.spake.startA W.viewerInput).1,
        .ok W.hostOutput⟩ .responding
  | nowResponding (now : Instant) : HostMove .responding ⟨.now, now⟩ .responding
  | newCode (code) : HostMove .responding ⟨.generateCode, code⟩ .responding
  | reply : HostMove .responding ⟨.linkSend (relayOf W.reply), .ok ()⟩ .replied
  | left (t) : HostMove .replied ⟨.linkRecv t, .ok (some .viewerLeft)⟩ .left
  | confirmed (t) (h : W.viewerInput = W.hostInput) :
      HostMove .replied ⟨.linkRecv t, .ok (some (.relay (relayText W.confirm)))⟩ .confirmed
  | verified : HostMove .confirmed
      ⟨.verifyPeerConfirmation W.hostOutput W.viewerOutput.confirmationMac, .ok ()⟩ .verified
  | peer (ips) : HostMove .verified ⟨.peerNew ips, .ok ()⟩ .peered
  | accept : HostMove .peered ⟨.acceptOffer W.offer, .ok W.answer⟩ .accepted
  | answer : HostMove .accepted ⟨.linkSend (relayOf W.answered), .ok ()⟩ (.linked [])
  | nowLinked (got) (now : Instant) : HostMove (.linked got) ⟨.now, now⟩ (.linked got)
  | pollLinked (got) (d : Duration) {es : List PeerEvent}
      (h : got ++ es.filter PeerEvent.carried <+: [W.heardViewer]) :
      HostMove (.linked got) ⟨.poll d, .ok es⟩ (.linked (got ++ es.filter PeerEvent.carried))
  | localFp (got) : HostMove (.linked got) ⟨.localFingerprint, W.hostFp⟩ (.linked got)
  | remoteFp (got) : HostMove (.linked got) ⟨.remoteFingerprint, some W.viewerFp⟩ (.linked got)
  | greet (got) : HostMove (.linked got)
      ⟨.peerSend (Control.encode (.hello W.hello)), .ok ()⟩ (.greeted got [])
  | nowGreeted (got said) (now : Instant) :
      HostMove (.greeted got said) ⟨.now, now⟩ (.greeted got said)
  | pollGreeted (got said) (d : Duration) {es : List PeerEvent}
      (h : got ++ es.filter PeerEvent.carried <+: [W.heardViewer]) :
      HostMove (.greeted got said) ⟨.poll d, .ok es⟩
        (.greeted (got ++ es.filter PeerEvent.carried) said)
  | approve (got said) (h : PROTOCOL_VERSION = W.hostCfg.protocolVersion) (hs : silent said)
      (a : Option Bool) :
      HostMove (.greeted got said) ⟨.approve W.request, a⟩ (.greeted got (said ++ [a]))
  | decide {said d data} (h : W.Owes said d) (hdata : data = Control.encode (.decision d)) :
      HostMove (.greeted [W.heardViewer] said) ⟨.peerSend data, .ok ()⟩
        (.decided d [W.heardViewer] said)
  | nowDecided (d got said) (now : Instant) :
      HostMove (.decided d got said) ⟨.now, now⟩ (.decided d got said)
  | pollDecided (d got said) (t : Duration) {es : List PeerEvent}
      (h : got ++ es.filter PeerEvent.carried <+: [W.heardViewer, .closed]) :
      HostMove (.decided d got said) ⟨.poll t, .ok es⟩
        (.decided d (got ++ es.filter PeerEvent.carried) said)
  | newCodeDecided (d got said) (code) :
      HostMove (.decided d got said) ⟨.generateCode, code⟩ (.decided d got said)
  | close {d got said} (h : d ≠ .accepted) :
      HostMove (.decided d got said) ⟨.peerClose, ()⟩ (.closing d said)
  | pollClosing (d said) (t : Duration) (es : List PeerEvent) :
      HostMove (.closing d said) ⟨.poll t, .ok es⟩ (.closing d said)
  | kick (d said) : HostMove (.closing d said) ⟨.linkSend .kick, .ok ()⟩ (.dismissed d said)

def failureOf : Decision → AttemptFailure
  | .rejected (.versionMismatch _) => .versionMismatch
  | _ => .denied

def hostEnds : HostAt → ServeResult × HostState → Prop
  | .refused _, r => r.1 = .ok (.failed .waitRequired)
  | .left, r => r.1 = .ok (.failed .noConfirm)
  | .decided d _ _, r => d = .accepted ∧ ∃ ch, r.1 = .ok (.session ⟨W.viewer, ch⟩)
  | .dismissed d _, r => r.1 = .ok (.failed (failureOf d))
  | _, _ => False

end Setting

def sendsOk : Ev HostSig → Prop
  | ⟨.linkSend _, r⟩ => r = .ok ()
  | _ => True

def hostTimedOut (r : ServeResult × HostState) : Prop := ∃ stage, r.1 = .ok (.failed (.timeout stage))

-- a wait of the host has run into its deadline: it only closes its peer, kicks and says so
abbrev HostGivesUp (q : HostM (ServeResult × HostState)) : Prop :=
  q.Settles (fun o : Op HostToServer => o.leaving = true) sendsOk hostTimedOut

abbrev HostFollows (W : Setting) (n : Nat) (s : HostAt) (q : HostM (ServeResult × HostState)) : Prop :=
  q.Follows W.HostMove HostGivesUp W.hostEnds n s

-- one more failure fits in the counters of the limiter, which are u32
structure AttemptLimiter.Counts (l : AttemptLimiter) : Prop where
  consecutiveFailures : l.consecutiveFailures + 1 < 2 ^ 32
  failuresOnCode : l.failuresOnCode + 1 < 2 ^ 32

namespace HostMeets
variable {W : Setting} {fuel n : Nat} {s : HostAt} {st : HostState}

theorem failWith_gives_up (ch : Channel) (stage : Stage) :
    HostGivesUp ((do return (← failWith ch (.timeout stage), st)) >>= finishAttempt) := by
  have hclose : (Channel.close ch : HostM Channel).Settles
      (fun o : Op HostToServer => o.leaving = true) sendsOk fun _ => True := by
    rw [Channel.close]
    split
    · trivial
    · exact ⟨rfl, fun _ _ => ⟨rfl, fun _ _ => trivial⟩⟩
  rw [failWith, Prog.bind_assoc, Prog.bind_assoc]
  refine settles_bind hclose fun _ _ => ⟨rfl, fun r hr => ?_⟩
  obtain rfl : r = .ok () := hr
  exact ⟨stage, rfl⟩

-- the channel of a host that waits for the data channel to open
def Linked (W : Setting) (s : HostAt) (ch : Channel) : Prop :=
  ∃ got, s = .linked got ∧ got <+: [W.heardViewer] ∧ ch.Holds got []

-- of one that waits for the viewer's Hello, or for the answer `said` is missing
def Greeted (W : Setting) (said : List (Option Bool)) (popped : List Bytes) (s : HostAt)
    (ch : Channel) : Prop :=
  ∃ got, s = .greeted got said ∧ got <+: [W.heardViewer] ∧ ch.Holds got popped

-- and of one that has sent its decision
def Decided (W : Setting) (d : Decision) (said : List (Option Bool)) (s : HostAt) (ch : Channel) :
    Prop :=
  ∃ got, s = .decided d got said ∧ got <+: [W.heardViewer, .closed] ∧
    ch.Holds got [Control.encode (.hello W.viewerHello)]

theorem linked_foreseen : Channel.Foreseen W.HostMove (Linked W) where
  now s ch h := by
    obtain ⟨got, rfl, hgot, hch⟩ := h
    refine ⟨⟨(0 : Nat), _, .nowLinked got _⟩, fun t s' hm => ?_⟩
    cases hm
    exact ⟨got, rfl, hgot, hch⟩
  poll s ch d h := by
    obtain ⟨got, rfl, hgot, hch⟩ := h
    refine ⟨⟨.ok [], _, .pollLinked got d (by simpa using hgot)⟩, fun r s' hm => ?_⟩
    cases hm with
    | pollLinked _ _ hes => exact ⟨_, rfl, _, rfl, hes, hch.absorb _⟩

theorem greeted_foreseen (said : List (Option Bool)) (popped : List Bytes) :
    Channel.Foreseen W.HostMove (Greeted W said popped) where
  now s ch h := by
    obtain ⟨got, rfl, hgot, hch⟩ := h
    refine ⟨⟨(0 : Nat), _, .nowGreeted got said _⟩, fun t s' hm => ?_⟩
    cases hm
    exact ⟨got, rfl, hgot, hch⟩
  poll s ch d h := by
    obtain ⟨got, rfl, hgot, hch⟩ := h
    refine ⟨⟨.ok [], _, .pollGreeted got said d (by simpa using hgot)⟩, fun r s' hm => ?_⟩
    cases hm with
    | pollGreeted _ _ _ hes => exact ⟨_, rfl, _, rfl, hes, hch.absorb _⟩

theorem decided_foreseen (d : Decision) (said : List (Option Bool)) :
    Channel.Foreseen W.HostMove (Decided W d said) where
  now s ch h := by
    obtain ⟨got, rfl, hgot, hch⟩ := h
    refine ⟨⟨(0 : Nat), _, .nowDecided d got said _⟩, fun t s' hm => ?_⟩
    cases hm
    exact ⟨got, rfl, hgot, hch⟩
  poll s ch t h := by
    obtain ⟨got, rfl, hgot, hch⟩ := h
    refine ⟨⟨.ok [], _, .pollDecided d got said t (by simpa using hgot)⟩, fun r s' hm => ?_⟩
    cases hm with
    | pollDecided _ _ _ _ hes => exact ⟨_, rfl, _, rfl, hes, hch.absorb _⟩

theorem greeted_read {said : List (Option Bool)} {ch : Channel}
    (h : Greeted W said [Control.encode (.hello W.viewerHello)] s ch) :
    s = .greeted [W.heardViewer] said ∧ ch.pending = [] ∧ ch.remoteClosed = false ∧
      ch.Holds [W.heardViewer] [Control.encode (.hello W.viewerHello)] := by
  obtain ⟨got, rfl, hgot, hch⟩ := h
  have hpayloads := hch.pending
  rcases prefix_single hgot with rfl | rfl
  · simp [payloads] at hpayloads
  · simp only [payloads, Setting.heardViewer, List.cons_append, List.nil_append, List.cons.injEq,
      true_and] at hpayloads
    exact ⟨rfl, hpayloads.symm, hch.remoteClosed, hch⟩

theorem decided_read {d : Decision} {said : List (Option Bool)} {ch : Channel}
    (h : Decided W d said s ch) : ch.pending = [] := by
  obtain ⟨got, rfl, hgot, hch⟩ := h
  have hpayloads := hch.pending
  rcases prefix_pair hgot with rfl | rfl | rfl
  · simp [payloads] at hpayloads
  all_goals
    simp only [payloads, Setting.heardViewer, List.cons_append, List.nil_append, List.cons.injEq,
      true_and] at hpayloads
    exact hpayloads.symm

theorem decide_inv {said : List (Option Bool)} {d : Decision} {r : Except TransportError Unit}
    (h : W.HostMove (.greeted [W.heardViewer] said)
      ⟨.peerSend (Control.encode (.decision d)), r⟩ s) :
    r = .ok () ∧ s = .decided d [W.heardViewer] said := by
  cases h with
  | decide howes hdata =>
      obtain rfl := decision_encode_injective hdata
      exact ⟨rfl, rfl⟩

theorem failWith_follows {d : Decision} {said : List (Option Bool)} {ch : Channel}
    (hd : d ≠ .accepted) (h : Decided W d said s ch) :
    HostFollows W n s ((failWith ch (Setting.failureOf d) >>= fun r => pure (r, st)) >>=
      finishAttempt) := by
  obtain ⟨got, rfl, hgot, hch⟩ := h
  rw [failWith, Channel.close, hch.localClosed]
  refine follows_act ⟨(), _, .close hd⟩ fun r s hm => ?_
  cases hm
  refine follows_act ⟨.ok [], _, .pollClosing d said 0 []⟩ fun r s hm => ?_
  cases hm
  refine follows_act ⟨_, _, .kick d said⟩ fun r s hm => ?_
  cases hm
  exact follows_ret rfl

theorem linger_follows {d : Decision} {said : List (Option Bool)} {ch : Channel}
    {deadline : Instant} {m : Nat} (hn : n ≤ fuel) (hm : n ≤ m) (h : Decided W d said s ch) :
    (linger fuel deadline m ch).Follows W.HostMove (fun _ => False) (Decided W d said) n s := by
  cases m with
  | zero =>
      obtain rfl := Nat.le_zero.mp hm
      trivial
  | succ m =>
      rw [linger]
      refine follows_bind (Channel.next_follows (decided_foreseen d said) hn h) fun s₁ r hr => ?_
      obtain ⟨data, rest, ch₁, h₁, hpending, -⟩ | ⟨h₁, -, htimeout | ⟨hclosed, -⟩⟩ := hr
      · rw [decided_read h₁] at hpending
        cases hpending
      · obtain ⟨r, ch₁⟩ := r
        obtain rfl : r = .ok .timedOut := htimeout
        exact follows_ret h₁
      · obtain ⟨r, ch₁⟩ := r
        obtain rfl : r = .ok .closed := hclosed
        exact follows_ret h₁

theorem rejectDecision_follows {reason : RejectReason} {said : List (Option Bool)} {ch : Channel}
    {lingerFor : Duration} (hn : n ≤ fuel) (howes : W.Owes said (.rejected reason))
    (h : Greeted W said [Control.encode (.hello W.viewerHello)] s ch) :
    HostFollows W n s ((rejectDecision fuel ch reason (Setting.failureOf (.rejected reason))
      lingerFor >>= fun r => pure (r, st)) >>= finishAttempt) := by
  obtain ⟨rfl, -, -, hch⟩ := greeted_read h
  rw [rejectDecision]
  refine follows_act ⟨_, _, .decide howes rfl⟩ fun r s hm => ?_
  obtain ⟨rfl, rfl⟩ := decide_inv hm
  have hdecided : Decided W (.rejected reason) said
      (.decided (.rejected reason) [W.heardViewer] said) ch := ⟨_, rfl, ⟨[.closed], rfl⟩, hch⟩
  refine follows_act ⟨(0 : Nat), _, .nowDecided _ _ _ _⟩ fun t s hm => ?_
  cases hm
  change HostFollows W n _ (((linger fuel (t + lingerFor) fuel ch >>= fun ch' =>
    failWith ch' (Setting.failureOf (.rejected reason))) >>= fun r => pure (r, st)) >>=
      finishAttempt)
  rw [Prog.bind_assoc, Prog.bind_assoc]
  refine follows_bind (linger_follows hn hn hdecided) fun s₁ ch₁ h₁ => ?_
  rw [← Prog.bind_assoc]
  exact failWith_follows nofun h₁

theorem accept_follows {said : List (Option Bool)} {ch : Channel} (howes : W.Owes said .accepted)
    (h : Greeted W said [Control.encode (.hello W.viewerHello)] s ch) :
    HostFollows W n s (accept st W.viewer ch >>= finishAttempt) := by
  obtain ⟨rfl, -, -, hch⟩ := greeted_read h
  rw [accept]
  refine follows_act ⟨_, _, .decide howes rfl⟩ fun r s hm => ?_
  obtain ⟨rfl, rfl⟩ := decide_inv hm
  refine follows_act ⟨W.st.code, _, .newCodeDecided _ _ _ _⟩ fun code s hm => ?_
  cases hm
  exact follows_ret ⟨rfl, ch, rfl⟩

def judged : Approval → Decision → Prop
  | .granted, d => d = .accepted
  | .denied, d => d = .rejected .denied
  | .noResponse, d => d = .rejected .noResponse
  | .failed _, _ => False

def Approved (W : Setting) (s : HostAt) (r : Approval × Channel) : Prop :=
  ∃ said d, W.Owes said d ∧ judged r.1 d ∧
    Greeted W said [Control.encode (.hello W.viewerHello)] s r.2

theorem waitApproval_follows (hversion : PROTOCOL_VERSION = W.hostCfg.protocolVersion)
    {said : List (Option Bool)} (hsaid : silent said) {ch : Channel} {deadline : Instant} {m : Nat}
    (hn : n ≤ fuel) (hm : n ≤ m)
    (h : Greeted W said [Control.encode (.hello W.viewerHello)] s ch) :
    (waitApprovalLoop fuel W.request deadline m ch).Follows W.HostMove (fun _ => False)
      (Approved W) n s := by
  induction m generalizing n s said ch with
  | zero =>
      obtain rfl := Nat.le_zero.mp hm
      trivial
  | succ m ih =>
      cases n with
      | zero => trivial
      | succ n =>
          obtain ⟨rfl, -, -, hch⟩ := greeted_read h
          rw [waitApprovalLoop]
          refine follows_step ⟨none, _, .approve _ _ hversion hsaid _⟩ fun a s hmove => ?_
          cases hmove
          have h₁ : Greeted W (said ++ [a]) [Control.encode (.hello W.viewerHello)]
              (.greeted [W.heardViewer] (said ++ [a])) ch := ⟨_, rfl, List.prefix_rfl, hch⟩
          rcases a with _ | b
          · have hsilent : silent (said ++ [none]) := by
              simpa [silent, or_imp, forall_and] using hsaid
            refine follows_call ⟨(0 : Nat), _, .nowGreeted _ _ _⟩ fun t s hmove => ?_
            cases hmove
            split
            · exact follows_ret ⟨_, _, .noResponse hversion hsilent, rfl, h₁⟩
            have hI := greeted_foreseen (W := W) (said ++ [none])
              [Control.encode (.hello W.viewerHello)]
            refine follows_bind (Channel.next_follows hI (by omega) h₁) fun s₂ r hr => ?_
            obtain ⟨data, rest, ch₂, h₂, hpending, -⟩ | ⟨h₂, -, htimeout | ⟨-, hclosed⟩⟩ := hr
            · rw [(greeted_read h₂).2.1] at hpending
              cases hpending
            · obtain ⟨r, ch₂⟩ := r
              obtain rfl : r = .ok .timedOut := htimeout
              exact ih hsilent (by omega) (by omega) h₂
            · rw [(greeted_read h₂).2.2.1] at hclosed
              cases hclosed
          · cases b with
            | true => exact follows_ret ⟨_, _, .accepted hversion hsaid, rfl, h₁⟩
            | false => exact follows_ret ⟨_, _, .denied hversion hsaid, rfl, h₁⟩

theorem askApproval_follows (hversion : PROTOCOL_VERSION = W.hostCfg.protocolVersion)
    {ch : Channel} (hn : n ≤ fuel)
    (h : Greeted W [] [Control.encode (.hello W.viewerHello)] s ch) :
    HostFollows W n s (askApproval W.C fuel W.hostCfg st W.viewer ch >>= finishAttempt) := by
  obtain ⟨rfl, -, -, hch⟩ := greeted_read h
  rw [askApproval, waitApproval, Prog.bind_assoc, Prog.bind_assoc]
  refine follows_call ⟨(0 : Nat), _, .nowGreeted _ _ _⟩ fun t s hm => ?_
  cases hm
  refine follows_bind (waitApproval_follows hversion (by simp [silent]) hn hn h) fun s₁ r hr => ?_
  obtain ⟨a, ch₁⟩ := r
  obtain ⟨said, d, howes, hjudged, h₁⟩ := hr
  cases a with
  | granted =>
      obtain rfl : d = .accepted := hjudged
      exact accept_follows howes h₁
  | denied =>
      obtain rfl : d = .rejected .denied := hjudged
      exact rejectDecision_follows hn howes h₁
  | noResponse =>
      obtain rfl : d = .rejected .noResponse := hjudged
      exact rejectDecision_follows hn howes h₁
  | failed f => exact hjudged.elim

theorem hello_read {ch : Channel} {data : Bytes} {rest : List Bytes} (h : Greeted W [] [] s ch)
    (hpending : ch.pending = data :: rest) :
    data = Control.encode (.hello W.viewerHello) ∧
      Greeted W [] [Control.encode (.hello W.viewerHello)] s { ch with pending := rest } := by
  obtain ⟨got, rfl, hgot, hch⟩ := h
  have hpayloads := hch.pending
  rw [hpending] at hpayloads
  rcases prefix_single hgot with rfl | rfl
  · simp [payloads] at hpayloads
  · simp only [payloads, Setting.heardViewer, List.nil_append, List.cons.injEq] at hpayloads
    obtain ⟨rfl, rfl⟩ := hpayloads
    exact ⟨rfl, _, rfl, hgot, rfl, hch.remoteClosed, hch.localClosed⟩

theorem not_closed {said : List (Option Bool)} {popped : List Bytes} {ch : Channel}
    (h : Greeted W said popped s ch) : ch.remoteClosed = false := by
  obtain ⟨got, rfl, hgot, hch⟩ := h
  rcases prefix_single hgot with rfl | rfl <;> exact hch.remoteClosed

theorem judgeHello_follows (ideal : W.Ideal) (hsame : W.viewerInput = W.hostInput) {ch : Channel}
    (hn : n ≤ fuel) (h : Greeted W [] [Control.encode (.hello W.viewerHello)] s ch) :
    HostFollows W n s (judgeHello W.C fuel W.hostCfg st W.hostKeys W.hostFp W.viewerFp W.viewerHello
      ch >>= finishAttempt) := by
  rw [judgeHello, ideal.hears_viewer hsame]
  dsimp only
  split
  · rename_i hversion
    exact rejectDecision_follows hn (.version hversion) h
  · rename_i hversion
    exact askApproval_follows (not_not.mp hversion) hn h

theorem exchangeHello_follows (ideal : W.Ideal) (hsame : W.viewerInput = W.hostInput)
    {ch : Channel} (hn : n ≤ fuel) (h : Linked W s ch) :
    HostFollows W n s (exchangeHello W.C fuel W.hostCfg st W.hostKeys ch >>= finishAttempt) := by
  obtain ⟨got, rfl, hgot, hch⟩ := h
  rw [exchangeHello, Prog.bind_assoc]
  refine follows_call ⟨_, _, .localFp got⟩ fun r s hm => ?_
  cases hm
  refine follows_act ⟨_, _, .remoteFp got⟩ fun r s hm => ?_
  cases hm
  refine follows_act ⟨_, _, .greet got⟩ fun r s hm => ?_
  cases hm
  have hI := greeted_foreseen (W := W) [] []
  have h : Greeted W [] [] (.greeted got []) ch := ⟨got, rfl, hgot, hch⟩
  obtain ⟨hallow, hnow⟩ := hI.now _ ch h
  refine follows_act hallow fun t s₁ hm => ?_
  change HostFollows W n s₁ ((ch.next (t + W.hostCfg.timeouts.signalingStep) fuel >>= _) >>=
    finishAttempt)
  rw [Prog.bind_assoc]
  refine follows_bind (Channel.next_follows hI hn (hnow t s₁ hm)) fun s₂ r hr => ?_
  obtain ⟨data, rest, ch₂, h₂, hpending, rfl⟩ | ⟨h₂, hpending, htimeout | ⟨-, hclosed⟩⟩ := hr
  · obtain ⟨rfl, h₃⟩ := hello_read h₂ hpending
    have hdecode : Control.decode (Control.encode (.hello W.viewerHello)) =
        .ok (.hello W.viewerHello) := decode_hello PROTOCOL_VERSION
    rw [decodes, hdecode]
    exact judgeHello_follows ideal hsame hn h₃
  · obtain ⟨r, ch₂⟩ := r
    obtain rfl : r = .ok .timedOut := htimeout
    exact follows_given_up (failWith_gives_up ch₂ .hello)
  · rw [not_closed h₂] at hclosed
    cases hclosed

theorem handshake_follows (ideal : W.Ideal) (hsame : W.viewerInput = W.hostInput)
    {ch : Channel} (hn : n ≤ fuel) (h : Linked W s ch) :
    HostFollows W n s (handshake W.C fuel W.hostCfg st W.hostKeys ch >>= finishAttempt) := by
  rw [handshake, Prog.bind_assoc]
  obtain ⟨hallow, hnow⟩ := (linked_foreseen (W := W)).now s ch h
  refine follows_call hallow fun t s₁ hm => ?_
  rw [Prog.bind_assoc]
  refine follows_bind (Channel.waitOpen_follows linked_foreseen hn (hnow t s₁ hm)) fun s₂ r hr => ?_
  obtain ⟨r, ch₂⟩ := r
  obtain ⟨h₂, hready | htimeout | ⟨-, hremote⟩⟩ := hr
  · obtain rfl : r = .ok .ready := hready
    exact exchangeHello_follows ideal hsame hn h₂
  · obtain rfl : r = .ok .timedOut := htimeout
    exact follows_given_up (failWith_gives_up ch₂ .connect)
  · obtain ⟨got, rfl, hgot, hch⟩ := h₂
    have hcontains := hch.remoteClosed
    rw [show ch₂.remoteClosed = true from hremote] at hcontains
    rcases prefix_single hgot with rfl | rfl <;> cases hcontains

theorem confirmed_follows (ideal : W.Ideal) (hsame : W.viewerInput = W.hostInput) (hn : n ≤ fuel) :
    HostFollows W n .verified (confirmed W.C fuel W.hostCfg st W.hostKeys W.sealedOffer) := by
  rw [confirmed, ideal.opens_offer hsame]
  dsimp only
  rw [answerOffer]
  refine follows_call ⟨_, _, .peer _⟩ fun r s hm => ?_
  cases hm
  refine follows_call ⟨_, _, .accept⟩ fun r s hm => ?_
  cases hm
  have hseal : W.hostKeys.hostSide.1.seal W.C (utf8 W.answer) =
      some (W.sealedAnswer, ⟨W.hostKeys.hostToViewer, labelH2v, 1⟩) := rfl
  dsimp only
  rw [hseal]
  dsimp only
  rw [sendAnswer, sendRelay]
  refine follows_call ⟨_, _, .answer⟩ fun r s hm => ?_
  cases hm
  exact handshake_follows ideal hsame hn ⟨[], rfl, List.nil_prefix, Channel.holds_new⟩

theorem awaitConfirm_follows (ideal : W.Ideal) (hn : n ≤ fuel) :
    HostFollows W n .replied (awaitConfirm W.C fuel W.hostCfg st ⟨W.hostOutput⟩) := by
  rw [awaitConfirm, recvRelay, Prog.bind_assoc]
  refine follows_call ⟨_, _, .left _⟩ fun r s hm => ?_
  cases hm with
  | left t => exact follows_ret rfl
  | confirmed t hsame =>
      have hdecode := host_decodes ideal.confirm_fits
      change HostFollows W n .confirmed ((pure (.ok (decodeRelay (relayText W.confirm))) :
        HostM (Except LinkError Relay)) >>= _)
      rw [hdecode]
      change HostFollows W n .confirmed (judgeConfirm W.C fuel W.hostCfg st ⟨W.hostOutput⟩
        W.viewerOutput.confirmationMac.val W.sealedOffer)
      have hmac : toMac W.viewerOutput.confirmationMac.val = .ok W.viewerOutput.confirmationMac := by
        rw [toMac, toArr_val]
      rw [judgeConfirm, HostPake.confirm, hmac]
      refine follows_act ⟨_, _, .verified⟩ fun r s hm => ?_
      cases hm
      exact confirmed_follows ideal hsame hn

theorem recordAttempt_follows (hcounts : W.st.limiter.Counts)
    {f : HostState → HostM (ServeResult × HostState)}
    (hf : ∀ st, HostFollows W n .responding (f st)) :
    HostFollows W n .responding (recordAttempt W.st >>= f) := by
  rw [recordAttempt, Prog.bind_assoc]
  refine follows_call ⟨(0 : Nat), _, .nowResponding _⟩ fun t s hm => ?_
  cases hm
  split
  · rename_i hfull
    rw [AttemptLimiter.recordFailure, if_pos ⟨hcounts.consecutiveFailures, hcounts.failuresOnCode⟩]
      at hfull
    cases hfull
  split
  · refine follows_call ⟨W.st.code, _, .newCode _⟩ fun code s hm => ?_
    cases hm
    exact hf _
  · exact hf _

theorem answerStart_follows (ideal : W.Ideal) (hcounts : W.st.limiter.Counts) (hn : n ≤ fuel) :
    HostFollows W n .started (answerStart W.C fuel W.hostCfg W.st
      (W.spake.startA W.viewerInput).1) := by
  rw [answerStart, HostPake.respond, ideal.hostScalar]
  refine follows_act ⟨_, _, .choose⟩ fun r s hm => ?_
  cases hm
  refine follows_act ⟨_, _, .finish⟩ fun r s hm => ?_
  cases hm
  change HostFollows W n .responding (recordAttempt W.st >>= fun st' => sendReply W.C fuel W.hostCfg
    ⟨W.hostOutput⟩ (W.spake.startB W.hostInput).1 W.hostOutput.confirmationMac.val st')
  refine recordAttempt_follows hcounts fun st => ?_
  rw [sendReply, sendRelay]
  refine follows_call ⟨_, _, .reply⟩ fun r s hm => ?_
  cases hm
  exact awaitConfirm_follows ideal hn

theorem attempt_follows (ideal : W.Ideal) (hcounts : W.st.limiter.Counts) (hn : n ≤ fuel) :
    HostFollows W n .joined (attempt W.C fuel W.hostCfg W.st) := by
  rw [attempt]
  refine follows_call ?_ fun t s hm => ?_
  · cases hcheck : W.st.limiter.check 0 with
    | ok u => exact ⟨_, _, .ready hcheck⟩
    | error wait => exact ⟨_, _, .waiting hcheck⟩
  cases hm with
  | ready hcheck =>
      rw [hcheck]
      dsimp only
      rw [recvRelay, Prog.bind_assoc]
      refine follows_call ⟨_, _, .started _⟩ fun r s hm => ?_
      cases hm
      change HostFollows W n .started ((pure (.ok (decodeRelay (relayText W.start))) :
        HostM (Except LinkError Relay)) >>= _)
      rw [host_decodes ideal.start_fits]
      exact answerStart_follows ideal hcounts hn
  | waiting hcheck =>
      rename_i wait
      rw [hcheck]
      dsimp only
      rw [sendRelay]
      refine follows_call ⟨_, _, .refuse wait⟩ fun r s hm => ?_
      cases hm
      refine follows_act ⟨_, _, .kickRefused wait⟩ fun r s hm => ?_
      cases hm
      exact follows_ret rfl

theorem serveNext_follows (ideal : W.Ideal) (hcounts : W.st.limiter.Counts) (hn : n ≤ fuel)
    {skipped : List ServerToHost} (h : skipped <+: W.stale) :
    HostFollows W n (.idle skipped) (serveNext W.C W.hostCfg W.st fuel) := by
  induction fuel generalizing n skipped with
  | zero =>
      obtain rfl := Nat.le_zero.mp hn
      trivial
  | succ fuel ih =>
      cases n with
      | zero => trivial
      | succ n =>
          rw [serveNext]
          refine follows_step ?_ fun r s hm => ?_
          · obtain ⟨rest, hrest⟩ := h
            cases rest with
            | nil =>
                rw [List.append_nil] at hrest
                subst hrest
                exact ⟨_, _, .join _⟩
            | cons m rest => exact ⟨_, _, .skip _ hrest.symm⟩
          cases hm with
          | join => exact attempt_follows ideal hcounts (by omega)
          | skip _ hstale =>
              rename_i m rest
              have hne : m ≠ .viewerJoined := by
                rintro rfl
                exact ideal.stale (by simp [hstale])
              have hskipped : skipped ++ [m] <+: W.stale := ⟨rest, by simp [hstale]⟩
              have hnext := ih (n := n) (by omega) hskipped
              cases m with
              | viewerJoined => exact absurd rfl hne
              | _ => exact hnext

end HostMeets

end SimpleRemote
