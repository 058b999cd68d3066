import SimpleRemote.Host.Gate
import SimpleRemote.Transport.Pace

namespace SimpleRemote
open ByteCodec Interaction

section
variable {c : Costs} {w n : Nat}

theorem sendRelay_within (msg : PakeMsg) : (sendRelay msg).Within c.pace c.send 1 :=
  within_call trivial fun _ => Nat.le_refl c.send

theorem recvRelay_within (timeout : Nat) : (recvRelay timeout).Within c.pace timeout 1 := by
  refine within_call_bind trivial (fun _ => Nat.le_refl timeout) fun r => ?_
  rcases r with e | (_ | m)
  · exact within_ret
  · exact within_ret
  · cases m <;> exact within_ret

theorem kicked_within (failure : AttemptFailure) : (kicked failure).Within c.pace c.send 1 := by
  refine within_call_bind trivial (fun _ => Nat.le_refl c.send) fun r => ?_
  cases r <;> exact within_ret

theorem rejectRelay_within (failure : AttemptFailure) :
    (rejectRelay failure).Within c.pace (2 * c.send) 2 := by
  refine within_bind (v := c.send) (m := 1) (sendRelay_within _) (fun r => ?_) (by omega)
    (Nat.le_refl _)
  cases r with
  | error e => exact within_ret
  | ok u => exact kicked_within failure

theorem respond_within (C : Crypto) (code : OneTimeCode) (hostId : Text) (pa : Bytes) :
    (HostPake.respond C code hostId pa).Within c.pace 0 2 := by
  rw [HostPake.respond]
  split
  · exact within_ret
  · refine within_quick rfl fun r => ?_
    rcases r with e | ⟨pb, state⟩
    · exact within_ret
    · refine within_quick rfl fun r => ?_
      cases r <;> exact within_ret

theorem confirm_within (C : Crypto) (pake : HostPake) (macA : Bytes) :
    (pake.confirm C macA).Within c.pace 0 1 := by
  rw [HostPake.confirm]
  split
  · exact within_ret
  · refine within_quick rfl fun r => ?_
    cases r <;> exact within_ret

theorem waitApprovalLoop_until (fuel : Nat) (req : ApprovalRequest) (deadline n : Nat) (ch : Channel) :
    (waitApprovalLoop fuel req deadline n ch).Until c.pace deadline 4 2 := by
  intro s t limit ht hlimit
  change deadline + 4 * c.slack ≤ limit at hlimit
  change Prog.Ends _ _ _ _ _ (limit + 2 * c.slack)
  induction n generalizing ch s t with
  | zero => exact ends_halt
  | succ n ih =>
      refine ends_quick rfl (by omega) fun answer asked hlater hsoon => ?_
      rcases answer with _ | _ | _
      · refine ends_now (by omega) fun now n' hnow hread hsoon' => ?_
        dsimp only [Prog.bind]
        split
        · exact ends_ret (by omega) trivial
        · rename_i hopen
          have hearly : now < deadline := Nat.lt_of_not_le hopen
          obtain ⟨next, hnext⟩ : ∃ next : Nat, next = min (now + APPROVAL_POLL) deadline := ⟨_, rfl⟩
          have hle : next ≤ deadline := hnext ▸ Nat.min_le_right ..
          rw [← hnext]
          refine ends_bind (Channel.next_until next fuel ch () n' (deadline + 3 * c.slack) (by omega)
            (by change _ + 2 * c.slack ≤ _; omega)) (by change _ + 1 * c.slack ≤ _; omega)
            fun s' t' r _ hle _ => ?_
          change t' ≤ deadline + 3 * c.slack + 1 * c.slack at hle
          obtain ⟨r, ch'⟩ := r
          rcases r with e | (_ | _ | _ | _)
          · exact ends_ret (by omega) trivial
          · exact ends_ret (by omega) trivial
          · exact ends_ret (by omega) trivial
          · exact ends_ret (by omega) trivial
          · exact ih _ _ _ (by omega)
      · exact ends_ret (by omega) trivial
      · exact ends_ret (by omega) trivial

theorem waitApproval_within (fuel : Nat) (ch : Channel) (req : ApprovalRequest) (limit : Nat) :
    (waitApproval fuel ch req limit).Within c.pace limit 7 :=
  within_from_now fun start => waitApprovalLoop_until fuel req (start + limit) fuel ch

theorem linger_until (fuel deadline n : Nat) (ch : Channel) :
    (linger fuel deadline n ch).Until c.pace deadline 2 1 := by
  intro s t limit ht hlimit
  change Prog.Ends _ _ _ _ _ (limit + 1 * c.slack)
  induction n generalizing ch s t with
  | zero => exact ends_halt
  | succ n ih =>
      refine ends_bind (Channel.next_ends fuel ch ht hlimit) (by omega) fun s' t' r _ hle hr => ?_
      obtain ⟨r, ch'⟩ := r
      rcases r with e | (_ | _ | _ | _)
      · exact ends_ret (by omega) trivial
      · exact ih _ _ _ (hr _ rfl rfl)
      · exact ih _ _ _ (hr _ rfl rfl)
      · exact ends_ret (by omega) trivial
      · exact ends_ret (by omega) trivial

theorem failWith_within (ch : Channel) (failure : AttemptFailure) :
    (failWith ch failure).Within c.pace 0 2 :=
  within_return (Channel.close_within ch)

theorem rejectDecision_within (fuel : Nat) (ch : Channel) (reason : RejectReason)
    (failure : AttemptFailure) (lingerFor : Nat) :
    (rejectDecision fuel ch reason failure lingerFor).Within c.pace lingerFor 7 := by
  refine within_quick rfl fun r => ?_
  cases r with
  | error e => exact (failWith_within ch failure).mono (Nat.zero_le _) (by omega)
  | ok u =>
      exact within_from_now_bind (fun start => linger_until fuel (start + lingerFor) fuel ch)
        (fun _ ch' => failWith_within ch' failure) (Nat.le_refl _) (Nat.le_refl 6)

-- how long an attempt waits at most for the peer, once it exists, and for the person
def meeting (timeouts : Timeouts) : Nat :=
  timeouts.connect + (timeouts.signalingStep + (timeouts.approval + timeouts.signalingStep))

-- and how long in all, with the three messages that it sends at most
def hold (timeouts : Timeouts) (send : Nat) : Nat :=
  4 * timeouts.signalingStep + timeouts.connect + timeouts.approval + 3 * send

theorem reply_steps (send step rest : Nat) :
    send + (step + (rest + 2 * send)) = step + (rest + 3 * send) := by
  omega

theorem hold_eq (timeouts : Timeouts) (send : Nat) : timeouts.signalingStep +
    (timeouts.signalingStep + (meeting timeouts + 3 * send)) = hold timeouts send := by
  have hsum (step connect approval : Nat) : step + (step + (connect + (step + (approval + step)) +
      3 * send)) = 4 * step + connect + approval + 3 * send := by
    omega
  exact hsum ..

section
variable {C : Crypto} {fuel : Nat} {cfg : HostConfig} {st : HostState} {sk : SessionKeys} {ch : Channel}

theorem accept_within (viewer : PeerIdentity) : (accept st viewer ch).Within c.pace 0 3 := by
  refine within_quick rfl fun r => ?_
  cases r with
  | error e => exact within_return (failWith_within ch .transport)
  | ok u => exact within_quick (n := 1) rfl fun _ => within_ret

theorem failed_within {w n : Nat} (ch : Channel) (failure : AttemptFailure) (hn : 2 ≤ n) :
    (do return (← failWith ch failure, st) : HostM (ServeOutcome × HostState)).Within c.pace w n :=
  (within_return (failWith_within ch failure)).mono (Nat.zero_le w) hn

theorem rejected_within {w n : Nat} (ch : Channel) (reason : RejectReason) (failure : AttemptFailure)
    {lingerFor : Nat} (hw : lingerFor ≤ w) (hn : 7 ≤ n) :
    (do return (← rejectDecision fuel ch reason failure lingerFor, st) :
      HostM (ServeOutcome × HostState)).Within c.pace w n :=
  (within_return (rejectDecision_within fuel ch reason failure lingerFor)).mono hw hn

theorem askApproval_within (viewer : PeerIdentity) : (askApproval C fuel cfg st viewer ch).Within
    c.pace (cfg.timeouts.approval + cfg.timeouts.signalingStep) 14 := by
  refine within_bind (waitApproval_within fuel ch _ _) (fun r => ?_) (Nat.le_refl _)
    (Nat.le_refl (7 + 7))
  obtain ⟨r, ch'⟩ := r
  cases r with
  | granted => exact (accept_within viewer).mono (Nat.zero_le _) (by omega)
  | denied => exact rejected_within ch' .denied .denied (Nat.le_refl _) (Nat.le_refl 7)
  | noResponse => exact rejected_within ch' .noResponse .denied (Nat.le_refl _) (Nat.le_refl 7)
  | failed f => exact failed_within ch' f (by omega)

theorem judgeHello_within (localFp remoteFp : Bytes) (viewerHello : Hello) :
    (judgeHello C fuel cfg st sk localFp remoteFp viewerHello ch).Within c.pace
      (cfg.timeouts.approval + cfg.timeouts.signalingStep) 14 := by
  rw [judgeHello]
  split
  · exact rejected_within ch .badIdentity .badIdentity (Nat.le_add_left ..) (by omega)
  · split
    · exact rejected_within ch _ .versionMismatch (Nat.le_add_left ..) (by omega)
    · exact askApproval_within _

theorem exchangeHello_within : (exchangeHello C fuel cfg st sk ch).Within c.pace
    (cfg.timeouts.signalingStep + (cfg.timeouts.approval + cfg.timeouts.signalingStep)) 21 := by
  refine within_quick rfl fun localFp => within_quick rfl fun remoteFp => ?_
  cases remoteFp with
  | none => exact failed_within ch .badIdentity (by omega)
  | some remoteFp =>
      refine within_quick rfl fun sent => ?_
      cases sent with
      | error e => exact failed_within ch .transport (by omega)
      | ok u =>
          refine within_from_now_bind (fun start => Channel.next_until _ fuel ch) (fun _ r => ?_)
            (Nat.le_refl _) (Nat.le_refl (1 + 2 + 1 + 14))
          obtain ⟨r, ch'⟩ := r
          rcases r with e | (c | _ | _ | _)
          · exact failed_within ch' .transport (by omega)
          · cases c with
            | hello h => exact judgeHello_within localFp remoteFp h
            | _ => exact failed_within ch' .malformed (by omega)
          · exact failed_within ch' .malformed (by omega)
          · exact failed_within ch' .transport (by omega)
          · exact failed_within ch' (.timeout .hello) (by omega)

theorem handshake_within :
    (handshake C fuel cfg st sk ch).Within c.pace (meeting cfg.timeouts) 25 := by
  refine within_from_now_bind (fun start => Channel.waitOpen_until _ fuel ch) (fun _ r => ?_)
    (Nat.le_refl _) (Nat.le_refl (1 + 2 + 1 + 21))
  obtain ⟨r, ch'⟩ := r
  rcases r with e | (_ | _ | _)
  · exact failed_within ch' .transport (by omega)
  · exact exchangeHello_within
  · exact failed_within ch' .transport (by omega)
  · exact failed_within ch' (.timeout .connect) (by omega)

theorem finishAttempt_within (r : ServeOutcome × HostState) :
    (finishAttempt r).Within c.pace c.send 1 := by
  obtain ⟨r, st⟩ := r
  cases r with
  | failed failure => exact within_return (kicked_within failure)
  | _ => exact within_ret

theorem dropped_within {w n : Nat} (failure : AttemptFailure) (hw : 2 * c.send ≤ w) (hn : 2 ≤ n) :
    (do return (← rejectRelay failure, st) : HostM (ServeResult × HostState)).Within
      c.pace w n :=
  (within_return (rejectRelay_within failure)).mono hw hn

theorem left_within {w n : Nat} (failure : AttemptFailure) (hw : 2 * c.send ≤ w) (hn : 1 ≤ n) :
    (do return (← kicked failure, st) : HostM (ServeResult × HostState)).Within
      c.pace w n :=
  (within_return (kicked_within failure)).mono (by omega) hn

theorem sendAnswer_within (sealedAnswer : Bytes) :
    (sendAnswer C fuel cfg st sk sealedAnswer ch).Within c.pace
      (meeting cfg.timeouts + 2 * c.send) 27 := by
  refine within_bind (v := meeting cfg.timeouts + c.send) (m := 26) (sendRelay_within _)
    (fun r => ?_) (by omega) (Nat.le_refl _)
  cases r with
  | error e => exact (within_return (Channel.close_within ch)).mono (Nat.zero_le _) (by omega)
  | ok u =>
      exact within_bind handshake_within finishAttempt_within (Nat.le_refl _) (Nat.le_refl (25 + 1))

theorem answerOffer_within (hips : cfg.bindIps = c.bindIps) (offer : Text) :
    (answerOffer C fuel cfg st sk offer).Within c.pace (meeting cfg.timeouts + 2 * c.send)
      29 := by
  refine within_peer hips fun r => ?_
  cases r with
  | error e => exact left_within .transport (Nat.le_add_left ..) (by omega)
  | ok u =>
      refine within_quick rfl fun r => ?_
      cases r with
      | error e =>
          have hdropped : (do
              let r ← rejectRelay .malformed
              let _ ← Channel.new.close
              return (r, st) : HostM (ServeResult × HostState)).Within c.pace
                (2 * c.send) 4 :=
            within_bind (rejectRelay_within .malformed)
              (fun r => within_return (Channel.close_within Channel.new)) (Nat.le_refl _)
              (Nat.le_refl (2 + 2))
          exact hdropped.mono (Nat.le_add_left ..) (by omega)
      | ok answer =>
          dsimp only
          split
          · exact within_halt
          · exact sendAnswer_within _

theorem confirmed_within (hips : cfg.bindIps = c.bindIps) (sealedOffer : Bytes) :
    (confirmed C fuel cfg st sk sealedOffer).Within c.pace
      (meeting cfg.timeouts + 2 * c.send) 29 := by
  rw [confirmed]
  split
  · exact dropped_within .malformed (Nat.le_add_left ..) (by omega)
  · exact answerOffer_within hips _

theorem judgeConfirm_within (hips : cfg.bindIps = c.bindIps) (pake : HostPake)
    (macA sealedOffer : Bytes) :
    (judgeConfirm C fuel cfg st pake macA sealedOffer).Within c.pace
      (meeting cfg.timeouts + 2 * c.send) 30 := by
  refine within_bind (confirm_within C pake macA) (fun r => ?_) (Nat.le_of_eq (Nat.zero_add _))
    (Nat.le_refl (1 + 29))
  cases r with
  | error e => exact dropped_within .wrongCode (Nat.le_add_left ..) (by omega)
  | ok sk => exact confirmed_within hips sealedOffer

theorem awaitConfirm_within (hips : cfg.bindIps = c.bindIps) (pake : HostPake) :
    (awaitConfirm C fuel cfg st pake).Within c.pace
      (cfg.timeouts.signalingStep + (meeting cfg.timeouts + 2 * c.send)) 31 := by
  refine within_bind (recvRelay_within _) (fun r => ?_) (Nat.le_refl _) (Nat.le_refl (1 + 30))
  rcases r with e | (m | _ | _ | _)
  · exact within_ret
  · cases m with
    | confirm macA sealedOffer => exact judgeConfirm_within hips pake macA sealedOffer
    | _ => exact dropped_within .malformed (Nat.le_add_left ..) (by omega)
  · exact dropped_within .malformed (Nat.le_add_left ..) (by omega)
  · exact within_ret
  · exact left_within .noConfirm (Nat.le_add_left ..) (by omega)

theorem recordAttempt_within : (recordAttempt st).Within c.pace 0 2 := by
  refine within_quick rfl fun now => ?_
  split
  · exact within_halt
  · split
    · exact within_quick rfl fun _ => within_ret
    · exact within_ret

theorem sendReply_within (hips : cfg.bindIps = c.bindIps) (pake : HostPake) (pb macB : Bytes) :
    (sendReply C fuel cfg pake pb macB st).Within c.pace
      (cfg.timeouts.signalingStep + (meeting cfg.timeouts + 3 * c.send)) 32 := by
  refine within_bind (sendRelay_within _) (fun r => ?_) (Nat.le_of_eq (reply_steps ..))
    (Nat.le_refl (1 + 31))
  cases r with
  | error e => exact within_ret
  | ok u => exact awaitConfirm_within hips pake

theorem answerStart_within (hips : cfg.bindIps = c.bindIps) (pa : Bytes) :
    (answerStart C fuel cfg st pa).Within c.pace
      (cfg.timeouts.signalingStep + (meeting cfg.timeouts + 3 * c.send)) 36 := by
  refine within_bind (respond_within C _ _ pa) (fun r => ?_) (Nat.le_of_eq (Nat.zero_add _))
    (Nat.le_refl (2 + 34))
  rcases r with e | ⟨pake, pb, macB⟩
  · exact dropped_within .malformed (Nat.le_add_left_of_le (by omega)) (by omega)
  · exact within_bind recordAttempt_within (fun st' => sendReply_within hips pake pb macB)
      (Nat.le_of_eq (Nat.zero_add _)) (Nat.le_refl (2 + 32))

theorem attempt_within (hips : cfg.bindIps = c.bindIps) :
    (attempt C fuel cfg st).Within c.pace (hold cfg.timeouts c.send) 38 := by
  rw [← hold_eq]
  have hwaits {w : Nat} (hw : w ≤ 3 * c.send) : w ≤ cfg.timeouts.signalingStep +
      (meeting cfg.timeouts + 3 * c.send) :=
    Nat.le_add_left_of_le (Nat.le_add_left_of_le hw)
  refine within_quick rfl fun now => ?_
  split
  · refine (within_bind (v := c.send) (m := 1) (sendRelay_within _) (fun r => ?_) (Nat.le_refl _)
      (Nat.le_refl _)).mono (Nat.le_add_left_of_le (hwaits (by omega))) (by omega)
    cases r with
    | error e => exact within_ret
    | ok u => exact within_return (kicked_within .waitRequired)
  · refine within_bind (recvRelay_within _) (fun r => ?_) (Nat.le_refl _) (Nat.le_refl (1 + 36))
    rcases r with e | (m | _ | _ | _)
    · exact within_ret
    · cases m with
      | start pa => exact answerStart_within hips pa
      | _ => exact dropped_within .malformed (hwaits (by omega)) (by omega)
    · exact dropped_within .malformed (hwaits (by omega)) (by omega)
    · exact within_ret
    · exact left_within (.timeout .pake) (hwaits (by omega)) (by omega)

end

end

-- whatever the viewer and the server do, a call of `serve_next` that has taken up a viewer is over
-- within `hold`, but for what its calls overrun
theorem viewer_held {C : Crypto} {fuel send slack start : Nat} {cfg : HostConfig} {st : HostState}
    {tr : List (Ev HostSig.stamped)} {q : Prog HostSig.stamped (ServeResult × HostState)}
    (h : Path (serveNext C cfg st fuel).stamp tr q)
    (ht : (Costs.mk cfg.bindIps send slack).pace.Timed () start tr)
    {pre post : List (Ev HostSig.stamped)} {joined : Ev HostSig.stamped} {timeout : Duration}
    (htr : tr = pre ++ joined :: post)
    (hjoined : joined.bare = ⟨.linkRecv timeout, .ok (some .viewerJoined)⟩) :
    ∀ e ∈ post, e.at ≤ joined.at + hold cfg.timeouts send + 38 * slack := by
  induction fuel generalizing start tr pre with
  | zero =>
      obtain ⟨rfl, -⟩ := path_halt (S := HostSig.stamped) h
      simp at htr
  | succ fuel ih =>
      rcases path_act (S := HostSig.stamped) h with ⟨rfl, -⟩ | ⟨⟨r, at'⟩, tr', rfl, h'⟩
      · simp at htr
      obtain ⟨-, hrest⟩ := ht
      have hlast (hr : r = .ok (some .viewerJoined)) :
          ∀ e ∈ tr', e.at ≤ at' + hold cfg.timeouts send + 38 * slack := by
        subst hr
        exact (attempt_within rfl).path h' hrest
      have hlater : ∀ e ∈ tr', at' ≤ e.at := hrest.later
      rcases List.cons_eq_append_iff.mp htr with ⟨rfl, hpost⟩ | ⟨pre', rfl, htr'⟩
      · obtain ⟨rfl, rfl⟩ := List.cons.inj hpost
        cases hjoined
        exact hlast rfl
      · have hmem : joined ∈ tr' := htr' ▸ List.mem_append_right _ (List.mem_cons_self ..)
        have hstarted (hr : r = .ok (some .viewerJoined)) :
            ∀ e ∈ post, e.at ≤ joined.at + hold cfg.timeouts send + 38 * slack := fun e he => by
          have hpost : e ∈ tr' := htr' ▸ List.mem_append_right _ (List.mem_cons_of_mem _ he)
          have hle := hlast hr e hpost
          have hge := hlater joined hmem
          omega
        have hended (hend : tr' = []) : False := by
          rw [hend] at hmem
          cases hmem
        rcases r with e | (_ | m)
        · exact (hended (path_ret (S := HostSig.stamped) h').1).elim
        · exact ih h' hrest htr'
        · cases m with
          | viewerJoined => exact hstarted rfl
          | _ => exact ih h' hrest htr'

def sampleCosts : Costs := ⟨sampleIps, 20, 10⟩

def sampleTimed : List (Ev HostSig.stamped) := sampleCosts.pace.stamps 0 sampleSession

theorem sample_viewer_held : sampleCosts.pace.Timed () 0 sampleTimed ∧
    ∃ joined post, sampleTimed = joined :: post ∧ joined.bare = viewerJoined .sample ∧
      ∀ e ∈ post, e.at ≤ joined.at + hold .default 20 + 38 * 10 := by
  have hpath := path_stamps sampleCosts.pace 0 sample_session
  have htimed : sampleCosts.pace.Timed () 0 sampleTimed := by decide
  exact ⟨htimed, _, _, rfl, rfl, viewer_held hpath htimed (List.nil_append _).symm rfl⟩

end SimpleRemote
