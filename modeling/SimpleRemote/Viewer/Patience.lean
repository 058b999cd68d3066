import SimpleRemote.Transport.Pace
import SimpleRemote.Viewer.FailClosed

namespace SimpleRemote.Viewer
open ByteCodec Interaction

section
variable {c : Costs}

theorem sendRelay_within (msg : PakeMsg) : (sendRelay msg).Within c.pace c.send 1 := by
  refine within_call_bind trivial (fun _ => Nat.le_refl c.send) fun r => ?_
  rcases r with e | u
  · cases e <;> exact within_ret
  · exact within_ret

theorem recvRelay_within (timeout : Nat) (stage : Stage) :
    (recvRelay timeout stage).Within c.pace timeout 1 := by
  refine within_call_bind trivial (fun _ => Nat.le_refl timeout) fun r => ?_
  rcases r with e | (_ | m)
  · exact within_ret
  · exact within_ret
  · cases m with
    | relay data =>
        dsimp only
        split <;> exact within_ret
    | _ => exact within_ret

theorem nextControl_until (fuel : Nat) (ch : Channel) (deadline : Nat) (stage : Stage) :
    (nextControl fuel ch deadline stage).Until c.pace deadline 2 1 := by
  intro s t limit ht hlimit
  refine ends_bind (Channel.next_until deadline fuel ch s t limit ht hlimit) (Nat.le_refl _) ?_
  intro s' t' r _ hle _
  obtain ⟨r, ch'⟩ := r
  rcases r with e | (_ | _ | _ | _) <;> exact ends_ret hle trivial

theorem start_within (C : Crypto) (code : OneTimeCode) (hostId : Text) :
    (ViewerPake.start C code hostId).Within c.pace 0 1 := by
  rw [ViewerPake.start]
  split
  · exact within_ret
  · refine within_quick rfl fun r => ?_
    rcases r with e | ⟨pa, state⟩ <;> exact within_ret

theorem finish_within (C : Crypto) (pake : ViewerPake) (pb macB : Bytes) :
    (pake.finish C pb macB).Within c.pace 0 2 := by
  refine within_quick rfl fun r => ?_
  cases r with
  | error e => exact within_ret
  | ok output =>
      dsimp only
      split
      · exact within_ret
      · refine within_quick rfl fun r => ?_
        cases r <;> exact within_ret

end

-- how long a viewer waits at most once it has the answer
def meeting (timeouts : Timeouts) : Nat :=
  timeouts.connect + (timeouts.signalingStep + (timeouts.approval + timeouts.signalingStep))

-- and how long in all, with the two messages that it sends at most
def patience (timeouts : Timeouts) (send : Nat) : Nat :=
  5 * timeouts.signalingStep + timeouts.connect + timeouts.approval + 2 * send

theorem start_steps (send step rest : Nat) :
    send + (step + (rest + send)) = step + (rest + 2 * send) := by
  omega

theorem patience_eq (timeouts : Timeouts) (send : Nat) : timeouts.signalingStep +
    (timeouts.signalingStep + (timeouts.signalingStep + meeting timeouts + 2 * send)) =
      patience timeouts send := by
  have hsum (step connect approval : Nat) : step + (step + (step + (connect + (step +
      (approval + step))) + 2 * send)) = 5 * step + connect + approval + 2 * send := by
    omega
  exact hsum ..

section
variable {C : Crypto} {c : Costs} {fuel : Nat} {cfg : Config} {sk : SessionKeys} {ch : Channel}

theorem awaitDecision_within (host : PeerIdentity) : (awaitDecision fuel cfg host ch).Within c.pace
    (cfg.t.approval + cfg.t.signalingStep) 4 := by
  have hdecides (start : Nat) : (nextControl fuel ch (start + cfg.t.approval + cfg.t.signalingStep)
      .decision).Until c.pace (start + (cfg.t.approval + cfg.t.signalingStep)) 2 1 :=
    Nat.add_assoc start _ _ ▸ nextControl_until fuel ch _ .decision
  refine within_from_now_bind (w := 0) (n := 0) hdecides (fun _ r => ?_) (Nat.le_refl _) (Nat.le_refl _)
  obtain ⟨r, ch'⟩ := r
  cases r <;> exact within_ret

theorem judgeHello_within (localFp remoteFp : Bytes) (hello : Hello) :
    (judgeHello C fuel cfg sk localFp remoteFp hello ch).Within c.pace
      (cfg.t.approval + cfg.t.signalingStep) 4 := by
  rw [judgeHello]
  split
  · exact within_ret
  · exact awaitDecision_within _

theorem exchangeHello_within : (exchangeHello C fuel cfg sk ch).Within c.pace
    (cfg.t.signalingStep + (cfg.t.approval + cfg.t.signalingStep)) 11 := by
  refine within_quick rfl fun localFp => within_quick rfl fun remoteFp => ?_
  cases remoteFp with
  | none => exact within_ret
  | some remoteFp =>
      refine within_quick rfl fun sent => ?_
      cases sent with
      | error e => exact within_ret
      | ok u =>
          refine within_from_now_bind (fun start => nextControl_until fuel ch _ .hello) (fun _ r => ?_)
            (Nat.le_refl _) (Nat.le_refl (1 + 2 + 1 + 4))
          obtain ⟨r, ch'⟩ := r
          rcases r with e | c
          · exact within_ret
          · cases c with
            | hello h => exact judgeHello_within localFp remoteFp h
            | _ => exact within_ret

theorem waitReady_within : (waitReady C fuel cfg sk ch).Within c.pace (meeting cfg.t) 15 := by
  refine within_from_now_bind (fun start => Channel.waitOpen_until _ fuel ch) (fun _ r => ?_)
    (Nat.le_refl _) (Nat.le_refl (1 + 2 + 1 + 11))
  obtain ⟨r, ch'⟩ := r
  rcases r with e | (_ | _ | _)
  · exact within_ret
  · exact exchangeHello_within
  · exact within_ret
  · exact within_ret

theorem takeAnswer_within (pending : PendingOffer) (sealedAnswer : Bytes) :
    (takeAnswer C fuel cfg sk pending sealedAnswer ch).Within c.pace (meeting cfg.t) 16 := by
  rw [takeAnswer]
  split
  · exact within_ret
  · refine within_quick rfl fun r => ?_
    cases r with
    | error e => exact within_ret
    | ok u => exact waitReady_within

theorem awaitAnswer_within (pending : PendingOffer) : (awaitAnswer C fuel cfg sk pending ch).Within
    c.pace (cfg.t.signalingStep + meeting cfg.t) 17 := by
  refine within_bind (recvRelay_within _ _) (fun r => ?_) (Nat.le_refl _) (Nat.le_refl (1 + 16))
  rcases r with e | m
  · exact within_ret
  · cases m with
    | answer sealedAnswer => exact takeAnswer_within pending sealedAnswer
    | _ => exact within_ret

theorem handshake_within (macA : Bytes) : (handshake C fuel cfg sk macA ch).Within c.pace
    (cfg.t.signalingStep + meeting cfg.t + c.send) 19 := by
  refine within_quick rfl fun r => ?_
  rcases r with e | ⟨offer, pending⟩
  · exact within_ret
  · dsimp only
    split
    · exact within_halt
    · refine within_bind (sendRelay_within _) (fun r => ?_) (Nat.le_of_eq (Nat.add_comm ..))
        (Nat.le_refl (1 + 17))
      cases r with
      | error e => exact within_ret
      | ok u => exact awaitAnswer_within pending

theorem openPeer_within (hips : cfg.bindIps = c.bindIps) (macA : Bytes) :
    (openPeer C fuel cfg sk macA).Within c.pace
    (cfg.t.signalingStep + meeting cfg.t + c.send) 22 := by
  refine within_peer hips fun r => ?_
  cases r with
  | error e => exact within_ret
  | ok u =>
      refine within_bind (v := 0) (m := 2) (handshake_within macA) (fun r => ?_) (Nat.le_refl _)
        (Nat.le_refl _)
      obtain ⟨r, ch'⟩ := r
      cases r with
      | ok host => exact within_ret
      | error e => exact within_return (Channel.close_within ch')

theorem awaitReply_within (hips : cfg.bindIps = c.bindIps) (pake : ViewerPake) :
    (awaitReply C fuel cfg pake).Within c.pace
    (cfg.t.signalingStep + (cfg.t.signalingStep + meeting cfg.t + c.send)) 25 := by
  refine within_bind (recvRelay_within _ _) (fun r => ?_) (Nat.le_refl _) (Nat.le_refl (1 + 24))
  rcases r with e | m
  · exact within_ret
  · cases m with
    | reply pb macB =>
        refine within_bind (finish_within C pake pb macB) (fun r => ?_) (Nat.le_of_eq (Nat.zero_add _))
          (Nat.le_refl (2 + 22))
        rcases r with e | ⟨sk, macA⟩
        · exact within_ret
        · exact openPeer_within hips macA
    | _ => exact within_ret

theorem joined_within (hips : cfg.bindIps = c.bindIps) : (joined C fuel cfg).Within c.pace
    (cfg.t.signalingStep + (cfg.t.signalingStep + meeting cfg.t + 2 * c.send)) 27 := by
  refine within_bind (start_within C _ _) (fun r => ?_) (Nat.le_of_eq (Nat.zero_add _))
    (Nat.le_refl (1 + 26))
  rcases r with e | ⟨pake, pa⟩
  · exact within_ret
  · refine within_bind (sendRelay_within _) (fun r => ?_) (Nat.le_of_eq (start_steps ..))
      (Nat.le_refl (1 + 25))
    cases r with
    | error e => exact within_ret
    | ok u => exact awaitReply_within hips pake

theorem connect_within (hips : cfg.bindIps = c.bindIps) :
    (connect C fuel cfg).Within c.pace (patience cfg.t c.send) 28 := by
  refine within_bind (within_call trivial fun _ => Nat.le_refl _) (fun r => ?_)
    (Nat.le_of_eq (patience_eq ..)) (Nat.le_refl (1 + 27))
  rcases r with e | (_ | m)
  · exact within_ret
  · exact within_ret
  · cases m with
    | joined => exact joined_within hips
    | _ => exact within_ret

end

-- whatever the host and the server do, `connect` is over within `patience`, but for what its calls
-- overrun
theorem connect_ends {C : Crypto} {fuel send slack start : Nat} {cfg : Config}
    {tr : List (Ev ViewerSig.stamped)} {q : Prog ViewerSig.stamped ConnectResult}
    (h : Path (connect C fuel cfg).stamp tr q)
    (ht : (Costs.mk cfg.bindIps send slack).pace.Timed () start tr) :
    ∀ e ∈ tr, e.at ≤ start + patience cfg.t send + 28 * slack :=
  (connect_within rfl).path h ht

def sampleTimed : List (Ev ViewerSig.stamped) := (Costs.mk sampleIps 20 12).pace.stamps 0 sampleConnect

theorem sample_connect_ends : (Costs.mk sampleIps 20 12).pace.Timed () 0 sampleTimed ∧
    ∀ e ∈ sampleTimed, e.at ≤ patience .default 20 + 28 * 12 := by
  have hpath := path_stamps (Costs.mk sampleIps 20 12).pace 0 sample_connect
  have htimed : (Costs.mk sampleIps 20 12).pace.Timed () 0 sampleTimed := by decide
  refine ⟨htimed, fun e he => ?_⟩
  have hle := connect_ends hpath htimed e he
  rwa [Nat.zero_add] at hle

end SimpleRemote.Viewer
