import SimpleRemote.Host.Pong
import SimpleRemote.Transport.Overdue
import SimpleRemote.Viewer.Ping

namespace SimpleRemote
open ByteCodec Interaction

section
variable {In Out α : Type} {deadline : Instant}

theorem late_ret {a : α} : StopsLate deadline (.ret a : Conn In Out α) := fun _ _ => trivial

theorem punctual_ret {a : α} : Punctual deadline (.ret a : Conn In Out α) := fun _ => trivial

theorem late_quick {o : Op Out} {k : Op.Res In o → Conn In Out α} (ho : o.waitsPoll = false)
    (hclock : ∀ (s : Reading) r, (s.next (⟨o, r⟩ : Ev (conn In Out))).clock = s.clock)
    (hk : ∀ r, StopsLate deadline (k r)) : StopsLate deadline (.act o k : Conn In Out α) :=
  fun s hlate => ⟨allow_quick ho, fun r _ => hk r _ ((hclock s r).symm ▸ hlate)⟩

theorem punctual_quick {o : Op Out} {k : Op.Res In o → Conn In Out α} (ho : o.waitsPoll = false)
    (hk : ∀ r, Punctual deadline (k r)) : Punctual deadline (.act o k : Conn In Out α) :=
  fun _ => ⟨allow_quick ho, fun r _ => hk r _⟩

end

section
variable {deadline : Instant} {fuel n : Nat} {ch : Channel}

theorem servePingsLoop_late (hn : ch.pending.length < n) :
    StopsLate deadline (HostSession.servePingsLoop (fuel + 1) deadline n ch) := by
  have hloop (n : Nat) (ch : Channel) :
      HostSession.servePingsLoop (fuel + 1) deadline (n + 1) ch = (ch.next deadline (fuel + 1) >>=
        HostSession.serveControl (HostSession.servePingsLoop (fuel + 1) deadline n)) := rfl
  refine Channel.loop_late hloop (fun n m ch' hdecoded hagain => ?_) (fun _ _ => late_ret)
    (fun _ _ => late_ret) hn
  cases m with
  | msg c =>
      cases c with
      | ping seq =>
          refine late_quick rfl (fun _ _ => rfl) fun sent => ?_
          cases sent with
          | error e => exact late_ret
          | ok u => exact hagain
      | _ => exact hagain
  | malformed =>
      intro s hlate
      exact total_bind.mpr (Prog.total_mono (Channel.close_late ch' s hlate) fun _ _ _ => trivial)
  | _ => cases hdecoded

theorem servePingsLoop_punctual (n : Nat) (ch : Channel) :
    Punctual deadline (HostSession.servePingsLoop fuel deadline n ch) := by
  have hloop (n : Nat) (ch : Channel) :
      HostSession.servePingsLoop fuel deadline (n + 1) ch = (ch.next deadline fuel >>=
        HostSession.serveControl (HostSession.servePingsLoop fuel deadline n)) := rfl
  refine Channel.loop_punctual (fun _ => rfl) hloop (fun n r hagain => ?_) n ch
  obtain ⟨r, ch'⟩ := r
  rcases r with e | (c | _ | _ | _)
  · exact punctual_ret
  · cases c with
    | ping seq =>
        refine punctual_quick rfl fun sent => ?_
        cases sent with
        | error e => exact punctual_ret
        | ok u => exact hagain ch'
    | _ => exact hagain ch'
  · intro s
    exact wp_bind.mpr (Prog.wp_mono (Channel.close_punctual ch' s) fun _ _ _ => trivial)
  · exact punctual_ret
  · exact punctual_ret

def lingerRound (fuel : Nat) (deadline : Instant) (n : Nat) :
    Except TransportError Next × Channel → HostM Channel
  | (.ok (.msg _), ch) => linger fuel deadline n ch
  | (.ok .malformed, ch) => linger fuel deadline n ch
  | (_, ch) => return ch

theorem linger_round (n : Nat) (ch : Channel) : linger fuel deadline (n + 1) ch =
    (ch.next deadline fuel >>= lingerRound fuel deadline n) := by
  rw [linger]
  refine congrArg _ (funext fun r => ?_)
  obtain ⟨r, ch'⟩ := r
  rcases r with e | (c | _ | _ | _) <;> rfl

theorem linger_late (hn : ch.pending.length < n) :
    StopsLate deadline (linger (fuel + 1) deadline n ch) := by
  refine Channel.loop_late linger_round (fun n m ch' hdecoded hagain => ?_) (fun _ _ => late_ret)
    (fun _ _ => late_ret) hn
  cases m with
  | msg c => exact hagain
  | malformed => exact hagain
  | _ => cases hdecoded

theorem linger_punctual (n : Nat) (ch : Channel) :
    Punctual deadline (linger fuel deadline n ch) := by
  refine Channel.loop_punctual (fun _ => rfl) linger_round (fun n r hagain => ?_) n ch
  obtain ⟨r, ch'⟩ := r
  rcases r with e | (c | _ | _ | _)
  · exact punctual_ret
  · exact hagain ch'
  · exact hagain ch'
  · exact punctual_ret
  · exact punctual_ret

-- one round of the loop of `ping`, given what `next` returned
def pingRound (fuel : Nat) (seq : UInt64) (start deadline : Instant) (session : ViewerSession)
    (n : Nat) : Except TransportError Next × Channel → ViewerM ViewerSession.PingResult
  | (.ok (.msg (.pong got)), ch) =>
      if got = seq then do
        let now ← call .now
        return (.ok (now - start), { session with ch := ch })
      else ViewerSession.pingLoop fuel seq start deadline n { session with ch := ch }
  | (.ok (.msg _), ch) => ViewerSession.pingLoop fuel seq start deadline n { session with ch := ch }
  | (.ok .malformed, ch) =>
      return (.error (.security "malformed control".toList), { session with ch := ch })
  | (.ok .closed, ch) => return (.error .hostLeft, { session with ch := ch })
  | (.ok .timedOut, ch) => return (.error (.timeout .ping), { session with ch := ch })
  | (.error e, ch) => return (.error (.transport e), { session with ch := ch })

theorem pingLoop_round (seq : UInt64) (start : Instant) (session : ViewerSession) (n : Nat)
    (ch : Channel) :
    ViewerSession.pingLoop fuel seq start deadline (n + 1) { session with ch := ch } =
      (ch.next deadline fuel >>= pingRound fuel seq start deadline session n) := by
  rw [ViewerSession.pingLoop, Viewer.nextControl, Prog.bind_assoc]
  refine congrArg _ (funext fun r => ?_)
  obtain ⟨r, ch'⟩ := r
  rcases r with e | (c | _ | _ | _)
  · rfl
  · cases c <;> rfl
  · rfl
  · rfl
  · rfl

variable {seq : UInt64} {start : Instant} {session : ViewerSession}

theorem pingLoop_late (hn : session.ch.pending.length < n) :
    StopsLate deadline (ViewerSession.pingLoop (fuel + 1) seq start deadline n session) := by
  let loop (n : Nat) (ch : Channel) : ViewerM ViewerSession.PingResult :=
    ViewerSession.pingLoop (fuel + 1) seq start deadline n { session with ch := ch }
  have hloop (n : Nat) (ch : Channel) : loop (n + 1) ch = (ch.next deadline (fuel + 1) >>=
      pingRound (fuel + 1) seq start deadline session n) :=
    pingLoop_round seq start session n ch
  refine Channel.loop_late hloop (fun n m ch' hdecoded hagain => ?_) (fun _ _ => late_ret)
    (fun _ _ => late_ret) hn
  cases m with
  | msg c =>
      cases c with
      | pong got =>
          rw [pingRound]
          split
          · exact fun s hlate => ⟨allow_quick rfl, fun _ _ => trivial⟩
          · exact hagain
      | _ => exact hagain
  | malformed => exact late_ret
  | _ => cases hdecoded

theorem pingLoop_punctual (n : Nat) (session : ViewerSession) :
    Punctual deadline (ViewerSession.pingLoop fuel seq start deadline n session) := by
  let loop (n : Nat) (ch : Channel) : ViewerM ViewerSession.PingResult :=
    ViewerSession.pingLoop fuel seq start deadline n { session with ch := ch }
  have hloop (n : Nat) (ch : Channel) : loop (n + 1) ch =
      (ch.next deadline fuel >>= pingRound fuel seq start deadline session n) :=
    pingLoop_round seq start session n ch
  refine Channel.loop_punctual (fun _ => rfl) hloop (fun n r hagain => ?_) n session.ch
  obtain ⟨r, ch'⟩ := r
  rcases r with e | (c | _ | _ | _)
  · exact punctual_ret
  · cases c with
    | pong got =>
        rw [pingRound]
        split
        · exact punctual_quick rfl fun _ => punctual_ret
        · exact hagain ch'
    | _ => exact hagain ch'
  · exact punctual_ret
  · exact punctual_ret
  · exact punctual_ret

theorem waitApprovalLoop_late {req : ApprovalRequest} :
    StopsLate deadline (waitApprovalLoop fuel req deadline (n + 1) ch) := by
  refine late_quick rfl (fun _ _ => rfl) fun answer => ?_
  rcases answer with _ | (_ | _)
  · refine fun s hlate => ⟨allow_quick rfl, fun now hnow => ?_⟩
    have hpassed : deadline ≤ now := hlate.trans hnow
    dsimp only [Prog.bind]
    rw [if_pos hpassed]
    trivial
  · exact late_ret
  · exact late_ret

theorem waitApprovalLoop_punctual {req : ApprovalRequest} (n : Nat) (ch : Channel) :
    Punctual deadline (waitApprovalLoop fuel req deadline n ch) := by
  induction n generalizing ch with
  | zero => exact fun _ => trivial
  | succ n ih =>
      refine punctual_quick rfl fun answer => ?_
      rcases answer with _ | (_ | _)
      · refine punctual_quick rfl fun now => ?_
        dsimp only [Prog.bind]
        split
        · exact punctual_ret
        · intro s
          have hnext : Punctual deadline
              (ch.next (min (now + APPROVAL_POLL) deadline) fuel : HostM _) :=
            (Channel.next_punctual fuel ch).mono (Nat.min_le_right ..)
          refine wp_bind.mpr (Prog.wp_mono (hnext s) fun s' r _ => ?_)
          obtain ⟨r, ch'⟩ := r
          rcases r with e | (_ | _ | _ | _)
          case ok.timedOut => exact ih ch' s'
          all_goals trivial
      · exact punctual_ret
      · exact punctual_ret

end

-- `n` is the number of rounds a loop may take here: from a channel with `k` messages pending no
-- more than `k` of them go on
theorem flooded_loops_end (deadline : Instant) (fuel : Nat) :
    (∀ (ch : Channel) (s : Reading), deadline ≤ s.clock →
      (ch.next deadline (fuel + 1) : HostM _).total (pollsInTime deadline)
        (fun _ => ch.Taken) s ∧
      (ch.next deadline (fuel + 1) : ViewerM _).total (pollsInTime deadline)
        (fun _ => ch.Taken) s) ∧
    (∀ n ch, Punctual deadline (HostSession.servePingsLoop fuel deadline n ch) ∧
      (ch.pending.length < n →
        StopsLate deadline (HostSession.servePingsLoop (fuel + 1) deadline n ch))) ∧
    (∀ n ch, Punctual deadline (linger fuel deadline n ch) ∧
      (ch.pending.length < n → StopsLate deadline (linger (fuel + 1) deadline n ch))) ∧
    (∀ n seq start session,
      Punctual deadline (ViewerSession.pingLoop fuel seq start deadline n session) ∧
      (session.ch.pending.length < n →
        StopsLate deadline (ViewerSession.pingLoop (fuel + 1) seq start deadline n session))) ∧
    (∀ n req ch, Punctual deadline (waitApprovalLoop fuel req deadline n ch) ∧
      StopsLate deadline (waitApprovalLoop fuel req deadline 1 ch)) := by
  refine ⟨fun ch s hlate => ⟨?_, ?_⟩,
    fun n ch => ⟨servePingsLoop_punctual n ch, servePingsLoop_late⟩,
    fun n ch => ⟨linger_punctual n ch, linger_late⟩,
    fun n seq start session => ⟨pingLoop_punctual n session, pingLoop_late⟩,
    fun n req ch => ⟨waitApprovalLoop_punctual n ch, waitApprovalLoop_late⟩⟩
  · exact Prog.total_mono (Channel.next_late hlate fuel ch) fun _ _ h => h.2
  · exact Prog.total_mono (Channel.next_late hlate fuel ch) fun _ _ h => h.2

def sampleFlooded : Channel :=
  ⟨[Control.encode (.ping 0), Control.encode (.ping 1)], false, false⟩

-- two pings are pending, and the clock has passed the deadline
theorem sample_flooded_loops_end :
    (sampleFlooded.next 5 5 : HostM _).total (pollsInTime 5) (fun _ => sampleFlooded.Taken)
      ⟨7, false⟩ ∧
    (HostSession.servePingsLoop 5 5 3 sampleFlooded).total (pollsInTime 5) done ⟨7, false⟩ ∧
    (linger 5 5 3 sampleFlooded).total (pollsInTime 5) done ⟨7, false⟩ ∧
    (ViewerSession.pingLoop 5 2 3 5 3 ⟨⟨filled 32 1, ['h'], filled 32 2⟩, sampleFlooded, 2⟩).total
      (pollsInTime 5) done ⟨7, false⟩ ∧
    (waitApprovalLoop 4 ⟨['v'], ['f']⟩ 5 1 sampleFlooded).total (pollsInTime 5) done ⟨7, false⟩ := by
  obtain ⟨hnext, hserve, hlinger, hping, happroval⟩ := flooded_loops_end 5 4
  have hfew : sampleFlooded.pending.length < 3 := by decide
  have hlate : (5 : Nat) ≤ 7 := by decide
  exact ⟨(hnext _ _ hlate).1, (hserve _ _).2 hfew _ hlate, (hlinger _ _).2 hfew _ hlate,
    (hping _ _ _ _).2 hfew _ hlate, (happroval 1 _ _).2 _ hlate⟩

end SimpleRemote
