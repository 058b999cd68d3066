import SimpleRemote.Transport.Peer

namespace SimpleRemote
open ByteCodec Interaction

namespace Peer

def Rejected (accepts : Bytes → Bool) : Ev PeerSig → Prop
  | ⟨.recvFrom _, .ok d⟩ => accepts d.contents = false
  | _ => False

-- what a poll does next with its sockets after the datagram read from `sock`
def GoesOn (sockets : List SocketAddr) (sock : SocketAddr) : PeerOp → Prop
  | .recvFrom following => ∃ read rest, sockets = read ++ sock :: following :: rest
  | .handleInput (.timeout _) => ∃ read, sockets = read ++ [sock]
  | _ => False

def Skips (accepts : Bytes → Bool) (sockets : List SocketAddr) (tr : List (Ev PeerSig)) : Prop :=
  ∀ pre sock d post, tr = pre ++ ⟨.recvFrom sock, .ok d⟩ :: post → accepts d.contents = false →
    ∃ e ∈ post, GoesOn sockets sock e.op

def Fatal (accepts : Bytes → Bool) (tr : List (Ev PeerSig)) : Prop :=
  ∃ pre sock d now, tr = pre ++ [⟨.recvFrom sock, .ok d⟩, ⟨.now, now⟩] ∧
    accepts d.contents = false

section
variable {accepts : Bytes → Bool}

theorem Fatal.prepend {tr : List (Ev PeerSig)} (h : Fatal accepts tr) (tr' : List (Ev PeerSig)) :
    Fatal accepts (tr' ++ tr) := by
  obtain ⟨pre, sock, d, now, rfl, hd⟩ := h
  exact ⟨tr' ++ pre, sock, d, now, (List.append_assoc ..).symm, hd⟩

theorem Fatal.not_skips {tr : List (Ev PeerSig)} (h : Fatal accepts tr)
    (sockets : List SocketAddr) : ¬ Skips accepts sockets tr := by
  obtain ⟨pre, sock, d, now, rfl, hd⟩ := h
  intro hskips
  obtain ⟨e, he, hgoes⟩ := hskips pre sock d _ rfl hd
  obtain rfl := List.mem_singleton.mp he
  exact hgoes

theorem skips_of_none {tr : List (Ev PeerSig)} (h : ∀ e ∈ tr, ¬ Rejected accepts e)
    (sockets : List SocketAddr) : Skips accepts sockets tr := by
  rintro pre sock d post rfl hd
  exact absurd hd (h ⟨.recvFrom sock, .ok d⟩ (by simp))

theorem none_rejected {α : Type} {p : PeerM α} {tr : List (Ev PeerSig)} {a : α}
    (hp : p.Uses fun o : PeerOp => ∀ sock, o ≠ .recvFrom sock) (h : Exec p tr a) :
    ∀ e ∈ tr, ¬ Rejected accepts e := by
  intro e he
  have hne := (hp.path h).1 e he
  obtain ⟨o, r⟩ := e
  cases o with
  | recvFrom sock => exact absurd rfl (hne sock)
  | _ => exact id

abbrev AnyRejected (accepts : Bytes → Bool) (tr : List (Ev PeerSig)) : Prop :=
  ∃ e ∈ tr, Rejected accepts e

theorem not_anyRejected_nil : ¬ AnyRejected accepts [] := by
  rintro ⟨e, he, -⟩
  cases he

theorem AnyRejected.tail {e : Ev PeerSig} {tr : List (Ev PeerSig)}
    (h : AnyRejected accepts (e :: tr)) (he : ¬ Rejected accepts e) : AnyRejected accepts tr := by
  obtain ⟨e', hmem, hrejected⟩ := h
  rcases List.mem_cons.mp hmem with rfl | hmem
  · exact absurd hrejected he
  · exact ⟨e', hmem, hrejected⟩

theorem drainOutput_uses (fuel : Nat) (peer : Peer) (acc : List PeerEvent) :
    (drainOutput fuel peer acc).Uses fun o : PeerOp => ∀ sock, o ≠ .recvFrom sock := by
  induction fuel generalizing peer acc with
  | zero => trivial
  | succ fuel ih =>
      refine uses_bind (uses_call.mpr (by simp)) fun r => ?_
      rcases r with e | o
      · trivial
      cases o with
      | timeout due => trivial
      | transmit source destination contents =>
          refine uses_bind ?_ fun _ => ih peer acc
          rw [transmit]
          split
          · exact uses_bind (uses_call.mpr (by simp)) fun _ => trivial
          · trivial
      | event e => exact ih _ _

theorem pumpSockets_fatal {sockets : List SocketAddr} {gotInput : Bool} {tr : List (Ev PeerSig)}
    {r : Except TransportError Bool} (h : Exec (pumpSockets accepts sockets gotInput) tr r)
    (hr : AnyRejected accepts tr) : Fatal accepts tr ∧ r = .error .rtc := by
  induction sockets generalizing gotInput tr with
  | nil =>
      obtain ⟨rfl, -⟩ := exec_ret.mp h
      exact absurd hr not_anyRejected_nil
  | cons localAddr rest ih =>
      obtain ⟨read, tr₁, rfl, hread⟩ := exec_call_bind.mp h
      cases read with
      | error kind =>
          have hlater : AnyRejected accepts tr₁ := hr.tail id
          dsimp only at hread
          split at hread
          · obtain ⟨hfatal, hresult⟩ := ih hread hlater
            exact ⟨hfatal.prepend [_], hresult⟩
          · obtain ⟨rfl, -⟩ := exec_ret.mp hread
            exact absurd hlater not_anyRejected_nil
      | ok d =>
          obtain ⟨now, tr₂, rfl, hnow⟩ := exec_call_bind.mp hread
          split at hnow
          · rename_i haccepts
            obtain ⟨handled, tr₃, rfl, hhandled⟩ := exec_call_bind.mp hnow
            have hread : ¬ Rejected accepts ⟨.recvFrom localAddr, .ok d⟩ := by
              simp [Rejected, haccepts]
            have hlater : AnyRejected accepts tr₃ := ((hr.tail hread).tail id).tail id
            cases handled with
            | error e =>
                obtain ⟨rfl, -⟩ := exec_ret.mp hhandled
                exact absurd hlater not_anyRejected_nil
            | ok u =>
                obtain ⟨hfatal, hresult⟩ := ih hhandled hlater
                exact ⟨hfatal.prepend [_, _, _], hresult⟩
          · rename_i hrejects
            obtain ⟨rfl, rfl⟩ := exec_ret.mp hnow
            exact ⟨⟨[], localAddr, d, now, rfl, by simpa using hrejects⟩, rfl⟩

theorem pollLoop_fatal {deadline : Instant} {fuel : Nat} {peer peer' : Peer}
    {tr : List (Ev PeerSig)} {r : Except TransportError (List PeerEvent)}
    (h : Exec (pollLoop accepts deadline fuel peer) tr (r, peer'))
    (hr : AnyRejected accepts tr) : Fatal accepts tr ∧ r = .error .rtc := by
  induction fuel generalizing peer tr with
  | zero => exact absurd h exec_halt
  | succ fuel ih =>
      obtain ⟨tr₁, ⟨drained, peer₁⟩, tr₂, rfl, hdrain, hrest⟩ := exec_bind.mp h
      have hquiet : ∀ e ∈ tr₁, ¬ Rejected accepts e :=
        none_rejected (drainOutput_uses fuel peer []) hdrain
      have hlater : AnyRejected accepts tr₂ := by
        obtain ⟨e, he, hrejected⟩ := hr
        exact ⟨e, (List.mem_append.mp he).resolve_left fun h => hquiet e h hrejected, hrejected⟩
      suffices hsuffix : Fatal accepts tr₂ ∧ r = .error .rtc from
        ⟨hsuffix.1.prepend tr₁, hsuffix.2⟩
      rcases drained with e | events
      · obtain ⟨rfl, -⟩ := exec_ret.mp hrest
        exact absurd hlater not_anyRejected_nil
      dsimp only at hrest
      split at hrest
      · obtain ⟨rfl, -⟩ := exec_ret.mp hrest
        exact absurd hlater not_anyRejected_nil
      obtain ⟨now, tr₃, rfl, hwait⟩ := exec_call_bind.mp hrest
      have hwaiting : AnyRejected accepts tr₃ := hlater.tail id
      split at hwait
      · obtain ⟨rfl, -⟩ := exec_ret.mp hwait
        exact absurd hwaiting not_anyRejected_nil
      obtain ⟨tr₄, pumped, tr₅, rfl, hpump, hfed⟩ := exec_bind.mp hwait
      by_cases hpumped : AnyRejected accepts tr₄
      · obtain ⟨hfatal, rfl⟩ := pumpSockets_fatal hpump hpumped
        obtain ⟨rfl, hret⟩ := exec_ret.mp hfed
        obtain ⟨rfl, -⟩ := Prod.mk.inj hret
        rw [List.append_nil]
        exact ⟨hfatal.prepend [_], rfl⟩
      have hafter : AnyRejected accepts tr₅ := by
        obtain ⟨e, he, hrejected⟩ := hwaiting
        exact ⟨e, (List.mem_append.mp he).resolve_left fun h => hpumped ⟨e, h, hrejected⟩, hrejected⟩
      rcases pumped with e | gotInput
      · obtain ⟨rfl, -⟩ := exec_ret.mp hfed
        exact absurd hafter not_anyRejected_nil
      obtain ⟨later, tr₆, rfl, hlate⟩ := exec_call_bind.mp hfed
      obtain ⟨handled, tr₇, rfl, hhandled⟩ := exec_call_bind.mp hlate
      have hround : AnyRejected accepts tr₇ := (hafter.tail id).tail id
      have hprefix (hnext : Fatal accepts tr₇ ∧ r = .error .rtc) :
          Fatal accepts (⟨.now, now⟩ :: (tr₄ ++ ⟨.now, later⟩ ::
            ⟨.handleInput (.timeout later), handled⟩ :: tr₇)) ∧ r = .error .rtc :=
        ⟨((hnext.1.prepend [_, _]).prepend tr₄).prepend [_], hnext.2⟩
      apply hprefix
      rcases handled with e | u
      · obtain ⟨rfl, -⟩ := exec_ret.mp hhandled
        exact absurd hround not_anyRejected_nil
      dsimp only at hhandled
      split at hhandled
      · exact ih hhandled hround
      · obtain ⟨u, tr₈, rfl, hslept⟩ := exec_call_bind.mp hhandled
        obtain ⟨hfatal, hresult⟩ := ih hslept (hround.tail id)
        exact ⟨hfatal.prepend [_], hresult⟩

theorem poll_fatal {fuel : Nat} {peer peer' : Peer} {maxWait : Duration} {tr : List (Ev PeerSig)}
    {r : Except TransportError (List PeerEvent)}
    (h : Exec (peer.poll accepts fuel maxWait) tr (r, peer')) (hr : AnyRejected accepts tr) :
    Fatal accepts tr ∧ r = .error .rtc := by
  obtain ⟨now, rest, rfl, hloop⟩ := exec_call_bind.mp h
  obtain ⟨hfatal, hresult⟩ := pollLoop_fatal hloop (hr.tail id)
  exact ⟨hfatal.prepend [_], hresult⟩

theorem poll_sockets {fuel : Nat} {peer peer' : Peer} {maxWait : Duration} {tr : List (Ev PeerSig)}
    {r : Except TransportError (List PeerEvent)}
    (h : Exec (peer.poll accepts fuel maxWait) tr (r, peer')) : peer'.sockets = peer.sockets := by
  have hpeer : peer' = (peer.mapEvents (rtcEvents tr)).2 := (poll_maps h).1
  rw [hpeer, mapEvents_sockets]

end

end Peer

theorem PeerRun.sockets {accepts : Bytes → Bool} {peer peer' : Peer} {run : List Polled}
    (h : PeerRun accepts peer run peer') : peer'.sockets = peer.sockets := by
  induction h with
  | nil peer => rfl
  | cons hpoll rest ih => exact ih.trans (Peer.poll_sockets hpoll)

theorem PeerRun.polled {accepts : Bytes → Bool} {peer peer' : Peer} {run : List Polled}
    (h : PeerRun accepts peer run peer') : ∀ p ∈ run, ∃ fuel, ∃ q q' : Peer, ∃ maxWait,
      Exec (q.poll accepts fuel maxWait) p.trace (p.result, q') := by
  induction h with
  | nil peer => simp
  | @cons fuel peer peer₁ peer₂ maxWait tr r run hpoll rest ih =>
      intro p hp
      rcases List.mem_cons.mp hp with rfl | hp
      · exact ⟨fuel, peer, peer₁, maxWait, hpoll⟩
      · exact ih p hp

theorem stray_datagrams {accepts : Bytes → Bool} {peer peer' : Peer} {run : List Polled}
    (h : PeerRun accepts peer run peer') :
    ((∀ p ∈ run, Peer.Skips accepts peer.sockets p.trace) ↔
      ∀ p ∈ run, ¬ Peer.AnyRejected accepts p.trace) ∧
    ∀ p ∈ run, Peer.AnyRejected accepts p.trace →
      Peer.Fatal accepts p.trace ∧ p.result = .error .rtc := by
  have hfatal (p : Polled) (hp : p ∈ run) (hrejected : Peer.AnyRejected accepts p.trace) :
      Peer.Fatal accepts p.trace ∧ p.result = .error .rtc := by
    obtain ⟨fuel, q, q', maxWait, hexec⟩ := h.polled p hp
    exact Peer.poll_fatal hexec hrejected
  refine ⟨⟨fun hskips p hp hrejected => ?_, fun hnone p hp => ?_⟩, hfatal⟩
  · exact (hfatal p hp hrejected).1.not_skips _ (hskips p hp)
  · exact Peer.skips_of_none (fun e he hrejected => hnone p hp ⟨e, he, hrejected⟩) _

-- by the first byte, as the ranges for STUN, DTLS and RTP say
def firstByteAccepts : Bytes → Bool
  | [] => false
  | b :: _ => b < 2 || (20 ≤ b && b < 64) || (128 ≤ b && b < 192)

def strayFrom : SocketAddr := ⟨.v4 (filled 4 66), 9⟩

def datagram (b : Bytes) (h : b.length ≤ RECV_BUFFER) : Datagram := ⟨strayFrom, b, h⟩

def twoSockets : Peer where
  sockets := [⟨.v4 (filled 4 10), 5000⟩, ⟨.v4 (filled 4 11), 5001⟩]
  control := none
  distinct := by decide

def quietRound (first : Except ErrorKind Datagram) : List (Ev PeerSig) :=
  [⟨.now, (0 : Nat)⟩, ⟨.pollOutput, .ok (.timeout 0)⟩, ⟨.now, (1 : Nat)⟩,
    ⟨.recvFrom ⟨.v4 (filled 4 10), 5000⟩, first⟩]

def strayRun : Polled where
  trace := quietRound (.ok (datagram [] (by decide))) ++ [⟨.now, (2 : Nat)⟩]
  result := .error .rtc

-- the first socket has a datagram that is taken in
def busyRun : Polled where
  trace := quietRound (.ok (datagram [0] (by decide))) ++
    [⟨.now, (2 : Nat)⟩,
      ⟨.handleInput (.receive 2 strayFrom ⟨.v4 (filled 4 10), 5000⟩ [0]), .ok ()⟩,
      ⟨.recvFrom ⟨.v4 (filled 4 11), 5001⟩, .error .connectionReset⟩, ⟨.now, (3 : Nat)⟩,
      ⟨.handleInput (.timeout 3), .ok ()⟩, ⟨.pollOutput, .ok (.timeout 0)⟩, ⟨.now, (9 : Nat)⟩]
  result := .ok []

theorem sample_stray_datagrams : Peer.Skips firstByteAccepts twoSockets.sockets busyRun.trace := by
  have hpoll : Exec (twoSockets.poll firstByteAccepts 6 9) busyRun.trace
      (busyRun.result, twoSockets) := exec_of_replay rfl
  refine (stray_datagrams (.cons hpoll (.nil _))).1.mpr (fun p hp => ?_) busyRun (by simp)
  obtain rfl := List.mem_singleton.mp hp
  rintro ⟨e, he, hrejected⟩
  simp only [busyRun, quietRound, List.cons_append, List.nil_append, List.mem_cons,
    List.not_mem_nil, or_false] at he
  rcases he with rfl | rfl | rfl | rfl | rfl | rfl | rfl | rfl | rfl | rfl | rfl
  case inr.inr.inr.inl => cases hrejected
  all_goals exact hrejected

theorem empty_datagram_fatal : PeerRun firstByteAccepts twoSockets [strayRun] twoSockets ∧
    ¬ Peer.Skips firstByteAccepts twoSockets.sockets strayRun.trace ∧
    Exec (Channel.next 9 2 .new : Conn Unit Unit _)
      [⟨.now, (0 : Nat)⟩, ⟨.poll 9, strayRun.result⟩] (.error .rtc, .new) := by
  have hpoll : Exec (twoSockets.poll firstByteAccepts 6 9) strayRun.trace
      (strayRun.result, twoSockets) := exec_of_replay rfl
  have hfatal : Peer.Fatal firstByteAccepts strayRun.trace :=
    ⟨strayRun.trace.take 3, ⟨.v4 (filled 4 10), 5000⟩, datagram [] (by decide), (2 : Nat), rfl, rfl⟩
  exact ⟨.cons hpoll (.nil _), hfatal.not_skips _, exec_of_replay rfl⟩

end SimpleRemote
