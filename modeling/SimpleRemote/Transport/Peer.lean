import SimpleRemote.Transport.Channel

namespace SimpleRemote
open ByteCodec Interaction

structure SocketAddr where
  ip : IpAddr
  port : UInt16
  deriving DecidableEq

abbrev ChannelId := Nat

inductive RtcEvent where
  | connected
  | channelOpen (id : ChannelId) (label : Text)
  | channelData (id : ChannelId) (data : Bytes)
  | channelClose (id : ChannelId)
  | closed
  | other
  deriving DecidableEq

inductive Output where
  | timeout (due : Instant)
  | transmit (source destination : SocketAddr) (contents : Bytes)
  | event (e : RtcEvent)
  deriving DecidableEq

inductive ErrorKind where
  | wouldBlock | timedOut | connectionReset | connectionRefused
  | permissionDenied | invalidInput | notConnected | other
  deriving DecidableEq

def RECV_BUFFER : Nat := 2000

structure Datagram where
  source : SocketAddr
  contents : Bytes
  fits : contents.length ≤ RECV_BUFFER
  deriving DecidableEq

inductive Input where
  | timeout (now : Instant)
  | receive (now : Instant) (source destination : SocketAddr) (contents : Bytes)
  deriving DecidableEq

-- what a peer asks of the clock, of its UDP sockets and of str0m's `Rtc`
inductive PeerOp where
  | now
  | sleep (d : Duration)
  | recvFrom (sock : SocketAddr)
  | sendTo (sock destination : SocketAddr) (contents : Bytes)
  | pollOutput
  | handleInput (input : Input)
  | write (id : ChannelId) (data : Bytes)
  deriving DecidableEq

@[reducible] def PeerOp.Res : PeerOp → Type
  | .now => Instant
  | .sleep _ => Unit
  | .recvFrom _ => Except ErrorKind Datagram
  | .sendTo _ _ _ => Except ErrorKind Unit
  | .pollOutput => Except Unit Output
  | .handleInput _ => Except Unit Unit
  | .write _ _ => Option (Except Unit Bool)

@[reducible] def PeerSig : Sig := ⟨PeerOp, PeerOp.Res⟩

abbrev PeerM (α : Type) := Prog PeerSig α

def CONTROL_LABEL : Text := "control".toList

structure Peer where
  sockets : List SocketAddr
  control : Option ChannelId
  distinct : sockets.Nodup

namespace Peer

abbrev ask (o : PeerOp) : PeerM (PeerOp.Res o) := Prog.call (S := PeerSig) o

def mapEvent (peer : Peer) : RtcEvent → Option PeerEvent × Peer
  | .connected => (some .connected, peer)
  | .channelOpen id label =>
      if label = CONTROL_LABEL then (some .channelOpen, { peer with control := some id })
      else (none, peer)
  | .channelData _ data => (some (.data data), peer)
  | .channelClose id => if peer.control = some id then (some .closed, peer) else (none, peer)
  | .closed => (some .closed, peer)
  | .other => (none, peer)

def recvErrorIsTransient : ErrorKind → Bool
  | .wouldBlock | .timedOut | .connectionReset | .connectionRefused => true
  | _ => false

def transmit (peer : Peer) (source destination : SocketAddr) (contents : Bytes) : PeerM Unit :=
  if source ∈ peer.sockets then do
    let _ ← ask (.sendTo source destination contents)
    return ()
  else return ()

def drainOutput : Nat → Peer → List PeerEvent →
    PeerM (Except TransportError (List PeerEvent) × Peer)
  | 0, _, _ => .halt
  | fuel + 1, peer, events => do
      match ← ask .pollOutput with
      | .error _ => return (.error .rtc, peer)
      | .ok (.timeout _) => return (.ok events, peer)
      | .ok (.transmit source destination contents) =>
          transmit peer source destination contents
          drainOutput fuel peer events
      | .ok (.event event) =>
          let (mapped, peer') := peer.mapEvent event
          drainOutput fuel peer' (events ++ mapped.toList)

section
variable (accepts : Bytes → Bool)

-- `accepts` is str0m's conversion of a received slice to the contents of a `Receive`
def pumpSockets : List SocketAddr → Bool → PeerM (Except TransportError Bool)
  | [], gotInput => return .ok gotInput
  | localAddr :: rest, gotInput => do
      match ← ask (.recvFrom localAddr) with
      | .ok d =>
          let now ← ask .now
          if accepts d.contents then
            match ← ask (.handleInput (.receive now d.source localAddr d.contents)) with
            | .error _ => return .error .rtc
            | .ok () => pumpSockets rest true
          else return .error .rtc
      | .error kind =>
          if recvErrorIsTransient kind then pumpSockets rest gotInput else return .error .io

def pollLoop (deadline : Instant) : Nat → Peer →
    PeerM (Except TransportError (List PeerEvent) × Peer)
  | 0, _ => .halt
  | fuel + 1, peer => do
      match ← drainOutput fuel peer [] with
      | (.error e, peer) => return (.error e, peer)
      | (.ok events, peer) =>
          if events ≠ [] then return (.ok events, peer)
          else do
            let now ← ask .now
            if deadline ≤ now then return (.ok events, peer)
            else
              match ← pumpSockets accepts peer.sockets false with
              | .error e => return (.error e, peer)
              | .ok gotInput =>
                  let now ← ask .now
                  match ← ask (.handleInput (.timeout now)) with
                  | .error _ => return (.error .rtc, peer)
                  | .ok () =>
                      if gotInput then pollLoop deadline fuel peer
                      else do
                        ask (.sleep (Duration.fromMillis 1))
                        pollLoop deadline fuel peer

def poll (fuel : Nat) (peer : Peer) (maxWait : Duration) :
    PeerM (Except TransportError (List PeerEvent) × Peer) := do
  let now ← ask .now
  pollLoop accepts (now + maxWait) fuel peer

end

def send (peer : Peer) (data : Bytes) : PeerM (Except TransportError Unit) :=
  match peer.control with
  | none => return .error .noChannel
  | some id => do
      match ← ask (.write id data) with
      | none => return .error .noChannel
      | some (.error _) => return .error .rtc
      | some (.ok wrote) => if wrote then return .ok () else return .error .backpressure

def rtcEvent : Ev PeerSig → Option RtcEvent
  | ⟨.pollOutput, .ok (.event e)⟩ => some e
  | _ => none

def rtcEvents (tr : List (Ev PeerSig)) : List RtcEvent := tr.filterMap rtcEvent

theorem rtcEvents_append (tr tr' : List (Ev PeerSig)) :
    rtcEvents (tr ++ tr') = rtcEvents tr ++ rtcEvents tr' := List.filterMap_append

theorem rtcEvents_cons_other {o : PeerOp} {r : PeerOp.Res o} {tr : List (Ev PeerSig)}
    (ho : o ≠ .pollOutput) : rtcEvents (⟨o, r⟩ :: tr) = rtcEvents tr := by
  cases o <;> first | rfl | exact absurd rfl ho

def mapEvents (peer : Peer) : List RtcEvent → List PeerEvent × Peer
  | [] => ([], peer)
  | e :: es =>
      let (mapped, peer') := peer.mapEvent e
      let (rest, peer'') := peer'.mapEvents es
      (mapped.toList ++ rest, peer'')

theorem mapEvents_append (peer : Peer) (es es' : List RtcEvent) :
    peer.mapEvents (es ++ es') = ((peer.mapEvents es).1 ++ ((peer.mapEvents es).2.mapEvents es').1,
      ((peer.mapEvents es).2.mapEvents es').2) := by
  induction es generalizing peer with
  | nil => rfl
  | cons e es ih => simp [mapEvents, ih]

theorem mapEvents_sockets (peer : Peer) (es : List RtcEvent) :
    (peer.mapEvents es).2.sockets = peer.sockets := by
  induction es generalizing peer with
  | nil => rfl
  | cons e es ih =>
      rw [mapEvents, ih]
      cases e with
      | channelOpen id label => dsimp only [mapEvent]; split <;> rfl
      | channelClose id => dsimp only [mapEvent]; split <;> rfl
      | _ => rfl

theorem rtcEvents_of_uses {α : Type} {p : PeerM α} {tr : List (Ev PeerSig)} {a : α}
    (hp : p.Uses fun o : PeerOp => o ≠ .pollOutput) (h : Exec p tr a) : rtcEvents tr = [] := by
  refine List.filterMap_eq_nil_iff.mpr fun e he => ?_
  have hne := (hp.path h).1 e he
  obtain ⟨o, r⟩ := e
  cases o <;> first | rfl | exact absurd rfl hne

theorem transmit_uses (peer : Peer) (source destination : SocketAddr) (contents : Bytes) :
    (transmit peer source destination contents).Uses fun o : PeerOp => o ≠ .pollOutput := by
  rw [transmit]
  split
  · exact uses_bind (uses_call.mpr (by simp)) fun _ => trivial
  · trivial

theorem pumpSockets_uses (accepts : Bytes → Bool) (sockets : List SocketAddr) (gotInput : Bool) :
    (pumpSockets accepts sockets gotInput).Uses fun o : PeerOp => o ≠ .pollOutput := by
  induction sockets generalizing gotInput with
  | nil => trivial
  | cons localAddr rest ih =>
      refine uses_bind (uses_call.mpr (by simp)) fun r => ?_
      cases r with
      | error kind =>
          dsimp only
          split
          · exact ih gotInput
          · trivial
      | ok d =>
          refine uses_bind (uses_call.mpr (by simp)) fun now => ?_
          split
          · refine uses_bind (uses_call.mpr (by simp)) fun handled => ?_
            cases handled with
            | error e => trivial
            | ok u => exact ih true
          · trivial

-- a call's result and the peer after it are those of the events it read
def Maps (peer : Peer) (acc : List PeerEvent) (tr : List (Ev PeerSig))
    (out : Except TransportError (List PeerEvent) × Peer) : Prop :=
  out.2 = (peer.mapEvents (rtcEvents tr)).2 ∧
    ∀ events, out.1 = .ok events → events = acc ++ (peer.mapEvents (rtcEvents tr)).1

theorem drainOutput_maps {fuel : Nat} {peer : Peer} {acc : List PeerEvent}
    {tr : List (Ev PeerSig)} {out : Except TransportError (List PeerEvent) × Peer}
    (h : Exec (drainOutput fuel peer acc) tr out) : Maps peer acc tr out := by
  induction fuel generalizing peer acc tr with
  | zero => exact absurd h exec_halt
  | succ fuel ih =>
      obtain ⟨r, rest, rfl, hrest⟩ := exec_call_bind.mp h
      rcases r with e | o
      · obtain ⟨rfl, rfl⟩ := exec_ret.mp hrest
        exact ⟨rfl, fun events he => by cases he⟩
      cases o with
      | timeout due =>
          obtain ⟨rfl, rfl⟩ := exec_ret.mp hrest
          exact ⟨rfl, fun events he => (Except.ok.inj he).symm.trans (List.append_nil acc).symm⟩
      | transmit source destination contents =>
          obtain ⟨tr₁, u, tr₂, rfl, hsend, hdrain⟩ := exec_bind.mp hrest
          have hnone := rtcEvents_of_uses (transmit_uses peer source destination contents) hsend
          have hevents : rtcEvents (⟨.pollOutput, .ok (.transmit source destination contents)⟩ ::
              (tr₁ ++ tr₂)) = rtcEvents tr₂ := by
            have hrest : rtcEvents (tr₁ ++ tr₂) = rtcEvents tr₂ := by
              rw [rtcEvents_append, hnone, List.nil_append]
            exact hrest
          rw [Maps, hevents]
          exact ih hdrain
      | event e =>
          obtain ⟨hpeer, hresult⟩ := ih hrest
          exact ⟨hpeer, fun events he => (hresult events he).trans (List.append_assoc ..)⟩

theorem Maps.after {peer : Peer} {tr tr' : List (Ev PeerSig)}
    {out : Except TransportError (List PeerEvent) × Peer}
    (hnone : (peer.mapEvents (rtcEvents tr)).1 = [])
    (h : Maps (peer.mapEvents (rtcEvents tr)).2 [] tr' out) : Maps peer [] (tr ++ tr') out := by
  rw [Maps, rtcEvents_append, mapEvents_append, hnone]
  exact h

theorem Maps.quiet {peer : Peer} {tr tr' : List (Ev PeerSig)}
    {out : Except TransportError (List PeerEvent) × Peer}
    (hsame : rtcEvents tr = rtcEvents tr') (h : Maps peer [] tr' out) : Maps peer [] tr out := by
  rw [Maps, hsame]
  exact h

theorem maps_failed (peer : Peer) (e : TransportError) : Maps peer [] [] (.error e, peer) :=
  ⟨rfl, fun _ he => by cases he⟩

theorem maps_idle (peer : Peer) : Maps peer [] [] (.ok [], peer) :=
  ⟨rfl, fun _ he => (Except.ok.inj he).symm⟩

theorem pollLoop_maps {accepts : Bytes → Bool} {deadline : Instant} {fuel : Nat} {peer : Peer}
    {tr : List (Ev PeerSig)} {out : Except TransportError (List PeerEvent) × Peer}
    (h : Exec (pollLoop accepts deadline fuel peer) tr out) : Maps peer [] tr out := by
  induction fuel generalizing peer tr with
  | zero => exact absurd h exec_halt
  | succ fuel ih =>
      obtain ⟨tr₁, ⟨drained, peer₁⟩, tr₂, rfl, hdrain, hrest⟩ := exec_bind.mp h
      obtain ⟨rfl, hdrained⟩ := drainOutput_maps hdrain
      rcases drained with e | events
      · obtain ⟨rfl, rfl⟩ := exec_ret.mp hrest
        exact ⟨by simp, fun events he => by cases he⟩
      obtain rfl := hdrained events rfl
      dsimp only at hrest
      split at hrest
      · obtain ⟨rfl, rfl⟩ := exec_ret.mp hrest
        exact ⟨by simp, fun events he => by simpa using (Except.ok.inj he).symm⟩
      rename_i hsome
      have hnone : (peer.mapEvents (rtcEvents tr₁)).1 = [] := by simpa using hsome
      refine Maps.after hnone ?_
      obtain ⟨now, tr₃, rfl, hwait⟩ := exec_call_bind.mp hrest
      refine Maps.quiet (rtcEvents_cons_other (by simp)) ?_
      split at hwait
      · obtain ⟨rfl, rfl⟩ := exec_ret.mp hwait
        rw [hnone]
        exact maps_idle _
      obtain ⟨tr₄, pumped, tr₅, rfl, hpump, hfed⟩ := exec_bind.mp hwait
      have hsilent := rtcEvents_of_uses (pumpSockets_uses accepts _ false) hpump
      have hsame : rtcEvents (tr₄ ++ tr₅) = rtcEvents tr₅ := by
        rw [rtcEvents_append, hsilent, List.nil_append]
      refine Maps.quiet hsame ?_
      rcases pumped with e | gotInput
      · obtain ⟨rfl, rfl⟩ := exec_ret.mp hfed
        exact maps_failed _ e
      obtain ⟨later, tr₆, rfl, hlater⟩ := exec_call_bind.mp hfed
      obtain ⟨handled, tr₇, rfl, hhandled⟩ := exec_call_bind.mp hlater
      have hclock : rtcEvents (⟨.now, later⟩ :: ⟨.handleInput (.timeout later), handled⟩ :: tr₇) =
          rtcEvents tr₇ := rfl
      refine Maps.quiet hclock ?_
      rcases handled with e | u
      · obtain ⟨rfl, rfl⟩ := exec_ret.mp hhandled
        exact maps_failed _ .rtc
      dsimp only at hhandled
      split at hhandled
      · exact ih hhandled
      · obtain ⟨u, tr₈, rfl, hslept⟩ := exec_call_bind.mp hhandled
        exact Maps.quiet (rtcEvents_cons_other (by simp)) (ih hslept)

theorem poll_maps {accepts : Bytes → Bool} {fuel : Nat} {peer : Peer} {maxWait : Duration}
    {tr : List (Ev PeerSig)} {out : Except TransportError (List PeerEvent) × Peer}
    (h : Exec (poll accepts fuel peer maxWait) tr out) : Maps peer [] tr out := by
  obtain ⟨now, rest, rfl, hloop⟩ := exec_call_bind.mp h
  exact Maps.quiet (rtcEvents_cons_other (by simp)) (pollLoop_maps hloop)

end Peer

structure Polled where
  trace : List (Ev PeerSig)
  result : Except TransportError (List PeerEvent)

-- one peer polled again and again, with anything arriving in between
inductive PeerRun (accepts : Bytes → Bool) : Peer → List Polled → Peer → Prop
  | nil (peer : Peer) : PeerRun accepts peer [] peer
  | cons {fuel : Nat} {peer peer₁ peer₂ : Peer} {maxWait : Duration} {tr : List (Ev PeerSig)}
      {r : Except TransportError (List PeerEvent)} {run : List Polled}
      (h : Exec (peer.poll accepts fuel maxWait) tr (r, peer₁))
      (rest : PeerRun accepts peer₁ run peer₂) : PeerRun accepts peer (⟨tr, r⟩ :: run) peer₂

end SimpleRemote
