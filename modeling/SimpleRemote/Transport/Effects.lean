import SimpleRemote.Library.Interaction
import SimpleRemote.Auth

namespace SimpleRemote
open ByteCodec Interaction

inductive LinkError where
  | closed (code : Option Nat)
  | http (status : Nat)
  | insecureUrl
  | io
  | protocol
  deriving DecidableEq, Repr

inductive TransportError where
  | io
  | rtc
  | backpressure
  | noChannel
  deriving DecidableEq, Repr

inductive IpAddr where
  | v4 (a : ByteArr 4)
  | v6 (a : ByteArr 16)
  deriving DecidableEq

inductive PeerEvent where
  | connected
  | channelOpen
  | data (d : Bytes)
  | closed
  deriving DecidableEq

structure PendingOffer where
  handle : Nat
  deriving DecidableEq

structure PartyState where
  handle : Nat
  deriving DecidableEq

structure Spake2Output where
  handle : Nat
  sessionKey : Bytes
  confirmationMac : ByteArr 32
  deriving DecidableEq

structure ApprovalRequest where
  viewerName : Text
  viewerKeyFingerprint : Text
  deriving DecidableEq

-- what a connection program asks of its surroundings: signaling link, clock, random
-- numbers, the SPAKE2 crate, the peer connection and the person at the host
inductive Op (Out : Type) where
  | linkSend (m : Out)
  | linkRecv (timeout : Duration)
  | now
  | generateCode
  | partyAStart (w : Nat) (idA idB aad : Bytes)
  | partyBStart (w : Nat) (idA idB aad : Bytes)
  | finish (st : PartyState) (msg : Bytes)
  | verifyPeerConfirmation (out : Spake2Output) (mac : ByteArr 32)
  | peerNew (bindIps : List IpAddr)
  | createOffer
  | acceptOffer (sdp : Text)
  | acceptAnswer (pending : PendingOffer) (sdp : Text)
  | poll (maxWait : Duration)
  | peerSend (data : Bytes)
  | localFingerprint
  | remoteFingerprint
  | peerClose
  | approve (req : ApprovalRequest)
  deriving DecidableEq

@[reducible] def Op.Res (In : Type) {Out : Type} : Op Out → Type
  | .linkSend _ => Except LinkError Unit
  | .linkRecv _ => Except LinkError (Option In)
  | .now => Instant
  | .generateCode => OneTimeCode
  | .partyAStart _ _ _ _ => Except Spake2Error (Bytes × PartyState)
  | .partyBStart _ _ _ _ => Except Spake2Error (Bytes × PartyState)
  | .finish _ _ => Except Spake2Error Spake2Output
  | .verifyPeerConfirmation _ _ => Except Spake2Error Unit
  | .peerNew _ => Except TransportError Unit
  | .createOffer => Except TransportError (Text × PendingOffer)
  | .acceptOffer _ => Except TransportError Text
  | .acceptAnswer _ _ => Except TransportError Unit
  | .poll _ => Except TransportError (List PeerEvent)
  | .peerSend _ => Except TransportError Unit
  | .localFingerprint => Bytes
  | .remoteFingerprint => Option Bytes
  | .peerClose => Unit
  | .approve _ => Option Bool

@[reducible] def conn (In Out : Type) : Sig := ⟨Op Out, Op.Res In⟩

abbrev Conn (In Out α : Type) := Prog (conn In Out) α

section
variable {In Out : Type}

abbrev call (o : Op Out) : Conn In Out (Op.Res In o) := Prog.call (S := conn In Out) o

end

def Op.waiting {Out : Type} : Op Out → Bool
  | .now => true
  | .poll _ => true
  | .peerClose => true
  | _ => false

def Op.onPeer {Out : Type} : Op Out → Bool
  | .peerSend _ => true
  | .localFingerprint => true
  | .remoteFingerprint => true
  | o => o.waiting

theorem Op.onPeer_of_waiting {Out : Type} {o : Op Out} (h : o.waiting = true) :
    o.onPeer = true := by
  cases o <;> first | rfl | cases h

abbrev Waits {In Out α : Type} (p : Conn In Out α) : Prop :=
  p.Uses fun o : Op Out => o.waiting = true

end SimpleRemote
