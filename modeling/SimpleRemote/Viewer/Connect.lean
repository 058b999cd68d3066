import SimpleRemote.Transport.Channel

namespace SimpleRemote
open ByteCodec Interaction

inductive Side where
  | viewer | host
  deriving DecidableEq, Repr

inductive ConnectError where
  | wrongCode
  | retryAfter (wait : Duration)
  | hostNotWaiting
  | busy
  | rateLimited
  | hostLeft
  | rejected (reason : RejectReason)
  | versionMismatch (ours theirs : UInt32) (older : Side)
  | timeout (stage : Stage)
  | security (what : Text)
  | link (e : LinkError)
  | transport (e : TransportError)
  deriving DecidableEq

def ConnectError.fromJoinError : LinkError → ConnectError
  | .http 404 => .hostNotWaiting
  | .http 409 => .busy
  | .http 429 => .rateLimited
  | other => .link other

def fromLink : LinkError → ConnectError
  | .closed _ => .hostLeft
  | other => .link other

structure ViewerSession where
  host : PeerIdentity
  ch : Channel
  nextSeq : UInt64
  deriving DecidableEq

abbrev ViewerSig : Sig := conn ServerToViewer ViewerToServer

abbrev ViewerM (α : Type) := Conn ServerToViewer ViewerToServer α

abbrev ConnectResult := Except ConnectError ViewerSession

namespace Viewer

def relayOf (msg : PakeMsg) : ViewerToServer := .relay (hexEncode (PakeMsg.encode msg))

def sendRelay (msg : PakeMsg) : ViewerM (Except ConnectError Unit) := do
  match ← call (.linkSend (relayOf msg)) with
  | .ok () => return .ok ()
  | .error (.closed _) => return .ok ()
  | .error e => return .error (.link e)

def decodeRelay (data : Text) : Option PakeMsg :=
  match hexDecode data with
  | none => none
  | some b =>
      match PakeMsg.decode b with
      | .ok m => some m
      | .error _ => none

def recvRelay (timeout : Duration) (stage : Stage) : ViewerM (Except ConnectError PakeMsg) := do
  match ← call (.linkRecv timeout) with
  | .error e => return .error (fromLink e)
  | .ok (some (.relay data)) =>
      match decodeRelay data with
      | some m => return .ok m
      | none => return .error (.security "malformed relay".toList)
  | .ok (some .hostLeft) => return .error .hostLeft
  | .ok (some .joined) => return .error (.security "unexpected signaling".toList)
  | .ok none => return .error (.timeout stage)

def nextControl (fuel : Nat) (ch : Channel) (deadline : Instant) (stage : Stage) :
    ViewerM (Except ConnectError Control × Channel) := do
  match ← ch.next deadline fuel with
  | (.ok (.msg msg), ch') => return (.ok msg, ch')
  | (.ok .malformed, ch') => return (.error (.security "malformed control".toList), ch')
  | (.ok .closed, ch') => return (.error .hostLeft, ch')
  | (.ok .timedOut, ch') => return (.error (.timeout stage), ch')
  | (.error e, ch') => return (.error (.transport e), ch')

end Viewer

structure ViewerPake where
  state : PartyState
  deriving DecidableEq

variable (C : Crypto)

def ViewerPake.start (code : OneTimeCode) (hostId : Text) :
    ViewerM (Except AuthError (ViewerPake × Bytes)) :=
  match codeScalar C code with
  | .error e => return .error e
  | .ok w => do
      match ← call (.partyAStart w VIEWER_ID (hostIdBytes hostId) AAD) with
      | .error _ => return .error (.malformed "pake".toList)
      | .ok (pa, state) => return .ok (⟨state⟩, pa)

def ViewerPake.finish (pake : ViewerPake) (pb macB : Bytes) :
    ViewerM (Except AuthError (SessionKeys × Bytes)) := do
  match ← call (.finish pake.state pb) with
  | .error e => return .error (mapFinishErr e)
  | .ok output =>
      match toMac macB with
      | .error e => return .error e
      | .ok mac =>
          match ← call (.verifyPeerConfirmation output mac) with
          | .error e => return .error (mapConfirmationErr e)
          | .ok () => return .ok (deriveSessionKeys C output.sessionKey, output.confirmationMac.val)

namespace Viewer

structure Config where
  hostId : Text
  code : OneTimeCode
  keys : DeviceKeys
  bindIps : List IpAddr
  t : Timeouts

abbrev Handshake := Except ConnectError PeerIdentity × Channel

def olderSide (hostVersion : UInt32) : Side :=
  if PROTOCOL_VERSION < hostVersion then .viewer else .host

def judgeDecision (host : PeerIdentity) : Control → Except ConnectError PeerIdentity
  | .decision .accepted => .ok host
  | .decision (.rejected (.versionMismatch v)) =>
      .error (.versionMismatch PROTOCOL_VERSION v (olderSide v))
  | .decision (.rejected reason) => .error (.rejected reason)
  | _ => .error (.security "unexpected control".toList)

def awaitDecision (fuel : Nat) (cfg : Config) (host : PeerIdentity) (ch : Channel) :
    ViewerM Handshake := do
  let now ← call .now
  match ← nextControl fuel ch (now + cfg.t.approval + cfg.t.signalingStep) .decision with
  | (.error e, ch') => return (.error e, ch')
  | (.ok msg, ch') => return (judgeDecision host msg, ch')

def judgeHello (fuel : Nat) (cfg : Config) (sk : SessionKeys) (localFp remoteFp : Bytes)
    (hello : Hello) (ch : Channel) : ViewerM Handshake :=
  match verifyHello C hello .host sk.helloBinding remoteFp localFp with
  | .error _ => return (.error (.security "host identity".toList), ch)
  | .ok host => awaitDecision fuel cfg host ch

def exchangeHello (fuel : Nat) (cfg : Config) (sk : SessionKeys) (ch : Channel) :
    ViewerM Handshake := do
  let localFp ← call .localFingerprint
  match ← call .remoteFingerprint with
  | none => return (.error (.security "no remote fingerprint".toList), ch)
  | some remoteFp =>
      match ← Channel.send
        (.hello (cfg.keys.makeHello C .viewer sk.helloBinding localFp remoteFp)) with
      | .error e => return (.error (.transport e), ch)
      | .ok () =>
          let now ← call .now
          match ← nextControl fuel ch (now + cfg.t.signalingStep) .hello with
          | (.error e, ch') => return (.error e, ch')
          | (.ok (.hello h), ch') => judgeHello C fuel cfg sk localFp remoteFp h ch'
          | (.ok _, ch') => return (.error (.security "unexpected control".toList), ch')

def waitReady (fuel : Nat) (cfg : Config) (sk : SessionKeys) (ch : Channel) :
    ViewerM Handshake := do
  let now ← call .now
  match ← ch.waitOpen (now + cfg.t.connect) fuel with
  | (.error e, ch') => return (.error (.transport e), ch')
  | (.ok .ready, ch') => exchangeHello C fuel cfg sk ch'
  | (.ok .closed, ch') => return (.error .hostLeft, ch')
  | (.ok .timedOut, ch') => return (.error (.timeout .connect), ch')

def openAnswer (sk : SessionKeys) (sealedAnswer : Bytes) : Option Text :=
  match sk.viewerSide.2.open C sealedAnswer with
  | .ok (b, _) => fromUtf8 b
  | .error _ => none

def takeAnswer (fuel : Nat) (cfg : Config) (sk : SessionKeys) (pending : PendingOffer)
    (sealedAnswer : Bytes) (ch : Channel) : ViewerM Handshake :=
  match openAnswer C sk sealedAnswer with
  | none => return (.error (.security "sealed answer".toList), ch)
  | some answer => do
      match ← call (.acceptAnswer pending answer) with
      | .error e => return (.error (.transport e), ch)
      | .ok () => waitReady C fuel cfg sk ch

def awaitAnswer (fuel : Nat) (cfg : Config) (sk : SessionKeys) (pending : PendingOffer)
    (ch : Channel) : ViewerM Handshake := do
  match ← recvRelay cfg.t.signalingStep .answer with
  | .error e => return (.error e, ch)
  | .ok (.answer sealedAnswer) => takeAnswer C fuel cfg sk pending sealedAnswer ch
  | .ok .rejected => return (.error (.security "host rejected confirm".toList), ch)
  | .ok _ => return (.error (.security "unexpected relay".toList), ch)

def sendConfirm (fuel : Nat) (cfg : Config) (sk : SessionKeys) (macA sealedOffer : Bytes)
    (pending : PendingOffer) (ch : Channel) : ViewerM Handshake := do
  match ← sendRelay (.confirm macA sealedOffer) with
  | .error e => return (.error e, ch)
  | .ok () => awaitAnswer C fuel cfg sk pending ch

def handshake (fuel : Nat) (cfg : Config) (sk : SessionKeys) (macA : Bytes) (ch : Channel) :
    ViewerM Handshake := do
  match ← call .createOffer with
  | .error e => return (.error (.transport e), ch)
  | .ok (offer, pending) =>
      match sk.viewerSide.1.seal C (utf8 offer) with
      | none => .halt
      | some (sealedOffer, _) => sendConfirm C fuel cfg sk macA sealedOffer pending ch

-- on failure `ch` is dropped, which closes the peer
def finishConnect : Handshake → ViewerM ConnectResult
  | (.ok host, ch) => return .ok ⟨host, ch, 0⟩
  | (.error e, ch) => do
      let _ ← ch.close
      return .error e

def openPeer (fuel : Nat) (cfg : Config) (sk : SessionKeys) (macA : Bytes) :
    ViewerM ConnectResult := do
  match ← call (.peerNew cfg.bindIps) with
  | .error e => return .error (.transport e)
  | .ok () =>
      let r ← handshake C fuel cfg sk macA Channel.new
      finishConnect r

def finishErr : AuthError → ConnectError
  | .wrongCode => .wrongCode
  | _ => .security "malformed relay".toList

def awaitReply (fuel : Nat) (cfg : Config) (pake : ViewerPake) : ViewerM ConnectResult := do
  match ← recvRelay cfg.t.signalingStep .pake with
  | .error e => return .error e
  | .ok (.reply pb macB) =>
      match ← pake.finish C pb macB with
      | .error e => return .error (finishErr e)
      | .ok (sk, macA) => openPeer C fuel cfg sk macA
  | .ok (.retryAfter ms) => return .error (.retryAfter (Duration.fromMillis ms.toNat))
  | .ok _ => return .error (.security "unexpected relay".toList)

def sendStart (fuel : Nat) (cfg : Config) (pake : ViewerPake) (pa : Bytes) :
    ViewerM ConnectResult := do
  match ← sendRelay (.start pa) with
  | .error e => return .error e
  | .ok () => awaitReply C fuel cfg pake

def joined (fuel : Nat) (cfg : Config) : ViewerM ConnectResult := do
  match ← ViewerPake.start C cfg.code cfg.hostId with
  | .error _ => return .error (.security "pake start".toList)
  | .ok (pake, pa) => sendStart C fuel cfg pake pa

def connect (fuel : Nat) (cfg : Config) : ViewerM ConnectResult := do
  match ← call (.linkRecv cfg.t.signalingStep) with
  | .error e => return .error (fromLink e)
  | .ok (some .joined) => joined C fuel cfg
  | .ok (some .hostLeft) => return .error .hostLeft
  | .ok (some (.relay _)) => return .error (.security "unexpected relay".toList)
  | .ok none => return .error (.timeout .join)

end Viewer

end SimpleRemote
