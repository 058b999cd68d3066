import SimpleRemote.Host.Attempts
import SimpleRemote.Transport.Channel

namespace SimpleRemote
open ByteCodec Interaction

structure HostConfig where
  hostId : Text
  keys : DeviceKeys
  bindIps : List IpAddr
  timeouts : Timeouts
  protocolVersion : UInt32

structure HostState where
  code : OneTimeCode
  limiter : AttemptLimiter
  deriving DecidableEq

inductive AttemptFailure where
  | waitRequired
  | noConfirm
  | wrongCode
  | malformed
  | timeout (stage : Stage)
  | denied
  | versionMismatch
  | badIdentity
  | transport
  deriving DecidableEq, Repr

structure HostSession where
  viewer : PeerIdentity
  ch : Channel
  deriving DecidableEq

inductive ServeOutcome where
  | session (s : HostSession)
  | failed (failure : AttemptFailure)
  | viewerLeft
  deriving DecidableEq

inductive HostError where
  | link (e : LinkError)
  | transport (e : TransportError)
  deriving DecidableEq, Repr

abbrev HostSig : Sig := conn ServerToHost HostToServer

abbrev HostM (α : Type) := Conn ServerToHost HostToServer α

abbrev ServeResult := Except HostError ServeOutcome

def relayOf (msg : PakeMsg) : HostToServer := .relay (hexEncode (PakeMsg.encode msg))

def sendRelay (msg : PakeMsg) : HostM (Except LinkError Unit) := call (.linkSend (relayOf msg))

inductive Relay where
  | msg (m : PakeMsg)
  | malformed
  | left
  | timedOut

def decodeRelay (data : Text) : Relay :=
  match hexDecode data with
  | none => .malformed
  | some b =>
      match PakeMsg.decode b with
      | .ok m => .msg m
      | .error _ => .malformed

def recvRelay (timeout : Duration) : HostM (Except LinkError Relay) := do
  match ← call (.linkRecv timeout) with
  | .error e => return .error e
  | .ok (some (.relay data)) => return .ok (decodeRelay data)
  | .ok (some .viewerLeft) => return .ok .left
  | .ok (some _) => return .ok .malformed
  | .ok none => return .ok .timedOut

def kicked (failure : AttemptFailure) : HostM ServeResult := do
  match ← call (.linkSend .kick) with
  | .error e => return .error (.link e)
  | .ok () => return .ok (.failed failure)

def rejectRelay (failure : AttemptFailure) : HostM ServeResult := do
  match ← sendRelay .rejected with
  | .error e => return .error (.link e)
  | .ok () => kicked failure

structure HostPake where
  output : Spake2Output
  deriving DecidableEq

variable (C : Crypto)

def HostPake.respond (code : OneTimeCode) (hostId : Text) (pa : Bytes) :
    HostM (Except AuthError (HostPake × Bytes × Bytes)) :=
  match codeScalar C code with
  | .error e => return .error e
  | .ok w => do
      match ← call (.partyBStart w VIEWER_ID (hostIdBytes hostId) AAD) with
      | .error _ => return .error (.malformed "pake".toList)
      | .ok (pb, state) =>
          match ← call (.finish state pa) with
          | .error e => return .error (mapFinishErr e)
          | .ok output => return .ok (⟨output⟩, pb, output.confirmationMac.val)

def HostPake.confirm (pake : HostPake) (macA : Bytes) : HostM (Except AuthError SessionKeys) :=
  match toMac macA with
  | .error e => return .error e
  | .ok mac => do
      match ← call (.verifyPeerConfirmation pake.output mac) with
      | .error e => return .error (mapConfirmationErr e)
      | .ok () => return .ok (deriveSessionKeys C pake.output.sessionKey)

inductive Approval where
  | granted
  | denied
  | noResponse
  | failed (f : AttemptFailure)
  deriving DecidableEq

def APPROVAL_POLL : Duration := Duration.fromMillis 50

def waitApprovalLoop (fuel : Nat) (req : ApprovalRequest) (deadline : Instant) :
    Nat → Channel → HostM (Approval × Channel)
  | 0, _ => .halt
  | n + 1, ch => do
      match ← call (.approve req) with
      | some true => return (.granted, ch)
      | some false => return (.denied, ch)
      | none =>
          let now ← call .now
          if deadline ≤ now then return (.noResponse, ch)
          else
            match ← ch.next (min (now + APPROVAL_POLL) deadline) fuel with
            | (.ok .timedOut, ch') => waitApprovalLoop fuel req deadline n ch'
            | (.ok (.msg _), ch') => return (.failed .malformed, ch')
            | (.ok .malformed, ch') => return (.failed .malformed, ch')
            | (.ok .closed, ch') => return (.failed .transport, ch')
            | (.error _, ch') => return (.failed .transport, ch')

def waitApproval (fuel : Nat) (ch : Channel) (req : ApprovalRequest) (limit : Duration) :
    HostM (Approval × Channel) := do
  let start ← call .now
  waitApprovalLoop fuel req (start + limit) fuel ch

def linger (fuel : Nat) (deadline : Instant) : Nat → Channel → HostM Channel
  | 0, _ => .halt
  | n + 1, ch => do
      match ← ch.next deadline fuel with
      | (.ok (.msg _), ch') => linger fuel deadline n ch'
      | (.ok .malformed, ch') => linger fuel deadline n ch'
      | (_, ch') => return ch'

-- `ch` is dropped on return, which closes the peer
def failWith (ch : Channel) (failure : AttemptFailure) : HostM ServeOutcome := do
  let _ ← ch.close
  return .failed failure

def rejectDecision (fuel : Nat) (ch : Channel) (reason : RejectReason) (failure : AttemptFailure)
    (lingerFor : Duration) : HostM ServeOutcome := do
  match ← Channel.send (.decision (.rejected reason)) with
  | .error _ => failWith ch failure
  | .ok () =>
      let start ← call .now
      let ch' ← linger fuel (start + lingerFor) fuel ch
      failWith ch' failure

def approvalRequest (viewer : PeerIdentity) : ApprovalRequest :=
  ⟨viewer.name, keyFingerprint C viewer.deviceKey⟩

def accept (st : HostState) (viewer : PeerIdentity) (ch : Channel) :
    HostM (ServeOutcome × HostState) := do
  match ← Channel.send (.decision .accepted) with
  | .error _ => return (← failWith ch .transport, st)
  | .ok () =>
      let code ← call .generateCode
      return (.session ⟨viewer, ch⟩, { st with code := code })

def askApproval (fuel : Nat) (cfg : HostConfig) (st : HostState) (viewer : PeerIdentity)
    (ch : Channel) : HostM (ServeOutcome × HostState) := do
  match ← waitApproval fuel ch (approvalRequest C viewer) cfg.timeouts.approval with
  | (.granted, ch') => accept st viewer ch'
  | (.denied, ch') =>
      return (← rejectDecision fuel ch' .denied .denied cfg.timeouts.signalingStep, st)
  | (.noResponse, ch') =>
      return (← rejectDecision fuel ch' .noResponse .denied cfg.timeouts.signalingStep, st)
  | (.failed f, ch') => return (← failWith ch' f, st)

def judgeHello (fuel : Nat) (cfg : HostConfig) (st : HostState) (sk : SessionKeys)
    (localFp remoteFp : Bytes) (viewerHello : Hello) (ch : Channel) :
    HostM (ServeOutcome × HostState) :=
  match verifyHello C viewerHello .viewer sk.helloBinding remoteFp localFp with
  | .error _ => do
      return (← rejectDecision fuel ch .badIdentity .badIdentity cfg.timeouts.signalingStep, st)
  | .ok viewer =>
      if viewerHello.protocolVersion ≠ cfg.protocolVersion then do
        let reason := RejectReason.versionMismatch cfg.protocolVersion
        return (← rejectDecision fuel ch reason .versionMismatch cfg.timeouts.signalingStep, st)
      else askApproval C fuel cfg st viewer ch

def hostHello (cfg : HostConfig) (sk : SessionKeys) (localFp remoteFp : Bytes) : Hello :=
  { cfg.keys.makeHello C .host sk.helloBinding localFp remoteFp with
    protocolVersion := cfg.protocolVersion }

def exchangeHello (fuel : Nat) (cfg : HostConfig) (st : HostState) (sk : SessionKeys)
    (ch : Channel) : HostM (ServeOutcome × HostState) := do
  let localFp ← call .localFingerprint
  match ← call .remoteFingerprint with
  | none => return (← failWith ch .badIdentity, st)
  | some remoteFp =>
      match ← Channel.send (.hello (hostHello C cfg sk localFp remoteFp)) with
      | .error _ => return (← failWith ch .transport, st)
      | .ok () =>
          let start ← call .now
          match ← ch.next (start + cfg.timeouts.signalingStep) fuel with
          | (.ok (.msg (.hello h)), ch') => judgeHello C fuel cfg st sk localFp remoteFp h ch'
          | (.ok (.msg _), ch') => return (← failWith ch' .malformed, st)
          | (.ok .malformed, ch') => return (← failWith ch' .malformed, st)
          | (.ok .timedOut, ch') => return (← failWith ch' (.timeout .hello), st)
          | (.ok .closed, ch') => return (← failWith ch' .transport, st)
          | (.error _, ch') => return (← failWith ch' .transport, st)

def handshake (fuel : Nat) (cfg : HostConfig) (st : HostState) (sk : SessionKeys)
    (ch : Channel) : HostM (ServeOutcome × HostState) := do
  let start ← call .now
  match ← ch.waitOpen (start + cfg.timeouts.connect) fuel with
  | (.ok .ready, ch') => exchangeHello C fuel cfg st sk ch'
  | (.ok .timedOut, ch') => return (← failWith ch' (.timeout .connect), st)
  | (.ok .closed, ch') => return (← failWith ch' .transport, st)
  | (.error _, ch') => return (← failWith ch' .transport, st)

def finishAttempt : ServeOutcome × HostState → HostM (ServeResult × HostState)
  | (.failed failure, st) => do return (← kicked failure, st)
  | (other, st) => return (.ok other, st)

def sendAnswer (fuel : Nat) (cfg : HostConfig) (st : HostState) (sk : SessionKeys)
    (sealedAnswer : Bytes) (ch : Channel) : HostM (ServeResult × HostState) := do
  match ← sendRelay (.answer sealedAnswer) with
  | .error e =>
      let _ ← ch.close
      return (.error (.link e), st)
  | .ok () =>
      let r ← handshake C fuel cfg st sk ch
      finishAttempt r

def answerOffer (fuel : Nat) (cfg : HostConfig) (st : HostState) (sk : SessionKeys)
    (offer : Text) : HostM (ServeResult × HostState) := do
  match ← call (.peerNew cfg.bindIps) with
  | .error _ => return (← kicked .transport, st)
  | .ok () =>
      let ch := Channel.new
      match ← call (.acceptOffer offer) with
      | .error _ =>
          let r ← rejectRelay .malformed
          let _ ← ch.close
          return (r, st)
      | .ok answer =>
          match sk.hostSide.1.seal C (utf8 answer) with
          | none => .halt
          | some (sealedAnswer, _) => sendAnswer C fuel cfg st sk sealedAnswer ch

def openOffer (sk : SessionKeys) (sealedOffer : Bytes) : Option Text :=
  match sk.hostSide.2.open C sealedOffer with
  | .ok (b, _) => fromUtf8 b
  | .error _ => none

def confirmed (fuel : Nat) (cfg : HostConfig) (st : HostState) (sk : SessionKeys)
    (sealedOffer : Bytes) : HostM (ServeResult × HostState) :=
  match openOffer C sk sealedOffer with
  | none => do return (← rejectRelay .malformed, st)
  | some offer => answerOffer C fuel cfg st sk offer

def judgeConfirm (fuel : Nat) (cfg : HostConfig) (st : HostState) (pake : HostPake)
    (macA sealedOffer : Bytes) : HostM (ServeResult × HostState) := do
  match ← pake.confirm C macA with
  | .error _ => return (← rejectRelay .wrongCode, st)
  | .ok sk => confirmed C fuel cfg { st with limiter := st.limiter.recordSuccess } sk sealedOffer

def awaitConfirm (fuel : Nat) (cfg : HostConfig) (st : HostState) (pake : HostPake) :
    HostM (ServeResult × HostState) := do
  match ← recvRelay cfg.timeouts.signalingStep with
  | .error e => return (.error (.link e), st)
  | .ok (.msg (.confirm macA sealedOffer)) => judgeConfirm C fuel cfg st pake macA sealedOffer
  | .ok (.msg _) => return (← rejectRelay .malformed, st)
  | .ok .malformed => return (← rejectRelay .malformed, st)
  | .ok .left => return (.ok (.failed .noConfirm), st)
  | .ok .timedOut => return (← kicked .noConfirm, st)

def recordAttempt (st : HostState) : HostM HostState := do
  let now ← call .now
  match st.limiter.recordFailure now with
  | none => .halt
  | some (limiter, outcome) =>
      if outcome.rotateCode then do
        let code ← call .generateCode
        return ⟨code, limiter⟩
      else return { st with limiter := limiter }

def sendReply (fuel : Nat) (cfg : HostConfig) (pake : HostPake) (pb macB : Bytes)
    (st : HostState) : HostM (ServeResult × HostState) := do
  match ← sendRelay (.reply pb macB) with
  | .error e => return (.error (.link e), st)
  | .ok () => awaitConfirm C fuel cfg st pake

def answerStart (fuel : Nat) (cfg : HostConfig) (st : HostState) (pa : Bytes) :
    HostM (ServeResult × HostState) := do
  match ← HostPake.respond C st.code cfg.hostId pa with
  | .error _ => return (← rejectRelay .malformed, st)
  | .ok (pake, pb, macB) =>
      let st' ← recordAttempt st
      sendReply C fuel cfg pake pb macB st'

def retryAfterMs (wait : Duration) : UInt64 := UInt64.ofNat (min ((wait + 999999) / 1000000) (2 ^ 64 - 1))

def attempt (fuel : Nat) (cfg : HostConfig) (st : HostState) : HostM (ServeResult × HostState) := do
  let now ← call .now
  match st.limiter.check now with
  | .error wait =>
      match ← sendRelay (.retryAfter (retryAfterMs wait)) with
      | .error e => return (.error (.link e), st)
      | .ok () => return (← kicked .waitRequired, st)
  | .ok () =>
      match ← recvRelay cfg.timeouts.signalingStep with
      | .error e => return (.error (.link e), st)
      | .ok (.msg (.start pa)) => answerStart C fuel cfg st pa
      | .ok (.msg _) => return (← rejectRelay .malformed, st)
      | .ok .malformed => return (← rejectRelay .malformed, st)
      | .ok .left => return (.ok .viewerLeft, st)
      | .ok .timedOut => return (← kicked (.timeout .pake), st)

def serveNext (cfg : HostConfig) (st : HostState) : Nat → HostM (ServeResult × HostState)
  | 0 => .halt
  | fuel + 1 => do
      match ← call (.linkRecv cfg.timeouts.signalingStep) with
      | .error e => return (.error (.link e), st)
      | .ok (some .viewerJoined) => attempt C fuel cfg st
      | .ok _ => serveNext cfg st fuel

end SimpleRemote
