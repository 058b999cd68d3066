import SimpleRemote.Host.Approver
import SimpleRemote.Host.Guessing
import SimpleRemote.Host.Pong
import SimpleRemote.Host.Register
import SimpleRemote.Library.Handlers
import SimpleRemote.Viewer.Describe

namespace SimpleRemote
open ByteCodec Interaction

def AttemptFailure.debug : AttemptFailure → Text
  | .waitRequired => "WaitRequired".toList
  | .noConfirm => "NoConfirm".toList
  | .wrongCode => "WrongCode".toList
  | .malformed => "Malformed".toList
  | .timeout stage => "Timeout(".toList ++ stage.debug ++ ")".toList
  | .denied => "Denied".toList
  | .versionMismatch => "VersionMismatch".toList
  | .badIdentity => "BadIdentity".toList
  | .transport => "Transport".toList

section
variable (inner : Text)

def RegisterError.display : RegisterError → Text
  | .link e => "signaling error: ".toList ++ e.display inner
  | .protocol what => "unexpected registration message: ".toList ++ what

def HostError.display : HostError → Text
  | .link e => "signaling error: ".toList ++ e.display inner
  | .transport e => "transport error: ".toList ++ e.display inner

end

-- `random` draws the two secrets
def DeviceKeys.generate {S : Sig} (random : Prog S (ByteArr 32 × ByteArr 32)) (name : Text) :
    Prog S (Except AuthError DeviceKeys) :=
  match h : checkDeviceName name with
  | .error e => return .error e
  | .ok () => do
      let (signingKey, reconnectSecret) ← random
      return .ok ⟨signingKey, reconnectSecret, name, h⟩

def LOCALHOST : IpAddr := .v4 ⟨[127, 0, 0, 1], rfl⟩

def bindIps (ips : List IpAddr) : List IpAddr := if ips.isEmpty then [LOCALHOST] else ips

inductive ExitCode where
  | success
  | failure
  | usage
  deriving DecidableEq

-- the console host
namespace Agent

def USAGE : Text := "usage: host-agent --server <url> [--name <이름>] [--once]".toList

def SESSION_LIMIT : Duration := Duration.fromSecs (60 * 60)

structure Args where
  server : Text
  name : Text
  once : Bool

def parseArgsLoop (server : Option Text) (name : Text) (once : Bool) : List Text → Option Args
  | [] => server.map fun server => ⟨server, name, once⟩
  | arg :: args =>
      if arg = "--server".toList then
        match args with
        | [] => none
        | value :: args => parseArgsLoop (some value) name once args
      else if arg = "--name".toList then
        match args with
        | [] => none
        | value :: args => parseArgsLoop server value once args
      else if arg = "--once".toList then parseArgsLoop server name true args
      else none

def parseArgs (args : List Text) : Option Args := parseArgsLoop none "host".toList false args

-- a line of the standard output
inductive Line where
  | id (hostId : Text)
  | code (code : OneTimeCode)
  | approve (req : ApprovalRequest)
  | connected (name fingerprint : Text)
  | disconnected
  | attempt (failure : AttemptFailure)
  deriving DecidableEq

def Line.text : Line → Text
  | .id hostId => "ID ".toList ++ hostId
  | .code shown => "CODE ".toList ++ shown.digits
  | .approve req => Approver.question req
  | .connected name fingerprint => "CONNECTED ".toList ++ name ++ " ".toList ++ fingerprint
  | .disconnected => "DISCONNECTED".toList
  | .attempt failure => "ATTEMPT ".toList ++ failure.debug

-- what goes to the standard error
inductive Complaint where
  | usage
  | name
  | registration (e : RegisterError)
  | session (e : HostError)
  | server (e : HostError)
  deriving DecidableEq

def Complaint.text (inner : Text) : Complaint → Text
  | .usage => USAGE
  | .name => "이름은 1~64 byte 여야 합니다.".toList
  | .registration e => "signaling 서버에 등록하지 못했습니다: ".toList ++ e.display inner
  | .session e => "세션 연결이 끊겼습니다: ".toList ++ e.display inner
  | .server e => "signaling 서버와 연결이 끊겼습니다: ".toList ++ e.display inner

-- what the program asks of its surroundings: key material, the registration, the system's
-- addresses, all that `serve_next` asks for, standard output and input, and standard error
inductive AgentOp where
  | random
  | register (o : RegisterOp)
  | localIps
  | serve (o : Op HostToServer)
  | console (o : AskOp)
  | eprintln (c : Complaint)
  deriving DecidableEq

@[reducible] def AgentOp.Res : AgentOp → Type
  | .random => ByteArr 32 × ByteArr 32
  | .register o => RegisterOp.Res o
  | .localIps => List IpAddr
  | .serve o => Op.Res ServerToHost o
  | .console o => AskOp.Res o
  | .eprintln _ => Unit

@[reducible] def AgentSig : Sig := ⟨AgentOp, AgentOp.Res⟩

abbrev AgentM (α : Type) := Prog AgentSig α

abbrev ask (o : AgentOp) : AgentM (AgentOp.Res o) := Prog.call (S := AgentSig) o

def say (line : Line) : AgentM Unit := ask (.console (.say line.text))

def consoleCall : Handler AskSig AgentSig Unit := fun o _ => do
  return (← ask (.console o), ())

def registerCall : Handler RegisterSig AgentSig Unit := fun o _ => do
  return (← ask (.register o), ())

-- `serve_next` with the closure that asks the approver
def serveCall (fuel : Nat) : Handler HostSig AgentSig Approver
  | .approve req, approver => do
      let ((answer, approver'), ()) ← (approver.answer fuel req).handle consoleCall ()
      return (answer, approver')
  | o, approver => do
      return (← ask (.serve o), approver)

variable (C : Crypto)

def finishSession (once : Bool) (again : AgentM ExitCode) (served : Except HostError Unit) :
    AgentM ExitCode := do
  say .disconnected
  match served with
  | .error e =>
      ask (.eprintln (.session e))
      if once then return .failure else again
  | .ok () => if once then return .success else again

def serveSession (fuel : Nat) (once : Bool) (approver : Approver) (session : HostSession)
    (again : AgentM ExitCode) : AgentM ExitCode := do
  say (.connected session.viewer.name (keyFingerprint C session.viewer.deviceKey))
  let ((served, _), _) ← (session.servePings fuel SESSION_LIMIT).handle (serveCall fuel) approver
  finishSession once again served

def report (fuel : Nat) (once : Bool) (approver : Approver) (outcome : ServeResult)
    (again : AgentM ExitCode) : AgentM ExitCode :=
  match outcome with
  | .ok (.session session) => serveSession C fuel once approver session again
  | .ok (.failed failure) => do
      say (.attempt failure)
      again
  | .ok .viewerLeft => again
  | .error e => do
      ask (.eprintln (.server e))
      return .failure

def serveLoop (fuel : Nat) (cfg : HostConfig) (once : Bool) :
    Nat → HostState → OneTimeCode → Approver → AgentM ExitCode
  | 0, _, _, _ => .halt
  | n + 1, state, shownCode, approver => do
      let ((outcome, state), approver) ←
        (serveNext C cfg state fuel).handle (serveCall fuel) approver
      let approver := approver.endQuestion
      if state.code ≠ shownCode then do
        say (.code state.code)
        report C fuel once approver outcome (serveLoop fuel cfg once n state state.code approver)
      else report C fuel once approver outcome (serveLoop fuel cfg once n state shownCode approver)

def serve (fuel : Nat) (cfg : HostConfig) (once : Bool) : AgentM ExitCode := do
  let code ← ask (.serve .generateCode)
  say (.id cfg.hostId)
  say (.code code)
  serveLoop C fuel cfg once fuel (.new code) code .spawn

def start (fuel : Nat) (args : Args) (keys : DeviceKeys) : AgentM ExitCode := do
  let (registered, ()) ← (registerHost C args.server keys none).handle registerCall ()
  match registered with
  | .error e =>
      ask (.eprintln (.registration e))
      return .failure
  | .ok hostId =>
      let ips ← ask .localIps
      serve C fuel ⟨hostId, keys, bindIps ips, .default, PROTOCOL_VERSION⟩ args.once

def main (fuel : Nat) (args : List Text) : AgentM ExitCode :=
  match parseArgs args with
  | none => do
      ask (.eprintln .usage)
      return .usage
  | some args => do
      match ← DeviceKeys.generate (ask .random) args.name with
      | .error _ =>
          ask (.eprintln .name)
          return .usage
      | .ok keys => start C fuel args keys

end Agent

end SimpleRemote
