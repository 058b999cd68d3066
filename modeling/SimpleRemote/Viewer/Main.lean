import SimpleRemote.Code
import SimpleRemote.Host.Main
import SimpleRemote.Viewer.Ping

namespace SimpleRemote
open ByteCodec Interaction

-- the console viewer
namespace Viewer

def USAGE : Text :=
  "usage: viewer --server <url> --id <9자리 ID> --code <6자리 코드> [--name <이름>]".toList

def PINGS : Nat := 3

def PING_TIMEOUT : Duration := Duration.fromSecs 2

structure Args where
  server : Text
  id : Text
  code : Text
  name : Text

-- what the options read so far have set
structure Options where
  server : Option Text
  id : Option Text
  code : Option Text
  name : Text

def Options.finish (o : Options) : Option Args := do
  let id ← o.id.filter Register.isHostId
  return ⟨← o.server, id, ← o.code, o.name⟩

def parseArgsLoop (o : Options) : List Text → Option Args
  | [] => o.finish
  | arg :: args =>
      if arg = "--server".toList then
        match args with
        | [] => none
        | value :: args => parseArgsLoop { o with server := some value } args
      else if arg = "--id".toList then
        match args with
        | [] => none
        | value :: args => parseArgsLoop { o with id := some value } args
      else if arg = "--code".toList then
        match args with
        | [] => none
        | value :: args => parseArgsLoop { o with code := some value } args
      else if arg = "--name".toList then
        match args with
        | [] => none
        | value :: args => parseArgsLoop { o with name := value } args
      else none

def parseArgs (args : List Text) : Option Args :=
  parseArgsLoop ⟨none, none, none, "viewer".toList⟩ args

-- a line of the standard output
inductive Line where
  | connected (name fingerprint : Text)
  | pong (rtt : Duration)
  deriving DecidableEq

def Line.text : Line → Text
  | .connected name fingerprint => "CONNECTED ".toList ++ name ++ " ".toList ++ fingerprint
  | .pong rtt => "PONG rtt_ms=".toList ++ decimal (rtt / 1000000)

-- what goes to the standard error
inductive Complaint where
  | usage
  | code
  | name
  | failed (e : ConnectError)
  deriving DecidableEq

def Complaint.text (inner : Text) : Complaint → Text
  | .usage => USAGE
  | .code => "코드는 숫자 6자리여야 합니다.".toList
  | .name => "이름은 1~64 byte 여야 합니다.".toList
  | .failed e => describe inner e

inductive MainOp where
  | random
  | connect (url : Text)
  | localIps
  | session (o : Op ViewerToServer)
  | println (text : Text)
  | eprintln (c : Complaint)
  deriving DecidableEq

@[reducible] def MainOp.Res : MainOp → Type
  | .random => ByteArr 32 × ByteArr 32
  | .connect _ => Except LinkError Unit
  | .localIps => List IpAddr
  | .session o => Op.Res ServerToViewer o
  | .println _ => Unit
  | .eprintln _ => Unit

@[reducible] def MainSig : Sig := ⟨MainOp, MainOp.Res⟩

abbrev MainM (α : Type) := Prog MainSig α

abbrev ask (o : MainOp) : MainM (MainOp.Res o) := Prog.call (S := MainSig) o

def println (line : Line) : MainM Unit := ask (.println line.text)

def sessionCall : Handler ViewerSig MainSig Unit := fun o _ => do
  return (← ask (.session o), ())

def pings (fuel : Nat) : Nat → ViewerSession → MainM (Except ConnectError Unit)
  | 0, _ => return .ok ()
  | n + 1, session => do
      let ((rtt, session), ()) ← (session.ping fuel PING_TIMEOUT).handle sessionCall ()
      match rtt with
      | .error e => return .error e
      | .ok rtt => do
          println (.pong rtt)
          pings fuel n session

variable (C : Crypto)

def urlFor (args : Args) : Text := args.server ++ "/v1/viewer/".toList ++ args.id

def shows (fuel : Nat) : ConnectResult → MainM (Except ConnectError Unit)
  | .error e => return .error e
  | .ok session => do
      println (.connected session.host.name (keyFingerprint C session.host.deviceKey))
      pings fuel PINGS session

def run (fuel : Nat) (args : Args) (code : OneTimeCode) (keys : DeviceKeys) :
    MainM (Except ConnectError Unit) := do
  match ← ask (.connect (urlFor args)) with
  | .error e => return .error (ConnectError.fromJoinError e)
  | .ok () =>
      let ips ← ask .localIps
      let (result, ()) ←
        (connect C fuel ⟨args.id, code, keys, bindIps ips, .default⟩).handle sessionCall ()
      shows C fuel result

def finish : Except ConnectError Unit → MainM ExitCode
  | .ok () => return .success
  | .error e => do
      ask (.eprintln (.failed e))
      return .failure

def main (fuel : Nat) (args : List Text) : MainM ExitCode :=
  match parseArgs args with
  | none => do
      ask (.eprintln .usage)
      return .usage
  | some args =>
      match OneTimeCode.parse args.code with
      | .error _ => do
          ask (.eprintln .code)
          return .failure
      | .ok code => do
          match ← DeviceKeys.generate (ask .random) args.name with
          | .error _ =>
              ask (.eprintln .name)
              return .usage
          | .ok keys =>
              let result ← run C fuel args code keys
              finish result

end Viewer

end SimpleRemote
