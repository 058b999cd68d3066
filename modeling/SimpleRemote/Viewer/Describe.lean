import SimpleRemote.Viewer.Connect

namespace SimpleRemote
open ByteCodec

def decimal (n : Nat) : Text := Nat.toDigits 10 n

def debugCode : Option Nat → Text
  | none => "None".toList
  | some code => "Some(".toList ++ decimal code ++ ")".toList

def Stage.debug : Stage → Text
  | .join => "Join".toList
  | .pake => "Pake".toList
  | .answer => "Answer".toList
  | .connect => "Connect".toList
  | .hello => "Hello".toList
  | .decision => "Decision".toList
  | .ping => "Ping".toList

section
variable (inner : Text)

-- `inner` is what an io, protocol or rtc error says, which the errors here do not carry
def LinkError.display : LinkError → Text
  | .closed code => "link closed (code ".toList ++ debugCode code ++ ")".toList
  | .http status => "http error before upgrade: ".toList ++ decimal status
  | .insecureUrl => "insecure url (ws:// is only allowed on loopback)".toList
  | .io => "io error: ".toList ++ inner
  | .protocol => "protocol error: ".toList ++ inner

def TransportError.display : TransportError → Text
  | .io => "io error: ".toList ++ inner
  | .rtc => "rtc error: ".toList ++ inner
  | .backpressure => "channel write buffer full".toList
  | .noChannel => "control channel not open".toList

end

namespace Viewer

def shownSecs (d : Duration) : Nat := max ((d / 1000000 + 999) / 1000) 1

def retryText (secs : Nat) : Text :=
  "코드를 여러 번 틀려 기다려야 합니다. ".toList ++ decimal secs ++ "초 뒤 다시 시도하세요.".toList

def describe (inner : Text) : ConnectError → Text
  | .wrongCode => "코드가 틀렸습니다.".toList
  | .retryAfter d => retryText (shownSecs d)
  | .hostNotWaiting => "상대가 대기 중이 아닙니다. ID 를 확인하세요.".toList
  | .busy => "상대가 다른 사람의 연결을 처리하고 있습니다. 잠시 뒤 다시 시도하세요.".toList
  | .rateLimited => "연결 요청이 너무 많습니다. 몇 분 뒤 다시 시도하세요.".toList
  | .hostLeft => "상대가 연결을 끊었습니다.".toList
  | .rejected .denied => "상대가 연결을 거절했습니다.".toList
  | .rejected .noResponse => "상대가 30초 안에 허락하지 않았습니다.".toList
  | .rejected .badIdentity => "상대가 이 기기의 신원을 확인하지 못해 거절했습니다.".toList
  | .versionMismatch _ _ .host =>
      "상대 프로그램이 구버전입니다. 상대에게 업데이트를 부탁하세요.".toList
  | .versionMismatch _ _ .viewer =>
      "이 프로그램이 구버전입니다. 업데이트한 뒤 다시 시도하세요.".toList
  | .rejected (.versionMismatch _) => "상대와 프로그램 버전이 다릅니다.".toList
  | .timeout stage =>
      "시간 안에 연결하지 못했습니다 (".toList ++ stage.debug ++ " 단계).".toList
  | .security what =>
      "보안 확인에 실패해 연결을 끊었습니다 (".toList ++ what ++ ").".toList
  | .link .insecureUrl => "서버 주소는 wss:// 로 시작해야 합니다.".toList
  | .link e => "signaling 서버와 통신하지 못했습니다: ".toList ++ e.display inner
  | .transport e => "P2P 연결을 만들지 못했습니다: ".toList ++ e.display inner

end Viewer

end SimpleRemote
