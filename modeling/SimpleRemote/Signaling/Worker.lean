import SimpleRemote.Library.Digits
import SimpleRemote.Library.Sampling
import SimpleRemote.Library.Threads
import SimpleRemote.Signaling.RateLimit
import SimpleRemote.Signaling.Room

namespace SimpleRemote.Signaling
open ByteCodec Interaction

def WINDOW_MS : Int := 10 * 60 * 1000

def VIEWER_PER_IP : Nat := 30

def VIEWER_PER_ID : Nat := 60

def HOST_PER_IP : Nat := 20

def CLAIM_ATTEMPTS : Nat := 5

def ID_MIN : Nat := 100000000

def ID_SPAN : Nat := 900000000

def ID_SAMPLE_LIMIT : Nat := 2 ^ 32 / ID_SPAN * ID_SPAN

-- `none` when the random numbers given are used up and the loop goes on
def randomId : List (Fin (2 ^ 32)) → Option Text
  | [] => none
  | n :: draws =>
      if n.val < ID_SAMPLE_LIMIT then some (Nat.toDigits 10 (ID_MIN + n.val % ID_SPAN))
      else randomId draws

-- a request to the worker, its URL parsed; `key` is the first query parameter of that name
structure HttpRequest where
  method : Text
  pathname : Text
  key : Option Text
  upgrade : Option Text
  clientIp : Option Text

inductive WorkerOp where
  | hit (bucket : Text) (limit : Nat)
  | room (id : Text) (request : Request)
  | getRandomValues
  | first

-- `first` is whether of two calls made at once the first one arrives first
@[reducible] def WorkerOp.Res : WorkerOp → Type
  | .hit _ _ => Bool
  | .room _ _ => Response
  | .getRandomValues => List (Fin (2 ^ 32))
  | .first => Bool

@[reducible] def WorkerSig : Sig := ⟨WorkerOp, WorkerOp.Res⟩

abbrev WorkerM (α : Type) := Prog WorkerSig α

namespace Worker

abbrev ask (o : WorkerOp) : WorkerM (WorkerOp.Res o) := Prog.call (S := WorkerSig) o

def status (code : Nat) (text : String) : WorkerM Response := return .status code text.toList

-- `[1-9]\d{8}`
def isRoomId (id : Text) : Bool :=
  id.length = 9 && id.all Char.isDigit && id.head? ≠ some '0'

def matchId (start : String) (pathname : Text) : Option Text :=
  if start.toList.isPrefixOf pathname then
    (some (pathname.drop start.toList.length)).filter isRoomId
  else none

def isHexDigit (c : Char) : Bool :=
  c.isDigit || ('a' ≤ c && c ≤ 'f') || ('A' ≤ c && c ≤ 'F')

def isKey (key : Text) : Bool := key.length = 64 && key.all isHexDigit

def viewerIpBucket (ip : Text) : Text := "viewer-ip:".toList ++ ip

def viewerIdBucket (id : Text) : Text := "viewer-id:".toList ++ id

def hostIpBucket (ip : Text) : Text := "host-ip:".toList ++ ip

def viewerRequest (id : Text) : Request :=
  ⟨some "websocket".toList, "/viewer".toList, some id, none, none⟩

def hostRequest (id key : Text) (claim : Bool) : Request :=
  ⟨some "websocket".toList, "/host".toList, some id, some key, if claim then some ['1'] else none⟩

-- `Promise.all` of the two calls
def hitBoth (ip id : Text) : WorkerM (Bool × Bool) := do
  if ← ask .first then
    let ipOk ← ask (.hit (viewerIpBucket ip) VIEWER_PER_IP)
    let idOk ← ask (.hit (viewerIdBucket id) VIEWER_PER_ID)
    return (ipOk, idOk)
  else
    let idOk ← ask (.hit (viewerIdBucket id) VIEWER_PER_ID)
    let ipOk ← ask (.hit (viewerIpBucket ip) VIEWER_PER_IP)
    return (ipOk, idOk)

def fetchViewer (ip id : Text) : WorkerM Response := do
  let (ipOk, idOk) ← hitBoth ip id
  if !ipOk || !idOk then status 429 "too many requests" else ask (.room id (viewerRequest id))

def isTaken : Response → Bool
  | .status code _ => code = 409
  | .webSocket _ => false

def claimLoop (key : Text) : Nat → WorkerM Response
  | 0 => status 503 "no free id"
  | attempts + 1 => do
      match randomId (← ask .getRandomValues) with
      | none => .halt
      | some id =>
          let res ← ask (.room id (hostRequest id key true))
          if isTaken res then claimLoop key attempts else return res

def fetchHost (ip : Text) (existing : Option Text) (rawKey : Text) : WorkerM Response := do
  if !(← ask (.hit (hostIpBucket ip) HOST_PER_IP)) then status 429 "too many requests"
  else if !isKey rawKey then status 400 "bad key"
  else
    let key := rawKey.map Char.toLower
    match existing with
    | some id => ask (.room id (hostRequest id key false))
    | none => claimLoop key CLAIM_ATTEMPTS

def fetch (request : HttpRequest) : WorkerM Response :=
  let hostNew : Bool := request.pathname = "/v1/host".toList
  let hostExisting := matchId "/v1/host/" request.pathname
  let viewer := matchId "/v1/viewer/" request.pathname
  if request.method ≠ "GET".toList || (!hostNew && hostExisting.isNone && viewer.isNone) then
    status 404 "not found"
  else if request.upgrade ≠ some "websocket".toList then status 426 "expected websocket"
  else
    let ip := request.clientIp.getD []
    if ip = [] then status 400 "missing client ip"
    else
      match viewer with
      | some id => fetchViewer ip id
      | none => fetchHost ip hostExisting (request.key.getD [])

end Worker

-- what comes with a call: the time at a bucket, the bytes a room draws, the numbers the worker
-- draws, and which of two calls is first
structure Moment where
  now : Int
  random : ByteArr 32
  draws : List (Fin (2 ^ 32))
  first : Bool

-- the durable objects by their names
structure Objects where
  buckets : Text → Option Window
  rooms : Text → Room

namespace Objects

def new : Objects := ⟨fun _ => none, fun _ => .new⟩

def setBucket (s : Objects) (name : Text) (w : Window) : Objects :=
  { s with buckets := fun name' => if name' = name then some w else s.buckets name' }

def setRoom (s : Objects) (id : Text) (r : Room) : Objects :=
  { s with rooms := fun id' => if id' = id then r else s.rooms id' }

def serve (s : Objects) (m : Moment) : (o : WorkerOp) → WorkerOp.Res o × Objects
  | .hit bucket limit =>
      let h := Signaling.hit limit WINDOW_MS (s.buckets bucket) m.now
      (h.ok, s.setBucket bucket h.next)
  | .room id request =>
      let (res, r) := (s.rooms id).fetch request m.random
      (res, s.setRoom id r)
  | .getRandomValues => (m.draws, s)
  | .first => (m.first, s)

-- what the runtime delivers to a room's sockets and awaits
def own (subtle : SubtleVerify) (s : Objects) : Text × Event → Objects
  | (_, .fetch _ _) => s
  | (id, e) =>
      if (s.rooms id).delivers e then s.setRoom id ((s.rooms id).handle subtle e) else s

end Objects

def worker (subtle : SubtleVerify) : Sharing WorkerSig HttpRequest Response Objects Moment (Text × Event) where
  main := Worker.fetch
  serve := Objects.serve
  own := Objects.own subtle

abbrev WorkerTurn := Interaction.Turn HttpRequest Moment (Text × Event)

abbrev WorkerCall := Interaction.Call WorkerSig Moment

def workerRun (subtle : SubtleVerify) (turns : List WorkerTurn) : (worker subtle).State :=
  (worker subtle).run .new turns

end SimpleRemote.Signaling
