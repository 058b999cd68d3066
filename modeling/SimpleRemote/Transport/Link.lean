import SimpleRemote.Host.Gate
import SimpleRemote.Library.Handlers
import SimpleRemote.Serving.Service
import SimpleRemote.Transport.Peer
import SimpleRemote.Transport.Url

namespace SimpleRemote
open ByteCodec Interaction

-- `std::io::ErrorKind`
inductive IoKind where
  | wouldBlock
  | timedOut
  | other
  deriving DecidableEq

-- `tungstenite::Error`
inductive WsError where
  | connectionClosed
  | alreadyClosed
  | io (kind : IoKind)
  | http (status : Nat)
  | other
  deriving DecidableEq

-- `tungstenite::Message`
inductive Message where
  | text (t : Text)
  | binary
  | ping
  | pong
  | close (code : Option Nat)
  | frame
  deriving DecidableEq

inductive HandshakeError where
  | failure (e : WsError)
  | interrupted
  deriving DecidableEq

-- `unsupported` is a stream that is neither plain nor rustls
inductive StreamError where
  | io
  | unsupported
  deriving DecidableEq

-- what a program over a `WsLink` asks for: the socket under the link, the clock that the link
-- reads, and all that the program asks of others
inductive WireOp (Out : Type) where
  | resolve (host : Text) (port : Nat)
  | connectTimeout (addr : SocketAddr) (timeout : Duration)
  | setNodelay
  | setReadTimeout (timeout : Duration)
  | setWriteTimeout (timeout : Duration)
  | clientTls (url : Text) (maxMessageSize maxFrameSize : Nat)
  | now
  | read
  | send (text : Text)
  | other (o : Op Out)
  deriving DecidableEq

@[reducible] def WireOp.Res (In : Type) {Out : Type} : WireOp Out → Type
  | .resolve _ _ => Except Unit (List SocketAddr)
  | .connectTimeout _ _ => Except Unit Unit
  | .setNodelay => Except Unit Unit
  | .setReadTimeout _ => Except StreamError Unit
  | .setWriteTimeout _ => Except Unit Unit
  | .clientTls _ _ _ => Except HandshakeError Unit
  | .now => Instant
  | .read => Except WsError Message
  | .send _ => Except WsError Unit
  | .other o => Op.Res In o

@[reducible] def wire (In Out : Type) : Sig := ⟨WireOp Out, WireOp.Res In⟩

abbrev Wire (In Out α : Type) := Prog (wire In Out) α

-- `closed` holds the code once the link is closed
structure WsLink where
  closed : Option (Option Nat)
  deriving DecidableEq

namespace WsLink

def CONNECT_TIMEOUT : Duration := Duration.fromSecs 10

def isTimeout (kind : IoKind) : Bool := kind = .wouldBlock || kind = .timedOut

def mapAfterError (link : WsLink) : WsError → LinkError × WsLink
  | .connectionClosed => (.closed none, ⟨some none⟩)
  | .alreadyClosed => (.closed none, ⟨some none⟩)
  | .io _ => (.io, link)
  | _ => (.protocol, link)

def mapTungsteniteErr : WsError → LinkError
  | .http status => .http status
  | .io _ => .io
  | _ => .protocol

section
variable {In Out : Type}

abbrev ask (o : WireOp Out) : Wire In Out (WireOp.Res In o) := Prog.call (S := wire In Out) o

-- `serde_json` at the types of the link
variable (toJson : Out → Text) (fromJson : Text → Option In)

def send (msg : Out) (link : WsLink) : Wire In Out (Except LinkError Unit × WsLink) :=
  match link.closed with
  | some code => return (.error (.closed code), link)
  | none => do
      match ← ask (.send (toJson msg)) with
      | .ok () => return (.ok (), link)
      | .error e =>
          let (e, link) := link.mapAfterError e
          return (.error e, link)

def setReadTimeout (dur : Duration) : Wire In Out (Except LinkError Unit) := do
  match ← ask (.setReadTimeout dur) with
  | .ok () => return .ok ()
  | .error .io => return .error .io
  | .error .unsupported => return .error .protocol

-- one message of the socket; `again` is the rest of the loop
def readMessage (again : Wire In Out (Except LinkError (Option In) × WsLink)) (link : WsLink) :
    Wire In Out (Except LinkError (Option In) × WsLink) := do
  match ← ask .read with
  | .ok (.text text) =>
      match fromJson text with
      | some m => return (.ok (some m), link)
      | none => return (.error .protocol, link)
  | .ok .binary => return (.error .protocol, link)
  | .ok .ping => again
  | .ok .pong => again
  | .ok (.close code) => return (.error (.closed code), ⟨some code⟩)
  | .ok .frame => return (.error .protocol, link)
  | .error (.io kind) =>
      if isTimeout kind then return (.ok none, link)
      else
        let (e, link) := link.mapAfterError (.io kind)
        return (.error e, link)
  | .error e =>
      let (e, link) := link.mapAfterError e
      return (.error e, link)

def recvLoop (deadline : Instant) : Nat → WsLink →
    Wire In Out (Except LinkError (Option In) × WsLink)
  | 0, _ => .halt
  | fuel + 1, link => do
      let now ← ask .now
      let remaining := deadline - now
      if remaining = 0 then return (.ok none, link)
      else
        match ← setReadTimeout remaining with
        | .error e => return (.error e, link)
        | .ok () => readMessage fromJson (recvLoop deadline fuel link) link

def recv (fuel : Nat) (timeout : Duration) (link : WsLink) :
    Wire In Out (Except LinkError (Option In) × WsLink) :=
  match link.closed with
  | some code => return (.error (.closed code), link)
  | none => do
      let now ← ask .now
      recvLoop fromJson (now + timeout) fuel link

-- a program that uses the `Link` trait, on a `WsLink`
def linkCall (fuel : Nat) : Handler (conn In Out) (wire In Out) WsLink
  | .linkSend m, link => link.send toJson m
  | .linkRecv t, link => link.recv fromJson fuel t
  | o, link => do
      return (← ask (.other o), link)

def connectTcp : List SocketAddr → Wire In Out (Except LinkError Unit)
  | [] => return .error .io
  | addr :: addrs => do
      match ← ask (.connectTimeout addr CONNECT_TIMEOUT) with
      | .ok () => return .ok ()
      | .error _ => connectTcp addrs

def upgrade (url : Text) : Wire In Out (Except LinkError WsLink) := do
  match ← ask (.clientTls url MAX_MESSAGE_BYTES MAX_MESSAGE_BYTES) with
  | .ok () => return .ok ⟨none⟩
  | .error (.failure e) => return .error (mapTungsteniteErr e)
  | .error .interrupted => return .error .io

def onStream (url : Text) : Wire In Out (Except LinkError WsLink) := do
  match ← ask .setNodelay with
  | .error _ => return .error .io
  | .ok () =>
      match ← ask (.setReadTimeout CONNECT_TIMEOUT) with
      | .error _ => return .error .io
      | .ok () =>
          match ← ask (.setWriteTimeout CONNECT_TIMEOUT) with
          | .error _ => return .error .io
          | .ok () => upgrade url

def connect (parse : Text → Option Uri) (url : Text) : Wire In Out (Except LinkError WsLink) :=
  match tcpTarget parse url with
  | .error e => return .error e
  | .ok (host, port) => do
      match ← ask (.resolve host port) with
      | .error _ => return .error .io
      | .ok addrs =>
          match ← connectTcp addrs with
          | .error e => return .error e
          | .ok () => onStream url

-- what a run over the socket has read, written and passed on

def textOf : Ev (wire In Out) → Option Text
  | ⟨.read, .ok (.text t)⟩ => some t
  | _ => none

def writtenOf : Ev (wire In Out) → Option Text
  | ⟨.send t, _⟩ => some t
  | _ => none

def passedOf : Ev (wire In Out) → Option (Ev (conn In Out))
  | ⟨.other o, r⟩ => some ⟨o, r⟩
  | _ => none

-- what the program itself has sent, received and asked of others

def receivedOf : Ev (conn In Out) → Option In
  | ⟨.linkRecv _, .ok m⟩ => m
  | _ => none

def sentOf : Ev (conn In Out) → Option Out
  | ⟨.linkSend m, _⟩ => some m
  | _ => none

def onLink : Op Out → Bool
  | .linkSend _ => true
  | .linkRecv _ => true
  | _ => false

def closedBy : Ev (conn In Out) → Option (Option Nat)
  | ⟨.linkSend _, .error (.closed code)⟩ => some code
  | ⟨.linkRecv _, .error (.closed code)⟩ => some code
  | _ => none

-- the calls up to the one that finds the link closed
def tillClosed : List (Ev (conn In Out)) → List (Ev (conn In Out))
  | [] => []
  | e :: up => if (closedBy e).isSome then [e] else e :: tillClosed up

structure Lawful (up : List (Ev (conn In Out))) (down : List (Ev (wire In Out))) : Prop where
  received : up.filterMap receivedOf = (down.filterMap textOf).filterMap fromJson
  written : down.filterMap writtenOf = ((tillClosed up).filterMap sentOf).map toJson
  passed : down.filterMap passedOf = up.filter fun e => !onLink e.op
  closed : ∀ pre e post code, up = pre ++ e :: post → closedBy e = some code →
    ∀ e' ∈ post, onLink e'.op = true → closedBy e' = some code

-- what one call of the program does with the socket
structure Called (link : WsLink) (e : Ev (conn In Out)) (tr : List (Ev (wire In Out)))
    (link' : WsLink) : Prop where
  received : (receivedOf e).toList = (tr.filterMap textOf).filterMap fromJson
  written : tr.filterMap writtenOf = if link.closed.isSome then [] else (sentOf e).toList.map toJson
  passed : tr.filterMap passedOf = [e].filter fun e => !onLink e.op
  closes : link'.closed = link.closed.or (closedBy e)
  shut : ∀ code, link.closed = some code → onLink e.op = true → closedBy e = some code

section
variable {toJson} {fromJson} {link link' : WsLink} {tr : List (Ev (wire In Out))} {fuel : Nat}

theorem send_called {msg : Out} {r : Except LinkError Unit}
    (h : Exec (link.send toJson msg : Wire In Out _) tr (r, link')) :
    Called toJson fromJson link ⟨.linkSend msg, r⟩ tr link' := by
  rw [send] at h
  split at h
  · rename_i code hclosed
    obtain ⟨rfl, hr⟩ := exec_ret.mp h
    obtain ⟨rfl, rfl⟩ := Prod.mk.inj hr
    refine ⟨rfl, by rw [hclosed]; rfl, rfl, by rw [hclosed]; rfl, fun code' hcode _ => ?_⟩
    rw [hclosed] at hcode
    exact hcode
  · rename_i hopen
    obtain ⟨sent, tr', rfl, h'⟩ := exec_call_bind.mp h
    have hshut (code : Option Nat) (hcode : link.closed = some code) : False := by
      rw [hopen] at hcode
      cases hcode
    cases sent with
    | ok u =>
        obtain ⟨rfl, hr⟩ := exec_ret.mp h'
        obtain ⟨rfl, rfl⟩ := Prod.mk.inj hr
        exact ⟨rfl, by rw [hopen]; rfl, rfl, by rw [hopen]; rfl, fun code hcode => (hshut code hcode).elim⟩
    | error e =>
        obtain ⟨rfl, hr⟩ := exec_ret.mp h'
        obtain ⟨rfl, rfl⟩ := Prod.mk.inj hr
        refine ⟨rfl, by rw [hopen]; rfl, rfl, ?_, fun code hcode => (hshut code hcode).elim⟩
        rw [hopen]
        cases e <;> first | rfl | exact hopen

-- what a call of `recv` on an open link has read, and how it left the link
structure Reads (fromJson : Text → Option In) (tr : List (Ev (wire In Out)))
    (r : Except LinkError (Option In) × WsLink) : Prop where
  received : (match r.1 with
    | .ok m => m
    | .error _ => none).toList = (tr.filterMap textOf).filterMap fromJson
  written : tr.filterMap writtenOf = []
  passed : tr.filterMap passedOf = []
  closes : r.2.closed = match r.1 with
    | .error (.closed code) => some code
    | _ => none

theorem Reads.quiet {r : Except LinkError (Option In) × WsLink} (h : Reads fromJson tr r)
    (tr' : List (Ev (wire In Out))) (htext : tr'.filterMap textOf = [])
    (hwritten : tr'.filterMap writtenOf = []) (hpassed : tr'.filterMap passedOf = []) :
    Reads fromJson (tr' ++ tr) r where
  received := by
    rw [List.filterMap_append, htext]
    exact h.received
  written := by
    rw [List.filterMap_append, hwritten]
    exact h.written
  passed := by
    rw [List.filterMap_append, hpassed]
    exact h.passed
  closes := h.closes

theorem readMessage_reads (hopen : link.closed = none)
    {again : Wire In Out (Except LinkError (Option In) × WsLink)}
    (hagain : ∀ tr r, Exec again tr r → Reads fromJson tr r)
    {r : Except LinkError (Option In) × WsLink}
    (h : Exec (link.readMessage fromJson again) tr r) : Reads fromJson tr r := by
  obtain ⟨got, tr', rfl, h'⟩ := exec_call_bind.mp h
  have stops {x : Except LinkError (Option In) × WsLink} (h : Exec (.ret x) tr' r)
      (hx : Reads fromJson [⟨.read, got⟩] x) : Reads fromJson (⟨.read, got⟩ :: tr') r := by
    obtain ⟨rfl, rfl⟩ := exec_ret.mp h
    exact hx
  rcases got with e | (t | _ | _ | _ | code | _)
  case error =>
    cases e with
    | io kind =>
        dsimp only at h'
        split at h'
        · exact stops h' ⟨rfl, rfl, rfl, hopen⟩
        · exact stops h' ⟨rfl, rfl, rfl, hopen⟩
    | connectionClosed => exact stops h' ⟨rfl, rfl, rfl, rfl⟩
    | alreadyClosed => exact stops h' ⟨rfl, rfl, rfl, rfl⟩
    | _ => exact stops h' ⟨rfl, rfl, rfl, hopen⟩
  case ok.text =>
    have htexts : ([⟨.read, .ok (.text t)⟩] : List (Ev (wire In Out))).filterMap textOf = [t] := rfl
    dsimp only at h'
    split at h'
    · rename_i m hm
      refine stops h' ⟨?_, rfl, rfl, hopen⟩
      rw [htexts, List.filterMap_cons, hm]
      rfl
    · rename_i hm
      refine stops h' ⟨?_, rfl, rfl, hopen⟩
      rw [htexts, List.filterMap_cons, hm]
      rfl
  case ok.ping => exact (hagain _ _ h').quiet [⟨.read, .ok .ping⟩] rfl rfl rfl
  case ok.pong => exact (hagain _ _ h').quiet [⟨.read, .ok .pong⟩] rfl rfl rfl
  case ok.close => exact stops h' ⟨rfl, rfl, rfl, rfl⟩
  all_goals exact stops h' ⟨rfl, rfl, rfl, hopen⟩

theorem setReadTimeout_exec {d : Duration} {r : Except LinkError Unit}
    (h : Exec (setReadTimeout d : Wire In Out _) tr r) :
    ∃ set, tr = [⟨.setReadTimeout d, set⟩] ∧ (r = .ok () ∨ r = .error .io ∨ r = .error .protocol) := by
  obtain ⟨set, tr', rfl, h'⟩ := exec_call_bind.mp h
  refine ⟨set, ?_⟩
  rcases set with (_ | _) | _
  · obtain ⟨rfl, rfl⟩ := exec_ret.mp h'
    exact ⟨rfl, .inr (.inl rfl)⟩
  · obtain ⟨rfl, rfl⟩ := exec_ret.mp h'
    exact ⟨rfl, .inr (.inr rfl)⟩
  · obtain ⟨rfl, rfl⟩ := exec_ret.mp h'
    exact ⟨rfl, .inl rfl⟩

theorem recvLoop_reads (hopen : link.closed = none) {deadline : Instant}
    {r : Except LinkError (Option In) × WsLink}
    (h : Exec (recvLoop fromJson deadline fuel link) tr r) : Reads fromJson tr r := by
  induction fuel generalizing tr r with
  | zero => simp [recvLoop] at h
  | succ fuel ih =>
      obtain ⟨now, tr', rfl, h'⟩ := exec_call_bind.mp h
      dsimp only at h'
      split at h'
      · obtain ⟨rfl, rfl⟩ := exec_ret.mp h'
        exact ⟨rfl, rfl, rfl, hopen⟩
      · obtain ⟨tr₁, set, tr₂, rfl, hset, h₂⟩ := exec_bind.mp h'
        obtain ⟨res, rfl, hres⟩ := setReadTimeout_exec hset
        rcases hres with rfl | rfl | rfl
        · have hreads := readMessage_reads hopen (fun tr r h => ih h) h₂
          exact hreads.quiet [⟨.now, now⟩, ⟨.setReadTimeout (deadline - now), res⟩] rfl rfl rfl
        · obtain ⟨rfl, rfl⟩ := exec_ret.mp h₂
          exact ⟨rfl, rfl, rfl, hopen⟩
        · obtain ⟨rfl, rfl⟩ := exec_ret.mp h₂
          exact ⟨rfl, rfl, rfl, hopen⟩

theorem recv_called {timeout : Duration} {r : Except LinkError (Option In)}
    (h : Exec (link.recv fromJson fuel timeout : Wire In Out _) tr (r, link')) :
    Called toJson fromJson link ⟨.linkRecv timeout, r⟩ tr link' := by
  rw [recv] at h
  split at h
  · rename_i code hclosed
    obtain ⟨rfl, hr⟩ := exec_ret.mp h
    obtain ⟨rfl, rfl⟩ := Prod.mk.inj hr
    refine ⟨rfl, by rw [hclosed]; rfl, rfl, by rw [hclosed]; rfl, fun code' hcode _ => ?_⟩
    rw [hclosed] at hcode
    exact hcode
  · rename_i hopen
    obtain ⟨start, tr', rfl, h'⟩ := exec_call_bind.mp h
    have hreads := (recvLoop_reads hopen h').quiet [⟨.now, start⟩] rfl rfl rfl
    refine ⟨?_, ?_, hreads.passed, ?_, fun code hcode => ?_⟩
    · refine Eq.trans ?_ hreads.received
      cases r <;> rfl
    · rw [hopen]
      exact hreads.written
    · rw [hopen, hreads.closes]
      rcases r with (_ | _ | _ | _ | _) | _ <;> rfl
    · rw [hopen] at hcode
      cases hcode

theorem linkCall_called {o : Op Out} {r : Op.Res In o}
    (h : Exec (linkCall toJson fromJson fuel o link) tr (r, link')) :
    Called toJson fromJson link ⟨o, r⟩ tr link' := by
  cases o with
  | linkSend m => exact send_called h
  | linkRecv t => exact recv_called h
  | _ =>
      obtain ⟨r', tr', rfl, h'⟩ := exec_call_bind.mp h
      obtain ⟨rfl, hr⟩ := exec_ret.mp h'
      obtain ⟨rfl, rfl⟩ := Prod.mk.inj hr
      refine ⟨rfl, ?_, rfl, ?_, fun _ _ hlink => by cases hlink⟩
      · split <;> rfl
      · exact (Option.or_none ..).symm

-- `Lawful` for a link that may be closed already
structure LawfulFrom (toJson : Out → Text) (fromJson : Text → Option In) (link : WsLink)
    (up : List (Ev (conn In Out))) (down : List (Ev (wire In Out))) : Prop where
  received : up.filterMap receivedOf = (down.filterMap textOf).filterMap fromJson
  written : down.filterMap writtenOf =
    if link.closed.isSome then [] else ((tillClosed up).filterMap sentOf).map toJson
  passed : down.filterMap passedOf = up.filter fun e => !onLink e.op
  closed : ∀ pre e post code, up = pre ++ e :: post → closedBy e = some code →
    ∀ e' ∈ post, onLink e'.op = true → closedBy e' = some code
  shut : ∀ code, link.closed = some code → ∀ e ∈ up, onLink e.op = true → closedBy e = some code

theorem onLink_of_closedBy {e : Ev (conn In Out)} {code : Option Nat} (h : closedBy e = some code) :
    onLink e.op = true := by
  obtain ⟨o, r⟩ := e
  cases o <;> first | rfl | cases h

theorem Called.cons {e : Ev (conn In Out)} {up : List (Ev (conn In Out))}
    {down : List (Ev (wire In Out))} (h : Called toJson fromJson link e tr link')
    (hrest : LawfulFrom toJson fromJson link' up down) :
    LawfulFrom toJson fromJson link (e :: up) (tr ++ down) := by
  have hclosed (code : Option Nat) (hcode : closedBy e = some code) : link'.closed = some code := by
    rw [h.closes, hcode]
    cases hlink : link.closed with
    | none => rfl
    | some code' =>
        have hsame := h.shut code' hlink (onLink_of_closedBy hcode)
        exact congrArg some (Option.some.inj (hsame.symm.trans hcode))
  refine ⟨?_, ?_, ?_, fun pre e' post code hup hcode => ?_, fun code hcode => ?_⟩
  · rw [List.filterMap_append, List.filterMap_append, ← h.received, ← hrest.received,
      ← filterMap_single, ← List.filterMap_append]
    rfl
  · rw [List.filterMap_append, h.written, hrest.written, h.closes]
    cases hlink : link.closed with
    | some code => rfl
    | none =>
        rw [tillClosed]
        cases hcode : closedBy e with
        | none =>
            rw [Option.or_none]
            exact (List.map_append ..).symm.trans (congrArg (List.map toJson) (by
              rw [← filterMap_single, ← List.filterMap_append]
              rfl))
        | some code =>
            refine (List.append_nil _).trans ?_
            exact congrArg (List.map toJson) (filterMap_single _ _).symm
  · rw [List.filterMap_append, h.passed, hrest.passed, ← List.filter_append]
    rfl
  · cases pre with
    | nil =>
        obtain ⟨rfl, rfl⟩ := List.cons.inj hup
        exact hrest.shut code (hclosed code hcode)
    | cons e'' pre =>
        obtain ⟨-, hup⟩ := List.cons.inj hup
        exact hrest.closed pre e' post code hup hcode
  · refine List.forall_mem_cons.mpr ⟨h.shut code hcode, hrest.shut code ?_⟩
    rw [h.closes, hcode]
    rfl

theorem handled_lawful {up : List (Ev (conn In Out))} {down : List (Ev (wire In Out))}
    (h : Handled (linkCall toJson fromJson fuel) link up down link') :
    LawfulFrom toJson fromJson link up down := by
  induction h with
  | nil s => exact ⟨rfl, by split <;> rfl, rfl, by simp, by simp⟩
  | cons h hrest ih => exact (linkCall_called h).cons ih

-- a call under way has neither read a text nor written one
structure Silent (tr : List (Ev (wire In Out))) : Prop where
  text : tr.filterMap textOf = []
  written : tr.filterMap writtenOf = []
  passed : tr.filterMap passedOf = []

theorem silent_nil : Silent ([] : List (Ev (wire In Out))) := ⟨rfl, rfl, rfl⟩

theorem Silent.cons {e : Ev (wire In Out)} (h : Silent tr) (htext : textOf e = none)
    (hwritten : writtenOf e = none) (hpassed : passedOf e = none) : Silent (e :: tr) where
  text := (List.filterMap_cons_none htext).trans h.text
  written := (List.filterMap_cons_none hwritten).trans h.written
  passed := (List.filterMap_cons_none hpassed).trans h.passed

theorem silent_of_ret {α : Type} {q : Wire In Out α} (hq : ∀ a, q ≠ .ret a) {a : α}
    (h : Path (.ret a) tr q) : Silent tr :=
  absurd (path_ret h).2 (hq a)

theorem silent_call {α : Type} {q : Wire In Out α} {o : WireOp Out}
    {f : WireOp.Res In o → Wire In Out α} (h : Path (ask o >>= f) tr q)
    (hf : ∀ r tr', Path (f r) tr' q → Silent (⟨o, r⟩ :: tr')) : Silent tr := by
  rcases path_call h with ⟨rfl, -⟩ | ⟨r, tr', rfl, h'⟩
  · exact silent_nil
  · exact hf r tr' h'

theorem readMessage_silent {again q : Wire In Out (Except LinkError (Option In) × WsLink)}
    (hq : ∀ a, q ≠ .ret a) (hagain : ∀ tr, Path again tr q → Silent tr)
    (h : Path (link.readMessage fromJson again) tr q) : Silent tr := by
  refine silent_call h fun got tr' h' => ?_
  rcases got with e | (t | _ | _ | _ | code | _)
  case error =>
    cases e with
    | io kind =>
        dsimp only at h'
        split at h' <;> exact absurd (path_ret h').2 (hq _)
    | _ => exact absurd (path_ret h').2 (hq _)
  case ok.text =>
    dsimp only at h'
    split at h' <;> exact absurd (path_ret h').2 (hq _)
  case ok.ping => exact (hagain _ h').cons rfl rfl rfl
  case ok.pong => exact (hagain _ h').cons rfl rfl rfl
  all_goals exact absurd (path_ret h').2 (hq _)

theorem recvLoop_silent {deadline : Instant}
    {q : Wire In Out (Except LinkError (Option In) × WsLink)} (hq : ∀ a, q ≠ .ret a)
    (h : Path (recvLoop fromJson deadline fuel link) tr q) : Silent tr := by
  induction fuel generalizing tr with
  | zero =>
      obtain ⟨rfl, -⟩ := path_halt h
      exact silent_nil
  | succ fuel ih =>
      refine silent_call h fun now tr' h' => ?_
      refine Silent.cons ?_ rfl rfl rfl
      dsimp only at h'
      split at h'
      · exact silent_of_ret hq h'
      · rw [setReadTimeout, Prog.bind_assoc] at h'
        refine silent_call h' fun set tr'' h'' => ?_
        refine Silent.cons ?_ rfl rfl rfl
        rcases set with (_ | _) | _
        · exact silent_of_ret hq h''
        · exact silent_of_ret hq h''
        · exact readMessage_silent hq (fun tr h => ih h) h''

theorem linkCall_silent {o : Op Out} {q : Wire In Out (Op.Res In o × WsLink)} (hq : ∀ a, q ≠ .ret a)
    (h : Path (linkCall toJson fromJson fuel o link) tr q) : Silent tr := by
  cases o with
  | linkSend m =>
      rw [linkCall, send] at h
      split at h
      · exact silent_of_ret hq h
      · refine silent_call h fun sent tr' h' => ?_
        cases sent <;> exact absurd (path_ret h').2 (hq _)
  | linkRecv t =>
      rw [linkCall, recv] at h
      split at h
      · exact silent_of_ret hq h
      · refine silent_call h fun now tr' h' => ?_
        exact (recvLoop_silent hq h').cons rfl rfl rfl
  | _ => exact silent_call h fun r tr' h' => absurd (path_ret h').2 (hq _)

theorem LawfulFrom.silent {up : List (Ev (conn In Out))} {down : List (Ev (wire In Out))}
    (h : LawfulFrom toJson fromJson link up down) (htr : Silent tr) :
    LawfulFrom toJson fromJson link up (down ++ tr) where
  received := by rw [List.filterMap_append, htr.text, List.append_nil, h.received]
  written := by rw [List.filterMap_append, htr.written, List.append_nil, h.written]
  passed := by rw [List.filterMap_append, htr.passed, List.append_nil, h.passed]
  closed := h.closed
  shut := h.shut

-- a program on a `WsLink` runs as on a link that hands on, in order, the texts the socket brings
theorem link_lawful {α : Type} (toJson : Out → Text) (fromJson : Text → Option In) (fuel : Nat)
    {p : Conn In Out α} {down : List (Ev (wire In Out))} {q : Wire In Out (α × WsLink)}
    (h : Path (p.handle (linkCall toJson fromJson fuel) ⟨none⟩) down q) :
    ∃ up p', Path p up p' ∧ Lawful toJson fromJson up down ∧
      ∀ a link, q = .ret (a, link) → p' = .ret a := by
  obtain ⟨up, done, link, p', hp, hdone, hlast⟩ := path_handle h
  have hlawful := handled_lawful hdone
  refine ⟨up, p', hp, ?_⟩
  have lawful {down : List (Ev (wire In Out))} (h : LawfulFrom toJson fromJson ⟨none⟩ up down) :
      Lawful toJson fromJson up down := ⟨h.received, h.written, h.passed, h.closed⟩
  rcases hlast with ⟨rfl, rfl, hends⟩ | ⟨o, k, tr, q', rfl, rfl, hq, hne, rfl⟩
  · refine ⟨lawful hlawful, fun a link' hret => ?_⟩
    cases p' with
    | ret b => exact congrArg Prog.ret (Prod.mk.inj (Prog.ret.inj hret)).1
    | halt => cases hret
    | act o k => exact absurd rfl (hends o k)
  · exact ⟨lawful (hlawful.silent (linkCall_silent hne hq)), fun a link' hret =>
      absurd hret (bind_ne_ret hne _ _)⟩

-- a ping comes before the first message, a close before the second
def sampleDown : List (Ev (wire ServerToHost HostToServer)) :=
  [⟨.now, 5⟩, ⟨.now, 6⟩, ⟨.setReadTimeout (Duration.fromSecs 15 - 1), .ok ()⟩, ⟨.read, .ok .ping⟩,
    ⟨.now, 8⟩, ⟨.setReadTimeout (Duration.fromSecs 15 - 3), .ok ()⟩,
    ⟨.read, .ok (.text (Signaling.ServerFrame.json .viewerJoined))⟩, ⟨.other .now, 10⟩,
    ⟨.now, 11⟩, ⟨.now, 12⟩, ⟨.setReadTimeout (Duration.fromSecs 15 - 1), .ok ()⟩,
    ⟨.read, .ok (.close (some 4000))⟩]

theorem sample_down : Exec ((serveNext .sample .sample .sample 3).handle
    (linkCall HostToServer.json Signaling.sampleReadHost 3) ⟨none⟩) sampleDown
    ((.error (.link (.closed (some 4000))), .sample), ⟨some (some 4000)⟩) :=
  exec_of_replay (by decide)

theorem sample_link_lawful : ∃ up, Exec (serveNext .sample .sample .sample 3) up
    (.error (.link (.closed (some 4000))), .sample) ∧
      Lawful HostToServer.json Signaling.sampleReadHost up sampleDown := by
  obtain ⟨up, p', hp, hlawful, hret⟩ :=
    link_lawful HostToServer.json Signaling.sampleReadHost 3 sample_down
  obtain rfl := hret _ _ rfl
  exact ⟨up, hp, hlawful⟩

-- a read waits until the deadline at most: its limit was set from the clock, and is not zero
def Timed (deadline : Instant) (past : List (Ev (wire In Out))) : WireOp Out → Prop
  | .setReadTimeout d => 0 < d
  | .read => ∃ before now d, past = before ++ [⟨.now, now⟩, ⟨.setReadTimeout d, .ok ()⟩] ∧
      0 < d ∧ now + d = deadline
  | _ => True

-- `recv` gives up only when the clock or the socket says that the time is over
def Expired (deadline : Instant) (past : List (Ev (wire In Out))) : Prop :=
  ∃ before, (∃ now, past = before ++ [⟨.now, now⟩] ∧ deadline ≤ now) ∨
    ∃ kind, past = before ++ [⟨.read, .error (.io kind)⟩] ∧ isTimeout kind = true

theorem readMessage_timed {deadline : Instant} {past : List (Ev (wire In Out))}
    (hread : Timed deadline past .read)
    {again : Wire In Out (Except LinkError (Option In) × WsLink)}
    (hagain : ∀ past, again.wp (.history (Timed deadline))
      (fun past' r => r.1 = .ok none → Expired deadline past') past) :
    (link.readMessage fromJson again).wp (.history (Timed deadline))
      (fun past' r => r.1 = .ok none → Expired deadline past') past := by
  refine ⟨hread, fun got _ => ?_⟩
  rcases got with e | (t | _ | _ | _ | code | _)
  case error =>
    cases e with
    | io kind =>
        dsimp only [Prog.bind]
        split
        · rename_i hkind
          exact fun _ => ⟨past, .inr ⟨kind, rfl, hkind⟩⟩
        · exact nofun
    | _ => exact nofun
  case ok.text =>
    dsimp only [Prog.bind]
    split <;> exact nofun
  case ok.ping => exact hagain _
  case ok.pong => exact hagain _
  all_goals exact nofun

theorem recvLoop_timed (deadline : Instant) (fuel : Nat) (past : List (Ev (wire In Out))) :
    (recvLoop fromJson deadline fuel link).wp (.history (Timed deadline))
      (fun past' r => r.1 = .ok none → Expired deadline past') past := by
  induction fuel generalizing past with
  | zero => trivial
  | succ fuel ih =>
      refine ⟨trivial, fun now _ => ?_⟩
      dsimp only [Prog.bind]
      split
      · rename_i hover
        exact fun _ => ⟨past, .inl ⟨now, rfl, Nat.le_of_sub_eq_zero hover⟩⟩
      · rename_i hremaining
        refine ⟨Nat.pos_of_ne_zero hremaining, fun set _ => ?_⟩
        rcases set with (_ | _) | _
        · exact nofun
        · exact nofun
        · refine readMessage_timed ⟨past, now, deadline - now, ?_, ?_, ?_⟩ ih
          · exact List.append_assoc ..
          · exact Nat.pos_of_ne_zero hremaining
          · exact Nat.add_sub_of_le (Nat.le_of_lt (Nat.lt_of_sub_ne_zero hremaining))

-- `recv` says that the time is over only when it is, and each of its waits ends by the deadline; a
-- call that has not looked at the clock has not begun, or found the link closed
theorem recv_timed (fromJson : Text → Option In) (fuel : Nat) (timeout : Duration) {link : WsLink}
    {tr : List (Ev (wire In Out))} {q : Wire In Out (Except LinkError (Option In) × WsLink)}
    (h : Path (link.recv fromJson fuel timeout) tr q) :
    (∀ link', q = .ret (.ok none, link') →
      ∃ start rest, tr = ⟨.now, start⟩ :: rest ∧ Expired (start + timeout) rest) ∧
    ((∃ start rest, tr = ⟨.now, start⟩ :: rest ∧
        ∀ pre e post, rest = pre ++ e :: post → Timed (start + timeout) pre e.op) ∨
      tr = [] ∧ (link.closed = none ∧ q = link.recv fromJson fuel timeout ∨
        ∃ code, link.closed = some code ∧ q = .ret (.error (.closed code), link))) := by
  cases hclosed : link.closed with
  | some code =>
      rw [recv, hclosed] at h
      obtain ⟨rfl, rfl⟩ := path_ret h
      exact ⟨nofun, .inr ⟨rfl, .inr ⟨code, rfl, rfl⟩⟩⟩
  | none =>
      have hrecv : (link.recv fromJson fuel timeout : Wire In Out _) =
          (ask .now >>= fun now => link.recvLoop fromJson (now + timeout) fuel) := by
        rw [recv, hclosed]
      rw [hrecv] at h ⊢
      rcases path_call h with ⟨rfl, rfl⟩ | ⟨start, rest, rfl, h'⟩
      · exact ⟨nofun, .inr ⟨rfl, .inl ⟨rfl, rfl⟩⟩⟩
      · obtain ⟨htimed, hends⟩ := history_path (recvLoop_timed (start + timeout) fuel []) h'
        exact ⟨fun link' hq => ⟨start, rest, rfl, hends _ hq rfl⟩, .inl ⟨start, rest, rfl, htimed⟩⟩

def sampleWait : List (Ev (wire ServerToHost HostToServer)) :=
  [⟨.now, 6⟩, ⟨.setReadTimeout (Duration.fromSecs 15 - 1), .ok ()⟩, ⟨.read, .ok .ping⟩,
    ⟨.now, 8⟩, ⟨.setReadTimeout (Duration.fromSecs 15 - 3), .ok ()⟩,
    ⟨.read, .error (.io .wouldBlock)⟩]

theorem sample_recv_timed : Expired (5 + Duration.fromSecs 15) sampleWait := by
  have hrun : Exec (recv Signaling.sampleReadHost 3 (Duration.fromSecs 15) ⟨none⟩)
      (⟨.now, 5⟩ :: sampleWait) (.ok none, ⟨none⟩) := exec_of_replay (by decide)
  obtain ⟨hexpired, -⟩ := recv_timed Signaling.sampleReadHost 3 (Duration.fromSecs 15) hrun
  obtain ⟨start, rest, heq, hends⟩ := hexpired _ rfl
  obtain ⟨hstart, rfl⟩ := List.cons.inj heq
  cases hstart
  exact hends

section Connect
variable (parse : Text → Option Uri) (url : Text)

def refused (addr : SocketAddr) : Ev (wire In Out) :=
  ⟨.connectTimeout addr CONNECT_TIMEOUT, .error ()⟩

-- the URL's host is resolved and `tried` have been refused; `rest` are the addresses to come
inductive Trying : List (Ev (wire In Out)) → List SocketAddr → Prop
  | intro {host : Text} {port : Nat} (tried rest : List SocketAddr)
      (htarget : tcpTarget parse url = .ok (host, port)) :
      Trying (⟨.resolve host port, .ok (tried ++ rest)⟩ :: tried.map refused) rest

inductive Dialled : List (Ev (wire In Out)) → Prop
  | intro {before : List (Ev (wire In Out))} {addr : SocketAddr} {rest : List SocketAddr}
      (h : Trying parse url before (addr :: rest)) :
      Dialled (before ++ [⟨.connectTimeout addr CONNECT_TIMEOUT, .ok ()⟩])

def settings : List (Ev (wire In Out)) :=
  [⟨.setNodelay, .ok ()⟩, ⟨.setReadTimeout CONNECT_TIMEOUT, .ok ()⟩,
    ⟨.setWriteTimeout CONNECT_TIMEOUT, .ok ()⟩]

-- on a connection, with the first `n` settings made
def Configured (n : Nat) (past : List (Ev (wire In Out))) : Prop :=
  ∃ before, Dialled parse url before ∧ past = before ++ settings.take n

-- what a call of `connect` rests on
def Guarded (past : List (Ev (wire In Out))) : WireOp Out → Prop
  | .resolve host port => past = [] ∧ tcpTarget parse url = .ok (host, port)
  | .connectTimeout addr timeout => timeout = CONNECT_TIMEOUT ∧
      ∃ rest, Trying parse url past (addr :: rest)
  | .setNodelay => Configured parse url 0 past
  | .setReadTimeout timeout => timeout = CONNECT_TIMEOUT ∧ Configured parse url 1 past
  | .setWriteTimeout timeout => timeout = CONNECT_TIMEOUT ∧ Configured parse url 2 past
  | .clientTls u maxMessageSize maxFrameSize => u = url ∧ maxMessageSize = MAX_MESSAGE_BYTES ∧
      maxFrameSize = MAX_MESSAGE_BYTES ∧ Configured parse url 3 past
  | _ => False

-- an open link comes from a handshake over such a connection, and from nothing else
def Opened (past : List (Ev (wire In Out))) : Except LinkError WsLink → Prop
  | .ok link => link = ⟨none⟩ ∧ ∃ before, Configured parse url 3 before ∧
      past = before ++ [⟨.clientTls url MAX_MESSAGE_BYTES MAX_MESSAGE_BYTES, .ok ()⟩]
  | .error _ => ∀ u m f, ⟨.clientTls u m f, .ok ()⟩ ∉ past

section
variable {parse} {url} {past : List (Ev (wire In Out))}

theorem Trying.unopened {rest : List SocketAddr} (h : Trying parse url past rest) (u : Text)
    (m f : Nat) : ⟨.clientTls u m f, .ok ()⟩ ∉ past := by
  obtain ⟨tried, rest, htarget⟩ := h
  simp [refused]

theorem Configured.unopened {n : Nat} (h : Configured parse url n past) (u : Text) (m f : Nat) :
    ⟨.clientTls u m f, .ok ()⟩ ∉ past := by
  obtain ⟨before, ⟨htrying⟩, rfl⟩ := h
  have htried := htrying.unopened u m f
  have hset : ⟨.clientTls u m f, .ok ()⟩ ∉ (settings : List (Ev (wire In Out))).take n := fun hmem => by
    simpa [settings] using List.mem_of_mem_take hmem
  simp [htried, hset]

theorem unopened_append {e : Ev (wire In Out)} (h : ∀ u m f, ⟨.clientTls u m f, .ok ()⟩ ∉ past)
    (he : ∀ u m f, e ≠ ⟨.clientTls u m f, .ok ()⟩) (u : Text) (m f : Nat) :
    ⟨.clientTls u m f, .ok ()⟩ ∉ past ++ [e] := fun hmem => by
  rcases List.mem_append.mp hmem with hmem | hmem
  · exact h u m f hmem
  · exact he u m f (List.mem_singleton.mp hmem).symm

theorem upgrade_guarded (h : Configured parse url 3 past) :
    (upgrade url : Wire In Out _).wp (.history (Guarded parse url)) (Opened parse url) past := by
  refine ⟨⟨rfl, rfl, rfl, h⟩, fun r _ => ?_⟩
  rcases r with (e | _) | u
  · exact unopened_append h.unopened nofun
  · exact unopened_append h.unopened nofun
  · exact ⟨rfl, past, h, rfl⟩

theorem onStream_guarded (h : Configured parse url 0 past) :
    (onStream url : Wire In Out _).wp (.history (Guarded parse url)) (Opened parse url) past := by
  obtain ⟨before, hdialled, rfl⟩ := h
  have step (n : Nat) : Configured parse url n (before ++ settings.take n) := ⟨before, hdialled, rfl⟩
  refine ⟨step 0, fun r _ => ?_⟩
  cases r with
  | error u => exact unopened_append (step 0).unopened nofun
  | ok u =>
      have h₁ : Configured parse url 1 (before ++ settings.take 0 ++ [⟨.setNodelay, .ok u⟩]) := by
        rw [List.append_assoc]
        exact step 1
      refine ⟨⟨rfl, h₁⟩, fun r _ => ?_⟩
      cases r with
      | error e => exact unopened_append h₁.unopened nofun
      | ok u' =>
          have h₂ : Configured parse url 2 (before ++ settings.take 0 ++ [⟨.setNodelay, .ok u⟩] ++
              [⟨.setReadTimeout CONNECT_TIMEOUT, .ok u'⟩]) := by
            rw [List.append_assoc, List.append_assoc]
            exact step 2
          refine ⟨⟨rfl, h₂⟩, fun r _ => ?_⟩
          cases r with
          | error e => exact unopened_append h₂.unopened nofun
          | ok u'' =>
              have h₃ : Configured parse url 3 (before ++ settings.take 0 ++ [⟨.setNodelay, .ok u⟩] ++
                  [⟨.setReadTimeout CONNECT_TIMEOUT, .ok u'⟩] ++
                  [⟨.setWriteTimeout CONNECT_TIMEOUT, .ok u''⟩]) := by
                rw [List.append_assoc, List.append_assoc, List.append_assoc]
                exact step 3
              exact upgrade_guarded h₃

theorem Trying.refuse {addr : SocketAddr} {rest : List SocketAddr}
    (h : Trying parse url past (addr :: rest)) :
    Trying parse url (past ++ [refused addr]) rest := by
  obtain ⟨tried, rest', htarget⟩ := h
  have hnext := @Trying.intro In Out parse url _ _ (tried ++ [addr]) rest htarget
  rwa [List.map_append, List.append_assoc] at hnext

theorem connectTcp_guarded {rest : List SocketAddr} (h : Trying parse url past rest) :
    (connectTcp rest : Wire In Out _).wp (.history (Guarded parse url)) (fun past' r => match r with
      | .ok () => Dialled parse url past'
      | .error _ => ∀ u m f, ⟨.clientTls u m f, .ok ()⟩ ∉ past') past := by
  induction rest generalizing past with
  | nil => exact h.unopened
  | cons addr rest ih =>
      refine ⟨⟨rfl, rest, h⟩, fun r _ => ?_⟩
      cases r with
      | ok u => exact .intro h
      | error u => exact ih h.refuse

theorem connect_guarded (parse : Text → Option Uri) (url : Text) :
    (connect parse url : Wire In Out _).wp (.history (Guarded parse url)) (Opened parse url) [] := by
  rw [connect]
  split
  · exact nofun
  · rename_i host port htarget
    refine ⟨⟨rfl, htarget⟩, fun r _ => ?_⟩
    cases r with
    | error u => exact unopened_append nofun nofun
    | ok addrs =>
        have hnone : Trying parse url ([⟨.resolve host port, .ok addrs⟩] : List (Ev (wire In Out)))
            addrs := .intro [] addrs htarget
        change (connectTcp addrs >>= fun r : Except LinkError Unit => match r with
          | .error e => .ret (.error e)
          | .ok () => onStream url).wp _ _ _
        refine wp_bind.mpr (Prog.wp_mono (connectTcp_guarded hnone) fun past' r hr => ?_)
        cases r with
        | error e => exact hr
        | ok u =>
            refine onStream_guarded ⟨past', hr, ?_⟩
            rw [List.take_zero, List.append_nil]

-- the handshake is made over a connection to the host of a URL that has passed the check, to the
-- first of its addresses that answers, with every wait and every message bounded
theorem connect_bounded {tr : List (Ev (wire In Out))} {q : Wire In Out (Except LinkError WsLink)}
    (h : Path (connect parse url) tr q) :
    (∀ pre e post, tr = pre ++ e :: post → Guarded parse url pre e.op) ∧
      ∀ r, q = .ret r → Opened parse url tr r :=
  history_path (connect_guarded parse url) h

def sampleDial : List (Ev (wire ServerToHost HostToServer)) :=
  let first : SocketAddr := ⟨.v4 (filled 4 10), 80⟩
  let second : SocketAddr := ⟨.v4 (filled 4 11), 80⟩
  [⟨.resolve "localhost".toList 80, .ok [first, second]⟩,
    ⟨.connectTimeout first CONNECT_TIMEOUT, .error ()⟩, ⟨.connectTimeout second CONNECT_TIMEOUT, .ok ()⟩,
    ⟨.setNodelay, .ok ()⟩, ⟨.setReadTimeout CONNECT_TIMEOUT, .ok ()⟩,
    ⟨.setWriteTimeout CONNECT_TIMEOUT, .ok ()⟩,
    ⟨.clientTls "ws://localhost/x".toList MAX_MESSAGE_BYTES MAX_MESSAGE_BYTES, .ok ()⟩]

theorem sample_connect_bounded : Opened sampleParse "ws://localhost/x".toList sampleDial (.ok ⟨none⟩) := by
  have hrun : Exec (connect sampleParse "ws://localhost/x".toList) sampleDial (.ok ⟨none⟩) :=
    exec_of_replay (by decide)
  exact (connect_bounded hrun).2 _ rfl

end

end Connect

end

end

end WsLink

end SimpleRemote
