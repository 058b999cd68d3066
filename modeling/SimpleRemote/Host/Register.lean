import SimpleRemote.Transport.Effects

namespace SimpleRemote
open ByteCodec Interaction

inductive RegisterError where
  | link (e : LinkError)
  | protocol (what : Text)
  deriving DecidableEq, Repr

inductive RegisterOp where
  | connect (url : Text)
  | recv (timeout : Duration)
  | send (msg : HostToServer)
  deriving DecidableEq

@[reducible] def RegisterOp.Res : RegisterOp → Type
  | .connect _ => Except LinkError Unit
  | .recv _ => Except LinkError (Option ServerToHost)
  | .send _ => Except LinkError Unit

@[reducible] def RegisterSig : Sig := ⟨RegisterOp, RegisterOp.Res⟩

abbrev RegisterM (α : Type) := Prog RegisterSig α

abbrev RegisterResult := Except RegisterError Text

namespace Register

def AUTH_PREFIX : Bytes := utf8 "simple-remote signaling auth v1".toList

def STEP : Duration := Duration.fromSecs 15

def isAsciiDigit (b : UInt8) : Bool := 48 ≤ b.toNat && b.toNat ≤ 57

def isHostId (id : Text) : Bool := (utf8 id).length = 9 && (utf8 id).all isAsciiDigit

def signed (nonce : Bytes) (challengeId : Text) : Bytes := AUTH_PREFIX ++ nonce ++ utf8 challengeId

abbrev ask (o : RegisterOp) : RegisterM (RegisterOp.Res o) := Prog.call (S := RegisterSig) o

def fail {α : Type} (what : String) : RegisterM (Except RegisterError α) :=
  return .error (.protocol what.toList)

section
variable (C : Crypto)

def authFor (keys : DeviceKeys) (nonce : Bytes) (challengeId : Text) : HostToServer :=
  .auth (hexEncode (keys.signRaw C (signed nonce challengeId)).val)

def awaitRegistered (challengeId : Text) : RegisterM RegisterResult := do
  match ← ask (.recv STEP) with
  | .error e => return .error (.link e)
  | .ok (some (.registered id)) =>
      if id = challengeId then return .ok id else fail "registered another id"
  | .ok (some _) => fail "expected registered"
  | .ok none => fail "no registered"

def sendAuth (keys : DeviceKeys) (nonce : Bytes) (challengeId : Text) : RegisterM RegisterResult := do
  match ← ask (.send (authFor C keys nonce challengeId)) with
  | .error e => return .error (.link e)
  | .ok () => awaitRegistered challengeId

def answerChallenge (keys : DeviceKeys) (id : Option Text) (nonceHex challengeId : Text) :
    RegisterM RegisterResult :=
  match (hexDecode nonceHex).filter fun n => n.length = 32 with
  | none => fail "bad challenge nonce"
  | some nonce =>
      if isHostId challengeId = false then fail "bad challenge id"
      else if id.any (· ≠ challengeId) then fail "challenge for another id"
      else sendAuth C keys nonce challengeId

def awaitChallenge (keys : DeviceKeys) (id : Option Text) : RegisterM RegisterResult := do
  match ← ask (.recv STEP) with
  | .error e => return .error (.link e)
  | .ok (some (.challenge nonce challengeId)) => answerChallenge C keys id nonce challengeId
  | .ok (some _) => fail "expected challenge"
  | .ok none => fail "no challenge"

def connectTo (keys : DeviceKeys) (id : Option Text) (url : Text) : RegisterM RegisterResult := do
  match ← ask (.connect url) with
  | .error e => return .error (.link e)
  | .ok () => awaitChallenge C keys id

def urlFor (server : Text) (keys : DeviceKeys) (id : Option Text) : Text :=
  let key := hexEncode (keys.devicePublic C).val
  match id with
  | none => server ++ "/v1/host?key=".toList ++ key
  | some id => server ++ "/v1/host/".toList ++ id ++ "?key=".toList ++ key

end

end Register

open Register

def registerHost (C : Crypto) (server : Text) (keys : DeviceKeys) (id : Option Text) :
    RegisterM RegisterResult :=
  if id.any fun id => isHostId id = false then fail "bad host id"
  else connectTo C keys id (urlFor C server keys id)

namespace Register

structure Challenged (C : Crypto) (id : Option Text) where
  nonceHex : Text
  challengeId : Text
  nonce : Bytes
  decoded : hexDecode nonceHex = some nonce
  length : nonce.length = 32
  nineDigits : isHostId challengeId = true
  requested : ∀ i ∈ id, i = challengeId

section
variable {C : Crypto} {server : Text} {keys : DeviceKeys} {id : Option Text}

def Challenged.trace (c : Challenged C id) (server : Text) (keys : DeviceKeys) :
    List (Ev RegisterSig) :=
  [⟨.connect (urlFor C server keys id), .ok ()⟩,
    ⟨.recv STEP, .ok (some (.challenge c.nonceHex c.challengeId))⟩]

def sends (tr : List (Ev RegisterSig)) : List HostToServer :=
  tr.filterMap fun e => match e.op with
    | .send msg => some msg
    | _ => none

-- what the run `tr` up to `q` has signed and returned
structure Registers (c : Challenged C id) (server : Text) (keys : DeviceKeys)
    (tr : List (Ev RegisterSig)) (q : RegisterM RegisterResult) where
  sent : Except LinkError Unit
  rest : List (Ev RegisterSig)
  trace : tr = c.trace server keys ++ ⟨.send (authFor C keys c.nonce c.challengeId), sent⟩ :: rest
  quiet : sends rest = []
  result : ∀ i, q = .ret (.ok i) → i = c.challengeId ∧ sent = .ok () ∧
    rest = [⟨.recv STEP, .ok (some (.registered i))⟩]

def Sends : RegisterOp → Prop
  | .send _ => True
  | _ => False

def Succeeds : RegisterResult → Prop
  | .ok _ => True
  | .error _ => False

theorem sends_nil_of_uses {α : Type} {p q : RegisterM α} {tr : List (Ev RegisterSig)}
    (hp : p.Uses fun o : RegisterOp => ¬ Sends o) (h : Path p tr q) : sends tr = [] := by
  refine List.filterMap_eq_nil_iff.mpr fun e he => ?_
  have hnot := (hp.path h).1 e he
  obtain ⟨o, r⟩ := e
  cases o with
  | send msg => exact absurd trivial hnot
  | _ => rfl

theorem awaitRegistered_uses (challengeId : Text) :
    (awaitRegistered challengeId).Uses fun o : RegisterOp => ¬ Sends o := by
  refine ⟨id, fun r => ?_⟩
  rcases r with e | _ | m
  · trivial
  · trivial
  · cases m with
    | registered i =>
        dsimp only [Prog.bind]
        split <;> trivial
    | _ => trivial

theorem awaitRegistered_ok {challengeId i : Text} {tr : List (Ev RegisterSig)}
    (h : Exec (awaitRegistered challengeId) tr (.ok i)) :
    i = challengeId ∧ tr = [⟨.recv STEP, .ok (some (.registered i))⟩] := by
  obtain ⟨r, tr', rfl, h'⟩ := exec_call_bind.mp h
  rcases r with e | _ | m
  · simp at h'
  · simp [fail] at h'
  · cases m with
    | registered j =>
        dsimp only at h'
        split at h'
        · rename_i hj
          obtain ⟨rfl, hi⟩ := exec_ret.mp h'
          obtain rfl := Except.ok.inj hi
          exact ⟨hj, rfl⟩
        · simp [fail] at h'
    | _ => simp [fail] at h'

abbrev Reached (tr : List (Ev RegisterSig)) (q : RegisterM RegisterResult) : Prop :=
  Hits (S := RegisterSig) Sends Succeeds tr q

theorem not_reached_error {e : RegisterError} {tr : List (Ev RegisterSig)}
    {q : RegisterM RegisterResult} (h : Path (.ret (.error e)) tr q) : ¬ Reached tr q :=
  Prog.Never.not_hits (p := (.ret (.error e) : RegisterM RegisterResult)) id h

theorem sendAuth_reached {c : Challenged C id} {tr : List (Ev RegisterSig)}
    {q : RegisterM RegisterResult} (h : Path (sendAuth C keys c.nonce c.challengeId) tr q)
    (hr : Reached tr q) :
    Nonempty (Registers c server keys (c.trace server keys ++ tr) q) := by
  rcases path_call h with ⟨rfl, rfl⟩ | ⟨sent, rest, rfl, h'⟩
  · rcases hr with ⟨e, he, -⟩ | ⟨a, ha, -⟩
    · cases he
    · cases ha
  · cases sent with
    | error e =>
        obtain ⟨rfl, rfl⟩ := path_ret h'
        exact ⟨⟨_, _, rfl, rfl, fun i hi => by cases hi⟩⟩
    | ok u =>
        refine ⟨⟨_, _, rfl, sends_nil_of_uses (awaitRegistered_uses _) h', fun i hi => ?_⟩⟩
        obtain ⟨heq, hrest⟩ := awaitRegistered_ok (hi ▸ h')
        exact ⟨heq, rfl, hrest⟩

theorem answerChallenge_reached {nonceHex challengeId : Text} {tr : List (Ev RegisterSig)}
    {q : RegisterM RegisterResult}
    (h : Path (answerChallenge C keys id nonceHex challengeId) tr q) (hr : Reached tr q) :
    ∃ c : Challenged C id, c.nonceHex = nonceHex ∧ c.challengeId = challengeId ∧
      Nonempty (Registers c server keys (c.trace server keys ++ tr) q) := by
  rw [answerChallenge] at h
  split at h
  · exact absurd hr (not_reached_error h)
  · rename_i nonce hnonce
    obtain ⟨hdecoded, hlength⟩ := Option.filter_eq_some_iff.mp hnonce
    split at h
    · exact absurd hr (not_reached_error h)
    · rename_i hdigits
      split at h
      · exact absurd hr (not_reached_error h)
      · rename_i hrequested
        have hsame (i : Text) (hi : i ∈ id) : i = challengeId := by
          obtain rfl : id = some i := hi
          simpa using hrequested
        let c : Challenged C id :=
          ⟨nonceHex, challengeId, nonce, hdecoded, by simpa using hlength, by simpa using hdigits, hsame⟩
        exact ⟨c, rfl, rfl, sendAuth_reached (c := c) h hr⟩

theorem awaitChallenge_reached {tr : List (Ev RegisterSig)} {q : RegisterM RegisterResult}
    (h : Path (awaitChallenge C keys id) tr q) (hr : Reached tr q) :
    ∃ c : Challenged C id, Nonempty (Registers c server keys
      (⟨.connect (urlFor C server keys id), .ok ()⟩ :: tr) q) := by
  obtain ⟨r, tr', rfl, h', hr'⟩ := hits_call h hr fun h => h
  rcases r with e | _ | m
  · exact absurd hr' (not_reached_error h')
  · exact absurd hr' (not_reached_error h')
  · cases m with
    | challenge nonceHex challengeId =>
        obtain ⟨c, rfl, rfl, hc⟩ := answerChallenge_reached h' hr'
        exact ⟨c, hc⟩
    | _ => exact absurd hr' (not_reached_error h')

theorem registerHost_reached {tr : List (Ev RegisterSig)} {q : RegisterM RegisterResult}
    (h : Path (registerHost C server keys id) tr q) (hr : Reached tr q) :
    ∃ c : Challenged C id, Nonempty (Registers c server keys tr q) := by
  rw [registerHost] at h
  split at h
  · exact absurd hr (not_reached_error h)
  · obtain ⟨r, tr', rfl, h', hr'⟩ := hits_call h hr fun h => h
    cases r with
    | error e => exact absurd hr' (not_reached_error h')
    | ok u => exact awaitChallenge_reached h' hr'

end

end Register

end SimpleRemote
