import SimpleRemote.Protocol

namespace SimpleRemote
open ByteCodec

inductive AuthError where
  | wrongCode
  | malformed (what : Text)
  | badSignature
  | badSeal
  | nameTooLong
  deriving DecidableEq, Repr

inductive Spake2Error where
  | confirmationFailed
  | invalidPoint
  | other
  deriving DecidableEq, Repr

structure OneTimeCode where
  digits : Text
  six : digits.length = 6 ∧ ∀ c ∈ digits, c.isDigit = true
  deriving DecidableEq

-- third-party primitives: hashes, HKDF-SHA256, ChaCha20Poly1305, Ed25519, X25519
structure Crypto where
  sha256 : Bytes → ByteArr 32
  sha512 : Bytes → Bytes
  scalarFromWideBytes : Bytes → Option Nat
  hkdfExpand : Bytes → Bytes → ByteArr 32
  encrypt : ByteArr 32 → Bytes → Bytes → Bytes → Bytes
  decrypt : ByteArr 32 → Bytes → Bytes → Bytes → Option Bytes
  verifyingKey : ByteArr 32 → ByteArr 32
  validKey : ByteArr 32 → Bool
  sign : ByteArr 32 → Bytes → ByteArr 64
  verifyStrict : ByteArr 32 → Bytes → ByteArr 64 → Bool
  x25519Public : ByteArr 32 → ByteArr 32

def toArr (n : Nat) (b : Bytes) : Option (ByteArr n) :=
  if h : b.length = n then some ⟨b, h⟩ else none

@[simp] theorem toArr_val {n : Nat} (a : ByteArr n) : toArr n a.val = some a := by
  simp [toArr, a.property]

theorem toArr_eq_some {n : Nat} {b : Bytes} {a : ByteArr n} : toArr n b = some a ↔ b = a.val := by
  constructor
  · intro h
    rw [toArr] at h
    split at h
    · exact congrArg Subtype.val (Option.some.inj h)
    · cases h
  · rintro rfl
    exact toArr_val a

def beBytes : Nat → Nat → Bytes
  | 0, _ => []
  | k + 1, n => beBytes k (n / 256) ++ [UInt8.ofNat (n % 256)]

def fromBe (b : Bytes) : Nat := b.foldl (fun acc x => 256 * acc + x.toNat) 0

@[simp] theorem beBytes_length (k n : Nat) : (beBytes k n).length = k := by
  induction k generalizing n with
  | zero => rfl
  | succ k ih => simp [beBytes, ih]

theorem fromBe_beBytes (k n : Nat) (h : n < 256 ^ k) : fromBe (beBytes k n) = n := by
  induction k generalizing n with
  | zero =>
      simp only [Nat.pow_zero, Nat.lt_one_iff] at h
      simp [beBytes, fromBe, h]
  | succ k ih =>
      have hdiv : n / 256 < 256 ^ k := by
        rw [Nat.div_lt_iff_lt_mul (by omega)]
        simpa [Nat.pow_succ] using h
      have := ih (n / 256) hdiv
      rw [fromBe] at this
      rw [beBytes, fromBe, List.foldl_append, this]
      simp only [List.foldl_cons, List.foldl_nil, toNat_ofNat (Nat.mod_lt n (by omega))]
      omega

theorem beBytes_injective {k n m : Nat} (hn : n < 256 ^ k) (hm : m < 256 ^ k)
    (h : beBytes k n = beBytes k m) : n = m := by
  rw [← fromBe_beBytes k n hn, ← fromBe_beBytes k m hm, h]

structure SessionKeys where
  viewerToHost : ByteArr 32
  hostToViewer : ByteArr 32
  helloBinding : ByteArr 32
  deriving DecidableEq

def AAD : Bytes := utf8 "simple-remote pake v1".toList
def VIEWER_ID : Bytes := utf8 "simple-remote viewer".toList
def HOST_ID_PREFIX : Bytes := utf8 "simple-remote host ".toList
def CODE_CONTEXT : Bytes := utf8 "simple-remote code v1\x00".toList

def INFO_VIEWER_TO_HOST : Bytes := utf8 "simple-remote v1 seal viewer->host".toList
def INFO_HOST_TO_VIEWER : Bytes := utf8 "simple-remote v1 seal host->viewer".toList
def INFO_HELLO_BINDING : Bytes := utf8 "simple-remote v1 hello binding".toList

def hostIdBytes (hostId : Text) : Bytes := HOST_ID_PREFIX ++ utf8 hostId

section
variable (C : Crypto)

def codeScalar (code : OneTimeCode) : Except AuthError Nat :=
  match C.scalarFromWideBytes (C.sha512 (CODE_CONTEXT ++ utf8 code.digits)) with
  | some w => .ok w
  | none => .error (.malformed "pake".toList)

def deriveSessionKeys (ke : Bytes) : SessionKeys where
  viewerToHost := C.hkdfExpand ke INFO_VIEWER_TO_HOST
  hostToViewer := C.hkdfExpand ke INFO_HOST_TO_VIEWER
  helloBinding := C.hkdfExpand ke INFO_HELLO_BINDING

end

def toMac (b : Bytes) : Except AuthError (ByteArr 32) :=
  match toArr 32 b with
  | some mac => .ok mac
  | none => .error .wrongCode

def mapConfirmationErr : Spake2Error → AuthError
  | .confirmationFailed => .wrongCode
  | _ => .malformed "pake".toList

def mapFinishErr : Spake2Error → AuthError
  | .invalidPoint => .malformed "pake point".toList
  | _ => .malformed "pake".toList

def MIN_SEALED_LEN : Nat := 8 + 16

def nonceFor (counter : Nat) : Bytes := [0, 0, 0, 0] ++ beBytes 8 counter

def labelV2h : Bytes := utf8 "v2h".toList
def labelH2v : Bytes := utf8 "h2v".toList

structure SealedSender where
  key : ByteArr 32
  label : Bytes
  counter : Nat

structure SealedReceiver where
  key : ByteArr 32
  label : Bytes
  expectedCounter : Nat

-- `none` is the panic of `checked_add` at the end of the u64 counter
def SealedSender.seal (C : Crypto) (s : SealedSender) (plaintext : Bytes) :
    Option (Bytes × SealedSender) :=
  let ciphertext := C.encrypt s.key (nonceFor s.counter) s.label plaintext
  if s.counter + 1 < 2 ^ 64 then
    some (beBytes 8 s.counter ++ ciphertext, { s with counter := s.counter + 1 })
  else none

def SealedReceiver.open (C : Crypto) (r : SealedReceiver) (msg : Bytes) :
    Except AuthError (Bytes × SealedReceiver) :=
  if msg.length < MIN_SEALED_LEN then .error .badSeal
  else if fromBe (msg.take 8) ≠ r.expectedCounter then .error .badSeal
  else
    match C.decrypt r.key (nonceFor r.expectedCounter) r.label (msg.drop 8) with
    | some plaintext => .ok (plaintext, { r with expectedCounter := r.expectedCounter + 1 })
    | none => .error .badSeal

def SessionKeys.viewerSide (sk : SessionKeys) : SealedSender × SealedReceiver :=
  (⟨sk.viewerToHost, labelV2h, 0⟩, ⟨sk.hostToViewer, labelH2v, 0⟩)

def SessionKeys.hostSide (sk : SessionKeys) : SealedSender × SealedReceiver :=
  (⟨sk.hostToViewer, labelH2v, 0⟩, ⟨sk.viewerToHost, labelV2h, 0⟩)

inductive Role where
  | viewer | host
  deriving DecidableEq, Repr

def Role.byte : Role → UInt8
  | .viewer => 1
  | .host => 2

def RECONNECT_KEY_CONTEXT : Bytes := utf8 "simple-remote reconnect key v1".toList
def HELLO_CONTEXT : Bytes := utf8 "simple-remote hello v1".toList
def NAME_MAX_BYTES : Nat := 64

def isControl (c : Char) : Bool := c.toNat < 32 || (127 ≤ c.toNat && c.toNat ≤ 159)

def checkDeviceName (name : Text) : Except AuthError Unit :=
  if (utf8 name).isEmpty || NAME_MAX_BYTES < (utf8 name).length then .error .nameTooLong
  else if name.any isControl then .error (.malformed "device_name".toList)
  else .ok ()

structure DeviceKeys where
  signingKey : ByteArr 32
  reconnectSecret : ByteArr 32
  name : Text
  checked : checkDeviceName name = .ok ()

structure PeerIdentity where
  deviceKey : ByteArr 32
  name : Text
  reconnectKey : ByteArr 32
  deriving DecidableEq

def sessionMessage (role : Role) (binding : ByteArr 32) (ownFp peerFp name : Bytes) : Bytes :=
  HELLO_CONTEXT ++ [role.byte] ++ binding.val
    ++ beBytes 2 (ownFp.length % 65536) ++ ownFp
    ++ beBytes 2 (peerFp.length % 65536) ++ peerFp
    ++ beBytes 2 (name.length % 65536) ++ name

def reconnectMessage (reconnectKey : ByteArr 32) : Bytes := RECONNECT_KEY_CONTEXT ++ reconnectKey.val

section
variable (C : Crypto)

def DeviceKeys.devicePublic (k : DeviceKeys) : ByteArr 32 := C.verifyingKey k.signingKey

def DeviceKeys.reconnectPublic (k : DeviceKeys) : ByteArr 32 := C.x25519Public k.reconnectSecret

def DeviceKeys.signRaw (k : DeviceKeys) (msg : Bytes) : ByteArr 64 := C.sign k.signingKey msg

def DeviceKeys.identity (k : DeviceKeys) : PeerIdentity :=
  ⟨k.devicePublic C, k.name, k.reconnectPublic C⟩

def DeviceKeys.makeHello (k : DeviceKeys) (role : Role) (binding : ByteArr 32)
    (ownFp peerFp : Bytes) : Hello where
  protocolVersion := PROTOCOL_VERSION
  deviceKey := (k.devicePublic C).val
  deviceName := k.name
  reconnectKey := (k.reconnectPublic C).val
  reconnectKeySig := (k.signRaw C (reconnectMessage (k.reconnectPublic C))).val
  sessionSig := (k.signRaw C (sessionMessage role binding ownFp peerFp (utf8 k.name))).val

def verifyHello (hello : Hello) (sender : Role) (binding : ByteArr 32)
    (senderFp receiverFp : Bytes) : Except AuthError PeerIdentity :=
  match toArr 32 hello.deviceKey with
  | none => .error (.malformed "device_key".toList)
  | some deviceKey =>
  match toArr 32 hello.reconnectKey with
  | none => .error (.malformed "reconnect_key".toList)
  | some reconnectKey =>
  match toArr 64 hello.reconnectKeySig with
  | none => .error (.malformed "reconnect_key_sig".toList)
  | some reconnectKeySig =>
  match toArr 64 hello.sessionSig with
  | none => .error (.malformed "session_sig".toList)
  | some sessionSig =>
  match checkDeviceName hello.deviceName with
  | .error e => .error e
  | .ok () =>
  if !C.validKey deviceKey then .error (.malformed "device_key".toList)
  else if !C.verifyStrict deviceKey (reconnectMessage reconnectKey) reconnectKeySig then
    .error .badSignature
  else if !C.verifyStrict deviceKey
      (sessionMessage sender binding senderFp receiverFp (utf8 hello.deviceName)) sessionSig then
    .error .badSignature
  else .ok ⟨deviceKey, hello.deviceName, reconnectKey⟩

def chunks4 : Text → List Text
  | a :: b :: c :: d :: rest => [a, b, c, d] :: chunks4 rest
  | [] => []
  | rest => [rest]

def keyFingerprint (key : ByteArr 32) : Text :=
  [' '].intercalate (chunks4 (hexEncode ((C.sha256 key.val).val.take 8)))

end

structure HelloVerified (C : Crypto) (hello : Hello) (sender : Role) (binding : ByteArr 32)
    (senderFp receiverFp : Bytes) (id : PeerIdentity) : Prop where
  deviceKey : hello.deviceKey = id.deviceKey.val
  name : hello.deviceName = id.name
  reconnectKey : hello.reconnectKey = id.reconnectKey.val
  nameChecked : checkDeviceName id.name = .ok ()
  reconnectSigned : ∃ sig, hello.reconnectKeySig = sig.val ∧
    C.verifyStrict id.deviceKey (reconnectMessage id.reconnectKey) sig = true
  sessionSigned : ∃ sig, hello.sessionSig = sig.val ∧
    C.verifyStrict id.deviceKey
      (sessionMessage sender binding senderFp receiverFp (utf8 id.name)) sig = true

theorem verifyHello_ok {C : Crypto} {hello : Hello} {sender : Role} {binding : ByteArr 32}
    {senderFp receiverFp : Bytes} {id : PeerIdentity}
    (h : verifyHello C hello sender binding senderFp receiverFp = .ok id) :
    HelloVerified C hello sender binding senderFp receiverFp id := by
  rw [verifyHello] at h
  split at h
  · cases h
  rename_i deviceKey hdk
  split at h
  · cases h
  rename_i reconnectKey hrk
  split at h
  · cases h
  rename_i reconnectKeySig hrs
  split at h
  · cases h
  rename_i sessionSig hss
  split at h
  · cases h
  rename_i hname
  split at h
  · cases h
  split at h
  · cases h
  rename_i hreconnect
  split at h
  · cases h
  rename_i hsession
  obtain rfl := Except.ok.inj h
  exact {
    deviceKey := toArr_eq_some.mp hdk
    name := rfl
    reconnectKey := toArr_eq_some.mp hrk
    nameChecked := hname
    reconnectSigned := ⟨reconnectKeySig, toArr_eq_some.mp hrs, by simpa using hreconnect⟩
    sessionSigned := ⟨sessionSig, toArr_eq_some.mp hss, by simpa using hsession⟩ }

def filled (n : Nat) (x : UInt8) : ByteArr n := ⟨List.replicate n x, List.length_replicate⟩

def checksum (b : Bytes) : UInt8 := b.foldl (fun acc x => acc + x) 0

-- stand-ins with the round trips of the real primitives, to run the model on
def Crypto.sample : Crypto where
  sha256 b := filled 32 (checksum b)
  sha512 b := b
  scalarFromWideBytes b := some (fromBe b)
  hkdfExpand ke info := filled 32 (checksum ke + info.getLastD 0)
  encrypt key nonce label b := b ++ List.replicate 16 (key.val.head! + checksum (nonce ++ label))
  decrypt key nonce label b :=
    if b.drop (b.length - 16) = List.replicate 16 (key.val.head! + checksum (nonce ++ label))
    then some (b.take (b.length - 16)) else none
  verifyingKey k := k
  validKey _ := true
  sign k b := filled 64 (checksum k.val + checksum b)
  verifyStrict k b sig := decide (sig = filled 64 (checksum k.val + checksum b))
  x25519Public k := k

def DeviceKeys.sample (secret : UInt8) (c : Char) (h : checkDeviceName [c] = .ok ()) : DeviceKeys :=
  ⟨filled 32 secret, filled 32 (secret + 1), [c], h⟩

theorem viewer_name : checkDeviceName ['v'] = .ok () := by decide

theorem host_name : checkDeviceName ['h'] = .ok () := by decide

def OneTimeCode.sample : OneTimeCode := ⟨"000000".toList, by decide, List.all_eq_true.mp (by decide)⟩

end SimpleRemote
