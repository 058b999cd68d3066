import SimpleRemote.Sealed
import SimpleRemote.Signing
import SimpleRemote.Host.Session
import SimpleRemote.Viewer.Connect

namespace SimpleRemote
open ByteCodec Interaction

structure PakeInput where
  w : Nat
  idA : Bytes
  idB : Bytes
  aad : Bytes
  deriving DecidableEq

-- the SPAKE2 crate with the random numbers of one exchange
structure Spake2 where
  startA : PakeInput → Bytes × PartyState
  startB : PakeInput → Bytes × PartyState
  finish : PartyState → Bytes → Except Spake2Error Spake2Output
  verify : Spake2Output → ByteArr 32 → Except Spake2Error Unit

-- the exchange of two parties that got each other's message
structure Spake2.Exchanges (S : Spake2) (x y : PakeInput) (a b : Spake2Output) : Prop where
  finishA : S.finish (S.startA x).2 (S.startB y).1 = .ok a
  finishB : S.finish (S.startB y).2 (S.startA x).1 = .ok b
  same : x = y → a.sessionKey = b.sessionKey ∧ S.verify a b.confirmationMac = .ok () ∧
    S.verify b a.confirmationMac = .ok ()
  apart : x ≠ y → S.verify a b.confirmationMac = .error .confirmationFailed

structure Signs (C : Crypto) (k : DeviceKeys) : Prop where
  valid : C.validKey (k.devicePublic C) = true
  verifies : ∀ m, C.verifyStrict (k.devicePublic C) m (k.signRaw C m) = true

-- the two ends with what their surroundings answer
structure Setting where
  C : Crypto
  spake : Spake2
  viewerCfg : Viewer.Config
  hostCfg : HostConfig
  st : HostState
  viewerScalar : Nat
  hostScalar : Nat
  viewerOutput : Spake2Output
  hostOutput : Spake2Output
  viewerFp : Bytes
  hostFp : Bytes
  offer : Text
  pending : PendingOffer
  answer : Text
  stale : List ServerToHost

def relayText (msg : PakeMsg) : Text := hexEncode (PakeMsg.encode msg)

namespace Setting
variable (W : Setting)

def viewerInput : PakeInput := ⟨W.viewerScalar, VIEWER_ID, hostIdBytes W.viewerCfg.hostId, AAD⟩

def hostInput : PakeInput := ⟨W.hostScalar, VIEWER_ID, hostIdBytes W.hostCfg.hostId, AAD⟩

def viewerKeys : SessionKeys := deriveSessionKeys W.C W.viewerOutput.sessionKey

def hostKeys : SessionKeys := deriveSessionKeys W.C W.hostOutput.sessionKey

def start : PakeMsg := .start (W.spake.startA W.viewerInput).1

def reply : PakeMsg := .reply (W.spake.startB W.hostInput).1 W.hostOutput.confirmationMac.val

def sealedOffer : Bytes :=
  beBytes 8 0 ++ W.C.encrypt W.viewerKeys.viewerToHost (nonceFor 0) labelV2h (utf8 W.offer)

def confirm : PakeMsg := .confirm W.viewerOutput.confirmationMac.val W.sealedOffer

def sealedAnswer : Bytes :=
  beBytes 8 0 ++ W.C.encrypt W.hostKeys.hostToViewer (nonceFor 0) labelH2v (utf8 W.answer)

def answered : PakeMsg := .answer W.sealedAnswer

def viewerHello : Hello :=
  W.viewerCfg.keys.makeHello W.C .viewer W.viewerKeys.helloBinding W.viewerFp W.hostFp

def hello : Hello := hostHello W.C W.hostCfg W.hostKeys W.hostFp W.viewerFp

def viewer : PeerIdentity := W.viewerCfg.keys.identity W.C

def host : PeerIdentity := W.hostCfg.keys.identity W.C

-- ideal primitives; the bounds on lengths are those of any `Vec`
structure Ideal : Prop where
  viewerScalar : codeScalar W.C W.viewerCfg.code = .ok W.viewerScalar
  hostScalar : codeScalar W.C W.st.code = .ok W.hostScalar
  scalars : W.viewerScalar = W.hostScalar → W.viewerCfg.code = W.st.code
  exchanges : W.spake.Exchanges W.viewerInput W.hostInput W.viewerOutput W.hostOutput
  aead : Aead W.C
  viewerSigns : Signs W.C W.viewerCfg.keys
  hostSigns : Signs W.C W.hostCfg.keys
  startA : (W.spake.startA W.viewerInput).1.length < 2 ^ 63
  startB : (W.spake.startB W.hostInput).1.length < 2 ^ 63
  offer : (utf8 W.offer).length < 2 ^ 63
  answer : (utf8 W.answer).length < 2 ^ 63
  stale : .viewerJoined ∉ W.stale

end Setting

theorem viewer_decodes {msg : PakeMsg} (h : msg.fits) :
    Viewer.decodeRelay (relayText msg) = some msg := by
  rw [Viewer.decodeRelay, relayText, hexDecode_hexEncode]
  dsimp only
  rw [PakeMsg.decode_encode msg h]

theorem host_decodes {msg : PakeMsg} (h : msg.fits) : decodeRelay (relayText msg) = .msg msg := by
  rw [decodeRelay, relayText, hexDecode_hexEncode]
  dsimp only
  rw [PakeMsg.decode_encode msg h]

theorem verifyHello_of_signs {C : Crypto} {k : DeviceKeys} (h : Signs C k) {role : Role}
    {binding : ByteArr 32} {ownFp peerFp : Bytes} (version : UInt32) :
    verifyHello C { k.makeHello C role binding ownFp peerFp with protocolVersion := version } role
      binding ownFp peerFp = .ok (k.identity C) := by
  simp [verifyHello, DeviceKeys.makeHello, k.checked, h.valid, h.verifies, DeviceKeys.identity]

theorem checked_name_length {name : Text} (h : checkDeviceName name = .ok ()) :
    (utf8 name).length ≤ NAME_MAX_BYTES := by
  rw [checkDeviceName] at h
  split at h
  · cases h
  · rename_i hlong
    simp only [Bool.or_eq_true, decide_eq_true_eq, not_or] at hlong
    omega

theorem bytes_write_length_le (b : Bytes) : (bytes.write b).length ≤ 10 + b.length := by
  have := writeVarint_length_le 10 b.length
  simp only [bytes, List.length_append]
  omega

theorem decode_hello {C : Crypto} {k : DeviceKeys} {role : Role} {binding : ByteArr 32}
    {ownFp peerFp : Bytes} (version : UInt32) :
    let hello := { k.makeHello C role binding ownFp peerFp with protocolVersion := version }
    Control.decode (Control.encode (.hello hello)) = .ok (.hello hello) := by
  intro hello
  rw [Control.decode_encode, if_neg]
  have hname := checked_name_length k.checked
  have hkey (b : Bytes) := bytes_write_length_le b
  have hversion := writeVarint_length_le 5 version.toNat
  have htag := writeVarint_length_le 5 0
  have h₁ := hkey (k.devicePublic C).val
  have h₂ := hkey (utf8 k.name)
  have h₃ := hkey (k.reconnectPublic C).val
  have h₄ := hkey (k.signRaw C (reconnectMessage (k.reconnectPublic C))).val
  have h₅ := hkey (k.signRaw C (sessionMessage role binding ownFp peerFp (utf8 k.name))).val
  rw [(k.devicePublic C).property] at h₁
  rw [(k.reconnectPublic C).property] at h₃
  rw [(k.signRaw C _).property] at h₄ h₅
  simp only [Control.encode, Hello.write, helloFields, Codec.pair, List.length_append, tag, u32, text,
    hello, DeviceKeys.makeHello, NAME_MAX_BYTES, Control.MAX_CONTROL_BYTES] at hname ⊢
  omega

theorem decode_decision (d : Decision) :
    Control.decode (Control.encode (.decision d)) = .ok (.decision d) := by
  rw [Control.decode_encode, if_neg]
  have hversion (v : UInt32) := writeVarint_length_le 5 v.toNat
  have htag (n : Nat) := writeVarint_length_le 5 n
  have h₀ := htag 0
  have h₁ := htag 1
  have h₂ := htag 2
  have h₃ := htag 3
  rcases d with _ | (_ | _ | v | _)
  case rejected.versionMismatch =>
    have := hversion v
    simp only [Control.encode, Decision.write, RejectReason.write, tag, u32, List.length_append,
      Control.MAX_CONTROL_BYTES]
    omega
  all_goals
    simp only [Control.encode, Decision.write, RejectReason.write, tag, List.length_append,
      Control.MAX_CONTROL_BYTES]
    omega

theorem decision_encode_injective {d d' : Decision}
    (h : Control.encode (.decision d) = Control.encode (.decision d')) : d = d' := by
  have hd := decode_decision d
  rw [h, decode_decision] at hd
  exact (Control.decision.inj (Except.ok.inj hd)).symm

namespace Setting
variable {W : Setting}

theorem Ideal.same (ideal : W.Ideal) (h : W.viewerInput = W.hostInput) :
    W.viewerKeys = W.hostKeys := by
  rw [viewerKeys, hostKeys, (ideal.exchanges.same h).1]

theorem seal_opens {C : Crypto} (haead : Aead C) (key : ByteArr 32) (label plaintext : Bytes) :
    (⟨key, label, 0⟩ : SealedReceiver).open C
      (beBytes 8 0 ++ C.encrypt key (nonceFor 0) label plaintext) =
        .ok (plaintext, ⟨key, label, 1⟩) := by
  have hlength := haead.length key (nonceFor 0) label plaintext
  rw [SealedReceiver.open, if_neg, if_neg]
  · simp only
    rw [List.drop_left' (beBytes_length 8 _), haead.decrypts]
  · rw [List.take_left' (beBytes_length 8 _), fromBe_beBytes 8 0 (by decide)]
    exact not_not.mpr rfl
  · simp only [List.length_append, beBytes_length, hlength, MIN_SEALED_LEN]
    omega

theorem Ideal.opens_offer (ideal : W.Ideal) (h : W.viewerInput = W.hostInput) :
    openOffer W.C W.hostKeys W.sealedOffer = some W.offer := by
  have hopen := seal_opens ideal.aead W.viewerKeys.viewerToHost labelV2h (utf8 W.offer)
  rw [openOffer, SessionKeys.hostSide, sealedOffer, ← ideal.same h, hopen]
  exact fromUtf8_utf8 W.offer

theorem Ideal.opens_answer (ideal : W.Ideal) (h : W.viewerInput = W.hostInput) :
    Viewer.openAnswer W.C W.viewerKeys W.sealedAnswer = some W.answer := by
  have hopen := seal_opens ideal.aead W.hostKeys.hostToViewer labelH2v (utf8 W.answer)
  rw [Viewer.openAnswer, SessionKeys.viewerSide, sealedAnswer, ideal.same h, hopen]
  exact fromUtf8_utf8 W.answer

theorem Ideal.hears_host (ideal : W.Ideal) (h : W.viewerInput = W.hostInput) :
    verifyHello W.C W.hello .host W.viewerKeys.helloBinding W.hostFp W.viewerFp = .ok W.host := by
  rw [ideal.same h]
  exact verifyHello_of_signs ideal.hostSigns W.hostCfg.protocolVersion

theorem Ideal.hears_viewer (ideal : W.Ideal) (h : W.viewerInput = W.hostInput) :
    verifyHello W.C W.viewerHello .viewer W.hostKeys.helloBinding W.viewerFp W.hostFp =
      .ok W.viewer := by
  rw [← ideal.same h]
  exact verifyHello_of_signs ideal.viewerSigns PROTOCOL_VERSION

theorem Ideal.inputs_eq (ideal : W.Ideal) : W.viewerInput = W.hostInput ↔
    W.viewerCfg.code = W.st.code ∧ W.viewerCfg.hostId = W.hostCfg.hostId := by
  simp only [viewerInput, hostInput, PakeInput.mk.injEq, true_and, and_true]
  refine and_congr ⟨ideal.scalars, fun hcode => ?_⟩ ⟨fun hid => ?_, fun hid => by rw [hid]⟩
  · have hv := ideal.viewerScalar
    rw [hcode, ideal.hostScalar] at hv
    exact (Except.ok.inj hv).symm
  · exact utf8_injective (List.append_cancel_left hid)

theorem mac_fits (mac : ByteArr 32) : bytes.fits mac.val := lt_of_eq_of_lt mac.property (by decide)

theorem Ideal.start_fits (ideal : W.Ideal) : W.start.fits := lt_trans ideal.startA (by decide)

theorem Ideal.reply_fits (ideal : W.Ideal) : W.reply.fits :=
  ⟨lt_trans ideal.startB (by decide), mac_fits _⟩

theorem sealed_fits {C : Crypto} (haead : Aead C) (key : ByteArr 32) (label plaintext : Bytes)
    (h : plaintext.length < 2 ^ 63) :
    bytes.fits (beBytes 8 0 ++ C.encrypt key (nonceFor 0) label plaintext) := by
  have hlength := haead.length key (nonceFor 0) label plaintext
  simp only [bytes, List.length_append, beBytes_length, hlength]
  omega

theorem Ideal.confirm_fits (ideal : W.Ideal) : W.confirm.fits :=
  ⟨mac_fits _, sealed_fits ideal.aead _ _ _ ideal.offer⟩

theorem Ideal.answered_fits (ideal : W.Ideal) : W.answered.fits :=
  sealed_fits ideal.aead _ _ _ ideal.answer

end Setting

end SimpleRemote
