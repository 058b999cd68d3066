import SimpleRemote.Auth
import SimpleRemote.Host.Register

namespace SimpleRemote
open ByteCodec

theorem role_byte_injective {r r' : Role} (h : r.byte = r'.byte) : r = r' := by
  cases r <;> cases r' <;> simp [Role.byte] at h ⊢

theorem prefixed_injective {a b x y : Bytes} (ha : a.length < 65536) (hb : b.length < 65536)
    (h : beBytes 2 (a.length % 65536) ++ (a ++ x) = beBytes 2 (b.length % 65536) ++ (b ++ y)) :
    a = b ∧ x = y := by
  obtain ⟨hlength, htail⟩ := List.append_inj h (by simp)
  rw [Nat.mod_eq_of_lt ha, Nat.mod_eq_of_lt hb] at hlength
  exact List.append_inj htail (beBytes_injective (by omega) (by omega) hlength)

theorem sessionMessage_injective {role role' : Role} {binding binding' : ByteArr 32}
    {ownFp ownFp' peerFp peerFp' name name' : Bytes}
    (hown : ownFp.length < 65536) (hown' : ownFp'.length < 65536)
    (hpeer : peerFp.length < 65536) (hpeer' : peerFp'.length < 65536)
    (h : sessionMessage role binding ownFp peerFp name =
      sessionMessage role' binding' ownFp' peerFp' name') :
    role = role' ∧ binding = binding' ∧ ownFp = ownFp' ∧ peerFp = peerFp' ∧ name = name' := by
  simp only [sessionMessage, List.append_assoc] at h
  obtain ⟨hrole, hbinding⟩ := List.append_inj (List.append_cancel_left h) rfl
  obtain ⟨hbind, hfields⟩ :=
    List.append_inj hbinding (binding.property.trans binding'.property.symm)
  obtain ⟨rfl, hpeers⟩ := prefixed_injective hown hown' hfields
  obtain ⟨rfl, hnames⟩ := prefixed_injective hpeer hpeer' hpeers
  refine ⟨role_byte_injective (List.cons.inj hrole).1, Subtype.ext hbind, rfl, rfl, ?_⟩
  exact (List.append_inj hnames (by simp)).2

theorem reconnectMessage_injective {a b : ByteArr 32}
    (h : reconnectMessage a = reconnectMessage b) : a = b :=
  Subtype.ext (List.append_cancel_left h)

-- what a device signs with its key, and for whom
inductive Signing where
  | hello (role : Role) (binding : ByteArr 32) (ownFp peerFp : Bytes)
  | registration (nonce : ByteArr 32) (challengeId : Text)
      (nineDigits : Register.isHostId challengeId = true)

def Signing.short : Signing → Prop
  | .hello _ _ ownFp peerFp => ownFp.length < 65536 ∧ peerFp.length < 65536
  | .registration _ _ _ => True

section
variable (C : Crypto) (k : DeviceKeys)

def Signing.signs : Signing → List Bytes
  | .hello role binding ownFp peerFp =>
      [reconnectMessage (k.reconnectPublic C),
        sessionMessage role binding ownFp peerFp (utf8 k.name)]
  | .registration nonce challengeId _ => [Register.signed nonce.val challengeId]

def signedBy (history : List Signing) : List Bytes := history.flatMap (Signing.signs C k)

-- a signature verifies under the key of `k` only for the bytes that `k` signed
structure IdealSigner (history : List Signing) : Prop where
  valid : C.validKey (k.devicePublic C) = true
  complete : ∀ m ∈ signedBy C k history,
    C.verifyStrict (k.devicePublic C) m (k.signRaw C m) = true
  sound : ∀ m sig, C.verifyStrict (k.devicePublic C) m sig = true → m ∈ signedBy C k history

end

def contextOf (m : Bytes) : Option UInt8 := m[14]?

theorem contextOf_session (role : Role) (binding : ByteArr 32) (ownFp peerFp name : Bytes) :
    contextOf (sessionMessage role binding ownFp peerFp name) = contextOf HELLO_CONTEXT := by
  have hlt : 14 < HELLO_CONTEXT.length := by decide
  simp only [contextOf, sessionMessage, List.append_assoc]
  exact List.getElem?_append_left hlt

theorem contextOf_reconnect (key : ByteArr 32) :
    contextOf (reconnectMessage key) = contextOf RECONNECT_KEY_CONTEXT :=
  List.getElem?_append_left (by decide)

theorem contextOf_registration (nonce : Bytes) (challengeId : Text) :
    contextOf (Register.signed nonce challengeId) = contextOf Register.AUTH_PREFIX := by
  have hlt : 14 < Register.AUTH_PREFIX.length := by decide
  simp only [contextOf, Register.signed, List.append_assoc]
  exact List.getElem?_append_left hlt

theorem contexts_differ : contextOf HELLO_CONTEXT ≠ contextOf RECONNECT_KEY_CONTEXT ∧
    contextOf HELLO_CONTEXT ≠ contextOf Register.AUTH_PREFIX ∧
    contextOf RECONNECT_KEY_CONTEXT ≠ contextOf Register.AUTH_PREFIX := by
  decide

section
variable {C : Crypto} {k : DeviceKeys} {history : List Signing}

theorem session_signed {role : Role} {binding : ByteArr 32} {ownFp peerFp : Bytes} {name : Text}
    (hshort : ∀ s ∈ history, s.short) (hown : ownFp.length < 65536)
    (hpeer : peerFp.length < 65536)
    (h : sessionMessage role binding ownFp peerFp (utf8 name) ∈ signedBy C k history) :
    .hello role binding ownFp peerFp ∈ history ∧ name = k.name := by
  obtain ⟨s, hs, hm⟩ := List.mem_flatMap.mp h
  have hcontext := contextOf_session role binding ownFp peerFp (utf8 name)
  cases s with
  | hello role' binding' ownFp' peerFp' =>
      simp only [Signing.signs, List.mem_cons, List.not_mem_nil, or_false] at hm
      rcases hm with hm | hm
      · rw [hm, contextOf_reconnect] at hcontext
        exact absurd hcontext.symm contexts_differ.1
      · obtain ⟨hown', hpeer'⟩ := hshort _ hs
        obtain ⟨rfl, rfl, rfl, rfl, hname⟩ := sessionMessage_injective hown hown' hpeer hpeer' hm
        exact ⟨hs, utf8_injective hname⟩
  | registration nonce challengeId nineDigits =>
      rw [List.mem_singleton.mp hm, contextOf_registration] at hcontext
      exact absurd hcontext.symm contexts_differ.2.1

theorem reconnect_signed {key : ByteArr 32}
    (h : reconnectMessage key ∈ signedBy C k history) : key = k.reconnectPublic C := by
  obtain ⟨s, -, hm⟩ := List.mem_flatMap.mp h
  have hcontext := contextOf_reconnect key
  cases s with
  | hello role binding ownFp peerFp =>
      simp only [Signing.signs, List.mem_cons, List.not_mem_nil, or_false] at hm
      rcases hm with hm | hm
      · exact reconnectMessage_injective hm
      · rw [hm, contextOf_session] at hcontext
        exact absurd hcontext contexts_differ.1
  | registration nonce challengeId nineDigits =>
      rw [List.mem_singleton.mp hm, contextOf_registration] at hcontext
      exact absurd hcontext.symm contexts_differ.2.2

theorem verifyHello_makeHello (ideal : IdealSigner C k history) {role : Role}
    {binding : ByteArr 32} {ownFp peerFp : Bytes} (h : .hello role binding ownFp peerFp ∈ history) :
    verifyHello C (k.makeHello C role binding ownFp peerFp) role binding ownFp peerFp =
      .ok (k.identity C) := by
  have hreconnect := ideal.complete (reconnectMessage (k.reconnectPublic C))
    (List.mem_flatMap.mpr ⟨_, h, by simp [Signing.signs]⟩)
  have hsession := ideal.complete (sessionMessage role binding ownFp peerFp (utf8 k.name))
    (List.mem_flatMap.mpr ⟨_, h, by simp [Signing.signs]⟩)
  simp [verifyHello, DeviceKeys.makeHello, k.checked, ideal.valid, hreconnect, hsession,
    DeviceKeys.identity]

theorem hello_exact (ideal : IdealSigner C k history) (hshort : ∀ s ∈ history, s.short) :
    (∀ hello role binding senderFp receiverFp id, senderFp.length < 65536 →
      receiverFp.length < 65536 →
      verifyHello C hello role binding senderFp receiverFp = .ok id →
      id.deviceKey = k.devicePublic C →
        .hello role binding senderFp receiverFp ∈ history ∧ id.name = k.name ∧
          id.reconnectKey = k.reconnectPublic C) ∧
    (∀ role binding ownFp peerFp, .hello role binding ownFp peerFp ∈ history →
      verifyHello C (k.makeHello C role binding ownFp peerFp) role binding ownFp peerFp =
        .ok (k.identity C)) := by
  refine ⟨?_, fun role binding ownFp peerFp => verifyHello_makeHello ideal⟩
  intro hello role binding senderFp receiverFp id hsender hreceiver hverify hkey
  have hv := verifyHello_ok hverify
  obtain ⟨sessionSig, -, hsession⟩ := hv.sessionSigned
  obtain ⟨reconnectSig, -, hreconnect⟩ := hv.reconnectSigned
  rw [hkey] at hsession hreconnect
  obtain ⟨hmem, hname⟩ :=
    session_signed hshort hsender hreceiver (ideal.sound _ sessionSig hsession)
  exact ⟨hmem, hname, reconnect_signed (ideal.sound _ reconnectSig hreconnect)⟩

end

def sampleSignings : List Signing :=
  [.hello .viewer (filled 32 9) (filled 32 1).val (filled 32 2).val,
    .registration (filled 32 5) "123456789".toList (by decide)]

def sampleSigner : DeviceKeys := .sample 7 'v' viewer_name

def Crypto.strictSample : Crypto :=
  { Crypto.sample with
    verifyStrict := fun key m sig => decide (sig = Crypto.sample.sign key m) &&
      (signedBy Crypto.sample sampleSigner sampleSignings).contains m }

theorem sample_ideal : IdealSigner Crypto.strictSample sampleSigner sampleSignings where
  valid := rfl
  complete _ hm := Bool.and_eq_true_iff.mpr ⟨decide_eq_true rfl, List.contains_iff_mem.mpr hm⟩
  sound _ _ h := List.contains_iff_mem.mp (Bool.and_eq_true_iff.mp h).2

theorem sample_hello_exact :
    verifyHello Crypto.strictSample
      (sampleSigner.makeHello Crypto.strictSample .viewer (filled 32 9) (filled 32 1).val
        (filled 32 2).val)
      .viewer (filled 32 9) (filled 32 1).val (filled 32 2).val =
        .ok (sampleSigner.identity Crypto.strictSample) ∧
    (verifyHello Crypto.strictSample
      (sampleSigner.makeHello Crypto.strictSample .viewer (filled 32 9) (filled 32 1).val
        (filled 32 2).val)
      .host (filled 32 9) (filled 32 1).val (filled 32 2).val).toBool = false := by
  have hshort : ∀ s ∈ sampleSignings, s.short := by
    simp [sampleSignings, Signing.short, filled]
  have hexact := hello_exact sample_ideal hshort
  refine ⟨hexact.2 _ _ _ _ (by simp [sampleSignings]), ?_⟩
  rw [Bool.eq_false_iff]
  intro haccepted
  cases hv : verifyHello Crypto.strictSample
      (sampleSigner.makeHello Crypto.strictSample .viewer (filled 32 9) (filled 32 1).val
        (filled 32 2).val)
      .host (filled 32 9) (filled 32 1).val (filled 32 2).val with
  | error e => simp [hv, Except.toBool] at haccepted
  | ok id =>
      have hkey : id.deviceKey = sampleSigner.devicePublic Crypto.strictSample :=
        Subtype.ext (verifyHello_ok hv).deviceKey.symm
      have hmem := (hexact.1 _ _ _ _ _ id (by simp [filled]) (by simp [filled]) hv hkey).1
      simp [sampleSignings] at hmem

end SimpleRemote
