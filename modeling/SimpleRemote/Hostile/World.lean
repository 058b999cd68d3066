import SimpleRemote.Meeting.Setting
import SimpleRemote.Transport.Queue
import SimpleRemote.Viewer.FailClosed

namespace SimpleRemote
open ByteCodec Interaction

-- the calls that fix whom a run talks to: SPAKE2 and the two certificates
def Op.isSetup {Out : Type} : Op Out → Bool
  | .partyAStart _ _ _ _ => true
  | .partyBStart _ _ _ _ => true
  | .finish _ _ => true
  | .verifyPeerConfirmation _ _ => true
  | .localFingerprint => true
  | .remoteFingerprint => true
  | _ => false

def Op.isStart {Out : Type} : Op Out → Bool
  | .partyAStart _ _ _ _ => true
  | .partyBStart _ _ _ _ => true
  | _ => false

namespace Hostile

section
variable {In Out α : Type}

def isSetup (e : Ev (conn In Out)) : Bool := e.op.isSetup

def setup (tr : List (Ev (conn In Out))) : List (Ev (conn In Out)) := tr.filter isSetup

@[simp] theorem setup_append (tr tr' : List (Ev (conn In Out))) :
    setup (tr ++ tr') = setup tr ++ setup tr' := List.filter_append ..

theorem mem_setup {tr : List (Ev (conn In Out))} {e : Ev (conn In Out)} (h : e ∈ tr)
    (hsetup : e.op.isSetup = true) : e ∈ setup tr := List.mem_filter.mpr ⟨h, hsetup⟩

theorem setup_eq_nil {tr : List (Ev (conn In Out))} (h : ∀ e ∈ tr, e.op.isSetup = false) :
    setup tr = [] := List.filter_eq_nil_iff.mpr fun e he => by simp [isSetup, h e he]

theorem isSetup_of_waiting {o : Op Out} (h : o.waiting = true) : o.isSetup = false := by
  cases o <;> first | rfl | cases h

theorem setup_waits {p q : Conn In Out α} {tr : List (Ev (conn In Out))} (hp : Waits p)
    (h : Path p tr q) : setup tr = [] :=
  setup_eq_nil fun e he => isSetup_of_waiting ((hp.path h).1 e he)

theorem mem_of_setup {tr : List (Ev (conn In Out))} {e : Ev (conn In Out)} (h : e ∈ setup tr) :
    e ∈ tr := List.mem_of_mem_filter h

def Confirms (tr : List (Ev (conn In Out))) (out : Spake2Output) : Prop :=
  ∃ mac, ⟨.verifyPeerConfirmation out mac, .ok ()⟩ ∈ tr

end

-- what one party put into a SPAKE2 exchange and the two messages as it saw them
structure Transcript where
  input : PakeInput
  pa : Bytes
  pb : Bytes

-- a run of `connect`, ended or not, with any answers
structure ViewerRun (C : Crypto) where
  fuel : Nat
  cfg : Viewer.Config
  trace : List (Ev ViewerSig)
  rest : ViewerM ConnectResult
  path : Path (Viewer.connect C fuel cfg) trace rest

-- a run of `attempt`, ended or not, with any answers
structure HostRun (C : Crypto) where
  fuel : Nat
  cfg : HostConfig
  st : HostState
  trace : List (Ev HostSig)
  rest : HostM (ServeResult × HostState)
  path : Path (attempt C fuel cfg st) trace rest

variable {C : Crypto} {ι η : Type}

def ViewerRun.Ran (v : ViewerRun C) (t : Transcript) (out : Spake2Output) : Prop :=
  ∃ party, ⟨.partyAStart t.input.w t.input.idA t.input.idB t.input.aad, .ok (t.pa, party)⟩ ∈
      v.trace ∧
    ⟨.finish party t.pb, .ok out⟩ ∈ v.trace

def HostRun.Ran (h : HostRun C) (t : Transcript) (out : Spake2Output) : Prop :=
  ∃ party, ⟨.partyBStart t.input.w t.input.idA t.input.idB t.input.aad, .ok (t.pb, party)⟩ ∈
      h.trace ∧
    ⟨.finish party t.pa, .ok out⟩ ∈ h.trace

def ViewerRun.Keyed (v : ViewerRun C) (sk : SessionKeys) : Prop :=
  ∃ t out, v.Ran t out ∧ Confirms v.trace out ∧ sk = deriveSessionKeys C out.sessionKey

def HostRun.Keyed (h : HostRun C) (sk : SessionKeys) : Prop :=
  ∃ t out, h.Ran t out ∧ Confirms h.trace out ∧ sk = deriveSessionKeys C out.sessionKey

-- `ServeOutcome::Session` has been returned, or is once the next code has been drawn
def Serving (rest : HostM (ServeResult × HostState)) (s : HostSession) : Prop :=
  (∃ st, rest = .ret (.ok (.session s), st)) ∨
    ∃ st : HostState, rest = .act .generateCode fun code =>
      .ret (.ok (.session s), { st with code := code })

-- the runs of the honest parties; what their links answer is up to the signaling server
structure World (C : Crypto) (ι η : Type) where
  viewer : ι → ViewerRun C
  host : η → HostRun C
  -- what the owner of a key signs outside these runs
  elsewhere : ByteArr 32 → Bytes → Prop

def roleOf : ι ⊕ η → Role
  | .inl _ => .viewer
  | .inr _ => .host

namespace World
variable (W : World C ι η)

def Keyed : ι ⊕ η → SessionKeys → Prop
  | .inl v => (W.viewer v).Keyed
  | .inr h => (W.host h).Keyed

def LocalFp : ι ⊕ η → Bytes → Prop
  | .inl v, fp => ⟨.localFingerprint, fp⟩ ∈ (W.viewer v).trace
  | .inr h, fp => ⟨.localFingerprint, fp⟩ ∈ (W.host h).trace

def RemoteFp : ι ⊕ η → Bytes → Prop
  | .inl v, fp => ⟨.remoteFingerprint, some fp⟩ ∈ (W.viewer v).trace
  | .inr h, fp => ⟨.remoteFingerprint, some fp⟩ ∈ (W.host h).trace

-- what came out of the data channel, and what its peer took for sending
def received : ι ⊕ η → List Bytes
  | .inl v => Channel.polled (W.viewer v).trace
  | .inr h => Channel.polled (W.host h).trace

def sent : ι ⊕ η → List Bytes
  | .inl v => Channel.delivered (W.viewer v).trace
  | .inr h => Channel.delivered (W.host h).trace

def keys : ι ⊕ η → DeviceKeys
  | .inl v => (W.viewer v).cfg.keys
  | .inr h => (W.host h).cfg.keys

-- the two signatures of `make_hello`
def Signs (x : ι ⊕ η) (key : ByteArr 32) (m : Bytes) : Prop :=
  ∃ sk ownFp peerFp, W.Keyed x sk ∧ W.LocalFp x ownFp ∧ W.RemoteFp x peerFp ∧
    key = (W.keys x).devicePublic C ∧
    m ∈ signedBy C (W.keys x) [.hello (roleOf x) sk.helloBinding ownFp peerFp]

-- ideal primitives, each asked only of what happens in these runs
structure Ideal : Prop where
  -- SPAKE2 confirms only a party that ran the same transcript, and gives both the same key
  pake : ∀ v t out, (W.viewer v).Ran t out → Confirms (W.viewer v).trace out →
    ∃ h out', (W.host h).Ran t out' ∧ out'.sessionKey = out.sessionKey
  -- no two runs of one kind have the same keys
  viewersApart : ∀ v v' t t' out out', (W.viewer v).Ran t out → (W.viewer v').Ran t' out' →
    (deriveSessionKeys C out.sessionKey).helloBinding =
      (deriveSessionKeys C out'.sessionKey).helloBinding → v = v'
  hostsApart : ∀ h h' t t' out out', (W.host h).Ran t out → (W.host h').Ran t' out' →
    (deriveSessionKeys C out.sessionKey).helloBinding =
      (deriveSessionKeys C out'.sessionKey).helloBinding → h = h'
  -- nobody else knows them
  secret : ∀ x sk key role ownFp peerFp name, W.Keyed x sk →
    ¬ W.elsewhere key (sessionMessage role sk.helloBinding ownFp peerFp name)
  scalars : ∀ v h w, codeScalar C (W.viewer v).cfg.code = .ok w →
    codeScalar C (W.host h).st.code = .ok w → (W.viewer v).cfg.code = (W.host h).st.code
  -- Ed25519 verifies only what the owner of the key signed
  signed : ∀ x data hello key sig m, data ∈ W.received x →
    Control.decode data = .ok (.hello hello) → hello.deviceKey = key.val →
    hello.sessionSig = sig.val → C.verifyStrict key m sig = true →
    (∃ y, W.Signs y key m) ∨ W.elsewhere key m
  -- every peer has a certificate of its own
  certificates : ∀ x y fp, W.LocalFp x fp → W.LocalFp y fp → x = y
  -- the data channel carries only what the holder of the other end's certificate sent
  carries : ∀ x data fp, data ∈ W.received x → W.RemoteFp x fp → (∃ y, W.LocalFp y fp) →
    ∃ y, W.LocalFp y fp ∧ data ∈ W.sent y
  fingerprints : ∀ x fp, W.LocalFp x fp ∨ W.RemoteFp x fp → fp.length < 65536

def Connected (v : ι) (s : ViewerSession) : Prop := (W.viewer v).rest = .ret (.ok s)

def Serves (h : η) (s : HostSession) : Prop := Serving (W.host h).rest s

def SameKeys (v : ι) (h : η) : Prop := ∃ sk, (W.viewer v).Keyed sk ∧ (W.host h).Keyed sk

-- what the two ends of a session agree on
structure Agreed (v : ι) (s : ViewerSession) (h : η) (hs : HostSession) : Prop where
  host : s.host = (W.host h).cfg.keys.identity C
  viewer : hs.viewer = (W.viewer v).cfg.keys.identity C
  code : (W.viewer v).cfg.code = (W.host h).st.code
  hostId : (W.viewer v).cfg.hostId = (W.host h).cfg.hostId
  version : (W.host h).cfg.protocolVersion = PROTOCOL_VERSION

end World

end Hostile

end SimpleRemote
