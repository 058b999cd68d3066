import SimpleRemote.Hostile.Runs

namespace SimpleRemote
open ByteCodec Interaction

namespace Hostile
variable {C : Crypto}

namespace World
variable {ι η : Type} {W : World C ι η}

theorem Ideal.carried (ideal : W.Ideal) {x y : ι ⊕ η} {data fp : Bytes}
    (hdata : data ∈ W.received x) (hremote : W.RemoteFp x fp) (hlocal : W.LocalFp y fp) :
    data ∈ W.sent y := by
  obtain ⟨z, hz, hsent⟩ := ideal.carries x data fp hdata hremote ⟨y, hlocal⟩
  obtain rfl := ideal.certificates z y fp hz hlocal
  exact hsent

-- only a run in the sender's role, with the same binding and the two certificates the other way
-- round, has signed a Hello that verifies
theorem Ideal.signer (ideal : W.Ideal) {x : ι ⊕ η} {sk : SessionKeys} {ownFp peerFp data : Bytes}
    {hello : Hello} {sender : Role} {id : PeerIdentity} (hkeyed : W.Keyed x sk)
    (hlocal : W.LocalFp x ownFp) (hremote : W.RemoteFp x peerFp) (hdata : data ∈ W.received x)
    (hhello : Control.decode data = .ok (.hello hello))
    (hverified : verifyHello C hello sender sk.helloBinding peerFp ownFp = .ok id) :
    ∃ y sk', W.Keyed y sk' ∧ sk'.helloBinding = sk.helloBinding ∧ roleOf y = sender ∧
      W.LocalFp y peerFp ∧ W.RemoteFp y ownFp := by
  have hv := verifyHello_ok hverified
  obtain ⟨sig, hsig, hverify⟩ := hv.sessionSigned
  rcases ideal.signed x data hello id.deviceKey sig _ hdata hhello hv.deviceKey hsig hverify with
    ⟨y, sk', l, r, hkeyed', hlocal', hremote', -, hm⟩ | helsewhere
  · have hshort : ∀ s ∈ [Signing.hello (roleOf y) sk'.helloBinding l r], s.short := by
      simp only [List.mem_singleton, forall_eq]
      exact ⟨ideal.fingerprints y l (.inl hlocal'), ideal.fingerprints y r (.inr hremote')⟩
    obtain ⟨hhistory, -⟩ := session_signed hshort (ideal.fingerprints x peerFp (.inr hremote))
      (ideal.fingerprints x ownFp (.inl hlocal)) hm
    obtain ⟨rfl, hbinding, rfl, rfl⟩ := Signing.hello.inj (List.mem_singleton.mp hhistory)
    exact ⟨y, sk', hkeyed', hbinding.symm, rfl, hlocal', hremote'⟩
  · exact absurd helsewhere (ideal.secret x sk _ _ _ _ _ hkeyed)

-- a viewer run that returned `Ok` and the attempt whose Hello and Decision it read
structure Partners (W : World C ι η) (v : ι)
    (c : Viewer.Connected C (W.viewer v).fuel (W.viewer v).cfg) (h : η)
    (g : Gate C (W.host h).fuel (W.host h).cfg (W.host h).st) (tr : List (Ev HostSig)) : Prop where
  viewerTrace : (W.viewer v).trace = c.trace
  hostTrace : (W.host h).trace = g.trace ++ tr
  tail : ∀ e ∈ tr, concludes e.op
  ran : (W.host h).Ran (transcriptOf c) g.output
  sessionKey : g.output.sessionKey = c.output.sessionKey
  localFp : g.localFp = c.remoteFp
  remoteFp : g.remoteFp = c.localFp

namespace Partners
variable {v : ι} {c : Viewer.Connected C (W.viewer v).fuel (W.viewer v).cfg} {h : η}
  {g : Gate C (W.host h).fuel (W.host h).cfg (W.host h).st} {tr : List (Ev HostSig)}

theorem viewer_setUp (p : Partners W v c h g tr) :
    SetUp (W.viewer v).trace c.output c.localFp c.remoteFp := connected_setUp c p.viewerTrace

theorem host_setUp (p : Partners W v c h g tr) :
    SetUp (W.host h).trace g.output g.localFp g.remoteFp := served_setUp p.hostTrace p.tail

theorem viewer_keyed (p : Partners W v c h g tr) (sk : SessionKeys) :
    (W.viewer v).Keyed sk ↔ sk = c.keys :=
  p.viewer_setUp.keyed (W.viewer v).Ran (connected_ran c p.viewerTrace) sk

theorem host_keyed (p : Partners W v c h g tr) (sk : SessionKeys) :
    (W.host h).Keyed sk ↔ sk = c.keys := by
  refine (p.host_setUp.keyed (W.host h).Ran p.ran sk).trans ?_
  rw [p.sessionKey]
  rfl

theorem hears_host (p : Partners W v c h g tr) (ideal : W.Ideal) : c.hostHello =
    hostHello C (W.host h).cfg g.keys g.localFp g.remoteFp := by
  obtain ⟨first, second, hpolled, hhello, -⟩ := c.polled_eq
  have hheard : first ∈ W.received (.inl v) := by
    rw [received, p.viewerTrace, hpolled]
    exact List.mem_cons_self
  have hremote : W.RemoteFp (.inl v) c.remoteFp := (p.viewer_setUp.remoteFp _).mpr rfl
  have hlocal : W.LocalFp (.inr h) c.remoteFp := (p.host_setUp.localFp _).mpr p.localFp.symm
  exact served_hello p.hostTrace p.tail (ideal.carried hheard hremote hlocal) hhello

theorem hears_viewer (p : Partners W v c h g tr) (ideal : W.Ideal) : g.viewerHello = c.hello := by
  obtain ⟨data, hdata, hhello⟩ := gate_hears g
  have hheard : data ∈ W.received (.inr h) := by
    rw [received, p.hostTrace, Channel.polled_append]
    exact List.mem_append_left _ hdata
  have hremote : W.RemoteFp (.inr h) c.localFp := (p.host_setUp.remoteFp _).mpr p.remoteFp.symm
  have hlocal : W.LocalFp (.inl v) c.localFp := (p.viewer_setUp.localFp _).mpr rfl
  have hsent : data ∈ Channel.delivered (W.viewer v).trace := ideal.carried hheard hremote hlocal
  rw [p.viewerTrace, connected_sends, List.mem_singleton] at hsent
  rw [hsent] at hhello
  exact Control.hello.inj (Control.eq_of_decode_encode hhello)

theorem agreed (p : Partners W v c h g tr) (ideal : W.Ideal) (ch : Channel) :
    W.Agreed v c.session h ⟨g.viewer, ch⟩ := by
  have hinput := served_input p.hostTrace p.tail p.ran
  obtain ⟨hw, -, hid, -⟩ := PakeInput.mk.inj hinput
  have hhello := p.hears_viewer ideal
  have hviewer := verifyHello_ok g.verified
  have hhost := verifyHello_ok c.verified
  rw [hhello] at hviewer
  rw [p.hears_host ideal] at hhost
  constructor
  · exact identity_of_verified (W.host h).cfg.protocolVersion hhost
  · exact identity_of_verified PROTOCOL_VERSION hviewer
  · exact ideal.scalars v h c.w c.scalar (hw ▸ g.scalar)
  · exact utf8_injective (List.append_cancel_left hid)
  · rw [← g.sameVersion, hhello]
    rfl

end Partners

theorem Ideal.partners (ideal : W.Ideal) {v : ι} {s : ViewerSession} (hv : W.Connected v s) :
    ∃ c h g tr ch, Partners W v c h g tr ∧ s = c.session ∧ W.Serves h ⟨g.viewer, ch⟩ := by
  have hpath := (W.viewer v).path
  rw [Connected] at hv
  rw [hv] at hpath
  obtain ⟨c, htr, rfl⟩ := Viewer.connected_of_ok hpath
  obtain ⟨first, second, hpolled, hhello, haccepted⟩ := c.polled_eq
  have hheard : W.received (.inl v) = first :: second :: c.final.pending := by
    rw [received, htr, hpolled]
  have hset := connected_setUp c htr
  have hran := connected_ran c htr
  have hkeyed : W.Keyed (.inl v) c.keys := (hset.keyed (W.viewer v).Ran hran _).mpr rfl
  have hlocal : W.LocalFp (.inl v) c.localFp := (hset.localFp _).mpr rfl
  have hremote : W.RemoteFp (.inl v) c.remoteFp := (hset.remoteFp _).mpr rfl
  -- SPAKE2 names one attempt, and the signature on the Hello is by that attempt too
  obtain ⟨h₀, out₀, hran₀, hkey₀⟩ := ideal.pake v _ _ hran ((hset.confirmed _).mpr rfl)
  obtain ⟨y, sk, hsigner, hbinding, hrole, hlocal', hremote'⟩ :=
    ideal.signer hkeyed hlocal hremote (hheard ▸ by simp) hhello c.verified
  rcases y with v' | h
  · cases hrole
  obtain ⟨t, out, hran', -, rfl⟩ := hsigner
  rw [Viewer.Keyed.keys, ← hkey₀] at hbinding
  obtain rfl := ideal.hostsApart h h₀ t _ out out₀ hran' hran₀ hbinding
  -- so the Decision that came over the data channel is its own
  have hsent : second ∈ W.sent (.inr h) := ideal.carried (hheard ▸ by simp) hremote hlocal'
  obtain ⟨g, tr, ch, hsplit, htail, hserving⟩ := attempt_accepts (W.host h).path hsent haccepted
  have hserved := served_setUp hsplit htail
  obtain ⟨party, hstart, hfinish⟩ := hran₀
  obtain rfl : out₀ = g.output := hserved.finished _ _ _ hfinish
  exact ⟨c, h, g, tr, ch,
    { viewerTrace := htr
      hostTrace := hsplit
      tail := htail
      ran := ⟨party, hstart, hfinish⟩
      sessionKey := hkey₀
      localFp := ((hserved.localFp _).mp hlocal').symm
      remoteFp := ((hserved.remoteFp _).mp hremote').symm }, rfl, hserving⟩

theorem Serves.unique {h : η} {hs hs' : HostSession} (hserves : W.Serves h hs)
    (hserves' : W.Serves h hs') : hs = hs' := by
  rcases hserves with ⟨st, hst⟩ | ⟨st, hst⟩ <;> rcases hserves' with ⟨st', hst'⟩ | ⟨st', hst'⟩ <;>
    rw [hst] at hst'
  · cases hst'
    rfl
  · cases hst'
  · cases hst'
  · have hk := eq_of_heq (Prog.act.inj hst').2
    have hret := Prog.ret.inj (congrFun hk OneTimeCode.sample)
    exact ServeOutcome.session.inj (Except.ok.inj (Prod.mk.inj hret).1)

theorem Partners.only {v : ι} {c : Viewer.Connected C (W.viewer v).fuel (W.viewer v).cfg} {h h' : η}
    {g : Gate C (W.host h).fuel (W.host h).cfg (W.host h).st} {tr : List (Ev HostSig)}
    (p : Partners W v c h g tr) (ideal : W.Ideal) (hsame : W.SameKeys v h') : h' = h := by
  obtain ⟨sk, hviewer, t, out, hran, -, hsk⟩ := hsame
  rw [p.viewer_keyed] at hviewer
  refine ideal.hostsApart h' h t _ out g.output hran p.ran ?_
  rw [p.sessionKey, ← hsk, hviewer]
  rfl

end World

theorem hostile_server_agreement {ι η : Type} {W : World C ι η} (ideal : W.Ideal) :
    (∀ v s, W.Connected v s → ∃! h, W.SameKeys v h ∧ ∃ hs, W.Serves h hs) ∧
    (∀ v s h hs, W.Connected v s → W.SameKeys v h → W.Serves h hs → W.Agreed v s h hs) ∧
    (∀ v v' s s' h, W.Connected v s → W.Connected v' s' → W.SameKeys v h → W.SameKeys v' h →
      v = v') := by
  refine ⟨?_, ?_, ?_⟩
  · intro v s hv
    obtain ⟨c, h, g, tr, ch, p, -, hserves⟩ := ideal.partners hv
    refine ⟨h, ⟨⟨c.keys, (p.viewer_keyed _).mpr rfl, (p.host_keyed _).mpr rfl⟩, _, hserves⟩, ?_⟩
    rintro h' ⟨hsame, -⟩
    exact p.only ideal hsame
  · intro v s h hs hv hsame hserves
    obtain ⟨c, h₁, g, tr, ch, p, rfl, hserves₁⟩ := ideal.partners hv
    obtain rfl := p.only ideal hsame
    rw [hserves.unique hserves₁]
    exact p.agreed ideal ch
  · intro v v' s s' h hv hv' hsame hsame'
    obtain ⟨c, h₁, g, tr, ch, p, -⟩ := ideal.partners hv
    obtain ⟨c', h₂, g', tr', ch', p', -⟩ := ideal.partners hv'
    obtain rfl := p.only ideal hsame
    obtain rfl := p'.only ideal hsame'
    have hkeys : c.keys = c'.keys := (p'.host_keyed _).mp ((p.host_keyed _).mpr rfl)
    exact ideal.viewersApart v v' _ _ _ _ (connected_ran c p.viewerTrace)
      (connected_ran c' p'.viewerTrace) (congrArg SessionKeys.helloBinding hkeys)

section Sample

def signedOnly (signed : List (ByteArr 32 × Bytes)) : Crypto :=
  { Crypto.sample with
    verifyStrict := fun key m sig =>
      decide (sig = Crypto.sample.sign key m) && signed.contains (key, m) }

def helloSigned (k : DeviceKeys) (role : Role) (ownFp peerFp : Bytes) :
    List (ByteArr 32 × Bytes) :=
  (signedBy .sample k [.hello role sampleKeys.helloBinding ownFp peerFp]).map
    fun m => (k.devicePublic .sample, m)

abbrev sampleCrypto : Crypto := signedOnly
  (helloSigned Viewer.Config.sample.keys .viewer [2] [1] ++
    helloSigned HostConfig.sample.keys .host [1] [2])

def sampleWorld : World sampleCrypto Unit Unit where
  viewer _ := {
    fuel := 5
    cfg := .sample
    trace := Viewer.sampleConnect
    rest := .ret (.ok Viewer.sampleSession)
    path := exec_of_replay (by decide +kernel) }
  host _ := {
    fuel := 4
    cfg := .sample
    st := .sample
    trace := sampleSession.tail
    rest := .ret (.ok (.session sampleServed), .sample)
    path := exec_of_replay (by decide +kernel) }
  elsewhere _ _ := False

def sampleTranscript : Transcript where
  input := ⟨fromBe (CODE_CONTEXT ++ utf8 OneTimeCode.sample.digits), VIEWER_ID,
    hostIdBytes HostConfig.sample.hostId, AAD⟩
  pa := [4]
  pb := [6]

theorem sample_viewer_setup : setup (sampleWorld.viewer ()).trace =
    [⟨.partyAStart sampleTranscript.input.w sampleTranscript.input.idA sampleTranscript.input.idB
        sampleTranscript.input.aad, .ok (sampleTranscript.pa, ⟨0⟩)⟩,
      ⟨.finish ⟨0⟩ sampleTranscript.pb, .ok Viewer.sampleOutput⟩,
      ⟨.verifyPeerConfirmation Viewer.sampleOutput (filled 32 5), .ok ()⟩,
      ⟨.localFingerprint, [2]⟩, ⟨.remoteFingerprint, some [1]⟩] := rfl

theorem sample_host_setup : setup (sampleWorld.host ()).trace =
    [⟨.partyBStart sampleTranscript.input.w sampleTranscript.input.idA sampleTranscript.input.idB
        sampleTranscript.input.aad, .ok (sampleTranscript.pb, ⟨0⟩)⟩,
      ⟨.finish ⟨0⟩ sampleTranscript.pa, .ok sampleOutput⟩,
      ⟨.verifyPeerConfirmation sampleOutput (filled 32 8), .ok ()⟩,
      ⟨.localFingerprint, [1]⟩, ⟨.remoteFingerprint, some [2]⟩] := rfl

theorem sample_viewer_setUp :
    SetUp (sampleWorld.viewer ()).trace Viewer.sampleOutput [2] [1] :=
  setUp_of rfl sample_viewer_setup

theorem sample_host_setUp : SetUp (sampleWorld.host ()).trace sampleOutput [1] [2] :=
  setUp_of rfl sample_host_setup

theorem sample_viewer_ran : (sampleWorld.viewer ()).Ran sampleTranscript Viewer.sampleOutput := by
  refine ⟨⟨0⟩, ?_, ?_⟩
  all_goals
    refine mem_of_setup ?_
    rw [sample_viewer_setup]
    simp

theorem sample_host_ran : (sampleWorld.host ()).Ran sampleTranscript sampleOutput := by
  refine ⟨⟨0⟩, ?_, ?_⟩
  all_goals
    refine mem_of_setup ?_
    rw [sample_host_setup]
    simp

theorem sample_transcript {t : Transcript} {out : Spake2Output}
    (h : (sampleWorld.viewer ()).Ran t out) : t = sampleTranscript ∧ out = Viewer.sampleOutput := by
  obtain ⟨party, hstart, hfinish⟩ := h
  have hstart' := mem_setup hstart rfl
  have hfinish' := mem_setup hfinish rfl
  rw [sample_viewer_setup] at hstart' hfinish'
  obtain ⟨⟨w, idA, idB, aad⟩, pa, pb⟩ := t
  have hargs : (w = sampleTranscript.input.w ∧ idA = sampleTranscript.input.idA ∧
      idB = sampleTranscript.input.idB ∧ aad = sampleTranscript.input.aad) ∧
      pa = sampleTranscript.pa ∧ party = ⟨0⟩ := by simpa using hstart'
  have hmsg : (party = ⟨0⟩ ∧ pb = sampleTranscript.pb) ∧ out = Viewer.sampleOutput := by
    simpa using hfinish'
  obtain ⟨⟨rfl, rfl, rfl, rfl⟩, rfl, -⟩ := hargs
  obtain ⟨⟨-, rfl⟩, rfl⟩ := hmsg
  exact ⟨rfl, rfl⟩

theorem sample_viewer_keyed : (sampleWorld.viewer ()).Keyed sampleKeys :=
  ⟨_, _, sample_viewer_ran, (sample_viewer_setUp.confirmed _).mpr rfl, rfl⟩

theorem sample_host_keyed : (sampleWorld.host ()).Keyed sampleKeys :=
  ⟨_, _, sample_host_ran, (sample_host_setUp.confirmed _).mpr rfl, rfl⟩

theorem sample_signs {x : Unit ⊕ Unit} {ownFp peerFp : Bytes} {key : ByteArr 32} {m : Bytes}
    (hkeyed : sampleWorld.Keyed x sampleKeys) (hlocal : sampleWorld.LocalFp x ownFp)
    (hremote : sampleWorld.RemoteFp x peerFp)
    (h : (key, m) ∈ helloSigned (sampleWorld.keys x) (roleOf x) ownFp peerFp) :
    sampleWorld.Signs x key m := by
  obtain ⟨m', hm, hpair⟩ := List.mem_map.mp h
  obtain ⟨rfl, rfl⟩ := Prod.mk.inj hpair
  exact ⟨sampleKeys, ownFp, peerFp, hkeyed, hlocal, hremote, rfl, hm⟩

theorem sample_ideal_world : sampleWorld.Ideal where
  pake _ t out hran _ := by
    obtain ⟨rfl, rfl⟩ := sample_transcript hran
    exact ⟨(), sampleOutput, sample_host_ran, rfl⟩
  viewersApart _ _ _ _ _ _ _ _ _ := rfl
  hostsApart _ _ _ _ _ _ _ _ _ := rfl
  secret _ _ _ _ _ _ _ _ := id
  scalars _ _ _ _ _ := rfl
  signed x data hello key sig m _ _ _ _ hverify := by
    have hsigned := List.contains_iff_mem.mp (Bool.and_eq_true_iff.mp hverify).2
    rcases List.mem_append.mp hsigned with hviewer | hhost
    · exact .inl ⟨.inl (), sample_signs sample_viewer_keyed
        ((sample_viewer_setUp.localFp _).mpr rfl) ((sample_viewer_setUp.remoteFp _).mpr rfl) hviewer⟩
    · exact .inl ⟨.inr (), sample_signs sample_host_keyed
        ((sample_host_setUp.localFp _).mpr rfl) ((sample_host_setUp.remoteFp _).mpr rfl) hhost⟩
  certificates x y fp hx hy := by
    have hne : ([1] : Bytes) ≠ [2] := by decide
    rcases x with x | x <;> rcases y with y | y
    · rfl
    · exact absurd (((sample_host_setUp.localFp fp).mp hy).symm.trans
        ((sample_viewer_setUp.localFp fp).mp hx)) hne
    · exact absurd (((sample_host_setUp.localFp fp).mp hx).symm.trans
        ((sample_viewer_setUp.localFp fp).mp hy)) hne
    · rfl
  carries x data fp hdata hremote _ := by
    rcases x with x | x
    · refine ⟨.inr (), ?_, ?_⟩
      · exact (sample_host_setUp.localFp fp).mpr ((sample_viewer_setUp.remoteFp fp).mp hremote)
      · exact hdata
    · refine ⟨.inl (), ?_, ?_⟩
      · exact (sample_viewer_setUp.localFp fp).mpr ((sample_host_setUp.remoteFp fp).mp hremote)
      · exact hdata
  fingerprints x fp h := by
    have hshort : ([1] : Bytes).length < 65536 ∧ ([2] : Bytes).length < 65536 := by decide
    rcases x with x | x <;> rcases h with h | h
    · exact (sample_viewer_setUp.localFp fp).mp h ▸ hshort.2
    · exact (sample_viewer_setUp.remoteFp fp).mp h ▸ hshort.1
    · exact (sample_host_setUp.localFp fp).mp h ▸ hshort.1
    · exact (sample_host_setUp.remoteFp fp).mp h ▸ hshort.2

theorem sample_hostile_server :
    sampleWorld.Agreed () Viewer.sampleSession () sampleServed ∧
      ∃! h, sampleWorld.SameKeys () h ∧ ∃ hs, sampleWorld.Serves h hs := by
  obtain ⟨hunique, hagreed, -⟩ := hostile_server_agreement sample_ideal_world
  exact ⟨hagreed () _ () _ rfl ⟨_, sample_viewer_keyed, sample_host_keyed⟩ (.inl ⟨_, rfl⟩),
    hunique () _ rfl⟩

end Sample

end Hostile

end SimpleRemote
