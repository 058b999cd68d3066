import SimpleRemote.Hostile.Agreement
import SimpleRemote.Viewer.Conduct

namespace SimpleRemote
open ByteCodec Interaction

namespace Hostile
variable {C : Crypto}

section Viewer

theorem ran_once {v : ViewerRun C} {t t' : Transcript} {out out' : Spake2Output}
    (h : v.Ran t out) (h' : v.Ran t' out') : out' = out := by
  obtain ⟨party, -, hfinish⟩ := h
  obtain ⟨party', -, hfinish'⟩ := h'
  have hsame : party = party' ∧ t.pb = t'.pb ∧ out = out' := by
    simpa [and_assoc] using Viewer.connect_finishes v.path hfinish hfinish' rfl rfl
  exact hsame.2.2.symm

theorem ran_input {v : ViewerRun C} {t : Transcript} {out : Spake2Output} (h : v.Ran t out) :
    ∃ w, codeScalar C v.cfg.code = .ok w ∧
      t.input = ⟨w, VIEWER_ID, hostIdBytes v.cfg.hostId, AAD⟩ := by
  obtain ⟨party, hstart, -⟩ := h
  obtain ⟨hw, hidA, hidB, haad⟩ := Viewer.connect_starts v.path hstart
  obtain ⟨⟨w, idA, idB, aad⟩, pa, pb⟩ := t
  obtain ⟨rfl, rfl, rfl⟩ : idA = _ ∧ idB = _ ∧ aad = _ := ⟨hidA, hidB, haad⟩
  exact ⟨w, hw, rfl⟩

theorem sends_hello {v : ViewerRun C} {data : Bytes} (h : data ∈ Channel.delivered v.trace) :
    ∃ binding ownFp peerFp,
      data = Control.encode (.hello (v.cfg.keys.makeHello C .viewer binding ownFp peerFp)) := by
  obtain ⟨⟨o, r⟩, he, hop⟩ := exists_of_delivered h
  obtain rfl : o = .peerSend data := hop
  exact Viewer.connect_sends v.path he

end Viewer

section Host
variable {fuel : Nat} {cfg : HostConfig} {st : HostState}

-- a host that serves has gone through the gate and has had a yes for the viewer that it serves
theorem serving_gate {tr : List (Ev HostSig)} {q : HostM (ServeResult × HostState)}
    {s : HostSession} (h : Path (attempt C fuel cfg st) tr q) (hs : Serving q s) :
    ∃ (g : Gate C fuel cfg st) (tr' : List (Ev HostSig)), tr = g.trace ++ tr' ∧
      (∀ e ∈ tr', concludes e.op) ∧ s.viewer = g.viewer ∧
      (approvalRequest C s.viewer, some true) ∈ asked tr := by
  have served {tr : List (Ev HostSig)} {st' : HostState}
      (h : Exec (attempt C fuel cfg st) tr (.ok (.session s), st')) :
      ∃ (g : Gate C fuel cfg st) (tr' : List (Ev HostSig)) (code : OneTimeCode),
        tr = g.trace ++ (tr' ++ [⟨.generateCode, code⟩]) ∧ (∀ e ∈ tr', concludes e.op) ∧
        s.viewer = g.viewer ∧ (approvalRequest C s.viewer, some true) ∈ asked (g.trace ++ tr') := by
    obtain ⟨g, tail, rfl, h₁⟩ := attempt_gate h (.inr ⟨_, rfl, trivial⟩)
    obtain ⟨tr₁, ⟨o, st₁⟩, tr₂, rfl, hr, hf⟩ := exec_bind.mp h₁
    obtain ⟨rfl, rfl, rfl⟩ := finishAttempt_session hf
    obtain ⟨tr', k, code, rfl, hk, hv, rfl⟩ := askApproval_session hr
    have hconcludes := ((askApproval_concludes _ _).path h₁).1
    refine ⟨g, tr' ++ [⟨.peerSend (Control.encode (.decision .accepted)), .ok ()⟩], code, ?_, ?_,
      hv, ?_⟩
    · simp
    · exact fun e he => hconcludes e (by simp at he ⊢; tauto)
    · rw [asked_append, asked_append, hk, hv]
      simp [polled]
  rcases hs with ⟨st', rfl⟩ | ⟨st', rfl⟩
  · obtain ⟨g, tr', code, rfl, htail, hv, hasked⟩ := served h
    refine ⟨g, tr' ++ [⟨.generateCode, code⟩], rfl, fun e he => ?_, hv, ?_⟩
    · rcases List.mem_append.mp he with he | he
      · exact htail e he
      · rw [List.mem_singleton.mp he]
        exact rfl
    · rw [← List.append_assoc, asked_append]
      exact List.mem_append_left _ hasked
  · have draw {k : OneTimeCode → HostM (ServeResult × HostState)}
        (h : Path (attempt C fuel cfg st) tr (.act .generateCode k)) :
        Path (attempt C fuel cfg st) (tr ++ [⟨.generateCode, OneTimeCode.sample⟩])
          (k OneTimeCode.sample) := h.trans (.cons _ (.nil _))
    obtain ⟨g, tr', code, htr, htail, hv, hasked⟩ := served (draw h)
    rw [← List.append_assoc] at htr
    obtain ⟨rfl, -⟩ := List.append_inj' htr rfl
    exact ⟨g, tr', rfl, htail, hv, hasked⟩

end Host

namespace World
variable {ι η : Type} {W : World C ι η}

-- ideal primitives that convince the host in the same way
structure Mutual (W : World C ι η) : Prop extends W.Ideal where
  pakeHost : ∀ h t out, (W.host h).Ran t out → Confirms (W.host h).trace out →
    ∃ v out', (W.viewer v).Ran t out' ∧ out'.sessionKey = out.sessionKey

-- what holds of the viewer that a host serves
structure Admitted (W : World C ι η) (v : ι) (h : η) (hs : HostSession) : Prop where
  viewer : hs.viewer = (W.viewer v).cfg.keys.identity C
  approved : (approvalRequest C hs.viewer, some true) ∈ asked (W.host h).trace
  code : (W.viewer v).cfg.code = (W.host h).st.code
  hostId : (W.viewer v).cfg.hostId = (W.host h).cfg.hostId
  version : (W.host h).cfg.protocolVersion = PROTOCOL_VERSION
  heard : ∀ data ∈ W.received (.inr h), data ∈ W.sent (.inl v)

-- an attempt that serves and the viewer run whose Hello it read
structure Guest (W : World C ι η) (v : ι) (h : η)
    (g : Gate C (W.host h).fuel (W.host h).cfg (W.host h).st) (tr : List (Ev HostSig)) : Prop where
  trace : (W.host h).trace = g.trace ++ tr
  tail : ∀ e ∈ tr, concludes e.op
  ran : ∃ t out, (W.viewer v).Ran t out ∧ Confirms (W.viewer v).trace out ∧
    (W.host h).Ran t g.output ∧ out.sessionKey = g.output.sessionKey
  localFp : W.LocalFp (.inl v) g.remoteFp

namespace Guest
variable {v : ι} {h : η} {g : Gate C (W.host h).fuel (W.host h).cfg (W.host h).st}
  {tr : List (Ev HostSig)}

theorem host_keyed (p : Guest W v h g tr) (sk : SessionKeys) :
    (W.host h).Keyed sk ↔ sk = g.keys := by
  obtain ⟨t, out, -, -, hran, -⟩ := p.ran
  exact (served_setUp p.trace p.tail).keyed (W.host h).Ran hran sk

theorem viewer_keyed (p : Guest W v h g tr) : (W.viewer v).Keyed g.keys := by
  obtain ⟨t, out, hran, hconfirms, -, hkey⟩ := p.ran
  refine ⟨t, out, hran, hconfirms, ?_⟩
  rw [hkey]
  rfl

theorem hears (p : Guest W v h g tr) (ideal : W.Ideal) :
    ∀ data ∈ W.received (.inr h), data ∈ W.sent (.inl v) := fun _ hdata =>
  ideal.carried hdata (((served_setUp p.trace p.tail).remoteFp _).mpr rfl) p.localFp

theorem hello (p : Guest W v h g tr) (ideal : W.Ideal) : ∃ binding ownFp peerFp,
    g.viewerHello = (W.viewer v).cfg.keys.makeHello C .viewer binding ownFp peerFp := by
  obtain ⟨data, hdata, hhello⟩ := gate_hears g
  have hheard : data ∈ W.received (.inr h) := by
    rw [received, p.trace, Channel.polled_append]
    exact List.mem_append_left _ hdata
  obtain ⟨binding, ownFp, peerFp, rfl⟩ := sends_hello (p.hears ideal data hheard)
  exact ⟨binding, ownFp, peerFp, Control.hello.inj (Control.eq_of_decode_encode hhello)⟩

theorem admitted (p : Guest W v h g tr) (ideal : W.Ideal) {hs : HostSession}
    (hviewer : hs.viewer = g.viewer)
    (happroved : (approvalRequest C hs.viewer, some true) ∈ asked (W.host h).trace) :
    W.Admitted v h hs := by
  obtain ⟨t, out, hran, -, hran', -⟩ := p.ran
  obtain ⟨w, hw, hinput⟩ := ran_input hran
  have hsame := hinput.symm.trans (served_input p.trace p.tail hran')
  obtain ⟨rfl, -, hid, -⟩ := PakeInput.mk.inj hsame
  obtain ⟨binding, ownFp, peerFp, hhello⟩ := p.hello ideal
  have hverified := verifyHello_ok g.verified
  rw [hhello] at hverified
  refine ⟨?_, happroved, ideal.scalars v h _ hw g.scalar, ?_, ?_, p.hears ideal⟩
  · rw [hviewer]
    exact identity_of_verified PROTOCOL_VERSION hverified
  · exact utf8_injective (List.append_cancel_left hid)
  · rw [← g.sameVersion, hhello]
    rfl

end Guest

theorem Mutual.guest (ideal : W.Mutual) {h : η} {hs : HostSession} (hserves : W.Serves h hs) :
    ∃ v g tr, Guest W v h g tr ∧ hs.viewer = g.viewer ∧
      (approvalRequest C hs.viewer, some true) ∈ asked (W.host h).trace := by
  obtain ⟨g, tr, htr, htail, hviewer, happroved⟩ := serving_gate (W.host h).path hserves
  have hset := served_setUp htr htail
  have hran : (W.host h).Ran ⟨⟨g.w, VIEWER_ID, hostIdBytes (W.host h).cfg.hostId, AAD⟩, g.pa, g.pb⟩
      g.output := by
    refine ⟨g.party, ?_, ?_⟩
    all_goals
      refine mem_of_setup ?_
      rw [served_setup htr htail, gate_setup]
      simp
  have hkeyed : W.Keyed (.inr h) g.keys := (hset.keyed (W.host h).Ran hran _).mpr rfl
  obtain ⟨data, hdata, hhello⟩ := gate_hears g
  have hheard : data ∈ W.received (.inr h) := by
    rw [received, htr, Channel.polled_append]
    exact List.mem_append_left _ hdata
  -- SPAKE2 names one viewer run, and the signature on the Hello is by that run too
  obtain ⟨v₀, out₀, hran₀, hkey₀⟩ :=
    ideal.pakeHost h _ _ hran ((hset.confirmed _).mpr rfl)
  obtain ⟨y, sk, hsigner, hbinding, hrole, hlocal, -⟩ := ideal.toIdeal.signer hkeyed
    ((hset.localFp _).mpr rfl) ((hset.remoteFp _).mpr rfl) hheard hhello g.verified
  rcases y with v | h'
  · obtain ⟨t, out, hran', hconfirms, rfl⟩ := hsigner
    have hsame : (deriveSessionKeys C out.sessionKey).helloBinding =
        (deriveSessionKeys C out₀.sessionKey).helloBinding := by
      rw [hkey₀]
      exact hbinding
    obtain rfl := ideal.viewersApart v v₀ t _ out out₀ hran' hran₀ hsame
    obtain rfl := ran_once hran' hran₀
    exact ⟨v, g, tr, ⟨htr, htail, ⟨_, out₀, hran₀, hconfirms, hran, hkey₀⟩, hlocal⟩, hviewer,
      happroved⟩
  · cases hrole

theorem Guest.only {v v' : ι} {h : η} {g : Gate C (W.host h).fuel (W.host h).cfg (W.host h).st}
    {tr : List (Ev HostSig)} (p : Guest W v h g tr) (ideal : W.Ideal) (hsame : W.SameKeys v' h) :
    v' = v := by
  obtain ⟨sk, ⟨t, out, hran, -, hsk⟩, hhost⟩ := hsame
  obtain ⟨t', out', hran', -, -, hkey⟩ := p.ran
  refine ideal.viewersApart v' v t t' out out' hran hran' ?_
  rw [← hsk, (p.host_keyed sk).mp hhost, hkey]
  rfl

theorem Ideal.one_host (ideal : W.Ideal) {v : ι} {h h' : η} (hsame : W.SameKeys v h)
    (hsame' : W.SameKeys v h') : h = h' := by
  obtain ⟨sk, ⟨t₁, out₁, hviewer, -, rfl⟩, t, out, hran, -, hsk⟩ := hsame
  obtain ⟨sk', ⟨t₂, out₂, hviewer', -, rfl⟩, t', out', hran', -, hsk'⟩ := hsame'
  obtain rfl := ran_once hviewer hviewer'
  exact ideal.hostsApart h h' t t' out out' hran hran'
    (congrArg SessionKeys.helloBinding (hsk.symm.trans hsk'))

end World

-- whoever carries the messages, a host serves a viewer with the code, and the one it has shown
theorem hostile_server_admission {ι η : Type} {W : World C ι η} (ideal : W.Mutual) :
    (∀ h hs, W.Serves h hs → ∃! v, W.SameKeys v h) ∧
    (∀ v h hs, W.Serves h hs → W.SameKeys v h → W.Admitted v h hs) ∧
    (∀ v h h', W.SameKeys v h → W.SameKeys v h' → h = h') := by
  refine ⟨?_, ?_, fun v h h' hsame hsame' => ideal.toIdeal.one_host hsame hsame'⟩
  · intro h hs hserves
    obtain ⟨v, g, tr, p, -⟩ := ideal.guest hserves
    exact ⟨v, ⟨g.keys, p.viewer_keyed, (p.host_keyed _).mpr rfl⟩, fun v' hsame =>
      p.only ideal.toIdeal hsame⟩
  · intro v h hs hserves hsame
    obtain ⟨v', g, tr, p, hviewer, happroved⟩ := ideal.guest hserves
    obtain rfl := p.only ideal.toIdeal hsame
    exact p.admitted ideal.toIdeal hviewer happroved

theorem sample_mutual : sampleWorld.Mutual where
  toIdeal := sample_ideal_world
  pakeHost _ t out hran _ := by
    obtain ⟨party, hstart, hfinish⟩ := hran
    have hstart' := mem_setup hstart rfl
    have hfinish' := mem_setup hfinish rfl
    rw [sample_host_setup] at hstart' hfinish'
    obtain ⟨⟨w, idA, idB, aad⟩, pa, pb⟩ := t
    have hargs : (w = sampleTranscript.input.w ∧ idA = sampleTranscript.input.idA ∧
        idB = sampleTranscript.input.idB ∧ aad = sampleTranscript.input.aad) ∧
        pb = sampleTranscript.pb ∧ party = ⟨0⟩ := by simpa using hstart'
    have hmsg : (party = ⟨0⟩ ∧ pa = sampleTranscript.pa) ∧ out = sampleOutput := by
      simpa using hfinish'
    obtain ⟨⟨rfl, rfl, rfl, rfl⟩, rfl, -⟩ := hargs
    obtain ⟨⟨-, rfl⟩, rfl⟩ := hmsg
    exact ⟨(), Viewer.sampleOutput, sample_viewer_ran, rfl⟩

theorem sample_hostile_admission :
    sampleWorld.Admitted () () sampleServed ∧ ∃! v, sampleWorld.SameKeys v () := by
  obtain ⟨hunique, hadmitted, -⟩ := hostile_server_admission sample_mutual
  have hserves : sampleWorld.Serves () sampleServed := .inl ⟨_, rfl⟩
  exact ⟨hadmitted () () _ hserves ⟨_, sample_viewer_keyed, sample_host_keyed⟩,
    hunique () _ hserves⟩

end Hostile

end SimpleRemote
