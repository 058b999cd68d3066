import SimpleRemote.Hostile.World

namespace SimpleRemote
open ByteCodec Interaction

namespace Hostile
variable {C : Crypto}

-- a run that got through its setup confirmed one output and has one certificate at each end
structure SetUp {In Out : Type} (tr : List (Ev (conn In Out))) (out : Spake2Output)
    (ownFp peerFp : Bytes) : Prop where
  finished : ∀ party msg out', ⟨.finish party msg, .ok out'⟩ ∈ tr → out' = out
  confirmed : ∀ out', Confirms tr out' ↔ out' = out
  localFp : ∀ fp, ⟨.localFingerprint, fp⟩ ∈ tr ↔ fp = ownFp
  remoteFp : ∀ fp, ⟨.remoteFingerprint, some fp⟩ ∈ tr ↔ fp = peerFp

theorem setUp_of {In Out : Type} {tr : List (Ev (conn In Out))} {start : Ev (conn In Out)}
    {party : PartyState} {msg : Bytes} {out : Spake2Output} {mac : ByteArr 32}
    {ownFp peerFp : Bytes} (hstart : start.op.isStart = true)
    (h : setup tr = [start, ⟨.finish party msg, .ok out⟩, ⟨.verifyPeerConfirmation out mac, .ok ()⟩,
      ⟨.localFingerprint, ownFp⟩, ⟨.remoteFingerprint, some peerFp⟩]) :
    SetUp tr out ownFp peerFp := by
  have hmem {e : Ev (conn In Out)} (hsetup : e.op.isSetup = true)
      (hstarts : e.op.isStart = false) : e ∈ tr ↔ e ∈
        [(⟨.finish party msg, .ok out⟩ : Ev (conn In Out)),
          ⟨.verifyPeerConfirmation out mac, .ok ()⟩, ⟨.localFingerprint, ownFp⟩,
          ⟨.remoteFingerprint, some peerFp⟩] := by
    constructor
    · intro he
      have hlist := mem_setup he hsetup
      rw [h] at hlist
      refine (List.mem_cons.mp hlist).resolve_left ?_
      rintro rfl
      rw [hstart] at hstarts
      cases hstarts
    · intro he
      exact mem_of_setup (h ▸ List.mem_cons_of_mem start he)
  constructor
  · intro party' msg' out' he
    have hlist : (party' = party ∧ msg' = msg) ∧ out' = out := by
      simpa using (hmem rfl rfl).mp he
    exact hlist.2
  · intro out'
    constructor
    · rintro ⟨mac', he⟩
      have hlist : out' = out ∧ mac' = mac := by simpa using (hmem rfl rfl).mp he
      exact hlist.1
    · rintro rfl
      exact ⟨mac, (hmem rfl rfl).mpr (by simp)⟩
  · intro fp
    rw [hmem rfl rfl]
    simp
  · intro fp
    rw [hmem rfl rfl]
    simp

theorem SetUp.keyed {In Out : Type} {tr : List (Ev (conn In Out))} {t : Transcript}
    {out : Spake2Output} {ownFp peerFp : Bytes} (hs : SetUp tr out ownFp peerFp)
    (ran : Transcript → Spake2Output → Prop) (hran : ran t out) (sk : SessionKeys) :
    (∃ t out, ran t out ∧ Confirms tr out ∧ sk = deriveSessionKeys C out.sessionKey) ↔
      sk = deriveSessionKeys C out.sessionKey := by
  constructor
  · rintro ⟨t', out', -, hconfirms, rfl⟩
    rw [(hs.confirmed out').mp hconfirms]
  · rintro rfl
    exact ⟨t, out, hran, (hs.confirmed out).mpr rfl, rfl⟩

theorem identity_of_verified {k : DeviceKeys} {role sender : Role} {binding binding' : ByteArr 32}
    {ownFp peerFp senderFp receiverFp : Bytes} (version : UInt32) {id : PeerIdentity}
    (h : HelloVerified C { k.makeHello C role binding ownFp peerFp with protocolVersion := version }
      sender binding' senderFp receiverFp id) : id = k.identity C := by
  obtain ⟨deviceKey, name, reconnectKey⟩ := id
  obtain rfl : k.devicePublic C = deviceKey := Subtype.ext h.deviceKey
  obtain rfl : k.name = name := h.name
  obtain rfl : k.reconnectPublic C = reconnectKey := Subtype.ext h.reconnectKey
  rfl

section Viewer
variable {fuel : Nat} {cfg : Viewer.Config}

def transcriptOf (c : Viewer.Connected C fuel cfg) : Transcript :=
  ⟨⟨c.w, VIEWER_ID, hostIdBytes cfg.hostId, AAD⟩, c.pa, c.pb⟩

theorem connected_setup (c : Viewer.Connected C fuel cfg) : setup c.trace =
    [⟨.partyAStart c.w VIEWER_ID (hostIdBytes cfg.hostId) AAD, .ok (c.pa, c.pake.state)⟩,
      ⟨.finish c.pake.state c.pb, .ok c.output⟩, ⟨.verifyPeerConfirmation c.output c.mac, .ok ()⟩,
      ⟨.localFingerprint, c.localFp⟩, ⟨.remoteFingerprint, some c.remoteFp⟩] := by
  have hopening := setup_waits (Channel.waitOpen_uses _ _ _) c.opened
  have hreading := setup_waits (Channel.next_uses _ _ _) c.received
  have hwaiting := setup_waits (Channel.next_uses _ _ _) c.decided
  simp only [setup] at hopening hreading hwaiting ⊢
  simp [Viewer.Connected.trace, Viewer.Greeted.trace, Viewer.Greeting.trace, Viewer.Linked.trace,
    Viewer.Answered.trace, Viewer.Offered.trace, Viewer.Keyed.trace, Viewer.Began.trace,
    List.filter_cons, isSetup, Op.isSetup, hopening, hreading, hwaiting]

theorem connected_ran {v : ViewerRun C} (c : Viewer.Connected C v.fuel v.cfg)
    (htr : v.trace = c.trace) : v.Ran (transcriptOf c) c.output := by
  refine ⟨c.pake.state, ?_, ?_⟩
  all_goals
    refine mem_of_setup ?_
    rw [htr, connected_setup]
    simp [transcriptOf]

theorem connected_setUp {v : ViewerRun C} (c : Viewer.Connected C v.fuel v.cfg)
    (htr : v.trace = c.trace) : SetUp v.trace c.output c.localFp c.remoteFp :=
  setUp_of rfl (htr ▸ connected_setup c)

theorem connected_sends (c : Viewer.Connected C fuel cfg) :
    Channel.delivered c.trace = [Control.encode (.hello c.hello)] := by
  have hopening := Channel.delivered_waits (Channel.waitOpen_uses _ _ _) c.opened
  have hreading := Channel.delivered_waits (Channel.next_uses _ _ _) c.received
  have hwaiting := Channel.delivered_waits (Channel.next_uses _ _ _) c.decided
  simp only [Channel.delivered] at hopening hreading hwaiting ⊢
  simp [Viewer.Connected.trace, Viewer.Greeted.trace, Viewer.Greeting.trace, Viewer.Linked.trace,
    Viewer.Answered.trace, Viewer.Offered.trace, Viewer.Keyed.trace, Viewer.Began.trace,
    List.filterMap_cons, Channel.sent, hopening, hreading, hwaiting]

end Viewer

section Host
variable {fuel : Nat} {cfg : HostConfig} {st : HostState}

theorem exists_of_delivered {In Out : Type} {tr : List (Ev (conn In Out))} {data : Bytes}
    (h : data ∈ Channel.delivered tr) : ∃ e ∈ tr, e.op = .peerSend data := by
  obtain ⟨e, he, hsent⟩ := List.mem_filterMap.mp h
  refine ⟨e, he, ?_⟩
  obtain ⟨o, r⟩ := e
  cases o with
  | peerSend sent =>
      rcases r with e | u
      · cases hsent
      · rw [Option.some.inj hsent]
  | _ => cases hsent

-- a host past the two Hellos fixes nothing more and sends decisions only
def concludes : Op HostToServer → Prop
  | .peerSend data => ∃ d, data = Control.encode (.decision d)
  | o => o.isSetup = false

theorem concludes_of_waiting {o : Op HostToServer} (h : o.waiting = true) : concludes o := by
  cases o <;> first | rfl | cases h

theorem concludes_not_setup {o : Op HostToServer} (h : concludes o) : o.isSetup = false := by
  cases o <;> first | rfl | exact h

theorem failWith_concludes (ch : Channel) (f : AttemptFailure) :
    (failWith ch f).Uses (S := HostSig) concludes :=
  uses_bind ((Channel.close_uses ch).mono fun _ => concludes_of_waiting) fun _ => trivial

theorem rejectDecision_concludes (ch : Channel) (reason : RejectReason) (f : AttemptFailure)
    (t : Duration) : (rejectDecision fuel ch reason f t).Uses (S := HostSig) concludes := by
  refine uses_bind (uses_call.mpr ⟨.rejected reason, rfl⟩) fun r => ?_
  cases r with
  | error e => exact failWith_concludes ch f
  | ok u =>
      refine uses_bind (uses_call.mpr rfl) fun start => ?_
      exact uses_bind ((linger_uses _ _ _ _).mono fun _ => concludes_of_waiting)
        fun ch' => failWith_concludes ch' f

theorem accept_concludes (viewer : PeerIdentity) (ch : Channel) :
    (accept st viewer ch).Uses (S := HostSig) concludes := by
  refine uses_bind (uses_call.mpr ⟨.accepted, rfl⟩) fun r => ?_
  cases r with
  | error e => exact uses_bind (failWith_concludes ch .transport) fun _ => trivial
  | ok u => exact ⟨rfl, fun _ => trivial⟩

theorem askApproval_concludes (viewer : PeerIdentity) (ch : Channel) :
    (askApproval C fuel cfg st viewer ch >>= finishAttempt).Uses (S := HostSig) concludes := by
  refine uses_bind (uses_bind ((waitApproval_uses _ _ _ _).mono fun o ho => ?_) fun r => ?_)
    fun r => ?_
  · rcases ho with hwaiting | hasks
    · exact concludes_of_waiting hwaiting
    · cases o <;> first | rfl | cases hasks
  · obtain ⟨a, ch'⟩ := r
    cases a with
    | granted => exact accept_concludes _ _
    | failed f => exact uses_bind (failWith_concludes ch' f) fun _ => trivial
    | _ => exact uses_bind (rejectDecision_concludes _ _ _ _) fun _ => trivial
  · obtain ⟨s | f | _, st'⟩ := r
    · trivial
    · exact uses_bind (uses_bind (uses_call.mpr rfl) fun r => by cases r <;> trivial)
        fun _ => trivial
    · trivial

-- the call whose data the other end reads as `Decision::Accepted`
def approves (o : Op HostToServer) : Prop :=
  ∃ data, o = .peerSend data ∧ Control.decode data = .ok (.decision .accepted)

theorem approves_silent (st : HostState) : Silent approves noResult st where
  now := nofun
  recv := nofun
  kick := nofun
  retryAfter := nofun
  rejected := nofun
  partyBStart := nofun
  finish := nofun
  error := nofun
  failed := nofun
  left := nofun
  waiting := by rintro _ h ⟨data, rfl, -⟩; cases h
  peerNew := nofun
  acceptOffer := nofun
  answer := nofun
  localFp := nofun
  remoteFp := nofun
  send := by
    rintro c hc ⟨data, hdata, haccepted⟩
    rw [← Op.peerSend.inj hdata] at haccepted
    exact hc (Control.eq_of_decode_encode haccepted).symm

theorem approves_deep : Deep approves noResult where
  late st := (approves_silent st).toLate
  generateCode := nofun
  verify := nofun
  reply := nofun

theorem gate_setup (g : Gate C fuel cfg st) : setup g.trace =
    [⟨.partyBStart g.w VIEWER_ID (hostIdBytes cfg.hostId) AAD, .ok (g.pb, g.party)⟩,
      ⟨.finish g.party g.pa, .ok g.output⟩, ⟨.verifyPeerConfirmation g.output g.mac, .ok ()⟩,
      ⟨.localFingerprint, g.localFp⟩, ⟨.remoteFingerprint, some g.remoteFp⟩] := by
  have hopen := setup_waits (Channel.waitOpen_uses _ _ _) g.ready
  have hhello := setup_waits (Channel.next_uses _ _ _) g.greeted
  have hrecord : setup g.recordTrace = [] := by
    obtain ⟨t, out, -, ⟨-, code, htr⟩ | ⟨-, htr⟩⟩ := recordAttempt_cases g.recorded <;>
      rw [htr] <;> rfl
  simp only [setup] at hopen hhello hrecord ⊢
  simp [Gate.trace, Gate.tailTrace, Confirmed.trace, Started.trace, List.filter_cons, isSetup,
    Op.isSetup, hopen, hhello, hrecord]

section Served
variable {h : HostRun C} {g : Gate C h.fuel h.cfg h.st} {tr : List (Ev HostSig)}

theorem served_setup (htr : h.trace = g.trace ++ tr) (htail : ∀ e ∈ tr, concludes e.op) :
    setup h.trace = setup g.trace := by
  have hnone : setup tr = [] := setup_eq_nil fun e he => concludes_not_setup (htail e he)
  rw [htr, setup_append, hnone, List.append_nil]

theorem served_setUp (htr : h.trace = g.trace ++ tr) (htail : ∀ e ∈ tr, concludes e.op) :
    SetUp h.trace g.output g.localFp g.remoteFp :=
  setUp_of rfl ((served_setup htr htail).trans (gate_setup g))

theorem served_input (htr : h.trace = g.trace ++ tr) (htail : ∀ e ∈ tr, concludes e.op)
    {t : Transcript} {out : Spake2Output} (hran : h.Ran t out) :
    t.input = ⟨g.w, VIEWER_ID, hostIdBytes h.cfg.hostId, AAD⟩ := by
  obtain ⟨party, hstart, -⟩ := hran
  have hlist := mem_setup hstart rfl
  rw [served_setup htr htail, gate_setup] at hlist
  obtain ⟨⟨w, idA, idB, aad⟩, pa, pb⟩ := t
  have hargs : (w = g.w ∧ idA = VIEWER_ID ∧ idB = hostIdBytes h.cfg.hostId ∧ aad = AAD) ∧
      pb = g.pb ∧ party = g.party := by simpa using hlist
  obtain ⟨⟨rfl, rfl, rfl, rfl⟩, -⟩ := hargs
  rfl

end Served

theorem gate_sends (g : Gate C fuel cfg st) : Channel.delivered g.trace =
    [Control.encode (.hello (hostHello C cfg g.keys g.localFp g.remoteFp))] := by
  have hopen := Channel.delivered_waits (Channel.waitOpen_uses _ _ _) g.ready
  have hhello := Channel.delivered_waits (Channel.next_uses _ _ _) g.greeted
  have hrecord : Channel.delivered g.recordTrace = [] := by
    obtain ⟨t, out, -, ⟨-, code, htr⟩ | ⟨-, htr⟩⟩ := recordAttempt_cases g.recorded <;>
      rw [htr] <;> rfl
  simp only [Channel.delivered] at hopen hhello hrecord ⊢
  simp [Gate.trace, Gate.tailTrace, Confirmed.trace, Started.trace, List.filterMap_cons,
    Channel.sent, hopen, hhello, hrecord]

theorem served_hello {h : HostRun C} {g : Gate C h.fuel h.cfg h.st} {tr : List (Ev HostSig)}
    {data : Bytes} {hello : Hello} (htr : h.trace = g.trace ++ tr)
    (htail : ∀ e ∈ tr, concludes e.op) (hsent : data ∈ Channel.delivered h.trace)
    (hdata : Control.decode data = .ok (.hello hello)) :
    hello = hostHello C h.cfg g.keys g.localFp g.remoteFp := by
  rw [htr, Channel.delivered_append, gate_sends] at hsent
  rcases List.mem_append.mp hsent with hmine | hlater
  · rw [List.mem_singleton.mp hmine] at hdata
    exact Control.hello.inj (Control.eq_of_decode_encode hdata)
  · obtain ⟨e, he, hop⟩ := exists_of_delivered hlater
    have hdecides := htail e he
    rw [hop] at hdecides
    obtain ⟨d, rfl⟩ := hdecides
    rw [decode_decision] at hdata
    cases hdata

theorem gate_hears (g : Gate C fuel cfg st) : ∃ data ∈ Channel.polled g.trace,
    Control.decode data = .ok (.hello g.viewerHello) := by
  have hopen : g.openCh.pending = Channel.polled g.openTrace := Channel.waitOpen_keeps g.ready
  obtain ⟨data, hdata, hhello⟩ := Channel.next_msg_pops g.greeted
  refine ⟨data, ?_, hhello⟩
  have hmem : data ∈ Channel.polled g.openTrace ++ Channel.polled g.helloTrace := by
    rw [← hopen, hdata]
    exact List.mem_cons_self
  have hpolled : Channel.polled g.tailTrace =
      Channel.polled g.openTrace ++ Channel.polled g.helloTrace := by
    simp [Gate.tailTrace, Channel.polled, Channel.pollResults, Channel.pollResult,
      List.filterMap_cons]
  rw [Gate.trace, Channel.polled_append, hpolled]
  exact List.mem_append_right _ hmem

theorem decode_hostHello (sk : SessionKeys) (ownFp peerFp : Bytes) :
    Control.decode (Control.encode (.hello (hostHello C cfg sk ownFp peerFp))) =
      .ok (.hello (hostHello C cfg sk ownFp peerFp)) :=
  decode_hello cfg.protocolVersion

theorem askApproval_serves {viewer : PeerIdentity} {ch : Channel} {tr : List (Ev HostSig)}
    {q : HostM (ServeResult × HostState)} {data : Bytes}
    (h : Path (askApproval C fuel cfg st viewer ch >>= finishAttempt) tr q)
    (hsent : data ∈ Channel.delivered tr)
    (hdata : Control.decode data = .ok (.decision .accepted)) : ∃ ch', Serving q ⟨viewer, ch'⟩ := by
  have L := (approves_silent st).toCalm
  have hits {tr : List (Ev HostSig)} (hsent : data ∈ Channel.delivered tr) :
      Hits approves noResult tr q := by
    obtain ⟨e, he, hop⟩ := exists_of_delivered hsent
    exact .inl ⟨e, he, data, hop, hdata⟩
  obtain ⟨tr₁, ch', tr₂, rfl, hgranted, haccept, -⟩ := askApproval_hits L nofun h (hits hsent)
  have hlater : data ∈ Channel.delivered tr₂ := by
    rw [Channel.delivered_append] at hsent
    refine (List.mem_append.mp hsent).resolve_left fun hearly => ?_
    obtain ⟨e, he, hop⟩ := exists_of_delivered hearly
    exact ((L.waitApproval_uses nofun _ _ _ _).path hgranted).1 e he ⟨data, hop, hdata⟩
  rw [accept, Prog.bind_assoc] at haccept
  rcases path_call haccept with ⟨rfl, -⟩ | ⟨r, tr₃, rfl, hrest⟩
  · cases hlater
  cases r with
  | error e =>
      have hafter : data ∈ Channel.delivered tr₃ := hlater
      exact absurd (hits hafter) (Prog.Never.not_hits (L.failWith_never _ _) hrest)
  | ok u =>
      rcases path_call hrest with ⟨-, rfl⟩ | ⟨code, tr₄, -, hret⟩
      · exact ⟨ch', .inr ⟨st, rfl⟩⟩
      · obtain ⟨-, rfl⟩ := path_ret hret
        exact ⟨ch', .inl ⟨_, rfl⟩⟩

theorem attempt_accepts {tr : List (Ev HostSig)} {q : HostM (ServeResult × HostState)}
    {data : Bytes} (h : Path (attempt C fuel cfg st) tr q) (hsent : data ∈ Channel.delivered tr)
    (hdata : Control.decode data = .ok (.decision .accepted)) :
    ∃ (g : Gate C fuel cfg st) (tr' : List (Ev HostSig)) (ch : Channel), tr = g.trace ++ tr' ∧
      (∀ e ∈ tr', concludes e.op) ∧ Serving q ⟨g.viewer, ch⟩ := by
  obtain ⟨e, he, hop⟩ := exists_of_delivered hsent
  have hh : Hits approves noResult tr q := .inl ⟨e, he, data, hop, hdata⟩
  obtain ⟨c, tr', rfl, h₁, hh₁⟩ := attempt_confirmed approves_deep h hh
  obtain ⟨g, tr', rfl, rfl, h₂, -⟩ := confirmed_gate (approves_silent _) h₁ hh₁
  have htrace : g.toConfirmed.trace ++ (g.tailTrace ++ tr') = g.trace ++ tr' :=
    (List.append_assoc ..).symm
  rw [htrace, Channel.delivered_append, gate_sends] at hsent
  have hlater : data ∈ Channel.delivered tr' := by
    refine (List.mem_append.mp hsent).resolve_left fun hearly => ?_
    rw [List.mem_singleton.mp hearly, decode_hostHello] at hdata
    cases hdata
  obtain ⟨ch, hserving⟩ := askApproval_serves h₂ hlater hdata
  exact ⟨g, tr', ch, htrace, ((askApproval_concludes _ _).path h₂).1, hserving⟩

end Host

end Hostile

end SimpleRemote
