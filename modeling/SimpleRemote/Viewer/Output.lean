import SimpleRemote.Host.Output
import SimpleRemote.Viewer.Conduct
import SimpleRemote.Viewer.FailClosed
import SimpleRemote.Viewer.Main

namespace SimpleRemote
open ByteCodec Interaction

namespace ViewerSession

-- what `ping` may ask for
def Pings : Op ViewerToServer → Prop
  | .peerSend data => ∃ seq, data = Control.encode (.ping seq)
  | o => o.waiting = true

theorem pings_of_waiting {o : Op ViewerToServer} (h : o.waiting = true) : Pings o := by
  cases o <;> first | rfl | cases h

theorem ping_uses (fuel : Nat) (timeout : Duration) (s : ViewerSession) :
    (s.ping fuel timeout).Uses (S := ViewerSig) Pings := by
  rw [ping]
  split
  · refine uses_bind (uses_call.mpr rfl) fun start => ?_
    refine uses_bind (uses_call.mpr ⟨s.nextSeq, rfl⟩) fun sent => ?_
    cases sent with
    | error e => trivial
    | ok u => exact (pingLoop_waits _ _ _ _).mono fun _ => pings_of_waiting
  · trivial

end ViewerSession

namespace Viewer
variable {args : List Text}

theorem parseArgsLoop_id (o : Options) {a : Args} (h : parseArgsLoop o args = some a) :
    Register.isHostId a.id = true := by
  fun_induction parseArgsLoop o args with
  | case1 o =>
      obtain ⟨id, hid, hrest⟩ := Option.bind_eq_some_iff.mp h
      obtain ⟨server, -, hrest⟩ := Option.bind_eq_some_iff.mp hrest
      obtain ⟨code, -, ha⟩ := Option.bind_eq_some_iff.mp hrest
      obtain rfl := Option.some.inj ha
      exact (Option.filter_eq_some_iff.mp hid).2
  | _ => grind

-- what the program has made of its arguments
structure Typed (args : List Text) where
  a : Args
  code : OneTimeCode
  parsed : parseArgs args = some a
  coded : OneTimeCode.parse a.code = .ok code

theorem Typed.nineDigits (t : Typed args) : Register.isHostId t.a.id = true :=
  parseArgsLoop_id _ t.parsed

def saidOf : Ev MainSig → Option Text
  | ⟨.println text, _⟩ => some text
  | _ => none

def said (tr : List (Ev MainSig)) : List Text := tr.filterMap saidOf

def complainedOf : Ev MainSig → Option Complaint
  | ⟨.eprintln c, _⟩ => some c
  | _ => none

def complained (tr : List (Ev MainSig)) : List Complaint := tr.filterMap complainedOf

def sessionOf : Ev MainSig → Option (Ev ViewerSig)
  | ⟨.session o, r⟩ => some ⟨o, r⟩
  | _ => none

def sessions (tr : List (Ev MainSig)) : List (Ev ViewerSig) := tr.filterMap sessionOf

def onSession (e : Ev ViewerSig) : Ev MainSig := ⟨.session e.op, e.res⟩

@[simp] theorem said_append (tr tr' : List (Ev MainSig)) : said (tr ++ tr') = said tr ++ said tr' :=
  List.filterMap_append ..

@[simp] theorem complained_append (tr tr' : List (Ev MainSig)) :
    complained (tr ++ tr') = complained tr ++ complained tr' := List.filterMap_append ..

@[simp] theorem sessions_append (tr tr' : List (Ev MainSig)) :
    sessions (tr ++ tr') = sessions tr ++ sessions tr' := List.filterMap_append ..

@[simp] theorem said_onSession (tr : List (Ev ViewerSig)) : said (tr.map onSession) = [] := by
  induction tr with
  | nil => rfl
  | cons e tr ih => exact ih

@[simp] theorem complained_onSession (tr : List (Ev ViewerSig)) :
    complained (tr.map onSession) = [] := by
  induction tr with
  | nil => rfl
  | cons e tr ih => exact ih

@[simp] theorem sessions_onSession (tr : List (Ev ViewerSig)) : sessions (tr.map onSession) = tr := by
  induction tr with
  | nil => rfl
  | cons e tr ih => exact congrArg (List.cons e) ih

def printed (line : Line) : Ev MainSig := ⟨.println line.text, ()⟩

def connectedTo (C : Crypto) (host : PeerIdentity) : Line :=
  .connected host.name (keyFingerprint C host.deviceKey)

-- the calls behind a `CONNECTED` line: a link for the id typed, and a whole handshake on it
structure Met (C : Crypto) (fuel : Nat) (t : Typed args) (tr : List (Ev MainSig))
    (host : PeerIdentity) : Prop where
  linked : ⟨.connect (urlFor t.a), .ok ()⟩ ∈ tr
  shook : ∃ (cfg : Config) (c : Connected C fuel cfg), cfg.hostId = t.a.id ∧ cfg.code = t.code ∧
    cfg.keys.name = t.a.name ∧ c.host = host ∧ c.trace <+: sessions tr

-- the output once a host has been reached
structure Reading (C : Crypto) (fuel : Nat) (args : List Text) (tr : List (Ev MainSig))
    (host : PeerIdentity) (rtts : List Duration) : Prop where
  said : said tr = (connectedTo C host).text :: rtts.map fun rtt => (Line.pong rtt).text
  atMost : rtts.length ≤ PINGS
  named : Agent.Named host.name (keyFingerprint C host.deviceKey)
  met : ∃ t : Typed args, Met C fuel t tr host

-- SPAKE2 is started with what was typed
def Opens (C : Crypto) (t : Typed args) : Op ViewerToServer → Prop
  | .partyAStart w idA idB aad => codeScalar C t.code = .ok w ∧ idA = VIEWER_ID ∧
      idB = hostIdBytes t.a.id ∧ aad = AAD
  | _ => True

def isConnect (e : Ev MainSig) : Bool :=
  match e.op with
  | .connect _ => true
  | _ => false

def Fine (C : Crypto) (fuel : Nat) (args : List Text) (past : List (Ev MainSig)) : MainOp → Prop
  | .connect url => (∃ t : Typed args, url = urlFor t.a) ∧ ∀ e ∈ past, isConnect e = false
  | .session o => ∃ t : Typed args, ⟨.connect (urlFor t.a), .ok ()⟩ ∈ past ∧ Opens C t o
  | .println text => complained past = [] ∧
      ∃ host rtts, Reading C fuel args (past ++ [⟨.println text, ()⟩]) host rtts
  | .eprintln _ => complained past = []
  | _ => True

-- what a call of `run` has come to
inductive Came (C : Crypto) (fuel : Nat) (args : List Text) (tr : List (Ev MainSig)) :
    Except ConnectError Unit → Prop
  | failed (e : ConnectError) (hquiet : complained tr = []) (hsaid : (said tr).length ≤ PINGS) :
      Came C fuel args tr (.error e)
  | done {host : PeerIdentity} {rtts : List Duration} (hquiet : complained tr = [])
      (hreading : Reading C fuel args tr host rtts) (hall : rtts.length = PINGS) :
      Came C fuel args tr (.ok ())

-- how the program ends
inductive Exited (C : Crypto) (fuel : Nat) (args : List Text) : List (Ev MainSig) → ExitCode → Prop
  | usage (hargs : parseArgs args = none) : Exited C fuel args [⟨.eprintln .usage, ()⟩] .usage
  | code {a : Args} {e : AuthError} (hargs : parseArgs args = some a)
      (hcode : OneTimeCode.parse a.code = .error e) :
      Exited C fuel args [⟨.eprintln .code, ()⟩] .failure
  | name (t : Typed args) {e : AuthError} (hname : checkDeviceName t.a.name = .error e) :
      Exited C fuel args [⟨.eprintln .name, ()⟩] .usage
  | failed {before : List (Ev MainSig)} (e : ConnectError)
      (h : Came C fuel args before (.error e)) :
      Exited C fuel args (before ++ [⟨.eprintln (.failed e), ()⟩]) .failure
  | done {tr : List (Ev MainSig)} (h : Came C fuel args tr (.ok ())) : Exited C fuel args tr .success

section
variable {C : Crypto} {fuel : Nat} {past : List (Ev MainSig)} {host : PeerIdentity}
  {rtts : List Duration}

theorem Met.append {t : Typed args} (h : Met C fuel t past host) (tr : List (Ev MainSig)) :
    Met C fuel t (past ++ tr) host where
  linked := List.mem_append_left _ h.linked
  shook := by
    obtain ⟨cfg, c, hid, hcode, hname, hhost, hprefix⟩ := h.shook
    refine ⟨cfg, c, hid, hcode, hname, hhost, hprefix.trans ?_⟩
    rw [sessions_append]
    exact List.prefix_append _ _

theorem Reading.append (h : Reading C fuel args past host rtts) (tr : List (Ev MainSig))
    (hsaid : Viewer.said tr = []) : Reading C fuel args (past ++ tr) host rtts where
  said := by rw [said_append, hsaid, List.append_nil, h.said]
  atMost := h.atMost
  named := h.named
  met := by
    obtain ⟨t, hmet⟩ := h.met
    exact ⟨t, hmet.append tr⟩

theorem Reading.pong (h : Reading C fuel args past host rtts) (hroom : rtts.length < PINGS)
    (rtt : Duration) : Reading C fuel args (past ++ [printed (.pong rtt)]) host (rtts ++ [rtt]) where
  said := by
    rw [said_append, h.said, List.map_append]
    rfl
  atMost := by
    rw [List.length_append, List.length_singleton]
    exact hroom
  named := h.named
  met := by
    obtain ⟨t, hmet⟩ := h.met
    exact ⟨t, hmet.append _⟩

theorem finish_wp {r : Except ConnectError Unit} (h : Came C fuel args past r) :
    (finish r).wp (.history (Fine C fuel args)) (Exited C fuel args) past := by
  cases h with
  | failed e hquiet hsaid => exact ⟨hquiet, fun _ _ => .failed e (.failed e hquiet hsaid)⟩
  | done hquiet hreading hall => exact .done (.done hquiet hreading hall)

theorem wp_session {α : Type} {p : ViewerM α} {Q : List (Ev ViewerSig) → α → Prop}
    {allow : List (Ev MainSig) → MainOp → Prop}
    (h : p.wp (.history fun tr o => allow (past ++ tr.map onSession) (.session o)) Q []) :
    (p.handle sessionCall ()).wp (.history allow)
      (fun past' r => ∃ tr, Q tr r.1 ∧ past' = past ++ tr.map onSession) past := by
  refine wp_forward (f := onSession) (fun tr o hallow => ?_) h
  exact ⟨hallow, fun _ _ => rfl⟩

theorem opens_of_pings {t : Typed args} {o : Op ViewerToServer} (h : ViewerSession.Pings o) :
    Opens C t o := by
  cases o <;> trivial

theorem pings_wp (n : Nat) {session : ViewerSession} (hquiet : complained past = [])
    (h : Reading C fuel args past host rtts) (hleft : rtts.length + n = PINGS) :
    (pings fuel n session).wp (.history (Fine C fuel args)) (Came C fuel args) past := by
  induction n generalizing past rtts session with
  | zero => exact .done hquiet h hleft
  | succ n ih =>
      have hping : (session.ping fuel PING_TIMEOUT).wp
          (.history fun tr o => Fine C fuel args (past ++ tr.map onSession) (.session o))
          (fun _ _ => True) [] := by
        refine Prog.wp_mono (wp_of_only (I := fun _ => True)
          (ViewerSession.ping_uses fuel PING_TIMEOUT session) (fun tr o _ ho => ?_) trivial)
          fun _ _ _ => trivial
        obtain ⟨t, hmet⟩ := h.met
        exact ⟨⟨t, List.mem_append_left _ hmet.linked, opens_of_pings ho⟩, fun _ _ => trivial⟩
      refine wp_bind.mpr (Prog.wp_mono (wp_session hping) fun past' r hr => ?_)
      obtain ⟨⟨rtt, session⟩, u⟩ := r
      obtain ⟨tr, -, rfl⟩ := hr
      have hread := h.append (tr.map onSession) (said_onSession tr)
      have hstill : complained (past ++ tr.map onSession) = [] := by simp [hquiet]
      have hroom : rtts.length < PINGS := by omega
      cases rtt with
      | error e =>
          refine .failed e hstill ?_
          rw [hread.said, List.length_cons, List.length_map]
          exact hroom
      | ok rtt =>
          have hnext := hread.pong hroom rtt
          refine ⟨⟨hstill, host, _, hnext⟩, fun _ _ => ih ?_ hnext ?_⟩
          · exact (complained_append _ [printed (.pong rtt)]).trans (by rw [hstill]; rfl)
          · rw [List.length_append, List.length_singleton]
            omega

theorem connect_wp (t : Typed args) {cfg : Config} (hid : cfg.hostId = t.a.id)
    (hcode : cfg.code = t.code) (hlinked : ⟨.connect (urlFor t.a), .ok ()⟩ ∈ past) :
    (connect C fuel cfg).wp
      (.history fun tr o => Fine C fuel args (past ++ tr.map onSession) (.session o))
      (fun tr r => Exec (connect C fuel cfg) tr r) [] := by
  refine wp_history (fun tr o k h => ?_) fun tr r h => h
  refine ⟨t, List.mem_append_left _ hlinked, ?_⟩
  cases o with
  | partyAStart w idA idB aad =>
      have hkeeps := (wp_path (connect_keeps C fuel cfg) h (history_valid [] tr)).2.1
      rw [Opens, ← hid, ← hcode]
      exact hkeeps
  | _ => trivial

theorem shows_wp (t : Typed args) {cfg : Config} {tr : List (Ev ViewerSig)} {result : ConnectResult}
    (hid : cfg.hostId = t.a.id) (hcode : cfg.code = t.code) (hname : cfg.keys.name = t.a.name)
    (hlinked : ⟨.connect (urlFor t.a), .ok ()⟩ ∈ past) (hsaid : said past = [])
    (hquiet : complained past = []) (hbefore : sessions past = [])
    (h : Exec (connect C fuel cfg) tr result) :
    (shows C fuel result).wp (.history (Fine C fuel args)) (Came C fuel args)
      (past ++ tr.map onSession) := by
  have hstill : complained (past ++ tr.map onSession) = [] := by simp [hquiet]
  cases result with
  | error e => exact .failed e hstill (by simp [hsaid])
  | ok session =>
      obtain ⟨c, rfl, rfl⟩ := connected_of_ok h
      have hchecked : checkDeviceName c.host.name = .ok () := (verifyHello_ok c.verified).nameChecked
      have hread : Reading C fuel args
          (past ++ c.trace.map onSession ++ [printed (connectedTo C c.host)]) c.host [] := by
        refine ⟨?_, Nat.zero_le _, Agent.named_request hchecked, t, ?_, cfg, c, hid, hcode, hname,
          rfl, ?_⟩
        · rw [said_append, said_append, hsaid, said_onSession]
          rfl
        · exact List.mem_append_left _ (List.mem_append_left _ hlinked)
        · rw [sessions_append, sessions_append, hbefore, sessions_onSession]
          exact List.prefix_append _ _
      refine ⟨⟨hstill, c.host, [], hread⟩, fun _ _ => pings_wp PINGS ?_ hread (Nat.zero_add _)⟩
      exact (complained_append _ [printed (connectedTo C c.host)]).trans (by rw [hstill]; rfl)

theorem run_wp (t : Typed args) {keys : DeviceKeys} (hname : keys.name = t.a.name)
    {draw : Ev MainSig} (hdraw : draw.op = .random) :
    (run C fuel t.a t.code keys).wp (.history (Fine C fuel args)) (Came C fuel args) [draw] := by
  obtain ⟨o, drawn⟩ := draw
  obtain rfl : o = .random := hdraw
  refine ⟨⟨⟨t, rfl⟩, fun e he => ?_⟩, fun linked _ => ?_⟩
  · rw [List.mem_singleton.mp he]
    rfl
  · cases linked with
    | error e => exact .failed _ rfl (Nat.zero_le _)
    | ok u =>
        refine ⟨trivial, fun ips _ => ?_⟩
        let base : List (Ev MainSig) :=
          [⟨.random, drawn⟩, ⟨.connect (urlFor t.a), .ok u⟩, ⟨.localIps, ips⟩]
        let cfg : Config := ⟨t.a.id, t.code, keys, bindIps ips, .default⟩
        have hlinked : ⟨.connect (urlFor t.a), .ok ()⟩ ∈ base := by simp [base]
        have hconnect : (connect C fuel cfg).wp
            (.history fun tr o => Fine C fuel args (base ++ tr.map onSession) (.session o))
            (fun tr r => Exec (connect C fuel cfg) tr r) [] := connect_wp t rfl rfl hlinked
        change (_ >>= fun r : ConnectResult × Unit => shows C fuel r.1).wp _ _ base
        refine wp_bind.mpr (Prog.wp_mono (wp_session hconnect) fun past' r hr => ?_)
        obtain ⟨result, u⟩ := r
        obtain ⟨tr, hexec, rfl⟩ := hr
        exact shows_wp t rfl rfl hname hlinked rfl rfl rfl hexec

theorem main_wp (C : Crypto) (fuel : Nat) (args : List Text) :
    (main C fuel args).wp (.history (Fine C fuel args)) (Exited C fuel args) [] := by
  rw [main]
  split
  · rename_i hargs
    exact ⟨rfl, fun _ _ => .usage hargs⟩
  · rename_i a hargs
    split
    · rename_i e hcode
      exact ⟨rfl, fun _ _ => .code hargs hcode⟩
    · rename_i code hcode
      let t : Typed args := ⟨a, code, hargs, hcode⟩
      rw [DeviceKeys.generate]
      split
      · rename_i e hname
        exact ⟨rfl, fun _ _ => .name t hname⟩
      · refine ⟨trivial, fun drawn _ => ?_⟩
        change (run C fuel t.a t.code _ >>= finish).wp _ _ _
        exact wp_bind.mpr (Prog.wp_mono (run_wp t rfl rfl) fun past' r hr => finish_wp hr)

theorem main_fine {tr : List (Ev MainSig)} {q : MainM ExitCode} (h : Path (main C fuel args) tr q) :
    (∀ pre e post, tr = pre ++ e :: post → Fine C fuel args pre e.op) ∧
      ∀ code, q = .ret code → Exited C fuel args tr code :=
  history_path (main_wp C fuel args) h

theorem reading_of_fine {tr : List (Ev MainSig)}
    (h : ∀ pre e post, tr = pre ++ e :: post → Fine C fuel args pre e.op) :
    said tr = [] ∨ ∃ host rtts, Reading C fuel args tr host rtts := by
  induction tr using List.reverseRecOn with
  | nil => exact .inl rfl
  | append_singleton tr e ih =>
      have hlast := h tr e [] rfl
      have same (hsaid : said [e] = []) : said (tr ++ [e]) = [] ∨
          ∃ host rtts, Reading C fuel args (tr ++ [e]) host rtts := by
        rcases ih fun pre e' post htr => h pre e' (post ++ [e]) (by simp [htr]) with
          hnone | ⟨host, rtts, hread⟩
        · exact .inl (by rw [said_append, hnone, hsaid]; rfl)
        · exact .inr ⟨host, rtts, hread.append [e] hsaid⟩
      obtain ⟨o, r⟩ := e
      cases o with
      | println text => exact .inr hlast.2
      | _ => exact same rfl

theorem Reading.printable {tr : List (Ev MainSig)} (h : Reading C fuel args tr host rtts) :
    ∀ text ∈ Viewer.said tr, Printable text := by
  intro text htext
  rw [h.said] at htext
  rcases List.mem_cons.mp htext with rfl | htext
  · exact Agent.Line.text_printable (l := .connected host.name (keyFingerprint C host.deviceKey))
      h.named
  · obtain ⟨rtt, -, rfl⟩ := List.mem_map.mp htext
    have hword : Printable "PONG rtt_ms=".toList := by decide
    refine printable_append.mpr ⟨hword, fun c hc => isControl_digit ?_⟩
    exact Nat.isDigit_of_mem_toDigits (by decide) (by decide) hc

-- a link is opened once, for the id typed, and the session comes after it
structure OneLink (args : List Text) (tr : List (Ev MainSig)) : Prop where
  once : ∀ pre url r post, tr = pre ++ ⟨.connect url, r⟩ :: post →
    (∃ t : Typed args, url = urlFor t.a) ∧ (∀ e ∈ pre, isConnect e = false) ∧ sessions pre = []
  before : ∀ pre o r post, tr = pre ++ ⟨.session o, r⟩ :: post →
    ∃ t : Typed args, ⟨.connect (urlFor t.a), .ok ()⟩ ∈ pre

theorem oneLink_of_fine {tr : List (Ev MainSig)}
    (h : ∀ pre e post, tr = pre ++ e :: post → Fine C fuel args pre e.op) : OneLink args tr where
  before pre o r post htr := by
    obtain ⟨t, hlinked, -⟩ := h pre ⟨.session o, r⟩ post htr
    exact ⟨t, hlinked⟩
  once pre url r post htr := by
    obtain ⟨hurl, hfirst⟩ := h pre ⟨.connect url, r⟩ post htr
    refine ⟨hurl, hfirst, List.filterMap_eq_nil_iff.mpr fun e he => ?_⟩
    obtain ⟨o, res⟩ := e
    cases o with
    | session o =>
        obtain ⟨before, after, rfl⟩ := List.append_of_mem he
        obtain ⟨t, hlinked, -⟩ := h before ⟨.session o, res⟩ (after ++ ⟨.connect url, r⟩ :: post)
          (by simp [htr])
        cases hfirst _ (List.mem_append_left _ hlinked)
    | _ => rfl

-- the output is nothing, or the host that a whole handshake has shown and up to three answers
theorem main_output (C : Crypto) {tr : List (Ev MainSig)} {q : MainM ExitCode}
    (h : Path (main C fuel args) tr q) :
    (said tr = [] ∨ ∃ host rtts, Reading C fuel args tr host rtts) ∧
    (∀ text ∈ said tr, Printable text) ∧ OneLink args tr ∧
    ∀ code, q = .ret code → Exited C fuel args tr code := by
  obtain ⟨hfine, hexited⟩ := main_fine h
  have hout := reading_of_fine hfine
  refine ⟨hout, ?_, oneLink_of_fine hfine, hexited⟩
  rcases hout with hnone | ⟨host, rtts, hread⟩
  · rw [hnone]
    exact nofun
  · exact hread.printable

def sampleArgs : List Text :=
  ["--server".toList, "wss://s".toList, "--id".toList, Agent.sampleId, "--code".toList,
    "000 000".toList, "--name".toList, "v".toList]

def sampleDialled : List (Ev MainSig) :=
  [⟨.random, (filled 32 9, filled 32 10)⟩,
    ⟨.connect ("wss://s/v1/viewer/".toList ++ Agent.sampleId), .ok ()⟩, ⟨.localIps, []⟩,
    onSession ⟨.linkRecv (Duration.fromSecs 15), .ok (some .joined)⟩]

def sampleStarts : Ev MainSig :=
  ⟨.session (.partyAStart (fromBe (CODE_CONTEXT ++ utf8 OneTimeCode.sample.digits)) VIEWER_ID
    (hostIdBytes Agent.sampleId) AAD), .ok ([4], ⟨0⟩)⟩

def sampleShaken : List (Ev MainSig) :=
  [relays (.start [4]), relayed (.reply [6] (filled 32 5).val),
    ⟨.finish ⟨0⟩ [6], .ok sampleOutput⟩, ⟨.verifyPeerConfirmation sampleOutput (filled 32 5), .ok ()⟩,
    ⟨.peerNew [LOCALHOST], .ok ()⟩, ⟨.createOffer, .ok (['s'], ⟨0⟩)⟩,
    relays (.confirm (filled 32 8).val (sampleSealed sampleKeys.viewerToHost labelV2h)),
    relayed (.answer (sampleSealed sampleKeys.hostToViewer labelH2v)),
    ⟨.acceptAnswer ⟨0⟩ ['s'], .ok ()⟩, ⟨.now, 12⟩, ⟨.now, 12⟩,
    ⟨.poll (Duration.fromSecs 10), .ok [.channelOpen]⟩,
    ⟨.localFingerprint, [2]⟩, ⟨.remoteFingerprint, some [1]⟩,
    ⟨.peerSend (Control.encode (.hello sampleHello)), .ok ()⟩, ⟨.now, 13⟩, ⟨.now, 13⟩,
    ⟨.poll (Duration.fromSecs 15), .ok [.data (Control.encode
      (.hello (hostHello .sample .sample sampleKeys [1] [2])))]⟩,
    ⟨.now, 14⟩, ⟨.now, 14⟩,
    ⟨.poll (Duration.fromSecs 45), .ok [.data (Control.encode (.decision .accepted))]⟩].map onSession

def samplePing (seq : UInt64) : List (Ev MainSig) :=
  [⟨.now, 20⟩, ⟨.peerSend (Control.encode (.ping seq)), .ok ()⟩, ⟨.now, 21⟩,
    ⟨.poll (PING_TIMEOUT - 1), .ok [.data (Control.encode (.pong seq))]⟩,
    ⟨.now, 3000020⟩].map onSession ++ [printed (.pong 3000000)]

def sampleRun : List (Ev MainSig) :=
  sampleDialled ++ sampleStarts :: (sampleShaken ++
    printed (connectedTo .sample (HostConfig.sample.keys.identity .sample)) ::
      (samplePing 0 ++ samplePing 1 ++ samplePing 2))

theorem sample_run : Exec (main .sample 5 sampleArgs) sampleRun .success :=
  exec_of_replay (by decide +kernel)

theorem sample_main_output : (∃ host rtts, Reading .sample 5 sampleArgs sampleRun host rtts) ∧
    Exited .sample 5 sampleArgs sampleRun .success := by
  obtain ⟨hout, -, -, hexited⟩ := main_output .sample sample_run
  exact ⟨hout.resolve_left (by decide), hexited _ rfl⟩

end

end Viewer

end SimpleRemote
