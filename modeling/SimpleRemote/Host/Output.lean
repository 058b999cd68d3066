import SimpleRemote.Host.Console

namespace SimpleRemote
open ByteCodec Interaction

namespace HostSession

-- what `serve_pings` may ask for
def Pongs : Op HostToServer → Prop
  | .peerSend data => ∃ seq, data = Control.encode (.pong seq)
  | o => o.waiting = true

theorem pongs_of_waiting {o : Op HostToServer} (h : o.waiting = true) : Pongs o := by
  cases o <;> first | rfl | cases h

theorem servePingsLoop_uses (fuel : Nat) (deadline : Instant) (n : Nat) (ch : Channel) :
    (servePingsLoop fuel deadline n ch).Uses (S := HostSig) Pongs := by
  induction n generalizing ch with
  | zero => trivial
  | succ n ih =>
      refine uses_bind ((Channel.next_uses _ _ _).mono fun _ => pongs_of_waiting) fun r => ?_
      obtain ⟨r, ch'⟩ := r
      rcases r with e | (c | _ | _ | _)
      case ok.msg =>
        cases c with
        | ping seq =>
            refine uses_bind (uses_call.mpr ⟨seq, rfl⟩) fun sent => ?_
            cases sent with
            | error e => trivial
            | ok u => exact ih ch'
        | _ => exact ih ch'
      case ok.malformed =>
        exact uses_bind ((Channel.close_uses _).mono fun _ => pongs_of_waiting) fun _ => trivial
      all_goals trivial

theorem servePings_uses (fuel : Nat) (forAtMost : Duration) (s : HostSession) :
    (s.servePings fuel forAtMost).Uses (S := HostSig) Pongs :=
  uses_bind (uses_call.mpr rfl) fun start =>
    uses_bind (servePingsLoop_uses fuel (start + forAtMost) fuel s.ch) fun _ => trivial

theorem still_of_pongs {o : Op HostToServer} (h : Pongs o) (r : Op.Res ServerToHost o) :
    Current.still ⟨o, r⟩ = true := by
  cases o with
  | peerSend data =>
      obtain ⟨seq, rfl⟩ := h
      have hpong : ¬ loud (.peerSend (Control.encode (.pong seq))) := quiet_send nofun
      exact Current.still_of_quiet (quiet_iff.mp hpong r)
  | _ => first | rfl | cases h

end HostSession

namespace Agent
open Approver (question)

theorem Line.ne_of_mark {l l' : Line} (h : l.mark ≠ l'.mark) : l.text ≠ l'.text := fun heq => by
  have hsame := congrArg (fun t : Text => t[2]?) heq
  simp only [Line.text_mark] at hsame
  exact h (Option.some.inj hsame)

-- the screen of a call of `serve_next` that has returned
def Screen.served (shown : OneTimeCode) : Option ApprovalRequest → Bool → Screen
  | none, false => .idle shown
  | asked, renewed => .round shown asked renewed

theorem Screen.served_attempt (shown : OneTimeCode) (asked : Option ApprovalRequest) (renewed : Bool)
    (failure : AttemptFailure) :
    (Screen.served shown asked renewed).next (.attempt failure) = some (.idle shown) := by
  cases asked <;> cases renewed <;> rfl

theorem Screen.served_code {shown code : OneTimeCode} (h : code ≠ shown)
    (asked : Option ApprovalRequest) :
    (Screen.served shown asked false).next (.code code) = some (.served code asked true) := by
  cases asked with
  | none => exact if_neg h
  | some req => exact if_neg h

theorem Screen.served_connected (shown : OneTimeCode) (name fingerprint : Text) (renewed : Bool) :
    (Screen.served shown (some ⟨name, fingerprint⟩) renewed).next (.connected name fingerprint) =
      some (.session shown) := by
  cases renewed <;> exact if_pos rfl

section
variable {C : Crypto} {once : Bool} {cfg : HostConfig} {past : List (Ev AgentSig)}

theorem said_printed (past : List (Ev AgentSig)) (line : Line) :
    said (past ++ [printed line]) = said past ++ [line.text] := said_append ..

theorem current_said (past' : List (Ev AgentSig)) (h : served past' = []) :
    current (past ++ past') = current past := by
  rw [current_append, h]
  rfl

theorem Consented.append {req : ApprovalRequest} {tr : List (Ev AgentSig)} (h : Consented past req)
    (hsaid : ∀ text ∈ said tr, ∀ req', text ≠ question req') : Consented (past ++ tr) req := by
  obtain ⟨before, askedAt, after, rfl, hlast, e, he, hconsents⟩ := h
  refine ⟨before, askedAt, after ++ tr, by simp, fun text htext => ?_, e, ?_, hconsents⟩
  · rw [said_append] at htext
    rcases List.mem_append.mp htext with htext | htext
    · exact hlast text htext
    · exact hsaid text htext
  · exact List.mem_append_left _ he

-- what an outcome rests on
def Backed (C : Crypto) (past : List (Ev AgentSig)) (asked : Option ApprovalRequest) :
    ServeResult → Prop
  | .ok (.session s) => asked = some (approvalRequest C s.viewer) ∧
      Consented past (approvalRequest C s.viewer)
  | .ok .viewerLeft => asked = none
  | _ => True

structure Returned (C : Crypto) (once : Bool) (cfg : HostConfig) (outcome : ServeResult)
    (shown : OneTimeCode) (asked : Option ApprovalRequest) (renewed : Bool)
    (past : List (Ev AgentSig)) : Prop where
  title : (said past).head? = some (Line.id cfg.hostId).text
  fresh : once = true → Line.disconnected.text ∉ said past
  screen : OnScreen past (.served shown asked renewed)
  named : ∀ req ∈ asked, Named req.viewerName req.viewerKeyFingerprint
  backed : Backed C past asked outcome

theorem disconnected_not_mem {base : List (Ev AgentSig)} {line : Line}
    (h : Line.disconnected.text ∉ said base) (hline : line ≠ .disconnected) :
    Line.disconnected.text ∉ said base ++ [line.text] := by
  intro hmem
  rcases List.mem_append.mp hmem with hmem | hmem
  · exact h hmem
  · refine Line.ne_of_mark ?_ (List.mem_singleton.mp hmem)
    cases line <;> first | exact absurd rfl hline | simp [Line.mark]

theorem Carried.returned {base : List (Ev AgentSig)} {up : List (Ev HostSig)} {approver : Approver}
    {st st' : HostState} {fuel : Nat} {outcome : ServeResult} (hbase : Idle once cfg st.code base)
    (h : Carried base up approver past) (hexec : Exec (serveNext C cfg st fuel) up (outcome, st')) :
    current past = some ⟨st'.code, false⟩ ∧ (outcome = .ok .viewerLeft → st'.code = st.code) ∧
      ∃ asked, Returned C once cfg outcome st.code asked false past := by
  obtain ⟨since, rfl, hserved, hrelays⟩ := h
  refine ⟨?_, ?_, ?_⟩
  · rw [current_append, hserved, after_filter, hbase.current]
    exact (serveNext_served hexec).current
  · rintro rfl
    rw [(serveNext_left hexec).1]
  · have hmany {s : HostSession} (hs : outcome = .ok (.session s)) :
        (approvalRequest C s.viewer, some true) ∈ asked up := by
      subst hs
      obtain ⟨k, hk⟩ := serveNext_granted hexec
      rw [hk]
      exact List.mem_append_right _ (List.mem_singleton.mpr rfl)
    generalize approver.askedAt = shown at hrelays
    cases hrelays with
    | unasked hup hsaid =>
        have hsame : said (base ++ since) = said base := by rw [said_append, hsaid, List.append_nil]
        refine ⟨none, head_said hbase.title, hsame ▸ hbase.fresh, onScreen_said hbase.screen hsame,
          nofun, ?_⟩
        rcases outcome with e | (s | f | _)
        · trivial
        · have hmem := hmany rfl
          rw [hup] at hmem
          cases hmem
        · trivial
        · rfl
    | asked before after hnamed hne hup hsince hbefore hafter hyes =>
        rename_i req askedAt
        have hsaid : said since = [(Line.approve req).text] := by
          rw [hsince, said_append, hbefore]
          exact congrArg (List.cons _) hafter
        have hmore : said (base ++ since) = said base ++ [(Line.approve req).text] := by
          rw [said_append, hsaid]
        refine ⟨some req, head_said hbase.title, fun honce => ?_, ?_, ?_, ?_⟩
        · rw [hmore]
          exact disconnected_not_mem (hbase.fresh honce) nofun
        · exact hbase.screen.print hmore hnamed rfl
        · rintro req' hreq
          rw [← Option.some.inj hreq]
          exact hnamed
        · rcases outcome with e | (s | f | _)
          · trivial
          · have hmem := hmany rfl
            obtain rfl : approvalRequest C s.viewer = req := hup _ hmem
            refine ⟨rfl, base ++ before, askedAt, after, ?_, fun text htext => ?_, hyes hmem⟩
            · rw [hsince, List.append_assoc]
            · rw [hafter] at htext
              cases htext
          · trivial
          · exact absurd (serveNext_left hexec).2 hne

theorem code_ne_question (code : OneTimeCode) (req : ApprovalRequest) :
    (Line.code code).text ≠ question req := by
  have hne : (Line.code code).text ≠ (Line.approve req).text :=
    Line.ne_of_mark (by simp [Line.mark])
  exact hne

theorem Returned.renew {outcome : ServeResult} {shown code : OneTimeCode}
    {asked : Option ApprovalRequest} (h : Returned C once cfg outcome shown asked false past)
    (hne : code ≠ shown) :
    Returned C once cfg outcome code asked true (past ++ [printed (.code code)]) where
  title := head_said h.title
  fresh honce := by
    rw [said_printed]
    exact disconnected_not_mem (h.fresh honce) nofun
  screen := h.screen.print (said_printed past _) trivial (Screen.served_code hne asked)
  named := h.named
  backed := by
    have hbacked := h.backed
    rcases outcome with e | (s | f | _)
    · trivial
    · refine ⟨hbacked.1, hbacked.2.append fun text htext req => ?_⟩
      obtain rfl : text = (Line.code code).text := List.mem_singleton.mp htext
      exact code_ne_question code req
    · trivial
    · exact hbacked

-- how the console part of the program ends
inductive Ended (once : Bool) : List (Ev AgentSig) → ExitCode → Prop
  | served (before : List (Ev AgentSig)) (honce : once = true) :
      Ended once (before ++ [printed .disconnected]) .success
  | lost (before : List (Ev AgentSig)) (e : HostError) (honce : once = true) :
      Ended once (before ++ [printed .disconnected, ⟨.eprintln (.session e), ()⟩]) .failure
  | cut (before : List (Ev AgentSig)) (e : HostError) :
      Ended once (before ++ [⟨.eprintln (.server e), ()⟩]) .failure

structure InSession (cfg : HostConfig) (code : OneTimeCode) (past : List (Ev AgentSig)) : Prop where
  title : (said past).head? = some (Line.id cfg.hostId).text
  screen : OnScreen past (.session code)
  current : current past = some ⟨code, false⟩

section
variable {code : OneTimeCode} {again : AgentM ExitCode}

theorem InSession.finished (h : InSession cfg code past) (honce : once = false)
    (tr : List (Ev AgentSig)) (hsaid : said tr = []) (hserved : served tr = []) :
    Idle once cfg code ((past ++ [printed .disconnected]) ++ tr) where
  title := head_said (head_said h.title)
  screen := by
    have hafter : OnScreen (past ++ [printed .disconnected]) (.idle code) :=
      h.screen.print (said_printed past _) trivial rfl
    exact onScreen_said hafter (by rw [said_append _ tr, hsaid, List.append_nil])
  current := by
    rw [current_said tr hserved, current_said [printed .disconnected] rfl]
    exact h.current
  fresh hyes := by
    rw [honce] at hyes
    cases hyes

theorem finishSession_wp (h : InSession cfg code past) (served : Except HostError Unit)
    (hagain : ∀ past, Idle once cfg code past → again.wp (.history (Fine C once)) (Ended once) past) :
    (finishSession once again served).wp (.history (Fine C once)) (Ended once) past := by
  refine ⟨⟨_, .disconnected, _, h.screen, rfl, trivial, rfl, trivial⟩, fun _ _ => ?_⟩
  cases served with
  | error e =>
      refine ⟨trivial, fun _ _ => ?_⟩
      cases once with
      | true =>
          have hends := Ended.lost past e rfl
          rw [List.append_cons past] at hends
          exact hends
      | false => exact hagain _ (h.finished rfl [⟨.eprintln (.session e), ()⟩] rfl rfl)
  | ok u =>
      cases once with
      | true => exact .served past rfl
      | false =>
          have hnext : Idle false cfg code _ := h.finished rfl [] rfl rfl
          rw [List.append_nil] at hnext
          exact hagain _ hnext

-- calls that neither show anything nor change the code
theorem wp_serving {α : Type} {p : HostM α} {P : Op HostToServer → Prop} (hp : p.Uses P)
    (hcall : ∀ o, P o → o.isApprove = false ∧ o.isResponse = false ∧
      ∀ r, Current.still ⟨o, r⟩ = true) (fuel : Nat) (approver : Approver) :
    (p.handle (serveCall fuel) approver).wp (.history (Fine C once))
      (fun past' _ => said past' = said past ∧ current past' = current past) past := by
  induction p generalizing past with
  | ret a => exact ⟨rfl, rfl⟩
  | halt => trivial
  | act o k ih =>
      obtain ⟨happrove, hresponse, hstill⟩ := hcall o hp.1
      rw [Prog.handle, serveCall_other happrove]
      refine ⟨?_, fun r _ => Prog.wp_mono (ih r (hp.2 r)) fun past' _ h => ?_⟩
      · cases o <;> trivial
      · refine ⟨h.1.trans ?_, h.2.trans ?_⟩
        · exact (said_append past _).trans (List.append_nil _)
        · exact (current_append past _).trans (Current.next_still (hstill r))

theorem of_pongs (o : Op HostToServer) (h : HostSession.Pongs o) :
    o.isApprove = false ∧ o.isResponse = false ∧ ∀ r, Current.still ⟨o, r⟩ = true := by
  refine ⟨?_, ?_, fun r => HostSession.still_of_pongs h r⟩
  · cases o <;> first | rfl | cases h
  · cases o <;> first | rfl | cases h

theorem serveSession_wp {session : HostSession} {renewed : Bool}
    (h : Returned C once cfg (.ok (.session session)) code (some (approvalRequest C session.viewer))
      renewed past) (hcurrent : current past = some ⟨code, false⟩) (fuel : Nat) (approver : Approver)
    (hagain : ∀ past, Idle once cfg code past → again.wp (.history (Fine C once)) (Ended once) past) :
    (serveSession C fuel once approver session again).wp (.history (Fine C once)) (Ended once)
      past := by
  let line : Line := .connected session.viewer.name (keyFingerprint C session.viewer.deviceKey)
  have hformed : line.Formed := h.named _ rfl
  have hnext := Screen.served_connected code session.viewer.name
    (keyFingerprint C session.viewer.deviceKey) renewed
  refine ⟨⟨_, line, _, h.screen, rfl, hformed, hnext, h.backed.2, h.fresh⟩, fun _ _ => ?_⟩
  have hconnected := h.screen.print (said_printed past line) hformed hnext
  change (_ >>= fun r : (Except HostError Unit × HostSession) × Approver =>
    finishSession once again r.1.1).wp _ _ (past ++ [printed line])
  have hserving := HostSession.servePings_uses fuel SESSION_LIMIT session
  refine wp_bind.mpr (Prog.wp_mono (wp_serving hserving of_pongs fuel approver) fun past' r hr =>
    finishSession_wp ?_ r.1.1 hagain)
  obtain ⟨hsaid, hsame⟩ := hr
  refine ⟨?_, onScreen_said hconnected hsaid, hsame.trans ?_⟩
  · rw [hsaid]
    exact head_said h.title
  · exact (current_append past _).trans hcurrent

theorem report_wp {outcome : ServeResult} {asked : Option ApprovalRequest} {renewed : Bool}
    (h : Returned C once cfg outcome code asked renewed past)
    (hcurrent : current past = some ⟨code, false⟩)
    (hleft : outcome = .ok .viewerLeft → renewed = false) (fuel : Nat) (approver : Approver)
    (hagain : ∀ past, Idle once cfg code past → again.wp (.history (Fine C once)) (Ended once) past) :
    (report C fuel once approver outcome again).wp (.history (Fine C once)) (Ended once) past := by
  rcases outcome with e | (s | f | _)
  · exact ⟨trivial, fun _ _ => .cut past e⟩
  · obtain rfl := h.backed.1
    exact serveSession_wp h hcurrent fuel approver hagain
  · have hnext := Screen.served_attempt code asked renewed f
    refine ⟨⟨_, .attempt f, _, h.screen, rfl, trivial, hnext, trivial⟩, fun _ _ => hagain _ ?_⟩
    refine ⟨head_said h.title, h.screen.print (said_printed past _) trivial hnext, ?_, fun honce => ?_⟩
    · exact (current_append past _).trans hcurrent
    · have hother : Line.attempt f ≠ .disconnected := nofun
      have hfresh := disconnected_not_mem (h.fresh honce) hother
      rw [← said_printed] at hfresh
      exact hfresh
  · obtain rfl : asked = none := h.backed
    obtain rfl := hleft rfl
    exact hagain _ ⟨h.title, h.screen, hcurrent, h.fresh⟩

end

theorem serveLoop_wp {fuel n : Nat} {st : HostState} {approver : Approver}
    (h : Idle once cfg st.code past) (hnone : approver.askedAt = none) :
    (serveLoop C fuel cfg once n st st.code approver).wp (.history (Fine C once)) (Ended once)
      past := by
  induction n generalizing past st approver with
  | zero => trivial
  | succ n ih =>
      refine wp_bind.mpr (Prog.wp_mono (serveNext_wp h hnone) fun past' r hr => ?_)
      obtain ⟨⟨outcome, st'⟩, approver'⟩ := r
      obtain ⟨up, hexec, hcarried⟩ := hr
      obtain ⟨hcurrent, hleft, asked, hreturned⟩ := hcarried.returned h hexec
      have hagain (past : List (Ev AgentSig)) (h : Idle once cfg st'.code past) :
          (serveLoop C fuel cfg once n st' st'.code approver'.endQuestion).wp
            (.history (Fine C once)) (Ended once) past := ih h rfl
      dsimp only
      split
      · rename_i hne
        refine ⟨⟨_, .code st'.code, _, hreturned.screen, rfl, trivial, Screen.served_code hne asked,
          hcurrent⟩, fun _ _ => report_wp (hreturned.renew hne) ?_ ?_ fuel _ hagain⟩
        · exact (current_append past' _).trans hcurrent
        · exact fun houtcome => absurd (hleft houtcome) hne
      · rename_i hsame
        have hsame := not_not.mp hsame
        rw [← hsame] at hreturned ⊢
        exact report_wp hreturned hcurrent (fun _ => rfl) fuel _ hagain

theorem serve_wp {fuel : Nat} (hid : Register.isHostId cfg.hostId = true) (hsaid : said past = []) :
    (serve C fuel cfg once).wp (.history (Fine C once)) (Ended once) past := by
  refine ⟨trivial, fun code _ => ?_⟩
  let drawn : List (Ev AgentSig) := past ++ [⟨.serve .generateCode, code⟩]
  have hnothing : said drawn = [] := by rw [said_append, hsaid]; rfl
  have hblank : OnScreen drawn .blank := ⟨[], hnothing, nofun, rfl⟩
  have htitled : OnScreen (drawn ++ [printed (.id cfg.hostId)]) .titled :=
    hblank.print (said_printed drawn _) hid rfl
  have hcurrent : current (drawn ++ [printed (.id cfg.hostId)]) = some ⟨code, false⟩ := by
    rw [current_said _ rfl, current_append]
    rfl
  have hlines : said (drawn ++ [printed (.id cfg.hostId)] ++ [printed (.code code)]) =
      [(Line.id cfg.hostId).text, (Line.code code).text] := by
    rw [said_printed, said_printed, hnothing]
    rfl
  refine ⟨⟨_, .id cfg.hostId, _, hblank, rfl, hid, rfl, trivial⟩, fun _ _ => ?_⟩
  refine ⟨⟨_, .code code, _, htitled, rfl, trivial, rfl, hcurrent⟩, fun _ _ => ?_⟩
  have hidle : Idle once cfg (HostState.new code).code
      (drawn ++ [printed (.id cfg.hostId)] ++ [printed (.code code)]) := by
    refine ⟨?_, htitled.print (said_printed _ _) trivial rfl, ?_, fun _ hmem => ?_⟩
    · rw [hlines]
      rfl
    · rw [current_said _ rfl, hcurrent]
      rfl
    · rw [hlines] at hmem
      rcases List.mem_cons.mp hmem with hmem | hmem
      · exact Line.ne_of_mark (by simp [Line.mark]) hmem
      · exact Line.ne_of_mark (by simp [Line.mark]) (List.mem_singleton.mp hmem)
  exact serveLoop_wp hidle rfl

-- whether the program is to serve one session only
def onceOf (args : List Text) : Bool := ((parseArgs args).map Args.once).getD false

inductive Exited (args : List Text) : List (Ev AgentSig) → ExitCode → Prop
  | usage (hargs : parseArgs args = none) : Exited args [⟨.eprintln .usage, ()⟩] .usage
  | name {a : Args} {e : AuthError} (hargs : parseArgs args = some a)
      (hname : checkDeviceName a.name = .error e) : Exited args [⟨.eprintln .name, ()⟩] .usage
  | unregistered {before : List (Ev AgentSig)} {e : RegisterError} (hsaid : said before = []) :
      Exited args (before ++ [⟨.eprintln (.registration e), ()⟩]) .failure
  | ended {tr : List (Ev AgentSig)} {code : ExitCode} (h : Ended (onceOf args) tr code) :
      Exited args tr code

def onRegister (e : Ev RegisterSig) : Ev AgentSig := ⟨.register e.op, e.res⟩

theorem said_onRegister (tr : List (Ev RegisterSig)) : said (tr.map onRegister) = [] := by
  refine List.filterMap_eq_nil_iff.mpr fun e he => ?_
  obtain ⟨e', -, rfl⟩ := List.mem_map.mp he
  rfl

theorem wp_register {α : Type} {p : RegisterM α} :
    (p.handle registerCall ()).wp (.history (Fine C once))
      (fun past' r => ∃ tr, Exec p tr r.1 ∧ past' = past ++ tr.map onRegister) past := by
  have hp : p.wp (.history fun _ _ => True) (fun tr a => Exec p tr a) [] :=
    wp_history (fun _ _ _ _ => trivial) fun tr a h => h
  refine wp_forward (f := onRegister) (fun tr o _ => ?_) hp
  exact ⟨trivial, fun _ _ => rfl⟩

theorem registerHost_nineDigits {server : Text} {keys : DeviceKeys} {hostId : Text}
    {tr : List (Ev RegisterSig)} (h : Exec (registerHost C server keys none) tr (.ok hostId)) :
    Register.isHostId hostId = true := by
  obtain ⟨c, ⟨hr⟩⟩ := Register.registerHost_reached h (.inr ⟨_, rfl, trivial⟩)
  rw [(hr.result hostId rfl).1]
  exact c.nineDigits

theorem start_wp {args : List Text} {a : Args} {keys : DeviceKeys} {fuel : Nat}
    (hargs : parseArgs args = some a) (hsaid : said past = []) :
    (start C fuel a keys).wp (.history (Fine C (onceOf args))) (Exited args) past := by
  refine wp_bind.mpr (Prog.wp_mono wp_register fun past' r hr => ?_)
  obtain ⟨registered, u⟩ := r
  obtain ⟨tr, hexec, rfl⟩ := hr
  have hnothing : said (past ++ tr.map onRegister) = [] := by
    rw [said_append, hsaid, said_onRegister]
    rfl
  cases registered with
  | error e => exact ⟨trivial, fun _ _ => .unregistered hnothing⟩
  | ok hostId =>
      have honce : onceOf args = a.once := by rw [onceOf, hargs]; rfl
      refine ⟨trivial, fun ips _ => ?_⟩
      rw [honce]
      refine Prog.wp_mono (serve_wp (registerHost_nineDigits hexec) ?_) fun tr code h => ?_
      · exact (said_append _ [⟨.localIps, ips⟩]).trans ((List.append_nil _).trans hnothing)
      · exact .ended (honce ▸ h)

theorem main_wp (C : Crypto) (fuel : Nat) (args : List Text) :
    (main C fuel args).wp (.history (Fine C (onceOf args))) (Exited args) [] := by
  rw [main]
  split
  · rename_i hargs
    exact ⟨trivial, fun _ _ => .usage hargs⟩
  · rename_i a hargs
    rw [DeviceKeys.generate]
    split
    · rename_i e hname
      exact ⟨trivial, fun _ _ => .name hargs hname⟩
    · exact ⟨trivial, fun _ _ => start_wp hargs rfl⟩

theorem onScreen_of_fine {tr : List (Ev AgentSig)}
    (h : ∀ pre e post, tr = pre ++ e :: post → Fine C once pre e.op) : ∃ s, OnScreen tr s := by
  induction tr using List.reverseRecOn with
  | nil => exact ⟨.blank, [], rfl, nofun, rfl⟩
  | append_singleton tr e ih =>
      obtain ⟨s, hs⟩ := ih fun pre e' post htr => h pre e' (post ++ [e]) (by simp [htr])
      have hlast := h tr e [] rfl
      have same (hsaid : said [e] = []) : ∃ s, OnScreen (tr ++ [e]) s :=
        ⟨s, onScreen_said hs (by rw [said_append, hsaid, List.append_nil])⟩
      obtain ⟨o, r⟩ := e
      cases o with
      | console o =>
          cases o with
          | say text =>
              obtain ⟨s, line, s', hs, rfl, hformed, hnext, -⟩ := hlast
              exact ⟨s', hs.print (said_append _ _) hformed hnext⟩
          | _ => exact same rfl
      | _ => exact same rfl

-- the standard output as bytes would be read: every line ends with a newline
def stdout (tr : List (Ev AgentSig)) : Text := (said tr).flatMap (· ++ ['\n'])

def codeAfter (shown : Option OneTimeCode) : Line → Option OneTimeCode
  | .code code => some code
  | _ => shown

-- the code of the last `CODE` line
def lastCode (ls : List Line) : Option OneTimeCode := ls.foldl codeAfter none

theorem shown_next {s s' : Screen} {l : Line} (h : s.next l = some s') :
    s'.shown = codeAfter s.shown l := by
  unfold Screen.next at h
  split at h <;> (try split at h) <;> first | (obtain rfl := Option.some.inj h; rfl) | cases h

theorem shown_run {ls : List Line} {s s' : Screen} (h : ls.foldlM Screen.next s = some s') :
    s'.shown = ls.foldl codeAfter s.shown := by
  induction ls generalizing s with
  | nil =>
      obtain rfl := Option.some.inj h
      rfl
  | cons l ls ih =>
      obtain ⟨t, ht, hrest⟩ := Option.bind_eq_some_iff.mp h
      rw [List.foldl_cons, ← shown_next ht]
      exact ih hrest

end

def sampleArgs : List Text :=
  ["--server".toList, "wss://s".toList, "--name".toList, "h".toList, "--once".toList]

def sampleId : Text := "123456789".toList

def sampleHost : DeviceKeys := .sample 3 'h' host_name

def onServe (e : Ev HostSig) : Ev AgentSig := ⟨.serve e.op, e.res⟩

def sampleCode : OneTimeCode := ⟨"111111".toList, by decide, List.all_eq_true.mp (by decide)⟩

def sampleViewer : PeerIdentity := (DeviceKeys.sample 9 'v' viewer_name).identity .sample

def sampleBegun : List (Ev AgentSig) :=
  [⟨.random, (filled 32 3, filled 32 4)⟩,
    ⟨.register (.connect (Register.urlFor .sample "wss://s".toList sampleHost none)), .ok ()⟩,
    ⟨.register (.recv Register.STEP), .ok (some (.challenge (hexEncode (filled 32 1).val) sampleId))⟩,
    ⟨.register (.send (Register.authFor .sample sampleHost (filled 32 1).val sampleId)), .ok ()⟩,
    ⟨.register (.recv Register.STEP), .ok (some (.registered sampleId))⟩, ⟨.localIps, []⟩,
    ⟨.serve .generateCode, .sample⟩, printed (.id sampleId), printed (.code .sample),
    onServe (viewerJoined .sample), ⟨.serve .now, 10⟩, onServe (relayed (.start [4]))]

def sampleAnswered : List (Ev AgentSig) :=
  [⟨.finish ⟨0⟩ [4], .ok sampleOutput⟩, ⟨.now, 10⟩, relays (.reply [6] (filled 32 5).val),
    relayed (.confirm (filled 32 8).val (sampleSealed sampleKeys.viewerToHost labelV2h)),
    ⟨.verifyPeerConfirmation sampleOutput (filled 32 8), .ok ()⟩,
    ⟨.peerNew [LOCALHOST], .ok ()⟩, ⟨.acceptOffer ['s'], .ok ['s']⟩,
    relays (.answer (sampleSealed sampleKeys.hostToViewer labelH2v)),
    ⟨.now, 12⟩, ⟨.now, 12⟩, ⟨.poll (Duration.fromSecs 10), .ok [.channelOpen]⟩,
    ⟨.localFingerprint, [1]⟩, ⟨.remoteFingerprint, some [2]⟩,
    ⟨.peerSend (Control.encode (.hello (hostHello .sample .sample sampleKeys [1] [2]))), .ok ()⟩,
    ⟨.now, 13⟩, ⟨.now, 13⟩,
    ⟨.poll (Duration.fromSecs 15), .ok [.data (Control.encode (.hello sampleHello))]⟩,
    ⟨.now, 14⟩].map onServe

def sampleConsent : List (Ev AgentSig) :=
  [printed (.approve (approvalRequest .sample sampleViewer)), ⟨.console .now, 14⟩,
    ⟨.console .ask, .ok ()⟩, ⟨.console .tryRecv, .ok (16, some "y\n".toList)⟩,
    ⟨.serve (.peerSend (Control.encode (.decision .accepted))), .ok ()⟩,
    ⟨.serve .generateCode, sampleCode⟩, printed (.code sampleCode)]

def sampleEnd : List (Ev AgentSig) :=
  [⟨.serve .now, 20⟩, ⟨.serve .now, 21⟩,
    ⟨.serve (.poll (Duration.fromSecs 3600 - 1)), .ok [.data (Control.encode (.ping 5)), .closed]⟩,
    ⟨.serve (.peerSend (Control.encode (.pong 5))), .ok ()⟩, printed .disconnected]

def sampleStarts : Ev AgentSig :=
  ⟨.serve (.partyBStart (fromBe (CODE_CONTEXT ++ utf8 OneTimeCode.sample.digits)) VIEWER_ID
    (hostIdBytes sampleId) AAD), .ok ([6], ⟨0⟩)⟩

def sampleShown : Ev AgentSig :=
  printed (.connected sampleViewer.name (keyFingerprint .sample sampleViewer.deviceKey))

def sampleRun : List (Ev AgentSig) :=
  sampleBegun ++ sampleStarts :: (sampleAnswered ++ sampleConsent ++ sampleShown :: sampleEnd)

theorem sample_run : Exec (main .sample 6 sampleArgs) sampleRun .success :=
  exec_of_replay (by decide +kernel)

section
variable {fuel : Nat} {args : List Text} {tr : List (Ev AgentSig)} {q : AgentM ExitCode}

theorem main_fine {C : Crypto} (h : Path (main C fuel args) tr q) :
    (∀ pre e post, tr = pre ++ e :: post → Fine C (onceOf args) pre e.op) ∧
      ∀ code, q = .ret code → Exited args tr code :=
  history_path (main_wp C fuel args) h

-- the output is a list of lines that the screen takes, read in one way, however far the run is
theorem main_screen (C : Crypto) (h : Path (main C fuel args) tr q) :
    (∃ ls s, said tr = ls.map Line.text ∧ (∀ l ∈ ls, l.Formed) ∧
      ls.foldlM Screen.next .blank = some s ∧
      ∀ ls' : List Line, (∀ l ∈ ls', l.Formed) →
        stdout tr = ls'.flatMap (fun l => l.text ++ ['\n']) → ls' = ls) ∧
    ∀ code, q = .ret code → Exited args tr code := by
  obtain ⟨hfine, hexited⟩ := main_fine h
  obtain ⟨s, ls, hls, hformed, hrun⟩ := onScreen_of_fine hfine
  refine ⟨⟨ls, s, hls, hformed, hrun, fun ls' hformed' hout => ?_⟩, hexited⟩
  refine Line.texts_inj hformed' hformed (hout.symm.trans ?_)
  rw [stdout, hls, List.flatMap_map]

theorem sample_main_screen : (∃ (ls : List Line) (s : Screen), said sampleRun = ls.map Line.text ∧
    ls.foldlM Screen.next .blank = some s) ∧ Exited sampleArgs sampleRun .success := by
  obtain ⟨⟨ls, s, hls, -, hrun, -⟩, hexited⟩ := main_screen .sample sample_run
  exact ⟨⟨ls, s, hls, hrun⟩, hexited _ rfl⟩

-- SPAKE2 runs with the id and the last code of the output, a code that has let nobody in
theorem main_code (C : Crypto) {pre post : List (Ev AgentSig)} {w : Nat} {idA idB aad : Bytes}
    {r : AgentSig.Res (.serve (.partyBStart w idA idB aad))}
    (h : Path (main C fuel args) (pre ++ ⟨.serve (.partyBStart w idA idB aad), r⟩ :: post) q) :
    ∃ hostId ls code, said pre = (Line.id hostId :: ls).map Line.text ∧
      (∀ l ∈ Line.id hostId :: ls, l.Formed) ∧ lastCode ls = some code ∧
      current pre = some ⟨code, false⟩ ∧ codeScalar C code = .ok w ∧ idA = VIEWER_ID ∧
      idB = hostIdBytes hostId ∧ aad = AAD := by
  obtain ⟨hostId, s, code, htitle, ⟨ls, hls, hformed, hrun⟩, hshown, hcurrent, hstarts⟩ :=
    (main_fine h).1 pre _ post rfl
  have hlast := (shown_run hrun).symm.trans hshown
  cases ls with
  | nil => cases hlast
  | cons l ls =>
      obtain ⟨t, ht, -⟩ := Option.bind_eq_some_iff.mp hrun
      cases l with
      | id hostId' =>
          rw [hls] at htitle
          have hsame : "ID ".toList ++ hostId' = "ID ".toList ++ hostId := Option.some.inj htitle
          obtain rfl : hostId' = hostId := List.append_cancel_left hsame
          exact ⟨hostId', ls, code, hls, hformed, hlast, hcurrent, hstarts⟩
      | _ => cases ht

theorem sample_main_code : ∃ (hostId : Text) (ls : List Line) (code : OneTimeCode),
    said sampleBegun = (Line.id hostId :: ls).map Line.text ∧ lastCode ls = some code ∧
      current sampleBegun = some ⟨code, false⟩ := by
  obtain ⟨hostId, ls, code, hls, -, hlast, hcurrent, -⟩ := main_code .sample sample_run
  exact ⟨hostId, ls, code, hls, hlast, hcurrent⟩

theorem mark_connected {l : Line} (h : "CONNECTED ".toList <+: l.text) :
    ∃ name fingerprint, l = .connected name fingerprint := by
  obtain ⟨rest, hrest⟩ := h
  have hmark : l.mark = 'N' := by
    refine Option.some.inj ((Line.text_mark l).symm.trans ?_)
    rw [← hrest]
    rfl
  cases l with
  | connected name fingerprint => exact ⟨name, fingerprint, rfl⟩
  | _ => simp [Line.mark] at hmark

-- nobody is shown as connected but the one that the person answered yes for, and with `--once`
-- nobody was before
theorem main_consent (C : Crypto) {pre post : List (Ev AgentSig)} {text : Text} {u : Unit}
    (h : Path (main C fuel args) (pre ++ ⟨.console (.say text), u⟩ :: post) q)
    (htext : "CONNECTED ".toList <+: text) :
    ∃ name fingerprint, text = (Line.connected name fingerprint).text ∧ Named name fingerprint ∧
      Consented pre ⟨name, fingerprint⟩ ∧
      (onceOf args = true → Line.disconnected.text ∉ said pre ∧
        ∀ earlier ∈ said pre, ¬ "CONNECTED ".toList <+: earlier) := by
  obtain ⟨s, line, s', hscreen, rfl, hformed, hnext, hwarranted⟩ := (main_fine h).1 pre _ post rfl
  obtain ⟨name, fingerprint, rfl⟩ := mark_connected htext
  refine ⟨name, fingerprint, rfl, hformed, hwarranted.1, fun honce => ?_⟩
  have hfresh := hwarranted.2 honce
  refine ⟨hfresh, fun earlier hmem hconnected => ?_⟩
  obtain ⟨ls, hls, -, hrun⟩ := hscreen
  rw [hls] at hmem hfresh
  obtain ⟨l, hl, rfl⟩ := List.mem_map.mp hmem
  obtain ⟨name', fingerprint', rfl⟩ := mark_connected hconnected
  have hidle : s.inSession = false := by
    cases s with
    | session shown => cases Screen.next_session hnext
    | _ => rfl
  exact hfresh (List.mem_map_of_mem (Screen.run_connected hrun hidle (.inr hl)))

theorem sample_main_consent : (∃ name fingerprint : Text,
    Consented (sampleBegun ++ sampleStarts :: (sampleAnswered ++ sampleConsent)) ⟨name, fingerprint⟩) ∧
    ∀ earlier ∈ said (sampleBegun ++ sampleStarts :: (sampleAnswered ++ sampleConsent)),
      ¬ "CONNECTED ".toList <+: earlier := by
  have hrun : Exec (main .sample 6 sampleArgs)
      ((sampleBegun ++ sampleStarts :: (sampleAnswered ++ sampleConsent)) ++ sampleShown :: sampleEnd)
      .success := by
    rw [List.append_assoc]
    exact sample_run
  obtain ⟨name, fingerprint, -, -, hconsented, hfirst⟩ := main_consent .sample hrun ⟨_, rfl⟩
  exact ⟨⟨name, fingerprint, hconsented⟩, (hfirst (by decide)).2⟩

end

end Agent

end SimpleRemote
