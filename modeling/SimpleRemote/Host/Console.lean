import SimpleRemote.Host.Conduct
import SimpleRemote.Host.Screen

namespace SimpleRemote
open ByteCodec Interaction

namespace Approver
variable {allow : List (Ev AskSig) → AskOp → Prop} {askedAt : Instant}

def silent (o : AskOp) : Prop := ∀ text, o ≠ .say text

theorem silent_now : silent .now := nofun

theorem silent_ask : silent .ask := nofun

theorem silent_tryRecv : silent .tryRecv := nofun

-- a yes that the reader thread stamped at or after `askedAt`
def Consents (askedAt : Instant) (e : Ev AskSig) : Prop :=
  ∃ at_ line, e = ⟨.tryRecv, .ok (at_, some line)⟩ ∧ askedAt ≤ at_ ∧ saysYes line = true

-- how a call of `answer` goes on once the question is shown
structure Answering (askedAt : Instant) (shown : Option Instant) (past tr : List (Ev AskSig))
    (r : Option Bool × Approver) : Prop where
  rest : ∃ rest, tr = past ++ rest ∧ (∀ e ∈ rest, silent e.op) ∧
    (r.1 = some true → ∃ e ∈ rest, Consents askedAt e)
  shown : r.2.askedAt = shown

theorem Answering.cons {shown : Option Instant} {past tr : List (Ev AskSig)} {e : Ev AskSig}
    {r : Option Bool × Approver} (h : Answering askedAt shown (past ++ [e]) tr r)
    (he : silent e.op) : Answering askedAt shown past tr r := by
  obtain ⟨⟨rest, rfl, hsilent, hyes⟩, hshown⟩ := h
  refine ⟨⟨e :: rest, by simp, List.forall_mem_cons.mpr ⟨he, hsilent⟩, fun hr => ?_⟩, hshown⟩
  obtain ⟨e', he', hconsents⟩ := hyes hr
  exact ⟨e', List.mem_cons_of_mem e he', hconsents⟩

theorem takeAnswer_wp (hallow : ∀ past o, silent o → allow past o)
    {again : Approver → AskM (Option Bool × Approver)} {past : List (Ev AskSig)} {ap : Approver}
    (hagain : ∀ past (ap' : Approver), ap'.askedAt = ap.askedAt →
      (again ap').wp (.history allow) (Answering askedAt ap.askedAt past) past) :
    (takeAnswer askedAt again ap).wp (.history allow) (Answering askedAt ap.askedAt past) past := by
  refine ⟨hallow _ _ silent_tryRecv, fun r _ => ?_⟩
  have hone (r : AskOp.Res .tryRecv) : ∀ e ∈ [(⟨.tryRecv, r⟩ : Ev AskSig)], silent e.op := by
    intro e he
    rw [List.mem_singleton.mp he]
    exact silent_tryRecv
  rcases r with e | ⟨at_, line⟩
  · cases e <;> exact ⟨⟨_, rfl, hone _, nofun⟩, rfl⟩
  · dsimp only [Prog.bind]
    split
    · refine Prog.wp_mono (hagain _ _ rfl) fun tr r h => ?_
      exact h.cons silent_tryRecv
    · rename_i hlate
      refine ⟨⟨_, rfl, hone _, fun hyes => ?_⟩, rfl⟩
      obtain ⟨text, rfl, htext⟩ := (Option.any_eq_true _ _).mp (Option.some.inj hyes)
      exact ⟨_, List.mem_singleton.mpr rfl, at_, text, rfl, Nat.le_of_not_lt hlate, htext⟩

theorem answerLoop_wp (hallow : ∀ past o, silent o → allow past o) (fuel : Nat)
    (past : List (Ev AskSig)) (ap : Approver) :
    (answerLoop askedAt fuel ap).wp (.history allow) (Answering askedAt ap.askedAt past) past := by
  induction fuel generalizing past ap with
  | zero => trivial
  | succ fuel ih =>
      have hagain (ap : Approver) (past : List (Ev AskSig)) (ap' : Approver)
          (h : ap'.askedAt = ap.askedAt) : (answerLoop askedAt fuel ap').wp (.history allow)
            (Answering askedAt ap.askedAt past) past := h ▸ ih past ap'
      rw [answerLoop]
      split
      · exact takeAnswer_wp hallow (hagain ap)
      · refine ⟨hallow _ _ silent_ask, fun r _ => ?_⟩
        cases r with
        | error u =>
            refine ⟨⟨_, rfl, fun e he => ?_, fun hyes => by cases hyes⟩, rfl⟩
            rw [List.mem_singleton.mp he]
            exact silent_ask
        | ok u =>
            let reading : Approver := { ap with reading := true }
            refine Prog.wp_mono (takeAnswer_wp hallow (hagain reading)) fun tr r h => ?_
            exact h.cons silent_ask

-- one call of `answer`: the question is shown the first time only, and a yes came after it
structure Answered (req : ApprovalRequest) (ap : Approver) (tr : List (Ev AskSig))
    (r : Option Bool × Approver) : Prop where
  asked : ∃ askedAt rest, r.2.askedAt = some askedAt ∧
    (ap.askedAt = some askedAt ∧ tr = rest ∨ ap.askedAt = none ∧
      tr = ⟨.say (question req), ()⟩ :: ⟨.now, askedAt⟩ :: rest) ∧
    (∀ e ∈ rest, silent e.op) ∧ (r.1 = some true → ∃ e ∈ rest, Consents askedAt e)

theorem answer_wp (hallow : ∀ past o, silent o → allow past o) {req : ApprovalRequest}
    {ap : Approver} (hsay : ap.askedAt = none → allow [] (.say (question req))) (fuel : Nat) :
    (answer fuel req ap).wp (.history allow) (Answered req ap) [] := by
  rw [answer]
  split
  · rename_i askedAt hasked
    refine Prog.wp_mono (answerLoop_wp hallow fuel [] ap) fun tr r h => ?_
    obtain ⟨⟨rest, rfl, hsilent, hyes⟩, hshown⟩ := h
    exact ⟨askedAt, _, hshown.trans hasked, .inl ⟨hasked, rfl⟩, hsilent, hyes⟩
  · rename_i hasked
    refine ⟨hsay hasked, fun _ _ => ⟨hallow _ _ silent_now, fun askedAt _ => ?_⟩⟩
    refine Prog.wp_mono (answerLoop_wp hallow fuel _ { ap with askedAt := some askedAt })
      fun tr r h => ?_
    obtain ⟨⟨rest, rfl, hsilent, hyes⟩, hshown⟩ := h
    exact ⟨askedAt, rest, hshown, .inr ⟨hasked, rfl⟩, hsilent, hyes⟩

end Approver

namespace Agent
open Approver (question)

def saidOf : Ev AgentSig → Option Text
  | ⟨.console (.say text), _⟩ => some text
  | _ => none

def said (tr : List (Ev AgentSig)) : List Text := tr.filterMap saidOf

def servedOf : Ev AgentSig → Option (Ev HostSig)
  | ⟨.serve o, r⟩ => some ⟨o, r⟩
  | _ => none

def served (tr : List (Ev AgentSig)) : List (Ev HostSig) := tr.filterMap servedOf

-- the code that the next viewer has to know
def current (tr : List (Ev AgentSig)) : Option Current := Current.after none (served tr)

def onConsole (e : Ev AskSig) : Ev AgentSig := ⟨.console e.op, e.res⟩

def printed (line : Line) : Ev AgentSig := ⟨.console (.say line.text), ()⟩

@[simp] theorem said_append (tr tr' : List (Ev AgentSig)) : said (tr ++ tr') = said tr ++ said tr' :=
  List.filterMap_append ..

@[simp] theorem served_append (tr tr' : List (Ev AgentSig)) :
    served (tr ++ tr') = served tr ++ served tr' := List.filterMap_append ..

@[simp] theorem current_append (tr tr' : List (Ev AgentSig)) :
    current (tr ++ tr') = Current.after (current tr) (served tr') := by
  rw [current, served_append, Current.after_append]
  rfl

theorem said_onConsole {tr : List (Ev AskSig)} (h : ∀ e ∈ tr, Approver.silent e.op) :
    said (tr.map onConsole) = [] := by
  refine List.filterMap_eq_nil_iff.mpr fun e he => ?_
  obtain ⟨e', he', rfl⟩ := List.mem_map.mp he
  obtain ⟨o, r⟩ := e'
  cases o with
  | say text => exact absurd rfl (h _ he' text)
  | _ => rfl

theorem served_onConsole (tr : List (Ev AskSig)) : served (tr.map onConsole) = [] := by
  refine List.filterMap_eq_nil_iff.mpr fun e he => ?_
  obtain ⟨e', -, rfl⟩ := List.mem_map.mp he
  rfl

-- the standard output so far, read as lines
def OnScreen (tr : List (Ev AgentSig)) (s : Screen) : Prop :=
  ∃ ls : List Line, said tr = ls.map Line.text ∧ (∀ l ∈ ls, l.Formed) ∧
    ls.foldlM Screen.next .blank = some s

theorem onScreen_said {tr tr' : List (Ev AgentSig)} {s : Screen} (h : OnScreen tr s)
    (hsaid : said tr' = said tr) : OnScreen tr' s := by
  obtain ⟨ls, hls, hformed, hrun⟩ := h
  exact ⟨ls, hsaid.trans hls, hformed, hrun⟩

theorem OnScreen.print {tr tr' : List (Ev AgentSig)} {s s' : Screen} {line : Line} (h : OnScreen tr s)
    (hsaid : said tr' = said tr ++ [line.text]) (hformed : line.Formed)
    (hnext : s.next line = some s') : OnScreen tr' s' := by
  obtain ⟨ls, hls, hall, hrun⟩ := h
  refine ⟨ls ++ [line], ?_, ?_, ?_⟩
  · rw [hsaid, hls, List.map_append]
    rfl
  · intro l hl
    rcases List.mem_append.mp hl with hl | hl
    · exact hall l hl
    · rw [List.mem_singleton.mp hl]
      exact hformed
  · rw [List.foldlM_append, hrun]
    simpa using hnext

-- this question is the last one shown, and a yes to it was received that the reader thread had
-- stamped at or after `asked_at`; the line itself may have been typed earlier
def Consented (tr : List (Ev AgentSig)) (req : ApprovalRequest) : Prop :=
  ∃ before askedAt after, tr = before ++ ⟨.console (.say (question req)), ()⟩ ::
      ⟨.console .now, askedAt⟩ :: after ∧
    (∀ text ∈ said after, ∀ req', text ≠ question req') ∧
    ∃ e, onConsole e ∈ after ∧ Approver.Consents askedAt e

-- what stands behind a line that is shown
def Warranted (once : Bool) (past : List (Ev AgentSig)) : Line → Prop
  | .code code => current past = some ⟨code, false⟩
  | .connected name fingerprint => Consented past ⟨name, fingerprint⟩ ∧
      (once = true → Line.disconnected.text ∉ said past)
  | _ => True

-- a line continues the output so far, and SPAKE2 runs with what the output shows
def Fine (C : Crypto) (once : Bool) (past : List (Ev AgentSig)) : AgentOp → Prop
  | .console (.say text) => ∃ s line s', OnScreen past s ∧ text = line.text ∧ line.Formed ∧
      s.next line = some s' ∧ Warranted once past line
  | .serve (.partyBStart w idA idB aad) => ∃ hostId s code,
      (said past).head? = some (Line.id hostId).text ∧ OnScreen past s ∧ s.shown = some code ∧
      current past = some ⟨code, false⟩ ∧ codeScalar C code = .ok w ∧ idA = VIEWER_ID ∧
      idB = hostIdBytes hostId ∧ aad = AAD
  | _ => True

section
variable {C : Crypto} {once : Bool} {cfg : HostConfig}

theorem wp_console {α : Type} {allow : List (Ev AgentSig) → AgentOp → Prop} {p : AskM α}
    {Q : List (Ev AskSig) → α → Prop} {past : List (Ev AgentSig)}
    (h : p.wp (.history fun tr o => allow (past ++ tr.map onConsole) (.console o)) Q []) :
    (p.handle consoleCall ()).wp (.history allow)
      (fun past' r => ∃ tr, Q tr r.1 ∧ past' = past ++ tr.map onConsole) past := by
  refine wp_forward (f := onConsole) (fun tr o hallow => ?_) h
  exact ⟨hallow, fun _ _ => rfl⟩

-- what `serve_next` may call next, having done `up`
def Calls (C : Crypto) (cfg : HostConfig) (st : HostState) (up : List (Ev HostSig)) :
    Op HostToServer → Prop
  | .approve req => Named req.viewerName req.viewerKeyFingerprint ∧ ∀ x ∈ asked up, x.1 = req
  | .partyBStart w idA idB aad => (∀ e ∈ up, quiet e = true) ∧ asked up = [] ∧
      Starts C cfg st.code (.partyBStart w idA idB aad)
  | _ => True

theorem named_request {viewer : PeerIdentity} (h : checkDeviceName viewer.name = .ok ()) :
    Named viewer.name (keyFingerprint C viewer.deviceKey) :=
  have hformed := keyFingerprint_formed C viewer.deviceKey
  ⟨printable_of_checked h, hformed.1, hformed.2⟩

theorem polled_fst {req : ApprovalRequest} {k : Nat} {answer : Option Bool}
    {x : ApprovalRequest × Option Bool} (h : x ∈ polled req k answer) : x.1 = req := by
  rcases List.mem_append.mp h with h | h
  · rw [List.eq_of_mem_replicate h]
  · cases answer with
    | none => cases h
    | some b => rw [List.mem_singleton.mp h]

theorem serveNext_calls (st : HostState) (fuel : Nat) :
    (serveNext C cfg st fuel).wp (.history (Calls C cfg st))
      (fun up r => Exec (serveNext C cfg st fuel) up r) [] := by
  refine wp_history (fun up o k h => ?_) fun up r h => h
  rw [List.nil_append]
  cases o with
  | approve req =>
      have hlast : asked (up ++ [⟨.approve req, none⟩]) = asked up ++ [(req, none)] :=
        asked_append _ _
      rcases serveNext_asks (h.trans (.cons none (.nil _))) with hnil | ⟨viewer, n, answer, hname, hall⟩
      · rw [hlast] at hnil
        exact absurd hnil (by simp)
      · rw [hlast] at hall
        have hsame {x : ApprovalRequest × Option Bool} (hx : x ∈ asked up ++ [(req, none)]) :
            x.1 = approvalRequest C viewer := polled_fst (hall ▸ hx)
        obtain rfl : req = approvalRequest C viewer := hsame (x := (req, none)) (by simp)
        exact ⟨named_request hname, fun x hx => hsame (List.mem_append_left _ hx)⟩
  | partyBStart w idA idB aad => exact serveNext_response h
  | _ => trivial

-- what the program has done since `serve_next` was called, when that has done `up`
inductive Relays (up : List (Ev HostSig)) (since : List (Ev AgentSig)) : Option Instant → Prop
  | unasked (hup : asked up = []) (hsaid : said since = []) : Relays up since none
  | asked {req : ApprovalRequest} {askedAt : Instant} (before after : List (Ev AgentSig))
      (hnamed : Named req.viewerName req.viewerKeyFingerprint)
      (hne : asked up ≠ []) (hup : ∀ x ∈ asked up, x.1 = req)
      (hsince : since = before ++ ⟨.console (.say (question req)), ()⟩ ::
        ⟨.console .now, askedAt⟩ :: after)
      (hbefore : said before = []) (hafter : said after = [])
      (hyes : (req, some true) ∈ asked up → ∃ e, onConsole e ∈ after ∧ Approver.Consents askedAt e) :
      Relays up since (some askedAt)

def Carried (base : List (Ev AgentSig)) (up : List (Ev HostSig)) (approver : Approver)
    (past : List (Ev AgentSig)) : Prop :=
  ∃ since, past = base ++ since ∧ served since = up.filter (fun e => !e.op.isApprove) ∧
    Relays up since approver.askedAt

-- between two calls of `serve_next`
structure Idle (once : Bool) (cfg : HostConfig) (code : OneTimeCode) (past : List (Ev AgentSig)) :
    Prop where
  title : (said past).head? = some (Line.id cfg.hostId).text
  screen : OnScreen past (.idle code)
  current : current past = some ⟨code, false⟩
  fresh : once = true → Line.disconnected.text ∉ said past

theorem head_said {base since : List (Ev AgentSig)} {text : Text}
    (h : (said base).head? = some text) : (said (base ++ since)).head? = some text := by
  rw [said_append, List.head?_append, h]
  rfl

theorem after_filter (c : Option Current) (up : List (Ev HostSig)) :
    Current.after c (up.filter fun e => !e.op.isApprove) = Current.after c up := by
  induction up generalizing c with
  | nil => rfl
  | cons e up ih =>
      by_cases happrove : e.op.isApprove = true
      · have hnext : Current.next c e = c := by
          obtain ⟨o, r⟩ := e
          cases o <;> first | rfl | cases happrove
        rw [List.filter_cons_of_neg (by simpa using happrove), ih]
        exact congrArg (Current.after · up) hnext.symm
      · rw [List.filter_cons_of_pos (by simpa using happrove)]
        exact ih _

section
variable {base past : List (Ev AgentSig)} {up : List (Ev HostSig)} {approver : Approver}
  {st : HostState} {fuel : Nat}

theorem fine_silent {o : AskOp} (h : Approver.silent o) : Fine C once past (.console o) := by
  cases o with
  | say text => exact absurd rfl (h text)
  | _ => trivial

theorem fine_question (hbase : Idle once cfg st.code base) (h : Carried base up approver past)
    (hnone : approver.askedAt = none) {req : ApprovalRequest}
    (hnamed : Named req.viewerName req.viewerKeyFingerprint) :
    Fine C once past (.console (.say (question req))) := by
  obtain ⟨since, rfl, -, hrelays⟩ := h
  rw [hnone] at hrelays
  obtain ⟨-, hsaid⟩ := hrelays
  refine ⟨.idle st.code, .approve req, .round st.code (some req) false, ?_, rfl, hnamed, rfl, trivial⟩
  exact onScreen_said hbase.screen (by rw [said_append, hsaid, List.append_nil])

theorem Carried.answered {req : ApprovalRequest} (h : Carried base up approver past)
    (hnamed : Named req.viewerName req.viewerKeyFingerprint) (hsame : ∀ x ∈ asked up, x.1 = req)
    {tr : List (Ev AskSig)} {r : Option Bool × Approver}
    (hr : Approver.Answered req approver tr r) :
    Carried base (up ++ [⟨.approve req, r.1⟩]) r.2 (past ++ tr.map onConsole) := by
  obtain ⟨since, rfl, hserved, hrelays⟩ := h
  refine ⟨since ++ tr.map onConsole, List.append_assoc .., ?_, ?_⟩
  · rw [served_append, served_onConsole, hserved, List.append_nil, List.filter_append]
    exact (List.append_nil _).symm
  have hasked : asked (up ++ [⟨.approve req, r.1⟩]) = asked up ++ [(req, r.1)] := asked_append _ _
  have hne : asked (up ++ [⟨.approve req, r.1⟩]) ≠ [] := by simp [hasked]
  have hup : ∀ x ∈ asked (up ++ [⟨.approve req, r.1⟩]), x.1 = req := by
    intro x hx
    rw [hasked] at hx
    rcases List.mem_append.mp hx with hx | hx
    · exact hsame x hx
    · rw [List.mem_singleton.mp hx]
  obtain ⟨askedAt, rest, hshown, hwhen, hsilent, hyes⟩ := hr.asked
  have hafter := said_onConsole hsilent
  have hconsent (hr : r.1 = some true) : ∃ e, onConsole e ∈ rest.map onConsole ∧
      Approver.Consents askedAt e := by
    obtain ⟨e, he, hconsents⟩ := hyes hr
    exact ⟨e, List.mem_map_of_mem he, hconsents⟩
  have hlast (hmem : (req, some true) ∈ asked (up ++ [⟨.approve req, r.1⟩])) :
      (req, some true) ∈ asked up ∨ r.1 = some true := by
    rw [hasked] at hmem
    exact (List.mem_append.mp hmem).imp id fun h => (Prod.mk.inj (List.mem_singleton.mp h)).2.symm
  rw [hshown]
  rcases hwhen with ⟨hwas, rfl⟩ | ⟨hnone, rfl⟩
  · rw [hwas] at hrelays
    cases hrelays with
    | asked before after hnamed' hne' hup' hsince hbefore hafter' hyes' =>
        rename_i req'
        obtain ⟨x, hx⟩ := List.exists_mem_of_ne_nil _ hne'
        obtain rfl : req' = req := (hup' x hx).symm.trans (hsame x hx)
        refine .asked before (after ++ tr.map onConsole) hnamed hne hup ?_ hbefore ?_ ?_
        · rw [hsince]
          simp
        · rw [said_append, hafter', hafter]
          rfl
        · intro hmem
          rcases hlast hmem with hold | hnew
          · obtain ⟨e, he, hconsents⟩ := hyes' hold
            exact ⟨e, List.mem_append_left _ he, hconsents⟩
          · obtain ⟨e, he, hconsents⟩ := hconsent hnew
            exact ⟨e, List.mem_append_right _ he, hconsents⟩
  · rw [hnone] at hrelays
    obtain ⟨hunasked, hsaid⟩ := hrelays
    refine .asked since _ hnamed hne hup rfl hsaid hafter fun hmem => ?_
    rcases hlast hmem with hold | hnew
    · rw [hunasked] at hold
      cases hold
    · exact hconsent hnew

theorem Carried.served {o : Op HostToServer} (h : Carried base up approver past)
    (ho : o.isApprove = false) (r : Op.Res ServerToHost o) :
    Carried base (up ++ [⟨o, r⟩]) approver (past ++ [⟨.serve o, r⟩]) := by
  obtain ⟨since, rfl, hserved, hrelays⟩ := h
  have hasked : asked (up ++ [⟨o, r⟩]) = asked up := by
    rw [asked_append, asked_cons ho]
    exact List.append_nil _
  have hsaid : said [(⟨.serve o, r⟩ : Ev AgentSig)] = [] := rfl
  refine ⟨since ++ [⟨.serve o, r⟩], List.append_assoc .., ?_, ?_⟩
  · rw [served_append, hserved, List.filter_append, List.filter_cons_of_pos (by simp [ho])]
    rfl
  · generalize approver.askedAt = shown at hrelays ⊢
    cases hrelays with
    | unasked hup hsaid' =>
        refine .unasked (hasked.trans hup) ?_
        rw [said_append, hsaid', hsaid]
        rfl
    | asked before after hnamed hne hup hsince hbefore hafter hyes =>
        refine .asked before (after ++ [⟨.serve o, r⟩]) hnamed (hasked ▸ hne) (hasked ▸ hup) ?_ hbefore
          ?_ fun hmem => ?_
        · rw [hsince]
          simp
        · rw [said_append, hafter, hsaid]
          rfl
        · obtain ⟨e, he, hconsents⟩ := hyes (hasked ▸ hmem)
          exact ⟨e, List.mem_append_left _ he, hconsents⟩

theorem fine_response (hbase : Idle once cfg st.code base) (h : Carried base up approver past)
    {w : Nat} {idA idB aad : Bytes} (hcalls : Calls C cfg st up (.partyBStart w idA idB aad)) :
    Fine C once past (.serve (.partyBStart w idA idB aad)) := by
  obtain ⟨since, rfl, hserved, hrelays⟩ := h
  obtain ⟨hquiet, hunasked, hstarts⟩ := hcalls
  generalize approver.askedAt = shown at hrelays
  cases hrelays with
  | asked before after hnamed hne hup hsince hbefore hafter hyes => exact absurd hunasked hne
  | unasked hup hsaid =>
      refine ⟨cfg.hostId, .idle st.code, st.code, head_said hbase.title, ?_, rfl, ?_, hstarts⟩
      · exact onScreen_said hbase.screen (by rw [said_append, hsaid, List.append_nil])
      · rw [current_append, hserved, after_filter, hbase.current]
        exact Current.after_quiet hquiet

theorem serveCall_other {o : Op HostToServer} (ho : o.isApprove = false) (approver : Approver) :
    serveCall fuel o approver = (do return (← ask (.serve o), approver)) := by
  cases o <;> first | rfl | cases ho

theorem serveCall_wp (hbase : Idle once cfg st.code base) {o : Op HostToServer}
    (h : Carried base up approver past) (hcalls : Calls C cfg st up o) :
    (serveCall fuel o approver).wp (.history (Fine C once))
      (fun past' r => True ∧ Carried base (up ++ [⟨o, r.1⟩]) r.2 past') past := by
  by_cases ho : o.isApprove = true
  · cases o with
    | approve req =>
        obtain ⟨hnamed, hsame⟩ := hcalls
        have hsay (hnone : approver.askedAt = none) :
            Fine C once (past ++ [].map onConsole) (.console (.say (question req))) := by
          rw [List.map_nil, List.append_nil]
          exact fine_question hbase h hnone hnamed
        refine wp_bind.mpr (Prog.wp_mono (wp_console (Approver.answer_wp ?_ hsay fuel)) ?_)
        · exact fun _ o ho => fine_silent ho
        · rintro past' ⟨r, u⟩ ⟨tr, hr, rfl⟩
          exact ⟨trivial, h.answered hnamed hsame hr⟩
    | _ => cases ho
  · have ho := Bool.eq_false_iff.mpr ho
    rw [serveCall_other ho]
    refine ⟨?_, fun r _ => ⟨trivial, h.served ho r⟩⟩
    cases o with
    | partyBStart w idA idB aad => exact fine_response hbase h hcalls
    | _ => trivial

theorem serveNext_wp (hbase : Idle once cfg st.code base) (hnone : approver.askedAt = none) :
    ((serveNext C cfg st fuel).handle (serveCall fuel) approver).wp (.history (Fine C once))
      (fun past r => ∃ up, Exec (serveNext C cfg st fuel) up r.1 ∧ Carried base up r.2 past) base := by
  refine wp_handle (fun up ap past o => ?_) (serveNext_calls st fuel) ?_
  · exact fun h hcalls => serveCall_wp hbase h hcalls
  · refine ⟨[], (List.append_nil base).symm, rfl, ?_⟩
    rw [hnone]
    exact .unasked rfl rfl

end

end

end Agent

end SimpleRemote
