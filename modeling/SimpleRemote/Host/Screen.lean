import SimpleRemote.Code
import SimpleRemote.Host.Main

namespace SimpleRemote
open ByteCodec

-- texts without a newline, one a line, can be told apart
theorem lines_inj {ts ts' : List Text} (h : ∀ t ∈ ts, '\n' ∉ t) (h' : ∀ t ∈ ts', '\n' ∉ t)
    (heq : ts.flatMap (· ++ ['\n']) = ts'.flatMap (· ++ ['\n'])) : ts = ts' := by
  induction ts generalizing ts' with
  | nil =>
      cases ts' with
      | nil => rfl
      | cons t ts' => simp at heq
  | cons t ts ih =>
      cases ts' with
      | nil => simp at heq
      | cons t' ts' =>
          obtain ⟨ht, hts⟩ := List.forall_mem_cons.mp h
          obtain ⟨ht', hts'⟩ := List.forall_mem_cons.mp h'
          have hsplit (u rest : Text) (hu : '\n' ∉ u) :
              (u ++ '\n' :: rest).takeWhile (· ≠ '\n') = u ∧
                (u ++ '\n' :: rest).dropWhile (· ≠ '\n') = '\n' :: rest := by
            have hall : ∀ c ∈ u, decide (c ≠ '\n') = true := fun c hc =>
              decide_eq_true fun hnl => hu (hnl ▸ hc)
            rw [List.takeWhile_append_of_pos hall, List.dropWhile_append_of_pos hall]
            simp
          rw [List.flatMap_cons, List.flatMap_cons, List.append_assoc, List.append_assoc] at heq
          obtain ⟨htake, hdrop⟩ := hsplit t (ts.flatMap (· ++ ['\n'])) ht
          obtain ⟨htake', hdrop'⟩ := hsplit t' (ts'.flatMap (· ++ ['\n'])) ht'
          have hfirst : t = t' :=
            htake.symm.trans ((congrArg (List.takeWhile (· ≠ '\n')) heq).trans htake')
          have hrest := hdrop.symm.trans ((congrArg (List.dropWhile (· ≠ '\n')) heq).trans hdrop')
          rw [hfirst, ih hts hts' (List.cons.inj hrest).2]

theorem isControl_digit {c : Char} (h : c.isDigit = true) : isControl c = false := by
  have hrange : 48 ≤ c.toNat ∧ c.toNat ≤ 57 := by
    simp only [Char.isDigit, Bool.and_eq_true, decide_eq_true_eq] at h
    exact ⟨h.1, h.2⟩
  have hlow : ¬ c.toNat < 32 := by omega
  have hhigh : ¬ 127 ≤ c.toNat := by omega
  simp [isControl, hlow, hhigh]

theorem isControl_hexDigit {n : Nat} (h : n < 16) : isControl (hexDigit n) = false := by
  have hall : ∀ m : Fin 16, isControl (hexDigit m) = false := by decide
  exact hall ⟨n, h⟩

def Printable (t : Text) : Prop := ∀ c ∈ t, isControl c = false

instance : DecidablePred Printable := fun t =>
  List.decidableBAll (fun c => isControl c = false) t

theorem printable_append {t t' : Text} : Printable (t ++ t') ↔ Printable t ∧ Printable t' :=
  List.forall_mem_append

theorem printable_hexEncode (b : Bytes) : Printable (hexEncode b) := by
  induction b with
  | nil => exact nofun
  | cons x b ih =>
      have hx := x.toNat_lt
      rw [hexEncode]
      refine List.forall_mem_cons.mpr ⟨isControl_hexDigit (by omega), ?_⟩
      exact List.forall_mem_cons.mpr ⟨isControl_hexDigit (by omega), ih⟩

theorem newline_of_printable {t : Text} (h : Printable t) : '\n' ∉ t := fun hmem => by
  cases h '\n' hmem

theorem keyFingerprint_formed (C : Crypto) (key : ByteArr 32) :
    (keyFingerprint C key).length = 19 ∧ Printable (keyFingerprint C key) := by
  have hplain := printable_hexEncode ((C.sha256 key.val).val.take 8)
  have hlength : (hexEncode ((C.sha256 key.val).val.take 8)).length = 16 := by
    rw [hexEncode_length, List.length_take, (C.sha256 key.val).property]
    rfl
  rw [keyFingerprint]
  generalize hexEncode ((C.sha256 key.val).val.take 8) = t at hplain hlength
  match t, hlength with
  | [a, b, c, d, e, f, g, h, i, j, k, l, m, n, o, p], _ =>
      refine ⟨rfl, fun x hx => ?_⟩
      have hmem : x = ' ' ∨ x ∈ [a, b, c, d, e, f, g, h, i, j, k, l, m, n, o, p] := by
        simp only [chunks4, List.intercalate, List.intersperse, List.flatten_cons, List.flatten_nil,
          List.cons_append, List.nil_append, List.mem_cons, List.not_mem_nil, or_false] at hx ⊢
        tauto
      rcases hmem with rfl | hmem
      · rfl
      · exact hplain x hmem

theorem printable_of_checked {name : Text} (h : checkDeviceName name = .ok ()) : Printable name := by
  rw [checkDeviceName] at h
  split at h
  · cases h
  · split at h
    · cases h
    · rename_i hname
      have hall : ∀ c ∈ name, isControl c = false := by simpa using hname
      exact hall

namespace Agent

-- what can stand on a line that shows a peer
structure Named (name fingerprint : Text) : Prop where
  name : Printable name
  length : fingerprint.length = 19
  fingerprint : Printable fingerprint

namespace Line

def Formed : Line → Prop
  | .id hostId => Register.isHostId hostId = true
  | .approve req => Named req.viewerName req.viewerKeyFingerprint
  | .connected name fingerprint => Named name fingerprint
  | _ => True

theorem printable_debug (failure : AttemptFailure) : Printable failure.debug := by
  cases failure with
  | timeout stage => cases stage <;> decide
  | _ => decide

theorem text_printable {l : Line} (h : l.Formed) : Printable l.text := by
  have hdigits {t : Text} (ht : ∀ c ∈ t, c.isDigit = true) : Printable t := fun c hc =>
    isControl_digit (ht c hc)
  cases l with
  | id hostId =>
      rw [Formed, Register.isHostId, Bool.and_eq_true, utf8_digits] at h
      have hword : Printable "ID ".toList := by decide
      exact printable_append.mpr ⟨hword, hdigits h.2⟩
  | code shown =>
      have hword : Printable "CODE ".toList := by decide
      exact printable_append.mpr ⟨hword, hdigits shown.six.2⟩
  | approve req =>
      have hword : Printable "APPROVE? ".toList := by decide
      have hspace : Printable " ".toList := by decide
      have hend : Printable " [y/N]".toList := by decide
      have hname := printable_append.mpr ⟨printable_append.mpr ⟨hword, h.name⟩, hspace⟩
      exact printable_append.mpr ⟨printable_append.mpr ⟨hname, h.fingerprint⟩, hend⟩
  | connected name fingerprint =>
      have hword : Printable "CONNECTED ".toList := by decide
      have hspace : Printable " ".toList := by decide
      have hname := printable_append.mpr ⟨printable_append.mpr ⟨hword, h.name⟩, hspace⟩
      exact printable_append.mpr ⟨hname, h.fingerprint⟩
  | disconnected =>
      have hword : Printable "DISCONNECTED".toList := by decide
      exact hword
  | attempt failure =>
      have hword : Printable "ATTEMPT ".toList := by decide
      exact printable_append.mpr ⟨hword, printable_debug failure⟩

-- the third character tells the lines apart
def mark : Line → Char
  | .id _ => ' '
  | .code _ => 'D'
  | .approve _ => 'P'
  | .connected _ _ => 'N'
  | .disconnected => 'S'
  | .attempt _ => 'T'

theorem text_mark (l : Line) : l.text[2]? = some l.mark := by
  cases l <;> rfl

def failures : List AttemptFailure :=
  [.waitRequired, .noConfirm, .wrongCode, .malformed, .timeout .join, .timeout .pake,
    .timeout .answer, .timeout .connect, .timeout .hello, .timeout .decision, .timeout .ping,
    .denied, .versionMismatch, .badIdentity, .transport]

theorem mem_failures (failure : AttemptFailure) : failure ∈ failures := by
  cases failure with
  | timeout stage => cases stage <;> decide
  | _ => decide

theorem debug_inj {failure failure' : AttemptFailure} (h : failure.debug = failure'.debug) :
    failure = failure' := by
  have hall : ∀ f ∈ failures, ∀ f' ∈ failures, f.debug = f'.debug → f = f' := by decide
  exact hall _ (mem_failures _) _ (mem_failures _) h

theorem named_inj {name name' fingerprint fingerprint' : Text} (hn : Named name fingerprint)
    (hn' : Named name' fingerprint')
    (h : name ++ " ".toList ++ fingerprint = name' ++ " ".toList ++ fingerprint') :
    name = name' ∧ fingerprint = fingerprint' := by
  obtain ⟨hleft, hright⟩ := List.append_inj' h (hn.length.trans hn'.length.symm)
  exact ⟨List.append_cancel_right hleft, hright⟩

theorem approve_inj {req req' : ApprovalRequest} (hn : (approve req).Formed)
    (hn' : (approve req').Formed) (h : Approver.question req = Approver.question req') : req = req' := by
  have hleft := List.append_cancel_right h
  have hboth : "APPROVE? ".toList ++ (req.viewerName ++ " ".toList ++ req.viewerKeyFingerprint) =
      "APPROVE? ".toList ++ (req'.viewerName ++ " ".toList ++ req'.viewerKeyFingerprint) := by
    simp only [List.append_assoc] at hleft ⊢
    exact hleft
  obtain ⟨hname, hfingerprint⟩ := named_inj hn hn' (List.append_cancel_left hboth)
  cases req
  cases req'
  cases hname
  cases hfingerprint
  rfl

theorem connected_inj {name name' fingerprint fingerprint' : Text}
    (hn : (connected name fingerprint).Formed) (hn' : (connected name' fingerprint').Formed)
    (h : "CONNECTED ".toList ++ name ++ " ".toList ++ fingerprint =
      "CONNECTED ".toList ++ name' ++ " ".toList ++ fingerprint') :
    name = name' ∧ fingerprint = fingerprint' := by
  have hboth : "CONNECTED ".toList ++ (name ++ " ".toList ++ fingerprint) =
      "CONNECTED ".toList ++ (name' ++ " ".toList ++ fingerprint') := by
    simp only [List.append_assoc] at h ⊢
    exact h
  exact named_inj hn hn' (List.append_cancel_left hboth)

theorem code_inj {code code' : OneTimeCode} (h : code.digits = code'.digits) : code = code' := by
  cases code
  cases code'
  cases h
  rfl

theorem text_inj {l l' : Line} (hl : l.Formed) (hl' : l'.Formed) (h : l.text = l'.text) : l = l' := by
  have hmark : l.mark = l'.mark := by
    have hsame := congrArg (fun t : Text => t[2]?) h
    simp only [text_mark] at hsame
    exact Option.some.inj hsame
  cases l <;> cases l' <;> first | (exfalso; revert hmark; simp [mark]; done) | skip
  case id.id => exact congrArg _ (List.append_cancel_left h)
  case code.code => exact congrArg _ (code_inj (List.append_cancel_left h))
  case approve.approve => exact congrArg _ (approve_inj hl hl' h)
  case connected.connected =>
      obtain ⟨rfl, rfl⟩ := connected_inj hl hl' h
      rfl
  case disconnected.disconnected => rfl
  case attempt.attempt => exact congrArg _ (debug_inj (List.append_cancel_left h))

-- the standard output is read in one way
theorem texts_inj {ls ls' : List Line} (h : ∀ l ∈ ls, l.Formed) (h' : ∀ l ∈ ls', l.Formed)
    (heq : ls.flatMap (fun l => l.text ++ ['\n']) = ls'.flatMap fun l => l.text ++ ['\n']) :
    ls = ls' := by
  have hnone {ls : List Line} (h : ∀ l ∈ ls, l.Formed) : ∀ t ∈ ls.map text, '\n' ∉ t := by
    intro t ht
    obtain ⟨l, hl, rfl⟩ := List.mem_map.mp ht
    exact newline_of_printable (text_printable (h l hl))
  have htexts : ls.map text = ls'.map text := by
    refine lines_inj (hnone h) (hnone h') ?_
    rw [List.flatMap_map, List.flatMap_map]
    exact heq
  clear heq
  induction ls generalizing ls' with
  | nil => exact (List.map_eq_nil_iff.mp htexts.symm).symm
  | cons l ls ih =>
      cases ls' with
      | nil => cases htexts
      | cons l' ls' =>
          obtain ⟨hl, hls⟩ := List.forall_mem_cons.mp h
          obtain ⟨hl', hls'⟩ := List.forall_mem_cons.mp h'
          rw [List.map_cons, List.map_cons] at htexts
          obtain ⟨hfirst, hrest⟩ := List.cons.inj htexts
          rw [text_inj hl hl' hfirst, ih hls hls' hrest]

end Line

-- what the lines so far say of the host; a round is one call of `serve_next` that is not reported
inductive Screen where
  | blank
  | titled
  | idle (shown : OneTimeCode)
  | round (shown : OneTimeCode) (asked : Option ApprovalRequest) (renewed : Bool)
  | session (shown : OneTimeCode)
  deriving DecidableEq

namespace Screen

def next : Screen → Line → Option Screen
  | .blank, .id _ => some .titled
  | .titled, .code shown => some (.idle shown)
  | .idle shown, .approve req => some (.round shown (some req) false)
  | .idle shown, .code shown' => if shown' = shown then none else some (.round shown' none true)
  | .idle shown, .attempt _ => some (.idle shown)
  | .round shown asked false, .code shown' =>
      if shown' = shown then none else some (.round shown' asked true)
  | .round shown _ _, .attempt _ => some (.idle shown)
  | .round shown (some req) _, .connected name fingerprint =>
      if req = ⟨name, fingerprint⟩ then some (.session shown) else none
  | .session shown, .disconnected => some (.idle shown)
  | _, _ => none

def shown : Screen → Option OneTimeCode
  | .blank => none
  | .titled => none
  | .idle shown => some shown
  | .round shown _ _ => some shown
  | .session shown => some shown

def inSession : Screen → Bool
  | .session _ => true
  | _ => false

theorem next_connected {s s' : Screen} {name fingerprint : Text}
    (h : s.next (.connected name fingerprint) = some s') : s'.inSession = true := by
  cases s with
  | round shown asked renewed =>
      cases asked with
      | none => cases renewed <;> cases h
      | some req =>
          have hnext : (round shown (some req) renewed).next (.connected name fingerprint) =
              if req = ⟨name, fingerprint⟩ then some (session shown) else none := by
            cases renewed <;> rfl
          rw [hnext] at h
          split at h
          · obtain rfl := Option.some.inj h
            rfl
          · cases h
  | _ => cases h

theorem next_session {shown : OneTimeCode} {l : Line} {s' : Screen}
    (h : (session shown).next l = some s') : l = .disconnected := by
  cases l with
  | disconnected => rfl
  | _ => cases h

-- a session that was shown is over only where that is shown, too
theorem run_connected {ls : List Line} {s s' : Screen} (h : ls.foldlM next s = some s')
    (hs' : s'.inSession = false) {name fingerprint : Text}
    (hstart : s.inSession = true ∨ Line.connected name fingerprint ∈ ls) : Line.disconnected ∈ ls := by
  induction ls generalizing s with
  | nil =>
      obtain rfl := Option.some.inj h
      rw [hs'] at hstart
      exact absurd hstart (by simp)
  | cons l ls ih =>
      obtain ⟨t, ht, hrest⟩ := Option.bind_eq_some_iff.mp h
      rcases hstart with hstart | hstart
      · cases s with
        | session shown => exact List.mem_cons.mpr (.inl (next_session ht).symm)
        | _ => cases hstart
      · refine List.mem_cons_of_mem _ (ih hrest ?_)
        rcases List.mem_cons.mp hstart with rfl | hstart
        · exact .inl (next_connected ht)
        · exact .inr hstart

end Screen

end Agent

end SimpleRemote
