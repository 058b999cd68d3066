import SimpleRemote.Viewer.Output

namespace SimpleRemote
open ByteCodec Interaction

-- the person at the viewer types what the host's screen shows: the two programs then start SPAKE2
-- with the same input, and only then
theorem typed_meets {C : Crypto} (hscalar : ∀ code code' w, codeScalar C code = .ok w →
      codeScalar C code' = .ok w → code = code')
    {fuel fuel' : Nat} {args args' : List Text} {w w' : Nat} {idA idB aad idA' idB' aad' : Bytes}
    {pre post : List (Ev Agent.AgentSig)} {q : Agent.AgentM ExitCode}
    {r : Agent.AgentSig.Res (.serve (.partyBStart w idA idB aad))}
    (hhost : Path (Agent.main C fuel args) (pre ++ ⟨.serve (.partyBStart w idA idB aad), r⟩ :: post) q)
    {pre' post' : List (Ev Viewer.MainSig)} {q' : Viewer.MainM ExitCode}
    {r' : Viewer.MainSig.Res (.session (.partyAStart w' idA' idB' aad'))}
    (hviewer : Path (Viewer.main C fuel' args')
      (pre' ++ ⟨.session (.partyAStart w' idA' idB' aad'), r'⟩ :: post') q') :
    ∃ (hostId : Text) (screen : Agent.Screen) (code : OneTimeCode) (a : Viewer.Args),
      (Agent.said pre).head? = some (Agent.Line.id hostId).text ∧ Agent.OnScreen pre screen ∧
      screen.shown = some code ∧ Viewer.parseArgs args' = some a ∧
      ⟨.connect (a.server ++ "/v1/viewer/".toList ++ a.id), .ok ()⟩ ∈ pre' ∧
      ((w', idA', idB', aad') = (w, idA, idB, aad) ↔
        a.id = hostId ∧ (a.code.filter fun c => !isWhitespace c) = code.digits) := by
  obtain ⟨hostId, screen, code, htitle, hscreen, hshown, -, hw, rfl, rfl, rfl⟩ :=
    (Agent.main_fine hhost).1 pre _ post rfl
  obtain ⟨t, hlinked, hw', rfl, rfl, rfl⟩ := (Viewer.main_fine hviewer).1 pre' _ post' rfl
  refine ⟨hostId, screen, code, t.a, htitle, hscreen, hshown, t.parsed, hlinked, ?_⟩
  rw [← OneTimeCode.parse_ok, t.coded]
  constructor
  · intro h
    obtain ⟨rfl, -, hid, -⟩ : w' = w ∧ VIEWER_ID = VIEWER_ID ∧ hostIdBytes t.a.id = hostIdBytes hostId ∧
      AAD = AAD := by simpa using h
    exact ⟨utf8_injective (List.append_cancel_left hid), congrArg _ (hscalar _ _ _ hw' hw)⟩
  · rintro ⟨hid, hcode⟩
    rw [Except.ok.inj hcode] at hw'
    rw [hid, Except.ok.inj (hw'.symm.trans hw)]

theorem sample_scalar (code code' : OneTimeCode) (w : Nat) (h : codeScalar .sample code = .ok w)
    (h' : codeScalar .sample code' = .ok w) : code = code' := by
  have hw : fromBe (CODE_CONTEXT ++ utf8 code.digits) = w := Except.ok.inj h
  have hw' : fromBe (CODE_CONTEXT ++ utf8 code'.digits) = w := Except.ok.inj h'
  have hlength (code : OneTimeCode) : (CODE_CONTEXT ++ utf8 code.digits).length =
      CODE_CONTEXT.length + 6 := by
    rw [List.length_append, utf8_length_of_digits code.six.2, code.six.1]
  have hbytes := (beBytes_fromBe (CODE_CONTEXT ++ utf8 code.digits)).1
  rw [hw, hlength code, ← hlength code', ← hw', (beBytes_fromBe _).1] at hbytes
  have hdigits := utf8_injective (List.append_cancel_left hbytes)
  cases code
  cases code'
  cases hdigits
  rfl

theorem sample_typed_meets : ∃ (hostId : Text) (code : OneTimeCode) (a : Viewer.Args),
    Viewer.parseArgs Viewer.sampleArgs = some a ∧ a.id = hostId ∧
      (a.code.filter fun c => !isWhitespace c) = code.digits := by
  obtain ⟨hostId, screen, code, a, -, -, -, ha, -, hsame⟩ :=
    typed_meets sample_scalar Agent.sample_run Viewer.sample_run
  exact ⟨hostId, code, a, ha, hsame.mp rfl⟩

end SimpleRemote
