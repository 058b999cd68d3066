import SimpleRemote.Signaling.Handling

namespace SimpleRemote.Signaling
open ByteCodec Json

-- whoever displaces a registered host is open and is the registered host afterwards
def SafeTakeover (r r' : Room) : Prop :=
  ∀ previous ws, .closed previous CLOSE_REPLACED ws ∈ r.news r' → previous ≠ ws →
    r.isOpen ws = true ∧ r'.authedHost = some ws

-- an authentication that completes for a socket already closed finds no other registered host
def Attended (subtle : SubtleVerify) (r : Room) : Event → Prop
  | .verified i => ∀ p ∈ r.pending[i]?, r.admits subtle p = true →
      (r.displaced p.ws).isSome → r.isOpen p.ws = true
  | _ => True

instance (subtle : SubtleVerify) (r : Room) (e : Event) : Decidable (Attended subtle r e) :=
  match e with
  | .verified _ => inferInstanceAs (Decidable (∀ _ ∈ _, _ → _ → _))
  | .fetch _ _ => .isTrue trivial
  | .message _ _ => .isTrue trivial
  | .close _ _ => .isTrue trivial
  | .error _ => .isTrue trivial

section
variable {subtle : SubtleVerify} {r r' : Room} {out : List Output}

theorem safe_of_news (hlog : r'.log = r.log ++ out)
    (hout : ∀ previous ws, .closed previous CLOSE_REPLACED ws ∈ out → previous = ws) :
    SafeTakeover r r' := by
  intro previous ws hmem hne
  rw [Room.news_eq hlog] at hmem
  exact absurd (hout previous ws hmem) hne

theorem safe_of_quiet (hlog : r'.log = r.log) : SafeTakeover r r' :=
  safe_of_news (hlog.trans (List.append_nil _).symm) (by simp)

theorem safe_ended {r₁ : Room} {e : Event} {ws : Nat} (he : e.ends = some ws)
    (hlog : r₁.log = r.log ++ out)
    (hout : ∀ previous cause, .closed previous CLOSE_REPLACED cause ∉ out) :
    SafeTakeover r (r₁.answer e) := by
  obtain ⟨rest, hrest, hclosed⟩ := r₁.answer_log he
  have hall : (r₁.answer e).log = r.log ++ (out ++ rest) := by
    rw [hrest, hlog, List.append_assoc]
  refine safe_of_news hall fun previous cause hmem => ?_
  rcases List.mem_append.mp hmem with hmem | hmem
  · exact absurd hmem (hout previous cause)
  · obtain ⟨code, heq⟩ := hclosed _ hmem
    simp only [Output.closed.injEq] at heq
    exact heq.1.trans heq.2.2.symm

theorem not_replaced_of_gone (viewer : Option Nat) (cause previous ws : Nat) :
    .closed previous CLOSE_REPLACED ws ∉ Shape.goneOutput viewer cause := by
  cases viewer <;> simp [Shape.goneOutput, CLOSE_REPLACED, CLOSE_HOST_LEFT]

theorem authedHost_of_ready {h : Nat} (hr : r.ready h = true)
    (hone : ∀ h', r.ready h' = true → h' = h) : r.authedHost = some h := by
  obtain ⟨h', hh'⟩ := Room.exists_authedHost hr
  rw [hh', hone h' (Room.ready_of_authedHost hh')]

theorem safe_register (hsingle : ∀ h h', r.ready h = true → r.ready h' = true → h = h')
    {p : Pending} (hbase : r.base p.ws = some p.att.base) (i : Nat) (owner : Option Text)
    (hout : Checked p out) : SafeTakeover r ((r.resumed i owner out).register p) ↔
      ((r.displaced p.ws).isSome → r.isOpen p.ws = true) := by
  obtain ⟨rest, hnews, hrest⟩ := register_log r i owner hout
  have hfades := fades_replaced r i owner hout
  have hmem (previous ws : Nat) (hne : previous ≠ ws) :
      .closed previous CLOSE_REPLACED ws ∈ r.news ((r.resumed i owner out).register p) ↔
        ws = p.ws ∧ r.displaced p.ws = some previous := by
    rw [Room.news_eq hnews, List.mem_append, List.mem_append]
    constructor
    · rintro ((hmem | hmem) | hmem)
      · rcases hout _ hmem with heq | heq <;> cases heq
      · cases hd : r.displaced p.ws with
        | none => simp [hd, replaceOutput] at hmem
        | some h =>
            rw [hd, replaceOutput, List.mem_append] at hmem
            rcases hmem with hmem | hmem
            · exact (not_replaced_of_gone _ _ _ _ hmem).elim
            · have heq := List.mem_singleton.mp hmem
              simp only [Output.closed.injEq] at heq
              rw [heq.1]
              exact ⟨heq.2.2, rfl⟩
      · cases hrest _ hmem
    · rintro ⟨rfl, hd⟩
      simp [hd, replaceOutput]
  constructor
  · intro hsafe hsome
    obtain ⟨previous, hd⟩ := Option.isSome_iff_exists.mp hsome
    have hne := (Room.displaced_eq.mp hd).2
    exact (hsafe previous p.ws ((hmem previous p.ws hne).mpr ⟨rfl, hd⟩) hne).1
  · intro hopen previous ws hclosed hne
    obtain ⟨rfl, hd⟩ := (hmem previous ws hne).mp hclosed
    have ho := hopen (Option.isSome_iff_exists.mpr ⟨previous, hd⟩)
    have hbase' := (hfades.base p.ws).trans hbase
    have ho' : ((r.resumed i owner out).replace p.ws).isOpen p.ws = true := by
      refine (hfades.isOpen p.ws).mpr ⟨ho, ?_⟩
      rintro ⟨h, hh, hviewer | heq⟩
      · have := Room.base_of_viewing (Room.viewing_of_openViewer hviewer)
        simp [hbase] at this
      · exact (Room.displaced_eq.mp hh).2 heq.symm
    refine ⟨ho, authedHost_of_ready ((Room.ready_mark hbase' p.ws).mpr (.inl ⟨rfl, ho'⟩)) ?_⟩
    intro h hr
    rcases (Room.ready_mark hbase' h).mp hr with ⟨heq, -⟩ | hr
    · exact heq
    · exact alone_of_single (r := r.resumed i owner out) hsingle p.ws h hr

theorem Did.safe_iff {e : Event} (h : Did subtle r e r') (hb : Bound subtle r) :
    SafeTakeover r r' ↔ Attended subtle r e := by
  have hfree (hsafe : SafeTakeover r r') (hidle : ∀ i, e ≠ .verified i) :
      SafeTakeover r r' ↔ Attended subtle r e := by
    refine iff_of_true hsafe ?_
    cases e with
    | verified i => exact absurd rfl (hidle i)
    | _ => trivial
  have hgone {ws : Nat} (he : e.ends = some ws) (i : Nat) : e ≠ .verified i := by
    rintro rfl
    cases he
  cases h with
  | refused => exact hfree (safe_of_quiet rfl) (by simp)
  | host => exact hfree (safe_of_news (r.challenged_log ..) (by simp)) (by simp)
  | viewer => exact hfree (safe_of_news (r.joined_log _) (by simp)) (by simp)
  | dropped => exact hfree (safe_of_quiet rfl) (by simp)
  | bad code _ hcode =>
      refine hfree (safe_of_news (Shape.closeFromServer ..).log ?_) (by simp)
      simp [hcode.symm]
  | down data => exact hfree (safe_of_news rfl (by simp)) (by simp)
  | kicked =>
      refine hfree (safe_of_news (Shape.closeFromServer ..).log ?_) (by simp)
      simp [CLOSE_KICKED, CLOSE_REPLACED]
  | up data => exact hfree (safe_of_news rfl (by simp)) (by simp)
  | suspended => exact hfree (safe_of_quiet rfl) (by simp)
  | @failed i p out hp hbad hout =>
      have hlt := Room.lt_of_base (hb.pending p (List.mem_of_getElem? hp)).1
      refine iff_of_true ?_ fun q hq hgood => ?_
      · refine safe_of_news (fades_failed i r.owner hout hlt CLOSE_AUTH).log fun previous ws hmem => ?_
        rcases List.mem_append.mp hmem with hmem | hmem
        · rcases hout _ hmem with heq | heq <;> cases heq
        · simp [CLOSE_AUTH, CLOSE_REPLACED] at hmem
      · obtain rfl : p = q := Option.some.inj (hp.symm.trans hq)
        simp [hbad] at hgood
  | @registered i p out hp hgood hout =>
      have hbase := (hb.pending p (List.mem_of_getElem? hp)).1
      refine (safe_register hb.single hbase i _ hout).trans ?_
      constructor
      · intro hopen q hq _
        obtain rfl : p = q := Option.some.inj (hp.symm.trans hq)
        exact hopen
      · intro hattended
        exact hattended p hp hgood
  | hostEnded he hm =>
      exact hfree (safe_ended he (fades_hostEnded hm).log fun _ _ => not_replaced_of_gone _ _ _ _)
        (hgone he)
  | viewerEnded he => exact hfree (safe_ended he rfl (by simp)) (hgone he)
  | ended he => exact hfree (safe_ended he (List.append_nil _).symm (by simp)) (hgone he)

theorem takeover_safe {es : List Event} (hrun : Runs.Along (Room.handle subtle) Delivered .new es) :
    Runs.Along (Room.handle subtle) (fun r e => SafeTakeover r (r.handle subtle e)) .new es ↔
      Runs.Along (Room.handle subtle) (Attended subtle) .new es :=
  Runs.along_iff (Bound subtle) (fun _ _ hb hd => (handle_did hd).safe_iff hb)
    (fun _ e hb _ _ => hb.handle e) bound_new hrun

end

def sampleTakeover : List Event := sampleRegister ++ [claims 1 6, authenticates 1 1 6]

theorem sample_takeover_safe :
    Runs.Along (Room.handle sampleSubtle) (fun r e => SafeTakeover r (r.handle sampleSubtle e)) .new
      (sampleTakeover ++ [.verified 0]) :=
  (takeover_safe (by decide +kernel)).mpr (by decide +kernel)

-- the second host goes away while its signature is checked
def sampleLateTakeover : List Event := sampleTakeover ++ [.close 1 1005, .verified 0]

theorem takeover_by_closed :
    Runs.Along (Room.handle sampleSubtle) Delivered .new sampleLateTakeover ∧
    ¬ Runs.Along (Room.handle sampleSubtle)
      (fun r e => SafeTakeover r (r.handle sampleSubtle e)) .new sampleLateTakeover := by
  refine ⟨by decide +kernel, fun h => ?_⟩
  obtain ⟨-, -, -, -, -, -, hsafe, -⟩ := h
  have hopen := (hsafe 0 1 (by decide +kernel) (by decide)).1
  revert hopen
  decide +kernel

end SimpleRemote.Signaling
