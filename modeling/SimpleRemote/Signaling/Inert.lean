import SimpleRemote.Signaling.Handling

namespace SimpleRemote.Signaling
open ByteCodec Json

def Output.target : Output → Option Nat
  | .sent ws _ _ => some ws
  | .closed ws _ _ => some ws
  | _ => none

namespace Room

def serverClosed (r : Room) (ws : Nat) : Bool :=
  r.log.any fun o => match o with
    | .closed ws' _ _ => ws' = ws
    | _ => false

end Room

-- `late` tells for each suspended authentication whether its frame was delivered after the
-- server had closed the socket
structure Watch where
  room : Room
  late : List Bool
  deriving DecidableEq

namespace Watch

def new : Watch := ⟨.new, []⟩

def next (subtle : SubtleVerify) (w : Watch) (e : Event) : Watch :=
  let room := w.room.handle subtle e
  let late := match e with
    | .message ws _ =>
        if w.room.pending.length < room.pending.length then w.late ++ [w.room.serverClosed ws]
        else w.late
    | .verified i => w.late.eraseIdx i
    | _ => w.late
  ⟨room, late⟩

-- the closed socket whose late frame the event is, or lets go on
def speaker (w : Watch) : Event → Option Nat
  | .message ws _ => if w.room.serverClosed ws then some ws else none
  | .verified i => if w.late[i]? = some true then (w.room.pending[i]?).map Pending.ws else none
  | _ => none

end Watch

structure Harmless (r : Room) (ws : Nat) (r' : Room) : Prop where
  silent : ∀ o ∈ r.news r', ∀ ws' ∈ o.target, ws' = ws
  isOpen : ∀ ws', ws' ≠ ws → ws' < r.sockets.length → r'.isOpen ws' = r.isOpen ws'
  ready : ∀ h, r'.ready h = r.ready h

def Inert (subtle : SubtleVerify) (w : Watch) (e : Event) : Prop :=
  ∀ ws ∈ w.speaker e, Harmless w.room ws (w.room.handle subtle e)

-- no relay or kick of a host still marked meets an open viewer, and no authentication that
-- is accepted meets a registered host
def Restrained (subtle : SubtleVerify) (r : Room) : Event → Prop
  | .message ws frame => r.marked ws = true →
      frame.isRelay = true ∨ frame.isKick = true → r.openViewer = none
  | .verified i => ∀ p ∈ r.pending[i]?, r.admits subtle p = true → r.authedHost = none
  | _ => True

def Guarded (subtle : SubtleVerify) (w : Watch) (e : Event) : Prop :=
  (w.speaker e).isSome → Restrained subtle w.room e

instance (subtle : SubtleVerify) (r : Room) (e : Event) : Decidable (Restrained subtle r e) :=
  match e with
  | .message _ _ => inferInstanceAs (Decidable (_ → _ ∨ _ → _))
  | .verified _ => inferInstanceAs (Decidable (∀ _ ∈ _, _ → _))
  | .fetch _ _ => .isTrue trivial
  | .close _ _ => .isTrue trivial
  | .error _ => .isTrue trivial

instance (subtle : SubtleVerify) (w : Watch) (e : Event) : Decidable (Guarded subtle w e) :=
  inferInstanceAs (Decidable (_ → _))

structure Shutting (r r' : Room) : Prop where
  length : r.sockets.length ≤ r'.sockets.length
  opens : ∀ ws, ws < r.sockets.length → r'.isOpen ws = true → r.isOpen ws = true
  closes : ∀ ws code cause, .closed ws code cause ∈ r'.log → .closed ws code cause ∈ r.log ∨
    ws < r.sockets.length ∧ r'.isOpen ws = false

section
variable {subtle : SubtleVerify} {r r' : Room} {shut unmarked : Nat → Prop} {out : List Output}

theorem Fades.shutting (h : Fades r r' shut unmarked out) : Shutting r r' where
  length := h.length.ge
  opens ws _ ho := ((h.isOpen ws).mp ho).1
  closes ws code cause hmem := by
    rw [h.log] at hmem
    rcases List.mem_append.mp hmem with hmem | hmem
    · exact .inl hmem
    · obtain ⟨hshut, hlt⟩ := h.closes ws code cause hmem
      refine .inr ⟨hlt, ?_⟩
      by_contra ho
      exact ((h.isOpen ws).mp (Bool.not_eq_false _ ▸ ho)).2 hshut

theorem shutting_accepted {a : Attachment} {claim : Bool}
    (hs : r'.sockets = (r.accept a claim).sockets) (hlog : r'.log = r.log ++ out)
    (hclosed : ∀ ws code cause, .closed ws code cause ∉ out) : Shutting r r' where
  length := by
    have := Room.length_accepted hs
    omega
  opens ws hlt ho := by
    rwa [Room.isOpen_accepted hs, if_neg (by omega)] at ho
  closes ws code cause hmem := by
    rw [hlog] at hmem
    exact .inl ((List.mem_append.mp hmem).resolve_right (hclosed ws code cause))

theorem Shutting.trans {r'' : Room} (h : Shutting r r') (h' : Shutting r' r'')
    (hlen : r'.sockets.length = r.sockets.length) : Shutting r r'' where
  length := h.length.trans h'.length
  opens ws hlt ho := h.opens ws hlt (h'.opens ws (hlen.symm ▸ hlt) ho)
  closes ws code cause hmem := by
    rcases h'.closes ws code cause hmem with hmem | ⟨hlt, ho⟩
    · rcases h.closes ws code cause hmem with hmem | ⟨hlt, ho⟩
      · exact .inl hmem
      · refine .inr ⟨hlt, ?_⟩
        by_contra hopen
        have := h'.opens ws (hlen.symm ▸ hlt) (Bool.not_eq_false _ ▸ hopen)
        simp [ho] at this
    · exact .inr ⟨hlen ▸ hlt, ho⟩

theorem shutting_mark (r : Room) (p : Pending) : Shutting r (r.mark p) := by
  obtain ⟨hs, -, -⟩ := r.mark_eq p
  obtain ⟨out, hlog, hout⟩ := r.mark_log p
  have hlen : (r.mark p).sockets.length = r.sockets.length := by
    rw [hs]
    exact List.length_modify ..
  refine ⟨hlen.ge, fun ws _ ho => (Room.isOpen_mark ws).symm.trans ho, fun ws code cause hmem => ?_⟩
  rw [hlog] at hmem
  rcases List.mem_append.mp hmem with hmem | hmem
  · exact .inl hmem
  · cases hout _ hmem

theorem Course.shutting (h : Course subtle r r') : Shutting r r' := by
  cases h with
  | faded h => exact h.shutting
  | challenged nonce key id claim =>
      have hs : (r.challenged nonce key id claim).sockets =
          (r.accept (.host ⟨false, nonce, key, id⟩) claim).sockets := rfl
      exact shutting_accepted hs (r.challenged_log ..) (by simp)
  | @joined host =>
      have hs : (r.joined host).sockets = (r.accept (.viewer ⟨false⟩) false).sockets := rfl
      exact shutting_accepted hs (r.joined_log _) (by simp)
  | @registered i p out _ _ hout =>
      have hfades := fades_replaced r i (some p.att.key) hout
      exact hfades.shutting.trans (shutting_mark _ p) hfades.length

end

structure Watched (subtle : SubtleVerify) (w : Watch) : Prop where
  bound : Bound subtle w.room
  closed : ∀ ws code cause, .closed ws code cause ∈ w.room.log →
    ws < w.room.sockets.length ∧ w.room.isOpen ws = false
  length : w.late.length = w.room.pending.length
  late : ∀ (i : Nat) p, w.late[i]? = some true → w.room.pending[i]? = some p →
    w.room.isOpen p.ws = false

section
variable {subtle : SubtleVerify} {w : Watch} {r r' : Room} {shut : Nat → Prop}
  {out : List Output} {e : Event} {ws : Nat}

theorem watched_new : Watched subtle .new where
  bound := bound_new
  closed _ _ _ h := by cases h
  length := rfl
  late _ _ h := by cases h

theorem Watched.closing (hw : Watched subtle w) (h : w.room.serverClosed ws = true) :
    ws < w.room.sockets.length ∧ w.room.isOpen ws = false := by
  rw [Room.serverClosed, List.any_eq_true] at h
  obtain ⟨o, ho, heq⟩ := h
  cases o with
  | closed ws' code cause =>
      obtain rfl : ws' = ws := by simpa using heq
      exact hw.closed ws' code cause ho
  | _ => cases heq

theorem Watched.speaker_shut (hw : Watched subtle w) (h : w.speaker e = some ws) :
    w.room.isOpen ws = false := by
  cases e with
  | message ws' frame =>
      rw [Watch.speaker] at h
      split at h
      · rename_i hclosed
        obtain rfl := Option.some.inj h
        exact (hw.closing hclosed).2
      · cases h
  | verified i =>
      rw [Watch.speaker] at h
      split at h
      · rename_i hlate
        obtain ⟨p, hp, rfl⟩ := Option.map_eq_some_iff.mp h
        exact hw.late i p hlate hp
      · cases h
  | _ => cases h

-- a flag beside each suspended authentication, kept so by a step
theorem Resumes.flags {pending pending' : List Pending} {late : List Bool} {closed : Nat → Bool}
    (ended : Pending → Prop) (h : Resumes pending pending' e) (hlen : late.length = pending.length)
    (hlate : ∀ (i : Nat) p, late[i]? = some true → pending[i]? = some p → ended p)
    (hclosed : ∀ p, closed p.ws = true → ended p) :
    let late' := match e with
      | .message ws _ => if pending.length < pending'.length then late ++ [closed ws] else late
      | .verified i => late.eraseIdx i
      | _ => late
    late'.length = pending'.length ∧
      ∀ (i : Nat) p, late'[i]? = some true → pending'[i]? = some p → ended p := by
  cases e with
  | message ws frame =>
      rcases h with heq | ⟨q, rfl, heq⟩
      · simp only [heq, Nat.lt_irrefl, if_false]
        exact ⟨hlen, hlate⟩
      · simp only [heq, List.length_append, List.length_singleton, Nat.lt_add_one, if_true]
        refine ⟨by rw [hlen], fun i p hi hp => ?_⟩
        by_cases hlt : i < pending.length
        · rw [List.getElem?_append_left (hlen ▸ hlt)] at hi
          rw [List.getElem?_append_left hlt] at hp
          exact hlate i p hi hp
        · rw [List.getElem?_append_right (by omega)] at hi hp
          have hzero : i - pending.length = 0 := by
            by_contra hne
            rw [List.getElem?_eq_none (by rw [List.length_singleton]; omega)] at hp
            cases hp
          rw [hzero] at hp
          rw [hlen, hzero] at hi
          obtain rfl : q = p := Option.some.inj hp
          exact hclosed q (Option.some.inj hi)
  | verified i =>
      have heq : pending' = pending.eraseIdx i := h
      refine ⟨by simp [heq, List.length_eraseIdx, hlen], fun j p hj hp => ?_⟩
      rw [heq] at hp
      rw [List.getElem?_eraseIdx] at hj hp
      split at hj
      · rename_i hlt
        rw [if_pos hlt] at hp
        exact hlate j p hj hp
      · rename_i hge
        rw [if_neg hge] at hp
        exact hlate (j + 1) p hj hp
  | fetch request random =>
      obtain rfl : pending' = pending := h
      exact ⟨hlen, hlate⟩
  | close ws code =>
      obtain rfl : pending' = pending := h
      exact ⟨hlen, hlate⟩
  | error ws =>
      obtain rfl : pending' = pending := h
      exact ⟨hlen, hlate⟩

theorem Watched.next (hw : Watched subtle w) (hd : w.room.delivers e = true) :
    Watched subtle (w.next subtle e) := by
  have hdid : Did subtle w.room e (w.room.handle subtle e) := handle_did hd
  have hshut := (hdid.course hw.bound hd).shutting
  have hkept (ws : Nat) (hlt : ws < w.room.sockets.length) (ho : w.room.isOpen ws = false) :
      (w.room.handle subtle e).isOpen ws = false := by
    by_contra hopen
    have := hshut.opens ws hlt (Bool.not_eq_false _ ▸ hopen)
    simp [ho] at this
  have hbase (p : Pending) (hp : p ∈ w.room.pending) : p.ws < w.room.sockets.length :=
    Room.lt_of_base (hw.bound.pending p hp).1
  have hflags := Resumes.flags
    (fun p => p.ws < w.room.sockets.length ∧ w.room.isOpen p.ws = false) hdid.resumes hw.length
    (fun i p hi hp => ⟨hbase p (List.mem_of_getElem? hp), hw.late i p hi hp⟩)
    (fun p h => hw.closing h)
  refine ⟨hw.bound.handle e, fun ws code cause hmem => ?_, hflags.1, fun i p hi hp => ?_⟩
  · rcases hshut.closes ws code cause hmem with hmem | ⟨hlt, ho⟩
    · obtain ⟨hlt, ho⟩ := hw.closed ws code cause hmem
      exact ⟨hlt.trans_le hshut.length, hkept ws hlt ho⟩
    · exact ⟨hlt.trans_le hshut.length, ho⟩
  · obtain ⟨hlt, ho⟩ := hflags.2 i p hi hp
    exact hkept p.ws hlt ho

theorem harmless_of_fades (hclosed : r.isOpen ws = false) (h : Fades r r' shut nobody out)
    (hshut : ∀ w, shut w → w = ws) (hout : ∀ o ∈ out, ∀ t ∈ o.target, t = ws) :
    Harmless r ws r' where
  silent := by
    rw [Room.news_eq h.log]
    exact hout
  isOpen w hne _ := by
    rw [Bool.eq_iff_iff, h.isOpen]
    exact and_iff_left fun hw => hne (hshut w hw)
  ready w := by
    rw [Bool.eq_iff_iff, h.ready]
    refine and_iff_left_of_imp fun hr => ⟨fun hw => ?_, id⟩
    have ho := Room.isOpen_of_ready hr
    rw [hshut w hw, hclosed] at ho
    cases ho

theorem harmless_quiet (hclosed : r.isOpen ws = false) (hs : r'.sockets = r.sockets)
    (hlog : r'.log = r.log) : Harmless r ws r' := by
  have hfades : Fades r r' nobody nobody [] :=
    fades_still hs (hlog.trans (List.append_nil _).symm) (by simp [NoJoin]) (by simp)
  exact harmless_of_fades hclosed hfades (fun _ h => h.elim) (by simp)

theorem not_harmless {o : Output} {t : Nat} (hlog : r'.log = r.log ++ out) (ho : o ∈ out)
    (ht : o.target = some t) (hopen : r.isOpen t = true) (hclosed : r.isOpen ws = false) :
    ¬ Harmless r ws r' := by
  intro h
  have heq := h.silent o (by rwa [Room.news_eq hlog]) t ht
  rw [heq, hclosed] at hopen
  cases hopen

theorem harmless_register (hclosed : r.isOpen ws = false) {p : Pending} (hws : p.ws = ws)
    (hbase : r.base p.ws = some p.att.base) (i : Nat) (owner : Option Text)
    (hout : Checked p out) :
    Harmless r ws ((r.resumed i owner out).register p) ↔ r.authedHost = none := by
  subst hws
  obtain ⟨rest, hlog, hrest⟩ := register_log r i owner hout
  have hfades := fades_replaced r i owner hout
  constructor
  · intro h
    by_contra hsome
    obtain ⟨host, hhost⟩ := Option.ne_none_iff_exists'.mp hsome
    have hopen := Room.isOpen_of_ready (Room.ready_of_authedHost hhost)
    have hne : host ≠ p.ws := by
      rintro rfl
      simp [hopen] at hclosed
    have hd : r.displaced p.ws = some host := Room.displaced_eq.mpr ⟨hhost, hne⟩
    refine not_harmless hlog (o := .closed host CLOSE_REPLACED p.ws) ?_ rfl hopen hclosed h
    simp [hd, replaceOutput]
  · intro hnone
    have hd : r.displaced p.ws = none := by rw [Room.displaced, hnone]; rfl
    simp only [hd, reduceCtorEq, false_and, exists_false] at hfades
    have hbase' := (hfades.base p.ws).trans hbase
    have hopen (w : Nat) : ((r.resumed i owner out).register p).isOpen w = r.isOpen w := by
      rw [Room.register, Room.isOpen_mark, Bool.eq_iff_iff, hfades.isOpen]
      exact and_iff_left id
    refine ⟨?_, fun w _ _ => hopen w, fun w => ?_⟩
    · rw [Room.news_eq hlog, hd]
      intro o ho t ht
      simp only [replaceOutput, List.append_nil, List.mem_append] at ho
      rcases ho with ho | ho
      · rcases hout o ho with rfl | rfl <;> cases ht
      · rw [hrest o ho] at ht
        exact (Option.some.inj ht).symm
    · rw [Bool.eq_iff_iff, Room.register, Room.ready_mark hbase', hfades.ready, hfades.isOpen]
      simp [hclosed]

theorem Watched.speaks (hs : w.speaker e = some ws) :
    (∃ frame, e = .message ws frame) ∨
      ∃ i p, e = .verified i ∧ w.room.pending[i]? = some p ∧ p.ws = ws := by
  cases e with
  | message ws' frame =>
      rw [Watch.speaker] at hs
      split at hs
      · obtain rfl := Option.some.inj hs
        exact .inl ⟨frame, rfl⟩
      · cases hs
  | verified i =>
      rw [Watch.speaker] at hs
      split at hs
      · obtain ⟨p, hp, hws⟩ := Option.map_eq_some_iff.mp hs
        exact .inr ⟨i, p, rfl, hp, hws⟩
      · cases hs
  | _ => cases hs

theorem Did.harmless_message {frame : Frame} (h : Did subtle r (.message ws frame) r')
    (hclosed : r.isOpen ws = false) (hlt : ws < r.sockets.length) :
    Harmless r ws r' ↔ Restrained subtle r (.message ws frame) := by
  cases h with
  | dropped hidle =>
      refine iff_of_true (harmless_quiet hclosed rfl rfl) fun hm hframe => ?_
      rcases hidle hm with hnone | ⟨hrelay, hkick⟩
      · exact hnone
      · simp [hrelay, hkick] at hframe
  | bad code _ _ hframe =>
      refine iff_of_true ?_ fun hm hspoken => ?_
      · refine harmless_of_fades hclosed (fades_closeFromServer hlt code ws) (fun _ h => h) ?_
        simp [Output.target]
      · simp [(hframe hm).1, (hframe hm).2] at hspoken
  | @down _ _ viewer data hm hframe hviewer =>
      have hopen := Room.isOpen_of_viewing (Room.viewing_of_openViewer hviewer)
      refine iff_of_false (not_harmless rfl List.mem_cons_self rfl hopen hclosed) fun h => ?_
      simp [h hm (.inl hframe)] at hviewer
  | @kicked _ _ viewer hm hframe hviewer =>
      have hopen := Room.isOpen_of_viewing (Room.viewing_of_openViewer hviewer)
      have hlog := (Shape.closeFromServer r viewer CLOSE_KICKED ws).log
      refine iff_of_false (not_harmless hlog List.mem_cons_self rfl hopen hclosed) fun h => ?_
      simp [h hm (.inr hframe)] at hviewer
  | up data hviewer hhost =>
      have hopen := Room.isOpen_of_viewing (Room.viewing_of_openViewer hviewer)
      simp [hclosed] at hopen
  | suspended hws hm =>
      refine iff_of_true (harmless_quiet hclosed rfl rfl) fun hm' => ?_
      simp [hm] at hm'
  | hostEnded he => cases he
  | viewerEnded he => cases he
  | ended he => cases he

theorem Did.harmless_verified {i : Nat} {p : Pending} (h : Did subtle r (.verified i) r')
    (hb : Bound subtle r) (hp : r.pending[i]? = some p) (hclosed : r.isOpen p.ws = false) :
    Harmless r p.ws r' ↔ Restrained subtle r (.verified i) := by
  have hbase := (hb.pending p (List.mem_of_getElem? hp)).1
  cases h with
  | @failed _ q out hq hbad hout =>
      obtain rfl : p = q := Option.some.inj (hp.symm.trans hq)
      refine iff_of_true ?_ fun q hq' hgood => ?_
      · have hfades := fades_failed i r.owner hout (Room.lt_of_base hbase) CLOSE_AUTH
        refine harmless_of_fades hclosed hfades (fun _ h => h) fun o ho t ht => ?_
        rcases List.mem_append.mp ho with ho | ho
        · rcases hout o ho with rfl | rfl <;> cases ht
        · rw [List.mem_singleton.mp ho] at ht
          exact (Option.some.inj ht).symm
      · obtain rfl : p = q := Option.some.inj (hp.symm.trans hq')
        simp [hbad] at hgood
  | @registered _ q out hq hgood hout =>
      obtain rfl : p = q := Option.some.inj (hp.symm.trans hq)
      refine (harmless_register hclosed rfl hbase i _ hout).trans ?_
      constructor
      · intro hnone _ _ _
        exact hnone
      · intro h
        exact h p hp hgood
  | hostEnded he => cases he
  | viewerEnded he => cases he
  | ended he => cases he

theorem Watched.inert_iff (hw : Watched subtle w) (hd : w.room.delivers e = true) :
    Inert subtle w e ↔ Guarded subtle w e := by
  have hdid : Did subtle w.room e (w.room.handle subtle e) := handle_did hd
  cases hs : w.speaker e with
  | none => simp [Inert, Guarded, hs]
  | some ws =>
      have hclosed := hw.speaker_shut hs
      have hstep : Harmless w.room ws (w.room.handle subtle e) ↔ Restrained subtle w.room e := by
        rcases Watched.speaks hs with ⟨frame, rfl⟩ | ⟨i, p, rfl, hp, rfl⟩
        · exact hdid.harmless_message hclosed (Room.lt_of_awaits hd)
        · exact hdid.harmless_verified hw.bound hp hclosed
      simpa [Inert, Guarded, hs] using hstep

theorem closed_inert {es : List Event}
    (hrun : Runs.Along (Watch.next subtle) (fun w e => Delivered w.room e) .new es) :
    Runs.Along (Watch.next subtle) (Inert subtle) .new es ↔
      Runs.Along (Watch.next subtle) (Guarded subtle) .new es :=
  Runs.along_iff (Watched subtle) (fun _ _ hw hd => hw.inert_iff hd) (fun _ _ hw hd _ => hw.next hd)
    watched_new hrun

end

-- the registered host is closed for a bad frame, and its kick is delivered before its close event
def sampleLateKick : List Event := sampleRegister ++
  [joinsViewer, .message 0 (.text ['x']), .message 0 (.text (typed "kick" []))]

theorem sample_closed_inert : Runs.Along (Watch.next sampleSubtle) (Inert sampleSubtle) .new
    (sampleRegister ++ [joinsViewer, .message 1 (.text ['x']), relays 1 "00", .message 0 (.text ['x']),
      .message 0 (.text (typed "kick" []))]) :=
  (closed_inert (by decide +kernel)).mpr (by decide +kernel)

theorem closed_host_kicks :
    Runs.Along (Watch.next sampleSubtle) (fun w e => Delivered w.room e) .new sampleLateKick ∧
      ¬ Runs.Along (Watch.next sampleSubtle) (Inert sampleSubtle) .new sampleLateKick := by
  refine ⟨by decide +kernel, fun h => ?_⟩
  obtain ⟨-, -, -, -, -, hinert, -⟩ := h
  have hopen := (hinert 0 (by decide +kernel)).isOpen 1 (by decide) (by decide +kernel)
  revert hopen
  decide +kernel

end SimpleRemote.Signaling
