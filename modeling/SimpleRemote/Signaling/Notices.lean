import SimpleRemote.Signaling.Ownership

namespace SimpleRemote.Signaling
open ByteCodec Json

-- where a host socket stands in its stream of notices
inductive Stance where
  | waiting
  | idle
  | hosting (viewer : Nat)
  deriving DecidableEq

namespace Stance

def notice (cause : Nat) : Stance → ServerFrame → Option Stance
  | .waiting, .registered _ => some .idle
  | .idle, .viewerJoined => some (.hosting cause)
  | .hosting v, .viewerLeft => if v = cause then some .idle else none
  | .hosting v, .relay _ => if v = cause then some (.hosting v) else none
  | _, .viewerJoined => none
  | _, .viewerLeft => none
  | _, .relay _ => none
  | s, _ => some s

def hear (h : Nat) (s : Stance) : Output → Option Stance
  | .sent ws frame cause => if ws = h then s.notice cause frame else some s
  | .closed ws code cause =>
      if s = .hosting ws ∧ cause = h ∧ cause ≠ ws ∧ code = CLOSE_KICKED then some .idle else some s
  | _ => some s

def after (h : Nat) (log : List Output) : Option Stance := log.foldlM (hear h) .waiting

theorem after_append (h : Nat) (log out : List Output) :
    after h (log ++ out) = (after h log).bind fun s => out.foldlM (hear h) s :=
  List.foldlM_append

end Stance

namespace Room

def stance (r : Room) (h : Nat) : Option Stance := Stance.after h r.log

def told (r : Room) (h v : Nat) : Prop := .sent h .viewerJoined v ∈ r.log

end Room

structure Bracketed (r : Room) : Prop where
  ordered : ∀ h, (r.base h).isSome → (r.stance h).isSome
  ended : ∀ h v, r.ready h = true → r.stance h = some (.hosting v) → r.viewing v = true

def frameMessage (frame : Frame) : Option Value :=
  if MAX_MESSAGE_BYTES < frame.size then none else parse frame

def Frame.isRelay (frame : Frame) : Bool := ((frameMessage frame).bind relayData).isSome

def Frame.isKick (frame : Frame) : Bool := (frameMessage frame).any fun msg => hasType msg "kick"

-- the open viewer loses its socket to something other than a close, an error or a kick by `host`
def Event.cuts (r : Room) (host viewer : Nat) : Event → Prop
  | .message ws frame => (ws = viewer ∧ frame.isRelay = false) ∨
      (ws ≠ host ∧ r.marked ws = true ∧ frame.isKick = true)
  | .close ws _ => ws ≠ host ∧ r.marked ws = true
  | .error ws => ws ≠ host ∧ r.marked ws = true
  | _ => False

def Event.speaks (viewer : Nat) : Event → Prop
  | .message ws frame => ws = viewer ∧ frame.isRelay = true
  | .close ws _ => ws = viewer
  | .error ws => ws = viewer
  | _ => False

-- the registered host was told that the open viewer joined, or hears nothing of that viewer
def Reported (r : Room) (e : Event) : Prop :=
  ∀ host viewer, r.authedHost = some host → r.openViewer = some viewer →
    (r.told host viewer → ¬ e.cuts r host viewer) ∧ (¬ r.told host viewer → ¬ e.speaks viewer)

instance (r : Room) (h v : Nat) : Decidable (r.told h v) := inferInstanceAs (Decidable (_ ∈ _))

instance (r : Room) (h v : Nat) (e : Event) : Decidable (e.cuts r h v) :=
  match e with
  | .fetch _ _ => .isFalse id
  | .message _ _ => inferInstanceAs (Decidable (_ ∨ _))
  | .verified _ => .isFalse id
  | .close _ _ => inferInstanceAs (Decidable (_ ∧ _))
  | .error _ => inferInstanceAs (Decidable (_ ∧ _))

instance (v : Nat) (e : Event) : Decidable (e.speaks v) :=
  match e with
  | .fetch _ _ => .isFalse id
  | .message _ _ => inferInstanceAs (Decidable (_ ∧ _))
  | .verified _ => .isFalse id
  | .close _ _ => inferInstanceAs (Decidable (_ = _))
  | .error _ => inferInstanceAs (Decidable (_ = _))

instance (r : Room) (e : Event) : Decidable (Reported r e) :=
  match hh : r.authedHost, hv : r.openViewer with
  | some h, some v =>
      decidable_of_iff ((r.told h v → ¬ e.cuts r h v) ∧ (¬ r.told h v → ¬ e.speaks v))
        (by simp [Reported, hh, hv])
  | none, _ => .isTrue (by simp [Reported, hh])
  | some _, none => .isTrue (by simp [Reported, hv])

def Deaf (h : Nat) (out : List Output) : Prop :=
  ∀ o ∈ out, ∀ s : Stance, s.hear h o = some s

def Safe (h : Nat) (out : List Output) : Prop :=
  ∀ o ∈ out, ∀ s : Stance, (s.hear h o).isSome

section
variable {h : Nat} {out log : List Output}

theorem Deaf.after (hd : Deaf h out) : Stance.after h (log ++ out) = Stance.after h log := by
  rw [Stance.after_append]
  have hstay (s : Stance) : out.foldlM (Stance.hear h) s = some s := by
    induction out with
    | nil => rfl
    | cons o out ih =>
        rw [List.foldlM_cons, hd o List.mem_cons_self s]
        exact ih fun o' ho' => hd o' (List.mem_cons_of_mem _ ho')
  cases Stance.after h log with
  | none => rfl
  | some s => exact hstay s

theorem Safe.after (hs : Safe h out) (hlog : (Stance.after h log).isSome) :
    (Stance.after h (log ++ out)).isSome := by
  rw [Stance.after_append]
  obtain ⟨s, hs'⟩ := Option.isSome_iff_exists.mp hlog
  rw [hs', Option.bind_some]
  clear hs' hlog
  induction out generalizing s with
  | nil => rfl
  | cons o out ih =>
      obtain ⟨s', ho⟩ := Option.isSome_iff_exists.mp (hs o List.mem_cons_self s)
      rw [List.foldlM_cons, ho]
      exact ih (fun o' ho' => hs o' (List.mem_cons_of_mem _ ho')) s'

theorem deaf_nil : Deaf h [] := fun _ ho => by cases ho

theorem Deaf.cons {o : Output} (ho : ∀ s : Stance, s.hear h o = some s) (hd : Deaf h out) :
    Deaf h (o :: out) := by
  intro o' ho'
  rcases List.mem_cons.mp ho' with rfl | ho'
  · exact ho
  · exact hd o' ho'

theorem hear_closed {ws code cause : Nat} (hne : cause ≠ h ∨ cause = ws ∨ code ≠ CLOSE_KICKED)
    (s : Stance) : s.hear h (.closed ws code cause) = some s := by
  refine if_neg ?_
  rintro ⟨-, hc, hws, hk⟩
  rcases hne with h' | h' | h'
  · exact h' hc
  · exact hws h'
  · exact h' hk

theorem hear_sent {ws cause : Nat} {frame : ServerFrame} (hne : ws ≠ h) (s : Stance) :
    s.hear h (.sent ws frame cause) = some s := if_neg hne

theorem safe_closed {ws code cause : Nat} : Safe h [.closed ws code cause] := by
  intro o ho s
  rw [List.mem_singleton.mp ho, Stance.hear]
  split <;> rfl

end

def Socket.Plain (s : Socket) : Prop := (s.ended = true → s.isOpen = false) ∧
  ∀ a, s.attachment = .viewer a → s.ended = false → a.closedByServer = !s.isOpen

namespace Room

def Plain (r : Room) : Prop := ∀ (ws : Nat) (s : Socket), r.sockets[ws]? = some s → s.Plain

-- a host socket, or one still to come
def notViewer (r : Room) (h : Nat) : Prop := (r.base h).isSome ∨ r.sockets.length ≤ h

def unnoticed (r : Room) (h : Nat) : Prop :=
  r.sockets.length ≤ h ∨ (r.isOpen h = true ∧ r.marked h = false ∧ (r.base h).isSome)

end Room

def Live (r : Room) (h : Nat) (s : Stance) : Prop :=
  s ≠ .waiting ∧ ∀ v, s = .hosting v ↔ r.viewing v = true ∧ r.told h v

structure Tidy (r : Room) : Prop where
  plain : r.Plain
  oneHost : ∀ h h', r.ready h = true → r.ready h' = true → h = h'
  oneViewer : ∀ v v', r.viewing v = true → r.viewing v' = true → v = v'
  fresh : ∀ h, r.unnoticed h → r.stance h = some .waiting ∧ ∀ v, ¬ r.told h v
  live : ∀ h, r.ready h = true → ∃ s, r.stance h = some s ∧ Live r h s
  known : ∀ h v, r.told h v → v < r.sockets.length
  sound : ∀ h, (r.base h).isSome → (r.stance h).isSome

theorem Tidy.bracketed {r : Room} (ht : Tidy r) : Bracketed r where
  ordered := ht.sound
  ended := by
    intro h v hr hs
    obtain ⟨s, hs', -, hlive⟩ := ht.live h hr
    obtain rfl : s = .hosting v := Option.some.inj (hs'.symm.trans hs)
    exact ((hlive v).mp rfl).1

section
variable {r r' : Room} {shut unmarked : Nat → Prop} {out : List Output}

theorem Room.lt_of_isOpen {ws : Nat} (h : r.isOpen ws = true) : ws < r.sockets.length := by
  by_contra hge
  rw [Room.isOpen, List.getElem?_eq_none (by omega)] at h
  cases h

def NoJoin (out : List Output) : Prop := ∀ h v, .sent h .viewerJoined v ∉ out

theorem NoJoin.told (hout : NoJoin out) (hlog : r'.log = r.log ++ out) (h v : Nat) :
    r'.told h v ↔ r.told h v := by
  rw [Room.told, hlog, List.mem_append, Room.told]
  exact or_iff_left (hout h v)

theorem Deaf.stance {h : Nat} (hd : Deaf h out) (hlog : r'.log = r.log ++ out) :
    r'.stance h = r.stance h := by
  rw [Room.stance, hlog]
  exact hd.after

-- what a host, or one still to come, may make of the outputs of a step
inductive Heard (r r' : Room) (shut : Nat → Prop) (out : List Output) (h : Nat) : Prop
  | deaf (hd : Deaf h out)
      (hkept : r'.ready h = true → ∀ v, r.viewing v = true → r.told h v → ¬ shut v)
  | gone (hs : Safe h out) (hlt : h < r.sockets.length) (hopen : r'.isOpen h = false)
  | live (hr : r.ready h = true) (hlive : ∃ s, r'.stance h = some s ∧ Live r' h s)

theorem Room.base_of_marked {ws : Nat} (h : r.marked ws = true) : (r.base ws).isSome := by
  rw [marked] at h
  rw [base]
  cases hs : r.sockets[ws]? with
  | none => simp [hs] at h
  | some s =>
      obtain ⟨_ | _, o, e⟩ := s
      · rfl
      · simp [hs, Socket.marked] at h

theorem Room.lt_of_marked {ws : Nat} (h : r.marked ws = true) : ws < r.sockets.length := by
  by_contra hge
  rw [Room.marked, List.getElem?_eq_none (by omega)] at h
  cases h

theorem Tidy.outline (ht : Tidy r) (ho : Outline r r' shut unmarked out) (hplain : r'.Plain)
    (hmark : ∀ h, unmarked h → shut h) (hjoin : NoJoin out)
    (hheard : ∀ h, r.notViewer h → Heard r r' shut out h) : Tidy r' := by
  have hready (h : Nat) (hr : r'.ready h = true) : r.ready h = true := ((ho.ready h).mp hr).1
  have hhost (h : Nat) (hr : r'.ready h = true) : r.notViewer h :=
    .inl (Room.base_of_marked (Room.ready_iff.mp (hready h hr)).2)
  have htold (h v : Nat) : r'.told h v ↔ r.told h v := hjoin.told ho.log h v
  refine ⟨hplain, ?_, ?_, ?_, ?_, ?_, ?_⟩
  · intro h h' hr hr'
    exact ht.oneHost h h' (hready h hr) (hready h' hr')
  · intro v v' hv hv'
    exact ht.oneViewer v v' ((ho.viewing v).mp hv).1 ((ho.viewing v').mp hv').1
  · intro h hu
    have hold : r.unnoticed h ∧ (r'.isOpen h = true ∨ r.sockets.length ≤ h) := by
      rcases hu with hlen | ⟨hopen, hm, hb⟩
      · rw [ho.length] at hlen
        exact ⟨.inl hlen, .inr hlen⟩
      · rw [ho.base] at hb
        obtain ⟨hopen', hshut⟩ := (ho.isOpen h).mp hopen
        have hm' : r.marked h = false := by
          by_contra hne
          have hmarked := (ho.marked h).mpr ⟨Bool.not_eq_false _ ▸ hne, fun hu => hshut (hmark h hu)⟩
          simp [hm] at hmarked
        exact ⟨.inr ⟨hopen', hm', hb⟩, .inl hopen⟩
    have hnot : r.notViewer h := hold.1.elim .inr fun h => .inl h.2.2
    obtain ⟨hs, huntold⟩ := ht.fresh h hold.1
    rcases hheard h hnot with ⟨hd, -⟩ | ⟨-, hlt, hclosed⟩ | ⟨hr, -⟩
    · exact ⟨(hd.stance ho.log).trans hs, fun v hv => huntold v ((htold h v).mp hv)⟩
    · rcases hold.2 with hopen | hlen
      · simp [hclosed] at hopen
      · omega
    · obtain ⟨s, hs', hne, -⟩ := ht.live h hr
      exact absurd (Option.some.inj (hs'.symm.trans hs)) hne
  · intro h hr
    rcases hheard h (hhost h hr) with ⟨hd, hkept⟩ | ⟨-, -, hclosed⟩ | ⟨-, hlive⟩
    · obtain ⟨s, hs, hne, hlive⟩ := ht.live h (hready h hr)
      refine ⟨s, (hd.stance ho.log).trans hs, hne, fun v => ?_⟩
      rw [hlive v, ho.viewing, htold]
      constructor
      · rintro ⟨hv, hv'⟩
        exact ⟨⟨hv, hkept hr v hv hv'⟩, hv'⟩
      · rintro ⟨⟨hv, -⟩, hv'⟩
        exact ⟨hv, hv'⟩
    · have := (Room.ready_iff.mp hr).1
      simp [hclosed] at this
    · exact hlive
  · intro h v hv
    rw [ho.length]
    exact ht.known h v ((htold h v).mp hv)
  · intro h hb
    rw [ho.base] at hb
    rcases hheard h (.inl hb) with ⟨hd, -⟩ | ⟨hs, -, -⟩ | ⟨-, s, hs, -⟩
    · rw [hd.stance ho.log]
      exact ht.sound h hb
    · rw [Room.stance, ho.log]
      exact hs.after (ht.sound h hb)
    · rw [hs]
      rfl

-- `P` is what it takes for the notices to stay in order
def Judged (r' : Room) (P : Prop) : Prop := (P → Tidy r') ∧ (¬ P → ¬ Bracketed r')

theorem judged_of_tidy {P : Prop} (ht : Tidy r') (hP : P) : Judged r' P :=
  ⟨fun _ => ht, fun h => absurd hP h⟩

theorem Judged.congr {P Q : Prop} (hj : Judged r' P) (hPQ : Q ↔ P) : Judged r' Q :=
  ⟨fun h => hj.1 (hPQ.mp h), fun h => hj.2 fun hp => h (hPQ.mpr hp)⟩

theorem Judged.iff {P : Prop} (hj : Judged r' P) : Bracketed r' ↔ P := by
  constructor
  · intro hb
    by_contra hP
    exact hj.2 hP hb
  · intro hP
    exact (hj.1 hP).bracketed

theorem Tidy.cut (ht : Tidy r) (ho : Outline r r' shut unmarked out) (hplain : r'.Plain)
    (hmark : ∀ h, unmarked h → shut h) (hjoin : NoJoin out)
    (hdeaf : ∀ h, r.notViewer h → Deaf h out ∨
      Safe h out ∧ h < r.sockets.length ∧ r'.isOpen h = false) :
    Judged r' (∀ h v, r'.ready h = true → r.viewing v = true → r.told h v → ¬ shut v) := by
  constructor
  · intro hkept
    refine ht.outline ho hplain hmark hjoin fun h hn => ?_
    rcases hdeaf h hn with hd | ⟨hs, hlt, hopen⟩
    · exact .deaf hd fun hr v => hkept h v hr
    · exact .gone hs hlt hopen
  · intro hlost hb
    push Not at hlost
    obtain ⟨h, v, hr', hv, htold, hshut⟩ := hlost
    obtain ⟨hr, -, -⟩ := (ho.ready h).mp hr'
    obtain ⟨hopen, hm⟩ := Room.ready_iff.mp hr'
    have hm' := ((ho.marked h).mp hm).1
    have hd : Deaf h out := by
      rcases hdeaf h (.inl (Room.base_of_marked hm')) with hd | ⟨-, -, hclosed⟩
      · exact hd
      · simp [hclosed] at hopen
    obtain ⟨s, hs, -, hlive⟩ := ht.live h hr
    rw [(hlive v).mpr ⟨hv, htold⟩] at hs
    have hviewing := hb.ended h v hr' ((hd.stance ho.log).trans hs)
    exact ((ho.viewing v).mp hviewing).2 hshut

theorem Tidy.kept (ht : Tidy r) (ho : Outline r r' shut unmarked out) (hplain : r'.Plain)
    (hmark : ∀ h, unmarked h → shut h) (hjoin : NoJoin out)
    (hdeaf : ∀ h, r.notViewer h → Deaf h out ∨
      Safe h out ∧ h < r.sockets.length ∧ r'.isOpen h = false)
    (hshut : ∀ v, shut v → r.viewing v = false) : Tidy r' := by
  refine (ht.cut ho hplain hmark hjoin hdeaf).1 fun h v _ hv _ hs => ?_
  simp [hshut v hs] at hv

theorem Tidy.speak (ht : Tidy r) {h v : Nat} {frame : ServerFrame} {rest : List Output}
    (ho : Outline r r' shut nobody (.sent h frame v :: rest)) (hplain : r'.Plain)
    (hr : r.ready h = true) (hv : r.viewing v = true)
    (hjoin : NoJoin (.sent h frame v :: rest)) (hrest : ∀ h, r.notViewer h → Deaf h rest)
    (hidle : Stance.idle.notice v frame = none)
    (hnext : r.told h v → ∃ s, (Stance.hosting v).notice v frame = some s ∧ Live r' h s) :
    Judged r' (r.told h v) := by
  have hhost : r.notViewer h := .inl (Room.base_of_marked (Room.ready_iff.mp hr).2)
  obtain ⟨s, hs, hne, hlive⟩ := ht.live h hr
  have hstance : r'.stance h = s.notice v frame := by
    have hhead : r'.log = (r.log ++ [.sent h frame v]) ++ rest := by rw [ho.log]; simp
    rw [Room.stance, hhead, (hrest h hhost).after, Stance.after_append]
    change (r.stance h).bind _ = _
    rw [hs, Option.bind_some, List.foldlM_cons, Stance.hear, if_pos rfl]
    cases s.notice v frame <;> rfl
  constructor
  · intro htold
    obtain ⟨s', hs', hlive'⟩ := hnext htold
    rw [(hlive v).mpr ⟨hv, htold⟩, hs'] at hstance
    refine ht.outline ho hplain (fun _ h => h.elim) hjoin fun h' hn => ?_
    by_cases hh : h' = h
    · subst hh
      exact .live hr ⟨s', hstance, hlive'⟩
    · refine .deaf ((hrest h' hn).cons (hear_sent (Ne.symm hh))) fun hr' => ?_
      exact absurd (ht.oneHost h' h ((ho.ready h').mp hr').1 hr) hh
  · intro huntold hb
    have hs_idle : s = .idle := by
      cases hcase : s with
      | waiting => exact absurd hcase hne
      | idle => rfl
      | hosting v' =>
          obtain ⟨hv', htold⟩ := (hlive v').mp hcase
          exact absurd (ht.oneViewer v' v hv' hv ▸ htold) huntold
    rw [hs_idle, hidle] at hstance
    have hbase : (r'.base h).isSome := by
      rw [ho.base]
      exact Room.base_of_marked (Room.ready_iff.mp hr).2
    have := hb.ordered h hbase
    simp [hstance] at this

end

namespace Room
variable {r r' : Room}

theorem Plain.of_sockets (hp : r.Plain) (hs : r'.sockets = r.sockets) : r'.Plain := by
  intro ws s h
  rw [hs] at h
  exact hp ws s h

theorem Plain.update (hp : r.Plain) (ws : Nat) {f : Socket → Socket}
    (hf : ∀ s, r.sockets[ws]? = some s → s.Plain → (f s).Plain) : (r.update ws f).Plain := by
  intro ws' s' hs'
  by_cases hws : ws = ws'
  · subst hws
    rw [sockets_update_self] at hs'
    obtain ⟨s, hs, rfl⟩ := Option.map_eq_some_iff.mp hs'
    exact hf s hs (hp ws s hs)
  · rw [sockets_update_of_ne r f hws] at hs'
    exact hp ws' s' hs'

theorem Plain.send (hp : r.Plain) (ws : Nat) (frame : ServerFrame) (cause : Nat) :
    (r.send ws frame cause).Plain := by
  rw [Room.send]
  split
  · exact hp.of_sockets rfl
  · exact hp

theorem Plain.finish (hp : r.Plain) (ws : Nat) : (r.finish ws).Plain :=
  hp.update ws fun _ _ _ => ⟨fun _ => rfl, fun _ _ h => by cases h⟩

theorem Plain.setHost (hp : r.Plain) (ws : Nat) (a : HostAttachment) :
    (r.setAttachment ws (.host a)).Plain :=
  hp.update ws fun _ _ h => ⟨h.1, fun _ ha => by cases ha⟩

theorem Plain.close (hp : r.Plain) {ws : Nat} (h : r.isOpen ws = false) (code cause : Nat) :
    (r.close ws code cause).Plain := by
  refine (hp.update ws fun s hs hplain => ?_).of_sockets rfl
  have hclosed : s.isOpen = false := by simpa [Room.isOpen, hs] using h
  exact ⟨fun _ => rfl, fun a ha he => (hplain.2 a ha he).trans (by rw [hclosed])⟩

theorem Plain.closeFromServer (hp : r.Plain) (ws : Nat) (code cause : Nat) :
    (r.closeFromServer ws code cause).Plain := by
  intro ws' s' hs'
  rw [Room.closeFromServer] at hs'
  by_cases hws : ws = ws'
  · subst hws
    split at hs'
    · change ((r.setAttachment ws (.viewer ⟨true⟩)).update ws _).sockets[ws]? = some s' at hs'
      rw [sockets_update_self, setAttachment, sockets_update_self] at hs'
      obtain ⟨s₁, hs₁, rfl⟩ := Option.map_eq_some_iff.mp hs'
      obtain ⟨s, -, rfl⟩ := Option.map_eq_some_iff.mp hs₁
      refine ⟨fun _ => rfl, fun a ha _ => ?_⟩
      obtain rfl := Attachment.viewer.inj ha
      rfl
    · rename_i hnot
      change (r.update ws _).sockets[ws]? = some s' at hs'
      rw [sockets_update_self] at hs'
      obtain ⟨s, hs, rfl⟩ := Option.map_eq_some_iff.mp hs'
      refine ⟨fun _ => rfl, fun a ha _ => ?_⟩
      exact absurd (by rw [attachment, hs, Option.map_some]; exact congrArg some ha) (hnot a)
  · split at hs'
    · change ((r.setAttachment ws (.viewer ⟨true⟩)).update ws _).sockets[ws']? = some s' at hs'
      rw [sockets_update_of_ne _ _ hws, setAttachment, sockets_update_of_ne _ _ hws] at hs'
      exact hp ws' s' hs'
    · change (r.update ws _).sockets[ws']? = some s' at hs'
      rw [sockets_update_of_ne _ _ hws] at hs'
      exact hp ws' s' hs'

theorem Plain.hostGone (hp : r.Plain) (host cause : Nat) : (r.hostGone host cause).Plain := by
  rw [Room.hostGone]
  split
  · have hset := hp.setHost host
    dsimp only
    split
    · exact hset _
    · exact ((hset _).send _ _ _).closeFromServer _ _ _
  · exact hp

theorem Plain.accept (hp : r.Plain) {a : Attachment} (ha : ∀ v, a = .viewer v → v.closedByServer = false)
    (claim : Bool) : (r.accept a claim).Plain := by
  intro ws s hs
  rw [sockets_accept] at hs
  split at hs
  · obtain rfl := Option.some.inj hs
    exact ⟨fun h => (by cases h), fun v hv _ => ha v hv⟩
  · exact hp ws s hs

end Room

theorem Tidy.authedHost_iff {r : Room} (ht : Tidy r) {h : Nat} :
    r.authedHost = some h ↔ r.ready h = true := by
  constructor
  · exact Room.ready_of_authedHost
  · intro hr
    obtain ⟨h', hh'⟩ := Room.exists_authedHost hr
    rw [hh', ht.oneHost h' h (Room.ready_of_authedHost hh') hr]

theorem Tidy.openViewer_iff {r : Room} (ht : Tidy r) {v : Nat} :
    r.openViewer = some v ↔ r.viewing v = true := by
  constructor
  · exact Room.viewing_of_openViewer
  · intro hv
    obtain ⟨v', hv'⟩ := Room.exists_openViewer hv
    rw [hv', ht.oneViewer v' v (Room.viewing_of_openViewer hv') hv]

theorem Tidy.reported_iff {r : Room} (ht : Tidy r) (e : Event) : Reported r e ↔
    ∀ h v, r.ready h = true → r.viewing v = true →
      (r.told h v → ¬ e.cuts r h v) ∧ (¬ r.told h v → ¬ e.speaks v) := by
  simp only [Reported, ht.authedHost_iff, ht.openViewer_iff]

section
variable {r : Room}

theorem Room.base_of_viewing {v : Nat} (h : r.viewing v = true) : r.base v = none :=
  (Room.viewing_iff.mp h).2

theorem Room.base_of_ready {h : Nat} (hr : r.ready h = true) : (r.base h).isSome :=
  Room.base_of_marked (Room.ready_iff.mp hr).2

theorem Room.not_viewing_of_base {ws : Nat} (h : (r.base ws).isSome) : r.viewing ws = false := by
  by_contra hv
  rw [Room.base_of_viewing (Bool.not_eq_false _ ▸ hv)] at h
  cases h

theorem Room.not_notViewer {v : Nat} (hv : r.viewing v = true) : ¬ r.notViewer v := by
  rintro (hb | hlen)
  · rw [Room.base_of_viewing hv] at hb
    cases hb
  · have := Room.lt_of_isOpen (Room.isOpen_of_viewing hv)
    omega

theorem Tidy.closeFromServer (ht : Tidy r) (ws : Nat) {code : Nat} (hcode : code ≠ CLOSE_KICKED)
    (cause : Nat) : Judged (r.closeFromServer ws code cause)
      (∀ h v, r.ready h = true → r.viewing v = true → r.told h v → ws ≠ v) := by
  have ho := (Shape.closeFromServer r ws code cause).toOutline
  have hcut := ht.cut ho (ht.plain.closeFromServer _ _ _) (fun _ h => h.elim) (by simp [NoJoin])
    fun h _ => .inl (deaf_nil.cons (hear_closed (.inr (.inr hcode))))
  refine hcut.congr ?_
  constructor
  · intro hP h v hr hv htold heq
    exact hP h v ((ho.ready h).mp hr).1 hv htold heq.symm
  · intro hP h v hr hv htold heq
    refine hP h v ((ho.ready h).mpr ⟨hr, fun hws => ?_, id⟩) hv htold heq.symm
    have := Room.base_of_viewing hv
    rw [← heq, ← hws] at this
    simpa [this] using Room.base_of_ready hr

theorem Tidy.closeHost (ht : Tidy r) {ws code : Nat} (hcode : code ≠ CLOSE_KICKED)
    (hv : r.viewing ws = false) (cause : Nat) : Tidy (r.closeFromServer ws code cause) := by
  refine (ht.closeFromServer ws hcode cause).1 fun h v _ hv' _ heq => ?_
  simp [← heq, hv] at hv'

theorem Tidy.still (ht : Tidy r) {r' : Room} {out : List Output} (hs : r'.sockets = r.sockets)
    (hlog : r'.log = r.log ++ out) (hjoin : NoJoin out)
    (hdeaf : ∀ h, r.notViewer h → Deaf h out) : Tidy r' :=
  ht.kept (.of_sockets hs hlog) (ht.plain.of_sockets hs) (fun _ h => h.elim) hjoin
    (fun h hn => .inl (hdeaf h hn)) fun _ h => h.elim

theorem Tidy.sendViewer (ht : Tidy r) {v : Nat} (hv : r.viewing v = true) (data : Utf16)
    (cause : Nat) : Tidy (r.send v (.relay data) cause) := by
  have hsend : r.send v (.relay data) cause = r.emit (.sent v (.relay data) cause) := by
    rw [Room.send, if_pos (Room.isOpen_of_viewing hv)]
  rw [hsend]
  refine ht.still rfl rfl (by simp [NoJoin]) fun h hn => ?_
  exact deaf_nil.cons (hear_sent fun heq => Room.not_notViewer hv (heq ▸ hn))

theorem Tidy.kick (ht : Tidy r) {ws v : Nat} (hm : r.marked ws = true) (hv : r.viewing v = true) :
    Judged (r.closeFromServer v CLOSE_KICKED ws)
      (∀ h, r.ready h = true → r.told h v → ws = h) := by
  have ho := (Shape.closeFromServer r v CLOSE_KICKED ws).toOutline
  have hplain := ht.plain.closeFromServer v CLOSE_KICKED ws
  have hjoin : NoJoin [.closed v CLOSE_KICKED ws] := by simp [NoJoin]
  have hne : ws ≠ v := by
    rintro rfl
    have hb := Room.base_of_marked hm
    simp [Room.base_of_viewing hv] at hb
  by_cases hr : r.ready ws = true
  · refine judged_of_tidy ?_ fun h hr' _ => ht.oneHost ws h hr hr'
    refine ht.outline ho hplain (fun _ h => h.elim) hjoin fun h hn => ?_
    by_cases hh : ws = h
    · subst hh
      refine .live hr ?_
      obtain ⟨s, hs, hwaiting, hlive⟩ := ht.live ws hr
      have htold (w : Nat) : (r.closeFromServer v CLOSE_KICKED ws).told ws w ↔ r.told ws w :=
        hjoin.told ho.log ws w
      have hstance : (r.closeFromServer v CLOSE_KICKED ws).stance ws =
          s.hear ws (.closed v CLOSE_KICKED ws) := by
        rw [Room.stance, ho.log, Stance.after_append]
        change (r.stance ws).bind _ = _
        rw [hs, Option.bind_some, List.foldlM_cons]
        cases s.hear ws (.closed v CLOSE_KICKED ws) <;> rfl
      refine ⟨.idle, ?_, by simp, fun w => ?_⟩
      · rw [hstance, Stance.hear]
        cases s with
        | waiting => exact absurd rfl hwaiting
        | idle => simp
        | hosting w =>
            have hw := ht.oneViewer w v ((hlive w).mp rfl).1 hv
            simp [hw, hne]
      · simp only [reduceCtorEq, false_iff, not_and]
        intro hw _
        obtain ⟨hw', hne'⟩ := (ho.viewing w).mp hw
        exact hne' (ht.oneViewer w v hw' hv)
    · refine .deaf (deaf_nil.cons (hear_closed (.inl hh))) fun hr' => ?_
      exact absurd (ht.oneHost ws h hr ((ho.ready h).mp hr').1) hh
  · have hopen : r.isOpen ws = false := by
      by_contra hne'
      exact hr (Room.ready_iff.mpr ⟨Bool.not_eq_false _ ▸ hne', hm⟩)
    have hcut := ht.cut ho hplain (fun _ h => h.elim) hjoin fun h hn => by
      by_cases hh : ws = h
      · subst hh
        refine .inr ⟨safe_closed, Room.lt_of_marked hm, ?_⟩
        by_contra hne'
        have := ((ho.isOpen ws).mp (Bool.not_eq_false _ ▸ hne')).1
        simp [hopen] at this
      · exact .inl (deaf_nil.cons (hear_closed (.inl hh)))
    refine hcut.congr ?_
    constructor
    · intro hP h w hr' hw htold heq
      subst heq
      obtain rfl := hP h ((ho.ready h).mp hr').1 htold
      exact hr ((ho.ready ws).mp hr').1
    · intro hP h hr' htold
      refine absurd rfl (hP h v ((ho.ready h).mpr ⟨hr', fun hh => ?_, id⟩) hv htold)
      have hb := Room.base_of_ready hr'
      simp [hh, Room.base_of_viewing hv] at hb

theorem Tidy.relay (ht : Tidy r) {h v : Nat} (hr : r.ready h = true) (hv : r.viewing v = true)
    (data : Utf16) : Judged (r.send h (.relay data) v) (r.told h v) := by
  have ho := (Shape.send_of_isOpen (Room.ready_iff.mp hr).1 (.relay data) v).toOutline
  have hjoin : NoJoin [.sent h (.relay data) v] := by simp [NoJoin]
  refine ht.speak ho (ht.plain.send _ _ _) hr hv hjoin (fun _ _ => deaf_nil) rfl fun htold => ?_
  refine ⟨.hosting v, by simp [Stance.notice], by simp, fun w => ?_⟩
  rw [hjoin.told ho.log, ho.viewing]
  constructor
  · rintro heq
    obtain rfl := Stance.hosting.inj heq
    exact ⟨⟨hv, id⟩, htold⟩
  · rintro ⟨⟨hw, -⟩, -⟩
    rw [ht.oneViewer w v hw hv]

theorem frameMessage_eq {frame : Frame} (hsize : ¬ MAX_MESSAGE_BYTES < frame.size) :
    frameMessage frame = parse frame := if_neg hsize

theorem not_kick_of_relay {msg : Value} {data : Utf16} (h : relayData msg = some data) :
    hasType msg "kick" = false := by
  rw [relayData] at h
  split at h
  · rename_i ht
    have hrelay : stringField msg "t" = some (utf16 "relay".toList) := by simpa [hasType] using ht
    rw [hasType, hrelay]
    decide
  · cases h

theorem Tidy.badFrame (ht : Tidy r) (ws : Nat) {frame : Frame} {code : Nat}
    (hcode : code ≠ CLOSE_KICKED) (hrelay : frame.isRelay = false)
    (hkick : r.marked ws = true → frame.isKick = false) :
    Judged (r.closeFromServer ws code ws) (Reported r (.message ws frame)) := by
  refine (ht.closeFromServer ws hcode ws).congr ?_
  rw [ht.reported_iff]
  constructor
  · intro hP h v hr hv htold heq
    exact (hP h v hr hv).1 htold (.inl ⟨heq, hrelay⟩)
  · intro hP h v hr hv
    refine ⟨fun htold hcut => ?_, fun _ hs => absurd hs.2 (by simp [hrelay])⟩
    rcases hcut with ⟨heq, -⟩ | ⟨-, hm, hk⟩
    · exact hP h v hr hv htold heq
    · simp [hkick hm] at hk

theorem Tidy.reported_of_host (ht : Tidy r) {ws : Nat} {frame : Frame} (hb : (r.base ws).isSome)
    (hkick : r.marked ws = true → frame.isKick = false) : Reported r (.message ws frame) := by
  rw [ht.reported_iff]
  intro h v _ hv
  have hne : ws ≠ v := by
    rintro rfl
    simp [Room.base_of_viewing hv] at hb
  refine ⟨fun _ hcut => ?_, fun _ hs => hne hs.1⟩
  rcases hcut with ⟨heq, -⟩ | ⟨-, hm, hk⟩
  · exact hne heq
  · simp [hkick hm] at hk

theorem Tidy.onHostMessage (ht : Tidy r) {ws : Nat} {att : HostAttachment} {msg : Value}
    {frame : Frame} (hatt : r.attachment ws = some (.host att))
    (hmsg : frameMessage frame = some msg) :
    Judged (r.onHostMessage ws att msg) (Reported r (.message ws frame)) := by
  have hb : (r.base ws).isSome := by simp [Room.base_of_attachment hatt]
  have hv : r.viewing ws = false := Room.not_viewing_of_base hb
  have hm : r.marked ws = att.authed := Room.marked_of_attachment hatt
  have hkick : frame.isKick = hasType msg "kick" := by simp [Frame.isKick, hmsg]
  rw [Room.onHostMessage]
  split
  · rename_i hauthed
    split
    · rename_i data hdata
      refine judged_of_tidy ?_
        (ht.reported_of_host hb fun _ => hkick.trans (not_kick_of_relay hdata))
      split
      · rename_i v hviewer
        exact ht.sendViewer (Room.viewing_of_openViewer hviewer) _ ws
      · exact ht
    · split
      · rename_i hk
        split
        · rename_i v hviewer
          have hv' := Room.viewing_of_openViewer hviewer
          refine (ht.kick (hm.trans hauthed) hv').congr ?_
          rw [ht.reported_iff]
          constructor
          · intro hP h hr htold
            by_contra hne
            exact (hP h v hr hv').1 htold (.inr ⟨hne, hm.trans hauthed, hkick.trans hk⟩)
          · intro hP h w hr hw
            obtain rfl := ht.oneViewer w v hw hv'
            have hne : ws ≠ w := fun heq => by simp [heq, hw] at hv
            refine ⟨fun htold hcut => ?_, fun _ hs => hne hs.1⟩
            rcases hcut with ⟨heq, -⟩ | ⟨hne', -, -⟩
            · exact hne heq
            · exact hne' (hP h hr htold)
        · rename_i hnone
          refine judged_of_tidy ht ?_
          rw [ht.reported_iff]
          intro h v _ hv'
          simp [Room.not_viewing_of_openViewer hnone v] at hv'
      · rename_i hk
        refine judged_of_tidy (ht.closeHost (by decide) hv ws) (ht.reported_of_host hb fun _ => ?_)
        rw [hkick]
        simpa using hk
  · rename_i hauthed
    refine judged_of_tidy ?_ (ht.reported_of_host hb fun h => absurd (hm.symm.trans h) hauthed)
    split
    · rw [Room.authenticate]
      split
      · exact ht.closeHost (by decide) hv ws
      · exact ht.still rfl (List.append_nil _).symm (by simp [NoJoin]) fun _ _ => deaf_nil
    · exact ht.closeHost (by decide) hv ws

theorem Tidy.onViewerMessage (ht : Tidy r) {ws : Nat} {msg : Value} {frame : Frame}
    (hmarked : r.marked ws = false) (hmsg : frameMessage frame = some msg) :
    Judged (r.onViewerMessage ws msg) (Reported r (.message ws frame)) := by
  have hrelay : frame.isRelay = (relayData msg).isSome := by simp [Frame.isRelay, hmsg]
  rw [Room.onViewerMessage]
  split
  · rename_i hviewer
    have hv := Room.viewing_of_openViewer hviewer
    split
    · rename_i data hdata
      have hreported : Reported r (.message ws frame) ↔ ∀ h, r.ready h = true → r.told h ws := by
        rw [ht.reported_iff]
        simp only [Event.cuts, Event.speaks, hrelay, hdata, hmarked]
        constructor
        · intro hP h hr
          by_contra htold
          exact (hP h ws hr hv).2 htold ⟨rfl, rfl⟩
        · intro hP h v hr hv'
          obtain rfl := ht.oneViewer v ws hv' hv
          exact ⟨fun _ hcut => by simp at hcut, fun htold _ => htold (hP h hr)⟩
      split
      · rename_i h hhost
        have hr := Room.ready_of_authedHost hhost
        refine (ht.relay hr hv data).congr (hreported.trans ⟨fun hP => hP h hr, ?_⟩)
        intro htold h' hr'
        exact ht.oneHost h h' hr hr' ▸ htold
      · rename_i hnone
        refine judged_of_tidy ht (hreported.mpr fun h hr => ?_)
        simp [Room.not_ready_of_authedHost hnone h] at hr
    · rename_i hdata
      refine ht.badFrame ws (by decide) ?_ fun h => ?_
      · rw [hrelay, hdata]
        rfl
      · simp [hmarked] at h
  · rename_i hother
    refine judged_of_tidy ht ?_
    rw [ht.reported_iff]
    intro h v _ hv
    have hne : ws ≠ v := by
      rintro rfl
      exact hother (ht.openViewer_iff.mpr hv)
    simp [Event.cuts, Event.speaks, hmarked, hne]

theorem Tidy.webSocketMessage (ht : Tidy r) (ws : Nat) (frame : Frame) :
    Judged (r.webSocketMessage ws frame) (Reported r (.message ws frame)) := by
  have hunread (hmsg : frameMessage frame = none) :
      frame.isRelay = false ∧ (r.marked ws = true → frame.isKick = false) := by
    simp [Frame.isRelay, Frame.isKick, hmsg]
  rw [Room.webSocketMessage]
  split
  · rename_i hsize
    have hbad := hunread (if_pos hsize)
    exact ht.badFrame ws (by decide) hbad.1 hbad.2
  · rename_i hsize
    have hparse := frameMessage_eq hsize
    split
    · rename_i hnone
      have hbad := hunread (hparse.trans hnone)
      exact ht.badFrame ws (by decide) hbad.1 hbad.2
    · rename_i msg hmsg
      split
      · rename_i hatt
        exact ht.onHostMessage hatt (hparse.trans hmsg)
      · rename_i hnot
        refine ht.onViewerMessage ?_ (hparse.trans hmsg)
        by_contra hm
        have hb := Room.base_of_marked (Bool.not_eq_false _ ▸ hm)
        obtain ⟨c, hc⟩ := Option.isSome_iff_exists.mp hb
        obtain ⟨a, ha⟩ := Room.attachment_of_base hc
        exact hnot a ha

theorem Room.attachment_finish (r : Room) (ws : Nat) :
    (r.finish ws).attachment ws = r.attachment ws := by
  rw [attachment, finish, sockets_update_self, attachment]
  cases r.sockets[ws]? <;> rfl

theorem Room.openViewer_finish {ws : Nat} (h : (r.base ws).isSome) :
    (r.finish ws).openViewer = r.openViewer := by
  refine findIdx_modify _ _ fun s hs => ?_
  rw [base, hs] at h
  obtain ⟨_ | _, o, e⟩ := s
  · rfl
  · cases h

def GoneReported (r : Room) (ws : Nat) : Prop :=
  ∀ h v, r.ready h = true → r.viewing v = true →
    (r.told h v → ¬ (ws ≠ h ∧ r.marked ws = true)) ∧ (¬ r.told h v → ws ≠ v)

theorem Tidy.finish (ht : Tidy r) {ws : Nat} (hv : r.viewing ws = false) : Tidy (r.finish ws) := by
  refine ht.kept (Shape.finish r ws).toOutline (ht.plain.finish ws) (fun _ h => h.elim)
    (by simp [NoJoin]) (fun _ _ => .inl deaf_nil) ?_
  rintro v rfl
  exact hv

theorem Tidy.hostEnd (ht : Tidy r) {ws : Nat} (hm : r.marked ws = true) :
    Judged ((r.finish ws).hostGone ws ws) (GoneReported r ws) := by
  have hb := Room.base_of_marked hm
  obtain ⟨c, hc⟩ := Option.isSome_iff_exists.mp hb
  have hfinish := Shape.finish r ws
  have hgone := Shape.hostGone ((hfinish.base ws).trans hc) ws
  rw [Room.openViewer_finish hb] at hgone
  have ho := (hfinish.trans hgone).toOutline
  have hnotviewer (v : Nat) (hv : r.viewing v = true) : ws ≠ v := by
    rintro rfl
    simp [Room.base_of_viewing hv] at hb
  have hjoin : NoJoin ([] ++ Shape.goneOutput r.openViewer ws) := by
    cases r.openViewer <;> simp [NoJoin, Shape.goneOutput]
  have hdeaf (h : Nat) (hn : r.notViewer h) : Deaf h ([] ++ Shape.goneOutput r.openViewer ws) := by
    cases hviewer : r.openViewer with
    | none => exact deaf_nil
    | some v =>
        have hne : v ≠ h := by
          rintro rfl
          exact Room.not_notViewer (Room.viewing_of_openViewer hviewer) hn
        exact (deaf_nil.cons (hear_closed (.inr (.inr (by decide))))).cons (hear_sent hne)
  refine (ht.cut ho ((ht.plain.finish ws).hostGone ws ws) (fun h hu => ?_) hjoin
    fun h hn => .inl (hdeaf h hn)).congr ?_
  · exact .inl (hu.resolve_left id)
  · constructor
    · intro hP h v hr hv htold _
      obtain ⟨hr', hshut, -⟩ := (ho.ready h).mp hr
      exact (hP h v hr' hv).1 htold ⟨fun heq => hshut (.inl heq.symm), hm⟩
    · intro hP h v hr hv
      refine ⟨fun htold hcut => ?_, fun _ => hnotviewer v hv⟩
      refine hP h v ((ho.ready h).mpr ⟨hr, ?_, ?_⟩) hv htold (.inr (ht.openViewer_iff.mpr hv))
      · rintro (heq | hviewer)
        · exact hcut.1 heq.symm
        · have := Room.base_of_ready hr
          simp [Room.base_of_viewing (Room.viewing_of_openViewer hviewer)] at this
      · rintro (hfalse | heq)
        · exact hfalse
        · exact hcut.1 heq.symm

theorem Tidy.viewerEnd (ht : Tidy r) {ws : Nat} (hv : r.viewing ws = true)
    (hm : r.marked ws = false) :
    Judged (match (r.finish ws).authedHost with
      | some host => (r.finish ws).send host .viewerLeft ws
      | none => r.finish ws) (GoneReported r ws) := by
  have hfinish := Shape.finish r ws
  have hready (h : Nat) (hr : r.ready h = true) : (r.finish ws).ready h = true := by
    refine (hfinish.ready h).mpr ⟨hr, ?_, id⟩
    rintro rfl
    have := Room.base_of_ready hr
    simp [Room.base_of_viewing hv] at this
  split
  · rename_i h hhost
    have hr' := Room.ready_of_authedHost hhost
    have hr := ((hfinish.ready h).mp hr').1
    have ho := (hfinish.trans
      (Shape.send_of_isOpen (Room.ready_iff.mp hr').1 .viewerLeft ws)).toOutline
    have ho' : Outline r ((r.finish ws).send h .viewerLeft ws) (· = ws) nobody
        [.sent h .viewerLeft ws] := ho.congr (by simp) (by simp)
    have hjoin : NoJoin [.sent h .viewerLeft ws] := by simp [NoJoin]
    refine (ht.speak ho' ((ht.plain.finish ws).send _ _ _) hr hv hjoin (fun _ _ => deaf_nil) rfl
      fun htold => ?_).congr ?_
    · refine ⟨.idle, by simp [Stance.notice], by simp, fun w => ?_⟩
      simp only [reduceCtorEq, false_iff, not_and]
      intro hw _
      obtain ⟨hw', hne⟩ := (ho'.viewing w).mp hw
      exact hne (ht.oneViewer w ws hw' hv)
    · constructor
      · intro hP
        by_contra htold
        exact (hP h ws hr hv).2 htold rfl
      · intro htold h' v hr₂ hv₂
        obtain rfl := ht.oneHost h' h hr₂ hr
        obtain rfl := ht.oneViewer v ws hv₂ hv
        exact ⟨fun _ hcut => by simp [hm] at hcut, fun hnot => absurd htold hnot⟩
  · rename_i hnone
    have hno (h : Nat) (hr : r.ready h = true) : False := by
      have := Room.not_ready_of_authedHost hnone h
      simp [hready h hr] at this
    refine judged_of_tidy ?_ fun h v hr => (hno h hr).elim
    refine (ht.cut hfinish.toOutline (ht.plain.finish ws) (fun _ h => h.elim) (by simp [NoJoin])
      (fun _ _ => .inl deaf_nil)).1 fun h v hr => ?_
    exact (hno h ((hfinish.ready h).mp hr).1).elim

theorem Tidy.gone (ht : Tidy r) {ws : Nat} (hd : r.awaits ws = true) :
    Judged ((r.finish ws).onGone ws) (GoneReported r ws) := by
  have hquiet (hv : r.viewing ws = false) (hm : r.marked ws = false) :
      Judged (r.finish ws) (GoneReported r ws) := by
    refine judged_of_tidy (ht.finish hv) fun h v hr hv' => ?_
    refine ⟨fun _ hcut => by simp [hm] at hcut, ?_⟩
    rintro - rfl
    simp [hv] at hv'
  rw [Room.onGone, Room.attachment_finish]
  split
  · rename_i att hatt
    have hm := Room.marked_of_attachment hatt
    split
    · rename_i hauthed
      exact ht.hostEnd (hm.trans hauthed)
    · rename_i hauthed
      refine hquiet (Room.not_viewing_of_base ?_) (hm.trans (by simpa using hauthed))
      simp [Room.base_of_attachment hatt]
  · rename_i att hatt
    obtain ⟨s, hs, ha⟩ := Option.map_eq_some_iff.mp hatt
    have hended : s.ended = false := by simpa [Room.awaits, hs] using hd
    have hflag := (ht.plain ws s hs).2 att ha hended
    have hm : r.marked ws = false := by simp [Room.marked, hs, Socket.marked, ha]
    have hviewing : r.viewing ws = s.isOpen := by
      simp [Room.viewing, hs, Socket.openViewer, ha]
    split
    · rename_i hclosed
      refine hquiet ?_ hm
      rw [hviewing]
      simpa [hclosed] using hflag
    · rename_i hclosed
      refine ht.viewerEnd ?_ hm
      rw [hviewing]
      simpa [hclosed] using hflag
  · rename_i hnone
    rw [Room.awaits] at hd
    rw [Room.attachment, Option.map_eq_none_iff] at hnone
    simp [hnone] at hd

-- the reply to a close event says nothing to a host
theorem Judged.closed {P : Prop} (hj : Judged r P) {ws : Nat} (hopen : r.isOpen ws = false)
    (code : Nat) : Judged (r.close ws code ws) P := by
  have ho := (Shape.close r ws code ws).toOutline
  have hdeaf (h : Nat) : Deaf h [.closed ws code ws] :=
    deaf_nil.cons (hear_closed (.inr (.inl rfl)))
  have hkept (h : Nat) (hh : r.isOpen h = true) : (r.close ws code ws).isOpen h = true := by
    refine (ho.isOpen h).mpr ⟨hh, ?_⟩
    rintro rfl
    simp [hopen] at hh
  constructor
  · intro hP
    refine (hj.1 hP).kept ho ((hj.1 hP).plain.close hopen code ws) (fun _ h => h.elim)
      (by simp [NoJoin]) (fun h _ => .inl (hdeaf h)) ?_
    rintro v rfl
    by_contra hv
    simp [Room.isOpen_of_viewing (Bool.not_eq_false _ ▸ hv)] at hopen
  · intro hP hb
    refine hj.2 hP ⟨fun h hbase => ?_, fun h v hr hs => ?_⟩
    · rw [← (hdeaf h).stance ho.log]
      exact hb.ordered h ((ho.base h).symm ▸ hbase)
    · obtain ⟨hopen', hm⟩ := Room.ready_iff.mp hr
      have hr' := Room.ready_iff.mpr ⟨hkept h hopen', (ho.marked h).mpr ⟨hm, id⟩⟩
      exact ((ho.viewing v).mp (hb.ended h v hr' (((hdeaf h).stance ho.log).trans hs))).1

section
variable {r' : Room} {a : Attachment} {claim : Bool} (hs : r'.sockets = (r.accept a claim).sockets)
include hs

theorem Room.isOpen_accepted (ws : Nat) :
    r'.isOpen ws = if ws = r.sockets.length then true else r.isOpen ws := by
  rw [Room.isOpen, hs, Room.sockets_accept]
  split <;> rfl

theorem Room.base_accepted (ws : Nat) : r'.base ws =
    if ws = r.sockets.length then (Socket.mk a true false).base else r.base ws := by
  rw [Room.base, hs, ← Room.base, Room.base_accept]

theorem Room.marked_accepted (ws : Nat) : r'.marked ws =
    if ws = r.sockets.length then (Socket.mk a true false).marked else r.marked ws := by
  rw [Room.marked, hs, ← Room.marked, Room.marked_accept]

theorem Room.ready_accepted (hm : (Socket.mk a true false).marked = false) {ws : Nat}
    (hr : r'.ready ws = true) : r.ready ws = true := by
  rw [Room.ready_iff, Room.isOpen_accepted hs, Room.marked_accepted hs] at hr
  split at hr
  · simp [hm] at hr
  · exact Room.ready_iff.mpr hr

theorem Room.unnoticed_accepted {ws : Nat} (hu : r'.unnoticed ws) : r.unnoticed ws := by
  rcases hu with hlen | ⟨ho, hm, hb⟩
  · rw [hs, Room.accept, List.length_append] at hlen
    exact .inl (by omega)
  · by_cases hws : ws = r.sockets.length
    · exact .inl hws.ge
    · rw [Room.isOpen_accepted hs, if_neg hws] at ho
      rw [Room.marked_accepted hs, if_neg hws] at hm
      rw [Room.base_accepted hs, if_neg hws] at hb
      exact .inr ⟨ho, hm, hb⟩

theorem Room.length_accepted : r'.sockets.length = r.sockets.length + 1 := by
  rw [hs, Room.accept, List.length_append]
  rfl

end

theorem Room.not_viewing_length (r : Room) : r.viewing r.sockets.length = false := by
  by_contra hv
  have := Room.lt_of_isOpen (Room.isOpen_of_viewing (Bool.not_eq_false _ ▸ hv))
  omega

theorem Tidy.acceptHost (ht : Tidy r) (id key : Text) (claim : Bool) (n : ByteArr 32) :
    Tidy (r.acceptHost id key claim n).2 := by
  rw [Room.acceptHost]
  split
  · exact ht
  · split
    · exact ht
    · dsimp only
      rw [Room.send_accept]
      let r₁ := r.accept (.host ⟨false, toHex n.val, key, id⟩) claim
      let ws := r.sockets.length
      let r' := r₁.emit (.sent ws (.challenge (toHex n.val) id) ws)
      have hs : r'.sockets = r₁.sockets := rfl
      have hlog : r'.log = r.log ++ [.accepted ws claim, .sent ws (.challenge (toHex n.val) id) ws] :=
        List.append_assoc ..
      have hdeaf (h : Nat) :
          Deaf h [.accepted ws claim, .sent ws (.challenge (toHex n.val) id) ws] := by
        refine (deaf_nil.cons fun s => ?_).cons fun _ => rfl
        rw [Stance.hear]
        split
        · cases s <;> rfl
        · rfl
      have htold (h v : Nat) : r'.told h v ↔ r.told h v := NoJoin.told (by simp [NoJoin]) hlog h v
      have hviewing (v : Nat) : r'.viewing v = r.viewing v := by
        rw [Room.viewing_eq, Room.isOpen_accepted hs, Room.base_accepted hs]
        split
        · rename_i hv
          rw [hv, Room.not_viewing_length]
          rfl
        · rw [Room.viewing_eq]
      have hready (h : Nat) (hr : r'.ready h = true) : r.ready h = true :=
        Room.ready_accepted hs rfl hr
      change Tidy r'
      refine ⟨(ht.plain.accept (by simp) claim).of_sockets hs, ?_, ?_, ?_, ?_, ?_, ?_⟩
      · intro h h' hr hr'
        exact ht.oneHost h h' (hready h hr) (hready h' hr')
      · intro v v' hv hv'
        exact ht.oneViewer v v' ((hviewing v).symm.trans hv) ((hviewing v').symm.trans hv')
      · intro h hu
        obtain ⟨hstance, huntold⟩ := ht.fresh h (Room.unnoticed_accepted hs hu)
        exact ⟨((hdeaf h).stance hlog).trans hstance, fun v hv => huntold v ((htold h v).mp hv)⟩
      · intro h hr
        obtain ⟨s, hstance, hne, hlive⟩ := ht.live h (hready h hr)
        refine ⟨s, ((hdeaf h).stance hlog).trans hstance, hne, fun v => ?_⟩
        rw [hviewing, htold, hlive]
      · intro h v hv
        have := ht.known h v ((htold h v).mp hv)
        have := Room.length_accepted hs
        omega
      · intro h hb
        rw [Room.base_accepted hs] at hb
        rw [(hdeaf h).stance hlog]
        split at hb
        · rename_i hws
          rw [(ht.fresh h (.inl hws.ge)).1]
          rfl
        · exact ht.sound h hb

theorem Tidy.acceptViewer (ht : Tidy r) : Tidy r.acceptViewer.2 := by
  rw [Room.acceptViewer]
  split
  · exact ht
  · rename_i host hhost
    split
    · exact ht
    · rename_i hno
      dsimp only
      rw [Room.send_accept]
      have hr := Room.ready_of_authedHost hhost
      have hlt := Room.lt_of_marked (Room.ready_iff.mp hr).2
      have hnone (v : Nat) : r.viewing v = false :=
        Room.not_viewing_of_openViewer (not_not.mp hno) v
      let ws := r.sockets.length
      let r₁ := (r.accept (.viewer ⟨false⟩) false).emit (.sent ws .joined ws)
      have hopen : r₁.isOpen host = true := by
        have hs₁ : r₁.sockets = (r.accept (.viewer ⟨false⟩) false).sockets := rfl
        rw [Room.isOpen_accepted hs₁]
        simp [(Room.ready_iff.mp hr).1]
      let out : List Output := [.accepted ws false, .sent ws .joined ws, .sent host .viewerJoined ws]
      have hsend : r₁.send host .viewerJoined ws = r₁.emit (.sent host .viewerJoined ws) := by
        rw [Room.send, if_pos hopen]
      change Tidy (r₁.send host .viewerJoined ws)
      rw [hsend]
      let r' := r₁.emit (.sent host .viewerJoined ws)
      have hs : r'.sockets = (r.accept (.viewer ⟨false⟩) false).sockets := rfl
      have hlog : r'.log = r.log ++ out := by
        simp [r', r₁, out, Room.emit, Room.accept, ws]
      have hdeaf (h : Nat) (hh : h ≠ host) (hw : h ≠ ws) : Deaf h out :=
        ((deaf_nil.cons (hear_sent (Ne.symm hh))).cons (hear_sent (Ne.symm hw))).cons fun _ => rfl
      have htold (h v : Nat) : r'.told h v ↔ r.told h v ∨ (h = host ∧ v = ws) := by
        rw [Room.told, hlog, List.mem_append, Room.told]
        simp [out, eq_comm]
      have hviewing (v : Nat) : r'.viewing v = true ↔ v = ws := by
        rw [Room.viewing_eq, Room.isOpen_accepted hs, Room.base_accepted hs]
        split
        · rename_i hv
          simp [hv, Socket.base, ws]
        · rename_i hv
          rw [← Room.viewing_eq, hnone]
          simp [ws, hv]
      have hready (h : Nat) (hr' : r'.ready h = true) : h = host :=
        ht.oneHost h host (Room.ready_accepted hs rfl hr') hr
      obtain ⟨s, hstance, hne, hlive⟩ := ht.live host hr
      have hidle : s = .idle := by
        cases hcase : s with
        | waiting => exact absurd hcase hne
        | idle => rfl
        | hosting v => simpa [hnone v] using ((hlive v).mp hcase).1
      have hhosting : r'.stance host = some (.hosting ws) := by
        rw [Room.stance, hlog, Stance.after_append]
        change (r.stance host).bind _ = _
        have hhw : ws ≠ host := by omega
        simp [hstance, hidle, out, Stance.hear, Stance.notice, hhw]
      change Tidy r'
      refine ⟨(ht.plain.accept (by simp) false).of_sockets hs, ?_, ?_, ?_, ?_, ?_, ?_⟩
      · intro h h' hr₁ hr₂
        exact (hready h hr₁).trans (hready h' hr₂).symm
      · intro v v' hv hv'
        exact ((hviewing v).mp hv).trans ((hviewing v').mp hv').symm
      · intro h hu
        have hu' := Room.unnoticed_accepted hs hu
        have hh : h ≠ host := by
          rintro rfl
          rcases hu' with hlen | ⟨-, hm, -⟩
          · omega
          · simp [(Room.ready_iff.mp hr).2] at hm
        have hw : h ≠ ws := by
          rintro rfl
          rcases hu with hlen | ⟨-, -, hb⟩
          · have := Room.length_accepted hs
            omega
          · rw [Room.base_accepted hs, if_pos rfl] at hb
            cases hb
        obtain ⟨hwaiting, huntold⟩ := ht.fresh h hu'
        refine ⟨((hdeaf h hh hw).stance hlog).trans hwaiting, fun v hv => ?_⟩
        rcases (htold h v).mp hv with hv | ⟨heq, -⟩
        · exact huntold v hv
        · exact hh heq
      · intro h hr'
        obtain rfl := hready h hr'
        refine ⟨.hosting ws, hhosting, by simp, fun v => ?_⟩
        rw [hviewing, htold]
        constructor
        · intro heq
          have hv := (Stance.hosting.inj heq).symm
          exact ⟨hv, .inr ⟨rfl, hv⟩⟩
        · rintro ⟨rfl, -⟩
          rfl
      · intro h v hv
        have hlen := Room.length_accepted hs
        rcases (htold h v).mp hv with hv | ⟨-, rfl⟩
        · have := ht.known h v hv
          omega
        · omega
      · intro h hb
        by_cases hh : h = host
        · rw [hh, hhosting]
          rfl
        · rw [Room.base_accepted hs] at hb
          split at hb
          · cases hb
          · rename_i hw
            rw [(hdeaf h hh hw).stance hlog]
            exact ht.sound h hb

theorem Tidy.mark (ht : Tidy r) {p : Pending} (hbase : r.base p.ws = some p.att.base)
    (halone : ∀ h, r.ready h = true → h = p.ws) : Tidy (r.mark p) := by
  obtain ⟨hss, -, -⟩ := r.mark_eq p
  let att : HostAttachment := { p.att with authed := true }
  let out := if r.isOpen p.ws then [Output.sent p.ws (.registered p.att.id) p.ws] else []
  have hlog : (r.mark p).log = r.log ++ out := by
    have hsend := (Shape.send (r.setAttachment p.ws (.host att)) p.ws (.registered p.att.id) p.ws).log
    rw [Room.isOpen_setAttachment] at hsend
    exact hsend
  have hb (ws : Nat) : (r.mark p).base ws = r.base ws := by
    rw [Room.base, hss]
    exact Room.base_setAttachment (a := att) hbase ws
  have hopen (ws : Nat) : (r.mark p).isOpen ws = r.isOpen ws := by
    rw [Room.isOpen, hss]
    exact Room.isOpen_setAttachment ..
  have hmarked (ws : Nat) (hm : (r.mark p).marked ws = true) : ws = p.ws ∨ r.marked ws = true := by
    rw [Room.marked, hss] at hm
    exact Room.marked_setAttachment hm
  have hviewing (v : Nat) : (r.mark p).viewing v = r.viewing v := by
    rw [Room.viewing_eq, hopen, hb, Room.viewing_eq]
  have hready (h : Nat) (hr : (r.mark p).ready h = true) : h = p.ws := by
    obtain ⟨ho, hm⟩ := Room.ready_iff.mp hr
    rcases hmarked h hm with hws | hm
    · exact hws
    · exact halone h (Room.ready_iff.mpr ⟨(hopen h).symm.trans ho, hm⟩)
  have hjoin : NoJoin out := by
    simp only [out]
    split <;> simp [NoJoin]
  have hdeaf (h : Nat) (hh : h ≠ p.ws) : Deaf h out := by
    simp only [out]
    split
    · exact deaf_nil.cons (hear_sent (Ne.symm hh))
    · exact deaf_nil
  have hlen : (r.mark p).sockets.length = r.sockets.length := by
    rw [hss]
    exact List.length_modify ..
  have hlt := Room.lt_of_base hbase
  have hself : (r.mark p).marked p.ws = true := by
    rw [Room.marked, hss, Room.setAttachment, Room.sockets_update_self,
      List.getElem?_eq_getElem hlt]
    rfl
  have hregister (s : Stance) (hstance : r.stance p.ws = some s) :
      (r.mark p).stance p.ws = some s ∨ (s = .waiting ∧ (r.mark p).stance p.ws = some .idle) := by
    rw [Room.stance, hlog, Stance.after_append]
    change (r.stance p.ws).bind _ = _ ∨ (_ ∧ (r.stance p.ws).bind _ = _)
    rw [hstance]
    simp only [out]
    split <;> cases s <;> simp [Stance.hear, Stance.notice]
  refine ⟨(ht.plain.setHost p.ws att).of_sockets hss, ?_, ?_, ?_, ?_, ?_, ?_⟩
  · intro h h' hr hr'
    exact (hready h hr).trans (hready h' hr').symm
  · intro v v' hv hv'
    exact ht.oneViewer v v' ((hviewing v).symm.trans hv) ((hviewing v').symm.trans hv')
  · intro h hu
    have hold : h ≠ p.ws ∧ r.unnoticed h := by
      rcases hu with hlen' | ⟨ho, hm, hb'⟩
      · rw [hlen] at hlen'
        exact ⟨by omega, .inl hlen'⟩
      · have hh : h ≠ p.ws := by
          rintro rfl
          simp [hself] at hm
        refine ⟨hh, .inr ⟨(hopen h).symm.trans ho, ?_, (hb h) ▸ hb'⟩⟩
        rwa [Room.marked, hss, Room.setAttachment, Room.sockets_update_of_ne _ _ (Ne.symm hh)] at hm
    obtain ⟨hwaiting, huntold⟩ := ht.fresh h hold.2
    exact ⟨((hdeaf h hold.1).stance hlog).trans hwaiting,
      fun v hv => huntold v ((hjoin.told hlog h v).mp hv)⟩
  · intro h hr
    obtain rfl := hready h hr
    have ho := (hopen p.ws).symm.trans (Room.ready_iff.mp hr).1
    by_cases hm : r.marked p.ws = true
    · obtain ⟨s, hstance, hne, hlive⟩ := ht.live p.ws (Room.ready_iff.mpr ⟨ho, hm⟩)
      refine ⟨s, (hregister s hstance).resolve_right fun h => hne h.1, hne, fun v => ?_⟩
      rw [hviewing, hjoin.told hlog, hlive]
    · have hbase' : (r.base p.ws).isSome := by simp [hbase]
      obtain ⟨hwaiting, huntold⟩ := ht.fresh p.ws (.inr ⟨ho, by simpa using hm, hbase'⟩)
      have hidle : (r.mark p).stance p.ws = some .idle := by
        rw [Room.stance, hlog, Stance.after_append]
        change (r.stance p.ws).bind _ = _
        simp [hwaiting, out, ho, Stance.hear, Stance.notice]
      refine ⟨.idle, hidle, by simp, fun v => ?_⟩
      simp only [reduceCtorEq, false_iff, not_and]
      intro _ hv
      exact huntold v ((hjoin.told hlog _ v).mp hv)
  · intro h v hv
    rw [hlen]
    exact ht.known h v ((hjoin.told hlog h v).mp hv)
  · intro h hb'
    rw [hb] at hb'
    by_cases hh : h = p.ws
    · subst hh
      obtain ⟨s, hstance⟩ := Option.isSome_iff_exists.mp (ht.sound _ hb')
      rcases hregister s hstance with h | ⟨-, h⟩
      · simp [h]
      · simp [h]
    · rw [(hdeaf h hh).stance hlog]
      exact ht.sound h hb'

theorem Tidy.replace (ht : Tidy r) (ws : Nat) : Tidy (r.replace ws) := by
  rw [Room.replace]
  split
  · rename_i previous hprevious
    split
    · have hr := Room.ready_of_authedHost hprevious
      obtain ⟨c, hc⟩ := Option.isSome_iff_exists.mp (Room.base_of_ready hr)
      have hgone := Shape.hostGone hc ws
      have ho := (hgone.trans (Shape.closeFromServer _ previous CLOSE_REPLACED ws)).toOutline
      have hjoin : NoJoin (Shape.goneOutput r.openViewer ws ++
          [.closed previous CLOSE_REPLACED ws]) := by
        cases r.openViewer <;> simp [NoJoin, Shape.goneOutput]
      refine (ht.cut ho ((ht.plain.hostGone previous ws).closeFromServer _ _ _) ?_ hjoin
        fun h hn => .inl ?_).1 fun h v hr' => ?_
      · rintro h (heq | hfalse)
        · exact .inr heq
        · exact hfalse.elim
      · have hclosed : Deaf h [.closed previous CLOSE_REPLACED ws] :=
          deaf_nil.cons (hear_closed (.inr (.inr (by decide))))
        cases hviewer : r.openViewer with
        | none => exact hclosed
        | some v =>
            have hne : v ≠ h := by
              rintro rfl
              exact Room.not_notViewer (Room.viewing_of_openViewer hviewer) hn
            exact (hclosed.cons (hear_closed (.inr (.inr (by decide))))).cons (hear_sent hne)
      · obtain ⟨hr', hshut, -⟩ := (ho.ready h).mp hr'
        exact absurd (.inr (ht.oneHost h previous hr' hr)) hshut
    · exact ht
  · exact ht

theorem Tidy.resume (ht : Tidy r) {subtle : SubtleVerify} (hb : Bound subtle r) {p : Pending}
    (hp : Suspended r p) : Tidy (r.resume subtle p) := by
  have hhost : (r.base p.ws).isSome := by simp [hp.1]
  have hclose (r₁ : Room) (ht₁ : Tidy r₁) (hbase : r₁.base p.ws = r.base p.ws) :
      Tidy (r₁.closeFromServer p.ws CLOSE_AUTH p.ws) :=
    ht₁.closeHost (by decide) (Room.not_viewing_of_base (hbase ▸ hhost)) p.ws
  rw [Room.resume]
  split
  · rename_i hv
    have ht₁ : Tidy (r.emit (.verified p.ws p.sig)) :=
      ht.still rfl rfl (by simp [NoJoin]) fun _ _ => deaf_nil.cons fun _ => rfl
    have hb₁ := hb.verified hp hv
    rw [Room.bind]
    split
    · split
      · exact hclose _ ht₁ rfl
      · exact (ht₁.replace p.ws).mark (((mild_replace _ p.ws).base _).trans hp.1) (hb₁.alone p.ws)
    · rename_i hnone
      have ht₂ : Tidy ((r.emit (.verified p.ws p.sig)).putOwner p.ws p.att.key) :=
        ht₁.still rfl rfl (by simp [NoJoin]) fun _ _ => deaf_nil.cons fun _ => rfl
      have hb₂ : Bound subtle ((r.emit (.verified p.ws p.sig)).putOwner p.ws p.att.key) :=
        hb₁.put (c := p.att.base) hp.1 hnone
      exact (ht₂.replace p.ws).mark (((mild_replace _ p.ws).base _).trans hp.1) (hb₂.alone p.ws)
  · exact hclose r ht rfl

theorem Tidy.handle (ht : Tidy r) {subtle : SubtleVerify} (hb : Bound subtle r) {e : Event}
    (hd : r.delivers e = true) : Judged (r.handle subtle e) (Reported r e) := by
  cases e with
  | fetch request random =>
      refine judged_of_tidy ?_ ?_
      · rw [Room.handle, Room.fetch]
        split
        · exact ht
        · split
          · exact ht.acceptHost _ _ _ _
          · split
            · exact ht.acceptViewer
            · exact ht
      · intro _ _ _ _
        exact ⟨fun _ => id, fun _ => id⟩
  | message ws frame => exact ht.webSocketMessage ws frame
  | verified i =>
      refine judged_of_tidy ?_ fun _ _ _ _ => ⟨fun _ => id, fun _ => id⟩
      rw [Room.handle]
      split
      · rename_i p hp
        have ht' : Tidy { r with pending := r.pending.eraseIdx i } :=
          ht.still rfl (List.append_nil _).symm (by simp [NoJoin]) fun _ _ => deaf_nil
        exact ht'.resume (hb.awaited i) (hb.pending p (List.mem_of_getElem? hp))
      · exact ht
  | close ws code =>
      have hopen : ((r.finish ws).onGone ws).isOpen ws = false := by
        by_contra ho
        have ho' := (Mild.onGone (r.finish ws) ws).isOpen ws (Bool.not_eq_false _ ▸ ho)
        exact (((Shape.finish r ws).isOpen ws).mp ho').2 rfl
      refine ((ht.gone hd).closed hopen _).congr ?_
      rw [ht.reported_iff]
      exact Iff.rfl
  | error ws =>
      refine (ht.gone hd).congr ?_
      rw [ht.reported_iff]
      exact Iff.rfl

theorem tidy_new : Tidy .new where
  plain _ _ h := by cases h
  oneHost _ _ h := by cases h
  oneViewer _ _ h := by cases h
  fresh _ _ := ⟨rfl, fun _ h => by cases h⟩
  live _ h := by cases h
  known _ _ h := by cases h
  sound _ h := by cases h

theorem tidy_steps {subtle : SubtleVerify} (h : Room.Steps subtle Reported .new r) :
    Bound subtle r ∧ Tidy r := by
  induction h with
  | refl => exact ⟨bound_new, tidy_new⟩
  | tail _ hstep ih =>
      obtain ⟨e, hd, hok, rfl⟩ := hstep
      exact ⟨ih.1.handle e, (ih.2.handle ih.1 hd).1 hok⟩

theorem notices_bracketed {subtle : SubtleVerify} (h : Room.Steps subtle Reported .new r) :
    Bracketed r ∧ ∀ e, r.delivers e = true → (Bracketed (r.handle subtle e) ↔ Reported r e) := by
  obtain ⟨hb, ht⟩ := tidy_steps h
  exact ⟨ht.bracketed, fun e hd => (ht.handle hb hd).iff⟩

end

def joinsViewer : Event := .fetch (upgradeTo "/viewer" none false) (filled 32 0)

def relays (ws : Nat) (data : String) : Event :=
  .message ws (.text (typed "relay" [("data".toList, utf16 data.toList)]))

def sampleRegister : List Event := [claims 1 5, authenticates 0 1 5, .verified 0]

def sampleVisits : List Event := sampleRegister ++
  [joinsViewer, relays 1 "00", .close 1 1005, joinsViewer, relays 0 "01",
    .message 0 (.text (typed "kick" [])), .close 2 4001]

theorem sample_notices_bracketed : Bracketed (roomAfter sampleVisits) := by
  have hplay : Room.new.play sampleSubtle Reported sampleVisits = some (roomAfter sampleVisits) := by
    decide +kernel
  exact (notices_bracketed (Room.steps_of_play sampleSubtle Reported hplay)).1

-- a viewer is closed for a bad frame and the host next hears that another one joined
def sampleUnreported : List Event := sampleRegister ++
  [joinsViewer, .message 1 (.text ['x']), .close 1 4000, joinsViewer]

theorem viewer_left_unreported :
    ∃ r, Room.Steps sampleSubtle Room.anyEvent .new r ∧ ¬ Bracketed r := by
  have hplay : Room.new.play sampleSubtle Room.anyEvent sampleUnreported =
      some (roomAfter sampleUnreported) := by
    decide +kernel
  refine ⟨_, Room.steps_of_play sampleSubtle Room.anyEvent hplay, fun hb => ?_⟩
  have hordered := hb.ordered 0 (by decide +kernel)
  have hnone : (roomAfter sampleUnreported).stance 0 = none := by decide +kernel
  simp [hnone] at hordered

end SimpleRemote.Signaling
