import SimpleRemote.Host.Gate
import SimpleRemote.Serving.Service
import SimpleRemote.Signaling.Slot

namespace SimpleRemote.Serving
open ByteCodec Json Interaction Signaling

namespace Deployment
variable (d : Deployment)

-- what a message of the host brings about goes to the viewer it was meant for, if not to the
-- host itself
def Isolated (s : Service) : Turn → Prop
  | .arrive => ∀ g ∈ s.toRoom.head?,
      ∀ o ∈ s.room.news (s.room.handle d.subtle (d.arrival g.message)),
        o.ws = d.ws ∨ g.viewer = some o.ws
  | _ => True

-- no viewer that joined later has the slot when a relay or Kick meant for `v` arrives
def InTime (s : Service) : Turn → Prop
  | .arrive => ∀ g ∈ s.toRoom.head?, s.room.marked d.ws = true →
      ((Frame.text g.message.json).isRelay || (Frame.text g.message.json).isKick) = true →
        ∀ w ∈ s.room.openViewer, ∀ v ∈ g.viewer, w ≤ v
  | _ => True

instance (s : Service) (t : Turn) : Decidable (d.Isolated s t) :=
  match t with
  | .arrive => inferInstanceAs (Decidable (∀ _ ∈ _, ∀ _ ∈ _, _ ∨ _))
  | .room _ | .host _ | .again _ | .drop => .isTrue trivial

instance (s : Service) (t : Turn) : Decidable (d.InTime s t) :=
  match t with
  | .arrive => inferInstanceAs (Decidable (∀ _ ∈ _, _ → _ → ∀ _ ∈ _, ∀ _ ∈ _, _))
  | .room _ | .host _ | .again _ | .drop => .isTrue trivial

end Deployment

section
variable {subtle : SubtleVerify} {r r' : Room} {ws : Nat} {frame : Frame}

theorem did_isolated (h : Did subtle r (.message ws frame) r') (hseat : (r.base ws).isSome)
    (hl : r.Lined) {v : Nat} (hv : r.isViewer v) :
    (∀ o ∈ r.news r', o.ws = ws ∨ some v = some o.ws) ↔
      (r.marked ws = true → (frame.isRelay || frame.isKick) = true →
        ∀ w ∈ r.openViewer, w ≤ v) := by
  have hnone {r' : Room} (hlog : r'.log = r.log ++ []) {P : Output → Prop} :
      ∀ o ∈ r.news r', P o := by
    rw [Room.news_eq hlog]
    simp
  -- the one output goes to the open viewer
  have hone {r' : Room} {viewer : Nat} {o : Output} (hlog : r'.log = r.log ++ [o])
      (ho : o.ws = viewer) (hviewer : r.openViewer = some viewer) (hm : r.marked ws = true)
      (hframe : (frame.isRelay || frame.isKick) = true) :
      (∀ o ∈ r.news r', o.ws = ws ∨ some v = some o.ws) ↔
        (r.marked ws = true → (frame.isRelay || frame.isKick) = true →
          ∀ w ∈ r.openViewer, w ≤ v) := by
    have hview := Room.viewing_of_openViewer hviewer
    have hne : viewer ≠ ws := by
      rintro rfl
      rw [Room.base_of_viewing hview] at hseat
      cases hseat
    rw [Room.news_eq hlog]
    constructor
    · intro h _ _ w hw
      obtain rfl : viewer = w := Option.some.inj (hviewer.symm.trans hw)
      rcases h o (List.mem_singleton_self o) with hws | hviewer
      · exact absurd (ho.symm.trans hws) hne
      · exact ((Option.some.inj hviewer).trans ho).ge
    · intro h o' ho'
      cases List.mem_singleton.mp ho'
      have hle := h hm hframe viewer hviewer
      have hge := hl viewer v hview hv
      exact .inr (congrArg some (by omega))
  cases h with
  | dropped hidle =>
      refine ⟨fun _ hm hframe w hw => ?_, fun _ => hnone (List.append_nil _).symm⟩
      rcases hidle hm with hno | ⟨hrelay, hkick⟩
      · rw [hno] at hw
        cases hw
      · simp [hrelay, hkick] at hframe
  | bad code hkick hcode hframe =>
      refine ⟨fun _ hm hf => ?_, fun _ o ho => ?_⟩
      · simp [hframe hm] at hf
      · rw [Room.news_eq (Shape.closeFromServer r ws code ws).log] at ho
        cases List.mem_singleton.mp ho
        exact .inl rfl
  | down data hm hframe hviewer => exact hone rfl rfl hviewer hm (by simp [hframe])
  | @kicked _ _ viewer hm hframe hviewer =>
      exact hone (Shape.closeFromServer r viewer CLOSE_KICKED ws).log rfl hviewer hm
        (by simp [hframe])
  | up data hviewer =>
      rw [Room.base_of_viewing (Room.viewing_of_openViewer hviewer)] at hseat
      cases hseat
  | suspended hws hm =>
      refine ⟨fun _ hm' => ?_, fun _ => hnone (List.append_nil _).symm⟩
      simp [hm] at hm'
  | hostEnded he => cases he
  | viewerEnded he => cases he
  | ended he => cases he

end

-- `serve_next` has heard of no viewer yet, or is over
def Idle (d : Deployment) (p : HostM (ServeResult × HostState)) : Prop :=
  (∃ st n, p = serveNext d.C d.cfg st n) ∨ ∀ e, p.take e = none

structure Kept (d : Deployment) (s : Service) : Prop where
  bound : Bound d.subtle s.room
  lined : s.room.Lined
  seat : (s.room.base d.ws).isSome
  joins : ∀ c ∈ s.toHost, c.frame = .viewerJoined → s.room.isViewer c.cause
  sent : ∀ g ∈ s.toRoom, ∃ v, g.viewer = some v ∧ s.room.isViewer v
  viewer : ∀ v ∈ s.viewer, s.room.isViewer v
  idle : s.viewer = none → Idle d s.host

section
variable {d : Deployment} {s : Service}

theorem take_call {o : Op HostToServer} {f : Op.Res ServerToHost o → HostM (ServeResult × HostState)}
    {e : Ev HostSig} {q : HostM (ServeResult × HostState)}
    (h : (call o >>= f).take e = some q) : ∃ r, e = ⟨o, r⟩ ∧ q = f r := by
  obtain ⟨o', k, r, hact, he, hq⟩ := take_act h
  cases hact
  exact ⟨r, he, hq⟩

theorem Idle.take {p q : HostM (ServeResult × HostState)} {e : Ev HostSig} (hi : Idle d p)
    (h : p.take e = some q) :
    ∃ t r, e = ⟨.linkRecv t, r⟩ ∧ (r = .ok (some .viewerJoined) ∨ Idle d q) := by
  rcases hi with ⟨st, n, rfl⟩ | hnone
  · cases n with
    | zero => cases h
    | succ n =>
        obtain ⟨r, he, hq⟩ := take_call h
        refine ⟨_, r, he, ?_⟩
        subst hq
        match r with
        | .error e => exact .inr (.inr fun _ => rfl)
        | .ok none => exact .inr (.inl ⟨st, n, rfl⟩)
        | .ok (some .viewerJoined) => exact .inl rfl
        | .ok (some (.challenge _ _)) => exact .inr (.inl ⟨st, n, rfl⟩)
        | .ok (some (.registered _)) => exact .inr (.inl ⟨st, n, rfl⟩)
        | .ok (some .viewerLeft) => exact .inr (.inl ⟨st, n, rfl⟩)
        | .ok (some (.relay _)) => exact .inr (.inl ⟨st, n, rfl⟩)
  · rw [hnone e] at h
    cases h

theorem readFrame_ok {serde : SerdeJson} {f : ServerFrame} {m : ServerToHost}
    (h : readFrame serde f.json = .ok m) : f.toHost = some m := by
  rw [readFrame, serde.reads] at h
  split at h
  · cases h
  · split at h
    · rename_i m' hm
      cases h
      exact hm
    · cases h

theorem frame_of_viewerJoined {f : ServerFrame} (h : f.toHost = some .viewerJoined) :
    f = .viewerJoined := by
  cases f with
  | viewerJoined => rfl
  | relay data => simp [ServerFrame.toHost] at h
  | _ => cases h

theorem unread_ok {m : ServerToHost} (h : d.unread s = some (.ok m)) :
    ∃ c rest, s.toHost = c :: rest ∧ c.frame.toHost = some m := by
  rw [Deployment.unread] at h
  cases hs : s.toHost with
  | nil =>
      rw [hs] at h
      cases h
  | cons c rest =>
      rw [hs] at h
      exact ⟨c, rest, rfl, readFrame_ok (Option.some.inj h)⟩

theorem hear_cases (s : Service) (e : Ev HostSig) :
    (∃ m u, e = ⟨.linkSend m, .ok u⟩ ∧ s.hear e = { s with toRoom := s.toRoom ++ [⟨m, s.viewer⟩] }) ∨
    (∃ t m, e = ⟨.linkRecv t, .ok (some m)⟩ ∧ s.hear e = { s with
      toHost := s.toHost.tail
      viewer := s.viewer.or (if m = .viewerJoined then s.toHost.head?.map Coming.cause else none) }) ∨
    ((∀ t m, e ≠ ⟨.linkRecv t, .ok (some m)⟩) ∧ s.hear e = s) := by
  unfold Service.hear
  split
  · exact .inl ⟨_, _, rfl, rfl⟩
  · exact .inr (.inl ⟨_, _, rfl, rfl⟩)
  · rename_i hrecv
    exact .inr (.inr ⟨hrecv, rfl⟩)

theorem Kept.roomStep (hk : Kept d s) {e : Event} (hd : s.room.delivers e = true) :
    Kept d (d.roomStep s e) := by
  have ho : Orderly s.room (s.room.handle d.subtle e) := orderly_handle hk.bound hd
  refine ⟨hk.bound.handle e, ho.lined hk.lined, ho.hosts d.ws hk.seat, fun c hc hjoin => ?_,
    fun g hg => ?_, fun v hv => ho.viewers v (hk.viewer v hv), hk.idle⟩
  · rcases List.mem_append.mp hc with hc | hc
    · exact ho.viewers _ (hk.joins c hc hjoin)
    · obtain ⟨o, ho', hcoming⟩ := List.mem_filterMap.mp hc
      cases o with
      | sent ws frame cause =>
          rw [Output.coming] at hcoming
          split at hcoming
          · cases hcoming
            exact ho.announced ws cause (hjoin ▸ ho')
          · cases hcoming
      | _ => cases hcoming
  · obtain ⟨v, hg', hv⟩ := hk.sent g hg
    exact ⟨v, hg', ho.viewers v hv⟩

theorem Kept.host (hk : Kept d s) {e : Ev HostSig} {p : HostM (ServeResult × HostState)}
    (ht : s.host.take e = some p) (ha : d.answers s e = true) :
    Kept d { s.hear e with host := p } := by
  rcases hear_cases s e with ⟨m, u, rfl, hhear⟩ | ⟨t, m, rfl, hhear⟩ | ⟨hrecv, hhear⟩
  · rw [hhear]
    have hbusy : s.viewer ≠ none := by
      intro hnone
      obtain ⟨t, r, he, -⟩ := (hk.idle hnone).take ht
      cases he
    refine ⟨hk.bound, hk.lined, hk.seat, hk.joins, fun g hg => ?_, hk.viewer,
      fun hnone => absurd hnone hbusy⟩
    rcases List.mem_append.mp hg with hg | hg
    · exact hk.sent g hg
    · cases List.mem_singleton.mp hg
      obtain ⟨v, hv⟩ := Option.ne_none_iff_exists'.mp hbusy
      exact ⟨v, hv, hk.viewer v hv⟩
  · rw [hhear]
    obtain ⟨c, rest, hc, hframe⟩ := unread_ok (of_decide_eq_true ha)
    refine ⟨hk.bound, hk.lined, hk.seat, fun c' hc' => hk.joins c' (List.mem_of_mem_tail hc'),
      hk.sent, fun v hv => ?_, fun hnone => ?_⟩
    · cases hviewer : s.viewer with
      | some v' =>
          simp only [hviewer, Option.some_or, Option.mem_def] at hv
          exact hk.viewer v (hviewer.trans hv)
      | none =>
          simp only [hviewer, Option.none_or, hc, List.head?_cons, Option.map_some] at hv
          split at hv
          · rename_i hm
            cases hv
            exact hk.joins c (hc ▸ List.mem_cons_self) (frame_of_viewerJoined (hm ▸ hframe))
          · cases hv
    · obtain ⟨hviewer, hjoined⟩ := Option.or_eq_none_iff.mp hnone
      obtain ⟨t', r, he, hidle⟩ := (hk.idle hviewer).take ht
      cases he
      rcases hidle with hr | hidle
      · cases hr
        simp [hc] at hjoined
      · exact hidle
  · rw [hhear]
    refine ⟨hk.bound, hk.lined, hk.seat, hk.joins, hk.sent, hk.viewer, fun hnone => ?_⟩
    obtain ⟨t, r, rfl, hidle⟩ := (hk.idle hnone).take ht
    rcases hidle with rfl | hidle
    · exact absurd rfl (hrecv t .viewerJoined)
    · exact hidle

theorem Kept.next (hk : Kept d s) {t : Turn} (ht : d.permits s t = true) : Kept d (d.next s t) := by
  cases t with
  | room e =>
      rw [Deployment.permits, Bool.and_eq_true] at ht
      exact hk.roomStep ht.1
  | arrive =>
      rw [Deployment.permits, Bool.and_eq_true] at ht
      rw [Deployment.next]
      split
      · rename_i g rest hs
        have hk' : Kept d { s with toRoom := rest } :=
          { hk with sent := fun g' hg' => hk.sent g' (hs ▸ List.mem_cons_of_mem g hg') }
        exact hk'.roomStep ht.1
      · exact hk
  | host e =>
      rw [Deployment.permits, Bool.and_eq_true] at ht
      obtain ⟨p, hp⟩ := Option.isSome_iff_exists.mp ht.1
      rw [Deployment.next, hp]
      exact hk.host hp ht.2
  | again fuel =>
      rw [Deployment.next]
      split
      · rename_i r st hs
        exact { hk with
          viewer := fun v hv => by cases hv
          idle := fun _ => .inl ⟨st, fuel, rfl⟩ }
      · exact hk
  | drop => exact { hk with }

theorem Kept.isolated_iff (hk : Kept d s) {t : Turn} (ht : d.permits s t = true) :
    d.Isolated s t ↔ d.InTime s t := by
  cases t with
  | arrive =>
      rw [Deployment.permits, Bool.and_eq_true] at ht
      cases hs : s.toRoom with
      | nil => simp [Deployment.Isolated, Deployment.InTime, hs]
      | cons g rest =>
          obtain ⟨v, hg, hv⟩ := hk.sent g (hs ▸ List.mem_cons_self)
          have hdid : Did d.subtle s.room (d.arrival g.message)
              (s.room.handle d.subtle (d.arrival g.message)) := handle_did ht.1
          have := did_isolated hdid hk.seat hk.lined hv
          simpa [Deployment.Isolated, Deployment.InTime, hs, hg] using this
  | _ => exact Iff.rfl

theorem kept_start {room : Room} (hroom : Room.Steps d.subtle Room.anyEvent .new room)
    (hseat : (room.base d.ws).isSome) (st : HostState) (fuel : Nat) :
    Kept d (d.start room st fuel) where
  bound := bound_new.steps hroom
  lined := lined_steps hroom
  seat := hseat
  joins _ hc := by cases hc
  sent _ hg := by cases hg
  viewer _ hv := by cases hv
  idle _ := .inl ⟨st, fuel, rfl⟩

theorem attempts_isolated (d : Deployment) {room : Room}
    (hroom : Room.Steps d.subtle Room.anyEvent .new room) (hseat : (room.base d.ws).isSome)
    (st : HostState) (fuel : Nat) {turns : List Turn}
    (hrun : Runs.Along d.next d.Permitted (d.start room st fuel) turns) :
    Runs.Along d.next d.Isolated (d.start room st fuel) turns ↔
      Runs.Along d.next d.InTime (d.start room st fuel) turns :=
  Runs.along_iff (Kept d) (fun _ _ hk ht => hk.isolated_iff ht) (fun _ _ hk ht _ => hk.next ht)
    (kept_start hroom hseat st fuel) hrun

end

def Deployment.sample : Deployment := ⟨sampleSubtle, .sample, .sample, .sample, 0⟩

def sampleService : Service := Deployment.sample.start (roomAfter sampleRegister) .sample 5

theorem sample_registered :
    Room.Steps sampleSubtle Room.anyEvent .new (roomAfter sampleRegister) := by
  have hplay : Room.new.play sampleSubtle Room.anyEvent sampleRegister =
      some (roomAfter sampleRegister) := by
    decide +kernel
  exact Room.steps_of_play sampleSubtle Room.anyEvent hplay

def hears (m : Option ServerToHost) : Turn := .host ⟨.linkRecv (Duration.fromSecs 15), .ok m⟩

-- a viewer joins, says nothing and is kicked in time
def sampleKick : List Turn :=
  [.room joinsViewer, hears (some .viewerJoined), .host ⟨.now, 0⟩, hears none,
    .host ⟨.linkSend .kick, .ok ()⟩]

def sampleServing : List Turn := sampleKick ++
  [.arrive, .room (.close 1 4001), .room joinsViewer, .again 5, hears (some .viewerJoined)]

theorem sample_attempts_isolated :
    Runs.Along Deployment.sample.next Deployment.sample.Isolated sampleService sampleServing :=
  (attempts_isolated .sample sample_registered (by decide +kernel) .sample 5
    (by decide +kernel)).mpr (by decide +kernel)

-- the viewer has left and another one has joined when the Kick arrives
def sampleLateKick : List Turn := sampleKick ++
  [.room (.close 1 1000), .room joinsViewer, .arrive]

theorem next_viewer_kicked :
    Runs.Along Deployment.sample.next Deployment.sample.Permitted sampleService sampleLateKick ∧
      (sampleKick.foldl Deployment.sample.next sampleService).toRoom = [⟨.kick, some 1⟩] ∧
      .closed 2 CLOSE_KICKED 0 ∈
        (sampleLateKick.foldl Deployment.sample.next sampleService).room.log ∧
      ¬ Runs.Along Deployment.sample.next Deployment.sample.Isolated sampleService
        sampleLateKick := by
  refine ⟨by decide +kernel, by decide +kernel, by decide +kernel, by decide +kernel⟩

end SimpleRemote.Serving
