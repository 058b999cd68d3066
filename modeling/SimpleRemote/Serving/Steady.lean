import SimpleRemote.Host.Sturdy
import SimpleRemote.Library.JsonSize
import SimpleRemote.Serving.Isolation
import SimpleRemote.Signaling.Settled

namespace SimpleRemote

namespace Signaling
open ByteCodec Json

def ServerFrame.wellFormed : ServerFrame → Bool
  | .relay data => (toText data).isSome
  | _ => true

theorem data_size {frame : Frame} {data : Utf16} (h : frame.data = some data) :
    bodySize data ≤ MAX_MESSAGE_BYTES := by
  obtain ⟨msg, hmsg, hdata⟩ := Option.bind_eq_some_iff.mp h
  rw [frameMessage] at hmsg
  split at hmsg
  · cases hmsg
  · rename_i hsize
    cases frame with
    | binary b => cases hmsg
    | text s =>
        rw [parse] at hmsg
        split at hmsg
        · rename_i ms hparse
          obtain rfl := Option.some.inj hmsg
          rw [relayData] at hdata
          split at hdata
          · rw [stringField] at hdata
            split at hdata
            · rename_i s' hget
              obtain rfl := Option.some.inj hdata
              exact (parse_string_size hparse hget).trans (Nat.le_of_not_lt hsize)
            · cases hdata
          · cases hdata
        · cases hmsg

theorem relay_json_size (data : Utf16) :
    size (ServerFrame.relay data).json = 23 + bodySize data := by
  have ht : size (quote (utf16 "t".toList)) = 3 := by decide
  have hrelay : size (quote (utf16 "relay".toList)) = 7 := by decide
  have hdata : size (quote (utf16 "data".toList)) = 6 := by decide
  have hmark : '"'.utf8Size = 1 ∧ ':'.utf8Size = 1 ∧ ','.utf8Size = 1 ∧ '\x7b'.utf8Size = 1 ∧
      '\x7d'.utf8Size = 1 := by
    decide
  obtain ⟨hquote, hcolon, hcomma, hopen, hclose⟩ := hmark
  have hlast : size (quote data) = 2 + bodySize data := by
    rw [quote, size_cons, size_append, size_cons, size_nil, hquote, bodySize]
    omega
  have hfields : stringifyFields [("t".toList, utf16 "relay".toList), ("data".toList, data)] =
      stringifyField ("t".toList, utf16 "relay".toList) ++
        ',' :: stringifyField ("data".toList, data) := rfl
  rw [ServerFrame.json, typed, stringify, hfields, stringifyField, stringifyField]
  simp only [size_cons, size_append, size_nil, ht, hrelay, hdata, hlast, hcolon, hcomma, hopen,
    hclose]
  omega

end Signaling

namespace Serving
open ByteCodec Json Interaction Signaling

-- `serve_next` returned `Err`
def failed : HostM (ServeResult × HostState) → Bool
  | .ret (.error _, _) => true
  | _ => false

namespace Deployment
variable (d : Deployment)

-- `serve_next` does not return `Err` while the connection is up
def Stands (s : Service) : Turn → Prop
  | .host e => failed (d.next s (.host e)).host = true → d.connected s = false
  | _ => True

-- what the host takes off the link while the connection is up is not a relay whose data has an
-- unpaired surrogate
def Readable (s : Service) : Turn → Prop
  | .host ⟨.linkRecv _, .error _⟩ =>
      d.connected s = true → ∀ c ∈ s.toHost.head?, c.frame.wellFormed = true
  | _ => True

instance (s : Service) (t : Turn) : Decidable (d.Stands s t) :=
  match t with
  | .host _ => inferInstanceAs (Decidable (_ → _))
  | .room _ | .arrive | .again _ | .drop => .isTrue trivial

instance (s : Service) (t : Turn) : Decidable (d.Readable s t) := by
  unfold Readable
  split <;> infer_instance

end Deployment

def Says (W : Utf16 → Prop) : ServerFrame → Prop
  | .viewerJoined => True
  | .viewerLeft => True
  | .relay data => W data
  | _ => False

-- the relays of the viewers carry data in `W`
def Spoken (W : Utf16 → Prop) : Turn → Prop
  | .room (.message _ frame) => ∀ data, frame.data = some data → W data
  | _ => True

abbrev Small (data : Utf16) : Prop := bodySize data ≤ MAX_MESSAGE_BYTES

theorem spoken_small (t : Turn) : Spoken Small t := by
  unfold Spoken
  split
  · exact fun data h => data_size h
  · trivial

abbrev Legible (data : Utf16) : Prop := (toText data).isSome = true

abbrev Clear (data : Utf16) : Prop := Small data ∧ Legible data

theorem Spoken.clear {t : Turn} (h : Spoken Legible t) : Spoken Clear t := by
  have hsmall := spoken_small t
  unfold Spoken at h hsmall ⊢
  split
  · exact fun data hdata => ⟨hsmall data hdata, h data hdata⟩
  · trivial

structure Upright (d : Deployment) (W : Utf16 → Prop) (s : Service) : Prop where
  bound : Bound d.subtle s.room
  seat : (s.room.base d.ws).isSome
  settled : s.room.Settled d.ws
  inbox : d.connected s = true → ∀ c ∈ s.toHost, Says W c.frame
  host : d.connected s = true → Sturdy s.host

section
variable {d : Deployment} {s : Service} {W : Utf16 → Prop}

theorem Tells.says {e : Event} {f : ServerFrame} (h : Tells d.ws e f)
    (hspoken : ∀ w frame data, e = .message w frame → w ≠ d.ws → frame.data = some data → W data) :
    Says W f := by
  cases h with
  | joined => trivial
  | left => trivial
  | relay hne hdata => exact hspoken _ _ _ rfl hne hdata

theorem Upright.roomStep (h : Upright d W s) {e : Event} (hd : s.room.delivers e = true)
    (hspoken : ∀ w frame data, e = .message w frame → w ≠ d.ws → frame.data = some data → W data) :
    Upright d W (d.roomStep s e) := by
  have hlt : d.ws < s.room.sockets.length := by
    obtain ⟨c, hc⟩ := Option.isSome_iff_exists.mp h.seat
    exact Room.lt_of_base hc
  have hconnected (hup : d.connected (d.roomStep s e) = true) : d.connected s = true := by
    obtain ⟨hup, hopen⟩ := Bool.and_eq_true_iff.mp hup
    exact Bool.and_eq_true_iff.mpr ⟨hup, open_before h.bound hd hlt hopen⟩
  refine ⟨h.bound.handle e, (orderly_handle h.bound hd).hosts d.ws h.seat,
    h.settled.handle h.bound hd hlt, fun hup c hc => ?_, fun hup => h.host (hconnected hup)⟩
  rcases List.mem_append.mp hc with hc | hc
  · exact h.inbox (hconnected hup) c hc
  · obtain ⟨o, ho, hcoming⟩ := List.mem_filterMap.mp hc
    cases o with
    | sent ws frame cause =>
        rw [Output.coming] at hcoming
        split at hcoming
        · rename_i hws
          cases hcoming
          have hopen := (Bool.and_eq_true_iff.mp (hconnected hup)).2
          exact Tells.says (h.settled.told hopen hd (hws ▸ ho)) hspoken
        · cases hcoming
    | _ => cases hcoming

theorem readFrame_says {serde : SerdeJson} {f : ServerFrame} (hW : ∀ data, W data → Small data)
    (h : Says W f) (hform : f.wellFormed = true) : ∃ m, readFrame serde f.json = .ok m := by
  have hread {m : ServerToHost} (hsize : (utf8 f.json).length ≤ WsLink.MAX_MESSAGE_BYTES)
      (hm : f.toHost = some m) : ∃ m, readFrame serde f.json = .ok m := by
    rw [readFrame, if_neg hsize.not_gt, serde.reads, hm]
    exact ⟨m, rfl⟩
  cases f with
  | viewerJoined => exact hread (by decide) rfl
  | viewerLeft => exact hread (by decide) rfl
  | relay data =>
      obtain ⟨t, ht⟩ := Option.isSome_iff_exists.mp hform
      have hsmall : bodySize data ≤ 65536 := hW data h
      refine @hread (.relay t) ?_ (by rw [ServerFrame.toHost, ht]; rfl)
      calc (utf8 (ServerFrame.relay data).json).length
          = 23 + bodySize data := relay_json_size data
        _ ≤ 23 + 65536 := Nat.add_le_add_left hsmall 23
        _ ≤ WsLink.MAX_MESSAGE_BYTES := by decide
  | _ => exact h.elim

theorem linkCall_unread {e : Ev HostSig} (h : linkCall e = .unread) :
    ∃ t err, e = ⟨.linkRecv t, .error err⟩ := by
  obtain ⟨o, r⟩ := e
  cases o with
  | linkRecv t =>
      cases r with
      | error err => exact ⟨t, err, rfl⟩
      | ok m => cases h
  | linkSend m => cases r <;> cases h
  | _ => cases h

theorem linkCall_unsent {e : Ev HostSig} (h : linkCall e = .unsent) :
    ∃ m err, e = ⟨.linkSend m, .error err⟩ := by
  obtain ⟨o, r⟩ := e
  cases o with
  | linkSend m =>
      cases r with
      | error err => exact ⟨m, err, rfl⟩
      | ok u => cases h
  | linkRecv t => cases r <;> cases h
  | _ => cases h

theorem not_failed_of_sturdy {p : HostM (ServeResult × HostState)} (h : Sturdy p) :
    failed p = false := by
  cases p with
  | ret r =>
      obtain ⟨out, hout⟩ := h
      obtain ⟨result, st⟩ := r
      obtain rfl : result = .ok out := hout
      rfl
  | _ => rfl

theorem hear_frame (s : Service) (e : Ev HostSig) :
    (s.hear e).room = s.room ∧ (s.hear e).up = s.up ∧ ∀ c ∈ (s.hear e).toHost, c ∈ s.toHost := by
  rcases hear_cases s e with ⟨m, u, -, hhear⟩ | ⟨t, m, -, hhear⟩ | ⟨-, hhear⟩
  · rw [hhear]
    exact ⟨rfl, rfl, fun _ hc => hc⟩
  · rw [hhear]
    exact ⟨rfl, rfl, fun _ hc => List.mem_of_mem_tail hc⟩
  · rw [hhear]
    exact ⟨rfl, rfl, fun _ hc => hc⟩

-- a call while the connection is up
theorem Upright.call (h : Upright d W s) (hW : ∀ data, W data → Small data) {e : Ev HostSig}
    {p : HostM (ServeResult × HostState)} (ht : s.host.take e = some p)
    (ha : d.answers s e = true) (hup : d.connected s = true) :
    (linkCall e = .fine ∧ Sturdy p) ∨
      ((∃ t err, e = ⟨.linkRecv t, .error err⟩) ∧ failed p = true ∧
        ∃ c ∈ s.toHost.head?, c.frame.wellFormed = false) := by
  have hsturdy := h.host hup
  obtain ⟨o, k, r, hact, rfl, rfl⟩ := take_act ht
  rw [hact] at hsturdy
  have hcall := hsturdy r
  cases hlink : linkCall (⟨o, r⟩ : Ev HostSig) with
  | fine =>
      rw [hlink] at hcall
      exact .inl ⟨rfl, hcall⟩
  | unread =>
      rw [hlink] at hcall
      obtain ⟨t, err, he⟩ := linkCall_unread hlink
      obtain ⟨e', st, hret⟩ := hcall
      rw [he] at ha
      have hunread : d.unread s = some (.error err) := by
        simpa [Deployment.answers, hup] using ha
      obtain ⟨c, hc, hread⟩ := Option.map_eq_some_iff.mp hunread
      refine .inr ⟨⟨t, err, he⟩, by rw [hret]; rfl, c, hc, ?_⟩
      by_contra hform
      have hsays := h.inbox hup c (List.mem_of_mem_head? hc)
      obtain ⟨m, hm⟩ := readFrame_says hW hsays (by simpa using hform)
      rw [hread] at hm
      cases hm
  | unsent =>
      obtain ⟨m, err, he⟩ := linkCall_unsent hlink
      rw [he] at ha
      simp [Deployment.answers, hup] at ha

theorem Deployment.readable_of_fine {e : Ev HostSig} (h : linkCall e = .fine) :
    d.Readable s (.host e) := by
  unfold Deployment.Readable
  split
  · rename_i heq
    cases heq
    cases h
  · trivial

theorem Upright.stands_iff (h : Upright d W s) (hW : ∀ data, W data → Small data) {t : Turn}
    (ht : d.permits s t = true) : d.Stands s t ↔ d.Readable s t := by
  cases t with
  | host e =>
      rw [Deployment.permits, Bool.and_eq_true] at ht
      obtain ⟨p, hp⟩ := Option.isSome_iff_exists.mp ht.1
      have hhost : (d.next s (.host e)).host = p := by rw [Deployment.next, hp]
      rw [Deployment.Stands, hhost]
      cases hup : d.connected s with
      | false =>
          refine ⟨fun _ => ?_, fun _ _ => rfl⟩
          unfold Deployment.Readable
          split
          · intro hup'
            rw [hup] at hup'
            cases hup'
          · trivial
      | true =>
          rcases h.call hW hp ht.2 hup with
            ⟨hfine, hsturdy⟩ | ⟨⟨t, err, rfl⟩, hfailed, c, hc, hform⟩
          · refine ⟨fun _ => Deployment.readable_of_fine hfine, fun _ hfailed => ?_⟩
            rw [not_failed_of_sturdy hsturdy] at hfailed
            cases hfailed
          · refine ⟨fun hstands => ?_, fun hreadable => ?_⟩
            · cases hstands hfailed
            · rw [hreadable hup c hc] at hform
              cases hform
  | _ => exact Iff.rfl

theorem Upright.readable (h : Upright d Clear s) (t : Turn) : d.Readable s t := by
  unfold Deployment.Readable
  split
  · intro hup c hc
    have hsays := h.inbox hup c (List.mem_of_mem_head? hc)
    cases hframe : c.frame with
    | relay data =>
        rw [hframe] at hsays
        exact hsays.2
    | _ => rfl
  · trivial

theorem Upright.hear (h : Upright d W s) (hW : ∀ data, W data → Small data) {e : Ev HostSig}
    {p : HostM (ServeResult × HostState)} (ht : s.host.take e = some p)
    (ha : d.answers s e = true) (hread : d.Readable s (.host e)) :
    Upright d W { s.hear e with host := p } := by
  obtain ⟨hroom, hup, hinbox⟩ := hear_frame s e
  have hconnected : d.connected { s.hear e with host := p } = d.connected s := by
    rw [Deployment.connected, Deployment.connected, hup, hroom]
  refine ⟨hroom.symm ▸ h.bound, hroom.symm ▸ h.seat, hroom.symm ▸ h.settled,
    fun hup' c hc => h.inbox (hconnected ▸ hup') c (hinbox c hc), fun hup' => ?_⟩
  rw [hconnected] at hup'
  rcases h.call hW ht ha hup' with ⟨-, hsturdy⟩ | ⟨⟨t, err, rfl⟩, -, c, hc, hform⟩
  · exact hsturdy
  · rw [hread hup' c hc] at hform
    cases hform

theorem Upright.next (h : Upright d W s) (hW : ∀ data, W data → Small data) {t : Turn}
    (ht : d.permits s t = true) (hspoken : Spoken W t) (hread : d.Readable s t) :
    Upright d W (d.next s t) := by
  cases t with
  | room e =>
      rw [Deployment.permits, Bool.and_eq_true] at ht
      refine h.roomStep ht.1 fun w frame data he _ hdata => ?_
      subst he
      exact hspoken data hdata
  | arrive =>
      rw [Deployment.permits, Bool.and_eq_true] at ht
      rw [Deployment.next]
      split
      · rename_i g rest hs
        have h' : Upright d W { s with toRoom := rest } := { h with }
        refine h'.roomStep ht.1 fun w frame data he hne _ => ?_
        cases he
        exact absurd rfl hne
      · exact h
  | host e =>
      rw [Deployment.permits, Bool.and_eq_true] at ht
      obtain ⟨p, hp⟩ := Option.isSome_iff_exists.mp ht.1
      rw [Deployment.next, hp]
      exact h.hear hW hp ht.2 hread
  | again fuel =>
      rw [Deployment.next]
      split
      · exact { h with host := fun _ => sturdy_serveNext fuel }
      · exact h
  | drop =>
      exact { h with
        inbox := fun hup => by cases hup
        host := fun hup => by cases hup }

theorem upright_start {room : Room} (hroom : Room.Steps d.subtle Room.anyEvent .new room)
    (hhost : room.authedHost = some d.ws) (hsettled : ∀ p ∈ room.pending, p.ws ≠ d.ws)
    (st : HostState) (fuel : Nat) : Upright d W (d.start room st fuel) where
  bound := bound_new.steps hroom
  seat := Room.base_of_ready (Room.ready_of_authedHost hhost)
  settled _ := ⟨(Room.ready_iff.mp (Room.ready_of_authedHost hhost)).2, hsettled⟩
  inbox _ c hc := by cases hc
  host _ := sturdy_serveNext fuel

-- `hsettled`: the registration of the host is over
theorem host_stands (d : Deployment) {room : Room}
    (hroom : Room.Steps d.subtle Room.anyEvent .new room) (hhost : room.authedHost = some d.ws)
    (hsettled : ∀ p ∈ room.pending, p.ws ≠ d.ws) (st : HostState) (fuel : Nat)
    {turns : List Turn} (hrun : Runs.Along d.next d.Permitted (d.start room st fuel) turns) :
    (Runs.Along d.next d.Stands (d.start room st fuel) turns ↔
      Runs.Along d.next d.Readable (d.start room st fuel) turns) ∧
    ((∀ t ∈ turns, Spoken Legible t) →
      Runs.Along d.next d.Stands (d.start room st fuel) turns) := by
  constructor
  · exact Runs.along_iff (Upright d Small) (fun _ _ h ht => h.stands_iff (fun _ => id) ht)
      (fun _ t h ht hread => h.next (fun _ => id) ht (spoken_small t) hread)
      (upright_start hroom hhost hsettled st fuel) hrun
  · intro hspoken
    have hall (t : Turn) (ht : t ∈ turns) : Spoken Clear t := (hspoken t ht).clear
    refine Runs.Along.imp (fun s t (h : Upright d Clear s) ht => ?_)
      (upright_start hroom hhost hsettled st fuel) (hrun.and_forall hall)
    have hread := h.readable t
    exact ⟨h.next (fun _ => And.left) ht.1 ht.2 hread,
      (h.stands_iff (fun _ => And.left) ht.1).mpr hread⟩

end

def sampleStart : List Turn := [.room joinsViewer, hears (some .viewerJoined), .host ⟨.now, 0⟩]

-- a relay that is not hex ends the attempt, and a binary frame the viewer
def sampleRude : List Turn := sampleStart ++
  [.room (Signaling.relays 1 "zz"), hears (some (.relay "zz".toList)),
    .host ⟨.linkSend (relayOf .rejected), .ok ()⟩, .host ⟨.linkSend .kick, .ok ()⟩, .arrive,
    .again 5, .room (.message 1 (.binary [0])), .arrive, hears none]

theorem sample_host_stands :
    Runs.Along Deployment.sample.next Deployment.sample.Stands sampleService sampleRude :=
  (host_stands .sample sample_registered (by decide +kernel) (by decide +kernel) .sample 5
    (by decide +kernel)).1.mpr (by decide +kernel)

-- the data is one unpaired surrogate, written as an escape
def sampleSurrogate : List Turn := sampleStart ++
  [.room (.message 1 (.text (typed "relay" [("data".toList, [0xD800])]))),
    .host ⟨.linkRecv (Duration.fromSecs 15), .error .protocol⟩]

theorem host_taken_down :
    Runs.Along Deployment.sample.next Deployment.sample.Permitted sampleService sampleSurrogate ∧
      failed (sampleSurrogate.foldl Deployment.sample.next sampleService).host = true ∧
      Deployment.sample.connected
        (sampleSurrogate.foldl Deployment.sample.next sampleService) = true ∧
      ¬ Runs.Along Deployment.sample.next Deployment.sample.Stands sampleService
        sampleSurrogate := by
  refine ⟨by decide +kernel, by decide +kernel, by decide +kernel, by decide +kernel⟩

end Serving

end SimpleRemote
