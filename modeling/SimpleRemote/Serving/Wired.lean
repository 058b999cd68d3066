import SimpleRemote.Serving.Socket

namespace SimpleRemote
open ByteCodec Interaction

namespace Serving
open Signaling

-- a failed read ends the program, and after a failed write it lets the link alone
def Steady (p : HostM (ServeResult × HostState)) : Prop := Sturdy p ∨ OffLink p

theorem Steady.next {o : Op HostToServer} {k : Op.Res ServerToHost o → HostM (ServeResult × HostState)}
    (h : Steady (.act o k)) (r : Op.Res ServerToHost o) :
    Steady (k r) ∧ (linkCall ⟨o, r⟩ = .unread → failed (k r) = true) := by
  rcases h with h | h
  · have hr := h r
    cases hlink : linkCall (⟨o, r⟩ : Ev HostSig) with
    | fine =>
        rw [hlink] at hr
        exact ⟨.inl hr, fun hne => by cases hne⟩
    | unread =>
        rw [hlink] at hr
        obtain ⟨e, st, hret⟩ := hr
        rw [hret]
        exact ⟨.inr trivial, fun _ => rfl⟩
    | unsent =>
        rw [hlink] at hr
        exact ⟨.inr hr, fun hne => by cases hne⟩
  · refine ⟨.inr (h.2 r), fun hunread => ?_⟩
    rw [linkCall_offLink h.1] at hunread
    cases hunread

namespace Deployment
variable (d : Deployment)

-- where the host is in its program: in a call, or at its end
inductive Underway (n : Nat) (s : Service) : WiredHost → Prop
  | call {o k link m} (hs : s.host = .act o k) (hm : d.Within link o m) (hl : d.Sound s link) :
      Underway n s (m >>= fun x => d.onLink n (k x.1) x.2)
  | returned {r link} (hs : s.host = .ret r) (hl : d.Sound s link) : Underway n s (.ret (r, link))
  | stuck (hs : s.host = .halt) : Underway n s .halt

-- `Carried`, but for the program of the host
structure Level (w : Wired) (s : Service) : Prop where
  kept : Kept d s
  steady : Steady s.host
  room : w.room = s.room
  up : w.up = s.up
  toRoom : w.toRoom = written s
  toHost : failed s.host = false → w.toHost = texts s

structure Follows (n : Nat) (w : Wired) (s : Service) : Prop extends d.Level w s where
  host : d.Underway n s w.host

-- the host calls while the connection is up, and waits for more than no time
def Prompt (s : Service) : Turn → Prop
  | .host ⟨.linkRecv t, _⟩ => d.connected s = true ∧ 0 < t
  | .host _ => d.connected s = true
  | _ => True

instance (s : Service) (t : Turn) : Decidable (d.Prompt s t) := by
  unfold Prompt
  split <;> infer_instance

section
variable {d : Deployment} {n : Nat} {w : Wired} {s s' : Service} {link : WsLink} {p : WiredHost}

theorem Within.not_ret {o : Op HostToServer} {m : OnSocket o} (hm : d.Within link o m)
    (x : Op.Res ServerToHost o × WsLink) : m ≠ .ret x := by
  rintro rfl
  exact hm

theorem Underway.of_ret {r : ServeResult × HostState} (h : d.Underway n s (.ret (r, link))) :
    s.host = .ret r ∧ d.Sound s link := by
  generalize hret : (Prog.ret (r, link) : WiredHost) = p at h
  cases h with
  | call hs hm hl => exact absurd hret.symm (bind_ne_ret hm.not_ret _ _)
  | returned hs hl =>
      obtain ⟨rfl, rfl⟩ := Prod.mk.inj (Prog.ret.inj hret)
      exact ⟨hs, hl⟩
  | stuck hs => cases hret

theorem Follows.carried (h : d.Follows n w s) : Carried w s where
  room := h.room
  up := h.up
  toRoom := h.toRoom
  toHost := h.toHost
  returned r := by
    constructor
    · rintro ⟨link, hret⟩
      exact (hret ▸ h.host : d.Underway n s (.ret (r, link))).of_ret.1
    · intro hret
      have hhost := h.host
      generalize w.host = p at hhost
      cases hhost with
      | call hs hm hl =>
          rw [hs] at hret
          cases hret
      | returned hs hl =>
          rw [hs] at hret
          exact ⟨_, by rw [Prog.ret.inj hret]⟩
      | stuck hs =>
          rw [hs] at hret
          cases hret

theorem Level.abreast (h : d.Level w s) (hhost : failed s.host = false) : Abreast w s :=
  ⟨h.room, h.up, h.toRoom, h.toHost hhost⟩

theorem Underway.still (h : d.Underway n s p) (hhost : s'.host = s.host)
    (hconnected : d.connected s' = true → d.connected s = true) : d.Underway n s' p := by
  have hsound {link : WsLink} (hl : d.Sound s link) : d.Sound s' link := fun hclosed =>
    Bool.eq_false_of_not_eq_true fun hup => Bool.eq_false_iff.mp (hl hclosed) (hconnected hup)
  cases h with
  | call hs hm hl => exact .call (hhost.trans hs) hm (hsound hl)
  | returned hs hl => exact .returned (hhost.trans hs) (hsound hl)
  | stuck hs => exact .stuck (hhost.trans hs)

theorem next_host {o : Op HostToServer} {k : Op.Res ServerToHost o → HostM (ServeResult × HostState)}
    (hs : s.host = .act o k) (r : Op.Res ServerToHost o) :
    s.host.take ⟨o, r⟩ = some (k r) ∧
      d.next s (.host ⟨o, r⟩) = { s.hear ⟨o, r⟩ with host := k r } := by
  have htake : s.host.take ⟨o, r⟩ = some (k r) := by
    rw [hs]
    exact dif_pos rfl
  refine ⟨htake, ?_⟩
  rw [next, htake]

-- an answer to a call, with what the wired host has of it
theorem Level.answered (h : d.Level w s) {o : Op HostToServer}
    {k : Op.Res ServerToHost o → HostM (ServeResult × HostState)} (hs : s.host = .act o k)
    {r : Op.Res ServerToHost o} (ha : d.answers s ⟨o, r⟩ = true) (w' : Wired)
    (hsame : w'.room = w.room ∧ w'.up = w.up) (hsent : w'.toRoom = written (s.hear ⟨o, r⟩))
    (hunread : linkCall ⟨o, r⟩ ≠ .unread → w'.toHost = texts (s.hear ⟨o, r⟩)) :
    d.Permitted s (.host ⟨o, r⟩) ∧ (d.next s (.host ⟨o, r⟩)).host = k r ∧
      d.connected (d.next s (.host ⟨o, r⟩)) = d.connected s ∧
      d.Level w' (d.next s (.host ⟨o, r⟩)) := by
  obtain ⟨htake, hnext⟩ := next_host (d := d) hs r
  have hpermits : d.Permitted s (.host ⟨o, r⟩) := by
    rw [Permitted, permits, htake, ha]
    rfl
  have hkept := h.kept.next hpermits
  obtain ⟨hsteady, hfailed⟩ := (hs ▸ h.steady : Steady (.act o k)).next r
  obtain ⟨hroom, hup, -⟩ := hear_frame s ⟨o, r⟩
  rw [hnext] at hkept ⊢
  refine ⟨hpermits, rfl, ?_, hkept, hsteady, ?_, ?_, hsent, fun hhost => hunread fun hlink => ?_⟩
  · rw [connected, connected, hroom, hup]
  · exact hsame.1.trans (h.room.trans hroom.symm)
  · exact hsame.2.trans (h.up.trans hup.symm)
  · rw [hfailed hlink] at hhost
    cases hhost

theorem underway_onLink (hl : d.Sound s link)
    (hlink : ∀ o k, s.host = .act o k → o.onLink = true → link.closed = none) :
    d.Underway n s (d.onLink n s.host link) := by
  cases hs : s.host with
  | ret r => exact .returned hs hl
  | halt => exact .stuck hs
  | act o k => exact .call hs (linkCall_within (hlink o k hs) n) hl

-- the calls that a closed link refuses take no event of the socket
theorem Level.follows (h : d.Level w s) (hl : d.Sound s link) (hw : w.host = d.onLink n s.host link) :
    ∃ turns, Runs.Along d.next d.Permitted s turns ∧ turns.filterMap Turn.mark = [] ∧
      d.Follows n w (turns.foldl d.next s) := by
  obtain ⟨p, hp⟩ : ∃ p, s.host = p := ⟨_, rfl⟩
  induction p generalizing s with
  | ret r => exact ⟨[], trivial, rfl, h, by rw [hw, hp]; exact .returned hp hl⟩
  | halt => exact ⟨[], trivial, rfl, h, by rw [hw, hp]; exact .stuck hp⟩
  | act o k ih =>
      by_cases hlink : o.onLink = true → link.closed = none
      · refine ⟨[], trivial, rfl, h, hw ▸ underway_onLink hl fun o' k' hact hon => hlink ?_⟩
        cases hp.symm.trans hact
        exact hon
      obtain ⟨hon, hshut⟩ := Classical.not_imp.mp hlink
      obtain ⟨code, hclosed⟩ := Option.ne_none_iff_exists'.mp hshut
      have hdown : d.connected s = false := hl (by rw [hclosed]; rfl)
      have refused (r : Op.Res ServerToHost o) (hr : d.answers s ⟨o, r⟩ = true)
          (hhear : s.hear ⟨o, r⟩ = s) (hmark : (Turn.host ⟨o, r⟩).mark = none)
          (hw' : w.host = d.onLink n (k r) link) :
          ∃ turns, Runs.Along d.next d.Permitted s turns ∧ turns.filterMap Turn.mark = [] ∧
            d.Follows n w (turns.foldl d.next s) := by
        have hhost : failed s.host = false := by rw [hp]; rfl
        obtain ⟨hpermits, hnext, hconnected, hlevel⟩ := h.answered hp hr w ⟨rfl, rfl⟩
          (by rw [hhear]; exact h.toRoom) (fun _ => by rw [hhear]; exact h.toHost hhost)
        obtain ⟨turns, hrun, hmarks, hfollows⟩ := ih r hlevel
          (fun hclosed => hconnected.trans (hl hclosed)) (by rw [hnext]; exact hw') hnext
        exact ⟨.host ⟨o, r⟩ :: turns, ⟨hpermits, hrun⟩,
          (List.filterMap_cons_none hmark).trans hmarks, hfollows⟩
      cases o with
      | linkSend m =>
          refine refused (.error (.closed code)) (by simp [answers, hdown]) rfl rfl ?_
          rw [hw, hp, onLink, Prog.handle, WsLink.linkCall, WsLink.send, hclosed]
          rfl
      | linkRecv t =>
          refine refused (.error (.closed code)) (by simp [answers, hdown]) rfl rfl ?_
          rw [hw, hp, onLink, Prog.handle, WsLink.linkCall, WsLink.recv, hclosed]
          rfl
      | _ => cases hon

theorem connected_before (hk : Kept d s) {e : Event} (hd : s.room.delivers e = true)
    (h : d.connected (d.roomStep s e) = true) : d.connected s = true := by
  obtain ⟨hup, hopen⟩ := Bool.and_eq_true_iff.mp h
  obtain ⟨c, hc⟩ := Option.isSome_iff_exists.mp hk.seat
  exact Bool.and_eq_true_iff.mpr ⟨hup, open_before hk.bound hd (Room.lt_of_base hc) hopen⟩

-- a step of the room, once what arrives has been taken off the wire
theorem Level.room_step (h : d.Level w s) {e : Event} (hkept : Kept d (d.roomStep s e)) :
    d.Level (d.wiredRoom w e) (d.roomStep s e) := by
  refine ⟨hkept, h.steady, ?_, h.up, h.toRoom, fun hhost => ?_⟩
  · change w.room.handle d.subtle e = s.room.handle d.subtle e
    rw [h.room]
  · rw [wiredRoom, roomStep, texts, List.map_append, h.toHost hhost, h.room]
    rfl

theorem hear_same (w : Wired) (e : SocketEv) :
    (w.hear e).room = w.room ∧ (w.hear e).up = w.up := by
  unfold Wired.hear
  split <;> exact ⟨rfl, rfl⟩

theorem Follows.socket (h : d.Follows n w s) {e : SocketEv}
    (ht : d.wiredPermits w (.socket e) = true) :
    ∃ turns, Runs.Along d.next d.Permitted s turns ∧
      turns.filterMap Turn.mark = (d.wireMark e).toList ∧
      d.Follows n (d.wiredNext n w (.socket e)) (turns.foldl d.next s) := by
  obtain ⟨htake, hbrings⟩ := Bool.and_eq_true_iff.mp ht
  obtain ⟨p, hp⟩ := Option.isSome_iff_exists.mp htake
  have hnext : d.wiredNext n w (.socket e) = { w.hear e with host := p } := by rw [wiredNext, hp]
  rw [hnext]
  obtain ⟨hlevel, hhost⟩ := h
  generalize w.host = q at hhost hp
  cases hhost with
  | returned hs hl => cases hp
  | stuck hs => cases hp
  | @call o k link m hs hm hl =>
      have hstanding : failed s.host = false := by rw [hs]; rfl
      cases m with
      | ret x => exact hm.elim
      | halt => cases hp
      | act c k' =>
          obtain ⟨c', k'', r, hact, rfl, rfl⟩ := take_act hp
          cases hact
          rcases hm r w s (hlevel.abreast hstanding) hl hbrings with
            ⟨⟨r', link'⟩, hret, hx⟩ | ⟨hhear, hmark, hwithin⟩
          · obtain ⟨hpermits, hk, hconnected, hlevel'⟩ := hlevel.answered hs hx.answers
              { w.hear ⟨c, r⟩ with host := d.onLink n (k r') link' } (hear_same w _) hx.toRoom
              hx.toHost
            obtain ⟨turns, hrun, hmarks, hfollows⟩ := hlevel'.follows
              (fun hclosed => hconnected.trans (hx.sound hclosed)) (by rw [hk])
            refine ⟨.host ⟨o, r'⟩ :: turns, ⟨hpermits, hrun⟩, ?_, ?_⟩
            · have hmark : d.wireMark ⟨c, r⟩ = (Turn.host ⟨o, r'⟩).mark := hx.mark
              rw [List.filterMap_cons, hmarks, hmark]
              cases (Turn.host ⟨o, r'⟩).mark <;> rfl
            · change d.Follows n { w.hear ⟨c, r⟩ with
                host := k' r >>= fun x => d.onLink n (k x.1) x.2 } _
              rw [hret]
              exact hfollows
          · refine ⟨[], trivial, ?_, ⟨?_, .call hs hwithin hl⟩⟩
            · rw [hmark]
              rfl
            · rw [hhear]
              exact { hlevel with }

theorem Level.permits_arrive (h : d.Level w s) : d.wiredPermits w .arrive = d.permits s .arrive := by
  rw [wiredPermits, permits, h.room, h.toRoom, written, List.isEmpty_map]

-- the room takes what the host has written
theorem Level.arrive (h : d.Level w s) (ht : d.Permitted s .arrive) :
    d.Level (d.wiredNext n w .arrive) (d.next s .arrive) ∧
      (d.wiredNext n w .arrive).host = w.host ∧ (d.next s .arrive).host = s.host ∧
      (d.connected (d.next s .arrive) = true → d.connected s = true) := by
  obtain ⟨hawaits, hsome⟩ := Bool.and_eq_true_iff.mp ht
  cases hs : s.toRoom with
  | nil =>
      rw [hs] at hsome
      cases hsome
  | cons g rest =>
      have hw : w.toRoom = g.message.json :: rest.map fun g => g.message.json := by
        rw [h.toRoom, written, hs]
        rfl
      have hkept := h.kept.next ht
      have hnext : d.next s .arrive = d.roomStep { s with toRoom := rest } (d.arrival g.message) := by
        rw [next, hs]
      have hwired : d.wiredNext n w .arrive =
          d.wiredRoom { w with toRoom := rest.map fun g => g.message.json }
            (d.arrival g.message) := by
        rw [wiredNext, hw]
        rfl
      rw [hnext] at hkept ⊢
      rw [hwired]
      have hrest : d.Level { w with toRoom := rest.map fun g => g.message.json }
          { s with toRoom := rest } :=
        { h with
          kept := { h.kept with
            sent := fun g' hg' => h.kept.sent g' (hs ▸ List.mem_cons_of_mem g hg') }
          toRoom := rfl }
      exact ⟨hrest.room_step hkept, rfl, rfl, connected_before h.kept hawaits⟩

theorem served_iff : w.served = true ↔ ∃ out st link, w.host = .ret ((.ok out, st), link) := by
  constructor
  · intro hserved
    unfold Wired.served at hserved
    split at hserved
    · rename_i out st link hw
      exact ⟨out, st, link, hw⟩
    · cases hserved
  · rintro ⟨out, st, link, hw⟩
    rw [Wired.served, hw]

-- `serve_next` is called once more
theorem Level.again (h : d.Level w s) (fuel : Nat) {out : ServeOutcome} {st : HostState}
    (hw : w.host = .ret ((.ok out, st), link)) (hs : s.host = .ret (.ok out, st)) :
    d.Permitted s (.again fuel) ∧
      d.Level (d.wiredNext n w (.again fuel)) (d.next s (.again fuel)) ∧
      (d.wiredNext n w (.again fuel)).host = d.onLink n (d.next s (.again fuel)).host link ∧
      d.connected (d.next s (.again fuel)) = d.connected s := by
  have hpermits : d.Permitted s (.again fuel) := by
    change served s.host = true
    rw [hs]
    rfl
  have hnext : d.next s (.again fuel) =
      { s with host := serveNext d.C d.cfg st fuel, viewer := none } := by
    rw [next, hs]
  have hwired : d.wiredNext n w (.again fuel) =
      { w with host := d.onLink n (serveNext d.C d.cfg st fuel) link } := by
    rw [wiredNext, hw]
  have hkept := h.kept.next hpermits
  rw [hnext] at hkept ⊢
  rw [hwired]
  exact ⟨hpermits, ⟨hkept, .inl (sturdy_serveNext fuel), h.room, h.up, h.toRoom,
    fun _ => h.toHost (by rw [hs]; rfl)⟩, rfl, rfl⟩

theorem Level.drop (h : d.Level w s) : d.Level (d.wiredNext n w .drop) (d.next s .drop) := by
  have hkept := h.kept.next (t := .drop) rfl
  exact { h with
    kept := hkept
    up := rfl }

theorem Follows.step (h : d.Follows n w s) {t : WiredTurn} (ht : d.WiredPermitted w t) :
    ∃ turns, Runs.Along d.next d.Permitted s turns ∧
      turns.filterMap Turn.mark = [t].filterMap d.mark ∧
      d.Follows n (d.wiredNext n w t) (turns.foldl d.next s) := by
  cases t with
  | room e =>
      obtain ⟨hdelivers, hother⟩ := Bool.and_eq_true_iff.mp ht
      rw [h.room] at hdelivers
      have hpermits : d.Permitted s (.room e) := Bool.and_eq_true_iff.mpr ⟨hdelivers, hother⟩
      exact ⟨[.room e], ⟨hpermits, trivial⟩, rfl, h.toLevel.room_step (h.kept.next hpermits),
        h.host.still rfl (connected_before h.kept hdelivers)⟩
  | arrive =>
      have hpermits : d.Permitted s .arrive := h.permits_arrive.symm.trans ht
      obtain ⟨hlevel, hw, hs, hup⟩ := h.toLevel.arrive (n := n) hpermits
      exact ⟨[.arrive], ⟨hpermits, trivial⟩, rfl, hlevel, hw ▸ h.host.still hs hup⟩
  | socket e =>
      obtain ⟨turns, hrun, hmarks, hfollows⟩ := h.socket ht
      exact ⟨turns, hrun, hmarks.trans (filterMap_single d.wireMark e).symm, hfollows⟩
  | again fuel =>
      obtain ⟨out, st, link, hw⟩ := served_iff.mp ht
      obtain ⟨hs, hl⟩ := (hw ▸ h.host : d.Underway n s (.ret ((.ok out, st), link))).of_ret
      obtain ⟨hpermits, hlevel, hhost, hup⟩ := h.toLevel.again (n := n) fuel hw hs
      obtain ⟨turns, hrun, hmarks, hfollows⟩ :=
        hlevel.follows (fun hclosed => hup.trans (hl hclosed)) hhost
      exact ⟨.again fuel :: turns, ⟨hpermits, hrun⟩, congrArg (Mark.again fuel :: ·) hmarks, hfollows⟩
  | drop =>
      have hdown (hup : d.connected (d.next s .drop) = true) : d.connected s = true := by cases hup
      exact ⟨[.drop], ⟨rfl, trivial⟩, rfl, h.toLevel.drop, h.host.still rfl hdown⟩

theorem socket_next {c : WireOp HostToServer} {k : WireOp.Res ServerToHost c → WiredHost}
    (hw : w.host = .act c k) {r : WireOp.Res ServerToHost c} (hbrings : d.brings w ⟨c, r⟩ = true) :
    d.WiredPermitted w (.socket ⟨c, r⟩) ∧
      d.wiredNext n w (.socket ⟨c, r⟩) = { w.hear ⟨c, r⟩ with host := k r } := by
  have htake : w.host.take ⟨c, r⟩ = some (k r) := by
    rw [hw]
    exact dif_pos rfl
  rw [WiredPermitted, wiredPermits, wiredNext, htake, hbrings]
  exact ⟨rfl, rfl⟩

theorem hear_host (w : Wired) (e : SocketEv) (q p : WiredHost) :
    { ({ w with host := q } : Wired).hear e with host := p } = { w.hear e with host := p } := by
  unfold Wired.hear
  split <;> rfl

-- an event that changes nothing but the program
abbrev Quiet (d : Deployment) (e : SocketEv) : Prop :=
  ∀ w, d.brings w e = true ∧ w.hear e = w ∧ d.wireMark e = none

-- quiet events and one more
theorem path_along {pre : List SocketEv} {e : SocketEv} (hp : Path w.host (pre ++ [e]) p)
    (hquiet : ∀ e ∈ pre, Quiet d e) (hbrings : d.brings w e = true) :
    Runs.Along (d.wiredNext n) d.WiredPermitted w ((pre ++ [e]).map .socket) ∧
      ((pre ++ [e]).map .socket).filterMap d.mark = (d.wireMark e).toList ∧
      ((pre ++ [e]).map .socket).foldl (d.wiredNext n) w = { w.hear e with host := p } := by
  induction pre generalizing w with
  | nil =>
      generalize hw : w.host = q at hp
      cases hp with
      | cons r hq =>
          obtain rfl := path_nil hq
          obtain ⟨hpermits, hnext⟩ := socket_next (n := n) hw hbrings
          exact ⟨⟨hpermits, trivial⟩, filterMap_single d.wireMark _, hnext⟩
  | cons e' pre ih =>
      generalize hw : w.host = q at hp
      cases hp with
      | @cons c k r _ _ hq =>
          obtain ⟨hbrings', hhear, hmark⟩ := hquiet _ List.mem_cons_self w
          obtain ⟨hpermits, hnext⟩ := socket_next (n := n) hw hbrings'
          rw [hhear] at hnext
          obtain ⟨hrun, hmarks, hlast⟩ := ih (w := { w with host := k r }) hq
            (fun e he => hquiet e (List.mem_cons_of_mem _ he)) hbrings
          have hfirst : d.mark (.socket ⟨c, r⟩) = none := hmark
          refine ⟨⟨hpermits, hnext ▸ hrun⟩, (List.filterMap_cons_none hfirst).trans hmarks, ?_⟩
          rw [List.cons_append, List.map_cons, List.foldl_cons, hnext, hlast, hear_host]

-- `recv` with time left reads once, when what it reads ends the call
theorem recv_exec {t : Duration} (ht : 0 < t) {got : Except WsError Message}
    {r : Except LinkError (Option ServerToHost)}
    (hgot : ∀ again : Wire ServerToHost HostToServer _,
      Exec (WsLink.readMessage d.serde.readHost again ⟨none⟩) [⟨.read, got⟩] (r, ⟨none⟩)) :
    Exec (WsLink.recv d.serde.readHost (n + 1) t ⟨none⟩ : Wire ServerToHost HostToServer _)
      ([⟨.now, 0⟩, ⟨.now, 0⟩, ⟨.setReadTimeout t, .ok ()⟩] ++ [⟨.read, got⟩]) (r, ⟨none⟩) := by
  have hleft : 0 + t - 0 = t := by rw [Nat.zero_add, Nat.sub_zero]
  refine exec_call_bind.mpr ⟨(0 : Instant), _, rfl, exec_call_bind.mpr ⟨(0 : Instant), _, rfl, ?_⟩⟩
  rw [hleft, if_neg ht.ne']
  exact exec_bind.mpr ⟨[⟨.setReadTimeout t, .ok ()⟩], .ok (), _, rfl,
    exec_call_bind.mpr ⟨.ok (), [], rfl, .nil _⟩, hgot _⟩

theorem recv_quiet (t : Duration) :
    ∀ e ∈ ([⟨.now, 0⟩, ⟨.now, 0⟩, ⟨.setReadTimeout t, .ok ()⟩] : List SocketEv), Quiet d e := by
  intro e he
  rw [List.mem_cons, List.mem_cons, List.mem_singleton] at he
  rcases he with rfl | rfl | rfl <;> exact fun _ => ⟨rfl, rfl, rfl⟩

theorem Abreast.head (h : Abreast w s) {r : Except LinkError ServerToHost}
    (hr : d.unread s = some r) :
    ∃ text, w.toHost.head? = some text ∧ readFrame d.serde text = r := by
  obtain ⟨c, hc, hread⟩ := Option.map_eq_some_iff.mp hr
  refine ⟨c.frame.json, ?_, hread⟩
  rw [h.toHost, texts, List.head?_map, hc]
  rfl

theorem linkCall_other {o : Op HostToServer} (h : o.onLink = false) :
    WsLink.linkCall HostToServer.json d.serde.readHost n o link =
      (WsLink.ask (.other o) >>= fun r => return (r, link)) := by
  cases o <;> first | rfl | cases h

-- the call is answered by a run on the open link, whose last event is one that the socket brings
def Comes (d : Deployment) (n : Nat) (w : Wired) (o : Op HostToServer)
    (r : Op.Res ServerToHost o) : Prop :=
  ∃ pre e, Exec (WsLink.linkCall HostToServer.json d.serde.readHost n o ⟨none⟩) (pre ++ [e])
    (r, ⟨none⟩) ∧ (∀ e ∈ pre, Quiet d e) ∧ d.brings w e = true

theorem recv_comes {t : Duration} (ht : 0 < t) {r : Except LinkError (Option ServerToHost)}
    (got : Except WsError Message)
    (hgot : ∀ again : Wire ServerToHost HostToServer _,
      Exec (WsLink.readMessage d.serde.readHost again ⟨none⟩) [⟨.read, got⟩] (r, ⟨none⟩))
    (hbrings : d.brings w ⟨.read, got⟩ = true) : Comes d (n + 1) w (.linkRecv t) r :=
  ⟨_, _, recv_exec ht hgot, recv_quiet t, hbrings⟩

-- a text that the socket can bring
theorem text_comes {t : Duration} (ht : 0 < t) {text : Text} (htext : w.toHost.head? = some text)
    (hsize : (utf8 text).length ≤ WsLink.MAX_MESSAGE_BYTES) :
    Comes d (n + 1) w (.linkRecv t) (match d.serde.readHost text with
      | some m => .ok (some m)
      | none => .error .protocol) := by
  refine recv_comes ht (.ok (.text text)) (fun again => exec_call_bind.mpr ⟨_, [], rfl, ?_⟩)
    (decide_eq_true ⟨htext, hsize⟩)
  dsimp only
  cases d.serde.readHost text <;> exact .nil _

-- every answer to a call while the connection is up comes of some run on the socket
theorem answer_comes (h : Abreast w s) {o : Op HostToServer} {r : Op.Res ServerToHost o}
    (ha : d.answers s ⟨o, r⟩ = true) (hup : d.connected s = true)
    (hpos : ∀ t, o = .linkRecv t → 0 < t) : Comes d (n + 1) w o r := by
  have other (hoff : o.onLink = false) : Comes d (n + 1) w o r := by
    rw [Comes, linkCall_other hoff]
    exact ⟨[], ⟨.other o, r⟩, exec_call_bind.mpr ⟨r, [], rfl, .nil _⟩, List.forall_mem_nil _, rfl⟩
  cases o with
  | linkSend m =>
      cases r with
      | ok u =>
          exact ⟨[], ⟨.send m.json, .ok ()⟩, exec_call_bind.mpr ⟨.ok (), [], rfl, .nil _⟩,
            List.forall_mem_nil _, rfl⟩
      | error e => simp [answers, hup] at ha
  | linkRecv t =>
      have ht := hpos t rfl
      rcases r with err | _ | m
      · have hunread : d.unread s = some (.error err) := by simpa [answers, hup] using ha
        obtain ⟨text, htext, hread⟩ := h.head hunread
        rw [readFrame] at hread
        split at hread
        · rename_i hlarge
          cases hread
          refine recv_comes ht (.error .other)
            (fun again => exec_call_bind.mpr ⟨_, [], rfl, .nil _⟩) ?_
          simp [brings, htext, hlarge]
        · rename_i hsize
          have hcomes := text_comes (d := d) (n := n) ht htext (Nat.le_of_not_lt hsize)
          split at hread
          · cases hread
          · rename_i hnone
            cases hread
            rwa [hnone] at hcomes
      · exact recv_comes ht (.error (.io .wouldBlock))
          (fun again => exec_call_bind.mpr ⟨_, [], rfl, .nil _⟩) rfl
      · obtain ⟨text, htext, hread⟩ := h.head (of_decide_eq_true ha)
        rw [readFrame] at hread
        split at hread
        · cases hread
        · rename_i hsize
          have hcomes := text_comes (d := d) (n := n) ht htext (Nat.le_of_not_lt hsize)
          split at hread
          · rename_i m' hsome
            cases hread
            rwa [hsome] at hcomes
          · cases hread
  | _ => exact other rfl

theorem Within.settled {o : Op HostToServer} {m : OnSocket o} (hm : d.Within link o m)
    (h : Abreast w s) (hl : d.Sound s link) {pre : List SocketEv} {e : SocketEv}
    {x : Op.Res ServerToHost o × WsLink} (hp : Exec m (pre ++ [e]) x)
    (hquiet : ∀ e ∈ pre, Quiet d e) (hbrings : d.brings w e = true) : d.Settled w s e o x := by
  induction pre generalizing m with
  | nil =>
      cases hp with
      | cons r hq =>
          rcases hm r w s h hl hbrings with ⟨y, hret, hy⟩ | ⟨-, -, hwithin⟩
          · rw [hret] at hq
            obtain rfl := (exec_ret.mp hq).2
            exact hy
          · rw [← path_nil hq] at hwithin
            exact hwithin.elim
  | cons e' pre ih =>
      cases hp with
      | @cons c k r _ _ hq =>
          rcases hm r w s h hl (hquiet _ List.mem_cons_self w).1 with ⟨y, hret, -⟩ | ⟨-, -, hwithin⟩
          · rw [hret] at hq
            exact absurd (exec_ret.mp hq).1 (by simp)
          · exact ih hwithin hq fun e he => hquiet e (List.mem_cons_of_mem _ he)

theorem sound_open : d.Sound s ⟨none⟩ := fun hclosed => by cases hclosed

-- `Level`, and the host at the beginning of a call on its open link
structure Ready (n : Nat) (w : Wired) (s : Service) : Prop extends d.Level w s where
  host : w.host = d.onLink n s.host ⟨none⟩

theorem Ready.follows (h : d.Ready n w s) : d.Follows n w s :=
  ⟨h.toLevel, h.host ▸ underway_onLink sound_open fun _ _ _ _ => rfl⟩

theorem Ready.call (h : d.Ready (n + 1) w s) {e : Ev HostSig} (ht : d.Permitted s (.host e))
    (hprompt : d.Prompt s (.host e)) :
    ∃ turns, Runs.Along (d.wiredNext (n + 1)) d.WiredPermitted w turns ∧
      turns.filterMap d.mark = (markOf e).toList ∧
      d.Ready (n + 1) (turns.foldl (d.wiredNext (n + 1)) w) (d.next s (.host e)) := by
  obtain ⟨htake, ha⟩ := Bool.and_eq_true_iff.mp ht
  obtain ⟨q, hq⟩ := Option.isSome_iff_exists.mp htake
  obtain ⟨o, k, r, hs, rfl, rfl⟩ := take_act hq
  obtain ⟨hup, hpos⟩ : d.connected s = true ∧ ∀ t, o = .linkRecv t → 0 < t := by
    cases o with
    | linkRecv t => exact ⟨hprompt.1, fun t' ht' => by cases ht'; exact hprompt.2⟩
    | _ => exact ⟨hprompt, fun t' ht' => by cases ht'⟩
  have habreast := h.abreast (by rw [hs]; rfl)
  obtain ⟨pre, e, hexec, hquiet, hbrings⟩ := answer_comes (n := n) habreast ha hup hpos
  have hx := (linkCall_within (fun _ => rfl) (n + 1)).settled habreast sound_open hexec hquiet hbrings
  have hpath : Path w.host (pre ++ [e]) (d.onLink (n + 1) (k r) ⟨none⟩) := by
    rw [h.host, hs]
    exact Path.bind_left hexec _
  obtain ⟨hrun, hmarks, hlast⟩ := path_along (n := n + 1) hpath hquiet hbrings
  obtain ⟨-, hk, -, hlevel⟩ := h.answered hs hx.answers
    { w.hear e with host := d.onLink (n + 1) (k r) ⟨none⟩ } (hear_same w e) hx.toRoom hx.toHost
  refine ⟨_, hrun, hmarks.trans (congrArg _ hx.mark), ?_⟩
  rw [hlast]
  exact ⟨hlevel, by rw [hk]⟩

theorem Ready.step (h : d.Ready (n + 1) w s) {t : Turn} (ht : d.Permitted s t)
    (hprompt : d.Prompt s t) :
    ∃ turns, Runs.Along (d.wiredNext (n + 1)) d.WiredPermitted w turns ∧
      turns.filterMap d.mark = [t].filterMap Turn.mark ∧
      d.Ready (n + 1) (turns.foldl (d.wiredNext (n + 1)) w) (d.next s t) := by
  cases t with
  | room e =>
      have hpermits : d.WiredPermitted w (.room e) := by
        rw [WiredPermitted, wiredPermits, h.room]
        exact ht
      exact ⟨[.room e], ⟨hpermits, trivial⟩, rfl, h.toLevel.room_step (h.kept.next ht), h.host⟩
  | arrive =>
      obtain ⟨hlevel, hw, hs, -⟩ := h.toLevel.arrive (n := n + 1) ht
      exact ⟨[.arrive], ⟨h.permits_arrive.trans ht, trivial⟩, rfl, hlevel,
        hw.trans (h.host.trans (by rw [hs]))⟩
  | host e =>
      obtain ⟨turns, hrun, hmarks, hready⟩ := h.call ht hprompt
      exact ⟨turns, hrun, hmarks.trans (filterMap_single markOf e).symm, hready⟩
  | again fuel =>
      have hserved : served s.host = true := ht
      unfold served at hserved
      split at hserved
      · rename_i out st hs
        have hw : w.host = .ret ((.ok out, st), ⟨none⟩) := by
          rw [h.host, hs]
          rfl
        obtain ⟨-, hlevel, hhost, -⟩ := h.toLevel.again (n := n + 1) fuel hw hs
        exact ⟨[.again fuel], ⟨served_iff.mpr ⟨out, st, _, hw⟩, trivial⟩, rfl, hlevel, hhost⟩
      · cases hserved
  | drop => exact ⟨[.drop], ⟨rfl, trivial⟩, rfl, h.toLevel.drop (n := n + 1), h.host⟩

theorem ready_wired {room : Room} (hroom : Room.Steps d.subtle Room.anyEvent .new room)
    (hseat : (room.base d.ws).isSome) (st : HostState) (fuel : Nat) :
    d.Ready n (d.wired n room st fuel) (d.start room st fuel) :=
  ⟨⟨kept_start hroom hseat st fuel, .inl (sturdy_serveNext fuel), rfl, rfl, rfl, fun _ => rfl⟩, rfl⟩

end

-- the host deployed on its socket is the host of `Service`: each run of the one is a run of the
-- other that shows the same
theorem socket_serves (d : Deployment) {n : Nat} (hn : 0 < n) {room : Room}
    (hroom : Room.Steps d.subtle Room.anyEvent .new room) (hseat : (room.base d.ws).isSome)
    (st : HostState) (fuel : Nat) :
    (∀ turns, Runs.Along (d.wiredNext n) d.WiredPermitted (d.wired n room st fuel) turns →
      ∃ turns', Runs.Along d.next d.Permitted (d.start room st fuel) turns' ∧
        turns'.filterMap Turn.mark = turns.filterMap d.mark ∧
        Carried (turns.foldl (d.wiredNext n) (d.wired n room st fuel))
          (turns'.foldl d.next (d.start room st fuel))) ∧
    ∀ turns', Runs.Along d.next d.Permitted (d.start room st fuel) turns' →
      Runs.Along d.next d.Prompt (d.start room st fuel) turns' →
      ∃ turns, Runs.Along (d.wiredNext n) d.WiredPermitted (d.wired n room st fuel) turns ∧
        turns.filterMap d.mark = turns'.filterMap Turn.mark ∧
        Carried (turns.foldl (d.wiredNext n) (d.wired n room st fuel))
          (turns'.foldl d.next (d.start room st fuel)) := by
  have hready := ready_wired (n := n) hroom hseat st fuel
  constructor
  · intro turns hrun
    obtain ⟨turns', hrun', hmarks, hfollows⟩ := Runs.Along.carried
      (fun w s t (h : d.Follows n w s) ht => h.step ht) hready.follows hrun
    exact ⟨turns', hrun', hmarks, hfollows.carried⟩
  · intro turns' hrun hprompt
    obtain ⟨n, rfl⟩ := Nat.exists_eq_succ_of_ne_zero hn.ne'
    obtain ⟨turns, hrun', hmarks, hready'⟩ := Runs.Along.carried
      (fun s w t (h : d.Ready (n + 1) w s) ht => h.step ht.1 ht.2) hready (hrun.and hprompt)
    exact ⟨turns, hrun', hmarks, hready'.follows.carried⟩

def sampleSocket (es : List SocketEv) : List WiredTurn := es.map .socket

-- a ping comes before the viewer, who says nothing and is kicked; the connection drops while the
-- host waits for the next one
def sampleWired : List WiredTurn := [.room joinsViewer] ++ sampleSocket [
    ⟨.now, 5⟩, ⟨.now, 6⟩, ⟨.setReadTimeout (Duration.fromSecs 15 - 1), .ok ()⟩, ⟨.read, .ok .ping⟩,
    ⟨.now, 8⟩, ⟨.setReadTimeout (Duration.fromSecs 15 - 3), .ok ()⟩,
    ⟨.read, .ok (.text (ServerFrame.json .viewerJoined))⟩, ⟨.other .now, 0⟩, ⟨.now, 10⟩, ⟨.now, 10⟩,
    ⟨.setReadTimeout (Duration.fromSecs 15), .ok ()⟩, ⟨.read, .error (.io .wouldBlock)⟩,
    ⟨.send HostToServer.kick.json, .ok ()⟩] ++
  [.arrive, .again 5, .drop] ++ sampleSocket [⟨.now, 20⟩, ⟨.now, 20⟩,
    ⟨.setReadTimeout (Duration.fromSecs 15), .ok ()⟩, ⟨.read, .error .connectionClosed⟩]

theorem sample_socket_serves :
    (∃ turns', Runs.Along Deployment.sample.next Deployment.sample.Permitted sampleService turns' ∧
      turns'.filterMap Turn.mark = sampleWired.filterMap Deployment.sample.mark) ∧
    ∃ turns, Runs.Along (Deployment.sample.wiredNext 3) Deployment.sample.WiredPermitted
        (Deployment.sample.wired 3 (roomAfter sampleRegister) .sample 5) turns ∧
      turns.filterMap Deployment.sample.mark = sampleServing.filterMap Turn.mark := by
  obtain ⟨hwired, hservice⟩ := socket_serves .sample (n := 3) (by decide) sample_registered
    (by decide +kernel) .sample 5
  obtain ⟨turns', hrun, hmarks, -⟩ := hwired sampleWired (by decide +kernel)
  obtain ⟨turns, hrun', hmarks', -⟩ := hservice sampleServing (by decide +kernel) (by decide +kernel)
  exact ⟨⟨turns', hrun, hmarks⟩, turns, hrun', hmarks'⟩

end Deployment

end Serving

end SimpleRemote
