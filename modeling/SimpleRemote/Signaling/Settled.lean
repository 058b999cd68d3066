import SimpleRemote.Signaling.Handling

namespace SimpleRemote.Signaling
open ByteCodec Json

-- while its socket is open the host at `ws` is registered, with no authentication under way
def Room.Settled (r : Room) (ws : Nat) : Prop :=
  r.isOpen ws = true → r.marked ws = true ∧ ∀ p ∈ r.pending, p.ws ≠ ws

def Frame.data (frame : Frame) : Option Utf16 := (frameMessage frame).bind relayData

-- what the registered host at `ws` is told in a step of the room
inductive Tells (ws : Nat) : Event → ServerFrame → Prop
  | joined (e : Event) : Tells ws e .viewerJoined
  | left (e : Event) : Tells ws e .viewerLeft
  | relay {w : Nat} {frame : Frame} {data : Utf16} (hne : w ≠ ws) (h : frame.data = some data) :
      Tells ws (.message w frame) (.relay data)

section
variable {subtle : SubtleVerify} {r r' : Room} {e : Event} {ws : Nat}

theorem Course.open_before (h : Course subtle r r') (hlt : ws < r.sockets.length)
    (ho : r'.isOpen ws = true) : r.isOpen ws = true := by
  have haccepted {a : Attachment} {claim : Bool} (hs : r'.sockets = (r.accept a claim).sockets) :
      r.isOpen ws = true := by
    rwa [Room.isOpen_accepted hs, if_neg hlt.ne] at ho
  cases h with
  | faded h => exact ((h.isOpen ws).mp ho).1
  | challenged nonce key id claim => exact @haccepted _ claim rfl
  | joined => exact @haccepted _ false rfl
  | registered hp hgood hout =>
      rw [Room.register, Room.isOpen_mark] at ho
      exact (((fades_replaced r _ _ hout).isOpen ws).mp ho).1

theorem Course.marked_still (h : Course subtle r r') (hb : Bound subtle r)
    (hm : r.marked ws = true) (ho : r'.isOpen ws = true) : r'.marked ws = true := by
  have haccepted {a : Attachment} {claim : Bool} (hs : r'.sockets = (r.accept a claim).sockets) :
      r'.marked ws = true := by
    rw [Room.marked_accepted hs, if_neg (Room.lt_of_marked hm).ne]
    exact hm
  cases h with
  | faded h =>
      exact (h.marked ws).mpr ⟨hm, fun hu => ((h.isOpen ws).mp ho).2 (h.unmarks ws hu)⟩
  | challenged nonce key id claim => exact @haccepted _ claim rfl
  | joined => exact @haccepted _ false rfl
  | @registered i p out hp hgood hout =>
      have hfades := fades_replaced r i (some p.att.key) hout
      have hbase := (hfades.base p.ws).trans (hb.pending p (List.mem_of_getElem? hp)).1
      rw [Room.register, Room.isOpen_mark] at ho
      rw [Room.register, Room.marked_mark hbase]
      exact .inr ((hfades.marked ws).mpr
        ⟨hm, fun hu => ((hfades.isOpen ws).mp ho).2 (hfades.unmarks ws hu)⟩)

-- a registered host is not authenticated again
theorem Did.suspends (h : Did subtle r e r') {p : Pending} (hp : p ∈ r'.pending) :
    p ∈ r.pending ∨ r.marked p.ws = false := by
  have hsame {r₁ : Room} (heq : r₁.pending = r.pending) (hp : p ∈ r₁.pending) :
      p ∈ r.pending ∨ r.marked p.ws = false := .inl (heq ▸ hp)
  have herased {r₁ : Room} {i : Nat} (heq : r₁.pending = r.pending.eraseIdx i)
      (hp : p ∈ r₁.pending) : p ∈ r.pending ∨ r.marked p.ws = false :=
    .inl (List.mem_of_mem_eraseIdx (heq ▸ hp))
  have hended {r₁ : Room} (hp : p ∈ (r₁.answer e).pending) (heq : r₁.pending = r.pending) :
      p ∈ r.pending ∨ r.marked p.ws = false := by
    have hanswer : (r₁.answer e).pending = r₁.pending := by cases e <;> rfl
    exact hsame (hanswer.trans heq) hp
  cases h with
  | suspended hws hm =>
      rcases List.mem_append.mp hp with hp | hp
      · exact .inl hp
      · obtain rfl := List.mem_singleton.mp hp
        exact .inr (hws ▸ hm)
  | bad code => exact hsame (Shape.closeFromServer ..).pending hp
  | kicked => exact hsame (Shape.closeFromServer ..).pending hp
  | failed => exact herased (Shape.closeFromServer ..).pending hp
  | @registered i p' out =>
      obtain ⟨-, -, hmark⟩ := ((r.resumed i (some p'.att.key) out).replace p'.ws).mark_eq p'
      exact herased (hmark.trans (Shape.replace _ p'.ws).pending) hp
  | @hostEnded _ ws he hm =>
      obtain ⟨c, hc⟩ := Option.isSome_iff_exists.mp (Room.base_of_marked hm)
      exact hended hp (Shape.hostGone (((Shape.finish r ws).base ws).trans hc) ws).pending
  | viewerEnded => exact hended hp rfl
  | ended => exact hended hp rfl
  | _ => exact .inl hp

theorem open_before (hb : Bound subtle r) (hd : r.delivers e = true) (hlt : ws < r.sockets.length)
    (ho : (r.handle subtle e).isOpen ws = true) : r.isOpen ws = true :=
  ((handle_did hd).course hb hd).open_before hlt ho

theorem Room.Settled.handle (hs : r.Settled ws) (hb : Bound subtle r) (hd : r.delivers e = true)
    (hlt : ws < r.sockets.length) : (r.handle subtle e).Settled ws := by
  intro ho
  obtain ⟨hm, hnone⟩ := hs (open_before hb hd hlt ho)
  refine ⟨((handle_did hd).course hb hd).marked_still hb hm ho, fun p hp hws => ?_⟩
  rcases (handle_did hd).suspends hp with hp | hunmarked
  · exact hnone p hp hws
  · rw [hws, hm] at hunmarked
    cases hunmarked

theorem Room.not_news (h : r'.log = r.log) {o : Output} : o ∉ r.news r' := by
  rw [Room.news, h, List.drop_length]
  exact List.not_mem_nil

theorem Room.mem_news_send {ws cause : Nat} {frame : ServerFrame} {o : Output}
    (h : o ∈ r.news (r.send ws frame cause)) : o = .sent ws frame cause := by
  rw [Room.send] at h
  split at h
  · rw [Room.news_eq rfl] at h
    exact List.mem_singleton.mp h
  · exact absurd h (Room.not_news rfl)

theorem Room.mem_news_closed {ws code cause : Nat} {o : Output}
    (h : o ∈ r.news (r.closeFromServer ws code cause)) : o = .closed ws code cause := by
  rw [Room.news_eq (Shape.closeFromServer r ws code cause).log] at h
  exact List.mem_singleton.mp h

theorem Room.relayed_onHostMessage {att : HostAttachment} {msg : Value} {h cause : Nat}
    {data : Utf16} (hmem : .sent h (.relay data) cause ∈ r.news (r.onHostMessage ws att msg)) :
    relayData msg = some data := by
  rw [Room.onHostMessage] at hmem
  split at hmem
  · split at hmem
    · rename_i hdata
      split at hmem
      · cases Room.mem_news_send hmem
        exact hdata
      · exact absurd hmem (Room.not_news rfl)
    · split at hmem
      · split at hmem
        · cases Room.mem_news_closed hmem
        · exact absurd hmem (Room.not_news rfl)
      · cases Room.mem_news_closed hmem
  · split at hmem
    · rw [Room.authenticate] at hmem
      split at hmem
      · cases Room.mem_news_closed hmem
      · exact absurd hmem (Room.not_news rfl)
    · cases Room.mem_news_closed hmem

theorem Room.relayed_onViewerMessage {msg : Value} {h cause : Nat} {data : Utf16}
    (hmem : .sent h (.relay data) cause ∈ r.news (r.onViewerMessage ws msg)) :
    relayData msg = some data := by
  rw [Room.onViewerMessage] at hmem
  split at hmem
  · split at hmem
    · rename_i hdata
      split at hmem
      · cases Room.mem_news_send hmem
        exact hdata
      · exact absurd hmem (Room.not_news rfl)
    · cases Room.mem_news_closed hmem
  · exact absurd hmem (Room.not_news rfl)

-- a relay carries the data of the frame that led to it
theorem Room.relayed_webSocketMessage {frame : Frame} {h cause : Nat} {data : Utf16}
    (hmem : .sent h (.relay data) cause ∈ r.news (r.webSocketMessage ws frame)) :
    frame.data = some data := by
  rw [Room.webSocketMessage] at hmem
  split at hmem
  · cases Room.mem_news_closed hmem
  · rename_i hsize
    split at hmem
    · cases Room.mem_news_closed hmem
    · rename_i msg hmsg
      rw [Frame.data, frameMessage_eq hsize, hmsg, Option.bind_some]
      split at hmem
      · exact Room.relayed_onHostMessage hmem
      · exact Room.relayed_onViewerMessage hmem

theorem Room.not_openViewer (hm : r.marked ws = true) : r.openViewer ≠ some ws := by
  intro hviewer
  have hview := Room.viewing_of_openViewer hviewer
  rw [Room.not_viewing_of_base (Room.base_of_marked hm)] at hview
  cases hview

theorem not_told_gone (hm : r.marked ws = true) {frame : ServerFrame} {cause cause' : Nat} :
    .sent ws frame cause ∉ Shape.goneOutput r.openViewer cause' := by
  intro hmem
  cases hviewer : r.openViewer with
  | none =>
      rw [hviewer] at hmem
      cases hmem
  | some v =>
      rw [hviewer, Shape.goneOutput] at hmem
      rcases List.mem_cons.mp hmem with heq | hmem
      · cases heq
        exact Room.not_openViewer hm hviewer
      · cases List.mem_singleton.mp hmem

theorem not_told_replaced (hm : r.marked ws = true) {frame : ServerFrame} {displaced : Option Nat}
    {cause cause' : Nat} :
    .sent ws frame cause ∉ replaceOutput displaced r.openViewer cause' := by
  intro hmem
  cases displaced with
  | none => cases hmem
  | some previous =>
      rcases List.mem_append.mp hmem with hmem | hmem
      · exact not_told_gone hm hmem
      · cases List.mem_singleton.mp hmem

theorem Room.Settled.told (hs : r.Settled ws) (ho : r.isOpen ws = true)
    (hd : r.delivers e = true) {frame : ServerFrame} {cause : Nat}
    (hmem : .sent ws frame cause ∈ r.news (r.handle subtle e)) : Tells ws e frame := by
  obtain ⟨hm, hnone⟩ := hs ho
  have hlt := Room.lt_of_marked hm
  have hdid : Did subtle r e (r.handle subtle e) := handle_did hd
  generalize hr' : r.handle subtle e = r' at hdid hmem
  have hended {out rest : List Output} {w : Nat} (hlog : r'.log = r.log ++ (out ++ rest))
      (hrest : ∀ o ∈ rest, ∃ code, o = .closed w code w)
      (hmem : .sent ws frame cause ∈ r.news r') : .sent ws frame cause ∈ out := by
    rw [Room.news_eq hlog] at hmem
    rcases List.mem_append.mp hmem with hmem | hmem
    · exact hmem
    · obtain ⟨code, heq⟩ := hrest _ hmem
      cases heq
  have hchecked {p : Pending} {out : List Output} (hout : Checked p out) :
      .sent ws frame cause ∉ out := by
    intro hmem
    rcases hout _ hmem with heq | heq <;> cases heq
  have hawaited {w : Nat} (he : e.ends = some w) : w < r.sockets.length :=
    Room.lt_of_awaits (Room.awaits_of_ends he hd)
  cases hdid with
  | refused =>
      exact absurd hmem (Room.not_news rfl)
  | host nonce key id claim =>
      rw [Room.news_eq (r.challenged_log nonce key id claim)] at hmem
      rcases List.mem_cons.mp hmem with heq | hmem
      · cases heq
      · cases List.mem_singleton.mp hmem
        exact absurd hlt (lt_irrefl _)
  | viewer =>
      rw [Room.news_eq (r.joined_log _)] at hmem
      rcases List.mem_cons.mp hmem with heq | hmem
      · cases heq
      · rcases List.mem_cons.mp hmem with heq | hmem
        · cases heq
          exact absurd hlt (lt_irrefl _)
        · cases List.mem_singleton.mp hmem
          exact .joined _
  | dropped =>
      exact absurd hmem (Room.not_news rfl)
  | bad => cases Room.mem_news_closed hmem
  | down data _ _ hviewer =>
      rw [Room.news_eq rfl] at hmem
      cases List.mem_singleton.mp hmem
      exact absurd hviewer (Room.not_openViewer hm)
  | kicked => cases Room.mem_news_closed hmem
  | up data hviewer =>
      have hfrom := hmem
      rw [← hr'] at hfrom
      rw [Room.news_eq rfl] at hmem
      cases List.mem_singleton.mp hmem
      refine .relay (fun heq => ?_) (Room.relayed_webSocketMessage hfrom)
      exact Room.not_openViewer hm (heq ▸ hviewer)
  | suspended =>
      exact absurd hmem (Room.not_news rfl)
  | @failed i p out hp hbad hout =>
      have hlog := (Shape.closeFromServer (r.resumed i r.owner out) p.ws CLOSE_AUTH p.ws).log
      have hmem' := hended (hlog.trans (List.append_assoc ..))
        (fun o ho => ⟨_, List.mem_singleton.mp ho⟩) hmem
      exact absurd hmem' (hchecked hout)
  | @registered i p out hp hgood hout =>
      obtain ⟨rest, hlog, hrest⟩ := register_log r i (some p.att.key) hout
      rw [Room.news_eq hlog] at hmem
      rcases List.mem_append.mp hmem with hmem | hmem
      · rcases List.mem_append.mp hmem with hmem | hmem
        · exact absurd hmem (hchecked hout)
        · exact absurd hmem (not_told_replaced hm)
      · cases hrest _ hmem
        exact absurd rfl (hnone p (List.mem_of_getElem? hp))
  | hostEnded he hm' =>
      obtain ⟨rest, hfades, hrest⟩ := (fades_hostEnded hm').answer he (.inl rfl) (hawaited he)
      exact absurd (hended hfades.log hrest hmem) (not_told_gone hm)
  | @viewerEnded _ w host he =>
      obtain ⟨rest, hfades, hrest⟩ := (fades_viewerEnded r w host).answer he rfl (hawaited he)
      cases List.mem_singleton.mp (hended hfades.log hrest hmem)
      exact .left _
  | ended he =>
      obtain ⟨rest, hfades, hrest⟩ := fades_finish.answer he rfl (hawaited he)
      cases hended hfades.log hrest hmem

end

end SimpleRemote.Signaling
