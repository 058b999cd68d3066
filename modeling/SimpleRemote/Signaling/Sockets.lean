import SimpleRemote.Signaling.Room

namespace SimpleRemote.Signaling
open ByteCodec Json

structure Credentials where
  nonce : Text
  key : Text
  id : Text
  deriving DecidableEq

def HostAttachment.base (a : HostAttachment) : Credentials := ⟨a.nonce, a.key, a.id⟩

def Socket.base (s : Socket) : Option Credentials :=
  match s.attachment with
  | .host a => some a.base
  | .viewer _ => none

def Socket.marked (s : Socket) : Bool :=
  match s.attachment with
  | .host a => a.authed
  | .viewer _ => false

theorem Socket.authedHost_eq (s : Socket) : s.authedHost = (s.isOpen && s.marked) := by
  rw [authedHost, marked]
  cases s.attachment <;> simp

theorem Socket.openViewer_eq (s : Socket) : s.openViewer = (s.isOpen && s.base.isNone) := by
  rw [openViewer, base]
  cases s.attachment <;> simp

def Output.mild : Output → Bool
  | .accepted _ _ => false
  | .sent _ (.registered _) _ => false
  | .sent _ _ _ => true
  | .closed _ _ _ => true
  | .verified _ _ => false
  | .ownerPut _ _ => false

namespace Room

def base (r : Room) (ws : Nat) : Option Credentials := (r.sockets[ws]?).bind Socket.base

def marked (r : Room) (ws : Nat) : Bool := (r.sockets[ws]?).any Socket.marked

def ready (r : Room) (ws : Nat) : Bool := (r.sockets[ws]?).any Socket.authedHost

def viewing (r : Room) (ws : Nat) : Bool := (r.sockets[ws]?).any Socket.openViewer

theorem base_of_attachment {r : Room} {ws : Nat} {a : HostAttachment}
    (h : r.attachment ws = some (.host a)) : r.base ws = some a.base := by
  obtain ⟨s, hs, ha⟩ := Option.map_eq_some_iff.mp h
  simp [base, hs, Socket.base, ha]

theorem marked_of_attachment {r : Room} {ws : Nat} {a : HostAttachment}
    (h : r.attachment ws = some (.host a)) : r.marked ws = a.authed := by
  obtain ⟨s, hs, ha⟩ := Option.map_eq_some_iff.mp h
  simp [marked, hs, Socket.marked, ha]

theorem attachment_of_base {r : Room} {ws : Nat} {c : Credentials} (h : r.base ws = some c) :
    ∃ a, r.attachment ws = some (.host a) := by
  obtain ⟨s, hs, hc⟩ := Option.bind_eq_some_iff.mp h
  rw [Socket.base] at hc
  split at hc
  · rename_i a ha
    exact ⟨a, by rw [attachment, hs, Option.map_some, ha]⟩
  · cases hc

theorem hostGone_of_base {r : Room} {host cause : Nat} (h : r.base host = none) :
    r.hostGone host cause = r := by
  rw [hostGone]
  split
  · rename_i hatt
    rw [base_of_attachment hatt] at h
    cases h
  · rfl

theorem ready_eq (r : Room) (ws : Nat) : r.ready ws = (r.isOpen ws && r.marked ws) := by
  rw [ready, isOpen, marked]
  cases r.sockets[ws]? <;> simp [Socket.authedHost_eq]

theorem ready_iff {r : Room} {ws : Nat} :
    r.ready ws = true ↔ r.isOpen ws = true ∧ r.marked ws = true := by
  rw [ready_eq, Bool.and_eq_true]

theorem viewing_eq (r : Room) (ws : Nat) :
    r.viewing ws = (r.isOpen ws && (r.base ws).isNone) := by
  rw [viewing, isOpen, base]
  cases r.sockets[ws]? <;> simp [Socket.openViewer_eq]

theorem viewing_iff {r : Room} {ws : Nat} :
    r.viewing ws = true ↔ r.isOpen ws = true ∧ r.base ws = none := by
  rw [viewing_eq, Bool.and_eq_true, Option.isNone_iff_eq_none]

theorem any_of_findIdx {p : Socket → Bool} {ss : List Socket} {ws : Nat}
    (h : ss.findIdx? p = some ws) : (ss[ws]?).any p = true := by
  obtain ⟨hlt, hp, -⟩ := List.findIdx?_eq_some_iff_getElem.mp h
  rw [List.getElem?_eq_getElem hlt]
  exact hp

theorem not_any_of_findIdx {p : Socket → Bool} {ss : List Socket} (h : ss.findIdx? p = none)
    (ws : Nat) : (ss[ws]?).any p = false := by
  cases hs : ss[ws]? with
  | none => rfl
  | some s => exact List.findIdx?_eq_none_iff.mp h s (List.mem_of_getElem? hs)

theorem ready_of_authedHost {r : Room} {h : Nat} (hh : r.authedHost = some h) :
    r.ready h = true := any_of_findIdx hh

theorem not_ready_of_authedHost {r : Room} (hh : r.authedHost = none) (h : Nat) :
    r.ready h = false := not_any_of_findIdx hh h

theorem viewing_of_openViewer {r : Room} {v : Nat} (hv : r.openViewer = some v) :
    r.viewing v = true := any_of_findIdx hv

theorem not_viewing_of_openViewer {r : Room} (hv : r.openViewer = none) (v : Nat) :
    r.viewing v = false := not_any_of_findIdx hv v

theorem exists_authedHost {r : Room} {h : Nat} (hh : r.ready h = true) :
    ∃ h', r.authedHost = some h' := by
  cases ha : r.authedHost with
  | some h' => exact ⟨h', rfl⟩
  | none =>
      have := not_ready_of_authedHost ha h
      simp_all

theorem exists_openViewer {r : Room} {v : Nat} (hv : r.viewing v = true) :
    ∃ v', r.openViewer = some v' := by
  cases ho : r.openViewer with
  | some v' => exact ⟨v', rfl⟩
  | none =>
      have := not_viewing_of_openViewer ho v
      simp_all

theorem sockets_update (r : Room) (ws : Nat) (f : Socket → Socket) (ws' : Nat) :
    (r.update ws f).sockets[ws']? =
      if ws = ws' then (r.sockets[ws']?).map f else r.sockets[ws']? := by
  rw [update, List.getElem?_modify]
  split <;> simp

theorem sockets_update_self (r : Room) (ws : Nat) (f : Socket → Socket) :
    (r.update ws f).sockets[ws]? = (r.sockets[ws]?).map f := by
  rw [sockets_update, if_pos rfl]

theorem sockets_update_of_ne (r : Room) {ws ws' : Nat} (f : Socket → Socket) (h : ws ≠ ws') :
    (r.update ws f).sockets[ws']? = r.sockets[ws']? := by
  rw [sockets_update, if_neg h]

theorem findIdx_modify {p : Socket → Bool} {f : Socket → Socket} (ss : List Socket) (i : Nat)
    (h : ∀ s, ss[i]? = some s → p (f s) = p s) : (ss.modify i f).findIdx? p = ss.findIdx? p := by
  induction ss generalizing i with
  | nil => simp
  | cons s ss ih =>
      cases i with
      | zero => simp [List.findIdx?_cons, h s rfl]
      | succ i =>
          have := ih i h
          simp [List.findIdx?_cons, this]

theorem openViewer_setAttachment {r : Room} {host : Nat} {c : Credentials} {a : HostAttachment}
    (h : r.base host = some c) : (r.setAttachment host (.host a)).openViewer = r.openViewer := by
  refine findIdx_modify _ _ fun s hs => ?_
  rw [base, hs] at h
  obtain ⟨_ | _, o, e⟩ := s
  · rfl
  · cases h

theorem isOpen_of_viewing {r : Room} {ws : Nat} (h : r.viewing ws = true) : r.isOpen ws = true :=
  (viewing_iff.mp h).1

end Room

-- `r'` is `r` with the sockets in `shut` no longer open, the hosts in `unmarked` no longer
-- authed, and `out` written to the log
structure Outline (r r' : Room) (shut unmarked : Nat → Prop) (out : List Output) : Prop where
  length : r'.sockets.length = r.sockets.length
  base : ∀ ws, r'.base ws = r.base ws
  isOpen : ∀ ws, r'.isOpen ws = true ↔ r.isOpen ws = true ∧ ¬ shut ws
  marked : ∀ ws, r'.marked ws = true ↔ r.marked ws = true ∧ ¬ unmarked ws
  log : r'.log = r.log ++ out

structure Shape (r r' : Room) (shut unmarked : Nat → Prop) (out : List Output) : Prop
    extends Outline r r' shut unmarked out where
  owner : r'.owner = r.owner
  pending : r'.pending = r.pending

abbrev nobody : Nat → Prop := fun _ => False

section
variable {r r' r'' : Room} {shut shut' unmarked unmarked' : Nat → Prop} {out out' : List Output}

namespace Outline
open Room

theorem of_sockets (hs : r'.sockets = r.sockets) (hlog : r'.log = r.log ++ out) :
    Outline r r' nobody nobody out where
  length := congrArg List.length hs
  base ws := by rw [Room.base, Room.base, hs]
  isOpen ws := by rw [Room.isOpen, Room.isOpen, hs]; simp
  marked ws := by rw [Room.marked, Room.marked, hs]; simp
  log := hlog

theorem trans (h : Outline r r' shut unmarked out) (h' : Outline r' r'' shut' unmarked' out') :
    Outline r r'' (fun ws => shut ws ∨ shut' ws) (fun ws => unmarked ws ∨ unmarked' ws)
      (out ++ out') where
  length := h'.length.trans h.length
  base ws := (h'.base ws).trans (h.base ws)
  isOpen ws := by rw [h'.isOpen, h.isOpen, and_assoc, not_or]
  marked ws := by rw [h'.marked, h.marked, and_assoc, not_or]
  log := by rw [h'.log, h.log, List.append_assoc]

theorem congr (h : Outline r r' shut unmarked out) (hs : ∀ ws, shut' ws ↔ shut ws)
    (hu : ∀ ws, unmarked' ws ↔ unmarked ws) : Outline r r' shut' unmarked' out :=
  { h with
    isOpen := fun ws => by rw [h.isOpen, hs]
    marked := fun ws => by rw [h.marked, hu] }

theorem viewing (h : Outline r r' shut unmarked out) (ws : Nat) :
    r'.viewing ws = true ↔ r.viewing ws = true ∧ ¬ shut ws := by
  rw [viewing_iff, viewing_iff, h.isOpen, h.base]
  tauto

theorem ready (h : Outline r r' shut unmarked out) (ws : Nat) :
    r'.ready ws = true ↔ r.ready ws = true ∧ ¬ shut ws ∧ ¬ unmarked ws := by
  rw [ready_iff, ready_iff, h.isOpen, h.marked]
  tauto

end Outline

end

namespace Shape
open Room
variable {r r' r'' : Room} {shut shut' unmarked unmarked' : Nat → Prop} {out out' : List Output}

theorem refl (r : Room) : Shape r r nobody nobody [] :=
  ⟨.of_sockets rfl (List.append_nil _).symm, rfl, rfl⟩

theorem trans (h : Shape r r' shut unmarked out) (h' : Shape r' r'' shut' unmarked' out') :
    Shape r r'' (fun ws => shut ws ∨ shut' ws) (fun ws => unmarked ws ∨ unmarked' ws)
      (out ++ out') :=
  ⟨h.toOutline.trans h'.toOutline, h'.owner.trans h.owner, h'.pending.trans h.pending⟩

theorem congr (h : Shape r r' shut unmarked out) (hs : ∀ ws, shut' ws ↔ shut ws)
    (hu : ∀ ws, unmarked' ws ↔ unmarked ws) : Shape r r' shut' unmarked' out :=
  ⟨h.toOutline.congr hs hu, h.owner, h.pending⟩

theorem emit (r : Room) (o : Output) : Shape r (r.emit o) nobody nobody [o] :=
  ⟨.of_sockets rfl rfl, rfl, rfl⟩

theorem update (r : Room) (ws : Nat) {f : Socket → Socket} {p q : Prop}
    (hf : ∀ s, r.sockets[ws]? = some s → (f s).base = s.base ∧
      ((f s).isOpen = true ↔ s.isOpen = true ∧ ¬ p) ∧
      ((f s).marked = true ↔ s.marked = true ∧ ¬ q)) :
    Shape r (r.update ws f) (fun ws' => ws' = ws ∧ p) (fun ws' => ws' = ws ∧ q) [] := by
  have key (ws' : Nat) : (r.update ws f).base ws' = r.base ws' ∧
      ((r.update ws f).isOpen ws' = true ↔ r.isOpen ws' = true ∧ ¬ (ws' = ws ∧ p)) ∧
      ((r.update ws f).marked ws' = true ↔ r.marked ws' = true ∧ ¬ (ws' = ws ∧ q)) := by
    by_cases hws : ws = ws'
    · subst hws
      simp only [Room.base, Room.marked, Room.isOpen, sockets_update_self]
      cases hs : r.sockets[ws]? with
      | none => simp
      | some s => simpa using hf s hs
    · simp [Room.base, Room.marked, Room.isOpen, sockets_update_of_ne r f hws, Ne.symm hws]
  exact ⟨⟨List.length_modify .., fun ws' => (key ws').1, fun ws' => (key ws').2.1,
    fun ws' => (key ws').2.2, (List.append_nil _).symm⟩, rfl, rfl⟩

theorem shutting (r : Room) (ws : Nat) {f : Socket → Socket}
    (hf : ∀ s, (f s).attachment = s.attachment ∧ (f s).isOpen = false) :
    Shape r (r.update ws f) (· = ws) nobody [] := by
  have h : Shape r (r.update ws f) (fun ws' => ws' = ws ∧ True) (fun ws' => ws' = ws ∧ False) [] := by
    refine update r ws fun s _ => ?_
    obtain ⟨ha, ho⟩ := hf s
    simp [Socket.base, Socket.marked, ha, ho]
  exact h.congr (by simp) (by simp)

theorem close (r : Room) (ws : Nat) (code : Nat) (cause : Nat) :
    Shape r (r.close ws code cause) (· = ws) nobody [.closed ws code cause] := by
  have hshut : Shape r (r.update ws fun s => { s with isOpen := false }) (· = ws) nobody [] :=
    shutting r ws fun _ => ⟨rfl, rfl⟩
  exact (hshut.trans (emit _ _)).congr (by simp) (by simp)

theorem finish (r : Room) (ws : Nat) : Shape r (r.finish ws) (· = ws) nobody [] :=
  shutting r ws fun _ => ⟨rfl, rfl⟩

theorem send (r : Room) (ws : Nat) (frame : ServerFrame) (cause : Nat) :
    Shape r (r.send ws frame cause) nobody nobody
      (if r.isOpen ws then [.sent ws frame cause] else []) := by
  rw [Room.send]
  split
  · exact emit r _
  · exact refl r

theorem send_of_isOpen {ws : Nat} (h : r.isOpen ws = true) (frame : ServerFrame) (cause : Nat) :
    Shape r (r.send ws frame cause) nobody nobody [.sent ws frame cause] := by
  have := send r ws frame cause
  rwa [if_pos h] at this

theorem setAttachment {ws : Nat} {a a' : Attachment} {q : Prop} (ha : r.attachment ws = some a)
    (hbase : (Socket.mk a' true true).base = (Socket.mk a true true).base)
    (hmarked : (Socket.mk a' true true).marked = true ↔
      (Socket.mk a true true).marked = true ∧ ¬ q) :
    Shape r (r.setAttachment ws a') nobody (fun ws' => ws' = ws ∧ q) [] := by
  have h : Shape r (r.setAttachment ws a') (fun ws' => ws' = ws ∧ False)
      (fun ws' => ws' = ws ∧ q) [] := by
    refine update r ws fun s hs => ?_
    rw [attachment, hs] at ha
    obtain ⟨a₀, o, e⟩ := s
    obtain rfl : a₀ = a := Option.some.inj ha
    exact ⟨hbase, by simp, hmarked⟩
  exact h.congr (by simp) fun _ => Iff.rfl

theorem closeFromServer (r : Room) (ws : Nat) (code : Nat) (cause : Nat) :
    Shape r (r.closeFromServer ws code cause) (· = ws) nobody [.closed ws code cause] := by
  rw [Room.closeFromServer]
  split
  · rename_i a ha
    have hflag : Shape r (r.setAttachment ws (.viewer ⟨true⟩)) nobody (fun ws' => ws' = ws ∧ False) [] :=
      setAttachment ha rfl (by simp [Socket.marked])
    exact (hflag.trans (close _ ws code cause)).congr (by simp) (by simp)
  · exact close r ws code cause

def goneOutput (viewer : Option Nat) (cause : Nat) : List Output :=
  match viewer with
  | some v => [.sent v .hostLeft cause, .closed v CLOSE_HOST_LEFT cause]
  | none => []

theorem hostGone {host : Nat} {c : Credentials} (hbase : r.base host = some c) (cause : Nat) :
    Shape r (r.hostGone host cause) (fun ws => r.openViewer = some ws) (· = host)
      (goneOutput r.openViewer cause) := by
  obtain ⟨att, hatt⟩ := attachment_of_base hbase
  have hmark : Shape r (r.setAttachment host (.host { att with authed := false })) nobody
      (fun ws => ws = host ∧ True) [] :=
    setAttachment hatt rfl (by simp [Socket.marked])
  rw [Room.hostGone, hatt]
  dsimp only
  rw [openViewer_setAttachment hbase]
  cases hv : r.openViewer with
  | none => exact hmark.congr (by simp) (by simp)
  | some viewer =>
      have hopen : (r.setAttachment host (.host { att with authed := false })).isOpen viewer = true :=
        (hmark.isOpen viewer).mpr ⟨isOpen_of_viewing (viewing_of_openViewer hv), id⟩
      have hsend := send_of_isOpen hopen .hostLeft cause
      have hclose := closeFromServer
        ((r.setAttachment host (.host { att with authed := false })).send viewer .hostLeft cause)
        viewer CLOSE_HOST_LEFT cause
      refine (hmark.trans (hsend.trans hclose)).congr (fun ws => ?_) (by simp)
      simp [eq_comm]

end Shape

namespace Room
variable {r : Room} {ws : Nat} {a : HostAttachment} {c : Credentials}

theorem base_setAttachment (h : r.base ws = some a.base) (ws' : Nat) :
    (r.setAttachment ws (.host a)).base ws' = r.base ws' := by
  by_cases hws : ws = ws'
  · subst hws
    rw [base] at h ⊢
    rw [setAttachment, sockets_update_self, base]
    cases hs : r.sockets[ws]? with
    | none => rfl
    | some s => simpa [hs, Socket.base] using h.symm
  · rw [base, setAttachment, sockets_update_of_ne r _ hws, base]

theorem marked_setAttachment {ws' : Nat} (h : (r.setAttachment ws (.host a)).marked ws' = true) :
    ws' = ws ∨ r.marked ws' = true := by
  by_cases hws : ws = ws'
  · exact .inl hws.symm
  · rw [marked, setAttachment, sockets_update_of_ne r _ hws] at h
    exact .inr h

theorem isOpen_setAttachment (r : Room) (ws : Nat) (a : Attachment) (ws' : Nat) :
    (r.setAttachment ws a).isOpen ws' = r.isOpen ws' := by
  by_cases hws : ws = ws'
  · subst hws
    rw [isOpen, setAttachment, sockets_update_self, isOpen]
    cases r.sockets[ws]? <;> rfl
  · rw [isOpen, setAttachment, sockets_update_of_ne r _ hws, isOpen]

theorem lt_of_base (h : r.base ws = some c) : ws < r.sockets.length := by
  by_contra hge
  rw [base, List.getElem?_eq_none (by omega)] at h
  cases h

theorem sockets_accept (r : Room) (a : Attachment) (claim : Bool) (ws : Nat) :
    (r.accept a claim).sockets[ws]? =
      if ws = r.sockets.length then some ⟨a, true, false⟩ else r.sockets[ws]? := by
  rw [accept, List.getElem?_append]
  by_cases hlt : ws < r.sockets.length
  · rw [if_pos hlt, if_neg (by omega)]
  · rw [if_neg hlt]
    by_cases hws : ws = r.sockets.length
    · simp [hws]
    · rw [if_neg hws, List.getElem?_eq_none (by rw [List.length_singleton]; omega),
        List.getElem?_eq_none (by omega)]

theorem sockets_accept_self (r : Room) (a : Attachment) (claim : Bool) :
    (r.accept a claim).sockets[r.sockets.length]? = some ⟨a, true, false⟩ := by
  rw [sockets_accept, if_pos rfl]

theorem sockets_accept_of_lt (r : Room) (a : Attachment) (claim : Bool)
    (h : ws < r.sockets.length) :
    (r.accept a claim).sockets[ws]? = r.sockets[ws]? := by
  rw [sockets_accept, if_neg (by omega)]

theorem mark_eq (r : Room) (p : Pending) :
    (r.mark p).sockets = (r.setAttachment p.ws (.host { p.att with authed := true })).sockets ∧
      (r.mark p).owner = r.owner ∧ (r.mark p).pending = r.pending := by
  rw [mark, send]
  split <;> exact ⟨rfl, rfl, rfl⟩

theorem mark_log (r : Room) (p : Pending) : ∃ out, (r.mark p).log = r.log ++ out ∧
    ∀ o ∈ out, o = .sent p.ws (.registered p.att.id) p.ws := by
  rw [mark, send]
  split
  · exact ⟨[.sent p.ws (.registered p.att.id) p.ws], rfl, by simp⟩
  · exact ⟨[], (List.append_nil _).symm, by simp⟩

theorem base_accept (r : Room) (a : Attachment) (claim : Bool) (ws : Nat) :
    (r.accept a claim).base ws =
      if ws = r.sockets.length then (Socket.mk a true false).base else r.base ws := by
  rw [base, sockets_accept]
  split <;> rfl

theorem marked_accept (r : Room) (a : Attachment) (claim : Bool) (ws : Nat) :
    (r.accept a claim).marked ws =
      if ws = r.sockets.length then (Socket.mk a true false).marked else r.marked ws := by
  rw [marked, sockets_accept]
  split <;> rfl

theorem ready_accept (r : Room) (a : Attachment) (claim : Bool) (ws : Nat) :
    (r.accept a claim).ready ws =
      if ws = r.sockets.length then (Socket.mk a true false).authedHost else r.ready ws := by
  rw [ready, sockets_accept]
  split <;> rfl

theorem send_accept (r : Room) (a : Attachment) (claim : Bool) (frame : ServerFrame) (cause : Nat) :
    (r.accept a claim).send r.sockets.length frame cause =
      (r.accept a claim).emit (.sent r.sockets.length frame cause) := by
  rw [send, isOpen, sockets_accept, if_pos rfl]
  rfl

theorem base_lt {ws : Nat} {c : Credentials} (h : r.base ws = some c) : ws ≠ r.sockets.length :=
  Nat.ne_of_lt (lt_of_base h)

end Room

-- nothing is gained: no output that matters for ownership, no socket opened or authed
structure Mild (r r' : Room) : Prop where
  owner : r'.owner = r.owner
  pending : ∀ p ∈ r'.pending, p ∈ r.pending
  base : ∀ ws, r'.base ws = r.base ws
  marked : ∀ ws, r'.marked ws = true → r.marked ws = true
  isOpen : ∀ ws, r'.isOpen ws = true → r.isOpen ws = true
  log : ∃ out, r'.log = r.log ++ out ∧ ∀ o ∈ out, o.mild = true

theorem Shape.mild {r r' : Room} {shut unmarked : Nat → Prop} {out : List Output}
    (h : Shape r r' shut unmarked out) (hout : ∀ o ∈ out, o.mild = true) : Mild r r' where
  owner := h.owner
  pending _ hp := h.pending ▸ hp
  base := h.base
  marked ws hm := ((h.marked ws).mp hm).1
  isOpen ws ho := ((h.isOpen ws).mp ho).1
  log := ⟨out, h.log, hout⟩

namespace Mild
open Room
variable {r r' r'' : Room}

theorem refl (r : Room) : Mild r r := (Shape.refl r).mild (by simp)

theorem trans (h : Mild r r') (h' : Mild r' r'') : Mild r r'' where
  owner := h'.owner.trans h.owner
  pending p hp := h.pending p (h'.pending p hp)
  base ws := (h'.base ws).trans (h.base ws)
  marked ws hm := h.marked ws (h'.marked ws hm)
  isOpen ws ho := h.isOpen ws (h'.isOpen ws ho)
  log := by
    obtain ⟨out, hlog, hout⟩ := h.log
    obtain ⟨out', hlog', hout'⟩ := h'.log
    refine ⟨out ++ out', by rw [hlog', hlog, List.append_assoc], fun o ho => ?_⟩
    rcases List.mem_append.mp ho with ho | ho
    · exact hout o ho
    · exact hout' o ho

theorem ready (h : Mild r r') {ws : Nat} (hr : r'.ready ws = true) : r.ready ws = true := by
  have := ready_iff.mp hr
  exact ready_iff.mpr ⟨h.isOpen ws this.1, h.marked ws this.2⟩

theorem mem_log (h : Mild r r') {o : Output} (ho : o ∈ r.log) : o ∈ r'.log := by
  obtain ⟨out, hlog, -⟩ := h.log
  rw [hlog]
  exact List.mem_append_left _ ho

theorem close (r : Room) (ws : Nat) (code : Nat) (cause : Nat) : Mild r (r.close ws code cause) :=
  (Shape.close r ws code cause).mild (by simp [Output.mild])

theorem finish (r : Room) (ws : Nat) : Mild r (r.finish ws) := (Shape.finish r ws).mild (by simp)

theorem send (r : Room) (ws : Nat) {frame : ServerFrame} (cause : Nat)
    (hf : (Output.sent ws frame cause).mild = true) : Mild r (r.send ws frame cause) := by
  refine (Shape.send r ws frame cause).mild ?_
  split
  · simpa using hf
  · simp

theorem closeFromServer (r : Room) (ws : Nat) (code : Nat) (cause : Nat) :
    Mild r (r.closeFromServer ws code cause) :=
  (Shape.closeFromServer r ws code cause).mild (by simp [Output.mild])

theorem hostGone (r : Room) (host cause : Nat) : Mild r (r.hostGone host cause) := by
  cases hbase : r.base host with
  | none => rw [hostGone_of_base hbase]; exact refl r
  | some c =>
      refine (Shape.hostGone hbase cause).mild ?_
      cases r.openViewer <;> simp [Shape.goneOutput, Output.mild]

theorem onGone (r : Room) (ws : Nat) : Mild r (r.onGone ws) := by
  rw [Room.onGone]
  split
  · split
    · exact hostGone r ws ws
    · exact refl r
  · split
    · exact refl r
    · split
      · exact send r _ ws rfl
      · exact refl r
  · exact refl r

theorem onViewerMessage (r : Room) (ws : Nat) (msg : Value) : Mild r (r.onViewerMessage ws msg) := by
  rw [Room.onViewerMessage]
  split
  · split
    · split
      · exact send r _ ws rfl
      · exact refl r
    · exact closeFromServer r ws _ ws
  · exact refl r

end Mild

end SimpleRemote.Signaling
