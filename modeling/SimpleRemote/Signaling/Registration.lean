import SimpleRemote.Host.Register
import SimpleRemote.Signaling.Handling
import SimpleRemote.Signaling.Wire

namespace SimpleRemote.Signaling
open ByteCodec Json Interaction

-- the events of the socket `ws` itself
def Event.of (r : Room) (ws : Nat) : Event → Prop
  | .fetch _ _ => False
  | .message ws' _ => ws' = ws
  | .verified i => ∃ p, r.pending[i]? = some p ∧ p.ws = ws
  | .close ws' _ => ws' = ws
  | .error ws' => ws' = ws

abbrev others (ws : Nat) : Room → Event → Prop := fun r e => ¬ e.of r ws

-- a host that has not shown its signature yet
structure Waiting (r : Room) (ws : Nat) (c : Credentials) : Prop where
  base : r.base ws = some c
  isOpen : r.isOpen ws = true
  marked : r.marked ws = false

def pendingOf (ws : Nat) (r : Room) : List Pending := r.pending.filter fun p => p.ws = ws

section
variable {subtle : SubtleVerify} {r r' : Room} {ws : Nat} {c : Credentials}

theorem Waiting.attachment (h : Waiting r ws c) :
    r.attachment ws = some (.host ⟨false, c.nonce, c.key, c.id⟩) := by
  obtain ⟨a, ha⟩ := Room.attachment_of_base h.base
  have hm := (Room.marked_of_attachment ha).symm.trans h.marked
  have hb : some a.base = some c := (Room.base_of_attachment ha).symm.trans h.base
  obtain rfl := Option.some.inj hb
  rw [ha, HostAttachment.base, ← hm]

theorem Waiting.outline {shut unmarked : Nat → Prop} {out : List Output} (h : Waiting r ws c)
    (ho : Outline r r' shut unmarked out) (hshut : ¬ shut ws) : Waiting r' ws c where
  base := (ho.base ws).trans h.base
  isOpen := (ho.isOpen ws).mpr ⟨h.isOpen, hshut⟩
  marked := by
    by_contra hm
    have := ((ho.marked ws).mp (Bool.not_eq_false _ ▸ hm)).1
    simp [h.marked] at this

theorem Waiting.accepted (h : Waiting r ws c) (a : Attachment) (claim : Bool)
    (hs : r'.sockets = (r.accept a claim).sockets) : Waiting r' ws c := by
  have hsame : r'.sockets[ws]? = r.sockets[ws]? := by
    rw [hs, Room.sockets_accept_of_lt r a claim (Room.lt_of_base h.base)]
  refine ⟨?_, ?_, ?_⟩
  · rw [Room.base, hsame]
    exact h.base
  · rw [Room.isOpen, hsame]
    exact h.isOpen
  · rw [Room.marked, hsame]
    exact h.marked

theorem Waiting.ne_viewer (h : Waiting r ws c) {viewer : Nat}
    (hv : r.openViewer = some viewer) : viewer ≠ ws := by
  rintro rfl
  have := (Room.viewing_iff.mp (Room.viewing_of_openViewer hv)).2
  simp [h.base] at this

theorem Waiting.ne_ready (h : Waiting r ws c) {host : Nat} (hr : r.ready host = true) :
    host ≠ ws := by
  rintro rfl
  have := (Room.ready_iff.mp hr).2
  simp [h.marked] at this

theorem Waiting.replaced (h : Waiting r ws c) {ws' : Nat} : Waiting (r.replace ws') ws c := by
  refine h.outline (Shape.replace r ws').toOutline ?_
  rintro ⟨previous, hd, hviewer | rfl⟩
  · exact h.ne_viewer hviewer rfl
  · exact h.ne_ready (Room.ready_of_displaced hd) rfl

theorem Waiting.resumed (h : Waiting r ws c) (i : Nat) (owner : Option Text) (out : List Output) :
    Waiting (r.resumed i owner out) ws c := ⟨h.base, h.isOpen, h.marked⟩

theorem Waiting.mark_other (h : Waiting r ws c) {p : Pending} (hbase : r.base p.ws = some p.att.base)
    (hne : p.ws ≠ ws) : Waiting (r.mark p) ws c where
  base := (Room.base_mark hbase ws).trans h.base
  isOpen := (Room.isOpen_mark ws).trans h.isOpen
  marked := by
    by_contra hm
    rcases (Room.marked_mark hbase ws).mp (Bool.not_eq_false _ ▸ hm) with heq | hm
    · exact hne heq.symm
    · simp [h.marked] at hm

theorem Waiting.answer (h : Waiting r' ws c) {e : Event} {ws' : Nat} (he : e.ends = some ws')
    (hne : ws' ≠ ws) : Waiting (r'.answer e) ws c := by
  cases e with
  | close w code =>
      obtain rfl : w = ws' := Option.some.inj he
      exact h.outline (Shape.close r' w _ w).toOutline hne.symm
  | _ => exact h

theorem Event.of_ends {e : Event} {ws' : Nat} (he : e.ends = some ws') (h : ¬ e.of r ws) :
    ws' ≠ ws := by
  cases e with
  | close w code =>
      obtain rfl : w = ws' := Option.some.inj he
      exact h
  | error w =>
      obtain rfl : w = ws' := Option.some.inj he
      exact h
  | _ => cases he

theorem Waiting.step {e : Event} (h : Waiting r ws c) (hb : Bound subtle r)
    (hd : Did subtle r e r') (hother : ¬ e.of r ws) : Waiting r' ws c := by
  cases hd with
  | refused => exact h
  | host nonce key id claim => exact h.accepted (.host ⟨false, nonce, key, id⟩) claim rfl
  | viewer => exact h.accepted (.viewer ⟨false⟩) false rfl
  | dropped => exact h
  | bad code => exact h.outline (Shape.closeFromServer ..).toOutline fun heq => hother heq.symm
  | down data => exact ⟨h.base, h.isOpen, h.marked⟩
  | kicked _ _ hviewer =>
      exact h.outline (Shape.closeFromServer ..).toOutline (h.ne_viewer hviewer).symm
  | up data => exact ⟨h.base, h.isOpen, h.marked⟩
  | suspended => exact ⟨h.base, h.isOpen, h.marked⟩
  | @failed i p out hp =>
      have hne : p.ws ≠ ws := fun heq => hother ⟨p, hp, heq⟩
      exact (h.resumed i r.owner out).outline (Shape.closeFromServer ..).toOutline hne.symm
  | @registered i p out hp =>
      have hne : p.ws ≠ ws := fun heq => hother ⟨p, hp, heq⟩
      have hbase := (hb.pending p (List.mem_of_getElem? hp)).1
      have hreplaced : Waiting ((r.resumed i (some p.att.key) out).replace p.ws) ws c :=
        (h.resumed i (some p.att.key) out).replaced
      refine hreplaced.mark_other ?_ hne
      exact ((Shape.replace _ p.ws).base p.ws).trans hbase
  | @hostEnded _ ws' he hm =>
      have hne := Event.of_ends he hother
      refine Waiting.answer (h.outline (fades_hostEnded hm).toOutline ?_) he hne
      rintro (heq | hviewer)
      · exact hne heq.symm
      · exact h.ne_viewer hviewer rfl
  | @viewerEnded _ ws' host he =>
      have hne := Event.of_ends he hother
      exact Waiting.answer (h.outline (fades_viewerEnded r ws' host).toOutline hne.symm) he hne
  | @ended _ ws' he =>
      have hne := Event.of_ends he hother
      exact Waiting.answer (h.outline (Shape.finish r ws').toOutline hne.symm) he hne

theorem filter_eraseIdx {α : Type} {q : α → Bool} {l : List α} {i : Nat} {a : α}
    (ha : l[i]? = some a) (hq : q a = false) : (l.eraseIdx i).filter q = l.filter q := by
  induction l generalizing i with
  | nil => cases ha
  | cons b l ih =>
      cases i with
      | zero =>
          obtain rfl := Option.some.inj ha
          rw [List.eraseIdx_cons_zero, List.filter_cons_of_neg (by simp [hq])]
      | succ i =>
          have hrest : l[i]? = some a := by simpa using ha
          rw [List.eraseIdx_cons_succ, List.filter_cons, List.filter_cons, ih hrest]

theorem pendingOf_step {e : Event} (hd : r.delivers e = true) (h : Did subtle r e r')
    (hother : ¬ e.of r ws) : pendingOf ws r' = pendingOf ws r := by
  have hresumes := h.resumes
  cases e with
  | fetch request random => rw [pendingOf, hresumes, pendingOf]
  | message ws' frame =>
      rcases hresumes with hsame | ⟨p, hp, hnew⟩
      · rw [pendingOf, hsame, pendingOf]
      · have hne : p.ws ≠ ws := hp ▸ hother
        rw [pendingOf, hnew, List.filter_append, List.filter_cons_of_neg (by simpa using hne)]
        exact List.append_nil _
  | verified i =>
      have hlt : i < r.pending.length := by simpa [Room.delivers] using hd
      have hp : r.pending[i]? = some r.pending[i] := List.getElem?_eq_getElem hlt
      have hne : r.pending[i].ws ≠ ws := fun heq => hother ⟨_, hp, heq⟩
      rw [pendingOf, hresumes, filter_eraseIdx hp (by simpa using hne), pendingOf]
  | close ws' code => rw [pendingOf, hresumes, pendingOf]
  | error ws' => rw [pendingOf, hresumes, pendingOf]

theorem waiting_steps (h : Room.Steps subtle (others ws) r r') (hb : Bound subtle r)
    (hw : Waiting r ws c) : Bound subtle r' ∧ Waiting r' ws c ∧ pendingOf ws r' = pendingOf ws r := by
  induction h with
  | refl => exact ⟨hb, hw, rfl⟩
  | tail _ hstep ih =>
      obtain ⟨e, hd, hother, rfl⟩ := hstep
      obtain ⟨hb', hw', hp⟩ := ih
      have hdid : Did subtle _ e _ := handle_did hd
      exact ⟨hb'.handle e, hw'.step hb' hdid hother, (pendingOf_step hd hdid hother).trans hp⟩

theorem waiting_challenged (r : Room) (nonce key id : Text) (claim : Bool) :
    Waiting (r.challenged nonce key id claim) r.sockets.length ⟨nonce, key, id⟩ := by
  have hs : (r.challenged nonce key id claim).sockets[r.sockets.length]? =
      some ⟨.host ⟨false, nonce, key, id⟩, true, false⟩ :=
    r.sockets_accept_self (.host ⟨false, nonce, key, id⟩) claim
  refine ⟨?_, ?_, ?_⟩
  · rw [Room.base, hs]
    rfl
  · rw [Room.isOpen, hs]
    rfl
  · rw [Room.marked, hs]
    rfl

theorem challenged_of_fetch {request : Request} {random : ByteArr 32}
    (hpath : request.pathname = "/host".toList)
    (h : (r.fetch request random).1 = .webSocket ws) : ws = r.sockets.length ∧
      ∃ claim, (r.fetch request random).2 =
        r.challenged (toHex random.val) (request.key.getD []) (request.id.getD []) claim := by
  rw [Room.fetch] at h ⊢
  split at h
  · cases h
  · rename_i hupgrade
    rw [Room.acceptHost] at h
    rw [if_neg hupgrade, if_pos hpath, Room.acceptHost]
    split at h
    · cases h
    · rename_i hknown
      split at h
      · split at h <;> cases h
      · rename_i hfree
        rw [if_neg hknown, if_neg hfree]
        dsimp only
        rw [Room.send_accept]
        exact ⟨(Response.webSocket.inj h).symm, _, rfl⟩

theorem auth_size (sig : Text) (h : sig.length ≤ 128) :
    (Frame.text (HostToServer.auth sig).json).size ≤ MAX_MESSAGE_BYTES := by
  have hbytes := utf8_length_le (HostToServer.auth sig).json
  have hquote := quote_length_le (utf16 sig)
  have hunits := utf16_length_le sig
  have hlength : (HostToServer.auth sig).json.length = 19 + (quote (utf16 sig)).length := by
    have ht : (quote (utf16 "t".toList)).length = 3 := by decide
    have hauth : (quote (utf16 "auth".toList)).length = 6 := by decide
    have hsig : (quote (utf16 "sig".toList)).length = 5 := by decide
    simp only [HostToServer.json, typed, stringify, stringifyFields, stringifyField,
      List.length_cons, List.length_append, List.length_nil, ht, hauth, hsig]
    omega
  simp only [Frame.size, MAX_MESSAGE_BYTES]
  omega

theorem verifies {C : Crypto} {keys : DeviceKeys}
    (hideal : ∀ m, subtle (keys.devicePublic C) (keys.signRaw C m) m = some true) (m : Bytes) :
    verifyEd25519 subtle (hexEncode (keys.devicePublic C).val)
      (utf16 (hexEncode (keys.signRaw C m).val)) m = true := by
  have hkey : (fromHex (hexEncode (keys.devicePublic C).val)).bind (toArr 32) =
      some (keys.devicePublic C) := by
    rw [fromHex, hexDecode_hexEncode, Option.bind_some, toArr_val]
  have hsig : ((toText (utf16 (hexEncode (keys.signRaw C m).val))).bind fromHex).bind (toArr 64) =
      some (keys.signRaw C m) := by
    rw [toText_utf16, Option.bind_some, fromHex, hexDecode_hexEncode, Option.bind_some, toArr_val]
  rw [verifyEd25519, hkey, hsig]
  simp [hideal]

-- the authentication that the room suspends when the host of `keys` answers the challenge
def pendingFor (C : Crypto) (keys : DeviceKeys) (ws : Nat) (nonce : ByteArr 32) (id : Text) : Pending where
  ws := ws
  att := ⟨false, toHex nonce.val, hexEncode (keys.devicePublic C).val, id⟩
  sig := utf16 (hexEncode (keys.signRaw C (Register.signed nonce.val id)).val)
  signed := Register.signed nonce.val id

section
variable {C : Crypto} {keys : DeviceKeys} {nonce : ByteArr 32} {id : Text}

theorem auth_suspends (hw : Waiting r ws ⟨toHex nonce.val, hexEncode (keys.devicePublic C).val, id⟩) :
    r.webSocketMessage ws (.text (Register.authFor C keys nonce.val id).json) =
      { r with pending := r.pending ++ [pendingFor C keys ws nonce id] } := by
  have hsize : ¬ MAX_MESSAGE_BYTES <
      (Frame.text (Register.authFor C keys nonce.val id).json).size := by
    have hlength : (hexEncode (keys.signRaw C (Register.signed nonce.val id)).val).length ≤ 128 := by
      rw [hexEncode_length, (keys.signRaw C (Register.signed nonce.val id)).property]
    exact not_lt.mpr (auth_size _ hlength)
  obtain ⟨msg, hparse, hmsg⟩ := hostFrame_parse (Register.authFor C keys nonce.val id)
  have hsig : authSig msg = some (pendingFor C keys ws nonce id).sig := hmsg
  rw [Room.webSocketMessage, if_neg hsize, hparse]
  dsimp only
  rw [hw.attachment]
  dsimp only
  rw [Room.onHostMessage, if_neg (by simp), hsig]
  dsimp only
  rw [Room.authenticate]
  dsimp only
  rw [fromHex_toHex]
  rfl

theorem register_registers {p : Pending} (hp : p.ws = ws) (hc : p.att.base = c)
    (hw : Waiting r ws c) : (r.register p).ready ws = true ∧ (r.register p).owner = r.owner ∧
      .sent ws (.registered p.att.id) ws ∈ (r.register p).log := by
  subst hp hc
  have hreplaced : Waiting (r.replace p.ws) p.ws p.att.base := hw.replaced
  have hopen : ((r.replace p.ws).setAttachment p.ws
      (.host { p.att with authed := true })).isOpen p.ws = true := by
    rw [Room.isOpen_setAttachment]
    exact hreplaced.isOpen
  refine ⟨(Room.ready_mark hreplaced.base p.ws).mpr (.inl ⟨rfl, hreplaced.isOpen⟩), ?_, ?_⟩
  · rw [Room.register, Room.owner_mark, (Shape.replace r p.ws).owner]
  · rw [Room.register, Room.mark, Room.send_eq hopen]
    exact List.mem_append_right _ (by simp)

theorem resume_registers
    (hideal : ∀ m, subtle (keys.devicePublic C) (keys.signRaw C m) m = some true)
    (hw : Waiting r ws ⟨toHex nonce.val, hexEncode (keys.devicePublic C).val, id⟩)
    (howner : r.owner.all (· = hexEncode (keys.devicePublic C).val) = true) :
    (r.resume subtle (pendingFor C keys ws nonce id)).ready ws = true ∧
      (r.resume subtle (pendingFor C keys ws nonce id)).owner =
        some (hexEncode (keys.devicePublic C).val) ∧
      .sent ws (.registered id) ws ∈ (r.resume subtle (pendingFor C keys ws nonce id)).log := by
  have hverifies : verifyEd25519 subtle (pendingFor C keys ws nonce id).att.key
      (pendingFor C keys ws nonce id).sig (pendingFor C keys ws nonce id).signed = true :=
    verifies hideal _
  rw [Room.resume, if_pos hverifies, Room.bind]
  split
  · rename_i owner hsome
    change r.owner = some owner at hsome
    have heq : owner = hexEncode (keys.devicePublic C).val := by
      rw [hsome] at howner
      simpa using howner
    have hkey : ¬ owner ≠ (pendingFor C keys ws nonce id).att.key := not_not.mpr heq
    rw [if_neg hkey]
    have hemitted : Waiting (r.emit (.verified ws (pendingFor C keys ws nonce id).sig)) ws _ :=
      ⟨hw.base, hw.isOpen, hw.marked⟩
    obtain ⟨hready, howned, hsent⟩ :=
      register_registers (p := pendingFor C keys ws nonce id) rfl rfl hemitted
    exact ⟨hready, howned.trans (hsome.trans (congrArg some heq)), hsent⟩
  · have hput : Waiting ((r.emit (.verified ws (pendingFor C keys ws nonce id).sig)).putOwner ws
        (pendingFor C keys ws nonce id).att.key) ws _ := ⟨hw.base, hw.isOpen, hw.marked⟩
    exact register_registers (p := pendingFor C keys ws nonce id) rfl rfl hput

theorem exists_pending (h : pendingFor C keys ws nonce id ∈ pendingOf ws r) :
    ∃ i : Nat, r.pending[i]? = some (pendingFor C keys ws nonce id) :=
  List.mem_iff_getElem?.mp (List.mem_filter.mp h).1

-- the host's side of a registration, the frames of the server read by serde_json
def hostScript (serde : SerdeJson) (C : Crypto) (keys : DeviceKeys) (server : Text)
    (requested : Option Text) (nonce : ByteArr 32) (id : Text) : List (Ev RegisterSig) :=
  [⟨.connect (Register.urlFor C server keys requested), .ok ()⟩,
    ⟨.recv Register.STEP, .ok (serde.readHost (ServerFrame.challenge (toHex nonce.val) id).json)⟩,
    ⟨.send (Register.authFor C keys nonce.val id), .ok ()⟩,
    ⟨.recv Register.STEP, .ok (serde.readHost (ServerFrame.registered id).json)⟩]

theorem hostScript_registers (serde : SerdeJson) (server : Text) {requested : Option Text}
    (hnine : Register.isHostId id = true) (hrequested : ∀ i ∈ requested, i = id) :
    Exec (registerHost C server keys requested)
      (hostScript serde C keys server requested nonce id) (.ok id) := by
  have hvalid : requested.any (fun i => Register.isHostId i = false) = false := by
    cases requested with
    | none => rfl
    | some i => simp [hrequested i rfl, hnine]
  have hsame : requested.any (· ≠ id) = false := by
    cases requested with
    | none => rfl
    | some i => simp [hrequested i rfl]
  have hdecode : (hexDecode (toHex nonce.val)).filter (fun n => n.length = 32) = some nonce.val := by
    rw [toHex, hexDecode_hexEncode]
    simp [nonce.property]
  rw [registerHost, hvalid, hostScript, serde.reads, serde.reads]
  refine exec_call_bind.mpr ⟨.ok (), _, rfl, ?_⟩
  refine exec_call_bind.mpr ⟨.ok (some (.challenge (toHex nonce.val) id)), _, rfl, ?_⟩
  dsimp only
  rw [Register.answerChallenge, hdecode]
  dsimp only
  rw [if_neg (by simp [hnine]), hsame, if_neg Bool.false_ne_true]
  refine exec_call_bind.mpr ⟨.ok (), _, rfl, ?_⟩
  refine exec_call_bind.mpr ⟨.ok (some (.registered id)), _, rfl, ?_⟩
  dsimp only
  rw [if_pos rfl]
  exact .nil _

theorem honest_registered {request : Request} {r₂ r₄ : Room}
    (hideal : ∀ m, subtle (keys.devicePublic C) (keys.signRaw C m) m = some true)
    (hreach : Room.Steps subtle Room.anyEvent .new r) (hpath : request.pathname = "/host".toList)
    (hid : request.id = some id) (hkey : request.key = some (hexEncode (keys.devicePublic C).val))
    (haccepted : (r.fetch request nonce).1 = .webSocket ws)
    (hbefore : Room.Steps subtle (others ws) (r.handle subtle (.fetch request nonce)) r₂)
    (hafter : Room.Steps subtle (others ws) (r₂.handle subtle
      (.message ws (.text (Register.authFor C keys nonce.val id).json))) r₄)
    (howner : r₄.owner.all (· = hexEncode (keys.devicePublic C).val) = true) :
    .sent ws (.challenge (toHex nonce.val) id) ws ∈ (r.handle subtle (.fetch request nonce)).log ∧
      ∃ (i : Nat) (p : Pending), r₄.pending[i]? = some p ∧ p.ws = ws ∧
        (fromHex p.att.nonce).map (signedMessage · p.att.id) =
          some (Register.signed nonce.val id) ∧
        p.signed = Register.signed nonce.val id ∧
        (r₄.handle subtle (.verified i)).ready ws = true ∧
        (r₄.handle subtle (.verified i)).owner = some (hexEncode (keys.devicePublic C).val) ∧
        .sent ws (.registered id) ws ∈ (r₄.handle subtle (.verified i)).log := by
  obtain ⟨rfl, claim, hfetch⟩ := challenged_of_fetch hpath haccepted
  rw [hid, hkey, Option.getD_some, Option.getD_some] at hfetch
  have hb : Bound subtle r := bound_new.steps hreach
  have hhandle : r.handle subtle (.fetch request nonce) =
      r.challenged (toHex nonce.val) (hexEncode (keys.devicePublic C).val) id claim := hfetch
  have hb₁ : Bound subtle (r.handle subtle (.fetch request nonce)) := hb.handle _
  rw [hhandle] at hbefore hb₁ ⊢
  obtain ⟨hb₂, hw₂, -⟩ := waiting_steps hbefore hb₁ (waiting_challenged r _ _ id claim)
  have hb₃ := hb₂.handle (.message r.sockets.length
    (.text (Register.authFor C keys nonce.val id).json))
  have hmessage : r₂.handle subtle (.message r.sockets.length
        (.text (Register.authFor C keys nonce.val id).json)) =
      { r₂ with pending := r₂.pending ++ [pendingFor C keys r.sockets.length nonce id] } :=
    auth_suspends hw₂
  rw [hmessage] at hafter hb₃
  have hw₃ : Waiting { r₂ with pending := r₂.pending ++ [pendingFor C keys r.sockets.length nonce id] }
      r.sockets.length _ := ⟨hw₂.base, hw₂.isOpen, hw₂.marked⟩
  obtain ⟨-, hw₄, hp₄⟩ := waiting_steps hafter hb₃ hw₃
  have hmem : pendingFor C keys r.sockets.length nonce id ∈ pendingOf r.sockets.length r₄ := by
    rw [hp₄, pendingOf]
    simp [pendingFor]
  obtain ⟨i, hi⟩ := exists_pending hmem
  have hresumed : r₄.handle subtle (.verified i) = { r₄ with pending := r₄.pending.eraseIdx i }.resume
      subtle (pendingFor C keys r.sockets.length nonce id) := by
    rw [Room.handle, hi]
  have hw : Waiting { r₄ with pending := r₄.pending.eraseIdx i } r.sockets.length _ :=
    ⟨hw₄.base, hw₄.isOpen, hw₄.marked⟩
  obtain ⟨hready, howned, hsent⟩ := resume_registers hideal hw howner
  rw [← hresumed] at hready howned hsent
  refine ⟨?_, i, _, hi, rfl, ?_, rfl, hready, howned, hsent⟩
  · rw [Room.challenged_log]
    simp
  · rw [pendingFor, fromHex_toHex]
    rfl

end

theorem signs_once {C : Crypto} {keys : DeviceKeys} {server : Text} {requested : Option Text}
    {tr : List (Ev RegisterSig)} {q : RegisterM RegisterResult}
    (h : Path (registerHost C server keys requested) tr q) :
    (Register.sends tr = [] ∨ ∃ (c : Register.Challenged C requested) (sent : Except LinkError Unit)
      (rest : List (Ev RegisterSig)), tr = c.trace server keys ++
        ⟨.send (Register.authFor C keys c.nonce c.challengeId), sent⟩ :: rest ∧
      Register.sends rest = []) ∧
    ∀ i, q = .ret (.ok i) → ∃ c : Register.Challenged C requested, i = c.challengeId ∧
      tr = c.trace server keys ++ [⟨.send (Register.authFor C keys c.nonce c.challengeId), .ok ()⟩,
        ⟨.recv Register.STEP, .ok (some (.registered i))⟩] := by
  constructor
  · by_cases hnone : Register.sends tr = []
    · exact .inl hnone
    · have hreached : Register.Reached tr q := by
        refine .inl ?_
        by_contra hnever
        refine hnone (List.filterMap_eq_nil_iff.mpr fun e he => ?_)
        obtain ⟨o, r⟩ := e
        cases o with
        | send msg => exact absurd ⟨_, he, trivial⟩ hnever
        | _ => rfl
      obtain ⟨c, ⟨hr⟩⟩ := Register.registerHost_reached h hreached
      exact .inr ⟨c, hr.sent, hr.rest, hr.trace, hr.quiet⟩
  · rintro i rfl
    obtain ⟨c, ⟨hr⟩⟩ := Register.registerHost_reached h (.inr ⟨_, rfl, trivial⟩)
    obtain ⟨hi, hsent, hrest⟩ := hr.result i rfl
    exact ⟨c, hi, by rw [hr.trace, hsent, hrest]⟩

theorem registration_agrees (C : Crypto) (keys : DeviceKeys) (serde : SerdeJson)
    (hideal : ∀ m, subtle (keys.devicePublic C) (keys.signRaw C m) m = some true) :
    (∀ server requested tr q, Path (registerHost C server keys requested) tr q →
      (Register.sends tr = [] ∨ ∃ (c : Register.Challenged C requested)
        (sent : Except LinkError Unit) (rest : List (Ev RegisterSig)),
        tr = c.trace server keys ++
          ⟨.send (Register.authFor C keys c.nonce c.challengeId), sent⟩ :: rest ∧
        Register.sends rest = []) ∧
      ∀ i, q = .ret (.ok i) → ∃ c : Register.Challenged C requested, i = c.challengeId ∧
        tr = c.trace server keys ++ [⟨.send (Register.authFor C keys c.nonce c.challengeId), .ok ()⟩,
          ⟨.recv Register.STEP, .ok (some (.registered i))⟩]) ∧
    (∀ (n n' : ByteArr 32) i i', Register.signed n.val i = Register.signed n'.val i' →
      n = n' ∧ i = i') ∧
    (∀ b, fromHex (toHex b) = some b) ∧
    (∀ h b, fromHex h = some b → toHex b = h.map Char.toLower) ∧
    ∀ r request nonce id ws r₂ r₄, Room.Steps subtle Room.anyEvent .new r →
      request.pathname = "/host".toList → request.id = some id → Register.isHostId id = true →
      request.key = some (hexEncode (keys.devicePublic C).val) →
      (r.fetch request nonce).1 = .webSocket ws →
      Room.Steps subtle (others ws) (r.handle subtle (.fetch request nonce)) r₂ →
      Room.Steps subtle (others ws) (r₂.handle subtle
        (.message ws (.text (Register.authFor C keys nonce.val id).json))) r₄ →
      r₄.owner.all (· = hexEncode (keys.devicePublic C).val) = true →
      .sent ws (.challenge (toHex nonce.val) id) ws ∈
        (r.handle subtle (.fetch request nonce)).log ∧
      (∃ (i : Nat) (p : Pending), r₄.pending[i]? = some p ∧ p.ws = ws ∧
        (fromHex p.att.nonce).map (signedMessage · p.att.id) =
          some (Register.signed nonce.val id) ∧
        p.signed = Register.signed nonce.val id ∧
        (r₄.handle subtle (.verified i)).ready ws = true ∧
        (r₄.handle subtle (.verified i)).owner = some (hexEncode (keys.devicePublic C).val) ∧
        .sent ws (.registered id) ws ∈ (r₄.handle subtle (.verified i)).log) ∧
      ∀ server requested, (∀ i ∈ requested, i = id) →
        Exec (registerHost C server keys requested)
          (hostScript serde C keys server requested nonce id) (.ok id) := by
  refine ⟨fun server requested tr q => signs_once, fun n n' i i' => signedMessage_injective,
    fromHex_toHex, fun h b => hexEncode_hexDecode, ?_⟩
  intro r request nonce id ws r₂ r₄ hreach hpath hid hnine hkey haccepted hbefore hafter howner
  obtain ⟨hsent, hregistered⟩ :=
    honest_registered hideal hreach hpath hid hkey haccepted hbefore hafter howner
  exact ⟨hsent, hregistered, fun server requested => hostScript_registers serde server hnine⟩

end

def verifySample : SubtleVerify := fun pub sig m => some (Crypto.sample.verifyStrict pub m sig)

def sampleHost : DeviceKeys := .sample 7 'h' host_name

def sampleId : Text := "123456789".toList

def sampleClaim : Request :=
  upgradeTo "/host" (some (hexEncode (sampleHost.devicePublic Crypto.sample).val)) true

theorem sample_registration_agrees : ∃ i : Nat,
    ((((Room.new.handle verifySample (.fetch sampleClaim (filled 32 5))).handle verifySample
      (.message 0 (.text (Register.authFor Crypto.sample sampleHost (filled 32 5).val
        sampleId).json))).handle verifySample (.verified i)).ready 0) = true := by
  have hideal (m : Bytes) : verifySample (sampleHost.devicePublic Crypto.sample)
      (sampleHost.signRaw Crypto.sample m) m = some true := by
    simp [verifySample, Crypto.sample, DeviceKeys.signRaw, DeviceKeys.devicePublic]
  have hagrees := registration_agrees Crypto.sample sampleHost .sample hideal
  obtain ⟨-, ⟨i, p, -, -, -, -, hready, -⟩, -⟩ := hagrees.2.2.2.2 .new sampleClaim (filled 32 5)
    sampleId 0 _ _ .refl rfl rfl (by decide) rfl rfl .refl .refl (by decide +kernel)
  exact ⟨i, hready⟩

end SimpleRemote.Signaling
