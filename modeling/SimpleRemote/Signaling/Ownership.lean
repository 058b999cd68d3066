import SimpleRemote.Signaling.Sockets

namespace SimpleRemote.Signaling
open ByteCodec Json

def Output.put? : Output → Option Text
  | .ownerPut _ key => some key
  | _ => none

theorem Output.put?_of_mild {o : Output} (h : o.mild = true) : o.put? = none := by
  cases o <;> first | rfl | cases h

namespace Room

def puts (r : Room) : List Text := r.log.filterMap Output.put?

def wasRegistered (r : Room) (ws : Nat) : Prop := ∃ id cause, .sent ws (.registered id) cause ∈ r.log

end Room

section
variable (subtle : SubtleVerify)

-- the socket `ws`, accepted with `c`, has shown a signature over its own nonce and id
def Shown (r : Room) (ws : Nat) (c : Credentials) (sig : Utf16) : Prop :=
  .verified ws sig ∈ r.log ∧ ∃ nonce, fromHex c.nonce = some nonce ∧
    verifyEd25519 subtle c.key sig (signedMessage nonce c.id) = true

structure Owned (r : Room) : Prop where
  once : r.puts = r.owner.toList
  claimed : ∀ ws key, .ownerPut ws key ∈ r.log → .accepted ws true ∈ r.log
  proven : ∀ ws, r.wasRegistered ws ∨ r.marked ws = true → ∃ c sig, r.base ws = some c ∧
    .sent ws (.challenge c.nonce c.id) ws ∈ r.log ∧ r.owner = some c.key ∧ Shown subtle r ws c sig
  single : ∀ h h', r.ready h = true → r.ready h' = true → h = h'

def Hosted (r : Room) (ws : Nat) (c : Credentials) : Prop :=
  (∃ n : ByteArr 32, c.nonce = toHex n.val) ∧ .sent ws (.challenge c.nonce c.id) ws ∈ r.log ∧
    (.accepted ws true ∈ r.log ∨ r.owner = some c.key)

def Suspended (r : Room) (p : Pending) : Prop :=
  r.base p.ws = some p.att.base ∧
    ∃ nonce, fromHex p.att.nonce = some nonce ∧ p.signed = signedMessage nonce p.att.id

def Proven (r : Room) (ws : Nat) : Prop :=
  ∃ c sig, r.base ws = some c ∧ r.owner = some c.key ∧ .verified ws sig ∈ r.log

-- what carries `Owned` over the await
structure Bound (r : Room) : Prop where
  once : r.puts = r.owner.toList
  claimed : ∀ ws key, .ownerPut ws key ∈ r.log → .accepted ws true ∈ r.log
  hosts : ∀ ws c, r.base ws = some c → Hosted r ws c
  pending : ∀ p ∈ r.pending, Suspended r p
  checked : ∀ ws sig, .verified ws sig ∈ r.log →
    ∃ c, r.base ws = some c ∧ Shown subtle r ws c sig
  proven : ∀ ws, r.wasRegistered ws ∨ r.marked ws = true → Proven r ws
  single : ∀ h h', r.ready h = true → r.ready h' = true → h = h'

end

variable {subtle : SubtleVerify} {r r' : Room}

theorem Bound.owned (h : Bound subtle r) : Owned subtle r where
  once := h.once
  claimed := h.claimed
  proven := by
    intro ws hws
    obtain ⟨c, sig, hbase, howner, hsig⟩ := h.proven ws hws
    obtain ⟨c', hbase', hshown⟩ := h.checked ws sig hsig
    obtain rfl : c = c' := Option.some.inj (hbase.symm.trans hbase')
    exact ⟨c, sig, hbase, (h.hosts ws c hbase).2.1, howner, hshown⟩
  single := h.single

theorem bound_new : Bound subtle .new where
  once := rfl
  claimed _ _ h := by cases h
  hosts _ _ h := by cases h
  pending _ h := by cases h
  checked _ _ h := by cases h
  proven := by
    rintro ws (⟨id, cause, h⟩ | h)
    · cases h
    · cases h
  single _ _ h := by cases h

structure Grows (r r' : Room) (out : List Output) : Prop where
  log : r'.log = r.log ++ out
  owner : ∀ key, r.owner = some key → r'.owner = some key
  base : ∀ ws c, r.base ws = some c → r'.base ws = some c

section
variable {out : List Output}

theorem Grows.mem (h : Grows r r' out) {o : Output} (ho : o ∈ r.log) : o ∈ r'.log := by
  rw [h.log]
  exact List.mem_append_left _ ho

theorem Grows.mem_new (h : Grows r r' out) {o : Output} (ho : o ∈ out) : o ∈ r'.log := by
  rw [h.log]
  exact List.mem_append_right _ ho

theorem Grows.mem_out (h : Grows r r' out) {o : Output} (ho : o ∈ r'.log) : o ∈ r.log ∨ o ∈ out := by
  rw [h.log] at ho
  exact List.mem_append.mp ho

theorem Grows.puts (h : Grows r r' out) : r'.puts = r.puts ++ out.filterMap Output.put? := by
  rw [Room.puts, h.log, List.filterMap_append, Room.puts]

-- only what is new has to be shown again
theorem Bound.grow (hb : Bound subtle r) (h : Grows r r' out) (honce : r'.puts = r'.owner.toList)
    (hclaimed : ∀ ws key, .ownerPut ws key ∈ out → .accepted ws true ∈ r'.log)
    (hhosts : ∀ ws c, r'.base ws = some c → r.base ws = some c ∨ Hosted r' ws c)
    (hpending : ∀ p ∈ r'.pending, p ∈ r.pending ∨ Suspended r' p)
    (hchecked : ∀ ws sig, .verified ws sig ∈ out → ∃ c, r'.base ws = some c ∧ Shown subtle r' ws c sig)
    (hregistered : ∀ ws id cause, .sent ws (.registered id) cause ∈ out → Proven r' ws)
    (hmarked : ∀ ws, r'.marked ws = true → r.marked ws = true ∨ Proven r' ws)
    (hsingle : ∀ h h', r'.ready h = true → r'.ready h' = true → h = h') : Bound subtle r' where
  once := honce
  claimed := by
    intro ws key hp
    rcases h.mem_out hp with hp | hp
    · exact h.mem (hb.claimed ws key hp)
    · exact hclaimed ws key hp
  hosts := by
    intro ws c hc
    rcases hhosts ws c hc with hc | hc
    · obtain ⟨hnonce, hchallenge, hclaim⟩ := hb.hosts ws c hc
      exact ⟨hnonce, h.mem hchallenge, hclaim.imp h.mem (h.owner c.key)⟩
    · exact hc
  pending := by
    intro p hp
    rcases hpending p hp with hp | hp
    · obtain ⟨hbase, hsigned⟩ := hb.pending p hp
      exact ⟨h.base _ _ hbase, hsigned⟩
    · exact hp
  checked := by
    intro ws sig hv
    rcases h.mem_out hv with hv | hv
    · obtain ⟨c, hc, -, hshown⟩ := hb.checked ws sig hv
      exact ⟨c, h.base _ _ hc, h.mem hv, hshown⟩
    · exact hchecked ws sig hv
  proven := by
    have hold (ws : Nat) (hp : Proven r ws) : Proven r' ws := by
      obtain ⟨c, sig, hc, ho, hv⟩ := hp
      exact ⟨c, sig, h.base _ _ hc, h.owner _ ho, h.mem hv⟩
    rintro ws (⟨id, cause, hreg⟩ | hm)
    · rcases h.mem_out hreg with hreg | hreg
      · exact hold ws (hb.proven ws (.inl ⟨id, cause, hreg⟩))
      · exact hregistered ws id cause hreg
    · rcases hmarked ws hm with hm | hp
      · exact hold ws (hb.proven ws (.inr hm))
      · exact hp
  single := hsingle

end

theorem Mild.grows (h : Mild r r') : ∃ out, Grows r r' out ∧ ∀ o ∈ out, o.mild = true := by
  obtain ⟨out, hlog, hout⟩ := h.log
  refine ⟨out, ⟨hlog, fun key hk => ?_, fun ws c hc => ?_⟩, hout⟩
  · rw [h.owner, hk]
  · rw [h.base, hc]

theorem Bound.mild (hb : Bound subtle r) (h : Mild r r') : Bound subtle r' := by
  obtain ⟨out, hg, hout⟩ := h.grows
  have hnot {o : Output} (ho : o ∈ out) (hm : o.mild = false) : False := by
    have := hout o ho
    simp_all
  refine hb.grow hg ?_ ?_ ?_ ?_ ?_ ?_ ?_ ?_
  · have hnone : out.filterMap Output.put? = [] :=
      List.filterMap_eq_nil_iff.mpr fun o ho => Output.put?_of_mild (hout o ho)
    rw [hg.puts, hnone, List.append_nil, h.owner]
    exact hb.once
  · intro ws key hp
    exact (hnot hp rfl).elim
  · intro ws c hc
    exact .inl ((h.base ws).symm.trans hc)
  · intro p hp
    exact .inl (h.pending p hp)
  · intro ws sig hv
    exact (hnot hv rfl).elim
  · intro ws id cause hreg
    exact (hnot hreg rfl).elim
  · intro ws hm
    exact .inl (h.marked ws hm)
  · intro h₁ h₂ hr₁ hr₂
    exact hb.single h₁ h₂ (h.ready hr₁) (h.ready hr₂)

theorem Bound.verified (hb : Bound subtle r) {p : Pending} (hp : Suspended r p)
    (hv : verifyEd25519 subtle p.att.key p.sig p.signed = true) :
    Bound subtle (r.emit (.verified p.ws p.sig)) := by
  obtain ⟨hbase, nonce, hnonce, hsigned⟩ := hp
  have hg : Grows r (r.emit (.verified p.ws p.sig)) [.verified p.ws p.sig] :=
    ⟨rfl, fun _ h => h, fun _ _ h => h⟩
  refine hb.grow hg ?_ (by simp) (fun _ _ h => .inl h) (fun _ h => .inl h) ?_ (by simp)
    (fun _ h => .inl h) hb.single
  · rw [hg.puts]
    exact (List.append_nil _).trans hb.once
  · intro ws sig hs
    obtain ⟨rfl, rfl⟩ : ws = p.ws ∧ sig = p.sig := by simpa using hs
    rw [hsigned] at hv
    exact ⟨p.att.base, hbase, by simp [Room.emit], nonce, hnonce, hv⟩

theorem Bound.put (hb : Bound subtle r) {ws : Nat} {c : Credentials}
    (hbase : r.base ws = some c) (hnone : r.owner = none) :
    Bound subtle (r.putOwner ws c.key) := by
  have hg : Grows r (r.putOwner ws c.key) [.ownerPut ws c.key] :=
    ⟨rfl, fun _ h => by simp [hnone] at h, fun _ _ h => h⟩
  refine hb.grow hg ?_ ?_ (fun _ _ h => .inl h) (fun _ h => .inl h) (by simp) (by simp)
    (fun _ h => .inl h) hb.single
  · rw [hg.puts, hb.once, hnone]
    rfl
  · intro ws' key hp
    obtain ⟨rfl, -⟩ : ws' = ws ∧ key = c.key := by simpa using hp
    have hclaim := (hb.hosts ws' c hbase).2.2
    exact hg.mem (hclaim.resolve_right (by simp [hnone]))

theorem Bound.suspend (hb : Bound subtle r) {p : Pending} (hp : Suspended r p) :
    Bound subtle { r with pending := r.pending ++ [p] } := by
  have hg : Grows r { r with pending := r.pending ++ [p] } [] :=
    ⟨(List.append_nil _).symm, fun _ h => h, fun _ _ h => h⟩
  refine hb.grow hg hb.once (by simp) (fun _ _ h => .inl h) ?_ (by simp) (by simp)
    (fun _ h => .inl h) hb.single
  intro q hq
  rcases List.mem_append.mp hq with hq | hq
  · exact .inl hq
  · rw [List.mem_singleton.mp hq]
    exact .inr hp

theorem Bound.mark (hb : Bound subtle r) {p : Pending} (hbase : r.base p.ws = some p.att.base)
    (howner : r.owner = some p.att.key) (hv : .verified p.ws p.sig ∈ r.log)
    (halone : ∀ h, r.ready h = true → h = p.ws) : Bound subtle (r.mark p) := by
  let att : HostAttachment := { p.att with authed := true }
  obtain ⟨hss, hown, hpending⟩ := r.mark_eq p
  obtain ⟨out, hlog, hout⟩ := r.mark_log p
  have hb' (ws : Nat) : (r.mark p).base ws = r.base ws := by
    rw [Room.base, hss]
    exact Room.base_setAttachment (a := att) hbase ws
  have hg : Grows r (r.mark p) out :=
    ⟨hlog, fun key h => hown.trans h, fun ws c h => (hb' ws).trans h⟩
  have hproven : Proven (r.mark p) p.ws :=
    ⟨p.att.base, p.sig, (hb' _).trans hbase, hown.trans howner, hg.mem hv⟩
  have hnot {o : Output} (ho : o ∈ out) (hne : o ≠ .sent p.ws (.registered p.att.id) p.ws) :
      False := hne (hout o ho)
  have hmarked (ws : Nat) (hm : (r.mark p).marked ws = true) : ws = p.ws ∨ r.marked ws = true := by
    rw [Room.marked, hss] at hm
    exact Room.marked_setAttachment hm
  have hready (ws : Nat) (h : (r.mark p).ready ws = true) : ws = p.ws := by
    obtain ⟨ho, hm⟩ := Room.ready_iff.mp h
    rcases hmarked ws hm with hws | hm
    · exact hws
    · rw [Room.isOpen, hss] at ho
      have ho' : r.isOpen ws = true := (Room.isOpen_setAttachment ..).symm.trans ho
      exact halone ws (Room.ready_iff.mpr ⟨ho', hm⟩)
  refine hb.grow hg ?_ ?_ ?_ ?_ ?_ ?_ ?_ ?_
  · have hnone : out.filterMap Output.put? = [] := by
      refine List.filterMap_eq_nil_iff.mpr fun o ho => ?_
      rw [hout o ho]
      rfl
    rw [hg.puts, hnone, List.append_nil, hown]
    exact hb.once
  · intro ws key hp
    exact (hnot hp (by simp)).elim
  · intro ws c hc
    exact .inl ((hb' ws).symm.trans hc)
  · intro q hq
    exact .inl (hpending ▸ hq)
  · intro ws sig hs
    exact (hnot hs (by simp)).elim
  · intro ws id cause hreg
    have heq := hout _ hreg
    simp only [Output.sent.injEq] at heq
    exact heq.1 ▸ hproven
  · intro ws hm
    rcases hmarked ws hm with hws | hm
    · exact .inr (hws ▸ hproven)
    · exact .inl hm
  · intro h h' hr hr'
    exact (hready h hr).trans (hready h' hr').symm

theorem Bound.acceptViewer (hb : Bound subtle r) : Bound subtle r.acceptViewer.2 := by
  rw [Room.acceptViewer]
  split
  · exact hb
  · rename_i host _
    split
    · exact hb
    · let r₁ := r.accept (.viewer ⟨false⟩) false
      have hg : Grows r r₁ [.accepted r.sockets.length false] := by
        refine ⟨rfl, fun _ h => h, fun ws c hc => ?_⟩
        rw [Room.base_accept, if_neg (Room.base_lt hc), hc]
      have hb₁ : Bound subtle r₁ := by
        refine hb.grow hg ?_ (by simp) ?_ (fun _ h => .inl h) (by simp) (by simp) ?_ ?_
        · rw [hg.puts]
          exact (List.append_nil _).trans hb.once
        · intro ws c hc
          rw [Room.base_accept] at hc
          split at hc
          · cases hc
          · exact .inl hc
        · intro ws hm
          rw [Room.marked_accept] at hm
          split at hm
          · cases hm
          · exact .inl hm
        · intro h h' hr hr'
          rw [Room.ready_accept] at hr hr'
          split at hr
          · cases hr
          · split at hr'
            · cases hr'
            · exact hb.single h h' hr hr'
      have hjoined : Mild r₁ (r₁.send r.sockets.length .joined r.sockets.length) :=
        .send r₁ _ _ rfl
      exact hb₁.mild (hjoined.trans (.send _ host _ rfl))

theorem Bound.acceptHost (hb : Bound subtle r) (id key : Text) (claim : Bool) (n : ByteArr 32) :
    Bound subtle (r.acceptHost id key claim n).2 := by
  rw [Room.acceptHost]
  split
  · exact hb
  · rename_i hunknown
    split
    · exact hb
    · rename_i hmismatch
      dsimp only
      rw [Room.send_accept]
      let att : HostAttachment := ⟨false, toHex n.val, key, id⟩
      let ws := r.sockets.length
      let challenge := Output.sent ws (.challenge att.nonce id) ws
      let r₁ := (r.accept (.host att) claim).emit challenge
      have hg : Grows r r₁ [.accepted ws claim, challenge] := by
        refine ⟨List.append_assoc .., fun _ h => h, fun ws' c hc => ?_⟩
        change (r.accept _ claim).base ws' = some c
        rw [Room.base_accept, if_neg (Room.base_lt hc), hc]
      have hclaim : claim = true ∨ r.owner = some key := by
        cases claim with
        | true => exact .inl rfl
        | false => exact .inr (by_contra fun hne => hmismatch ⟨fun h => hunknown ⟨h, rfl⟩, hne⟩)
      refine hb.grow hg ?_ (by simp [challenge]) ?_ (fun _ h => .inl h) (by simp [challenge])
        (by simp [challenge]) ?_ ?_
      · rw [hg.puts]
        exact (List.append_nil _).trans hb.once
      · intro ws' c hc
        change (r.accept _ claim).base ws' = some c at hc
        rw [Room.base_accept] at hc
        split at hc
        · rename_i hws
          subst hws
          obtain rfl : att.base = c := Option.some.inj hc
          refine .inr ⟨⟨n, rfl⟩, hg.mem_new (by simp [challenge, HostAttachment.base, att, ws]),
            hclaim.imp_left fun h => hg.mem_new (by simp [h, ws])⟩
        · exact .inl hc
      · intro ws' hm
        change (r.accept _ claim).marked ws' = true at hm
        rw [Room.marked_accept] at hm
        split at hm
        · cases hm
        · exact .inl hm
      · intro h h' hr hr'
        change (r.accept _ claim).ready h = true at hr
        change (r.accept _ claim).ready h' = true at hr'
        rw [Room.ready_accept] at hr hr'
        split at hr
        · cases hr
        · split at hr'
          · cases hr'
          · exact hb.single h h' hr hr'

theorem Bound.fetch (hb : Bound subtle r) (request : Request) (n : ByteArr 32) :
    Bound subtle (r.fetch request n).2 := by
  rw [Room.fetch]
  split
  · exact hb
  · split
    · exact hb.acceptHost ..
    · split
      · exact hb.acceptViewer
      · exact hb

theorem mild_replace (r : Room) (ws : Nat) : Mild r (r.replace ws) := by
  rw [Room.replace]
  split
  · split
    · exact (Mild.hostGone ..).trans (.closeFromServer ..)
    · exact .refl r
  · exact .refl r

theorem alone_of_single (hsingle : ∀ h h', r.ready h = true → r.ready h' = true → h = h')
    (ws h : Nat) (hr : (r.replace ws).ready h = true) : h = ws := by
  have hready : r.ready h = true := (mild_replace r ws).ready hr
  rw [Room.replace] at hr
  split at hr
  · rename_i previous hprevious
    obtain rfl : h = previous := hsingle _ _ hready (Room.ready_of_authedHost hprevious)
    split at hr
    · have hopen := ((Shape.closeFromServer _ h CLOSE_REPLACED ws).ready h).mp hr
      exact absurd rfl hopen.2.1
    · rename_i hne
      exact not_not.mp hne
  · rename_i hnone
    have := Room.not_ready_of_authedHost hnone h
    simp_all

theorem Bound.alone (hb : Bound subtle r) (ws h : Nat) (hr : (r.replace ws).ready h = true) :
    h = ws := alone_of_single hb.single ws h hr

theorem Bound.register (hb : Bound subtle r) {p : Pending} (hbase : r.base p.ws = some p.att.base)
    (howner : r.owner = some p.att.key) (hv : .verified p.ws p.sig ∈ r.log) :
    Bound subtle (r.register p) := by
  have hm := mild_replace r p.ws
  exact (hb.mild hm).mark ((hm.base _).trans hbase) (hm.owner.trans howner) (hm.mem_log hv)
    (hb.alone p.ws)

theorem Bound.bind (hb : Bound subtle r) {p : Pending} (hbase : r.base p.ws = some p.att.base)
    (hv : .verified p.ws p.sig ∈ r.log) : Bound subtle (r.bind p) := by
  rw [Room.bind]
  split
  · rename_i owner howner
    split
    · exact hb.mild (.closeFromServer ..)
    · rename_i hkey
      exact hb.register hbase (howner.trans (congrArg some (not_not.mp hkey))) hv
  · rename_i hnone
    have hput : Bound subtle (r.putOwner p.ws p.att.key) := hb.put (c := p.att.base) hbase hnone
    exact hput.register hbase rfl (List.mem_append_left _ hv)

theorem Bound.resume (hb : Bound subtle r) {p : Pending} (hp : Suspended r p) :
    Bound subtle (r.resume subtle p) := by
  rw [Room.resume]
  split
  · rename_i hv
    exact (hb.verified hp hv).bind hp.1 (List.mem_append_right _ (List.mem_singleton_self _))
  · exact hb.mild (.closeFromServer ..)

theorem Bound.authenticate (hb : Bound subtle r) {ws : Nat} {att : HostAttachment}
    (hatt : r.attachment ws = some (.host att)) (sig : Utf16) :
    Bound subtle (r.authenticate ws att sig) := by
  rw [Room.authenticate]
  split
  · exact hb.mild (.closeFromServer ..)
  · rename_i nonce hnonce
    exact hb.suspend ⟨Room.base_of_attachment hatt, nonce, hnonce, rfl⟩

theorem Bound.onHostMessage (hb : Bound subtle r) {ws : Nat} {att : HostAttachment}
    (hatt : r.attachment ws = some (.host att)) (msg : Value) :
    Bound subtle (r.onHostMessage ws att msg) := by
  rw [Room.onHostMessage]
  split
  · split
    · split
      · exact hb.mild (.send _ _ _ rfl)
      · exact hb
    · split
      · split
        · exact hb.mild (.closeFromServer ..)
        · exact hb
      · exact hb.mild (.closeFromServer ..)
  · split
    · exact hb.authenticate hatt _
    · exact hb.mild (.closeFromServer ..)

theorem Bound.webSocketMessage (hb : Bound subtle r) (ws : Nat) (message : Frame) :
    Bound subtle (r.webSocketMessage ws message) := by
  rw [Room.webSocketMessage]
  split
  · exact hb.mild (.closeFromServer ..)
  · split
    · exact hb.mild (.closeFromServer ..)
    · split
      · rename_i hatt
        exact hb.onHostMessage hatt _
      · exact hb.mild (.onViewerMessage ..)

theorem Bound.awaited (hb : Bound subtle r) (i : Nat) :
    Bound subtle { r with pending := r.pending.eraseIdx i } :=
  hb.mild ⟨rfl, fun _ h => List.mem_of_mem_eraseIdx h, fun _ => rfl, fun _ h => h, fun _ h => h,
    [], by simp⟩

theorem Bound.handle (hb : Bound subtle r) (e : Event) : Bound subtle (r.handle subtle e) := by
  cases e with
  | fetch request random => exact hb.fetch request random
  | message ws frame => exact hb.webSocketMessage ws frame
  | verified i =>
      rw [Room.handle]
      split
      · rename_i p hp
        exact (hb.awaited i).resume (hb.pending p (List.mem_of_getElem? hp))
      · exact hb
  | close ws code =>
      have hgone : Mild r ((r.finish ws).onGone ws) := (Mild.finish r ws).trans (.onGone _ ws)
      exact hb.mild (hgone.trans (.close ..))
  | error ws => exact hb.mild ((Mild.finish r ws).trans (.onGone _ ws))

theorem Bound.steps {ok : Room → Event → Prop} (hb : Bound subtle r)
    (h : Room.Steps subtle ok r r') : Bound subtle r' := by
  induction h with
  | refl => exact hb
  | tail _ hstep ih =>
      obtain ⟨e, -, -, rfl⟩ := hstep
      exact ih.handle e

namespace Room
variable {key : Text}

theorem owner_mark (r : Room) (p : Pending) : (r.mark p).owner = r.owner := (mark_eq r p).2.1

theorem owner_resume (p : Pending) (h : r.owner = some key) :
    (r.resume subtle p).owner = some key := by
  rw [resume]
  split
  · rw [bind]
    have h' : (r.emit (.verified p.ws p.sig)).owner = some key := h
    split
    · split
      · exact (Mild.closeFromServer ..).owner.trans h'
      · rw [register, owner_mark]
        exact (mild_replace ..).owner.trans h'
    · rename_i hnone
      simp [h'] at hnone
  · exact (Mild.closeFromServer ..).owner.trans h

theorem owner_acceptViewer (h : r.owner = some key) : r.acceptViewer.2.owner = some key := by
  rw [acceptViewer]
  split
  · exact h
  · split
    · exact h
    · exact ((Mild.send _ _ _ rfl).trans (.send _ _ _ rfl)).owner.trans h

theorem owner_acceptHost (id : Text) (k : Text) (claim : Bool) (n : ByteArr 32)
    (h : r.owner = some key) : (r.acceptHost id k claim n).2.owner = some key := by
  rw [acceptHost]
  split
  · exact h
  · split
    · exact h
    · exact (Mild.send _ _ _ rfl).owner.trans h

theorem owner_webSocketMessage (ws : Nat) (message : Frame) (h : r.owner = some key) :
    (r.webSocketMessage ws message).owner = some key := by
  have hclose (code : Nat) (ws' : Nat) : (r.closeFromServer ws' code ws).owner = some key :=
    (Mild.closeFromServer ..).owner.trans h
  rw [webSocketMessage]
  split
  · exact hclose ..
  · split
    · exact hclose ..
    · split
      · rw [onHostMessage]
        split
        · split
          · split
            · exact (Mild.send _ _ _ rfl).owner.trans h
            · exact h
          · split
            · split
              · exact hclose ..
              · exact h
            · exact hclose ..
        · split
          · rw [authenticate]
            split
            · exact hclose ..
            · exact h
          · exact hclose ..
      · exact (Mild.onViewerMessage ..).owner.trans h

theorem owner_handle (e : Event) (h : r.owner = some key) :
    (r.handle subtle e).owner = some key := by
  cases e with
  | fetch request random =>
      rw [handle, fetch]
      split
      · exact h
      · split
        · exact owner_acceptHost _ _ _ _ h
        · split
          · exact owner_acceptViewer h
          · exact h
  | message ws frame => exact owner_webSocketMessage ws frame h
  | verified i =>
      rw [handle]
      split
      · exact owner_resume _ h
      · exact h
  | close ws code =>
      exact (((Mild.finish r ws).trans (.onGone _ ws)).trans (.close ..)).owner.trans h
  | error ws => exact ((Mild.finish r ws).trans (.onGone _ ws)).owner.trans h

theorem owner_steps {ok : Room → Event → Prop} (h : r.owner = some key)
    (hs : Steps subtle ok r r') : r'.owner = some key := by
  induction hs with
  | refl => exact h
  | tail _ hstep ih =>
      obtain ⟨e, -, -, rfl⟩ := hstep
      exact owner_handle e ih

end Room

def BindsMessage (subtle : SubtleVerify) : Prop :=
  ∀ pub sig m m', subtle pub sig m = some true → subtle pub sig m' = some true → m = m'

theorem verifyEd25519_binds (hbinds : BindsMessage subtle) {key : Text} {sig : Utf16}
    {m m' : Bytes} (h : verifyEd25519 subtle key sig m = true)
    (h' : verifyEd25519 subtle key sig m' = true) : m = m' := by
  rw [verifyEd25519] at h h'
  split at h
  · rename_i pub s hpub hs
    simp only [hpub, hs, Option.getD_eq_iff] at h h'
    exact hbinds pub s m m' (by simpa using h) (by simpa using h')
  · cases h

theorem signedMessage_injective {n n' : ByteArr 32} {id id' : Text}
    (h : signedMessage n.val id = signedMessage n'.val id') : n = n' ∧ id = id' := by
  rw [signedMessage, signedMessage, List.append_assoc, List.append_assoc] at h
  have htail := List.append_cancel_left h
  obtain ⟨hn, hid⟩ := List.append_inj htail (n.property.trans n'.property.symm)
  exact ⟨Subtype.ext hn, utf8_injective hid⟩

theorem fromHex_toHex (b : Bytes) : fromHex (toHex b) = some b := hexDecode_hexEncode b

theorem room_owned (h : Room.Steps subtle Room.anyEvent .new r) : Owned subtle r ∧
    (∀ r' key, Room.Steps subtle Room.anyEvent r r' → r.owner = some key →
      r'.owner = some key) ∧
    (BindsMessage subtle → ∀ ws c sig, r.base ws = some c → .verified ws sig ∈ r.log →
      ∀ (n : ByteArr 32) (id : Text), (toHex n.val, id) ≠ (c.nonce, c.id) →
        verifyEd25519 subtle c.key sig (signedMessage n.val id) = false) := by
  have hb : Bound subtle r := bound_new.steps h
  refine ⟨hb.owned, fun r' key hs ho => Room.owner_steps ho hs, ?_⟩
  intro hbinds ws c sig hc hv n id hne
  obtain ⟨c', hc', -, nonce, hnonce, hverify⟩ := hb.checked ws sig hv
  obtain rfl : c = c' := Option.some.inj (hc.symm.trans hc')
  obtain ⟨⟨own, hown⟩, -⟩ := hb.hosts ws c hc
  rw [hown, fromHex_toHex] at hnonce
  obtain rfl := Option.some.inj hnonce
  by_contra hcaptured
  have heq := verifyEd25519_binds hbinds (Bool.not_eq_false _ ▸ hcaptured) hverify
  obtain ⟨rfl, rfl⟩ := signedMessage_injective heq
  exact hne (by rw [hown])

def sampleSubtle : SubtleVerify := fun pub sig m =>
  some (sig.val = pub.val ++ (m.drop AUTH_PREFIX.length).take 32)

def upgradeTo (path : String) (key : Option Text) (claim : Bool) : Request :=
  ⟨some "websocket".toList, path.toList, some "123456789".toList, key, if claim then some ['1'] else none⟩

def sampleKey (x : UInt8) : Text := toHex (filled 32 x).val

def claims (key random : UInt8) : Event :=
  .fetch (upgradeTo "/host" (some (sampleKey key)) true) (filled 32 random)

def authenticates (ws : Nat) (key random : UInt8) : Event :=
  .message ws (.text (typed "auth"
    [("sig".toList, utf16 (sampleKey key ++ sampleKey random))]))

def sampleClaims : List Event :=
  [claims 1 5, claims 3 6, authenticates 0 1 5, authenticates 1 3 6, .verified 1, .verified 0]

def roomAfter (es : List Event) : Room :=
  (Room.new.play sampleSubtle Room.anyEvent es).getD .new

theorem sample_room_owned : Owned sampleSubtle (roomAfter sampleClaims) ∧
    (roomAfter sampleClaims).owner = some (sampleKey 3) ∧
    (roomAfter sampleClaims).ready 1 = true ∧ (roomAfter sampleClaims).isOpen 0 = false := by
  have hplay : Room.new.play sampleSubtle Room.anyEvent sampleClaims =
      some (roomAfter sampleClaims) := by
    decide +kernel
  have howned := (room_owned (Room.steps_of_play sampleSubtle Room.anyEvent hplay)).1
  exact ⟨howned, by decide +kernel, by decide +kernel, by decide +kernel⟩

end SimpleRemote.Signaling
