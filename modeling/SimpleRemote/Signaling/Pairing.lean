import SimpleRemote.Signaling.Handling

namespace SimpleRemote.Signaling
open ByteCodec Json

structure Paired (r : Room) : Prop where
  oneViewer : ∀ v v', r.viewing v = true → r.viewing v' = true → v = v'
  announced : ∀ h v, r.ready h = true → r.viewing v = true →
    r.told h v ∧ ∀ h', r.told h' v → h' = h

-- `hostGone` ran for the host whose authed flag the step cleared
def Parted (r r' : Room) : Prop :=
  ∀ host viewer cause, r.marked host = true → r'.marked host = false →
    .sent viewer .hostLeft cause ∈ r.news r' → r.told host viewer

-- no host registers beside an open viewer that an earlier host was told about, and no host
-- already shut leaves beside a viewer that it was not told about
def Matched (subtle : SubtleVerify) (r : Room) : Event → Prop
  | .verified i => ∀ p ∈ r.pending[i]?, r.admits subtle p = true → r.isOpen p.ws = true →
      r.authedHost = none → r.openViewer = none
  | .close ws _ => r.marked ws = true → r.isOpen ws = false → ∀ v ∈ r.openViewer, r.told ws v
  | .error ws => r.marked ws = true → r.isOpen ws = false → ∀ v ∈ r.openViewer, r.told ws v
  | _ => True

instance (subtle : SubtleVerify) (r : Room) (e : Event) : Decidable (Matched subtle r e) :=
  match e with
  | .verified _ => inferInstanceAs (Decidable (∀ _ ∈ _, _ → _ → _ → _))
  | .close _ _ => inferInstanceAs (Decidable (_ → _ → ∀ _ ∈ _, _))
  | .error _ => inferInstanceAs (Decidable (_ → _ → ∀ _ ∈ _, _))
  | .fetch _ _ => .isTrue trivial
  | .message _ _ => .isTrue trivial

structure Matching (r : Room) : Prop where
  oneViewer : ∀ v v', r.viewing v = true → r.viewing v' = true → v = v'
  known : ∀ h v, r.told h v → (r.base h).isSome ∧ v < r.sockets.length
  once : ∀ h h' v, r.told h v → r.told h' v → h = h'
  fresh : ∀ h, r.isOpen h = true → r.marked h = false → ∀ v, ¬ r.told h v
  paired : ∀ h v, r.ready h = true → r.viewing v = true → r.told h v

section
variable {subtle : SubtleVerify} {r r' : Room} {shut unmarked : Nat → Prop} {out : List Output}
  {e : Event}

theorem matching_new : Matching .new where
  oneViewer _ _ h := by cases h
  known _ _ h := by cases h
  once _ _ _ h := by cases h
  fresh _ h := by cases h
  paired _ _ h := by cases h

theorem Matching.all (hm : Matching r) : Paired r where
  oneViewer := hm.oneViewer
  announced h v hr hv := ⟨hm.paired h v hr hv, fun h' ht => hm.once h' h v ht (hm.paired h v hr hv)⟩

theorem Matching.faded (hm : Matching r) (h : Fades r r' shut unmarked out) : Matching r' where
  oneViewer v v' hv hv' := hm.oneViewer v v' ((h.viewing v).mp hv).1 ((h.viewing v').mp hv').1
  known w v ht := by
    rw [h.base, h.length]
    exact hm.known w v ((h.joins.told h.log w v).mp ht)
  once w w' v ht ht' :=
    hm.once w w' v ((h.joins.told h.log w v).mp ht) ((h.joins.told h.log w' v).mp ht')
  fresh w ho hu v ht := by
    obtain ⟨ho', hshut⟩ := (h.isOpen w).mp ho
    refine hm.fresh w ho' ?_ v ((h.joins.told h.log w v).mp ht)
    by_contra hmarked
    have := (h.marked w).mpr ⟨Bool.not_eq_false _ ▸ hmarked, fun hw => hshut (h.unmarks w hw)⟩
    simp [hu] at this
  paired w v hr hv :=
    (h.joins.told h.log w v).mpr (hm.paired w v ((h.ready w).mp hr).1 ((h.viewing v).mp hv).1)

theorem Matching.challenged (hm : Matching r) (nonce key id : Text) (claim : Bool) :
    Matching (r.challenged nonce key id claim) := by
  have hs : (r.challenged nonce key id claim).sockets =
      (r.accept (.host ⟨false, nonce, key, id⟩) claim).sockets := rfl
  have htold (h v : Nat) : (r.challenged nonce key id claim).told h v ↔ r.told h v :=
    NoJoin.told (by simp [NoJoin]) (r.challenged_log nonce key id claim) h v
  have hviewing (v : Nat) (hv : (r.challenged nonce key id claim).viewing v = true) :
      r.viewing v = true := Room.viewing_challenged hv
  refine ⟨fun v v' hv hv' => hm.oneViewer v v' (hviewing v hv) (hviewing v' hv'), ?_, ?_, ?_, ?_⟩
  · intro h v ht
    obtain ⟨hbase, hlt⟩ := hm.known h v ((htold h v).mp ht)
    obtain ⟨c, hc⟩ := Option.isSome_iff_exists.mp hbase
    rw [Room.base_accepted hs, if_neg (Room.base_lt hc), Room.length_accepted hs]
    exact ⟨hbase, by omega⟩
  · intro h h' v ht ht'
    exact hm.once h h' v ((htold h v).mp ht) ((htold h' v).mp ht')
  · intro h ho hu v ht
    have hold := (htold h v).mp ht
    obtain ⟨c, hc⟩ := Option.isSome_iff_exists.mp (hm.known h v hold).1
    rw [Room.isOpen_accepted hs, if_neg (Room.base_lt hc)] at ho
    rw [Room.marked_accepted hs, if_neg (Room.base_lt hc)] at hu
    exact hm.fresh h ho hu v hold
  · intro h v hr hv
    exact (htold h v).mpr (hm.paired h v (Room.ready_accepted hs rfl hr) (hviewing v hv))

theorem Matching.joined (hm : Matching r) {host : Nat} (hhost : r.authedHost = some host)
    (hnone : r.openViewer = none)
    (hsingle : ∀ h h', r.ready h = true → r.ready h' = true → h = h') :
    Matching (r.joined host) := by
  have hs : (r.joined host).sockets = (r.accept (.viewer ⟨false⟩) false).sockets := rfl
  have hready := Room.ready_of_authedHost hhost
  have htold (h v : Nat) : (r.joined host).told h v ↔
      r.told h v ∨ (h = host ∧ v = r.sockets.length) := by
    rw [Room.told, r.joined_log, List.mem_append, Room.told]
    simp
  have hviewing (v : Nat) (hv : (r.joined host).viewing v = true) : v = r.sockets.length :=
    Room.viewing_joined hnone hv
  have hold (h v : Nat) (ht : r.told h v) : h ≠ r.sockets.length ∧ v < r.sockets.length := by
    obtain ⟨hbase, hlt⟩ := hm.known h v ht
    obtain ⟨c, hc⟩ := Option.isSome_iff_exists.mp hbase
    exact ⟨Room.base_lt hc, hlt⟩
  have hhostlt : host ≠ r.sockets.length :=
    Nat.ne_of_lt (Room.lt_of_isOpen (Room.isOpen_of_ready hready))
  refine ⟨fun v v' hv hv' => (hviewing v hv).trans (hviewing v' hv').symm, ?_, ?_, ?_, ?_⟩
  · intro h v ht
    rw [Room.length_accepted hs]
    rcases (htold h v).mp ht with ht | ⟨rfl, rfl⟩
    · obtain ⟨hne, hlt⟩ := hold h v ht
      rw [Room.base_accepted hs, if_neg hne]
      exact ⟨(hm.known h v ht).1, by omega⟩
    · rw [Room.base_accepted hs, if_neg hhostlt]
      exact ⟨Room.base_of_ready hready, by omega⟩
  · intro h h' v ht ht'
    rcases (htold h v).mp ht with hbefore | ⟨hh, hv⟩
    · rcases (htold h' v).mp ht' with hbefore' | ⟨-, hv⟩
      · exact hm.once h h' v hbefore hbefore'
      · exact absurd (hv ▸ (hold h v hbefore).2) (Nat.lt_irrefl _)
    · rcases (htold h' v).mp ht' with hbefore' | ⟨hh', -⟩
      · exact absurd (hv ▸ (hold h' v hbefore').2) (Nat.lt_irrefl _)
      · exact hh.trans hh'.symm
  · intro h ho hu v ht
    rcases (htold h v).mp ht with ht | ⟨rfl, -⟩
    · obtain ⟨hne, -⟩ := hold h v ht
      rw [Room.isOpen_accepted hs, if_neg hne] at ho
      rw [Room.marked_accepted hs, if_neg hne] at hu
      exact hm.fresh h ho hu v ht
    · rw [Room.marked_accepted hs, if_neg hhostlt, (Room.ready_iff.mp hready).2] at hu
      cases hu
  · intro h v hr hv
    have hr' : r.ready h = true := Room.ready_accepted hs rfl hr
    exact (htold h v).mpr (.inr ⟨hsingle h host hr' hready, hviewing v hv⟩)

theorem Matching.mark (hm : Matching r) {p : Pending} (hbase : r.base p.ws = some p.att.base)
    (hfree : r.isOpen p.ws = true → r.ready p.ws = true ∨ ∀ v, r.viewing v = false) :
    Matching (r.mark p) := by
  obtain ⟨hs, -, -⟩ := r.mark_eq p
  obtain ⟨out, hlog, hout⟩ := r.mark_log p
  have hjoin : NoJoin out := fun h v hmem => by cases hout _ hmem
  have htold := hjoin.told hlog
  have hlen : (r.mark p).sockets.length = r.sockets.length := by
    rw [hs]
    exact List.length_modify ..
  refine ⟨fun v v' hv hv' => ?_, fun h v ht => ?_, fun h h' v ht ht' => ?_, fun h ho hu v ht => ?_,
    fun h v hr hv => ?_⟩
  · rw [Room.viewing_mark hbase] at hv hv'
    exact hm.oneViewer v v' hv hv'
  · rw [Room.base_mark hbase, hlen]
    exact hm.known h v ((htold h v).mp ht)
  · exact hm.once h h' v ((htold h v).mp ht) ((htold h' v).mp ht')
  · rw [Room.isOpen_mark] at ho
    refine hm.fresh h ho ?_ v ((htold h v).mp ht)
    by_contra hmarked
    have := (Room.marked_mark hbase h).mpr (.inr (Bool.not_eq_false _ ▸ hmarked))
    simp [hu] at this
  · rw [Room.viewing_mark hbase] at hv
    refine (htold h v).mpr ?_
    rcases (Room.ready_mark hbase h).mp hr with ⟨rfl, ho⟩ | hr
    · rcases hfree ho with hr | hnone
      · exact hm.paired p.ws v hr hv
      · simp [hnone v] at hv
    · exact hm.paired h v hr hv

theorem Room.displaced_none {ws : Nat} (h : r.displaced ws = none) :
    r.authedHost = none ∨ r.ready ws = true := by
  cases hhost : r.authedHost with
  | none => exact .inl rfl
  | some host =>
      right
      by_contra hr
      have hne : host ≠ ws := by
        rintro rfl
        exact hr (Room.ready_of_authedHost hhost)
      rw [Room.displaced_eq.mpr ⟨hhost, hne⟩] at h
      cases h

section
variable {p : Pending} {i : Nat} (hb : Bound subtle r) (hm : Matching r)
  (hp : r.pending[i]? = some p) (hgood : r.admits subtle p = true) (hout : Checked p out)
include hb hm hp hout

include hgood in
theorem Matching.register (hmatched : Matched subtle r (.verified i)) :
    Matching ((r.resumed i (some p.att.key) out).register p) := by
  have hfades := fades_replaced r i (some p.att.key) hout
  have hbase := (hfades.base p.ws).trans (hb.pending p (List.mem_of_getElem? hp)).1
  refine (hm.faded hfades).mark hbase fun ho => ?_
  have hopen := ((hfades.isOpen p.ws).mp ho).1
  cases hd : r.displaced p.ws with
  | some previous =>
      right
      intro v
      by_contra hv
      obtain ⟨hv', hshut⟩ := (hfades.viewing v).mp (Bool.not_eq_false _ ▸ hv)
      obtain ⟨w, hw⟩ := Room.exists_openViewer hv'
      rw [hm.oneViewer v w hv' (Room.viewing_of_openViewer hw)] at hshut
      exact hshut ⟨previous, hd, .inl hw⟩
  | none =>
      rcases Room.displaced_none hd with hnone | hr
      · right
        intro v
        have hviewer := hmatched p hp hgood hopen hnone
        by_contra hv
        have hv' := ((hfades.viewing v).mp (Bool.not_eq_false _ ▸ hv)).1
        simp [Room.not_viewing_of_openViewer hviewer v] at hv'
      · left
        refine (hfades.ready p.ws).mpr ⟨hr, ?_, by simp [hd]⟩
        rintro ⟨previous, hd', -⟩
        simp [hd] at hd'

theorem Matching.matched_of_paired
    (hpaired : Paired ((r.resumed i (some p.att.key) out).register p)) :
    Matched subtle r (.verified i) := by
  intro q hq _ hopen hnone
  obtain rfl : p = q := Option.some.inj (hp.symm.trans hq)
  have hfades := fades_replaced r i (some p.att.key) hout
  have hbase := (hfades.base p.ws).trans (hb.pending p (List.mem_of_getElem? hp)).1
  have hd : r.displaced p.ws = none := by rw [Room.displaced, hnone]; rfl
  simp only [hd, reduceCtorEq, false_and, exists_false] at hfades
  by_contra hsome
  obtain ⟨v, hv⟩ := Option.ne_none_iff_exists'.mp hsome
  have hready : ((r.resumed i (some p.att.key) out).register p).ready p.ws = true :=
    (Room.ready_mark hbase p.ws).mpr (.inl ⟨rfl, (hfades.isOpen p.ws).mpr ⟨hopen, id⟩⟩)
  have hviewing : ((r.resumed i (some p.att.key) out).register p).viewing v = true :=
    (Room.viewing_mark hbase v).trans
      ((hfades.viewing v).mpr ⟨Room.viewing_of_openViewer hv, id⟩)
  obtain ⟨rest, hlog, hrest⟩ := register_log r i (some p.att.key) hout
  have hjoin : NoJoin (out ++ replaceOutput (r.displaced p.ws) r.openViewer p.ws ++ rest) := by
    intro h v hmem
    rcases List.mem_append.mp hmem with hmem | hmem
    · exact (fades_replaced r i (some p.att.key) hout).joins h v hmem
    · cases hrest _ hmem
  have htold := (hjoin.told hlog p.ws v).mp (hpaired.announced p.ws v hready hviewing).1
  refine hm.fresh p.ws hopen ?_ v htold
  by_contra hmarked
  have := Room.not_ready_of_authedHost hnone p.ws
  simp [Room.ready_iff.mpr ⟨hopen, Bool.not_eq_false _ ▸ hmarked⟩] at this

end

theorem parted_quiet (hlog : r'.log = r.log ++ out)
    (hout : ∀ viewer cause, .sent viewer .hostLeft cause ∉ out) : Parted r r' := by
  intro _ viewer cause _ _ hmem
  rw [Room.news_eq hlog] at hmem
  exact absurd hmem (hout viewer cause)

theorem mem_hostLeft {viewer : Option Nat} {cause v c : Nat} :
    .sent v .hostLeft c ∈ Shape.goneOutput viewer cause ↔ viewer = some v ∧ c = cause := by
  cases viewer with
  | none => simp [Shape.goneOutput]
  | some w => simp [Shape.goneOutput, eq_comm]

theorem Matching.parted_register (hm : Matching r) {p : Pending} {i : Nat}
    (hbase : r.base p.ws = some p.att.base) (hout : Checked p out) :
    Parted r ((r.resumed i (some p.att.key) out).register p) := by
  intro host viewer cause hmarked hcleared hmem
  obtain ⟨rest, hlog, hrest⟩ := register_log r i (some p.att.key) hout
  have hfades := fades_replaced r i (some p.att.key) hout
  have hbase' := (hfades.base p.ws).trans hbase
  have hd : r.displaced p.ws = some host := by
    by_contra hne
    have := (Room.marked_mark hbase' host).mpr (.inr ((hfades.marked host).mpr ⟨hmarked, hne⟩))
    rw [Room.register] at hcleared
    simp [hcleared] at this
  rw [Room.news_eq hlog, hd, replaceOutput, List.mem_append, List.mem_append, List.mem_append] at hmem
  rcases hmem with (hmem | hmem | hmem) | hmem
  · rcases hout _ hmem with heq | heq <;> cases heq
  · have hviewer := Room.viewing_of_openViewer (mem_hostLeft.mp hmem).1
    exact hm.paired host viewer (Room.ready_of_displaced hd) hviewer
  · simp at hmem
  · cases hrest _ hmem

theorem Matching.parted_hostEnded (hm : Matching r) {ws : Nat} (he : e.ends = some ws)
    (hlt : ws < r.sockets.length) (hmarked : r.marked ws = true) :
    Parted r (((r.finish ws).hostGone ws ws).answer e) ↔ Matched subtle r e := by
  obtain ⟨rest, hfades, hrest⟩ := (fades_hostEnded hmarked).answer he (.inl rfl) hlt
  have hparted : Parted r (((r.finish ws).hostGone ws ws).answer e) ↔
      ∀ v ∈ r.openViewer, r.told ws v := by
    constructor
    · intro hparted v hv
      refine hparted ws v ws hmarked ?_ ?_
      · by_contra hcleared
        exact ((hfades.marked ws).mp (Bool.not_eq_false _ ▸ hcleared)).2 rfl
      · rw [Room.news_eq hfades.log]
        exact List.mem_append_left _ (mem_hostLeft.mpr ⟨hv, rfl⟩)
    · intro htold host viewer cause hhost hcleared hmem
      obtain rfl : host = ws := by
        by_contra hne
        have := (hfades.marked host).mpr ⟨hhost, hne⟩
        simp [hcleared] at this
      rw [Room.news_eq hfades.log] at hmem
      rcases List.mem_append.mp hmem with hmem | hmem
      · exact htold viewer (mem_hostLeft.mp hmem).1
      · obtain ⟨code, heq⟩ := hrest _ hmem
        cases heq
  have hopen (h : r.isOpen ws = true) (v : Nat) (hv : r.openViewer = some v) : r.told ws v :=
    hm.paired ws v (Room.ready_iff.mpr ⟨h, hmarked⟩) (Room.viewing_of_openViewer hv)
  have hshut : (∀ v ∈ r.openViewer, r.told ws v) ↔
      (r.marked ws = true → r.isOpen ws = false → ∀ v ∈ r.openViewer, r.told ws v) := by
    refine ⟨fun h _ _ => h, fun h v hv => ?_⟩
    cases ho : r.isOpen ws with
    | true => exact hopen ho v hv
    | false => exact h hmarked ho v hv
  cases e with
  | close ws' code =>
      obtain rfl : ws' = ws := Option.some.inj he
      exact hparted.trans hshut
  | error ws' =>
      obtain rfl : ws' = ws := Option.some.inj he
      exact hparted.trans hshut
  | _ => cases he

theorem matched_of_unmarked {ws : Nat} (he : e.ends = some ws) (hm : r.marked ws = false) :
    Matched subtle r e := by
  cases e with
  | close ws' code =>
      obtain rfl : ws' = ws := Option.some.inj he
      exact fun h => by simp [hm] at h
  | error ws' =>
      obtain rfl : ws' = ws := Option.some.inj he
      exact fun h => by simp [hm] at h
  | _ => cases he

-- what a step leaves of the pairing, `P` being what it takes
def Pairs (r r' : Room) (P : Prop) : Prop :=
  (Paired r' ∧ Parted r r' ↔ P) ∧ (P → Matching r')

theorem pairs_faded (hm : Matching r) (h : Fades r r' shut unmarked out)
    (hparted : Parted r r') {P : Prop} (hP : P) : Pairs r r' P :=
  ⟨iff_of_true ⟨(hm.faded h).all, hparted⟩ hP, fun _ => hm.faded h⟩

theorem pairs_quiet (hm : Matching r) (h : Fades r r' shut unmarked out)
    (hout : ∀ viewer cause, .sent viewer .hostLeft cause ∉ out) {P : Prop} (hP : P) :
    Pairs r r' P := pairs_faded hm h (parted_quiet h.log hout) hP

theorem pairs_new (hm : Matching r') (hlog : r'.log = r.log ++ out)
    (hout : ∀ viewer cause, .sent viewer .hostLeft cause ∉ out) {P : Prop} (hP : P) :
    Pairs r r' P := ⟨iff_of_true ⟨hm.all, parted_quiet hlog hout⟩ hP, fun _ => hm⟩

theorem pairs_stay (hm : Matching r) {P : Prop} (hP : P) : Pairs r r P :=
  pairs_quiet hm (fades_still rfl (List.append_nil _).symm (by simp [NoJoin]) (by simp)) (by simp) hP

theorem pairs_relay (hm : Matching r) (ws : Nat) (data : Utf16) (cause : Nat) {P : Prop} (hP : P) :
    Pairs r (r.emit (.sent ws (.relay data) cause)) P := by
  have hfades : Fades r (r.emit (.sent ws (.relay data) cause)) nobody nobody
      [.sent ws (.relay data) cause] := fades_still rfl rfl (by simp [NoJoin]) (by simp)
  exact pairs_quiet hm hfades (by simp) hP

theorem pairs_suspended (hm : Matching r) (p : Pending) {P : Prop} (hP : P) :
    Pairs r { r with pending := r.pending ++ [p] } P := by
  have hfades : Fades r { r with pending := r.pending ++ [p] } nobody nobody [] :=
    fades_still rfl (List.append_nil _).symm (by simp [NoJoin]) (by simp)
  exact pairs_quiet hm hfades (by simp) hP

theorem Did.pairs (h : Did subtle r e r') (hb : Bound subtle r) (hm : Matching r)
    (hd : r.delivers e = true) : Pairs r r' (Matched subtle r e) := by
  have hended {ws : Nat} (he : e.ends = some ws) : ws < r.sockets.length :=
    Room.lt_of_awaits (Room.awaits_of_ends he hd)
  cases h with
  | refused => exact pairs_stay hm trivial
  | host nonce key id claim =>
      exact pairs_new (hm.challenged nonce key id claim) (r.challenged_log ..) (by simp) trivial
  | viewer hhost hnone =>
      exact pairs_new (hm.joined hhost hnone hb.single) (r.joined_log _) (by simp) trivial
  | dropped => exact pairs_stay hm trivial
  | bad code =>
      exact pairs_quiet hm (fades_closeFromServer (Room.lt_of_awaits hd) code _) (by simp) trivial
  | down data => exact pairs_relay hm _ data _ trivial
  | kicked _ _ hviewer =>
      exact pairs_quiet hm (fades_closeFromServer (Room.lt_of_openViewer hviewer) _ _) (by simp)
        trivial
  | up data => exact pairs_relay hm _ data _ trivial
  | suspended => exact pairs_suspended hm _ trivial
  | @failed i p out hp hbad hout =>
      have hlt := Room.lt_of_base (hb.pending p (List.mem_of_getElem? hp)).1
      refine pairs_quiet hm (fades_failed i r.owner hout hlt CLOSE_AUTH) (fun v c hmem => ?_)
        fun q hq hgood => ?_
      · rcases List.mem_append.mp hmem with hmem | hmem
        · rcases hout _ hmem with heq | heq <;> cases heq
        · simp at hmem
      · obtain rfl : p = q := Option.some.inj (hp.symm.trans hq)
        simp [hbad] at hgood
  | registered hp hgood hout =>
      have hbase := (hb.pending _ (List.mem_of_getElem? hp)).1
      have hmatching := hm.register hb hp hgood hout
      refine ⟨⟨fun h => hm.matched_of_paired hb hp hout h.1, fun h => ?_⟩, hmatching⟩
      exact ⟨(hmatching h).all, hm.parted_register hbase hout⟩
  | hostEnded he hmarked =>
      obtain ⟨rest, hfades, -⟩ := (fades_hostEnded hmarked).answer he (.inl rfl) (hended he)
      have hmatching := hm.faded hfades
      have hparted : Parted r _ ↔ Matched subtle r e :=
        hm.parted_hostEnded he (hended he) hmarked
      exact ⟨⟨fun h => hparted.mp h.2, fun h => ⟨hmatching.all, hparted.mpr h⟩⟩, fun _ => hmatching⟩
  | @viewerEnded _ ws host he hbase =>
      obtain ⟨rest, hfades, hrest⟩ := (fades_viewerEnded r ws host).answer he rfl (hended he)
      have hunmarked : r.marked ws = false := by
        by_contra hmarked
        have hsome := Room.base_of_marked (Bool.not_eq_false _ ▸ hmarked)
        simp [hbase] at hsome
      refine pairs_quiet hm hfades (fun v c hmem => ?_) (matched_of_unmarked he hunmarked)
      rcases List.mem_append.mp hmem with hmem | hmem
      · simp at hmem
      · obtain ⟨code, heq⟩ := hrest _ hmem
        cases heq
  | ended he hunmarked =>
      obtain ⟨rest, hfades, hrest⟩ := fades_finish.answer he rfl (hended he)
      refine pairs_quiet hm hfades (fun v c hmem => ?_) (matched_of_unmarked he hunmarked)
      obtain ⟨code, heq⟩ := hrest _ (by simpa using hmem)
      cases heq

theorem viewers_paired {es : List Event} (hrun : Runs.Along (Room.handle subtle) Delivered .new es) :
    Runs.Along (Room.handle subtle)
        (fun r e => Paired (r.handle subtle e) ∧ Parted r (r.handle subtle e)) .new es ↔
      Runs.Along (Room.handle subtle) (Matched subtle) .new es :=
  Runs.along_iff (fun r => Bound subtle r ∧ Matching r)
    (fun _ _ h hd => ((handle_did hd).pairs h.1 h.2 hd).1)
    (fun _ e h hd hq => ⟨h.1.handle e, ((handle_did hd).pairs h.1 h.2 hd).2 hq⟩)
    ⟨bound_new, matching_new⟩ hrun

end

theorem sample_viewers_paired :
    Runs.Along (Room.handle sampleSubtle) (fun r e => Paired (r.handle sampleSubtle e) ∧
      Parted r (r.handle sampleSubtle e)) .new sampleVisits :=
  (viewers_paired (by decide +kernel)).mpr (by decide +kernel)

-- the host of an open viewer is closed for a bad frame and comes back on a new socket
def sampleAdoption : List Event := sampleRegister ++
  [joinsViewer, .message 0 (.text ['x']), claims 1 6, authenticates 2 1 6, .verified 0]

theorem viewer_adopted : Runs.Along (Room.handle sampleSubtle) Delivered .new sampleAdoption ∧
    ¬ Runs.Along (Room.handle sampleSubtle) (fun r e => Paired (r.handle sampleSubtle e) ∧
      Parted r (r.handle sampleSubtle e)) .new sampleAdoption := by
  refine ⟨by decide +kernel, fun h => ?_⟩
  obtain ⟨-, -, -, -, -, -, -, ⟨hpaired, -⟩, -⟩ := h
  have htold := (hpaired.announced 2 1 (by decide +kernel) (by decide +kernel)).1
  revert htold
  decide +kernel

end SimpleRemote.Signaling
