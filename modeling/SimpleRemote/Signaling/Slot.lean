import SimpleRemote.Signaling.Handling

namespace SimpleRemote.Signaling
open ByteCodec Json

def Output.ws : Output → Nat
  | .accepted ws _ => ws
  | .sent ws _ _ => ws
  | .closed ws _ _ => ws
  | .verified ws _ => ws
  | .ownerPut ws _ => ws

def Room.isViewer (r : Room) (ws : Nat) : Prop := ws < r.sockets.length ∧ r.base ws = none

-- an open viewer is the last one that joined
def Room.Lined (r : Room) : Prop := ∀ v w, r.viewing v = true → r.isViewer w → w ≤ v

section
variable {subtle : SubtleVerify} {r r' : Room}

theorem Room.Lined.fewer (hl : r.Lined) (hviewing : ∀ v, r'.viewing v = true → r.viewing v = true)
    (hviewer : ∀ w, r'.isViewer w → r.isViewer w) : r'.Lined :=
  fun v w hv hw => hl v w (hviewing v hv) (hviewer w hw)

theorem Room.isViewer_iff_of_outline {shut unmarked : Nat → Prop} {out : List Output}
    (h : Outline r r' shut unmarked out) (ws : Nat) : r'.isViewer ws ↔ r.isViewer ws := by
  rw [isViewer, isViewer, h.length, h.base]

theorem Room.length_mark (r : Room) (p : Pending) :
    (r.mark p).sockets.length = r.sockets.length := by
  obtain ⟨hs, -, -⟩ := r.mark_eq p
  rw [hs]
  exact List.length_modify ..

theorem Room.isViewer_mark {p : Pending} (hbase : r.base p.ws = some p.att.base) (ws : Nat) :
    (r.mark p).isViewer ws ↔ r.isViewer ws := by
  rw [isViewer, isViewer, length_mark, base_mark hbase]

theorem Room.isViewer_accepted {a : Attachment} {claim : Bool}
    (hs : r'.sockets = (r.accept a claim).sockets) {ws : Nat} :
    r'.isViewer ws ↔
      r.isViewer ws ∨ ws = r.sockets.length ∧ (Socket.mk a true false).base = none := by
  rw [isViewer, length_accepted hs, base_accepted hs, isViewer]
  split
  · rename_i heq
    subst heq
    simp
  · rename_i hne
    constructor
    · rintro ⟨hlt, hbase⟩
      exact .inl ⟨by omega, hbase⟩
    · rintro (⟨hlt, hbase⟩ | ⟨heq, -⟩)
      · exact ⟨by omega, hbase⟩
      · exact absurd heq hne

-- what a step of the room keeps of its viewers and hosts
structure Orderly (r r' : Room) : Prop where
  lined : r.Lined → r'.Lined
  viewers : ∀ ws, r.isViewer ws → r'.isViewer ws
  hosts : ∀ ws, (r.base ws).isSome → (r'.base ws).isSome
  announced : ∀ host v, .sent host .viewerJoined v ∈ r.news r' → r'.isViewer v

theorem orderly_faded {shut unmarked : Nat → Prop} {out : List Output}
    (h : Fades r r' shut unmarked out) : Orderly r r' where
  lined hl := hl.fewer (fun v hv => ((h.viewing v).mp hv).1) fun w =>
    (Room.isViewer_iff_of_outline h.toOutline w).mp
  viewers w := (Room.isViewer_iff_of_outline h.toOutline w).mpr
  hosts w hw := (h.base w).symm ▸ hw
  announced host v hmem := (h.joins host v (Room.news_eq h.log ▸ hmem)).elim

theorem Room.base_kept {a : Attachment} {claim : Bool}
    (hs : r'.sockets = (r.accept a claim).sockets) {ws : Nat} (h : (r.base ws).isSome) :
    (r'.base ws).isSome := by
  obtain ⟨c, hc⟩ := Option.isSome_iff_exists.mp h
  rw [Room.base_accepted hs, if_neg (Room.base_lt hc)]
  exact h

theorem orderly_challenged (r : Room) (nonce key id : Text) (claim : Bool) :
    Orderly r (r.challenged nonce key id claim) := by
  have hs : (r.challenged nonce key id claim).sockets =
      (r.accept (.host ⟨false, nonce, key, id⟩) claim).sockets := rfl
  refine ⟨fun hl => hl.fewer (fun v => Room.viewing_challenged) fun w hw => ?_,
    fun w hw => (Room.isViewer_accepted hs).mpr (.inl hw), fun w => Room.base_kept hs,
    fun host v hmem => ?_⟩
  · rcases (Room.isViewer_accepted hs).mp hw with hw | ⟨-, hbase⟩
    · exact hw
    · cases hbase
  · rw [Room.news_eq (r.challenged_log nonce key id claim)] at hmem
    simp at hmem

theorem orderly_joined {host : Nat} (hnone : r.openViewer = none) :
    Orderly r (r.joined host) := by
  have hs : (r.joined host).sockets = (r.accept (.viewer ⟨false⟩) false).sockets := rfl
  refine ⟨fun _ v w hv hw => ?_, fun w hw => (Room.isViewer_accepted hs).mpr (.inl hw),
    fun w => Room.base_kept hs, fun h v hmem => ?_⟩
  · have hlt := hw.1
    rw [Room.length_accepted hs] at hlt
    rw [Room.viewing_joined hnone hv]
    omega
  · rw [Room.news_eq (r.joined_log host)] at hmem
    have hv : v = r.sockets.length := by
      rcases List.mem_cons.mp hmem with heq | hmem
      · cases heq
      · rcases List.mem_cons.mp hmem with heq | hmem
        · cases heq
        · cases List.mem_singleton.mp hmem
          rfl
    exact (Room.isViewer_accepted hs).mpr (.inr ⟨hv, rfl⟩)

theorem orderly_registered (hb : Bound subtle r) {i : Nat} {p : Pending} {out : List Output}
    (hp : r.pending[i]? = some p) (hout : Checked p out) :
    Orderly r ((r.resumed i (some p.att.key) out).register p) := by
  have hfades := fades_replaced r i (some p.att.key) hout
  have hbase := (hfades.base p.ws).trans (hb.pending p (List.mem_of_getElem? hp)).1
  have hviewer (w : Nat) : ((r.resumed i (some p.att.key) out).register p).isViewer w ↔
      r.isViewer w :=
    (Room.isViewer_mark hbase w).trans (Room.isViewer_iff_of_outline hfades.toOutline w)
  refine ⟨fun hl => hl.fewer (fun v hv => ?_) fun w => (hviewer w).mp, fun w => (hviewer w).mpr,
    fun w hw => ?_, fun host v hmem => ?_⟩
  · rw [Room.register, Room.viewing_mark hbase] at hv
    exact ((hfades.viewing v).mp hv).1
  · rw [Room.register, Room.base_mark hbase, hfades.base]
    exact hw
  · obtain ⟨rest, hlog, hrest⟩ := register_log r i (some p.att.key) hout
    rw [Room.news_eq hlog] at hmem
    rcases List.mem_append.mp hmem with hmem | hmem
    · exact (hfades.joins host v hmem).elim
    · cases hrest _ hmem

theorem Course.orderly (h : Course subtle r r') (hb : Bound subtle r) : Orderly r r' := by
  cases h with
  | faded h => exact orderly_faded h
  | challenged nonce key id claim => exact orderly_challenged r nonce key id claim
  | joined hhost hnone => exact orderly_joined hnone
  | registered hp hgood hout => exact orderly_registered hb hp hout

theorem orderly_handle {e : Event} (hb : Bound subtle r) (hd : r.delivers e = true) :
    Orderly r (r.handle subtle e) := ((handle_did hd).course hb hd).orderly hb

theorem lined_steps {ok : Room → Event → Prop} (h : Room.Steps subtle ok .new r) : r.Lined := by
  induction h with
  | refl => exact fun v w hv => by cases hv
  | tail hsteps hstep ih =>
      obtain ⟨e, hd, -, rfl⟩ := hstep
      exact (orderly_handle (bound_new.steps hsteps) hd).lined ih

end

end SimpleRemote.Signaling
