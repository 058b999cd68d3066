import Mathlib.Algebra.Order.BigOperators.Group.List
import Mathlib.Data.List.TakeDrop
import SimpleRemote.Library.JsonText

namespace Json
open ByteCodec

def size (t : Text) : Nat := (utf8 t).length

@[simp] theorem size_nil : size [] = 0 := rfl

@[simp] theorem size_cons (c : Char) (t : Text) : size (c :: t) = c.utf8Size + size t := by
  rw [size, utf8, List.flatMap_cons, List.length_append, String.length_utf8EncodeChar]
  rfl

@[simp] theorem size_append (s t : Text) : size (s ++ t) = size s + size t := by
  simp [size, utf8]

theorem size_suffix {rest cs : Text} (h : rest <:+ cs) : size rest ≤ size cs := by
  obtain ⟨pre, rfl⟩ := h
  rw [size_append]
  exact Nat.le_add_left ..

def bodySize (s : Utf16) : Nat := size (quoteBody s)

theorem bodySize_of_points {s s' : Utf16} {p : Point} (h : points s = p :: points s') :
    bodySize s = size (quotePoint p) + bodySize s' := by
  rw [bodySize, quoteBody, h, List.flatMap_cons, size_append, bodySize, quoteBody]

theorem size_hex4 (n : Nat) : size (hex4 n) = 4 := by
  have hdigit (m : Nat) : (hexDigit (m % 16)).utf8Size = 1 := by
    have hall : ∀ i : Fin 16, (hexDigit i).utf8Size = 1 := by decide
    exact hall ⟨m % 16, Nat.mod_lt m (by omega)⟩
  simp [hex4, hdigit]

theorem size_quotePoint_le (p : Point) : size (quotePoint p) ≤ 6 := by
  have hslash : '\\'.utf8Size = 1 := by decide
  have hu : 'u'.utf8Size = 1 := by decide
  cases p with
  | error u => simp [quotePoint, size_hex4, hslash, hu]
  | ok c =>
      rw [quotePoint]
      split
      · rename_i e _
        have := Char.utf8Size_le_four e
        simp only [size_cons, size_nil, hslash]
        omega
      · split
        · simp [size_hex4, hslash, hu]
        · have := Char.utf8Size_le_four c
          simp only [size_cons, size_nil]
          omega

theorem not_high_of_low {u : UInt16} (h : isLow u = true) : isHigh u = false := by
  simp only [isLow, Bool.and_eq_true, decide_eq_true_eq] at h
  simp only [isHigh, Bool.and_eq_false_imp, decide_eq_true_eq, decide_eq_false_iff_not]
  omega

theorem bodySize_cons_le (u : UInt16) (s : Utf16) : bodySize (u :: s) ≤ 6 + bodySize s := by
  cases s with
  | nil =>
      have hone : points [u] = point u :: points [] := rfl
      rw [bodySize_of_points hone]
      exact Nat.add_le_add_right (size_quotePoint_le _) _
  | cons v rest =>
      by_cases h : (isHigh u && isLow v) = true
      · have hpair : points (u :: v :: rest) = .ok (pairChar u v) :: points rest := by
          rw [points, if_pos h]
        have hlow := not_high_of_low (Bool.and_eq_true_iff.mp h).2
        rw [bodySize_of_points hpair, bodySize_of_points (points_cons hlow rest)]
        have := size_quotePoint_le (.ok (pairChar u v))
        omega
      · have hsingle : points (u :: v :: rest) = point u :: points (v :: rest) := by
          rw [points, if_neg h]
        rw [bodySize_of_points hsingle]
        exact Nat.add_le_add_right (size_quotePoint_le _) _

theorem bodySize_short {e : Char} {u : UInt16} (h : escapeUnit e = some u) (s : Utf16) :
    bodySize (u :: s) ≤ 2 + bodySize s := by
  have hone : isHigh u = false ∧ size (quotePoint (point u)) ≤ 2 := by
    rw [escapeUnit] at h
    split at h
    · rename_i hc
      rcases hc with rfl | rfl | rfl <;> cases h <;> decide
    · repeat' split at h
      all_goals cases h
      all_goals decide
  rw [bodySize_of_points (points_cons hone.1 s)]
  exact Nat.add_le_add_right hone.2 _

theorem bodySize_units {c : Char} (hquote : c ≠ '"') (hslash : c ≠ '\\') (hc : ¬ c.toNat < 0x20)
    (s : Utf16) : bodySize (units c ++ s) = c.utf8Size + bodySize s := by
  have hshort : shortEscape c = none := by
    rw [shortEscape, if_neg hquote, if_neg hslash, if_neg (by omega), if_neg (by omega),
      if_neg (by omega), if_neg (by omega), if_neg (by omega)]
  rw [bodySize_of_points (points_units c s), quotePoint, hshort]
  simp [hc]

theorem readEscape_size {cs : Text} {u : Utf16} {rest : Text} (h : readEscape cs = some (u, rest))
    (s : Utf16) : bodySize (u ++ s) + size rest ≤ bodySize s + (1 + size cs) := by
  cases cs with
  | nil => cases h
  | cons e cs =>
      have he := Char.utf8Size_pos e
      rw [readEscape] at h
      split at h
      · rcases cs with _ | ⟨a, _ | ⟨b, _ | ⟨c, _ | ⟨d, cs⟩⟩⟩⟩
        case cons.cons.cons.cons =>
          rw [readHex4] at h
          split at h
          · cases h
            have ha := Char.utf8Size_pos a
            have hb := Char.utf8Size_pos b
            have hc := Char.utf8Size_pos c
            have hd := Char.utf8Size_pos d
            have hle := fun x => bodySize_cons_le x s
            simp only [size_cons, List.singleton_append]
            refine (Nat.add_le_add_right (hle _) _).trans ?_
            omega
          · cases h
        all_goals cases h
      · obtain ⟨x, hx, heq⟩ := Option.map_eq_some_iff.mp h
        cases heq
        have := bodySize_short hx s
        simp only [size_cons, List.singleton_append]
        omega

theorem readUnit_size {cs : Text} {u : Utf16} {rest : Text} (h : readUnit cs = some (u, rest))
    (s : Utf16) : bodySize (u ++ s) + size rest ≤ bodySize s + size cs := by
  cases cs with
  | nil => cases h
  | cons c cs =>
      rw [readUnit] at h
      split at h
      · rename_i hc
        subst hc
        have hone : '\\'.utf8Size = 1 := by decide
        rw [size_cons, hone]
        exact readEscape_size h s
      · rename_i hslash
        split at h
        · cases h
        · rename_i hplain
          cases h
          have hunits := bodySize_units (fun hc => hplain (.inl hc)) hslash fun hc => hplain (.inr hc)
          rw [hunits, size_cons]
          omega

-- what `p` reads weighs no more than the text it took away
def Within {α : Type} (w : α → Nat) (p : Parser α) : Prop :=
  ∀ cs a rest, p cs = some (a, rest) → w a + size rest ≤ size cs

theorem readChars_within (n : Nat) : Within bodySize (readChars n) := by
  induction n with
  | zero => exact fun cs a rest h => by cases h
  | succ n ih =>
      intro cs s rest h
      rw [readChars] at h
      split at h
      · cases h
        rw [show bodySize [] = 0 from rfl, Nat.zero_add]
        exact size_suffix (List.tail_suffix cs)
      · split at h
        · rename_i u rest' hunit
          obtain ⟨⟨s', r⟩, hchars, heq⟩ := Option.map_eq_some_iff.mp h
          cases heq
          have := ih rest' s' rest hchars
          have := readUnit_size hunit s'
          omega
        · cases h

theorem readString_within : Within bodySize readString := by
  intro cs s rest h
  unfold readString at h
  split at h
  · rename_i cs
    have := readChars_within _ cs s rest h
    rw [size_cons]
    omega
  · cases h

theorem skipWs_suffix (cs : Text) : skipWs cs <:+ cs := List.dropWhile_suffix _

theorem Within.skipWs {α : Type} {w : α → Nat} {p : Parser α} (hp : Within w p) :
    Within w fun cs => p (skipWs cs) := fun cs a rest h =>
  (hp _ a rest h).trans (size_suffix (skipWs_suffix cs))

theorem skipWs_cons_size {cs rest : Text} {c : Char} (h : skipWs cs = c :: rest) :
    size rest ≤ size cs :=
  size_suffix ((List.suffix_cons c rest).trans (h ▸ skipWs_suffix cs))

section
variable {α : Type} {w : α → Nat} {p : Parser α}

theorem sepBy_within (hp : Within w p) (close : Char) (n : Nat) :
    Within (fun as => (as.map w).sum) (sepBy p close n) := by
  induction n with
  | zero => exact fun cs as rest h => by cases h
  | succ n ih =>
      intro cs as rest h
      rw [sepBy] at h
      split at h
      · cases h
      · rename_i a rest₁ ha
        have hfirst := hp cs a rest₁ ha
        split at h
        · cases h
        · rename_i c rest₂ hws
          have hrest := skipWs_cons_size hws
          split at h
          · cases h
            simp only [List.map_cons, List.map_nil, List.sum_cons, List.sum_nil]
            omega
          · split at h
            · obtain ⟨⟨as', r⟩, hmore, heq⟩ := Option.map_eq_some_iff.mp h
              cases heq
              have hlater : (as'.map w).sum + size rest ≤ size rest₂ := ih rest₂ as' rest hmore
              simp only [List.map_cons, List.sum_cons]
              omega
            · cases h

theorem bracketed_within (hp : Within w p) (close : Char) :
    Within (fun as => (as.map w).sum) (bracketed p close) := by
  intro cs as rest h
  rw [bracketed] at h
  split at h
  · cases h
  · rename_i c rest' hws
    split at h
    · cases h
      simpa using skipWs_cons_size hws
    · exact sepBy_within hp close _ cs as rest h

theorem member_within (hp : Within w p) : Within (fun m => w m.2) (member p) := by
  intro cs m rest h
  rw [member] at h
  split at h
  · cases h
  · rename_i k rest₁ hkey
    have hfirst := readString_within.skipWs cs k rest₁ hkey
    split at h
    · cases h
    · rename_i c rest₂ hws
      have hrest := skipWs_cons_size hws
      split at h
      · obtain ⟨⟨v, r⟩, hv, heq⟩ := Option.map_eq_some_iff.mp h
        cases heq
        have := hp rest₂ v rest hv
        dsimp only
        omega
      · cases h

end

theorem spanDigits_suffix (cs : Text) : (spanDigits cs).2 <:+ cs := by
  rw [spanDigits, List.span_eq_takeWhile_dropWhile]
  exact List.dropWhile_suffix _

theorem readInt_suffix {cs rest : Text} (h : readInt cs = some rest) : rest <:+ cs := by
  unfold readInt at h
  split at h
  · cases h
    exact List.suffix_cons ..
  · split at h
    · cases h
    · cases h
      exact spanDigits_suffix cs

theorem readFraction_suffix {cs rest : Text} (h : readFraction cs = some rest) : rest <:+ cs := by
  unfold readFraction at h
  split at h
  · split at h
    · cases h
    · cases h
      exact (spanDigits_suffix _).trans (List.suffix_cons ..)
  · cases h
    exact List.suffix_refl _

theorem readExponent_suffix {cs rest : Text} (h : readExponent cs = some rest) : rest <:+ cs := by
  unfold readExponent at h
  split at h
  · rename_i e tail
    split at h
    · have hdigits : (if tail.head? = some '+' ∨ tail.head? = some '-' then tail.tail else tail) <:+
          e :: tail := by
        split
        · exact (List.tail_suffix tail).trans (List.suffix_cons ..)
        · exact List.suffix_cons ..
      dsimp only at h
      generalize
        (if tail.head? = some '+' ∨ tail.head? = some '-' then tail.tail else tail) = digits
        at h hdigits
      split at h
      · cases h
      · cases h
        exact (spanDigits_suffix digits).trans hdigits
    · cases h
      exact List.suffix_refl _
  · cases h
    exact List.suffix_refl _

theorem readNumber_within : Within (fun _ => 0) readNumber := by
  intro cs n rest h
  have htail : (if cs.head? = some '-' then cs.tail else cs) <:+ cs := by
    split
    · exact List.tail_suffix cs
    · exact List.suffix_refl cs
  rw [readNumber] at h
  split at h
  · rename_i rest' hrest
    cases h
    obtain ⟨r₁, hint, h₁⟩ := Option.bind_eq_some_iff.mp hrest
    obtain ⟨r₂, hfraction, hexponent⟩ := Option.bind_eq_some_iff.mp h₁
    have hall := ((readExponent_suffix hexponent).trans (readFraction_suffix hfraction)).trans
      ((readInt_suffix hint).trans htail)
    simpa using size_suffix hall
  · cases h

theorem literal_within {α : Type} (word : Text) (a : α) : Within (fun _ => 0) (literal word a) := by
  intro cs b rest h
  rw [literal] at h
  split at h
  · cases h
    simpa using size_suffix (List.drop_suffix word.length cs)
  · cases h

def Value.weight : Value → Nat
  | .str s => bodySize s
  | _ => 0

theorem scalar_within : Within Value.weight scalar := by
  intro cs v rest h
  have hlit {word : Text} {a : Value} (hw : a.weight = 0)
      (hread : literal word a cs = some (v, rest)) : v.weight + size rest ≤ size cs := by
    have := literal_within word a cs v rest hread
    rw [literal] at hread
    split at hread
    · cases hread
      omega
    · cases hread
  rw [scalar] at h
  split at h
  · rename_i s r hs
    cases h
    exact readString_within cs s _ hs
  · split at h
    · rename_i hnull
      cases h
      exact hlit rfl hnull
    · split at h
      · rename_i htrue
        cases h
        exact hlit rfl htrue
      · split at h
        · rename_i hfalse
          cases h
          exact hlit rfl hfalse
        · obtain ⟨⟨n, r⟩, hn, heq⟩ := Option.map_eq_some_iff.mp h
          cases heq
          exact readNumber_within cs n rest hn

theorem readValue_within (n : Nat) : Within Value.weight (readValue n) := by
  induction n with
  | zero => exact fun cs v rest h => by cases h
  | succ n ih =>
      intro cs v rest h
      rw [readValue] at h
      split at h
      · cases h
      · rename_i c rest' hws
        have hrest := skipWs_cons_size hws
        split at h
        · obtain ⟨⟨ms, r⟩, hms, heq⟩ := Option.map_eq_some_iff.mp h
          cases heq
          have := bracketed_within (member_within ih) '}' rest' ms rest hms
          simp only [Value.weight]
          omega
        · split at h
          · obtain ⟨⟨vs, r⟩, hvs, heq⟩ := Option.map_eq_some_iff.mp h
            cases heq
            have := bracketed_within ih ']' rest' vs rest hvs
            simp only [Value.weight]
            omega
          · exact (scalar_within _ v rest h).trans (hws ▸ size_suffix (skipWs_suffix cs))

theorem scalar_ne_obj {cs : Text} {ms : List (Utf16 × Value)} {rest : Text} :
    scalar cs ≠ some (.obj ms, rest) := by
  have hlit {word : Text} {a : Value} (ha : ∀ ms, a ≠ .obj ms) :
      literal word a cs ≠ some (.obj ms, rest) := by
    rw [literal]
    split
    · intro h
      cases h
      exact ha _ rfl
    · exact fun h => by cases h
  intro h
  rw [scalar] at h
  split at h
  · cases h
  · split at h
    · rename_i hnull
      exact hlit (fun _ h => by cases h) (hnull.trans h)
    · split at h
      · rename_i htrue
        exact hlit (fun _ h => by cases h) (htrue.trans h)
      · split at h
        · rename_i hfalse
          exact hlit (fun _ h => by cases h) (hfalse.trans h)
        · obtain ⟨⟨n, r⟩, -, heq⟩ := Option.map_eq_some_iff.mp h
          cases heq

theorem parse_members_size {cs : Text} {ms : List (Utf16 × Value)} (h : parse cs = some (.obj ms)) :
    (ms.map fun m => m.2.weight).sum ≤ size cs := by
  rw [parse] at h
  split at h
  · rename_i v rest hread
    split at h
    · cases h
      rw [readValue] at hread
      split at hread
      · cases hread
      · rename_i c rest' hws
        have hrest := skipWs_cons_size hws
        split at hread
        · obtain ⟨⟨ms', r⟩, hms, heq⟩ := Option.map_eq_some_iff.mp hread
          cases heq
          have hall : (ms.map fun m => m.2.weight).sum + size rest ≤ size rest' :=
            bracketed_within (member_within (readValue_within _)) '}' rest' ms rest hms
          omega
        · split at hread
          · obtain ⟨⟨vs, r⟩, -, heq⟩ := Option.map_eq_some_iff.mp hread
            cases heq
          · exact absurd hread scalar_ne_obj
    · cases h
  · cases h

theorem parse_string_size {cs : Text} {ms : List (Utf16 × Value)} (h : parse cs = some (.obj ms))
    {key : Text} {s : Utf16} (hget : Value.get key (.obj ms) = some (.str s)) :
    bodySize s ≤ size cs := by
  obtain ⟨m, hm, hs⟩ := Option.map_eq_some_iff.mp hget
  have hmem : m ∈ ms := List.mem_reverse.mp (List.mem_of_find?_eq_some hm)
  have hle : m.2.weight ≤ (ms.map fun m => m.2.weight).sum :=
    List.le_sum_of_mem (List.mem_map_of_mem (f := fun m : Utf16 × Value => m.2.weight) hmem)
  rw [hs] at hle
  exact hle.trans (parse_members_size h)

end Json
