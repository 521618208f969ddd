import Mathlib.Data.List.DropRight
import Mathlib.Data.List.TakeWhile
import TileScript.Chain.Nesting
import TileScript.Text.Blank

/-! # Pieces in their places

A text that is cut leaves pieces, and each piece stands somewhere in the text. `Piece` says where,
`locate` keeps what stands before each piece, and `Piece.replace` puts another text in the place of
a piece without disturbing the others.
-/

namespace TileScript.Text

section Blanks

variable {l core t cs : List Char}

theorem trimEnd_eq_rdropWhile (cs : List Char) : trimEnd cs = cs.rdropWhile isBlank := rfl

theorem trimEnd_append (cs : List Char) (ht : t.all isBlank) : trimEnd (cs ++ t) = trimEnd cs := by
  unfold trimEnd
  rw [List.reverse_append, List.dropWhile_append_of_pos (by simpa using ht)]

theorem trimEnd_of_getLast? (h : ∀ c, cs.getLast? = some c → isBlank c = false) :
    trimEnd cs = cs := by
  rw [trimEnd_eq_rdropWhile, List.rdropWhile_eq_self_iff]
  intro hl
  simp [h _ (List.getLast?_eq_some_getLast hl)]

theorem isBlank_of_getLast?_trimEnd {c : Char} (h : (trimEnd cs).getLast? = some c) :
    isBlank c = false := by
  have hl : cs.rdropWhile isBlank ≠ [] := by
    intro hn
    rw [trimEnd_eq_rdropWhile, hn] at h
    cases h
  have := List.rdropWhile_last_not isBlank cs hl
  rw [trimEnd_eq_rdropWhile, List.getLast?_eq_some_getLast hl] at h
  cases h
  simpa using this

theorem exists_trimEnd (cs : List Char) : ∃ t : List Char, t.all isBlank ∧ cs = trimEnd cs ++ t :=
  ⟨cs.rtakeWhile isBlank, by simpa using fun c => List.mem_rtakeWhile_imp,
    (List.rdropWhile_append_rtakeWhile ..).symm⟩

/-- A text is what trimming leaves between blanks. -/
theorem exists_trim (cs : List Char) :
    ∃ t : List Char, t.all isBlank ∧ cs = cs.takeWhile isBlank ++ trim cs ++ t := by
  obtain ⟨t, ht, h⟩ := exists_trimEnd (trimStart cs)
  refine ⟨t, ht, ?_⟩
  rw [List.append_assoc, trim, ← h, trimStart, List.takeWhile_append_dropWhile]

theorem isBlank_of_head?_trimStart {c : Char} (h : (trimStart cs).head? = some c) :
    isBlank c = false := by
  have hn := List.head?_dropWhile_not isBlank cs
  unfold trimStart at h
  rw [h] at hn
  simpa using hn

theorem trimStart_of_head? (h : ∀ c, cs.head? = some c → isBlank c = false) :
    trimStart cs = cs := by
  cases cs with
  | nil => rfl
  | cons c cs => simp [trimStart, h c rfl]

theorem isBlank_of_head?_trim {c : Char} (h : (trim cs).head? = some c) : isBlank c = false := by
  obtain ⟨t, -, ht⟩ := exists_trimEnd (trimStart cs)
  have hs : (trimStart cs).head? = some c := by
    rw [ht, List.head?_append, show (trimEnd (trimStart cs)).head? = some c from h]
    rfl
  exact isBlank_of_head?_trimStart hs

theorem isBlank_of_getLast?_trim {c : Char} (h : (trim cs).getLast? = some c) :
    isBlank c = false := isBlank_of_getLast?_trimEnd h

theorem trim_of_ends (hh : ∀ c, cs.head? = some c → isBlank c = false)
    (hl : ∀ c, cs.getLast? = some c → isBlank c = false) : trim cs = cs := by
  rw [trim, trimStart_of_head? hh, trimEnd_of_getLast? hl]

@[simp] theorem trim_trim (cs : List Char) : trim (trim cs) = trim cs :=
  trim_of_ends (fun _ => isBlank_of_head?_trim) fun _ => isBlank_of_getLast?_trim

/-- Trimming takes exactly the blanks around a trimmed text. -/
theorem trim_pad (hl : l.all isBlank) (ht : t.all isBlank) (hc : trim core = core) :
    trim (l ++ core ++ t) = core := by
  have hl : ∀ c ∈ l, isBlank c = true := by simpa using hl
  rw [List.append_assoc, trim, trimStart, List.dropWhile_append_of_pos hl]
  cases core with
  | nil =>
    rw [List.nil_append, List.dropWhile_eq_nil_iff.2 (by simpa using ht)]
    rfl
  | cons c cs =>
    have hn : isBlank c = false := isBlank_of_head?_trim (by rw [hc]; rfl)
    rw [List.cons_append, List.dropWhile_cons_of_neg (by simp [hn]), ← List.cons_append,
      trimEnd_append _ ht]
    exact trimEnd_of_getLast? fun d hd => isBlank_of_getLast?_trim (by rw [hc]; exact hd)

/-- Blanks at the end do not matter. -/
theorem trim_append (cs : List Char) (ht : t.all isBlank) : trim (cs ++ t) = trim cs := by
  obtain ⟨u, hu, hcs⟩ := exists_trim cs
  have hut : (u ++ t).all isBlank := by simpa [hu] using ht
  conv_lhs => rw [hcs, List.append_assoc]
  exact trim_pad (by simp) hut (trim_trim cs)

theorem trim_around {b q a : List Char} (hq : q ≠ []) (ht : trim q = q) :
    trim (b ++ q ++ a) = trimStart b ++ q ++ trimEnd a := by
  obtain ⟨t, htb, ha⟩ := exists_trimEnd a
  have hb : b = b.takeWhile isBlank ++ trimStart b := (List.takeWhile_append_dropWhile ..).symm
  have hc : trim (trimStart b ++ q ++ trimEnd a) = trimStart b ++ q ++ trimEnd a := by
    apply trim_of_ends
    · intro c hc
      cases hs : trimStart b with
      | nil =>
        rw [hs, List.nil_append, List.head?_append_of_ne_nil _ hq, ← ht] at hc
        exact isBlank_of_head?_trim hc
      | cons d ds =>
        have hh : (trimStart b).head? = some c := by simpa [hs] using hc
        exact isBlank_of_head?_trimStart hh
    · intro c hc
      cases hs : trimEnd a with
      | nil =>
        rw [hs, List.append_nil, List.getLast?_append_of_ne_nil _ hq, ← ht] at hc
        exact isBlank_of_getLast?_trim hc
      | cons d ds =>
        have hl : (trimEnd a).getLast? = some c := by
          rw [← hc, List.getLast?_append_of_ne_nil _ (by simp [hs])]
        exact isBlank_of_getLast?_trimEnd hl
  calc trim (b ++ q ++ a)
      = trim (b.takeWhile isBlank ++ (trimStart b ++ q ++ trimEnd a) ++ t) := by
        conv_lhs => rw [hb, ha]
        simp only [List.append_assoc]
    _ = trimStart b ++ q ++ trimEnd a := trim_pad (by simp) htb hc

theorem trimStart_append {l : List Char} (hl : l.all isBlank) (cs : List Char) :
    trimStart (l ++ cs) = trimStart cs := by
  rw [trimStart, List.dropWhile_append_of_pos (by simpa using hl), trimStart]

theorem trimStart_eq_nil {b : List Char} : trimStart b = [] ↔ b.all isBlank := by
  rw [trimStart, List.dropWhile_eq_nil_iff, List.all_eq_true]

/-- A trimmed text inside a trimmed text can be replaced by another one. -/
theorem trim_replace {b r q a : List Char} (h : trim (b ++ r ++ a) = b ++ r ++ a) (hr : r ≠ [])
    (htr : trim r = r) (hq : q ≠ []) (htq : trim q = q) : trim (b ++ q ++ a) = b ++ q ++ a := by
  have hb : trimStart b <:+ b := List.dropWhile_suffix isBlank
  have ha : trimEnd a <+: a := by
    obtain ⟨t, -, ht⟩ := exists_trimEnd a
    exact ⟨t, ht.symm⟩
  have hlen := congrArg List.length h
  rw [trim_around hr htr] at hlen
  simp only [List.length_append] at hlen
  have h₁ := hb.length_le
  have h₂ := ha.length_le
  rw [trim_around hq htq, hb.eq_of_length (by omega), ha.eq_of_length (by omega)]

end Blanks

section Split

variable {σ : Type} {cut : σ → Char → Bool} {next : σ → Char → σ} {s : σ}

/-- A text that a scan from `s` on cuts nowhere. -/
def Uncut (cut : σ → Char → Bool) (next : σ → Char → σ) : σ → List Char → Prop
  | _, [] => True
  | s, c :: cs => cut s c = false ∧ Uncut cut next (next s c) cs

@[simp] theorem uncut_nil : Uncut cut next s [] := trivial

@[simp] theorem uncut_cons {c : Char} {cs : List Char} :
    Uncut cut next s (c :: cs) ↔ cut s c = false ∧ Uncut cut next (next s c) cs := Iff.rfl

@[simp] theorem uncut_append {p q : List Char} :
    Uncut cut next s (p ++ q) ↔ Uncut cut next s p ∧ Uncut cut next (p.foldl next s) q := by
  induction p generalizing s with
  | nil => simp
  | cons c p ih => simp [ih, and_assoc]

theorem splitWhere_of_uncut {p : List Char} (h : Uncut cut next s p) (y : List Char) :
    splitWhere cut next s (p ++ y) =
      (splitWhere cut next (p.foldl next s) y).modifyHead (p ++ ·) := by
  induction p generalizing s with
  | nil => cases h : splitWhere cut next s y <;> simp [h]
  | cons c p ih =>
    obtain ⟨P, Ps, hP⟩ := List.exists_cons_of_ne_nil
      (splitWhere_ne_nil cut next (p.foldl next (next s c)) y)
    simp [splitWhere, h.1, ih h.2, hP]

theorem splitWhere_uncut {p : List Char} (h : Uncut cut next s p) :
    splitWhere cut next s p = [p] := by
  have := splitWhere_of_uncut h []
  simpa [splitWhere] using this

theorem splitWhere_cut {x : List Char} {c : Char} (hc : cut (x.foldl next s) c = true)
    (y : List Char) :
    splitWhere cut next s (x ++ c :: y) =
      splitWhere cut next s x ++ splitWhere cut next (next (x.foldl next s) c) y := by
  induction x generalizing s with
  | nil =>
    have hc : cut s c = true := hc
    simp [splitWhere, hc]
  | cons d x ih =>
    obtain ⟨P, Ps, hP⟩ := List.exists_cons_of_ne_nil (splitWhere_ne_nil cut next (next s d) x)
    simp only [List.cons_append, splitWhere, ih hc, hP]
    split <;> simp

/-- The first piece of a text ends at its first cut. -/
theorem of_splitWhere_eq_cons {cs p : List Char} {ps : List (List Char)}
    (h : splitWhere cut next s cs = p :: ps) :
    Uncut cut next s p ∧ ((cs = p ∧ ps = []) ∨ ∃ c y, cs = p ++ c :: y ∧
      cut (p.foldl next s) c = true ∧ ps = splitWhere cut next (next (p.foldl next s) c) y) := by
  induction cs generalizing s p with
  | nil =>
    obtain ⟨rfl, rfl⟩ := List.cons.inj h
    simp
  | cons d cs ih =>
    rw [splitWhere] at h
    split at h
    · next hd =>
      obtain ⟨rfl, rfl⟩ := List.cons.inj h
      exact ⟨trivial, Or.inr ⟨d, cs, rfl, hd, rfl⟩⟩
    · next hd =>
      obtain ⟨q, qs, hq⟩ := List.exists_cons_of_ne_nil (splitWhere_ne_nil cut next (next s d) cs)
      rw [hq] at h
      obtain ⟨rfl, rfl⟩ := List.cons.inj h
      obtain ⟨hu, hr⟩ := ih hq
      refine ⟨⟨by simpa using hd, hu⟩, ?_⟩
      rcases hr with ⟨rfl, rfl⟩ | ⟨c, y, rfl, hc, rfl⟩
      · exact Or.inl ⟨rfl, rfl⟩
      · exact Or.inr ⟨c, y, rfl, hc, rfl⟩

theorem uncut_of_length_lt {cs : List Char} (h : (splitWhere cut next s cs).length < 2) :
    Uncut cut next s cs := by
  obtain ⟨p, ps, hp⟩ := List.exists_cons_of_ne_nil (splitWhere_ne_nil cut next s cs)
  obtain ⟨hu, ⟨rfl, -⟩ | ⟨c, y, -, -, rfl⟩⟩ := of_splitWhere_eq_cons hp
  · exact hu
  · obtain ⟨q, qs, hq⟩ := List.exists_cons_of_ne_nil
      (splitWhere_ne_nil cut next (next (p.foldl next s) c) y)
    rw [hp, hq] at h
    exact absurd h (by simp)

/-- `p` is one of the pieces of `x ++ p ++ y`, cut from `s` on. -/
structure Piece (cut : σ → Char → Bool) (next : σ → Char → σ) (s : σ) (x p y : List Char) :
    Prop where
  uncut : Uncut cut next (x.foldl next s) p
  left : x = [] ∨ ∃ x' c, x = x' ++ [c] ∧ cut (x'.foldl next s) c = true
  right : y = [] ∨ ∃ c y', y = c :: y' ∧ cut ((x ++ p).foldl next s) c = true

theorem Piece.behind {r x p y : List Char} {c : Char} (hc : cut (r.foldl next s) c = true)
    (h : Piece cut next (next (r.foldl next s) c) x p y) : Piece cut next s (r ++ c :: x) p y where
  uncut := by simpa using h.uncut
  left := by
    rcases h.left with rfl | ⟨x, d, rfl, hd⟩
    · exact Or.inr ⟨r, c, rfl, hc⟩
    · exact Or.inr ⟨r ++ c :: x, d, by simp, by simpa using hd⟩
  right := by simpa using h.right

/-- What stands before a piece is cut by itself. -/
theorem Piece.splitWhere_left {x p y : List Char} (h : Piece cut next s x p y) :
    ∃ P, ∀ q, splitWhere cut next s (x ++ q) = P ++ splitWhere cut next (x.foldl next s) q := by
  rcases h.left with rfl | ⟨x, c, rfl, hc⟩
  · exact ⟨[], fun q => rfl⟩
  · refine ⟨splitWhere cut next s x, fun q => ?_⟩
    simpa using splitWhere_cut hc q

theorem Piece.splitWhere_right {x p y : List Char} (h : Piece cut next s x p y) :
    ∃ Q, splitWhere cut next ((x ++ p).foldl next s) y = [] :: Q := by
  rcases h.right with rfl | ⟨c, y, rfl, hc⟩
  · exact ⟨[], rfl⟩
  · exact ⟨_, by rw [splitWhere, if_pos hc]⟩

/-- Another uncut text in the place of a piece leaves the pieces around it alone, if what follows is
cut as before. -/
theorem Piece.replace {x p y : List Char} (h : Piece cut next s x p y) :
    ∃ P Q, splitWhere cut next s (x ++ p ++ y) = P ++ p :: Q ∧
      ∀ p', Uncut cut next (x.foldl next s) p' →
        splitWhere cut next ((x ++ p').foldl next s) y =
          splitWhere cut next ((x ++ p).foldl next s) y →
        splitWhere cut next s (x ++ p' ++ y) = P ++ p' :: Q := by
  obtain ⟨P, hP⟩ := h.splitWhere_left
  obtain ⟨Q, hQ⟩ := h.splitWhere_right
  have hr : ∀ p', Uncut cut next (x.foldl next s) p' →
      splitWhere cut next ((x ++ p').foldl next s) y =
        splitWhere cut next ((x ++ p).foldl next s) y →
      splitWhere cut next s (x ++ p' ++ y) = P ++ p' :: Q := by
    intro p' hu he
    rw [hQ, List.foldl_append] at he
    rw [List.append_assoc, hP, splitWhere_of_uncut hu, he]
    simp
  exact ⟨P, Q, hr p h.uncut rfl, hr⟩

section Map

variable {τ : Type} {cut' : τ → Char → Bool} {next' : τ → Char → τ} {h : σ → τ}

theorem foldl_map_state (hn : ∀ s c, h (next s c) = next' (h s) c) (s : σ) (cs : List Char) :
    h (cs.foldl next s) = cs.foldl next' (h s) := by
  induction cs generalizing s with
  | nil => rfl
  | cons c cs ih => rw [List.foldl_cons, List.foldl_cons, ih, hn]

variable (hc : ∀ s c, cut s c = cut' (h s) c) (hn : ∀ s c, h (next s c) = next' (h s) c)
include hc hn

/-- A scan that knows more cuts where one that knows less does. -/
theorem splitWhere_map (s : σ) (cs : List Char) :
    splitWhere cut next s cs = splitWhere cut' next' (h s) cs := by
  induction cs generalizing s with
  | nil => rfl
  | cons c cs ih => rw [splitWhere, splitWhere, ih, hn, hc]

theorem uncut_map {p : List Char} :
    Uncut cut next s p ↔ Uncut cut' next' (h s) p := by
  induction p generalizing s with
  | nil => simp
  | cons c p ih => rw [uncut_cons, uncut_cons, ih, hn, hc]

theorem Piece.map {x p y : List Char} (hp : Piece cut' next' (h s) x p y) :
    Piece cut next s x p y where
  uncut := by
    rw [uncut_map hc hn, foldl_map_state hn]
    exact hp.uncut
  left := by simpa only [hc, foldl_map_state hn] using hp.left
  right := by simpa only [hc, foldl_map_state hn] using hp.right

end Map

end Split

/-- A text and what stands before it. -/
structure Span where
  before : List Char
  text : List Char
  deriving DecidableEq, Repr

namespace Span

/-- A span without the blanks at its ends. -/
def trim (p : Span) : Span := ⟨p.before ++ p.text.takeWhile isBlank, Text.trim p.text⟩

@[simp] theorem text_trim (p : Span) : p.trim.text = Text.trim p.text := rfl

@[simp] theorem trim_trim (p : Span) : p.trim.trim = p.trim := by
  have hn : (Text.trim p.text).takeWhile isBlank = [] := by
    cases h : Text.trim p.text with
    | nil => rfl
    | cons c cs =>
      have hc : isBlank c = false := isBlank_of_head?_trim (by rw [h]; rfl)
      simp [hc]
  unfold trim
  simp [hn]

/-- A text at the end of a span. -/
def suffix (p : Span) (text : List Char) : Span :=
  ⟨p.before ++ p.text.take (p.text.length - text.length), text⟩

@[simp] theorem text_suffix (p : Span) (text : List Char) : (p.suffix text).text = text := rfl

theorem suffix_eq {before u text : List Char} :
    suffix ⟨before, u ++ text⟩ text = ⟨before ++ u, text⟩ := by
  simp [suffix]

/-- The spans of pieces that stand in a span one after the other, each cut off by one character. -/
def locate (p : Span) : List (List Char) → List Span
  | [] => []
  | q :: qs =>
    ⟨p.before, q⟩ ::
      locate ⟨p.before ++ p.text.take (q.length + 1), p.text.drop (q.length + 1)⟩ qs

theorem locate_cons (before q : List Char) (c : Char) (y : List Char) (qs : List (List Char)) :
    locate ⟨before, q ++ c :: y⟩ (q :: qs) =
      ⟨before, q⟩ :: locate ⟨before ++ (q ++ [c]), y⟩ qs := by
  have ht : (q ++ c :: y).take (q.length + 1) = q ++ [c] := by
    simp [List.take_append, List.take_of_length_le]
  have hd : (q ++ c :: y).drop (q.length + 1) = y := by simp [List.drop_append]
  simp only [locate, ht, hd]

@[simp] theorem map_text_locate (p : Span) (ps : List (List Char)) :
    (p.locate ps).map text = ps := by
  induction ps generalizing p with
  | nil => rfl
  | cons q qs ih => simp [locate, ih]

variable {σ : Type} {cut : σ → Char → Bool} {next : σ → Char → σ} {s : σ}

/-- The pieces of a span as spans. -/
def split (cut : σ → Char → Bool) (next : σ → Char → σ) (s : σ) (p : Span) : List Span :=
  p.locate (splitWhere cut next s p.text)

@[simp] theorem map_text_split (p : Span) :
    (p.split cut next s).map text = splitWhere cut next s p.text := map_text_locate ..

/-- A piece stands in its place, and the pieces around it are those of the text around it. -/
theorem piece_of_split_eq {p q : Span} {S T : List Span} (h : p.split cut next s = S ++ q :: T) :
    ∃ x y, p.text = x ++ q.text ++ y ∧ q.before = p.before ++ x ∧ Piece cut next s x q.text y ∧
      (∀ z, splitWhere cut next s (x ++ z) =
        S.map text ++ splitWhere cut next (x.foldl next s) z) ∧
      splitWhere cut next ((x ++ q.text).foldl next s) y = [] :: T.map text := by
  obtain ⟨before, cs⟩ := p
  unfold split at h
  generalize hps : splitWhere cut next s cs = ps at h
  induction S generalizing s before cs ps with
  | nil =>
    cases ps with
    | nil => cases h
    | cons r rs =>
      obtain ⟨hu, ⟨rfl, rfl⟩ | ⟨c, y, rfl, hc, rfl⟩⟩ := of_splitWhere_eq_cons hps
      · obtain ⟨rfl, rfl⟩ : ⟨before, cs⟩ = q ∧ [] = T := by simpa [locate] using h
        exact ⟨[], [], by simp, by simp, ⟨hu, Or.inl rfl, Or.inl rfl⟩, fun z => rfl, rfl⟩
      · rw [locate_cons] at h
        obtain ⟨rfl, rfl⟩ : ⟨before, r⟩ = q ∧ _ = T := by simpa using h
        refine ⟨[], c :: y, by simp, by simp, ⟨hu, Or.inl rfl, Or.inr ⟨c, y, rfl, hc⟩⟩,
          fun z => rfl, ?_⟩
        rw [map_text_locate, splitWhere]
        exact if_pos hc
  | cons q' S ih =>
    cases ps with
    | nil => cases h
    | cons r rs =>
      obtain ⟨hu, ⟨rfl, rfl⟩ | ⟨c, y, rfl, hc, rfl⟩⟩ := of_splitWhere_eq_cons hps
      · simp [locate] at h
      · rw [locate_cons] at h
        obtain ⟨rfl, hrest⟩ := List.cons.inj h
        obtain ⟨x, y', hx, hb, hp, hS, hT⟩ := ih _ _ _ rfl hrest
        dsimp only at hx hb ⊢
        refine ⟨r ++ c :: x, y', by simp [hx], by simp [hb], hp.behind hc, fun z => ?_, ?_⟩
        · rw [List.append_assoc, List.cons_append, splitWhere_cut hc, splitWhere_uncut hu, hS]
          simp
        · simpa using hT

theorem piece_of_mem_split {p q : Span} (h : q ∈ p.split cut next s) :
    ∃ x y, p.text = x ++ q.text ++ y ∧ q.before = p.before ++ x ∧
      Piece cut next s x q.text y := by
  obtain ⟨S, T, hST⟩ := List.append_of_mem h
  obtain ⟨x, y, hx, hb, hp, -, -⟩ := piece_of_split_eq hST
  exact ⟨x, y, hx, hb, hp⟩

end Span

end TileScript.Text
