import TileScript.Proofs.Inert

/-! # Joining and splitting

Texts that close the quotes and brackets they open can be joined by separators that they do not have
at their own top level. Splitting the joined text yields the same texts again, whatever blanks stand
around them.
-/

namespace TileScript

open Text Nesting

namespace Text

/-- The texts that close, in order, all quotes and brackets they open, and have none of the
separators outside of these. -/
inductive Closed : List Char → List Char → Prop where

  | nil {seps : List Char} : Closed seps []

  | plain {seps t : List Char} {c : Char} : isFlat c = true → c ∉ seps → Closed seps t →
      Closed seps (c :: t)

  | quoted {seps q t : List Char} : '"' ∉ q → Closed seps t → Closed seps ('"' :: q ++ '"' :: t)

  | bracketed {seps b t : List Char} {o c : Char} : o ∈ ['(', '['] → c ∈ [')', ']'] →
      Closed [] b → Closed seps t → Closed seps (o :: b ++ c :: t)

/-- What can be joined by separators. -/
structure Fragment (seps f : List Char) : Prop where
  nonempty : f ≠ []
  trimmed : trim f = f
  closed : Closed seps f

/-- `t` consists of texts with separators between them, and any blanks around each text. -/
inductive Joined (seps : List Char) : List (List Char) → List Char → Prop where

  | last {l f r : List Char} : l.all isBlank → r.all isBlank → Joined seps [f] (l ++ f ++ r)

  | join {l f r t : List Char} {c : Char} {fs : List (List Char)} : l.all isBlank →
      r.all isBlank → c ∈ seps → Joined seps fs t → Joined seps (f :: fs) (l ++ f ++ r ++ c :: t)

/-- Whether a text is cut at a character when it is split by separators. -/
def cutsAt (seps : List Char) (n : Nesting) (c : Char) : Bool := n.isTop c && seps.contains c

theorem not_cutsAt_of_not_mem {seps : List Char} {c : Char} (n : Nesting) (h : c ∉ seps) :
    cutsAt seps n c = false := by
  simp [cutsAt, h]

theorem not_cutsAt_of_ne {seps : List Char} {n : Nesting} (c : Char) (h : n ≠ {}) :
    cutsAt seps n c = false := by
  rw [cutsAt, Bool.and_eq_false_iff]
  left
  rw [Bool.eq_false_iff, ne_eq, isTop_iff]
  exact fun ht => h ht.2

theorem cutsAt_of_mem {seps : List Char} {c : Char} (h : c ∈ seps) (hc : isFlat c = true) :
    cutsAt seps {} c = true := by
  simp only [isFlat, Bool.and_eq_true, bne_iff_ne] at hc
  simp [cutsAt, Nesting.isTop, h, hc]

namespace Closed

variable {seps t u : List Char}

theorem append (ht : Closed seps t) (hu : Closed seps u) : Closed seps (t ++ u) := by
  induction ht with
  | nil => exact hu
  | plain hc hs _ ih => exact .plain hc hs (ih hu)
  | quoted hq _ ih =>
    rw [List.append_assoc]
    exact .quoted hq (ih hu)
  | bracketed ho hc hb _ _ ih =>
    rw [List.append_assoc]
    exact .bracketed ho hc hb (ih hu)

theorem of_isFlat (h : t.all fun c => isFlat c && !seps.contains c) : Closed seps t := by
  induction t with
  | nil => exact .nil
  | cons c t ih =>
    rw [List.all_cons, Bool.and_eq_true] at h
    obtain ⟨hc, hs⟩ : isFlat c = true ∧ c ∉ seps := by simpa using h.1
    exact .plain hc hs (ih h.2)

section Brackets

variable {o c : Char} (d : Int)

theorem step_open (h : o ∈ ['(', '[']) : Nesting.step ⟨d, false⟩ o = ⟨d + 1, false⟩ := by
  rcases List.mem_pair.1 h with rfl | rfl <;> rfl

theorem step_close (h : c ∈ [')', ']']) : Nesting.step ⟨d + 1, false⟩ c = ⟨d, false⟩ := by
  rcases List.mem_pair.1 h with rfl | rfl <;> simp [Nesting.step]

end Brackets

/-- Behind such a text the nesting is as before it, at every depth. -/
theorem foldl_step (h : Closed seps t) (d : Int) :
    t.foldl Nesting.step ⟨d, false⟩ = ⟨d, false⟩ := by
  induction h generalizing d with
  | nil => rfl
  | plain hc _ _ ih => rw [List.foldl_cons, step_of_isFlat hc, ih]
  | quoted hq _ ih =>
    rw [List.cons_append, List.foldl_cons, List.foldl_append, List.foldl_cons]
    rw [show Nesting.step ⟨d, false⟩ '"' = ⟨d, true⟩ from rfl, foldl_of_quoted hq]
    exact ih d
  | bracketed ho hc _ _ ihb ih =>
    rw [List.cons_append, List.foldl_cons, List.foldl_append, List.foldl_cons, step_open d ho,
      ihb, step_close d hc, ih]

/-- Nothing is cut inside quotes. -/
theorem uncut_of_unquoted {q : List Char} (hq : '"' ∉ q) (d : Int) :
    Uncut (cutsAt seps) Nesting.step ⟨d, true⟩ q := by
  induction q with
  | nil => trivial
  | cons c q ih =>
    obtain ⟨hc, hq⟩ : c ≠ '"' ∧ '"' ∉ q := by simpa [eq_comm] using hq
    refine ⟨not_cutsAt_of_ne c (by simp), ?_⟩
    rw [show Nesting.step ⟨d, true⟩ c = ⟨d, true⟩ by simp [Nesting.step, hc]]
    exact ih hq

/-- Such a text is not cut by its own separators, and inside brackets by no separators at all. -/
theorem uncut (h : Closed seps t) {cuts : List Char} (hcuts : cuts.all isFlat)
    {d : Int} (hd : 0 ≤ d) (hs : d = 0 → cuts = seps) :
    Uncut (cutsAt cuts) Nesting.step ⟨d, false⟩ t := by
  have hmark {n : Nesting} {c : Char} (hc : isFlat c = false) : cutsAt cuts n c = false := by
    refine not_cutsAt_of_not_mem n fun hm => ?_
    simp [List.all_eq_true.1 hcuts c hm] at hc
  induction h generalizing d with
  | nil => trivial
  | @plain seps t c hc hn _ ih =>
    refine ⟨?_, ?_⟩
    · by_cases h₀ : d = 0
      · exact not_cutsAt_of_not_mem _ (hs h₀ ▸ hn)
      · exact not_cutsAt_of_ne c (by simp [h₀])
    · rw [step_of_isFlat hc]
      exact ih hd hs
  | quoted hq _ ih =>
    rw [List.cons_append, uncut_cons, uncut_append, uncut_cons,
      show Nesting.step ⟨d, false⟩ '"' = ⟨d, true⟩ from rfl, foldl_of_quoted hq]
    exact ⟨hmark rfl, uncut_of_unquoted hq d, hmark rfl, ih hd hs⟩
  | bracketed ho hc hb _ ihb ih =>
    rw [List.cons_append, uncut_cons, uncut_append, uncut_cons, step_open d ho, hb.foldl_step,
      step_close d hc]
    refine ⟨hmark ?_, ihb (by omega) (by omega), hmark ?_, ih hd hs⟩
    · rcases List.mem_pair.1 ho with rfl | rfl <;> rfl
    · rcases List.mem_pair.1 hc with rfl | rfl <;> rfl

theorem uncut_top (h : Closed seps t) (hs : seps.all isFlat) :
    Uncut (cutsAt seps) Nesting.step {} t :=
  h.uncut hs (Int.le_refl 0) fun _ => rfl

end Closed

section Joined

variable {seps : List Char} {f t l r : List Char} {fs : List (List Char)}

/-- A text stays closed with blanks around it. -/
theorem Fragment.closed_pad (h : Fragment seps f) (hb : seps.all (!isBlank ·))
    (hl : l.all isBlank) (hr : r.all isBlank) : Closed seps (l ++ f ++ r) := by
  have hpad {p : List Char} (hp : p.all isBlank) : Closed seps p := by
    refine .of_isFlat (List.all_eq_true.2 fun c hc => ?_)
    have hcb : isBlank c = true := List.all_eq_true.1 hp c hc
    have hm : c ∉ seps := fun hm => by
      simpa [hcb] using List.all_eq_true.1 hb c hm
    simp [isFlat_of_isBlank hcb, hm]
  exact ((hpad hl).append h.closed).append (hpad hr)

/-- The pieces of a joined text are the texts that were joined, apart from blanks. -/
theorem Joined.splitWhere (h : Joined seps fs t) (hfs : ∀ f ∈ fs, Fragment seps f)
    (hflat : seps.all isFlat) (hblank : seps.all (!isBlank ·)) :
    (splitWhere (cutsAt seps) Nesting.step {} t).map trim = fs := by
  induction h with
  | @last l f r hl hr =>
    have hf : Fragment seps f := hfs f (List.mem_singleton_self f)
    rw [splitWhere_uncut ((hf.closed_pad hblank hl hr).uncut_top hflat), List.map_singleton,
      trim_pad hl hr hf.trimmed]
  | @join l f r t c fs hl hr hc _ ih =>
    have hf : Fragment seps f := hfs f List.mem_cons_self
    have hcl := hf.closed_pad hblank hl hr
    have hback : (l ++ f ++ r).foldl Nesting.step {} = {} := hcl.foldl_step 0
    have hfc : isFlat c = true := List.all_eq_true.1 hflat c hc
    have hcut : cutsAt seps ((l ++ f ++ r).foldl Nesting.step {}) c = true := by
      rw [hback]
      exact cutsAt_of_mem hc hfc
    rw [splitWhere_cut hcut, splitWhere_uncut (hcl.uncut_top hflat), hback,
      step_of_isFlat hfc, List.singleton_append, List.map_cons,
      trim_pad hl hr hf.trimmed, ih fun g hg => hfs g (List.mem_cons_of_mem f hg)]

theorem trimEnd_append_of_ne_nil {x y : List Char} (h : trimEnd y ≠ []) :
    trimEnd (x ++ y) = x ++ trimEnd y := by
  obtain ⟨b, hb, hy⟩ := exists_trimEnd y
  have hlast : trimEnd (x ++ trimEnd y) = x ++ trimEnd y := by
    refine trimEnd_of_getLast? fun c hc => ?_
    rw [List.getLast?_append_of_ne_nil _ h] at hc
    exact isBlank_of_getLast?_trimEnd hc
  conv_lhs => rw [hy, ← List.append_assoc]
  rw [trimEnd_append _ hb, hlast]

theorem Fragment.trimEnd_pad (h : Fragment seps f) (hr : r.all isBlank) :
    trimEnd (l ++ f ++ r) = l ++ f := by
  rw [trimEnd_append _ hr]
  refine trimEnd_of_getLast? fun c hc => ?_
  rw [List.getLast?_append_of_ne_nil _ h.nonempty] at hc
  exact isBlank_of_getLast?_trim (h.trimmed.symm ▸ hc)

theorem Joined.trimEnd (h : Joined seps fs t) (hfs : ∀ f ∈ fs, Fragment seps f) :
    Joined seps fs (trimEnd t) ∧ trimEnd t ≠ [] := by
  induction h with
  | @last l f r hl hr =>
    have hf : Fragment seps f := hfs f (List.mem_singleton_self f)
    rw [hf.trimEnd_pad hr]
    refine ⟨?_, by simp [hf.nonempty]⟩
    have hj : Joined seps [f] (l ++ f ++ []) := .last hl rfl
    simpa using hj
  | @join l f r t c fs hl hr hc _ ih =>
    obtain ⟨hj, hne⟩ := ih fun g hg => hfs g (List.mem_cons_of_mem f hg)
    have hct : Text.trimEnd (c :: t) = c :: Text.trimEnd t :=
      trimEnd_append_of_ne_nil (x := [c]) hne
    rw [trimEnd_append_of_ne_nil (by simp [hct]), hct]
    exact ⟨.join hl hr hc hj, by simp⟩

/-- The blanks at both ends of a joined text do not count. -/
theorem Joined.trim (h : Joined seps fs t) (hfs : ∀ f ∈ fs, Fragment seps f) :
    Joined seps fs (trim t) ∧ trim t ≠ [] := by
  have hstart {l f u : List Char} (hf : Fragment seps f) (hl : l.all isBlank) :
      trimStart (l ++ f ++ u) = f ++ u := by
    rw [List.append_assoc, trimStart_append hl]
    refine trimStart_of_head? fun c hc => ?_
    rw [List.head?_append_of_ne_nil _ hf.nonempty] at hc
    exact isBlank_of_head?_trim (hf.trimmed.symm ▸ hc)
  have hj : Joined seps fs (trimStart t) := by
    cases h with
    | last hl hr =>
      rw [hstart (hfs _ (List.mem_singleton_self _)) hl]
      exact .last (l := []) rfl hr
    | @join l f r t c fs hl hr hc hj =>
      rw [List.append_assoc _ r, hstart (hfs _ List.mem_cons_self) hl, ← List.append_assoc]
      exact .join (l := []) rfl hr hc hj
  exact hj.trimEnd hfs

theorem joined_intercalate {c : Char} (hc : c ∈ seps) (hfs : fs ≠ []) :
    Joined seps fs ([c].intercalate fs) := by
  induction fs with
  | nil => exact absurd rfl hfs
  | cons f fs ih =>
    cases fs with
    | nil =>
      have hj : Joined seps [f] ([] ++ f ++ []) := .last rfl rfl
      simpa using hj
    | cons g fs =>
      have hj := Joined.join (l := []) (f := f) (r := []) rfl rfl hc (ih (List.cons_ne_nil g fs))
      simpa [List.intercalate] using hj

end Joined

end Text

open Chain

theorem Chain.cutsChain_eq : cutsChain = cutsAt ['.', ':'] := by
  funext n c
  simp [cutsChain, cutsAt, isSeparator, beq_eq_decide]

theorem Chain.cutsParams_eq : cutsParams = cutsAt [','] := by
  funext n c
  simp [cutsParams, cutsAt, beq_eq_decide]

theorem Segment.ofFragment_of_trimmed {f : List Char} (h : trim f = f) :
    ofFragment f = if '(' ∈ f ∧ f.head? ≠ some '"' then .call f else .accessor f := by
  unfold ofFragment
  simp only [h, Bool.and_eq_true, bne_iff_ne, List.contains_iff_mem]
  exact if_congr and_comm rfl rfl

/-- Joined by dots and colons, texts are taken apart as the segments of a chain; joined by commas,
as parameters. -/
theorem split_joined :
    (∀ {fs : List (List Char)} {t : List Char}, Joined ['.', ':'] fs t →
      (∀ f ∈ fs, Fragment ['.', ':'] f) → segments t =
        fs.map fun f => if '(' ∈ f ∧ f.head? ≠ some '"' then .call f else .accessor f) ∧
    (∀ {fs : List (List Char)} {t : List Char}, Joined [','] fs t →
      (∀ f ∈ fs, Fragment [','] f) → splitParams t = fs) ∧
    ∀ {fs : List (List Char)}, (∀ f ∈ fs, Fragment [','] f) →
      splitParams ([','].intercalate fs) = fs := by
  have hparams {fs : List (List Char)} {t : List Char} (h : Joined [','] fs t)
      (hfs : ∀ f ∈ fs, Fragment [','] f) : splitParams t = fs := by
    rw [splitParams, cutsParams_eq, h.splitWhere hfs rfl rfl, List.filter_eq_self]
    intro f hf
    simpa using (hfs f hf).nonempty
  refine ⟨fun {fs t} h hfs => ?_, hparams, fun {fs} hfs => ?_⟩
  · obtain ⟨hj, hne⟩ := h.trim hfs
    have hs : (fragments (trim t)).map trim = fs := by
      rw [fragments, cutsChain_eq, hj.splitWhere hfs rfl rfl]
    have hof : Segment.ofFragment = Segment.ofFragment ∘ trim := by
      funext f
      simp [Segment.ofFragment]
    rw [segments]
    simp only [List.isEmpty_iff, hne, if_false]
    rw [hof, ← List.map_map, hs]
    exact List.map_congr_left fun f hf => Segment.ofFragment_of_trimmed (hfs f hf).trimmed
  · by_cases hne : fs = []
    · subst hne
      rfl
    · exact hparams (joined_intercalate (List.mem_singleton_self ',') hne) hfs

section Example

/-- A call with a quoted dot and an open parenthesis in its parameters. -/
def openText : List Char := "open(1, \"a.b(\")".toList

theorem fragment_openText : Fragment ['.', ':'] openText := by
  refine ⟨by decide, by decide, ?_⟩
  have hname : Closed ['.', ':'] "open".toList := .of_isFlat (by decide)
  have hone : Closed [] "1, ".toList := .of_isFlat (by decide)
  have hquoted : Closed [] "\"a.b(\"".toList := .quoted (q := "a.b(".toList) (by decide) .nil
  exact hname.append (.bracketed (o := '(') (c := ')') (by decide) (by decide)
    (hone.append hquoted) .nil)

theorem fragment_reference : Fragment ['.', ':'] "$Entity[2]".toList := by
  refine ⟨by decide, by decide, ?_⟩
  have hname : Closed ['.', ':'] "$Entity".toList := .of_isFlat (by decide)
  exact hname.append (.bracketed (o := '[') (c := ']') (b := ['2']) (by decide) (by decide)
    (.of_isFlat (by decide)) .nil)

/-- A chain of three segments, with blanks around its separators. -/
theorem split_joined_blanks :
    segments " $Entity[2] .open(1, \"a.b(\"): x".toList =
      [.accessor "$Entity[2]".toList, .call openText, .accessor ['x']] ∧
    splitParams "x,y".toList = [['x'], ['y']] := by
  have hx : Fragment ['.', ':'] ['x'] := ⟨by decide, by decide, .of_isFlat (by decide)⟩
  have hj : Joined ['.', ':'] ["$Entity[2]".toList, openText, ['x']]
      " $Entity[2] .open(1, \"a.b(\"): x".toList :=
    .join (l := [' ']) (r := [' ']) (c := '.') (by decide) (by decide) (by decide)
      (.join (l := []) (r := []) (c := ':') (by decide) (by decide) (by decide)
        (.last (l := [' ']) (r := []) (by decide) (by decide)))
  have hs := split_joined.1 hj (List.forall_mem_cons.2 ⟨fragment_reference,
    List.forall_mem_cons.2 ⟨fragment_openText, List.forall_mem_singleton.2 hx⟩⟩)
  have hy : ∀ f ∈ [['x'], ['y']], Fragment [','] f := by
    intro f hf
    rcases List.mem_pair.1 hf with rfl | rfl <;>
      exact ⟨by decide, by decide, .of_isFlat (by decide)⟩
  exact ⟨hs, split_joined.2.2 hy⟩

end Example

end TileScript
