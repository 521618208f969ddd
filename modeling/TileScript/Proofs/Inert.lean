import TileScript.Proofs.Hole
import TileScript.Proofs.Lines
import TileScript.Proofs.Literal

/-! # Inert texts

An inert text is cut nowhere, however deep it stands, and leaves the nesting as it was. In the place
of a call it does not disturb how the text around it is cut. Literals are inert, unless they have
quotes inside.
-/

namespace TileScript

open Text Chain

namespace Chain.OperandScan

variable {s t : OperandScan}

/-- Two scans that cut alike from here on. -/
def Agrees (s t : OperandScan) : Prop :=
  s.nesting = t.nesting ∧ s.expectsOperand = t.expectsOperand

theorem Agrees.step (h : Agrees s t) (c : Char) : Agrees (s.step c) (t.step c) := by
  refine ⟨by rw [nesting_step, nesting_step, h.1], ?_⟩
  cases hc : isBlank c
  · simp [expectsOperand, OperandScan.step, hc]
  · simpa [expectsOperand, OperandScan.step, hc] using h.2

theorem Agrees.foldl (h : Agrees s t) (cs : List Char) :
    Agrees (cs.foldl OperandScan.step s) (cs.foldl OperandScan.step t) := by
  induction cs generalizing s t with
  | nil => exact h
  | cons c cs ih => exact ih (h.step c)

theorem Agrees.cuts_eq (h : Agrees s t) (k : Cutter) (c : Char) : k.cuts s c = k.cuts t c := by
  rw [Cutter.cuts, Cutter.cuts, h.1, h.2]

theorem Agrees.uncut (h : Agrees s t) {k : Cutter} {cs : List Char}
    (hs : Uncut k.cuts OperandScan.step s cs) : Uncut k.cuts OperandScan.step t cs := by
  induction cs generalizing s t with
  | nil => trivial
  | cons c cs ih => exact ⟨by rw [← h.cuts_eq]; exact hs.1, ih (h.step c) hs.2⟩

theorem Agrees.splitWhere_eq (h : Agrees s t) (k : Cutter) (cs : List Char) :
    splitWhere k.cuts OperandScan.step s cs = splitWhere k.cuts OperandScan.step t cs := by
  induction cs generalizing s t with
  | nil => rfl
  | cons c cs ih => rw [splitWhere, splitWhere, h.cuts_eq, ih (h.step c)]

end Chain.OperandScan

/-- Nothing is cut among closing parentheses. -/
theorem uncut_of_isClosing {k : Cutter} {s : OperandScan} {cs : List Char}
    (h : cs.all Condition.isClosing) : Uncut k.cuts OperandScan.step s cs := by
  induction cs generalizing s with
  | nil => trivial
  | cons c cs ih =>
    simp only [List.all_cons, Bool.and_eq_true] at h
    refine ⟨?_, ih h.2⟩
    rw [Cutter.cuts, Bool.and_eq_false_iff]
    right
    rw [← Bool.not_eq_true]
    intro hc
    obtain ⟨hf, hb⟩ := Cutter.isFlat_of_selects hc
    have : c = ')' := by simpa [Condition.isClosing, hb] using h.1
    subst this
    cases hf

namespace Chain

theorem cutAssignment?_of_not_mem {n : Nesting} {before : Option Char} {cs : List Char}
    (h : '=' ∉ cs) : cutAssignment? n before cs = none := by
  cases hc : cutAssignment? n before cs with
  | none => rfl
  | some x =>
    obtain ⟨l, r⟩ := x
    rw [of_cutAssignment? hc] at h
    simp at h

theorem isComparing_of_isBlank {c : Char} (h : isBlank c = true) : isComparing c = false := by
  rw [← Bool.not_eq_true]
  intro hc
  have hc : ((c = '=' ∨ c = '!') ∨ c = '<') ∨ c = '>' := by simpa [isComparing] using hc
  rcases hc with ((rfl | rfl) | rfl) | rfl <;> cases h

theorem isComparing_of_expects {c : Char}
    (h : ArithmeticOp.isOperator c = true ∨ c = ',' ∨ c = '(') : isComparing c = false := by
  rw [← Bool.not_eq_true]
  intro hc
  have hc : ((c = '=' ∨ c = '!') ∨ c = '<') ∨ c = '>' := by simpa [isComparing] using hc
  rcases hc with ((rfl | rfl) | rfl) | rfl <;> revert h <;> decide

theorem cutAssignment?_congr {n : Nesting} {c d : Option Char}
    (h : c.any isComparing = d.any isComparing) (cs : List Char) :
    cutAssignment? n c cs = cutAssignment? n d cs := by
  cases cs with
  | nil => rfl
  | cons e cs => rw [cutAssignment?_cons, cutAssignment?_cons, cutsAssignment, cutsAssignment, h]

/-- An assignment is cut in one of two texts one after the other, if the first does not end with an
equals sign. -/
theorem cutAssignment?_append {n : Nesting} {before : Option Char} {p : List Char}
    (hp : p.getLast? ≠ some '=') (y : List Char) :
    cutAssignment? n before (p ++ y) = none ↔ cutAssignment? n before p = none ∧
      cutAssignment? (p.foldl Nesting.step n) (p.getLast?.or before) y = none := by
  induction p generalizing n before with
  | nil => simp [cutAssignment?]
  | cons c p ih =>
    cases p with
    | nil =>
      have hc : c ≠ '=' := by simpa using hp
      simp [cutAssignment?, hc]
    | cons d p =>
      have hp : (d :: p).getLast? ≠ some '=' := by simpa using hp
      have hl : (c :: d :: p).getLast?.or before = (d :: p).getLast?.or (some c) := by
        simp [List.getLast?_cons]
      rw [List.cons_append, cutAssignment?_cons, cutAssignment?_cons, List.cons_append,
        List.head?_cons, List.head?_cons]
      by_cases hc : cutsAssignment n before c (some d) = true
      · simp [hc]
      · rw [if_neg hc, if_neg hc, Option.map_eq_none_iff, Option.map_eq_none_iff, List.foldl_cons,
          hl, ← List.cons_append, ih hp]

end Chain

/-- A text that is cut nowhere, however deep it stands where an operand is expected. Inside a call
it makes no assignment. -/
structure Inert (q : List Char) : Prop where
  closed : q.foldl Nesting.step {} = {}
  uncut : ∀ (d : Nat) (k : Cutter), Uncut k.cuts OperandScan.step ⟨⟨d, false⟩, none⟩ q
  unassigned : ∀ d : Nat, cutAssignment? ⟨d + 1, false⟩ none q = none

section Replace

variable {d : Nat} {b r a q : List Char} {v : Value}

/-- Behind a call and behind a literal no operand is expected. -/
theorem expectsOperand_behind {s : OperandScan} {cs : List Char} {c : Char}
    (hl : cs.getLast? = some c) (hc : c.isDigit = true ∨ c = '"' ∨ c = ']' ∨ c = ')') :
    (cs.foldl OperandScan.step s).expectsOperand = false := by
  obtain ⟨ds, rfl⟩ := List.getLast?_eq_some_iff.1 hl
  have hb : isBlank c = false := by
    rcases hc with h | rfl | rfl | rfl
    · exact Value.isBlank_of_isDigit h
    · decide
    · decide
    · decide
  have hne (e : Char) (he : e.isDigit = false ∧ e ≠ '"' ∧ e ≠ ']' ∧ e ≠ ')') : c ≠ e := by
    rintro rfl
    simp [he] at hc
  rw [OperandScan.expectsOperand, OperandScan.previous_foldl]
  simp [hb, ArithmeticOp.isOperator, ArithmeticOp.searchOrder, ArithmeticOp.symbol,
    (hne '+' (by decide)).symm, (hne '-' (by decide)).symm, (hne '*' (by decide)).symm,
    (hne '/' (by decide)).symm, hne ',' (by decide), hne '(' (by decide)]

theorem expects_getLast? {cs : List Char} {c : Char} (hl : cs.getLast? = some c)
    (hb : isBlank c = false) (h : OperandScan.Expects cs) :
    ArithmeticOp.isOperator c = true ∨ c = ',' ∨ c = '(' := by
  obtain ⟨ds, rfl⟩ := List.getLast?_eq_some_iff.1 hl
  rw [OperandScan.Expects, OperandScan.expectsOperand, OperandScan.previous_foldl] at h
  simpa [hb, or_assoc] using h

theorem Hole.agrees_before (h : Hole d b r a) :
    OperandScan.Agrees ⟨⟨d, false⟩, none⟩ (b.foldl OperandScan.step {}) :=
  ⟨by rw [OperandScan.nesting_foldl, h.depth], h.expects.symm⟩

/-- Behind a call that closes what it opens, and behind an inert literal, texts are cut alike. -/
theorem Hole.agrees_behind (h : Hole d b r a) (hr : r.getLast? = some ')')
    (hc : r.foldl Nesting.step {} = {}) (hs : v.Spells q) (hq : Inert q) :
    OperandScan.Agrees ((b ++ r).foldl OperandScan.step {})
      ((b ++ q).foldl OperandScan.step {}) := by
  have hd {cs : List Char} (hcs : cs.foldl Nesting.step {} = {}) :
      (b ++ cs).foldl Nesting.step {} = ⟨d, false⟩ := by
    have hz : (⟨d, false⟩ : Nesting) = Nesting.shift {} d := by simp [Nesting.shift]
    rw [List.foldl_append, h.depth, hz, Nesting.foldl_step_shift, hcs]
  constructor
  · rw [OperandScan.nesting_foldl, OperandScan.nesting_foldl, hd hc, hd hq.closed]
  · obtain ⟨c, hl, hc⟩ := hs.getLast?_eq
    rw [List.foldl_append, List.foldl_append, expectsOperand_behind hr (by simp),
      expectsOperand_behind hl (by tauto)]

/-- What follows a call is cut alike behind an inert literal in its place. -/
theorem Hole.cut_behind {p y : List Char} (h : Hole d b r (p ++ y)) (hr : r.getLast? = some ')')
    (hs : v.Spells q) (hq : Inert q) (k : Cutter) :
    (Uncut k.cuts OperandScan.step ((b ++ r).foldl OperandScan.step {}) p →
      Uncut k.cuts OperandScan.step ((b ++ q).foldl OperandScan.step {}) p) ∧
    splitWhere k.cuts OperandScan.step ((b ++ q ++ p).foldl OperandScan.step {}) y =
      splitWhere k.cuts OperandScan.step ((b ++ r ++ p).foldl OperandScan.step {}) y := by
  by_cases hc : r.foldl Nesting.step {} = {}
  · have ha := h.agrees_behind hr hc hs hq
    refine ⟨ha.uncut, ?_⟩
    rw [List.foldl_append, List.foldl_append (l := b ++ r)]
    exact ((ha.foldl p).splitWhere_eq k y).symm
  · obtain ⟨ha, -⟩ := h.settles.resolve_left hc
    simp only [List.all_append, Bool.and_eq_true] at ha
    refine ⟨fun _ => uncut_of_isClosing ha.1, ?_⟩
    rw [splitWhere_uncut (uncut_of_isClosing ha.2), splitWhere_uncut (uncut_of_isClosing ha.2)]

/-- An inert literal in the place of a call leaves the pieces around it alone. -/
theorem Hole.replace_piece {x p₁ p₂ y : List Char} {k : Cutter} (h : Hole d (x ++ p₁) r (p₂ ++ y))
    (hr : r.getLast? = some ')') (hs : v.Spells q) (hq : Inert q)
    (hp : Piece k.cuts OperandScan.step {} x (p₁ ++ r ++ p₂) y) :
    ∃ P Q, splitWhere k.cuts OperandScan.step {} (x ++ (p₁ ++ r ++ p₂) ++ y) =
        P ++ (p₁ ++ r ++ p₂) :: Q ∧
      splitWhere k.cuts OperandScan.step {} (x ++ (p₁ ++ q ++ p₂) ++ y) =
        P ++ (p₁ ++ q ++ p₂) :: Q := by
  obtain ⟨P, Q, ho, hn⟩ := hp.replace
  obtain ⟨hu, hy⟩ := h.cut_behind hr hs hq k
  obtain ⟨⟨hp₁, -⟩, hp₂⟩ : (_ ∧ _) ∧ _ := by simpa only [uncut_append] using hp.uncut
  refine ⟨P, Q, ho, hn _ ?_ ?_⟩
  · rw [uncut_append, uncut_append]
    refine ⟨⟨hp₁, ?_⟩, ?_⟩
    · rw [← List.foldl_append]
      exact h.agrees_before.uncut (hq.uncut d k)
    · rw [← List.foldl_append, ← List.append_assoc]
      exact hu (by simpa using hp₂)
  · simpa using hy

theorem Hole.replace_uncut {k : Cutter} (h : Hole d b r a) (hr : r.getLast? = some ')')
    (hs : v.Spells q) (hq : Inert q) (hu : Uncut k.cuts OperandScan.step {} (b ++ r ++ a)) :
    Uncut k.cuts OperandScan.step {} (b ++ q ++ a) := by
  have h' : Hole d b r (a ++ []) := by simpa using h
  rw [uncut_append, uncut_append] at hu ⊢
  exact ⟨⟨hu.1.1, h.agrees_before.uncut (hq.uncut d k)⟩, (h'.cut_behind hr hs hq k).1 hu.2⟩

/-- An inert literal in the place of a call makes no line an assignment. -/
theorem Hole.replace_unassigned (h : Hole d b r a) (hr : r.getLast? = some ')')
    (hs : v.Spells q) (hq : Inert q) (hu : cutAssignment? ⟨d, false⟩ none q = none)
    (hn : cutAssignment? {} none (b ++ r ++ a) = none) :
    cutAssignment? {} none (b ++ q ++ a) = none := by
  have hb : b.getLast? ≠ some '=' := by
    intro hl
    cases isComparing_of_expects (expects_getLast? hl (by decide) h.expects)
  obtain ⟨c, hl, hc⟩ := hs.getLast?_eq
  have hne (e : Char) (he : e.isDigit = false ∧ e ≠ '"' ∧ e ≠ ']') : c ≠ e := by
    rintro rfl
    simp [he] at hc
  have hcmp : isComparing c = false := by
    simp [isComparing, hne '=' (by decide), hne '!' (by decide), hne '<' (by decide),
      hne '>' (by decide)]
  have hq' : q.getLast? ≠ some '=' := by
    rw [hl]
    simpa using hne '=' (by decide)
  have hr' : r.getLast? ≠ some '=' := by simp [hr]
  rw [List.append_assoc, cutAssignment?_append hb, cutAssignment?_append hr', h.depth] at hn
  rw [List.append_assoc, cutAssignment?_append hb, cutAssignment?_append hq', h.depth]
  refine ⟨hn.1, ?_, ?_⟩
  · rw [Option.or_none]
    refine (cutAssignment?_congr ?_ q).trans hu
    cases he : b.getLast? with
    | none => rfl
    | some e =>
      by_cases hbl : isBlank e = true
      · exact isComparing_of_isBlank hbl
      · exact isComparing_of_expects (expects_getLast? he (by simpa using hbl) h.expects)
  · by_cases ho : r.foldl Nesting.step {} = {}
    · have hz : (⟨d, false⟩ : Nesting) = Nesting.shift {} d := by simp [Nesting.shift]
      have hn := hn.2.2
      rw [hz, Nesting.foldl_step_shift, ho] at hn
      rw [hz, Nesting.foldl_step_shift, hq.closed]
      refine (cutAssignment?_congr ?_ a).trans hn
      rw [hl, hr, Option.some_or, Option.some_or, Option.any_some, hcmp]
      rfl
    · obtain ⟨ha, -⟩ := h.settles.resolve_left ho
      apply cutAssignment?_of_not_mem
      intro hm
      cases List.all_eq_true.1 ha _ hm

end Replace

section Literals

/-- Characters at which nothing is ever cut. -/
def isHarmless (c : Char) : Bool := c.isAlphanum || c == '$' || c == '[' || c == ']'

theorem ne_of_isHarmless {c e : Char} (h : isHarmless c = true) (he : isHarmless e = false) :
    c ≠ e := by
  rintro rfl
  simp [h] at he

theorem selects_of_isHarmless {c : Char} (h : isHarmless c = true) (k : Cutter) (e : Bool) :
    k.selects e c = false := by
  cases k with
  | chain =>
    simp [Cutter.selects, isSeparator, ne_of_isHarmless h (e := '.') (by decide),
      ne_of_isHarmless h (e := ':') (by decide)]
  | params => simp [Cutter.selects, ne_of_isHarmless h (e := ',') (by decide)]
  | operands op =>
    have : isHarmless op.symbol = false := by cases op <;> decide
    simp [Cutter.selects, ne_of_isHarmless h this]

theorem uncut_of_selects {k : Cutter} {s : OperandScan} {cs : List Char}
    (h : cs.all fun c => !k.selects true c && !k.selects false c) :
    Uncut k.cuts OperandScan.step s cs := by
  induction cs generalizing s with
  | nil => trivial
  | cons c cs ih =>
    rw [List.all_cons, Bool.and_eq_true] at h
    have hc (e : Bool) : k.selects e c = false := by cases e <;> simp_all
    exact ⟨by rw [Cutter.cuts, hc, Bool.and_false], ih h.2⟩

theorem uncut_of_isHarmless {k : Cutter} {s : OperandScan} {cs : List Char}
    (h : cs.all isHarmless) : Uncut k.cuts OperandScan.step s cs := by
  apply uncut_of_selects
  rw [List.all_eq_true] at h ⊢
  intro c hc
  simp [selects_of_isHarmless (h c hc)]

theorem unassigned_of_isHarmless {n : Nesting} {before : Option Char} {cs : List Char}
    (h : cs.all isHarmless) : cutAssignment? n before cs = none := by
  apply cutAssignment?_of_not_mem
  intro hm
  cases List.all_eq_true.1 h _ hm

theorem toDigits_all (k : Nat) :
    (Nat.toDigits 10 k).all isHarmless ∧ (Nat.toDigits 10 k).all Nesting.isFlat := by
  simp only [List.all_eq_true]
  constructor
  · intro c hc
    have hd := Nat.isDigit_of_mem_toDigits (by decide) (by decide) hc
    simp [isHarmless, Char.isAlphanum, hd]
  · intro c hc
    have hd := Nat.isDigit_of_mem_toDigits (by decide) (by decide) hc
    have hne (e : Char) (he : e.isDigit = false) : c ≠ e := by
      rintro rfl
      simp [hd] at he
    simp [Nesting.isFlat, hne '"' (by decide), hne '(' (by decide), hne '[' (by decide),
      hne ')' (by decide), hne ']' (by decide)]

theorem inert_reference (start : List Char) (hs : start.all isHarmless)
    (hn : start.foldl Nesting.step {} = Nesting.shift {} 1) (k : Nat) :
    Inert (start ++ Nat.toDigits 10 k ++ [']']) ∧
      ∀ n before, cutAssignment? n before (start ++ Nat.toDigits 10 k ++ [']']) = none := by
  obtain ⟨hd, hf⟩ := toDigits_all k
  have h : (start ++ Nat.toDigits 10 k ++ [']']).all isHarmless := by
    simp only [List.all_append, hs, hd, Bool.true_and]
    decide
  refine ⟨⟨?_, fun d k => uncut_of_isHarmless h, fun d => unassigned_of_isHarmless h⟩,
    fun n before => unassigned_of_isHarmless h⟩
  rw [List.foldl_append, List.foldl_append, hn, Nesting.foldl_of_isFlat hf]
  rfl

section Quoted

variable {d : Int} {cs : List Char}

theorem foldl_of_quoted (h : '"' ∉ cs) : cs.foldl Nesting.step ⟨d, true⟩ = ⟨d, true⟩ := by
  induction cs with
  | nil => rfl
  | cons c cs ih =>
    obtain ⟨hc, h⟩ : c ≠ '"' ∧ '"' ∉ cs := by simpa [eq_comm] using h
    rw [List.foldl_cons, show Nesting.step ⟨d, true⟩ c = ⟨d, true⟩ by simp [Nesting.step, hc], ih h]

/-- Nothing is cut inside quotes. -/
theorem uncut_of_quoted {k : Cutter} {s : OperandScan} (hs : s.nesting = ⟨d, true⟩)
    (h : '"' ∉ cs) : Uncut k.cuts OperandScan.step s cs := by
  induction cs generalizing s with
  | nil => trivial
  | cons c cs ih =>
    obtain ⟨hc, h⟩ : c ≠ '"' ∧ '"' ∉ cs := by simpa [eq_comm] using h
    refine ⟨by simp [Cutter.cuts, Nesting.isTop, hs], ih ?_ h⟩
    simp [OperandScan.step, hs, Nesting.step, hc]

theorem unassigned_of_quoted {before : Option Char} (h : '"' ∉ cs) :
    cutAssignment? ⟨d, true⟩ before (cs ++ ['"']) = none := by
  induction cs generalizing before with
  | nil => rfl
  | cons c cs ih =>
    obtain ⟨hc, h⟩ : c ≠ '"' ∧ '"' ∉ cs := by simpa [eq_comm] using h
    rw [List.cons_append, cutAssignment?_cons, if_neg (by simp [cutsAssignment, Nesting.isTop]),
      show Nesting.step ⟨d, true⟩ c = ⟨d, true⟩ by simp [Nesting.step, hc], ih h]
    rfl

end Quoted

/-- A literal is inert, but a text with quotes inside need not be. -/
theorem Value.literal_inert {v : Value} (h : ∀ s, v = .text s → '"' ∉ s.toList) :
    Inert v.literal.toList ∧ ∀ d : Int, cutAssignment? ⟨d, false⟩ none v.literal.toList = none := by
  have hs := v.literal_spells
  generalize v.literal.toList = q at hs
  cases hs with
  | @nat n k hk =>
    obtain ⟨hd, hf⟩ := toDigits_all k
    exact ⟨⟨Nesting.foldl_of_isFlat hf, fun d k => uncut_of_isHarmless hd,
      fun d => unassigned_of_isHarmless hd⟩, fun d => unassigned_of_isHarmless hd⟩
  | @neg n k hk hp =>
    obtain ⟨hd, hf⟩ := toDigits_all k
    have hu (d : Int) : cutAssignment? ⟨d, false⟩ none ('-' :: Nat.toDigits 10 k) = none := by
      rw [cutAssignment?_cons, if_neg (by simp [cutsAssignment]), unassigned_of_isHarmless hd]
      rfl
    refine ⟨⟨?_, fun d k => ⟨?_, uncut_of_isHarmless hd⟩, fun d => hu _⟩, hu⟩
    · rw [List.foldl_cons, Nesting.foldl_of_isFlat hf]
      rfl
    · -- a minus where an operand is expected is a sign
      rw [Cutter.cuts, Bool.and_eq_false_iff]
      right
      cases k with
      | chain | params => rfl
      | operands op => cases op <;> rfl
  | @text s =>
    have h := h s rfl
    have ho (d : Int) : Nesting.step ⟨d, false⟩ '"' = ⟨d, true⟩ := rfl
    have hu (d : Int) : cutAssignment? ⟨d, false⟩ none ('"' :: s.toList ++ ['"']) = none := by
      rw [List.cons_append, cutAssignment?_cons, ho, unassigned_of_quoted h]
      rfl
    refine ⟨⟨?_, fun d k => ?_, fun d => hu _⟩, hu⟩
    · rw [List.cons_append, List.foldl_cons, List.foldl_append, ho, foldl_of_quoted h]
      rfl
    · rw [List.cons_append, uncut_cons, uncut_append]
      refine ⟨rfl, uncut_of_quoted (ho d) h, ?_, trivial⟩
      simp [Cutter.cuts, Nesting.isTop]
  | entity =>
    obtain ⟨hi, hu⟩ := inert_reference "$Entity[".toList (by decide) (by decide) _
    exact ⟨hi, fun d => hu _ _⟩
  | item =>
    obtain ⟨hi, hu⟩ := inert_reference "$Item[".toList (by decide) (by decide) _
    exact ⟨hi, fun d => hu _ _⟩

end Literals

end TileScript
