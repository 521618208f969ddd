import TileScript.Proofs.Inert
import TileScript.Proofs.Resume

/-! # Kinds of resumed lines

A line that goes on with a literal in the place of a call is still the same kind of statement, with
two exceptions. On a line without a keyword a reference at the start makes it a comment, and a text
with quotes inside can make it an assignment.
-/

namespace TileScript

open Text Chain

namespace Value

def isReference : Value → Bool
  | .entity _ | .item _ => true
  | .int _ | .text _ => false

theorem Spells.head?_append_ne {v : Value} {q : List Char} (h : v.Spells q) (cs : List Char) :
    (q ++ cs).head? ≠ some '=' := by
  obtain ⟨c, hc, hv⟩ := h.head?_eq
  rw [List.head?_append, hc, Option.some_or]
  rintro ⟨⟩
  revert hv
  decide

/-- A literal begins with a dollar sign exactly if it is a reference. -/
theorem Spells.isReference_iff {v : Value} {q : List Char} (h : v.Spells q) :
    v.isReference = true ↔ q.head? = some '$' := by
  cases h with
  | @nat n k hk =>
    obtain ⟨c, hc, hd⟩ := head?_toDigits k
    rw [hc]
    constructor
    · intro h
      cases h
    · intro h
      cases Option.some.inj h
      cases hd
  | neg | text => simp [isReference]
  | entity | item => simp [isReference]

end Value

namespace Statement

/-- Which of its constructors a statement is. -/
inductive Kind where
  | blank
  | close
  | otherwise
  | branch
  | declare
  | assign
  | bare
  deriving DecidableEq, Repr

def kind : Statement → Kind
  | .blank => .blank
  | .close => .close
  | .otherwise => .otherwise
  | .branch _ => .branch
  | .declare _ => .declare
  | .assign _ _ => .assign
  | .bare _ => .bare

section Literal

variable {v : Value} {q b a : List Char} (hs : v.Spells q)
include hs

/-- A word without signs, digits, quotes and dollar signs does not reach into a literal. -/
theorem prefix_before_literal {w : List Char} (hw : '-' ∉ w ∧ '"' ∉ w ∧ '$' ∉ w)
    (hd : w.all (!·.isDigit)) : w <+: b ++ q ++ a ↔ w <+: b := by
  obtain ⟨c, hc, h⟩ := hs.head?_eq
  have hy : (q ++ a).head? = some c := by rw [List.head?_append, hc, Option.some_or]
  rw [List.append_assoc]
  apply prefix_append_iff hy
  rcases h with rfl | h | rfl | rfl
  · exact hw.1
  · intro hm
    have hc := List.all_eq_true.1 hd c hm
    simp [h] at hc
  · exact hw.2.1
  · exact hw.2.2

theorem isComment_literal (hb : isComment b = false) :
    isComment (b ++ q ++ a) = true ↔ b = [] ∧ v.isReference = true := by
  have hb : ¬ ("//".toList <+: b ∨ "#".toList <+: b ∨ "$".toList <+: b) := by
    rw [← isComment_iff, hb]
    exact Bool.false_ne_true
  simp only [not_or] at hb
  rw [isComment_iff, prefix_before_literal hs (w := "//".toList) (by decide) (by decide),
    prefix_before_literal hs (w := "#".toList) (by decide) (by decide), hs.isReference_iff]
  simp only [hb.1, hb.2.1, false_or]
  cases b with
  | nil =>
    obtain ⟨c, cs, rfl⟩ := List.exists_cons_of_ne_nil hs.ne_nil
    simp [eq_comm]
  | cons c b => simpa using hb.2.2

/-- The kind of a line with a literal in it. -/
theorem kind_literal (hb : isComment (trimStart b) = false) :
    (ofLine (b ++ q ++ a)).kind =
      if b.all isBlank ∧ v.isReference = true then .blank
      else if "var ".toList <+: trimStart b then .declare
      else if "if ".toList <+: trimStart b then .branch
      else if splitAssignment? (trim (b ++ q ++ a)) = none then .bare
      else .assign := by
  have ht := trim_around (b := b) (a := a) hs.ne_nil hs.trim_eq
  have hword {w : List Char} (hw : '-' ∉ w ∧ '"' ∉ w ∧ '$' ∉ w)
      (hd : w.all (!·.isDigit)) : w <+: trim (b ++ q ++ a) ↔ w <+: trimStart b := by
    rw [ht]
    exact prefix_before_literal hs hw hd
  have hne {w : List Char} (hw : '-' ∉ w ∧ '"' ∉ w ∧ '$' ∉ w)
      (hd : w.all (!·.isDigit)) : trim (b ++ q ++ a) ≠ w := by
    intro he
    have hle := ((hword hw hd).1 (he ▸ List.prefix_rfl)).length_le
    have hpos := List.length_pos_iff.2 hs.ne_nil
    rw [← he, ht] at hle
    simp only [List.length_append] at hle
    omega
  have hcom : isComment (trim (b ++ q ++ a)) = true ↔ b.all isBlank ∧ v.isReference = true := by
    rw [ht, ← trimStart_eq_nil]
    exact isComment_literal hs hb
  generalize b ++ q ++ a = line at hword hne hcom
  split
  · next h => rw [ofLine_comment (hcom.2 h), kind]
  · next h =>
    split
    · next hv =>
      obtain ⟨d, hd⟩ := (hword (by decide) (by decide)).2 hv
      rw [ofLine_declare hd.symm, kind]
    · next hv =>
      split
      · next hi =>
        obtain ⟨d, hd⟩ := (hword (by decide) (by decide)).2 hi
        rw [ofLine_branch hd.symm, kind]
      · next hi =>
        have ho : Ordinary (trim line) := {
          ne_nil := hne (by decide) (by decide)
          not_comment := by simpa using mt hcom.1 h
          not_close := hne (by decide) (by decide)
          not_otherwise := hne (by decide) (by decide)
          not_declare := fun d hd => hv ((hword (by decide) (by decide)).1 ⟨d, hd.symm⟩)
          not_if := hne (by decide) (by decide)
          not_branch := fun d hd => hi ((hword (by decide) (by decide)).1 ⟨d, hd.symm⟩) }
        rw [ofLine_ordinary ho]
        split
        · next hx => simp [hx, kind]
        · next hx => simp [hx, kind]

end Literal

end Statement

/-- What keeps the kind of a line when the literal of `v` comes between `b` and `a`. -/
def KeepsKind (v : Value) (b a : List Char) : Statement.Kind → Prop
  | .declare => "var ".toList <+: trimStart b
  | .branch => "if ".toList <+: trimStart b
  | .assign => (b.all isBlank → v.isReference = false) ∧
      splitAssignment? (trim (b ++ v.literal.toList ++ a)) ≠ none
  | .bare => (b.all isBlank → v.isReference = false) ∧
      splitAssignment? (trim (b ++ v.literal.toList ++ a)) = none
  | .blank | .close | .otherwise => False

theorem Site.trim_eq {expr : Bool} {names : List (List Char)} {b r a : List Char}
    (h : Site expr names b r a) : trim r = r := by
  induction h with
  | level _ _ ih => exact ih
  | @call expr l x m c n y t name raw h =>
    have hc : c ≠ [] := by
      rintro rfl
      simpa using h.getLast?_eq
    apply trim_of_ends
    · intro d hd
      have hh : (trim (x ++ (m ++ c ++ n) ++ y)).head? = some d := by
        rw [h.trimmed, show x ++ (m ++ c ++ n) ++ y = x ++ m ++ c ++ (n ++ y) by simp,
          List.head?_append_of_ne_nil _ (by simp [hc]), hd]
      exact isBlank_of_head?_trim hh
    · intro d hd
      rw [List.getLast?_append_of_ne_nil _ hc, h.getLast?_eq] at hd
      cases hd
      decide

section Suspends

variable {s : Scope} {f : Fiber} {σ σ' : EvalState} {q : CallRequest} {b r a : List Char}

theorem Suspends.trim_eq (h : Suspends s f σ q σ' b r a) : trim r = r := by
  obtain ⟨names, hs⟩ := h.site
  cases hs with
  | part _ hs => exact hs.trim_eq

/-- The kinds of lines that stop for a value. -/
inductive Stopping (t : List Char) : Statement → Prop where

  | declare {d : List Char} : t = "var ".toList ++ d → Stopping t (.declare d)

  | branch {d : List Char} : t = "if ".toList ++ d → Stopping t (.branch (trim d))

  | assign {l r : List Char} : Statement.Ordinary t →
      cutAssignment? {} none t = some (l, r) → Stopping t (.assign (trim l) (trim r))

  | bare : Statement.Ordinary t → splitAssignment? t = none → Stopping t (.bare t)

theorem Stopping.not_comment {t : List Char} {st : Statement} (h : Stopping t st) :
    Statement.isComment t = false := by
  cases h with
  | declare hd | branch hd =>
    subst hd
    rfl
  | assign ho | bare ho => exact ho.not_comment

theorem Stopping.kind_ne {t : List Char} {st : Statement} (h : Stopping t st) :
    st.kind ≠ .blank ∧ st.kind ≠ .close ∧ st.kind ≠ .otherwise := by
  cases h <;> simp [Statement.kind]

theorem Suspends.stopping (h : Suspends s f σ q σ' b r a) :
    Stopping (trim s.line) (Statement.ofLine s.line) := by
  have hs := Statement.ofLine_shape s.line
  have hrun := h.run
  have ht : trim s.line = trimStart b ++ r ++ trimEnd a := by
    rw [h.line, trim_around h.ne_nil h.trim_eq]
  generalize Statement.ofLine s.line = st at hs hrun
  cases hs with
  | blank | close | otherwise => cases hrun
  | declare hd => exact .declare hd
  | emptyBranch hi =>
    have hm : ')' ∈ trim s.line := by simp [ht, List.mem_of_getLast? h.getLast?_eq]
    rw [hi] at hm
    exact absurd hm (by decide)
  | branch hd => exact .branch hd
  | assign ho hc => exact .assign ho hc
  | bare ho hc => exact .bare ho hc

theorem Suspends.trim_line (h : Suspends s f σ q σ' b r a) {b₁ a₁ : List Char}
    (hl : s.line = b₁ ++ r ++ a₁) : trim s.line = trimStart b₁ ++ (r ++ trimEnd a₁) := by
  rw [hl, trim_around h.ne_nil h.trim_eq, List.append_assoc]

/-- What stands before the awaited chain begins no comment. -/
theorem Suspends.not_comment_before (h : Suspends s f σ q σ' b r a) {b₁ a₁ : List Char}
    (hl : s.line = b₁ ++ r ++ a₁) : Statement.isComment (trimStart b₁) = false := by
  have hbefore {w : List Char} (hw : ¬ w <+: trim s.line) : ¬ w <+: trimStart b₁ := by
    intro hb
    rw [h.trim_line hl] at hw
    exact hw (hb.trans (List.prefix_append _ _))
  have hcom := h.stopping.not_comment
  rw [← Bool.not_eq_true, Statement.isComment_iff, not_or, not_or] at hcom ⊢
  exact ⟨hbefore hcom.1, hbefore hcom.2.1, hbefore hcom.2.2⟩

/-- Whether a line keeps its kind depends on what stands before the literal, and on a line without a
keyword on where an assignment is cut. -/
theorem Suspends.kind_eq_iff (h : Suspends s f σ q σ' b r a) (v : Value) {b₁ a₁ : List Char}
    (hl : s.line = b₁ ++ r ++ a₁) :
    (Statement.ofLine (b₁ ++ v.literal.toList ++ a₁)).kind = (Statement.ofLine s.line).kind ↔
      KeepsKind v b₁ a₁ (Statement.ofLine s.line).kind := by
  have hs := h.stopping
  have hbefore {w : List Char} (hw : ¬ w <+: trim s.line) : ¬ w <+: trimStart b₁ := by
    intro hb
    rw [h.trim_line hl] at hw
    exact hw (hb.trans (List.prefix_append _ _))
  have hb := h.not_comment_before hl
  have hblank {w : List Char} (hw : w ≠ []) (hp : w <+: trimStart b₁) : ¬ b₁.all isBlank := by
    rw [← trimStart_eq_nil]
    intro hn
    rw [hn] at hp
    exact hw (List.prefix_nil.1 hp)
  rw [Statement.kind_literal v.literal_spells hb]
  generalize Statement.ofLine s.line = st at hs
  cases hs with
  | declare hd =>
    rw [Statement.kind, KeepsKind]
    split_ifs with h₁ h₂ h₃ h₄
    · simpa using fun hv => hblank (by simp) hv h₁.1
    · simpa using h₂
    · simpa using h₂
    · simpa using h₂
    · simpa using h₂
  | branch hd =>
    have hv : ¬ "var ".toList <+: trimStart b₁ := hbefore (by rw [hd]; simp)
    rw [Statement.kind, KeepsKind, if_neg hv]
    split_ifs with h₁ h₃ h₄
    · simpa using fun hv => hblank (by simp) hv h₁.1
    · simpa using h₃
    · simpa using h₃
    · simpa using h₃
  | assign ho hc =>
    have hv : ¬ "var ".toList <+: trimStart b₁ := hbefore fun ⟨d, hd⟩ => ho.not_declare d hd.symm
    have hi : ¬ "if ".toList <+: trimStart b₁ := hbefore fun ⟨d, hd⟩ => ho.not_branch d hd.symm
    rw [Statement.kind, KeepsKind, if_neg hv, if_neg hi]
    generalize splitAssignment? (trim (b₁ ++ v.literal.toList ++ a₁)) = x
    split_ifs with h₁ h₄
    · simp [h₁.1, h₁.2]
    · simp [h₄]
    · simpa [h₄] using h₁
  | bare ho hc =>
    have hv : ¬ "var ".toList <+: trimStart b₁ := hbefore fun ⟨d, hd⟩ => ho.not_declare d hd.symm
    have hi : ¬ "if ".toList <+: trimStart b₁ := hbefore fun ⟨d, hd⟩ => ho.not_branch d hd.symm
    rw [Statement.kind, KeepsKind, if_neg hv, if_neg hi]
    generalize splitAssignment? (trim (b₁ ++ v.literal.toList ++ a₁)) = x
    split_ifs with h₁ h₄
    · simp [h₁.1, h₁.2]
    · simpa [h₄] using h₁
    · simp [h₄]

/-- Only a bare line is evaluated as a chain and not as expressions. -/
theorem LinePart.kind_eq_bare_iff {expr : Bool} {u text w : List Char}
    (h : LinePart expr u text w) :
    (Statement.ofLine (u ++ text ++ w)).kind = .bare ↔ expr = false := by
  cases h with
  | declare hl htb hn hd htr =>
    rw [Statement.ofLine_padded_declare hl htb htr]
    simp [Statement.kind]
  | assign hl hm htb htv htr ho hc =>
    rw [Statement.ofLine_padded_assign hl htb htr ho hc]
    simp [Statement.kind]
  | bare hl htb htr ho hc =>
    rw [Statement.ofLine_padded_bare hl htb htr ho hc]
    simp [Statement.kind]
  | @clause l m g _ rest t k hl hm htb htr =>
    have hline : l ++ "if ".toList ++ m ++ g ++ text ++ (rest ++ t) =
        l ++ "if ".toList ++ m ++ (g ++ text ++ rest) ++ t := by simp
    rw [hline, Statement.ofLine_padded_branch hl htb (by simpa using htr)]
    simp [Statement.kind]

/-- In the place of the call that was evaluated a literal changes the kind of no line but a bare
chain. -/
theorem LineSite.keepsKind {names : List (List Char)} (h : LineSite names b r a) (v : Value)
    (hk : (Statement.ofLine (b ++ r ++ a)).kind ≠ .bare) :
    KeepsKind v b a (Statement.ofLine (b ++ r ++ a)).kind := by
  obtain ⟨hp, hs⟩ := h
  rename_i expr u b a w
  have hline : u ++ b ++ r ++ (a ++ w) = u ++ (b ++ r ++ a) ++ w := by simp
  rw [hline] at hk ⊢
  generalize ht : b ++ r ++ a = text at hp hk ⊢
  cases hp with
  | declare hl htb hn hd htr =>
    rw [Statement.ofLine_padded_declare hl htb htr, Statement.kind, KeepsKind, List.append_assoc,
      List.append_assoc, List.append_assoc, trimStart_append hl]
    exact List.prefix_append _ _
  | bare hl htb htr ho hc =>
    exact absurd ((LinePart.bare hl htb htr ho hc).kind_eq_bare_iff.2 rfl) hk
  | @clause l m g _ rest t k hl hm htb htr =>
    have hline : l ++ "if ".toList ++ m ++ g ++ text ++ (rest ++ t) =
        l ++ "if ".toList ++ m ++ (g ++ text ++ rest) ++ t := by simp
    rw [hline, Statement.ofLine_padded_branch hl htb (by simpa using htr), Statement.kind,
      KeepsKind, List.append_assoc, List.append_assoc, List.append_assoc, trimStart_append hl]
    exact List.prefix_append _ _
  | @assign l left m _ _ hl hm htb htv htr ho hc =>
    rw [Statement.ofLine_padded_assign hl htb htr ho hc, Statement.kind, KeepsKind]
    refine ⟨fun hb => ?_, ?_⟩
    · simp only [List.all_append, Bool.and_eq_true] at hb
      cases hb.1.1.2
    · have hstart : trimStart (left ++ ['='] ++ m ++ b) = left ++ ['='] ++ m ++ b := by
        apply trimStart_of_head?
        intro c hc
        have hh : (trim (left ++ ['='] ++ m ++ text)).head? = some c := by
          rw [htr, ← hc]
          cases left <;> rfl
        exact isBlank_of_head?_trim hh
      have htrim' : trim (l ++ left ++ ['='] ++ m ++ b ++ v.literal.toList ++ (a ++ w)) =
          left ++ '=' :: (m ++ b ++ v.literal.toList ++ trimEnd (a ++ w)) := by
        rw [trim_around v.literal_spells.ne_nil v.literal_spells.trim_eq, List.append_assoc l,
          List.append_assoc l, List.append_assoc l, trimStart_append hl, hstart]
        simp
      have hhead : (m ++ b ++ v.literal.toList ++ trimEnd (a ++ w)).head? ≠ some '=' := by
        have hne := head?_of_cutAssignment? hc
        rw [List.append_assoc]
        cases hmb : m ++ b with
        | nil => exact v.literal_spells.head?_append_ne _
        | cons c cs =>
          rw [← ht, ← List.append_assoc, ← List.append_assoc, hmb] at hne
          exact hne
      rw [htrim', splitAssignment?,
        cutAssignment?_replace (r := m ++ text) (by simpa using hc) hhead]
      simp

/-- In the place of the call that was evaluated an inert literal makes no bare line an
assignment. -/
theorem LineSite.unassigned {names : List (List Char)} (h : LineSite names b r a)
    (hn : ∀ name ∈ names, PlainName name) {v : Value} (hv : Inert v.literal.toList)
    (hu : cutAssignment? {} none v.literal.toList = none)
    (hk : (Statement.ofLine (b ++ r ++ a)).kind = .bare) :
    splitAssignment? (trim (b ++ v.literal.toList ++ a)) = none := by
  obtain ⟨hp, hs⟩ := h
  rename_i expr u b a w
  have hline : u ++ b ++ r ++ (a ++ w) = u ++ (b ++ r ++ a) ++ w := by simp
  rw [hline] at hk
  obtain rfl := hp.kind_eq_bare_iff.1 hk
  generalize ht : b ++ r ++ a = text at hp
  cases hp with
  | bare hl htb htr ho hc =>
    subst ht
    have hlit := v.literal_spells
    have hr : r ≠ [] := by
      rintro rfl
      simpa using hs.getLast?_eq
    have htrim := trim_pad hl htb
      (trim_replace htr hr hs.trim_eq hlit.ne_nil hlit.trim_eq)
    have hcut : cutAssignment? {} none (b ++ r ++ a) = none := by
      simpa [splitAssignment?] using hc
    have hdepth : cutAssignment? ⟨names.length, false⟩ none v.literal.toList = none := by
      cases names with
      | nil => exact hu
      | cons name names => exact hv.unassigned names.length
    have hcut' := (hs.hole hn).replace_unassigned hs.getLast?_eq hlit hv hdepth hcut
    have hassoc : u ++ b ++ v.literal.toList ++ (a ++ w) =
        u ++ (b ++ v.literal.toList ++ a) ++ w := by simp
    rw [hassoc, htrim, splitAssignment?, hcut']
    rfl

end Suspends

/-- A search stops only where statements run. -/
theorem Search.isActive_of_found {c d : Cursor} {coming : List (List Char)} {line : List Char}
    {st : Statement} (h : Search.run c coming = .found d line st) : d.isActive = true := by
  fun_induction Search.run c coming with
  | case1 | case4 | case6 => cases h
  | case2 _ _ _ _ _ ih | case3 _ _ _ _ _ _ _ ih | case5 _ _ _ _ _ _ _ ih => exact ih h
  | case7 c line rest next ha =>
    obtain ⟨rfl, -, -⟩ := Search.found.inj h
    exact ha
  | case8 _ _ _ _ _ _ _ _ ih => exact ih h

namespace Fiber

variable {env : Environment} {f g : Fiber} {q : CallRequest} {w w' : World}

theorem of_nextStatement_found {coming : List (List Char)} {evaluated : Bool} {c : Cursor}
    {line : List Char} {st : Statement}
    (h : f.nextStatement coming evaluated = (g, .found c line st)) :
    c.isActive = true ∧ st = Statement.ofLine line := by
  unfold nextStatement at h
  split at h
  · split at h
    · have h := (Prod.mk.inj h).2
      exact ⟨Search.isActive_of_found h, Search.statement_of_found h⟩
    · cases (Prod.mk.inj h).2
  · have h := (Prod.mk.inj h).2
    exact ⟨Search.isActive_of_found h, Search.statement_of_found h⟩

/-- Statements stop for a value on a line that was being evaluated, and where statements run. -/
theorem runStatements_called {budget : Nat} {coming : List (List Char)} {evaluated : Bool}
    (h : f.runStatements env budget coming evaluated w = (.called q, g, w')) :
    ∃ s k σ σ', (execute s k (Statement.ofLine s.line)).run σ = .error (.call q) σ' ∧
      g.cursor.isActive = true := by
  fun_induction runStatements env budget f coming evaluated w with
  | case1 | case2 | case3 | case4 | case6 | case7 => cases h
  | case5 f coming evaluated w g c line st hn g' budget k σ hx hp ih => exact ih h
  | case8 f coming evaluated w k c line st hn k' budget r σ hx cursor =>
    obtain ⟨ha, rfl⟩ := of_nextStatement_found hn
    obtain ⟨hr, hg, -⟩ : Outcome.called r = .called q ∧ _ = g ∧ _ = w' := by simpa using h
    cases hr
    refine ⟨_, _, _, _, hx, ?_⟩
    rw [← hg]
    simp only [cursor]
    split <;> exact ha

theorem activate_called {forced : Bool} (h : f.activate env forced w = (.called q, g, w')) :
    ∃ s k σ σ', (execute s k (Statement.ofLine s.line)).run σ = .error (.call q) σ' ∧
      g.cursor.isActive = true := by
  unfold activate at h
  split at h
  · cases h
  · split at h
    · cases h
    · split at h
      · cases h
      · split at h
        · cases h
        · unfold resume at h
          split at h
          · cases h
          · split at h
            · exact runStatements_called h
            · cases h
          · exact runStatements_called h
          · exact runStatements_called h

/-- What comes of a statement that `f` has evaluated, with the budget that is left. -/
def afterStatement (env : Environment) (budget : Nat) (f : Fiber) :
    EStateM.Result Interrupt EvalState Fiber → Outcome × Fiber × World
  | .ok g st =>
    match st.pause with
    | some ticks => (.yielded, { g with state := .sleeping }, g.coolDown ticks st.world)
    | none => g.runStatements env budget (g.lines.drop f.cursor.line) true st.world
  | .error (.error e) st => f.terminate (.failed e) f.cursor.line st.world
  | .error (.exit v) st => f.terminate (.exited v) none st.world
  | .error (.call request) st =>
    let cursor := if request.resume.isSome then { f.cursor with line := f.cursor.line - 1 } else f.cursor
    (.called request, { f with cursor, enabled := false, state := .awaiting }, st.world)

/-- A statement takes one from the budget. -/
theorem runStatements_found {budget : Nat} {coming : List (List Char)} {evaluated : Bool}
    {c : Cursor} {line : List Char} {st : Statement}
    (h : f.nextStatement coming evaluated = (g, .found c line st)) :
    f.runStatements env (budget + 1) coming evaluated w =
      afterStatement env budget { g with cursor := c }
        ((execute ({ g with cursor := c }.scope env line) { g with cursor := c } st).run
          { world := w }) := by
  rw [runStatements, h]
  dsimp only
  generalize (execute _ _ st).run _ = x
  rcases x with ⟨k, u, _ | ticks⟩ | ⟨e | v | r, σ⟩ <;> rfl

/-- The line a fiber goes on with is its next statement, unless it evaluates nothing. -/
theorem nextStatement_cons (f : Fiber) {line : List Char} (rest : List (List Char))
    (evaluated : Bool) (ha : f.cursor.isActive = true) (hb : (Statement.ofLine line).kind ≠ .blank)
    (hc : (Statement.ofLine line).kind ≠ .close)
    (ho : (Statement.ofLine line).kind ≠ .otherwise) :
    f.nextStatement (line :: rest) evaluated =
      (f, .found f.cursor.advance line (Statement.ofLine line)) := by
  have hs : Search.run f.cursor (line :: rest) =
      .found f.cursor.advance line (Statement.ofLine line) := by
    rw [Search.run]
    cases hst : Statement.ofLine line with
    | blank => simp [hst, Statement.kind] at hb
    | close => simp [hst, Statement.kind] at hc
    | otherwise => simp [hst, Statement.kind] at ho
    | branch | declare | assign | bare => simp [ha]
  rw [nextStatement, hs]

end Fiber

/-- When a line stops for a value, the line that goes on with the literal of `v` is of the same kind
exactly if `KeepsKind` holds at the first occurrence of the awaited chain. It does if that is the
chain that was evaluated and the line is not a bare chain; on a bare chain it does for an inert
literal, unless that is a reference at the start of the line. A line of the same kind is evaluated
next and takes one from the budget. -/
theorem resumed_kind {env : Environment} {forced : Bool} {f g : Fiber} {w w' : World}
    {q : CallRequest} {p : ResumePoint}
    (h : f.activate env forced w = (.called q, g, w')) (hq : q.resume = some p) (v : Value) :
    ∃ s k σ σ' b a b₁ a₁, Suspends s k σ q σ' b p.statement a ∧ s.line = p.line ∧
      p.First b₁ a₁ ∧
      ((Statement.ofLine (b₁ ++ v.literal.toList ++ a₁)).kind = (Statement.ofLine p.line).kind ↔
        KeepsKind v b₁ a₁ (Statement.ofLine p.line).kind) ∧
      (b₁ = b → (Statement.ofLine p.line).kind ≠ .bare →
        KeepsKind v b₁ a₁ (Statement.ofLine p.line).kind) ∧
      (∀ names, b₁ = b → (Statement.ofLine p.line).kind = .bare →
        LineSite names b p.statement a → (∀ name ∈ names, PlainName name) →
        Inert v.literal.toList → cutAssignment? {} none v.literal.toList = none →
        (KeepsKind v b₁ a₁ (Statement.ofLine p.line).kind ↔
          (b₁.all isBlank → v.isReference = false))) ∧
      ((Statement.ofLine (b₁ ++ v.literal.toList ++ a₁)).kind = (Statement.ofLine p.line).kind →
        ∀ {env' : Environment} {i : Fiber} {child : FiberId} {budget : Nat} (u : World),
          i.cursor = g.cursor → i.received = some (.value v) → i.pending = some { p with child } →
          env'.limits.tokenBudget = budget + 1 →
          let line := b₁ ++ v.literal.toList ++ a₁
          let i' := { i with received := none, pending := none, cursor := i.cursor.advance }
          i.resume env' u = i'.afterStatement env' budget
            ((Fiber.execute (i'.scope env' line) i' (Statement.ofLine line)).run { world := u })) := by
  obtain ⟨s, k, σ, σ', hrun, hactive⟩ := Fiber.activate_called h
  obtain ⟨hline, b, a, hs⟩ := exists_suspends hrun hq
  obtain ⟨b₁, a₁, hfirst⟩ := hs.exists_first hline
  refine ⟨s, k, σ, σ', b, a, b₁, a₁, hs, hline.symm, hfirst, ?_, ?_, ?_, ?_⟩
  · rw [hline]
    exact hs.kind_eq_iff v (hline ▸ hfirst.line)
  · rintro rfl hk
    obtain rfl := hs.behind_eq hline hfirst
    obtain ⟨names, hsite⟩ := hs.site
    rw [hfirst.line] at hk ⊢
    exact hsite.keepsKind v hk
  · rintro names rfl hk hsite hn hv hu
    obtain rfl := hs.behind_eq hline hfirst
    rw [hk, KeepsKind, and_iff_left]
    rw [hfirst.line] at hk
    exact hsite.unassigned hn hv hu hk
  · intro hk env' i child budget u hc hv hp hn
    have hst := hs.stopping
    rw [← hline] at hst
    have hne {k : Statement.Kind} (hnk : (Statement.ofLine p.line).kind ≠ k) :
        (Statement.ofLine (b₁ ++ v.literal.toList ++ a₁)).kind ≠ k := by rwa [hk]
    have hnext := Fiber.nextStatement_cons { i with received := none, pending := none }
      (i.lines.drop (i.cursor.line + 1)) true (hc ▸ hactive) (hne hst.kind_ne.1)
      (hne hst.kind_ne.2.1) (hne hst.kind_ne.2.2)
    simp only [Fiber.resume, hv, hp, hfirst.replace, Fiber.run]
    rw [hn, Fiber.runStatements_found hnext]

/-- Where an activation stops for a value, if it does. -/
def Outcome.stop? : Outcome → Option ResumePoint
  | .called q => q.resume
  | _ => none

theorem Outcome.of_stop? {x : Outcome × Fiber × World} {p : ResumePoint}
    (h : x.1.stop? = some p) : ∃ q g w, x = (.called q, g, w) ∧ q.resume = some p := by
  obtain ⟨o, g, w⟩ := x
  cases o with
  | called q => exact ⟨q, g, w, rfl, h⟩
  | skipped | yielded | terminated => cases h

theorem resumed_kind_argument : ∃ q g w b₁ a₁,
    Fiber.activate keyEnvironment false { keyFiber with
      lines := ["log(k.turn())".toList], vars := {("k", .item ⟨0⟩)} } keyWorld =
        (.called q, g, w) ∧
    "log(k.turn())".toList = b₁ ++ "k.turn()".toList ++ a₁ ∧
    ((Statement.ofLine (b₁ ++ (Value.int 5).literal.toList ++ a₁)).kind = .bare ↔
      KeepsKind (.int 5) b₁ a₁ .bare) := by
  obtain ⟨q, g, w, hx, hq⟩ := Outcome.of_stop?
    (x := Fiber.activate keyEnvironment false { keyFiber with
      lines := ["log(k.turn())".toList], vars := {("k", .item ⟨0⟩)} } keyWorld)
    (p := ⟨"log(k.turn())".toList, "k.turn()".toList⟩) (by decide +kernel)
  have hk : (Statement.ofLine "log(k.turn())".toList).kind = .bare := by decide +kernel
  obtain ⟨-, -, -, -, -, -, b₁, a₁, -, -, hfirst, hiff, -⟩ := resumed_kind hx hq (.int 5)
  exact ⟨q, g, w, b₁, a₁, hx, hfirst.line, hk ▸ hiff⟩

/-- A reference at the start of a line makes it a comment. -/
theorem resumed_kind_reference : ∃ q σ',
    Suspends (keyScope "k.turn().mark()") keyFiber { world := keyWorld } q σ' []
      "k.turn()".toList ".mark()".toList ∧
    replaceFirst? "k.turn()".toList (Value.item ⟨0⟩).literal.toList
      (keyScope "k.turn().mark()").line = some "$Item[0].mark()".toList ∧
    (Statement.ofLine (keyScope "k.turn().mark()").line).kind = .bare ∧
    (Statement.ofLine "$Item[0].mark()".toList).kind = .blank := by
  obtain ⟨q, σ', hs⟩ := suspends_of_stop? (s := keyScope "k.turn().mark()")
    (f := keyFiber) (σ := { world := keyWorld }) (b := []) (r := "k.turn()".toList)
    (a := ".mark()".toList) (by decide +kernel) (by decide +kernel) (by decide +kernel)
  exact ⟨q, σ', hs, by decide +kernel, by decide +kernel, by decide +kernel⟩

end TileScript
