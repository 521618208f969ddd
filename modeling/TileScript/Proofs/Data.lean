import TileScript.Proofs.Dispatch
import TileScript.Proofs.Kind
import TileScript.Proofs.Words

/-! # Returned values are data

A value that comes back to an argument of a call is read as this one argument again, and the line
calls nothing that was not written on it, provided that the literal of the value is inert.
-/

namespace TileScript

open Text Chain

section Literal

variable {v : Value} {q : List Char}

/-- A literal that is no text in quotes has no parenthesis. -/
theorem Value.Spells.head?_or_not_mem (h : v.Spells q) : q.head? = some '"' ∨ '(' ∉ q := by
  have hd (k : Nat) : '(' ∉ Nat.toDigits 10 k := by
    intro hm
    cases Nat.isDigit_of_mem_toDigits (by decide) (by decide) hm
  cases h with
  | text => exact Or.inl rfl
  | nat => exact Or.inr (hd _)
  | neg => exact Or.inr (by simp [hd])
  | entity | item => exact Or.inr (by simp [hd])

/-- An inert literal is read as a single word. -/
theorem Expr.parse_literal (hs : v.Spells q) (hq : Inert q) :
    Expr.parse q = .chain [.word q] := by
  have hn : splitArithmetic? q = none :=
    splitArithmetic?_eq_none_iff.2 fun op => hq.uncut 0 (.operands op)
  have hf : fragments q = [] ++ q :: [] := by
    rw [fragments_eq]
    exact splitWhere_uncut (hq.uncut 0 .chain)
  have hw : Segment.ofFragment q = .accessor q := by
    rw [Segment.ofFragment, hs.trim_eq, if_neg]
    rcases hs.head?_or_not_mem with h | h
    · simp [h]
    · simp [h]
  rw [Expr.parse_chain (by rwa [hs.trim_eq]), hs.trim_eq,
    Link.parse_fragments hs.trim_eq hs.ne_nil hf, hw]
  rfl

/-- A literal evaluates to its value, if what it refers to exists. -/
theorem Scope.eval_literal (s : Scope) (hs : v.Spells q) {σ : EvalState}
    (he : valueExists σ.world v = true) :
    (s.eval (.chain [.word q])).run σ = .ok v σ := by
  have hne (name : String) (hn : name.toList.head?.all fun c =>
      c != '-' && !c.isDigit && c != '"' && c != '$') : String.ofList q ≠ name := by
    rintro rfl
    obtain ⟨c, hc, h⟩ := hs.head?_eq
    rw [String.toList_ofList, hc] at hn
    rcases h with rfl | h | rfl | rfl <;> simp_all
  have hroot : s.resolveRoot σ.world q = .ok (some v, .target v) := by
    rw [resolveRoot]
    simp only [hne "_" (by decide), hne "items" (by decide), if_false,
      hs.ofLiteral?_eq, he, if_true]
  rw [eval, evalChain]
  change (Eval.ofExcept (s.resolveRoot σ.world q) >>= fun x =>
    s.evalLinks true x.1 x.2 []).run σ = .ok v σ
  rw [hroot, Eval.ofExcept, pure_bind, evalLinks]
  rfl

end Literal

/-- The chain `r` is by itself an argument of a call on the line `b ++ r ++ a`. -/
inductive LineArgument : List (List Char) → List Char → List Char → List Char → Prop where

  | part {expr : Bool} {names : List (List Char)} {u b r a v : List Char} :
      LinePart expr u (b ++ r ++ a) v → ArgumentSite expr names b r a →
      LineArgument names (u ++ b) r (a ++ v)

section LineArgument

variable {names : List (List Char)} {b r a q : List Char} {v : Value}

theorem Statement.exprs_branch (condition : List Char) :
    (Statement.branch condition).exprs = (Condition.operandTexts condition).map Expr.parse := by
  rw [exprs, Condition.operandTexts, List.map_flatMap]
  rfl

theorem Statement.exprs_declare {left value : List Char} (hn : '=' ∉ left)
    (hd : isDefinable (trim left) = true) :
    (Statement.declare (left ++ ['='] ++ value)).exprs = [.parse value] := by
  rw [exprs, List.append_assoc, List.singleton_append, splitDefinition_eq hn hd]

/-- On a line, too, an inert literal in the place of an argument changes this argument only. -/
theorem LineArgument.exchange (h : LineArgument names b r a)
    (hn : ∀ name ∈ names, PlainName name) (hr : r.getLast? = some ')') (hs : v.Spells q)
    (hq : Inert q)
    (hspace : (Statement.ofLine (b ++ r ++ a)).kind = .branch → ' ' ∉ q) :
    (Statement.ofLine (b ++ q ++ a)).kind = (Statement.ofLine (b ++ r ++ a)).kind ∧
      ∃ es fs e e', (Statement.ofLine (b ++ r ++ a)).exprs = es ++ e :: fs ∧
        (Statement.ofLine (b ++ q ++ a)).exprs = es ++ e' :: fs ∧
        Expr.Exchange (.parse r) (.chain [.word q]) e e' := by
  obtain ⟨hp, hsite⟩ := h
  rename_i expr u b a w
  have hex := hsite.exchange hn hr hs hq
  rw [Expr.parse_literal hs hq] at hex
  obtain ⟨hb, ha, hnames⟩ := hsite.around
  have htrim {g h : List Char} (ht : trim (g ++ (b ++ r ++ a) ++ h) = g ++ (b ++ r ++ a) ++ h) :
      trim (g ++ (b ++ q ++ a) ++ h) = g ++ (b ++ q ++ a) ++ h := by
    simpa using trim_exchange hsite.trim_eq hr hs (b := g ++ b) (a := a ++ h) (by simpa using ht)
  have hold : u ++ b ++ r ++ (a ++ w) = u ++ (b ++ r ++ a) ++ w := by simp
  have hnew : u ++ b ++ q ++ (a ++ w) = u ++ (b ++ q ++ a) ++ w := by simp
  rw [hold] at hspace ⊢
  rw [hnew]
  generalize hc : b ++ r ++ a = text at hp hspace hex htrim ⊢
  cases hp with
  | @declare l left _ _ hl htb hne hd htr =>
    have htr' := htrim (g := "var ".toList ++ left ++ ['=']) (h := []) (by simpa using htr)
    rw [List.append_nil] at htr'
    rw [Statement.ofLine_padded_declare hl htb htr, Statement.ofLine_padded_declare hl htb htr',
      Statement.exprs_declare hne hd, Statement.exprs_declare hne hd]
    exact ⟨rfl, [], [], _, _, rfl, rfl, hex⟩
  | @assign l left m _ _ hl hm htb htv htr ho hcut =>
    have htr' := htrim (g := left ++ ['='] ++ m) (h := []) (by simpa using htr)
    rw [List.append_nil] at htr'
    have ho' : Statement.Ordinary (left ++ ['='] ++ m ++ (b ++ q ++ a)) := by
      have ho : Statement.Ordinary (left ++ '=' :: (m ++ text)) := by simpa using ho
      simpa using ho.replace (Or.inl rfl) (m ++ (b ++ q ++ a))
    have hhead : (m ++ (b ++ q ++ a)).head? ≠ some '=' := by
      have hne := head?_of_cutAssignment? hcut
      have hmb : m ++ b ≠ [] := by simp [List.ne_nil_of_mem hb]
      rw [← hc, List.append_assoc b, ← List.append_assoc m,
        List.head?_append_of_ne_nil _ hmb] at hne
      rwa [List.append_assoc b, ← List.append_assoc m, List.head?_append_of_ne_nil _ hmb]
    have hcut' := cutAssignment?_replace (r := m ++ text) (by simpa using hcut) hhead
    have hpad : trim (m ++ text) = text := by simpa using trim_pad hm (t := []) rfl htv
    have hpad' : trim (m ++ (b ++ q ++ a)) = b ++ q ++ a := by
      have htv' := htrim (g := []) (h := []) (by simpa using htv)
      simpa using trim_pad hm (t := []) rfl (by simpa using htv')
    rw [Statement.ofLine_padded_assign hl htb htr ho hcut,
      Statement.ofLine_padded_assign hl htb htr' ho' (by simpa using hcut'), hpad, hpad']
    exact ⟨rfl, [], [], _, _, rfl, rfl, hex⟩
  | @bare l _ _ hl htb htr ho hcut =>
    have htr' := htrim (g := []) (h := []) (by simpa using htr)
    rw [List.nil_append, List.append_nil] at htr'
    have ho' : Statement.Ordinary (b ++ q ++ a) := by
      obtain ⟨x, y, rfl⟩ := List.append_of_mem hb
      rw [← hc] at ho
      have ho : Statement.Ordinary (x ++ '(' :: (y ++ r ++ a)) := by simpa using ho
      simpa using ho.replace (Or.inr rfl) (y ++ q ++ a)
    have hcut' : splitAssignment? (b ++ q ++ a) = none := by
      have hdepth : cutAssignment? ⟨names.length, false⟩ none q = none := by
        obtain ⟨name, names, rfl⟩ := List.exists_cons_of_ne_nil hnames
        exact hq.unassigned names.length
      have hcut : cutAssignment? {} none (b ++ r ++ a) = none := by
        simpa [splitAssignment?, hc] using hcut
      rw [splitAssignment?, (hsite.hole hn).replace_unassigned hr hs hq hdepth hcut]
      rfl
    rw [Statement.ofLine_padded_bare hl htb htr ho hcut,
      Statement.ofLine_padded_bare hl htb htr' ho' hcut']
    exact ⟨rfl, [], [], _, _, rfl, rfl, hex⟩
  | @clause l m g _ rest t k hl hm htb htr htc hk hk' =>
    have hline (core : List Char) : l ++ "if ".toList ++ m ++ g ++ core ++ (rest ++ t) =
        l ++ "if ".toList ++ m ++ (g ++ core ++ rest) ++ t := by simp
    have hbranch {core : List Char}
        (htr : trim ("if ".toList ++ m ++ g ++ core ++ rest) =
          "if ".toList ++ m ++ g ++ core ++ rest)
        (htc : trim (g ++ core ++ rest) = g ++ core ++ rest) :
        Statement.ofLine (l ++ "if ".toList ++ m ++ g ++ core ++ (rest ++ t)) =
          .branch (g ++ core ++ rest) := by
      have hpad : trim (m ++ (g ++ core ++ rest)) = g ++ core ++ rest := by
        simpa using trim_pad hm (t := []) rfl htc
      rw [hline, Statement.ofLine_padded_branch hl htb (by simpa using htr), hpad]
    rw [hbranch htr htc] at hspace ⊢
    rw [hbranch (htrim htr) (htrim htc)]
    subst hc
    obtain ⟨xs, ys, hxs, hys⟩ := Condition.operandTexts_replace hk hk' hb (List.ne_nil_of_mem ha)
      (hspace rfl)
    rw [Statement.exprs_branch, Statement.exprs_branch, hxs, hys, List.map_append, List.map_append,
      List.map_cons, List.map_cons]
    exact ⟨rfl, _, _, _, _, rfl, rfl, hex⟩

end LineArgument

/-- On the line `b ++ r ++ a` the literal of `v` in the place of `r` is one argument as before. -/
structure OnlyData (v : Value) (b r a : List Char) : Prop where
  kind : (Statement.ofLine (b ++ v.literal.toList ++ a)).kind = (Statement.ofLine (b ++ r ++ a)).kind
  exchange : ∃ es fs e e', (Statement.ofLine (b ++ r ++ a)).exprs = es ++ e :: fs ∧
    (Statement.ofLine (b ++ v.literal.toList ++ a)).exprs = es ++ e' :: fs ∧
    Expr.Exchange (.parse r) (.chain [.word v.literal.toList]) e e'

section OnlyData

variable {v : Value} {b r a : List Char}

/-- The calls of the resumed line are written on the original line. -/
theorem OnlyData.calls (h : OnlyData v b r a) :
    List.Sublist (Expr.callsIn (Statement.ofLine (b ++ v.literal.toList ++ a)).exprs)
      (Expr.callsIn (Statement.ofLine (b ++ r ++ a)).exprs) := by
  obtain ⟨es, fs, e, e', hold, hnew, hex⟩ := h.exchange
  obtain ⟨xs, ys, he, he'⟩ := hex.calls_eq
  have hw : (Expr.chain [.word v.literal.toList]).calls = [] := by
    simp [Expr.calls, Link.callsIn]
  rw [hold, hnew, Expr.callsIn_append, Expr.callsIn_append, Expr.callsIn, Expr.callsIn, he, he', hw,
    List.append_nil]
  refine (List.Sublist.refl _).append (List.Sublist.append ?_ (List.Sublist.refl _))
  exact (List.sublist_append_left xs _).append (List.Sublist.refl ys)

theorem OnlyData.execute_eq (h : OnlyData v b r a) {s s' : Scope}
    (ha : s.AgreesOn s' (Expr.callsIn (Statement.ofLine (b ++ r ++ a)).exprs)) (f : Fiber) :
    Fiber.execute s f (Statement.ofLine (b ++ v.literal.toList ++ a)) =
      Fiber.execute s' f (Statement.ofLine (b ++ v.literal.toList ++ a)) :=
  Fiber.execute_agrees (ha.mono h.calls.subset) f

end OnlyData

end TileScript
