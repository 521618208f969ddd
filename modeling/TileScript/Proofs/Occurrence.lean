import TileScript.Fiber.Activate
import TileScript.Proofs.Lines
import TileScript.Proofs.Site

/-! # The occurrence that is evaluated

A line is evaluated once more, with trees that know their places: `Fiber.executeAt` is
`Fiber.execute`, but a call that interrupts it tells where on the line it stands. Both run in
lockstep.
-/

namespace TileScript

open Text Chain

namespace Text

/-- Whether a condition is cut at a character. -/
def cutsWords (_ : Unit) (c : Char) : Bool := c == ' '

/-- The words of a span as spans. -/
def wordSpans (p : Span) : List Span :=
  (p.split cutsWords (fun u _ => u) ()).filter (!·.text.isEmpty)

theorem splitOn_eq_splitWhere (cs : List Char) :
    cs.splitOn ' ' = splitWhere cutsWords (fun u _ => u) () cs := by
  induction cs with
  | nil => rfl
  | cons c cs ih =>
    rw [splitWhere, ← ih, List.splitOn, List.splitOn, List.splitOnP_cons_eq_if_modifyHead]
    rfl

theorem map_text_wordSpans (p : Span) : (wordSpans p).map Span.text = words p.text := by
  rw [wordSpans, words, splitOn_eq_splitWhere, ← Span.map_text_split, List.filter_map]
  rfl

theorem wordSpans_nil (before : List Char) : wordSpans ⟨before, []⟩ = [] := rfl

end Text

namespace Condition

/-- The left operand of a comparison as a span. -/
def leftSpan (word : Span) : Span :=
  ⟨word.before ++ if word.text.head? = some '(' then word.text.takeWhile isOpening else [],
    (stripOpens word.text).2⟩

/-- The right operand of a comparison as a span. -/
def rightSpan (word : Span) : Span :=
  ⟨word.before ++ if word.text.getLast? = some ')' then
      (word.text.reverse.dropWhile isClosing).reverse.takeWhile isBlank else [],
    (stripCloses word.text).2⟩

/-- The comparisons that a row of words spells, with their operands as spans. -/
def clauseSpans : Option Joiner → List Span → List (Clause × Span × Span)
  | _, [] => []
  | joiner, word :: ws =>
    if word.text = "and".toList then clauseSpans (some .and) ws
    else if word.text = "or".toList then clauseSpans (some .or) ws
    else
      match ws with
      | opWord :: rightWord :: rest =>
        match Comparison.ofText? (String.ofList opWord.text) with
        | none => []
        | some op =>
          let (opens, left) := stripOpens word.text
          let (closes, right) := stripCloses rightWord.text
          ({ joiner, opens, left, op, right, closes }, leftSpan word, rightSpan rightWord) ::
            clauseSpans none rest
      | _ => []

theorem map_fst_clauseSpans (joiner : Option Joiner) (ws : List Span) :
    (clauseSpans joiner ws).map Prod.fst = (scan joiner (ws.map Span.text)).1 := by
  fun_induction clauseSpans joiner ws with
  | case1 => rfl
  | case2 joiner word ws h ih =>
    rw [List.map_cons, scan.eq_def]
    simp only [h, if_true]
    exact ih
  | case3 joiner word ws h h' ih =>
    rw [List.map_cons, scan.eq_def]
    simp only [h', if_true]
    exact ih
  | case4 joiner word h h' o r rest ho =>
    rw [List.map_cons, scan.eq_def]
    simp only [h, h', if_false, List.map_cons, ho, List.map_nil]
  | case5 joiner word h h' o r rest op ho opens left hl closes right hr ih =>
    rw [List.map_cons, scan.eq_def]
    simp only [h, h', if_false, List.map_cons, ho, hl, hr, ih]
  | case6 joiner word ws h h' hws =>
    rw [List.map_cons, scan.eq_def]
    match ws with
    | [] | [_] => simp only [h, h', if_false, List.map_cons, List.map_nil]
    | o :: r :: rest => exact absurd rfl (hws o r rest)

theorem of_mem_clauseSpans {joiner : Option Joiner} {ws : List Span} {k : Clause × Span × Span}
    (h : k ∈ clauseSpans joiner ws) :
    k.1.left = k.2.1.text ∧ k.1.right = k.2.2.text ∧
      (∃ w ∈ ws, k.2.1 = leftSpan w) ∧ ∃ w ∈ ws, k.2.2 = rightSpan w := by
  fun_induction clauseSpans joiner ws with
  | case1 => cases h
  | case2 joiner word ws _ ih | case3 joiner word ws _ _ ih =>
    obtain ⟨hl, hr, ⟨w, hw, hlw⟩, v, hv, hrv⟩ := ih h
    exact ⟨hl, hr, ⟨w, List.mem_cons_of_mem _ hw, hlw⟩, v, List.mem_cons_of_mem _ hv, hrv⟩
  | case4 => cases h
  | case5 joiner word _ _ o r rest op _ opens left hl closes right hr ih =>
    rcases List.mem_cons.1 h with rfl | h
    · exact ⟨by simp [leftSpan, hl], by simp [rightSpan, hr], ⟨word, by simp, rfl⟩, r, by simp, rfl⟩
    · obtain ⟨hl, hr, ⟨w, hw, hlw⟩, v, hv, hrv⟩ := ih h
      exact ⟨hl, hr, ⟨w, by simp [hw], hlw⟩, v, by simp [hv], hrv⟩
  | case6 => cases h

theorem leftSpan_eq (w : Span) : ∃ g h, w.text = g ++ (leftSpan w).text ++ h ∧
    (leftSpan w).before = w.before ++ g := by
  unfold leftSpan stripOpens
  split
  · obtain ⟨t, -, ht⟩ := exists_trimEnd (w.text.dropWhile isOpening)
    refine ⟨w.text.takeWhile isOpening, t, ?_, rfl⟩
    rw [List.append_assoc, ← ht, List.takeWhile_append_dropWhile]
  · exact ⟨[], [], by simp, rfl⟩

theorem rightSpan_eq (w : Span) : ∃ g h, w.text = g ++ (rightSpan w).text ++ h ∧
    (rightSpan w).before = w.before ++ g := by
  unfold rightSpan stripCloses
  split
  · refine ⟨_, (w.text.reverse.takeWhile isClosing).reverse, ?_, rfl⟩
    dsimp only
    rw [trimStart, List.takeWhile_append_dropWhile, ← List.reverse_append,
      List.takeWhile_append_dropWhile, List.reverse_reverse]
  · exact ⟨[], [], by simp, rfl⟩

/-- The operands of a condition stand in it. -/
theorem operand_of_mem_clauseSpans {p q : Span} {k : Clause × Span × Span}
    (h : k ∈ clauseSpans none (wordSpans p)) (hq : k.2.1 = q ∨ k.2.2 = q) :
    ∃ g rest, p.text = g ++ q.text ++ rest ∧ q.before = p.before ++ g := by
  have hw : ∃ w ∈ wordSpans p, ∃ g rest, w.text = g ++ q.text ++ rest ∧
      q.before = w.before ++ g := by
    obtain ⟨-, -, ⟨w, hw, hl⟩, v, hv, hr⟩ := of_mem_clauseSpans h
    rcases hq with rfl | rfl
    · exact ⟨w, hw, hl ▸ leftSpan_eq w⟩
    · exact ⟨v, hv, hr ▸ rightSpan_eq v⟩
  obtain ⟨w, hw, g, rest, ht, hb⟩ := hw
  obtain ⟨x, y, hx, hwb, -⟩ := Span.piece_of_mem_split (List.mem_of_mem_filter hw)
  exact ⟨x ++ g, rest ++ y, by simp [hx, ht], by simp [hb, hwb]⟩

end Condition

namespace Fiber

/-- The result of one comparison whose operands are spans. -/
def compareAt (s : Scope) (k : Clause × Span × Span) : Eval Bool := do
  let a ← s.eval (.ofSpan k.2.1)
  let b ← s.eval (.ofSpan k.2.2)
  Eval.ofExcept (k.1.op.apply a b)

/-- Evaluates the line of a scope. A call that wants its value gives the text of the line up to and
including the call. -/
def executeAt (s : Scope) (f : Fiber) : Eval Fiber :=
  let line := Span.trim ⟨[], s.line⟩
  match Statement.ofLine s.line with
  | .declare definition => do
    let (name, value) ← Eval.ofExcept (Statement.splitDefinition definition)
    let name := String.ofList name
    if f.vars.contains name then Eval.fail (.variableDefined name)
    else
      let v ← s.eval (.ofSpan (line.suffix value))
      return { f with vars := f.vars.insert name v }
  | .branch condition => do
    let t ← (Condition.clauseSpans none (wordSpans (line.suffix condition))).foldlM
      (fun t k => return t.add k.1 (← compareAt s k)) {}
    let taken := (Condition.parse condition).conclude t
    return { f with cursor := f.cursor.enter (← Eval.ofExcept taken) }
  | .assign target value => do
    let name := String.ofList target
    if !Chain.isIdentifier target then Eval.fail .invalidVariable
    else if !f.vars.contains name then Eval.fail (.variableNotDefined name)
    else
      let v ← s.eval (.ofSpan (line.suffix value))
      return { f with vars := f.vars.insert name v }
  | .bare _ => do
    let _ ← s.evalChain false (Link.ofSpan line)
    return f
  | .blank | .close | .otherwise => return f

end Fiber

/-- `text` is evaluated as a part of the line `u ++ text ++ v`, as an expression or as a chain. -/
inductive LinePart : Bool → List Char → List Char → List Char → Prop where

  | declare {l left value t : List Char} : l.all isBlank → t.all isBlank → '=' ∉ left →
      Statement.isDefinable (trim left) = true →
      trim ("var ".toList ++ left ++ ['='] ++ value) = "var ".toList ++ left ++ ['='] ++ value →
      LinePart true (l ++ "var ".toList ++ left ++ ['=']) value t

  | assign {l left m value t : List Char} : l.all isBlank → m.all isBlank → t.all isBlank →
      trim value = value → trim (left ++ ['='] ++ m ++ value) = left ++ ['='] ++ m ++ value →
      Statement.Ordinary (left ++ ['='] ++ m ++ value) →
      cutAssignment? {} none (left ++ ['='] ++ m ++ value) = some (left, m ++ value) →
      LinePart true (l ++ left ++ ['='] ++ m) value t

  | bare {l chain t : List Char} : l.all isBlank → t.all isBlank → trim chain = chain →
      Statement.Ordinary chain → splitAssignment? chain = none → LinePart false l chain t

  | clause {l m g text rest t : List Char} {k : Clause × Span × Span} : l.all isBlank →
      m.all isBlank → t.all isBlank →
      trim ("if ".toList ++ m ++ g ++ text ++ rest) = "if ".toList ++ m ++ g ++ text ++ rest →
      trim (g ++ text ++ rest) = g ++ text ++ rest →
      k ∈ Condition.clauseSpans none (wordSpans ⟨l ++ "if ".toList ++ m, g ++ text ++ rest⟩) →
      (k.2.1 = ⟨l ++ "if ".toList ++ m ++ g, text⟩ ∨ k.2.2 = ⟨l ++ "if ".toList ++ m ++ g, text⟩) →
      LinePart true (l ++ "if ".toList ++ m ++ g) text (rest ++ t)

/-- A call of the line `b ++ r ++ a`, where `r` is its chain up to the call. -/
inductive LineSite : List (List Char) → List Char → List Char → List Char → Prop where

  | part {expr : Bool} {names : List (List Char)} {u b r a v : List Char} :
      LinePart expr u (b ++ r ++ a) v → Site expr names b r a → LineSite names (u ++ b) r (a ++ v)

/-- A call with the chain `r` stands on a line and ends at `place`. -/
def LineHolds (line r place : List Char) : Prop :=
  ∃ names b a, line = b ++ r ++ a ∧ place = b ++ r ∧ LineSite names b r a

theorem LinePart.holds {expr : Bool} {u text v r place : List Char} (h : LinePart expr u text v)
    (hr : Span.Holds ⟨u, text⟩ expr r place) : LineHolds (u ++ text ++ v) r place := by
  obtain ⟨names, b, a, ht, rfl, hs⟩ := hr
  obtain rfl : text = b ++ r ++ a := ht
  exact ⟨names, u ++ b, a ++ v, by simp, rfl, .part h hs⟩

namespace Fiber

variable (s : Scope) (f : Fiber)

theorem eval_alike {u text v : List Char} (h : LinePart true u text v)
    (hl : s.line = u ++ text ++ v) :
    Eval.Alike (LineHolds s.line) s.line (s.eval (.parse text)) (s.eval (.ofSpan ⟨u, text⟩)) := by
  refine s.eval_alike ((Expr.parse_alike ⟨u, text⟩).mono fun r place hr => ?_)
  rw [hl]
  exact h.holds hr

theorem compareAt_alike {l m condition t : List Char} {k : Clause × Span × Span}
    (hl : l.all isBlank) (hm : m.all isBlank) (ht : t.all isBlank)
    (hc : trim condition = condition)
    (hs : trim ("if ".toList ++ m ++ condition) = "if ".toList ++ m ++ condition)
    (hline : s.line = l ++ "if ".toList ++ m ++ condition ++ t)
    (hk : k ∈ Condition.clauseSpans none (wordSpans ⟨l ++ "if ".toList ++ m, condition⟩)) :
    Eval.Alike (LineHolds s.line) s.line (compareClause s k.1) (compareAt s k) := by
  have part {q : Span} (hq : k.2.1 = q ∨ k.2.2 = q) :
      Eval.Alike (LineHolds s.line) s.line (s.eval (.parse q.text)) (s.eval (.ofSpan q)) := by
    obtain ⟨g, rest, hp, hb⟩ := Condition.operand_of_mem_clauseSpans hk hq
    obtain ⟨before, text⟩ := q
    obtain rfl : condition = g ++ text ++ rest := hp
    obtain rfl : before = l ++ "if ".toList ++ m ++ g := hb
    refine eval_alike s (v := rest ++ t) (.clause hl hm ht ?_ hc hk hq) ?_
    · simpa using hs
    · simpa using hline
  obtain ⟨hleft, hright, -, -⟩ := Condition.of_mem_clauseSpans hk
  unfold compareClause compareAt
  rw [hleft, hright]
  exact (part (Or.inl rfl)).bind fun a => (part (Or.inr rfl)).bind fun b => .ofExcept _

theorem foldlM_alike {R : List Char → List Char → Prop} {line : List Char}
    {ks : List (Clause × Span × Span)}
    (h : ∀ k ∈ ks, Eval.Alike R line (compareClause s k.1) (compareAt s k)) (t : Tally) :
    Eval.Alike R line
      ((ks.map Prod.fst).foldlM (fun t k => return t.add k (← compareClause s k)) t)
      (ks.foldlM (fun t k => return t.add k.1 (← compareAt s k)) t) := by
  induction ks generalizing t with
  | nil => exact .pure t
  | cons k ks ih =>
    rw [List.map_cons, List.foldlM_cons, List.foldlM_cons]
    exact ((h k List.mem_cons_self).bind fun b => .pure _).bind fun t =>
      ih (fun k hk => h k (List.mem_cons_of_mem _ hk)) t

theorem clauses_eq (p : Span) :
    (Condition.parse p.text).clauses =
      (Condition.clauseSpans none (wordSpans p)).map Prod.fst := by
  rw [Condition.map_fst_clauseSpans, map_text_wordSpans]
  rfl

theorem branch_alike {R : List Char → List Char → Prop} {line : List Char} {p : Span}
    (h : ∀ k ∈ Condition.clauseSpans none (wordSpans p),
      Eval.Alike R line (compareClause s k.1) (compareAt s k)) :
    Eval.Alike R line (execute s f (.branch p.text)) (do
      let t ← (Condition.clauseSpans none (wordSpans p)).foldlM
        (fun t k => return t.add k.1 (← compareAt s k)) {}
      let taken := (Condition.parse p.text).conclude t
      return { f with cursor := f.cursor.enter (← Eval.ofExcept taken) }) := by
  dsimp only [execute]
  rw [Condition.evaluate, bind_assoc, clauses_eq]
  simp only [pure_bind]
  exact (foldlM_alike s h {}).bind fun t => (Eval.Alike.ofExcept _).bind fun b => .pure _

/-- A line is evaluated in lockstep with and without places. -/
theorem execute_alike :
    Eval.Alike (LineHolds s.line) s.line (execute s f (Statement.ofLine s.line))
      (executeAt s f) := by
  obtain ⟨t, ht, hline⟩ := exists_trim s.line
  have hl : (s.line.takeWhile isBlank).all isBlank := by simp
  have hspan : Span.trim ⟨[], s.line⟩ = ⟨s.line.takeWhile isBlank, trim s.line⟩ := rfl
  have hcore : trim (trim s.line) = trim s.line := trim_trim _
  have hs := Statement.ofLine_shape s.line
  unfold executeAt
  rw [hspan]
  generalize s.line.takeWhile isBlank = l at hl hline hspan
  generalize trim s.line = core at hs hline hcore hspan
  generalize Statement.ofLine s.line = st at hs
  cases hs with
  | blank | close | otherwise => exact .pure f
  | @declare d hd =>
    dsimp only [execute]
    cases hx : Statement.splitDefinition d with
    | error e => exact .fail e
    | ok x =>
      obtain ⟨name, value⟩ := x
      obtain ⟨left, rfl, hn, hdef⟩ := Statement.of_splitDefinition hx
      have hd : core = "var ".toList ++ left ++ ['='] ++ value := by simpa using hd
      subst hd
      have hp : LinePart true (l ++ "var ".toList ++ left ++ ['=']) value t :=
        .declare hl ht hn hdef hcore
      simp only [Eval.ofExcept, pure_bind]
      split
      · exact .fail _
      · rw [Span.suffix_eq]
        refine Eval.Alike.bind ?_ fun v => .pure _
        simpa using eval_alike s hp (by simpa using hline)
  | emptyBranch hi =>
    subst hi
    -- without words there is nothing to compare
    exact branch_alike s f (p := Span.suffix ⟨l, "if".toList⟩ []) fun k hk => absurd hk (by
      rw [Span.suffix, wordSpans_nil, Condition.clauseSpans]
      exact List.not_mem_nil)
  | @branch d hi =>
    subst hi
    have hd := eq_takeWhile_append_trim hcore
    have hm : (d.takeWhile isBlank).all isBlank := by simp
    generalize d.takeWhile isBlank = m at hd hm
    have hc : trim (trim d) = trim d := trim_trim d
    generalize trim d = condition at hd hc
    subst hd
    have hp : Span.suffix ⟨l, "if ".toList ++ (m ++ condition)⟩ condition =
        ⟨l ++ "if ".toList ++ m, condition⟩ := by
      rw [← List.append_assoc, Span.suffix_eq, List.append_assoc]
    dsimp only
    rw [hp]
    refine branch_alike s f (p := ⟨l ++ "if ".toList ++ m, condition⟩) fun k hk => ?_
    exact compareAt_alike s hl hm ht hc (by simpa using hcore) (by simpa using hline) hk
  | @assign left right ho hc =>
    obtain rfl := of_cutAssignment? hc
    dsimp only [execute]
    split
    · exact .fail _
    · split
      · exact .fail _
      · have hv : right = right.takeWhile isBlank ++ trim right :=
          eq_takeWhile_append_trim (u := left ++ ['=']) (by simpa using hcore)
        have hm : (right.takeWhile isBlank).all isBlank := by simp
        generalize right.takeWhile isBlank = m at hv hm
        have hr : trim (trim right) = trim right := trim_trim right
        generalize trim right = value at hv hr
        subst hv
        have hp : LinePart true (l ++ left ++ ['='] ++ m) value t :=
          .assign hl hm ht hr (by simpa using hcore) (by simpa using ho) (by simpa using hc)
        have hspan : Span.suffix ⟨l, left ++ '=' :: (m ++ value)⟩ value =
            ⟨l ++ left ++ ['='] ++ m, value⟩ := by
          rw [show left ++ '=' :: (m ++ value) = left ++ ['='] ++ m ++ value by simp,
            Span.suffix_eq]
          simp
        rw [hspan]
        exact (eval_alike s hp (by simpa using hline)).bind fun v => .pure _
  | bare ho hn =>
    have hp : LinePart false l core t := .bare hl ht hcore ho hn
    refine (s.evalChain_alike false ?_).bind fun v => .pure f
    refine (Link.parse_alike false ⟨l, core⟩ (by simp)).mono fun r place hr => ?_
    rw [hline]
    exact hp.holds hr

end Fiber

end TileScript
