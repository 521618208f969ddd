import TileScript.Proofs.Occurrence

/-! # The order of calls

The calls written on a line, in the order in which they are made. A call is made after the calls in
its arguments and after everything to its left, so this is the order in which the calls end on the
line, and no two of them end in the same place.
-/

namespace TileScript

open Text Chain

/-- A call that is written on a line. -/
structure WrittenCall where
  /-- The line up to and including the call. -/
  place : List Char
  name : String
  deriving DecidableEq, Repr

mutual

/-- The calls in the tree of an expression in its place. -/
def Expr.written : Expr → List WrittenCall
  | .arithmetic _ es => Expr.writtenIn es
  | .chain ls => Link.writtenIn ls
termination_by e => sizeOf e

def Expr.writtenIn : List Expr → List WrittenCall
  | [] => []
  | e :: es => e.written ++ Expr.writtenIn es
termination_by es => sizeOf es

def Link.writtenIn : List Link → List WrittenCall
  | [] => []
  | .word _ :: ls => Link.writtenIn ls
  | .call name es place :: ls => Expr.writtenIn es ++ ⟨place, name⟩ :: Link.writtenIn ls
  | .malformed _ :: ls => Link.writtenIn ls
termination_by ls => sizeOf ls

end

/-- The operands of comparisons, from left to right. -/
def Condition.operands (ks : List (Clause × Span × Span)) : List Span :=
  ks.flatMap fun k => [k.2.1, k.2.2]

/-- The calls written on a line. -/
def Statement.written (line : List Char) : List WrittenCall :=
  let span := Span.trim ⟨[], line⟩
  match Statement.ofLine line with
  | .declare definition =>
    match splitDefinition definition with
    | .ok (_, value) => (Expr.ofSpan (span.suffix value)).written
    | .error _ => []
  | .branch condition =>
    (Condition.operands (Condition.clauseSpans none (wordSpans (span.suffix condition)))).flatMap
      fun q => (Expr.ofSpan q).written
  | .assign _ value => (Expr.ofSpan (span.suffix value)).written
  | .bare _ => Link.writtenIn (Link.ofSpan span)
  | .blank | .close | .otherwise => []

section Spans

namespace Text.Span

variable {p p' q q' : Span}

/-- `q` stands in `p`. -/
def In (q p : Span) : Prop := ∃ u v, p.text = u ++ q.text ++ v ∧ q.before = p.before ++ u

theorem In.trans {r : Span} (h : r.In q) (h' : q.In p) : r.In p := by
  obtain ⟨u, v, ht, hb⟩ := h
  obtain ⟨u', v', ht', hb'⟩ := h'
  exact ⟨u' ++ u, v ++ v', by simp [ht', ht], by simp [hb, hb']⟩

theorem trim_in (p : Span) : p.trim.In p := by
  obtain ⟨t, -, ht⟩ := exists_trim p.text
  exact ⟨p.text.takeWhile isBlank, t, ht, rfl⟩

theorem suffix_in {text : List Char} (h : text <:+ p.text) : (p.suffix text).In p := by
  obtain ⟨before, cs⟩ := p
  obtain ⟨u, rfl⟩ := h
  exact ⟨u, [], by simp, by rw [suffix_eq]⟩

/-- `p` ends before `q` begins. -/
def Apart (p q : Span) : Prop := p.before.length + p.text.length ≤ q.before.length

theorem Apart.of_in (h : p.Apart q) (hp : p'.In p) (hq : q'.In q) : p'.Apart q' := by
  obtain ⟨u, v, ht, hb⟩ := hp
  obtain ⟨u', -, -, hb'⟩ := hq
  simp only [Apart, ht, hb, hb', List.length_append] at h ⊢
  omega

variable {σ : Type} {cut : σ → Char → Bool} {next : σ → Char → σ} {s : σ}

theorem in_of_mem_split (h : q ∈ p.split cut next s) : q.In p := by
  obtain ⟨x, y, hx, hb, -⟩ := piece_of_mem_split h
  exact ⟨x, y, hx, hb⟩

theorem pairwise_split (p : Span) : (p.split cut next s).Pairwise Apart := by
  obtain ⟨before, cs⟩ := p
  unfold split
  generalize hps : splitWhere cut next s cs = ps
  induction ps generalizing s before cs with
  | nil => exact .nil
  | cons r rs ih =>
    obtain ⟨-, ⟨rfl, rfl⟩ | ⟨c, y, rfl, -, rfl⟩⟩ := of_splitWhere_eq_cons hps
    · exact List.pairwise_singleton ..
    · rw [locate_cons]
      refine List.pairwise_cons.2 ⟨fun q hq => ?_, ih _ _ rfl⟩
      obtain ⟨x, -, -, hb, -⟩ := piece_of_mem_split hq
      simp only [Apart, hb, List.length_append]
      omega

theorem pairwise_map {qs : List Span} {f : Span → Span} (h : qs.Pairwise Apart)
    (hf : ∀ q, (f q).In q) : (qs.map f).Pairwise Apart :=
  h.map f fun q r hqr => hqr.of_in (hf q) (hf r)

end Text.Span

theorem Chain.pairwise_operandSpans (op : ArithmeticOp) (p : Span) :
    (operandSpans op p).Pairwise Span.Apart :=
  Span.pairwise_map p.pairwise_split Span.trim_in

theorem Chain.pairwise_paramSpans (p : Span) : (paramSpans p).Pairwise Span.Apart :=
  (Span.pairwise_map p.pairwise_split Span.trim_in).filter _

theorem Chain.pairwise_fragmentSpans (p : Span) : (fragmentSpans p).Pairwise Span.Apart := by
  unfold fragmentSpans
  split
  · exact .nil
  · exact p.pairwise_split

namespace Condition

theorem of_mem_operands {joiner : Option Joiner} {ws : List Span} {q : Span}
    (h : q ∈ operands (clauseSpans joiner ws)) : ∃ w ∈ ws, q.In w := by
  obtain ⟨k, hk, hq⟩ := List.mem_flatMap.1 h
  obtain ⟨-, -, ⟨w, hw, hl⟩, v, hv, hr⟩ := of_mem_clauseSpans hk
  rcases List.mem_pair.1 hq with rfl | rfl
  · exact ⟨w, hw, hl ▸ leftSpan_eq w⟩
  · exact ⟨v, hv, hr ▸ rightSpan_eq v⟩

/-- Comparisons that are spelled one behind the other have their operands so. -/
theorem pairwise_operands (joiner : Option Joiner) {ws : List Span} (h : ws.Pairwise Span.Apart) :
    (operands (clauseSpans joiner ws)).Pairwise Span.Apart := by
  fun_induction clauseSpans joiner ws with
  | case1 | case4 | case6 => exact .nil
  | case2 joiner word ws _ ih | case3 joiner word ws _ _ ih => exact ih h.of_cons
  | case5 joiner word _ _ o r rest op _ opens left hl closes right hr ih =>
    obtain ⟨hword, ho⟩ := List.pairwise_cons.1 h
    obtain ⟨hright, hrest⟩ := List.pairwise_cons.1 ho.of_cons
    refine List.pairwise_cons.2 ⟨fun q hq => ?_, List.pairwise_cons.2 ⟨fun q hq => ?_, ih hrest⟩⟩
    · rcases List.mem_cons.1 hq with rfl | hq
      · exact (hword r (by simp)).of_in (leftSpan_eq _) (rightSpan_eq _)
      · obtain ⟨w, hw, hin⟩ := of_mem_operands hq
        exact (hword w (by simp [hw])).of_in (leftSpan_eq _) hin
    · obtain ⟨w, hw, hin⟩ := of_mem_operands hq
      exact (hright w hw).of_in (rightSpan_eq _) hin

end Condition

end Spans

/-- Calls that stand in a span and end one behind the other. -/
structure Text.Span.Lists (p : Span) (calls : List WrittenCall) : Prop where
  inside : ∀ c ∈ calls, ∃ t u, p.text = t ++ u ∧ t ≠ [] ∧ c.place = p.before ++ t
  ordered : calls.Pairwise fun c d => c.place.length < d.place.length

namespace Text.Span

variable {p q : Span} {calls : List WrittenCall}

theorem Lists.nil (p : Span) : p.Lists [] := ⟨by simp, .nil⟩

theorem Lists.mono (h : q.Lists calls) (hq : q.In p) : p.Lists calls where
  inside c hc := by
    obtain ⟨u, v, ht, hb⟩ := hq
    obtain ⟨t, w, hw, hne, hp⟩ := h.inside c hc
    exact ⟨u ++ t, w ++ v, by simp [ht, hw], by simp [hne], by simp [hp, hb]⟩
  ordered := h.ordered

theorem Lists.length_lt (h : p.Lists calls) {c : WrittenCall} (hc : c ∈ calls) :
    p.before.length < c.place.length := by
  obtain ⟨t, -, -, hne, hp⟩ := h.inside c hc
  have := List.length_pos_of_ne_nil hne
  rw [hp, List.length_append]
  omega

theorem Lists.length_le (h : p.Lists calls) {c : WrittenCall} (hc : c ∈ calls) :
    c.place.length ≤ p.before.length + p.text.length := by
  obtain ⟨t, u, ht, -, hp⟩ := h.inside c hc
  rw [hp, ht, List.length_append, List.length_append]
  omega

/-- The calls of spans that stand one behind the other end one behind the other. -/
theorem Lists.flatMap {qs : List Span} {f : Span → List WrittenCall} (hin : ∀ q ∈ qs, q.In p)
    (hap : qs.Pairwise Apart) (h : ∀ q ∈ qs, q.Lists (f q)) : p.Lists (qs.flatMap f) where
  inside c hc := by
    obtain ⟨q, hq, hc⟩ := List.mem_flatMap.1 hc
    exact ((h q hq).mono (hin q hq)).inside c hc
  ordered := by
    refine List.pairwise_flatMap.2 ⟨fun q hq => (h q hq).ordered, ?_⟩
    refine hap.imp_of_mem fun hq hr hqr c hc d hd => ?_
    have hle := (h _ hq).length_le hc
    have hlt := (h _ hr).length_lt hd
    exact Nat.lt_of_le_of_lt (hle.trans hqr) hlt

/-- A call ends behind the calls in its arguments `q`. -/
theorem Lists.call {u v w : List Char} (h : q.Lists calls) (ht : p.text = u ++ q.text ++ v ++ w)
    (hb : q.before = p.before ++ u) (hv : v ≠ []) (name : String) :
    p.Lists (calls ++ [⟨p.before ++ (u ++ q.text ++ v), name⟩]) where
  inside c hc := by
    rcases List.mem_append.1 hc with hc | hc
    · exact (h.mono ⟨u, v ++ w, by simp [ht], hb⟩).inside c hc
    · obtain rfl := List.mem_singleton.1 hc
      exact ⟨u ++ q.text ++ v, w, ht, by simp [hv], rfl⟩
  ordered := by
    refine List.pairwise_append.2 ⟨h.ordered, List.pairwise_singleton .., fun c hc d hd => ?_⟩
    obtain rfl := List.mem_singleton.1 hd
    have hle := h.length_le hc
    have hpos := List.length_pos_of_ne_nil hv
    simp only [hb, List.length_append] at hle ⊢
    omega

end Text.Span

section Trees

theorem Expr.writtenIn_map {α : Type} (f : α → Expr) (xs : List α) :
    Expr.writtenIn (xs.map f) = xs.flatMap fun x => (f x).written := by
  induction xs with
  | nil => rw [List.map_nil, Expr.writtenIn, List.flatMap_nil]
  | cons x xs ih => rw [List.map_cons, Expr.writtenIn, ih, List.flatMap_cons]

theorem Link.writtenIn_cons (l : Link) (ls : List Link) :
    Link.writtenIn (l :: ls) = Link.writtenIn [l] ++ Link.writtenIn ls := by
  cases l <;> simp [Link.writtenIn]

theorem Link.writtenIn_map {α : Type} (f : α → Link) (xs : List α) :
    Link.writtenIn (xs.map f) = xs.flatMap fun x => Link.writtenIn [f x] := by
  induction xs with
  | nil => rw [List.map_nil, Link.writtenIn, List.flatMap_nil]
  | cons x xs ih => rw [List.map_cons, Link.writtenIn_cons, ih, List.flatMap_cons]

mutual

/-- The calls of an expression stand in it, in order. -/
theorem Expr.ofSpan_lists (p : Span) : p.Lists (Expr.ofSpan p).written := by
  cases h : splitArithmetic? (trim p.text) with
  | none =>
    rw [Expr.ofSpan_chain h, Expr.written, Link.ofSpan_trim]
    exact Link.ofSpan_lists p
  | some x =>
    obtain ⟨op, ps⟩ := x
    rw [Expr.ofSpan_arithmetic h, Expr.written, Expr.writtenIn_map]
    refine .flatMap (fun q hq => ?_) (pairwise_operandSpans op p.trim) fun q hq => ?_
    · obtain ⟨l, x, m, n, y, t, ht, hb, -⟩ := operand_of_mem h hq
      exact ⟨l ++ x ++ m, n ++ y ++ t, by simp [ht], by simp [hb]⟩
    · have hlt := length_text_lt_of_mem_operandSpans h hq
      have hle := length_trim_le p.text
      exact Expr.ofSpan_lists q
termination_by 2 * p.text.length + 1
decreasing_by
  · omega
  · simp only [Span.text_trim] at hlt
    omega

/-- The calls of a chain stand in it, in order. -/
theorem Link.ofSpan_lists (p : Span) : p.Lists (Link.writtenIn (Link.ofSpan p)) := by
  rw [Link.ofSpan_eq, Link.writtenIn_map]
  have hin {q : Span} (hq : q ∈ fragmentSpans p.trim) : q.In p := by
    unfold fragmentSpans at hq
    split at hq
    · cases hq
    · exact (Span.in_of_mem_split hq).trans p.trim_in
  refine .flatMap (fun q hq => hin hq) (pairwise_fragmentSpans p.trim) fun q hq => ?_
  simp only [Link.readSpan]
  cases hs : Segment.ofFragment q.text with
  | accessor t => simpa [Link.writtenIn] using Span.Lists.nil q
  | call c =>
    dsimp only
    cases hc : splitCall? c with
    | none => simpa [Link.writtenIn] using Span.Lists.nil q
    | some x =>
      obtain ⟨name, raw⟩ := x
      have hstatement : false = true → splitArithmetic? (trim p.text) = none := by simp
      obtain ⟨l, x, m, n, y, t, ht, -, -, hqt, hqm, hcc⟩ := chainCall_of_mem hstatement hq hs hc
      have hcr := (of_splitCall? hcc.trimmed_call hcc.split).1
      have hargs : Span.Lists (paramList q.trim raw)
          ((paramSpans (paramList q.trim raw)).flatMap fun k => (Expr.ofSpan k).written) := by
        refine .flatMap (fun k hk => ?_) (pairwise_paramSpans _) fun k hk => ?_
        · obtain ⟨u, m', n', v, hr, hkb, -⟩ := param_of_mem hk
          exact ⟨u ++ m', n' ++ v, by simp [hr], by simp [hkb]⟩
        · have hlt := length_text_le_of_mem_paramSpans hk
          have hle : raw.length < p.text.length := by
            rw [ht, hcr]
            simp only [List.length_append, List.length_cons]
            omega
          exact Expr.ofSpan_lists k
      -- the place of a call ends with the parenthesis behind its arguments
      have hplace : trimEnd (q.before ++ q.text) =
          q.before ++ (m ++ (c.takeWhile (· != '(') ++ ['(']) ++ raw ++ [')']) := by
        rw [hqt, hcc.trimEnd_eq]
        conv_lhs => rw [hcr]
        simp
      dsimp only
      rw [Link.writtenIn, Expr.writtenIn_map, Link.writtenIn, hplace]
      refine hargs.call (w := n) ?_ ?_ (by simp) _
      · rw [hqt]
        conv_lhs => rw [hcr]
        simp [paramList]
      · rw [hqm]
        simp [paramList]
termination_by 2 * p.text.length
decreasing_by
  simp only [paramList] at hlt
  omega

end

/-- The calls of a line stand on it, in order. -/
theorem Statement.written_lists (line : List Char) :
    Span.Lists ⟨[], line⟩ (Statement.written line) := by
  have hs := Statement.ofLine_shape line
  have hcore : trim (trim line) = trim line := trim_trim line
  have hvalue {value : List Char} (h : value <:+ trim line) :
      (Span.suffix (Span.trim ⟨[], line⟩) value).In ⟨[], line⟩ :=
    (Span.suffix_in h).trans (Span.trim_in _)
  unfold Statement.written
  generalize Statement.ofLine line = st at hs
  cases hs with
  | blank | close | otherwise => exact .nil _
  | @declare d hd =>
    dsimp only
    split
    · next value hx =>
      obtain ⟨left, rfl, -⟩ := Statement.of_splitDefinition hx
      refine (Expr.ofSpan_lists _).mono (hvalue ?_)
      exact ⟨"var ".toList ++ left ++ ['='], by simp [hd]⟩
    · exact .nil _
  | emptyBranch hi => exact .nil _
  | @branch d hi =>
    refine .flatMap (fun q hq => ?_) (Condition.pairwise_operands none ?_) fun q _ =>
      Expr.ofSpan_lists q
    · obtain ⟨w, hw, hqw⟩ := Condition.of_mem_operands hq
      refine (hqw.trans (Span.in_of_mem_split (List.mem_of_mem_filter hw))).trans (hvalue ?_)
      rw [hi] at hcore ⊢
      have hd := eq_takeWhile_append_trim hcore
      exact ⟨"if ".toList ++ d.takeWhile isBlank, by rw [List.append_assoc, ← hd]⟩
    · exact (Span.pairwise_split _).filter _
  | @assign left right ho hc =>
    refine (Expr.ofSpan_lists _).mono (hvalue ?_)
    rw [of_cutAssignment? hc] at hcore ⊢
    have hr : right = right.takeWhile isBlank ++ trim right :=
      eq_takeWhile_append_trim (u := left ++ ['=']) (by simpa using hcore)
    refine ⟨left ++ ['='] ++ right.takeWhile isBlank, ?_⟩
    rw [List.append_assoc, ← hr, List.append_assoc]
    rfl
  | bare ho hn => exact (Link.ofSpan_lists _).mono (Span.trim_in _)

end Trees

end TileScript
