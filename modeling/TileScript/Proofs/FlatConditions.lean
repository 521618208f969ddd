import TileScript.Proofs.Groups
import TileScript.Proofs.Queries

/-! # Conditions without groups

A row of comparisons in which no left operand begins with a parenthesis comes to the value of its
comparisons joined from the left. Left operands are compared as they are written. A right operand is
compared as it is written unless it ends with a parenthesis, because every parenthesis there is
taken for the end of a group, also that of a call.
-/

namespace TileScript

open Text

namespace Query

/-- The words of a comparison. -/
def words (q : Query) : List (List Char) := [q.left, q.op.text.toList, q.right]

/-- A comparison whose left operand neither opens a group nor is taken for a joiner. -/
structure Ungrouped (q : Query) : Prop where
  ne_and : q.left ≠ "and".toList
  ne_or : q.left ≠ "or".toList
  not_opening : q.left.head? ≠ some '('

/-- The comparison without the parentheses at its end. -/
def stripped (q : Query) : Query := { q with right := (Condition.stripCloses q.right).2 }

end Query

namespace Condition

theorem length_stripCloses_lt {w : List Char} (h : w.getLast? = some ')') :
    (stripCloses w).2.length < w.length := by
  obtain ⟨v, rfl⟩ := List.getLast?_eq_some_iff.1 h
  have hd : (stripCloses (v ++ [')'])).2 = trimStart (v.reverse.dropWhile isClosing).reverse := by
    simp [stripCloses, isClosing]
  have ht := length_trimStart_le (v.reverse.dropWhile isClosing).reverse
  have hw := length_dropWhile_le isClosing v.reverse
  rw [List.length_reverse] at ht hw
  rw [hd, List.length_append, List.length_singleton]
  omega

/-- A right operand loses the parentheses at its end. -/
theorem stripCloses_eq_self_iff (w : List Char) :
    (stripCloses w).2 = w ↔ w.getLast? ≠ some ')' := by
  constructor
  · intro h hl
    have hlt := length_stripCloses_lt hl
    rw [h] at hlt
    omega
  · intro h
    rw [stripCloses, if_neg h]

theorem stripped_eq_self_iff (q : Query) : q.stripped = q ↔ q.right.getLast? ≠ some ')' := by
  rw [← stripCloses_eq_self_iff]
  constructor
  · exact fun h => congrArg Query.right h
  · exact fun h => by rw [Query.stripped, h]

/-- The words of comparisons with joiners between them. -/
def rowWords (q : Query) (rest : List (Joiner × Query)) : List (List Char) :=
  q.words ++ rest.flatMap fun x => x.1.word :: x.2.words

/-- The value of comparisons with joiners between them, from left to right. All of them are made. -/
def rowValue {m : Type → Type} [Monad m] (ask : Query → m Bool) (q : Query)
    (rest : List (Joiner × Query)) : m Bool := do
  rest.foldlM (fun a x => return Joiner.combine (some x.1) a (← ask x.2)) (← ask q)

theorem rowValue_congr {m : Type → Type} [Monad m] {ask ask' : Query → m Bool} {q : Query}
    {rest : List (Joiner × Query)} (h : ∀ r ∈ q :: rest.map Prod.snd, ask r = ask' r) :
    rowValue ask q rest = rowValue ask' q rest := by
  rw [rowValue, rowValue, h q List.mem_cons_self]
  congr 1
  funext a
  replace h : ∀ x ∈ rest, ask x.2 = ask' x.2 := fun x hx =>
    h x.2 (List.mem_cons_of_mem q (List.mem_map_of_mem hx))
  induction rest generalizing a with
  | nil => rfl
  | cons x rest ih =>
    rw [List.foldlM_cons, List.foldlM_cons, h x List.mem_cons_self]
    congr 1
    funext b
    exact ih b fun y hy => h y (List.mem_cons_of_mem x hy)

/-- The clause of a comparison behind a joiner. -/
def rowClause (joiner : Option Joiner) (q : Query) : Clause :=
  clauseOf joiner q.op q.left q.right

theorem scan_words_comparison {q : Query} (h : q.Ungrouped) (joiner : Option Joiner)
    (ws : List (List Char)) :
    scan joiner (q.words ++ ws) = (rowClause joiner q :: (scan none ws).1, (scan none ws).2) := by
  exact scan_comparison h.ne_and h.ne_or (ofText?_ofList q.op) joiner ws

theorem scan_row {rest : List (Joiner × Query)} (h : ∀ x ∈ rest, x.2.Ungrouped) :
    scan none (rest.flatMap fun x => x.1.word :: x.2.words) =
      (rest.map fun x => rowClause (some x.1) x.2, none) := by
  induction rest with
  | nil => rfl
  | cons x rest ih =>
    rw [List.flatMap_cons, List.cons_append, scan_joiner,
      scan_words_comparison (h x List.mem_cons_self),
      ih fun y hy => h y (List.mem_cons_of_mem x hy)]
    rfl

theorem query_rowClause {q : Query} (h : q.Ungrouped) (joiner : Option Joiner) :
    (rowClause joiner q).query = q.stripped ∧ (rowClause joiner q).opens = 0 := by
  simp [rowClause, clauseOf, stripOpens, h.not_opening, Clause.query, Query.stripped]

theorem parse_row {text : List Char} {q : Query} {rest : List (Joiner × Query)}
    (hw : words text = rowWords q rest) (hq : q.Ungrouped) (hr : ∀ x ∈ rest, x.2.Ungrouped) :
    (parse text).clauses = rowClause none q :: rest.map (fun x => rowClause (some x.1) x.2) ∧
      (parse text).fault = none := by
  unfold parse
  rw [hw, rowWords, scan_words_comparison hq, scan_row hr]
  exact ⟨rfl, rfl⟩

end Condition

/-- A clause that opens no group is joined to what stands before it, also if it seems to close
groups: none is open. -/
theorem Tally.add_of_opens_eq_zero {t : Tally} {k : Clause} {j : Joiner} {a : Bool}
    (ht : t.value = some a) (ho : t.outer = {}) (hk : k.opens = 0) (hj : k.joiner = some j)
    (r : Bool) :
    (t.add k r).value = some (Joiner.combine (some j) a r) ∧ (t.add k r).outer = {} := by
  have hle : ¬ t.depth < t.depth + k.opens - k.closes := by omega
  unfold Tally.add
  simp only [ht, hj, hle, if_false, ho]
  split <;> simp

namespace Condition

section Value

variable {m : Type → Type} [Monad m] [LawfulMonad m] {ask : Query → m Bool} {q : Query}
  {rest : List (Joiner × Query)}

/-- Once there is a value, the clauses of a row are joined to it from the left. -/
theorem value_foldlM_row (ask : Query → m Bool) (hr : ∀ x ∈ rest, x.2.Ungrouped) {t : Tally}
    {a : Bool} (ht : t.value = some a) (ho : t.outer = {}) :
    Tally.value <$> (rest.map fun x => rowClause (some x.1) x.2).foldlM
        (fun t k => return t.add k (← ask k.query)) t =
      some <$> rest.foldlM
        (fun a x => return Joiner.combine (some x.1) a (← ask x.2.stripped)) a := by
  induction rest generalizing t a with
  | nil => simp [ht]
  | cons x rest ih =>
    obtain ⟨hq, hopens⟩ := query_rowClause (hr x List.mem_cons_self) (some x.1)
    have hadd := Tally.add_of_opens_eq_zero (j := x.1) ht ho hopens rfl
    have ih (b : Bool) := ih (fun y hy => hr y (List.mem_cons_of_mem x hy)) (hadd b).1 (hadd b).2
    simp only [List.map_cons, List.foldlM_cons, bind_assoc, pure_bind, map_bind, ih, hq]

/-- A condition without groups comes to the value of its row. -/
theorem evaluate_row {text : List Char} (hw : words text = rowWords q rest) (hq : q.Ungrouped)
    (hr : ∀ x ∈ rest, x.2.Ungrouped) :
    (parse text).evaluate (fun k => ask k.query) =
      Except.ok <$> rowValue (fun r => ask r.stripped) q rest := by
  obtain ⟨hclauses, hfault⟩ := parse_row hw hq hr
  obtain ⟨hquery, -⟩ := query_rowClause hq none
  have hfirst (b : Bool) :=
    value_foldlM_row ask hr (t := Tally.add {} (rowClause none q) b) (a := b) rfl rfl
  -- the outcome depends on the tally by its value alone
  obtain ⟨finish, hfinish, hok⟩ : ∃ finish : Option Bool → Except ScriptError Bool,
      (parse text).conclude = finish ∘ Tally.value ∧ ∀ b, finish (some b) = .ok b := by
    refine ⟨fun v => v.elim (.error (.invalidCondition (String.ofList text))) .ok, ?_, fun _ => rfl⟩
    funext t
    rw [conclude, hfault, Function.comp_apply]
    cases t.value <;> rfl
  have hcomp : (parse text).evaluate (fun k => ask k.query) = ask q.stripped >>= fun b =>
      finish <$> Tally.value <$> (rest.map fun x => rowClause (some x.1) x.2).foldlM
        (fun t k => return t.add k (← ask k.query)) (Tally.add {} (rowClause none q) b) := by
    rw [evaluate, hclauses, hfinish, ← hquery]
    simp only [List.foldlM_cons, bind_assoc, pure_bind, map_eq_pure_bind, Function.comp_apply]
  rw [hcomp]
  simp only [hfirst, rowValue, map_eq_pure_bind, bind_assoc, pure_bind, hok]

end Value

theorem queries_row {text : List Char} {q : Query} {rest : List (Joiner × Query)}
    (hw : words text = rowWords q rest) (hq : q.Ungrouped) (hr : ∀ x ∈ rest, x.2.Ungrouped) :
    (parse text).queries = (q :: rest.map Prod.snd).map Query.stripped := by
  rw [queries, (parse_row hw hq hr).1, List.map_cons, List.map_cons, (query_rowClause hq none).1,
    List.map_map, List.map_map]
  congr 1
  exact List.map_congr_left fun x hx => (query_rowClause (hr x hx) (some x.1)).1

/-- A condition without groups has the value of its comparisons from left to right, and all operands
are compared as they are written if and only if no right operand ends with a parenthesis. -/
theorem operands_intact {text : List Char} {q : Query} {rest : List (Joiner × Query)}
    (hw : words text = rowWords q rest) (h : ∀ r ∈ q :: rest.map Prod.snd, r.Ungrouped) :
    (∀ {m : Type → Type} [Monad m] [LawfulMonad m] (ask : Query → m Bool),
      (parse text).evaluate (fun k => ask k.query) =
        Except.ok <$> rowValue (fun r => ask r.stripped) q rest) ∧
    ((parse text).queries = q :: rest.map Prod.snd ↔
      ∀ r ∈ q :: rest.map Prod.snd, r.right.getLast? ≠ some ')') ∧
    ((∀ r ∈ q :: rest.map Prod.snd, r.right.getLast? ≠ some ')') →
      ∀ {m : Type → Type} [Monad m] [LawfulMonad m] (ask : Query → m Bool),
        (parse text).evaluate (fun k => ask k.query) = Except.ok <$> rowValue ask q rest) := by
  have hq : q.Ungrouped := h q List.mem_cons_self
  have hr : ∀ x ∈ rest, x.2.Ungrouped := fun x hx =>
    h x.2 (List.mem_cons_of_mem q (List.mem_map_of_mem hx))
  refine ⟨fun ask => evaluate_row hw hq hr, ?_, fun hp m _ _ ask => ?_⟩
  · rw [queries_row hw hq hr]
    nth_rewrite 2 [← List.map_id (q :: rest.map Prod.snd)]
    rw [List.map_inj_left]
    exact forall₂_congr fun r _ => stripped_eq_self_iff r
  · rw [evaluate_row hw hq hr, rowValue_congr]
    exact fun r hr => congrArg ask ((stripped_eq_self_iff r).2 (hp r hr))

section Example

theorem operands_intact_calls :
    let text := "get() == 1 and k.size(1) < n".toList
    let q : Query := ⟨"get()".toList, .eq, "1".toList⟩
    let q' : Query := ⟨"k.size(1)".toList, .lt, "n".toList⟩
    words text = rowWords q [(.and, q')] ∧ (∀ r ∈ [q, q'], r.Ungrouped) ∧
    (∀ r ∈ [q, q'], r.right.getLast? ≠ some ')') ∧ (parse text).queries = [q, q'] ∧
    ∀ {m : Type → Type} [Monad m] [LawfulMonad m] (ask : Query → m Bool),
      (parse text).evaluate (fun k => ask k.query) =
        Except.ok <$> rowValue ask q [(.and, q')] := by
  intro text q q'
  have hw : words text = rowWords q [(.and, q')] := by decide +kernel
  have hu : ∀ r ∈ [q, q'], r.Ungrouped := by
    intro r hr
    rw [List.mem_pair] at hr
    rcases hr with rfl | rfl
    · exact ⟨by decide, by decide, by decide⟩
    · exact ⟨by decide, by decide, by decide⟩
  have hp : ∀ r ∈ [q, q'], r.right.getLast? ≠ some ')' := by decide
  obtain ⟨-, hqueries, hvalue⟩ := operands_intact hw hu
  exact ⟨hw, hu, hp, hqueries.2 hp, hvalue hp⟩

/-- A call on the right side loses its parenthesis, so what is compared is not what is written. -/
theorem right_call_cut :
    let text := "1 == get()".toList
    let q : Query := ⟨"1".toList, .eq, "get()".toList⟩
    words text = rowWords q [] ∧ q.Ungrouped ∧
    (parse text).queries = [⟨"1".toList, .eq, "get(".toList⟩] ∧
    Id.run (rowValue (fun r => pure (decide (r = q))) q []) = true ∧
    (Id.run ((parse text).evaluate fun k => pure (decide (k.query = q)))).toOption =
      some false := by
  intro text q
  refine ⟨by decide +kernel, ⟨by decide, by decide, by decide⟩, by decide +kernel,
    by decide +kernel, by decide +kernel⟩

end Example

end Condition

end TileScript
