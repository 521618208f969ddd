import TileScript.Proofs.Activation
import TileScript.Proofs.Rows

/-! # What a condition asks

A condition asks for its comparisons one after the other. Which comparisons these are, and whether
the condition can be read to its end, is settled by its words; what the comparisons yield decides
only on the value. A comparison that fails is the last one asked for, and its error is the outcome.
-/

namespace TileScript

open Text

/-- A comparison of two texts. -/
structure Query where
  left : List Char
  op : Comparison
  right : List Char
  deriving DecidableEq, Repr

/-- The comparison that a clause asks for. -/
def Clause.query (k : Clause) : Query := ⟨k.left, k.op, k.right⟩

namespace Condition

/-- The comparisons that a condition asks for. -/
def queries (c : Condition) : List Query := c.clauses.map Clause.query

/-- Words spell comparisons, from left to right, up to their end or up to a fault. -/
inductive Spells : List (List Char) → List Query → Option Fault → Prop where

  | done : Spells [] [] none

  | joiner {w : List Char} {ws : List (List Char)} {qs : List Query} {fault : Option Fault} :
      w = "and".toList ∨ w = "or".toList → Spells ws qs fault → Spells (w :: ws) qs fault

  | comparison {left right : List Char} {op : Comparison} {ws : List (List Char)}
      {qs : List Query} {fault : Option Fault} :
      left ≠ "and".toList → left ≠ "or".toList → Spells ws qs fault →
      Spells (left :: op.text.toList :: right :: ws)
        (⟨(stripOpens left).2, op, (stripCloses right).2⟩ :: qs) fault

  | incomplete {w : List Char} {ws : List (List Char)} :
      w ≠ "and".toList → w ≠ "or".toList → ws.length < 2 → Spells (w :: ws) [] (some .incomplete)

  | unknown {left op right : List Char} {ws : List (List Char)} :
      left ≠ "and".toList → left ≠ "or".toList → (∀ o : Comparison, o.text.toList ≠ op) →
      Spells (left :: op :: right :: ws) [] (some (.unknownOperator op))

theorem spells_scan (joiner : Option Joiner) (ws : List (List Char)) :
    Spells ws ((scan joiner ws).1.map Clause.query) (scan joiner ws).2 := by
  fun_induction scan joiner ws with
  | case1 => exact .done
  | case2 _ ws ih => exact .joiner (.inl rfl) ih
  | case3 _ ws _ ih => exact .joiner (.inr rfl) ih
  | case4 joiner word hand hor opWord rightWord rest ho =>
    refine .unknown hand hor ?_
    rintro o rfl
    simp at ho
  | case5 joiner word hand hor opWord rightWord rest op ho opens left hl closes right hr clauses
      fault hs ih =>
    obtain rfl := Comparison.eq_text ho
    obtain rfl : (stripOpens word).2 = left := by rw [hl]
    obtain rfl : (stripCloses rightWord).2 = right := by rw [hr]
    rw [hs] at ih
    exact .comparison hand hor ih
  | case6 joiner word ws hand hor hshort =>
    refine .incomplete hand hor ?_
    rcases ws with _ | ⟨o, _ | ⟨z, rest⟩⟩
    · simp
    · simp
    · exact absurd rfl (hshort o z rest)

theorem spells_parse (text : List Char) :
    Spells (words text) (parse text).queries (parse text).fault :=
  spells_scan none (words text)

section Answers

/-- The outcome of a condition whose comparisons yield `answers`. -/
def verdict (c : Condition) (answers : List Bool) : Except ScriptError Bool :=
  c.conclude ((c.clauses.zip answers).foldl (fun t x => t.add x.1 x.2) {})

theorem foldlM_add {m : Type → Type} [Monad m] [LawfulMonad m] (ask : Query → m Bool)
    (ks : List Clause) (t : Tally) :
    ks.foldlM (fun t k => return t.add k (← ask k.query)) t =
      (fun answers => (ks.zip answers).foldl (fun t x => t.add x.1 x.2) t) <$>
        (ks.map Clause.query).mapM ask := by
  induction ks generalizing t with
  | nil => simp
  | cons k ks ih =>
    rw [List.foldlM_cons, List.map_cons, List.mapM_cons, map_bind, bind_assoc]
    congr 1
    funext b
    rw [pure_bind, ih, map_bind, map_eq_pure_bind]
    simp

/-- A condition asks for all its comparisons, each once and from left to right, before it comes to
its outcome. -/
theorem evaluate_eq_mapM {m : Type → Type} [Monad m] [LawfulMonad m] (ask : Query → m Bool)
    (c : Condition) :
    c.evaluate (fun k => ask k.query) = c.verdict <$> c.queries.mapM ask := by
  rw [evaluate, foldlM_add ask c.clauses {}]
  simp only [map_eq_pure_bind, bind_assoc, pure_bind, queries]
  rfl

/-- What is wrong with a condition, whatever its comparisons yield. -/
def failure? (c : Condition) : Option ScriptError :=
  match c.fault with
  | some f => some (f.error c.text)
  | none => if c.clauses.isEmpty then some (.invalidCondition (String.ofList c.text)) else none

theorem verdict_eq (c : Condition) {answers : List Bool}
    (h : answers.length = c.queries.length) :
    (∀ e, c.failure? = some e → c.verdict answers = .error e) ∧
      (c.failure? = none → ∃ b, c.verdict answers = .ok b) := by
  have hv := Tally.isSome_value_foldl (c.clauses.zip answers) {}
  have hz : (c.clauses.zip answers).isEmpty = c.clauses.isEmpty := by
    rw [queries, List.length_map] at h
    rw [Bool.eq_iff_iff, List.isEmpty_iff_length_eq_zero, List.isEmpty_iff_length_eq_zero,
      List.length_zip, h, Nat.min_self]
  rw [hz] at hv
  unfold verdict failure? conclude
  generalize (c.clauses.zip answers).foldl (fun (t : Tally) x => t.add x.1 x.2) {} = t at hv
  cases c.fault with
  | some f => simp
  | none =>
    cases he : c.clauses.isEmpty with
    | true =>
      have hn : t.value = none := by simpa [he] using hv
      simp [hn]
    | false =>
      obtain ⟨b, hb⟩ : ∃ b, t.value = some b := Option.isSome_iff_exists.1 (by simpa [he] using hv)
      simp [hb]

theorem failure?_eq {text : List Char} {e : ScriptError} (h : (parse text).failure? = some e) :
    e = .invalidCondition (String.ofList text) ∨ ∃ op, e = .unknownOperator op := by
  unfold failure? at h
  split at h
  · next f hf =>
    cases h
    cases f with
    | incomplete => exact .inl rfl
    | unknownOperator op => exact .inr ⟨_, rfl⟩
  · split at h
    · cases h
      exact .inl rfl
    · cases h

end Answers

end Condition

section Record

variable {ε ε' σ σ' : Type}

/-- A comparison with a record of the queries so far. -/
def Query.recorded (ask : Query → EStateM ε σ Bool) (q : Query) :
    EStateM ε (σ × List Query) Bool := fun (s, asked) =>
  match (ask q).run s with
  | .ok b s => .ok b (s, asked ++ [q])
  | .error e s => .error e (s, asked ++ [q])

variable {ask : Query → EStateM ε σ Bool} {qs asked : List Query} {s s₁ s₂ : σ}
  {answers : List Bool} {e : ε}

theorem Query.run_recorded (q : Query) :
    (recorded ask q).run (s, asked) =
      match (ask q).run s with
      | .ok b s => .ok b (s, asked ++ [q])
      | .error e s => .error e (s, asked ++ [q]) := rfl

theorem Query.mapM_recorded_ok (h : (qs.mapM ask).run s = .ok answers s₁) :
    (qs.mapM (recorded ask)).run (s, asked) = .ok answers (s₁, asked ++ qs) := by
  induction qs generalizing s asked answers with
  | nil =>
    cases h
    simp
  | cons q qs ih =>
    rw [List.mapM_cons] at h ⊢
    obtain ⟨b, s', hb, h⟩ := of_run_bind_ok h
    obtain ⟨bs, s'', hbs, h⟩ := of_run_bind_ok h
    cases h
    rw [EStateM.run_bind, run_recorded, hb]
    dsimp only
    rw [EStateM.run_bind, ih hbs, List.append_assoc]
    rfl

/-- The query that fails is the last one. -/
theorem Query.mapM_recorded_error {q : Query} {rest : List Query}
    (h : (qs.mapM ask).run s = .ok answers s₁) (hq : (ask q).run s₁ = .error e s₂) :
    ((qs ++ q :: rest).mapM (recorded ask)).run (s, asked) =
      .error e (s₂, asked ++ (qs ++ [q])) := by
  rw [List.mapM_append, EStateM.run_bind, mapM_recorded_ok h]
  dsimp only
  rw [List.mapM_cons, EStateM.run_bind, EStateM.run_bind, run_recorded, hq, List.append_assoc]

/-- Comparisons that never fail answer all queries. -/
theorem Query.exists_mapM_ok (h : ∀ q s, ∃ b s', (ask q).run s = .ok b s') (qs : List Query)
    (s : σ) : ∃ answers s', (qs.mapM ask).run s = .ok answers s' ∧ answers.length = qs.length := by
  induction qs generalizing s with
  | nil => exact ⟨[], s, rfl, rfl⟩
  | cons q qs ih =>
    obtain ⟨b, s', hb⟩ := h q s
    obtain ⟨bs, s'', hbs, hlen⟩ := ih s'
    refine ⟨b :: bs, s'', ?_, by simp [hlen]⟩
    rw [List.mapM_cons, EStateM.run_bind, hb]
    dsimp only
    rw [EStateM.run_bind, hbs]
    rfl

end Record

namespace Condition

variable {ε ε' σ σ' : Type}

/-- Evaluates a condition and records its queries. -/
def record (ask : Query → EStateM ε σ Bool) (text : List Char) (s : σ) :
    EStateM.Result ε (σ × List Query) (Except ScriptError Bool) :=
  ((parse text).evaluate fun k => Query.recorded ask k.query).run (s, [])

/-- Two outcomes are values both, or the same failure of the condition. -/
inductive Agree : Except ScriptError Bool → Except ScriptError Bool → Prop where

  | values {a b : Bool} : Agree (.ok a) (.ok b)

  | invalid {text : String} :
      Agree (.error (.invalidCondition text)) (.error (.invalidCondition text))

  | unknown {op : String} : Agree (.error (.unknownOperator op)) (.error (.unknownOperator op))

theorem verdicts_agree {text : List Char} {as bs : List Bool}
    (ha : as.length = (parse text).queries.length) (hb : bs.length = (parse text).queries.length) :
    Agree ((parse text).verdict as) ((parse text).verdict bs) := by
  obtain ⟨hea, hva⟩ := verdict_eq _ ha
  obtain ⟨heb, hvb⟩ := verdict_eq _ hb
  cases hf : (parse text).failure? with
  | none =>
    obtain ⟨a, ha⟩ := hva hf
    obtain ⟨b, hb⟩ := hvb hf
    rw [ha, hb]
    exact .values
  | some e =>
    rw [hea e hf, heb e hf]
    obtain rfl | ⟨op, rfl⟩ := failure?_eq hf
    · exact .invalid
    · exact .unknown

theorem record_eq (ask : Query → EStateM ε σ Bool) (text : List Char) (s : σ) :
    record ask text s =
      match ((parse text).queries.mapM (Query.recorded ask)).run (s, []) with
      | .ok answers s => .ok ((parse text).verdict answers) s
      | .error e s => .error e s := by
  rw [record, evaluate_eq_mapM (Query.recorded ask), map_eq_pure_bind, EStateM.run_bind]
  cases ((parse text).queries.mapM (Query.recorded ask)).run (s, []) <;> rfl

theorem record_ok {ask : Query → EStateM ε σ Bool} (h : ∀ q s, ∃ b s', (ask q).run s = .ok b s')
    (text : List Char) (s : σ) :
    ∃ answers s', answers.length = (parse text).queries.length ∧
      record ask text s = .ok ((parse text).verdict answers) (s', (parse text).queries) := by
  obtain ⟨answers, s', hm, hlen⟩ := Query.exists_mapM_ok h (parse text).queries s
  refine ⟨answers, s', hlen, ?_⟩
  rw [record_eq, Query.mapM_recorded_ok hm]
  rfl

/-- A condition asks for the comparisons that its words spell, one after the other, whatever they
yield. Either it always has a value or it always fails in the same way. If a comparison fails, it is
the last one asked for. -/
theorem queries_independent (text : List Char) :
    (∃ fault, Spells (words text) (parse text).queries fault) ∧
    (∀ {ε ε' σ σ' : Type} (ask : Query → EStateM ε σ Bool) (ask' : Query → EStateM ε' σ' Bool),
      (∀ q s, ∃ b t, (ask q).run s = .ok b t) → (∀ q s, ∃ b t, (ask' q).run s = .ok b t) →
      ∀ s s', ∃ r r' t t', Agree r r' ∧
        record ask text s = .ok r (t, (parse text).queries) ∧
        record ask' text s' = .ok r' (t', (parse text).queries)) ∧
    ∀ {ε σ : Type} (ask : Query → EStateM ε σ Bool) (s s₁ s₂ : σ) (n : Nat) (q : Query)
      (answers : List Bool) (e : ε), (parse text).queries[n]? = some q →
      (((parse text).queries.take n).mapM ask).run s = .ok answers s₁ →
      (ask q).run s₁ = .error e s₂ →
      record ask text s = .error e (s₂, (parse text).queries.take (n + 1)) := by
  refine ⟨⟨_, spells_parse text⟩, fun ask ask' h h' s s' => ?_,
    fun ask s s₁ s₂ n q answers e hq hm he => ?_⟩
  · obtain ⟨as, t, hlen, hr⟩ := record_ok h text s
    obtain ⟨bs, t', hlen', hr'⟩ := record_ok h' text s'
    exact ⟨_, _, t, t', verdicts_agree hlen hlen', hr, hr'⟩
  · obtain ⟨hn, rfl⟩ := List.getElem?_eq_some_iff.1 hq
    have hsplit : (parse text).queries = (parse text).queries.take n ++
        (parse text).queries[n] :: (parse text).queries.drop (n + 1) := by
      rw [List.getElem_cons_drop, List.take_append_drop]
    have hrun : (((parse text).queries.take n ++ (parse text).queries[n] ::
        (parse text).queries.drop (n + 1)).mapM (Query.recorded ask)).run (s, []) =
        .error e (s₂, [] ++ ((parse text).queries.take n ++ [(parse text).queries[n]])) :=
      Query.mapM_recorded_error hm he
    rw [← hsplit, List.nil_append, ← List.take_succ_eq_append_getElem hn] at hrun
    rw [record_eq, hrun]

section Example

/-- Fails on an ordering. -/
def refuseOrderings (q : Query) : EStateM String Nat Bool :=
  if q.op = .lt then throw "no order" else modifyGet fun n => (true, n + 1)

/-- The second comparison is asked for whatever the first one yields, and it may fail. -/
theorem queries_independent_pair :
    let text := "1 == 2 and (2 < 3)".toList
    let q : Query := ⟨['1'], .eq, ['2']⟩
    let q' : Query := ⟨['2'], .lt, ['3']⟩
    (parse text).queries = [q, q'] ∧
    (∃ r r' t t', Agree r r' ∧
      record (fun _ => (pure true : EStateM Empty Unit Bool)) text () = .ok r (t, [q, q']) ∧
      record (fun _ => (pure false : EStateM Empty Unit Bool)) text () = .ok r' (t', [q, q'])) ∧
    record refuseOrderings text 0 = .error "no order" (1, [q, q']) := by
  intro text q q'
  have hq : (parse text).queries = [q, q'] := by decide +kernel
  obtain ⟨-, hagree, hfail⟩ := queries_independent text
  rw [hq] at hagree hfail
  refine ⟨hq, hagree _ _ (fun _ s => ⟨true, s, rfl⟩) (fun _ s => ⟨false, s, rfl⟩) () (), ?_⟩
  exact hfail refuseOrderings 0 1 1 1 q' [true] "no order" rfl rfl rfl

end Example

end Condition

end TileScript
