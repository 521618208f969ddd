import TileScript.Proofs.Kind

/-! # Blocks

Programs of statements and nested `if` blocks, what it means to run them block by block, and that a
fiber runs their lines just so, although all it knows of the blocks it is in are two depths.
-/

namespace TileScript

/-- A line of one of the given kinds. -/
structure Line (kinds : List Statement.Kind) where
  text : List Char
  kind : (Statement.ofLine text).kind ∈ kinds

/-- A sequence of statements and blocks. -/
inductive Block where

  | done

  | plain (line : Line [.blank, .declare, .assign, .bare]) (rest : Block)

  | branch (head : Line [.branch]) (yes : Block) (close : Line [.close]) (rest : Block)

  | choice (head : Line [.branch]) (yes : Block) (middle : Line [.otherwise]) (no : Block)
      (close : Line [.close]) (rest : Block)

/-- The lines of a program. -/
def Block.lines : Block → List (List Char)
  | .done => []
  | .plain line rest => line.text :: rest.lines
  | .branch head yes close rest => head.text :: (yes.lines ++ close.text :: rest.lines)
  | .choice head yes middle no close rest =>
    head.text :: (yes.lines ++ middle.text :: (no.lines ++ close.text :: rest.lines))

section Structure

/-- How far a program has come. -/
structure Progress where
  budget : Nat
  /-- Whether something has been evaluated since the start of the script. -/
  evaluated : Bool
  fiber : Fiber
  world : World
  /-- The numbers of the lines evaluated so far, in order. -/
  trace : List Nat := []

/-- A program that can stop for good. -/
abbrev Exec := EStateM (Outcome × Fiber × World) Progress

/-- The Boolean that decides on a branch. -/
def Fiber.condition (s : Scope) (text : List Char) : Eval Bool := do
  Eval.ofExcept (← (Condition.parse text).evaluate (compareClause s))

/-- Evaluates something on line `n` inside `d` blocks, for one token. `after` is the fiber behind
it. An error, a call, an exit and a pause stop the program. -/
def Exec.evaluate {α : Type} (env : Environment) (n d : Nat) (line : List Char)
    (action : Scope → Fiber → Eval α) (after : Fiber → α → Fiber) : Exec α := do
  let σ ← get
  let f := { σ.fiber with cursor := ⟨n + 1, d, d⟩ }
  match σ.budget with
  | 0 => throw (f.terminate (.failed .budgetExceeded) (some (n + 1)) σ.world)
  | budget + 1 =>
    set { σ with budget, evaluated := true, trace := σ.trace ++ [n] }
    match (action (f.scope env line) f).run { world := σ.world } with
    | .ok a st =>
      let g := after f a
      match st.pause with
      | some ticks => throw (.yielded, { g with state := .sleeping }, g.coolDown ticks st.world)
      | none =>
        modify fun σ => { σ with fiber := g, world := st.world }
        return a
    | .error (.error e) st => throw (f.terminate (.failed e) (some (n + 1)) st.world)
    | .error (.exit v) st => throw (f.terminate (.exited v) none st.world)
    | .error (.call q) st =>
      let cursor := if q.resume.isSome then { f.cursor with line := n } else f.cursor
      throw (.called q, { f with cursor, enabled := false, state := .awaiting }, st.world)

/-- Evaluates the statement on a line, if it has one. -/
def Exec.statement (env : Environment) (n d : Nat) (line : List Char) : Exec Unit := do
  if (Statement.ofLine line).kind ≠ .blank then
    let _ ← evaluate env n d line (fun s f => f.execute s (.ofLine line)) fun _ g => g

/-- The condition of an `if`. -/
def Statement.conditionText : Statement → List Char
  | .branch text => text
  | _ => []

/-- Decides on the branch of the `if` on a line. -/
def Exec.decide (env : Environment) (n d : Nat) (line : List Char) : Exec Bool :=
  evaluate env n d line (fun s _ => Fiber.condition s (Statement.ofLine line).conditionText)
    fun f taken => { f with cursor := f.cursor.enter taken }

def Exec.branch (taken : Exec Bool) (yes no : Exec Unit) : Exec Unit := do
  if ← taken then yes else no

/-- Runs a program that starts on line `n` inside `d` blocks. Of every `if` that is reached one
branch runs. -/
def Block.run (env : Environment) : Block → Nat → Nat → Exec Unit
  | .done, _, _ => return ()
  | .plain line rest, n, d => do
    Exec.statement env n d line.text
    rest.run env (n + 1) d
  | .branch head yes _ rest, n, d => do
    Exec.branch (.decide env n d head.text) (yes.run env (n + 1) (d + 1)) (return ())
    rest.run env (n + yes.lines.length + 2) d
  | .choice head yes _ no _ rest, n, d => do
    Exec.branch (.decide env n d head.text) (yes.run env (n + 1) (d + 1))
      (no.run env (n + yes.lines.length + 2) (d + 1))
    rest.run env (n + yes.lines.length + no.lines.length + 3) d

end Structure

section Trace

variable {env : Environment} {budget : Nat} {f : Fiber} {coming : List (List Char)}
  {evaluated : Bool} {w : World} {trace : List Nat}

/-- Runs statements as `runStatements` does, and notes the numbers of the lines it evaluates. -/
def Fiber.runTraced (env : Environment) (budget : Nat) (f : Fiber) (coming : List (List Char))
    (evaluated : Bool) (w : World) (trace : List Nat) : List Nat × Outcome × Fiber × World :=
  match f.nextStatement coming evaluated with
  | (f, .exhausted c) => (trace, .yielded, { f with cursor := c }, w)
  | (f, .fault c k) =>
    (trace, { f with cursor := c }.terminate (.failed (.unexpectedKeyword k)) c.line w)
  | (f, .found c line s) =>
    let f := { f with cursor := c }
    match budget with
    | 0 => (trace, f.terminate (.failed .budgetExceeded) c.line w)
    | budget + 1 =>
      let trace := trace ++ [c.line - 1]
      match (execute (f.scope env line) f s).run { world := w } with
      | .ok f st =>
        match st.pause with
        | some ticks => (trace, .yielded, { f with state := .sleeping }, f.coolDown ticks st.world)
        | none => runTraced env budget f (f.lines.drop c.line) true st.world trace
      | .error (.error e) st => (trace, f.terminate (.failed e) c.line st.world)
      | .error (.exit v) st => (trace, f.terminate (.exited v) none st.world)
      | .error (.call request) st =>
        let cursor := if request.resume.isSome then { c with line := c.line - 1 } else c
        (trace, .called request, { f with cursor, enabled := false, state := .awaiting }, st.world)

theorem Fiber.runTraced_snd :
    (f.runTraced env budget coming evaluated w trace).2 =
      f.runStatements env budget coming evaluated w := by
  fun_induction runTraced env budget f coming evaluated w trace with
  | case1 f coming evaluated w trace budget g c hn
  | case2 f coming evaluated w trace budget g c k hn =>
    rw [runStatements, hn]
  | case3 f coming evaluated w trace g c line s hn => rw [runStatements, hn]
  | case4 f coming evaluated w trace g c line s hn g' budget trace' k st hx ticks hp =>
    rw [runStatements, hn]
    simp only [g'] at hx
    simp only [hx, hp]
  | case5 f coming evaluated w trace g c line s hn g' budget trace' k st hx hp ih =>
    rw [runStatements, hn]
    simp only [g'] at hx
    simp only [hx, hp]
    exact ih
  | case6 f coming evaluated w trace g c line s hn g' budget trace' e st hx
  | case7 f coming evaluated w trace g c line s hn g' budget trace' v st hx
  | case8 f coming evaluated w trace g c line s hn g' budget trace' q st hx =>
    rw [runStatements, hn]
    simp only [g'] at hx
    simp only [hx]
    rfl

end Trace

section Search

variable {c : Cursor} {rest : List (List Char)}

/-- A search passes a plain line in a branch that does not run, and a line without a statement. -/
theorem Search.run_plain (line : Line [.blank, .declare, .assign, .bare]) (h : c.isActive = false) :
    Search.run c (line.text :: rest) = Search.run c.advance rest := by
  have hk := line.kind
  rw [Search.run]
  cases hs : Statement.ofLine line.text <;> rw [hs] at hk <;>
    simp [Statement.kind, h, Cursor.skip] at hk ⊢

theorem Search.run_blank {line : List Char} (h : (Statement.ofLine line).kind = .blank) :
    Search.run c (line :: rest) = Search.run c.advance rest := by
  rw [Search.run]
  cases hs : Statement.ofLine line <;> rw [hs] at h <;> first | rfl | cases h

theorem Search.run_branch (line : Line [.branch]) (h : c.isActive = false) :
    Search.run c (line.text :: rest) =
      Search.run { c.advance with lineDepth := c.lineDepth + 1 } rest := by
  have hk := line.kind
  rw [Search.run]
  cases hs : Statement.ofLine line.text <;> rw [hs] at hk <;>
    simp [Statement.kind, h, Cursor.skip, Cursor.advance] at hk ⊢

theorem Search.run_close (line : Line [.close]) {d : Cursor} (h : c.advance.close? = some d) :
    Search.run c (line.text :: rest) = Search.run d rest := by
  have hk := line.kind
  rw [Search.run]
  cases hs : Statement.ofLine line.text <;> rw [hs] at hk <;> simp [Statement.kind, h] at hk ⊢

theorem Search.run_otherwise (line : Line [.otherwise]) {d : Cursor}
    (h : c.advance.switch? = some d) :
    Search.run c (line.text :: rest) = Search.run d rest := by
  have hk := line.kind
  rw [Search.run]
  cases hs : Statement.ofLine line.text <;> rw [hs] at hk <;> simp [Statement.kind, h] at hk ⊢

/-- In a branch that does not run a program is passed as a whole, with the depths as before. -/
theorem Search.run_skip (B : Block) {n l k : Nat} (h : k < l) (rest : List (List Char)) :
    Search.run ⟨n, l, k⟩ (B.lines ++ rest) = Search.run ⟨n + B.lines.length, l, k⟩ rest := by
  have ha {n l : Nat} (h : k < l) : (⟨n, l, k⟩ : Cursor).isActive = false := by
    simp only [Cursor.isActive, beq_eq_false_iff_ne]
    omega
  have hclose (n : Nat) {l : Nat} (h : k < l) :
      (⟨n, l + 1, k⟩ : Cursor).advance.close? = some ⟨n + 1, l, k⟩ := by
    have hne : l + 1 ≠ k := by omega
    simp [Cursor.advance, Cursor.close?, hne]
  have hswitch (n : Nat) {l : Nat} (h : k < l) :
      (⟨n, l + 1, k⟩ : Cursor).advance.switch? = some ⟨n + 1, l + 1, k⟩ := by
    have hne : l ≠ k ∧ l + 1 ≠ k := by omega
    simp [Cursor.advance, Cursor.switch?, hne]
  induction B generalizing n l rest with
  | done => rfl
  | plain line B ih =>
    rw [Block.lines, List.cons_append, run_plain line (ha h), Cursor.advance, ih h,
      List.length_cons, Nat.add_assoc, Nat.add_comm 1]
  | branch head yes close B ihyes ih =>
    rw [Block.lines, List.cons_append, run_branch head (ha h), List.append_assoc, Cursor.advance,
      ihyes (Nat.lt_succ_of_lt h), List.cons_append, run_close close (hclose _ h), ih h]
    congr 2
    simp only [List.length_cons, List.length_append]
    omega
  | choice head yes middle no close B ihyes ihno ih =>
    rw [Block.lines, List.cons_append, run_branch head (ha h), List.append_assoc, Cursor.advance,
      ihyes (Nat.lt_succ_of_lt h), List.cons_append, run_otherwise middle (hswitch _ h),
      List.append_assoc, ihno (Nat.lt_succ_of_lt h), List.cons_append,
      run_close close (hclose _ h), ih h]
    congr 2
    simp only [List.length_cons, List.length_append]
    omega

end Search

section Machine

variable {env : Environment} {σ τ : Progress} {c d : Cursor} {coming rest : List (List Char)}

/-- The fiber with its lines to come, at a cursor. -/
def Progress.machine (env : Environment) (c : Cursor) (coming : List (List Char)) (σ : Progress) :
    List Nat × Outcome × Fiber × World :=
  { σ.fiber with cursor := c }.runTraced env σ.budget coming σ.evaluated σ.world σ.trace

/-- What comes of a program that goes on with `k`, unless it stops before. -/
def Exec.finish {α : Type} (x : EStateM.Result (Outcome × Fiber × World) Progress α)
    (k : α → Progress → List Nat × Outcome × Fiber × World) : List Nat × Outcome × Fiber × World :=
  match x with
  | .ok a τ => k a τ
  | .error y τ => (τ.trace, y)

theorem Exec.finish_bind {α β : Type} (x : Exec α) (y : α → Exec β)
    (k : β → Progress → List Nat × Outcome × Fiber × World) :
    finish ((x >>= y).run σ) k = finish (x.run σ) fun a τ => finish ((y a).run τ) k := by
  rw [EStateM.run_bind]
  cases x.run σ <;> rfl

theorem Exec.finish_congr {α : Type} {x : EStateM.Result (Outcome × Fiber × World) Progress α}
    {k k' : α → Progress → List Nat × Outcome × Fiber × World}
    (h : ∀ a τ, x = .ok a τ → k a τ = k' a τ) : finish x k = finish x k' := by
  cases x with
  | ok a τ => exact h a τ rfl
  | error => rfl

/-- A machine is determined by what its search comes to. -/
theorem Progress.machine_congr (h : Search.run c coming = Search.run d rest) :
    σ.machine env c coming = σ.machine env d rest := by
  unfold machine
  conv_lhs => rw [Fiber.runTraced]
  conv_rhs => rw [Fiber.runTraced]
  simp only [Fiber.nextStatement, h]
  cases Search.run d rest with
  | exhausted e => cases σ.evaluated && !σ.fiber.lines.isEmpty <;> rfl
  | fault e k => rfl
  | found e line st => rfl

/-- What one statement of a machine comes to. -/
theorem Progress.machine_evaluate {α : Type} {action : Scope → Fiber → Eval α}
    {after : Fiber → α → Fiber} {line : List Char} {n d : Nat}
    (hk : (Statement.ofLine line).kind ∉ [.blank, .close, .otherwise])
    (hx : ∀ s f, Fiber.execute s f (.ofLine line) = do return after f (← action s f)) :
    σ.machine env ⟨n, d, d⟩ (line :: rest) =
      Exec.finish ((Exec.evaluate env n d line action after).run σ) fun _ τ =>
        τ.machine env τ.fiber.cursor (τ.fiber.lines.drop (n + 1)) := by
  simp only [List.mem_cons, List.not_mem_nil, or_false, not_or] at hk
  have hn : Fiber.nextStatement { σ.fiber with cursor := ⟨n, d, d⟩ } (line :: rest) σ.evaluated =
      ({ σ.fiber with cursor := ⟨n, d, d⟩ }, .found ⟨n + 1, d, d⟩ line (.ofLine line)) :=
    Fiber.nextStatement_cons _ rest _ (by simp [Cursor.isActive]) hk.1 hk.2.1 hk.2.2
  obtain ⟨budget, evaluated, f, w, trace⟩ := σ
  unfold machine
  rw [Fiber.runTraced, hn]
  cases budget with
  | zero => rfl
  | succ budget =>
    unfold Exec.evaluate
    simp only [hx, EStateM.run_bind, EStateM.run_get, EStateM.run_set, EStateM.run_pure]
    generalize EStateM.run (action _ _) _ = x
    match x with
    | .ok a ⟨w', some ticks⟩ => rfl
    | .ok a ⟨w', none⟩ => rfl
    | .error (.error e) st => rfl
    | .error (.exit v) st => rfl
    | .error (.call q) st => rfl

theorem Fiber.execute_branch (s : Scope) (f : Fiber) (text : List Char) :
    execute s f (.branch text) = do
      return { f with cursor := f.cursor.enter (← condition s text) } := by
  rw [execute, condition, bind_assoc]

/-- What is evaluated on a line goes on with the same lines. -/
theorem Exec.of_evaluate {α : Type} {n d : Nat} {line : List Char}
    {action : Scope → Fiber → Eval α} {after : Fiber → α → Fiber} {a : α}
    (h : (evaluate env n d line action after).run σ = .ok a τ) :
    ∃ s f ε ε', f = { σ.fiber with cursor := ⟨n + 1, d, d⟩ } ∧ (action s f).run ε = .ok a ε' ∧
      τ.fiber = after f a := by
  obtain ⟨budget, evaluated, f, w, trace⟩ := σ
  unfold evaluate at h
  cases budget with
  | zero => cases h
  | succ budget =>
    simp only [EStateM.run_bind, EStateM.run_get, EStateM.run_set] at h
    generalize hf : ({ f with cursor := ⟨n + 1, d, d⟩ } : Fiber) = g at h
    cases hx : (action (g.scope env line) g).run { world := w } with
    | ok b st =>
      rw [hx] at h
      obtain ⟨w', pause⟩ := st
      cases pause with
      | some ticks => cases h
      | none =>
        cases h
        exact ⟨_, _, _, _, rfl, hx, rfl⟩
    | error i st =>
      rw [hx] at h
      cases i <;> cases h

theorem Line.kind_ne (line : Line [.blank, .declare, .assign, .bare]) :
    (Statement.ofLine line.text).kind ≠ .branch ∧ (Statement.ofLine line.text).kind ≠ .close ∧
      (Statement.ofLine line.text).kind ≠ .otherwise := by
  have hk := line.kind
  generalize (Statement.ofLine line.text).kind = k at hk
  revert k
  decide

/-- A statement leaves the fiber behind its line. -/
theorem Exec.of_statement {n d : Nat} (line : Line [.blank, .declare, .assign, .bare])
    {g : Fiber} (h : (evaluate env n d line.text
      (fun s f => f.execute s (.ofLine line.text)) fun _ g => g).run σ = .ok g τ) :
    τ.fiber.cursor = ⟨n + 1, d, d⟩ ∧ τ.fiber.lines = σ.fiber.lines := by
  obtain ⟨s, f, ε, ε', rfl, hx, hf⟩ := of_evaluate h
  obtain ⟨vars, cursor, rfl, -, hc⟩ := Fiber.execute_ok hx
  have hcursor := hc fun condition hs => line.kind_ne.1 (by rw [hs]; rfl)
  rw [hf, hcursor]
  exact ⟨rfl, rfl⟩

theorem drop_succ_of_drop {ls : List (List Char)} {n : Nat} {line : List Char}
    (h : ls.drop n = line :: rest) : ls.drop (n + 1) = rest := by
  rw [← List.drop_drop, h]
  rfl

/-- A statement goes on behind its line. -/
theorem Progress.machine_statement (line : Line [.blank, .declare, .assign, .bare]) {n d : Nat}
    (hlines : σ.fiber.lines.drop n = line.text :: rest) :
    σ.machine env ⟨n, d, d⟩ (line.text :: rest) =
      Exec.finish ((Exec.statement env n d line.text).run σ) fun _ τ =>
        τ.machine env ⟨n + 1, d, d⟩ rest := by
  unfold Exec.statement
  by_cases hb : (Statement.ofLine line.text).kind = .blank
  · simp only [hb, ne_eq, not_true_eq_false, if_false]
    exact machine_congr (Search.run_blank hb)
  · simp only [ne_eq, hb, not_false_eq_true, if_true]
    rw [Exec.finish_bind,
      machine_evaluate (by simp [hb, line.kind_ne]) fun s f => (bind_pure _).symm]
    apply Exec.finish_congr
    intro g τ hx
    obtain ⟨hc, hl⟩ := Exec.of_statement line hx
    rw [hc, hl, drop_succ_of_drop hlines]
    rfl

theorem Exec.lines_statement {n d : Nat} (line : Line [.blank, .declare, .assign, .bare]) {u : Unit}
    (h : (statement env n d line.text).run σ = .ok u τ) : τ.fiber.lines = σ.fiber.lines := by
  unfold statement at h
  split at h
  · rw [EStateM.run_bind] at h
    split at h
    · next g τ' hx =>
      cases h
      exact (of_statement line hx).2
    · cases h
  · cases h
    rfl

/-- A condition goes on in one of the branches. -/
theorem Progress.machine_decide (line : Line [.branch]) {n d : Nat}
    (hlines : σ.fiber.lines.drop n = line.text :: rest) :
    σ.machine env ⟨n, d, d⟩ (line.text :: rest) =
      Exec.finish ((Exec.decide env n d line.text).run σ) fun taken τ =>
        τ.machine env (Cursor.enter ⟨n + 1, d, d⟩ taken) rest := by
  have hk : (Statement.ofLine line.text).kind = .branch := by simpa using line.kind
  have hx (s : Scope) (f : Fiber) : Fiber.execute s f (.ofLine line.text) = do
      let taken ← Fiber.condition s (Statement.ofLine line.text).conditionText
      return { f with cursor := f.cursor.enter taken } := by
    cases hs : Statement.ofLine line.text with
    | branch text => exact Fiber.execute_branch s f text
    | blank | close | otherwise | declare | assign | bare => rw [hs] at hk; cases hk
  rw [machine_evaluate (by simp [hk]) hx]
  apply Exec.finish_congr
  intro taken τ h
  obtain ⟨s, f, ε, ε', rfl, -, hf⟩ := Exec.of_evaluate h
  rw [hf, drop_succ_of_drop hlines]

theorem Exec.lines_decide {n d : Nat} {line : List Char} {taken : Bool}
    (h : (decide env n d line).run σ = .ok taken τ) : τ.fiber.lines = σ.fiber.lines := by
  obtain ⟨s, f, ε, ε', rfl, -, hf⟩ := of_evaluate h
  rw [hf]

theorem Progress.machine_close (line : Line [.close]) {n d k : Nat} (hk : k = d + 1 ∨ k = d) :
    σ.machine env ⟨n, d + 1, k⟩ (line.text :: rest) = σ.machine env ⟨n + 1, d, d⟩ rest := by
  refine machine_congr (Search.run_close line ?_)
  rcases hk with rfl | rfl <;> simp [Cursor.advance, Cursor.close?]

/-- The innermost block changes its branch. -/
theorem Progress.machine_otherwise (line : Line [.otherwise]) {n d : Nat} (taken : Bool) :
    σ.machine env ⟨n, d + 1, if taken then d + 1 else d⟩ (line.text :: rest) =
      σ.machine env ⟨n + 1, d + 1, if taken then d else d + 1⟩ rest := by
  refine machine_congr (Search.run_otherwise line ?_)
  cases taken <;> simp [Cursor.advance, Cursor.switch?]

theorem Progress.machine_skip (B : Block) {n l k : Nat} (h : k < l) :
    σ.machine env ⟨n, l, k⟩ (B.lines ++ rest) = σ.machine env ⟨n + B.lines.length, l, k⟩ rest :=
  machine_congr (Search.run_skip B h rest)

end Machine

section Run

variable {env : Environment} {σ τ : Progress}

/-- A program leaves the script as it is. -/
theorem Block.lines_run (B : Block) {n d : Nat} {u : Unit} (h : (B.run env n d).run σ = .ok u τ) :
    τ.fiber.lines = σ.fiber.lines := by
  induction B generalizing n d σ τ u with
  | done =>
    cases h
    rfl
  | plain line B ih =>
    obtain ⟨u, σ₁, hs, h⟩ := of_run_bind_ok h
    rw [ih h, Exec.lines_statement line hs]
  | branch head yes close B ihyes ih =>
    obtain ⟨u, σ₂, hb, h⟩ := of_run_bind_ok h
    obtain ⟨taken, σ₁, hd, hb⟩ := of_run_bind_ok hb
    have hbranch : σ₂.fiber.lines = σ₁.fiber.lines := by
      cases taken with
      | true => exact ihyes hb
      | false =>
        cases hb
        rfl
    rw [ih h, hbranch, Exec.lines_decide hd]
  | choice head yes middle no close B ihyes ihno ih =>
    obtain ⟨u, σ₂, hb, h⟩ := of_run_bind_ok h
    obtain ⟨taken, σ₁, hd, hb⟩ := of_run_bind_ok hb
    have hbranch : σ₂.fiber.lines = σ₁.fiber.lines := by
      cases taken with
      | true => exact ihyes hb
      | false => exact ihno hb
    rw [ih h, hbranch, Exec.lines_decide hd]

/-- The lines behind the first part of a script. -/
theorem drop_of_drop_append {ls ms rest : List (List Char)} {n : Nat} (h : ls.drop n = ms ++ rest) :
    ls.drop (n + ms.length) = rest := by
  rw [← List.drop_drop, h, List.drop_left]

/-- A fiber runs the lines of a program as the program runs block by block, and goes on behind them
at the same depths. -/
theorem Block.machine_run (B : Block) {n d : Nat} {rest : List (List Char)}
    (h : σ.fiber.lines.drop n = B.lines ++ rest) :
    σ.machine env ⟨n, d, d⟩ (B.lines ++ rest) =
      Exec.finish ((B.run env n d).run σ) fun _ τ =>
        τ.machine env ⟨n + B.lines.length, d, d⟩ rest := by
  induction B generalizing n d rest σ with
  | done => rfl
  | plain line B ih =>
    rw [lines, List.cons_append] at h
    rw [lines, run, List.cons_append, Progress.machine_statement line h, Exec.finish_bind]
    apply Exec.finish_congr
    intro u τ hx
    have hl := drop_succ_of_drop h
    rw [← Exec.lines_statement line hx] at hl
    rw [ih hl, List.length_cons, Nat.add_assoc, Nat.add_comm 1]
  | branch head yes close B ihyes ih =>
    rw [lines, List.cons_append, List.append_assoc, List.cons_append] at h
    have hyes := drop_succ_of_drop h
    have hrest := drop_succ_of_drop (drop_of_drop_append hyes)
    have hlen : n + 1 + yes.lines.length + 1 = n + yes.lines.length + 2 := by omega
    rw [hlen] at hrest
    rw [lines, run, List.cons_append, List.append_assoc, List.cons_append,
      Progress.machine_decide head h, Exec.finish_bind, Exec.branch, Exec.finish_bind]
    apply Exec.finish_congr
    intro taken τ hx
    rw [← Exec.lines_decide hx] at hyes hrest
    -- whichever branch runs, the fiber comes to `end` with the block open, and goes on behind it
    have htail {k : Nat} (hk : k = d + 1 ∨ k = d) {υ : Progress}
        (hu : υ.fiber.lines = τ.fiber.lines) :
        υ.machine env ⟨n + 1 + yes.lines.length, d + 1, k⟩ (close.text :: (B.lines ++ rest)) =
          Exec.finish ((B.run env (n + yes.lines.length + 2) d).run υ) fun _ υ =>
            υ.machine env ⟨n + (branch head yes close B).lines.length, d, d⟩ rest := by
      have htotal : n + (branch head yes close B).lines.length =
          n + yes.lines.length + 2 + B.lines.length := by
        simp only [lines, List.length_cons, List.length_append]
        omega
      rw [← hu] at hrest
      rw [Progress.machine_close close hk, hlen, ih hrest, htotal]
    cases taken with
    | true =>
      refine (ihyes hyes).trans (Exec.finish_congr fun u υ hu => ?_)
      exact htail (.inl rfl) (yes.lines_run hu)
    | false =>
      refine (Progress.machine_skip yes (Nat.lt_succ_self d)).trans ?_
      exact htail (.inr rfl) rfl
  | choice head yes middle no close B ihyes ihno ih =>
    rw [lines, List.cons_append, List.append_assoc, List.cons_append, List.append_assoc,
      List.cons_append] at h
    have hyes := drop_succ_of_drop h
    have hno := drop_succ_of_drop (drop_of_drop_append hyes)
    have hlen : n + 1 + yes.lines.length + 1 = n + yes.lines.length + 2 := by omega
    rw [hlen] at hno
    have hrest := drop_succ_of_drop (drop_of_drop_append hno)
    have hlen' : n + yes.lines.length + 2 + no.lines.length + 1 =
        n + yes.lines.length + no.lines.length + 3 := by omega
    rw [hlen'] at hrest
    rw [lines, run, List.cons_append, List.append_assoc, List.cons_append, List.append_assoc,
      List.cons_append, Progress.machine_decide head h, Exec.finish_bind, Exec.branch,
      Exec.finish_bind]
    apply Exec.finish_congr
    intro taken τ hx
    rw [← Exec.lines_decide hx] at hyes hno hrest
    have htail {k : Nat} (hk : k = d + 1 ∨ k = d) {υ : Progress}
        (hu : υ.fiber.lines = τ.fiber.lines) :
        υ.machine env ⟨n + yes.lines.length + 2 + no.lines.length, d + 1, k⟩
            (close.text :: (B.lines ++ rest)) =
          Exec.finish ((B.run env (n + yes.lines.length + no.lines.length + 3) d).run υ) fun _ υ =>
            υ.machine env ⟨n + (choice head yes middle no close B).lines.length, d, d⟩ rest := by
      have htotal : n + (choice head yes middle no close B).lines.length =
          n + yes.lines.length + no.lines.length + 3 + B.lines.length := by
        simp only [lines, List.length_cons, List.length_append]
        omega
      rw [← hu] at hrest
      rw [Progress.machine_close close hk, hlen', ih hrest, htotal]
    cases taken with
    | true =>
      refine (ihyes hyes).trans (Exec.finish_congr fun u υ hu => ?_)
      refine (Progress.machine_otherwise middle true).trans ?_
      rw [hlen]
      refine (Progress.machine_skip no (Nat.lt_succ_self d)).trans ?_
      exact htail (.inr rfl) (yes.lines_run hu)
    | false =>
      refine (Progress.machine_skip yes (Nat.lt_succ_self d)).trans ?_
      refine (Progress.machine_otherwise middle false).trans ?_
      rw [hlen]
      refine (ihno hno).trans (Exec.finish_congr fun u υ hu => ?_)
      exact htail (.inl rfl) (no.lines_run hu)

/-- The two depths stand for the blocks. Where they are equal a fiber evaluates what the program
evaluates block by block, line by line, until something stops it, or else it comes out behind the
program with the depths it had. Where they are not equal it evaluates nothing. -/
theorem Block.run_by_depths (B : Block) {n d : Nat} {rest : List (List Char)}
    (h : σ.fiber.lines.drop n = B.lines ++ rest) :
    (∀ c coming, (σ.machine env c coming).2 =
      { σ.fiber with cursor := c }.runStatements env σ.budget coming σ.evaluated σ.world) ∧
    (σ.machine env ⟨n, d, d⟩ (B.lines ++ rest) =
      match (B.run env n d).run σ with
      | .ok _ τ => τ.machine env ⟨n + B.lines.length, d, d⟩ rest
      | .error stopped τ => (τ.trace, stopped)) ∧
    ∀ l k, k < l → σ.machine env ⟨n, l, k⟩ (B.lines ++ rest) =
      σ.machine env ⟨n + B.lines.length, l, k⟩ rest := by
  refine ⟨fun c coming => Fiber.runTraced_snd, ?_, fun l k hlt => Progress.machine_skip B hlt⟩
  rw [B.machine_run h]
  cases (B.run env n d).run σ <;> rfl

end Run

section Example

/-- `if 1 == 2`, `var a = 1`, `else`, `var b = 2`, `end` -/
def Block.twoWays : Block :=
  .choice ⟨"if 1 == 2".toList, by decide +kernel⟩
    (.plain ⟨"var a = 1".toList, by decide +kernel⟩ .done) ⟨"else".toList, by decide +kernel⟩
    (.plain ⟨"var b = 2".toList, by decide +kernel⟩ .done) ⟨"end".toList, by decide +kernel⟩ .done

/-- The script has one `end` too many. -/
def Progress.twoWays : Progress where
  budget := 10
  evaluated := false
  fiber := { keyFiber with lines := Block.twoWays.lines ++ ["end".toList] }
  world := keyWorld

/-- The condition and the statement behind `else` are evaluated, and nothing in a branch that does
not run. -/
theorem Block.run_by_depths_twoWays :
    (Progress.twoWays.machine keyEnvironment ⟨0, 0, 0⟩
      (Block.twoWays.lines ++ ["end".toList])).1 = [0, 3] ∧
    Progress.twoWays.machine keyEnvironment ⟨0, 2, 1⟩ (Block.twoWays.lines ++ ["end".toList]) =
      Progress.twoWays.machine keyEnvironment ⟨5, 2, 1⟩ ["end".toList] := by
  have h : Progress.twoWays.fiber.lines.drop 0 = Block.twoWays.lines ++ ["end".toList] := rfl
  refine ⟨?_, (Block.run_by_depths (d := 0) Block.twoWays h).2.2 2 1 (by decide)⟩
  rw [(Block.run_by_depths Block.twoWays h).2.1]
  decide +kernel

end Example

end TileScript
