import TileScript.Proofs.Blocks

/-! # Running a script line by line

A loop that takes one line of a script at a time, with the flags that tell when the script starts
over. Neither that it ends nor that it finds its lines is built in. Both follow from what one round
does: the rest of the run stays the same, and there are fewer rounds to come.
-/

namespace TileScript

open Text

/-- An activation between two lines. -/
structure Loop extends Progress where
  /-- What stands in for the text of the next line. -/
  resumed : Option (List Char) := none

namespace Loop

/-- Where a loop has got to. -/
inductive Stage where

  | going (l : Loop)

  /-- A line was looked up that the script does not have. -/
  | astray

  /-- The activation is over. The trace has the numbers of the lines it evaluated. -/
  | done (trace : List Nat) (result : Outcome × Fiber × World)

/-- The loop behind a line that evaluates nothing. -/
def pass (l : Loop) (c : Cursor) : Loop :=
  { l with fiber := { l.fiber with cursor := c }, resumed := none }

/-- Evaluates a statement for one token. -/
def evaluate (env : Environment) (l : Loop) (line : List Char) (s : Statement) : Stage :=
  let c := l.fiber.cursor.advance
  let f := { l.fiber with cursor := c }
  match l.budget with
  | 0 => .done l.trace (f.terminate (.failed .budgetExceeded) c.line l.world)
  | budget + 1 =>
    let trace := l.trace ++ [l.fiber.cursor.line]
    match (f.execute (f.scope env line) s).run { world := l.world } with
    | .ok f st =>
      match st.pause with
      | some ticks =>
        .done trace (.yielded, { f with state := .sleeping }, f.coolDown ticks st.world)
      | none => .going { budget, evaluated := true, fiber := f, world := st.world, trace }
    | .error (.error e) st => .done trace (f.terminate (.failed e) c.line st.world)
    | .error (.exit v) st => .done trace (f.terminate (.exited v) none st.world)
    | .error (.call q) st =>
      let cursor := if q.resume.isSome then l.fiber.cursor else c
      .done trace (.called q, { f with cursor, enabled := false, state := .awaiting }, st.world)

/-- Takes one line. -/
def take (env : Environment) (l : Loop) (line : List Char) : Stage :=
  let c := l.fiber.cursor.advance
  let fault (k : BlockKeyword) : Stage :=
    .done l.trace
      ({ l.fiber with cursor := c }.terminate (.failed (.unexpectedKeyword k)) c.line l.world)
  match Statement.ofLine line with
  | .blank => .going (l.pass c)
  | .close =>
    match c.close? with
    | some c => .going (l.pass c)
    | none => fault .close
  | .otherwise =>
    match c.switch? with
    | some c => .going (l.pass c)
    | none => fault .otherwise
  | s => if l.fiber.cursor.isActive then l.evaluate env line s else .going (l.pass (c.skip s))

/-- Takes the line at the cursor. -/
def look (env : Environment) (l : Loop) : Stage :=
  match l.resumed <|> l.fiber.lines[l.fiber.cursor.line]? with
  | some line => l.take env line
  | none => .astray

/-- The script starts over. -/
def again (l : Loop) : Loop := { l with evaluated := false, fiber := l.fiber.restart }

/-- One round of the loop. -/
def step (env : Environment) (l : Loop) : Stage :=
  if l.fiber.lines.length ≤ l.fiber.cursor.line then
    if !l.evaluated || l.fiber.lines.isEmpty then .done l.trace (.yielded, l.fiber, l.world)
    else l.again.look env
  else l.look env

/-- At most `n` rounds of the loop. -/
def iterate (env : Environment) : Nat → Loop → Stage
  | 0, l => .going l
  | n + 1, l =>
    match l.step env with
    | .going l => iterate env n l
    | r => r

variable {env : Environment} {l l' : Loop}

/-- A text that stands in for a line stands in for a line of the script. -/
def InRange (l : Loop) : Prop := l.resumed.isSome → l.fiber.cursor.line < l.fiber.lines.length

/-- The lines from the cursor on. -/
def coming (l : Loop) : List (List Char) :=
  match l.resumed with
  | some line => line :: l.fiber.lines.drop (l.fiber.cursor.line + 1)
  | none => l.fiber.lines.drop l.fiber.cursor.line

/-- What the rest of the activation comes to. -/
def result (env : Environment) (l : Loop) : List Nat × Outcome × Fiber × World :=
  l.toProgress.machine env l.fiber.cursor l.coming

theorem result_eq : l.result env =
    l.fiber.runTraced env l.budget l.coming l.evaluated l.world l.trace := rfl

/-- A bound on the rounds that are left: the lines up to the end of the script, once more the whole
script if it will start over, and the whole script for each token. -/
def rounds (l : Loop) : Nat :=
  (l.fiber.lines.length - l.fiber.cursor.line) + (if l.evaluated then l.fiber.lines.length else 0) +
    l.budget * l.fiber.lines.length + 1

/-- What a round can come to: the rest of the activation stays the same and gets shorter. -/
inductive Follows (env : Environment) (l : Loop) : Stage → Prop where

  | going {l' : Loop} : l'.InRange → l'.result env = l.result env → l'.rounds < l.rounds →
      Follows env l (.going l')

  | done {trace : List Nat} {out : Outcome × Fiber × World} : l.result env = (trace, out) →
      Follows env l (.done trace out)

theorem Follows.of_eq {r : Stage} (h : Follows env l' r) (hr : l'.result env = l.result env)
    (hm : l'.rounds ≤ l.rounds) : Follows env l r := by
  cases h with
  | going hi hr' hm' => exact .going hi (hr'.trans hr) (Nat.lt_of_lt_of_le hm' hm)
  | done hd => exact .done (hr ▸ hd)

/-- A line that a search passes is passed by the loop. -/
theorem pass_follows {c : Cursor} {line : List Char} {rest : List (List Char)}
    (hl : l.fiber.cursor.line < l.fiber.lines.length) (hc : l.coming = line :: rest)
    (hrest : rest = l.fiber.lines.drop (l.fiber.cursor.line + 1))
    (hn : c.line = l.fiber.cursor.line + 1)
    (hs : Search.run l.fiber.cursor (line :: rest) = Search.run c rest) :
    Follows env l (.going (l.pass c)) := by
  refine .going (by simp [InRange, pass]) ?_ ?_
  · have hcp : (l.pass c).coming = rest := by simp [coming, pass, hn, hrest]
    have hm : l.toProgress.machine env l.fiber.cursor (line :: rest) =
        l.toProgress.machine env c rest := Progress.machine_congr hs
    rw [result, result, hcp, hc, hm]
    rfl
  · unfold rounds pass
    dsimp only
    rw [hn]
    omega

theorem evaluate_follows {line : List Char} {rest : List (List Char)}
    (hl : l.fiber.cursor.line < l.fiber.lines.length) (hc : l.coming = line :: rest)
    (ha : l.fiber.cursor.isActive = true)
    (hk : (Statement.ofLine line).kind ∉ [.blank, .close, .otherwise]) :
    Follows env l (l.evaluate env line (Statement.ofLine line)) := by
  simp only [List.mem_cons, List.not_mem_nil, or_false, not_or] at hk
  have hn : l.fiber.nextStatement (line :: rest) l.evaluated =
      (l.fiber, .found l.fiber.cursor.advance line (.ofLine line)) :=
    Fiber.nextStatement_cons l.fiber rest _ ha hk.1 hk.2.1 hk.2.2
  have hr : l.result env =
      l.fiber.runTraced env l.budget (line :: rest) l.evaluated l.world l.trace := by
    rw [result_eq, hc]
  rw [Fiber.runTraced, hn] at hr
  unfold evaluate
  dsimp only at hr ⊢
  cases hb : l.budget with
  | zero =>
    rw [hb] at hr
    exact .done hr
  | succ budget =>
    simp only [hb] at hr
    dsimp only
    split
    · next g st hx =>
      simp only [hx] at hr
      split
      · next ticks hp =>
        simp only [hp] at hr
        exact .done hr
      · next hp =>
        simp only [hp] at hr
        obtain ⟨vars, cursor, rfl, hcur, -⟩ := Fiber.execute_ok hx
        refine .going (by simp [InRange]) ?_ ?_
        · rw [hr, result, coming]
          dsimp only
          rw [hcur]
          rfl
        · unfold rounds
          dsimp only
          rw [hb, hcur, Nat.succ_mul]
          simp only [Cursor.line_advance, if_true]
          omega
    · next e st hx =>
      simp only [hx] at hr
      exact .done hr
    · next v st hx =>
      simp only [hx] at hr
      exact .done hr
    · next q st hx =>
      simp only [hx] at hr
      exact .done hr

/-- The line at the cursor, or the text that stands in for it. -/
theorem exists_coming (hl : l.fiber.cursor.line < l.fiber.lines.length) :
    ∃ line, (l.resumed <|> l.fiber.lines[l.fiber.cursor.line]?) = some line ∧
      l.coming = line :: l.fiber.lines.drop (l.fiber.cursor.line + 1) := by
  unfold coming
  cases l.resumed with
  | some line => exact ⟨line, rfl, rfl⟩
  | none => exact ⟨_, List.getElem?_eq_getElem hl, List.drop_eq_getElem_cons hl⟩

theorem fault_follows {c : Cursor} {k : BlockKeyword}
    (hs : Search.run l.fiber.cursor l.coming = .fault c k) :
    Follows env l (.done l.trace ({ l.fiber with cursor := c }.terminate
      (.failed (.unexpectedKeyword k)) c.line l.world)) := by
  apply Follows.done
  rw [result_eq, Fiber.runTraced, Fiber.nextStatement, hs]

theorem take_follows {line : List Char} (hl : l.fiber.cursor.line < l.fiber.lines.length)
    (hc : l.coming = line :: l.fiber.lines.drop (l.fiber.cursor.line + 1)) :
    Follows env l (l.take env line) := by
  have hstatement {s : Statement} (hs : Statement.ofLine line = s)
      (hk : s.kind ∉ [.blank, .close, .otherwise]) :
      Follows env l (if l.fiber.cursor.isActive then l.evaluate env line s
        else .going (l.pass (l.fiber.cursor.advance.skip s))) := by
    split
    · next ha => exact hs ▸ evaluate_follows hl hc ha (by rwa [hs])
    · next ha =>
      refine pass_follows hl hc rfl (Cursor.line_skip _ s) ?_
      rw [Search.run, hs]
      cases s <;> simp [Statement.kind, ha] at hk ⊢
  unfold take
  cases hs : Statement.ofLine line with
  | blank => exact pass_follows hl hc rfl rfl (by rw [Search.run, hs])
  | close =>
    dsimp only
    cases hd : l.fiber.cursor.advance.close? with
    | some d =>
      refine pass_follows hl hc rfl (Cursor.line_close? hd) ?_
      rw [Search.run, hs]
      simp [hd]
    | none => exact fault_follows (by rw [hc, Search.run, hs]; simp [hd])
  | otherwise =>
    dsimp only
    cases hd : l.fiber.cursor.advance.switch? with
    | some d =>
      refine pass_follows hl hc rfl (Cursor.line_switch? hd) ?_
      rw [Search.run, hs]
      simp [hd]
    | none => exact fault_follows (by rw [hc, Search.run, hs]; simp [hd])
  | branch | declare | assign | bare => exact hstatement hs (by simp [Statement.kind])

theorem look_follows (hl : l.fiber.cursor.line < l.fiber.lines.length) :
    Follows env l (l.look env) := by
  obtain ⟨line, hx, hc⟩ := exists_coming hl
  rw [look, hx]
  exact take_follows hl hc

/-- At the end of a script that has evaluated nothing, the activation is over. -/
theorem stop_follows (hc : l.coming = [])
    (hstop : (l.evaluated && !l.fiber.lines.isEmpty) = false) :
    Follows env l (.done l.trace (.yielded, l.fiber, l.world)) := by
  have hn : l.fiber.nextStatement l.coming l.evaluated = (l.fiber, .exhausted l.fiber.cursor) := by
    rw [hc, Fiber.nextStatement, Search.run]
    simp [hstop]
  apply Follows.done
  rw [result_eq, Fiber.runTraced, hn]

/-- Else the script starts over, and what comes then is what comes of the first line on. -/
theorem result_again (hc : l.coming = []) (hres : l.resumed = none)
    (hgo : (l.evaluated && !l.fiber.lines.isEmpty) = true) :
    l.again.result env = l.result env := by
  have hca : l.again.coming = l.fiber.lines := by simp [coming, again, hres, Fiber.restart]
  have hn : l.fiber.nextStatement l.coming l.evaluated =
      l.fiber.restart.nextStatement l.again.coming false := by
    rw [hca, hc, Fiber.nextStatement, Search.run, Fiber.nextStatement]
    dsimp only
    rw [if_pos hgo]
    cases Search.run l.fiber.restart.cursor l.fiber.lines <;> rfl
  have hra : l.again.result env =
      l.fiber.restart.runTraced env l.budget l.again.coming false l.world l.trace := rfl
  rw [hra, result_eq, Fiber.runTraced, ← hn]
  conv_rhs => rw [Fiber.runTraced]

/-- One round: it comes nearer to the end of the activation, also where the script starts over,
since it looks at the first line at once. -/
theorem step_follows (h : l.InRange) : Follows env l (l.step env) := by
  unfold step
  split
  · next hend =>
    have hres : l.resumed = none := by
      cases hx : l.resumed with
      | none => rfl
      | some line => exact absurd (h (by simp [hx])) (Nat.not_lt.2 hend)
    have hc : l.coming = [] := by simp [coming, hres, List.drop_eq_nil_of_le hend]
    split
    · next hstop => exact stop_follows hc (by cases hev : l.evaluated <;> simp_all)
    · next hgo =>
      obtain ⟨hev, hne⟩ : l.evaluated = true ∧ l.fiber.lines ≠ [] := by simpa using hgo
      refine (look_follows (l := l.again) (List.length_pos_of_ne_nil hne)).of_eq
        (result_again hc hres (by simp [hev, hne])) ?_
      simp only [rounds, again, Fiber.restart, hev, Bool.false_eq_true, if_true, if_false]
      omega
  · next hl => exact look_follows (Nat.lt_of_not_le hl)

/-- A loop that is given enough rounds comes to its end. -/
theorem iterate_eq (h : l.InRange) {n : Nat} (hn : l.rounds ≤ n) :
    l.iterate env n = .done (l.result env).1 (l.result env).2 := by
  induction n generalizing l with
  | zero => simp [rounds] at hn
  | succ n ih =>
    have hf : Follows env l (l.step env) := step_follows h
    rw [iterate]
    generalize l.step env = r at hf
    cases hf with
    | going hi hr hm =>
      dsimp only
      rw [ih hi (by omega), hr]
    | done hd => rw [hd]

/-- As long as a loop goes on, it is in range and the activation comes to the same. -/
theorem inRange_of_going (h : l.InRange) {n : Nat} (hg : l.iterate env n = .going l') :
    l'.InRange ∧ l'.result env = l.result env := by
  induction n generalizing l with
  | zero =>
    cases hg
    exact ⟨h, rfl⟩
  | succ n ih =>
    have hf : Follows env l (l.step env) := step_follows h
    rw [iterate] at hg
    generalize l.step env = r at hf hg
    cases hf with
    | going hi hr _ =>
      obtain ⟨hi', hr'⟩ := ih hi hg
      exact ⟨hi', hr'.trans hr⟩
    | done _ => cases hg

/-- However many rounds it is given, a loop finds its lines. -/
theorem iterate_ne_astray (h : l.InRange) (n : Nat) : l.iterate env n ≠ .astray := by
  induction n generalizing l with
  | zero => simp [iterate]
  | succ n ih =>
    have hf : Follows env l (l.step env) := step_follows h
    rw [iterate]
    generalize l.step env = r at hf
    cases hf with
    | going hi _ _ => exact ih hi
    | done _ => simp

end Loop

end TileScript
