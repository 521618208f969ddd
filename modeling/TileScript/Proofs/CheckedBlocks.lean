import TileScript.Proofs.Depths
import TileScript.Proofs.Reentry
import TileScript.Proofs.Steps
import TileScript.Proofs.Termination

/-! # Checked blocks

A fiber counts the blocks it is in line by line, and skips, starts over, stops within lines and goes
on with lines that have changed. Through all of this its count is the one that the check of its
script makes, so a script without problems meets no block keyword out of place.
-/

namespace TileScript

open Text

/-- A cursor has the depth of its line. -/
structure Cursor.InStep (depth : Nat → Nat) (c : Cursor) : Prop where
  depth_eq : c.lineDepth = depth c.line
  logic_le : c.logicDepth ≤ c.lineDepth

namespace Cursor.InStep

variable {depth : Nat → Nat} {c : Cursor} {s : Statement}

theorem start {ls : List (List Char)} (h : Profile depth ls) : Cursor.InStep depth {} where
  depth_eq := h.start.symm
  logic_le := Nat.le_refl 0

theorem advance (h : c.InStep depth) (hd : depth (c.line + 1) = depth c.line) :
    c.advance.InStep depth where
  depth_eq := h.depth_eq.trans hd.symm
  logic_le := h.logic_le

theorem close (h : c.InStep depth) (hd : depth c.line = depth (c.line + 1) + 1) :
    ∃ d, c.advance.close? = some d ∧ d.InStep depth := by
  obtain ⟨i, l, k⟩ := c
  obtain ⟨hl, hk⟩ := h
  dsimp only at hl hk hd
  have hne : l ≠ 0 := by omega
  refine ⟨_, if_neg hne, ?_, ?_⟩
  · show l - 1 = depth (i + 1)
    omega
  · show (if l = k then k - 1 else k) ≤ l - 1
    split <;> omega

theorem switch (h : c.InStep depth) (hpos : 0 < depth c.line)
    (hd : depth (c.line + 1) = depth c.line) :
    ∃ d, c.advance.switch? = some d ∧ d.InStep depth := by
  obtain ⟨i, l, k⟩ := c
  obtain ⟨hl, hk⟩ := h
  dsimp only at hl hk hd hpos
  have hne : l ≠ 0 := by omega
  have hl : l = depth (i + 1) := hl.trans hd.symm
  unfold Cursor.switch?
  rw [if_neg (show ¬ (Cursor.advance ⟨i, l, k⟩).lineDepth = 0 from hne)]
  by_cases h₁ : l = k + 1
  · exact ⟨_, if_pos h₁, hl, Nat.le_of_eq h₁.symm⟩
  · by_cases h₂ : l = k
    · exact ⟨_, (if_neg h₁).trans (if_pos h₂), hl, Nat.le_trans (Nat.sub_le k 1) hk⟩
    · exact ⟨_, (if_neg h₁).trans (if_neg h₂), hl, hk⟩

theorem enter (h : c.InStep depth) (hd : depth (c.line + 1) = depth c.line + 1) (taken : Bool) :
    (c.advance.enter taken).InStep depth := by
  have hdepth := h.depth_eq
  have hle := h.logic_le
  constructor
  · simp only [Cursor.enter, Cursor.advance]
    omega
  · simp only [Cursor.enter, Cursor.advance]
    split <;> omega

theorem skip (h : c.InStep depth) (hs : s.kind.Steps (depth c.line) (depth (c.line + 1)))
    (hk : s.kind ≠ .close ∧ s.kind ≠ .otherwise) : (c.advance.skip s).InStep depth := by
  have hdepth := h.depth_eq
  have hle := h.logic_le
  cases s with
  | branch condition =>
    have hd : depth (c.line + 1) = depth c.line + 1 := hs
    constructor
    · simp only [Cursor.skip, Cursor.advance]
      omega
    · simp only [Cursor.skip, Cursor.advance]
      omega
  | close => exact absurd rfl hk.1
  | otherwise => exact absurd rfl hk.2
  | blank | declare | assign | bare => exact h.advance hs

end Cursor.InStep

/-- A line that stopped for a value is that of the cursor, as far as blocks go. -/
structure ResumePoint.Reenters (depth : Nat → Nat) (c : Cursor) (p : ResumePoint) : Prop where
  steps : (Statement.ofLine p.line).kind.Steps (depth c.line) (depth (c.line + 1))
  awaited : ∃ s f σ q σ',
    (Fiber.execute s f (Statement.ofLine s.line)).run σ = .error (.call q) σ' ∧ q.resume = some p

/-- With the value in it, the line still is. -/
theorem ResumePoint.Reenters.replaced {depth : Nat → Nat} {c : Cursor} {p : ResumePoint}
    (h : p.Reenters depth c) (v : Value) {text : List Char}
    (ht : replaceFirst? p.statement v.literal.toList p.line = some text) :
    (Statement.ofLine text).kind.Steps (depth c.line) (depth (c.line + 1)) := by
  obtain ⟨s, f, σ, q, σ', hx, hq⟩ := h.awaited
  obtain ⟨hline, b, a, hs⟩ := exists_suspends hx hq
  obtain ⟨b₁, a₁, hfirst⟩ := hs.exists_first hline
  obtain rfl : b₁ ++ v.literal.toList ++ a₁ = text :=
    Option.some.inj ((hfirst.replace _).symm.trans ht)
  obtain ⟨hb, hc, ho⟩ := hs.resumed_part v (hline ▸ hfirst.line)
  rw [← hline] at hb
  have hk := hs.stopping.kind_ne
  rw [← hline] at hk
  exact h.steps.congr hb ⟨hc, ho⟩ hk.2

/-- How an activation can leave a fiber. It fails for a block keyword only if a called function has
failed for it. -/
inductive Fiber.LeftInStep (depth : Nat → Nat) (received : Option ChildResult) :
    Outcome → Fiber → Prop where

  | rests {o : Outcome} {g : Fiber} : o = .skipped ∨ o = .yielded → g.cursor.InStep depth →
      LeftInStep depth received o g

  | called {q : CallRequest} {g : Fiber} : g.cursor.InStep depth →
      (∀ p, q.resume = some p → p.Reenters depth g.cursor) → LeftInStep depth received (.called q) g

  | terminated {t : Termination} {g : Fiber} :
      (∀ k, t.ending = .failed (.unexpectedKeyword k) →
        received = some (.failed (.unexpectedKeyword k))) →
      LeftInStep depth received (.terminated t) g

namespace Fiber

variable {depth : Nat → Nat} {received : Option ChildResult} {f g : Fiber} {s : Scope}
  {st : Statement} {σ σ' : EvalState}

theorem LeftInStep.terminate {ending : Ending} {line : Option Nat} {w : World}
    (h : ∀ k, ending = .failed (.unexpectedKeyword k) →
      received = some (.failed (.unexpectedKeyword k))) :
    LeftInStep depth received (g.terminate ending line w).1 (g.terminate ending line w).2.1 :=
  .terminated h

/-- What a statement does to the cursor. -/
theorem execute_cursor (h : (execute s f st).run σ = .ok g σ') :
    g.lines = f.lines ∧ (st.kind = .branch → ∃ taken, g.cursor = f.cursor.enter taken) ∧
      (st.kind ≠ .branch → g.cursor = f.cursor) := by
  obtain ⟨vars, cursor, hg, -, hc⟩ := execute_ok h
  refine ⟨hg ▸ rfl, fun hk => ?_, fun hk => ?_⟩
  · cases st with
    | branch text =>
      rw [execute_branch] at h
      obtain ⟨taken, σ₁, -, h⟩ := of_run_bind_ok h
      cases h
      exact ⟨taken, rfl⟩
    | blank | close | otherwise | declare | assign | bare => cases hk
  · rw [hg]
    exact hc fun text => by
      rintro rfl
      exact hk rfl

/-- A statement never fails for a block keyword. -/
theorem execute_no_keyword {e : ScriptError} (h : (execute s f st).run σ = .error (.error e) σ')
    (k : BlockKeyword) : e ≠ .unexpectedKeyword k := by
  rintro rfl
  cases execute_stops s f st σ _ σ' h

end Fiber

namespace Loop

variable {env : Environment} {depth : Nat → Nat} {ls : List (List Char)}
  {received : Option ChildResult} {l : Loop}

/-- A loop between two lines, with the line to come. -/
structure InStep (depth : Nat → Nat) (ls : List (List Char)) (l : Loop) : Prop where
  lines : l.fiber.lines = ls
  cursor : l.fiber.cursor.InStep depth
  resumed {text : List Char} : l.resumed = some text → l.fiber.cursor.line < ls.length ∧
    (Statement.ofLine text).kind.Steps (depth l.fiber.cursor.line) (depth (l.fiber.cursor.line + 1))

/-- Where a loop can get to. -/
inductive Stage.InStep (depth : Nat → Nat) (ls : List (List Char))
    (received : Option ChildResult) : Stage → Prop where

  | going {l : Loop} : l.InStep depth ls → Stage.InStep depth ls received (.going l)

  | done {trace : List Nat} {out : Outcome × Fiber × World} :
      Fiber.LeftInStep depth received out.1 out.2.1 →
      Stage.InStep depth ls received (.done trace out)

theorem InStep.pass (h : l.InStep depth ls) {c : Cursor} (hc : c.InStep depth) :
    Stage.InStep depth ls received (.going (l.pass c)) :=
  .going ⟨h.lines, hc, by simp [Loop.pass]⟩

theorem InStep.evaluate (h : l.InStep depth ls) {line : List Char}
    (hs : (Statement.ofLine line).kind.Steps (depth l.fiber.cursor.line)
      (depth (l.fiber.cursor.line + 1)))
    (hk : (Statement.ofLine line).kind ≠ .close ∧ (Statement.ofLine line).kind ≠ .otherwise) :
    Stage.InStep depth ls received (l.evaluate env line (Statement.ofLine line)) := by
  -- the depth behind a statement that opens no block
  have hplain (hb : (Statement.ofLine line).kind ≠ .branch) :
      l.fiber.cursor.advance.InStep depth := by
    refine h.cursor.advance ?_
    generalize (Statement.ofLine line).kind = k at hs hk hb
    cases k <;> simp_all [Statement.Kind.Steps]
  unfold Loop.evaluate
  dsimp only
  split
  · exact .done (.terminate (by rintro k ⟨⟩))
  · split
    · next g st hx =>
      obtain ⟨hlines, hbranch, hother⟩ := Fiber.execute_cursor hx
      have hcursor : g.cursor.InStep depth := by
        by_cases hb : (Statement.ofLine line).kind = .branch
        · obtain ⟨taken, ht⟩ := hbranch hb
          rw [hb] at hs
          exact ht ▸ h.cursor.enter hs taken
        · exact hother hb ▸ hplain hb
      split
      · exact .done (.rests (.inr rfl) hcursor)
      · exact .going ⟨hlines.trans h.lines, hcursor, by simp⟩
    · next e st hx =>
      refine .done (.terminate fun k hk => ?_)
      exact absurd (Ending.failed.inj hk) (Fiber.execute_no_keyword hx k)
    · exact .done (.terminate (by rintro k ⟨⟩))
    · next q st hx =>
      refine .done (.called ?_ fun p hp => ?_)
      · dsimp only
        split
        · exact h.cursor
        · next hn =>
          -- only the last call of a bare chain does not want its value
          refine hplain fun hb => hn ?_
          have hexp := Fiber.execute_stops _ _ _ _ _ _ hx
          refine hexp ?_
          cases hst : Statement.ofLine line <;> rw [hst] at hb <;> first | rfl | cases hb
      · have hline := (exists_suspends hx hp).1
        dsimp only
        rw [if_pos (by simp [hp])]
        exact ⟨hline ▸ hs, _, _, _, q, st, hx, hp⟩

theorem InStep.take (h : l.InStep depth ls) {line : List Char}
    (hs : (Statement.ofLine line).kind.Steps (depth l.fiber.cursor.line)
      (depth (l.fiber.cursor.line + 1))) :
    Stage.InStep depth ls received (l.take env line) := by
  have hstatement {st : Statement} (hst : Statement.ofLine line = st)
      (hk : st.kind ≠ .close ∧ st.kind ≠ .otherwise) :
      Stage.InStep depth ls received (if l.fiber.cursor.isActive then l.evaluate env line st
        else .going (l.pass (l.fiber.cursor.advance.skip st))) := by
    subst hst
    split
    · exact h.evaluate hs hk
    · exact h.pass (h.cursor.skip hs hk)
  unfold Loop.take
  cases hst : Statement.ofLine line with
  | blank =>
    rw [hst] at hs
    exact h.pass (h.cursor.advance hs)
  | close =>
    rw [hst] at hs
    obtain ⟨d, hd, hc⟩ := h.cursor.close hs
    simp only [hd]
    exact h.pass hc
  | otherwise =>
    rw [hst] at hs
    obtain ⟨d, hd, hc⟩ := h.cursor.switch hs.1 hs.2
    simp only [hd]
    exact h.pass hc
  | branch | declare | assign | bare => exact hstatement hst (by simp [Statement.kind])

theorem InStep.look (hp : Profile depth ls) (h : l.InStep depth ls)
    (hl : l.fiber.cursor.line < ls.length) : Stage.InStep depth ls received (l.look env) := by
  obtain ⟨line, hx, -⟩ := exists_coming (h.lines ▸ hl)
  rw [Loop.look, hx]
  refine h.take ?_
  cases hr : l.resumed with
  | some text =>
    obtain rfl : text = line := by simpa [hr] using hx
    exact (h.resumed hr).2
  | none => exact hp.step (by simpa [hr, h.lines] using hx)

/-- One round keeps a loop in step, also where the script starts over. -/
theorem InStep.step (hp : Profile depth ls) (h : l.InStep depth ls) :
    Stage.InStep depth ls received (l.step env) := by
  unfold Loop.step
  split
  · next hend =>
    rw [h.lines] at hend
    split
    · exact .done (.rests (.inr rfl) h.cursor)
    · next hgo =>
      have hne : 0 < ls.length := by
        apply List.length_pos_of_ne_nil
        rintro hnil
        simp [h.lines, hnil] at hgo
      have hagain : l.again.InStep depth ls := {
        lines := h.lines
        cursor := .start hp
        resumed := fun hr => absurd (h.resumed hr).1 (Nat.not_lt.2 hend) }
      exact hagain.look hp hne
  · next hl => exact h.look hp (h.lines ▸ Nat.lt_of_not_le hl)

theorem InStep.iterate (hp : Profile depth ls) (h : l.InStep depth ls) (n : Nat) :
    Stage.InStep depth ls received (l.iterate env n) := by
  induction n generalizing l with
  | zero => exact .going h
  | succ n ih =>
    have hs : Stage.InStep depth ls received (l.step env) := h.step hp
    rw [Loop.iterate]
    generalize l.step env = r at hs
    cases hs with
    | going hl => exact ih hl
    | done hd => exact .done hd

end Loop

namespace Fiber

variable {depth : Nat → Nat} {f : Fiber}

/-- A fiber between two activations. -/
structure InStep (depth : Nat → Nat) (f : Fiber) : Prop where
  cursor : f.cursor.InStep depth
  pending {p : PendingCall} : f.pending = some p → p.toResumePoint.Reenters depth f.cursor

theorem InStep.takeUp (hf : ∀ p, f.pending = some p → f.cursor.line < f.lines.length)
    (h : f.InStep depth) (budget : Nat) (w : World) :
    Loop.Stage.InStep depth f.lines f.received (f.takeUp budget w) := by
  unfold Fiber.takeUp
  dsimp only
  split
  · next e pending hr =>
    refine .done (.terminate ?_)
    rintro k ⟨⟩
    exact hr
  · next v p hr hp =>
    split
    · next text ht =>
      refine .going ⟨rfl, h.cursor, ?_⟩
      rintro _ ⟨⟩
      exact ⟨hf p hp, (h.pending hp).replaced v ht⟩
    · exact .done (.terminate (by rintro k ⟨⟩))
  · exact .going ⟨rfl, h.cursor, by simp⟩
  · exact .going ⟨rfl, h.cursor, by simp⟩

theorem InStep.enter (hf : f.Sound) (h : f.InStep depth) (env : Environment) (budget : Nat)
    (forced : Bool) (w : World) :
    Loop.Stage.InStep depth f.lines f.received (f.enter env budget forced w) := by
  have hskip : Loop.Stage.InStep depth f.lines f.received (.done [] (.skipped, f, w)) :=
    .done (.rests (.inl rfl) h.cursor)
  unfold Fiber.enter
  split
  · exact hskip
  · split
    · exact .done (.terminate (by rintro k ⟨⟩))
    · split
      · exact hskip
      · split
        · exact hskip
        · have hg : InStep depth
              { f with lastTick := some env.tick, state := .running, awaiting := none } :=
            ⟨h.cursor, h.pending⟩
          refine hg.takeUp (fun p hp => ?_) budget w
          exact (hf.pending p hp).2

theorem InStep.byLines (hf : f.Sound) (hp : Profile depth f.lines) (h : f.InStep depth)
    (env : Environment) (budget : Nat) (forced : Bool) (w : World) (n : Nat) :
    Loop.Stage.InStep depth f.lines f.received (f.byLines env budget forced w n) := by
  have he := h.enter hf env budget forced w
  unfold Fiber.byLines
  generalize f.enter env budget forced w = r at he
  cases he with
  | going hl => exact hl.iterate hp n
  | done hd => exact .done hd

/-- An activation is its loop, given enough rounds. -/
theorem InStep.activate (hf : f.Sound) (hp : Profile depth f.lines) (h : f.InStep depth)
    (env : Environment) (forced : Bool) (w : World) :
    LeftInStep depth f.received (f.activate env forced w).1
      (f.activate env forced w).2.1 := by
  have hend := (hf.bounded env forced w).ends (Nat.lt_succ_self _)
  have hs := h.byLines hf hp env env.limits.tokenBudget forced w
    ((env.limits.tokenBudget + 2) * f.lines.length + 1)
  rw [hend] at hs
  cases hs with
  | done hd => exact hd

theorem runStatements_lines (env : Environment) (budget : Nat) (f : Fiber)
    (coming : List (List Char)) (evaluated : Bool) (w : World) :
    (f.runStatements env budget coming evaluated w).2.1.lines = f.lines := by
  fun_induction runStatements env budget f coming evaluated w with
  | case1 budget f coming evaluated w g c hn
  | case2 budget f coming evaluated w g c k hn
  | case3 f coming evaluated w g c line s hn
  | case6 f coming evaluated w g c line s hn
  | case7 f coming evaluated w g c line s hn
  | case8 f coming evaluated w g c line s hn =>
    exact congrArg Links.lines (frame_of_nextStatement hn).1
  | case4 f coming evaluated w g c line s hn g' budget k st hx =>
    exact (execute_cursor hx).1.trans (congrArg Links.lines (frame_of_nextStatement hn).1)
  | case5 f coming evaluated w g c line s hn g' budget k st hx hp ih =>
    exact ih.trans <| (execute_cursor hx).1.trans <|
      congrArg Links.lines (frame_of_nextStatement hn).1

/-- A fiber keeps its script. -/
theorem activate_lines (env : Environment) (forced : Bool) (f : Fiber) (w : World) :
    (f.activate env forced w).2.1.lines = f.lines := by
  unfold activate resume run
  dsimp only
  repeat' split
  all_goals first | rfl | exact runStatements_lines ..

/-- Whatever depths the check gives to its lines, the fiber has them. -/
def Nested (f : Fiber) : Prop := ∀ depth, Profile depth f.lines → f.InStep depth

theorem start_nested (id : FiberId) (entity : EntityId) (authority : Int32) (source : String) :
    (Fiber.start id entity authority source).Nested :=
  fun _ hp => ⟨.start hp, by simp [Fiber.start]⟩

theorem seeded_nested {f : Fiber} (h : f.Nested) (seeds : List (String × Value)) :
    (seeds.foldl (fun f (name, v) => f.seed name v) f).Nested := by
  induction seeds generalizing f with
  | nil => exact h
  | cons x seeds ih => exact ih fun depth hp => ⟨(h depth hp).cursor, (h depth hp).pending⟩

end Fiber

namespace Scheduler

open TileScript.Fiber

variable {env : Environment} {s s' : Scheduler} {w : World} {task : Task} {ts : List Task}

/-- All live fibers have the depths of their lines. -/
def Nested (s : Scheduler) : Prop := ∀ (id : FiberId) (f : Fiber), s.fibers[id]? = some f → f.Nested

theorem Nested.insert (h : s.Nested) {id n : FiberId} {f : Fiber} (hf : f.Nested) :
    Nested { fibers := s.fibers.insert id f, nextId := n } := by
  intro a g hg
  rcases of_getElem?_insert hg with ⟨-, rfl⟩ | ⟨-, hg⟩
  · exact hf
  · exact h a g hg

theorem Nested.retire (h : s.Nested) (id : FiberId) (parent : Option FiberId) (r : ChildResult) :
    (s.retire id parent r).Nested := by
  intro a g hg
  obtain ⟨-, l, hl, ⟨-, -, rfl⟩ | ⟨-, rfl⟩⟩ := of_getElem?_retire hg
  · exact fun depth hp => ⟨(h a l hl depth hp).cursor, (h a l hl depth hp).pending⟩
  · exact h a g hl

theorem spawned_nested {id : FiberId} {g child : Fiber} {r : CallRequest}
    (h : Spawned env s id g r child) : child.Nested := by
  obtain ⟨source, -, rfl⟩ := h.loaded
  exact seeded_nested (fun depth hp => ⟨.start hp, by simp [Fiber.start]⟩) r.seeds

theorem Nested.stepped (h : s.Nested) (hl : Linked s) (hs : Stepped env s w task s' ts) :
    s'.Nested := by
  -- what an activation leaves behind, once the depths of its lines are known
  have hleft {f g : Fiber} {o : Outcome} {w' : World} {depth : Nat → Nat}
      (hf : s.fibers[task.fiber]? = some f) (hx : f.activate env task.forced w = (o, g, w'))
      (hp : Profile depth g.lines) : LeftInStep depth f.received o g ∧ f.InStep depth := by
    have hlines := activate_lines env task.forced f w
    rw [hx] at hlines
    have hp : Profile depth f.lines := hlines ▸ hp
    have hi := (h task.fiber f hf depth hp).activate (hl.placed hf).toSound hp env task.forced w
    rw [hx] at hi
    exact ⟨hi, h task.fiber f hf depth hp⟩
  cases hs with
  | gone _ => exact h
  | @rest f g o w' hf hx ho =>
    refine h.insert fun depth hp => ?_
    obtain ⟨hi, hfi⟩ := hleft hf hx hp
    have ha := activate_activated (hl.placed hf).toSound env task.forced w
    rw [hx] at ha
    cases ha with
    | skipped => exact hfi
    | yielded he hid hpar hidle =>
      cases hi with
      | rests _ hc => exact ⟨hc, fun hc => nomatch hidle.pending.symm.trans hc⟩
    | called | terminated => simp at ho
  | @call f g child r w' hf hx hc =>
    have hs : Nested { s with fibers := s.fibers.insert s.nextId child } :=
      h.insert (spawned_nested hc)
    refine hs.insert fun depth hp => ?_
    cases (hleft hf hx hp).1 with
    | rests ho => simp at ho
    | called hc hr =>
      refine ⟨hc, fun {p} hp => ?_⟩
      obtain ⟨q, hq, rfl⟩ := Option.map_eq_some_iff.1 hp
      exact hr q hq
  | retire r hf hx => exact h.retire _ _ r

theorem nested_kept : Kept Nested where
  empty := by simp [Nested]
  attach {s s' w entity source authority id} h ha := by
    unfold attach at ha
    split_ifs at ha
    cases ha
    exact h.insert (start_nested _ _ _ _)
  detach {s} id h := by
    cases hf : s.fibers[id]? with
    | none => simpa [detach, hf] using h
    | some f => exact detach_eq_retire hf ▸ h.retire id f.parent _
  step env w task hl h := h.stepped hl (step_stepped hl env w task)

/-- A call is never refused for a block keyword. -/
theorem spawn_no_keyword (env : Environment) (s : Scheduler) (caller : Fiber) (q : CallRequest)
    (k : BlockKeyword) : s.spawn env caller q ≠ .error (.unexpectedKeyword k) := by
  intro h
  obtain h | ⟨-, h⟩ | h := spawn_error h <;> cases h

/-- Wherever a fiber occurs whose script passes the check, it is as deep in blocks as the check has
counted, and it stays so through its activation, from line to line. It fails for a block keyword
only if a function that it has called failed for it. -/
theorem checked_blocks (h : Occurs s) {id : FiberId} {f : Fiber} (hf : s.fibers[id]? = some f)
    {source : String} (hl : f.lines = trimmedLines source) (hc : check source = .ok ()) :
    f.cursor.InStep (Check.depthAt source) ∧
    ∀ (env : Environment) (forced : Bool) (w : World),
      (∀ {n : Nat} {l : Loop}, f.byLines env env.limits.tokenBudget forced w n = .going l →
        l.fiber.cursor.InStep (Check.depthAt source)) ∧
      (∀ {t : Termination} {k : BlockKeyword}, (f.activate env forced w).1 = .terminated t →
        t.ending = .failed (.unexpectedKeyword k) →
        f.received = some (.failed (.unexpectedKeyword k))) ∧
      ∀ (s' : Scheduler) (caller : Fiber) (q : CallRequest) (k : BlockKeyword),
        s'.spawn env caller q ≠ .error (.unexpectedKeyword k) := by
  have hp : Profile (Check.depthAt source) f.lines := hl ▸ profile_of_check hc
  have hi : f.InStep (Check.depthAt source) := nested_kept.occurs h id f hf _ hp
  have hs : f.Sound := (h.linked.placed hf).toSound
  refine ⟨hi.cursor, fun env forced w => ⟨?_, ?_, spawn_no_keyword env⟩⟩
  · intro n l hg
    have hb := hi.byLines hs hp env env.limits.tokenBudget forced w n
    rw [hg] at hb
    cases hb with
    | going hl => exact hl.cursor
  · intro t k ht hk
    have ha := hi.activate hs hp env forced w
    rw [ht] at ha
    cases ha with
    | rests ho => simp at ho
    | terminated hr => exact hr k hk

section Example

def blockSource : String := "if 1 == 1\nvar x = $Item[0].turn()\nend"

def blockStart : Scheduler where
  fibers := {(0, Fiber.start 0 ⟨0⟩ 0 blockSource)}
  nextId := 1

/-- The called function is nothing but a block keyword. -/
def strayEnvironment : Environment :=
  { keyEnvironment with
    source := { list := fun _ => .ok ["key.turn"], load? := fun _ _ => some "end" } }

/-- The scheduler and the world when the fiber has called, within its block. -/
def blockCalled : Scheduler := (blockStart.step strayEnvironment keyWorld ⟨0, false⟩).1

def blockCalledWorld : World := (blockStart.step strayEnvironment keyWorld ⟨0, false⟩).2.1

theorem blockCalled_atWork :
    AtWork strayEnvironment blockStart keyWorld [] [⟨1, true⟩] blockCalled blockCalledWorld := by
  have hk : blockStart.fibers.keys = [0] := by decide +kernel
  have hw : AtWork strayEnvironment blockStart keyWorld [0] [] blockStart keyWorld := hk ▸ .enter
  have ht : (blockStart.step strayEnvironment keyWorld ⟨0, false⟩).2.2 ++ [] = [⟨1, true⟩] := by
    decide +kernel
  exact ht ▸ hw.next.step

theorem blockStart_reachable : Reachable blockStart :=
  have ha : attach {} keyWorld ⟨0⟩ blockSource 0 = .ok (0, blockStart) := rfl
  Reachable.empty.attach ha

/-- A fiber that waits within a block is as deep as its line. -/
theorem checked_blocks_waiting : ∃ f, blockCalled.fibers[0]? = some f ∧ f.cursor.line = 1 ∧
    Check.depthAt blockSource 1 = 1 ∧ f.cursor.InStep (Check.depthAt blockSource) := by
  have hx : blockCalled.fibers[0]?.map (fun f => (f.lines, f.cursor.line)) =
      some (trimmedLines blockSource, 1) := by decide +kernel
  obtain ⟨f, hf, hx⟩ := Option.map_eq_some_iff.1 hx
  obtain ⟨hl, hi⟩ := Prod.mk.inj hx
  have ho : Occurs blockCalled := .within blockStart_reachable blockCalled_atWork
  have hc : check blockSource = .ok () := by decide +kernel
  exact ⟨f, hf, hi, by decide +kernel, (checked_blocks ho hf hl hc).1⟩

/-- The scheduler and the world when the function has failed. -/
def blockHanded : Scheduler := (blockCalled.step strayEnvironment blockCalledWorld ⟨1, true⟩).1

def blockHandedWorld : World :=
  (blockCalled.step strayEnvironment blockCalledWorld ⟨1, true⟩).2.1

/-- A function that fails for a block keyword takes its caller with it, whose blocks match. -/
theorem keyword_handed_on : ∃ (f : Fiber) (t : Termination), Occurs blockHanded ∧
    blockHanded.fibers[0]? = some f ∧ f.lines = trimmedLines blockSource ∧
    check blockSource = .ok () ∧
    (f.activate strayEnvironment true blockHandedWorld).1 = .terminated t ∧
    t.ending = .failed (.unexpectedKeyword .close) := by
  have ho : Occurs blockHanded := .within blockStart_reachable blockCalled_atWork.step
  have hx : blockHanded.fibers[0]?.bind (fun f =>
      match (f.activate strayEnvironment true blockHandedWorld).1 with
      | .terminated t => some (f.lines, t.ending)
      | _ => none) = some (trimmedLines blockSource, .failed (.unexpectedKeyword .close)) := by
    decide +kernel
  obtain ⟨f, hf, hx⟩ := Option.bind_eq_some_iff.1 hx
  split at hx
  · next t ht =>
    simp only [Option.some.injEq, Prod.mk.injEq] at hx
    exact ⟨f, t, ho, hf, hx.1, by decide +kernel, ht, hx.2⟩
  · cases hx

end Example

end Scheduler

end TileScript
