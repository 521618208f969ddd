import TileScript.Proofs.CallReturn
import TileScript.Proofs.Interrupts
import TileScript.Proofs.LineLoop
import TileScript.Proofs.Recursion

/-! # Activations end

An activation goes through its loop until it is over: after a bounded number of rounds, with a line
found in each of them, and with a token for each line it evaluates. It ends for want of a token just
where it would evaluate one line more.
-/

namespace TileScript

open Text

section Budget

variable {env : Environment} {budget : Nat} {f : Fiber} {coming : List (List Char)}
  {evaluated : Bool} {w : World} {trace : List Nat}

/-- A script ended for want of a token. -/
def Outcome.Drained (o : Outcome) : Prop :=
  ∃ t, o = .terminated t ∧ t.ending = .failed .budgetExceeded

theorem Fiber.drained_terminate (ending : Ending) (line : Option Nat) :
    (f.terminate ending line w).1.Drained ↔ ending = .failed .budgetExceeded := by
  constructor
  · rintro ⟨t, ht, he⟩
    cases ht
    exact he
  · rintro rfl
    exact ⟨_, rfl, rfl⟩

/-- Each line that is evaluated costs a token. -/
theorem Fiber.length_runTraced :
    trace.length ≤ (f.runTraced env budget coming evaluated w trace).1.length ∧
      (f.runTraced env budget coming evaluated w trace).1.length ≤ trace.length + budget := by
  fun_induction runTraced env budget f coming evaluated w trace with
  | case1 | case2 | case3 => simp
  | case5 f coming evaluated w trace g c line s hn g' budget trace' k st hx hp ih =>
    have ht : trace'.length = trace.length + 1 := by simp [trace']
    omega
  | case4 f coming evaluated w trace g c line s hn g' budget trace'
  | case6 f coming evaluated w trace g c line s hn g' budget trace'
  | case7 f coming evaluated w trace g c line s hn g' budget trace'
  | case8 f coming evaluated w trace g c line s hn g' budget trace' =>
    have ht : trace'.length = trace.length + 1 := by simp [trace']
    dsimp only
    omega

/-- One token pays for the next statement, and for no other. -/
theorem Fiber.length_runTraced_one {g : Fiber} {c : Cursor} {line : List Char} {s : Statement}
    (hn : f.nextStatement coming evaluated = (g, .found c line s)) :
    (f.runTraced env 1 coming evaluated w trace).1.length = trace.length + 1 := by
  rw [runTraced, hn]
  dsimp only
  split
  · next k st hx =>
    split
    · simp
    · have ht : (trace ++ [c.line - 1]).length = trace.length + 1 := by simp
      rw [← ht]
      exact Nat.le_antisymm length_runTraced.2 length_runTraced.1
  · simp
  · simp
  · simp

/-- A statement never fails for want of a token, whatever it evaluates. -/
theorem Fiber.execute_not_drained {s : Scope} {st : Statement} {σ σ' : EvalState} {e : ScriptError}
    (h : (f.execute s st).run σ = .error (.error e) σ') : e ≠ .budgetExceeded := by
  rintro rfl
  cases execute_stops s f st σ _ σ' h

/-- With one more token a script evaluates one more line if it ended for want of it, and else just
the same. -/
theorem Fiber.runTraced_succ :
    ((f.runTraced env budget coming evaluated w trace).2.1.Drained ∧
      (f.runTraced env (budget + 1) coming evaluated w trace).1.length =
        trace.length + budget + 1) ∨
    (¬ (f.runTraced env budget coming evaluated w trace).2.1.Drained ∧
      f.runTraced env (budget + 1) coming evaluated w trace =
        f.runTraced env budget coming evaluated w trace) := by
  fun_induction runTraced env budget f coming evaluated w trace with
  | case1 f coming evaluated w trace budget g c hn =>
    refine .inr ⟨by simp [Outcome.Drained], ?_⟩
    rw [runTraced, hn]
  | case2 f coming evaluated w trace budget g c k hn =>
    refine .inr ⟨by simp [drained_terminate], ?_⟩
    rw [runTraced, hn]
  | case3 f coming evaluated w trace g c line s hn g' =>
    exact .inl ⟨by simp [drained_terminate], length_runTraced_one hn⟩
  | case4 f coming evaluated w trace g c line s hn g' budget trace' k st hx ticks hp =>
    refine .inr ⟨by simp [Outcome.Drained], ?_⟩
    rw [runTraced, hn]
    simp only [g'] at hx
    simp only [hx, hp, trace']
  | case5 f coming evaluated w trace g c line s hn g' budget trace' k st hx hp ih =>
    have hstep : f.runTraced env (budget + 1 + 1) coming evaluated w trace =
        k.runTraced env (budget + 1) (k.lines.drop c.line) true st.world trace' := by
      rw [runTraced, hn]
      simp only [g'] at hx
      simp only [hx, hp, trace']
    have ht : trace'.length = trace.length + 1 := by simp [trace']
    rw [hstep]
    rcases ih with ⟨hd, hl⟩ | ⟨hd, he⟩
    · exact .inl ⟨hd, by omega⟩
    · exact .inr ⟨hd, he⟩
  | case6 f coming evaluated w trace g c line s hn g' budget trace' e st hx =>
    refine .inr ⟨?_, ?_⟩
    · rw [drained_terminate]
      rintro ⟨⟩
      exact execute_not_drained hx rfl
    · rw [runTraced, hn]
      simp only [g'] at hx
      simp only [hx, trace', g']
  | case7 f coming evaluated w trace g c line s hn g' budget trace' v st hx =>
    refine .inr ⟨by simp [drained_terminate], ?_⟩
    rw [runTraced, hn]
    simp only [g'] at hx
    simp only [hx, trace', g']
  | case8 f coming evaluated w trace g c line s hn g' budget trace' q st hx cursor =>
    refine .inr ⟨by simp [Outcome.Drained], ?_⟩
    rw [runTraced, hn]
    simp only [g'] at hx
    simp only [hx, trace', g', cursor]

theorem Fiber.drained_iff_length :
    (f.runTraced env budget coming evaluated w trace).2.1.Drained ↔
      (f.runTraced env (budget + 1) coming evaluated w trace).1.length =
        trace.length + budget + 1 := by
  rcases @runTraced_succ env budget f coming evaluated w trace with ⟨hd, hl⟩ | ⟨hd, he⟩
  · exact iff_of_true hd hl
  · refine iff_of_false hd fun hl => ?_
    have hle := (@length_runTraced env budget f coming evaluated w trace).2
    rw [he] at hl
    omega

end Budget

namespace Fiber

open Loop

/-- Takes up a result that has been handed over, if there is one, and enters the loop. -/
def takeUp (budget : Nat) (f : Fiber) (w : World) : Stage :=
  let line := some (f.cursor.line + 1)
  let enter (f : Fiber) (resumed : Option (List Char)) : Stage :=
    .going { budget, evaluated := true, fiber := f, world := w, resumed }
  match f.received, f.pending with
  | some (.failed e), pending =>
    .done [] ({ f with received := none }.terminate (.failed e) (pending.bind fun _ => line) w)
  | some (.value v), some p =>
    let f := { f with received := none, pending := none }
    match replaceFirst? p.statement v.literal.toList p.line with
    | some text => enter f (some text)
    | none => .done [] (f.terminate (.failed (.lostResume (String.ofList p.statement))) line w)
  | some (.value _), none => enter { f with received := none } none
  | none, _ => enter f none

/-- The activation of a fiber before its first line, with a budget. -/
def enter (env : Environment) (budget : Nat) (forced : Bool) (f : Fiber) (w : World) : Stage :=
  if !f.enabled || !f.valid then .done [] (.skipped, f, w)
  else
    match w.entity? f.entity with
    | none => .done [] (f.terminate (.failed (.nullReference f.entity.reference)) none w)
    | some e =>
      if !e.canAct then .done [] (.skipped, f, w)
      else if !forced && f.lastTick == some env.tick then .done [] (.skipped, f, w)
      else { f with lastTick := some env.tick, state := .running, awaiting := none }.takeUp budget w

/-- The activation of a fiber, cut off after `n` lines. -/
def byLines (env : Environment) (budget : Nat) (forced : Bool) (f : Fiber) (w : World) (n : Nat) :
    Stage :=
  match f.enter env budget forced w with
  | .going l => l.iterate env n
  | r => r

variable (env : Environment) (forced : Bool) (f : Fiber) (w : World)

/-- The numbers of the lines that an activation evaluates with a budget, in order. -/
def evaluatedLines (budget : Nat) : List Nat :=
  match f.enter env budget forced w with
  | .going l => (l.result env).1
  | .astray => []
  | .done trace _ => trace

/-- Whether an activation gets as far as to the result that has been handed over. -/
def mayRun : Bool :=
  f.enabled && f.valid && (w.entity? f.entity).any (·.canAct) &&
    (forced || f.lastTick != some env.tick)

/-- Whether a called function has ended for want of a token, which ends the fiber in turn. -/
def HandsOn : Prop :=
  f.mayRun env forced w = true ∧ f.received = some (.failed .budgetExceeded)

/-- How an activation begins: it is over before its first line, or it enters the loop with its
budget. -/
inductive Entered : (Nat → Loop.Stage) → Prop where

  | settled {out : Outcome × Fiber × World} : f.activate env forced w = out →
      (out.1.Drained ↔ f.HandsOn env forced w) → Entered fun _ => .done [] out

  | going {l : Loop} : l.InRange → l.trace = [] → l.fiber.lines = f.lines →
      ¬ f.HandsOn env forced w →
      f.activate env forced w = (Loop.result env { l with budget := env.limits.tokenBudget }).2 →
      Entered fun budget => .going { l with budget }

/-- Running a fiber is going through its loop. -/
theorem run_eq_result (resumed : Option (List Char)) :
    f.run env resumed w = (Loop.result env {
      budget := env.limits.tokenBudget
      evaluated := true
      fiber := f
      world := w
      resumed }).2 := by
  unfold run
  cases resumed with
  | none => exact runTraced_snd.symm
  | some line => exact runTraced_snd.symm

section Entered

variable {env forced f w}

theorem Entered.stop {out : Outcome × Fiber × World} (ha : f.activate env forced w = out)
    (hm : f.mayRun env forced w = false) (hd : ¬ out.1.Drained) :
    Entered env forced f w fun _ => .done [] out :=
  .settled ha ⟨fun h => absurd h hd, fun h => by simp [h.1] at hm⟩

theorem Entered.run {g : Fiber} {resumed : Option (List Char)}
    (ha : f.activate env forced w = g.run env resumed w) (hn : ¬ f.HandsOn env forced w)
    (hl : g.lines = f.lines) (hi : resumed.isSome → g.cursor.line < g.lines.length) :
    Entered env forced f w fun budget =>
      .going { budget, evaluated := true, fiber := g, world := w, resumed } := by
  have hres := ha.trans (run_eq_result env g w resumed)
  exact .going (l := { budget := 0, evaluated := true, fiber := g, world := w, resumed }) hi rfl hl
    hn hres

end Entered

/-- A fiber that may run does what the result it has been handed asks for. -/
theorem takeUp_entered (hf : f.Sound) (hm : f.mayRun env forced w = true)
    (ha : f.activate env forced w =
      { f with lastTick := some env.tick, state := .running, awaiting := none }.resume env w) :
    Entered env forced f w fun budget => takeUp budget
      { f with lastTick := some env.tick, state := .running, awaiting := none } w := by
  unfold takeUp
  dsimp only
  have hh : f.HandsOn env forced w ↔ f.received = some (.failed .budgetExceeded) := by
    simp [HandsOn, hm]
  cases hr : f.received with
  | none =>
    refine .run ?_ (by simp [hh, hr]) rfl (by simp)
    rw [ha, resume]
    simp only [hr]
  | some r =>
    cases r with
    | failed e =>
      refine .settled ?_ ?_
      · rw [ha, resume]
        simp only [hr]
      · rw [drained_terminate, hh, hr]
        simp
    | value v =>
      cases hp : f.pending with
      | none =>
        refine .run ?_ (by simp [hh, hr]) rfl (by simp)
        rw [ha, resume]
        simp only [hr, hp]
      | some p =>
        cases ht : replaceFirst? p.statement v.literal.toList p.line with
        | none =>
          simp only [ht]
          refine .settled ?_ ?_
          · rw [ha, resume]
            simp only [hr, hp, ht]
          · rw [drained_terminate, hh, hr]
            simp
        | some text =>
          simp only [ht]
          refine .run ?_ (by simp [hh, hr]) rfl fun _ => (hf.pending p hp).2
          rw [ha, resume]
          simp only [hr, hp, ht]

theorem enter_entered (hf : f.Sound) :
    Entered env forced f w fun budget => f.enter env budget forced w := by
  have hskip : ¬ Outcome.Drained .skipped := by simp [Outcome.Drained]
  by_cases he : (!f.enabled || !f.valid) = true
  · simp only [enter, he, if_true]
    refine .stop ?_ ?_ hskip
    · simp only [activate, he, if_true]
    · cases hen : f.enabled <;> simp_all [mayRun]
  cases hw : w.entity? f.entity with
  | none =>
    simp only [enter, he, hw]
    refine .stop ?_ ?_ (by simp [drained_terminate])
    · simp only [activate, he, hw]
      rfl
    · simp [mayRun, hw]
  | some e =>
    by_cases hc : (!e.canAct) = true
    · simp only [enter, he, hw, hc, if_true]
      refine .stop ?_ ?_ hskip
      · simp only [activate, he, hw, hc, if_true]
        rfl
      · simp_all [mayRun]
    by_cases hl : (!forced && f.lastTick == some env.tick) = true
    · simp only [enter, he, hw, hc, hl, if_true]
      refine .stop ?_ ?_ hskip
      · simp only [activate, he, hw, hc, hl, if_true]
        rfl
      · simp_all [mayRun]
    have hm : f.mayRun env forced w = true := by
      cases hen : f.enabled <;> cases hv : f.valid <;> cases forced <;> simp_all [mayRun]
    simp only [enter, he, hw, hc, hl, if_false, Bool.false_eq_true]
    apply takeUp_entered env forced f w hf hm
    simp only [activate, he, hw, hc, hl, if_false, Bool.false_eq_true]

variable {env forced f w} in
/-- Between any two lines of an activation, the rest of its loop is the rest of the activation. -/
theorem Sound.inRange_of_going (hf : f.Sound) {n : Nat} {l : Loop}
    (h : f.byLines env env.limits.tokenBudget forced w n = .going l) :
    l.InRange ∧ f.activate env forced w = (l.result env).2 := by
  have he := enter_entered env forced f w hf
  generalize hx : (fun budget => f.enter env budget forced w) = x at he
  rw [byLines, congrFun hx env.limits.tokenBudget] at h
  cases he with
  | settled => cases h
  | @going l₀ hi _ _ _ ha =>
    have hib : Loop.InRange { l₀ with budget := env.limits.tokenBudget } := hi
    obtain ⟨hl, hr⟩ := Loop.inRange_of_going hib h
    exact ⟨hl, by rw [ha, hr]⟩

/-- How an activation ends. -/
structure Bounded : Prop where
  /-- It takes at most the whole script twice, and once more for each token. -/
  ends {n : Nat} : (env.limits.tokenBudget + 2) * f.lines.length < n →
    f.byLines env env.limits.tokenBudget forced w n =
      .done (f.evaluatedLines env forced w env.limits.tokenBudget) (f.activate env forced w)
  finds (n : Nat) : f.byLines env env.limits.tokenBudget forced w n ≠ .astray
  affordable : (f.evaluatedLines env forced w env.limits.tokenBudget).length ≤
    env.limits.tokenBudget
  /-- It ends for want of a token where one more line would be evaluated with one more token, or
  because a called function ended so. -/
  drained_iff : (f.activate env forced w).1.Drained ↔
    (f.evaluatedLines env forced w (env.limits.tokenBudget + 1)).length =
      env.limits.tokenBudget + 1 ∨ f.HandsOn env forced w

variable {f} in
theorem Sound.bounded (hf : f.Sound) : Bounded env forced f w := by
  have he := enter_entered env forced f w hf
  generalize hx : (fun budget => f.enter env budget forced w) = x at he
  have hx (budget : Nat) : f.enter env budget forced w = x budget := congrFun hx budget
  cases he with
  | @settled out ha hd =>
    refine ⟨fun _ => ?_, fun n => ?_, ?_, ?_⟩
    · simp only [byLines, evaluatedLines, hx, ha]
    · simp only [byLines, hx]
      simp
    · simp only [evaluatedLines, hx]
      simp
    · simp only [evaluatedLines, hx, ha, hd]
      simp
  | @going l hi ht hl hn ha =>
    have hlines (budget : Nat) : f.evaluatedLines env forced w budget =
        (l.fiber.runTraced env budget l.coming l.evaluated l.world []).1 := by
      simp only [evaluatedLines, hx, ← ht]
      rfl
    have hout : f.activate env forced w =
        (l.fiber.runTraced env env.limits.tokenBudget l.coming l.evaluated l.world []).2 := by
      rw [ha, ← ht]
      rfl
    have hib : Loop.InRange { l with budget := env.limits.tokenBudget } := hi
    have hstart : Loop.rounds { l with budget := env.limits.tokenBudget } ≤
        (env.limits.tokenBudget + 2) * f.lines.length + 1 := by
      simp only [Loop.rounds, hl, Nat.add_mul]
      split <;> omega
    refine ⟨fun {n} hr => ?_, fun n => ?_, ?_, ?_⟩
    · simp only [byLines, evaluatedLines, hx, ha]
      exact Loop.iterate_eq hib (Nat.le_trans hstart hr)
    · simp only [byLines, hx]
      exact Loop.iterate_ne_astray hib n
    · rw [hlines]
      exact Nat.le_trans length_runTraced.2 (by simp)
    · rw [hlines, hout]
      rw [drained_iff_length, List.length_nil, Nat.zero_add]
      exact (or_iff_left hn).symm

end Fiber

namespace Scheduler

/-- Wherever a fiber occurs its activation ends, and so does the evaluation of every text. -/
theorem activation_ends {s : Scheduler} (h : Occurs s) {id : FiberId} {f : Fiber}
    (hf : s.fibers[id]? = some f) (env : Environment) (forced : Bool) (w : World) :
    (∀ (c : Scope) {n : Nat} {text : List Char}, text.length < n →
      c.expressionText n text = OptionT.lift (c.eval (.parse text))) ∧
    (∀ (c : Scope) (wanted : Bool) {n : Nat} {text : List Char}, text.length ≤ n →
      c.statementText (c.expressionText n) wanted text =
        OptionT.lift (c.evalChain wanted (Link.parse text))) ∧
    f.Bounded env forced w := by
  refine ⟨fun c _ _ hn => c.expressionText_eq hn, fun c wanted n text hn => ?_, ?_⟩
  · exact Scope.statementText_eq wanted fun t ht =>
      c.expressionText_eq (Nat.lt_of_lt_of_le ht hn)
  · exact Fiber.Sound.bounded env forced w (h.linked.placed hf).toSound

section Example

/-- A script that would go on for ever. -/
def countFiber : Fiber := Fiber.start 0 ⟨0⟩ 0 "if 1 == 2\nvar x = 1\nend"

def countStart : Scheduler where
  fibers := {(0, countFiber)}
  nextId := 1

/-- It evaluates ten lines for ten tokens, and stops where it needs one more. -/
theorem activation_ends_drained : countStart.fibers[0]? = some countFiber ∧
    countFiber.evaluatedLines keyEnvironment false keyWorld 10 = List.replicate 10 0 ∧
    (countFiber.activate keyEnvironment false keyWorld).1.Drained ∧
    countFiber.Bounded keyEnvironment false keyWorld := by
  have ha : attach {} keyWorld ⟨0⟩ "if 1 == 2\nvar x = 1\nend" 0 = .ok (0, countStart) := rfl
  have hf : countStart.fibers[0]? = some countFiber := by decide +kernel
  have hs : Occurs countStart := .between (Reachable.empty.attach ha)
  have hb := (activation_ends hs hf keyEnvironment false keyWorld).2.2
  have hl : (countFiber.evaluatedLines keyEnvironment false keyWorld 11).length = 11 := by
    decide +kernel
  exact ⟨hf, by decide +kernel, hb.drained_iff.2 (.inl hl), hb⟩

end Example

end Scheduler

end TileScript
