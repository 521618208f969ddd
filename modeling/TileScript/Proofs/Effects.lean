import Mathlib.Data.List.Nodup
import TileScript.Proofs.Resume
import TileScript.Proofs.Trace
import TileScript.System.Builtin

/-! # Effects of a line

A line that waits for values is evaluated again and again, each time from its start. One evaluation
makes each call on the line at most once, and one that stops for a value makes exactly the calls
that end before the awaited one. So a call is made once more for every value that is awaited behind
it, and it is made once at most if there is none.
-/

namespace TileScript

open Text

/-- The state in which something ends. -/
def finalState {ε σ α : Type} : EStateM.Result ε σ α → σ
  | .ok _ s => s
  | .error _ s => s

/-- One evaluation of a line. -/
structure Pass (line : List Char) where
  env : Environment
  fiber : Fiber
  world : World

section Pass

variable {line : List Char}

namespace Pass

def scope (x : Pass line) : Scope := x.fiber.scope x.env line

def result (x : Pass line) : EStateM.Result Interrupt EvalState Fiber :=
  (Fiber.execute x.scope x.fiber (Statement.ofLine line)).run { world := x.world }

/-- The world behind the evaluation. -/
def after (x : Pass line) : World := (finalState x.result).world

/-- The calls of system functions that are made, in order. -/
def effects (x : Pass line) : List Effect :=
  (finalState ((Fiber.trace x.scope x.fiber).run { state := { world := x.world } })).effects

/-- How often the call that ends behind `n` characters is made. -/
def times (x : Pass line) (n : Nat) : Nat := (x.effects.map (·.place.length)).count n

end Pass

/-- An evaluation that stops for the value of a call. Its chain `statement` stands between `before`
and `behind`, and it stands for the first time between `left` and `right`. -/
structure Suspension (x : Pass line) where
  before : List Char
  statement : List Char
  behind : List Char
  suspends : ∃ q σ, Suspends x.scope x.fiber { world := x.world } q σ before statement behind
  left : List Char
  right : List Char
  first : ResumePoint.First ⟨line, statement⟩ left right

namespace Suspension

variable {x : Pass line}

/-- Where the awaited call ends. -/
def stop (t : Suspension x) : Nat := (t.before ++ t.statement).length

/-- The line that goes on with a value. -/
def resumed (t : Suspension x) (v : Value) : List Char := t.left ++ v.literal.toList ++ t.right

/-- Where the call that ends behind `n` characters ends on the line that goes on with a value, if it
is still there. -/
def moved (t : Suspension x) (v : Value) (n : Nat) : Option Nat :=
  if n ≤ t.left.length then some n
  else if n ≤ t.left.length + t.statement.length then none
  else some (n - t.statement.length + v.literal.toList.length)

end Suspension

end Pass

/-- The evaluations of a line until it does not go on any more. -/
inductive Execution : List Char → Type where

  | last {line : List Char} (x : Pass line) : Execution line

  | resume {line : List Char} (x : Pass line) (t : Suspension x) (v : Value)
      (rest : Execution (t.resumed v)) : Execution line

/-- How often the call that ends behind `n` characters of the line is made. -/
def Execution.times {line : List Char} (n : Nat) : Execution line → Nat
  | .last x => x.times n
  | .resume x t v rest => x.times n + (t.moved v n).elim 0 (rest.times ·)

/-- How often a call is awaited that ends behind the one that ends behind `n` characters. -/
def Execution.waits {line : List Char} (n : Nat) : Execution line → Nat
  | .last _ => 0
  | .resume _ t v rest => (if n < t.stop then 1 else 0) + (t.moved v n).elim 0 (rest.waits ·)

/-- What an evaluation of a line does, as far as the world can tell. -/
structure Pass.Faithful {line : List Char} (x : Pass line) : Prop where
  /-- The world is changed by the calls that are made, and by nothing else. -/
  world : x.after = x.effects.foldl (Effect.apply x.env.systems) x.world
  /-- They are the first of the calls on the line. -/
  written : x.effects.map Effect.toWrittenCall <+: Statement.written line
  /-- Each is made once, from left to right. -/
  ordered : (x.effects.map (·.place.length)).Pairwise (· < ·)
  completed : ∀ g σ, x.result = .ok g σ →
    x.effects.map Effect.toWrittenCall = Statement.written line
  suspended : ∀ t : Suspension x, x.effects.map Effect.toWrittenCall =
    (Statement.written line).filter (·.place.length < t.stop)

section Faithful

variable {line : List Char} {x : Pass line}

theorem Eval.ResultAlike.finalState_eq {R : List Char → List Char → Prop} {α : Type}
    {r r' : EStateM.Result Interrupt EvalState α} (h : Eval.ResultAlike R line r r') :
    finalState r = finalState r' := by
  cases h <;> rfl

namespace Pass

/-- The calls that are made and the calls `rest` that are left are those on the line. None is left
when the line comes to its end, and an awaited call is the next one. -/
theorem exists_rest (x : Pass line) : ∃ rest,
    Statement.written line = x.effects.map Effect.toWrittenCall ++ rest ∧
    x.after = x.effects.foldl (Effect.apply x.env.systems) x.world ∧
    (∀ g σ, x.result = .ok g σ → rest = []) ∧
    ∀ t : Suspension x, ∃ c, rest.head? = some c ∧ c.place = t.before ++ t.statement := by
  have ha : Eval.ResultAlike (LineHolds line) line x.result
      ((Fiber.executeAt x.scope x.fiber).run { world := x.world }) :=
    Fiber.execute_alike x.scope x.fiber _
  have hr : Tracing.Recorded x.env.systems { state := { world := x.world } }
      (Statement.written line)
      ((Fiber.trace x.scope x.fiber).run { state := { world := x.world } })
      ((Fiber.executeAt x.scope x.fiber).run { world := x.world }) :=
    Fiber.execute_records x.scope x.fiber _
  have hplace (t : Suspension x) : ∃ q σ,
      (Fiber.executeAt x.scope x.fiber).run { world := x.world } = .error (.call q) σ ∧
        q.resume = some ⟨line, t.before ++ t.statement⟩ := by
    obtain ⟨q, σ, h⟩ := t.suspends
    exact ⟨_, σ, h.place, rfl⟩
  unfold after effects
  rw [ha.finalState_eq]
  generalize (Fiber.executeAt x.scope x.fiber).run { world := x.world } = r at ha hr hplace
  generalize (Fiber.trace x.scope x.fiber).run { state := { world := x.world } } = r' at hr
  cases hr with
  | ok h hc =>
    refine ⟨[], by simpa [finalState, h.effects] using hc, ?_, fun _ _ _ => rfl, fun t => ?_⟩
    · simpa [finalState, h.effects] using h.world
    · obtain ⟨q, σ, hq, -⟩ := hplace t
      cases hq
  | @stopped i τ' new rest h hc hq =>
    refine ⟨rest, by simpa [finalState, h.effects] using hc, ?_, fun g σ hx => ?_, fun t => ?_⟩
    · simpa [finalState, h.effects] using h.world
    · rw [hx] at ha
      cases ha
    · obtain ⟨q, σ, he, hp⟩ := hplace t
      cases he
      exact hq q _ rfl hp

theorem faithful (x : Pass line) : x.Faithful := by
  obtain ⟨rest, hw, hafter, hdone, hstop⟩ := x.exists_rest
  have ho := (Statement.written_lists line).ordered
  rw [hw] at ho
  obtain ⟨hmade, hleft, hrest⟩ := List.pairwise_append.1 ho
  exact {
    world := hafter
    written := ⟨rest, hw.symm⟩
    ordered := by
      rw [List.pairwise_map] at hmade ⊢
      exact hmade
    completed := fun g σ hx => by rw [hw, hdone g σ hx, List.append_nil]
    suspended := fun t => by
      obtain ⟨c, hc, hp⟩ := hstop t
      obtain ⟨cs, rfl⟩ := List.head?_eq_some_iff.1 hc
      have hbefore : ∀ e ∈ x.effects.map Effect.toWrittenCall, e.place.length < t.stop := by
        intro e he
        simpa [hp, Suspension.stop] using hrest e he c List.mem_cons_self
      have hbehind : ∀ d ∈ c :: cs, ¬ d.place.length < t.stop := by
        intro d hd
        rcases List.mem_cons.1 hd with rfl | hd
        · simp [hp, Suspension.stop]
        · have hcd := (List.pairwise_cons.1 hleft).1 d hd
          rw [hp] at hcd
          exact Nat.not_lt.2 (Nat.le_of_lt hcd)
      rw [hw, List.filter_append, List.filter_eq_self.2 (by simpa using hbefore),
        List.filter_eq_nil_iff.2 (by simpa using hbehind), List.append_nil] }

theorem times_le (x : Pass line) (n : Nat) : x.times n ≤ 1 :=
  List.nodup_iff_count_le_one.1 (x.faithful.ordered.imp Nat.ne_of_lt) n

/-- An evaluation makes no call that ends behind the awaited one. -/
theorem times_of_stop_le (t : Suspension x) {n : Nat} (h : t.stop ≤ n) : x.times n = 0 := by
  apply List.count_eq_zero_of_not_mem
  intro hn
  obtain ⟨e, he, rfl⟩ := List.mem_map.1 hn
  have hmem := List.mem_map_of_mem (f := Effect.toWrittenCall) he
  rw [x.faithful.suspended t, List.mem_filter] at hmem
  simp at hmem
  omega

end Pass

/-- A fiber that is handed the value goes on with the line of the next evaluation. -/
theorem Suspension.resume_eq (t : Suspension x) (v : Value) {env : Environment} {g : Fiber}
    {child : FiberId} (w : World) (hv : g.received = some (.value v))
    (hp : g.pending = some { line, statement := t.statement, child }) :
    g.resume env w =
      Fiber.run env { g with received := none, pending := none } (some (t.resumed v)) w := by
  simp only [Fiber.resume, hv, hp, t.first.replace]
  rfl

theorem Execution.times_le (E : Execution line) (n : Nat) : E.times n ≤ 1 + E.waits n := by
  induction E generalizing n with
  | last x => exact x.times_le n
  | resume x t v rest ih =>
    have hrest : (t.moved v n).elim 0 (rest.times ·) ≤ 1 + (t.moved v n).elim 0 (rest.waits ·) := by
      cases t.moved v n with
      | none => exact Nat.zero_le _
      | some m => exact ih m
    -- an evaluation that stops makes the call only if the awaited one ends behind it
    have hpass : x.times n ≤ if n < t.stop then 1 else 0 := by
      split
      · exact x.times_le n
      · next h => rw [Pass.times_of_stop_le t (Nat.le_of_not_lt h)]
    rw [times, waits]
    omega

/-- A fiber goes on with the line of the next evaluation. Every evaluation of a line makes each call
on it once at most, and one that stops for a value makes just the calls that end before the awaited
one. Over all evaluations a call is made at most once, and once more for every awaited call that
ends behind it. -/
theorem effects_once_per_pass (line : List Char) :
    (∀ {x : Pass line} (t : Suspension x) (v : Value) {env : Environment} {g : Fiber}
      {child : FiberId} (w : World), g.received = some (.value v) →
      g.pending = some { line, statement := t.statement, child } →
      g.resume env w =
        Fiber.run env { g with received := none, pending := none } (some (t.resumed v)) w) ∧
    (∀ x : Pass line, x.Faithful) ∧
    ∀ (E : Execution line) (n : Nat), E.times n ≤ 1 + E.waits n :=
  ⟨fun t v _ _ _ w hv hp => t.resume_eq v w hv hp, Pass.faithful, Execution.times_le⟩

end Faithful

section Example

/-- A text stands for the first time where it stands nowhere before. -/
theorem ResumePoint.first_of_not_prefix {p : ResumePoint} {b a : List Char}
    (hp : p.statement ≠ []) (hl : p.line = b ++ p.statement ++ a)
    (h : ∀ i < b.length, ¬ p.statement <+: p.line.drop i) : p.First b a := by
  obtain ⟨b₁, a₁, he, hr, hmin⟩ := replaceFirst?_eq (b := b) (a := a) hp
  have hle : b.length ≤ b₁.length := by
    apply Nat.le_of_not_lt
    intro hlt
    apply h b₁.length hlt
    rw [hl, he, List.append_assoc, List.drop_left]
    exact List.prefix_append ..
  have hlen := Nat.le_antisymm (hmin b a rfl) hle
  rw [List.append_assoc, List.append_assoc] at he
  obtain ⟨rfl, ha⟩ := List.append_inj he hlen.symm
  obtain rfl := List.append_cancel_left ha
  rw [← hl] at hr hmin
  exact ⟨hl, hmin, hr⟩

/-- The environment of the item `k`, which has a second function with two parameters. -/
def pairEnvironment : Environment where
  functions := ⟨[
    { id := 0, category := .item, owner := "key", name := "turn", parameterCount := 0 },
    { id := 1, category := .item, owner := "key", name := "pair", parameterCount := 2 }]⟩
  typeFunctions := { item := {(0, [0, 1])} }
  systems := .builtins
  source := keyEnvironment.source
  tick := 0

def pairFiber : Fiber := keyFiber.seed "k" (.item ⟨0⟩)

def pairPass (line : List Char) (world : World) : Pass line where
  env := pairEnvironment
  fiber := pairFiber
  world

def pairLine : List Char := "k.pair(log(\"a\"), k.turn())".toList

/-- The line stops for the value of its second argument. -/
def pairSuspension : Suspension (pairPass pairLine keyWorld) where
  before := "k.pair(log(\"a\"), ".toList
  statement := "k.turn()".toList
  behind := ")".toList
  suspends := suspends_of_stop? (by decide +kernel) (by decide +kernel) (by decide +kernel)
  left := "k.pair(log(\"a\"), ".toList
  right := ")".toList
  first := ResumePoint.first_of_not_prefix (by decide) (by decide +kernel) (by decide +kernel)

/-- The evaluation of the line that goes on with the value 5. -/
def pairResumed : Pass (pairSuspension.resumed (.int 5)) :=
  pairPass _ (pairPass pairLine keyWorld).after

def pairExecution : Execution pairLine := .resume _ pairSuspension (.int 5) (.last pairResumed)

theorem effects_once_per_pass_pair :
    Fiber.resume pairEnvironment { pairFiber with
        received := some (.value (.int 5))
        pending := some { line := pairLine, statement := "k.turn()".toList, child := 1 } }
        keyWorld =
      Fiber.run pairEnvironment pairFiber (some "k.pair(log(\"a\"), 5)".toList) keyWorld ∧
    (pairPass pairLine keyWorld).Faithful ∧ pairExecution.times 15 ≤ 1 + pairExecution.waits 15 ∧
    pairExecution.waits 15 = 1 := by
  obtain ⟨hresume, hfaithful, htimes⟩ := effects_once_per_pass pairLine
  exact ⟨hresume pairSuspension (.int 5) keyWorld rfl rfl, hfaithful _, htimes pairExecution 15,
    by decide +kernel⟩

/-- What is logged before a value is awaited is logged again when it is there. -/
theorem effects_repeated :
    pairExecution.times 15 = 2 ∧
    (keyWorld.entity? ⟨0⟩).map (·.log) = some [] ∧
    (pairResumed.after.entity? ⟨0⟩).map (·.log) = some ["a", "a"] ∧
    ¬ ∀ (line : List Char) (E : Execution line) (n : Nat), E.times n ≤ 1 := by
  have htimes : pairExecution.times 15 = 2 := by decide +kernel
  refine ⟨htimes, by decide +kernel, by decide +kernel, fun h => ?_⟩
  have hle := h pairLine pairExecution 15
  omega

end Example

end TileScript
