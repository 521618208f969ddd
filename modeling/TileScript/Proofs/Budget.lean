import Mathlib.Data.List.Nodup
import TileScript.Proofs.Steps
import TileScript.Proofs.Termination
import TileScript.System.Builtin

/-! # Tokens of a tick

A budget is that of one activation. A fiber is activated once in a tick when its turn comes, and
once more each time a function that it has called ends, always with the whole budget again. So what
it evaluates in a tick is bounded by the budget times the activations, and by the budget alone if no
function that it has called ends.
-/

namespace TileScript.Scheduler

open TileScript.Fiber

/-- A step of the work of a tick: the task, and what it finds. -/
structure WorkStep where
  scheduler : Scheduler
  world : World
  task : Task

namespace WorkStep

variable (env : Environment) (id : FiberId) (x : WorkStep)

/-- The lines that a fiber evaluates in a step. -/
def tokens : Nat :=
  if x.task.fiber = id then
    x.scheduler.fibers[id]?.elim 0 fun f =>
      (f.evaluatedLines env x.task.forced x.world env.limits.tokenBudget).length
  else 0

/-- Whether a function that a fiber has called ends in a step. -/
def returns : Bool :=
  (x.scheduler.fibers[x.task.fiber]?.bind (·.parent)) == some id &&
    ((x.scheduler.step env x.world x.task).1.fibers[x.task.fiber]?).isNone

end WorkStep

/-- The lines that a fiber evaluates in some steps. -/
def tokens (env : Environment) (id : FiberId) : List WorkStep → Nat
  | [] => 0
  | x :: past => x.tokens env id + tokens env id past

/-- How often a fiber is activated. -/
def activations (id : FiberId) (past : List WorkStep) : Nat := past.countP (·.task.fiber = id)

/-- How many functions that a fiber has called end. -/
def returns (env : Environment) (id : FiberId) (past : List WorkStep) : Nat :=
  past.countP (·.returns env id)

/-- The work of a tick with the steps it has made. -/
inductive Worked (env : Environment) (s₀ : Scheduler) (w₀ : World) :
    List WorkStep → List FiberId → List Task → Scheduler → World → Prop where

  | enter : Worked env s₀ w₀ [] s₀.fibers.keys [] s₀ w₀

  | next {past : List WorkStep} {id : FiberId} {ids : List FiberId} {s : Scheduler} {w : World} :
      Worked env s₀ w₀ past (id :: ids) [] s w → Worked env s₀ w₀ past ids [⟨id, false⟩] s w

  | step {past : List WorkStep} {ids : List FiberId} {task : Task} {tasks : List Task}
      {s : Scheduler} {w : World} : Worked env s₀ w₀ past ids (task :: tasks) s w →
      Worked env s₀ w₀ (past ++ [⟨s, w, task⟩]) ids ((s.step env w task).2.2 ++ tasks)
        (s.step env w task).1 (s.step env w task).2.1

variable {env : Environment} {s₀ s s' : Scheduler} {w₀ w : World} {past : List WorkStep}
  {ids : List FiberId} {task : Task} {tasks ts : List Task}

theorem Worked.atWork (h : Worked env s₀ w₀ past ids tasks s w) :
    AtWork env s₀ w₀ ids tasks s w := by
  induction h with
  | enter => exact .enter
  | next _ ih => exact ih.next
  | step _ ih => exact ih.step

theorem AtWork.exists_past (h : AtWork env s₀ w₀ ids tasks s w) :
    ∃ past, Worked env s₀ w₀ past ids tasks s w := by
  induction h with
  | enter => exact ⟨[], .enter⟩
  | next _ ih =>
    obtain ⟨past, h⟩ := ih
    exact ⟨past, h.next⟩
  | step _ ih =>
    obtain ⟨past, h⟩ := ih
    exact ⟨_, h.step⟩

/-- Each step was made in the course of the work. -/
theorem Worked.of_mem (h : Worked env s₀ w₀ past ids tasks s w) {x : WorkStep} (hx : x ∈ past) :
    ∃ ids tasks, AtWork env s₀ w₀ ids (x.task :: tasks) x.scheduler x.world := by
  induction h with
  | enter => simp at hx
  | next _ ih => exact ih hx
  | step h ih =>
    rcases List.mem_append.1 hx with hx | hx
    · exact ih hx
    · obtain rfl := List.mem_singleton.1 hx
      exact ⟨_, _, h.atWork⟩

/-- A step leaves a task for a fiber that it starts, or for one that gets a result. -/
theorem Stepped.tasks_cases (hl : Linked s) (h : Stepped env s w task s' ts) :
    ts = [] ∨ (ts = [⟨s.nextId, true⟩] ∧ s'.nextId = s.nextId + 1) ∨
      ∃ p, ts = [⟨p, true⟩] ∧ p < s.nextId ∧ (s.fibers[task.fiber]?.bind (·.parent)) = some p ∧
        s'.fibers[task.fiber]? = none := by
  cases h with
  | gone _ | rest _ _ _ => exact .inl rfl
  | call _ _ _ => exact .inr (.inl ⟨rfl, rfl⟩)
  | @retire f r hf _ =>
    unfold resumes
    cases hp : f.parent with
    | none => exact .inl rfl
    | some p =>
      dsimp only
      split
      · have hlt : p < s.nextId :=
          Nat.lt_trans ((hl.placed hf).parent_lt hp) (hl.placed hf).id_lt
        refine .inr (.inr ⟨p, rfl, hlt, by simp [hf, hp], ?_⟩)
        simp [getElem?_retire]
      · exact .inl rfl

/-- The invariant of the work of a tick: each activation of a fiber, past or to come, is paid for by
its turn or by a result. -/
structure Balanced (env : Environment) (past : List WorkStep) (ids : List FiberId)
    (tasks : List Task) (s : Scheduler) : Prop where
  id_lt : ∀ id ∈ ids, id < s.nextId
  task_lt : ∀ t ∈ tasks, t.fiber < s.nextId
  past_lt : ∀ x ∈ past, x.task.fiber < s.nextId
  paid (id : FiberId) : activations id past + tasks.countP (·.fiber = id) + ids.count id ≤
    1 + returns env id past

theorem Linked.balanced (h : Linked s) : Balanced env [] s.fibers.keys [] s where
  id_lt id hid := by
    obtain ⟨f, hf⟩ := Option.isSome_iff_exists.1
      (Std.ExtTreeMap.isSome_getElem?_iff_mem.2 (Std.ExtTreeMap.mem_keys.1 hid))
    exact (h.placed hf).id_lt
  task_lt := by simp
  past_lt := by simp
  paid id := by
    simpa [activations, returns] using
      List.nodup_iff_count_le_one.1 Std.ExtTreeMap.nodup_keys id

theorem Balanced.next {id : FiberId} (h : Balanced env past (id :: ids) [] s) :
    Balanced env past ids [⟨id, false⟩] s where
  id_lt a ha := h.id_lt a (List.mem_cons_of_mem id ha)
  task_lt := by
    rintro t ht
    obtain rfl := List.mem_singleton.1 ht
    exact h.id_lt id List.mem_cons_self
  past_lt := h.past_lt
  paid a := by
    have hp := h.paid a
    by_cases ha : id = a
    · simp only [ha, List.count_cons_self, List.countP_nil] at hp
      simp only [List.countP_singleton, ha]
      simp only [decide_true, if_true]
      omega
    · simpa [ha] using hp

/-- The number that a step gives to a new fiber is on no list yet. -/
theorem Balanced.unknown (h : Balanced env past ids tasks s) :
    activations s.nextId past + tasks.countP (·.fiber = s.nextId) + ids.count s.nextId = 0 := by
  have hp : activations s.nextId past = 0 :=
    List.countP_eq_zero.2 fun x hx => by simpa using Nat.ne_of_lt (h.past_lt x hx)
  have ht : tasks.countP (·.fiber = s.nextId) = 0 :=
    List.countP_eq_zero.2 fun t ht => by simpa using Nat.ne_of_lt (h.task_lt t ht)
  have hi : ids.count s.nextId = 0 :=
    List.count_eq_zero.2 fun hid => Nat.lt_irrefl _ (h.id_lt _ hid)
  omega

theorem Balanced.step (hl : Linked s) (h : Balanced env past ids (task :: tasks) s) :
    Balanced env (past ++ [⟨s, w, task⟩]) ids ((s.step env w task).2.2 ++ tasks)
      (s.step env w task).1 := by
  have hle : s.nextId ≤ (s.step env w task).1.nextId := (step_change hl env w task).nextId_le
  have hcases := (step_stepped hl env w task).tasks_cases hl
  constructor
  · exact fun a ha => Nat.lt_of_lt_of_le (h.id_lt a ha) hle
  · rintro t ht
    rcases List.mem_append.1 ht with ht | ht
    · rcases hcases with hn | ⟨hn, hnext⟩ | ⟨p, hn, hp, -, -⟩
      · simp [hn] at ht
      · obtain rfl : t = ⟨s.nextId, true⟩ := by simpa [hn] using ht
        exact hnext ▸ Nat.lt_succ_self _
      · obtain rfl : t = ⟨p, true⟩ := by simpa [hn] using ht
        exact Nat.lt_of_lt_of_le hp hle
    · exact Nat.lt_of_lt_of_le (h.task_lt t (List.mem_cons_of_mem task ht)) hle
  · rintro x hx
    rcases List.mem_append.1 hx with hx | hx
    · exact Nat.lt_of_lt_of_le (h.past_lt x hx) hle
    · obtain rfl := List.mem_singleton.1 hx
      exact Nat.lt_of_lt_of_le (h.task_lt task List.mem_cons_self) hle
  · rintro id
    have hpaid := h.paid id
    have hact : activations id (past ++ [⟨s, w, task⟩]) + tasks.countP (·.fiber = id) =
        activations id past + (task :: tasks).countP (·.fiber = id) := by
      simp only [activations, List.countP_append, List.countP_cons, List.countP_nil]
      omega
    have hret : returns env id (past ++ [⟨s, w, task⟩]) =
        returns env id past + if WorkStep.returns env id ⟨s, w, task⟩ then 1 else 0 := by
      simp [returns, List.countP_append, List.countP_singleton]
    rw [List.countP_append, hret]
    rcases hcases with hn | ⟨hn, -⟩ | ⟨p, hn, -, hp, hgone⟩
    · rw [hn, List.countP_nil]
      omega
    · rw [hn, List.countP_singleton]
      by_cases hid : s.nextId = id
      · have hz := h.unknown
        rw [hid] at hz
        simp only [hid, decide_true, if_true]
        omega
      · simp only [hid, decide_false, Bool.false_eq_true, if_false]
        omega
    · rw [hn, List.countP_singleton]
      by_cases hid : p = id
      · have hr : WorkStep.returns env id ⟨s, w, task⟩ = true := by
          simp [WorkStep.returns, hp, hgone, hid]
        simp only [hid, hr, decide_true, if_true]
        omega
      · simp only [hid, decide_false, Bool.false_eq_true, if_false]
        omega

theorem Worked.balanced (h₀ : Linked s₀) (h : Worked env s₀ w₀ past ids tasks s w) :
    Balanced env past ids tasks s := by
  induction h with
  | enter => exact h₀.balanced
  | next _ ih => exact ih.next
  | step hw ih => exact ih.step (hw.atWork.linked h₀)

/-- The budget bounds what a fiber evaluates in one step. -/
theorem Worked.tokens_le (h₀ : Linked s₀) (h : Worked env s₀ w₀ past ids tasks s w)
    (id : FiberId) {x : WorkStep} (hx : x ∈ past) : x.tokens env id ≤ env.limits.tokenBudget := by
  obtain ⟨_, _, hw⟩ := h.of_mem hx
  have hl : Linked x.scheduler := hw.linked h₀
  unfold WorkStep.tokens
  split
  · cases hf : x.scheduler.fibers[id]? with
    | none => exact Nat.zero_le _
    | some f => exact ((hl.placed hf).toSound.bounded env x.task.forced x.world).affordable
  · exact Nat.zero_le _

theorem tokens_le_activations {id : FiberId} {n : Nat} (h : ∀ x ∈ past, x.tokens env id ≤ n) :
    tokens env id past ≤ n * activations id past := by
  induction past with
  | nil => simp [tokens]
  | cons x past ih =>
    have hx := h x List.mem_cons_self
    have hpast := ih fun y hy => h y (List.mem_cons_of_mem x hy)
    rw [tokens, activations, List.countP_cons]
    by_cases hid : x.task.fiber = id
    · simp only [hid, decide_true, if_true, Nat.mul_add, Nat.mul_one]
      exact Nat.add_comm _ _ ▸ Nat.add_le_add hpast hx
    · have hz : x.tokens env id = 0 := by simp [WorkStep.tokens, hid]
      simp only [hid, hz, decide_false, Bool.false_eq_true, if_false, Nat.add_zero, Nat.zero_add]
      exact hpast

/-- At any point of the work of any tick, a fiber has evaluated at most as many lines as the budget
allows for each of its activations, and it has been activated at most once more than functions that
it called have ended. If none has, the budget bounds all that it has evaluated in the tick. -/
theorem tokens_per_tick (h : Reachable s₀) (env : Environment) (w₀ : World) :
    (∀ {steps : Nat} {s : Scheduler} {w : World}, s₀.tick env steps w₀ = some (s, w) →
      ∃ past, Worked env s₀ w₀ past [] [] s w) ∧
    ∀ {past : List WorkStep} {ids : List FiberId} {tasks : List Task} {s : Scheduler} {w : World},
      Worked env s₀ w₀ past ids tasks s w → ∀ id,
        (∀ x ∈ past, x.tokens env id ≤ env.limits.tokenBudget) ∧
        tokens env id past ≤ env.limits.tokenBudget * activations id past ∧
        activations id past ≤ 1 + returns env id past ∧
        (returns env id past = 0 → tokens env id past ≤ env.limits.tokenBudget) := by
  refine ⟨fun ht => (AtWork.of_tick ht).exists_past, fun {past} _ _ _ _ hw id => ?_⟩
  have hstep : ∀ x ∈ past, x.tokens env id ≤ env.limits.tokenBudget :=
    fun x hx => hw.tokens_le h.linked id hx
  have htok := tokens_le_activations hstep
  have hact : activations id past ≤ 1 + returns env id past := by
    have := (hw.balanced h.linked).paid id
    omega
  refine ⟨hstep, htok, hact, fun hr => Nat.le_trans htok ?_⟩
  calc env.limits.tokenBudget * activations id past
      ≤ env.limits.tokenBudget * 1 := Nat.mul_le_mul_left _ (by omega)
    _ = env.limits.tokenBudget := Nat.mul_one _

section Example

/-- One token is enough for the function of the item, and for the line that calls it. -/
def tokenEnvironment : Environment where
  functions := keyEnvironment.functions
  typeFunctions := keyEnvironment.typeFunctions
  systems := .builtins
  source := { list := fun _ => .ok ["key.turn"], load? := fun _ _ => some "exit()" }
  limits := { tokenBudget := 1 }
  tick := 1

/-- The step that a task makes behind another one. -/
def WorkStep.andThen (x : WorkStep) (task : Task) : WorkStep where
  scheduler := (x.scheduler.step tokenEnvironment x.world x.task).1
  world := (x.scheduler.step tokenEnvironment x.world x.task).2.1
  task

def keyCall : WorkStep := ⟨keyStart, keyWorld, ⟨0, false⟩⟩

def keyTurn : WorkStep := keyCall.andThen ⟨1, true⟩

def keyReturn : WorkStep := keyTurn.andThen ⟨0, true⟩

/-- The fiber calls, the function ends, the fiber goes on, and there is nothing left to do. -/
theorem keySteps_worked : Worked tokenEnvironment keyStart keyWorld [keyCall, keyTurn, keyReturn] []
    [] (keyReturn.andThen ⟨0, true⟩).scheduler (keyReturn.andThen ⟨0, true⟩).world := by
  have hk : keyStart.fibers.keys = [0] := by decide +kernel
  have h : Worked tokenEnvironment keyStart keyWorld [] [0] [] keyStart keyWorld := hk ▸ .enter
  have hcall : (keyStart.step tokenEnvironment keyWorld ⟨0, false⟩).2.2 ++ [] = [⟨1, true⟩] := by
    decide +kernel
  have hturn : (keyTurn.scheduler.step tokenEnvironment keyTurn.world ⟨1, true⟩).2.2 ++ [] =
      [⟨0, true⟩] := by decide +kernel
  have hreturn : (keyReturn.scheduler.step tokenEnvironment keyReturn.world ⟨0, true⟩).2.2 ++ [] =
      [] := by decide +kernel
  have h₁ : Worked tokenEnvironment keyStart keyWorld [keyCall] [] [⟨1, true⟩] keyTurn.scheduler
      keyTurn.world := hcall ▸ h.next.step
  have h₂ : Worked tokenEnvironment keyStart keyWorld [keyCall, keyTurn] [] [⟨0, true⟩]
      keyReturn.scheduler keyReturn.world := hturn ▸ h₁.step
  exact hreturn ▸ h₂.step

theorem keyStart_reachable : Reachable keyStart :=
  have ha : attach {} keyWorld ⟨0⟩ "var x = $Item[0].turn()" 0 = .ok (0, keyStart) := rfl
  Reachable.empty.attach ha

/-- A fiber that gets one result is activated twice, and the budget of one token allows it two
lines. -/
theorem tokens_per_tick_returned :
    returns tokenEnvironment 0 [keyCall, keyTurn, keyReturn] = 1 ∧
      activations 0 [keyCall, keyTurn, keyReturn] = 2 ∧
      tokens tokenEnvironment 0 [keyCall, keyTurn, keyReturn] ≤ 1 * 2 :=
  ⟨by decide +kernel, by decide +kernel,
    ((tokens_per_tick keyStart_reachable tokenEnvironment keyWorld).2 keySteps_worked 0).2.1⟩

/-- It evaluates two lines, in one tick and with a budget of one token. -/
theorem tokens_renewed : ∃ past s w, Reachable keyStart ∧
    keyStart.tick tokenEnvironment 9 keyWorld = some (s, w) ∧
    Worked tokenEnvironment keyStart keyWorld past [] [] s w ∧
    tokenEnvironment.limits.tokenBudget = 1 ∧ tokens tokenEnvironment 0 past = 2 :=
  ⟨_, _, _, keyStart_reachable, by decide +kernel, keySteps_worked, rfl, by decide +kernel⟩

end Example

end TileScript.Scheduler
