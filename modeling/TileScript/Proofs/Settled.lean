import TileScript.Proofs.Budget
import TileScript.Proofs.Exclusion

/-! # A tick settles

When the work of a tick is done, every live fiber waits for somebody, cannot act, or has run. The
invariant behind it holds throughout the work: a fiber of which nothing of this is true is still to
be looked at, or there is a task for it. So the same tick can be worked off again, and nothing
happens.
-/

namespace TileScript

open World

namespace Fiber

variable {env : Environment} {f : Fiber} {w w' : World}

theorem Refused.of_forced {forced : Bool} (h : f.Refused env forced w) : f.Refused env false w := by
  rcases h with he | ⟨e, hw, hc | ⟨-, ht⟩⟩
  · exact .inl he
  · exact .inr ⟨e, hw, .inl hc⟩
  · exact .inr ⟨e, hw, .inr ⟨rfl, ht⟩⟩

/-- A fiber that has run in a tick is refused as long as its entity is there. -/
theorem Refused.of_lastTick (ht : f.lastTick = some env.tick) (hw : (w.gate? f.entity).isSome) :
    f.Refused env false w := by
  obtain ⟨g, hg⟩ := Option.isSome_iff_exists.1 hw
  obtain ⟨e, he, -⟩ := Option.map_eq_some_iff.1 hg
  exact .inr ⟨e, he, .inr ⟨rfl, ht⟩⟩

/-- What keeps a fiber from running does not go away while scripts run. -/
theorem Refused.spares (h : f.Refused env false w) (hs : w.Spares w') : f.Refused env false w' := by
  rcases h with he | ⟨e, hw, hc⟩
  · exact .inl he
  · have hg : w.gate? f.entity = some e.gate := by
      rw [gate?, hw]
      rfl
    rcases hc with hc | ⟨-, ht⟩
    · obtain ⟨e', he', hge⟩ := Option.map_eq_some_iff.1 (hs.closed hg hc)
      refine .inr ⟨e', he', .inl ?_⟩
      rw [← Entity.isOpen_gate, hge]
      exact hc
    · exact .of_lastTick ht (by rw [hs.live, hg]; rfl)

/-- A fiber that has been activated and neither ended nor called may not run again. -/
theorem refused_of_activate (hf : f.Sound) {forced : Bool} {o : Outcome} {g : Fiber} {w₁ : World}
    (hx : f.activate env forced w = (o, g, w₁)) (ho : o = .skipped ∨ o = .yielded)
    (hs : w.Spares w') : g.Refused env false w' := by
  have ha := activate_admission hf env forced w
  generalize hr : f.activate env forced w = r at ha
  rw [hx] at hr
  cases ha with
  | refused h =>
    cases hr
    exact h.of_forced.spares hs
  | orphaned _ _ =>
    cases hr
    simp at ho
  | @admitted e _ hw _ =>
    have hst := resume_stamped env
      { f with lastTick := some env.tick, state := .running, awaiting := none } w
    rw [← hr] at hst
    refine .of_lastTick hst.lastTick ?_
    rw [hst.entity, hs.live, gate?, hw]
    rfl

end Fiber

namespace Scheduler

open TileScript.Fiber

variable {env : Environment} {s s' : Scheduler} {w w' : World} {ids : List FiberId}
  {tasks : List Task}

/-- The invariant of the work of a tick: whoever may run will have a turn. -/
def Accounted (env : Environment) (ids : List FiberId) (tasks : List Task) (s : Scheduler)
    (w : World) : Prop :=
  ∀ (id : FiberId) (f : Fiber), s.fibers[id]? = some f →
    id ∈ ids ∨ id ∈ tasks.map (·.fiber) ∨ f.Refused env false w

/-- Nobody may run. -/
def Settled (env : Environment) (s : Scheduler) (w : World) : Prop :=
  ∀ (id : FiberId) (f : Fiber), s.fibers[id]? = some f → f.Refused env false w

theorem accounted_keys : Accounted env s.fibers.keys [] s w := by
  intro id f hf
  refine .inl (Std.ExtTreeMap.mem_keys.2 ?_)
  exact Std.ExtTreeMap.isSome_getElem?_iff_mem.1 (by simp [hf])

theorem Accounted.next {id : FiberId} (h : Accounted env (id :: ids) [] s w) :
    Accounted env ids [⟨id, false⟩] s w := by
  intro a f hf
  rcases h a f hf with ha | ha | ha
  · rcases List.mem_cons.1 ha with rfl | ha
    · exact .inr (.inl (by simp))
    · exact .inl ha
  · simp at ha
  · exact .inr (.inr ha)

/-- The fibers that a step does not touch. -/
theorem Accounted.other {task : Task} {ts : List Task}
    (h : Accounted env ids (task :: tasks) s w) (hs : w.Spares w') {id : FiberId} {f : Fiber}
    (hf : s.fibers[id]? = some f) (hne : id ≠ task.fiber) :
    id ∈ ids ∨ id ∈ (ts ++ tasks).map (·.fiber) ∨ f.Refused env false w' := by
  rcases h id f hf with hi | ht | hr
  · exact .inl hi
  · rcases List.mem_cons.1 ht with ht | ht
    · exact absurd ht hne
    · exact .inr (.inl (by rw [List.map_append]; exact List.mem_append_right _ ht))
  · exact .inr (.inr (hr.spares hs))

/-- Each way a step can go: a fiber back at rest may not run again, a caller waits and its child has
a task, and so has a fiber that gets a result. -/
theorem Accounted.stepped {task : Task} {ts : List Task} (hl : Linked s)
    (h : Accounted env ids (task :: tasks) s w) (hst : Stepped env s w task s' ts)
    (hs : w.Spares w') : Accounted env ids (ts ++ tasks) s' w' := by
  cases hst with
  | gone hn =>
    intro id f hf
    refine h.other hs hf ?_
    rintro rfl
    simp [hn] at hf
  | @rest f g o w₁ hf hx ho =>
    intro id k hk
    rcases of_getElem?_insert hk with ⟨rfl, rfl⟩ | ⟨hne, hk⟩
    · exact .inr (.inr (refused_of_activate (hl.placed hf).toSound hx ho hs))
    · exact h.other hs hk (Ne.symm hne)
  | @call f g child r w₁ hf hx hc =>
    intro id k hk
    rcases of_getElem?_insert hk with ⟨rfl, rfl⟩ | ⟨hne, hk⟩
    · have ha := activate_activated (hl.placed hf).toSound env task.forced w
      rw [hx] at ha
      cases ha with
      | called _ _ _ hg => exact .inr (.inr (.inl hg.enabled))
    · rcases of_getElem?_insert hk with ⟨rfl, rfl⟩ | ⟨-, hk⟩
      · exact .inr (.inl (by simp))
      · exact h.other hs hk (Ne.symm hne)
  | @retire f r hf hx =>
    intro id k hk
    obtain ⟨hne, l, hl, ⟨hp, hla, rfl⟩ | ⟨-, rfl⟩⟩ := of_getElem?_retire hk
    · have hres : s.resumes task.fiber f.parent = [⟨id, true⟩] := by
        rw [hp, resumes]
        simp [hl, hla]
      exact .inr (.inl (by simp [hres]))
    · exact h.other hs hl (Ne.symm hne)

theorem AtWork.accounted {s₀ : Scheduler} {w₀ : World} (henv : env.systems = .builtins)
    (h₀ : Linked s₀) (h : AtWork env s₀ w₀ ids tasks s w) : Accounted env ids tasks s w := by
  induction h with
  | enter => exact accounted_keys
  | next _ ih => exact ih.next
  | @step ids task tasks s w h ih =>
    have hl : Linked s := h.linked h₀
    exact ih.stepped hl (step_stepped hl env w task) (step_spares henv hl w task)

theorem settled_of_tick (henv : env.systems = .builtins) (h : Linked s) {steps : Nat}
    (ht : s.tick env steps w = some (s', w')) : Settled env s' w' := by
  intro id f hf
  rcases (AtWork.of_tick ht).accounted henv h id f hf with hi | ht | hr
  · simp at hi
  · simp at ht
  · exact hr

theorem Settled.step (h : Settled env s w) (id : FiberId) :
    s.step env w ⟨id, false⟩ = (s, w, []) := by
  cases hf : s.fibers[id]? with
  | none => simp only [Scheduler.step, hf]
  | some f => exact step_refused hf (h id f hf)

theorem Settled.tick (h : Settled env s w) (n : Nat) : s.tick env (n + 1) w = some (s, w) := by
  have hrun (id : FiberId) : run env (n + 1) [⟨id, false⟩] s w = some (s, w) := by
    rw [run, h.step id]
    cases n <;> rfl
  unfold Scheduler.tick
  induction s.fibers.keys with
  | nil => rfl
  | cons id ids ih =>
    rw [List.foldlM_cons]
    dsimp only
    rw [hrun id]
    exact ih

/-- Wherever the work of such a tick has got to, nothing has happened. -/
theorem Settled.atWork {s₀ : Scheduler} {w₀ : World} (h₀ : Settled env s₀ w₀)
    (h : AtWork env s₀ w₀ ids tasks s w) :
    s = s₀ ∧ w = w₀ ∧ ∀ task ∈ tasks, task.forced = false := by
  induction h with
  | enter => exact ⟨rfl, rfl, by simp⟩
  | next _ ih => exact ⟨ih.1, ih.2.1, by simp⟩
  | @step ids task tasks s w _ ih =>
    obtain ⟨rfl, rfl, hforced⟩ := ih
    obtain ⟨id, forced⟩ := task
    obtain rfl : forced = false := hforced _ List.mem_cons_self
    rw [h₀.step id]
    exact ⟨rfl, rfl, fun t ht => hforced t (List.mem_cons_of_mem _ ht)⟩

/-- With the built-in functions, a tick that has been worked off leaves nothing to do: the same tick
once more changes neither a fiber nor the world, whoever is activated is skipped, and no line is
evaluated. -/
theorem tick_settles (h : Reachable s) (henv : env.systems = .builtins) {steps : Nat}
    (ht : s.tick env steps w = some (s', w')) :
    (∀ n, s'.tick env (n + 1) w' = some (s', w')) ∧
    ∀ {ids : List FiberId} {tasks : List Task} {t : Scheduler} {v : World},
      AtWork env s' w' ids tasks t v → t = s' ∧ v = w' ∧
        ∀ task ∈ tasks, ∀ {f : Fiber}, t.fibers[task.fiber]? = some f →
          f.activate env task.forced v = (.skipped, f, v) ∧
          ∀ n, f.byLines env env.limits.tokenBudget task.forced v n = .done [] (.skipped, f, v) := by
  have hset : Settled env s' w' := settled_of_tick henv h.linked ht
  refine ⟨hset.tick, fun hw => ?_⟩
  obtain ⟨rfl, rfl, hforced⟩ := hset.atWork hw
  refine ⟨rfl, rfl, fun task htask f hf => ?_⟩
  have hr : f.Refused env task.forced _ := hforced task htask ▸ hset task.fiber f hf
  exact ⟨activate_refused hr, fun n => byLines_refused hr n⟩

section Example

/-- A script that pauses behind a call. -/
def pausingSource : String := "var x = $Item[0].turn()\nsleep(0)"

def pausingStart : Scheduler where
  fibers := {(0, Fiber.start 0 ⟨0⟩ 0 pausingSource)}
  nextId := 1

def pausingEnvironment : Environment := { tokenEnvironment with limits := {} }

/-- The script has called a function and gone on, and pauses with its entity able to act. It stays
as it is when the tick is worked off once more. -/
theorem tick_settles_pausing : ∃ s w,
    pausingStart.tick pausingEnvironment 9 keyWorld = some (s, w) ∧
    s.fibers[0]?.map (fun f => (f.lastTick, f.cursor.line)) = some (some 1, 2) ∧
    s.tick pausingEnvironment 1 w = some (s, w) := by
  have hr : Reachable pausingStart :=
    have ha : attach {} keyWorld ⟨0⟩ pausingSource 0 = .ok (0, pausingStart) := rfl
    Reachable.empty.attach ha
  have hx : (pausingStart.tick pausingEnvironment 9 keyWorld).bind
      (fun r => r.1.fibers[0]?.map fun f => (f.lastTick, f.cursor.line)) = some (some 1, 2) := by
    decide +kernel
  obtain ⟨⟨s, w⟩, ht, hf⟩ := Option.bind_eq_some_iff.1 hx
  exact ⟨s, w, ht, hf, (tick_settles hr rfl ht).1 0⟩

end Example

end Scheduler

end TileScript
