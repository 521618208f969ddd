import Mathlib.Data.List.Chain
import TileScript.Proofs.Budget
import TileScript.Proofs.Sleep

/-! # How long a script sleeps

A script that sleeps alone on its entity stays as it is, whatever scripts on other entities do,
while the cooldown runs down turn by turn. It starts no line before the cooldown is over, and in the
first tick behind it goes on where it has stopped. If its entity goes away it never goes on.
-/

namespace TileScript

open World

namespace Scheduler

open TileScript.Fiber

variable {env : Environment} {s : Scheduler} {w : World}

/-- An activation concerns the gate of its own entity only. -/
theorem activate_elsewhere (henv : env.systems = .builtins) {f : Fiber} (hf : f.Sound)
    (forced : Bool) (w : World) : Elsewhere f.entity w (f.activate env forced w).2.2 := by
  have hend := (hf.bounded env forced w).ends (Nat.lt_succ_self _)
  rcases byLines_still (f := f) (w := w) henv _ with ⟨out, hw, hd⟩ | ⟨-, hs⟩
  · rw [hend] at hd
    rw [(Loop.Stage.done.inj hd).2, hw]
    exact .of_eq rfl
  · rw [hend] at hs
    cases hs with
    | done he => exact he

/-- A step for a fiber on another entity leaves a gate alone. -/
theorem step_gate? (henv : env.systems = .builtins) (h : Linked s) {task : Task} {own : EntityId}
    (ho : ∀ f, s.fibers[task.fiber]? = some f → f.entity ≠ own) (w : World) :
    (s.step env w task).2.1.gate? own = w.gate? own := by
  refine step_world (R := fun w w' => w'.gate? own = w.gate? own) (fun _ => rfl)
    (fun h₁ h₂ => h₂.trans h₁) (fun f hf => ?_) fun w id message => ?_
  · exact (activate_elsewhere henv (h.placed hf).toSound task.forced w).others (ho f hf).symm
  · rw [reportFailure_gate?]

/-- A step for another fiber leaves a fiber that waits for nobody as it is, and no task for it. -/
theorem step_kept (h : Linked s) {task : Task} {id : FiberId} {g : Fiber}
    (hg : s.fibers[id]? = some g) (ha : g.awaiting = none) (hne : task.fiber ≠ id)
    (env : Environment) (w : World) : (s.step env w task).1.fibers[id]? = some g ∧
      ∀ t ∈ (s.step env w task).2.2, t.fiber ≠ id := by
  have hst := step_stepped h env w task
  have hnext : s.nextId ≠ id := Nat.ne_of_gt (h.placed hg).id_lt
  generalize s.step env w task = r at hst
  obtain ⟨s', w', ts⟩ := r
  dsimp only at hst ⊢
  cases hst with
  | gone _ => exact ⟨hg, by simp⟩
  | rest _ _ _ => exact ⟨by simp [hne, hg], by simp⟩
  | call _ _ _ => exact ⟨by simp [hne, hnext, hg], by simp [hnext]⟩
  | @retire f r hf _ =>
    refine ⟨by simp [getElem?_retire, hne, hg, ha], ?_⟩
    intro x hx
    unfold resumes at hx
    cases hp : f.parent with
    | none => simp [hp] at hx
    | some p =>
      simp only [hp] at hx
      split at hx
      · next hw =>
        rw [List.mem_singleton.1 hx]
        rintro rfl
        simp [hg, ha] at hw
      · simp at hx

/-- A fiber without its entity ends when it is activated. -/
theorem step_orphan (h : Linked s) {task : Task} {g : Fiber} (hg : s.fibers[task.fiber]? = some g)
    (hi : g.Idle) (hn : w.entity? g.entity = none) (env : Environment) :
    (s.step env w task).1.fibers[task.fiber]? = none ∧
      (s.step env w task).1.nextId = s.nextId := by
  have hact : g.activate env task.forced w =
      g.terminate (.failed (.nullReference g.entity.reference)) none w := by
    simp [activate, hi.enabled, hi.valid, hn]
  have hst := step_stepped h env w task
  generalize s.step env w task = r at hst
  obtain ⟨s', w', ts⟩ := r
  dsimp only at hst ⊢
  cases hst with
  | gone hnone => simp [hg] at hnone
  | rest hf hx ho =>
    obtain rfl := Option.some.inj (hg.symm.trans hf)
    rw [hact] at hx
    cases hx
    simp at ho
  | call hf hx _ =>
    obtain rfl := Option.some.inj (hg.symm.trans hf)
    rw [hact] at hx
    cases hx
  | retire r _ _ => exact ⟨by simp [getElem?_retire], nextId_retire ..⟩

theorem detach_kept {id i : FiberId} {g : Fiber} (hg : s.fibers[id]? = some g)
    (ha : g.awaiting = none) (hne : i ≠ id) : (s.detach i).2.fibers[id]? = some g := by
  cases hf : s.fibers[i]? with
  | none => simp [detach, hf, hg]
  | some f => simp [detach_eq_retire hf, getElem?_retire, hne, hg, ha]

theorem attach_kept (h : Linked s) {id i : FiberId} {g : Fiber} {s' : Scheduler}
    {entity : EntityId} {source : String} {authority : Int32} (hg : s.fibers[id]? = some g)
    (hs : s.attach w entity source authority = .ok (i, s')) : s'.fibers[id]? = some g := by
  have hnext : s.nextId ≠ id := Nat.ne_of_gt (h.placed hg).id_lt
  unfold attach at hs
  split at hs
  · cases hs
  · split at hs
    · cases hs
    · cases hs
      simp [hnext, hg]

end Scheduler

/-- A fiber at rest that is not refused enters its script at its cursor. -/
theorem Fiber.Idle.enter_eq {g : Fiber} {env : Environment} {forced : Bool} {w : World} {e : Entity}
    (hg : g.Idle) (he : w.entity? g.entity = some e) (hr : ¬ g.Refused env forced w)
    (budget : Nat) : g.enter env budget forced w = .going {
      budget
      evaluated := true
      fiber := { g with lastTick := some env.tick, state := .running, awaiting := none }
      world := w } := by
  have hact : e.canAct = true := by
    by_contra hc
    exact hr (.inr ⟨e, he, .inl (by simpa using hc)⟩)
  have hlast : (!forced && g.lastTick == some env.tick) = false := by
    by_contra hl
    exact hr (.inr ⟨e, he, .inr (by simpa using hl)⟩)
  simp [enter, takeUp, hg.enabled, hg.valid, he, hact, hlast, hg.received]

/-- A loop that has evaluated something takes the line at its cursor, or else the first line. -/
theorem Loop.exists_takes {l : Loop} (hr : l.resumed = none) (he : l.evaluated = true)
    (hl : l.fiber.lines ≠ []) : ∃ k line, l.Takes k line ∧
      l.fiber.lines[k.fiber.cursor.line]? = some line ∧
      k.fiber.cursor.line =
        if l.fiber.cursor.line < l.fiber.lines.length then l.fiber.cursor.line else 0 := by
  by_cases hlt : l.fiber.cursor.line < l.fiber.lines.length
  · have hx : l.fiber.lines[l.fiber.cursor.line]? = some l.fiber.lines[l.fiber.cursor.line] :=
      List.getElem?_eq_getElem hlt
    exact ⟨l, _, .next hlt (by rw [hr]; exact hx), hx, by rw [if_pos hlt]⟩
  · obtain ⟨line, hx⟩ : ∃ line, l.fiber.lines[0]? = some line :=
      ⟨_, List.getElem?_eq_getElem (List.length_pos_of_ne_nil hl)⟩
    exact ⟨l.again, _, .again (Nat.le_of_not_lt hlt) he hr hx, hx, by rw [if_neg hlt]; rfl⟩

namespace Simulation

/-- A phase in which the fiber `id` has no task that lets it run twice, and, if `last` holds, still
has its turn to come. -/
def Phase.Expects (id : FiberId) (last : Prop) : Phase → Prop
  | .rest => True
  | .work ids tasks => (∀ task ∈ tasks, task.fiber = id → task.forced = false) ∧
      (last → id ∈ ids ∨ ∃ task ∈ tasks, task.fiber = id)

/-- The turns that the entities have had at the end of a tick, and not before. -/
def Phase.turns : Phase → Nat
  | .rest => 1
  | .work _ _ => 0

namespace Point

/-- The fiber `id` is `f`, which has not run since the tick `t`. -/
def Dormant (p : Point) (id : FiberId) (t : Nat) (f : Fiber) : Prop :=
  p.sim.scheduler.fibers[id]? = some f ∧ f.lastTick = some t

/-- One move of a simulation by which a fiber that has not run since the tick `t` stays undisturbed:
it is alone on its entity, nobody takes it away between ticks, and those who change the world from
outside leave the cooldown and the commands of its entity alone, or take the entity away. -/
structure Undisturbed (id : FiberId) (t : Nat) (c : Cause) (p q : Point) : Prop where
  next : Next c p q
  alone {f k : Fiber} {a : FiberId} : p.Dormant id t f → p.sim.scheduler.fibers[a]? = some k →
    k.entity = f.entity → a = id
  attached {f : Fiber} : p.Dormant id t f → p.phase = .rest →
    (q.sim.scheduler.fibers[id]?).isSome
  spared {f : Fiber} : p.Dormant id t f → c = .outside →
    ∀ g, q.sim.world.gate? f.entity = some g → p.sim.world.gate? f.entity = some g

/-- A run in which the fiber `id` stays undisturbed, from point to point. -/
def Quiet (id : FiberId) (t : Nat) (run : List Point) : Prop :=
  run.IsChain fun p q => ∃ c, Undisturbed id t c p q

variable {p q : Point} {c : Cause}

/-- A move of the scripts or of the entities does not disturb a fiber that has the simulation to
itself and stays in it. -/
theorem Undisturbed.of_lone {id : FiberId} {t : Nat} (hn : Next c p q) (hc : c ≠ .outside)
    (hp : p.sim.scheduler.fibers.keys = [id]) (hq : q.sim.scheduler.fibers.keys = [id]) :
    Undisturbed id t c p q := by
  have hkey {s : Scheduler} (hs : s.fibers.keys = [id]) (a : FiberId) :
      (s.fibers[a]?).isSome ↔ a = id := by
    rw [Std.ExtTreeMap.isSome_getElem?_iff_mem, ← Std.ExtTreeMap.mem_keys, hs, List.mem_singleton]
  refine ⟨hn, fun _ ha _ => ?_, fun _ _ => (hkey hq id).2 rfl, fun _ ho => absurd ho hc⟩
  exact (hkey hp _).1 (Option.isSome_of_eq_some ha)

theorem Next.scheduler_change (h : p.Regular) (hn : Next c p q) :
    Scheduler.Change p.sim.scheduler q.sim.scheduler := by
  cases hn with
  | attach ha =>
    obtain ⟨⟨id, s⟩, hs, ha⟩ := of_bind_ok ha
    cases ha
    exact Scheduler.attach_change hs
  | detach id => exact Scheduler.detach_change _ id
  | @step m ids task tasks next s w hs =>
    have hc := Scheduler.step_change h.linked (m.environment m.clock) m.world task
    rwa [hs] at hc
  | change _ | enter | turn | entities => exact .same

theorem Next.clock_le (hn : Next c p q) : p.sim.clock ≤ q.sim.clock := by
  cases hn with
  | attach ha =>
    obtain ⟨x, -, ha⟩ := of_bind_ok ha
    cases ha
    exact Nat.le_refl _
  | enter => exact Nat.le_succ _
  | detach _ | change _ | turn | step _ | entities => exact Nat.le_refl _

/-- Within a tick there is never more than one task at hand. -/
def Single (p : Point) : Prop := ∀ ids tasks, p.phase = .work ids tasks → tasks.length ≤ 1

theorem Single.next (h : p.Single) (hr : p.Regular) (hn : Next c p q) : q.Single := by
  intro ids tasks hq
  cases hn with
  | attach _ | detach _ | change _ | entities => cases hq
  | enter | turn =>
    cases hq
    simp
  | @step m ids task tasks next s w hs =>
    have hts := Scheduler.step_stepped hr.linked (m.environment m.clock) m.world task
    rw [hs] at hts
    obtain rfl : tasks = [] := by simpa using h _ _ rfl
    cases hq
    rcases hts.tasks_cases hr.linked with ht | ⟨ht, -⟩ | ⟨i, ht, -⟩ <;> simp_all

/-- The fiber `g` has been asleep for `e` turns of the entities since the tick `t`, with `m` ticks
of cooldown at the beginning. -/
structure Asleep (g : Fiber) (t m e : Nat) (p : Point) : Prop where
  regular : p.Regular
  fiber : p.sim.scheduler.fibers[g.id]? = some g
  cools : p.sim.world.Cools g.entity (m - e)
  clock : p.sim.clock + p.phase.turns = t + e
  early : e ≤ max 1 m
  expects : p.phase.Expects g.id (e = max 1 m)

/-- The turn in which the fiber `g` wakes up. -/
structure Wakes (g : Fiber) (t m : Nat) (p : Point) : Prop extends Asleep g t m (max 1 m) p where
  turn : ∃ ids tasks, p.phase = .work ids (⟨g.id, false⟩ :: tasks)
  live : (p.sim.world.entity? g.entity).isSome

/-- In the activation at hand the fiber `g` goes on: the first line that it takes is the one at its
cursor, or the first line of the script if the cursor is behind the last one. -/
def Continues (p : Point) (g : Fiber) : Prop :=
  ∃ l k line, p.Starts g l ∧ l.trace = [] ∧ l.Takes k line ∧
    g.lines[k.fiber.cursor.line]? = some line ∧
    k.fiber.cursor.line = if g.cursor.line < g.lines.length then g.cursor.line else 0

section Asleep

variable {g : Fiber} {t m e : Nat}

/-- What a move comes to from a point at which the fiber `g` is asleep: it sleeps on, it wakes up,
or it finds its entity gone and ends. -/
inductive Rouses (g : Fiber) (t m : Nat) (p q : Point) : Prop where

  | asleep {e : Nat} : Asleep g t m e q → Rouses g t m p q

  | wakes : Wakes g t m p → Rouses g t m p q

  | lost : p.sim.world.entity? g.entity = none → q.sim.scheduler.fibers[g.id]? = none →
      g.id < q.sim.scheduler.nextId → Rouses g t m p q

variable {m₀ : Simulation} {ids : List FiberId} {task : Task} {tasks next : List Task}
  {s : Scheduler} {w : World}

/-- A step for another fiber. -/
theorem Asleep.step_other (hg : g.Sleeping t)
    (h : Asleep g t m e ⟨m₀, .work ids (task :: tasks)⟩) (hne : task.fiber ≠ g.id)
    (ho : ∀ f, m₀.scheduler.fibers[task.fiber]? = some f → f.entity ≠ g.entity)
    (hs : m₀.scheduler.step (m₀.environment m₀.clock) m₀.world task = (s, w, next)) :
    Asleep g t m e ⟨{ m₀ with scheduler := s, world := w }, .work ids (next ++ tasks)⟩ := by
  have henv : (m₀.environment m₀.clock).systems = .builtins := h.regular.systems
  have hkept := Scheduler.step_kept h.regular.linked h.fiber hg.awaiting hne
    (m₀.environment m₀.clock) m₀.world
  have hgate := Scheduler.step_gate? henv h.regular.linked ho m₀.world
  rw [hs] at hkept hgate
  refine ⟨h.regular.next (.step hs), hkept.1, h.cools.of_eq hgate, h.clock, h.early, ?_⟩
  obtain ⟨hforced, hdue⟩ := h.expects
  refine ⟨?_, fun hl => (hdue hl).imp_right ?_⟩
  · intro x hx hid
    rcases List.mem_append.1 hx with hx | hx
    · exact absurd hid (hkept.2 x hx)
    · exact hforced x (List.mem_cons_of_mem task hx) hid
  · rintro ⟨x, hx, hid⟩
    rcases List.mem_cons.1 hx with rfl | hx
    · exact absurd hid hne
    · exact ⟨x, List.mem_append_right next hx, hid⟩

/-- Whether a fiber that sleeps is refused: its entity is there, and it is not yet time. -/
theorem Asleep.refused_iff (hg : g.Sleeping t) (h : Asleep g t m e p)
    (hw : p.phase.turns = 0) :
    g.Refused (p.sim.environment p.sim.clock) false p.sim.world ↔
      (p.sim.world.entity? g.entity).isSome ∧ e ≠ max 1 m := by
  have hclock : p.sim.clock = t + e := by simpa [hw] using h.clock
  have hact {k : Entity} (hk : p.sim.world.entity? g.entity = some k) :
      k.canAct = decide (m - e = 0) := by
    rw [← Entity.isOpen_gate, h.cools _ (gate?_of_entity? hk)]
    simp [Gate.isOpen, beq_eq_decide]
  have hlast : g.lastTick = some (p.sim.environment p.sim.clock).tick ↔ e = 0 := by
    have ht : (p.sim.environment p.sim.clock).tick = t + e := hclock
    rw [hg.lastTick, ht, Option.some_inj]
    omega
  have hearly := h.early
  constructor
  · rintro (he | ⟨k, hk, hc | ⟨-, hl⟩⟩)
    · simp [hg.enabled] at he
    · refine ⟨by simp [hk], ?_⟩
      rw [hact hk, decide_eq_false_iff_not] at hc
      omega
    · refine ⟨by simp [hk], ?_⟩
      have := hlast.1 hl
      omega
  · rintro ⟨hlive, hne⟩
    obtain ⟨k, hk⟩ := Option.isSome_iff_exists.1 hlive
    refine .inr ⟨k, hk, ?_⟩
    rw [hact hk, hlast, decide_eq_false_iff_not]
    by_cases he : e = 0
    · exact .inr ⟨rfl, he⟩
    · exact .inl (by omega)

/-- A step for the fiber that sleeps: it is refused, or it has lost its entity, or it wakes up. -/
theorem Asleep.step_self (hg : g.Sleeping t)
    (h : Asleep g t m e ⟨m₀, .work ids (task :: tasks)⟩) (hid : task.fiber = g.id)
    (hs : m₀.scheduler.step (m₀.environment m₀.clock) m₀.world task = (s, w, next)) :
    Rouses g t m ⟨m₀, .work ids (task :: tasks)⟩
      ⟨{ m₀ with scheduler := s, world := w }, .work ids (next ++ tasks)⟩ := by
  obtain ⟨id, forced⟩ := task
  obtain rfl : id = g.id := hid
  have hfib : m₀.scheduler.fibers[g.id]? = some g := h.fiber
  obtain ⟨hforced, -⟩ := h.expects
  obtain rfl : forced = false := hforced _ List.mem_cons_self rfl
  have href := h.refused_iff hg rfl
  by_cases hre : g.Refused (m₀.environment m₀.clock) false m₀.world
  · -- nothing happens
    rw [Scheduler.step_refused hfib hre] at hs
    cases hs
    refine .asleep ⟨h.regular.next (.step (Scheduler.step_refused hfib hre)), hfib, h.cools,
      h.clock, h.early, fun x hx => hforced x (List.mem_cons_of_mem _ hx), fun hl => ?_⟩
    exact absurd hl (href.1 hre).2
  · by_cases hlive : (m₀.world.entity? g.entity).isSome
    · have he : e = max 1 m := by
        by_contra he
        exact hre (href.2 ⟨hlive, he⟩)
      exact .wakes ⟨he ▸ h, ⟨ids, tasks, rfl⟩, hlive⟩
    · have hnone : m₀.world.entity? g.entity = none := by simpa using hlive
      let task : Task := ⟨g.id, false⟩
      have htask : m₀.scheduler.fibers[task.fiber]? = some g := hfib
      have hgone := Scheduler.step_orphan h.regular.linked htask hg.toIdle hnone
        (m₀.environment m₀.clock)
      rw [hs] at hgone
      exact .lost hnone hgone.1 (hgone.2 ▸ (h.regular.linked.placed hfib).id_lt)

/-- What a move can come to for a fiber that sleeps. -/
theorem Asleep.rouses (hg : g.Sleeping t) (h : Asleep g t m e p)
    (hn : Undisturbed g.id t c p q) : Rouses g t m p q := by
  have hd : p.Dormant g.id t g := ⟨h.fiber, hg.lastTick⟩
  have hr : q.Regular := h.regular.next hn.next
  obtain ⟨hnext, halone, hattached, hspared⟩ := hn
  cases hnext with
  | attach ha =>
    obtain ⟨⟨id, s⟩, hs, ha⟩ := of_bind_ok ha
    cases ha
    exact .asleep ⟨hr, Scheduler.attach_kept h.regular.linked h.fiber hs, h.cools, h.clock, h.early,
      trivial⟩
  | @detach m₀ id =>
    have hne : id ≠ g.id := by
      rintro rfl
      have hx : ((m₀.scheduler.detach g.id).2.fibers[g.id]?).isSome := hattached hd rfl
      rw [Scheduler.detach_eq_retire h.fiber, Scheduler.getElem?_retire, if_pos rfl] at hx
      cases hx
    exact .asleep ⟨hr, Scheduler.detach_kept h.fiber hg.awaiting hne, h.cools, h.clock, h.early,
      trivial⟩
  | change w =>
    exact .asleep ⟨hr, h.fiber, fun k hk => h.cools k (hspared hd rfl k hk), h.clock, h.early,
      trivial⟩
  | @enter m₀ =>
    have hkeys : g.id ∈ m₀.scheduler.fibers.keys :=
      Std.ExtTreeMap.mem_keys.2 (Std.ExtTreeMap.isSome_getElem?_iff_mem.1 (by
        rw [show m₀.scheduler.fibers[g.id]? = some g from h.fiber]
        rfl))
    exact .asleep ⟨hr, h.fiber, h.cools, h.clock, h.early, by simp, fun _ => .inl hkeys⟩
  | @turn m₀ id ids =>
    refine .asleep ⟨hr, h.fiber, h.cools, h.clock, h.early, by simp, fun hl => ?_⟩
    rcases h.expects.2 hl with hi | ⟨x, hx, -⟩
    · rcases List.mem_cons.1 hi with rfl | hi
      · exact .inr ⟨_, List.mem_singleton_self _, rfl⟩
      · exact .inl hi
    · cases hx
  | @step m₀ ids task tasks next s w hs =>
    by_cases hid : task.fiber = g.id
    · exact h.step_self hg hid hs
    · exact .asleep (h.step_other hg hid (fun f hf ho => hid (halone hd hf ho)) hs)
  | @entities m₀ =>
    have hlt : e < max 1 m := by
      refine Nat.lt_of_le_of_ne h.early fun hl => ?_
      rcases h.expects.2 hl with hi | ⟨x, hx, -⟩
      · cases hi
      · cases hx
    have hclock : m₀.clock = t + e := h.clock
    refine .asleep (e := e + 1) ⟨hr, h.fiber, ?_, by simp [Phase.turns, hclock, Nat.add_assoc], hlt,
      trivial⟩
    rw [← Nat.sub_sub]
    exact tickEntities_cools h.cools

theorem Asleep.clock_lt (h : Asleep g t m e p) (hp : p.phase = .rest) :
    p.sim.clock < t + max 1 m := by
  have hclock := h.clock
  have hearly := h.early
  rw [hp] at hclock
  simp only [Phase.turns] at hclock
  omega

theorem Asleep.clock_le (h : Asleep g t m e p) : p.sim.clock ≤ t + max 1 m := by
  have hclock := h.clock
  have hearly := h.early
  omega

/-- While a fiber sleeps, none of its lines starts. -/
theorem Asleep.not_starts (hg : g.Sleeping t) (h : Asleep g t m e p)
    (hc : p.sim.clock < t + max 1 m) {f : Fiber} {l : Loop} (hid : f.id = g.id) :
    ¬ p.Starts f l := by
  rintro ⟨ids, task, tasks, n, hp, hf, hgo⟩
  obtain ⟨id, forced⟩ := task
  obtain rfl : id = g.id := (h.regular.linked.placed hf).id_eq.symm.trans hid
  obtain rfl : g = f := Option.some.inj (h.fiber.symm.trans hf)
  have hx := h.expects
  rw [hp] at hx
  obtain rfl : forced = false := hx.1 _ List.mem_cons_self rfl
  have hw : p.phase.turns = 0 := by rw [hp, Phase.turns]
  have hne : e ≠ max 1 m := by
    have hclock := h.clock
    omega
  by_cases hlive : (p.sim.world.entity? g.entity).isSome
  · rw [Fiber.byLines_refused ((h.refused_iff hg hw).2 ⟨hlive, hne⟩)] at hgo
    cases hgo
  · have hnone : p.sim.world.entity? g.entity = none := by simpa using hlive
    simp [Fiber.byLines, Fiber.enter, hg.enabled, hg.valid, hnone] at hgo

theorem Wakes.clock_eq (h : Wakes g t m p) : p.sim.clock = t + max 1 m := by
  obtain ⟨ids, tasks, hp⟩ := h.turn
  have hclock := h.clock
  rwa [hp, Phase.turns] at hclock

/-- What has become of the fiber `g`: it sleeps, its time has come, or it has ended for want of its
entity. -/
inductive Fate (g : Fiber) (t m : Nat) (p : Point) : Prop where

  | asleep {e : Nat} : Asleep g t m e p → Fate g t m p

  | due : t + max 1 m ≤ p.sim.clock → Fate g t m p

  | lost : p.Regular → p.sim.scheduler.fibers[g.id]? = none →
      g.id < p.sim.scheduler.nextId → Fate g t m p

theorem Fate.kept (hg : g.Sleeping t) (h : Fate g t m p) (hn : Undisturbed g.id t c p q) :
    Fate g t m q := by
  cases h with
  | asleep ha =>
    cases ha.rouses hg hn with
    | asleep ha => exact .asleep ha
    | wakes hw => exact .due (hw.clock_eq ▸ hn.next.clock_le)
    | lost _ hf hid => exact .lost (ha.regular.next hn.next) hf hid
  | due hle => exact .due (Nat.le_trans hle hn.next.clock_le)
  | lost hr hf hid =>
    obtain ⟨hf, hid⟩ := (hn.next.scheduler_change hr).dead hf hid
    exact .lost (hr.next hn.next) hf hid

theorem Fate.not_starts (hg : g.Sleeping t) (h : Fate g t m p) (hc : p.sim.clock < t + max 1 m)
    {f : Fiber} {l : Loop} (hid : f.id = g.id) : ¬ p.Starts f l := by
  cases h with
  | asleep ha => exact ha.not_starts hg hc hid
  | due hle => exact absurd hc (Nat.not_lt.2 hle)
  | lost hr hn _ =>
    rintro ⟨ids, task, tasks, n, -, hf, -⟩
    rw [← (hr.linked.placed hf).id_eq, hid, hn] at hf
    cases hf

variable {run : List Point}

/-- Before a fiber that sleeps is to wake up, none of its lines starts. -/
theorem Asleep.not_starts_before (hg : g.Sleeping t) (h : Asleep g t m e q)
    (hl : Quiet g.id t (q :: run)) {r : Point} (hr : r ∈ q :: run)
    (hc : r.sim.clock < t + max 1 m) {f : Fiber} {l : Loop} (hid : f.id = g.id) :
    ¬ r.Starts f l := by
  have hfate : ∀ r ∈ q :: run, Fate g t m r :=
    hl.induction _ _ (fun _ _ ⟨_, hn⟩ hf => hf.kept hg hn) fun _ => .asleep h
  exact (hfate r hr).not_starts hg hc hid

/-- A fiber that sleeps on an entity that stays wakes up in time. -/
theorem Asleep.exists_wakes (hg : g.Sleeping t) (h : Asleep g t m e q)
    (hl : Quiet g.id t (q :: run))
    (hlive : ∀ r ∈ q :: run, r.sim.clock ≤ t + max 1 m → (r.sim.world.entity? g.entity).isSome)
    {r : Point} (hr : r ∈ q :: run) (hrest : r.phase = .rest) (hc : t + max 1 m ≤ r.sim.clock) :
    ∃ r₁ ∈ q :: run, Wakes g t m r₁ := by
  induction run generalizing q e with
  | nil =>
    obtain rfl := List.mem_singleton.1 hr
    exact absurd (h.clock_lt hrest) (Nat.not_lt.2 hc)
  | cons q₁ run ih =>
    obtain ⟨⟨c, hn⟩, hl⟩ := List.isChain_cons_cons.1 hl
    cases h.rouses hg hn with
    | asleep ha =>
      rcases List.mem_cons.1 hr with rfl | hr
      · exact absurd (h.clock_lt hrest) (Nat.not_lt.2 hc)
      · obtain ⟨r₁, hr₁, hw⟩ := ih ha hl (fun x hx => hlive x (List.mem_cons_of_mem q hx)) hr
        exact ⟨r₁, List.mem_cons_of_mem q hr₁, hw⟩
    | wakes hw => exact ⟨q, List.mem_cons_self, hw⟩
    | lost he _ _ =>
      have := hlive q List.mem_cons_self h.clock_le
      simp [he] at this

/-- In the turn in which it wakes up, a fiber goes on. -/
theorem Wakes.continues (hg : g.Sleeping t) (h : Wakes g t m p) (hl : g.lines ≠ []) :
    p.Continues g := by
  obtain ⟨ids, tasks, hp⟩ := h.turn
  have hw : p.phase.turns = 0 := by rw [hp, Phase.turns]
  have hre : ¬ g.Refused (p.sim.environment p.sim.clock) false p.sim.world := fun hr =>
    ((h.toAsleep.refused_iff hg hw).1 hr).2 rfl
  have hlive := h.live
  obtain ⟨e, he⟩ := Option.isSome_iff_exists.1 hlive
  have henter := hg.toIdle.enter_eq he hre p.sim.limits.tokenBudget
  obtain ⟨k, line, ht, hline, hcursor⟩ := Loop.exists_takes (l := {
    budget := p.sim.limits.tokenBudget
    evaluated := true
    fiber := { g with lastTick := some p.sim.clock, state := .running, awaiting := none }
    world := p.sim.world }) rfl rfl hl
  refine ⟨_, k, line, ⟨ids, ⟨g.id, false⟩, tasks, 0, hp, h.fiber, ?_⟩, rfl, ht, hline, hcursor⟩
  rw [Fiber.byLines, henter]
  rfl

end Asleep

/-- The tick in which a script goes on that asks for `n` ticks of sleep now. -/
def wakeTick (p : Point) (n : Nat) : Nat :=
  p.sim.clock + max 1 (min n p.sim.world.config.maxCooldown)

/-- A move by which a line that asks for sleep is evaluated leaves the fiber asleep. -/
theorem asleep_of_next {f : Fiber} {l k : Loop} {n : Nat} (hr : p.Regular) (hone : p.Single)
    (hs : p.Starts f l) (hk : l.FallsAsleep (p.sim.environment p.sim.clock) k n)
    (hq : Next .scripts p q) :
    k.asleep.Sleeping p.sim.clock ∧ k.asleep.id = f.id ∧ k.asleep.entity = f.entity ∧
      Asleep k.asleep p.sim.clock (min n p.sim.world.config.maxCooldown) 0 q := by
  obtain ⟨ids, task, tasks, j, hp, hf, hgo⟩ := hs
  obtain ⟨m, phase⟩ := p
  obtain rfl : phase = .work ids (task :: tasks) := hp
  have henv : (m.environment m.clock).systems = .builtins := hr.systems
  have hpl := hr.linked.placed hf
  obtain ⟨hsleep, hid, hent, w', ha, hg⟩ := hpl.toSound.activate_asleep henv hgo hk
  have hq' := hr.next hq
  have hcfg := (Scheduler.step_deeds henv m.scheduler m.world task).replayed.config
  have hstep : m.scheduler.step (m.environment m.clock) m.world task =
      ({ m.scheduler with fibers := m.scheduler.fibers.insert task.fiber k.asleep }, w', []) := by
    unfold Scheduler.step
    simp only [hf, ha, Scheduler.insert_erase_fiber]
  obtain rfl : tasks = [] := by simpa using hone _ _ rfl
  refine ⟨hsleep, hid, hent, ?_⟩
  cases hq with
  | step hs =>
    rw [hstep] at hs hcfg
    cases hs
    refine ⟨hq', by simp [hid, hpl.id_eq], ?_, rfl, Nat.zero_le _, by simp, fun h => ?_⟩
    · intro g hg'
      rw [hent, hg] at hg'
      rw [← Option.some.inj hg', hcfg, Nat.sub_zero]
    · omega

theorem single_of_leads {m : Simulation} (hr : Regular ⟨m, .rest⟩) (h : Leads ⟨m, .rest⟩ p) :
    p.Single := by
  induction h with
  | refl =>
    rintro ids tasks ⟨⟩
  | tail hl hn ih =>
    obtain ⟨c, hn⟩ := hn
    exact ih.next (hr.leads hl) hn

/-- A line `sleep(n)` puts its script to sleep. In every run of a simulation with the built-in
functions in which the script stays undisturbed then, none of its lines starts before the tick in
which it is to wake up, and if its entity has been there until this tick is over, the script has
gone on in it behind the line. -/
theorem sleep_lasts {w : World} {source : ScriptSource} {limits : Limits} {m : Simulation}
    (hm : create w source limits = .ok m) :
    (∀ {n : Nat}, n < 0x80000000 → ∀ (s : Scope) (w : World),
      (Statement.ofLine ("sleep(" ++ n.repr ++ ")").toList).Sleeps s w n) ∧
    ∀ {p q : Point} {run : List Point} {f : Fiber} {l k : Loop} {n : Nat},
      Leads ⟨m, .rest⟩ p → p.Starts f l → l.FallsAsleep (p.sim.environment p.sim.clock) k n →
      Next .scripts p q → Quiet f.id p.sim.clock (q :: run) →
      (∀ r ∈ q :: run, r.sim.clock < p.wakeTick n →
        ∀ {g : Fiber} {l' : Loop}, g.id = f.id → ¬ r.Starts g l') ∧
      ((∃ r ∈ q :: run, r.phase = .rest ∧ p.wakeTick n ≤ r.sim.clock) →
        (∀ r ∈ q :: run, r.sim.clock ≤ p.wakeTick n →
          (r.sim.world.entity? f.entity).isSome) →
        ∃ r ∈ q :: run, r.sim.clock = p.wakeTick n ∧ r.Continues k.asleep) := by
  refine ⟨fun hn s w => Statement.sleeps_literal hn s w, ?_⟩
  intro p q run f l k n hp hs hk hq hl
  have h₀ : Regular ⟨m, .rest⟩ := regular_of_create hm
  have hlines : k.asleep.lines ≠ [] := by
    obtain ⟨line, ht, -⟩ := hk.takes
    exact List.ne_nil_of_length_pos (Nat.zero_lt_of_lt ht.line_lt)
  obtain ⟨hsleep, hid, hent, hasleep⟩ :=
    asleep_of_next (h₀.leads hp) (single_of_leads h₀ hp) hs hk hq
  rw [← hid] at hl ⊢
  rw [← hent]
  refine ⟨fun r hr hc g l' hg => hasleep.not_starts_before hsleep hl hr hc hg, ?_⟩
  rintro ⟨r, hr, hrest, hc⟩ hlive
  obtain ⟨r₁, hr₁, hw⟩ := hasleep.exists_wakes hsleep hl hlive hr hrest hc
  exact ⟨r₁, hr₁, hw.clock_eq, hw.continues hsleep hlines⟩

section Example

/-- The simulation with a script that sleeps for two ticks. -/
def nap : Simulation :=
  { stroll with
    scheduler := { fibers := {(0, Fiber.start 0 ⟨0⟩ 0 "sleep(2)\nlog(1)")}, nextId := 1 } }

/-- The simulation at the beginning of its next tick. -/
def entered (m : Simulation) : Simulation :=
  { m with clock := m.clock + 1, world := { m.world with tick := m.clock + 1 } }

/-- The simulation after the step of its first script. -/
def stepped (m : Simulation) : Simulation :=
  let (s, w, _) := m.scheduler.step (m.environment m.clock) m.world ⟨0, false⟩
  { m with scheduler := s, world := w }

/-- The simulation after a tick with a script that calls nobody. -/
def nextDay (m : Simulation) : Simulation :=
  { stepped (entered m) with world := (stepped (entered m)).world.tickEntities }

/-- The points of this tick. -/
def day (m : Simulation) : List Point :=
  [⟨m, .rest⟩, ⟨entered m, .work [0] []⟩, ⟨entered m, .work [] [⟨0, false⟩]⟩,
    ⟨stepped (entered m), .work [] []⟩]

/-- In the next tick there is one script only, which calls nobody and is there until the end. -/
structure Lone (m : Simulation) : Prop where
  before : m.scheduler.fibers.keys = [0]
  after : (stepped (entered m)).scheduler.fibers.keys = [0]
  silent : ((entered m).scheduler.step ((entered m).environment (entered m).clock)
    (entered m).world ⟨0, false⟩).2.2 = []

variable {m : Simulation} {t : Nat} {run : List Point}

theorem Lone.next_entered (h : Lone m) : Next .scripts ⟨m, .rest⟩ ⟨entered m, .work [0] []⟩ :=
  h.before ▸ .enter

theorem Lone.next_stepped (h : Lone m) :
    Next .scripts ⟨entered m, .work [] [⟨0, false⟩]⟩ ⟨stepped (entered m), .work [] []⟩ := by
  have hs : (entered m).scheduler.step ((entered m).environment (entered m).clock)
      (entered m).world ⟨0, false⟩ =
        ((stepped (entered m)).scheduler, (stepped (entered m)).world, []) :=
    h.silent ▸ rfl
  exact .step hs

/-- A run that begins at the end of a day can begin in its evening. -/
theorem Lone.quiet_evening (h : Lone m) (hr : Quiet 0 t (⟨nextDay m, .rest⟩ :: run)) :
    Quiet 0 t (⟨stepped (entered m), .work [] []⟩ :: ⟨nextDay m, .rest⟩ :: run) :=
  .cons_cons ⟨_, .of_lone .entities nofun h.after h.after⟩ hr

theorem Lone.quiet_day (h : Lone m) (hr : Quiet 0 t (⟨nextDay m, .rest⟩ :: run)) :
    Quiet 0 t (day m ++ ⟨nextDay m, .rest⟩ :: run) := by
  refine .cons_cons ⟨_, .of_lone h.next_entered nofun h.before h.before⟩ ?_
  refine .cons_cons ⟨_, .of_lone .turn nofun h.before h.before⟩ ?_
  exact .cons_cons ⟨_, .of_lone h.next_stepped nofun h.before h.after⟩ (h.quiet_evening hr)

/-- From the step in which the script falls asleep on to the end of the third day. -/
def napRun : List Point :=
  ⟨stepped (entered nap), .work [] []⟩ ::
    (day (nextDay nap) ++ (day (nextDay (nextDay nap)) ++
      [⟨nextDay (nextDay (nextDay nap)), .rest⟩]))

/-- The script behind its first line. -/
def napAsleep : Fiber :=
  { Fiber.start 0 ⟨0⟩ 0 "sleep(2)\nlog(1)" with
    cursor := { line := 1 }, state := .sleeping, lastTick := some 1 }

/-- The script sleeps through the second day and goes on in the third one. -/
theorem sleep_lasts_nap :
    (∀ f l, f.id = 0 → ¬ Starts ⟨entered (nextDay nap), .work [] [⟨0, false⟩]⟩ f l) ∧
    ∃ r ∈ napRun, r.sim.clock = 3 ∧ r.Continues napAsleep := by
  have hm : create keyWorld nap.source {} = .ok stroll := rfl
  have ha : stroll.attachWithAuthority ⟨0⟩ "sleep(2)\nlog(1)" 0 = .ok (0, nap) := rfl
  have h₁ : Lone nap := ⟨by decide +kernel, by decide +kernel, by decide +kernel⟩
  have h₂ : Lone (nextDay nap) := ⟨by decide +kernel, by decide +kernel, by decide +kernel⟩
  have h₃ : Lone (nextDay (nextDay nap)) :=
    ⟨by decide +kernel, by decide +kernel, by decide +kernel⟩
  have hp : Leads ⟨stroll, .rest⟩ ⟨entered nap, .work [] [⟨0, false⟩]⟩ :=
    ((Relation.ReflTransGen.single ⟨_, .attach ha⟩).tail ⟨_, h₁.next_entered⟩).tail ⟨_, .turn⟩
  let f : Fiber := Fiber.start 0 ⟨0⟩ 0 "sleep(2)\nlog(1)"
  let l : Loop := {
    budget := nap.limits.tokenBudget
    evaluated := true
    fiber := { f with lastTick := some 1, state := .running, awaiting := none }
    world := (entered nap).world }
  have hs : Starts ⟨entered nap, .work [] [⟨0, false⟩]⟩ f l :=
    ⟨[], ⟨0, false⟩, [], 0, rfl, by decide +kernel, rfl⟩
  have hk : l.FallsAsleep ((entered nap).environment 1) l 2 := by
    refine ⟨⟨"sleep(2)".toList, .next (by decide +kernel) (by decide +kernel), ?_⟩, rfl,
      by decide +kernel⟩
    exact Statement.sleeps_literal (by decide) _ _
  have hl : Quiet 0 1 napRun :=
    h₁.quiet_evening (h₂.quiet_day (h₃.quiet_day (List.isChain_singleton _)))
  obtain ⟨hbefore, hafter⟩ := (sleep_lasts hm).2 hp hs hk h₁.next_stepped hl
  refine ⟨fun f l hf => hbefore _ (by simp [day]) (by decide +kernel) hf, ?_⟩
  refine hafter ⟨⟨nextDay (nextDay (nextDay nap)), .rest⟩, by simp, rfl, by decide +kernel⟩ ?_
  have hlive : ∀ r ∈ napRun, (r.sim.world.entity? ⟨0⟩).isSome := by decide +kernel
  exact fun r hr _ => hlive r hr

end Example

end Point

end Simulation

end TileScript
