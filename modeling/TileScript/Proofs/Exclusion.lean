import TileScript.Proofs.Gate
import TileScript.Proofs.Steps
import TileScript.Proofs.Termination
import TileScript.Simulation

/-! # Scripts of an entity that cannot act

The gate of an entity is looked at when a fiber is activated. With the built-in functions this is
enough: no line changes a gate and lets the next line start, and nobody opens a gate while scripts
run. So a gate that is closed keeps out all scripts of its entity until the entities have their
turn.
-/

namespace TileScript

open World

namespace World

/-- Nobody has come or gone, and closed gates are as they were. -/
structure Spares (w w' : World) : Prop where
  closed {id : EntityId} {g : Gate} : w.gate? id = some g → g.isOpen = false → w'.gate? id = some g
  live (id : EntityId) : (w'.gate? id).isSome = (w.gate? id).isSome

variable {w w' : World}

theorem Spares.of_eq (h : w'.gate? = w.gate?) : Spares w w' :=
  ⟨fun hg _ => h ▸ hg, fun _ => by rw [h]⟩

theorem Spares.trans {w₁ w₂ w₃ : World} (h : Spares w₁ w₂) (h' : Spares w₂ w₃) : Spares w₁ w₃ :=
  ⟨fun hg hc => h'.closed (h.closed hg hc) hc, fun id => (h'.live id).trans (h.live id)⟩

/-- An open gate may change. -/
theorem Elsewhere.spares {own : EntityId} {g : Gate} (h : Elsewhere own w w')
    (hg : w.gate? own = some g) (ho : g.isOpen = true) : Spares w w' := by
  constructor
  · intro id k hk hc
    have hne : id ≠ own := by
      rintro rfl
      obtain rfl := Option.some.inj (hg.symm.trans hk)
      simp [ho] at hc
    rw [h.others hne, hk]
  · intro id
    by_cases hid : id = own
    · exact hid ▸ h.live
    · rw [h.others hid]

end World

theorem Fiber.coolDown_elsewhere (f : Fiber) (ticks : Nat) (w : World) :
    Elsewhere f.entity w (f.coolDown ticks w) := by
  unfold coolDown
  split
  · exact .of_eq rfl
  · split
    · next w' hw => exact updateEntity_elsewhere hw
    · exact .of_eq rfl

namespace Loop

variable {env : Environment} {own : EntityId} {w₀ : World} {l : Loop}

/-- A loop between two lines, with all gates as they were in `w₀`. -/
structure Still (own : EntityId) (w₀ : World) (l : Loop) : Prop where
  entity : l.fiber.entity = own
  gates : l.world.gate? = w₀.gate?

/-- Where a loop can get to. -/
inductive Stage.Still (own : EntityId) (w₀ : World) : Stage → Prop where

  | going {l : Loop} : l.Still own w₀ → Stage.Still own w₀ (.going l)

  | astray : Stage.Still own w₀ .astray

  | done {trace : List Nat} {out : Outcome × Fiber × World} : Elsewhere own w₀ out.2.2 →
      Stage.Still own w₀ (.done trace out)

theorem Still.finish (h : l.Still own w₀) {trace : List Nat} {out : Outcome × Fiber × World}
    (hw : out.2.2 = l.world) : Stage.Still own w₀ (.done trace out) :=
  .done (.of_eq (hw ▸ h.gates))

theorem Still.pass (h : l.Still own w₀) (c : Cursor) : Stage.Still own w₀ (.going (l.pass c)) :=
  .going ⟨h.entity, h.gates⟩

/-- A line that lets the next one start has changed no gate. -/
theorem Still.evaluate (henv : env.systems = .builtins) (h : l.Still own w₀) (line : List Char)
    (st : Statement) : Stage.Still own w₀ (l.evaluate env line st) := by
  unfold Loop.evaluate
  dsimp only
  split
  · exact h.finish rfl
  · have hx := Fiber.execute_executed (Scope.admits_restrained
      (s := { l.fiber with cursor := l.fiber.cursor.advance }.scope env line) henv)
      { l.fiber with cursor := l.fiber.cursor.advance } st { world := l.world }
    have hbegin : Elsewhere own w₀ l.world := .of_eq h.gates
    split
    · next g σ hr =>
      rw [hr] at hx
      have hres := hx.of_ok
      rw [show Scope.entity _ = own from h.entity] at hres
      obtain ⟨vars, cursor, rfl, -⟩ := Fiber.execute_ok hr
      split
      · have hcool := Fiber.coolDown_elsewhere { l.fiber with vars, cursor } ‹_› σ.world
        rw [show Fiber.entity _ = own from h.entity] at hcool
        exact .done ((hbegin.trans hres.elsewhere).trans hcool)
      · next hp => exact .going ⟨h.entity, (hres.still hp).2.trans h.gates⟩
    all_goals
      next hr =>
      rw [hr] at hx
      have hres := hx.of_error
      rw [show Scope.entity _ = own from h.entity] at hres
      exact .done (hbegin.trans hres.elsewhere)

theorem Still.take (henv : env.systems = .builtins) (h : l.Still own w₀) (line : List Char) :
    Stage.Still own w₀ (l.take env line) := by
  unfold Loop.take
  dsimp only
  split
  · exact h.pass _
  · split
    · exact h.pass _
    · exact h.finish rfl
  · split
    · exact h.pass _
    · exact h.finish rfl
  · split
    · exact h.evaluate henv line _
    · exact h.pass _

theorem Still.look (henv : env.systems = .builtins) (h : l.Still own w₀) :
    Stage.Still own w₀ (l.look env) := by
  unfold Loop.look
  split
  · exact h.take henv _
  · exact .astray

theorem Still.step (henv : env.systems = .builtins) (h : l.Still own w₀) :
    Stage.Still own w₀ (l.step env) := by
  have hagain : l.again.Still own w₀ := ⟨h.entity, h.gates⟩
  unfold Loop.step
  split
  · split
    · exact h.finish rfl
    · exact hagain.look henv
  · exact h.look henv

theorem Still.iterate (henv : env.systems = .builtins) (h : l.Still own w₀) (n : Nat) :
    Stage.Still own w₀ (l.iterate env n) := by
  induction n generalizing l with
  | zero => exact .going h
  | succ n ih =>
    have hs : Stage.Still own w₀ (l.step env) := h.step henv
    rw [Loop.iterate]
    generalize l.step env = r at hs
    cases hs with
    | going hl => exact ih hl
    | astray => exact .astray
    | done hd => exact .done hd

end Loop

namespace Fiber

open Loop

variable {env : Environment} {forced : Bool} {f : Fiber} {w : World} {budget : Nat}

theorem takeUp_still {own : EntityId} (h : f.entity = own) (budget : Nat) (w : World) :
    Stage.Still own w (f.takeUp budget w) := by
  unfold takeUp
  dsimp only
  split
  · exact .done (.of_eq rfl)
  · split
    · exact .going ⟨h, rfl⟩
    · exact .done (.of_eq rfl)
  · exact .going ⟨h, rfl⟩
  · exact .going ⟨h, rfl⟩

/-- A fiber enters its script only through an open gate. -/
theorem enter_still (env : Environment) (budget : Nat) (forced : Bool) (f : Fiber) (w : World) :
    (∃ out, out.2.2 = w ∧ f.enter env budget forced w = .done [] out) ∨
    ((∃ g, w.gate? f.entity = some g ∧ g.isOpen = true) ∧
      Stage.Still f.entity w (f.enter env budget forced w)) := by
  unfold enter
  split
  · exact .inl ⟨_, rfl, rfl⟩
  · split
    · exact .inl ⟨_, rfl, rfl⟩
    · next e he =>
      split
      · exact .inl ⟨_, rfl, rfl⟩
      · next hc =>
        split
        · exact .inl ⟨_, rfl, rfl⟩
        · have hg : w.gate? f.entity = some e.gate := by
            rw [gate?, he]
            rfl
          have ho : e.gate.isOpen = true := by simpa [Entity.isOpen_gate] using hc
          refine .inr ⟨⟨e.gate, hg, ho⟩, ?_⟩
          exact takeUp_still (f := { f with
            lastTick := some env.tick, state := .running, awaiting := none }) rfl budget w

theorem byLines_still (henv : env.systems = .builtins) (n : Nat) :
    (∃ out, out.2.2 = w ∧ f.byLines env budget forced w n = .done [] out) ∨
    ((∃ g, w.gate? f.entity = some g ∧ g.isOpen = true) ∧
      Stage.Still f.entity w (f.byLines env budget forced w n)) := by
  unfold byLines
  rcases enter_still env budget forced f w with ⟨out, hw, he⟩ | ⟨hg, hs⟩
  · rw [he]
    exact .inl ⟨out, hw, rfl⟩
  · refine .inr ⟨hg, ?_⟩
    generalize f.enter env budget forced w = r at hs
    cases hs with
    | going hl => exact hl.iterate henv n
    | astray => exact .astray
    | done hd => exact .done hd

/-- Before each line of an activation the gate of its entity is open. -/
theorem gate_of_going (henv : env.systems = .builtins) {n : Nat} {l : Loop}
    (h : f.byLines env budget forced w n = .going l) : l.fiber.entity = f.entity ∧
      ∃ e, l.world.entity? f.entity = some e ∧ e.cooldown = 0 ∧ e.commands = [] := by
  rcases byLines_still (f := f) (w := w) henv n with ⟨out, -, hd⟩ | ⟨⟨g, hg, ho⟩, hs⟩
  · rw [hd] at h
    cases h
  · rw [h] at hs
    cases hs with
    | going hl =>
      rw [← hl.gates] at hg
      obtain ⟨e, he, rfl⟩ := Option.map_eq_some_iff.1 hg
      obtain ⟨hc, hq⟩ : e.cooldown = 0 ∧ e.commands = [] := by
        simpa [Gate.isOpen, Entity.gate] using ho
      exact ⟨hl.entity, e, he, hc, hq⟩

theorem activate_spares (henv : env.systems = .builtins) (hf : f.Sound) (forced : Bool)
    (w : World) : w.Spares (f.activate env forced w).2.2 := by
  have hend := (hf.bounded env forced w).ends (Nat.lt_succ_self _)
  rcases byLines_still (f := f) (w := w) henv _ with ⟨out, hw, hd⟩ | ⟨⟨g, hg, ho⟩, hs⟩
  · rw [hend] at hd
    rw [(Stage.done.inj hd).2, hw]
    exact .of_eq rfl
  · rw [hend] at hs
    cases hs with
    | done he => exact he.spares hg ho

/-- A fiber that is refused evaluates nothing. -/
theorem byLines_refused (h : f.Refused env forced w) (n : Nat) :
    f.byLines env budget forced w n = .done [] (.skipped, f, w) := by
  have he : f.enter env budget forced w = .done [] (.skipped, f, w) := by
    unfold enter
    rcases h with he | ⟨e, hw, hc⟩
    · simp [he]
    · by_cases he : (!f.enabled || !f.valid) = true
      · rw [if_pos he]
      · rw [if_neg he, hw]
        rcases hc with hc | ⟨hn, ht⟩
        · simp [hc]
        · simp [hn, ht]
  rw [byLines, he]

end Fiber

namespace Scheduler

open TileScript.Fiber

variable {env : Environment} {s : Scheduler} {w : World}

theorem reportFailure_gate? (w : World) (id : EntityId) (message : String) :
    (reportFailure w id message).gate? = w.gate? := by
  unfold reportFailure
  dsimp only
  split
  · next w' hw =>
    have hg : w'.gate? = w.gate? := appendLog_gate? hw
    exact hg
  · rfl

/-- No step of the work of a tick opens a gate. -/
theorem step_spares (henv : env.systems = .builtins) (h : Linked s) (w : World) (task : Task) :
    w.Spares (s.step env w task).2.1 := by
  refine step_world (fun w => .of_eq rfl) .trans (fun f hf => ?_) fun w id message => ?_
  · exact activate_spares henv (h.placed hf).toSound task.forced w
  · exact .of_eq (reportFailure_gate? ..)

end Scheduler

namespace Simulation

/-- Where a simulation is: between operations, or within a tick with fibers still to be looked at
and tasks at hand. -/
inductive Phase where
  | rest
  | work (ids : List FiberId) (tasks : List Task)

/-- A simulation anywhere in a run. -/
structure Point where
  sim : Simulation
  phase : Phase := .rest

/-- Who makes a simulation go on. -/
inductive Cause where
  | scripts
  /-- The turn of the entities at the end of a tick. -/
  | entities
  /-- Somebody who changes the world between ticks. -/
  | outside

namespace Point

/-- One move of a simulation. -/
inductive Next : Cause → Point → Point → Prop where

  | attach {m m' : Simulation} {entity : EntityId} {source : String} {authority : Int32}
      {id : FiberId} : m.attachWithAuthority entity source authority = .ok (id, m') →
      Next .scripts ⟨m, .rest⟩ ⟨m', .rest⟩

  | detach {m : Simulation} (id : FiberId) : Next .scripts ⟨m, .rest⟩ ⟨(m.detach id).2, .rest⟩

  | change {m : Simulation} (w : World) : Next .outside ⟨m, .rest⟩ ⟨{ m with world := w }, .rest⟩

  | enter {m : Simulation} : Next .scripts ⟨m, .rest⟩
      ⟨{ m with clock := m.clock + 1, world := { m.world with tick := m.clock + 1 } },
        .work m.scheduler.fibers.keys []⟩

  | turn {m : Simulation} {id : FiberId} {ids : List FiberId} :
      Next .scripts ⟨m, .work (id :: ids) []⟩ ⟨m, .work ids [⟨id, false⟩]⟩

  | step {m : Simulation} {ids : List FiberId} {task : Task} {tasks next : List Task}
      {s : Scheduler} {w : World} :
      m.scheduler.step (m.environment m.clock) m.world task = (s, w, next) →
      Next .scripts ⟨m, .work ids (task :: tasks)⟩
        ⟨{ m with scheduler := s, world := w }, .work ids (next ++ tasks)⟩

  | entities {m : Simulation} : Next .entities ⟨m, .work [] []⟩
      ⟨{ m with world := m.world.tickEntities }, .rest⟩

/-- Whether a run can get from a point to another one. -/
def Leads (p q : Point) : Prop := Relation.ReflTransGen (fun p q => ∃ c, Next c p q) p q

/-- An entity is there and cannot act. -/
def Closed (id : EntityId) (p : Point) : Prop :=
  ∃ e, p.sim.world.entity? id = some e ∧ (e.cooldown ≠ 0 ∨ e.commands ≠ [])

/-- Whether a run can get from a point to another one without that the entities have had their turn,
or somebody from outside has come, and left the entity able to act. -/
def LeadsClosed (id : EntityId) (p q : Point) : Prop :=
  Relation.ReflTransGen (fun p q => ∃ c, Next c p q ∧ (c = .scripts ∨ q.Closed id)) p q

/-- A line of a fiber is about to start in the activation at hand. -/
def Starts (p : Point) (f : Fiber) (l : Loop) : Prop :=
  ∃ ids task tasks n, p.phase = .work ids (task :: tasks) ∧
    p.sim.scheduler.fibers[task.fiber]? = some f ∧
    f.byLines (p.sim.environment p.sim.clock) p.sim.limits.tokenBudget task.forced p.sim.world n =
      .going l

theorem closed_iff {id : EntityId} {p : Point} :
    p.Closed id ↔ ∃ g, p.sim.world.gate? id = some g ∧ g.isOpen = false := by
  have hg (e : Entity) : e.gate.isOpen = false ↔ e.cooldown ≠ 0 ∨ e.commands ≠ [] := by
    simp only [Gate.isOpen, Entity.gate, Bool.and_eq_false_iff, beq_eq_false_iff_ne,
      List.isEmpty_eq_false_iff]
  constructor
  · rintro ⟨e, he, hc⟩
    exact ⟨e.gate, by rw [gate?, he]; rfl, (hg e).2 hc⟩
  · rintro ⟨g, h, hc⟩
    obtain ⟨e, he, rfl⟩ := Option.map_eq_some_iff.1 h
    exact ⟨e, he, (hg e).1 hc⟩

/-- What a run of a simulation keeps that has the built-in functions only. -/
structure Regular (p : Point) : Prop where
  systems : p.sim.systems = .builtins
  linked : Scheduler.Linked p.sim.scheduler

variable {p q : Point} {c : Cause}

theorem Regular.next (h : p.Regular) (hn : Next c p q) : q.Regular := by
  cases hn with
  | attach ha =>
    obtain ⟨⟨id, s⟩, hs, ha⟩ := of_bind_ok ha
    cases ha
    exact ⟨h.systems, h.linked.change (Scheduler.attach_change hs)⟩
  | detach id => exact ⟨h.systems, h.linked.change (Scheduler.detach_change _ id)⟩
  | change w => exact ⟨h.systems, h.linked⟩
  | enter => exact ⟨h.systems, h.linked⟩
  | turn => exact ⟨h.systems, h.linked⟩
  | @step m ids task tasks next s w hs =>
    have hc := Scheduler.step_change h.linked (m.environment m.clock) m.world task
    rw [hs] at hc
    exact ⟨h.systems, h.linked.change hc⟩
  | entities => exact ⟨h.systems, h.linked⟩

theorem Regular.leads (h : p.Regular) (hl : p.Leads q) : q.Regular := by
  induction hl with
  | refl => exact h
  | tail _ hn ih =>
    obtain ⟨c, hn⟩ := hn
    exact ih.next hn

theorem regular_of_create {w : World} {source : ScriptSource} {limits : Limits} {m : Simulation}
    (h : create w source limits = .ok m) : Regular ⟨m, .rest⟩ := by
  obtain ⟨functions, -, h⟩ := of_bind_ok h
  cases h
  exact ⟨rfl, Scheduler.linked_empty⟩

/-- What scripts do opens no gate. -/
theorem Next.spares (h : p.Regular) (hn : Next .scripts p q) :
    p.sim.world.Spares q.sim.world := by
  cases hn with
  | attach ha =>
    obtain ⟨x, -, ha⟩ := of_bind_ok ha
    cases ha
    exact .of_eq rfl
  | detach id => exact .of_eq rfl
  | enter => exact .of_eq rfl
  | turn => exact .of_eq rfl
  | @step m ids task tasks next s w hs =>
    have henv : (m.environment m.clock).systems = .builtins := h.systems
    have hsp := Scheduler.step_spares henv h.linked m.world task
    rwa [hs] at hsp

theorem LeadsClosed.closed {id : EntityId} (h : p.Regular) (hp : p.Closed id)
    (hl : LeadsClosed id p q) : q.Regular ∧ q.Closed id := by
  induction hl with
  | refl => exact ⟨h, hp⟩
  | tail _ hn ih =>
    obtain ⟨c, hn, hc⟩ := hn
    obtain ⟨hr, hcl⟩ := ih
    refine ⟨hr.next hn, ?_⟩
    rcases hc with rfl | hc
    · obtain ⟨g, hg, ho⟩ := closed_iff.1 hcl
      exact closed_iff.2 ⟨g, (hn.spares hr).closed hg ho, ho⟩
    · exact hc

/-- Before each line its entity can act. -/
theorem Starts.open {f : Fiber} {l : Loop} (h : p.Regular) (hs : p.Starts f l) :
    l.fiber.entity = f.entity ∧
      ∃ e, l.world.entity? f.entity = some e ∧ e.cooldown = 0 ∧ e.commands = [] := by
  obtain ⟨ids, task, tasks, n, -, -, hg⟩ := hs
  have henv : (p.sim.environment p.sim.clock).systems = .builtins := h.systems
  exact Fiber.gate_of_going henv hg

theorem Closed.not_starts {f : Fiber} {l : Loop} (h : p.Closed f.entity) : ¬ p.Starts f l := by
  rintro ⟨ids, task, tasks, n, -, -, hg⟩
  obtain ⟨e, he, hc⟩ := h
  have hact : e.canAct = false := by
    rcases hc with hc | hc
    · simp [Entity.canAct, hc]
    · simp [Entity.canAct, hc]
  rw [Fiber.byLines_refused (.inr ⟨e, he, .inl hact⟩)] at hg
  cases hg

/-- The work of a tick goes from point to point. -/
theorem leads_of_atWork {m : Simulation} {s s₀ : Scheduler} {w w₀ : World} {ids : List FiberId}
    {tasks : List Task} (h : Scheduler.AtWork (m.environment m.clock) s₀ w₀ ids tasks s w) :
    Leads ⟨{ m with scheduler := s₀, world := w₀ }, .work s₀.fibers.keys []⟩
      ⟨{ m with scheduler := s, world := w }, .work ids tasks⟩ := by
  induction h with
  | enter => exact .refl
  | next _ ih => exact ih.tail ⟨_, .turn⟩
  | step _ ih => exact ih.tail ⟨_, .step rfl⟩

theorem leads_of_tick {m m' : Simulation} {steps : Nat} (h : m.tick steps = some m') :
    Leads ⟨m, .rest⟩ ⟨m', .rest⟩ := by
  obtain ⟨⟨s, w⟩, ht, h⟩ := Option.bind_eq_some_iff.1 h
  cases h
  let m₁ : Simulation :=
    { m with clock := m.clock + 1, world := { m.world with tick := m.clock + 1 } }
  have hw : Scheduler.AtWork (m₁.environment m₁.clock) m₁.scheduler m₁.world [] [] s w :=
    .of_tick ht
  exact (Relation.ReflTransGen.single ⟨_, .enter⟩).trans
    ((leads_of_atWork hw).tail ⟨_, .entities⟩)

/-- In every run of a simulation with the built-in functions, each line of a script starts while its
entity is there and can act. Once an entity cannot act, no line of any script on it starts until it
can act again, which takes a turn of the entities or somebody from outside. -/
theorem scripts_wait_at_gate {w : World} {source : ScriptSource} {limits : Limits} {m : Simulation}
    (hm : create w source limits = .ok m) {p : Point} (hp : Leads ⟨m, .rest⟩ p) :
    (∀ {f : Fiber} {l : Loop}, p.Starts f l → l.fiber.entity = f.entity ∧
      ∃ e, l.world.entity? f.entity = some e ∧ e.cooldown = 0 ∧ e.commands = []) ∧
    (∀ {id : EntityId}, p.Closed id → ∀ {q : Point}, LeadsClosed id p q →
      q.Closed id ∧ ∀ {f : Fiber} {l : Loop}, f.entity = id → ¬ q.Starts f l) ∧
    ∀ {steps : Nat} {m' : Simulation}, p.phase = .rest → p.sim.tick steps = some m' →
      p.Leads ⟨m', .rest⟩ := by
  have hr : p.Regular := (regular_of_create hm).leads hp
  refine ⟨fun hs => hs.open hr, ?_, ?_⟩
  · intro id hc q hl
    have hq : q.Closed id := (hl.closed hr hc).2
    refine ⟨hq, ?_⟩
    rintro f l rfl
    exact hq.not_starts
  · intro steps m' hrest ht
    obtain ⟨m₁, phase⟩ := p
    obtain rfl : phase = .rest := hrest
    exact leads_of_tick ht

section Example

/-- One entity and no functions but the built-in ones. -/
def stroll : Simulation where
  world := keyWorld
  source := { list := fun _ => .ok [], load? := fun _ _ => none }
  functions := ⟨[]⟩
  typeFunctions := {}

/-- The simulation with a script that steps up. -/
def strollAttached : Simulation :=
  { stroll with
    scheduler := { fibers := {(0, Fiber.start 0 ⟨0⟩ 0 "up()")}, nextId := 1 } }

/-- There is another script on the same entity. -/
def strollShared : Simulation :=
  { stroll with
    scheduler := {
      fibers := strollAttached.scheduler.fibers.insert 1 (Fiber.start 1 ⟨0⟩ 0 "log(1)")
      nextId := 2 } }

def strollEntered : Simulation :=
  { strollShared with clock := 1, world := { keyWorld with tick := 1 } }

/-- The step that the first script makes. -/
def strollStep : Scheduler × World × List Task :=
  strollEntered.scheduler.step (strollEntered.environment 1) strollEntered.world ⟨0, false⟩

def strollQueued : Simulation :=
  { strollEntered with scheduler := strollStep.1, world := strollStep.2.1 }

/-- The other script has its turn while a command is queued, and starts no line. -/
theorem scripts_wait_at_gate_queued :
    Closed ⟨0⟩ ⟨strollQueued, .work [] [⟨1, false⟩]⟩ ∧
    strollQueued.scheduler.fibers[1]? = some (Fiber.start 1 ⟨0⟩ 0 "log(1)") ∧
    ∀ l, ¬ Starts ⟨strollQueued, .work [] [⟨1, false⟩]⟩ (Fiber.start 1 ⟨0⟩ 0 "log(1)") l := by
  have hm : create keyWorld stroll.source {} = .ok stroll := rfl
  have ha : stroll.attachWithAuthority ⟨0⟩ "up()" 0 = .ok (0, strollAttached) := rfl
  have hs : strollAttached.attachWithAuthority ⟨0⟩ "log(1)" 0 = .ok (1, strollShared) := rfl
  have hshare : Leads ⟨stroll, .rest⟩ ⟨strollShared, .rest⟩ :=
    (Relation.ReflTransGen.single ⟨_, .attach ha⟩).tail ⟨_, .attach hs⟩
  have hkeys : strollShared.scheduler.fibers.keys = [0, 1] := by decide +kernel
  have henter : Leads ⟨stroll, .rest⟩ ⟨strollEntered, .work [0, 1] []⟩ :=
    hkeys ▸ hshare.tail ⟨_, .enter⟩
  have htasks : strollStep.2.2 = [] := by decide +kernel
  have hstep : strollEntered.scheduler.step (strollEntered.environment 1) strollEntered.world
      ⟨0, false⟩ = (strollStep.1, strollStep.2.1, []) := htasks ▸ rfl
  have hqueue : Leads ⟨stroll, .rest⟩ ⟨strollQueued, .work [1] []⟩ :=
    (henter.tail ⟨_, .turn⟩).tail ⟨_, .step hstep⟩
  have hp : Leads ⟨stroll, .rest⟩ ⟨strollQueued, .work [] [⟨1, false⟩]⟩ := hqueue.tail ⟨_, .turn⟩
  have hclosed : Closed ⟨0⟩ ⟨strollQueued, .work [] [⟨1, false⟩]⟩ := by
    have hx : (strollStep.2.1.entity? ⟨0⟩).map (·.commands) = some [.move .up] := by
      decide +kernel
    obtain ⟨e, he, hq⟩ := Option.map_eq_some_iff.1 hx
    exact ⟨e, he, .inr (by simp [hq])⟩
  refine ⟨hclosed, by decide +kernel, fun l => ?_⟩
  exact ((scripts_wait_at_gate hm hp).2.1 hclosed .refl).2 rfl

end Example

end Point

end Simulation

end TileScript
