import TileScript.Proofs.CallReturn

/-! # Steps of a tick

All that a step of the work of a tick can do to a scheduler, and the tasks it leaves: nothing, a
fiber back at rest, a call that starts a child, or the end of a fiber, after which its caller goes
on if it waits for it.
-/

namespace TileScript.Scheduler

open TileScript.Fiber

variable {env : Environment} {s : Scheduler} {w : World}

/-- The child that a call of `caller` starts, while the caller itself is taken out. -/
structure Spawned (env : Environment) (s : Scheduler) (id : FiberId) (caller : Fiber)
    (r : CallRequest) (child : Fiber) : Prop where
  depth : { s with fibers := s.fibers.erase id }.chainLength caller < env.limits.maxCallDepth
  loaded : ∃ source, env.source.load? r.category r.script = some source ∧
    child = r.seeds.foldl (fun f (name, v) => f.seed name v)
      { Fiber.start s.nextId r.host r.authority source with parent := some id }

theorem Spawned.pending {id : FiberId} {caller child : Fiber} {r : CallRequest}
    (h : Spawned env s id caller r child) : child.pending = none := by
  obtain ⟨source, -, rfl⟩ := h.loaded
  have hs := start_idle s.nextId r.host r.authority source
  have hi : { Fiber.start s.nextId r.host r.authority source with parent := some id }.Idle :=
    ⟨hs.enabled, hs.valid, hs.live, hs.awaiting, hs.pending, hs.received⟩
  exact (seeded_idle hi r.seeds).1.pending

/-- The caller that goes on when the fiber `id` has ended. -/
def resumes (s : Scheduler) (id : FiberId) (parent : Option FiberId) : List Task :=
  match parent with
  | none => []
  | some p => if s.fibers[p]?.bind (·.awaiting) = some id then [⟨p, true⟩] else []

/-- What a step can come to: the scheduler behind it and the tasks it leaves. -/
inductive Stepped (env : Environment) (s : Scheduler) (w : World) (task : Task) :
    Scheduler → List Task → Prop where

  | gone : s.fibers[task.fiber]? = none → Stepped env s w task s []

  | rest {f g : Fiber} {o : Outcome} {w' : World} : s.fibers[task.fiber]? = some f →
      f.activate env task.forced w = (o, g, w') → o = .skipped ∨ o = .yielded →
      Stepped env s w task { s with fibers := s.fibers.insert task.fiber g } []

  | call {f g child : Fiber} {r : CallRequest} {w' : World} : s.fibers[task.fiber]? = some f →
      f.activate env task.forced w = (.called r, g, w') → Spawned env s task.fiber g r child →
      Stepped env s w task {
        fibers := (s.fibers.insert s.nextId child).insert task.fiber (g.await s.nextId r.resume)
        nextId := s.nextId + 1 } [⟨s.nextId, true⟩]

  | retire {f : Fiber} (r : ChildResult) : s.fibers[task.fiber]? = some f →
      (f.activate env task.forced w).1 ≠ .skipped →
      Stepped env s w task (s.retire task.fiber f.parent r) (s.resumes task.fiber f.parent)

/-- A step changes the world by an activation, and perhaps by a report of a failure behind it. -/
theorem step_world {R : World → World → Prop} {task : Task} (hrefl : ∀ w, R w w)
    (htrans : ∀ {w₁ w₂ w₃}, R w₁ w₂ → R w₂ w₃ → R w₁ w₃)
    (hact : ∀ f, s.fibers[task.fiber]? = some f → R w (f.activate env task.forced w).2.2)
    (hreport : ∀ w id message, R w (reportFailure w id message)) :
    R w (s.step env w task).2.1 := by
  have hfinish (s : Scheduler) (w : World) (t : Termination) : R w (s.finish w t).2.1 := by
    unfold finish
    cases t.ending with
    | exited v => cases t.parent <;> exact hrefl w
    | failed e => cases t.parent <;> exact hreport ..
  unfold step
  split
  · exact hrefl w
  · next f hf =>
    have ha := hact f hf
    dsimp only
    generalize f.activate env task.forced w = r at ha
    obtain ⟨o, g, w'⟩ := r
    cases o with
    | skipped | yielded => exact ha
    | called q =>
      dsimp only
      split
      · exact ha
      · exact htrans ha (hfinish ..)
    | terminated t => exact htrans ha (hfinish ..)

theorem spawned_of_spawn {id : FiberId} {caller : Fiber} {r : CallRequest} {c : FiberId}
    {s' : Scheduler} (hid : caller.id = id)
    (h : spawn env { s with fibers := s.fibers.erase id } caller r = .ok (c, s')) :
    c = s.nextId ∧ ∃ child, Spawned env s id caller r child ∧
      s' = { fibers := (s.fibers.erase id).insert s.nextId child, nextId := s.nextId + 1 } := by
  unfold spawn at h
  dsimp only at h
  split at h
  · cases h
  · next hd =>
    split at h
    · cases h
    · next source hs =>
      split at h
      · cases h
      · cases h
        exact ⟨rfl, _, ⟨Nat.lt_of_not_le hd, source, hs, by rw [hid]⟩, rfl⟩

theorem deliver_fst {p c : FiberId} {r : ChildResult} :
    (s.deliver p c r).1 = true ↔ s.fibers[p]?.bind (·.awaiting) = some c := by
  unfold deliver
  cases s.fibers[p]? with
  | none => simp
  | some f => by_cases hf : f.awaiting = some c <;> simp [hf]

theorem finish_tasks (s : Scheduler) (w : World) (t : Termination) :
    (s.finish w t).2.2 = s.resumes t.fiber t.parent := by
  unfold finish resumes
  cases t.parent with
  | none => rfl
  | some p => simp only [deliver_fst]

/-- Nobody is its own caller, so the caller is found with the fiber taken out or not. -/
theorem Linked.resumes_erase (h : Linked s) {id : FiberId} {f : Fiber}
    (hf : s.fibers[id]? = some f) :
    { s with fibers := s.fibers.erase id }.resumes id f.parent = s.resumes id f.parent := by
  unfold resumes
  cases hp : f.parent with
  | none => rfl
  | some p =>
    have hne : id ≠ p := Nat.ne_of_gt ((h.placed hf).parent_lt hp)
    simp [hne]

theorem step_stepped (h : Linked s) (env : Environment) (w : World) (task : Task) :
    Stepped env s w task (s.step env w task).1 (s.step env w task).2.2 := by
  obtain ⟨id, forced⟩ := task
  unfold step
  split
  · next hf => exact .gone hf
  · next f hf =>
    dsimp only at hf ⊢
    have hpl := h.placed hf
    have ha := activate_activated hpl.toSound env forced w
    -- the end of the fiber, whichever way it came about
    have hend (t : Termination) (w' : World) (ht : t.fiber = f.id) (htp : t.parent = f.parent)
        (ho : (f.activate env forced w).1 ≠ .skipped) :
        Stepped env s w ⟨id, forced⟩ (finish { s with fibers := s.fibers.erase id } w' t).1
          (finish { s with fibers := s.fibers.erase id } w' t).2.2 := by
      obtain rfl : t.fiber = id := ht.trans hpl.id_eq
      obtain ⟨r, hr⟩ := finish_eq_retire s w' t
      rw [hr, finish_tasks, htp, h.resumes_erase hf]
      exact .retire r hf ho
    generalize hx : f.activate env forced w = out at ha hend
    obtain ⟨o, g, w'⟩ := out
    dsimp only at ha ⊢
    cases ha with
    | skipped =>
      dsimp only
      rw [insert_erase_fiber]
      exact .rest hf hx (.inl rfl)
    | yielded =>
      dsimp only
      rw [insert_erase_fiber]
      exact .rest hf hx (.inr rfl)
    | called he hid hp hg =>
      next r =>
      dsimp only
      split
      · next c s' hs =>
        obtain ⟨rfl, child, hc, rfl⟩ := spawned_of_spawn (hid.trans hpl.id_eq) hs
        rw [insert_insert_erase_fiber]
        exact .call hf hx hc
      · next e hs => exact hend (g.termination (.failed e)) w' hid hp (by simp)
    | terminated he ht htp => exact hend _ w' ht htp (by simp)

/-- A step for a fiber that may not run does nothing. -/
theorem step_refused {task : Task} {f : Fiber} (hf : s.fibers[task.fiber]? = some f)
    (h : f.Refused env task.forced w) : s.step env w task = (s, w, []) := by
  unfold step
  rw [hf]
  dsimp only
  rw [activate_refused h]
  dsimp only
  rw [insert_erase_fiber, insert_self_fiber _ _ _ hf]

/-- A fiber that is taken away ends, too. -/
theorem detach_eq_retire {id : FiberId} {f : Fiber} (hf : s.fibers[id]? = some f) :
    (s.detach id).2 = s.retire id f.parent (.failed (.custom "Script detached")) := by
  unfold detach retire
  cases hp : f.parent with
  | none => simp [hf, hp]
  | some p => simp [hf, hp]

/-- What holds of the empty scheduler, and is kept by attaching and detaching and by every step of
the work of a tick. -/
structure Kept (P : Scheduler → Prop) : Prop where
  empty : P {}
  attach {s s' : Scheduler} {w : World} {entity : EntityId} {source : String} {authority : Int32}
    {id : FiberId} : P s → s.attach w entity source authority = .ok (id, s') → P s'
  detach {s : Scheduler} (id : FiberId) : P s → P (s.detach id).2
  step {s : Scheduler} (env : Environment) (w : World) (task : Task) : Linked s → P s →
    P (s.step env w task).1

namespace Kept

variable {P : Scheduler → Prop} {s₀ : Scheduler}

theorem atWork (hP : Kept P) {w₀ : World} {ids : List FiberId} {tasks : List Task}
    (h : AtWork env s₀ w₀ ids tasks s w) (hl : Linked s₀) (h₀ : P s₀) : P s := by
  induction h with
  | enter => exact h₀
  | next _ ih => exact ih
  | @step ids task tasks s w h ih => exact hP.step env w task (h.linked hl) ih

theorem reachable (hP : Kept P) (h : Reachable s) : P s := by
  induction h with
  | empty => exact hP.empty
  | attach _ ha ih => exact hP.attach ih ha
  | detach id _ ih => exact hP.detach id ih
  | tick h ht ih => exact hP.atWork (.of_tick ht) h.linked ih

theorem occurs (hP : Kept P) (h : Occurs s) : P s := by
  cases h with
  | between h => exact hP.reachable h
  | within h₀ h => exact hP.atWork h h₀.linked (hP.reachable h₀)

theorem moves (hP : Kept P) (h : Relation.ReflTransGen Move {} s) : P s := by
  induction h with
  | refl => exact hP.empty
  | tail hms hm ih =>
    cases hm with
    | attach ha => exact hP.attach ih ha
    | detach id => exact hP.detach id ih
    | step env w task => exact hP.step env w task (linked_empty.moves hms) ih

end Kept

end TileScript.Scheduler
