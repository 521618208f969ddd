import TileScript.Proofs.Budget
import TileScript.Proofs.CheckedBlocks
import TileScript.Proofs.Exclusion

/-! # Failures cascade

A fiber that fails hands its error to the fiber that waits for it. That one is activated at once,
and fails with the same error before it evaluates a line. So a failure goes up a chain of callers,
one step of work for each of them, as far as their entities can act. A caller whose entity cannot
act keeps the error, and fails with it when it is activated again.
-/

namespace TileScript

open World

/-- Whether an event tells of a script that has failed. -/
def EventKind.isFailure : EventKind → Bool
  | .scriptFailed _ _ => true
  | _ => false

namespace World

/-- The entity is there and can act. -/
def MayAct (w : World) (id : EntityId) : Prop := ∃ e, w.entity? id = some e ∧ e.canAct = true

theorem mayAct_iff {w : World} {id : EntityId} :
    w.MayAct id ↔ ∃ g, w.gate? id = some g ∧ g.isOpen = true := by
  constructor
  · rintro ⟨e, he, hc⟩
    exact ⟨e.gate, by rw [gate?, he]; rfl, hc⟩
  · rintro ⟨g, hg, ho⟩
    obtain ⟨e, he, rfl⟩ := Option.map_eq_some_iff.1 hg
    exact ⟨e, he, ho⟩

end World

namespace Fiber

variable {f : Fiber} {e : ScriptError}

/-- The line that an error is reported on which a called function has handed over. -/
def waitingLine (f : Fiber) : Option Nat := f.pending.map fun _ => f.cursor.line + 1

/-- The end of a fiber is reported on its own entity. -/
theorem activate_entity (hf : f.Sound) (env : Environment) (forced : Bool) (w : World) :
    (f.activate env forced w).2.1.entity = f.entity ∧
      ∀ t, (f.activate env forced w).1 = .terminated t → t.entity = f.entity := by
  have ha := activate_admission hf env forced w
  generalize f.activate env forced w = r at ha
  cases ha with
  | refused _ => exact ⟨rfl, by simp⟩
  | orphaned _ _ =>
    have hs := terminate_stamped f (.failed (.nullReference f.entity.reference)) none w
    exact ⟨hs.entity, hs.ending⟩
  | admitted _ _ _ =>
    have hs := resume_stamped env
      { f with lastTick := some env.tick, state := .running, awaiting := none } w
    exact ⟨hs.entity, hs.ending⟩

/-- If it may run, it fails with the error, or for want of its entity. -/
theorem activate_failed (hf : f.Sound) (hr : f.received = some (.failed e)) {env : Environment}
    {forced : Bool} {w : World} (hn : ¬ f.Refused env forced w) :
    (f.activate env forced w).1 = .terminated
      (if (w.entity? f.entity).isSome then f.termination (.failed e) f.waitingLine
      else f.termination (.failed (.nullReference f.entity.reference))) ∧
    (f.activate env forced w).2.2 = w := by
  have ha := activate_admission hf env forced w
  generalize f.activate env forced w = r at ha
  cases ha with
  | refused h => exact absurd h hn
  | orphaned _ hw =>
    rw [hw]
    exact ⟨rfl, rfl⟩
  | admitted _ hw _ =>
    rw [hw, resume]
    simp only [hr]
    unfold waitingLine
    cases f.pending <;> exact ⟨rfl, rfl⟩

end Fiber

namespace Scheduler

open TileScript.Fiber

variable {env : Environment} {s s' : Scheduler} {w w' w₁ : World} {task : Task} {tasks : List Task}
  {f g : Fiber} {gs : List Fiber} {e : ScriptError} {line : Option Nat}

section Work

/-- The tasks, the scheduler and the world after some steps of work. -/
def after (env : Environment) : Nat → List Task → Scheduler → World →
    List Task × Scheduler × World
  | 0, tasks, s, w => (tasks, s, w)
  | _ + 1, [], s, w => ([], s, w)
  | n + 1, task :: tasks, s, w =>
    after env n ((s.step env w task).2.2 ++ tasks) (s.step env w task).1 (s.step env w task).2.1

/-- A run comes to its end when no tasks are left. -/
theorem run_eq_some_iff {n : Nat} :
    run env n tasks s w = some (s', w') ↔ after env n tasks s w = ([], s', w') := by
  fun_induction run env n tasks s w with
  | case1 n s w => cases n <;> simp [after]
  | case2 => simp [after]
  | case3 n task tasks s w s₁ w₁ next hs ih =>
    rw [ih, after, hs]

theorem after_add (n m : Nat) : after env (n + m) tasks s w =
    after env m (after env n tasks s w).1 (after env n tasks s w).2.1
      (after env n tasks s w).2.2 := by
  induction n generalizing tasks s w with
  | zero => rw [Nat.zero_add, after]
  | succ n ih =>
    rw [Nat.succ_add]
    cases tasks with
    | nil => cases m <;> simp [after]
    | cons task tasks => rw [after, after, ih]

end Work

section Failure

/-- A fiber fails in a step: it ends with an error, or a call that it makes is refused. The line is
the one that is reported, and the world the one behind the activation. -/
inductive Fails (env : Environment) (s : Scheduler) (w : World) (task : Task) (f : Fiber)
    (e : ScriptError) : Option Nat → World → Prop where

  | raised {t : Termination} {g : Fiber} {w₁ : World} :
      f.activate env task.forced w = (.terminated t, g, w₁) → t.ending = .failed e →
      Fails env s w task f e t.line w₁

  | refused {q : CallRequest} {g : Fiber} {w₁ : World} :
      f.activate env task.forced w = (.called q, g, w₁) →
      spawn env { s with fibers := s.fibers.erase task.fiber } g q = .error e →
      Fails env s w task f e none w₁

theorem finish_failed (s : Scheduler) (w : World) {t : Termination} (he : t.ending = .failed e) :
    finish { s with fibers := s.fibers.erase t.fiber } w t =
      (s.retire t.fiber t.parent (.failed e), reportFailure w t.entity (failureMessage t.line e),
        { s with fibers := s.fibers.erase t.fiber }.resumes t.fiber t.parent) := by
  rw [← finish_tasks _ w]
  unfold finish retire
  cases t.parent <;> rw [he]

theorem Fails.step (hl : Linked s) (hf : s.fibers[task.fiber]? = some f)
    (h : Fails env s w task f e line w₁) :
    s.step env w task = (s.retire task.fiber f.parent (.failed e),
      reportFailure w₁ f.entity (failureMessage line e), s.resumes task.fiber f.parent) := by
  have hpl := hl.placed hf
  have ha := activate_activated hpl.toSound env task.forced w
  have hent := activate_entity hpl.toSound env task.forced w
  have hfin {t : Termination} (ht : t.fiber = f.id) (hp : t.parent = f.parent)
      (hte : t.entity = f.entity) (he : t.ending = .failed e) :
      finish { s with fibers := s.fibers.erase task.fiber } w₁ t =
        (s.retire task.fiber f.parent (.failed e),
          reportFailure w₁ f.entity (failureMessage t.line e), s.resumes task.fiber f.parent) := by
    obtain hid : t.fiber = task.fiber := ht.trans hpl.id_eq
    rw [← hid, finish_failed s w₁ he, hp, hte, hid, hl.resumes_erase hf]
  unfold Scheduler.step
  rw [hf]
  dsimp only
  cases h with
  | raised hx he =>
    rw [hx] at ha hent ⊢
    cases ha with
    | terminated _ ht hp => exact hfin ht hp (hent.2 _ rfl) he
  | @refused q g _ hx hs =>
    rw [hx] at ha hent ⊢
    cases ha with
    | called _ hid hp _ =>
      dsimp only
      rw [hs]
      exact hfin (t := g.termination (.failed e)) hid hp hent.1 rfl

end Failure

section Chain

/-- A chain of fibers, each the caller of the one before it, and waiting for it. -/
inductive Awaited (s : Scheduler) : Fiber → List Fiber → Prop where

  | nil (f : Fiber) : Awaited s f []

  | cons {f g : Fiber} {gs : List Fiber} : f.parent = some g.id → s.fibers[g.id]? = some g →
      g.awaiting = some f.id → Awaited s g gs → Awaited s f (g :: gs)

/-- Callers have smaller numbers. -/
theorem Awaited.lt (hl : Linked s) (hf : s.fibers[f.id]? = some f) (h : Awaited s f gs) :
    ∀ g ∈ gs, g.id < f.id := by
  induction h with
  | nil => simp
  | cons hp hg _ _ ih =>
    intro x hx
    have hlt := (hl.placed hf).parent_lt hp
    rcases List.mem_cons.1 hx with rfl | hx
    · exact hlt
    · exact Nat.lt_trans (ih hg x hx) hlt

theorem Awaited.lt_of_append {gs₂ : List Fiber} (hl : Linked s) (hf : s.fibers[f.id]? = some f)
    (h : Awaited s f (gs ++ g :: gs₂)) : ∀ x ∈ f :: gs, g.id < x.id := by
  induction gs generalizing f with
  | nil =>
    intro x hx
    obtain rfl := List.mem_singleton.1 hx
    exact h.lt hl hf g List.mem_cons_self
  | cons y gs ih =>
    intro x hx
    rcases List.mem_cons.1 hx with rfl | hx
    · exact h.lt hl hf g (by simp)
    · cases h with
      | cons _ hy _ hc => exact ih hy hc x hx

theorem Awaited.live (h : Awaited s f gs) : ∀ g ∈ gs, s.fibers[g.id]? = some g := by
  induction h with
  | nil => simp
  | cons _ hg _ _ ih =>
    intro x hx
    rcases List.mem_cons.1 hx with rfl | hx
    · exact hg
    · exact ih x hx

theorem Awaited.waits (h : Awaited s f gs) : ∀ g ∈ gs, ∃ c, g.awaiting = some c := by
  induction h with
  | nil => simp
  | cons _ _ ha _ ih =>
    intro x hx
    rcases List.mem_cons.1 hx with rfl | hx
    · exact ⟨_, ha⟩
    · exact ih x hx

theorem Awaited.congr (h : Awaited s f gs) {f' : Fiber} (hid : f'.id = f.id)
    (hp : f'.parent = f.parent) (hs : ∀ g ∈ gs, s'.fibers[g.id]? = s.fibers[g.id]?) :
    Awaited s' f' gs := by
  induction h generalizing f' with
  | nil => exact .nil f'
  | @cons f g gs hfp hg ha _ ih =>
    refine .cons (hp.trans hfp) ((hs g List.mem_cons_self).trans hg) (hid ▸ ha) ?_
    exact ih rfl rfl fun x hx => hs x (List.mem_cons_of_mem g hx)

/-- The rest of a chain, when its first fiber has ended. -/
theorem Awaited.retire (hl : Linked s) (hf : s.fibers[f.id]? = some f)
    (h : Awaited s f (g :: gs)) (r : ChildResult) :
    (s.retire f.id f.parent r).fibers[g.id]? = some (g.deliver r) ∧
      Awaited (s.retire f.id f.parent r) (g.deliver r) gs := by
  cases h with
  | cons hp hg ha hc =>
    have hlt : g.id < f.id := (hl.placed hf).parent_lt hp
    constructor
    · rw [getElem?_retire, if_neg (Nat.ne_of_gt hlt), hg]
      simp [hp, ha]
    · refine hc.congr rfl rfl fun x hx => ?_
      have hx : x.id < g.id := hc.lt hl hg x hx
      rw [getElem?_retire, if_neg (Nat.ne_of_gt (Nat.lt_trans hx hlt)), if_neg]
      rintro ⟨hxp, -⟩
      exact Nat.ne_of_gt hx (Option.some.inj (hp.symm.trans hxp))

/-- The fiber at the end of a chain. -/
theorem Awaited.last (hl : Linked s) (hf : s.fibers[f.id]? = some f) (h : Awaited s f gs) :
    s.fibers[(gs.getLastD f).id]? = some (gs.getLastD f) ∧ (gs.getLastD f).id ≤ f.id := by
  cases hgs : gs.getLast? with
  | none =>
    obtain rfl := List.getLast?_eq_none_iff.1 hgs
    exact ⟨hf, Nat.le_refl _⟩
  | some g =>
    have hmem : g ∈ gs := List.mem_of_getLast? hgs
    rw [List.getLastD_eq_getLast?, hgs]
    exact ⟨h.live g hmem, Nat.le_of_lt (h.lt hl hf g hmem)⟩

theorem Awaited.append {gs₁ gs₂ : List Fiber} (h : Awaited s f (gs₁ ++ gs₂)) :
    Awaited s f gs₁ ∧ Awaited s (gs₁.getLastD f) gs₂ := by
  induction gs₁ generalizing f with
  | nil => exact ⟨.nil f, h⟩
  | cons g gs₁ ih =>
    cases h with
    | cons hp hg ha hc =>
      obtain ⟨h₁, h₂⟩ := ih hc
      rw [List.getLastD_cons]
      exact ⟨.cons hp hg ha h₁, h₂⟩

/-- The caller that waits for a fiber goes on when it ends. -/
theorem Awaited.resumes (h : Awaited s f (g :: gs)) :
    s.resumes f.id f.parent = [⟨g.id, true⟩] := by
  cases h with
  | cons hp hg ha _ => simp [Scheduler.resumes, hp, hg, ha]

/-- What is left when `f` and the callers `gs` of it have failed: they are gone, the caller of the
last one has the error if it waits for it, all others are as they were, and nobody is new. -/
structure Collapsed (s : Scheduler) (e : ScriptError) (f : Fiber) (gs : List Fiber)
    (s' : Scheduler) : Prop where
  nextId : s'.nextId = s.nextId
  removed : ∀ g ∈ f :: gs, s'.fibers[g.id]? = none
  others {a : FiberId} : (∀ g ∈ f :: gs, g.id ≠ a) → s'.fibers[a]? =
    if (gs.getLastD f).parent = some a ∧
        s.fibers[a]?.bind (·.awaiting) = some (gs.getLastD f).id then
      s.fibers[a]?.map (·.deliver (.failed e))
    else s.fibers[a]?

theorem collapsed_singleton (s : Scheduler) (e : ScriptError) (f : Fiber) :
    Collapsed s e f [] (s.retire f.id f.parent (.failed e)) where
  nextId := nextId_retire ..
  removed g hg := by
    obtain rfl := List.mem_singleton.1 hg
    simp [getElem?_retire]
  others {a} ha := by
    rw [getElem?_retire, if_neg (ha f List.mem_cons_self)]
    rfl

/-- A result does not change whose fiber it is. -/
theorem getLastD_deliver (g : Fiber) (r : ChildResult) (gs : List Fiber) :
    (gs.getLastD (g.deliver r)).parent = (gs.getLastD g).parent ∧
      (gs.getLastD (g.deliver r)).id = (gs.getLastD g).id := by
  cases gs with
  | nil => exact ⟨rfl, rfl⟩
  | cons x gs =>
    rw [List.getLastD_cons, List.getLastD_cons]
    exact ⟨rfl, rfl⟩

theorem Collapsed.cons (hl : Linked s) (hf : s.fibers[f.id]? = some f)
    (hc : Awaited s f (g :: gs))
    (h : Collapsed (s.retire f.id f.parent (.failed e)) e (g.deliver (.failed e)) gs s') :
    Collapsed s e f (g :: gs) s' := by
  have hlt := hc.lt hl hf
  have hp : f.parent = some g.id := by
    cases hc with
    | cons hp _ _ _ => exact hp
  obtain ⟨hlast, hlastId⟩ := getLastD_deliver g (.failed e) gs
  constructor
  · exact h.nextId.trans (nextId_retire ..)
  · intro x hx
    rcases List.mem_cons.1 hx with rfl | hx
    · rw [h.others]
      · simp [getElem?_retire]
      · intro y hy
        rcases List.mem_cons.1 hy with rfl | hy
        · exact Nat.ne_of_lt (hlt g List.mem_cons_self)
        · exact Nat.ne_of_lt (hlt y (List.mem_cons_of_mem g hy))
    · rcases List.mem_cons.1 hx with rfl | hx
      · exact h.removed (x.deliver (.failed e)) List.mem_cons_self
      · exact h.removed x (List.mem_cons_of_mem _ hx)
  · intro a ha
    have hs : (s.retire f.id f.parent (.failed e)).fibers[a]? = s.fibers[a]? := by
      rw [getElem?_retire, if_neg (ha f List.mem_cons_self), if_neg]
      rintro ⟨hpa, -⟩
      exact ha g (by simp) (Option.some.inj (hp.symm.trans hpa))
    rw [h.others, hs, hlast, hlastId, List.getLastD_cons]
    intro y hy
    rcases List.mem_cons.1 hy with rfl | hy
    · exact ha g (by simp)
    · exact ha y (by simp [hy])

/-- The caller of the last fiber that failed has the error. -/
theorem Collapsed.told {gs₂ : List Fiber} (hl : Linked s) (hf : s.fibers[f.id]? = some f)
    (hc : Awaited s f (gs ++ g :: gs₂)) (h : Collapsed s e f gs s') :
    s'.fibers[g.id]? = some (g.deliver (.failed e)) := by
  have hlt := hc.lt_of_append hl hf
  cases hc.append.2 with
  | cons hp hg ha _ =>
    rw [h.others fun x hx => Nat.ne_of_gt (hlt x hx), hg, if_pos ⟨hp, ha⟩]
    rfl

end Chain

section Reports

/-- What is reported when `f` has failed on a line, and its callers after it. -/
def reports (e : ScriptError) (f : Fiber) (line : Option Nat) (gs : List Fiber) :
    List (EntityId × String) :=
  (f.entity, failureMessage line e) ::
    gs.map fun g => (g.entity, failureMessage g.waitingLine e)

/-- The world behind some reports. -/
def reportAll (w : World) (l : List (EntityId × String)) : World :=
  l.foldl (fun w x => reportFailure w x.1 x.2) w

theorem reportFailure_emits (w : World) (id : EntityId) (message : String) :
    ∃ kinds, w.Emits (reportFailure w id message) kinds ∧
      kinds.filter (·.isFailure) = [.scriptFailed id message] := by
  unfold reportFailure
  dsimp only
  split
  · next w' hw =>
    obtain ⟨e, -, rfl⟩ := appendLog_ok hw
    exact ⟨[.logged id message, .scriptFailed id message], ⟨rfl, rfl⟩, rfl⟩
  · exact ⟨[.scriptFailed id message], ⟨rfl, rfl⟩, rfl⟩

/-- One event for each report, in order. -/
theorem reportAll_emits (w : World) (l : List (EntityId × String)) :
    ∃ kinds, w.Emits (reportAll w l) kinds ∧
      kinds.filter (·.isFailure) = l.map fun x => .scriptFailed x.1 x.2 := by
  induction l generalizing w with
  | nil => exact ⟨[], ⟨rfl, rfl⟩, rfl⟩
  | cons x l ih =>
    obtain ⟨ks, hks, hf⟩ := reportFailure_emits w x.1 x.2
    obtain ⟨ks', hks', hf'⟩ := ih (reportFailure w x.1 x.2)
    refine ⟨ks ++ ks', hks.trans hks', ?_⟩
    rw [List.filter_append, hf, hf']
    rfl

theorem reportAll_gate? (w : World) (l : List (EntityId × String)) :
    (reportAll w l).gate? = w.gate? := by
  induction l generalizing w with
  | nil => rfl
  | cons x l ih => exact (ih _).trans (reportFailure_gate? w x.1 x.2)

end Reports

section Cascade

/-- A caller that has been handed an error fails when it is activated, if its entity can act. -/
theorem fails_of_handed (env : Environment) (hl : Linked s) (hf : s.fibers[f.id]? = some f)
    (he : f.enabled = true) (hr : f.received = some (.failed e)) (hact : w.MayAct f.entity) :
    Fails env s w ⟨f.id, true⟩ f e f.waitingLine w := by
  obtain ⟨x, hx, hc⟩ := hact
  have hn : ¬ f.Refused env true w := by
    rintro (hd | ⟨y, hy, hd | ⟨hd, -⟩⟩)
    · simp [he] at hd
    · obtain rfl := Option.some.inj (hx.symm.trans hy)
      simp [hc] at hd
    · cases hd
  obtain ⟨ho, hw⟩ := activate_failed (hl.placed hf).toSound hr hn
  rw [hx] at ho
  have hax : f.activate env true w = (.terminated (f.termination (.failed e) f.waitingLine),
      (f.activate env true w).2.1, w) := Prod.ext ho (Prod.ext rfl hw)
  exact Fails.raised (t := f.termination (.failed e) f.waitingLine) hax rfl

theorem resumes_retire {id a : FiberId} {parent p : Option FiberId} {r : ChildResult}
    (h : ∀ q, parent = some q → q ≠ id) :
    (s.retire id p r).resumes a parent = s.resumes a parent := by
  cases parent with
  | none => rfl
  | some q =>
    have hq : ((s.retire id p r).fibers[q]?.bind (·.awaiting)) =
        s.fibers[q]?.bind (·.awaiting) := by
      rw [getElem?_retire, if_neg (Ne.symm (h q rfl))]
      split
      · cases s.fibers[q]? <;> rfl
      · rfl
    simp only [resumes, hq]

/-- One step for each fiber of a chain, as long as their entities can act. The induction is on the
callers: the first step makes the first of them fail in the next one. -/
theorem Fails.cascade (hl : Linked s) (hf : s.fibers[task.fiber]? = some f)
    (hx : Fails env s w task f e line w₁) (hc : Awaited s f gs)
    (hact : ∀ g ∈ gs, w₁.MayAct g.entity) :
    ∃ s', after env (gs.length + 1) [task] s w =
        (s.resumes (gs.getLastD f).id (gs.getLastD f).parent, s',
          reportAll w₁ (reports e f line gs)) ∧
      Linked s' ∧ Collapsed s e f gs s' := by
  induction gs generalizing s w task f line w₁ with
  | nil =>
    have hid : f.id = task.fiber := (hl.placed hf).id_eq
    rw [← hid] at hf
    refine ⟨s.retire f.id f.parent (.failed e), ?_, hl.retire _ hf, collapsed_singleton s e f⟩
    rw [hid] at hf
    rw [List.length_nil, Nat.zero_add, after, after, hx.step hl hf, List.append_nil, ← hid]
    rfl
  | cons g gs ih =>
    have hid : f.id = task.fiber := (hl.placed hf).id_eq
    have hstep := hx.step hl hf
    rw [← hid] at hf hstep
    obtain ⟨hg, hrest⟩ := hc.retire hl hf (.failed e)
    have hl₁ : Linked (s.retire f.id f.parent (.failed e)) := hl.retire _ hf
    have hgate : (reportFailure w₁ f.entity (failureMessage line e)).gate? = w₁.gate? :=
      reportFailure_gate? ..
    have hact₁ (x : Fiber) (hx : x ∈ g :: gs) :
        (reportFailure w₁ f.entity (failureMessage line e)).MayAct x.entity := by
      rw [mayAct_iff, hgate, ← mayAct_iff]
      exact hact x hx
    have hnext := fails_of_handed env (f := g.deliver (.failed e)) hl₁ hg rfl rfl
      (hact₁ g List.mem_cons_self)
    obtain ⟨s', hafter, hl', hcol⟩ := ih hl₁ hg hnext hrest fun x hx =>
      hact₁ x (List.mem_cons_of_mem g hx)
    refine ⟨s', ?_, hl', hcol.cons hl hf hc⟩
    -- the last fiber is above `f`, so its caller is not the one that has gone
    have hlast : ∀ q, (gs.getLastD (g.deliver (.failed e))).parent = some q → q ≠ f.id := by
      intro q hq
      obtain ⟨hlive, hle⟩ := hrest.last hl₁ hg
      have hlt : q < g.id := Nat.lt_of_lt_of_le ((hl₁.placed hlive).parent_lt hq) hle
      exact Nat.ne_of_lt (Nat.lt_trans hlt (hc.lt hl hf g List.mem_cons_self))
    obtain ⟨hp, hlastId⟩ := getLastD_deliver g (.failed e) gs
    rw [resumes_retire hlast, hp, hlastId] at hafter
    rw [List.length_cons, after, hstep, List.append_nil, hc.resumes, List.getLastD_cons]
    exact hafter

theorem moves_after (env : Environment) (n : Nat) (tasks : List Task) (s : Scheduler) (w : World) :
    Relation.ReflTransGen Move s (after env n tasks s w).2.1 := by
  induction n generalizing tasks s w with
  | zero => exact .refl
  | succ n ih =>
    cases tasks with
    | nil => exact .refl
    | cons task tasks => exact .head (.step env w task) (ih _ _ _)

/-- A fiber that has been handed an error keeps it until it is gone. -/
theorem Move.held (hl : Linked s) (hm : Move s s') (hf : s.fibers[f.id]? = some f)
    (hr : f.received = some (.failed e)) :
    s'.fibers[f.id]? = some f ∨ s'.fibers[f.id]? = none := by
  have hpl := hl.placed hf
  -- the end of another fiber is nothing to a fiber that waits for nobody any more
  have hend (id : FiberId) (parent : Option FiberId) (r : ChildResult)
      (hlive : (s.fibers[id]?).isSome) : (s.retire id parent r).fibers[f.id]? = some f ∨
        (s.retire id parent r).fibers[f.id]? = none := by
    rw [getElem?_retire]
    split
    · exact .inr rfl
    · rw [if_neg]
      · exact .inl hf
      · rw [hf]
        rintro ⟨-, ha⟩
        have he : f.enabled = true := (hpl.bound id ha).2 (by simp [hr])
        simp [hl.answered hf ha he] at hlive
  -- and its own activation leaves it as it is, or ends it
  have hown {env : Environment} {forced : Bool} {w w' : World} {o : Outcome} {g : Fiber}
      (hx : f.activate env forced w = (o, g, w')) :
      g = f ∧ o = .skipped ∨ ∃ t, o = .terminated t := by
    by_cases hn : f.Refused env forced w
    · rw [activate_refused hn] at hx
      cases hx
      exact .inl ⟨rfl, rfl⟩
    · have ho := (activate_failed hpl.toSound hr hn).1
      rw [hx] at ho
      exact .inr ⟨_, ho⟩
  cases hm with
  | attach ha =>
    unfold Scheduler.attach at ha
    split_ifs at ha
    cases ha
    exact .inl (by simpa [Nat.ne_of_gt hpl.id_lt] using hf)
  | detach id =>
    cases hk : s.fibers[id]? with
    | none => exact .inl (by simpa [Scheduler.detach, hk] using hf)
    | some k =>
      rw [detach_eq_retire hk]
      exact hend id _ _ (by simp [hk])
  | step env w task =>
    have hst := step_stepped hl env w task
    generalize (s.step env w task).1 = s₁, (s.step env w task).2.2 = ts at hst
    cases hst with
    | gone _ => exact .inl hf
    | @rest k g o w' hk hx ho =>
      by_cases hid : task.fiber = f.id
      · rw [hid] at hk
        obtain rfl := Option.some.inj (hf.symm.trans hk)
        rcases hown hx with ⟨rfl, -⟩ | ⟨t, rfl⟩
        · exact .inl (by simp [hid])
        · simp at ho
      · exact .inl (by simpa [hid] using hf)
    | @call k g child q w' hk hx hc =>
      by_cases hid : task.fiber = f.id
      · rw [hid] at hk
        obtain rfl := Option.some.inj (hf.symm.trans hk)
        rcases hown hx with ⟨-, ho⟩ | ⟨t, ho⟩
        · cases ho
        · cases ho
      · exact .inl (by simpa [hid, Nat.ne_of_gt hpl.id_lt] using hf)
    | retire r hk _ => exact hend task.fiber _ r (by simp [hk])

/-- What is left when `f` and the callers `gs` of it have failed, the first of them with the world
`w₁` behind its activation: they are gone, and each failure has been reported once, on the entity of
its fiber. -/
structure Fallen (s : Scheduler) (w₁ : World) (e : ScriptError) (f : Fiber) (line : Option Nat)
    (gs : List Fiber) (s' : Scheduler) (w' : World) : Prop extends Collapsed s e f gs s' where
  reported : ∃ kinds, w₁.Emits w' kinds ∧
    kinds.filter (·.isFailure) = (reports e f line gs).map fun x => .scriptFailed x.1 x.2

theorem Fails.fallen (hl : Linked s) (hf : s.fibers[task.fiber]? = some f)
    (hx : Fails env s w task f e line w₁) (hc : Awaited s f gs)
    (hact : ∀ g ∈ gs, w₁.MayAct g.entity) :
    ∃ s' w', after env (gs.length + 1) [task] s w =
        (s.resumes (gs.getLastD f).id (gs.getLastD f).parent, s', w') ∧
      Linked s' ∧ w'.gate? = w₁.gate? ∧ Fallen s w₁ e f line gs s' w' := by
  obtain ⟨s', hafter, hl', hcol⟩ := hx.cascade hl hf hc hact
  exact ⟨s', _, hafter, hl', reportAll_gate? .., ⟨hcol, reportAll_emits ..⟩⟩

theorem Fails.returns (hl : Linked s) (hf : s.fibers[task.fiber]? = some f)
    (hx : Fails env s w task f e line w₁) (hc : Awaited s f gs)
    (hact : ∀ g ∈ gs, w₁.MayAct g.entity) {steps : Nat}
    (hr : run env steps [task] s w = some (s', w')) : ∀ g ∈ f :: gs, s'.fibers[g.id]? = none := by
  have hid : f.id = task.fiber := (hl.placed hf).id_eq
  rw [run_eq_some_iff] at hr
  by_cases hle : gs.length + 1 ≤ steps
  · obtain ⟨m, rfl⟩ := Nat.exists_eq_add_of_le hle
    obtain ⟨s₁, w₂, hafter, hl₁, -, hfall⟩ := hx.fallen hl hf hc hact
    rw [after_add, hafter] at hr
    have hm : Relation.ReflTransGen Move s₁ s' := by
      have hm := moves_after env m (s.resumes (gs.getLastD f).id (gs.getLastD f).parent) s₁ w₂
      rwa [hr] at hm
    intro g hg
    have hlive : s.fibers[g.id]? = some g := by
      rcases List.mem_cons.1 hg with rfl | hg
      · rwa [hid]
      · exact hc.live g hg
    have hlt : g.id < s₁.nextId := hfall.nextId ▸ (hl.placed hlive).id_lt
    exact (dead_of_moves hl₁ hm (hfall.removed g hg) hlt).1
  · -- before that there is a task left
    exfalso
    cases steps with
    | zero => simp [after] at hr
    | succ k =>
      have hk : k < gs.length := by omega
      have hgs : gs = gs.take k ++ gs[k] :: gs.drop (k + 1) := by simp
      rw [hgs] at hc
      obtain ⟨h₁, h₂⟩ := hc.append
      obtain ⟨s₁, w₂, hafter, -⟩ := hx.fallen hl hf h₁ fun g hg => hact g (List.mem_of_mem_take hg)
      rw [h₂.resumes, List.length_take, Nat.min_eq_left (Nat.le_of_lt hk), hr] at hafter
      cases hafter

end Cascade

section Example

end Example

end Scheduler

end TileScript
