import Mathlib.Logic.Relation
import TileScript.Proofs.Protocol

/-! # Calls return

Attaching, detaching and every step of the work of a tick make one elementary change each, so
callers and children are in step at all times: between operations and wherever the work of a tick
has got to, also in a tick that never comes to an end.
-/

namespace TileScript.Scheduler

open TileScript.Fiber

variable {s s' : Scheduler}

theorem start_idle (id : FiberId) (entity : EntityId) (authority : Int32) (source : String) :
    (Fiber.start id entity authority source).Idle :=
  ⟨rfl, rfl, by simp [Fiber.start], rfl, rfl, rfl⟩

theorem attach_change {w : World} {entity : EntityId} {source : String} {authority : Int32}
    {id : FiberId} (h : s.attach w entity source authority = .ok (id, s')) : Change s s' := by
  unfold attach at h
  split_ifs at h
  cases h
  exact .start (start_idle ..) rfl rfl

theorem detach_change (s : Scheduler) (id : FiberId) : Change s (s.detach id).2 := by
  unfold detach
  split
  · exact .same
  · next f hf =>
    have h := Change.retire (.failed (.custom "Script detached")) hf
    unfold retire at h
    cases hp : f.parent with
    | none => simpa [hp] using h
    | some p => simpa [hp] using h

/-- The end of a fiber that has been taken out for its activation. -/
theorem finish_eq_retire (s : Scheduler) (w : World) (t : Termination) :
    ∃ r, (finish { s with fibers := s.fibers.erase t.fiber } w t).1 =
      s.retire t.fiber t.parent r := by
  unfold finish retire
  cases t.ending with
  | exited v =>
    refine ⟨.value (v.getD default), ?_⟩
    cases t.parent <;> rfl
  | failed e =>
    refine ⟨.failed e, ?_⟩
    cases t.parent <;> rfl

/-- Variables given at the start do not change what a fiber waits for. -/
theorem seeded_idle {f : Fiber} (hf : f.Idle) (seeds : List (String × Value)) :
    let g := seeds.foldl (fun f (name, v) => f.seed name v) f
    g.Idle ∧ g.id = f.id ∧ g.parent = f.parent := by
  induction seeds generalizing f with
  | nil => exact ⟨hf, rfl, rfl⟩
  | cons s seeds ih =>
    have hs : (f.seed s.1 s.2).Idle :=
      ⟨hf.enabled, hf.valid, hf.live, hf.awaiting, hf.pending, hf.received⟩
    exact ih hs

/-- A function that can be started runs as a fiber at rest with the next number. -/
theorem spawn_ok {env : Environment} {caller : Fiber} {r : CallRequest} {id : FiberId}
    (h : s.spawn env caller r = .ok (id, s')) :
    id = s.nextId ∧ ∃ child : Fiber, child.Idle ∧ child.id = s.nextId ∧
      child.parent = some caller.id ∧
      s' = { fibers := s.fibers.insert s.nextId child, nextId := s.nextId + 1 } := by
  unfold spawn at h
  dsimp only at h
  split at h
  · cases h
  · split at h
    · cases h
    · next source _ =>
      split at h
      · cases h
      · cases h
        have hi : { Fiber.start s.nextId r.host r.authority source with
            parent := some caller.id }.Idle :=
          have h := start_idle s.nextId r.host r.authority source
          ⟨h.enabled, h.valid, h.live, h.awaiting, h.pending, h.received⟩
        obtain ⟨hc, hid, hp⟩ := seeded_idle hi r.seeds
        exact ⟨rfl, _, hc, hid, hp, rfl⟩

/-- A function that cannot be started is called too deep, or its script is missing or blank. -/
theorem spawn_error {env : Environment} {caller : Fiber} {r : CallRequest} {e : ScriptError}
    (h : s.spawn env caller r = .error e) :
    e = .callDepthExceeded env.limits.maxCallDepth ∨
      (env.source.load? r.category r.script = none ∧
        e = .scriptNotFound (r.category.name ++ "/" ++ r.script)) ∨
      e = .emptyScript (r.category.name ++ "/" ++ r.script) := by
  unfold spawn at h
  dsimp only at h
  split at h
  · cases h
    exact .inl rfl
  · split at h
    · next hl =>
      cases h
      exact .inr (.inl ⟨hl, rfl⟩)
    · split at h <;> cases h
      exact .inr (.inr rfl)

/-- A step of the work of a tick makes one elementary change. -/
theorem step_change (h : Linked s) (env : Environment) (w : World) (task : Task) :
    Change s (s.step env w task).1 := by
  obtain ⟨id, forced⟩ := task
  unfold step
  split
  · exact .same
  · next f hf =>
    have hpl := h.placed hf
    have ha := activate_activated hpl.toSound env forced w
    dsimp only at hf ⊢
    generalize f.activate env forced w = out at ha
    obtain ⟨o, g, w'⟩ := out
    dsimp only at ha ⊢
    cases ha with
    | skipped =>
      dsimp only
      rw [insert_erase_fiber, insert_self_fiber _ _ _ hf]
      exact .same
    | yielded he hid hp hi =>
      dsimp only
      rw [insert_erase_fiber]
      exact .rest hf he hid hp hi
    | called he hid hp hg =>
      next r =>
      dsimp only
      split
      · next c s' hs =>
        obtain ⟨rfl, child, hi, hc, hcp, rfl⟩ := spawn_ok hs
        rw [insert_insert_erase_fiber]
        exact .call hf he hid hp hg hi hc (by rw [hcp, hid, hpl.id_eq])
      · next e hs =>
        obtain ⟨r, hr⟩ := finish_eq_retire s w' (g.termination (.failed e))
        have hgi : (g.termination (.failed e)).fiber = id := hid.trans hpl.id_eq
        have hgp : (g.termination (.failed e)).parent = f.parent := hp
        rw [hgi, hgp] at hr
        rw [hr]
        exact .retire r hf
    | terminated he ht htp =>
      next t =>
      dsimp only
      obtain ⟨r, hr⟩ := finish_eq_retire s w' t
      rw [ht, htp, hpl.id_eq] at hr
      rw [hr]
      exact .retire r hf

/-- The schedulers between operations: any order of attaching, detaching and ticks that end, each in
a world and an environment of its own. -/
inductive Reachable : Scheduler → Prop where

  | empty : Reachable {}

  | attach {s s' : Scheduler} {w : World} {entity : EntityId} {source : String} {authority : Int32}
      {id : FiberId} : Reachable s → s.attach w entity source authority = .ok (id, s') →
      Reachable s'

  | detach {s : Scheduler} (id : FiberId) : Reachable s → Reachable (s.detach id).2

  | tick {s s' : Scheduler} {env : Environment} {steps : Nat} {w w' : World} : Reachable s →
      s.tick env steps w = some (s', w') → Reachable s'

/-- The work of a tick from `s₀` and `w₀` on: the fibers still to be looked at, the tasks at hand,
and what the scheduler and the world have come to. -/
inductive AtWork (env : Environment) (s₀ : Scheduler) (w₀ : World) :
    List FiberId → List Task → Scheduler → World → Prop where

  | enter : AtWork env s₀ w₀ s₀.fibers.keys [] s₀ w₀

  | next {id : FiberId} {ids : List FiberId} {s : Scheduler} {w : World} :
      AtWork env s₀ w₀ (id :: ids) [] s w → AtWork env s₀ w₀ ids [⟨id, false⟩] s w

  | step {ids : List FiberId} {task : Task} {tasks : List Task} {s : Scheduler} {w : World} :
      AtWork env s₀ w₀ ids (task :: tasks) s w →
      AtWork env s₀ w₀ ids ((s.step env w task).2.2 ++ tasks) (s.step env w task).1
        (s.step env w task).2.1

section Work

variable {env : Environment} {s₀ : Scheduler} {w₀ w w' : World} {ids : List FiberId}
  {tasks : List Task}

theorem AtWork.run {steps : Nat} (h : AtWork env s₀ w₀ ids tasks s w)
    (hr : run env steps tasks s w = some (s', w')) : AtWork env s₀ w₀ ids [] s' w' := by
  fun_induction Scheduler.run env steps tasks s w with
  | case1 _ s w =>
    cases hr
    exact h
  | case2 => cases hr
  | case3 steps task tasks s w s₁ w₁ next hs ih =>
    refine ih ?_ hr
    have hn := h.step
    rwa [hs] at hn

theorem AtWork.foldl {steps : Nat} (h : AtWork env s₀ w₀ ids [] s w)
    (hr : ids.foldlM (fun (s, w) id => Scheduler.run env steps [⟨id, false⟩] s w) (s, w) =
      some (s', w')) : AtWork env s₀ w₀ [] [] s' w' := by
  induction ids generalizing s w with
  | nil =>
    cases hr
    exact h
  | cons id ids ih =>
    obtain ⟨⟨s₁, w₁⟩, h₁, hr⟩ := Option.bind_eq_some_iff.1 hr
    exact ih (h.next.run h₁) hr

/-- A tick that ends is the work of that tick done to the end. -/
theorem AtWork.of_tick {steps : Nat} (h : s.tick env steps w = some (s', w')) :
    AtWork env s w [] [] s' w' := AtWork.enter.foldl h

theorem AtWork.linked (h : AtWork env s₀ w₀ ids tasks s w) (h₀ : Linked s₀) : Linked s := by
  induction h with
  | enter => exact h₀
  | next _ ih => exact ih
  | step _ ih => exact ih.change (step_change ih ..)

end Work

theorem Reachable.linked (h : Reachable s) : Linked s := by
  induction h with
  | empty => exact linked_empty
  | attach _ ha ih => exact ih.change (attach_change ha)
  | detach id _ ih => exact ih.change (detach_change _ id)
  | tick _ ht ih => exact (AtWork.of_tick ht).linked ih

/-- A scheduler between operations or anywhere in the work of a tick. -/
inductive Occurs : Scheduler → Prop where

  | between {s : Scheduler} : Reachable s → Occurs s

  | within {env : Environment} {s₀ s : Scheduler} {w₀ w : World} {ids : List FiberId}
      {tasks : List Task} : Reachable s₀ → AtWork env s₀ w₀ ids tasks s w → Occurs s

theorem Occurs.linked (h : Occurs s) : Linked s := by
  cases h with
  | between h => exact h.linked
  | within h₀ h => exact h.linked h₀.linked

/-- What a maintainer may rely on wherever a scheduler occurs. -/
structure CallReturn (s : Scheduler) : Prop where
  live {p : FiberId} {f : Fiber} : s.fibers[p]? = some f → f.valid = true ∧ f.state ≠ .terminated
  disabled {p : FiberId} {f : Fiber} : s.fibers[p]? = some f → (f.enabled = false ↔
    ∃ c g, f.awaiting = some c ∧ s.fibers[c]? = some g ∧ g.parent = some p ∧ f.received = none)
  child {c p : FiberId} {g f : Fiber} : s.fibers[c]? = some g → g.parent = some p →
    s.fibers[p]? = some f → f.awaiting = some c
  only_child {c d p : FiberId} {g h f : Fiber} : s.fibers[c]? = some g → s.fibers[d]? = some h →
    g.parent = some p → h.parent = some p → s.fibers[p]? = some f → c = d
  answered {p c : FiberId} {f : Fiber} : s.fibers[p]? = some f → f.enabled = true →
    f.awaiting = some c → s.fibers[c]? = none ∧ f.received.isSome
  free {p : FiberId} {f : Fiber} : s.fibers[p]? = some f → f.awaiting = none →
    f.received = none ∧ f.pending = none
  pending {p : FiberId} {f : Fiber} {pc : PendingCall} : s.fibers[p]? = some f →
    f.pending = some pc → f.awaiting = some pc.child ∧ f.cursor.line < f.lines.length

theorem Linked.callReturn (h : Linked s) : CallReturn s where
  live hf := ⟨(h.placed hf).valid, (h.placed hf).live⟩
  disabled {p f} hf := by
    have hs := h.placed hf
    constructor
    · intro he
      cases ha : f.awaiting with
      | none => simp [(hs.free ha).1] at he
      | some c =>
        obtain ⟨g, hg, hgp⟩ := h.blocked hf ha he
        have hr : f.received = none := by
          simpa [he] using (hs.bound c ha).2
        exact ⟨c, g, rfl, hg, hgp, hr⟩
    · rintro ⟨c, g, ha, -, -, hr⟩
      simpa [hr] using (hs.bound c ha).1
  child := h.caller
  only_child hg hh hgp hhp hf :=
    Option.some.inj ((h.caller hg hgp hf).symm.trans (h.caller hh hhp hf))
  answered {p c f} hf he ha := ⟨h.answered hf ha he, ((h.placed hf).bound c ha).1 he⟩
  free hf ha := ((h.placed hf).free ha).2
  pending {p f pc} hf hp := (h.placed hf).pending pc hp

/-- One move of a scheduler, in whatever world and environment. -/
inductive Move (s : Scheduler) : Scheduler → Prop where

  | attach {s' : Scheduler} {w : World} {entity : EntityId} {source : String} {authority : Int32}
      {id : FiberId} : s.attach w entity source authority = .ok (id, s') → Move s s'

  | detach (id : FiberId) : Move s (s.detach id).2

  | step (env : Environment) (w : World) (task : Task) : Move s (s.step env w task).1

theorem Move.change (h : Move s s') (hs : Linked s) : Change s s' := by
  cases h with
  | attach ha => exact attach_change ha
  | detach id => exact detach_change s id
  | step env w task => exact step_change hs env w task

/-- Whether the fiber `p` holds the result of its child `c`. -/
def Holds (s : Scheduler) (p c : FiberId) : Prop :=
  ∃ f, s.fibers[p]? = some f ∧ f.awaiting = some c ∧ f.received.isSome

/-- Whether the result of `c` comes to `p` between two schedulers. -/
def Stores (s s' : Scheduler) (p c : FiberId) : Prop := ¬ s.Holds p c ∧ s'.Holds p c

/-- A result comes from a child that ends, and to its direct caller. -/
theorem Change.of_stores (hc : Change s s') {p c : FiberId} (hs : Stores s s' p c) :
    (∃ g, s.fibers[c]? = some g ∧ g.parent = some p) ∧ s'.fibers[c]? = none := by
  obtain ⟨hn, k, hk, ha, hr⟩ := hs
  cases hc with
  | same => exact absurd ⟨k, hk, ha, hr⟩ hn
  | start hi _ _ =>
    rcases of_getElem?_insert hk with ⟨rfl, rfl⟩ | ⟨-, hk⟩
    · simp [hi.awaiting] at ha
    · exact absurd ⟨k, hk, ha, hr⟩ hn
  | rest _ _ _ _ hi =>
    rcases of_getElem?_insert hk with ⟨rfl, rfl⟩ | ⟨-, hk⟩
    · simp [hi.awaiting] at ha
    · exact absurd ⟨k, hk, ha, hr⟩ hn
  | call _ _ _ _ hg hi _ _ =>
    rcases of_getElem?_insert hk with ⟨rfl, rfl⟩ | ⟨-, hk⟩
    · simp [await, hg.received] at hr
    · rcases of_getElem?_insert hk with ⟨rfl, rfl⟩ | ⟨-, hk⟩
      · simp [hi.awaiting] at ha
      · exact absurd ⟨k, hk, ha, hr⟩ hn
  | retire r hf =>
    obtain ⟨-, l, hl, ⟨hp, hla, rfl⟩ | ⟨-, rfl⟩⟩ := of_getElem?_retire hk
    · obtain rfl := Option.some.inj (hla.symm.trans ha)
      exact ⟨⟨_, hf, hp⟩, by rw [getElem?_retire, if_pos rfl]⟩
    · exact absurd ⟨k, hl, ha, hr⟩ hn

/-- A number that has been used and is not live never becomes live again. -/
theorem Change.dead (hc : Change s s') {c : FiberId} (hn : s.fibers[c]? = none)
    (hl : c < s.nextId) : s'.fibers[c]? = none ∧ c < s'.nextId := by
  have hlive {id : FiberId} {f : Fiber} (hf : s.fibers[id]? = some f) : id ≠ c := by
    rintro rfl
    simp [hn] at hf
  cases hc with
  | same => exact ⟨hn, hl⟩
  | start _ _ _ => exact ⟨by simpa [Nat.ne_of_gt hl] using hn, Nat.lt_succ_of_lt hl⟩
  | rest hf _ _ _ _ => exact ⟨by simpa [hlive hf] using hn, hl⟩
  | call hf _ _ _ _ _ _ _ =>
    exact ⟨by simpa [hlive hf, Nat.ne_of_gt hl] using hn, Nat.lt_succ_of_lt hl⟩
  | retire r hf => exact ⟨by simp [getElem?_retire, hn], by simpa using hl⟩

theorem Change.nextId_le (hc : Change s s') : s.nextId ≤ s'.nextId := by
  cases hc with
  | same | rest _ _ _ _ _ => exact Nat.le_refl _
  | start _ _ _ | call _ _ _ _ _ _ _ _ => exact Nat.le_succ _
  | retire r hf => simp

/-- What a move does to results that are handed over. -/
structure HandsOver (s s' : Scheduler) : Prop where
  direct {p c : FiberId} : Stores s s' p c →
    (∃ g, s.fibers[c]? = some g ∧ g.parent = some p) ∧ s'.fibers[c]? = none
  kept {p : FiberId} {f g : Fiber} : s.fibers[p]? = some f → f.received.isSome →
    s'.fibers[p]? = some g → g.received.isSome → g = f
  arrives {p c : FiberId} {f g : Fiber} : s.fibers[p]? = some f → s.fibers[c]? = some g →
    g.parent = some p → s'.fibers[c]? = none →
    ∃ f', s'.fibers[p]? = some f' ∧ f'.awaiting = some c ∧ f'.enabled = true ∧ f'.received.isSome

theorem Change.kept (h : Linked s) (hc : Change s s') {p : FiberId} {f g : Fiber}
    (hf : s.fibers[p]? = some f) (hr : f.received.isSome) (hg : s'.fibers[p]? = some g)
    (hgr : g.received.isSome) : g = f := by
  cases hc with
  | same => exact Option.some.inj (hg.symm.trans hf)
  | start hi _ _ =>
    rcases of_getElem?_insert hg with ⟨rfl, rfl⟩ | ⟨-, hg⟩
    · simp [hi.received] at hgr
    · exact Option.some.inj (hg.symm.trans hf)
  | rest _ _ _ _ hi =>
    rcases of_getElem?_insert hg with ⟨rfl, rfl⟩ | ⟨-, hg⟩
    · simp [hi.received] at hgr
    · exact Option.some.inj (hg.symm.trans hf)
  | call _ _ _ _ hk hi _ _ =>
    rcases of_getElem?_insert hg with ⟨rfl, rfl⟩ | ⟨-, hg⟩
    · simp [await, hk.received] at hgr
    · rcases of_getElem?_insert hg with ⟨rfl, rfl⟩ | ⟨-, hg⟩
      · simp [hi.received] at hgr
      · exact Option.some.inj (hg.symm.trans hf)
  | retire r hk =>
    obtain ⟨-, l, hl, ⟨-, hla, rfl⟩ | ⟨-, rfl⟩⟩ := of_getElem?_retire hg
    · -- a fiber that holds a result waits for no live fiber, so none can end for it
      obtain rfl := Option.some.inj (hl.symm.trans hf)
      have hd := h.answered hl hla (((h.placed hl).bound _ hla).2 hr)
      simp [hk] at hd
    · exact Option.some.inj (hl.symm.trans hf)

/-- A fiber that is gone after a change has ended, and its caller was told. -/
theorem Change.ended (hc : Change s s') {c : FiberId} {g : Fiber} (hg : s.fibers[c]? = some g)
    (hn : s'.fibers[c]? = none) : ∃ r, s' = s.retire c g.parent r := by
  have hm {m : Std.ExtTreeMap FiberId Fiber} {k : FiberId} {f : Fiber}
      (h : (m.insert k f)[c]? = none) : m[c]? = none := by
    rw [getElem?_insert_fiber] at h
    split at h
    · cases h
    · exact h
  cases hc with
  | same => simp [hg] at hn
  | start _ _ _ => simp [hm hn] at hg
  | rest _ _ _ _ _ => simp [hm hn] at hg
  | call _ _ _ _ _ _ _ _ => simp [hm (hm hn)] at hg
  | @retire id f r hf =>
    by_cases hi : id = c
    · subst hi
      obtain rfl := Option.some.inj (hf.symm.trans hg)
      exact ⟨r, rfl⟩
    · rw [getElem?_retire, if_neg hi, hg] at hn
      split at hn <;> cases hn

theorem Change.arrives (h : Linked s) (hc : Change s s') {p c : FiberId} {f g : Fiber}
    (hf : s.fibers[p]? = some f) (hg : s.fibers[c]? = some g) (hp : g.parent = some p)
    (hn : s'.fibers[c]? = none) :
    ∃ f', s'.fibers[p]? = some f' ∧ f'.awaiting = some c ∧ f'.enabled = true ∧
      f'.received.isSome := by
  obtain ⟨r, rfl⟩ := hc.ended hg hn
  have hne : c ≠ p := Nat.ne_of_gt ((h.placed hg).parent_lt hp)
  have ha : f.awaiting = some c := h.caller hg hp hf
  refine ⟨f.deliver r, ?_, ha, rfl, rfl⟩
  rw [getElem?_retire, if_neg hne, hf]
  simp [hp, ha]

theorem Move.handsOver (h : Linked s) (hm : Move s s') : HandsOver s s' where
  direct := (hm.change h).of_stores
  kept := (hm.change h).kept h
  arrives := (hm.change h).arrives h

theorem Linked.moves (h : Linked s) (hm : Relation.ReflTransGen Move s s') : Linked s' := by
  induction hm with
  | refl => exact h
  | tail _ hm ih => exact ih.change (hm.change ih)

theorem dead_of_moves (h : Linked s) (hm : Relation.ReflTransGen Move s s') {c : FiberId}
    (hn : s.fibers[c]? = none) (hl : c < s.nextId) : s'.fibers[c]? = none ∧ c < s'.nextId := by
  induction hm with
  | refl => exact ⟨hn, hl⟩
  | tail hms hm ih => exact (hm.change (h.moves hms)).dead ih.1 ih.2

/-- Once the result of a child has come to its caller, it comes to nobody again. -/
theorem stores_once (h : Linked s) {t u v w : Scheduler} {p q c : FiberId}
    (hm : Relation.ReflTransGen Move s t) (htu : Move t u) (hs : Stores t u p c)
    (hm' : Relation.ReflTransGen Move u v) (hvw : Move v w) : ¬ Stores v w q c := by
  intro hs'
  have ht := h.moves hm
  have hu := ht.change (htu.change ht)
  obtain ⟨⟨g, hg, -⟩, hn⟩ := (htu.change ht).of_stores hs
  have hlt : c < u.nextId := Nat.lt_of_lt_of_le (ht.placed hg).id_lt (htu.change ht).nextId_le
  obtain ⟨⟨g', hg', -⟩, -⟩ := (hvw.change (hu.moves hm')).of_stores hs'
  simp [(dead_of_moves hu hm' hn hlt).1] at hg'

/-- Wherever a scheduler occurs, callers and children are in step; and from there on the result of a
child is stored at most once, in its direct caller, as soon as the child ends. -/
theorem call_return_protocol (h : Occurs s) :
    CallReturn s ∧ ∀ {t u : Scheduler}, Relation.ReflTransGen Move s t → Move t u →
      HandsOver t u ∧ ∀ {p c : FiberId}, Stores t u p c → ∀ {v w : Scheduler} {q : FiberId},
        Relation.ReflTransGen Move u v → Move v w → ¬ Stores v w q c := by
  have hl := h.linked
  refine ⟨hl.callReturn, fun hm htu => ⟨htu.handsOver (hl.moves hm), ?_⟩⟩
  intro p c hs v w q hm' hvw
  exact stores_once hl hm htu hs hm' hvw

section Example

def keyStart : Scheduler where
  fibers := {(0, Fiber.start 0 ⟨0⟩ 0 "var x = $Item[0].turn()")}
  nextId := 1

/-- The scheduler when the first fiber of a tick has called. -/
def keyCalled : Scheduler := (keyStart.step keyEnvironment keyWorld ⟨0, false⟩).1

theorem keyCalled_occurs : Occurs keyCalled := by
  have hk : keyStart.fibers.keys = [0] := by decide +kernel
  have ha : attach {} keyWorld ⟨0⟩ "var x = $Item[0].turn()" 0 = .ok (0, keyStart) := rfl
  have hw : AtWork keyEnvironment keyStart keyWorld [0] [] keyStart keyWorld := hk ▸ .enter
  exact .within (Reachable.empty.attach ha) hw.next.step

/-- A caller is blocked in the middle of a tick, and the fiber it waits for is there. -/
theorem call_return_protocol_keyCalled :
    keyCalled.fibers[0]?.map (fun f => (f.enabled, f.awaiting)) = some (false, some 1) ∧
      keyCalled.CallReturn :=
  ⟨by decide +kernel, (call_return_protocol keyCalled_occurs).1⟩

end Example

end TileScript.Scheduler
