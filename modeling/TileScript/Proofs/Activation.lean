import Mathlib.Tactic.SplitIfs
import TileScript.Fiber.Activate

/-! # What an activation leaves behind

An activation yields, calls or ends. It never touches the links between a fiber and its caller or
its child, except that it takes up a result that has been handed over. A call that wants its value
leaves the cursor on a line of the script.
-/

namespace TileScript

theorem of_run_bind_ok {ε S α β : Type} {x : EStateM ε S α} {k : α → EStateM ε S β} {σ σ' : S}
    {b : β} (h : (x >>= k).run σ = .ok b σ') :
    ∃ a σ₁, x.run σ = .ok a σ₁ ∧ (k a).run σ₁ = .ok b σ' := by
  rw [EStateM.run_bind] at h
  split at h
  · next a σ₁ ha => exact ⟨a, σ₁, ha, h⟩
  · cases h

namespace Cursor

theorem line_close? {c d : Cursor} (h : c.close? = some d) : d.line = c.line := by
  unfold close? at h
  split at h
  · cases h
  · cases h; rfl

theorem line_switch? {c d : Cursor} (h : c.switch? = some d) : d.line = c.line := by
  unfold switch? at h
  split_ifs at h <;> cases h <;> rfl

@[simp] theorem line_skip (c : Cursor) (s : Statement) : (c.skip s).line = c.line := by
  cases s <;> rfl

@[simp] theorem line_advance (c : Cursor) : c.advance.line = c.line + 1 := rfl

@[simp] theorem line_enter (c : Cursor) (taken : Bool) : (c.enter taken).line = c.line := rfl

end Cursor

/-- A statement that a search stops at stands on a line it has looked at. -/
theorem Search.line_of_found {c d : Cursor} {coming : List (List Char)} {line : List Char}
    {s : Statement} (h : Search.run c coming = .found d line s) :
    c.line < d.line ∧ d.line ≤ c.line + coming.length := by
  fun_induction Search.run c coming with
  | case1 => cases h
  | case2 c line' rest next _ ih =>
    have := ih h
    simp [next] at this ⊢; omega
  | case3 c line' rest next _ d' hd ih =>
    have := ih h
    rw [Cursor.line_close? hd] at this
    simp [next] at this ⊢; omega
  | case4 => cases h
  | case5 c line' rest next _ d' hd ih =>
    have := ih h
    rw [Cursor.line_switch? hd] at this
    simp [next] at this ⊢; omega
  | case6 => cases h
  | case7 c line' rest next =>
    obtain ⟨rfl, -, -⟩ := Search.found.inj h
    simp [next]
  | case8 c line' rest next _ _ _ _ ih =>
    have := ih h
    simp [next] at this ⊢; omega

theorem Search.statement_of_found {c d : Cursor} {coming : List (List Char)} {line : List Char}
    {s : Statement} (h : Search.run c coming = .found d line s) : s = Statement.ofLine line := by
  fun_induction Search.run c coming <;> grind

/-- What ties a fiber to its script, its caller and its child. -/
structure Links where
  id : FiberId
  lines : List (List Char)
  valid : Bool
  parent : Option FiberId
  pending : Option PendingCall
  awaiting : Option FiberId
  received : Option ChildResult

namespace Fiber

def links (f : Fiber) : Links where
  id := f.id
  lines := f.lines
  valid := f.valid
  parent := f.parent
  pending := f.pending
  awaiting := f.awaiting
  received := f.received

/-- A statement changes variables and block depths only, and only an `if` changes the depths. -/
theorem execute_ok {s : Scope} {f g : Fiber} {st : Statement} {σ σ' : EvalState}
    (h : (execute s f st).run σ = .ok g σ') :
    ∃ vars cursor, g = { f with vars, cursor } ∧ cursor.line = f.cursor.line ∧
      ((∀ condition, st ≠ .branch condition) → cursor = f.cursor) := by
  cases st with
  | declare definition =>
    obtain ⟨⟨name, value⟩, σ₁, -, h⟩ := of_run_bind_ok h
    dsimp only at h
    split at h
    · cases h
    · obtain ⟨v, σ₂, -, h⟩ := of_run_bind_ok h
      cases h
      exact ⟨_, _, rfl, rfl, fun _ => rfl⟩
  | branch condition =>
    obtain ⟨taken, σ₁, -, h⟩ := of_run_bind_ok h
    obtain ⟨b, σ₂, -, h⟩ := of_run_bind_ok h
    cases h
    exact ⟨_, _, rfl, rfl, fun hn => absurd rfl (hn condition)⟩
  | assign target value =>
    simp only [execute] at h
    split_ifs at h
    · cases h
    · cases h
    · obtain ⟨v, σ₁, -, h⟩ := of_run_bind_ok h
      cases h
      exact ⟨_, _, rfl, rfl, fun _ => rfl⟩
  | bare chain =>
    obtain ⟨v, σ₁, -, h⟩ := of_run_bind_ok h
    cases h
    exact ⟨_, _, rfl, rfl, fun _ => rfl⟩
  | blank | close | otherwise =>
    cases h
    exact ⟨_, _, rfl, rfl, fun _ => rfl⟩

@[simp] theorem links_nextStatement (f : Fiber) (coming : List (List Char)) (evaluated : Bool) :
    (f.nextStatement coming evaluated).1.links = f.links := by
  unfold nextStatement
  split
  · split <;> rfl
  · rfl

@[simp] theorem enabled_nextStatement (f : Fiber) (coming : List (List Char)) (evaluated : Bool) :
    (f.nextStatement coming evaluated).1.enabled = f.enabled := by
  unfold nextStatement
  split
  · split <;> rfl
  · rfl

@[simp] theorem state_nextStatement (f : Fiber) (coming : List (List Char)) (evaluated : Bool) :
    (f.nextStatement coming evaluated).1.state = f.state := by
  unfold nextStatement
  split
  · split <;> rfl
  · rfl

theorem frame_of_nextStatement {f g : Fiber} {coming : List (List Char)} {evaluated : Bool}
    {r : Search} (h : f.nextStatement coming evaluated = (g, r)) :
    g.links = f.links ∧ g.enabled = f.enabled ∧ g.state = f.state := by
  have hg : g = (f.nextStatement coming evaluated).1 := by rw [h]
  simp [hg]

/-- The next statement stands on a line of the script. -/
theorem line_of_nextStatement {f g : Fiber} {coming : List (List Char)} {evaluated : Bool}
    {c : Cursor} {line : List Char} {s : Statement}
    (hc : coming.length ≤ f.lines.length - f.cursor.line)
    (h : f.nextStatement coming evaluated = (g, .found c line s)) :
    0 < c.line ∧ c.line ≤ g.lines.length := by
  have hl : g.lines = f.lines := congrArg Links.lines (frame_of_nextStatement h).1
  rw [hl]
  unfold nextStatement at h
  split at h
  · split at h
    · have := Search.line_of_found (Prod.mk.inj h).2
      simp only [restart] at this
      omega
    · cases (Prod.mk.inj h).2
  · have := Search.line_of_found (Prod.mk.inj h).2
    omega

/-- How statements can end, from a fiber that may run. -/
inductive Ends (f : Fiber) : Outcome → Fiber → Prop where

  | yielded {g : Fiber} : g.links = f.links → g.enabled = f.enabled → g.state ≠ .terminated →
      Ends f .yielded g

  | called {g : Fiber} {r : CallRequest} : g.links = f.links → g.enabled = false →
      g.state ≠ .terminated → (r.resume.isSome → g.cursor.line < g.lines.length) →
      Ends f (.called r) g

  | terminated {g : Fiber} {t : Termination} : t.fiber = f.id → t.parent = f.parent →
      Ends f (.terminated t) g

theorem Ends.of_links_eq {f g h : Fiber} {o : Outcome} (h' : Ends g o h)
    (hl : g.links = f.links) (he : g.enabled = f.enabled) : Ends f o h := by
  cases h' with
  | yielded hg hn ht => exact .yielded (hg.trans hl) (hn.trans he) ht
  | called hg hn ht hc => exact .called (hg.trans hl) hn ht hc
  | terminated hf hp =>
    exact .terminated (hf.trans (congrArg Links.id hl)) (hp.trans (congrArg Links.parent hl))

theorem terminate_ends (f : Fiber) (ending : Ending) (line : Option Nat) (w : World) :
    Ends f (f.terminate ending line w).1 (f.terminate ending line w).2.1 := .terminated rfl rfl

theorem runStatements_ends (env : Environment) (budget : Nat) (f : Fiber)
    (coming : List (List Char)) (evaluated : Bool) (w : World) (hs : f.state ≠ .terminated)
    (hc : coming.length ≤ f.lines.length - f.cursor.line) :
    Ends f (f.runStatements env budget coming evaluated w).1
      (f.runStatements env budget coming evaluated w).2.1 := by
  fun_induction runStatements env budget f coming evaluated w with
  | case1 budget f coming evaluated w g c hn =>
    obtain ⟨hl, he, ht⟩ := frame_of_nextStatement hn
    exact .yielded hl he (ht ▸ hs)
  | case2 budget f coming evaluated w g c k hn =>
    obtain ⟨hl, he, -⟩ := frame_of_nextStatement hn
    exact (terminate_ends { g with cursor := c } ..).of_links_eq hl he
  | case3 f coming evaluated w g c line s hn g' =>
    obtain ⟨hl, he, -⟩ := frame_of_nextStatement hn
    exact (terminate_ends g' ..).of_links_eq hl he
  | case4 f coming evaluated w g c line s hn g' budget h σ hx ticks hp =>
    obtain ⟨hl, he, -⟩ := frame_of_nextStatement hn
    obtain ⟨vars, cursor, rfl, -⟩ := execute_ok hx
    exact .yielded hl he (by simp)
  | case5 f coming evaluated w g c line s hn g' budget h σ hx hp ih =>
    obtain ⟨hl, he, ht⟩ := frame_of_nextStatement hn
    obtain ⟨vars, cursor, rfl, hd, -⟩ := execute_ok hx
    exact (ih (ht ▸ hs) (by simp [hd, g'])).of_links_eq hl he
  | case6 f coming evaluated w g c line s hn g' budget e σ hx =>
    obtain ⟨hl, he, -⟩ := frame_of_nextStatement hn
    exact (terminate_ends g' ..).of_links_eq hl he
  | case7 f coming evaluated w g c line s hn g' budget v σ hx =>
    obtain ⟨hl, he, -⟩ := frame_of_nextStatement hn
    exact (terminate_ends g' ..).of_links_eq hl he
  | case8 f coming evaluated w g c line s hn g' budget r σ hx cursor =>
    obtain ⟨hl, -, -⟩ := frame_of_nextStatement hn
    refine .called hl rfl (by simp) fun hr => ?_
    have hb := line_of_nextStatement hc hn
    simp only [cursor, hr, if_true, g']
    omega

theorem run_ends (env : Environment) (f : Fiber) (resumed : Option (List Char)) (w : World)
    (hs : f.state ≠ .terminated) (hc : resumed.isSome → f.cursor.line < f.lines.length) :
    Ends f (f.run env resumed w).1 (f.run env resumed w).2.1 := by
  cases resumed with
  | none => exact runStatements_ends env _ f _ true w hs (by simp)
  | some line =>
    have := hc rfl
    exact runStatements_ends env _ f _ true w hs (by simp; omega)

/-- What holds of a live fiber by itself. -/
structure Sound (f : Fiber) : Prop where
  valid : f.valid = true
  live : f.state ≠ .terminated
  free : f.awaiting = none → f.enabled = true ∧ f.received = none ∧ f.pending = none
  bound : ∀ c, f.awaiting = some c → (f.enabled = true ↔ f.received.isSome)
  pending : ∀ p, f.pending = some p → f.awaiting = some p.child ∧ f.cursor.line < f.lines.length

/-- A fiber at rest: it may run and waits for nothing. -/
structure Idle (f : Fiber) : Prop where
  enabled : f.enabled = true
  valid : f.valid = true
  live : f.state ≠ .terminated
  awaiting : f.awaiting = none
  pending : f.pending = none
  received : f.received = none

theorem Idle.sound {f : Fiber} (h : f.Idle) : f.Sound where
  valid := h.valid
  live := h.live
  free _ := ⟨h.enabled, h.received, h.pending⟩
  bound c hc := by simp [h.awaiting] at hc
  pending p hp := by simp [h.pending] at hp

/-- A fiber that has stopped for a call. -/
structure Calling (f : Fiber) (r : CallRequest) : Prop where
  enabled : f.enabled = false
  valid : f.valid = true
  live : f.state ≠ .terminated
  received : f.received = none
  line : r.resume.isSome → f.cursor.line < f.lines.length

theorem Calling.sound_await {f : Fiber} {r : CallRequest} (h : f.Calling r) (child : FiberId) :
    (f.await child r.resume).Sound where
  valid := h.valid
  live := h.live
  free hc := by simp [await] at hc
  bound c _ := by simp [await, h.enabled, h.received]
  pending p hp := by
    obtain ⟨q, hq, rfl⟩ := Option.map_eq_some_iff.1 hp
    exact ⟨rfl, h.line (by simp [hq])⟩

/-- What an activation can come to. -/
inductive Activated (f : Fiber) : Outcome → Fiber → Prop where

  | skipped : Activated f .skipped f

  | yielded {g : Fiber} : f.enabled = true → g.id = f.id → g.parent = f.parent → g.Idle →
      Activated f .yielded g

  | called {g : Fiber} {r : CallRequest} : f.enabled = true → g.id = f.id → g.parent = f.parent →
      g.Calling r → Activated f (.called r) g

  | terminated {g : Fiber} {t : Termination} : f.enabled = true → t.fiber = f.id →
      t.parent = f.parent → Activated f (.terminated t) g

theorem Ends.activated {f g h : Fiber} {o : Outcome} (h' : Ends g o h) (hf : f.enabled = true)
    (hid : g.id = f.id) (hp : g.parent = f.parent) (hg : g.Idle) : Activated f o h := by
  cases h' with
  | yielded hl he ht =>
    refine .yielded hf ((congrArg Links.id hl).trans hid) ((congrArg Links.parent hl).trans hp) ?_
    exact ⟨he.trans hg.enabled, (congrArg Links.valid hl).trans hg.valid, ht,
      (congrArg Links.awaiting hl).trans hg.awaiting, (congrArg Links.pending hl).trans hg.pending,
      (congrArg Links.received hl).trans hg.received⟩
  | called hl he ht hc =>
    refine .called hf ((congrArg Links.id hl).trans hid) ((congrArg Links.parent hl).trans hp) ?_
    exact ⟨he, (congrArg Links.valid hl).trans hg.valid, ht,
      (congrArg Links.received hl).trans hg.received, hc⟩
  | terminated ht htp => exact .terminated hf (ht.trans hid) (htp.trans hp)

theorem activate_activated {f : Fiber} (hf : f.Sound) (env : Environment) (forced : Bool)
    (w : World) :
    Activated f (f.activate env forced w).1 (f.activate env forced w).2.1 := by
  unfold activate
  split
  · exact .skipped
  · next he =>
    have he : f.enabled = true := by simp_all
    split
    · exact .terminated he rfl rfl
    · split
      · exact .skipped
      · split
        · exact .skipped
        · unfold resume
          dsimp only
          split
          · exact .terminated he rfl rfl
          · next v p hr hp =>
            split
            · next text _ =>
              refine Ends.activated (run_ends env _ (some text) w ?_ ?_) he rfl rfl ?_
              · simp
              · exact fun _ => (hf.pending p hp).2
              · exact ⟨he, hf.valid, by simp, rfl, rfl, rfl⟩
            · exact .terminated he rfl rfl
          · next v hr hp =>
            refine Ends.activated (run_ends env _ none w ?_ (by simp)) he rfl rfl ?_
            · simp
            · exact ⟨he, hf.valid, by simp, rfl, hp, rfl⟩
          · next hr =>
            have ha : f.awaiting = none := by
              cases ha : f.awaiting with
              | none => rfl
              | some c => simpa [hr] using (hf.bound c ha).1 he
            refine Ends.activated (run_ends env _ none w ?_ (by simp)) he rfl rfl ?_
            · simp
            · exact ⟨he, hf.valid, by simp, rfl, (hf.free ha).2.2, hr⟩

/-- The entity of a fiber stays, and so does the mark of the tick it runs in. -/
structure Stamped (f : Fiber) (r : Outcome × Fiber × World) : Prop where
  entity : r.2.1.entity = f.entity
  lastTick : r.2.1.lastTick = f.lastTick
  ending (t : Termination) : r.1 = .terminated t → t.entity = f.entity

theorem Stamped.of_eq {f g : Fiber} {r : Outcome × Fiber × World} (h : Stamped g r)
    (he : g.entity = f.entity) (ht : g.lastTick = f.lastTick) : Stamped f r :=
  ⟨h.entity.trans he, h.lastTick.trans ht, fun t hr => (h.ending t hr).trans he⟩

theorem terminate_stamped (f : Fiber) (ending : Ending) (line : Option Nat) (w : World) :
    Stamped f (f.terminate ending line w) := by
  refine ⟨rfl, rfl, ?_⟩
  rintro t ⟨⟩
  rfl

theorem stamp_of_nextStatement {f g : Fiber} {coming : List (List Char)} {evaluated : Bool}
    {r : Search} (h : f.nextStatement coming evaluated = (g, r)) :
    g.entity = f.entity ∧ g.lastTick = f.lastTick := by
  have hg : g = (f.nextStatement coming evaluated).1 := by rw [h]
  rw [hg]
  unfold nextStatement
  split
  · split <;> exact ⟨rfl, rfl⟩
  · exact ⟨rfl, rfl⟩

theorem runStatements_stamped (env : Environment) (budget : Nat) (f : Fiber)
    (coming : List (List Char)) (evaluated : Bool) (w : World) :
    Stamped f (f.runStatements env budget coming evaluated w) := by
  fun_induction runStatements env budget f coming evaluated w with
  | case1 budget f coming evaluated w g c hn =>
    obtain ⟨he, ht⟩ := stamp_of_nextStatement hn
    exact ⟨he, ht, by simp⟩
  | case2 budget f coming evaluated w g c k hn =>
    obtain ⟨he, ht⟩ := stamp_of_nextStatement hn
    exact (terminate_stamped { g with cursor := c } ..).of_eq he ht
  | case3 f coming evaluated w g c line s hn g'
  | case6 f coming evaluated w g c line s hn g'
  | case7 f coming evaluated w g c line s hn g' =>
    obtain ⟨he, ht⟩ := stamp_of_nextStatement hn
    exact (terminate_stamped g' ..).of_eq he ht
  | case4 f coming evaluated w g c line s hn g' budget h σ hx =>
    obtain ⟨he, ht⟩ := stamp_of_nextStatement hn
    obtain ⟨vars, cursor, rfl, -⟩ := execute_ok hx
    exact ⟨he, ht, by simp⟩
  | case5 f coming evaluated w g c line s hn g' budget h σ hx hp ih =>
    obtain ⟨he, ht⟩ := stamp_of_nextStatement hn
    obtain ⟨vars, cursor, rfl, -⟩ := execute_ok hx
    exact ih.of_eq he ht
  | case8 f coming evaluated w g c line s hn =>
    obtain ⟨he, ht⟩ := stamp_of_nextStatement hn
    exact ⟨he, ht, by simp⟩

theorem run_stamped (env : Environment) (f : Fiber) (resumed : Option (List Char)) (w : World) :
    Stamped f (f.run env resumed w) := by
  cases resumed with
  | none => exact runStatements_stamped ..
  | some line => exact runStatements_stamped ..

theorem resume_stamped (env : Environment) (f : Fiber) (w : World) :
    Stamped f (f.resume env w) := by
  unfold resume
  dsimp only
  split
  · exact (terminate_stamped { f with received := none } ..).of_eq rfl rfl
  · next p _ _ =>
    split
    · exact (run_stamped env { f with received := none, pending := none } ..).of_eq rfl rfl
    · exact (terminate_stamped { f with received := none, pending := none } ..).of_eq rfl rfl
  · exact (run_stamped env { f with received := none } ..).of_eq rfl rfl
  · exact run_stamped env f none w

/-- Why a fiber may not run now: it waits for somebody, its entity cannot act, or it has run in this
tick. -/
def Refused (env : Environment) (forced : Bool) (f : Fiber) (w : World) : Prop :=
  f.enabled = false ∨ ∃ e, w.entity? f.entity = some e ∧
    (e.canAct = false ∨ (forced = false ∧ f.lastTick = some env.tick))

/-- How an activation begins. -/
inductive Admission (env : Environment) (forced : Bool) (f : Fiber) (w : World) :
    Outcome × Fiber × World → Prop where

  | refused : f.Refused env forced w → Admission env forced f w (.skipped, f, w)

  | orphaned : f.enabled = true → w.entity? f.entity = none →
      Admission env forced f w (f.terminate (.failed (.nullReference f.entity.reference)) none w)

  | admitted {e : Entity} : f.enabled = true → w.entity? f.entity = some e → e.canAct = true →
      Admission env forced f w (resume env
        { f with lastTick := some env.tick, state := .running, awaiting := none } w)

theorem activate_admission {f : Fiber} (hf : f.Sound) (env : Environment) (forced : Bool)
    (w : World) : Admission env forced f w (f.activate env forced w) := by
  unfold activate
  split
  · next he =>
    refine .refused (.inl ?_)
    simpa [hf.valid] using he
  · next he =>
    have he : f.enabled = true := by simp_all
    split
    · next hn => exact .orphaned he hn
    · next e hw =>
      split
      · next hc => exact .refused (.inr ⟨e, hw, .inl (by simpa using hc)⟩)
      · next hc =>
        split
        · next ht =>
          refine .refused (.inr ⟨e, hw, .inr ?_⟩)
          simpa using ht
        · exact .admitted he hw (by simpa using hc)

theorem activate_refused {env : Environment} {forced : Bool} {f : Fiber} {w : World}
    (h : f.Refused env forced w) : f.activate env forced w = (.skipped, f, w) := by
  unfold activate
  rcases h with he | ⟨e, hw, hc⟩
  · simp [he]
  · by_cases he : (!f.enabled || !f.valid) = true
    · rw [if_pos he]
    · rw [if_neg he, hw]
      rcases hc with hc | ⟨hn, ht⟩
      · simp [hc]
      · simp [hn, ht]

end Fiber

section Example

/-- One entity, which holds one item. -/
def keyWorld : World where
  entities := {(⟨0⟩, {
    id := ⟨0⟩, typeId := 0, owner := 0, pos := ⟨0, 0, 0⟩, storage := [some ⟨0⟩] })}
  items := {(⟨0⟩, { id := ⟨0⟩, typeId := 0 })}

/-- The item has one function. -/
def keyEnvironment : Environment where
  functions := ⟨[{
    id := 0, category := .item, owner := "key", name := "turn", parameterCount := 0 }]⟩
  typeFunctions := { item := {(0, [0])} }
  systems := {}
  source := { list := fun _ => .ok ["key.turn"], load? := fun _ _ => some "var x = 1" }
  tick := 0

end Example

end TileScript
