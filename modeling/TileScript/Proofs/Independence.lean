import TileScript.Proofs.Footprint

/-! # Scripts on different entities

What a script without full authority does depends neither on the events nor on the log, the commands
and the cooldown of another entity, and this is all that a script on that entity can change. So two
such scripts may run in either order.
-/

namespace TileScript

open World

/-- Two worlds that have come from `w₀` and `w₀'` by the same events, and differ besides only in the
log, the cooldown and the commands of `other`. -/
structure World.Abreast (other : EntityId) (w₀ w₀' w w' : World) : Prop where
  rest : { w' with entities := w.entities, events := w.events } = w
  entity {id : EntityId} : id ≠ other → w'.entity? id = w.entity? id
  core : (w'.entity? other).map Entity.core = (w.entity? other).map Entity.core
  emits : ∃ kinds, w₀.Emits w kinds ∧ w₀'.Emits w' kinds

namespace World.Abreast

variable {own other : EntityId} {w₀ w₀' w w' u u' : World} {authority : Int32}

/-- Behind the script of another entity. -/
theorem of_footprint (h : w.Footprint other authority w') : Abreast other w w' w w' where
  rest := h.rest
  entity := h.others
  core := by
    have ho := h.own
    generalize w.entity? other = x at ho
    generalize w'.entity? other = x' at ho
    cases ho with
    | none => rfl
    | some he => exact congrArg some he.core
  emits := ⟨[], ⟨rfl, rfl⟩, ⟨rfl, rfl⟩⟩

theorem emit (h : Abreast other w₀ w₀' w w') (kind : EventKind) :
    Abreast other w₀ w₀' (w.emit kind) (w'.emit kind) where
  rest := by
    unfold World.emit
    rw [← h.rest]
  entity hi := h.entity hi
  core := h.core
  emits := by
    obtain ⟨kinds, he, he'⟩ := h.emits
    exact ⟨kinds ++ [kind], he.trans ⟨rfl, rfl⟩, he'.trans ⟨rfl, rfl⟩⟩

theorem config (h : Abreast other w₀ w₀' w w') : w'.config = w.config :=
  (congrArg World.config h.rest :)

section Operations

variable (h : Abreast other w₀ w₀' w w') (hne : own ≠ other)
include h hne

theorem entity_unique {e e' : Entity} (he : w.entity? own = some e)
    (he' : w'.entity? own = some e') : e = e' := by
  rw [h.entity hne, he] at he'
  exact Option.some.inj he'

theorem indistinct : Indistinct own w w' where
  rest := h.rest
  own := h.entity hne
  core id := by
    by_cases hi : id = other
    · rw [hi, h.core]
    · rw [h.entity hi]

theorem setEntity (e : Entity) :
    Abreast other w₀ w₀' (w.setEntity own e) (w'.setEntity own e) where
  rest := by
    unfold World.setEntity
    rw [← h.rest]
  entity {id} hi := by
    rw [entity?_setEntity, entity?_setEntity, Function.update_apply, Function.update_apply,
      h.entity hi]
  core := by
    rw [entity?_setEntity, entity?_setEntity, Function.update_of_ne hne.symm,
      Function.update_of_ne hne.symm, h.core]
  emits := by
    obtain ⟨kinds, he, he'⟩ := h.emits
    exact ⟨kinds, ⟨he.events, he.tick⟩, ⟨he'.events, he'.tick⟩⟩

theorem updateEntity {f f' : Entity → Entity} (hf : f' = f) (hu : w.updateEntity own f = .ok u)
    (hu' : w'.updateEntity own f' = .ok u') : Abreast other w₀ w₀' u u' := by
  obtain ⟨e, he, rfl⟩ := updateEntity_ok hu
  obtain ⟨e', he', rfl⟩ := updateEntity_ok hu'
  obtain rfl := h.entity_unique hne he he'
  rw [hf]
  exact h.setEntity hne _

theorem sendCommand {c : Command} (hu : w.sendCommand own c authority = .ok u)
    (hu' : w'.sendCommand own c authority = .ok u') : Abreast other w₀ w₀' u u' := by
  obtain ⟨e, he, -, rfl⟩ := sendCommand_ok hu
  obtain ⟨e', he', -, rfl⟩ := sendCommand_ok hu'
  obtain rfl := h.entity_unique hne he he'
  exact h.setEntity hne _

theorem appendLog {message : String} (hu : w.appendLog own message = .ok u)
    (hu' : w'.appendLog own message = .ok u') : Abreast other w₀ w₀' u u' := by
  obtain ⟨e, he, rfl⟩ := appendLog_ok hu
  obtain ⟨e', he', rfl⟩ := appendLog_ok hu'
  obtain rfl := h.entity_unique hne he he'
  rw [h.config]
  exact (h.setEntity hne _).emit _

end Operations

end World.Abreast

/-- With the built-in functions a script without full authority keeps worlds abreast that it cannot
tell apart. -/
theorem Environment.coupled_abreast {env : Environment} {own other : EntityId} {authority : Int32}
    (henv : env.systems = .builtins) (ha : authority ≠ serverOwner) (hne : own ≠ other)
    (w₀ w₀' : World) : env.Coupled env.systems own authority (Abreast other w₀ w₀') where
  indistinct h := h.indistinct hne
  system name := by
    refine Option.rel_self fun f hf call hc w w' h => ?_
    obtain ⟨rfl, rfl, hg⟩ := hc
    rw [henv] at hf
    have hd := SystemTable.builtins_deeds hf call (h.indistinct hne)
    generalize f call w = x at hd
    generalize f call w' = x' at hd
    cases hd with
    | nothing => exact ⟨rfl, h⟩
    | log hu hu' => exact ⟨rfl, h.appendLog hne hu hu'⟩
    | queue hu hu' => exact ⟨rfl, h.sendCommand hne hu hu'⟩
    | move hroot | give hroot | shake hroot => exact absurd (hg hroot) ha
  cool {w w' u u' ticks} h hu hu' := by
    refine h.updateEntity hne ?_ hu hu'
    rw [h.config]

section Diamond

variable {w w' w'' w₁ w₂ w₃ w₄ : World} {a b : EntityId} {authority authority' : Int32}

/-- What two worlds have kept of a third one is the same. -/
theorem World.rest_of_rest (h : { w' with entities := w.entities, events := w.events } = w)
    (h' : { w'' with entities := w.entities, events := w.events } = w) :
    { w'' with entities := w'.entities, events := w'.events } = w' :=
  congrArg (fun v : World => { v with entities := w'.entities, events := w'.events })
    (h'.trans h.symm)

theorem World.eq_of_rest (h : { w' with entities := w.entities, events := w.events } = w)
    (he : ∀ id, w'.entity? id = w.entity? id) : { w' with events := w.events } = w := by
  have hentities : w'.entities = w.entities := Std.ExtTreeMap.ext_getElem? he
  rw [← hentities] at h
  exact h

/-- Two ways from `w`, over what happens at `a` to `w₁` and on to `w₂`, and over what happens at `b`
to `w₃` and on to `w₄`, lead to the same world up to the order of events. -/
theorem World.Abreast.meet (hne : a ≠ b) (hw : w.events.limit = 0)
    (hb : w₁.Footprint b authority w₂) (ha : w₃.Footprint a authority' w₄)
    (hbs : Abreast a w w₁ w₃ w₂) (has : Abreast b w w₃ w₁ w₄) :
    ∃ ea eb, w₂.events.events.toList = w.events.events.toList ++ ea ++ eb ∧
      w₄.events.events.toList = w.events.events.toList ++ eb ++ ea ∧
      w₄.events.limit = w₂.events.limit ∧ { w₄ with events := w₂.events } = w₂ := by
  obtain ⟨ka, hka, hka'⟩ := has.emits
  obtain ⟨kb, hkb, hkb'⟩ := hbs.emits
  obtain ⟨hl₂, hlimit₂⟩ := (hka.trans hkb').toList hw
  obtain ⟨hl₄, hlimit₄⟩ := (hkb.trans hka').toList hw
  have hentity (id : EntityId) : w₄.entity? id = w₂.entity? id := by
    by_cases hi : id = b
    · have hia : id ≠ a := hi ▸ hne.symm
      rw [ha.others hia, hbs.entity hia]
    · rw [has.entity hi, hb.others hi]
  refine ⟨ka.map (⟨w.tick, ·⟩), kb.map (⟨w.tick, ·⟩), ?_, ?_, ?_, ?_⟩
  · rw [hl₂, List.map_append, List.append_assoc]
  · rw [hl₄, List.map_append, List.append_assoc]
  · rw [hlimit₂, hlimit₄]
  · exact eq_of_rest (rest_of_rest hb.rest has.rest) hentity

end Diamond

namespace Fiber

variable {env : Environment} {a a' b b' : Fiber} {forced forced' : Bool} {o o' : Outcome}
  {w w₁ w₂ : World}

theorem activate_footprint (henv : env.systems = .builtins) (ha : a.authority ≠ serverOwner)
    (h : a.activate env forced w = (o, a', w₁)) : w.Footprint a.entity a.authority w₁ := by
  have hm := (activate_keeps (Environment.keeps_marks henv ha) forced w).1
  rwa [h] at hm

/-- Behind the script of another entity a script runs as it does without it. -/
theorem activate_behind (henv : env.systems = .builtins) (ha : a.authority ≠ serverOwner)
    (hb : b.authority ≠ serverOwner) (hne : a.entity ≠ b.entity)
    (h₁ : a.activate env forced w = (o, a', w₁))
    (h₂ : b.activate env forced' w = (o', b', w₂)) :
    ∃ w₃, b.activate env forced' w₁ = (o', b', w₃) ∧ Abreast a.entity w w₁ w₂ w₃ := by
  have hs := activate_coupled (Environment.coupled_abreast henv hb hne.symm w w₁) forced'
    (.of_footprint (activate_footprint henv ha h₁))
  rw [h₂] at hs
  exact ⟨(b.activate env forced' w₁).2.2, Prod.ext hs.outcome (Prod.ext hs.fiber rfl), hs.world⟩

end Fiber

/-- With the built-in functions, two scripts on different entities, both without full authority,
come to the same whichever of them runs first, and so does the world, except that the events of the
first stand before the events of the second. -/
theorem unprivileged_commute {env : Environment} {a b : Fiber} {w : World}
    (henv : env.systems = .builtins) (ha : a.authority ≠ serverOwner)
    (hb : b.authority ≠ serverOwner) (hne : a.entity ≠ b.entity) (hw : w.events.limit = 0)
    (forced forced' : Bool) :
    ∃ oa a' ob b' w₁ w₂ w₃ w₄ ea eb,
      a.activate env forced w = (oa, a', w₁) ∧ b.activate env forced' w₁ = (ob, b', w₂) ∧
      b.activate env forced' w = (ob, b', w₃) ∧ a.activate env forced w₃ = (oa, a', w₄) ∧
      w₂.events.events.toList = w.events.events.toList ++ ea ++ eb ∧
      w₄.events.events.toList = w.events.events.toList ++ eb ++ ea ∧
      w₄.events.limit = w₂.events.limit ∧ { w₄ with events := w₂.events } = w₂ := by
  rcases h₁ : a.activate env forced w with ⟨oa, a', w₁⟩
  rcases h₃ : b.activate env forced' w with ⟨ob, b', w₃⟩
  obtain ⟨w₂, h₂, hbs⟩ := Fiber.activate_behind henv ha hb hne h₁ h₃
  obtain ⟨w₄, h₄, has⟩ := Fiber.activate_behind henv hb ha hne.symm h₃ h₁
  obtain ⟨ea, eb, hmeet⟩ := Abreast.meet hne hw (Fiber.activate_footprint henv hb h₂)
    (Fiber.activate_footprint henv ha h₄) hbs has
  exact ⟨oa, a', ob, b', w₁, w₂, w₃, w₄, ea, eb, rfl, h₂, rfl, h₄, hmeet⟩

section Example

/-- The door has a script, too. -/
def doorKeeper : Fiber := .start 1 ⟨1⟩ 9 "log(2)\nsleep(3)"

/-- The one in front of the door and the door itself log a line each, in either order. -/
theorem unprivileged_commute_door :
    ∃ oa a' ob b' w₁ w₂ w₃ w₄,
      doorWalker.activate doorEnvironment false doorWorld = (oa, a', w₁) ∧
      doorKeeper.activate doorEnvironment false w₁ = (ob, b', w₂) ∧
      doorKeeper.activate doorEnvironment false doorWorld = (ob, b', w₃) ∧
      doorWalker.activate doorEnvironment false w₃ = (oa, a', w₄) ∧
      w₂.events.events.toList = [⟨0, .logged ⟨0⟩ "1"⟩, ⟨0, .logged ⟨1⟩ "2"⟩] ∧
      w₄.events.events.toList = [⟨0, .logged ⟨1⟩ "2"⟩, ⟨0, .logged ⟨0⟩ "1"⟩] ∧
      { w₄ with events := w₂.events } = w₂ := by
  have henv : doorEnvironment.systems = .builtins := rfl
  have ha : doorWalker.authority ≠ serverOwner := by decide
  have hb : doorKeeper.authority ≠ serverOwner := by decide
  have hne : doorWalker.entity ≠ doorKeeper.entity := by decide
  have hw : doorWorld.events.limit = 0 := rfl
  obtain ⟨oa, a', ob, b', w₁, w₂, w₃, w₄, -, -, h₁, h₂, h₃, h₄, -, -, -, heq⟩ :=
    unprivileged_commute henv ha hb hne hw false false
  have he : (doorKeeper.activate doorEnvironment false
      (doorWalker.activate doorEnvironment false doorWorld).2.2).2.2.events.events.toList =
        [⟨0, .logged ⟨0⟩ "1"⟩, ⟨0, .logged ⟨1⟩ "2"⟩] := by decide +kernel
  have he' : (doorWalker.activate doorEnvironment false
      (doorKeeper.activate doorEnvironment false doorWorld).2.2).2.2.events.events.toList =
        [⟨0, .logged ⟨1⟩ "2"⟩, ⟨0, .logged ⟨0⟩ "1"⟩] := by decide +kernel
  rw [h₁, h₂] at he
  rw [h₃, h₄] at he'
  exact ⟨oa, a', ob, b', w₁, w₂, w₃, w₄, h₁, h₂, h₃, h₄, he, he', heq⟩

end Example

end TileScript
