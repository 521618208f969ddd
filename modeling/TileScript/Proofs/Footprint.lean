import TileScript.Proofs.Coupling

/-! # The footprint of a script

A script without full authority cannot call on `_`. So with the built-in functions it changes of the
world only the log, the commands and the cooldown of its own entity, and the log of events gets only
what it has logged there.
-/

namespace TileScript

open World

/-- What a script that acts for `authority` may change of its entity: it may log and pause, and
queue commands if it acts for the owner. -/
structure Entity.Footprint (authority : Int32) (e e' : Entity) : Prop where
  core : e'.core = e.core
  commands : ∃ cs, e'.commands = e.commands ++ cs ∧ (cs ≠ [] → e.owner = authority)

/-- What a script on `own` that acts for `authority` may change of a world, apart from events. -/
structure World.Footprint (own : EntityId) (authority : Int32) (w w' : World) : Prop where
  rest : { w' with entities := w.entities, events := w.events } = w
  limit : w'.events.limit = w.events.limit
  others {id : EntityId} : id ≠ own → w'.entity? id = w.entity? id
  own : Option.Rel (Entity.Footprint authority) (w.entity? own) (w'.entity? own)

namespace Entity.Footprint

variable {authority : Int32} {e₁ e₂ e₃ : Entity}

theorem refl (authority : Int32) (e : Entity) : Footprint authority e e :=
  ⟨rfl, [], (List.append_nil _).symm, nofun⟩

theorem trans (h : Footprint authority e₁ e₂) (h' : Footprint authority e₂ e₃) :
    Footprint authority e₁ e₃ := by
  obtain ⟨cs, hcs, ho⟩ := h.commands
  obtain ⟨cs', hcs', ho'⟩ := h'.commands
  have howner : e₂.owner = e₁.owner := (congrArg Entity.owner h.core :)
  refine ⟨h'.core.trans h.core, cs ++ cs', ?_, fun hne => ?_⟩
  · rw [hcs', hcs, List.append_assoc]
  · by_cases hc : cs = []
    · exact howner ▸ ho' fun hc' => hne (by rw [hc, hc']; rfl)
    · exact ho hc

end Entity.Footprint

namespace World.Footprint

variable {own : EntityId} {authority : Int32} {w₁ w₂ w₃ w : World} {e e' : Entity}

theorem refl (own : EntityId) (authority : Int32) (w : World) : Footprint own authority w w := by
  refine ⟨rfl, rfl, fun _ => rfl, ?_⟩
  exact Option.rel_self fun e _ => .refl authority e

theorem trans (h : Footprint own authority w₁ w₂) (h' : Footprint own authority w₂ w₃) :
    Footprint own authority w₁ w₃ where
  rest := by rw [← h.rest, ← h'.rest]
  limit := h'.limit.trans h.limit
  others hi := (h'.others hi).trans (h.others hi)
  own := by
    have h₁ := h.own
    have h₂ := h'.own
    generalize w₁.entity? own = x₁ at h₁
    generalize w₂.entity? own = x₂ at h₁ h₂
    generalize w₃.entity? own = x₃ at h₂
    cases h₁ with
    | none =>
      cases h₂
      exact .none
    | some he =>
      cases h₂ with
      | some he' => exact .some (he.trans he')

theorem setEntity (h : w.entity? own = some e) (he : Entity.Footprint authority e e') :
    Footprint own authority w (w.setEntity own e') where
  rest := rfl
  limit := rfl
  others hi := by rw [entity?_setEntity, Function.update_of_ne hi]
  own := by
    rw [entity?_setEntity, Function.update_self, h]
    exact .some he

theorem emit (w : World) (kind : EventKind) : Footprint own authority w (w.emit kind) where
  rest := rfl
  limit := EventLog.limit_push ..
  others _ := rfl
  own := (Footprint.refl own authority w).own

end World.Footprint

/-- What a script without full authority does to the world. -/
def World.Marks (own : EntityId) (authority : Int32) (w w' : World) : Prop :=
  w.Footprint own authority w' ∧ ∃ messages : List String, w.Emits w' (messages.map (.logged own))

namespace World.Marks

variable {own : EntityId} {authority : Int32} {w₁ w₂ w₃ w w' : World} {e e' : Entity}

theorem setEntity (h : w.entity? own = some e) (he : Entity.Footprint authority e e') :
    Marks own authority w (w.setEntity own e') :=
  ⟨.setEntity h he, [], rfl, rfl⟩

theorem trans (h : Marks own authority w₁ w₂) (h' : Marks own authority w₂ w₃) :
    Marks own authority w₁ w₃ := by
  obtain ⟨hf, ms, hms⟩ := h
  obtain ⟨hf', ms', hms'⟩ := h'
  refine ⟨hf.trans hf', ms ++ ms', ?_⟩
  rw [List.map_append]
  exact hms.trans hms'

theorem appendLog {message : String} (h : w.appendLog own message = .ok w') :
    Marks own authority w w' := by
  obtain ⟨e, he, rfl⟩ := appendLog_ok h
  have hset : Marks own authority w (w.setEntity own (e.pushLog message w.config.maxLogLines)) :=
    .setEntity he ⟨rfl, [], (List.append_nil _).symm, nofun⟩
  exact hset.trans ⟨.emit _ _, [message], rfl, rfl⟩

theorem sendCommand {c : Command} (h : w.sendCommand own c authority = .ok w') :
    Marks own authority w w' := by
  obtain ⟨e, he, ho, rfl⟩ := sendCommand_ok h
  exact .setEntity he ⟨rfl, [c], rfl, fun _ => ho⟩

theorem extendCooldown {ticks : Nat} (h : w.extendCooldown own ticks = .ok w') :
    Marks own authority w w' := by
  obtain ⟨e, he, rfl⟩ := updateEntity_ok h
  exact .setEntity he ⟨rfl, [], (List.append_nil _).symm, nofun⟩

end World.Marks

section Keeps

variable {env : Environment} {own : EntityId} {authority : Int32}

/-- With the built-in functions a script without full authority does nothing else. -/
theorem Environment.keeps_marks (henv : env.systems = .builtins) (ha : authority ≠ serverOwner) :
    env.Keeps own authority (Marks own authority) where
  refl w := ⟨.refl own authority w, [], rfl, rfl⟩
  trans := Marks.trans
  system {name f call} w hf hc := by
    obtain ⟨rfl, rfl, hg⟩ := hc
    rw [henv] at hf
    have hd := SystemTable.builtins_deeds hf call (.refl call.entity w)
    generalize f call w = x at hd
    cases hd with
    | nothing => exact ⟨.refl _ _ w, [], rfl, rfl⟩
    | log hu _ => exact .appendLog hu
    | queue hu _ => exact .sendCommand hu
    | move hroot | give hroot | shake hroot => exact absurd (hg hroot) ha
  cool := Marks.extendCooldown

end Keeps

/-- Tables with functions of the same names that do the same, except perhaps for calls on `_`. -/
def SystemTable.AgreesOffRoot (systems systems' : SystemTable) : Prop :=
  ∀ name : String, Option.Rel (fun f f' => ∀ call : SystemCall, call.accessor ≠ .authority →
    f' call = f call) systems[name]? systems'[name]?

/-- Scripts without full authority cannot tell such tables apart. -/
theorem SystemTable.AgreesOffRoot.coupled {env : Environment} {systems : SystemTable}
    {authority : Int32} (h : env.systems.AgreesOffRoot systems) (ha : authority ≠ serverOwner)
    (own : EntityId) : env.Coupled systems own authority Eq := by
  refine .of_eq fun name => Option.rel_mono (h name) fun f f' hf call hc => ?_
  have hroot : call.accessor ≠ .authority := by
    intro hr
    exact ha (hc.authority ▸ hc.granted hr)
  exact hf call hroot

/-- With the built-in functions, a script without full authority leaves a footprint on its own
entity only, and the events it adds are of what it has logged there. It makes no call on `_`:
whatever the functions did for such calls, it would run as it does. -/
theorem footprint_of_unprivileged {env : Environment} {f : Fiber} {w : World}
    (henv : env.systems = .builtins) (ha : f.authority ≠ serverOwner) (hw : w.events.limit = 0)
    (forced : Bool) :
    w.Footprint f.entity f.authority (f.activate env forced w).2.2 ∧
    (∃ messages : List String, (f.activate env forced w).2.2.events.events.toList =
      w.events.events.toList ++ messages.map fun m => ⟨w.tick, .logged f.entity m⟩) ∧
    ∀ systems, SystemTable.builtins.AgreesOffRoot systems →
      f.activate { env with systems } forced w = f.activate env forced w := by
  obtain ⟨hfoot, messages, hm⟩ := Fiber.activate_keeps (Environment.keeps_marks henv ha) forced w
  refine ⟨hfoot, ⟨messages, ?_⟩, fun systems hs => ?_⟩
  · rw [(hm.toList hw).1, List.map_map]
    rfl
  · rw [← henv] at hs
    have hc := Fiber.activate_coupled (f := f) (hs.coupled ha f.entity) forced (Eq.refl w)
    exact Prod.ext hc.outcome (Prod.ext hc.fiber hc.world.symm)

section Example

/-- Somebody who speaks, then walks. -/
def doorWalker : Fiber := .start 0 ⟨0⟩ 7 "log(1)\nup()"

/-- The built-in functions, but for calls on `_`, which make everything vanish. -/
def doorDoom : SystemTable :=
  SystemTable.builtins.map fun _ f call w =>
    if call.accessor = .authority then (.done, {}) else f call w

theorem agreesOffRoot_doorDoom : SystemTable.builtins.AgreesOffRoot doorDoom := by
  intro name
  rw [doorDoom, Std.ExtTreeMap.getElem?_map]
  cases SystemTable.builtins[name]? with
  | none => exact .none
  | some f =>
    refine .some fun call hroot => ?_
    funext w
    exact if_neg hroot

/-- The one in front of the door has logged a line and is about to walk, and nothing else has
changed. -/
theorem footprint_of_unprivileged_door :
    doorWalker.authority ≠ serverOwner ∧ doorWorld.events.limit = 0 ∧
    doorWorld.Footprint ⟨0⟩ 7 (doorWalker.activate doorEnvironment false doorWorld).2.2 ∧
    ((doorWalker.activate doorEnvironment false doorWorld).2.2.entity? ⟨0⟩).map
      (fun e => (e.log, e.commands)) = some (["1"], [.move .up]) ∧
    doorWalker.activate { doorEnvironment with systems := doorDoom } false doorWorld =
      doorWalker.activate doorEnvironment false doorWorld := by
  have henv : doorEnvironment.systems = .builtins := rfl
  have ha : doorWalker.authority ≠ serverOwner := by decide
  have hw : doorWorld.events.limit = 0 := rfl
  obtain ⟨hfoot, -, hsame⟩ := footprint_of_unprivileged henv ha hw false
  exact ⟨ha, hw, hfoot, by decide +kernel, hsame doorDoom agreesOffRoot_doorDoom⟩

end Example

end TileScript
