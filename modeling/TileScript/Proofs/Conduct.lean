import TileScript.Proofs.Coupling
import TileScript.Proofs.Steps
import TileScript.Simulation

/-! # What a run does to its world

With the built-in functions, scripts and entities do little to a world: they make items, and they
change it without that anybody comes or goes, with all steps checked. What these deeds keep is kept
by every run.
-/

namespace TileScript

open World

namespace World

/-- What scripts and entities do to a world. -/
inductive Deed (w : World) : World → Prop where

  | change {w' : World} : Change true w w' → Deed w w'

  | give {id : EntityId} {itemType : UInt32} {item : ItemId} {w' : World} :
      w.giveItem id itemType = .ok (item, w') → Deed w w'

/-- Deeds one after the other. -/
abbrev Deeds : World → World → Prop := Relation.ReflTransGen Deed

theorem Change.deeds {w w' : World} (h : Change true w w') : Deeds w w' := .single (.change h)

theorem Changes.deeds {w w' : World} (h : Changes true w w') : Deeds w w' := by
  induction h with
  | refl => exact .refl
  | tail _ hc ih => exact ih.tail (.change hc)

end World

/-- With the built-in functions these are all deeds of a script. -/
theorem Environment.keeps_deeds {env : Environment} (henv : env.systems = .builtins)
    (own : EntityId) (authority : Int32) : env.Keeps own authority Deeds where
  refl _ := .refl
  trans := .trans
  system {name f call} w hf _ := by
    rw [henv] at hf
    have hd := SystemTable.builtins_deeds hf call (.refl call.entity w)
    generalize f call w = x at hd
    cases hd with
    | nothing => exact .refl
    | log hu _ => exact (change_of_appendLog hu).deeds
    | queue hu _ => exact (change_of_sendCommand hu).deeds
    | move _ hu _ => exact (changes_of_tryMove hu).deeds
    | give _ hu _ => exact .single (.give hu)
    | shake _ hu _ => exact (change_of_shake hu).deeds
  cool hu := (change_of_extendCooldown hu).deeds

namespace Scheduler

variable {env : Environment} {s s₀ : Scheduler} {w w₀ : World}

theorem reportFailure_deeds (w : World) (id : EntityId) (message : String) :
    Deeds w (reportFailure w id message) := by
  unfold reportFailure
  dsimp only
  split
  · next w' hw => exact (change_of_appendLog hw).deeds.tail (.change (.fail id message))
  · exact .single (.change (.fail id message))

theorem step_deeds (henv : env.systems = .builtins) (s : Scheduler) (w : World) (task : Task) :
    Deeds w (s.step env w task).2.1 :=
  step_world (fun _ => .refl) .trans
    (fun _ _ => Fiber.activate_keeps (Environment.keeps_deeds henv _ _) task.forced w)
    reportFailure_deeds

theorem AtWork.deeds {ids : List FiberId} {tasks : List Task} (henv : env.systems = .builtins)
    (h : AtWork env s₀ w₀ ids tasks s w) : Deeds w₀ w := by
  induction h with
  | enter => exact .refl
  | next _ ih => exact ih
  | step _ ih => exact ih.trans (step_deeds henv ..)

end Scheduler

namespace Simulation

variable {m m' : Simulation} {steps : Nat}

/-- Both phases of a tick consist of deeds. -/
theorem tick_deeds (hm : m.systems = .builtins) (h : m.tick steps = some m') :
    m'.systems = .builtins ∧ Deeds m.world m'.world := by
  obtain ⟨⟨s, w⟩, ht, h⟩ := Option.bind_eq_some_iff.1 h
  cases h
  have hclock : Deeds m.world { m.world with tick := m.clock + 1 } := (Change.clock _).deeds
  have hscripts : Deeds { m.world with tick := m.clock + 1 } w :=
    (Scheduler.AtWork.of_tick ht).deeds hm
  exact ⟨hm, (hclock.trans hscripts).trans (tickEntities_changes w).deeds⟩

theorem run_deeds {n : Nat} (hm : m.systems = .builtins) (h : m.run steps n = some m') :
    Deeds m.world m'.world := by
  induction n generalizing m with
  | zero =>
    cases h
    exact .refl
  | succ n ih =>
    obtain ⟨m₁, ht, h⟩ := Option.bind_eq_some_iff.1 h
    obtain ⟨hm₁, hd⟩ := tick_deeds hm ht
    exact hd.trans (ih hm₁ h)

end Simulation

end TileScript
