import TileScript.Proofs.Conduct
import TileScript.Proofs.Exclusion
import TileScript.Proofs.TileIndex

/-! # Solid entities

The check of a step looks at the index of tiles. The index may be wrong, but everybody is on it
where he stands. So a checked step never ends where somebody solid stands already, and whatever
scripts do, solid entities stay apart.
-/

namespace TileScript

open World

namespace World

variable {w w' : World} {id : EntityId} {e e' : Entity} {p : TilePos}

/-- Everybody is listed where he stands, perhaps elsewhere, too. -/
def Standing (w : World) : Prop := ∀ id p, w.place? id = some p → id ∈ w.entitiesAt p

/-- An entity of a solid type stands on a tile. -/
def SolidAt (w : World) (id : EntityId) (p : TilePos) : Prop :=
  ∃ e, w.entity? id = some e ∧ e.pos = p ∧ (w.entityTypes.get? e.typeId).any (·.solid) = true

/-- No two entities of solid types share a tile. -/
def SolidsApart (w : World) : Prop := ∀ p i j, w.SolidAt i p → w.SolidAt j p → i = j

section Standing

theorem Standing.of_eq (h : w.Standing) (ht : w'.tiles = w.tiles) (hp : w'.place? = w.place?) :
    w'.Standing := by
  unfold Standing entitiesAt
  rw [ht, hp]
  exact h

/-- A change of an entity that leaves it in place. -/
theorem Standing.of_update (h : w.Standing) (ht : w'.tiles = w.tiles)
    (hw : w'.entity? = Function.update w.entity? id (some e')) (he : w.entity? id = some e)
    (hpos : e'.pos = e.pos) : w'.Standing := by
  refine h.of_eq ht (funext fun j => ?_)
  unfold place?
  rw [hw, Function.update_apply]
  split
  · next hj => rw [hj, he, Option.map_some, Option.map_some, hpos]
  · rfl

/-- An entity that enters a tile is listed there, wherever else it is listed. -/
theorem Standing.enter {tile : TilePos} (h : ∀ j q, j ≠ id → w.place? j = some q →
    j ∈ w.entitiesAt q) (ht : w'.tiles = (w.enterTile id tile).tiles)
    (hp : w'.place? = Function.update w.place? id (some tile)) : w'.Standing := by
  intro j q hj
  have hat : w'.entitiesAt q = (w.enterTile id tile).entitiesAt q := by
    unfold entitiesAt
    rw [ht]
  rw [hp, Function.update_apply] at hj
  rw [hat, entitiesAt_enterTile]
  by_cases hid : j = id
  · subst hid
    rw [if_pos rfl] at hj
    cases hj
    simp
  · rw [if_neg hid] at hj
    have hold := h j q hid hj
    split
    · exact List.mem_append_left _ hold
    · exact hold

theorem mem_leaveTile {j : EntityId} {q : TilePos} (h : j ∈ w.entitiesAt q) (hj : j ≠ id) :
    j ∈ (w.leaveTile id p).entitiesAt q := by
  rw [entitiesAt_leaveTile]
  split
  · exact List.mem_filter.2 ⟨h, by simpa using hj⟩
  · exact h

theorem Standing.insert (h : w.Standing) (hi : w.insertEntity e = .ok w') : w'.Standing :=
  .enter (fun j q _ hj => h j q hj) (by rw [insertEntity_ok hi]; rfl) (place?_of_insertEntity hi)

theorem Standing.remove (h : w.Standing) (hr : w.removeEntity id = .ok (e, w')) :
    w'.Standing := by
  obtain ⟨-, rfl⟩ := removeEntity_ok hr
  intro j q hj
  have hplace : (({ w with entities := w.entities.erase id } : World).leaveTile id e.pos).place? =
      Function.update w.place? id none := place?_erase w id
  rw [hplace, Function.update_apply] at hj
  split at hj
  · cases hj
  · next hid => exact mem_leaveTile (h j q hj) hid

theorem Standing.give {itemType : UInt32} {item : ItemId} (h : w.Standing)
    (hg : w.giveItem id itemType = .ok (item, w')) : w'.Standing := by
  obtain ⟨e, slot, he, -, -, rfl⟩ := giveItem_ok hg
  exact h.of_update rfl (entity?_setEntity w _ _) he rfl

theorem Standing.change {solidCheck : Bool} (h : w.Standing) (hc : Change solidCheck w w') :
    w'.Standing := by
  cases hc with
  | clock | shake | fail => exact h.of_eq rfl rfl
  | act _ _ _ he => exact h.of_update rfl (entity?_setEntity w _ _) he rfl
  | log _ he => exact h.of_update rfl (entity?_setEntity w _ _) he rfl
  | @move id e target _ _ =>
    refine .enter (fun j q hj hp => mem_leaveTile (h j q hp) hj) rfl ?_
    exact place?_setEntity ..

theorem Standing.changes {solidCheck : Bool} (h : w.Standing) (hc : Changes solidCheck w w') :
    w'.Standing := by
  induction hc with
  | refl => exact h
  | tail _ hc ih => exact ih.change hc

/-- No operation loses anybody, not even one that reuses a number. -/
theorem Standing.perform (h : w.Standing) (op : Operation) : (w.perform op).Standing := by
  have hp := performs w op
  generalize w.perform op = w' at hp
  cases hp with
  | adds _ hi => exact h.insert hi
  | removes hr => exact h.remove hr
  | gives hg => exact h.give hg
  | changes _ hc => exact h.changes hc

theorem standing_foldl (ops : List Operation) (h : w.Standing) :
    (ops.foldl perform w).Standing := by
  induction ops generalizing w with
  | nil => exact h
  | cons op ops ih => exact ih (h.perform op)

theorem standing_ofCatalogs (es : Catalog EntityType) (is : Catalog ItemType) (c : WorldConfig) :
    (ofCatalogs es is c).Standing := by
  intro id p h
  rw [place?_ofCatalogs] at h
  cases h

end Standing

section Solid

/-- Whoever is solid makes the tile solid on which he stands. -/
theorem SolidAt.isSolid (h : w.SolidAt id p) (hw : w.Standing) : w.isSolid p = true := by
  obtain ⟨e, he, rfl, hs⟩ := h
  refine List.any_eq_true.2 ⟨id, hw id e.pos (place?_of_entity? he), ?_⟩
  rw [entityTypeOf?, he]
  exact hs

theorem SolidsApart.of_solidAt (h : w.SolidsApart) (hs : ∀ j q, w'.SolidAt j q → w.SolidAt j q) :
    w'.SolidsApart := by
  intro p i j hi hj
  exact h p i j (hs i p hi) (hs j p hj)

/-- A change of an entity that leaves its place and its type. -/
theorem SolidsApart.of_update (h : w.SolidsApart) (ht : w'.entityTypes = w.entityTypes)
    (hw : w'.entity? = Function.update w.entity? id (some e')) (he : w.entity? id = some e)
    (hpos : e'.pos = e.pos) (htype : e'.typeId = e.typeId) : w'.SolidsApart := by
  refine h.of_solidAt fun j q hj => ?_
  obtain ⟨f, hf, rfl, hs⟩ := hj
  rw [hw, Function.update_apply] at hf
  rw [ht] at hs
  split at hf
  · next hid =>
    obtain rfl := hid
    cases hf
    exact ⟨e, he, hpos.symm, htype ▸ hs⟩
  · exact ⟨f, hf, rfl, hs⟩

/-- An entity that has moved is on its new tile, and the others are where they were. -/
theorem SolidAt.of_moved {j : EntityId} {q : TilePos}
    (h : (w.setEntity id { e with pos := p }.syncPosition).SolidAt j q) :
    (j = id ∧ q = p) ∨ (j ≠ id ∧ w.SolidAt j q) := by
  obtain ⟨e', he, rfl, hs⟩ := h
  rw [entity?_setEntity, Function.update_apply] at he
  split at he
  · next hj =>
    cases he
    exact .inl ⟨hj, rfl⟩
  · next hj => exact .inr ⟨hj, e', he, rfl, hs⟩

/-- Everybody is listed where he stands, and solid entities are apart. -/
structure Grounded (w : World) : Prop where
  standing : w.Standing
  apart : w.SolidsApart

theorem Grounded.change (h : w.Grounded) (hc : Change true w w') : w'.Grounded := by
  refine ⟨h.standing.change hc, ?_⟩
  cases hc with
  | clock | shake | fail => exact h.apart
  | act _ _ _ he => exact h.apart.of_update rfl (entity?_setEntity w _ _) he rfl rfl
  | log _ he => exact h.apart.of_update rfl (entity?_setEntity w _ _) he rfl rfl
  | @move id e target _ hfree =>
    have hnone {j : EntityId} : ¬ w.SolidAt j target := by
      intro hj
      simp [hj.isSolid h.standing] at hfree
    intro p i j hi hj
    rcases SolidAt.of_moved hi with ⟨rfl, rfl⟩ | ⟨hne, hi⟩
    · rcases SolidAt.of_moved hj with ⟨rfl, -⟩ | ⟨-, hj⟩
      · rfl
      · exact absurd hj hnone
    · rcases SolidAt.of_moved hj with ⟨rfl, rfl⟩ | ⟨-, hj⟩
      · exact absurd hi hnone
      · exact h.apart p i j hi hj

theorem Grounded.deed (h : w.Grounded) (hd : Deed w w') : w'.Grounded := by
  cases hd with
  | change hc => exact h.change hc
  | give hg =>
    refine ⟨h.standing.give hg, ?_⟩
    obtain ⟨e, slot, he, -, -, rfl⟩ := giveItem_ok hg
    exact h.apart.of_update rfl (entity?_setEntity w _ _) he rfl rfl

theorem Grounded.deeds (h : w.Grounded) (hd : Deeds w w') : w'.Grounded := by
  induction hd with
  | refl => exact h
  | tail _ hd ih => exact ih.deed hd

end Solid

end World

namespace Simulation

namespace Point

variable {p q : Point} {c : Cause}

/-- Whether a run can get from a point to another one with nobody from outside. -/
def LeadsAlone (p q : Point) : Prop :=
  Relation.ReflTransGen (fun p q => ∃ c, Next c p q ∧ c ≠ .outside) p q

theorem Next.deeds (hp : p.Regular) (h : Next c p q) (hc : c ≠ .outside) :
    Deeds p.sim.world q.sim.world := by
  cases h with
  | attach ha =>
    obtain ⟨x, -, ha⟩ := of_bind_ok ha
    cases ha
    exact .refl
  | detach | turn => exact .refl
  | change => exact absurd rfl hc
  | enter => exact (Change.clock _).deeds
  | @step m ids task tasks next s w hs =>
    have henv : (m.environment m.clock).systems = .builtins := hp.systems
    have hd := Scheduler.step_deeds henv m.scheduler m.world task
    rwa [hs] at hd
  | entities => exact (tickEntities_changes _).deeds

theorem LeadsAlone.deeds (hp : p.Regular) (h : LeadsAlone p q) :
    q.Regular ∧ Deeds p.sim.world q.sim.world := by
  induction h with
  | refl => exact ⟨hp, .refl⟩
  | tail _ hn ih =>
    obtain ⟨c, hn, hc⟩ := hn
    exact ⟨ih.1.next hn, ih.2.trans (hn.deeds ih.1 hc)⟩

end Point

open Point

theorem grounded_of_create {w : World} {source : ScriptSource} {limits : Limits} {m : Simulation}
    (h : create w source limits = .ok m) (hw : w.Grounded) : m.world.Grounded := by
  obtain ⟨functions, -, h⟩ := of_bind_ok h
  cases h
  exact ⟨hw.standing, hw.apart⟩

/-- In a simulation of a world that has come about by operations, in which solid entities are apart,
they stay apart at every point of every run, within ticks and behind any number of ticks: whatever
the scripts are and whomever they act for, as long as there are the built-in functions only and
nobody else changes the world. -/
theorem solids_stay_apart {es : Catalog EntityType} {is : Catalog ItemType} {c : WorldConfig}
    {ops : List Operation} {source : ScriptSource} {limits : Limits} {m : Simulation}
    (hm : create (ops.foldl perform (ofCatalogs es is c)) source limits = .ok m)
    (hs : (ops.foldl perform (ofCatalogs es is c)).SolidsApart) {p : Point}
    (hp : LeadsAlone ⟨m, .rest⟩ p) :
    p.sim.world.SolidsApart ∧
      ∀ {steps n : Nat} {m' : Simulation}, p.sim.run steps n = some m' → m'.world.SolidsApart := by
  have hstart : m.world.Grounded :=
    grounded_of_create hm ⟨standing_foldl ops (standing_ofCatalogs es is c), hs⟩
  obtain ⟨hreg, hd⟩ := hp.deeds (regular_of_create hm)
  have hground : p.sim.world.Grounded := hstart.deeds hd
  exact ⟨hground.apart, fun hrun => (hground.deeds (run_deeds hreg.systems hrun)).apart⟩

section Example

/-- Two golems, one above the other. -/
def golems : World :=
  [Operation.spawn 0 ⟨0, 0, 0⟩ 0, .spawn 0 ⟨0, 0, 1⟩ 0].foldl perform
    (ofCatalogs ⟨[{ id := 0, name := "Golem", solid := true }]⟩ {})

theorem golems_apart : golems.SolidsApart := by
  have hat {i : EntityId} {p : TilePos} (h : golems.SolidAt i p) :
      i ∈ [⟨0⟩, ⟨1⟩] ∧ golems.place? i = some p := by
    obtain ⟨e, he, rfl, -⟩ := h
    have hkeys : golems.entities.keys = [⟨0⟩, ⟨1⟩] := by decide +kernel
    refine ⟨?_, place?_of_entity? he⟩
    rw [← hkeys, Std.ExtTreeMap.mem_keys, Std.ExtTreeMap.mem_iff_isSome_getElem?]
    exact Option.isSome_iff_exists.2 ⟨e, he⟩
  have hplaces : ∀ i ∈ [⟨0⟩, ⟨1⟩], ∀ j ∈ [⟨0⟩, ⟨1⟩], golems.place? i = golems.place? j → i = j := by
    decide +kernel
  intro p i j hi hj
  obtain ⟨hi, hip⟩ := hat hi
  obtain ⟨hj, hjp⟩ := hat hj
  exact hplaces i hi j hj (hip.trans hjp.symm)

/-- The lower one tries to step up, and stays below. -/
theorem solids_stay_apart_golems :
    golems.SolidsApart ∧ ∃ m₀ m m', create golems (.ofTable fun _ => {}) {} = .ok m₀ ∧
      m₀.attachWithAuthority ⟨0⟩ "up()" 0 = .ok (0, m) ∧ m.run 5 2 = some m' ∧
      m'.world.place? ⟨0⟩ = some ⟨0, 0, 0⟩ ∧ m'.world.SolidsApart := by
  obtain ⟨m₀, hm⟩ : ∃ m₀, create golems (.ofTable fun _ => {}) {} = .ok m₀ := ⟨_, rfl⟩
  obtain ⟨m, ha⟩ : ∃ m, m₀.attachWithAuthority ⟨0⟩ "up()" 0 = .ok (0, m) := by
    cases hm
    exact ⟨_, rfl⟩
  have hlead : LeadsAlone ⟨m₀, .rest⟩ ⟨m, .rest⟩ := .single ⟨_, .attach ha, nofun⟩
  have hrun : (m.run 5 2).map (·.world.place? ⟨0⟩) = some (some ⟨0, 0, 0⟩) := by
    cases hm
    cases ha
    decide +kernel
  obtain ⟨m', hm', hplace⟩ := Option.map_eq_some_iff.1 hrun
  have hapart := (solids_stay_apart hm golems_apart hlead).2 hm'
  exact ⟨golems_apart, m₀, m, m', hm, ha, hm', hplace, hapart⟩

end Example

end Simulation

end TileScript
