import TileScript.Proofs.Changes

/-! # The tile index

The index of tiles lists every entity once, on the tile where it stands, and nobody else. All
operations keep it so, except that an entity must not be added under a number that is in use.
-/

namespace TileScript.World

variable {w w' : World} {id : EntityId} {e : Entity} {p q : TilePos}
  {place : EntityId → Option TilePos}

/-- Where an entity stands, if there is one with this number. -/
def place? (w : World) (id : EntityId) : Option TilePos := (w.entity? id).map (·.pos)

/-- The index lists every number once on the tile given for it, and nowhere else. -/
def Lists (w : World) (place : EntityId → Option TilePos) : Prop :=
  ∀ p id, (w.entitiesAt p).count id = if place id = some p then 1 else 0

/-- The index lists the entities where they stand. -/
def Indexed (w : World) : Prop := w.Lists w.place?

/-- Numbers in use are below the one that comes next. -/
def Numbered (w : World) : Prop := ∀ id, (w.place? id).isSome → id.val < w.nextEntity

section Tables

theorem entitiesAt_enterTile (w : World) (id : EntityId) (p q : TilePos) :
    (w.enterTile id p).entitiesAt q =
      if p = q then w.entitiesAt q ++ [id] else w.entitiesAt q := by
  unfold entitiesAt enterTile
  simp only [Std.ExtTreeMap.getD_insert, Std.LawfulEqCmp.compare_eq_iff_eq]
  split
  · next h => rw [h, entitiesAt]
  · rfl

theorem entitiesAt_leaveTile (w : World) (id : EntityId) (p q : TilePos) :
    (w.leaveTile id p).entitiesAt q =
      if p = q then (w.entitiesAt q).filter (· != id) else w.entitiesAt q := by
  unfold leaveTile
  dsimp only
  split
  · next he =>
    simp only [entitiesAt, Std.ExtTreeMap.getD_erase, Std.LawfulEqCmp.compare_eq_iff_eq]
    split
    · next h =>
      subst h
      exact (List.isEmpty_iff.1 he).symm
    · rfl
  · simp only [entitiesAt, Std.ExtTreeMap.getD_insert, Std.LawfulEqCmp.compare_eq_iff_eq]
    split
    · next h =>
      subst h
      rfl
    · rfl

theorem place?_of_entity? (h : w.entity? id = some e) : w.place? id = some e.pos := by
  rw [place?, h]
  rfl

theorem place?_setEntity (w : World) (id : EntityId) (e : Entity) :
    (w.setEntity id e).place? = Function.update w.place? id (some e.pos) := by
  funext j
  unfold place? entity? setEntity
  simp only [Std.ExtTreeMap.getElem?_insert, Std.LawfulEqCmp.compare_eq_iff_eq,
    Function.update_apply, eq_comm (a := id)]
  split <;> rfl

theorem place?_erase (w : World) (id : EntityId) :
    { w with entities := w.entities.erase id }.place? = Function.update w.place? id none := by
  funext j
  unfold place? entity?
  simp only [Std.ExtTreeMap.getElem?_erase, Std.LawfulEqCmp.compare_eq_iff_eq,
    Function.update_apply, eq_comm (a := id)]
  split <;> rfl

end Tables

section Listing

/-- An entity that leaves its tile is listed nowhere. -/
theorem Lists.leaveTile (h : w.Lists place) (hp : place id = some p) :
    (w.leaveTile id p).Lists (Function.update place id none) := by
  intro q j
  rw [entitiesAt_leaveTile, Function.update_apply]
  by_cases hj : j = id
  · subst hj
    have hold := h q j
    rw [hp] at hold
    by_cases hpq : p = q
    · simp [hpq, List.count_eq_zero]
    · simpa [hpq] using hold
  · rw [if_neg hj, ← h q j]
    split
    · exact List.count_filter (by simpa using hj)
    · rfl

/-- An entity that is listed nowhere can enter a tile. -/
theorem Lists.enterTile (h : w.Lists place) (hp : place id = none) (p : TilePos) :
    (w.enterTile id p).Lists (Function.update place id (some p)) := by
  intro q j
  rw [entitiesAt_enterTile, Function.update_apply]
  by_cases hj : j = id
  · subst hj
    have hq := h q j
    rw [hp, if_neg (by simp)] at hq
    rw [if_pos rfl]
    by_cases hpq : p = q
    · simp [hpq, hq]
    · simp [hpq, hq]
  · rw [if_neg hj, ← h q j]
    split
    · simp [List.count_append, Ne.symm hj]
    · rfl

/-- An entity that is listed already is listed wrongly behind another tile that it enters. -/
theorem Lists.not_enterTile (h : w.Lists place) (hp : (place id).isSome) (p : TilePos) :
    ¬ (w.enterTile id p).Lists (Function.update place id (some p)) := by
  intro hl
  obtain ⟨q, hq⟩ := Option.isSome_iff_exists.1 hp
  have hold := h q id
  have hnew := hl q id
  rw [hq, if_pos rfl] at hold
  rw [entitiesAt_enterTile, Function.update_self] at hnew
  by_cases hpq : p = q
  · simp [hpq, hold] at hnew
  · simp [hpq, hold] at hnew

end Listing

/-- What all operations keep that add no entity. -/
structure Maintains (w w' : World) : Prop where
  indexed : w.Indexed → w'.Indexed
  numbered : w.Numbered → w'.Numbered

namespace Maintains

theorem refl (w : World) : Maintains w w := ⟨id, id⟩

theorem trans {w₁ w₂ w₃ : World} (h : Maintains w₁ w₂) (h' : Maintains w₂ w₃) :
    Maintains w₁ w₃ := ⟨h'.indexed ∘ h.indexed, h'.numbered ∘ h.numbered⟩

/-- A change that leaves everybody in place. -/
theorem of_place_eq (ht : w'.tiles = w.tiles) (hp : w'.place? = w.place?)
    (hn : w'.nextEntity = w.nextEntity) : Maintains w w' where
  indexed h := by
    unfold Indexed Lists entitiesAt
    rw [ht, hp]
    exact h
  numbered h := by
    unfold Numbered
    rw [hp, hn]
    exact h

theorem setEntity {e' : Entity} (he : w.entity? id = some e) (hp : e'.pos = e.pos) :
    Maintains w (w.setEntity id e') := by
  refine of_place_eq rfl ?_ rfl
  rw [place?_setEntity, hp, ← place?_of_entity? he, Function.update_eq_self]

theorem emit (w : World) (k : EventKind) : Maintains w (w.emit k) := of_place_eq rfl rfl rfl

end Maintains

section Operations

theorem giveItem_maintains {itemType : UInt32} {item : ItemId}
    (h : w.giveItem id itemType = .ok (item, w')) : Maintains w w' := by
  obtain ⟨e, slot, he, -, -, rfl⟩ := giveItem_ok h
  have hset : Maintains w (w.setEntity id { e with storage := e.storage.set slot (some item) }) :=
    .setEntity he rfl
  exact hset.trans (.of_place_eq rfl rfl rfl)

theorem removeEntity_maintains (h : w.removeEntity id = .ok (e, w')) : Maintains w w' := by
  obtain ⟨he, rfl⟩ := removeEntity_ok h
  have hplace : (({ w with entities := w.entities.erase id } : World).leaveTile id e.pos).place? =
      Function.update w.place? id none := place?_erase w id
  constructor
  · intro hw
    have hl : Lists { w with entities := w.entities.erase id } w.place? := hw
    rw [Indexed, hplace]
    exact hl.leaveTile (place?_of_entity? he)
  · intro hw j hj
    apply hw
    rw [hplace, Function.update_apply] at hj
    split at hj
    · cases hj
    · exact hj

theorem Change.maintains {solidCheck : Bool} (h : Change solidCheck w w') : Maintains w w' := by
  cases h with
  | clock => exact .of_place_eq rfl rfl rfl
  | act _ _ _ he => exact .setEntity he rfl
  | @log id e message he =>
    have hset : Maintains w (w.setEntity id (e.pushLog message w.config.maxLogLines)) :=
      .setEntity he rfl
    exact hset.trans (.emit _ _)
  | shake | fail => exact .emit _ _
  | move target he _ =>
    have hp := place?_of_entity? he
    refine Maintains.trans ⟨fun hw => ?_, fun hw j hj => ?_⟩ (.emit _ _)
    · rw [Indexed, place?_setEntity]
      have hl := (hw.leaveTile hp).enterTile (Function.update_self ..) target
      rwa [Function.update_idem] at hl
    · apply hw
      rw [place?_setEntity, Function.update_apply] at hj
      split at hj
      · next hj' =>
        rw [hj', hp]
        rfl
      · exact hj

theorem Changes.maintains {solidCheck : Bool} (h : Changes solidCheck w w') : Maintains w w' := by
  induction h with
  | refl => exact .refl w
  | tail _ hc ih => exact ih.trans hc.maintains

theorem place?_of_insertEntity (h : w.insertEntity e = .ok w') :
    w'.place? = Function.update w.place? e.id (some e.pos) := by
  rw [insertEntity_ok h]
  exact place?_setEntity ..

/-- An entity can be added to an index exactly if its number is not in use. -/
theorem insertEntity_indexed_iff (h : w.insertEntity e = .ok w') (hw : w.Indexed) :
    w'.Indexed ↔ w.entity? e.id = none := by
  have hl : w'.Indexed ↔
      (w.enterTile e.id e.pos).Lists (Function.update w.place? e.id (some e.pos)) := by
    rw [Indexed, place?_of_insertEntity h, insertEntity_ok h]
    rfl
  rw [hl]
  cases he : w.entity? e.id with
  | none => simpa using hw.enterTile (by rw [place?, he]; rfl) e.pos
  | some e' => simpa using hw.not_enterTile (by rw [place?, he]; rfl) e.pos

theorem insertEntity_numbered (h : w.insertEntity e = .ok w') (hw : w.Numbered)
    (hmax : e.id.val ≠ -1) : w'.Numbered := by
  intro j hj
  rw [place?_of_insertEntity h, Function.update_apply] at hj
  have hsucc : e.id.val < e.id.val + 1 := UInt32.lt_add_one hmax
  rw [insertEntity_ok h]
  dsimp only
  split at hj
  · next hj' =>
    subst hj'
    split
    · exact hsucc
    · next hlt => exact UInt32.not_le.1 hlt
  · have hlt := hw j hj
    split
    · next hle => exact UInt32.lt_trans (UInt32.lt_of_lt_of_le hlt hle) hsucc
    · exact hlt

end Operations

/-- The public operations. -/
inductive Operation where
  | spawn (typeId : UInt32) (pos : TilePos) (owner : Int32)
  | insert (e : Entity)
  | remove (id : EntityId)
  | move (id : EntityId) (target : TilePos) (solidCheck : Bool)
  | turn (id : EntityId) (d : Direction)
  | command (id : EntityId) (c : Command) (sender : Int32)
  | cool (id : EntityId) (ticks : Nat)
  | log (id : EntityId) (message : String)
  | shake (id : EntityId) (seconds : Binary64)
  | give (id : EntityId) (itemType : UInt32)
  | tick

namespace Operation

/-- The world after an operation, or why it is refused. -/
def run (w : World) : Operation → Except WorldError World
  | .spawn typeId pos owner => (w.spawn typeId pos owner).map (·.2)
  | .insert e => w.insertEntity e
  | .remove id => (w.removeEntity id).map (·.2)
  | .move id target solidCheck => (w.tryMove id target solidCheck).map (·.2)
  | .turn id d => w.setDirection id d
  | .command id c sender => w.sendCommand id c sender
  | .cool id ticks => w.extendCooldown id ticks
  | .log id message => w.appendLog id message
  | .shake id seconds => w.shake id seconds
  | .give id itemType => (w.giveItem id itemType).map (·.2)
  | .tick => .ok w.tickEntities

/-- The entity that an operation adds, if it adds one. -/
def added? (w : World) : Operation → Option Entity
  | .spawn typeId pos owner => (w.entityTypes.get? typeId).map fun t =>
    { id := ⟨w.nextEntity⟩, typeId, owner, pos, vars := t.vars,
      storage := List.replicate t.storageSlots none }
  | .insert e => if (w.entityTypes.get? e.typeId).isSome then some e else none
  | _ => none

/-- An operation that adds an entity does nothing else, and is not refused. -/
theorem run_of_added {op : Operation} (h : op.added? w = some e) :
    ∃ w', w.insertEntity e = .ok w' ∧ op.run w = .ok w' := by
  have hins (ht : (w.entityTypes.get? e.typeId).isSome) : ∃ w', w.insertEntity e = .ok w' := by
    have hn : ¬ (w.entityTypes.get? e.typeId).isNone = true := by
      simpa [Option.isSome_iff_ne_none] using ht
    exact ⟨_, if_neg hn⟩
  cases op with
  | spawn typeId pos owner =>
    obtain ⟨t, ht, rfl⟩ := Option.map_eq_some_iff.1 h
    obtain ⟨w', hw⟩ := hins (by rw [ht]; rfl)
    refine ⟨w', hw, ?_⟩
    simp only [run, World.spawn, ht, hw, bind, Except.bind]
    rfl
  | insert e' =>
    obtain ⟨ht, rfl⟩ : (w.entityTypes.get? e'.typeId).isSome ∧ e' = e := by
      simpa [added?] using h
    obtain ⟨w', hw⟩ := hins ht
    exact ⟨w', hw, hw⟩
  | remove | move | turn | command | cool | log | shake | give | tick => cases h

/-- An operation adds an entity under a number that is in use. -/
def Reuses (w : World) (op : Operation) : Prop :=
  ∃ e, op.added? w = some e ∧ (w.entity? e.id).isSome

end Operation

/-- The world after an operation. A refused one changes nothing. -/
def perform (w : World) (op : Operation) : World :=
  match op.run w with
  | .ok w' => w'
  | .error _ => w

/-- What an operation comes to: somebody comes, somebody goes, an item is made, or none of these. -/
inductive Performs (w : World) : Operation → World → Prop where

  | adds {op : Operation} {e : Entity} {w' : World} : op.added? w = some e →
      w.insertEntity e = .ok w' → Performs w op w'

  | removes {id : EntityId} {e : Entity} {w' : World} : w.removeEntity id = .ok (e, w') →
      Performs w (.remove id) w'

  | gives {id : EntityId} {itemType : UInt32} {item : ItemId} {w' : World} :
      w.giveItem id itemType = .ok (item, w') → Performs w (.give id itemType) w'

  | changes {op : Operation} {solidCheck : Bool} {w' : World} : op.added? w = none →
      Changes solidCheck w w' → Performs w op w'

section Steps

variable {op : Operation}

theorem Operation.run_performs {op : Operation} (ha : op.added? w = none)
    (h : op.run w = .ok w') : Performs w op w' := by
  have hone (hc : Change true w w') : Performs w op w' := .changes ha (.single hc)
  cases op with
  | spawn typeId pos owner =>
    have ht : w.entityTypes.get? typeId = none := by simpa [added?] using ha
    simp only [run, World.spawn, ht] at h
    cases h
  | insert e =>
    have ht : (w.entityTypes.get? e.typeId).isNone := by simpa [added?] using ha
    simp only [run, insertEntity, ht, if_true] at h
    cases h
  | remove id =>
    obtain ⟨⟨e, w₁⟩, hx, rfl⟩ := of_map_ok h
    exact .removes hx
  | move id target solidCheck =>
    obtain ⟨⟨moved, w₁⟩, hx, rfl⟩ := of_map_ok h
    exact .changes ha (changes_of_tryMove hx)
  | turn id d => exact hone (change_of_setDirection h)
  | command id c sender => exact hone (change_of_sendCommand h)
  | cool id ticks => exact hone (change_of_extendCooldown h)
  | log id message => exact hone (change_of_appendLog h)
  | shake id seconds => exact hone (change_of_shake h)
  | give id itemType =>
    obtain ⟨⟨item, w₁⟩, hx, rfl⟩ := of_map_ok h
    exact .gives hx
  | tick =>
    cases h
    exact .changes ha (tickEntities_changes w)

theorem performs (w : World) (op : Operation) : Performs w op (w.perform op) := by
  cases ha : op.added? w with
  | some e =>
    obtain ⟨w', hi, hr⟩ := Operation.run_of_added ha
    exact .adds ha (by rw [perform, hr, hi])
  | none =>
    unfold perform
    split
    · next hr => exact Operation.run_performs ha hr
    · exact .changes ha (.refl : Changes true w w)

/-- An operation adds an entity, or it leaves those that there are. -/
theorem perform_cases (w : World) (op : Operation) :
    (∃ e, op.added? w = some e ∧ w.insertEntity e = .ok (w.perform op)) ∨
      (op.added? w = none ∧ Maintains w (w.perform op)) := by
  have hp := performs w op
  generalize w.perform op = w' at hp
  cases hp with
  | adds ha hi => exact .inl ⟨_, ha, hi⟩
  | removes hr => exact .inr ⟨rfl, removeEntity_maintains hr⟩
  | gives hg => exact .inr ⟨rfl, giveItem_maintains hg⟩
  | changes ha hc => exact .inr ⟨ha, hc.maintains⟩

/-- One operation keeps the index exactly if it reuses no number. -/
theorem perform_indexed_iff (hw : w.Indexed) : (w.perform op).Indexed ↔ ¬ op.Reuses w := by
  rcases perform_cases w op with ⟨e, ha, hi⟩ | ⟨ha, hm⟩
  · simp [insertEntity_indexed_iff hi hw, Operation.Reuses, ha]
  · exact iff_of_true (hm.indexed hw) (by simp [Operation.Reuses, ha])

/-- Numbers stay below the next one, unless the highest number is given away. -/
theorem perform_numbered (hw : w.Numbered) (h : ∀ e, op.added? w = some e → e.id.val ≠ -1) :
    (w.perform op).Numbered := by
  rcases perform_cases w op with ⟨e, ha, hi⟩ | ⟨-, hm⟩
  · exact insertEntity_numbered hi hw (h e ha)
  · exact hm.numbered hw

/-- A spawned entity gets a number that is not in use. -/
theorem Numbered.insert_of_reuses (hw : w.Numbered) (h : op.Reuses w) : ∃ e, op = .insert e := by
  obtain ⟨e, ha, he⟩ := h
  cases op with
  | insert e' => exact ⟨e', rfl⟩
  | spawn typeId pos owner =>
    obtain ⟨t, -, rfl⟩ := Option.map_eq_some_iff.1 ha
    have hlt := hw ⟨w.nextEntity⟩ (by rw [place?, Option.isSome_map]; exact he)
    exact absurd hlt (UInt32.lt_irrefl _)
  | remove | move | turn | command | cool | log | shake | give | tick => cases ha

end Steps

section Runs

variable {ops : List Operation}

/-- The world before the operation at `n` in a list. -/
def before (w : World) (ops : List Operation) (n : Nat) : World := (ops.take n).foldl perform w

theorem before_succ {op : Operation} {n : Nat} (h : ops[n]? = some op) :
    w.before ops (n + 1) = (w.before ops n).perform op := by
  rw [before, List.take_add_one, h, List.foldl_append]
  rfl

theorem before_succ_of_none {n : Nat} (h : ops[n]? = none) :
    w.before ops (n + 1) = w.before ops n := by
  rw [before, List.take_add_one, h, Option.toList_none, List.append_nil]
  rfl

theorem indexed_before_iff (hw : w.Indexed) :
    (∀ n, (w.before ops n).Indexed) ↔
      ∀ (n : Nat) (op : Operation), ops[n]? = some op → ¬ op.Reuses (w.before ops n) := by
  constructor
  · intro h n op hn
    rw [← perform_indexed_iff (h n), ← before_succ hn]
    exact h (n + 1)
  · intro h n
    induction n with
    | zero => exact hw
    | succ n ih =>
      cases hn : ops[n]? with
      | some op =>
        rw [before_succ hn, perform_indexed_iff ih]
        exact h n op hn
      | none =>
        rw [before_succ_of_none hn]
        exact ih

theorem numbered_before (hw : w.Numbered)
    (h : ∀ (n : Nat) (op : Operation) (e : Entity), ops[n]? = some op →
      op.added? (w.before ops n) = some e → e.id.val ≠ -1)
    (n : Nat) : (w.before ops n).Numbered := by
  induction n with
  | zero => exact hw
  | succ n ih =>
    cases hn : ops[n]? with
    | some op =>
      rw [before_succ hn]
      exact perform_numbered ih fun e => h n op e hn
    | none =>
      rw [before_succ_of_none hn]
      exact ih

theorem place?_ofCatalogs (es : Catalog EntityType) (is : Catalog ItemType) (c : WorldConfig)
    (id : EntityId) : (ofCatalogs es is c).place? id = none := by
  simp [place?, entity?, ofCatalogs]

/-- From an empty world on, the index is exact behind every operation exactly if no operation adds
an entity under a number that is in use. Until the numbers run out that is always an inserted
entity, never a spawned one. -/
theorem tile_index_exact (es : Catalog EntityType) (is : Catalog ItemType) (c : WorldConfig)
    (ops : List Operation) :
    let w := ofCatalogs es is c
    ((∀ n, (w.before ops n).Indexed) ↔
      ∀ (n : Nat) (op : Operation), ops[n]? = some op → ¬ op.Reuses (w.before ops n)) ∧
    ((∀ (n : Nat) (op : Operation) (e : Entity), ops[n]? = some op →
        op.added? (w.before ops n) = some e → e.id.val ≠ -1) →
      ∀ (n : Nat) (op : Operation), ops[n]? = some op → op.Reuses (w.before ops n) →
        ∃ e, op = .insert e) := by
  intro w
  have hi : w.Indexed := by
    intro p id
    rw [place?_ofCatalogs, if_neg (by simp)]
    simp [entitiesAt, w, ofCatalogs]
  have hn : w.Numbered := by
    intro id hid
    rw [place?_ofCatalogs] at hid
    cases hid
  exact ⟨indexed_before_iff hi, fun h n op _ hr => (numbered_before hn h n).insert_of_reuses hr⟩

/-- An entity inserted twice is still listed on its first tile, where it does not stand any more. -/
theorem tile_index_stale :
    let grass : Entity := { id := ⟨0⟩, typeId := 0, owner := 0, pos := ⟨0, 0, 0⟩ }
    let w := (ofCatalogs ⟨[{ id := 0, name := "Grass" }]⟩ {}).before
      [.insert grass, .insert { grass with pos := ⟨1, 0, 0⟩ }] 2
    w.entitiesAt ⟨0, 0, 0⟩ = [⟨0⟩] ∧ w.place? ⟨0⟩ = some ⟨1, 0, 0⟩ ∧ ¬ w.Indexed := by
  intro grass w
  have hlist : w.entitiesAt ⟨0, 0, 0⟩ = [⟨0⟩] := by decide +kernel
  have hplace : w.place? ⟨0⟩ = some ⟨1, 0, 0⟩ := by decide +kernel
  refine ⟨hlist, hplace, fun h => ?_⟩
  have hc := h ⟨0, 0, 0⟩ ⟨0⟩
  rw [hlist, hplace] at hc
  revert hc
  decide

end Runs

end TileScript.World
