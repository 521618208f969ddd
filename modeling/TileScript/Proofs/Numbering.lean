import TileScript.Proofs.TileIndex

/-! # Fresh numbers

New entities get numbers above all that were ever in use, whether given or brought along. New items
get numbers above all that were given; but an entity that is restored may bring along items with
higher numbers, and nobody notes these.
-/

namespace TileScript.World

variable {w w' : World} {id : EntityId} {e e' : Entity} {item i : ItemId} {j : EntityId}

/-- An entity has an item in one of its slots. -/
def Holds (w : World) (j : EntityId) (i : ItemId) : Prop :=
  ∃ e, w.entity? j = some e ∧ some i ∈ e.storage

/-- When one entity changes, all others have what they had. -/
theorem holds_of_update (hw : w'.entity? = Function.update w.entity? id (some e'))
    (hj : w'.Holds j i) : w.Holds j i ∨ j = id ∧ some i ∈ e'.storage := by
  obtain ⟨f, hf, hm⟩ := hj
  rw [hw, Function.update_apply] at hf
  split at hf
  · next hid =>
    cases hf
    exact .inr ⟨hid, hm⟩
  · exact .inl ⟨f, hf, hm⟩

/-- Numbers of items are below the one that comes next. -/
def ItemsNumbered (w : World) : Prop := ∀ i, (w.item? i).isSome → i.val < w.nextItem

/-- A change in which no item is made or comes along. -/
structure Stocked (w w' : World) : Prop where
  items : w'.items = w.items
  next : w'.nextItem = w.nextItem
  holds {j : EntityId} {i : ItemId} : w'.Holds j i → w.Holds j i

namespace Stocked

theorem refl (w : World) : Stocked w w := ⟨rfl, rfl, id⟩

theorem trans {w₁ w₂ w₃ : World} (h : Stocked w₁ w₂) (h' : Stocked w₂ w₃) : Stocked w₁ w₃ :=
  ⟨h'.items.trans h.items, h'.next.trans h.next, h.holds ∘ h'.holds⟩

/-- A change of an entity that leaves what it holds. -/
theorem of_update (hi : w'.items = w.items) (hn : w'.nextItem = w.nextItem)
    (hw : w'.entity? = Function.update w.entity? id (some e')) (he : w.entity? id = some e)
    (hs : e'.storage = e.storage) : Stocked w w' where
  items := hi
  next := hn
  holds hj := by
    rcases holds_of_update hw hj with hj | ⟨rfl, hm⟩
    · exact hj
    · exact ⟨e, he, hs ▸ hm⟩

end Stocked

theorem Change.stocked {solidCheck : Bool} (h : Change solidCheck w w') : Stocked w w' := by
  cases h with
  | clock | shake | fail => exact ⟨rfl, rfl, id⟩
  | act _ _ _ he => exact .of_update rfl rfl (entity?_setEntity w _ _) he rfl
  | log _ he => exact .of_update rfl rfl (entity?_setEntity w _ _) he rfl
  | move _ he _ => exact .of_update rfl rfl (entity?_setEntity _ _ _) he rfl

theorem Changes.stocked {solidCheck : Bool} (h : Changes solidCheck w w') : Stocked w w' := by
  induction h with
  | refl => exact .refl w
  | tail _ hc ih => exact ih.trans hc.stocked

theorem removeEntity_stocked (h : w.removeEntity id = .ok (e, w')) : Stocked w w' := by
  obtain ⟨-, rfl⟩ := removeEntity_ok h
  refine ⟨rfl, rfl, ?_⟩
  rintro j i ⟨f, hf, hm⟩
  refine ⟨f, ?_, hm⟩
  have hf : (w.entities.erase id)[j]? = some f := hf
  rw [Std.ExtTreeMap.getElem?_erase] at hf
  split at hf
  · cases hf
  · exact hf

/-- A new item is with the entity that gets it, and all have nothing else than before. -/
theorem giveItem_holds {itemType : UInt32} (h : w.giveItem id itemType = .ok (item, w'))
    (hj : w'.Holds j i) : w.Holds j i ∨ i = item := by
  obtain ⟨e, slot, he, -, -, rfl⟩ := giveItem_ok h
  rcases holds_of_update (entity?_setEntity w _ _) hj with hj | ⟨rfl, hm⟩
  · exact .inl hj
  · rcases List.mem_or_eq_of_mem_set hm with hm | hi
    · exact .inl ⟨e, he, hm⟩
    · exact .inr (Option.some.inj hi)

theorem insertEntity_holds (h : w.insertEntity e = .ok w') (hj : w'.Holds j i) :
    w.Holds j i ∨ j = e.id ∧ some i ∈ e.storage := by
  rw [insertEntity_ok h] at hj
  have hu : w.Holds j i ∨ j = e.id ∧ some i ∈ e.syncPosition.storage :=
    holds_of_update (entity?_setEntity w e.id e.syncPosition) hj
  exact hu

/-- A spawned entity has nothing. -/
theorem Operation.insert_of_added {op : Operation} (h : op.added? w = some e)
    (hi : some i ∈ e.storage) : op = .insert e := by
  cases op with
  | spawn typeId pos owner =>
    obtain ⟨t, -, rfl⟩ := Option.map_eq_some_iff.1 h
    simp at hi
  | insert e' =>
    obtain ⟨-, rfl⟩ : (w.entityTypes.get? e'.typeId).isSome ∧ e' = e := by
      simpa [added?] using h
    rfl
  | remove | move | turn | command | cool | log | shake | give | tick => cases h

section Runs

variable {ops : List Operation} {n : Nat}

/-- An entity was inserted with the item, the number of which was still to come. -/
def Brought (w : World) (ops : List Operation) (n : Nat) (j : EntityId) (i : ItemId) : Prop :=
  ∃ k < n, ∃ e, ops[k]? = some (.insert e) ∧
    (Operation.insert e).added? (w.before ops k) = some e ∧ e.id = j ∧ some i ∈ e.storage ∧
    (w.before ops k).nextItem ≤ i.val

/-- Every item is numbered, and every item that somebody has is numbered or was brought along. -/
structure Accounted (w : World) (ops : List Operation) (n : Nat) : Prop where
  items : (w.before ops n).ItemsNumbered
  held {j : EntityId} {i : ItemId} : (w.before ops n).Holds j i →
    i.val < (w.before ops n).nextItem ∨ w.Brought ops n j i

theorem Brought.succ (h : w.Brought ops n j i) : w.Brought ops (n + 1) j i := by
  obtain ⟨k, hk, h⟩ := h
  exact ⟨k, Nat.lt_succ_of_lt hk, h⟩

theorem Accounted.stocked (h : w.Accounted ops n)
    (hs : Stocked (w.before ops n) (w.before ops (n + 1))) : w.Accounted ops (n + 1) where
  items i hi := by
    unfold item? at hi
    rw [hs.items] at hi
    rw [hs.next]
    exact h.items i hi
  held hj := by
    rw [hs.next]
    exact (h.held (hs.holds hj)).imp_right .succ

theorem Accounted.add {op : Operation} (h : w.Accounted ops n) (hop : ops[n]? = some op)
    (ha : op.added? (w.before ops n) = some e)
    (hi : (w.before ops n).insertEntity e = .ok (w.before ops (n + 1))) :
    w.Accounted ops (n + 1) where
  items := by
    rw [insertEntity_ok hi]
    exact h.items
  held {j i} hj := by
    have hnext : (w.before ops (n + 1)).nextItem = (w.before ops n).nextItem := by
      rw [insertEntity_ok hi]
      rfl
    rw [hnext]
    rcases insertEntity_holds hi hj with hj | ⟨hid, hm⟩
    · exact (h.held hj).imp_right .succ
    · by_cases hlt : i.val < (w.before ops n).nextItem
      · exact .inl hlt
      · obtain rfl := Operation.insert_of_added ha hm
        exact .inr ⟨n, Nat.lt_succ_self n, e, hop, ha, hid.symm, hm, UInt32.not_lt.1 hlt⟩

theorem Accounted.give {itemType : UInt32} (h : w.Accounted ops n)
    (hg : (w.before ops n).giveItem id itemType = .ok (item, w.before ops (n + 1)))
    (hmax : item.val ≠ -1) : w.Accounted ops (n + 1) := by
  obtain ⟨e, slot, -, -, hitem, hw⟩ := giveItem_ok hg
  have hnext : (w.before ops (n + 1)).nextItem = (w.before ops n).nextItem + 1 := by
    rw [hw]
    rfl
  have hitems : (w.before ops (n + 1)).items =
      (w.before ops n).items.insert item ⟨item, itemType⟩ := by
    rw [hw]
    rfl
  have hval : item.val = (w.before ops n).nextItem := by rw [hitem]
  have hsucc : (w.before ops n).nextItem < (w.before ops n).nextItem + 1 :=
    UInt32.lt_add_one (hval ▸ hmax)
  refine ⟨fun i hi => ?_, fun {j i} hj => ?_⟩
  · rw [hnext]
    by_cases hii : item = i
    · rw [← hii, hval]
      exact hsucc
    · have hold : ((w.before ops n).item? i).isSome := by
        unfold item? at hi ⊢
        rwa [hitems, Std.ExtTreeMap.getElem?_insert, if_neg (by simpa using hii)] at hi
      exact UInt32.lt_trans (h.items i hold) hsucc
  · rw [hnext]
    rcases giveItem_holds hg hj with hj | rfl
    · exact (h.held hj).imp (UInt32.lt_trans · hsucc) .succ
    · exact .inl (hval ▸ hsucc)

theorem accounted_before (h₀ : w.Accounted ops 0)
    (hmax : ∀ (n : Nat) (id : EntityId) (itemType : UInt32) (item : ItemId) (w' : World),
      ops[n]? = some (.give id itemType) →
        (w.before ops n).giveItem id itemType = .ok (item, w') → item.val ≠ -1)
    (n : Nat) : w.Accounted ops n := by
  induction n with
  | zero => exact h₀
  | succ n ih =>
    cases hop : ops[n]? with
    | none => exact ih.stocked (before_succ_of_none hop ▸ .refl _)
    | some op =>
      have hp := performs (w.before ops n) op
      rw [← before_succ hop] at hp
      cases hp with
      | adds ha hi => exact ih.add hop ha hi
      | removes hr => exact ih.stocked (removeEntity_stocked hr)
      | gives hg => exact ih.give hg (hmax n _ _ _ _ hop hg)
      | changes _ hc => exact ih.stocked hc.stocked

theorem numbered_ofCatalogs (es : Catalog EntityType) (is : Catalog ItemType) (c : WorldConfig) :
    (ofCatalogs es is c).Numbered := by
  intro id h
  rw [place?_ofCatalogs] at h
  cases h

theorem accounted_ofCatalogs (es : Catalog EntityType) (is : Catalog ItemType) (c : WorldConfig)
    (ops : List Operation) : (ofCatalogs es is c).Accounted ops 0 := by
  refine ⟨fun i hi => ?_, fun ⟨e, he, _⟩ => ?_⟩
  · have hi : ((ofCatalogs es is c).item? i).isSome := hi
    simp [item?, ofCatalogs] at hi
  · have he : (ofCatalogs es is c).entity? _ = some e := he
    simp [entity?, ofCatalogs] at he

theorem spawn_id {typeId : UInt32} {pos : TilePos} {owner : Int32}
    (h : w.spawn typeId pos owner = .ok (id, w')) : id.val = w.nextEntity := by
  unfold spawn at h
  split at h
  · cases h
  · obtain ⟨w₁, -, h⟩ := of_bind_ok h
    cases h
    rfl

/-- From an empty world on, as long as the numbers do not run out, a spawned entity gets a number
that no entity has. A new item gets a number that no item has; and if somebody holds an item of that
number all the same, then an entity was inserted with it whose number was still to come. -/
theorem fresh_numbers (es : Catalog EntityType) (is : Catalog ItemType) (c : WorldConfig)
    (ops : List Operation) :
    let w := ofCatalogs es is c
    ((∀ (n : Nat) (op : Operation) (e : Entity), ops[n]? = some op →
        op.added? (w.before ops n) = some e → e.id.val ≠ -1) →
      ∀ n typeId pos owner id w', (w.before ops n).spawn typeId pos owner = .ok (id, w') →
        (w.before ops n).entity? id = none) ∧
    ((∀ (n : Nat) (id : EntityId) (itemType : UInt32) (item : ItemId) (w' : World),
        ops[n]? = some (.give id itemType) →
          (w.before ops n).giveItem id itemType = .ok (item, w') → item.val ≠ -1) →
      ∀ n id itemType item w', (w.before ops n).giveItem id itemType = .ok (item, w') →
        (w.before ops n).item? item = none ∧
        ∀ j e, (w.before ops n).entity? j = some e → some item ∈ e.storage →
          w.Brought ops n j item) := by
  intro w
  refine ⟨fun hmax n typeId pos owner id w' hs => ?_, fun hmax n id itemType item w' hg => ?_⟩
  · have hn : (w.before ops n).Numbered := numbered_before (numbered_ofCatalogs es is c) hmax n
    rw [Option.eq_none_iff_forall_ne_some]
    intro e he
    have hlt := hn id (by rw [place?_of_entity? he]; rfl)
    rw [spawn_id hs] at hlt
    exact UInt32.lt_irrefl _ hlt
  · have hn : w.Accounted ops n := accounted_before (accounted_ofCatalogs es is c ops) hmax n
    obtain ⟨-, -, -, -, hitem, -⟩ := giveItem_ok hg
    have hnot : ¬ item.val < (w.before ops n).nextItem := by
      rw [hitem]
      exact UInt32.lt_irrefl _
    refine ⟨?_, fun j e he hm => (hn.held ⟨e, he, hm⟩).resolve_left hnot⟩
    rw [Option.eq_none_iff_forall_ne_some]
    intro x hx
    exact hnot (hn.items item (by rw [hx]; rfl))

section Example

/-- A world of entities with two slots. -/
def pockets : World :=
  ofCatalogs ⟨[{ id := 0, name := "Npc", storageSlots := 2 }]⟩ ⟨[{ id := 0, name := "Key" }]⟩

/-- Somebody has got a key and gets another one. -/
theorem fresh_numbers_keys :
    let ops : List Operation := [.spawn 0 ⟨0, 0, 0⟩ 0, .give ⟨0⟩ 0]
    (∃ id w', (pockets.before ops 2).spawn 0 ⟨0, 0, 0⟩ 0 = .ok (id, w') ∧
      (pockets.before ops 2).entity? id = none) ∧
    ∃ item w', (pockets.before ops 2).giveItem ⟨0⟩ 0 = .ok (item, w') ∧
      (pockets.before ops 2).item? item = none ∧ ∀ j, ¬ (pockets.before ops 2).Holds j item := by
  intro ops
  have hfresh := fresh_numbers ⟨[{ id := 0, name := "Npc", storageSlots := 2 }]⟩
    ⟨[{ id := 0, name := "Key" }]⟩ {} ops
  have hentity : ∀ (n : Nat) (op : Operation) (e : Entity), ops[n]? = some op →
      op.added? (pockets.before ops n) = some e → e.id.val ≠ -1 := by
    rintro (_ | _ | n) op e hop ha
    · cases hop
      cases ha
      decide +kernel
    · cases hop
      cases ha
    · cases hop
  have hitem : ∀ (n : Nat) (id : EntityId) (itemType : UInt32) (item : ItemId) (w' : World),
      ops[n]? = some (.give id itemType) →
        (pockets.before ops n).giveItem id itemType = .ok (item, w') → item.val ≠ -1 := by
    rintro (_ | _ | n) id itemType item w' hop hg
    · cases hop
    · cases hop
      obtain ⟨-, -, -, -, rfl, -⟩ := giveItem_ok hg
      decide +kernel
    · cases hop
  obtain ⟨⟨id, w₁⟩, hs⟩ : ∃ x, (pockets.before ops 2).spawn 0 ⟨0, 0, 0⟩ 0 = .ok x := ⟨_, rfl⟩
  obtain ⟨⟨item, w₂⟩, hg⟩ : ∃ x, (pockets.before ops 2).giveItem ⟨0⟩ 0 = .ok x := ⟨_, rfl⟩
  obtain ⟨hnone, hbrought⟩ := hfresh.2 hitem 2 _ _ _ _ hg
  refine ⟨⟨id, w₁, hs, hfresh.1 hentity 2 _ _ _ _ _ hs⟩, item, w₂, hg, hnone, ?_⟩
  rintro j ⟨e, he, hm⟩
  obtain ⟨k, hk, e', hop, -⟩ := hbrought j e he hm
  obtain rfl | rfl : k = 0 ∨ k = 1 := by omega
  · cases hop
  · cases hop

/-- Somebody comes along with the item `0`, and gets it once more. No numbers run out. -/
theorem number_given_twice :
    let npc : Entity :=
      { id := ⟨0⟩, typeId := 0, owner := 0, pos := ⟨0, 0, 0⟩, storage := [some ⟨0⟩, none] }
    let w := pockets.before [.insert npc] 1
    ∃ w', w.giveItem ⟨0⟩ 0 = .ok (⟨0⟩, w') ∧
      (w.entity? ⟨0⟩).map (·.storage) = some [some ⟨0⟩, none] ∧
      (w'.entity? ⟨0⟩).map (·.storage) = some [some ⟨0⟩, some ⟨0⟩] ∧
      w'.nextEntity = 1 ∧ w'.nextItem = 1 := by
  intro npc w
  obtain ⟨⟨item, w'⟩, hg⟩ : ∃ x, w.giveItem ⟨0⟩ 0 = .ok x := ⟨_, rfl⟩
  have hw' : item = ⟨0⟩ ∧ (w'.entity? ⟨0⟩).map (·.storage) = some [some ⟨0⟩, some ⟨0⟩] ∧
      w'.nextEntity = 1 ∧ w'.nextItem = 1 := by
    cases hg
    decide +kernel
  obtain ⟨rfl, hs⟩ := hw'
  exact ⟨w', hg, by decide +kernel, hs⟩

end Example

end Runs

end TileScript.World
