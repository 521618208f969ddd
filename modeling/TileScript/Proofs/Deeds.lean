import TileScript.Proofs.Changes
import TileScript.System.Builtin

/-! # What built-in functions do

A built-in function does at most one thing to the world, and moves, gifts and shakes are for those
who call it on `_`. What it does depends neither on the events nor on the log, the cooldown and the
commands of anybody but the entity of the calling script. So all is said about a call by comparing
it with the same call in another world that differs in these.
-/

namespace TileScript

namespace World

variable {w w' : World}

section Emits

/-- Between two worlds of a tick the log of events has got some more, in order. -/
structure Emits (w w' : World) (kinds : List EventKind) : Prop where
  events : w'.events = kinds.foldl (fun l k => l.push ⟨w.tick, k⟩) w.events
  tick : w'.tick = w.tick

theorem Emits.trans {w₁ w₂ w₃ : World} {ks ks' : List EventKind} (h : w₁.Emits w₂ ks)
    (h' : w₂.Emits w₃ ks') : w₁.Emits w₃ (ks ++ ks') where
  events := by rw [h'.events, h.events, h.tick, List.foldl_append]
  tick := h'.tick.trans h.tick

/-- An unlimited log keeps everything. -/
theorem Emits.toList {ks : List EventKind} (h : w.Emits w' ks) (hl : w.events.limit = 0) :
    w'.events.events.toList = w.events.events.toList ++ ks.map (⟨w.tick, ·⟩) ∧
      w'.events.limit = 0 := by
  rw [h.events]
  have push (l : EventLog) (hl : l.limit = 0) (ks : List EventKind) :
      (ks.foldl (fun l k => l.push ⟨w.tick, k⟩) l).events.toList =
        l.events.toList ++ ks.map (⟨w.tick, ·⟩) ∧
      (ks.foldl (fun l k => l.push ⟨w.tick, k⟩) l).limit = 0 := by
    induction ks generalizing l with
    | nil => simp [hl]
    | cons k ks ih =>
      obtain ⟨ht, hlim⟩ := ih (l.push ⟨w.tick, k⟩) ((l.limit_push _).trans hl)
      refine ⟨?_, hlim⟩
      rw [List.foldl_cons, ht, EventLog.toList_push_of_unlimited l _ hl, List.append_assoc]
      rfl
  exact push w.events hl ks

end Emits

end World

/-- The entity without its log, its cooldown and its commands. -/
def Entity.core (e : Entity) : Entity := { e with log := [], cooldown := 0, commands := [] }

namespace World

/-- Two worlds that differ in their events, and in the logs, the cooldowns and the commands of
entities other than `own`. -/
structure Indistinct (own : EntityId) (w w' : World) : Prop where
  rest : { w' with entities := w.entities, events := w.events } = w
  own : w'.entity? own = w.entity? own
  core (id : EntityId) : (w'.entity? id).map Entity.core = (w.entity? id).map Entity.core

/-- Two results that are equal as far as `f` tells. -/
theorem of_map_eq {ε α β : Type} {x x' : Except ε α} {f : α → β} (h : x'.map f = x.map f) :
    (∃ e, x = .error e ∧ x' = .error e) ∨ ∃ a a', x = .ok a ∧ x' = .ok a' ∧ f a' = f a := by
  cases x with
  | error e =>
    cases x' with
    | error e' => exact .inl ⟨e, rfl, congrArg _ (Except.error.inj h)⟩
    | ok a' => cases h
  | ok a =>
    cases x' with
    | error e' => cases h
    | ok a' => exact .inr ⟨a, a', rfl, rfl, Except.ok.inj h⟩

namespace Indistinct

variable {own : EntityId} {w w' : World}

theorem refl (own : EntityId) (w : World) : Indistinct own w w := ⟨rfl, rfl, fun _ => rfl⟩

section Reading

variable (h : Indistinct own w w')
include h

/-- What is read off the core of an entity is read alike. -/
theorem bind_entity? {β : Type} {f : Entity → Option β} (hf : ∀ e, f e = f e.core)
    (id : EntityId) : (w'.entity? id).bind f = (w.entity? id).bind f := by
  have hf : f = f ∘ Entity.core := funext hf
  rw [hf, ← Option.bind_map, ← Option.bind_map, h.core]

theorem isSome_entity? (id : EntityId) : (w'.entity? id).isSome = (w.entity? id).isSome := by
  simpa using congrArg Option.isSome (h.core id)

theorem entitiesAt (p : TilePos) : w'.entitiesAt p = w.entitiesAt p := by
  unfold World.entitiesAt
  rw [← h.rest]

theorem item? (id : ItemId) : w'.item? id = w.item? id := by
  unfold World.item?
  rw [← h.rest]

theorem itemTypeOf? (id : ItemId) : w'.itemTypeOf? id = w.itemTypeOf? id := by
  unfold World.itemTypeOf?
  rw [h.item?, ← h.rest]

theorem entityTypeOf? (id : EntityId) : w'.entityTypeOf? id = w.entityTypeOf? id := by
  have ht : w'.entityTypes = w.entityTypes := (congrArg World.entityTypes h.rest :)
  unfold World.entityTypeOf?
  rw [ht]
  exact h.bind_entity? (fun _ => rfl) id

theorem isSolid (p : TilePos) : w'.isSolid p = w.isSolid p := by
  unfold World.isSolid
  simp only [h.entitiesAt, h.entityTypeOf?]

theorem entity (id : EntityId) :
    (w'.entity id).map Entity.core = (w.entity id).map Entity.core := by
  have hc := h.core id
  unfold World.entity? at hc
  unfold World.entity
  cases he : w.entities[id]? with
  | none =>
    rw [he] at hc
    rw [Option.map_eq_none_iff.1 hc]
  | some e =>
    rw [he] at hc
    obtain ⟨e', he', hcore⟩ := Option.map_eq_some_iff.1 hc
    rw [he']
    exact congrArg Except.ok hcore

end Reading

section Operations

variable (h : Indistinct own w w')
include h

/-- An entity is there to be changed in both worlds, or in none of them. -/
theorem updateEntity (id : EntityId) (f f' : Entity → Entity) :
    (w'.updateEntity id f').map (fun _ => ()) = (w.updateEntity id f).map fun _ => () := by
  unfold World.updateEntity
  obtain ⟨x, hx, hx'⟩ | ⟨e, e', hx, hx', -⟩ := of_map_eq (h.entity id)
  · rw [hx, hx']
    rfl
  · rw [hx, hx']
    rfl

theorem appendLog (id : EntityId) (message : String) :
    (w'.appendLog id message).map (fun _ => ()) = (w.appendLog id message).map fun _ => () := by
  unfold World.appendLog
  obtain ⟨x, hx, hx'⟩ | ⟨u, u', hx, hx', -⟩ := of_map_eq (h.updateEntity id
    (·.pushLog message w.config.maxLogLines) (·.pushLog message w'.config.maxLogLines))
  · rw [hx, hx']
  · rw [hx, hx']
    rfl

theorem sendCommand (id : EntityId) (c : Command) (sender : Int32) :
    (w'.sendCommand id c sender).map (fun _ => ()) =
      (w.sendCommand id c sender).map fun _ => () := by
  unfold World.sendCommand
  obtain ⟨x, hx, hx'⟩ | ⟨e, e', hx, hx', hc⟩ := of_map_eq (h.entity id)
  · rw [hx, hx']
    rfl
  · have ho : e'.owner = e.owner := (congrArg Entity.owner hc :)
    rw [hx, hx']
    simp only [bind, Except.bind, ho]
    split
    · rfl
    · exact h.updateEntity id _ _

theorem shake (id : EntityId) (seconds : Binary64) :
    (w'.shake id seconds).map (fun _ => ()) = (w.shake id seconds).map fun _ => () := by
  unfold World.shake
  obtain ⟨x, hx, hx'⟩ | ⟨e, e', hx, hx', -⟩ := of_map_eq (h.entity id)
  · rw [hx, hx']
    rfl
  · rw [hx, hx']
    rfl

theorem tryMove (id : EntityId) (target : TilePos) (solidCheck : Bool) :
    (w'.tryMove id target solidCheck).map Prod.fst =
      (w.tryMove id target solidCheck).map Prod.fst := by
  unfold World.tryMove
  obtain ⟨x, hx, hx'⟩ | ⟨e, e', hx, hx', -⟩ := of_map_eq (h.entity id)
  · rw [hx, hx']
    rfl
  · rw [hx, hx', h.isSolid]
    simp only [bind, Except.bind]
    split <;> rfl

theorem giveItem (id : EntityId) (itemType : UInt32) :
    (w'.giveItem id itemType).map Prod.fst = (w.giveItem id itemType).map Prod.fst := by
  have ht : w'.itemTypes = w.itemTypes := (congrArg World.itemTypes h.rest :)
  have hn : w'.nextItem = w.nextItem := (congrArg World.nextItem h.rest :)
  unfold World.giveItem
  rw [ht, hn]
  split
  · rfl
  · obtain ⟨x, hx, hx'⟩ | ⟨e, e', hx, hx', hc⟩ := of_map_eq (h.entity id)
    · rw [hx, hx']
      rfl
    · have hs : e'.hasStorage = e.hasStorage := (congrArg Entity.hasStorage hc :)
      have hf : e'.freeSlot? = e.freeSlot? := (congrArg Entity.freeSlot? hc :)
      rw [hx, hx']
      simp only [bind, Except.bind, hs, hf]
      split
      · rfl
      · split <;> rfl

end Operations

end Indistinct

end World

open World

/-- What a built-in function comes to in two worlds: to the same, by the same deed. -/
inductive SystemCall.Deeds (call : SystemCall) (w w' : World) :
    SystemReturn × World → SystemReturn × World → Prop where

  | nothing {r : SystemReturn} : Deeds call w w' (r, w) (r, w')

  | log {message : String} {u u' : World} : w.appendLog call.entity message = .ok u →
      w'.appendLog call.entity message = .ok u' → Deeds call w w' (.done, u) (.done, u')

  | queue {c : Command} {u u' : World} : w.sendCommand call.entity c call.authority = .ok u →
      w'.sendCommand call.entity c call.authority = .ok u' →
      Deeds call w w' (.pause, u) (.pause, u')

  | move {id : EntityId} {p : TilePos} {moved : Bool} {u u' : World} : call.accessor = .authority →
      w.tryMove id p true = .ok (moved, u) → w'.tryMove id p true = .ok (moved, u') →
      Deeds call w w' (.done, u) (.done, u')

  | give {id : EntityId} {itemType : UInt32} {item : ItemId} {u u' : World} :
      call.accessor = .authority → w.giveItem id itemType = .ok (item, u) →
      w'.giveItem id itemType = .ok (item, u') →
      Deeds call w w' (.value (.item item), u) (.value (.item item), u')

  | shake {id : EntityId} {seconds : Binary64} {u u' : World} : call.accessor = .authority →
      w.shake id seconds = .ok u → w'.shake id seconds = .ok u' →
      Deeds call w w' (.done, u) (.done, u')

namespace Builtin

/-- Two attempts that fail alike, or come to the same. -/
inductive Attempts (call : SystemCall) (w w' : World) :
    Except Sentinel (SystemReturn × World) → Except Sentinel (SystemReturn × World) → Prop where

  | failed {s : Sentinel} : Attempts call w w' (.error s) (.error s)

  | done {x x' : SystemReturn × World} : call.Deeds w w' x x' → Attempts call w w' (.ok x) (.ok x')

/-- A function that does the same in worlds that its script cannot tell apart. -/
def Acts (b : Builtin) : Prop :=
  ∀ call w w', Indistinct call.entity w w' → Attempts call w w' (b call w) (b call w')

section Attempts

variable {call : SystemCall} {w w' : World} {α : Type}

theorem Attempts.bind {x : Except Sentinel α} {f f' : α → Except Sentinel (SystemReturn × World)}
    (h : ∀ a, Attempts call w w' (f a) (f' a)) : Attempts call w w' (x >>= f) (x >>= f') := by
  cases x with
  | error s => exact .failed
  | ok a => exact h a

/-- An operation of the world that is tried in both worlds. -/
theorem Attempts.orMissing {β : Type} {g : α → β} {x x' : Except WorldError α}
    {f f' : α → Except Sentinel (SystemReturn × World)} (hx : x'.map g = x.map g)
    (h : ∀ a a', x = .ok a → x' = .ok a' → g a' = g a → Attempts call w w' (f a) (f' a')) :
    Attempts call w w' (orMissing x >>= f) (orMissing x' >>= f') := by
  obtain ⟨e, rfl, rfl⟩ | ⟨a, a', rfl, rfl, ha⟩ := of_map_eq hx
  · exact .failed
  · exact h a a' rfl rfl ha

end Attempts

theorem entityParam_eq {own : EntityId} {w w' : World} (h : Indistinct own w w')
    (call : SystemCall) (i : Nat) : entityParam call w' i = entityParam call w i := by
  unfold entityParam
  simp only [h.isSome_entity?]

theorem log_acts : Acts log := by
  intro call w w' h
  simp only [log]
  split
  · exact .failed
  · refine .bind fun _ => .bind fun v => .orMissing (h.appendLog call.entity v.display) ?_
    intro u u' hu hu' _
    exact .done (.log hu hu')

theorem exit_acts : Acts exit := by
  intro call w w' h
  simp only [exit]
  split
  · exact .failed
  · split
    · exact .failed
    · exact .done .nothing

theorem stepSelf_attempts {call : SystemCall} {w w' : World} (h : Indistinct call.entity w w')
    (index : Int64) : Attempts call w w' (stepSelf call w index) (stepSelf call w' index) := by
  unfold stepSelf
  split
  · exact .failed
  · next d _ =>
    obtain ⟨e, hu, hu'⟩ | ⟨u, u', hu, hu', -⟩ :=
      of_map_eq (h.sendCommand call.entity (.move d) call.authority)
    · rw [hu, hu']
      cases e <;> exact .failed
    · rw [hu, hu']
      exact .done (.queue hu hu')

theorem move_acts : Acts move := by
  intro call w w' h
  unfold move
  split
  · exact .bind fun _ => .bind fun n => stepSelf_attempts h n
  · next ha =>
    rw [entityParam_eq h]
    refine .bind fun _ => .bind fun id => .bind fun x => .bind fun y => .bind fun z =>
      .orMissing (h.tryMove id ⟨x, y, z⟩ true) ?_
    rintro ⟨moved, u⟩ ⟨moved', u'⟩ hu hu' rfl
    exact .done (.move ha hu hu')
  · exact .failed
  · exact .failed

theorem step_acts (d : Direction) : Acts (step d) := by
  intro call w w' h
  refine .bind fun _ => ?_
  have hm := move_acts { call with params := [.int d.index] } w w' h
  generalize move { call with params := [.int d.index] } w = x at hm
  generalize move { call with params := [.int d.index] } w' = x' at hm
  cases hm with
  | failed => exact .failed
  | done hd =>
    refine .done ?_
    cases hd with
    | nothing => exact .nothing
    | log hu hu' => exact .log hu hu'
    | queue hu hu' => exact .queue hu hu'
    | move ha hu hu' => exact .move ha hu hu'
    | give ha hu hu' => exact .give ha hu hu'
    | shake ha hu hu' => exact .shake ha hu hu'

theorem get_acts : Acts get := by
  intro call w w' h
  have hown : w'.entity call.entity = w.entity call.entity := by
    have ho := h.own
    unfold World.entity? at ho
    unfold World.entity
    rw [ho]
  unfold get
  rw [hown]
  split
  · refine .bind fun _ => .bind fun me => ?_
    unfold World.entityAt?
    rw [h.entitiesAt]
    split
    · exact .done .nothing
    · exact .failed
  · rw [entityParam_eq h]
    exact .bind fun _ => .bind fun id => .done .nothing
  · refine .bind fun _ => .bind fun slot => .bind fun me => ?_
    split
    · exact .done .nothing
    · exact .failed
  · exact .failed

theorem sleep_acts : Acts sleep := by
  intro call w w' h
  simp only [sleep]
  split
  · exact .failed
  · refine .bind fun _ => .bind fun n => ?_
    split
    · exact .failed
    · split <;> exact .done .nothing

theorem giveItem_acts : Acts giveItem := by
  intro call w w' h
  simp only [giveItem]
  rw [entityParam_eq h]
  split
  · exact .failed
  · next ha =>
    have ha : call.accessor = .authority := Decidable.not_not.1 ha
    refine .bind fun _ => .bind fun id => .bind fun n => ?_
    split
    · exact .failed
    · next itemType _ =>
      obtain ⟨e, hu, hu'⟩ | ⟨⟨item, u⟩, ⟨item', u'⟩, hu, hu', hi⟩ :=
        of_map_eq (h.giveItem id itemType)
      · rw [hu, hu']
        cases e <;> exact .failed
      · obtain rfl : item' = item := hi
        rw [hu, hu']
        exact .done (.give ha hu hu')

theorem shake_acts : Acts shake := by
  intro call w w' h
  simp only [shake]
  rw [entityParam_eq h]
  split
  · exact .failed
  · next ha =>
    have ha : call.accessor = .authority := Decidable.not_not.1 ha
    refine .bind fun _ => .bind fun id => .bind fun v => .bind fun s =>
      .orMissing (h.shake id s) ?_
    intro u u' hu hu' _
    exact .done (.shake ha hu hu')

theorem all_act {p : String × Builtin} (h : p ∈ all) : Acts p.2 := by
  simp only [all, List.mem_cons, List.not_mem_nil, or_false] at h
  rcases h with rfl | rfl | rfl | rfl | rfl | rfl | rfl | rfl | rfl | rfl | rfl
  · exact log_acts
  · exact exit_acts
  · exact move_acts
  · exact step_acts .up
  · exact step_acts .down
  · exact step_acts .left
  · exact step_acts .right
  · exact get_acts
  · exact sleep_acts
  · exact giveItem_acts
  · exact shake_acts

/-- A built-in that fails changes nothing. -/
theorem Acts.toFunction {b : Builtin} (hb : b.Acts) {call : SystemCall} {w w' : World}
    (h : Indistinct call.entity w w') :
    call.Deeds w w' (b.toFunction call w) (b.toFunction call w') := by
  have ha := hb call w w' h
  unfold Builtin.toFunction
  generalize b call w = x at ha
  generalize b call w' = x' at ha
  cases ha with
  | failed => exact .nothing
  | done hd => exact hd

theorem of_getElem?_foldl {name : String} {f : SystemFunction} {l : List (String × Builtin)}
    {t : SystemTable}
    (h : (l.foldl (fun t (name, f) => t.insert name f.toFunction) t)[name]? = some f) :
    (∃ b, (name, b) ∈ l ∧ f = b.toFunction) ∨ t[name]? = some f := by
  induction l generalizing t with
  | nil => exact .inr h
  | cons p l ih =>
    rcases ih h with ⟨b, hb, rfl⟩ | ht
    · exact .inl ⟨b, List.mem_cons_of_mem p hb, rfl⟩
    · rw [Std.ExtTreeMap.getElem?_insert] at ht
      split at ht
      · next hn =>
        obtain rfl : p.1 = name := Std.LawfulEqCmp.eq_of_compare hn
        exact .inl ⟨p.2, List.mem_cons_self, (Option.some.inj ht).symm⟩
      · exact .inr ht

end Builtin

/-- All that a built-in function can do. -/
theorem SystemTable.builtins_deeds {name : String} {f : SystemFunction}
    (hf : SystemTable.builtins[name]? = some f) (call : SystemCall) {w w' : World}
    (h : Indistinct call.entity w w') : call.Deeds w w' (f call w) (f call w') := by
  rcases Builtin.of_getElem?_foldl hf with ⟨b, hb, rfl⟩ | hn
  · exact (Builtin.all_act hb).toFunction h
  · simp at hn

end TileScript
