import TileScript.Function.Binding
import TileScript.Proofs.FunctionTable
import TileScript.World.Operations

/-! # Functions of types and types of entities

A call finds its function through the number of the type of its target, everything else finds the
type in the catalog. Of types with equal numbers the last one listed counts for calls and the first
one in the catalog, so both agree as long as the two have the same name.
-/

namespace TileScript

open Text

/-- The tables there are: of a list of entries, or of a source and what types declare. -/
inductive FunctionTable.Built : FunctionTable → Prop where

  | ofList (entries : List (Category × String × String × Int)) : Built (ofList entries)

  | scan {source : ScriptSource} {declared : List DeclaredFunction} {t : FunctionTable} :
      scan source declared = .ok t → Built t

theorem FunctionTable.Built.numbered {t : FunctionTable} (h : t.Built) : t.Numbered := by
  cases h with
  | ofList entries => exact (ofList_agrees entries).toNumbered
  | scan hs => exact (scan_agrees hs).toNumbered

namespace Catalog

variable {α : Type} [TypeDescriptor α] (c : Catalog α) (id : UInt32)

/-- The last type listed under a number. -/
def last? : Option α := c.types.reverse.find? (TypeDescriptor.id · == id)

/-- The first and the last type listed under a number have the same name, up to the case of its
letters. -/
def OneName : Prop :=
  ∀ first last, c.get? id = some first → c.last? id = some last →
    sameLetters (TypeDescriptor.name first) (TypeDescriptor.name last) = true

theorem isSome_last? : (c.last? id).isSome = (c.get? id).isSome := by
  rw [Bool.eq_iff_iff, last?, get?, List.find?_isSome, List.find?_isSome]
  simp only [List.mem_reverse]

end Catalog

namespace TypeFunctions

variable {α : Type} [TypeDescriptor α] {t : FunctionTable} {c : Catalog α}

/-- The functions under a number are those of the last type listed under it. -/
theorem getElem?_ofCatalog (t : FunctionTable) (category : Category) (c : Catalog α) (id : UInt32) :
    (ofCatalog t category c)[id]? =
      (c.last? id).map fun τ => t.functionsFor category (TypeDescriptor.name τ) := by
  unfold ofCatalog Catalog.last?
  rw [← List.foldr_reverse]
  induction c.types.reverse with
  | nil => simp
  | cons τ τs ih =>
    rw [List.foldr_cons, Std.ExtTreeMap.getElem?_insert, List.find?_cons, ih]
    by_cases h : TypeDescriptor.id τ = id
    · simp [h]
    · simp [h, beq_eq_false_iff_ne.2 h]

/-- Among the functions of an owner a name leads to the function of the key. -/
theorem find?_functionsFor (h : t.Numbered) (category : Category) (owner name : String) :
    find? t (t.functionsFor category owner) name = t.lookup? category owner name := by
  have key_of {f : FunctionDescriptor}
      (hf : find? t (t.functionsFor category owner) name = some f) :
      t.lookup? category owner name = some f := by
    obtain ⟨i, hi, hfi⟩ := List.mem_filterMap.1 (List.mem_of_find?_eq_some hf)
    obtain ⟨g, hg, hc, ho⟩ := h.mem_functionsFor.1 hi
    obtain rfl := Option.some.inj (hg.symm.trans hfi)
    have hn : g.name = name := by simpa using List.find?_some hf
    refine h.lookup?_eq_some.2 ⟨(h.get?_eq_some.1 hg).1, ?_⟩
    unfold FunctionDescriptor.key FunctionKey.of at hc ho ⊢
    simp_all
  cases hl : t.lookup? category owner name with
  | none =>
    rw [Option.eq_none_iff_forall_ne_some]
    intro f hf
    cases hl.symm.trans (key_of hf)
  | some f =>
    obtain ⟨hf, hk⟩ := h.lookup?_eq_some.1 hl
    obtain ⟨hc, ho, hn⟩ : f.category = category ∧ lower f.owner = lower owner ∧ f.name = name := by
      simpa [FunctionDescriptor.key, FunctionKey.of] using hk
    have hfi : t.get? f.id = some f := h.get?_eq_some.2 ⟨hf, rfl⟩
    have hm : f ∈ (t.functionsFor category owner).filterMap t.get? :=
      List.mem_filterMap.2 ⟨f.id, h.mem_functionsFor.2 ⟨f, hfi, hc, ho⟩, hfi⟩
    obtain ⟨g, hg⟩ : ∃ g, find? t (t.functionsFor category owner) name = some g := by
      rw [← Option.isSome_iff_exists, find?, List.find?_isSome]
      exact ⟨f, hm, by simpa using hn⟩
    rw [hg, ← hl, key_of hg]

/-- A name under a number leads to the function of the last type listed under it. -/
theorem find?_ofCatalog (h : t.Numbered) (category : Category) (c : Catalog α) (id : UInt32)
    (name : String) :
    find? t ((ofCatalog t category c).getD id []) name =
      (c.last? id).bind fun τ => t.lookup? category (TypeDescriptor.name τ) name := by
  rw [Std.ExtTreeMap.getD_eq_getD_getElem?, getElem?_ofCatalog]
  cases c.last? id with
  | none => rfl
  | some τ => exact find?_functionsFor h ..

/-- A table with one function, of one owner. -/
theorem isSome_lookup?_single (category : Category) (owner other name : String) :
    ((FunctionTable.ofList [(category, owner, name, 0)]).lookup? category other name).isSome ↔
      sameLetters owner other = true := by
  rw [(FunctionTable.ofList_agrees _).found]
  simp [FunctionKey.of, sameLetters]

/-- The first and the last type listed under a number have the same functions in every table
exactly if they have the same name. -/
theorem forall_lookup?_iff (category : Category) (c : Catalog α) (id : UInt32) :
    (∀ t : FunctionTable, t.Built → ∀ name,
      (c.last? id).bind (fun τ => t.lookup? category (TypeDescriptor.name τ) name) =
        (c.get? id).bind fun τ => t.lookup? category (TypeDescriptor.name τ) name) ↔
      c.OneName id := by
  constructor
  · intro h first last hf hl
    have hs := h _ (.ofList [(category, TypeDescriptor.name first, "f", 0)]) "f"
    rw [hf, hl, Option.bind_some, Option.bind_some] at hs
    rw [← isSome_lookup?_single category _ _ "f", hs, isSome_lookup?_single]
    simp [sameLetters]
  · intro h t ht name
    have hs := c.isSome_last? id
    cases hf : c.get? id with
    | none =>
      have hl : c.last? id = none := by simpa [hf] using hs
      rw [hl]
    | some first =>
      obtain ⟨last, hl⟩ := Option.isSome_iff_exists.1 (hs.trans (by rw [hf]; rfl))
      rw [hl, Option.bind_some, Option.bind_some, FunctionTable.lookup?, FunctionTable.lookup?,
        FunctionKey.of_eq_of_sameLetters (h first last hf hl)]

end TypeFunctions

open TypeFunctions

/-- The target of a call has the functions of the last type listed under the number of its type.
These are the functions of its type exactly if that one and the first one have the same name. -/
theorem World.resolve_agrees (w : World) :
    (∀ t : FunctionTable, t.Built → ∀ id name,
      (build w t).resolveEntity? w t id name = (w.entity? id).bind fun e =>
        (w.entityTypes.last? e.typeId).bind fun τ => t.lookup? .entity τ.name name) ∧
    (∀ t : FunctionTable, t.Built → ∀ id name,
      (build w t).resolveItem? w t id name = (w.item? id).bind fun i =>
        (w.itemTypes.last? i.typeId).bind fun τ => t.lookup? .item τ.name name) ∧
    (∀ id e, w.entity? id = some e →
      ((∀ t : FunctionTable, t.Built → ∀ name, (build w t).resolveEntity? w t id name =
        (w.entityTypeOf? id).bind fun τ => t.lookup? .entity τ.name name) ↔
        w.entityTypes.OneName e.typeId)) ∧
    ∀ id i, w.item? id = some i →
      ((∀ t : FunctionTable, t.Built → ∀ name, (build w t).resolveItem? w t id name =
        (w.itemTypeOf? id).bind fun τ => t.lookup? .item τ.name name) ↔
        w.itemTypes.OneName i.typeId) := by
  have hentity (t : FunctionTable) (ht : t.Built) (id : EntityId) (name : String) :
      (build w t).resolveEntity? w t id name = (w.entity? id).bind fun e =>
        (w.entityTypes.last? e.typeId).bind fun τ => t.lookup? .entity τ.name name := by
    unfold resolveEntity?
    congr 1
    funext e
    exact find?_ofCatalog ht.numbered ..
  have hitem (t : FunctionTable) (ht : t.Built) (id : ItemId) (name : String) :
      (build w t).resolveItem? w t id name = (w.item? id).bind fun i =>
        (w.itemTypes.last? i.typeId).bind fun τ => t.lookup? .item τ.name name := by
    unfold resolveItem?
    congr 1
    funext i
    exact find?_ofCatalog ht.numbered ..
  refine ⟨hentity, hitem, fun id e he => ?_, fun id i hi => ?_⟩
  · rw [← forall_lookup?_iff .entity]
    refine forall₃_congr fun t ht name => ?_
    rw [hentity t ht, entityTypeOf?, he, Option.bind_some, Option.bind_some]
    rfl
  · rw [← forall_lookup?_iff .item]
    refine forall₃_congr fun t ht name => ?_
    rw [hitem t ht, itemTypeOf?, hi, Option.bind_some, Option.bind_some]
    rfl

section Example

/-- A world in which the types of entities with the given names all have the number `0`. -/
def World.ofNames (names : List String) : World :=
  .ofCatalogs ⟨names.map fun name => { id := 0, name }⟩ {}

/-- A door has the functions of chests, which are listed behind doors under the same number. -/
theorem World.resolve_disagrees : ∃ w t,
    (ofNames ["Door", "Chest"]).spawn 0 ⟨0, 0, 0⟩ serverOwner = .ok (⟨0⟩, w) ∧
    FunctionTable.scan (FunctionTable.doorScripts ["door.open", "chest.take"])
      w.declaredFunctions = .ok t ∧
    (w.entityTypeOf? ⟨0⟩).map (·.name) = some "Door" ∧
    (t.lookup? .entity "Door" "open").map (·.scriptName) = some "door.open" ∧
    (build w t).resolveEntity? w t ⟨0⟩ "open" = none ∧
    ((build w t).resolveEntity? w t ⟨0⟩ "take").map (·.scriptName) = some "chest.take" := by
  obtain ⟨⟨id, w⟩, hw⟩ : ∃ x, (ofNames ["Door", "Chest"]).spawn 0 ⟨0, 0, 0⟩ serverOwner = .ok x :=
    ⟨_, rfl⟩
  obtain ⟨t, ht⟩ : ∃ t, FunctionTable.scan (FunctionTable.doorScripts ["door.open", "chest.take"])
      w.declaredFunctions = .ok t := by
    cases hw
    exact ⟨_, rfl⟩
  cases hw
  cases ht
  exact ⟨_, _, rfl, rfl, by decide +kernel, by decide +kernel, by decide +kernel, by decide +kernel⟩

/-- Two spellings of one name under one number are no matter. -/
theorem World.resolve_agrees_spellings : ∃ w e,
    (ofNames ["Door", "DOOR"]).spawn 0 ⟨0, 0, 0⟩ serverOwner = .ok (⟨0⟩, w) ∧
    w.entity? ⟨0⟩ = some e ∧ w.entityTypes.OneName e.typeId ∧
    ∀ t : FunctionTable, t.Built → ∀ name, (build w t).resolveEntity? w t ⟨0⟩ name =
      (w.entityTypeOf? ⟨0⟩).bind fun τ => t.lookup? .entity τ.name name := by
  obtain ⟨⟨id, w⟩, hw⟩ : ∃ x, (ofNames ["Door", "DOOR"]).spawn 0 ⟨0, 0, 0⟩ serverOwner = .ok x :=
    ⟨_, rfl⟩
  obtain ⟨e, he, hone⟩ : ∃ e, w.entity? ⟨0⟩ = some e ∧ w.entityTypes.OneName e.typeId := by
    cases hw
    refine ⟨_, rfl, ?_⟩
    rintro first last ⟨⟩ ⟨⟩
    decide
  cases hw
  exact ⟨_, e, rfl, he, hone, ((resolve_agrees _).2.2.1 _ _ he).2 hone⟩

end Example

end TileScript
